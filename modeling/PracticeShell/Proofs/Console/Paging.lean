import Mathlib.Data.List.Basic
import PracticeShell.Console
import PracticeShell.Proofs.Session.Inputs

/-!
# Texts page by page

A pager is given answers as long as it asks for more (`Console.browse`). The lines of the text are cut into
pages, which hold all of them in order (`flatten_pagesOf`) and are full, the last one possibly excepted.
The pager asks after each page but the last, until the first answer that ends it, and has then written
the pages so far and nothing else (`Console.pages_are_turned`).
-/

namespace PracticeShell.Console

open Run

section Pages

variable {size : Nat} {lines : List String}

/-- The pages hold all lines in order. -/
theorem flatten_pagesOf (hsize : 0 < size) (lines : List String) :
    (pagesOf size lines).flatten = lines := by
  fun_induction pagesOf size lines with
  | case1 lines h => exact (h.resolve_right (Nat.ne_of_gt hsize)).symm
  | case2 lines h this ih => rw [List.flatten_cons, ih, List.take_append_drop]

theorem ne_nil_of_mem_pagesOf (size : Nat) (lines : List String) :
    ∀ page ∈ pagesOf size lines, page ≠ [] ∧ page.length ≤ size := by
  fun_induction pagesOf size lines with
  | case1 lines h => simp
  | case2 lines h this ih =>
      obtain ⟨hlines, hsize⟩ := not_or.1 h
      rw [List.forall_mem_cons]
      exact ⟨⟨by simp [hlines, hsize], List.length_take_le _ _⟩, ih⟩

/-- All pages but the last are full. -/
theorem length_of_mem_dropLast_pagesOf (size : Nat) (lines : List String) :
    ∀ page ∈ (pagesOf size lines).dropLast, page.length = size := by
  fun_induction pagesOf size lines with
  | case1 lines h => simp
  | case2 lines h this ih =>
      by_cases hrest : pagesOf size (lines.drop size) = []
      · simp [hrest]
      · have hlong : size < lines.length := by
          refine Nat.lt_of_not_le fun hshort => hrest ?_
          rw [List.drop_eq_nil_of_le hshort, pagesOf, dif_pos (.inl rfl)]
        rw [List.dropLast_cons_of_ne_nil hrest, List.forall_mem_cons, List.length_take]
        exact ⟨by omega, ih⟩

theorem pageSize_pos (height : Int) : 0 < pageSize height := by
  unfold pageSize
  omega

end Pages

/-- Whether an answer ends a pager: `q`, whatever its case and the blanks around it. -/
def endsPaging (answer : String) : Bool := Text.Case.lower (Text.Blank.trim answer) == "q"

/-- Whether a console asks for the next page. -/
def asksForMore (c : Console) : Bool :=
  match c.waiting with
  | .page _ => true
  | _ => false

/-- Gives answers to a console, one each time that it asks for the next page. -/
def turnPages : List String → Action Unit
  | [] => return ()
  | answer :: answers => do
    if (← get).asksForMore then
      take answer
      turnPages answers

/-- Shows a text in a pager that is given answers. -/
def browse (content : String) (answers : List String) : Action Unit := do
  showText content
  turnPages answers

/-- A console that asks for the next page after a run. -/
def asking? : EStateM.Result Session.Fault Console Unit → Option Console
  | .ok () c => if c.asksForMore then some c else none
  | .error .. => none

/-- The console each time that the pager asks: first after no answers, and then as long as it asks
again after one more. -/
def asked (content : String) (answers : List String) (c : Console) : List Console :=
  (List.range (answers.length + 1)).filterMap fun count =>
    asking? ((browse content (answers.take count)).run c)

/-- A console that has written some of the pages and asked some times. -/
def paged (pages : List (List String)) (shown asked : Nat) (c : Console) : Console :=
  { c with
    written := c.written ++ (pages.take shown).flatten.map (· ++ "\n")
    waiting := if asked = 0 then c.waiting else .page (pages.drop asked) }

variable {c d : Console} {answers : List String}

theorem run_writeLine (line : String) (c : Console) :
    (writeLine line).run c = .ok () { c with written := c.written ++ [line ++ "\n"] } := by
  rw [writeLine, write, if_neg (by simp)]
  rfl

theorem run_writeLines (lines : List String) (c : Console) :
    (writeLines lines).run c = .ok () { c with written := c.written ++ lines.map (· ++ "\n") } := by
  unfold writeLines
  induction lines generalizing c with
  | nil => simp
  | cons line lines ih =>
      rw [List.forM_eq_forM, List.forM_cons, run_bind_of_ok (run_writeLine line c),
        ← List.forM_eq_forM, ih]
      simp

theorem paged_nil (c : Console) : c.paged [] 0 0 = c := by simp [paged]

theorem paged_succ (page : List String) (pages : List (List String)) (shown asked : Nat)
    (c : Console) : (c.paged (page :: pages) 1 1).paged pages shown asked =
      c.paged (page :: pages) (shown + 1) (asked + 1) := by
  cases asked <;> simp [paged]

theorem run_showPages_cons (page next : List String) (pages : List (List String)) (c : Console) :
    (showPages (page :: next :: pages)).run c = .ok () (c.paged (page :: next :: pages) 1 1) := by
  unfold showPages
  rw [run_bind_of_ok (run_writeLines page c)]
  simp [paged, await]

theorem run_turnPages_of_not_asks (h : c.asksForMore = false) (answers : List String) :
    (turnPages answers).run c = .ok () c := by
  cases answers with
  | nil => rfl
  | cons answer answers =>
      rw [turnPages, run_get_bind, h]
      rfl

theorem run_turnPages_cons (h : c.asksForMore = true) (answer : String) (answers : List String) :
    (turnPages (answer :: answers)).run c =
      (do take answer; turnPages answers : Action Unit).run c := by
  rw [turnPages, run_get_bind, h]
  rfl

/-- Once its screen is closed, a console does not ask for a page. -/
theorem not_asks_of_close {resolution : Resolution} (h : (close resolution).run c = .ok () d) :
    d.asksForMore = false := by
  obtain ⟨r, x, -, h⟩ := run_bind_eq_ok_iff.1 h
  obtain ⟨-, y, -, h⟩ := run_bind_eq_ok_iff.1 h
  cases h
  rfl

theorem run_close_turnPages (answers : List String) (c : Console) :
    (do close .cancelled; turnPages answers : Action Unit).run c = (close .cancelled).run c := by
  cases hclose : (close .cancelled).run c with
  | ok done d => rw [run_bind_of_ok hclose, run_turnPages_of_not_asks (not_asks_of_close hclose)]
  | error e d =>
      rw [EStateM.run] at hclose
      simp only [bind, EStateM.run, EStateM.bind, hclose]

theorem run_showPages_single_turnPages (page : List String) (answers : List String) (c : Console) :
    (do showPages [page]; turnPages answers : Action Unit).run c =
      (close .cancelled).run (c.paged [page] 1 0) := by
  have hshown : (writeLines page).run c = .ok () (c.paged [page] 1 0) := by
    rw [run_writeLines]
    simp [paged]
  rw [showPages, bind_assoc, run_bind_of_ok hshown]
  exact run_close_turnPages answers _

/-- What an answer does where the pager asks: it closes the pager or shows the next pages. -/
theorem run_take_turnPages {pages : List (List String)} (h : c.waiting = .page pages)
    (answer : String) (answers : List String) :
    (turnPages (answer :: answers)).run c =
      if endsPaging answer then (close .cancelled).run c
      else (do showPages pages; turnPages answers : Action Unit).run c := by
  have hasks : c.asksForMore = true := by rw [asksForMore, h]
  have htake : (take answer).run c = (takePage answer pages).run c := by
    rw [take, run_get_bind, h]
  rw [run_turnPages_cons hasks, EStateM.run_bind, htake, ← EStateM.run_bind]
  unfold takePage endsPaging
  split
  · rename_i hends
    rw [if_pos (by simpa using hends)]
    exact run_close_turnPages answers c
  · rename_i hends
    rw [if_neg (by simpa using hends)]

/-- How many of the pages are shown, and how often the pager asks: it goes on after each answer before
the first that ends it. -/
theorem run_showPages_turnPages (pages : List (List String)) (answers : List String) (c : Console) :
    (do showPages pages; turnPages answers : Action Unit).run c =
      if answers.findIdx endsPaging = answers.length ∧ answers.length + 1 < pages.length then
        .ok () (c.paged pages (answers.length + 1) (answers.length + 1))
      else (close .cancelled).run (c.paged pages
        (min (answers.findIdx endsPaging + 1) pages.length)
        (min (answers.findIdx endsPaging + 1) (pages.length - 1))) := by
  induction pages generalizing answers c with
  | nil =>
      rw [if_neg (by simp)]
      exact (run_close_turnPages answers c).trans (by simp [paged_nil])
  | cons page pages ih =>
      cases pages with
      | nil =>
          rw [if_neg (by simp), run_showPages_single_turnPages]
          simp
      | cons next pages =>
          rw [run_bind_of_ok (run_showPages_cons page next pages c)]
          cases answers with
          | nil => simp [turnPages]
          | cons answer answers =>
              rw [run_take_turnPages rfl, List.findIdx_cons]
              cases hends : endsPaging answer with
              | true => simp
              | false =>
                  rw [if_neg Bool.false_ne_true, List.drop_succ_cons, List.drop_zero, ih]
                  simp [paged_succ]

theorem run_browse {height : Int} (h : c.manner.height = some height) (content : String)
    (answers : List String) : (browse content answers).run c =
      (do showPages (pagesOf (pageSize height) (Text.Lines.split content)); turnPages answers :
        Action Unit).run c := by
  have hshow : (showText content).run c =
      (showPages (pagesOf (pageSize height) (Text.Lines.split content))).run c := by
    rw [showText, run_get_bind, h]
  rw [browse, EStateM.run_bind, hshow, ← EStateM.run_bind]

/-- When a pager asks again: no answer has ended it, and there are pages left. -/
theorem asking?_browse {height : Int} (h : c.manner.height = some height) (content : String)
    (answers : List String) :
    let pages := pagesOf (pageSize height) (Text.Lines.split content)
    asking? ((browse content answers).run c) =
      if answers.findIdx endsPaging = answers.length ∧ answers.length + 1 < pages.length then
        some (c.paged pages (answers.length + 1) (answers.length + 1)) else none := by
  intro pages
  rw [run_browse h, run_showPages_turnPages]
  split
  · rfl
  · generalize c.paged _ _ _ = d
    cases hclose : (close .cancelled).run d with
    | ok done e => rw [asking?, not_asks_of_close hclose]; rfl
    | error e d => rfl

/-- A choice that takes the numbers below a bound and no others. -/
theorem filterMap_range {α : Type} {f : Nat → Option α} {g : Nat → α} {n m : Nat} (h : m ≤ n)
    (htakes : ∀ i < n, f i = if i < m then some (g i) else none) :
    (List.range n).filterMap f = (List.range m).map g := by
  obtain ⟨k, rfl⟩ := Nat.exists_eq_add_of_le h
  have hbelow : (List.range m).filterMap f = (List.range m).map g := by
    rw [List.filterMap_eq_map_iff_forall_eq_some]
    intro i hi
    have hlt := List.mem_range.1 hi
    rw [htakes i (by omega), if_pos hlt]
  have habove : ((List.range k).map fun i => m + i).filterMap f = [] := by
    rw [List.filterMap_eq_nil_iff, List.forall_mem_map]
    intro i hi
    have hlt := List.mem_range.1 hi
    rw [htakes (m + i) (by omega), if_neg (by omega)]
  rw [List.range_add, List.filterMap_append, hbelow, habove, List.append_nil]

/-- The pager asks after each page but the last, as long as no answer has ended it. -/
theorem asked_eq {height : Int} (h : c.manner.height = some height) (content : String)
    (answers : List String) :
    let pages := pagesOf (pageSize height) (Text.Lines.split content)
    asked content answers c =
      (List.range (min (answers.findIdx endsPaging + 1) (pages.length - 1))).map fun i =>
        c.paged pages (i + 1) (i + 1) := by
  intro pages
  have hle : answers.findIdx endsPaging ≤ answers.length := List.findIdx_le_length
  refine filterMap_range (by omega) fun i hi => ?_
  have hgiven : min i answers.length = i := by omega
  rw [asking?_browse h, List.findIdx_take, List.length_take, hgiven]
  have hasks : (min i (answers.findIdx endsPaging) = i ∧ i + 1 < pages.length) ↔
      i < min (answers.findIdx endsPaging + 1) (pages.length - 1) := by omega
  simp only [← hasks]
  rfl

/-- Where the pager asks, its question stands there and lines are left. -/
theorem of_mem_asked {height : Int} (h : c.manner.height = some height) {content : String}
    (hasked : d ∈ asked content answers c) : d.prompt = Look.bright.apply "--More--" ∧
      ∃ shown left, left ≠ [] ∧ Text.Lines.split content = shown ++ left ∧
        d.written = c.written ++ shown.map (· ++ "\n") := by
  rw [asked_eq h, List.mem_map] at hasked
  obtain ⟨i, hi, rfl⟩ := hasked
  have hlt := List.mem_range.1 hi
  generalize hpages : pagesOf (pageSize height) (Text.Lines.split content) = pages at hlt ⊢
  refine ⟨by simp [prompt, paged], (pages.take (i + 1)).flatten, (pages.drop (i + 1)).flatten,
    ?_, ?_, rfl⟩
  · obtain ⟨page, hpage⟩ := List.exists_mem_of_ne_nil (pages.drop (i + 1))
      (by rw [ne_eq, List.drop_eq_nil_iff]; omega)
    have hfull := (ne_nil_of_mem_pagesOf _ _ page (hpages ▸ List.mem_of_mem_drop hpage)).1
    intro hnil
    exact hfull (List.flatten_eq_nil_iff.1 hnil page hpage)
  · rw [← List.flatten_append, List.take_append_drop, ← hpages,
      flatten_pagesOf (pageSize_pos height)]

/-- Over the network a text is cut into pages that hold all its lines in order, each full but the last.
The pager shows the first page, asks while pages are left, and shows the next one after each answer
until the first that is `q`; then it closes its screen, having written these pages and nothing else. If
no answer is `q` and there are enough of them, it shows all pages and asks between them. -/
theorem pages_are_turned {height : Int} (h : c.manner.height = some height) (content : String)
    (answers : List String) :
    let lines := Text.Lines.split content
    let pages := pagesOf (pageSize height) lines
    let turns := answers.findIdx endsPaging + 1
    ((pageSize height : Int) = max (height - 1) 1 ∧ pages.flatten = lines ∧
      (∀ page ∈ pages, page ≠ [] ∧ page.length ≤ pageSize height) ∧
      ∀ page ∈ pages.dropLast, page.length = pageSize height) ∧
    (asked content answers c = (List.range (min turns (pages.length - 1))).map fun i =>
      c.paged pages (i + 1) (i + 1)) ∧
    (∀ d ∈ asked content answers c, d.prompt = Look.bright.apply "--More--" ∧
      ∃ shown left, left ≠ [] ∧ lines = shown ++ left ∧
        d.written = c.written ++ shown.map (· ++ "\n")) ∧
    ((browse content answers).run c =
      if answers.findIdx endsPaging = answers.length ∧ answers.length + 1 < pages.length then
        .ok () (c.paged pages turns turns)
      else (close .cancelled).run (c.paged pages (min turns pages.length)
        (min turns (pages.length - 1)))) ∧
    ((∀ answer ∈ answers, endsPaging answer = false) → pages.length ≤ answers.length + 1 →
      (asked content answers c).length = pages.length - 1 ∧
      ∃ d, (browse content answers).run c = (close .cancelled).run d ∧ d.session = c.session ∧
        d.written = c.written ++ lines.map (· ++ "\n")) := by
  intro lines pages turns
  have hpos := pageSize_pos height
  have hflatten : pages.flatten = lines := flatten_pagesOf hpos lines
  have hrun : (browse content answers).run c =
      if answers.findIdx endsPaging = answers.length ∧ answers.length + 1 < pages.length then
        .ok () (c.paged pages turns turns)
      else (close .cancelled).run (c.paged pages (min turns pages.length)
        (min turns (pages.length - 1))) := by
    rw [run_browse h, run_showPages_turnPages]
    split
    · rename_i hasks
      rw [← hasks.1]
    · rfl
  refine ⟨⟨by unfold pageSize; omega, hflatten, ne_nil_of_mem_pagesOf _ _,
    length_of_mem_dropLast_pagesOf _ _⟩, asked_eq h content answers,
    fun d hasked => of_mem_asked h hasked, hrun, fun hnone henough => ?_⟩
  have hlast : answers.findIdx endsPaging = answers.length := List.findIdx_eq_length.2 hnone
  have hasks : min turns (pages.length - 1) = pages.length - 1 := by omega
  have hall : min turns pages.length = pages.length := by omega
  refine ⟨?_, _, hrun.trans (if_neg (by omega)), rfl, ?_⟩
  · rw [asked_eq h, List.length_map, List.length_range]
    exact hasks
  · rw [hall, paged, List.take_length, hflatten]

/-- On a screen of two lines, three lines come one by one. -/
theorem three_lines_are_turned :
    asked "a\nb\nc" ["", " Q "] (.start Session.justBegun (.network 2)) =
      [(Console.start Session.justBegun (.network 2)).paged [["a"], ["b"], ["c"]] 1 1,
        (Console.start Session.justBegun (.network 2)).paged [["a"], ["b"], ["c"]] 2 2] := by
  have hturned := (pages_are_turned (c := .start Session.justBegun (.network 2)) rfl "a\nb\nc"
    ["", " Q "]).2.1
  have hpages : pagesOf (pageSize 2) (Text.Lines.split "a\nb\nc") = [["a"], ["b"], ["c"]] := by
    decide +kernel
  have hends : ["", " Q "].findIdx endsPaging = 1 := by decide +kernel
  rwa [hpages, hends] at hturned

end PracticeShell.Console
