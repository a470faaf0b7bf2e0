import Mathlib.Data.List.Basic
import Mathlib.Data.Nat.Init
import PracticeShell.Proofs.Environment.Names

/-!
# Pieces of a text that is expanded

From left to right a text falls into pieces: closed parts between apostrophes, escaped characters,
references, and single characters (`Piece`). What a piece can be depends on whether double quotes are
open and on what follows (`Piece.Stands`). So each text has one reading
(`exists_isReading`, `IsReading.unique`).
-/

namespace PracticeShell.Environment

open Text.Letter (isAsciiWord)

/-- What a dollar sign refers to. -/
inductive Reference
  /-- The exit code of the last command. -/
  | status
  /-- A variable. -/
  | bare (name : List Char)
  /-- A variable between braces. -/
  | braced (name : List Char)
deriving DecidableEq

namespace Reference

/-- What is written after the dollar sign. -/
def text : Reference → List Char
  | status => ['?']
  | bare name => name
  | braced name => '\x7b' :: (name ++ ['\x7d'])

/-- What a reference is replaced by: an exit code, or the value of a variable, which is empty if there is
none. -/
def value (env : Environment) : Reference → List Char
  | status => (toString env.lastStatus).toList
  | bare name | braced name => ((env.get? (String.ofList name)).getD "").toList

/-- Whether a reference ends where a text goes on. The name of a variable is an identifier, and as long
as it can be if there are no braces around it. -/
def Fits : Reference → List Char → Prop
  | status, _ => True
  | bare name, rest => IsIdentifier name ∧ ∀ c ∈ rest.head?, isAsciiWord c = false
  | braced name, _ => IsIdentifier name

instance (r : Reference) (rest : List Char) : Decidable (r.Fits rest) :=
  match r with
  | status => inferInstanceAs (Decidable True)
  | bare name =>
    decidable_of_iff (IsIdentifier name ∧ rest.head?.all (!isAsciiWord ·) = true)
      (by cases rest <;> simp [Fits])
  | braced name => inferInstanceAs (Decidable (IsIdentifier name))

end Reference

/-- Whether a text begins with what can follow a dollar sign in a reference. -/
def Begins (cs : List Char) : Prop := ∃ r rest, cs = Reference.text r ++ rest ∧ r.Fits rest

section References

variable {env : Environment} {r r' : Reference} {cs name rest rest' : List Char}

theorem takeWhile_name (h : ∀ c ∈ name, isAsciiWord c = true)
    (hrest : ∀ c ∈ rest.head?, isAsciiWord c = false) :
    (name ++ rest).takeWhile isAsciiWord = name := by
  rw [List.takeWhile_append_of_pos h]
  cases rest with
  | nil => simp
  | cons c rest =>
      have hc : isAsciiWord c = false := hrest c rfl
      rw [List.takeWhile_cons_of_neg (by simp [hc]), List.append_nil]

theorem takeWhile_braced (h : IsIdentifier name) :
    (name ++ '\x7d' :: rest).takeWhile isAsciiWord = name :=
  takeWhile_name (fun _ => h.isAsciiWord) fun c hc => by
    obtain rfl : '\x7d' = c := by simpa using hc
    decide

theorem IsIdentifier.exists_cons (h : IsIdentifier name) :
    ∃ c more, name = c :: more ∧ isNameStart c = true := by
  cases name with
  | nil => exact h.elim
  | cons c more => exact ⟨c, more, rfl, h.1⟩

theorem isIdentifier_takeWhile_iff :
    IsIdentifier (cs.takeWhile isAsciiWord) ↔
      (cs.takeWhile isAsciiWord).head?.any isNameStart = true := by
  cases hname : cs.takeWhile isAsciiWord with
  | nil => exact ⟨False.elim, fun h => absurd h (by decide)⟩
  | cons c more =>
      refine ⟨And.left, fun h => ⟨h, fun d hd => ?_⟩⟩
      have hmem : d ∈ cs.takeWhile isAsciiWord := by rw [hname]; exact List.mem_cons_of_mem _ hd
      exact List.all_eq_true.1 List.all_takeWhile d hmem

theorem reference?_of_head (h : ∀ c ∈ cs.head?, c ≠ '?' ∧ c ≠ '\x7b') :
    env.reference? cs = if (cs.takeWhile isAsciiWord).head?.any isNameStart then
      some (Reference.value env (.bare (cs.takeWhile isAsciiWord)), (cs.takeWhile isAsciiWord).length)
    else none := by
  cases cs with
  | nil => rfl
  | cons c rest =>
      obtain ⟨hstatus, hbrace⟩ := h c rfl
      rw [reference?.eq_def]
      split
      · rename_i heq
        exact absurd (List.cons.inj heq).1 hstatus
      · rename_i heq
        exact absurd (List.cons.inj heq).1 hbrace
      · rfl

/-- A reference is read as what it refers to. -/
theorem reference?_text (h : r.Fits rest) :
    env.reference? (r.text ++ rest) = some (r.value env, r.text.length) := by
  cases r with
  | status => rfl
  | braced name =>
      have htake : (name ++ '\x7d' :: rest).takeWhile isAsciiWord = name := takeWhile_braced h
      have hstart := isIdentifier_takeWhile_iff.1 (htake.symm ▸ h)
      rw [htake] at hstart
      rw [Reference.text, List.cons_append, List.append_assoc, List.singleton_append, reference?]
      simp [htake, hstart, Reference.value]
  | bare name =>
      have htake := takeWhile_name (fun _ => h.1.isAsciiWord) h.2
      have hstart := isIdentifier_takeWhile_iff.1 (htake.symm ▸ h.1)
      obtain ⟨c, more, hname, hc⟩ := h.1.exists_cons
      have hhead : ∀ d ∈ (name ++ rest).head?, d ≠ '?' ∧ d ≠ '\x7b' := by
        intro d hd
        obtain rfl : c = d := by simpa [hname] using hd
        constructor <;> rintro rfl <;> exact absurd hc (by decide)
      rw [Reference.text, reference?_of_head hhead, if_pos hstart, htake]

theorem isAsciiWord_head?_dropWhile {c : Char} (h : c ∈ (cs.dropWhile isAsciiWord).head?) :
    isAsciiWord c = false := by
  have hhead := List.head?_dropWhile_not isAsciiWord cs
  rw [Option.mem_def.1 h] at hhead
  simpa using hhead

theorem begins_braced_of_reference? {found : List Char × Nat}
    (h : env.reference? ('\x7b' :: cs) = some found) : Begins ('\x7b' :: cs) := by
  rw [reference?] at h
  split at h
  · rename_i hname
    rw [Bool.and_eq_true, ← isIdentifier_takeWhile_iff, beq_iff_eq] at hname
    obtain ⟨tail, htail⟩ := List.takeWhile_prefix isAsciiWord (l := cs)
    generalize cs.takeWhile isAsciiWord = name at hname htail
    obtain rfl := htail
    rw [List.drop_left] at hname
    obtain ⟨rest, rfl⟩ := List.head?_eq_some_iff.1 hname.2
    exact ⟨.braced name, rest, by simp [Reference.text], hname.1⟩
  · cases h

theorem begins_of_takeWhile (h : (cs.takeWhile isAsciiWord).head?.any isNameStart = true) :
    Begins cs :=
  ⟨.bare (cs.takeWhile isAsciiWord), cs.dropWhile isAsciiWord,
    List.takeWhile_append_dropWhile.symm, isIdentifier_takeWhile_iff.2 h,
    fun _ => isAsciiWord_head?_dropWhile⟩

/-- Only what can follow a dollar sign is read as a reference. -/
theorem begins_of_reference? {found : List Char × Nat} (h : env.reference? cs = some found) :
    Begins cs := by
  by_cases hhead : ∀ c ∈ cs.head?, c ≠ '?' ∧ c ≠ '\x7b'
  · rw [reference?_of_head hhead] at h
    split at h
    · exact begins_of_takeWhile ‹_›
    · cases h
  · cases cs with
    | nil => exact absurd (by simp) hhead
    | cons c rest =>
        by_cases hstatus : c = '?'
        · exact ⟨.status, rest, by rw [hstatus]; rfl, trivial⟩
        · obtain rfl : c = '\x7b' := by
            by_cases hbrace : c = '\x7b'
            · exact hbrace
            · exact absurd (by simp [hstatus, hbrace]) hhead
          exact begins_braced_of_reference? h

theorem reference?_eq_none (h : ¬ Begins cs) : env.reference? cs = none := by
  cases hfound : env.reference? cs with
  | none => rfl
  | some found => exact absurd (begins_of_reference? hfound) h

theorem not_isIdentifier_cons {c : Char} (h : isNameStart c = false) : ¬ IsIdentifier (c :: cs) :=
  fun hname => by
    have hstart := hname.1
    rw [h] at hstart
    cases hstart

theorem eq_of_text_eq (h : r.Fits rest) (h' : r'.Fits rest') (heq : r.text = r'.text) : r = r' := by
  have hstatus {cs : List Char} : ¬ IsIdentifier ('?' :: cs) := not_isIdentifier_cons (by decide)
  have hbrace {cs : List Char} : ¬ IsIdentifier ('\x7b' :: cs) := not_isIdentifier_cons (by decide)
  cases r with
  | status =>
      cases r' with
      | status => rfl
      | bare name =>
          obtain rfl : ['?'] = name := heq
          exact absurd h'.1 hstatus
      | braced name => exact absurd (List.cons.inj heq).1 (by decide)
  | bare name =>
      obtain ⟨hname, -⟩ := h
      rw [Reference.text] at heq
      cases r' with
      | status => exact absurd (heq ▸ hname) hstatus
      | bare other => exact congrArg _ heq
      | braced other => exact absurd (heq ▸ hname) hbrace
  | braced name =>
      cases r' with
      | status => exact absurd (List.cons.inj heq).1 (by decide)
      | bare other =>
          obtain rfl : '\x7b' :: (name ++ ['\x7d']) = other := heq
          exact absurd h'.1 hbrace
      | braced other => exact congrArg _ (List.append_cancel_right (List.cons.inj heq).2)

/-- A text begins with one reference at most. -/
theorem reference_unique (h : r.Fits rest) (h' : r'.Fits rest')
    (heq : r.text ++ rest = r'.text ++ rest') : r = r' ∧ rest = rest' := by
  have hread : reference? ⟨[], [], 0⟩ (r.text ++ rest) = _ := reference?_text h
  rw [heq, reference?_text h', Option.some.injEq, Prod.mk.injEq] at hread
  obtain ⟨htext, hrest⟩ := List.append_inj heq hread.2.symm
  exact ⟨eq_of_text_eq h h' htext, hrest⟩

/-- What begins a text begins all that goes on from it. -/
theorem Begins.append (h : Begins cs) (more : List Char) : Begins (cs ++ more) := by
  obtain ⟨r, rest, rfl, hfits⟩ := h
  cases r with
  | status => exact ⟨.status, rest ++ more, List.append_assoc _ _ _, trivial⟩
  | braced name => exact ⟨.braced name, rest ++ more, List.append_assoc _ _ _, hfits⟩
  | bare name =>
      -- The name can be longer where the text goes on.
      obtain ⟨c, tail, rfl, hc⟩ := hfits.1.exists_cons
      refine begins_of_takeWhile ?_
      rw [Reference.text, List.cons_append, List.cons_append,
        List.takeWhile_cons_of_pos (isAsciiWord_of_isNameStart hc)]
      exact hc

end References

/-- A piece of a text that is expanded. -/
inductive Piece
  /-- A closed part between apostrophes. -/
  | quoted (part : List Char)
  /-- A backslash with the character that it protects. -/
  | escaped (c : Char)
  | reference (r : Reference)
  /-- An apostrophe that is never closed. -/
  | unclosed
  /-- Any other character. -/
  | plain (c : Char)
deriving DecidableEq

namespace Piece

/-- How a piece is written. -/
def source : Piece → List Char
  | quoted part => '\'' :: (part ++ ['\''])
  | escaped c => ['\\', c]
  | reference r => '$' :: r.text
  | unclosed => ['\'']
  | plain c => [c]

/-- What a piece is expanded to: only references are replaced. -/
def result (env : Environment) : Piece → List Char
  | reference r => r.value env
  | p => p.source

/-- Whether double quotes are open after a piece, given whether they are before it. -/
def next (inDouble : Bool) : Piece → Bool
  | plain c => if c = '"' then !inDouble else inDouble
  | _ => inDouble

/-- Whether a piece can stand before a text, where double quotes are open or not. Apostrophes quote
outside of double quotes only, and a character is plain if it begins no other piece. -/
def Stands (inDouble : Bool) : Piece → List Char → Prop
  | quoted part, _ => inDouble = false ∧ '\'' ∉ part
  | escaped _, _ => True
  | reference r, rest => r.Fits rest
  | unclosed, rest => inDouble = false ∧ '\'' ∉ rest
  | plain c, rest =>
    (c = '\'' → inDouble = true) ∧ (c = '\\' → rest = []) ∧ (c = '$' → ¬ Begins rest)

end Piece

/-- The text of pieces. -/
def sources (ps : List Piece) : List Char := ps.flatMap Piece.source

/-- What pieces are expanded to, one after the other. -/
def results (env : Environment) (ps : List Piece) : List Char := ps.flatMap (Piece.result env)

/-- Whether pieces are what their text is read as, from left to right. -/
def IsReading : Bool → List Piece → Prop
  | _, [] => True
  | inDouble, p :: ps => p.Stands inDouble (sources ps) ∧ IsReading (p.next inDouble) ps

section Readings

variable {p q : Piece} {ps qs : List Piece} {inDouble : Bool} {cs rest rest' : List Char}

@[simp] theorem sources_nil : sources [] = [] := rfl

@[simp]
theorem sources_cons (p : Piece) (ps : List Piece) : sources (p :: ps) = p.source ++ sources ps := rfl

@[simp]
theorem sources_append (ps qs : List Piece) : sources (ps ++ qs) = sources ps ++ sources qs :=
  List.flatMap_append

@[simp] theorem results_nil (env : Environment) : results env [] = [] := rfl

@[simp]
theorem results_cons (env : Environment) (p : Piece) (ps : List Piece) :
    results env (p :: ps) = p.result env ++ results env ps := rfl

@[simp]
theorem results_append (env : Environment) (ps qs : List Piece) :
    results env (ps ++ qs) = results env ps ++ results env qs :=
  List.flatMap_append

/-- A text that is not empty begins with a piece. -/
theorem exists_stands (c : Char) (inDouble : Bool) (cs : List Char) :
    ∃ (p : Piece) (rest : List Char), p.Stands inDouble rest ∧ p.source ++ rest = c :: cs := by
  by_cases hquote : c = '\'' ∧ inDouble = false
  · obtain ⟨rfl, hdouble⟩ := hquote
    by_cases hclosed : '\'' ∈ cs
    · obtain ⟨part, rest, rfl, hpart⟩ := List.eq_append_cons_of_mem hclosed
      exact ⟨.quoted part, rest, ⟨hdouble, hpart⟩, by simp [Piece.source]⟩
    · exact ⟨.unclosed, cs, ⟨hdouble, hclosed⟩, rfl⟩
  · by_cases hescape : c = '\\' ∧ cs ≠ []
    · obtain ⟨rfl, hne⟩ := hescape
      obtain ⟨d, rest, rfl⟩ := List.exists_cons_of_ne_nil hne
      exact ⟨.escaped d, rest, trivial, rfl⟩
    · by_cases hdollar : c = '$' ∧ Begins cs
      · obtain ⟨rfl, r, rest, rfl, hfits⟩ := hdollar
        exact ⟨.reference r, rest, hfits, rfl⟩
      · refine ⟨.plain c, cs, ⟨fun hc => ?_, fun hc => ?_, fun hc hbegins => ?_⟩, rfl⟩
        · simpa [hc] using hquote
        · simpa [hc] using hescape
        · exact hdollar ⟨hc, hbegins⟩

theorem source_ne_nil (p : Piece) : p.source ≠ [] := by cases p <;> simp [Piece.source]

theorem sources_eq_nil_iff : sources ps = [] ↔ ps = [] := by
  cases ps with
  | nil => simp
  | cons p ps => simp [source_ne_nil]

/-- Every text has a reading. -/
theorem exists_isReading (inDouble : Bool) (cs : List Char) :
    ∃ ps, sources ps = cs ∧ IsReading inDouble ps := by
  induction hlength : cs.length using Nat.strong_induction_on generalizing inDouble cs with
  | _ n ih =>
      cases cs with
      | nil => exact ⟨[], rfl, trivial⟩
      | cons c cs =>
          obtain ⟨p, rest, hstands, hsource⟩ := exists_stands c inDouble cs
          have hshorter : rest.length < n := by
            have hpositive := List.length_pos_of_ne_nil (source_ne_nil p)
            rw [← hlength, ← hsource, List.length_append]
            omega
          obtain ⟨ps, rfl, hps⟩ := ih rest.length hshorter (p.next inDouble) rest rfl
          exact ⟨p :: ps, hsource, hstands, hps⟩

/-- Where a character is plain, no other piece begins. -/
theorem plain_unique {c : Char} (hp : (Piece.plain c).Stands inDouble rest)
    (hq : q.Stands inDouble rest') (heq : c :: rest = q.source ++ rest') :
    .plain c = q ∧ rest = rest' := by
  obtain ⟨hquote, hescape, hdollar⟩ := hp
  cases q with
  | plain d =>
      obtain ⟨rfl, rfl⟩ := List.cons.inj heq
      exact ⟨rfl, rfl⟩
  | quoted part =>
      have hdouble := hquote (List.cons.inj heq).1
      rw [hq.1] at hdouble
      cases hdouble
  | unclosed =>
      have hdouble := hquote (List.cons.inj heq).1
      rw [hq.1] at hdouble
      cases hdouble
  | escaped d =>
      obtain ⟨hc, hrest⟩ := List.cons.inj heq
      rw [hescape hc] at hrest
      cases hrest
  | reference r =>
      obtain ⟨hc, hrest⟩ := List.cons.inj heq
      exact absurd ⟨r, rest', hrest, hq⟩ (hdollar hc)

/-- A text begins with one piece only. -/
theorem stands_unique (hp : p.Stands inDouble rest) (hq : q.Stands inDouble rest')
    (heq : p.source ++ rest = q.source ++ rest') : p = q ∧ rest = rest' := by
  have hhead {c d : Char} {cs ds : List Char} (hne : c ≠ d) (h : c :: cs = d :: ds) : False :=
    hne (List.cons.inj h).1
  cases p with
  | plain c => exact plain_unique hp hq heq
  | quoted part =>
      cases q with
      | quoted other =>
          have hparts : part ++ '\'' :: rest = other ++ '\'' :: rest' := by
            simpa [Piece.source] using heq
          -- The closing apostrophe is the first one after the opening one.
          have hlength := congrArg (List.idxOf '\'') hparts
          rw [List.idxOf_append_of_notMem hp.2, List.idxOf_append_of_notMem hq.2,
            List.idxOf_cons_self, List.idxOf_cons_self] at hlength
          obtain ⟨rfl, hrest⟩ := List.append_inj hparts hlength
          exact ⟨rfl, (List.cons.inj hrest).2⟩
      | unclosed =>
          obtain rfl : part ++ ['\''] ++ rest = rest' := (List.cons.inj heq).2
          exact absurd (by simp) hq.2
      | escaped d => exact (hhead (by decide) heq).elim
      | reference r => exact (hhead (by decide) heq).elim
      | plain c => exact (plain_unique hq hp heq.symm).imp Eq.symm Eq.symm
  | escaped c =>
      cases q with
      | escaped d =>
          obtain ⟨rfl, rfl⟩ := List.cons.inj (List.cons.inj heq).2
          exact ⟨rfl, rfl⟩
      | quoted part => exact (hhead (by decide) heq).elim
      | unclosed => exact (hhead (by decide) heq).elim
      | reference r => exact (hhead (by decide) heq).elim
      | plain d => exact (plain_unique hq hp heq.symm).imp Eq.symm Eq.symm
  | reference r =>
      cases q with
      | reference r' =>
          obtain ⟨rfl, rfl⟩ := reference_unique hp hq (List.cons.inj heq).2
          exact ⟨rfl, rfl⟩
      | quoted part => exact (hhead (by decide) heq).elim
      | unclosed => exact (hhead (by decide) heq).elim
      | escaped d => exact (hhead (by decide) heq).elim
      | plain d => exact (plain_unique hq hp heq.symm).imp Eq.symm Eq.symm
  | unclosed =>
      cases q with
      | unclosed => exact ⟨rfl, (List.cons.inj heq).2⟩
      | quoted part =>
          obtain rfl : rest = part ++ ['\''] ++ rest' := (List.cons.inj heq).2
          exact absurd (by simp) hp.2
      | escaped d => exact (hhead (by decide) heq).elim
      | reference r => exact (hhead (by decide) heq).elim
      | plain c => exact (plain_unique hq hp heq.symm).imp Eq.symm Eq.symm

/-- A text has one reading only. -/
theorem IsReading.unique (hp : IsReading inDouble ps) (hq : IsReading inDouble qs)
    (heq : sources ps = sources qs) : ps = qs := by
  induction ps generalizing inDouble qs with
  | nil =>
      cases qs with
      | nil => rfl
      | cons q qs => exact absurd (List.append_eq_nil_iff.1 heq.symm).1 (source_ne_nil q)
  | cons p ps ih =>
      cases qs with
      | nil => exact absurd (List.append_eq_nil_iff.1 heq).1 (source_ne_nil p)
      | cons q qs =>
          obtain ⟨rfl, hrest⟩ := stands_unique hp.1 hq.1 heq
          rw [ih hp.2 hq.2 hrest]

end Readings

end PracticeShell.Environment
