import PracticeShell.Proofs.Guard.Superuser
import PracticeShell.Proofs.Redirection.Squeezing

/-!
# Removals that say more

What the guard says of a removal depends on four questions: whether a target is protected or critical,
whether whole directories are removed, whether a target looks important, and whether what is removed
with all that is in it is a directory. Where more of them are answered with yes, the warning is as
grave or graver (`grade_mono`). Each answer stays a yes when words or critical paths are added, so no
removal gets through more easily for saying more (`removal_that_says_more_is_as_grave`).
-/

namespace PracticeShell.Guard

open Redirection (IsVerbatim operators operatorsFrom)
open Text.Blank (isBlank trim dropWhileEnd)
open Words (scan quoted)

/-- How grave a level is. -/
def Level.rank : Level → Nat
  | warning => 1
  | danger => 2
  | critical => 3

/-- How grave is what the guard says. No warning at all is less grave than any. -/
def gravity (w : Option Warning) : Nat := w.elim 0 (·.level.rank)

/-- How grave a removal is that has a vital target, goes through whole directories, has a target that
looks important, or takes away what a directory holds. -/
def grade (vital recursive important whole : Bool) : Nat :=
  if vital then 3
  else if recursive && important then 2
  else if recursive && whole || important then 1
  else 0

theorem grade_mono : ∀ {vital vital' recursive recursive' important important' whole whole' : Bool},
    (vital → vital') → (recursive → recursive') → (important → important') → (whole → whole') →
      grade vital recursive important whole ≤ grade vital' recursive' important' whole' := by
  decide

namespace Situation

variable {s : Situation} {words more : List String}

/-- Whether one of the places that operands mean is protected or critical. -/
def hasVital (s : Situation) (operands : List String) : Bool :=
  (s.targets operands).any s.isProtected || (s.targets operands).any s.isCritical

/-- Whether one of the places that operands mean looks important. -/
def hasImportant (s : Situation) (operands : List String) : Bool :=
  (s.targets operands).any isImportant

/-- Whether a removal of whole directories has something to go through. -/
def hasWhole (s : Situation) (operands : List String) : Bool :=
  !(s.targets operands).isEmpty && s.fs.all fun fs => (s.targets operands).any fs.isDirectory

/-- A situation in which the critical paths of the adventure are others. -/
def withCritical (s : Situation) (critical : List String) : Situation := { s with critical }

theorem targets_subset (h : words ⊆ more) : s.targets words ⊆ s.targets more :=
  List.filter_subset _ (List.map_subset _ h)

end Situation

theorem any_of_subset {α : Type} {p q : α → Bool} {l m : List α} (hl : l ⊆ m)
    (hp : ∀ a, p a = true → q a = true) (h : l.any p = true) : m.any q = true := by
  obtain ⟨a, ha, hpa⟩ := List.any_eq_true.1 h
  exact List.any_eq_true.2 ⟨a, hl ha, hp a hpa⟩

section Words

variable {s : Situation} {words more critical : List String} (h : words ⊆ more)

include h

theorem operandsOf_subset : operandsOf words ⊆ operandsOf more := List.filter_subset _ h

theorem isRecursive_of_subset (hrecursive : isRecursive words = true) : isRecursive more = true := by
  have hletters : flagLetters words ⊆ flagLetters more := by
    intro letter hletter
    obtain ⟨word, hword, hmem⟩ := List.mem_flatMap.1 hletter
    exact List.mem_flatMap.2 ⟨word, h hword, hmem⟩
  exact any_of_subset hletters (fun _ => id) hrecursive

theorem hasImportant_of_subset (himportant : s.hasImportant words = true) :
    s.hasImportant more = true :=
  any_of_subset (Situation.targets_subset h) (fun _ => id) himportant

theorem hasVital_of_subset (hcritical : s.critical ⊆ critical) (hvital : s.hasVital words = true) :
    (s.withCritical critical).hasVital more = true := by
  have htouches : ∀ path, s.isCritical path = true →
      (s.withCritical critical).isCritical path = true :=
    fun path => any_of_subset (List.append_subset.2 ⟨List.subset_append_left _ _,
      fun _ h => List.mem_append_right _ (hcritical h)⟩) fun _ => id
  have htargets := Situation.targets_subset (s := s) h
  rw [Situation.hasVital, Bool.or_eq_true] at hvital ⊢
  exact hvital.imp (any_of_subset htargets fun _ => id) (any_of_subset htargets htouches)

theorem hasWhole_of_subset (hwhole : s.hasWhole words = true) : s.hasWhole more = true := by
  have htargets := Situation.targets_subset (s := s) h
  rw [Situation.hasWhole, Bool.and_eq_true] at hwhole ⊢
  refine ⟨?_, ?_⟩
  · obtain ⟨target, htarget⟩ := List.exists_mem_of_ne_nil _ (by simpa using hwhole.1)
    simpa using List.ne_nil_of_mem (htargets htarget)
  · cases hfs : s.fs with
    | none => rfl
    | some fs =>
        have hany := hwhole.2
        rw [hfs, Option.all_some] at hany
        exact any_of_subset htargets (fun _ => id) hany

end Words

section Removes

variable {words : List String}

/-- How grave a removal is, by the four questions. -/
theorem gravity_inspectRm (s : Situation) (line : String) (words : List String) :
    gravity (inspectRm s line words) = grade (s.hasVital (operandsOf words)) (isRecursive words)
      (s.hasImportant (operandsOf words)) (s.hasWhole (operandsOf words)) := by
  unfold inspectRm Situation.hasVital Situation.hasImportant Situation.hasWhole
  dsimp only
  generalize s.targets (operandsOf words) = targets
  cases targets.any s.isProtected with
  | true => rfl
  | false =>
  cases targets.any s.isCritical with
  | true => rfl
  | false =>
  generalize s.fs.all (fun fs => targets.any fs.isDirectory) = whole
  cases isRecursive words <;> cases targets.any isImportant <;> cases targets.isEmpty <;>
    cases whole <;> rfl

/-- A line that removes and redirects nothing is as grave as its words say. -/
theorem gravity_inspect (s : Situation) {line : String}
    (hline : Redirection.effect? line = some .none)
    (hwords : Redirection.lineWords line = "rm" :: words) :
    gravity (inspect s line) = grade (s.hasVital (operandsOf words)) (isRecursive words)
      (s.hasImportant (operandsOf words)) (s.hasWhole (operandsOf words)) := by
  have hcommand : commandWords line = "rm" :: words := by
    rw [commandWords_eq, hwords]
    rfl
  have houtput : inspectOutput s line = none := inspectOutput_of_effect? s hline (by simp)
  rw [← gravity_inspectRm s line words]
  unfold inspect inspectCommand
  rw [hcommand]
  dsimp only
  rw [if_neg (by decide), if_pos rfl]
  split
  · rename_i hnone
    have htargets : s.targets (operandsOf words) = [] := by
      by_contra hne
      rw [if_neg (by simpa using hne)] at hnone
      cases hnone
    unfold inspectRm
    rw [htargets]
    simp
  · rename_i w hsome
    split at hsome
    · cases hsome
    · rw [Option.some.inj hsome]
  · rename_i hsome
    split at hsome
    · cases hsome
    · rw [houtput, Option.some.inj hsome]

end Removes

/-- A word as it is typed: a flag or another word that stands for itself, or an operand between
apostrophes. -/
inductive Typed
  | plain (word : String)
  | between (word : String)

namespace Typed

/-- The word that is meant. -/
def word : Typed → String
  | plain word => word
  | between word => word

/-- What is typed. -/
def text : Typed → List Char
  | plain word => word.toList
  | between word => (quoted word).toList

/-- Whether what is typed is read as the word that is meant. -/
def IsSound : Typed → Prop
  | plain word => word ≠ "" ∧ ∀ c ∈ word.toList, IsVerbatim c
  | between word => '\'' ∉ word.toList

instance decidableIsSound : (t : Typed) → Decidable t.IsSound
  | plain word =>
    have : Decidable (∀ c ∈ word.toList, IsVerbatim c) := List.decidableBAll _ word.toList
    inferInstanceAs (Decidable (_ ∧ _))
  | between word => inferInstanceAs (Decidable (¬ '\'' ∈ word.toList))

variable {t : Typed} (h : t.IsSound)

include h

theorem operatorsFrom_text (place : Nat) (rest : List Char) :
    operatorsFrom place 0 none (t.text ++ rest) = operatorsFrom (place + t.text.length) 0 none rest := by
  cases t with
  | plain word => exact Redirection.operatorsFrom_verbatim h.2 place
  | between word => exact Redirection.operatorsFrom_quoted_word h

theorem scan_text (rest : List Char) :
    scan [] false none (t.text ++ rest) = scan t.word.toList.reverse true none rest := by
  cases t with
  | plain word =>
      have hne : word.toList ≠ [] := mt String.toList_eq_nil_iff.1 h.1
      have hscan : scan [] false none (word.toList ++ rest) =
          scan (word.toList.reverse ++ []) true none rest :=
        Redirection.scan_verbatim h.2 [] (.inr hne)
      rwa [List.append_nil] at hscan
  | between word => exact Words.scan_quoted h

theorem getLast?_text : ∃ c ∈ t.text.getLast?, isBlank c = false := by
  cases t with
  | plain word =>
      have hne : word.toList ≠ [] := mt String.toList_eq_nil_iff.1 h.1
      exact ⟨_, List.getLast?_eq_some_getLast hne, (h.2 _ (List.getLast_mem hne)).1⟩
  | between word => exact ⟨'\'', by simp [text, Words.toList_quoted, List.getLast?_cons], by decide⟩

end Typed

/-- A line that removes with `rm` and redirects nothing: the words after the command, each behind
spaces and tabs, and the blanks around the line. -/
structure Removal where
  before : List Char
  words : List (List Char × Typed)
  behind : List Char
  blank_before : ∀ c ∈ before, isBlank c = true
  gaps : ∀ x ∈ words, x.1 ≠ [] ∧ ∀ c ∈ x.1, c = ' ' ∨ c = '\t'
  sound : ∀ x ∈ words, x.2.IsSound
  blank_behind : ∀ c ∈ behind, isBlank c = true

namespace Removal

/-- Words as they are typed, each behind its gap. -/
def typed (words : List (List Char × Typed)) : List Char := words.flatMap fun x => x.1 ++ x.2.text

/-- The words that are meant. -/
def meant (words : List (List Char × Typed)) : List String := words.map (·.2.word)

/-- The line that is typed. -/
def line (r : Removal) : String :=
  String.ofList (r.before ++ ("rm".toList ++ typed r.words) ++ r.behind)

theorem typed_cons (x : List Char × Typed) (words : List (List Char × Typed)) :
    typed (x :: words) = x.1 ++ (x.2.text ++ typed words) := by
  rw [typed, List.flatMap_cons, List.append_assoc]
  rfl

theorem scan_gap {gap : List Char} (h : ∀ c ∈ gap, c = ' ' ∨ c = '\t') (hne : gap ≠ [])
    (current rest : List Char) :
    scan current true none (gap ++ rest) = current.reverse :: scan [] false none rest := by
  have hpass : ∀ gap : List Char, (∀ c ∈ gap, c = ' ' ∨ c = '\t') →
      scan [] false none (gap ++ rest) = scan [] false none rest := by
    intro gap
    induction gap with
    | nil => exact fun _ => rfl
    | cons c gap ih =>
        intro h
        obtain ⟨hc, hgap⟩ := List.forall_mem_cons.1 h
        rw [← ih hgap, List.cons_append, Words.scan.eq_def]
        rcases hc with rfl | rfl <;> simp
  cases gap with
  | nil => exact absurd rfl hne
  | cons c gap =>
      obtain ⟨hc, hgap⟩ := List.forall_mem_cons.1 h
      rw [← hpass gap hgap, List.cons_append, Words.scan.eq_def]
      rcases hc with rfl | rfl <;> simp

section Read

variable {words : List (List Char × Typed)} (hsound : ∀ x ∈ words, x.2.IsSound)
  (hgaps : ∀ x ∈ words, x.1 ≠ [] ∧ ∀ c ∈ x.1, c = ' ' ∨ c = '\t')

include hsound hgaps

theorem scan_typed (current : List Char) :
    scan current true none (typed words) = current.reverse :: (meant words).map String.toList := by
  induction words generalizing current with
  | nil => simp [typed, meant, scan]
  | cons x words ih =>
      obtain ⟨hx, hrest⟩ := List.forall_mem_cons.1 hsound
      obtain ⟨⟨hne, hgap⟩, hgaps⟩ := List.forall_mem_cons.1 hgaps
      rw [typed_cons, scan_gap hgap hne, Typed.scan_text hx, ih hrest hgaps, List.reverse_reverse]
      rfl

theorem operatorsFrom_typed (place : Nat) : operatorsFrom place 0 none (typed words) = [] := by
  induction words generalizing place with
  | nil => rfl
  | cons x words ih =>
      obtain ⟨hx, hrest⟩ := List.forall_mem_cons.1 hsound
      obtain ⟨⟨-, hgap⟩, hgaps⟩ := List.forall_mem_cons.1 hgaps
      have hblank : ∀ c ∈ x.1, isBlank c = true := by
        intro c hc
        rcases hgap c hc with rfl | rfl <;> decide
      rw [typed_cons, Redirection.operatorsFrom_blanks hblank, Typed.operatorsFrom_text hx,
        ih hrest hgaps]

end Read

theorem getLast?_typed (cs : List Char) (hcs : ∃ c ∈ cs.getLast?, isBlank c = false)
    {words : List (List Char × Typed)} (hsound : ∀ x ∈ words, x.2.IsSound) :
    ∃ c ∈ (cs ++ typed words).getLast?, isBlank c = false := by
  induction words generalizing cs with
  | nil => simpa [typed] using hcs
  | cons x words ih =>
      obtain ⟨hx, hrest⟩ := List.forall_mem_cons.1 hsound
      obtain ⟨c, hc, hblank⟩ := Typed.getLast?_text hx
      have hnext := ih (cs ++ x.1 ++ x.2.text)
        ⟨c, by rw [Option.mem_def, List.getLast?_append, hc, Option.some_or], hblank⟩ hrest
      rwa [List.append_assoc, List.append_assoc, ← typed_cons] at hnext

variable (r : Removal)

theorem trim_line : trim r.line = String.ofList ("rm".toList ++ typed r.words) := by
  have hstart : ∃ c ∈ ("rm".toList).getLast?, isBlank c = false := ⟨'m', rfl, by decide⟩
  obtain ⟨c, hc, hblank⟩ := getLast?_typed _ hstart r.sound
  obtain ⟨core, hcore⟩ := List.getLast?_eq_some_iff.1 hc
  have hhead : (r.before ++ ("rm".toList ++ typed r.words) ++ r.behind).dropWhile isBlank =
      "rm".toList ++ typed r.words ++ r.behind := by
    rw [List.append_assoc, List.dropWhile_append_of_pos r.blank_before]
    rfl
  have hend : dropWhileEnd isBlank (core ++ [c] ++ r.behind) = core ++ [c] := by
    rw [List.append_assoc, List.singleton_append, Text.Blank.dropWhileEnd_append hblank,
      Redirection.dropWhileEnd_of_all r.blank_behind]
  rw [line, Text.Blank.trim_ofList, Text.Blank.tidy, hhead, hcore, hend]

theorem isVerbatim_rm : ∀ c ∈ "rm".toList, IsVerbatim c :=
  List.forall_mem_cons.2 ⟨by decide, List.forall_mem_cons.2 ⟨by decide, nofun⟩⟩

theorem operators_line : operators (trim r.line).toList = [] := by
  rw [trim_line, String.toList_ofList, operators, Redirection.operatorsFrom_verbatim isVerbatim_rm,
    operatorsFrom_typed r.sound r.gaps]

/-- The line redirects nothing. -/
theorem effect?_line : Redirection.effect? r.line = some .none := by
  rw [Redirection.effect?, Redirection.parse_of_no_operators r.operators_line]
  rfl

/-- The line is read as the words that are meant. -/
theorem lineWords_line : Redirection.lineWords r.line = "rm" :: meant r.words := by
  have hscan : scan [] false none ("rm".toList ++ typed r.words) =
      scan ("rm".toList.reverse ++ []) true none (typed r.words) :=
    Redirection.scan_verbatim isVerbatim_rm [] (.inr (by decide))
  rw [Redirection.lineWords, Redirection.parse_of_no_operators r.operators_line]
  dsimp only
  rw [trim_line, Words.split, String.toList_ofList, hscan, scan_typed r.sound r.gaps, List.map_cons,
    List.map_map]
  simp

end Removal

/-- A removal is as grave or graver if, anywhere on the line, operands and flags are added, or critical
paths in the adventure. -/
theorem removal_that_says_more_is_as_grave (s : Situation) (few many : Removal)
    (critical : List String) (hwords : Removal.meant few.words ⊆ Removal.meant many.words)
    (hcritical : s.critical ⊆ critical) :
    gravity (inspect s few.line) ≤ gravity (inspect (s.withCritical critical) many.line) := by
  have hoperands := operandsOf_subset hwords
  rw [gravity_inspect s few.effect?_line few.lineWords_line,
    gravity_inspect _ many.effect?_line many.lineWords_line]
  exact grade_mono (hasVital_of_subset hoperands hcritical) (isRecursive_of_subset hwords)
    (hasImportant_of_subset hoperands) (hasWhole_of_subset hoperands)

/-- Where a removal of one file is only warned of, one that goes through directories and names a path of
the adventure too is as grave as can be. -/
theorem removal_of_more_is_critical :
    let s : Situation := ⟨"/home/ada", "ada", [], none⟩
    let few : Removal := ⟨[], [([' '], .between "my notes.txt")], [], nofun, by simp,
      by decide +kernel, nofun⟩
    let many : Removal := ⟨[' '], [([' '], .plain "-r"), (['\t', ' '], .between "box"),
      ([' '], .between "my notes.txt")], ['\n'], List.all_eq_true.1 (by decide), by simp,
      by decide +kernel, List.all_eq_true.1 (by decide)⟩
    Removal.meant few.words ⊆ Removal.meant many.words ∧ s.critical ⊆ ["/home/ada/box"] ∧
      few.line = "rm 'my notes.txt'" ∧ many.line = " rm -r\t 'box' 'my notes.txt'\n" ∧
      gravity (inspect s few.line) = 1 ∧
      gravity (inspect (s.withCritical ["/home/ada/box"]) many.line) = 3 ∧
      gravity (inspect s few.line) ≤
        gravity (inspect (s.withCritical ["/home/ada/box"]) many.line) := by
  intro s few many
  have hwords : Removal.meant few.words ⊆ Removal.meant many.words := by decide
  have hcritical : s.critical ⊆ ["/home/ada/box"] := by decide
  exact ⟨hwords, hcritical, by decide +kernel, by decide +kernel, by decide +kernel, by decide +kernel,
    removal_that_says_more_is_as_grave s few many _ hwords hcritical⟩

end PracticeShell.Guard
