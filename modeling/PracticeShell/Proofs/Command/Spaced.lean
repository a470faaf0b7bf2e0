import PracticeShell.Proofs.Command.Written

/-!
# Words joined by single spaces

`Text.Blank.squeeze` puts a text together again from its runs without blanks, joined by single spaces.
What this does to a line is told by how the characters stand in both (`Squeezed`,
`squeezed_standings`): a run of blanks becomes one space that stands as the first of them did, and is
lost at the end. Characters and words only become fewer (`Squeezed.weight_le`). So the line keeps its
words exactly if each blank in a word is a single space between two characters that are not blank
(`scan_squeeze_eq_iff`).
-/

namespace PracticeShell

namespace Text.Blank

/-- A text as its runs without blanks, joined by single spaces. -/
def squeeze (cs : List Char) : List Char := [' '].intercalate (runs [] cs)

/-- What becomes of a text that follows a character that is not blank where blanks are squeezed. -/
def narrow : List Char → List Char
  | [] => []
  | c :: cs =>
    if isBlank c then if runs [] cs = [] then [] else ' ' :: squeeze cs
    else c :: narrow cs

section

variable {b c : Char}

theorem runs_of_blank (hb : isBlank b = true) (cs : List Char) : runs [] (b :: cs) = runs [] cs := by
  rw [runs, hb]
  rfl

theorem intercalate_runs {current : List Char} (h : current ≠ []) (cs : List Char) :
    [' '].intercalate (runs current cs) = current.reverse ++ narrow cs := by
  induction cs generalizing current with
  | nil => simp [runs, h, narrow]
  | cons c cs ih =>
      cases hc : isBlank c with
      | false =>
          rw [runs, hc, if_neg (by simp), ih (List.cons_ne_nil c current), narrow, hc]
          simp
      | true =>
          rw [runs, hc, if_pos rfl, if_neg (by simpa using h), narrow, hc, if_pos rfl, squeeze]
          cases runs [] cs with
          | nil => simp
          | cons w ws => simp [List.intercalate_cons_cons]

theorem runs_ne_nil {current : List Char} (h : current ≠ []) (cs : List Char) :
    runs current cs ≠ [] := by
  intro hnil
  have hline := intercalate_runs h cs
  rw [hnil] at hline
  simp [h] at hline

theorem squeeze_of_not_blank (hc : isBlank c = false) (cs : List Char) :
    squeeze (c :: cs) = c :: narrow cs := by
  rw [squeeze, runs, hc, if_neg (by simp), intercalate_runs (List.cons_ne_nil c [])]
  rfl

theorem narrow_of_not_blank (hc : isBlank c = false) (cs : List Char) :
    narrow (c :: cs) = c :: narrow cs := by
  rw [narrow, hc, if_neg (by simp)]

/-- Blanks that a text starts with are squeezed away. -/
theorem runs_dropWhile (cs : List Char) : runs [] (cs.dropWhile isBlank) = runs [] cs := by
  induction cs with
  | nil => rfl
  | cons c cs ih =>
      cases hc : isBlank c with
      | true => rw [List.dropWhile_cons_of_pos hc, ih, runs_of_blank hc]
      | false => rw [List.dropWhile_cons_of_neg (by simp [hc])]

theorem squeeze_eq_narrow (cs : List Char) : squeeze cs = narrow (cs.dropWhile isBlank) := by
  rw [squeeze, ← runs_dropWhile, ← squeeze]
  cases hcs : cs.dropWhile isBlank with
  | nil => rfl
  | cons c rest =>
      have hc : isBlank c = false := Words.eq_false_of_dropWhile hcs
      rw [squeeze_of_not_blank hc, narrow_of_not_blank hc]

theorem squeeze_eq_nil_iff (cs : List Char) : squeeze cs = [] ↔ ∀ c ∈ cs, isBlank c = true := by
  rw [squeeze_eq_narrow, ← List.dropWhile_eq_nil_iff]
  cases hcs : cs.dropWhile isBlank with
  | nil => simp [narrow]
  | cons c rest =>
      have hc : isBlank c = false := Words.eq_false_of_dropWhile hcs
      simp [narrow_of_not_blank hc]

/-- A run of blanks becomes one space, or nothing at the end. -/
theorem narrow_of_blank (hb : isBlank b = true) (cs : List Char) : narrow (b :: cs) =
    if cs.dropWhile isBlank = [] then [] else ' ' :: narrow (cs.dropWhile isBlank) := by
  rw [narrow, hb, if_pos rfl, squeeze_eq_narrow, ← runs_dropWhile]
  cases hcs : cs.dropWhile isBlank with
  | nil => rfl
  | cons c rest =>
      have hc : isBlank c = false := Words.eq_false_of_dropWhile hcs
      have hne : runs [] (c :: rest) ≠ [] := by
        rw [runs, hc, if_neg (by simp)]
        exact runs_ne_nil (List.cons_ne_nil c []) rest
      rw [if_neg hne, if_neg (List.cons_ne_nil c rest)]

theorem runs_append_of_blank {bs : List Char} (h : ∀ b ∈ bs, isBlank b = true)
    (current cs : List Char) : runs current (cs ++ bs) = runs current cs := by
  have hbs : runs [] bs = [] := by
    induction bs with
    | nil => rfl
    | cons b bs ih =>
        obtain ⟨hb, hrest⟩ := List.forall_mem_cons.1 h
        rw [runs_of_blank hb, ih hrest]
  induction cs generalizing current with
  | nil =>
      cases bs with
      | nil => rfl
      | cons b bs =>
          obtain ⟨hb, -⟩ := List.forall_mem_cons.1 h
          rw [runs_of_blank hb] at hbs
          cases current <;> simp [runs, hb, hbs]
  | cons c cs ih =>
      rw [List.cons_append, runs, runs, ih, ih]

/-- Blanks at the ends of a text are squeezed away. -/
theorem squeeze_tidy (cs : List Char) : squeeze (tidy isBlank cs) = squeeze cs := by
  have hends : tidy isBlank cs ++ (cs.dropWhile isBlank).rtakeWhile isBlank =
      cs.dropWhile isBlank := List.rdropWhile_append_rtakeWhile
  have hblank : ∀ b ∈ (cs.dropWhile isBlank).rtakeWhile isBlank, isBlank b = true :=
    fun b hb => List.mem_rtakeWhile_imp hb
  have hruns := runs_append_of_blank hblank [] (tidy isBlank cs)
  rw [hends, runs_dropWhile] at hruns
  rw [squeeze, squeeze, hruns]

end

end Text.Blank

namespace Words

open Text.Blank (isBlank squeeze narrow)

/-- Whether a text starts with a character that is not blank. -/
def isOpen (S : List (Char × Standing)) : Bool := S.head?.any (!isBlankAt ·)

/-- Whether each blank in a word is a single space between two characters that are not blank, where
`previous` says whether the character before is one. -/
def Spaced (previous : Bool) : List (Char × Standing) → Prop
  | [] => True
  | x :: S =>
    (isBlankAt x = true → separates x = true ∨ previous = true ∧ x.1 = ' ' ∧ isOpen S = true) ∧
      Spaced (!isBlankAt x) S

instance decidableSpaced : (previous : Bool) → (S : List (Char × Standing)) →
    Decidable (Spaced previous S)
  | _, [] => inferInstanceAs (Decidable True)
  | _, x :: S =>
    have := decidableSpaced (!isBlankAt x) S
    inferInstanceAs (Decidable (_ ∧ _))

/-- Whether all characters are blank, and none is dropped. -/
def IsGap (R : List (Char × Standing)) : Prop := ∀ x ∈ R, isBlankAt x = true ∧ x.2 ≠ .dropped

theorem isGap_cons {x : Char × Standing} {R : List (Char × Standing)} :
    IsGap (x :: R) ↔ (isBlankAt x = true ∧ x.2 ≠ .dropped) ∧ IsGap R := List.forall_mem_cons

/-- How the characters of a text stand with its blanks squeezed and as it is. -/
inductive Squeezed : List (Char × Standing) → List (Char × Standing) → Prop
  /-- Nothing is squeezed. -/
  | nil : Squeezed [] []
  /-- Other characters are left. -/
  | same {x N O} (hx : isBlankAt x = false) (h : Squeezed N O) : Squeezed (x :: N) (x :: O)
  /-- A run of blanks becomes a space. -/
  | run {x R N O} (hgap : IsGap (x :: R)) (hO : isOpen O = true) (h : Squeezed N O) :
      Squeezed ((' ', x.2) :: N) (x :: (R ++ O))
  /-- At the end a run of blanks is lost. -/
  | last {R} (hgap : IsGap R) : Squeezed [] R
  /-- With an escaped blank at the end the backslash is left that has escaped it. -/
  | escaped {x R} (hgap : IsGap (x :: R)) (hx : x.2 = .kept) :
      Squeezed [('\\', .bare)] (('\\', .dropped) :: x :: R)

section Standings

variable {quote : Option Char} {c : Char} {cs : List Char}

/-- Blanks stand alike where the same quote is open, and it stays open. -/
theorem standings_blank (hquote : ∀ q, quote = some q → q = '\'' ∨ q = '"') :
    ∃ standing ≠ Standing.dropped, ∀ b, isBlank b = true → ∀ cs,
      standings quote (b :: cs) = (b, standing) :: standings quote cs := by
  have hplain : ∀ b, isBlank b = true → ¬ (b = '\'' ∨ b = '"') ∧ b ≠ '\\' := by
    intro b hb
    refine ⟨?_, ?_⟩
    · rintro (rfl | rfl) <;> exact absurd hb (by decide)
    · rintro rfl
      exact absurd hb (by decide)
  cases quote with
  | none =>
      exact ⟨.bare, by decide, fun b hb cs => standings_bare (hplain b hb).1 (hplain b hb).2 cs⟩
  | some q =>
      refine ⟨.kept, by decide, fun b hb cs => standings_quoted ?_ ?_ cs⟩
      · rintro rfl
        exact (hplain b hb).1 (hquote b rfl)
      · exact fun hescape => (hplain b hb).2 hescape.1

theorem standings_gap (hquote : ∀ q, quote = some q → q = '\'' ∨ q = '"') (cs : List Char) :
    ∃ R, IsGap R ∧ standings quote cs = R ++ standings quote (cs.dropWhile isBlank) := by
  obtain ⟨standing, hstanding, hblank⟩ := standings_blank hquote
  induction cs with
  | nil => exact ⟨[], by simp [IsGap], rfl⟩
  | cons c cs ih =>
      cases hc : isBlank c with
      | false => exact ⟨[], by simp [IsGap], by rw [List.dropWhile_cons_of_neg (by simp [hc])]; rfl⟩
      | true =>
          obtain ⟨R, hgap, hR⟩ := ih
          refine ⟨(c, standing) :: R, isGap_cons.2 ⟨⟨hc, hstanding⟩, hgap⟩, ?_⟩
          rw [hblank c hc, hR, List.dropWhile_cons_of_pos hc, List.cons_append]

theorem isOpen_standings (quote : Option Char) (cs : List Char) :
    isOpen (standings quote cs) = cs.head?.any (!isBlank ·) := by
  conv_rhs => rw [← map_fst_standings quote cs, List.head?_map, Option.any_map]
  rfl

theorem isOpen_dropWhile (h : cs.dropWhile isBlank ≠ []) :
    isOpen (standings quote (cs.dropWhile isBlank)) = true := by
  obtain ⟨c, rest, hcs⟩ := List.exists_cons_of_ne_nil h
  have hc : isBlank c = false := eq_false_of_dropWhile hcs
  rw [isOpen_standings, hcs]
  simp [hc]

/-- A backslash between double quotes is kept before what it cannot escape. -/
theorem standings_backslash (h : ∀ d ∈ cs.head?, ¬ (d = '"' ∨ d = '\\' ∨ d = '$')) :
    standings (some '"') ('\\' :: cs) = ('\\', .kept) :: standings (some '"') cs := by
  cases cs with
  | nil => rw [standings_end, standings]
  | cons d rest => exact standings_escape_not (h d rfl) rest

/-- What follows a character starts with the same character where blanks are squeezed, or with a
space. -/
theorem head?_narrow (h : c ∈ (narrow cs).head?) : c ∈ cs.head? ∨ c = ' ' := by
  cases cs with
  | nil => simp [narrow] at h
  | cons d rest =>
      cases hd : isBlank d with
      | false =>
          rw [Text.Blank.narrow_of_not_blank hd] at h
          exact .inl (by simpa using h)
      | true =>
          rw [Text.Blank.narrow_of_blank hd] at h
          split at h
          · simp at h
          · exact .inr (by simpa using h.symm)

end Standings

/-- A run of blanks is squeezed where no escape comes before it. -/
theorem squeezed_of_blank {quote : Option Char} (hquote : ∀ q, quote = some q → q = '\'' ∨ q = '"')
    {b : Char} (hb : isBlank b = true) {cs : List Char}
    (h : Squeezed (standings quote (narrow (cs.dropWhile isBlank)))
      (standings quote (cs.dropWhile isBlank))) :
    Squeezed (standings quote (narrow (b :: cs))) (standings quote (b :: cs)) := by
  obtain ⟨standing, hstanding, hblank⟩ := standings_blank hquote
  obtain ⟨R, hgap, hR⟩ := standings_gap hquote cs
  have hrun : IsGap ((b, standing) :: R) := isGap_cons.2 ⟨⟨hb, hstanding⟩, hgap⟩
  rw [Text.Blank.narrow_of_blank hb, hblank b hb, hR]
  split
  · rename_i hnil
    rw [hnil, standings, List.append_nil]
    exact .last hrun
  · rename_i hne
    rw [hblank ' ' (by decide)]
    exact .run hrun (isOpen_dropWhile hne) h

/-- An escaped blank is squeezed with the blanks after it. -/
theorem squeezed_of_escaped {b : Char} (hb : isBlank b = true) {cs : List Char}
    (h : Squeezed (standings none (narrow (cs.dropWhile isBlank)))
      (standings none (cs.dropWhile isBlank))) :
    Squeezed (standings none ('\\' :: narrow (b :: cs))) (standings none ('\\' :: b :: cs)) := by
  obtain ⟨R, hgap, hR⟩ := @standings_gap none (by simp) cs
  have hrun : IsGap ((b, .kept) :: R) := isGap_cons.2 ⟨⟨hb, by simp⟩, hgap⟩
  rw [Text.Blank.narrow_of_blank hb, standings_protect, hR]
  split
  · rename_i hnil
    rw [hnil, standings, List.append_nil, standings_last]
    exact .escaped hrun rfl
  · rename_i hne
    rw [standings_protect]
    exact .same (by decide) (.run hrun (isOpen_dropWhile hne) h)

section Step

variable {c : Char} {cs : List Char} (hc : isBlank c = false)
  (ih : ∀ quote : Option Char, (∀ q, quote = some q → q = '\'' ∨ q = '"') →
    ∀ ds, ds.length ≤ cs.length → Squeezed (standings quote (narrow ds)) (standings quote ds))

include hc ih

theorem squeezed_cons_quoted {q : Char} (hquote : q = '\'' ∨ q = '"') :
    Squeezed (standings (some q) (c :: narrow cs)) (standings (some q) (c :: cs)) := by
  have hquoted := ih (some q) (by simpa using hquote)
  by_cases hq : c = q
  · subst hq
    rw [standings_close, standings_close]
    exact .same hc (ih none (by simp) cs le_rfl)
  · by_cases hback : c = '\\' ∧ q = '"'
    · obtain ⟨rfl, rfl⟩ := hback
      by_cases hspecial : ∃ d more, cs = d :: more ∧ (d = '"' ∨ d = '\\' ∨ d = '$')
      · obtain ⟨d, more, rfl, hd⟩ := hspecial
        have hblank : isBlank d = false := by rcases hd with rfl | rfl | rfl <;> decide
        rw [Text.Blank.narrow_of_not_blank hblank, standings_escape hd, standings_escape hd]
        exact .same hc (.same hblank (hquoted more (by simp)))
      · have hcs : ∀ d ∈ cs.head?, ¬ (d = '"' ∨ d = '\\' ∨ d = '$') := fun d hd hmem => by
          obtain ⟨more, rfl⟩ := List.head?_eq_some_iff.1 hd
          exact hspecial ⟨d, more, rfl, hmem⟩
        have hnarrow : ∀ d ∈ (narrow cs).head?, ¬ (d = '"' ∨ d = '\\' ∨ d = '$') := fun d hd => by
          rcases head?_narrow hd with hmem | rfl
          · exact hcs d hmem
          · decide
        rw [standings_backslash hnarrow, standings_backslash hcs]
        exact .same hc (hquoted cs le_rfl)
    · rw [standings_quoted hq hback, standings_quoted hq hback]
      exact .same hc (hquoted cs le_rfl)

theorem squeezed_cons_none : Squeezed (standings none (c :: narrow cs)) (standings none (c :: cs)) := by
  have hnone := ih none (by simp)
  by_cases hquote : c = '\'' ∨ c = '"'
  · rw [standings_open hquote, standings_open hquote]
    exact .same hc (ih (some c) (by simpa using hquote) cs le_rfl)
  · by_cases hback : c = '\\'
    · subst hback
      cases cs with
      | nil => exact .same hc .nil
      | cons d more =>
          cases hd : isBlank d with
          | true =>
              have hdrop := (List.dropWhile_sublist isBlank (l := more)).length_le
              exact squeezed_of_escaped hd (hnone _ (Nat.le_succ_of_le hdrop))
          | false =>
              rw [Text.Blank.narrow_of_not_blank hd, standings_protect, standings_protect]
              exact .same hc (.same hd (hnone more (by simp)))
    · rw [standings_bare hquote hback, standings_bare hquote hback]
      exact .same hc (hnone cs le_rfl)

end Step

/-- Where blanks are squeezed, what is left stands as it does in the whole text. -/
theorem squeezed_standings {quote : Option Char} (hquote : ∀ q, quote = some q → q = '\'' ∨ q = '"')
    (cs : List Char) : Squeezed (standings quote (narrow cs)) (standings quote cs) := by
  -- What follows a run of blanks is shorter, but no part that a structural induction gives.
  induction hn : cs.length using Nat.strong_induction_on generalizing quote cs with
  | _ n ih =>
      subst hn
      cases cs with
      | nil => exact .nil
      | cons c cs =>
          have hshorter : ∀ quote : Option Char, (∀ q, quote = some q → q = '\'' ∨ q = '"') →
              ∀ ds, ds.length ≤ cs.length →
                Squeezed (standings quote (narrow ds)) (standings quote ds) :=
            fun quote hquote ds hds => ih _ (Nat.lt_succ_of_le hds) hquote ds rfl
          cases hc : isBlank c with
          | true =>
              have hdrop := (List.dropWhile_sublist isBlank (l := cs)).length_le
              exact squeezed_of_blank hquote hc (hshorter quote hquote _ hdrop)
          | false =>
              rw [Text.Blank.narrow_of_not_blank hc]
              cases quote with
              | none => exact squeezed_cons_none hc hshorter
              | some q => exact squeezed_cons_quoted hc hshorter (hquote q rfl)

section Weight

variable {x : Char × Standing} {R S N O : List (Char × Standing)}

/-- How many characters are in words, counted twice, and how many words there are. -/
def weight (S : List (Char × Standing)) : Nat :=
  2 * (contents S).length + (gather [] true S).length

@[simp] theorem weight_nil : weight [] = 1 := rfl

theorem weight_of_separates_false (hx : separates x = false) :
    weight (x :: S) = 2 * (contents [x]).length + weight S := by
  rw [weight, weight, contents_cons, gather_not_separates hx, length_gather _ [],
    List.length_append]
  omega

theorem weight_of_stands (hx : stands x = true) : weight (x :: S) = weight S + 2 := by
  have hseparates : separates x = false := by
    cases h : separates x <;> simp_all [stands]
  rw [weight_of_separates_false hseparates, contents, List.filter_singleton, hx]
  simp [Nat.add_comm]

theorem weight_of_separates (hx : separates x = true) :
    weight (x :: S) = 2 * (contents S).length + ((gather [] false S).length + 1) := by
  rw [weight, contents_cons, contents_of_separates hx, gather_separates hx]
  simp

theorem separates_of_not_blank (hx : isBlankAt x = false) : separates x = false := by
  rw [Bool.eq_false_iff]
  exact fun hseparates => by simp [isBlankAt, isBlank_of_separates hseparates] at hx

theorem not_separates_of_isOpen (h : isOpen S = true) : ∃ y T, S = y :: T ∧ separates y = false := by
  cases S with
  | nil => simp [isOpen] at h
  | cons y T =>
      have hy : isBlankAt y = false := by simpa [isOpen] using h
      exact ⟨y, T, rfl, separates_of_not_blank hy⟩

/-- A text that starts with a word is read alike before its first word and in it. -/
theorem gather_of_isOpen (h : isOpen S = true) : gather [] false S = gather [] true S := by
  obtain ⟨y, T, rfl, hy⟩ := not_separates_of_isOpen h
  rw [gather_not_separates hy, gather_not_separates hy]

theorem length_gather_le (S : List (Char × Standing)) :
    (gather [] true S).length ≤ (gather [] false S).length + 1 := by
  cases S with
  | nil => simp [gather]
  | cons x S =>
      cases hx : separates x with
      | true => simp [gather_separates hx]
      | false =>
          rw [gather_not_separates hx, gather_not_separates hx]
          omega

theorem weight_le_cons (x : Char × Standing) (S : List (Char × Standing)) :
    weight S ≤ weight (x :: S) := by
  cases hx : separates x with
  | true =>
      have hle := length_gather_le S
      rw [weight_of_separates hx, weight]
      omega
  | false =>
      rw [weight_of_separates_false hx]
      omega

theorem weight_le_append (R S : List (Char × Standing)) : weight S ≤ weight (R ++ S) := by
  induction R with
  | nil => exact le_rfl
  | cons x R ih => exact ih.trans (weight_le_cons x (R ++ S))

/-- A character in a word counts twice. -/
theorem weight_add_two_le (hx : x ∈ R) (hstands : stands x = true) :
    weight S + 2 ≤ weight (R ++ S) := by
  obtain ⟨before, after, rfl⟩ := List.append_of_mem hx
  have hafter := weight_le_append after S
  have hbefore := weight_le_append before (x :: (after ++ S))
  rw [weight_of_stands hstands] at hbefore
  rw [List.append_assoc, List.cons_append]
  omega

/-- Separators before a word end the word before. -/
theorem weight_of_all (hne : R ≠ []) (h : ∀ x ∈ R, separates x = true) (hS : isOpen S = true) :
    weight (R ++ S) = weight S + 1 := by
  obtain ⟨x, R, rfl⟩ := List.exists_cons_of_ne_nil hne
  obtain ⟨hx, hrest⟩ := List.forall_mem_cons.1 h
  rw [List.cons_append, weight_of_separates hx, gather_all_append hrest, gather_of_isOpen hS,
    contents_append, contents_of_all hrest, weight]
  simp only [List.nil_append]
  omega

end Weight

section Gap

variable {x : Char × Standing} {R O : List (Char × Standing)}

theorem IsGap.stands_of (hgap : IsGap R) (h : ¬ ∀ y ∈ R, separates y = true) :
    ∃ y ∈ R, stands y = true := by
  obtain ⟨y, hy⟩ := not_forall.1 h
  obtain ⟨hmem, hseparates⟩ := Classical.not_imp.1 hy
  exact ⟨y, hmem, by simp [stands, (hgap y hmem).2, hseparates]⟩

theorem IsGap.isOpen_eq (hgap : IsGap R) : isOpen R = false := by
  cases R with
  | nil => rfl
  | cons x R => simp [isOpen, (hgap x List.mem_cons_self).1]

theorem IsGap.isOpen_append (hgap : IsGap R) (hO : isOpen O = true) :
    isOpen (R ++ O) = true ↔ R = [] := by
  cases R with
  | nil => simpa using hO
  | cons x R => simp [isOpen, (hgap x List.mem_cons_self).1]

theorem IsGap.weight_lt (hgap : IsGap R) (hne : R ≠ []) (hO : isOpen O = true) :
    weight O < weight (R ++ O) := by
  by_cases hall : ∀ y ∈ R, separates y = true
  · have hweight := weight_of_all hne hall hO
    omega
  · obtain ⟨y, hy, hstands⟩ := hgap.stands_of hall
    have hle := weight_add_two_le (S := O) hy hstands
    omega

theorem spaced_of_isOpen (hO : isOpen O = true) (previous : Bool) :
    Spaced previous O ↔ Spaced true O := by
  cases O with
  | nil => simp [isOpen] at hO
  | cons y O =>
      have hy : isBlankAt y = false := by simpa [isOpen] using hO
      simp [Spaced, hy]

theorem IsGap.spaced_append (hgap : IsGap R) (hO : isOpen O = true) :
    Spaced false (R ++ O) ↔ (∀ y ∈ R, separates y = true) ∧ Spaced true O := by
  induction R with
  | nil => simpa using spaced_of_isOpen hO false
  | cons y R ih =>
      obtain ⟨hy, hrest⟩ := isGap_cons.1 hgap
      have hnext := ih hrest
      simp [Spaced, hy.1, hnext, and_assoc]

theorem IsGap.spaced_cons_append (hgap : IsGap (x :: R)) (hO : isOpen O = true) :
    Spaced true (x :: (R ++ O)) ↔ ((∀ y ∈ x :: R, separates y = true) ∨
      R = [] ∧ x.1 = ' ') ∧ Spaced true O := by
  obtain ⟨hx, hrest⟩ := isGap_cons.1 hgap
  rw [Spaced, hx.1, Bool.not_true, hrest.spaced_append hO, hrest.isOpen_append hO,
    List.forall_mem_cons]
  constructor
  · rintro ⟨hhead, htail, hspaced⟩
    refine ⟨?_, hspaced⟩
    rcases hhead rfl with hseparates | ⟨-, hspace, hnil⟩
    · exact .inl ⟨hseparates, htail⟩
    · exact .inr ⟨hnil, hspace⟩
  · rintro ⟨⟨hseparates, htail⟩ | ⟨rfl, hspace⟩, hspaced⟩
    · exact ⟨fun _ => .inl hseparates, htail, hspaced⟩
    · exact ⟨fun _ => .inr ⟨rfl, hspace, rfl⟩, by simp, hspaced⟩

theorem IsGap.spaced_iff (hgap : IsGap R) (previous : Bool) :
    Spaced previous R ↔ ∀ y ∈ R, separates y = true := by
  induction R generalizing previous with
  | nil => simp [Spaced]
  | cons y R ih =>
      obtain ⟨hy, hrest⟩ := isGap_cons.1 hgap
      simp [Spaced, hy.1, hrest.isOpen_eq, ih hrest]

end Gap

namespace Squeezed

variable {N O : List (Char × Standing)}

theorem isOpen_of (h : Squeezed N O) (hO : isOpen O = true) : isOpen N = true := by
  cases h with
  | nil => exact hO
  | same hx _ => simp [isOpen, hx]
  | run hgap _ _ => simp [isOpen, (hgap _ List.mem_cons_self).1] at hO
  | last hgap => simp [hgap.isOpen_eq] at hO
  | escaped _ _ => decide

/-- A space in place of a run of blanks weighs no more, and less unless the run only separates words
or is a single blank in a word. -/
theorem weight_run {x : Char × Standing} {R : List (Char × Standing)} (hgap : IsGap (x :: R))
    (hO : isOpen O = true) (hN : isOpen N = true) (hle : weight N ≤ weight O) :
    weight ((' ', x.2) :: N) ≤ weight (x :: (R ++ O)) ∧
      (weight ((' ', x.2) :: N) = weight (x :: (R ++ O)) →
        (∀ y ∈ x :: R, separates y = true) ∨ R = [] ∧ x.2 = .kept) := by
  obtain ⟨c, standing⟩ := x
  cases standing with
  | dropped => exact absurd rfl (hgap _ List.mem_cons_self).2
  | bare =>
      have hspace : weight ([(' ', .bare)] ++ N) = weight N + 1 :=
        weight_of_all (by simp) (by simp [separates]) hN
      rw [List.singleton_append] at hspace
      rw [hspace, ← List.cons_append]
      by_cases hall : ∀ y ∈ (c, .bare) :: R, separates y = true
      · rw [weight_of_all (List.cons_ne_nil _ _) hall hO]
        exact ⟨by omega, fun _ => .inl hall⟩
      · obtain ⟨y, hy, hstands⟩ := hgap.stands_of hall
        have hmore := weight_add_two_le (S := O) hy hstands
        exact ⟨by omega, fun heq => by omega⟩
  | kept =>
      have hrest := (isGap_cons.1 hgap).2
      rw [weight_of_stands rfl, weight_of_stands rfl]
      refine ⟨by have := weight_le_append R O; omega, fun heq => .inr ⟨?_, rfl⟩⟩
      by_contra hne
      have hlonger := hrest.weight_lt hne hO
      omega

/-- Characters and words only become fewer. -/
theorem weight_le (h : Squeezed N O) : weight N ≤ weight O := by
  induction h with
  | nil => exact le_rfl
  | @same x N O hx h ih =>
      have hseparates := separates_of_not_blank hx
      rw [weight_of_separates_false hseparates, weight_of_separates_false hseparates]
      omega
  | run hgap hO h ih => exact (weight_run hgap hO (h.isOpen_of hO) ih).1
  | @last R hgap => simpa using weight_le_append R []
  | @escaped x R hgap hx =>
      have hstands : stands x = true := by simp [stands, separates, hx]
      have hrest := weight_le_append R []
      rw [List.append_nil, weight_nil] at hrest
      rw [weight_of_stands (by decide), weight_of_separates_false (by rfl), weight_of_stands hstands,
        weight_nil]
      omega

theorem weight_eq_of_gather {current : List Char}
    (h : gather current true N = gather current true O) :
    contents N = contents O ∧ weight N = weight O := by
  have hcontents := congrArg List.flatten h
  rw [flatten_gather (by simp), flatten_gather (by simp), List.append_cancel_left_eq] at hcontents
  have hlength := congrArg List.length h
  rw [length_gather current [], length_gather current []] at hlength
  rw [weight, weight, hcontents, hlength]
  exact ⟨rfl, rfl⟩

/-- A run of blanks leaves the words as they are exactly if it only separates words or is a single
space. -/
theorem gather_run_iff {x : Char × Standing} {R : List (Char × Standing)} (hgap : IsGap (x :: R))
    (hO : isOpen O = true) (h : Squeezed N O)
    (ih : ∀ current, gather current true N = gather current true O ↔ Spaced true O)
    (current : List Char) : gather current true ((' ', x.2) :: N) =
      gather current true (x :: (R ++ O)) ↔ Spaced true (x :: (R ++ O)) := by
  have hN : isOpen N = true := h.isOpen_of hO
  rw [hgap.spaced_cons_append hO]
  by_cases hall : ∀ y ∈ x :: R, separates y = true
  · obtain ⟨hx, hrest⟩ := List.forall_mem_cons.1 hall
    have hspace : separates (' ', x.2) = true := by simp [separates, bare_of_separates hx]
    rw [gather_separates hspace, gather_separates hx, gather_all_append hrest, gather_of_isOpen hN,
      gather_of_isOpen hO, List.append_cancel_left_eq, ih]
    exact (and_iff_right (.inl hall)).symm
  · -- A single space in a word is left.
    have hsingle : R = [] → x.1 = ' ' → (gather current true ((' ', x.2) :: N) =
        gather current true (x :: (R ++ O)) ↔ Spaced true O) := by
      rintro rfl hspace
      have hx : separates x = false := by simpa using hall
      rw [← hspace, gather_not_separates hx, List.nil_append, gather_not_separates hx, ih]
    constructor
    · intro heq
      obtain ⟨hcontents, hweight⟩ := weight_eq_of_gather heq
      rcases (weight_run hgap hO hN h.weight_le).2 hweight with hseparate | ⟨rfl, hkept⟩
      · exact absurd hseparate hall
      · obtain ⟨c, standing⟩ := x
        obtain rfl : standing = .kept := hkept
        rw [contents_of_stands rfl, contents_of_stands rfl] at hcontents
        have hspace : c = ' ' := (List.cons.inj hcontents).1.symm
        exact ⟨.inr ⟨rfl, hspace⟩, (hsingle rfl hspace).1 heq⟩
    · rintro ⟨hseparate | ⟨hnil, hspace⟩, hspaced⟩
      · exact absurd hseparate hall
      · exact (hsingle hnil hspace).2 hspaced

/-- The words stay exactly if each blank in a word is a single space between two characters that are
not blank. -/
theorem gather_eq_iff (h : Squeezed N O) (current : List Char) :
    gather current true N = gather current true O ↔ Spaced true O := by
  induction h generalizing current with
  | nil => simp [Spaced]
  | @same x N O hx h ih =>
      have hseparates := separates_of_not_blank hx
      rw [gather_not_separates hseparates, gather_not_separates hseparates, ih]
      simp [Spaced, hx]
  | run hgap hO h ih => exact gather_run_iff hgap hO h ih current
  | @last R hgap =>
      rw [hgap.spaced_iff]
      refine ⟨fun heq => ?_, fun hall => ?_⟩
      · by_contra hnot
        obtain ⟨y, hy, hstands⟩ := hgap.stands_of hnot
        have hcontents := (weight_eq_of_gather heq).1
        exact absurd (stands_of_contents_eq_nil hcontents.symm y hy) (by simp [hstands])
      · exact (gather_append_of_all hall []).symm
  | @escaped x R hgap hx =>
      obtain ⟨c, standing⟩ := x
      obtain rfl : standing = .kept := hx
      obtain ⟨⟨hc, -⟩, hrest⟩ := isGap_cons.1 hgap
      refine ⟨fun heq => ?_, fun hspaced => ?_⟩
      · have hcontents := (weight_eq_of_gather heq).1
        have hdropped : contents (('\\', .dropped) :: (c, .kept) :: R) = c :: contents R := by
          rw [contents_cons, contents_of_stands rfl R]
          rfl
        rw [hdropped] at hcontents
        obtain rfl : '\\' = c := (List.cons.inj hcontents).1
        exact absurd hc (by decide)
      · have hlone := hspaced.2.1 hc
        simp [separates, hrest.isOpen_eq] at hlone

end Squeezed

/-- Joining the runs of a line by single spaces leaves its words as they are exactly if each blank in a
word is a single space between two characters that are not blank. -/
theorem scan_squeeze_eq_iff (cs : List Char) :
    scan [] false none (squeeze cs) = scan [] false none cs ↔ Spaced false (standings none cs) := by
  -- A space before the line makes the blanks at its start a run like others.
  have hspace : isBlank ' ' = true := by decide
  have hbare : ∀ ds, standings none (' ' :: ds) = (' ', .bare) :: standings none ds :=
    standings_bare (by decide) (by decide)
  have hsqueezed := (@squeezed_standings none (by simp) (' ' :: cs)).gather_eq_iff []
  have hline : gather [] true (standings none (' ' :: cs)) = [] :: scan [] false none cs := by
    rw [hbare, gather_separates (by decide), scan_eq_gather (by simp)]
    rfl
  have hnarrow : gather [] true (standings none (narrow (' ' :: cs))) =
      [] :: scan [] false none (squeeze cs) := by
    rw [Text.Blank.narrow_of_blank hspace, Text.Blank.squeeze_eq_narrow]
    split
    · rename_i hnil
      rw [hnil]
      rfl
    · rw [hbare, gather_separates (by decide), scan_eq_gather (by simp)]
      rfl
  rw [hline, hnarrow, List.cons.injEq, hbare, Spaced] at hsqueezed
  simpa [separates, isBlankAt, hspace] using hsqueezed

/-- Only blanks have no words. -/
theorem squeeze_eq_nil_of_scan {cs : List Char} (h : scan [] false none cs = []) :
    squeeze cs = [] := by
  rw [scan_eq_gather (by simp)] at h
  rw [Text.Blank.squeeze_eq_nil_iff]
  intro c hc
  rw [← map_fst_standings none cs] at hc
  obtain ⟨x, hx, rfl⟩ := List.mem_map.1 hc
  exact isBlank_of_separates (separates_of_gather_eq_nil h x hx)

end Words

end PracticeShell
