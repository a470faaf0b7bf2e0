import Mathlib.Tactic.SplitIfs
import PracticeShell.Proofs.Command.Written
import PracticeShell.Redirection

/-!
# Operators outside of quotes

A line is read twice, once for its redirection and once for its words, and each reading keeps track of
the quotes by itself. Both agree up to a double quote that is escaped between double quotes: there the
reading for the redirection takes the quotes for closed (`operators_eq_bareOperators_iff`).
-/

namespace PracticeShell.Redirection

open Words

/-- The operator that a bare character begins, given what comes after it. -/
def begun? (c : Char) (next : Option (Char × Standing)) : Option Operator :=
  if c = '<' then some (if next = some ('<', .bare) then .lines else .input)
  else if c = '>' then some (if next = some ('>', .bare) then .append else .overwrite)
  else none

/-- The operators that bare characters make, with their places. `skip` characters belong to an
operator that has begun before. -/
def bareFrom (place : Nat) (skip : Nat) : List (Char × Standing) → List (Nat × Operator)
  | [] => []
  | (c, standing) :: rest =>
    match skip with
    | skip + 1 => bareFrom (place + 1) skip rest
    | 0 =>
      match if standing = .bare then begun? c rest.head? else none with
      | some o => (place, o) :: bareFrom (place + 1) (o.length - 1) rest
      | none => bareFrom (place + 1) 0 rest

/-- The operators that the bare characters of a line make, with their places. -/
def bareOperators (line : List Char) : List (Nat × Operator) := bareFrom 0 0 (standings none line)

/-- Whether two lists of operators are the same up to a place at which a rest is read as if it stood
outside of quotes in one and between double quotes in the other. -/
def AgreeUpTo (rest : Option (List Char)) (first second : List (Nat × Operator)) : Prop :=
  ∃ l place, first = l ++ rest.elim [] (operatorsFrom place 0 none) ∧
    second = l ++ rest.elim [] fun cs => bareFrom place 0 (standings (some '"') cs)

theorem AgreeUpTo.cons {rest : Option (List Char)} {first second : List (Nat × Operator)}
    (h : AgreeUpTo rest first second) (o : Nat × Operator) :
    AgreeUpTo rest (o :: first) (o :: second) := by
  obtain ⟨l, place, rfl, rfl⟩ := h
  exact ⟨o :: l, place, rfl, rfl⟩

section

variable {c : Char} {standing : Standing} {place : Nat} {rest : List (Char × Standing)}

theorem bareFrom_of_ne (h : standing ≠ .bare) :
    bareFrom place 0 ((c, standing) :: rest) = bareFrom (place + 1) 0 rest := by
  rw [bareFrom, if_neg h]

theorem bareFrom_bare : bareFrom place 0 ((c, .bare) :: rest) = match begun? c rest.head? with
    | some o => (place, o) :: bareFrom (place + 1) (o.length - 1) rest
    | none => bareFrom (place + 1) 0 rest := by
  rw [bareFrom, if_pos rfl]

end

/-- After a character that no quote hides, the same character again is bare. -/
theorem head?_standings_iff {c : Char} (hc : c = '<' ∨ c = '>') (cs : List Char) :
    (standings none cs).head? = some (c, .bare) ↔ cs.head? = some c := by
  cases cs with
  | nil => simp [standings]
  | cons d rest =>
      by_cases hquote : d = '\'' ∨ d = '"'
      · rw [standings_open hquote]
        grind
      · by_cases hd : d = '\\'
        · subst hd
          cases rest <;> grind [standings_protect, standings_last]
        · rw [standings_bare hquote hd]
          simp

section

variable {c : Char} {place : Nat} {rest : List Char}

theorem operatorsFrom_quoted {q : Char} : operatorsFrom place 0 (some q) (c :: rest) =
    operatorsFrom (place + 1) 0 (if c = q then none else some q) rest := by
  rw [operatorsFrom]

theorem operatorsFrom_open (hc : c = '\'' ∨ c = '"') :
    operatorsFrom place 0 none (c :: rest) = operatorsFrom (place + 1) 0 (some c) rest := by
  rw [operatorsFrom, if_pos hc]

theorem operatorsFrom_protect (d : Char) :
    operatorsFrom place 0 none ('\\' :: d :: rest) = operatorsFrom (place + 1 + 1) 0 none rest := by
  simp [operatorsFrom]

/-- Outside of quotes the operators are read off the standings. -/
theorem operatorsFrom_bare (hquote : ¬ (c = '\'' ∨ c = '"')) (hc : c ≠ '\\') :
    operatorsFrom place 0 none (c :: rest) = match begun? c (standings none rest).head? with
      | some o => (place, o) :: operatorsFrom (place + 1) (o.length - 1) none rest
      | none => operatorsFrom (place + 1) 0 none rest := by
  rw [operatorsFrom, if_neg hquote, if_neg hc, begun?]
  simp only [head?_standings_iff (.inl rfl), head?_standings_iff (.inr rfl)]
  split_ifs <;> rfl

end

theorem length_of_begun? {c : Char} {rest : List Char} {o : Operator}
    (h : begun? c (standings none rest).head? = some o) :
    o.length = 1 ∨ o.length = 2 ∧ (rest.head? = some '<' ∨ rest.head? = some '>') := by
  rw [begun?] at h
  simp only [head?_standings_iff (.inl rfl), head?_standings_iff (.inr rfl)] at h
  split_ifs at h with _ hl _ hg <;> cases h
  · exact .inr ⟨rfl, .inl hl⟩
  · exact .inl rfl
  · exact .inr ⟨rfl, .inr hg⟩
  · exact .inl rfl

/-- Both readings agree up to the first double quote that is escaped between double quotes. -/
theorem agreeUpTo_operatorsFrom (place : Nat) {skip : Nat} {quote : Option Char} {cs : List Char}
    (h : skip = 0 ∨ skip = 1 ∧ quote = none ∧ (cs.head? = some '<' ∨ cs.head? = some '>')) :
    AgreeUpTo (afterEscapedQuote? quote cs) (operatorsFrom place skip quote cs)
      (bareFrom place skip (standings quote cs)) := by
  -- A character is skipped only as the second of an operator, so that no quote is open there.
  fun_induction afterEscapedQuote? quote cs generalizing place skip with
  | case1 => exact ⟨[], place, by simp [operatorsFrom], by simp [standings, bareFrom]⟩
  | case2 rest q ih =>
      obtain rfl : skip = 0 := by simpa using h
      rw [operatorsFrom_quoted, if_pos rfl, standings_close, bareFrom_of_ne (by simp)]
      exact ih (place + 1) (.inl rfl)
  | case3 c q hq hc more =>
      obtain ⟨rfl, rfl⟩ := hc
      obtain rfl : skip = 0 := by simpa using h
      rw [operatorsFrom_quoted, if_neg hq, operatorsFrom_quoted, if_pos rfl,
        standings_escape (.inl rfl), bareFrom_of_ne (by simp), bareFrom_of_ne (by simp)]
      -- From here one reading is outside of quotes and the other still between them.
      exact ⟨[], place + 1 + 1, rfl, rfl⟩
  | case4 c q hq hc d more hd hescaped ih =>
      obtain ⟨rfl, rfl⟩ := hc
      obtain rfl : skip = 0 := by simpa using h
      rw [operatorsFrom_quoted, if_neg hq, operatorsFrom_quoted, if_neg hd,
        standings_escape (.inr hescaped), bareFrom_of_ne (by simp), bareFrom_of_ne (by simp)]
      exact ih (place + 1 + 1) (.inl rfl)
  | case5 c q hq hc d more hd hescaped ih =>
      obtain ⟨rfl, rfl⟩ := hc
      obtain rfl : skip = 0 := by simpa using h
      rw [operatorsFrom_quoted, if_neg hq, standings_escape_not (not_or.mpr ⟨hd, hescaped⟩),
        bareFrom_of_ne (by simp)]
      exact ih (place + 1) (.inl rfl)
  | case6 c q hq hc =>
      obtain ⟨rfl, rfl⟩ := hc
      obtain rfl : skip = 0 := by simpa using h
      rw [operatorsFrom_quoted, standings_end, bareFrom_of_ne (by simp)]
      exact ⟨[], place, by simp [operatorsFrom], by simp [bareFrom]⟩
  | case7 c rest q hq hc ih =>
      obtain rfl : skip = 0 := by simpa using h
      rw [operatorsFrom_quoted, if_neg hq, standings_quoted hq hc, bareFrom_of_ne (by simp)]
      exact ih (place + 1) (.inl rfl)
  | case8 c rest hc ih =>
      obtain rfl : skip = 0 := by rcases hc with rfl | rfl <;> simpa using h
      rw [operatorsFrom_open hc, standings_open hc, bareFrom_of_ne (by simp)]
      exact ih (place + 1) (.inl rfl)
  | case9 d more _ ih =>
      obtain rfl : skip = 0 := by simpa using h
      rw [operatorsFrom_protect, standings_protect, bareFrom_of_ne (by simp),
        bareFrom_of_ne (by simp)]
      exact ih (place + 1 + 1) (.inl rfl)
  | case10 =>
      obtain rfl : skip = 0 := by simpa using h
      exact ⟨[], place, by simp [operatorsFrom], by simp [standings, bareFrom, begun?]⟩
  | case11 c rest hquote hc ih =>
      rw [standings_bare hquote hc]
      rcases h with rfl | ⟨rfl, -⟩
      · rw [operatorsFrom_bare hquote hc, bareFrom_bare]
        cases hb : begun? c (standings none rest).head? with
        | none => exact ih (place + 1) (.inl rfl)
        | some o =>
            have hskip := length_of_begun? hb
            exact (ih (place + 1) (by grind)).cons (place, o)
      · exact ih (place + 1) (.inl rfl)

theorem operatorsFrom_add (n place skip : Nat) (quote : Option Char) (cs : List Char) :
    operatorsFrom (n + place) skip quote cs =
      (operatorsFrom place skip quote cs).map (Prod.map (n + ·) id) := by
  fun_induction operatorsFrom place skip quote cs <;> simp_all [operatorsFrom, ← Nat.add_assoc]

theorem bareFrom_add (n place skip : Nat) (cs : List (Char × Standing)) :
    bareFrom (n + place) skip cs = (bareFrom place skip cs).map (Prod.map (n + ·) id) := by
  fun_induction bareFrom place skip cs <;> simp_all [bareFrom, ← Nat.add_assoc]

theorem agreeUpTo_operators (line : List Char) :
    AgreeUpTo (afterEscapedQuote? none line) (operators line) (bareOperators line) :=
  agreeUpTo_operatorsFrom 0 (.inl rfl)

theorem operators_eq_bareOperators {line : List Char} (h : afterEscapedQuote? none line = none) :
    operators line = bareOperators line := by
  obtain ⟨l, place, hfirst, hsecond⟩ := agreeUpTo_operators line
  rw [hfirst, hsecond, h]
  rfl

/-- The words of a line are the words that its characters make as they stand, and its operators are
the ones that its bare characters make, unless a double quote is escaped between double quotes and what
follows has other operators outside of quotes than between double quotes. -/
theorem operators_eq_bareOperators_iff (line : List Char) :
    scan [] false none line = gather [] false (standings none line) ∧
      (operators line = bareOperators line ↔
        ∀ rest, afterEscapedQuote? none line = some rest →
          operators rest = bareFrom 0 0 (standings (some '"') rest)) := by
  refine ⟨scan_eq_gather (by simp), ?_⟩
  obtain ⟨l, place, hfirst, hsecond⟩ := agreeUpTo_operators line
  cases hrest : afterEscapedQuote? none line with
  | none => simpa using operators_eq_bareOperators hrest
  | some rest =>
      rw [hrest] at hfirst hsecond
      rw [hfirst, hsecond, List.append_cancel_left_eq, Option.elim_some, Option.elim_some,
        ← place.add_zero, operatorsFrom_add, bareFrom_add, List.map_inj_right (by simp)]
      simp [operators]

/-- An operator between double quotes is taken for one after an escaped double quote, and an operator
outside of quotes is missed. -/
theorem escaped_quote_misleads :
    (operators "echo \"a\\\" > b\"".toList = [(10, .overwrite)] ∧
      bareOperators "echo \"a\\\" > b\"".toList = [] ∧
      Words.split "echo \"a\\\" > b\"" = ["echo", "a\" > b"]) ∧
    operators "echo \"a\\\"\" > b".toList = [] ∧
      bareOperators "echo \"a\\\"\" > b".toList = [(11, .overwrite)] ∧
      Words.split "echo \"a\\\"\" > b" = ["echo", "a\"", ">", "b"] := by
  decide +kernel

end PracticeShell.Redirection
