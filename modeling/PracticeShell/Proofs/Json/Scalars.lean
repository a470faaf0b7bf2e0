import Mathlib.Tactic.IntervalCases
import PracticeShell.Json.Reader
import PracticeShell.Json.Writer

/-!
# Strings and numbers that are read back

A code unit is written with four digits (`Writer.hex4`), a character beyond the first plane with two
code units. Reading the written form of a character gives the character back
(`Reader.stringBody_escape`), and so reading a quoted text gives the text
(`Reader.stringBody_quoted`). A whole number that does not have too many digits is read back, as long
as what follows its digits does not go on with them (`Reader.scalar_int`).
-/

namespace PracticeShell.Json

namespace Writer

/-- The digits of a number with zeros before them, up to a width. -/
def padded (width n : Nat) : List Char :=
  List.replicate (width - (Nat.toDigits 16 n).length) '0' ++ Nat.toDigits 16 n

theorem padded_succ (width n : Nat) :
    padded (width + 2) n = padded (width + 1) (n / 16) ++ [Nat.digitChar (n % 16)] := by
  unfold padded
  by_cases hsmall : n < 16
  · rw [Nat.toDigits_of_lt_base hsmall, Nat.div_eq_of_lt hsmall, Nat.mod_eq_of_lt hsmall,
      Nat.toDigits_zero, List.length_singleton, List.length_singleton, Nat.add_sub_cancel,
      ← List.replicate_succ']
    rfl
  · rw [Nat.toDigits_of_base_le (by decide) (Nat.le_of_not_lt hsmall), List.length_append,
      List.length_singleton, Nat.add_sub_add_right (width + 1) 1, List.append_assoc]

theorem padded_one {n : Nat} (h : n < 16) : padded 1 n = [Nat.digitChar n] := by
  rw [padded, Nat.toDigits_of_lt_base h]
  rfl

theorem hex4_eq {n : Nat} (h : n < 0x10000) : hex4 n = [Nat.digitChar (n / 16 / 16 / 16),
    Nat.digitChar (n / 16 / 16 % 16), Nat.digitChar (n / 16 % 16), Nat.digitChar (n % 16)] := by
  change padded 4 n = _
  rw [padded_succ, padded_succ, padded_succ, padded_one (by omega)]
  rfl

theorem exists_cons_escape (c : Char) : ∃ first rest, escape c = first :: rest := by
  unfold escape
  repeat' split
  all_goals exact ⟨_, _, rfl⟩

theorem length_le_flatMap_escape (cs : List Char) : cs.length ≤ (cs.flatMap escape).length := by
  induction cs with
  | nil => exact Nat.le_refl 0
  | cons c cs ih =>
      obtain ⟨first, rest, hescape⟩ := exists_cons_escape c
      rw [List.flatMap_cons, hescape, List.length_append, List.length_cons, List.length_cons]
      omega

end Writer

namespace Reader

theorem hexValue?_digitChar {d : Nat} (h : d < 16) : hexValue? (Nat.digitChar d) = some d := by
  interval_cases d <;> rfl

theorem hex4?_hex4 {n : Nat} (h : n < 0x10000) (rest : List Char) :
    hex4? (Writer.hex4 n ++ rest) = some (n, rest) := by
  rw [Writer.hex4_eq h]
  change (do
    let a ← hexValue? _
    let b ← hexValue? _
    let c ← hexValue? _
    let d ← hexValue? _
    return (((a * 16 + b) * 16 + c) * 16 + d, rest)) = _
  rw [hexValue?_digitChar (by omega), hexValue?_digitChar (by omega),
    hexValue?_digitChar (by omega), hexValue?_digitChar (by omega)]
  have hn : ((n / 16 / 16 / 16 * 16 + n / 16 / 16 % 16) * 16 + n / 16 % 16) * 16 + n % 16 = n := by
    omega
  simp [hn]

/-- A code unit that is no half of a pair is a character. -/
theorem unit_toNat (c : Char) (rest : List Char) : unit c.toNat rest = (c, rest) := by
  have hvalid : c.toNat < 0xD800 ∨ 0xDFFF < c.toNat ∧ c.toNat < 0x110000 := c.valid
  unfold unit
  rw [if_neg (by omega), if_neg (by omega), Char.ofNat_toNat]

/-- Two halves are put together. -/
theorem unit_pair {high low : Nat} (hhigh : 0xD800 ≤ high ∧ high < 0xDC00)
    (hlow : 0xDC00 ≤ low ∧ low < 0xE000) (rest : List Char) :
    unit high (Writer.unit low ++ rest) =
      (Char.ofNat (0x10000 + (high - 0xD800) * 0x400 + (low - 0xDC00)), rest) := by
  have hread : hex4? (Writer.hex4 low ++ rest) = some (low, rest) := hex4?_hex4 (by omega) rest
  unfold unit Writer.unit
  rw [if_pos hhigh]
  simp only [List.cons_append, hread]
  rw [if_pos hlow]

theorem stringBody_escaped (done cs : List Char) (fuel : Nat) :
    stringBody done (fuel + 1) ('\\' :: 'u' :: cs) = match hex4? cs with
      | some (code, more) => stringBody ((unit code more).1 :: done) fuel (unit code more).2
      | none => .error .malformed := rfl

theorem stringBody_unit {n : Nat} (h : n < 0x10000) (done rest : List Char) (fuel : Nat) :
    stringBody done (fuel + 1) (Writer.unit n ++ rest) =
      stringBody ((unit n rest).1 :: done) fuel (unit n rest).2 := by
  rw [Writer.unit, List.cons_append, List.cons_append, stringBody_escaped, hex4?_hex4 h]

/-- The written form of a character is read as the character. -/
theorem stringBody_escape (c : Char) (done rest : List Char) (fuel : Nat) :
    stringBody done (fuel + 1) (Writer.escape c ++ rest) = stringBody (c :: done) fuel rest := by
  unfold Writer.escape
  by_cases hquote : c = '"'
  · subst hquote
    rfl
  by_cases hslash : c = '\\'
  · subst hslash
    rfl
  by_cases hline : c = '\n'
  · subst hline
    rfl
  by_cases hreturn : c = '\r'
  · subst hreturn
    rfl
  by_cases htab : c = '\t'
  · subst htab
    rfl
  by_cases hback : c = '\x08'
  · subst hback
    rfl
  by_cases hpage : c = '\x0c'
  · subst hpage
    rfl
  rw [if_neg hquote, if_neg hslash, if_neg hline, if_neg hreturn, if_neg htab, if_neg hback,
    if_neg hpage]
  by_cases hplain : 32 ≤ c.toNat ∧ c.toNat < 127
  · have hshown : ¬ c.toNat < 32 := by omega
    rw [if_pos hplain]
    simp [stringBody, hquote, hslash, hshown]
  · rw [if_neg hplain]
    by_cases hfirst : c.toNat < 0x10000
    · rw [if_pos hfirst, stringBody_unit hfirst, unit_toNat]
    · have hvalid : c.toNat < 0xD800 ∨ 0xDFFF < c.toNat ∧ c.toNat < 0x110000 := c.valid
      rw [if_neg hfirst]
      dsimp only
      have hcode : 0x10000 + (0xD800 + (c.toNat - 0x10000) / 0x400 - 0xD800) * 0x400 +
          (0xDC00 + (c.toNat - 0x10000) % 0x400 - 0xDC00) = c.toNat := by omega
      rw [List.append_assoc, stringBody_unit (by omega), unit_pair (by omega) (by omega), hcode,
        Char.ofNat_toNat]

theorem stringBody_quoted (cs done rest : List Char) {fuel : Nat} (h : cs.length < fuel) :
    stringBody done fuel (cs.flatMap Writer.escape ++ '"' :: rest) =
      .ok (String.ofList (done.reverse ++ cs), rest) := by
  induction cs generalizing done fuel with
  | nil =>
      obtain ⟨fuel, rfl⟩ := Nat.exists_eq_add_one.2 h
      simp [stringBody]
  | cons c cs ih =>
      obtain ⟨fuel, rfl⟩ := Nat.exists_eq_add_one.2 (Nat.zero_lt_of_lt h)
      rw [List.flatMap_cons, List.append_assoc, stringBody_escape,
        ih (c :: done) (Nat.lt_of_succ_lt_succ h), List.reverse_cons, List.append_assoc]
      rfl

/-- A text is read up to the quote that closes it. -/
theorem stringBody_toList (text : String) (rest : List Char) :
    stringBody [] (text.toList.flatMap Writer.escape ++ '"' :: rest).length
      (text.toList.flatMap Writer.escape ++ '"' :: rest) = .ok (text, rest) := by
  have hlength := Writer.length_le_flatMap_escape text.toList
  rw [stringBody_quoted, List.reverse_nil, List.nil_append, String.ofList_toList]
  rw [List.length_append, List.length_cons]
  omega

section Numbers

/-- Whether what follows a number does not go on with it. -/
def Closes (rest : List Char) : Prop :=
  ∀ c, rest.head? = some c → c.isDigit = false ∧ c ≠ '.' ∧ c ≠ 'e' ∧ c ≠ 'E'

theorem closes_nil : Closes [] := nofun

theorem closes_cons {c : Char} {rest : List Char}
    (h : c.isDigit = false ∧ c ≠ '.' ∧ c ≠ 'e' ∧ c ≠ 'E') : Closes (c :: rest) := by
  rintro d ⟨⟩
  exact h

/-- A number that is not zero has no leading zero. -/
theorem head?_toDigits {n : Nat} (h : 0 < n) : (Nat.toDigits 10 n).head? ≠ some '0' := by
  induction n using Nat.strong_induction_on with
  | _ n ih =>
      rw [Nat.toDigits_eq_if (by decide)]
      by_cases hsmall : n < 10
      · rw [if_pos hsmall, List.head?_cons, Ne, Option.some.injEq, Nat.digitChar_eq_zero]
        omega
      · have hfirst := ih (n / 10) (by omega) (by omega)
        obtain ⟨d, ds, hdigits⟩ := List.exists_cons_of_ne_nil (Nat.toDigits_ne_nil (n := n / 10)
          (b := 10))
        rw [hdigits] at hfirst
        rw [if_neg hsmall, hdigits]
        exact hfirst

theorem asciiDigits_append {ds rest : List Char} (hds : ∀ c ∈ ds, c.isDigit = true)
    (hrest : Closes rest) : asciiDigits (ds ++ rest) = (ds, rest) := by
  have hnone : rest.takeWhile Char.isDigit = [] ∧ rest.dropWhile Char.isDigit = rest := by
    cases rest with
    | nil => exact ⟨rfl, rfl⟩
    | cons c rest => simp [(hrest c rfl).1]
  rw [asciiDigits, List.takeWhile_append_of_pos hds, List.dropWhile_append_of_pos hds, hnone.1,
    hnone.2, List.append_nil]

theorem fraction_of_closes {rest : List Char} (h : Closes rest) : fraction rest = ([], rest) := by
  unfold fraction
  split
  · exact absurd rfl (h '.' rfl).2.1
  · rfl

theorem exponent_of_closes {rest : List Char} (h : Closes rest) :
    exponent rest = (none, rest) := by
  unfold exponent
  split
  · rename_i c rest
    obtain ⟨-, -, hsmall, hlarge⟩ := h c rfl
    rw [if_neg (by simp [hsmall, hlarge])]
  · rfl

theorem natOf_toDigits (n : Nat) : natOf (Nat.toDigits 10 n) = n := by
  have hdigits := Nat.ofDigitChars_ten_toDigits (n := n)
  rw [Nat.ofDigitChars_eq_foldl] at hdigits
  rw [natOf, Text.Digit.ofDigits, List.foldl_map]
  exact hdigits

/-- All digits of a number are read, as none of them comes after a leading zero. -/
theorem whole_toDigits (n : Nat) {rest : List Char} (hrest : Closes rest) :
    (match Nat.toDigits 10 n ++ rest with
      | '0' :: rest => (['0'], rest)
      | cs => asciiDigits cs) = (Nat.toDigits 10 n, rest) := by
  have hdigits : ∀ c ∈ Nat.toDigits 10 n, c.isDigit = true :=
    fun c hc => Nat.isDigit_of_mem_toDigits (by decide) (by decide) hc
  rcases Nat.eq_zero_or_pos n with rfl | hpos
  · rw [Nat.toDigits_zero]
    rfl
  · have hzero := head?_toDigits hpos
    split
    · rename_i hcons
      cases hfirst : Nat.toDigits 10 n with
      | nil => exact absurd hfirst Nat.toDigits_ne_nil
      | cons d ds =>
          rw [hfirst] at hcons hzero
          cases hcons
          exact absurd rfl hzero
    · exact asciiDigits_append hdigits hrest

theorem number_toDigits {n : Nat} (h : n < 10 ^ Text.Digit.maxDigits) (negative : Bool)
    {rest : List Char} (hrest : Closes rest) : number negative (Nat.toDigits 10 n ++ rest) =
      .ok (.int (if negative then -(n : Int) else n), rest) := by
  have hlength : (Nat.toDigits 10 n).length ≤ Text.Digit.maxDigits :=
    (Nat.length_toDigits_le_iff (by decide) (by decide)).2 h
  unfold number
  split
  rename_i whole others hparts
  obtain ⟨rfl, rfl⟩ := Prod.mk.inj ((whole_toDigits n hrest).symm.trans hparts)
  rw [if_neg (by simp), fraction_of_closes hrest]
  dsimp only
  rw [exponent_of_closes hrest]
  dsimp only
  rw [if_pos (by decide), if_neg (Nat.not_lt.2 hlength), natOf_toDigits]

/-- A text that begins with another character than a word does not begin with the word. -/
theorem afterWord?_eq_none {word : String} {first c : Char} {more cs : List Char}
    (hword : word.toList = first :: more) (h : first ≠ c) : afterWord? word (c :: cs) = none := by
  rw [afterWord?, hword, List.isPrefixOf_cons_cons, beq_false_of_ne h]
  rfl

theorem scalar_of_digit {c : Char} (h : c.isDigit = true) (cs : List Char) :
    scalar (c :: cs) = number false (c :: cs) := by
  have hnot : ∀ d : Char, d.isDigit = false → d ≠ c := by
    rintro d hd rfl
    rw [h] at hd
    cases hd
  unfold scalar
  rw [afterWord?_eq_none rfl (hnot 'n' rfl), afterWord?_eq_none rfl (hnot 't' rfl),
    afterWord?_eq_none rfl (hnot 'f' rfl), afterWord?_eq_none rfl (hnot 'N' rfl),
    afterWord?_eq_none rfl (hnot 'I' rfl), afterWord?_eq_none rfl (hnot '-' rfl)]
  dsimp only
  split
  · rename_i hminus
    obtain ⟨rfl, -⟩ := List.cons.inj hminus
    exact absurd h (by decide)
  · rfl

theorem scalar_of_minus {c : Char} (h : c.isDigit = true) (cs : List Char) :
    scalar ('-' :: c :: cs) = number true (c :: cs) := by
  have hword : afterWord? "-Infinity" ('-' :: c :: cs) = none := by
    have hword : "-Infinity".toList = '-' :: 'I' :: "nfinity".toList := rfl
    have hfirst : ('I' == c) = false := by
      rw [beq_eq_false_iff_ne]
      rintro rfl
      exact absurd h (by decide)
    rw [afterWord?, hword, List.isPrefixOf_cons_cons, List.isPrefixOf_cons_cons, hfirst,
      Bool.false_and, Bool.and_false]
    rfl
  unfold scalar
  rw [afterWord?_eq_none rfl (by decide : 'n' ≠ '-'),
    afterWord?_eq_none rfl (by decide : 't' ≠ '-'), afterWord?_eq_none rfl (by decide : 'f' ≠ '-'),
    afterWord?_eq_none rfl (by decide : 'N' ≠ '-'), afterWord?_eq_none rfl (by decide : 'I' ≠ '-'),
    hword]
  rfl

theorem scalar_int {n : Int} (h : n.natAbs < 10 ^ Text.Digit.maxDigits) {rest : List Char}
    (hrest : Closes rest) : scalar ((toString n).toList ++ rest) = .ok (.int n, rest) := by
  have hdigit : ∀ m : Nat, ∃ c cs, Nat.toDigits 10 m = c :: cs ∧ c.isDigit = true := by
    intro m
    obtain ⟨c, cs, hcs⟩ := List.exists_cons_of_ne_nil (Nat.toDigits_ne_nil (n := m) (b := 10))
    refine ⟨c, cs, hcs, Nat.isDigit_of_mem_toDigits (b := 10) (n := m) (by decide) (by decide) ?_⟩
    rw [hcs]
    exact List.mem_cons_self
  rw [Int.toString_eq_repr, Int.repr_eq_if]
  by_cases hsign : 0 ≤ n
  · obtain ⟨c, cs, hcs, hc⟩ := hdigit n.toNat
    have hread := number_toDigits (n := n.toNat) (by omega) false hrest
    rw [if_pos hsign, Nat.toList_repr]
    rw [hcs, List.cons_append] at hread ⊢
    rw [scalar_of_digit hc, hread]
    simp [hsign]
  · obtain ⟨c, cs, hcs, hc⟩ := hdigit (-n).toNat
    have hread := number_toDigits (n := (-n).toNat) (by omega) true hrest
    rw [if_neg hsign, String.toList_append, Nat.toList_repr]
    rw [hcs, List.cons_append] at hread
    rw [hcs]
    change scalar ('-' :: c :: (cs ++ rest)) = _
    rw [scalar_of_minus hc, hread]
    simp
    omega

end Numbers

end Reader

end PracticeShell.Json
