import Mathlib.Data.Nat.Bitwise
import PracticeShell.Command.Ownership

/-!
# Clauses of a change of permissions

A clause leaves each bit as it is or gives it a value that does not depend on it
(`Clause.testBit_apply_cases`), and so do clauses in a row. So a change that is made again changes
nothing (`changedPermissions?_again`), and a class that no clause names keeps its bits
(`bits_of_not_names`).
-/

namespace PracticeShell

/-- The bits that are left when others are taken away. -/
theorem testBit_sub_and (p bits i : Nat) :
    (p - (p &&& bits)).testBit i = (p.testBit i && !bits.testBit i) := by
  have hle : p &&& bits ≤ p := Nat.and_le_left
  have hmod := @Nat.and_mod_two_eq_one p bits
  induction i generalizing p bits with
  | zero =>
      rw [Bool.eq_iff_iff]
      simp only [Nat.testBit_zero, decide_eq_true_eq, Bool.and_eq_true, Bool.not_eq_true',
        decide_eq_false_iff_not]
      omega
  | succ i ih =>
      have hhalf : (p - (p &&& bits)) / 2 = p / 2 - (p / 2 &&& bits / 2) := by
        rw [← Nat.and_div_two]
        omega
      rw [Nat.testBit_succ, Nat.testBit_succ, Nat.testBit_succ, hhalf]
      exact ih _ _ Nat.and_le_left Nat.and_mod_two_eq_one

namespace Command

/-- Those whom permissions are for. -/
inductive Class
  | owner
  | group
  | others

namespace Class

/-- The letter that names a class in a clause. -/
def letter : Class → Char
  | owner => 'u'
  | group => 'g'
  | others => 'o'

/-- The place of the last bit of a class. -/
def shift : Class → Nat
  | owner => 6
  | group => 3
  | others => 0

/-- The three bits of a class. -/
def bits (k : Class) (p : Permissions) : Nat := p.val / 2 ^ k.shift % 8

theorem exists_letter {c : Char} (hc : c ∈ ['u', 'g', 'o', 'a']) (hall : c ≠ 'a') :
    ∃ k : Class, letter k = c := by
  simp only [List.mem_cons, List.not_mem_nil, or_false] at hc
  rcases hc with rfl | rfl | rfl | rfl
  · exact ⟨owner, rfl⟩
  · exact ⟨group, rfl⟩
  · exact ⟨others, rfl⟩
  · exact absurd rfl hall

theorem shift_le (k : Class) : k.shift ≤ 6 := by cases k <;> decide

/-- The bits of two classes do not meet. -/
theorem shift_apart {j k : Class} (h : j ≠ k) : j.shift + 3 ≤ k.shift ∨ k.shift + 3 ≤ j.shift := by
  cases j <;> cases k <;> first | exact absurd rfl h | decide

theorem bits_congr {k : Class} {p q : Permissions}
    (h : ∀ i, k.shift ≤ i → i < k.shift + 3 → p.val.testBit i = q.val.testBit i) :
    k.bits p = k.bits q := by
  refine Nat.eq_of_testBit_eq fun i => ?_
  have height : 8 = 2 ^ 3 := rfl
  rw [bits, bits, height, Nat.testBit_mod_two_pow, Nat.testBit_mod_two_pow, Nat.testBit_div_two_pow,
    Nat.testBit_div_two_pow]
  by_cases hi : i < 3
  · rw [h (i + k.shift) (by omega) (by omega)]
  · simp [hi]

end Class

/-- The letters of a clause that say whom it is for. -/
def whoPart (clause : List Char) : List Char :=
  clause.takeWhile fun c => ['u', 'g', 'o', 'a'].contains c

/-- Whether a clause names a class, by its letter, as one of all, or by no letter. -/
def Names (clause : List Char) (k : Class) : Prop :=
  whoPart clause = [] ∨ 'a' ∈ whoPart clause ∨ k.letter ∈ whoPart clause

instance (clause : List Char) (k : Class) : Decidable (Names clause k) :=
  inferInstanceAs (Decidable (_ ∨ _ ∨ _))

theorem whoPart_withoutFinal (clause : List Char) :
    whoPart (Text.Lines.withoutFinal clause) = whoPart clause := by
  have hfeed : ∀ cs : List Char, whoPart (cs ++ ['\n']) = whoPart cs := by
    intro cs
    induction cs with
    | nil => rfl
    | cons c rest ih =>
        rw [whoPart, whoPart, List.cons_append, List.takeWhile_cons, List.takeWhile_cons]
        exact ite_congr rfl (fun _ => congrArg (c :: ·) ih) fun _ => rfl
  unfold Text.Lines.withoutFinal
  split
  · rename_i hlast
    obtain ⟨before, rfl⟩ := List.getLast?_eq_some_iff.1 hlast
    rw [List.dropLast_concat, hfeed]
  · rfl

namespace Clause

theorem groupBits_letter (bits : Nat) (k : Class) :
    groupBits bits k.letter = bits * 2 ^ k.shift := by
  cases k with
  | owner | group => rfl
  | others => exact (Nat.mul_one bits).symm

/-- The bits named for one class are not those of another. -/
theorem testBit_groupBits {bits : Nat} (hbits : bits < 8) {j k : Class} (hne : j ≠ k) {i : Nat}
    (hfrom : k.shift ≤ i) (hto : i < k.shift + 3) :
    (groupBits bits j.letter).testBit i = false := by
  rw [groupBits_letter, Nat.testBit_mul_two_pow]
  rcases Class.shift_apart hne with hbelow | habove
  · have hlt : bits < 2 ^ (i - j.shift) :=
      Nat.lt_of_lt_of_le hbits (Nat.pow_le_pow_right Nat.two_pos (by omega : 3 ≤ i - j.shift))
    rw [Nat.testBit_lt_two_pow hlt, Bool.and_false]
  · rw [decide_eq_false (by omega), Bool.false_and]

/-- What is spread over classes leaves out the bits of the others. -/
theorem testBit_spread {bits : Nat} (hbits : bits < 8) {k : Class} {clause : List Char}
    (hk : ¬ Names clause k) {i : Nat} (hfrom : k.shift ≤ i) (hto : i < k.shift + 3) :
    (spread (whoPart clause) bits).testBit i = false := by
  obtain ⟨hsome, hrest⟩ := not_or.1 hk
  obtain ⟨hall, hletter⟩ := not_or.1 hrest
  have hmem : ∀ c ∈ whoPart clause, c ∈ ['u', 'g', 'o', 'a'] := fun c hc =>
    List.contains_iff_mem.1 (List.all_eq_true.1 List.all_takeWhile c hc)
  have hfold : ∀ (cs : List Char) (all : Nat), (∀ c ∈ cs, c ∈ whoPart clause) →
      all.testBit i = false →
        (cs.foldl (fun all c => all ||| groupBits bits c) all).testBit i = false := by
    intro cs
    induction cs with
    | nil => exact fun all _ hbit => hbit
    | cons c rest ih =>
        intro all hcs hbit
        obtain ⟨hc, hrest⟩ := List.forall_mem_cons.1 hcs
        refine ih _ hrest ?_
        obtain ⟨j, rfl⟩ := Class.exists_letter (hmem c hc) fun h => hall (h ▸ hc)
        rw [Nat.testBit_or, hbit, Bool.false_or]
        have hne : j ≠ k := by
          rintro rfl
          exact hletter hc
        exact testBit_groupBits hbits hne hfrom hto
  rw [spread, if_neg (by simpa using hsome)]
  exact hfold _ 0 (fun _ => id) (Nat.zero_testBit i)

theorem letters_lt (letters : List Char) {bits : Nat} (h : bits < 8) :
    letters.foldl (fun bits c => bits ||| letterBit c) bits < 8 := by
  induction letters generalizing bits with
  | nil => exact h
  | cons c rest ih =>
      refine ih (Nat.or_lt_two_pow (n := 3) h ?_)
      unfold letterBit
      split <;> decide

/-- A clause is about the classes named. -/
theorem eq_spread_of_read? {cs : List Char} {c : Clause} (h : read? cs = some c) :
    ∃ bits < 8, c.groups = spread (whoPart cs) 7 ∧ c.bits = spread (whoPart cs) bits := by
  unfold read? at h
  dsimp only at h
  split at h
  · split at h
    · obtain ⟨change, -, rfl⟩ := Option.map_eq_some_iff.1 h
      exact ⟨_, letters_lt _ (by decide), rfl, rfl⟩
    · cases h
  · cases h

/-- A clause leaves a bit as it is or gives it a value that does not depend on it. -/
theorem testBit_apply_cases (c : Clause) (i : Nat) :
    (∀ p, (c.apply p).testBit i = p.testBit i) ∨ ∃ value, ∀ p, (c.apply p).testBit i = value := by
  unfold apply
  cases c.change with
  | add =>
      simp only [Nat.testBit_or]
      cases c.bits.testBit i with
      | false => exact .inl fun p => Bool.or_false _
      | true => exact .inr ⟨true, fun p => Bool.or_true _⟩
  | remove =>
      simp only [testBit_sub_and]
      cases c.bits.testBit i with
      | false => exact .inl fun p => Bool.and_true _
      | true => exact .inr ⟨false, fun p => Bool.and_false _⟩
  | assign =>
      simp only [Nat.testBit_or, testBit_sub_and]
      cases c.bits.testBit i with
      | true => exact .inr ⟨true, fun p => Bool.or_true _⟩
      | false =>
          cases c.groups.testBit i with
          | false => exact .inl fun p => by simp
          | true => exact .inr ⟨false, fun p => by simp⟩

/-- Clauses in a row leave a bit as it is or give it a value that does not depend on it. -/
theorem testBit_foldl_apply_cases (clauses : List Clause) (i : Nat) :
    (∀ p, (clauses.foldl apply p).testBit i = p.testBit i) ∨
      ∃ value, ∀ p, (clauses.foldl apply p).testBit i = value := by
  induction clauses with
  | nil => exact .inl fun p => rfl
  | cons c rest ih =>
      rcases ih with hkeeps | ⟨value, hvalue⟩
      · rcases testBit_apply_cases c i with hfirst | ⟨value, hvalue⟩
        · exact .inl fun p => (hkeeps _).trans (hfirst p)
        · exact .inr ⟨value, fun p => (hkeeps _).trans (hvalue p)⟩
      · exact .inr ⟨value, fun p => hvalue _⟩

/-- A clause leaves the bits of a class as they are that it does not name. -/
theorem testBit_apply_of_not_names {cs : List Char} {c : Clause} (h : read? cs = some c) {k : Class}
    (hk : ¬ Names cs k) {i : Nat} (hfrom : k.shift ≤ i) (hto : i < k.shift + 3) (p : Nat) :
    (c.apply p).testBit i = p.testBit i := by
  obtain ⟨bits, hlt, hgroups, hbits⟩ := eq_spread_of_read? h
  have hbit : c.bits.testBit i = false := hbits ▸ testBit_spread hlt hk hfrom hto
  have hgroup : c.groups.testBit i = false := hgroups ▸ testBit_spread (by decide) hk hfrom hto
  unfold apply
  cases c.change <;> simp [testBit_sub_and, hbit, hgroup]

end Clause

/-- A change that can be read gives permissions of its own, or it is a row of clauses. -/
theorem changedPermissions?_cases (change : String) :
    (∀ p, changedPermissions? change p = none) ∨
      (∃ n, Permissions.ofOctal? (Text.Lines.withoutFinal change.toList) = some n ∧
        ∀ p, changedPermissions? change p = some (Permissions.ofNat n)) ∨
      ∃ clauses, ((change.toList.splitOn ',').mapM fun cs =>
          Clause.read? (Text.Lines.withoutFinal cs)) = some clauses ∧
        ∀ p, changedPermissions? change p =
          some (Permissions.ofNat (clauses.foldl Clause.apply p.val)) := by
  unfold changedPermissions?
  dsimp only
  split
  · rename_i n hoctal
    split at hoctal
    · exact .inr (.inl ⟨n, hoctal, fun p => rfl⟩)
    · cases hoctal
  · cases hclauses : (change.toList.splitOn ',').mapM fun cs =>
        Clause.read? (Text.Lines.withoutFinal cs) with
    | none => exact .inl fun p => rfl
    | some clauses => exact .inr (.inr ⟨clauses, rfl, fun p => rfl⟩)

theorem testBit_ofNat (bits i : Nat) :
    (Permissions.ofNat bits).val.testBit i = (decide (i < 9) && bits.testBit i) :=
  Nat.testBit_mod_two_pow bits 9 i

variable {change : String} {p q : Permissions}

/-- A change that is made again changes nothing. -/
theorem changedPermissions?_again (h : changedPermissions? change p = some q) :
    changedPermissions? change q = some q := by
  rcases changedPermissions?_cases change with hnone | ⟨n, -, hall⟩ | ⟨clauses, -, hall⟩
  · rw [hnone] at h
    cases h
  · rw [hall] at h
    rw [hall, h]
  · rw [hall] at h
    obtain rfl := Option.some.inj h
    rw [hall]
    congr 1
    refine Fin.ext (Nat.eq_of_testBit_eq fun i => ?_)
    rw [testBit_ofNat, testBit_ofNat]
    by_cases hi : i < 9
    · rcases Clause.testBit_foldl_apply_cases clauses i with hkeeps | ⟨value, hvalue⟩
      · rw [hkeeps (Permissions.ofNat _).val, testBit_ofNat]
        simp [hi]
      · rw [hvalue, hvalue]
    · simp [hi]

/-- Whether a change can be read does not depend on the permissions. -/
theorem isSome_changedPermissions? (h : changedPermissions? change p = some q) (other : Permissions) :
    (changedPermissions? change other).isSome := by
  rcases changedPermissions?_cases change with hnone | ⟨n, -, hall⟩ | ⟨clauses, -, hall⟩
  · rw [hnone] at h
    cases h
  · rw [hall]
    rfl
  · rw [hall]
    rfl

theorem exists_of_mapM_cons {α β : Type} {f : α → Option β} {a : α} {l : List α} {bs : List β}
    (h : (a :: l).mapM f = some bs) :
    ∃ b rest, f a = some b ∧ l.mapM f = some rest ∧ bs = b :: rest := by
  rw [List.mapM_cons] at h
  obtain ⟨b, hb, htail⟩ := Option.bind_eq_some_iff.1 h
  obtain ⟨rest, hrest, heq⟩ := Option.bind_eq_some_iff.1 htail
  exact ⟨b, rest, hb, hrest, (Option.some.inj heq).symm⟩

theorem isSome_octal?_of_mapM {cs : List Char} {digits : List Nat}
    (h : cs.mapM Permissions.octal? = some digits) : ∀ c ∈ cs, (Permissions.octal? c).isSome := by
  induction cs generalizing digits with
  | nil => exact fun c hc => absurd hc List.not_mem_nil
  | cons c rest ih =>
      obtain ⟨digit, others, hc, hrest, -⟩ := exists_of_mapM_cons h
      exact List.forall_mem_cons.2 ⟨by rw [hc]; rfl, ih hrest⟩

/-- Octal digits are one clause, which is for all classes. -/
theorem exists_names_of_octal {n : Nat}
    (h : Permissions.ofOctal? (Text.Lines.withoutFinal change.toList) = some n) (k : Class) :
    ∃ clause ∈ change.toList.splitOn ',', Names clause k := by
  obtain ⟨digits, hdigits, -⟩ := Option.map_eq_some_iff.1 h
  have hother : ∀ c, c ∈ ['u', 'g', 'o', 'a', ','] → c ∉ change.toList := by
    intro c hc hmem
    have hfinal : c ∈ Text.Lines.withoutFinal change.toList := by
      unfold Text.Lines.withoutFinal
      split
      · rename_i hlast
        obtain ⟨before, hbefore⟩ := List.getLast?_eq_some_iff.1 hlast
        rw [hbefore, List.mem_append, List.mem_singleton] at hmem
        rw [hbefore, List.dropLast_concat]
        refine hmem.resolve_right ?_
        rintro rfl
        exact absurd hc (by decide)
      · exact hmem
    have hnone : ∀ c ∈ ['u', 'g', 'o', 'a', ','], ¬ (Permissions.octal? c).isSome := by
      simp [Permissions.octal?]
    exact hnone c hc (isSome_octal?_of_mapM hdigits c hfinal)
  have hclause : change.toList.splitOn ',' = [change.toList] :=
    List.splitOn_eq_singleton (hother ',' (by decide))
  refine ⟨change.toList, by simp [hclause], .inl ?_⟩
  refine List.eq_nil_iff_forall_not_mem.2 fun c hc => ?_
  have hwho : c ∈ ['u', 'g', 'o', 'a'] :=
    List.contains_iff_mem.1 (List.all_eq_true.1 List.all_takeWhile c hc)
  exact hother c (List.mem_append_left [','] hwho) ((List.takeWhile_sublist _).subset hc)

/-- Clauses in a row leave the bits of a class as they are that none of them names. -/
theorem testBit_foldl_apply_of_not_names {texts : List (List Char)} {clauses : List Clause}
    (h : (texts.mapM fun cs => Clause.read? (Text.Lines.withoutFinal cs)) = some clauses) {k : Class}
    (hk : ∀ clause ∈ texts, ¬ Names clause k) {i : Nat} (hfrom : k.shift ≤ i)
    (hto : i < k.shift + 3) (bits : Nat) :
    (clauses.foldl Clause.apply bits).testBit i = bits.testBit i := by
  induction texts generalizing clauses bits with
  | nil =>
      cases h
      rfl
  | cons text rest ih =>
      obtain ⟨c, others, hc, hothers, rfl⟩ := exists_of_mapM_cons h
      obtain ⟨htext, hrest⟩ := List.forall_mem_cons.1 hk
      have hfinal : ¬ Names (Text.Lines.withoutFinal text) k := by
        rwa [Names, whoPart_withoutFinal]
      exact (ih hothers hrest _).trans
        (Clause.testBit_apply_of_not_names hc hfinal hfrom hto bits)

/-- A class that no clause names keeps its bits. -/
theorem bits_of_not_names (h : changedPermissions? change p = some q) {k : Class}
    (hk : ∀ clause ∈ change.toList.splitOn ',', ¬ Names clause k) : k.bits q = k.bits p := by
  rcases changedPermissions?_cases change with hnone | ⟨n, hoctal, -⟩ | ⟨clauses, hclauses, hall⟩
  · rw [hnone] at h
    cases h
  · obtain ⟨clause, hclause, hnames⟩ := exists_names_of_octal hoctal k
    exact absurd hnames (hk clause hclause)
  · rw [hall] at h
    obtain rfl := Option.some.inj h
    refine Class.bits_congr fun i hfrom hto => ?_
    have hi : i < 9 := by
      have := k.shift_le
      omega
    rw [testBit_ofNat, decide_eq_true hi, Bool.true_and]
    exact testBit_foldl_apply_of_not_names hclauses hk hfrom hto p.val

end Command

end PracticeShell
