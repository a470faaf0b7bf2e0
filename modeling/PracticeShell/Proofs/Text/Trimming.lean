import Mathlib.Data.List.DropRight
import PracticeShell.Text.Blank
import PracticeShell.Text.Letter

/-!
# Trimming

`tidy` takes away what passes a test at both ends of a list. Neither end matters to it
(`tidy_dropWhile_append`, `tidy_append_dropWhileEnd`), and it does not matter which end is tidied first
(`dropWhile_dropWhileEnd`).

The class of blanks is given by the bounds of its intervals, which come in pairs (`foldl_pair`). So its
members can be listed (`mem_codes_of_isBlank`), and none of them can stand in a word of letters
(`isBlank_of_isWord`).
-/

namespace PracticeShell.Text

namespace Blank

variable {α : Type} {p : α → Bool} {a : α}

theorem dropWhileEnd_concat_pos (h : p a = true) (l : List α) :
    dropWhileEnd p (l ++ [a]) = dropWhileEnd p l := List.rdropWhile_concat_pos p l a h

theorem dropWhileEnd_concat_neg (h : p a = false) (l : List α) :
    dropWhileEnd p (l ++ [a]) = l ++ [a] := List.rdropWhile_concat_neg p l a (by simp [h])

/-- Only what follows what fails the test is taken away. -/
theorem dropWhileEnd_append (h : p a = false) (l r : List α) :
    dropWhileEnd p (l ++ a :: r) = l ++ a :: dropWhileEnd p r := by
  induction r using List.reverseRecOn with
  | nil => exact dropWhileEnd_concat_neg h l
  | append_singleton r c ih =>
      have hline : l ++ a :: (r ++ [c]) = l ++ a :: r ++ [c] := by simp
      rw [hline]
      cases hc : p c with
      | true => rw [dropWhileEnd_concat_pos hc, dropWhileEnd_concat_pos hc, ih]
      | false => rw [dropWhileEnd_concat_neg hc, dropWhileEnd_concat_neg hc, hline]

/-- What comes before all that passes the test is not taken away. -/
theorem takeWhile_dropWhileEnd (l : List α) :
    (dropWhileEnd p l).takeWhile (!p ·) = l.takeWhile (!p ·) := by
  induction l using List.reverseRecOn with
  | nil => rfl
  | append_singleton l c ih =>
      cases hc : p c with
      | false => rw [dropWhileEnd_concat_neg hc]
      | true =>
          rw [dropWhileEnd_concat_pos hc, ih, List.takeWhile_append]
          split
          · rename_i hall
            rw [List.takeWhile_cons_of_neg (by simp [hc]), List.append_nil]
            exact (List.takeWhile_prefix _).eq_of_length hall
          · rfl

/-- A list without what passes the test at both ends. -/
def tidy (p : α → Bool) (l : List α) : List α := dropWhileEnd p (l.dropWhile p)

theorem trim_ofList (cs : List Char) : trim (String.ofList cs) = String.ofList (tidy isBlank cs) := by
  rw [trim, String.toList_ofList, tidy]

theorem toList_trim (text : String) : (trim text).toList = tidy isBlank text.toList :=
  String.toList_ofList

theorem tidy_cons (h : p a = true) (l : List α) : tidy p (a :: l) = tidy p l := by
  rw [tidy, List.dropWhile_cons_of_pos h, tidy]

theorem tidy_concat (h : p a = true) (l : List α) : tidy p (l ++ [a]) = tidy p l := by
  rw [tidy, List.dropWhile_append]
  split
  · rename_i hnil
    rw [List.dropWhile_cons_of_pos h, tidy, List.isEmpty_iff.1 hnil]
    rfl
  · exact dropWhileEnd_concat_pos h _

theorem tidy_dropWhile_append (l r : List α) : tidy p (l.dropWhile p ++ r) = tidy p (l ++ r) := by
  induction l with
  | nil => rfl
  | cons b l ih =>
      cases hb : p b with
      | true => rw [List.dropWhile_cons_of_pos hb, ih, List.cons_append, tidy_cons hb]
      | false => rw [List.dropWhile_cons_of_neg (by simp [hb])]

theorem tidy_append_dropWhileEnd (l r : List α) :
    tidy p (l ++ dropWhileEnd p r) = tidy p (l ++ r) := by
  induction r using List.reverseRecOn with
  | nil => rfl
  | append_singleton r c ih =>
      cases hc : p c with
      | true => rw [dropWhileEnd_concat_pos hc, ih, ← List.append_assoc, tidy_concat hc]
      | false => rw [dropWhileEnd_concat_neg hc]

/-- What is taken away from the end for another reason would have been taken away all the same. -/
theorem tidy_dropWhileEnd_of_imp {q : α → Bool} (h : ∀ a, q a = true → p a = true) (l : List α) :
    tidy p (dropWhileEnd q l) = tidy p l := by
  induction l using List.reverseRecOn with
  | nil => rfl
  | append_singleton l c ih =>
      cases hc : q c with
      | true => rw [dropWhileEnd_concat_pos hc, ih, tidy_concat (h c hc)]
      | false => rw [dropWhileEnd_concat_neg hc]

theorem dropWhile_dropWhileEnd (l : List α) : (dropWhileEnd p l).dropWhile p = tidy p l := by
  induction l using List.reverseRecOn with
  | nil => rfl
  | append_singleton l c ih =>
      cases hc : p c with
      | true => rw [dropWhileEnd_concat_pos hc, ih, tidy_concat hc]
      | false =>
          rw [dropWhileEnd_concat_neg hc, tidy, List.dropWhile_append]
          split
          · rw [List.dropWhile_cons_of_neg (by simp [hc])]
            exact (dropWhileEnd_concat_neg hc []).symm
          · exact (dropWhileEnd_concat_neg hc _).symm

section Word

variable {w : List α} (hne : w ≠ []) (h : ∀ a ∈ w, p a = false)

include hne h

/-- Nothing that follows is taken away from the start. -/
theorem dropWhile_append_word (l r : List α) :
    (l ++ (w ++ r)).dropWhile p = l.dropWhile p ++ (w ++ r) := by
  cases w with
  | nil => exact absurd rfl hne
  | cons a w =>
      obtain ⟨ha, -⟩ := List.forall_mem_cons.1 h
      rw [List.dropWhile_append]
      split
      · rename_i hnil
        rw [List.cons_append, List.dropWhile_cons_of_neg (by simp [ha]), List.isEmpty_iff.1 hnil,
          List.nil_append]
      · rfl

/-- Nothing that is before is taken away from the end. -/
theorem dropWhileEnd_append_word (l r : List α) :
    dropWhileEnd p (l ++ (w ++ r)) = l ++ (w ++ dropWhileEnd p r) := by
  rcases List.eq_nil_or_concat w with rfl | ⟨start, a, rfl⟩
  · exact absurd rfl hne
  · have ha : p a = false := h a (by simp)
    have hend := dropWhileEnd_append ha (l ++ start) r
    simpa using hend

end Word

end Blank

namespace Intervals

/-- Bounds that are not passed do not matter. -/
theorem foldl_of_lt {code : Nat} {bounds : List Nat} (h : ∀ b ∈ bounds, code < b) (inside : Bool) :
    bounds.foldl (fun inside bound => if bound ≤ code then !inside else inside) inside = inside := by
  induction bounds with
  | nil => rfl
  | cons b bounds ih =>
      rw [List.forall_mem_cons] at h
      rw [List.foldl_cons, if_neg (by omega), ih h.2]

/-- Two bounds are the start and the end of an interval. -/
theorem foldl_pair {code low high : Nat} (hlow : low ≤ high) {bounds : List Nat}
    (hhigh : ∀ b ∈ bounds, high ≤ b) :
    (low :: high :: bounds).foldl (fun inside bound => if bound ≤ code then !inside else inside)
        false =
      (decide (low ≤ code ∧ code < high) ||
        bounds.foldl (fun inside bound => if bound ≤ code then !inside else inside) false) := by
  by_cases hstart : low ≤ code
  · by_cases hend : high ≤ code
    · have hpast : ¬ code < high := by omega
      simp [hstart, hend, hpast]
    · have hrest := foldl_of_lt (fun b hb => Nat.lt_of_lt_of_le (Nat.lt_of_not_le hend) (hhigh b hb))
      simp [hstart, hend, hrest, Nat.lt_of_not_le hend]
  · have hend : ¬ high ≤ code := by omega
    simp [hstart, hend]

end Intervals

namespace Blank

/-- The code points of all blanks. -/
def codes : List Nat :=
  List.range' 9 5 ++ List.range' 28 5 ++ [133, 160, 5760] ++ List.range' 8192 11 ++
    [8232, 8233, 8239, 8287, 12288]

theorem mem_codes_of_isBlank {c : Char} (h : isBlank c = true) : c.toNat ∈ codes := by
  rw [isBlank, Intervals.contains, ← Array.foldl_toList] at h
  simp only [intervals] at h
  repeat rw [Intervals.foldl_pair (by decide) (by decide)] at h
  simp only [List.foldl_nil, Bool.or_false, Bool.or_eq_true, decide_eq_true_eq] at h
  simp only [codes, List.mem_append, List.mem_range'_1, List.mem_cons, List.not_mem_nil, or_false]
  omega

theorem isWord_of_mem_codes : ∀ code ∈ codes, Letter.isWord (Char.ofNat code) = false := by
  simp only [Letter.isWord, Intervals.contains, ← Array.foldl_toList]
  decide +kernel

/-- No blank is a letter, a number or an underscore. -/
theorem isBlank_of_isWord {c : Char} (h : Letter.isWord c = true) : isBlank c = false := by
  rw [Bool.eq_false_iff]
  intro hblank
  have hnot := isWord_of_mem_codes c.toNat (mem_codes_of_isBlank hblank)
  rw [Char.ofNat_toNat, h] at hnot
  cases hnot

end Blank

end PracticeShell.Text
