import PracticeShell.Guard
import PracticeShell.Proofs.Command.Arguments

/-!
# Operands that the guard examines

The guard sorts words into flags and operands by their first character alone, wherever they stand. A
command takes all words after a first `--` for operands. So the guard examines the operands that a command
acts on exactly if none of the words after a first `--` looks like a flag (`operands_are_examined_iff`).
-/

namespace PracticeShell.Guard

open Arguments

variable {flags : String} {a args : Arguments} {word : String} {words rest : List String}
  {letter : Char}

theorem operandsOf_eq_filter (words : List String) : operandsOf words = words.filter isOperand := by
  rw [operandsOf]
  congr 1
  funext word
  rw [isOperand, Bool.or_comm]

theorem operandsOf_cons_of_pos (h : isOperand word = true) :
    operandsOf (word :: rest) = word :: operandsOf rest := by
  rw [operandsOf_eq_filter, List.filter_cons_of_pos h, operandsOf_eq_filter]

theorem operandsOf_cons_of_neg (h : isOperand word = false) :
    operandsOf (word :: rest) = operandsOf rest := by
  rw [operandsOf_eq_filter, List.filter_cons_of_neg (by simp [h]), operandsOf_eq_filter]

theorem operandsOf_eq_self_iff : operandsOf words = words ↔ ∀ word ∈ words, isOperand word = true := by
  rw [operandsOf_eq_filter, List.filter_eq_self]

theorem flagLetters_cons_of_pos (h : isOperand word = true) :
    flagLetters (word :: rest) = flagLetters rest := by
  rw [isOperand, Bool.or_eq_true, decide_eq_true_iff, Bool.not_eq_true'] at h
  have hnone : (Path.startsWith word "-" && decide (word ≠ "-")) = false := by
    rcases h with h | h <;> simp [h]
  rw [flagLetters, List.flatMap_cons, hnone]
  rfl

theorem flagLetters_cons_of_neg (h : isOperand word = false) :
    flagLetters (word :: rest) = word.toList.drop 1 ++ flagLetters rest := by
  rw [isOperand, Bool.or_eq_false_iff, decide_eq_false_iff_not, Bool.not_eq_false'] at h
  rw [flagLetters, List.flatMap_cons, if_pos (by simp [h]), flagLetters]

/-- The flag that `--` is taken for asks for no directories. -/
theorem isRecursive_cons_dashes : isRecursive ("--" :: rest) = isRecursive rest := by
  rw [isRecursive, flagLetters_cons_of_neg (by decide), isRecursive, List.any_append]
  rfl

theorem operandsOf_dashes (words : List String) :
    operandsOf words = operandsOf (beforeDashes words) ++ operandsOf (afterDashes words) := by
  induction words with
  | nil => rfl
  | cons word rest ih =>
      by_cases hend : word = "--"
      · rw [hend, beforeDashes_dashes, afterDashes_dashes, operandsOf_cons_of_neg (by decide)]
        rfl
      · rw [beforeDashes_cons hend, afterDashes_cons hend]
        cases hword : isOperand word with
        | true =>
            rw [operandsOf_cons_of_pos hword, operandsOf_cons_of_pos hword, ih, List.cons_append]
        | false => rw [operandsOf_cons_of_neg hword, operandsOf_cons_of_neg hword, ih]

theorem isRecursive_dashes (words : List String) :
    isRecursive words = (isRecursive (beforeDashes words) || isRecursive (afterDashes words)) := by
  induction words with
  | nil => rfl
  | cons word rest ih =>
      by_cases hend : word = "--"
      · rw [hend, beforeDashes_dashes, afterDashes_dashes, isRecursive_cons_dashes]
        rfl
      · rw [beforeDashes_cons hend, afterDashes_cons hend]
        cases hword : isOperand word with
        | true =>
            rw [isRecursive, isRecursive, flagLetters_cons_of_pos hword, flagLetters_cons_of_pos hword]
            exact ih
        | false =>
            rw [isRecursive, isRecursive, flagLetters_cons_of_neg hword, flagLetters_cons_of_neg hword,
              List.any_append, List.any_append, Bool.or_assoc]
            exact congrArg _ ih

/-- What a command that takes flags only acts on, in the words of the guard: the operands before the
first `--`, and all words after it. -/
theorem operands_of_parseFrom (h : parseFrom (.flagsOnly flags) a words = .ok args) :
    args.operands = a.operands ++ (operandsOf (beforeDashes words) ++ afterDashes words) := by
  induction words generalizing a with
  | nil =>
      obtain rfl := Except.ok.inj h
      simp [operandsOf]
  | cons word rest ih =>
      rw [parseFrom_flagsOnly_cons] at h
      split at h
      · rename_i hoperand
        have hne := dashes_ne_of_isOperand hoperand
        rw [ih h, beforeDashes_cons hne, afterDashes_cons hne, operandsOf_cons_of_pos hoperand]
        simp
      · rename_i hoperand
        split at h
        · rename_i hend
          obtain rfl := Except.ok.inj h
          rw [hend, beforeDashes_dashes, afterDashes_dashes]
          rfl
        · rename_i hend
          split at h
          · rename_i hadd
            rw [ih h, operands_of_addFlags hadd, beforeDashes_cons hend, afterDashes_cons hend,
              operandsOf_cons_of_neg (Bool.eq_false_iff.2 hoperand)]
          · cases h

/-- The flags of a command that takes flags only, in the words of the guard: the letters before the
first `--`. -/
theorem mem_flags_of_parseFrom (h : parseFrom (.flagsOnly flags) a words = .ok args) :
    letter ∈ args.flags ↔ letter ∈ a.flags ∨ letter ∈ flagLetters (beforeDashes words) := by
  induction words generalizing a with
  | nil =>
      obtain rfl := Except.ok.inj h
      simp [flagLetters]
  | cons word rest ih =>
      rw [parseFrom_flagsOnly_cons] at h
      split at h
      · rename_i hoperand
        rw [ih h, beforeDashes_cons (dashes_ne_of_isOperand hoperand), flagLetters_cons_of_pos hoperand]
      · rename_i hoperand
        split at h
        · rename_i hend
          obtain rfl := Except.ok.inj h
          rw [hend, beforeDashes_dashes]
          simp [flagLetters]
        · rename_i hend
          split at h
          · rename_i hadd
            rw [ih h, mem_flags_of_addFlags hadd, beforeDashes_cons hend,
              flagLetters_cons_of_neg (Bool.eq_false_iff.2 hoperand), List.mem_append, or_assoc]
          · cases h

section Accepted

variable (h : parse (.flagsOnly flags) words = .ok args)

include h

theorem operandsOf_eq_iff :
    operandsOf words = args.operands ↔ ∀ word ∈ afterDashes words, isOperand word = true := by
  have hacted : args.operands = [] ++ (operandsOf (beforeDashes words) ++ afterDashes words) :=
    operands_of_parseFrom h
  rw [hacted, List.nil_append, operandsOf_dashes, List.append_cancel_left_eq, operandsOf_eq_self_iff]

theorem isRecursive_beforeDashes : isRecursive (beforeDashes words) = args.has ['r', 'R'] := by
  have hmem : ∀ letter, letter ∈ args.flags ↔ letter ∈ flagLetters (beforeDashes words) := by
    intro letter
    rw [mem_flags_of_parseFrom h]
    simp [Arguments.none]
  rw [Bool.eq_iff_iff, isRecursive, has, List.any_eq_true, List.any_eq_true]
  simp only [List.contains_iff_mem, hmem]
  constructor
  · rintro ⟨letter, hletter, heq⟩
    exact ⟨letter, by simpa using heq, hletter⟩
  · rintro ⟨letter, heq, hletter⟩
    exact ⟨letter, hletter, by simpa using heq⟩

theorem isRecursive_eq_iff : isRecursive words = args.has ['r', 'R'] ↔
    args.has ['r', 'R'] = true ∨ isRecursive (afterDashes words) = false := by
  rw [isRecursive_dashes, isRecursive_beforeDashes h]
  cases args.has ['r', 'R'] <;> simp

end Accepted

/-- If `rm`, `rmdir` or `mv` accepts some words, the guard examines the operands that it acts on exactly
if no word after a first `--` looks like a flag. What the guard takes for a removal of whole directories is
one, unless it is a word after a first `--` that says so. -/
theorem operands_are_examined_iff (words : List String) :
    (∀ args, parse (.flagsOnly "rRf") words = .ok args →
      (operandsOf words = args.operands ↔ ∀ word ∈ afterDashes words, isOperand word = true) ∧
        (isRecursive words = args.has ['r', 'R'] ↔
          args.has ['r', 'R'] = true ∨ isRecursive (afterDashes words) = false)) ∧
    (∀ args, parse (.flagsOnly "") words = .ok args →
      (operandsOf words = args.operands ↔ ∀ word ∈ afterDashes words, isOperand word = true)) ∧
    ∀ args, parse (.flagsOnly "f") words = .ok args →
      (operandsOf words = args.operands ↔ ∀ word ∈ afterDashes words, isOperand word = true) :=
  ⟨fun _ h => ⟨operandsOf_eq_iff h, isRecursive_eq_iff h⟩, fun _ h => operandsOf_eq_iff h,
    fun _ h => operandsOf_eq_iff h⟩

/-- Bundled flags and a single dash are read alike, and so is `--` before a single dash. -/
theorem bundle_and_dash_are_examined :
    parse (.flagsOnly "rRf") ["-fR", "box", "--", "-", "desk"] =
        .ok ⟨['f', 'R'], [], ["box", "-", "desk"], none⟩ ∧
      operandsOf ["-fR", "box", "--", "-", "desk"] = ["box", "-", "desk"] ∧
      isRecursive ["-fR", "box", "--", "-", "desk"] = true ∧
    parse (.flagsOnly "") ["box", "--", "-"] = .ok ⟨[], [], ["box", "-"], none⟩ ∧
      parse (.flagsOnly "f") ["box", "--", "-"] = .ok ⟨[], [], ["box", "-"], none⟩ ∧
      operandsOf ["box", "--", "-"] = ["box", "-"] := by
  have hrm : parse (.flagsOnly "rRf") ["-fR", "box", "--", "-", "desk"] =
      .ok ⟨['f', 'R'], [], ["box", "-", "desk"], none⟩ := rfl
  have hrmdir : parse (.flagsOnly "") ["box", "--", "-"] = .ok ⟨[], [], ["box", "-"], none⟩ := rfl
  have hmv : parse (.flagsOnly "f") ["box", "--", "-"] = .ok ⟨[], [], ["box", "-"], none⟩ := rfl
  obtain ⟨hoperands, hrecursive⟩ := (operands_are_examined_iff _).1 _ hrm
  exact ⟨hrm, hoperands.2 (by decide), hrecursive.2 (.inl rfl), hrmdir, hmv,
    ((operands_are_examined_iff _).2.2 _ hmv).2 (by decide)⟩

/-- An operand that looks like a flag is not examined, and is taken for the flag. -/
theorem dashed_operand_is_overlooked :
    parse (.flagsOnly "rRf") ["--", "-r"] = .ok ⟨[], [], ["-r"], none⟩ ∧
      operandsOf ["--", "-r"] = [] ∧ isRecursive ["--", "-r"] = true ∧
      has ⟨[], [], ["-r"], none⟩ ['r', 'R'] = false :=
  ⟨rfl, by decide, by decide, by decide⟩

end PracticeShell.Guard
