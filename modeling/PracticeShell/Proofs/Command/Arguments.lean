import PracticeShell.Command.Arguments

/-!
# Arguments of commands that take flags only

Where no option has a value, words are read one after the other (`parseFrom_flagsOnly_cons`): up to the
first `--` a word is an operand or letters of flags, and after it all words are operands. Flags that are
set stay set, and it does not matter whether a flag that words do not set has been set before them.
-/

namespace PracticeShell

namespace Arguments

variable {flags : String} {letter : Char} {a b : Arguments}

/-- The words up to the first `--`. -/
def beforeDashes (words : List String) : List String := words.takeWhile (· ≠ "--")

/-- The words after the first `--`. -/
def afterDashes (words : List String) : List String := (words.dropWhile (· ≠ "--")).drop 1

section Dashes

variable {word : String} {rest : List String}

@[simp] theorem beforeDashes_nil : beforeDashes [] = [] := rfl

@[simp] theorem afterDashes_nil : afterDashes [] = [] := rfl

@[simp]
theorem beforeDashes_dashes : beforeDashes ("--" :: rest) = [] :=
  List.takeWhile_cons_of_neg (by simp)

@[simp]
theorem afterDashes_dashes : afterDashes ("--" :: rest) = rest := by
  rw [afterDashes, List.dropWhile_cons_of_neg (by simp), List.drop_one, List.tail_cons]

theorem beforeDashes_cons (h : word ≠ "--") :
    beforeDashes (word :: rest) = word :: beforeDashes rest :=
  List.takeWhile_cons_of_pos (by simpa using h)

theorem afterDashes_cons (h : word ≠ "--") : afterDashes (word :: rest) = afterDashes rest := by
  rw [afterDashes, List.dropWhile_cons_of_pos (by simpa using h), ← afterDashes]

theorem dashes_ne_of_isOperand (h : isOperand word = true) : word ≠ "--" := by
  rintro rfl
  exact absurd h (by decide)

end Dashes

/-- Flags that are set stay set. -/
theorem subset_of_addFlags {rules : Rules} {letters : List Char}
    (h : addFlags rules a letters = .ok b) : a.flags ⊆ b.flags := by
  induction letters generalizing a with
  | nil =>
      obtain rfl := Except.ok.inj h
      exact List.Subset.refl _
  | cons first rest ih =>
      rw [addFlags] at h
      split at h
      · refine List.Subset.trans ?_ (ih h)
        split
        · exact List.Subset.refl _
        · exact List.subset_append_left _ _
      · cases h

/-- A flag that is not among letters can be set before them. -/
theorem addFlags_flagged {rules : Rules} {letters : List Char}
    (h : addFlags rules a letters = .ok b) (hletter : letter ∉ b.flags) :
    addFlags rules { a with flags := letter :: a.flags } letters =
      .ok { b with flags := letter :: b.flags } := by
  induction letters generalizing a with
  | nil =>
      obtain rfl := Except.ok.inj h
      rfl
  | cons first rest ih =>
      rw [addFlags] at h ⊢
      split at h
      · rename_i hknown
        rw [if_pos hknown]
        have hset := ih h
        have hne : first ≠ letter := by
          rintro rfl
          refine hletter (subset_of_addFlags h ?_)
          split
          · rename_i hthere
            simpa using hthere
          · simp
        rw [← hset]
        congr 1
        have hsame : (letter :: a.flags).contains first = a.flags.contains first := by
          simp [hne]
        dsimp only
        rw [hsame]
        split <;> rfl
      · cases h

/-- One word after the other, where there are flags only. -/
theorem parseFrom_flagsOnly_cons (word : String) (rest : List String) :
    parseFrom (.flagsOnly flags) a (word :: rest) =
      if isOperand word then
        parseFrom (.flagsOnly flags) { a with operands := a.operands ++ [word] } rest
      else if word = "--" then .ok { a with operands := a.operands ++ rest }
      else
        match addFlags (.flagsOnly flags) a (word.toList.drop 1) with
        | .ok a => parseFrom (.flagsOnly flags) a rest
        | .error e => .error e := by
  have hoption : ∀ option, (Rules.flagsOnly flags).isOption option = false := by
    intro option
    simp [Rules.isOption, Rules.flagsOnly]
  rw [parseFrom.eq_def]
  simp only [hoption, Bool.and_false, Bool.false_eq_true, if_false]
  rfl

theorem subset_of_parseFrom {words : List String}
    (h : parseFrom (.flagsOnly flags) a words = .ok b) : a.flags ⊆ b.flags := by
  induction words generalizing a with
  | nil =>
      obtain rfl := Except.ok.inj h
      exact List.Subset.refl _
  | cons word rest ih =>
      rw [parseFrom_flagsOnly_cons] at h
      split at h
      · have hset := ih h
        exact hset
      · split at h
        · obtain rfl := Except.ok.inj h
          exact List.Subset.refl _
        · split at h
          · rename_i hadd
            exact List.Subset.trans (subset_of_addFlags hadd) (ih h)
          · cases h

/-- A flag that words do not set can be set before them. -/
theorem parseFrom_flagged {words : List String}
    (h : parseFrom (.flagsOnly flags) a words = .ok b) (hletter : letter ∉ b.flags) :
    parseFrom (.flagsOnly flags) { a with flags := letter :: a.flags } words =
      .ok { b with flags := letter :: b.flags } := by
  induction words generalizing a with
  | nil =>
      obtain rfl := Except.ok.inj h
      rfl
  | cons word rest ih =>
      rw [parseFrom_flagsOnly_cons] at h ⊢
      split at h
      · rename_i hoperand
        rw [if_pos hoperand]
        exact ih h
      · rename_i hoperand
        rw [if_neg hoperand]
        split at h
        · rename_i hend
          obtain rfl := Except.ok.inj h
          rw [if_pos hend]
        · rename_i hend
          rw [if_neg hend]
          split at h
          · rename_i c hadd
            have hflagged := addFlags_flagged hadd fun hmem => hletter (subset_of_parseFrom h hmem)
            rw [hflagged]
            exact ih h
          · cases h

/-- Words that do not look like flags are operands. -/
theorem parseFrom_operands {words : List String} (h : ∀ word ∈ words, isOperand word = true) :
    parseFrom (.flagsOnly flags) a words = .ok { a with operands := a.operands ++ words } := by
  induction words generalizing a with
  | nil =>
      rw [List.append_nil]
      rfl
  | cons word rest ih =>
      obtain ⟨hword, hrest⟩ := List.forall_mem_cons.1 h
      rw [parseFrom_flagsOnly_cons, if_pos hword, ih hrest]
      simp

/-- The flags that letters set. -/
theorem mem_flags_of_addFlags {rules : Rules} {letters : List Char}
    (h : addFlags rules a letters = .ok b) : letter ∈ b.flags ↔ letter ∈ a.flags ∨ letter ∈ letters := by
  induction letters generalizing a with
  | nil =>
      obtain rfl := Except.ok.inj h
      simp
  | cons first rest ih =>
      rw [addFlags] at h
      split at h
      · rw [ih h, List.mem_cons]
        split
        · rename_i hthere
          have hset : letter = first → letter ∈ a.flags := by
            rintro rfl
            simpa using hthere
          rw [← or_assoc, or_iff_left_of_imp hset]
        · dsimp only
          rw [List.mem_append, List.mem_singleton, or_assoc]
      · cases h

theorem operands_of_addFlags {rules : Rules} {letters : List Char}
    (h : addFlags rules a letters = .ok b) : b.operands = a.operands := by
  induction letters generalizing a with
  | nil =>
      obtain rfl := Except.ok.inj h
      rfl
  | cons first rest ih =>
      rw [addFlags] at h
      split at h
      · rw [ih h]
        split <;> rfl
      · cases h

end Arguments

end PracticeShell
