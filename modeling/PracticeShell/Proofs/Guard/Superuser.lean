import PracticeShell.Proofs.Guard
import PracticeShell.Proofs.Redirection.Behind
import PracticeShell.Session.Dispatch

/-!
# Lines behind `sudo`

The guard passes over one `sudo`, while a command with elevated rights is run without all that stand
before it. So a line is looked at alike behind one `sudo` unless it starts with another one (or with a
blank that is trimmed off at the start of a line only), and behind two and more only its redirection is
looked at (`inspect_behind_sudo_iff`).
-/

namespace PracticeShell.Guard

open Redirection (lineWords effect? StartsBlank)

/-- What a warning says of the danger: all but the line that it is about. -/
def Warning.gist (w : Warning) : Level × String × List String × Bool :=
  (w.level, w.reason, w.affected, w.canRecover)

/-- What the guard says of a line. -/
def verdict (s : Situation) (line : String) : Option (Level × String × List String × Bool) :=
  (inspect s line).map Warning.gist

/-- What the guard says of the redirection of a line. -/
def outputVerdict (s : Situation) (line : String) : Option (Level × String × List String × Bool) :=
  (inspectOutput s line).map Warning.gist

/-- A line behind a number of `sudo`. -/
def behindSudo : Nat → String → String
  | 0, line => line
  | count + 1, line => "sudo " ++ behindSudo count line

theorem sudo_append (line : String) : "sudo " ++ line = "sudo" ++ " " ++ line := rfl

theorem behindSudo_succ (count : Nat) (line : String) :
    behindSudo (count + 1) line = "sudo" ++ " " ++ behindSudo count line := rfl

/-- Whether the guard does not find the command of a line behind `sudo`: because it is another `sudo`, or
because it starts with a blank there. -/
def IsHidden (line : String) : Prop :=
  (lineWords line).head? = some "sudo" ∨ StartsBlank (commandWords ("sudo " ++ line))

/-- The commands that the guard looks at. -/
def examined : List String := diskCommands ++ ["rm", "rmdir", "mv"]

variable {s : Situation} {line other name : String} {words : List String}

theorem commandWords_eq (line : String) : commandWords line = withoutSudo (lineWords line) := by
  unfold commandWords lineWords
  cases Redirection.parse line with
  | ok r =>
      generalize Words.split r.command = words
      rfl
  | error text =>
      generalize Words.split text = words
      rfl

section Gist

theorem inspectRm_gist (s : Situation) (line other : String) (words : List String) :
    (inspectRm s line words).map Warning.gist = (inspectRm s other words).map Warning.gist := by
  simp only [inspectRm, apply_ite (Option.map Warning.gist), Option.map_some, Warning.gist]

theorem inspectRmdir_gist (s : Situation) (line other : String) (words : List String) :
    (inspectRmdir s line words).map Warning.gist = (inspectRmdir s other words).map Warning.gist := by
  simp only [inspectRmdir, apply_ite (Option.map Warning.gist), Option.map_some, Warning.gist]

theorem inspectMv_gist (s : Situation) (line other : String) (words : List String) :
    (inspectMv s line words).map Warning.gist = (inspectMv s other words).map Warning.gist := by
  unfold inspectMv
  dsimp only
  cases (operandsOf words).getLast? with
  | none => rfl
  | some last => simp only [apply_ite (Option.map Warning.gist), Option.map_some, Warning.gist]

/-- What the guard says of a command does not depend on the line that it stands in. -/
theorem inspectCommand_gist (s : Situation) (line other : String) (words : List String) :
    (inspectCommand s line words).map (Option.map Warning.gist) =
      (inspectCommand s other words).map (Option.map Warning.gist) := by
  cases words with
  | nil => rfl
  | cons name words =>
      simp only [inspectCommand, apply_ite (Option.map (Option.map Warning.gist)), Option.map_some,
        inspectRm_gist s line other, inspectRmdir_gist s line other, inspectMv_gist s line other,
        Warning.gist]

/-- What the guard says of a redirection does not depend on what else is in the line. -/
theorem outputVerdict_congr (s : Situation) (h : effect? line = effect? other) :
    outputVerdict s line = outputVerdict s other := by
  unfold effect? at h
  unfold outputVerdict inspectOutput
  cases hline : Redirection.parse line with
  | error text =>
      cases hother : Redirection.parse other with
      | error text => rfl
      | ok r => simp [hline, hother, Except.toOption] at h
  | ok r =>
      cases hother : Redirection.parse other with
      | error text => simp [hline, hother, Except.toOption] at h
      | ok r' =>
          obtain ⟨command, effect⟩ := r
          obtain ⟨command', effect'⟩ := r'
          obtain rfl : effect = effect' := by simpa [hline, hother, Except.toOption] using h
          cases effect with
          | toFile t =>
              obtain ⟨operand, append⟩ := t
              cases append with
              | true => rfl
              | false => simp only [apply_ite (Option.map Warning.gist), Option.map_some, Warning.gist]
          | _ => rfl

/-- A line that does not overwrite a file is let through as far as its redirection goes. -/
theorem inspectOutput_of_effect? (s : Situation) {effect : Redirection.Effect}
    (h : effect? line = some effect) (heffect : ∀ operand, effect ≠ .toFile ⟨operand, false⟩) :
    inspectOutput s line = none := by
  unfold effect? at h
  cases hline : Redirection.parse line with
  | error text => simp [hline, Except.toOption] at h
  | ok r =>
      obtain rfl : r.effect = effect := by simpa [hline, Except.toOption] using h
      exact inspectOutput_of_parse hline heffect

end Gist

/-- Only if the command is let through the redirection matters. -/
theorem verdict_eq (s : Situation) (line : String) : verdict s line =
    match (inspectCommand s line (commandWords line)).map (Option.map Warning.gist) with
    | none => none
    | some (some gist) => some gist
    | some none => outputVerdict s line := by
  unfold verdict inspect outputVerdict
  generalize inspectOutput s line = output
  cases inspectCommand s line (commandWords line) with
  | none => rfl
  | some found => cases found <;> rfl

theorem verdict_congr (s : Situation) (hwords : commandWords line = commandWords other)
    (heffect : effect? line = effect? other) : verdict s line = verdict s other := by
  rw [verdict_eq, verdict_eq, hwords, inspectCommand_gist s line other,
    outputVerdict_congr s heffect]

theorem inspectCommand_of_not_mem (s : Situation) (line : String) (words : List String)
    (h : name ∉ examined) : inspectCommand s line (name :: words) = some none := by
  simp only [examined, diskCommands, List.mem_append, List.mem_cons, List.not_mem_nil, or_false,
    not_or] at h
  simp [inspectCommand, diskCommands, h]

/-- A command that the guard does not look at is let through. -/
theorem verdict_of_not_mem (s : Situation) (hwords : commandWords line = name :: words)
    (h : name ∉ examined) : verdict s line = outputVerdict s line := by
  rw [verdict_eq, hwords, inspectCommand_of_not_mem s line words h]
  rfl

/-- The guard looks at no command that starts with a blank. -/
theorem not_mem_examined {c : Char} (hc : c ∈ name.toList.head?)
    (hblank : Text.Blank.isBlank c = true) : name ∉ examined := by
  have hexamined : (examined.any fun known => known.toList.head?.any Text.Blank.isBlank) = false := by
    decide +kernel
  intro hmem
  rw [List.any_eq_false] at hexamined
  exact hexamined name hmem ((Option.any_eq_true _ _).2 ⟨c, hc, hblank⟩)

theorem isPlain_sudo : Redirection.IsPlain "sudo" := by decide

/-- Behind `sudo` the guard finds the words of the line by itself, or it does not find its command, or
the line has none and reads lines. -/
theorem commandWords_sudo (line : String) : commandWords ("sudo " ++ line) = lineWords line ∨
    StartsBlank (commandWords ("sudo " ++ line)) ∨
      commandWords ("sudo " ++ line) = [] ∧ lineWords line = ["cat"] ∧
        ∃ marker output, effect? line = some (.lines marker output) := by
  obtain ⟨behind, hwords, hbehind⟩ := Redirection.lineWords_behind isPlain_sudo line
  have hsudo : commandWords ("sudo " ++ line) = behind := by
    rw [commandWords_eq]
    exact congrArg withoutSudo hwords
  rw [hsudo]
  exact hbehind.imp id (.imp And.right id)

theorem effect?_sudo (line : String) : effect? ("sudo " ++ line) = effect? line :=
  Redirection.effect?_behind isPlain_sudo line

theorem verdict_sudo_of_isHidden (s : Situation) (h : IsHidden line) :
    verdict s ("sudo " ++ line) = outputVerdict s line := by
  rw [← outputVerdict_congr s (effect?_sudo line)]
  have hstarts : StartsBlank (commandWords ("sudo " ++ line)) →
      verdict s ("sudo " ++ line) = outputVerdict s ("sudo " ++ line) := by
    rintro ⟨first, hfirst, c, hc, hblank⟩
    obtain ⟨words, hwords⟩ := List.head?_eq_some_iff.1 hfirst
    exact verdict_of_not_mem s hwords (not_mem_examined hc hblank)
  rcases h with hhead | h
  · rcases commandWords_sudo line with heq | h | ⟨-, hcat, -⟩
    · obtain ⟨words, hwords⟩ := List.head?_eq_some_iff.1 hhead
      exact verdict_of_not_mem s (heq.trans hwords) (by decide)
    · exact hstarts h
    · rw [hcat] at hhead
      exact absurd hhead (by decide)
  · exact hstarts h

theorem verdict_sudo_of_not_isHidden (s : Situation) (h : ¬ IsHidden line) :
    verdict s ("sudo " ++ line) = verdict s line := by
  obtain ⟨hhead, hblank⟩ := not_or.1 h
  have hline : commandWords line = lineWords line := by
    rw [commandWords_eq, withoutSudo]
    · intro words hwords
      exact hhead (by rw [hwords]; rfl)
  rcases commandWords_sudo line with heq | h | ⟨hnone, hcat, marker, output, heffect⟩
  · exact verdict_congr s (heq.trans hline.symm) (effect?_sudo line)
  · exact absurd h hblank
  · have houtput : outputVerdict s line = none := by
      rw [outputVerdict, inspectOutput_of_effect? s heffect (by simp)]
      rfl
    rw [verdict_of_not_mem s (hline.trans hcat) (by decide), houtput, verdict_eq, hnone]
    rfl

theorem lineWords_behindSudo (count : Nat) (line : String) :
    lineWords (behindSudo (count + 1) line) =
      List.replicate count "sudo" ++ lineWords ("sudo " ++ line) := by
  induction count with
  | zero => rw [behindSudo_succ, behindSudo, sudo_append, List.replicate_zero, List.nil_append]
  | succ count ih =>
      rw [behindSudo_succ, behindSudo_succ,
        Redirection.lineWords_behind_plain isPlain_sudo isPlain_sudo (by decide), ← behindSudo_succ, ih,
        List.replicate_succ, List.cons_append]

theorem effect?_behindSudo (count : Nat) (line : String) :
    effect? (behindSudo count line) = effect? line := by
  induction count with
  | zero => rfl
  | succ count ih => exact (effect?_sudo _).trans ih

/-- A line starts with `sudo` behind one. -/
theorem head?_lineWords_sudo (line : String) :
    (lineWords ("sudo " ++ line)).head? = some "sudo" := by
  obtain ⟨behind, hwords, -⟩ := Redirection.lineWords_behind isPlain_sudo line
  exact congrArg List.head? hwords

theorem verdict_behindSudo (s : Situation) (count : Nat) (line : String) :
    verdict s (behindSudo (count + 2) line) = outputVerdict s line := by
  have hhead : (lineWords (behindSudo (count + 1) line)).head? = some "sudo" :=
    head?_lineWords_sudo (behindSudo count line)
  exact (verdict_sudo_of_isHidden s (.inl hhead)).trans
    (outputVerdict_congr s (effect?_behindSudo (count + 1) line))

/-- With elevated rights any number of `sudo` are passed over. -/
theorem run_behindSudo (hosts : List String) {ctx : Context} (helevated : ctx.elevated = true)
    (base input : Option String) (count : Nat) (line : String) :
    Dispatch.run hosts ctx base input (lineWords (behindSudo (count + 1) line)) =
      Dispatch.run hosts ctx base input (lineWords ("sudo " ++ line)) := by
  have hwords : (lineWords (behindSudo (count + 1) line)).dropWhile (· == "sudo") =
      (lineWords ("sudo " ++ line)).dropWhile (· == "sudo") := by
    rw [lineWords_behindSudo, List.dropWhile_append_of_pos]
    intro word hword
    simp [List.eq_of_mem_replicate hword]
  unfold Dispatch.run
  rw [if_pos helevated, if_pos helevated, hwords]

/-- Behind `sudo` the guard says the same of a line exactly if the command is not hidden there, or if it
would not have warned of more than the redirection. Behind two or more it looks at the redirection only,
although with elevated rights the same is run as behind one. -/
theorem inspect_behind_sudo_iff (s : Situation) (line : String) :
    (verdict s ("sudo " ++ line) = verdict s line ↔
        ¬ IsHidden line ∨ verdict s line = outputVerdict s line) ∧
      ∀ count, verdict s (behindSudo (count + 2) line) = outputVerdict s line ∧
        ∀ hosts (ctx : Context) base input,
          Dispatch.run hosts ctx.elevate base input (lineWords (behindSudo (count + 2) line)) =
            Dispatch.run hosts ctx.elevate base input (lineWords ("sudo " ++ line)) := by
  refine ⟨?_, fun count => ⟨verdict_behindSudo s count line, fun hosts ctx base input =>
    run_behindSudo hosts rfl base input (count + 1) line⟩⟩
  by_cases h : IsHidden line
  · rw [verdict_sudo_of_isHidden s h, eq_comm]
    simp [h]
  · simp [h, verdict_sudo_of_not_isHidden s h]

/-- Behind a second `sudo` the removal of everything is let through. -/
theorem second_sudo_hides_removal :
    let s : Situation := ⟨"/", "student", [], some (FileSystem.empty "student" 0)⟩
    (inspect s "sudo rm -rf /").isSome = true ∧ inspect s ("sudo " ++ "sudo rm -rf /") = none := by
  decide +kernel

end PracticeShell.Guard
