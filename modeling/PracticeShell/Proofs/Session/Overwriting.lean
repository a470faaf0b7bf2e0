import PracticeShell.Proofs.Session.Answering
import PracticeShell.Proofs.Session.Enders

/-!
# What is asked before a file is overwritten

A line that sends its output to a file with `>` is looked at by the guard, but not always for that file:
it is not if the command has been found harmless by itself, nor if the input comes from the lines that
follow, nor as long as the file is not there (`Guard.Misses`). A line by which a file is replaced that
looks important or is critical is asked about exactly if the guard does not miss it
(`Session.overwriting_is_asked_about_iff`).
-/

namespace PracticeShell

open Run

namespace Guard

variable {s : Situation} {line operand : String} {r : Redirection}

/-- Whether the guard lets a line pass without looking at its redirection: there is no command, or an
`rm` for which there is nothing to remove. -/
def Passes (s : Situation) (line : String) : Prop :=
  commandWords line = [] ∨
    ∃ words, commandWords line = "rm" :: words ∧ s.targets (operandsOf words) = []

/-- Whether the guard misses that a line replaces a file: it lets the line pass, or finds the command
harmless and then sees no file that output goes to. -/
def Misses (s : Situation) (line : String) : Prop :=
  Passes s line ∨
    inspectCommand s line (commandWords line) = some none ∧
      ∃ r operand, Redirection.parse line = .ok r ∧ r.target? = some ⟨operand, false⟩ ∧
        (r.effect ≠ .toFile ⟨operand, false⟩ ∨ operand = "" ∨
          s.fs.all (·.isFile (s.resolve operand)) = false)

theorem inspectCommand_eq_none_iff :
    inspectCommand s line (commandWords line) = none ↔ Passes s line := by
  unfold Passes
  cases hwords : commandWords line with
  | nil => exact ⟨fun _ => .inl rfl, fun _ => rfl⟩
  | cons name words =>
      by_cases hname : name = "rm"
      · subst hname
        rw [inspectCommand, if_neg (by decide), if_pos rfl]
        simp
      · rw [inspectCommand, if_neg hname]
        simp only [hname, List.cons.injEq, reduceCtorEq, false_and, exists_false, or_self, iff_false]
        repeat' split
        all_goals simp

/-- What is said about the file that output goes to, if it is worth a warning. -/
theorem inspectOutput_isSome_iff (hparse : Redirection.parse line = .ok r)
    (htarget : r.target? = some ⟨operand, false⟩)
    (hdear : isImportant (s.resolve operand) = true ∨ s.isCritical (s.resolve operand) = true) :
    (inspectOutput s line).isSome ↔ r.effect = .toFile ⟨operand, false⟩ ∧ operand ≠ "" ∧
      s.fs.all (·.isFile (s.resolve operand)) = true := by
  by_cases heffect : r.effect = .toFile ⟨operand, false⟩
  · rw [← Bool.or_eq_true] at hdear
    obtain ⟨command, effect⟩ := r
    obtain rfl : effect = .toFile ⟨operand, false⟩ := heffect
    unfold inspectOutput
    rw [hparse]
    dsimp only
    rw [hdear, Bool.and_true]
    split
    · rename_i hseen
      exact iff_of_true rfl ⟨rfl, by simpa using hseen⟩
    · rename_i hseen
      refine iff_of_false (by simp) fun h => hseen ?_
      simpa using h.2
  · rw [inspectOutput_of_parse hparse fun other hother => ?_]
    · simp [heffect]
    · rw [Redirection.target?, hother] at htarget
      cases htarget
      exact heffect hother

/-- A line that replaces a file worth a warning is warned of unless the guard misses it. -/
theorem inspect_isSome_iff (hparse : Redirection.parse line = .ok r)
    (htarget : r.target? = some ⟨operand, false⟩)
    (hdear : isImportant (s.resolve operand) = true ∨ s.isCritical (s.resolve operand) = true) :
    (inspect s line).isSome ↔ ¬ Misses s line := by
  have hoperand : ∀ r' operand', Redirection.parse line = .ok r' →
      r'.target? = some ⟨operand', false⟩ → r' = r ∧ operand' = operand := by
    intro r' operand' hparse' htarget'
    rw [hparse] at hparse'
    cases hparse'
    rw [htarget] at htarget'
    cases htarget'
    exact ⟨rfl, rfl⟩
  unfold Misses
  rw [← inspectCommand_eq_none_iff]
  unfold inspect
  cases hcommand : inspectCommand s line (commandWords line) with
  | none => simp
  | some answer =>
      cases answer with
      | some warning => simp
      | none =>
          dsimp only
          rw [inspectOutput_isSome_iff hparse htarget hdear]
          constructor
          · rintro ⟨heffect, hne, hfile⟩ (hnone | ⟨-, r', operand', hparse', htarget', hmissed⟩)
            · cases hnone
            · obtain ⟨rfl, rfl⟩ := hoperand r' operand' hparse' htarget'
              rcases hmissed with hother | hempty | hgone
              · exact hother heffect
              · exact hne hempty
              · rw [hfile] at hgone
                cases hgone
          · intro hseen
            have hmissed := fun h => hseen (.inr ⟨rfl, r, operand, hparse, htarget, h⟩)
            refine ⟨not_not.1 fun hother => hmissed (.inl hother),
              fun hempty => hmissed (.inr (.inl hempty)), ?_⟩
            exact eq_true_of_ne_false fun hgone => hmissed (.inr (.inr hgone))

end Guard

namespace Session

variable {s : Session} {text path : String}

/-- What the guard knows of a session: of its files, those that commands see. -/
def watched (s : Session) : Guard.Situation :=
  { s.situation with fs := (s.world.viewAt s.world.viewBase).toOption }

/-- Whether a text is a command line by which a file is replaced while the guard misses it. -/
def Misses (s : Session) (text : String) : Prop :=
  ∃ expanded line, s.read? text = some (expanded, line) ∧ Guard.Misses s.watched expanded

/-- A command line is asked about exactly if the guard warns. -/
theorem isAsked_iff {expanded : String} {line : CommandLine} {fs : FileSystem}
    (hconfirms : s.options.confirms = true) (hmode : s.world.mode = .normal)
    (hread : s.read? text = some (expanded, line))
    (hview : s.world.viewAt s.world.viewBase = .ok fs) :
    s.IsAsked text ↔ (Guard.inspect s.watched expanded).isSome := by
  have hguard : (guard expanded s.world.context).run (s.remembering line.text) =
      .ok (Guard.inspect s.watched expanded) (s.remembering line.text) := by
    rw [run_guard_of_viewAt (s := s.remembering line.text) s.world.context hview,
      show (s.remembering line.text).options = s.options from rfl, hconfirms, if_pos rfl, watched,
      hview]
    rfl
  have hrun := run_submit_of_guard hread hmode hguard
  cases hwarning : Guard.inspect s.watched expanded with
  | some warning =>
      rw [hwarning] at hrun
      exact iff_of_true ⟨_, line, warning, _, _, hrun, rfl⟩ rfl
  | none =>
      rw [hwarning] at hrun
      refine iff_of_false ?_ (by simp)
      rintro ⟨response, line', warning, history, journal, hasked, hintent⟩
      rw [hrun] at hasked
      exact runLine_proceeds _ _ _ _ _ hasked _ _ hintent

/-- A line by which a file is replaced that looks important or is critical is asked about exactly if the
guard does not miss it. -/
theorem overwriting_is_asked_about_iff (hconfirms : s.options.confirms = true)
    (hmode : s.world.mode = .normal) {inputs : List String} (hover : s.Overwrites text inputs path)
    (hdear : Guard.isImportant path = true ∨ s.watched.isCritical path = true) :
    s.IsAsked text ↔ ¬ s.Misses text := by
  obtain ⟨expanded, line, fs, hread, hview, operand, htarget, rfl⟩ := hover.exists_aims hconfirms hmode
  obtain ⟨-, -, -, hparse, -⟩ := of_read? hread
  have hresolve : s.watched.resolve operand = s.world.context.resolve operand := rfl
  rw [← hresolve] at hdear
  rw [isAsked_iff hconfirms hmode hread hview, Guard.inspect_isSome_iff hparse htarget hdear, Misses,
    hread]
  simp

/-- An ender that does nothing where the file at a path would be replaced. -/
def sparing (path : String) : Ender := fun line r runner writer base said => do
  match line.redirection.target?, (← get).world.viewAt base with
  | some ⟨operand, false⟩, .ok fs =>
    if writer.resolve operand = path ∧ fs.isFile path = true ∧
        (Redirection.write writer ⟨operand, false⟩ r.outcome.output fs).1 = none then
      respond fun prompt => { prompt }
    else complete line r runner writer base said
  | _, _ => complete line r runner writer base said

theorem isFaithful_sparing (path : String) : (sparing path).IsFaithful path := by
  intro line r runner writer base said s hnot
  unfold sparing
  rw [run_get_bind]
  split
  · rename_i operand fs htarget hview
    rw [if_neg]
    rintro ⟨hpath, hfile, hwrite⟩
    exact hnot ⟨operand, fs, htarget, hpath, hview, hfile, hwrite⟩
  · rfl

/-- If it makes a difference to spare a file, then it is replaced. -/
theorem overwrites_of_sparing {inputs : List String} {α : Type} {f : Session → α}
    (h : f (left ((carryWith (sparing path) text inputs).run s)) ≠
      f (left ((carry text inputs).run s))) : s.Overwrites text inputs path :=
  ⟨sparing path, isFaithful_sparing path, fun hsame => h (by rw [hsame])⟩

/-- A session in which notes have been taken. -/
def noted : Session := justBegun.next (.line "echo old > notes.txt")

theorem noted_is_ready : noted.options.confirms = true ∧ noted.world.mode = .normal ∧
    noted.world.viewAt noted.world.viewBase = .ok noted.world.fs := by
  have hready : noted.options.confirms = true ∧ noted.world.mode = .normal ∧
      noted.world.remote = none := by decide +kernel
  refine ⟨hready.1, hready.2.1, ?_⟩
  rw [World.viewBase, hready.2.2]
  rfl

theorem new_notes_are_asked_about :
    noted.options.confirms = true ∧ noted.world.mode = .normal ∧
      noted.Overwrites "echo new > notes.txt" [] "/home/ada/notes.txt" ∧
      Guard.isImportant "/home/ada/notes.txt" = true ∧
      (noted.IsAsked "echo new > notes.txt" ↔ ¬ noted.Misses "echo new > notes.txt") ∧
      noted.IsAsked "echo new > notes.txt" := by
  obtain ⟨hconfirms, hmode, hview⟩ := noted_is_ready
  have hover : noted.Overwrites "echo new > notes.txt" [] "/home/ada/notes.txt" :=
    overwrites_of_sparing (f := fun s => s.journal.length) (by decide +kernel)
  have hdear : Guard.isImportant "/home/ada/notes.txt" = true := by decide +kernel
  have hread : noted.read? "echo new > notes.txt" = some ("echo new > notes.txt",
    ⟨"echo new > notes.txt", ["echo", "new"], ⟨"echo new", .toFile ⟨"notes.txt", false⟩⟩⟩) := by
    decide +kernel
  refine ⟨hconfirms, hmode, hover, hdear,
    overwriting_is_asked_about_iff hconfirms hmode hover (.inl hdear), ?_⟩
  rw [isAsked_iff hconfirms hmode hread hview]
  decide +kernel

/-- An `rm` for which there is nothing to remove is let pass, and so is what its output replaces. -/
theorem notes_are_replaced_without_a_question :
    start ⟨"ada", "lab", "secret", [], true, 0⟩ none none true 0 = .ok justBegun ∧
      noted.options.confirms = true ∧ noted.world.mode = .normal ∧
      Guard.isImportant "/home/ada/notes.txt" = true ∧
      noted.Overwrites "rm ghost.txt > notes.txt" [] "/home/ada/notes.txt" ∧
      (noted.world.fs.text "/home/ada/notes.txt").toOption = some "old" ∧
      ((left ((carry "rm ghost.txt > notes.txt" []).run noted)).world.fs.text
        "/home/ada/notes.txt").toOption = some "" ∧
      ¬ noted.IsAsked "rm ghost.txt > notes.txt" := by
  obtain ⟨hconfirms, hmode, hview⟩ := noted_is_ready
  have hread : noted.read? "rm ghost.txt > notes.txt" = some ("rm ghost.txt > notes.txt",
    ⟨"rm ghost.txt > notes.txt", ["rm", "ghost.txt"],
      ⟨"rm ghost.txt", .toFile ⟨"notes.txt", false⟩⟩⟩) := by
    decide +kernel
  refine ⟨start_justBegun, hconfirms, hmode, by decide +kernel,
    overwrites_of_sparing (f := fun s => s.journal.length) (by decide +kernel), by decide +kernel,
    by decide +kernel, ?_⟩
  rw [isAsked_iff hconfirms hmode hread hview]
  decide +kernel

end Session

end PracticeShell
