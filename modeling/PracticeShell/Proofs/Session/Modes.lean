import PracticeShell.Proofs.Environment.Changes
import PracticeShell.Proofs.Session.Inputs
import PracticeShell.Proofs.Session.Lines
import PracticeShell.Proofs.Session.Straying

/-!
# Commands and the mode

A command changes the files, the directory, the variables, and the session on another machine
(`World.Moves`), and `history -c` clears the history (`World.Changes`). No command changes the mode: it
is set by the lines and answers that a session takes, never by the words that are run for them.
-/

namespace PracticeShell

open Run

/-- What words ask of the variables, if anything. -/
def Environment.Call.ofWords? : List String → Option Environment.Call
  | "env" :: arguments => some (.runEnv arguments)
  | "export" :: arguments => some (.runExport arguments)
  | "unset" :: arguments => some (.runUnset arguments)
  | _ => none

/-- Whether a relation of earlier to later worlds holds of a change of files. -/
structure World.Writes (R : World → World → Prop) : Prop where
  lasting : Lasting R
  files : ∀ w fs, R w { w with fs }

/-- Whether a relation of earlier to later worlds holds of a change of files, and of going to another
machine or leaving it. -/
structure World.Travels (R : World → World → Prop) : Prop extends World.Writes R where
  remote : ∀ w remote, R w { w with remote }

/-- Whether a relation of earlier to later worlds holds of all that a command can change but for the
history. -/
structure World.Moves (R : World → World → Prop) : Prop where
  lasting : Lasting R
  files : ∀ w fs, R w { w with fs }
  environment : ∀ w environment, R w { w with environment }
  directory : ∀ w path, R w (w.changeDirectory path)
  remote : ∀ w remote, R w { w with remote }

/-- Whether a relation of earlier to later worlds holds of all that a command can change. -/
structure World.Changes (R : World → World → Prop) : Prop extends World.Moves R where
  history : ∀ w, R w { w with history := [] }

theorem World.Moves.travels {R : World → World → Prop} (h : World.Moves R) : World.Travels R where
  lasting := h.lasting
  files := h.files
  remote := h.remote

theorem World.Moves.writes {R : World → World → Prop} (h : World.Moves R) : World.Writes R :=
  h.travels.toWrites

variable {R : World → World → Prop} {base : Option String} {w : World}

namespace Step

theorem edit_leads (hR : World.Writes R) {α : Type} (operation : Edit α) :
    Leads R (edit operation) w := by
  rw [Leads, run_edit]
  cases operation.run w.fs with
  | ok a fs => exact hR.files w fs
  | error e fs => exact hR.files w fs

theorem onView_leads (hR : World.Writes R) {α : Type} (operation : StateM FileSystem α) :
    Leads R (onView base operation) w := by
  cases base with
  | none =>
      rw [Leads, run_onView_none]
      exact hR.files w _
  | some path =>
      rw [Leads, run_onView_some]
      cases w.fs.view path with
      | ok inner => exact hR.files w _
      | error e => exact hR.lasting.refl w

/-- An operation on what commands see changes nothing but the files. -/
theorem of_onView {α : Type} {base : Option String} {operation : StateM FileSystem α} {w v : World}
    {a : α} (hrun : (onView base operation).run w = .ok a v) :
    ∃ fs later, (operation fs).1 = a ∧ v = { w with fs := later } := by
  cases base with
  | none =>
      rw [run_onView_none] at hrun
      cases hrun
      exact ⟨_, _, rfl, rfl⟩
  | some path =>
      rw [run_onView_some] at hrun
      split at hrun <;> cases hrun
      exact ⟨_, _, rfl, rfl⟩

end Step

theorem Screens.close_leads (hR : World.Writes R) (screen : Screen) (resolution : Resolution)
    (ctx : Context) : Leads R (close screen resolution ctx base) w :=
  close_leads_of hR.lasting screen resolution fun _ _ _ _ => Step.onView_leads hR _

namespace Remote

variable {hosts : List String} {ctx : Context} {words : List String}

theorem runSsh_leads (hR : World.Travels R) : Leads R (runSsh hosts ctx words) w :=
  runSsh_leads_of hR.lasting (fun _ _ => Step.edit_leads hR.toWrites _) hR.remote

theorem copy_leads (hR : World.Writes R) (source target : End) (label owner : String)
    (upload : Bool) : Leads R (copy ctx source target label owner upload) w :=
  copy_leads_of hR.lasting fun _ _ _ _ _ _ _ => Step.onView_leads hR _

theorem runScp_leads (hR : World.Writes R) : Leads R (runScp hosts ctx base words) w :=
  runScp_leads_of hR.lasting (fun _ _ => Step.edit_leads hR _)
    fun _ _ _ _ _ _ _ => copy_leads hR _ _ _ _ _

theorem runExit_leads (hR : World.Travels R) : Leads R runExit w :=
  runExit_leads_of hR.lasting hR.remote

end Remote

namespace Dispatch

variable {hosts : List String} {ctx : Context} {input : Option String} {words : List String}

/-- What holds of changed files, and of going where an operand says, holds of a command on the files. -/
theorem onFiles_leads (hR : World.Writes R) (hdirectory : ∀ fs target,
    R { w with fs } (World.changeDirectory (ctx.resolve target) { w with fs })) :
    Leads R (onFiles ctx base input words) w := by
  refine .bind hR.lasting (Step.onView_leads hR _) fun outcome v hview => ?_
  obtain ⟨seen, fs, houtcome, rfl⟩ := Step.of_onView hview
  have hheads : Command.Heads ctx outcome := by
    rw [← houtcome]
    exact Command.execute_heads
  dsimp only
  cases hpath : outcome.newDirectory with
  | none => exact .pure hR.lasting _ _
  | some path =>
      obtain ⟨target, rfl⟩ := hheads path hpath
      exact .bind hR.lasting (.modify (hdirectory fs target)) fun _ u _ => .pure hR.lasting _ u

theorem session?_leads (hR : World.Travels R) {name : String} {step : Step Result}
    (hvariables : ∀ call, Environment.Call.ofWords? (name :: words) = some call →
      R w { w with environment := w.environment.call call })
    (hhistory : name :: words = ["history", "-c"] → R w { w with history := [] })
    (h : session? hosts ctx base name words = some step) : Leads R step w := by
  cases session?_cases h with
  | ssh => exact .map (Remote.runSsh_leads hR)
  | scp => exact .map (Remote.runScp_leads hR.toWrites)
  | pager => exact onScreen_leads hR.lasting _
  | editor => exact onScreen_leads hR.lasting _
  | env => exact .map (hvariables _ rfl)
  | exports => exact .map (hvariables _ rfl)
  | unset => exact .map (hvariables _ rfl)
  | history => exact .map (runHistory_leads hR.lasting fun hwords => hhistory (congrArg _ hwords))
  | exit => exact .bind hR.lasting (Remote.runExit_leads hR) fun _ v _ => .pure hR.lasting _ v

/-- What holds of changed files and of going to other machines holds of the run of any words, if it
holds of what these words ask of the variables, of going where an operand says, and of a cleared
history, which is cleared by nothing but `history -c`. -/
theorem run_leads_of_travels (hR : World.Travels R)
    (hvariables : ∀ call, Environment.Call.ofWords? (bare ctx words) = some call →
      R w { w with environment := w.environment.call call })
    (hdirectory : ∀ fs target,
      R { w with fs } (World.changeDirectory (ctx.resolve target) { w with fs }))
    (hhistory : bare ctx words = ["history", "-c"] → R w { w with history := [] }) :
    Leads R (run hosts ctx base input words) w := by
  unfold bare at hvariables hhistory
  unfold run
  dsimp only
  generalize (if ctx.elevated then words.dropWhile (· == "sudo") else words) = plain
    at hvariables hhistory ⊢
  cases plain with
  | nil => exact onFiles_leads hR.toWrites hdirectory
  | cons name arguments =>
      cases hsession : session? hosts ctx base name arguments with
      | none =>
          dsimp only
          rw [hsession]
          exact onFiles_leads hR.toWrites hdirectory
      | some step =>
          dsimp only
          rw [hsession]
          exact session?_leads hR hvariables hhistory hsession

/-- What holds of all that commands can change holds of the run of any words; the history is cleared by
nothing but `history -c`. -/
theorem run_leads_of_moves (hR : World.Moves R)
    (hhistory : bare ctx words = ["history", "-c"] → R w { w with history := [] }) :
    Leads R (run hosts ctx base input words) w :=
  run_leads_of_travels hR.travels (fun _ _ => hR.environment w _) (fun _ _ => hR.directory _ _) hhistory

theorem run_leads (hR : World.Changes R) : Leads R (run hosts ctx base input words) w :=
  run_leads_of_moves hR.toMoves fun _ => hR.history w

end Dispatch

/-- Whether the mode is the same. -/
def World.KeepsMode (w v : World) : Prop := v.mode = w.mode

theorem World.changes_keepsMode : World.Changes World.KeepsMode where
  lasting := ⟨fun _ => rfl, fun h h' => h'.trans h⟩
  files _ _ := rfl
  environment _ _ := rfl
  directory w path := by
    unfold World.changeDirectory
    cases w.remote <;> rfl
  remote _ _ := rfl
  history _ := rfl

namespace Session

variable {s : Session}

/-- Whether the mode of a session is the same. -/
def KeepsMode (s t : Session) : Prop := t.world.mode = s.world.mode

theorem lasting_keepsMode : Lasting KeepsMode := ⟨fun _ => rfl, fun h h' => h'.trans h⟩

theorem Rests.keepsMode {t : Session} (h : Rests s t) : KeepsMode s t := by
  rw [KeepsMode, h.world]

/-- What a step leads to in a world, it leads to in a session. -/
theorem step_leads {α : Type} {operation : Step α} (h : Leads R operation s.world) :
    Leads (fun s t => R s.world t.world) (step operation) s := by
  rw [Leads] at h
  rw [Leads, run_step]
  cases hrun : operation.run s.world <;> rwa [hrun] at h

theorem dispatch_keepsMode (ctx : Context) (base input : Option String) (words : List String) :
    Leads KeepsMode (dispatch ctx base input words) s :=
  .get_bind (step_leads (Dispatch.run_leads World.changes_keepsMode))

theorem dispatchOrGoBack_keepsMode (line : CommandLine) (ctx : Context) (base input : Option String) :
    Leads KeepsMode (dispatchOrGoBack line ctx base input) s := by
  refine .get_bind (.ite (fun _ => ?_) fun _ => dispatch_keepsMode _ _ _ _)
  refine .bind lasting_keepsMode (dispatch_keepsMode _ _ _ _) fun r t _ => ?_
  exact .ite (fun _ => .pure lasting_keepsMode _ t) fun _ => .pure lasting_keepsMode _ t

theorem finish_keepsMode (line : String) (o : Outcome) (intent : Option Intent) (leaves : Bool) :
    Leads KeepsMode (finish line o intent leaves) s := by
  have hR := lasting_keepsMode
  refine .bind hR (.modify rfl) fun _ t _ => ?_
  refine .bind hR ((note_rests _).weaken Rests.keepsMode) fun _ u _ => ?_
  refine .bind hR ((checkTasks_rests line o).weaken Rests.keepsMode) fun events v _ => ?_
  exact (respond_rests _).weaken Rests.keepsMode

end Session

end PracticeShell
