import PracticeShell.Proofs.Session.Sojourns
import PracticeShell.Proofs.Tree.Along
import PracticeShell.Proofs.Tree.Texts

/-!
# Sessions write texts

Commands, screens, redirections and transfers write texts or copy what a file holds, on all files or on
the directory that is seen. So in every state of a session all files hold texts (`after_holdsTexts`).
-/

namespace PracticeShell

open FileTree FileTree.Change Run

/-- Whether all files of a world hold texts afterwards if they do before. -/
def World.KeepsTexts (w v : World) : Prop := w.fs.KeepsTexts v.fs

variable {w : World} {base : Option String}

namespace World

theorem lasting_keepsTexts : Lasting KeepsTexts :=
  lasting_invariant fun w : World => w.fs.HoldsTexts

theorem KeepsTexts.of_fs {v : World} (h : v.fs = w.fs) : KeepsTexts w v := by
  intro htexts
  rwa [h]

/-- A world that is made from texts holds texts. -/
theorem holdsTexts_start {username : String} {initial : List (String × String)} {fs : FileSystem}
    (hfs : fs.HoldsTexts) (h : start username initial fs = .ok w) : w.fs.HoldsTexts := by
  unfold start at h
  dsimp only at h
  split at h
  · cases h
    exact hfs
  · have hkeeps := Edit.covers_keepsTexts.makesAll (Path.home username) Permissions.newDirectory
      (some username) fs
    rw [Leads, EStateM.run] at hkeeps
    split at h
    · rename_i hrun
      rw [hrun] at hkeeps
      cases h
      exact hkeeps hfs
    · cases h

end World

namespace Step

/-- What is seen of texts is texts. -/
theorem holdsTexts_of_look {fs : FileSystem} {v : World} (h : (look base).run w = .ok fs v)
    (htexts : w.fs.HoldsTexts) : fs.HoldsTexts := by
  obtain ⟨hthere, rfl⟩ := run_look_eq_ok_iff.1 h
  cases base with
  | none =>
      cases hthere
      exact htexts
  | some path => exact htexts.view hthere

theorem edit_keepsTexts {α : Type} {operation : Edit α}
    (h : Leads FileSystem.KeepsTexts operation w.fs) :
    Leads World.KeepsTexts (edit operation) w := by
  rw [Leads] at h
  rw [Leads, run_edit]
  cases hrun : operation.run w.fs <;> rwa [hrun] at h

theorem onView_keepsTexts {α : Type} {operation : StateM FileSystem α}
    (h : ∀ fs : FileSystem, fs.KeepsTexts (operation fs).2) :
    Leads World.KeepsTexts (onView base operation) w := by
  cases base with
  | none => exact h w.fs
  | some path =>
      intro htexts
      rw [run_onView_some]
      cases hview : w.fs.view path with
      | error e => exact htexts
      | ok inner => exact htexts.putBack hview (h inner (htexts.view hview))

theorem attempt_keepsTexts {operation : Edit Unit}
    (h : ∀ fs, Leads FileSystem.KeepsTexts operation fs) :
    Leads World.KeepsTexts (attempt base operation) w := by
  refine onView_keepsTexts fun fs => ?_
  have hleads := h fs
  rw [Leads, EStateM.run] at hleads
  cases hrun : operation fs <;> rw [hrun] at hleads <;> exact hleads

end Step

namespace Redirection

/-- What is written to a file is text. -/
theorem write_keepsTexts (ctx : Context) (t : Target) (output : String) (fs : FileSystem) :
    fs.KeepsTexts (write ctx t output fs).2 :=
  write_leads FileSystem.lasting_keepsTexts (fun _ => Edit.covers_keepsTexts.makesAll _ _ _ fs)
    (fun _ text u => Edit.write_keepsTexts u (fun _ => Text.Utf8.isValid_encode text) _ _ _) t output

theorem applyTo_keepsTexts (r : Redirection) (ctx : Context) (o : Outcome) (said : Option String)
    (fs : FileSystem) : fs.KeepsTexts (r.applyTo ctx o said fs).2 := by
  rw [applyTo_snd]
  split
  · exact id
  · exact write_keepsTexts ctx _ _ fs

end Redirection

theorem Screens.close_keepsTexts (screen : Screen) (resolution : Resolution) (ctx : Context) :
    Leads World.KeepsTexts (close screen resolution ctx base) w :=
  close_leads_of World.lasting_keepsTexts screen resolution fun _ _ _ _ =>
    Step.attempt_keepsTexts fun fs =>
      Edit.write_keepsTexts fs (fun _ => Text.Utf8.isValid_encode _) _ _ _

namespace Remote

variable {hosts : List String} {ctx : Context} {words : List String}

theorem runSsh_keepsTexts : Leads World.KeepsTexts (runSsh hosts ctx words) w :=
  runSsh_leads_of World.lasting_keepsTexts
    (fun _ _ => Step.edit_keepsTexts (Edit.covers_keepsTexts.makesAll _ _ _ _)) fun _ _ => .of_fs rfl

/-- What is copied between ends holds what a file holds. -/
theorem copy_keepsTexts (source target : End) (label owner : String) (upload : Bool) :
    Leads World.KeepsTexts (copy ctx source target label owner upload) w := by
  intro htexts
  refine copy_leads_of World.lasting_keepsTexts (fun fs v bytes hlook hbytes path u => ?_) htexts
  have hvalid : Text.Utf8.isValid bytes = true := by
    obtain ⟨a, hface⟩ := FileSystem.contents_eq_ok_iff.1 hbytes
    exact Step.holdsTexts_of_look hlook htexts _ _ hface
  exact Step.attempt_keepsTexts fun there =>
    .bind FileSystem.lasting_keepsTexts (Edit.covers_keepsTexts.makesAll _ _ _ there)
      fun _ t _ => Edit.write_keepsTexts t (fun _ => hvalid) _ _ _

theorem runScp_keepsTexts : Leads World.KeepsTexts (runScp hosts ctx base words) w :=
  runScp_leads_of World.lasting_keepsTexts
    (fun _ _ => Step.edit_keepsTexts (Edit.covers_keepsTexts.makesAll _ _ _ _))
    fun _ _ _ _ _ _ _ => copy_keepsTexts _ _ _ _ _

theorem runExit_keepsTexts : Leads World.KeepsTexts runExit w :=
  runExit_leads_of World.lasting_keepsTexts fun _ _ => .of_fs rfl

end Remote

namespace Dispatch

variable {hosts : List String} {ctx : Context} {input : Option String} {words : List String}

theorem onFiles_keepsTexts : Leads World.KeepsTexts (onFiles ctx base input words) w := by
  have hR := World.lasting_keepsTexts
  refine .bind hR (Step.onView_keepsTexts fun fs =>
    Command.leads_execute ctx words input fs Edit.covers_keepsTexts) fun outcome v _ => ?_
  dsimp only
  cases outcome.newDirectory with
  | none => exact .pure hR _ v
  | some path =>
      refine .bind hR (.modify (.of_fs ?_)) fun _ u _ => .pure hR _ u
      unfold World.changeDirectory
      cases v.remote <;> rfl

theorem session?_keepsTexts {name : String} {step : Step Result}
    (h : session? hosts ctx base name words = some step) : Leads World.KeepsTexts step w := by
  have hR := World.lasting_keepsTexts
  cases session?_cases h with
  | ssh => exact .map Remote.runSsh_keepsTexts
  | scp => exact .map Remote.runScp_keepsTexts
  | pager => exact onScreen_leads hR _
  | editor => exact onScreen_leads hR _
  | env => exact .map (.of_fs rfl)
  | exports => exact .map (.of_fs rfl)
  | unset => exact .map (.of_fs rfl)
  | history => exact .map (runHistory_leads hR fun _ => .of_fs rfl)
  | exit => exact .bind_pure Remote.runExit_keepsTexts

theorem run_keepsTexts : Leads World.KeepsTexts (run hosts ctx base input words) w := by
  unfold run
  dsimp only
  split
  · exact onFiles_keepsTexts
  · rename_i name arguments _
    cases hsession : session? hosts ctx base name arguments with
    | none => exact onFiles_keepsTexts
    | some step => exact session?_keepsTexts hsession

end Dispatch

namespace Session

variable {s : Session}

/-- Whether all files of a session hold texts afterwards if they do before. -/
def KeepsTexts (s t : Session) : Prop := s.world.KeepsTexts t.world

theorem lasting_keepsTexts : Lasting KeepsTexts :=
  lasting_invariant fun s : Session => s.world.fs.HoldsTexts

theorem Stands.keepsTexts {t : Session} (h : Stands s t) : KeepsTexts s t := .of_fs h.1

theorem Rests.keepsTexts {t : Session} (h : Rests s t) : KeepsTexts s t := h.stands.keepsTexts

theorem setMode_keepsTexts (mode : Mode) : Leads KeepsTexts (setMode mode) s :=
  (setMode_stands mode).weaken Stands.keepsTexts

theorem finish_keepsTexts (line : String) (o : Outcome) (intent : Option Intent) (leaves : Bool) :
    Leads KeepsTexts (finish line o intent leaves) s :=
  (finish_stands line o intent leaves).weaken Stands.keepsTexts

theorem dispatch_keepsTexts (ctx : Context) (base input : Option String) (words : List String) :
    Leads KeepsTexts (dispatch ctx base input words) s :=
  .get_bind (step_leads Dispatch.run_keepsTexts)

theorem dispatchOrGoBack_keepsTexts (line : CommandLine) (ctx : Context)
    (base input : Option String) :
    Leads KeepsTexts (dispatchOrGoBack line ctx base input) s := by
  have hR := lasting_keepsTexts
  refine .get_bind (.ite (fun _ => ?_) fun _ => dispatch_keepsTexts _ _ _ _)
  refine .bind hR (dispatch_keepsTexts _ _ _ _) fun r t _ => ?_
  exact .ite (fun _ => .pure hR _ t) fun _ => .pure hR _ t

theorem complete_keepsTexts (line : CommandLine) (r : Dispatch.Result) (runner writer : Context)
    (base said : Option String) :
    Leads KeepsTexts (complete line r runner writer base said) s := by
  have hR := lasting_keepsTexts
  have hrest : ∀ t, Leads KeepsTexts (do
      let o ← step (Step.onView base (line.redirection.applyTo writer r.outcome said))
      finish line.text o (r.screen.map Intent.screen) r.leaves) t := fun t =>
    .bind hR (step_leads (Step.onView_keepsTexts fun fs =>
      Redirection.applyTo_keepsTexts _ _ _ _ fs)) fun o v _ => finish_keepsTexts _ _ _ _
  unfold complete
  dsimp only
  split
  · exact .bind hR (setMode_keepsTexts _) fun _ t _ => hrest t
  · exact hrest s

theorem awaitPassword_keepsTexts (line : CommandLine) (o : Outcome) (input said : Option String) :
    Leads KeepsTexts (awaitPassword line o input said) s :=
  (awaitPassword_stands line o input said).weaken Stands.keepsTexts

theorem look_keepsTexts (base : Option String) : Leads KeepsTexts (step (Step.look base)) s :=
  (look_rests base).weaken Rests.keepsTexts

theorem readInput_keepsTexts (line : CommandLine) (ctx : Context) (base otherwise : Option String) :
    Leads KeepsTexts (readInput line ctx base otherwise) s :=
  (readInput_rests line ctx base otherwise).weaken Rests.keepsTexts

theorem runLine_keepsTexts (line : CommandLine) (ctx : Context) :
    Leads KeepsTexts (runLine line ctx) s := by
  have hR := lasting_keepsTexts
  unfold runLine
  split
  · exact .bind hR (setMode_keepsTexts _) fun _ t _ => (respond_rests _).keepsTexts
  · refine .get_bind (.bind hR (look_keepsTexts _) fun _ t _ => ?_)
    refine .bind hR (readInput_keepsTexts _ _ _ _) fun answer u _ => ?_
    cases answer with
    | error problem => exact finish_keepsTexts _ _ _ _
    | ok input =>
        refine .get_bind (.ite (fun _ => finish_keepsTexts _ _ _ _) fun _ => ?_)
        refine .bind hR (dispatchOrGoBack_keepsTexts _ _ _ _) fun r v _ => ?_
        exact .ite (fun _ => awaitPassword_keepsTexts _ _ _ _) fun _ =>
          complete_keepsTexts _ _ _ _ _ _

theorem submitCommand_keepsTexts (text : String) : Leads KeepsTexts (submitCommand text) s := by
  have hR := lasting_keepsTexts
  unfold submitCommand
  dsimp only
  refine .ite (fun _ => (respond_rests _).keepsTexts) fun _ => ?_
  refine .bind hR (.modify (.of_fs rfl)) fun _ t _ => .get_bind ?_
  split
  · exact finish_keepsTexts _ _ _ _
  · refine .ite (fun _ => finish_keepsTexts _ _ _ _) fun _ => .get_bind ?_
    refine .bind hR ((guard_rests _ _).weaken Rests.keepsTexts) fun warning u _ => ?_
    cases warning with
    | none => exact runLine_keepsTexts _ _
    | some warning =>
        refine .bind hR (setMode_keepsTexts _) fun _ v _ => ?_
        exact .bind hR ((note_rests _).weaken Rests.keepsTexts) fun _ x _ =>
          (respond_rests _).keepsTexts

theorem submitPassword_keepsTexts (text : String) (line : CommandLine)
    (input said : Option String) : Leads KeepsTexts (submitPassword text line input said) s := by
  have hR := lasting_keepsTexts
  have hnote : ∀ a t, Leads KeepsTexts (note a) t := fun a t =>
    (note_rests a).weaken Rests.keepsTexts
  refine .bind hR (setMode_keepsTexts _) fun _ t _ => .get_bind (.ite (fun _ => ?_) fun _ => ?_)
  · exact .bind hR (hnote _ t) fun _ u _ => finish_keepsTexts _ _ _ _
  · refine .bind hR (hnote _ t) fun _ u _ => .bind hR (look_keepsTexts _) fun _ v _ => ?_
    refine .bind hR (readInput_keepsTexts _ _ _ _) fun answer x _ => ?_
    cases answer with
    | error problem => exact finish_keepsTexts _ _ _ _
    | ok input =>
        exact .bind hR (dispatch_keepsTexts _ _ _ _) fun r y _ => complete_keepsTexts _ _ _ _ _ _

theorem submitInput_keepsTexts (text : String) (line : CommandLine) (marker : String)
    (lines : List String) : Leads KeepsTexts (submitInput text line marker lines) s := by
  have hR := lasting_keepsTexts
  refine .ite (fun _ => ?_) fun _ => ?_
  · exact .bind hR (setMode_keepsTexts _) fun _ t _ => (respond_rests _).keepsTexts
  · refine .bind hR (setMode_keepsTexts _) fun _ t _ => .get_bind ?_
    refine .bind hR (look_keepsTexts _) fun _ u _ => ?_
    refine .bind hR (dispatch_keepsTexts _ _ _ _) fun r v _ => ?_
    exact .ite (fun _ => awaitPassword_keepsTexts _ _ _ _) fun _ =>
      complete_keepsTexts _ _ _ _ _ _

theorem submit_keepsTexts (text : String) : Leads KeepsTexts (submit text) s := by
  refine .get_bind ?_
  cases s.world.mode with
  | normal => exact submitCommand_keepsTexts _
  | password line input said => exact submitPassword_keepsTexts _ _ _ _
  | collecting line marker lines => exact submitInput_keepsTexts _ _ _ _
  | confirming line warning ctx => exact lasting_keepsTexts.refl s
  | showing screen ctx command => exact lasting_keepsTexts.refl s

theorem resolve_keepsTexts (resolution : Resolution) : Leads KeepsTexts (resolve resolution) s := by
  have hR := lasting_keepsTexts
  refine .get_bind ?_
  split
  · refine .bind hR (setMode_keepsTexts _) fun _ t _ => .ite (fun _ => ?_) fun _ => ?_
    · exact .bind hR ((note_rests _).weaken Rests.keepsTexts) fun _ u _ => runLine_keepsTexts _ _
    · exact .bind hR ((note_rests _).weaken Rests.keepsTexts) fun _ u _ =>
        (respond_rests _).keepsTexts
  · refine .bind hR (setMode_keepsTexts _) fun _ t _ => .get_bind ?_
    exact .bind hR (step_leads (Screens.close_keepsTexts _ _ _)) fun _ u _ =>
      finish_keepsTexts _ _ _ _
  · exact hR.refl s

/-- The files that a learner starts with hold texts. -/
theorem holdsTexts_startWorld {o : SessionOptions} {adventure : Option Adventure} {now : Int}
    {w : World} (h : startWorld o adventure now = .ok w) : w.fs.HoldsTexts := by
  obtain ⟨fs, hfiles, hstart⟩ := startWorld_eq_ok_iff.1 h
  refine World.holdsTexts_start ?_ hstart
  unfold startFiles at hfiles
  cases adventure with
  | none =>
      cases hfiles
      exact FileSystem.holdsTexts_empty _ _
  | some a =>
      dsimp only at hfiles
      rw [mapError_eq_ok_iff] at hfiles
      unfold Adventure.makeFiles at hfiles
      split at hfiles
      · rename_i hmade
        cases hfiles
        exact FileSystem.holdsTexts_ofStructure hmade
      · cases hfiles

theorem reset_keepsTexts : Leads KeepsTexts reset s := by
  cases hstart : startWorld s.options s.adventure? s.world.now with
  | error e =>
      rw [Leads, reset, run_get_bind, hstart]
      exact lasting_keepsTexts.refl s
  | ok w =>
      rw [Leads, run_reset hstart]
      exact fun _ => holdsTexts_startWorld hstart

theorem ask_keepsTexts (text : String) : Leads KeepsTexts (ask text) s := by
  have hR := lasting_keepsTexts
  by_cases hreset : Question.read? text = some .reset
  · refine .get_bind ?_
    rw [hreset]
    split
    · rename_i question hmode hread
      cases hread
      refine .bind hR (.bind hR reset_keepsTexts fun _ t _ => (respond_rests _).keepsTexts) ?_
      exact fun _ u _ => .pure hR _ u
    · exact hR.refl s
  · exact (ask_rests hreset).keepsTexts

/-- Nothing that happens to a session puts anything but texts into files. -/
theorem next_keepsTexts (i : Input) : KeepsTexts s (s.next i) := by
  unfold next
  cases i with
  | line text =>
      unfold Input.act
      rw [left_discard]
      exact submit_keepsTexts text
  | question text =>
      unfold Input.act
      rw [left_discard]
      exact ask_keepsTexts text
  | answer resolution =>
      unfold Input.act
      rw [left_discard]
      exact resolve_keepsTexts resolution
  | hint level =>
      unfold Input.act
      rw [left_discard]
      exact (hint_rests level).keepsTexts
  | reset => exact reset_keepsTexts
  | close => exact close_rests.keepsTexts
  | tick seconds => exact id

/-- In every state of a session all files hold texts. -/
theorem after_holdsTexts {o : SessionOptions} {adventure : Option Adventure}
    {store : Option ProgressStore} {resume : Bool} {now : Int}
    (hstart : start o adventure store resume now = .ok s) (inputs : List Input) :
    (s.after inputs).world.fs.HoldsTexts := by
  induction inputs using List.reverseRecOn with
  | nil =>
      obtain ⟨tracker, w, -, hworld, rfl⟩ := start_eq_ok_iff.1 hstart
      exact holdsTexts_startWorld hworld
  | append_singleton inputs i ih =>
      rw [after_concat]
      exact next_keepsTexts i ih

end Session

end PracticeShell
