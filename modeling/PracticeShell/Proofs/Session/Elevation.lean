import Mathlib.Data.List.Induction
import PracticeShell.Proofs.Session.Modes
import PracticeShell.Proofs.Session.Turns
import PracticeShell.Proofs.Session.Telling

/-!
# Elevated rights

Words are run with elevated rights only when a line is the password that the session waits for. What
stays of the rights after that is the screen that the words have opened, if they have opened one; once
it is closed, nothing is left of them.
-/

namespace PracticeShell

open Run

namespace Mode

/-- The context that is kept for what is shown or held back. -/
def context? : Mode → Option Context
  | confirming _ _ ctx | showing _ ctx _ => some ctx
  | _ => none

/-- Whether no elevated rights are kept. -/
def IsPlain (m : Mode) : Prop := ∀ ctx, m.context? = some ctx → ctx.elevated = false

theorem isPlain_of_context? {m : Mode} (h : m.context? = none) : m.IsPlain := by
  intro ctx hctx
  rw [h] at hctx
  cases hctx

theorem isPlain_normal : normal.IsPlain := isPlain_of_context? rfl

theorem isPlain_confirming {line : CommandLine} {warning : Guard.Warning} {ctx : Context}
    (h : ctx.elevated = false) : (confirming line warning ctx).IsPlain := by
  rintro _ ⟨⟩
  exact h

theorem isPlain_showing {screen : Screen} {ctx : Context} {command : String}
    (h : ctx.elevated = false) : (showing screen ctx command).IsPlain := by
  rintro _ ⟨⟩
  exact h

end Mode

namespace Session

/-- Whether a session keeps no elevated rights, unless it goes on in the same mode. -/
def Calms (s t : Session) : Prop := t.world.mode.IsPlain ∨ t.world.mode = s.world.mode

variable {s : Session}

theorem lasting_calms : Lasting Calms where
  refl _ := .inr rfl
  trans := by
    rintro s t u h (hplain | hsame)
    · exact .inl hplain
    · rw [Calms, hsame]
      exact h

theorem KeepsMode.calms {t : Session} (h : KeepsMode s t) : Calms s t := .inr h

theorem Rests.calms {t : Session} (h : Rests s t) : Calms s t := h.keepsMode.calms

theorem setMode_calms {mode : Mode} (h : mode.IsPlain) : Leads Calms (setMode mode) s :=
  .modify (.inl h)

theorem finish_calms (line : String) (o : Outcome) (intent : Option Intent) (leaves : Bool) :
    Leads Calms (finish line o intent leaves) s :=
  (finish_keepsMode line o intent leaves).weaken KeepsMode.calms

theorem awaitPassword_calms (line : CommandLine) (o : Outcome) (input said : Option String) :
    Leads Calms (awaitPassword line o input said) s :=
  .bind lasting_calms (setMode_calms (Mode.isPlain_of_context? rfl)) fun _ _ _ =>
    (respond_rests _).weaken Rests.calms

/-- The end of a command sets the mode if the command has opened a screen, and for nothing else. -/
theorem mode_complete (line : CommandLine) (r : Dispatch.Result) (runner writer : Context)
    (base said : Option String) :
    (left ((complete line r runner writer base said).run s)).world.mode = match r.screen with
      | some screen => .showing screen runner line.text
      | none => s.world.mode := by
  have hwrite : ∀ {t intent}, Leads KeepsMode (do
      let written ← step (Step.onView base (line.redirection.applyTo writer r.outcome said))
      finish line.text written intent r.leaves) t := fun {t intent} =>
    .bind lasting_keepsMode (step_leads (Step.onView_leads World.changes_keepsMode.writes _))
      fun _ _ _ => finish_keepsMode _ _ _ _
  unfold complete
  cases r.screen with
  | none => exact hwrite
  | some screen => exact hwrite

/-- A screen that a command opens keeps the rights of the command. -/
theorem complete_calms {runner : Context} (h : runner.elevated = false) (line : CommandLine)
    (r : Dispatch.Result) (writer : Context) (base said : Option String) :
    Leads Calms (complete line r runner writer base said) s := by
  rw [Leads, Calms, mode_complete]
  cases r.screen with
  | none => exact .inr rfl
  | some screen => exact .inl (Mode.isPlain_showing h)

theorem dispatched_calms {ctx : Context} (h : ctx.elevated = false) {line : CommandLine}
    {action : Action Dispatch.Result} (haction : Leads KeepsMode action s)
    (base input said : Option String) :
    Leads Calms (do
      let r ← action
      if r.outcome.needsPassword then awaitPassword line r.outcome input said
      else complete line r ctx ctx base said) s := by
  refine .bind lasting_calms (haction.weaken KeepsMode.calms) fun r t _ => ?_
  exact .ite (fun _ => awaitPassword_calms _ _ _ _) fun _ => complete_calms h _ _ _ _ _

theorem runLine_calms {ctx : Context} (h : ctx.elevated = false) (line : CommandLine) :
    Leads Calms (runLine line ctx) s := by
  have hR := lasting_calms
  unfold runLine
  split
  · exact .bind hR (setMode_calms (Mode.isPlain_of_context? rfl)) fun _ _ _ =>
      (respond_rests _).weaken Rests.calms
  · refine .get_bind (.bind hR ((look_rests _).weaken Rests.calms) fun _ t _ => ?_)
    refine .bind hR ((readInput_rests _ _ _ _).weaken Rests.calms) fun answer u _ => ?_
    cases answer with
    | error problem => exact finish_calms _ _ _ _
    | ok input =>
        refine .get_bind (.ite (fun _ => finish_calms _ _ _ _) fun _ => ?_)
        exact dispatched_calms h (dispatchOrGoBack_keepsMode _ _ _ _) _ _ _

theorem submitCommand_calms (text : String) : Leads Calms (submitCommand text) s := by
  have hR := lasting_calms
  refine .ite (fun _ => (respond_rests _).weaken Rests.calms) fun _ => ?_
  refine .bind hR (.modify (.inr rfl)) fun _ t _ => .get_bind ?_
  dsimp only
  split
  · exact finish_calms _ _ _ _
  · refine .ite (fun _ => finish_calms _ _ _ _) fun _ => .get_bind ?_
    have hplain := t.world.elevated_context
    refine .bind hR ((guard_rests _ _).weaken Rests.calms) fun warning u _ => ?_
    cases warning with
    | none => exact runLine_calms hplain _
    | some warning =>
        refine .bind hR (setMode_calms (Mode.isPlain_confirming hplain)) fun _ v _ => ?_
        exact .bind hR ((note_rests _).weaken Rests.calms) fun _ _ _ =>
          (respond_rests _).weaken Rests.calms

theorem submitInput_calms (text : String) (line : CommandLine) (marker : String)
    (lines : List String) : Leads Calms (submitInput text line marker lines) s := by
  have hR := lasting_calms
  refine .ite (fun _ => ?_) fun _ =>
    .bind hR (setMode_calms Mode.isPlain_normal) fun _ t _ => .get_bind ?_
  · exact .bind hR (setMode_calms (Mode.isPlain_of_context? rfl)) fun _ _ _ =>
      (respond_rests _).weaken Rests.calms
  · refine .bind hR ((look_rests _).weaken Rests.calms) fun _ u _ => ?_
    exact dispatched_calms t.world.elevated_context (dispatch_keepsMode _ _ _ _) _ _ _

theorem resolve_calms (h : s.IsSober) (resolution : Resolution) :
    Leads Calms (resolve resolution) s := by
  have hR := lasting_calms
  refine .get_bind ?_
  cases hmode : s.world.mode with
  | confirming line warning ctx =>
      refine .bind hR (setMode_calms Mode.isPlain_normal) fun _ t _ => .ite (fun _ => ?_) fun _ => ?_
      · refine .bind hR ((note_rests _).weaken Rests.calms) fun _ u _ => ?_
        exact runLine_calms (h line warning ctx hmode) _
      · exact .bind hR ((note_rests _).weaken Rests.calms) fun _ _ _ =>
          (respond_rests _).weaken Rests.calms
  | showing screen ctx command =>
      refine .bind hR (setMode_calms Mode.isPlain_normal) fun _ t _ => .get_bind ?_
      refine .bind hR ((step_leads (Screens.close_leads World.changes_keepsMode.writes screen resolution
        ctx)).weaken KeepsMode.calms) fun o u _ => finish_calms _ _ _ _
  | normal => exact (respond_rests _).weaken Rests.calms
  | collecting line marker lines => exact (respond_rests _).weaken Rests.calms
  | password line input said => exact (respond_rests _).weaken Rests.calms

theorem reset_calms : Leads Calms reset s := by
  cases hstart : startWorld s.options s.adventure? s.world.now with
  | error e =>
      rw [Leads, reset, run_get_bind, hstart]
      exact lasting_calms.refl s
  | ok w =>
      have hnormal := mode_startWorld hstart
      rw [Leads, run_reset hstart]
      refine .inl ?_
      dsimp only [left_ok]
      rw [hnormal]
      exact Mode.isPlain_normal

theorem ask_calms (text : String) : Leads Calms (ask text) s := by
  by_cases hreset : Question.read? text = some .reset
  · refine .get_bind ?_
    rw [hreset]
    split
    · rename_i question hmode hread
      cases hread
      refine .bind lasting_calms (.bind lasting_calms reset_calms fun _ t _ => ?_) fun _ u _ =>
        .pure lasting_calms _ u
      exact (respond_rests _).weaken Rests.calms
    · exact .pure lasting_calms _ s
  · exact (ask_rests hreset).weaken Rests.calms

/-- Of the world, the end of a command line changes the exit code alone. -/
theorem world_finish (line : String) (o : Outcome) (intent : Option Intent) (leaves : Bool) :
    (left ((finish line o intent leaves).run s)).world = { s.world with
      environment := { s.world.environment with lastStatus := o.exitCode } } := by
  have hR := lasting_rests
  have hrests : Leads Rests (do
      note (.command (commandName line) o.exitCode)
      let events ← checkTasks line o
      respond fun prompt => {
        output := o.output, errors := o.errors, exitCode := o.exitCode, prompt, intent, events, leaves })
      { s with world := { s.world with
        environment := { s.world.environment with lastStatus := o.exitCode } } } :=
    .bind hR (note_rests _) fun _ _ _ => .bind hR (checkTasks_rests line o) fun _ _ _ =>
      respond_rests _
  exact hrests.world

/-- What a wrong password leaves behind: nothing but the exit code of a command that has failed. -/
theorem world_submit_of_wrong {text : String} {line : CommandLine} {input said : Option String}
    (hmode : s.world.mode = .password line input said)
    (htext : withoutLineEnd text ≠ s.options.password) :
    (left ((submit text).run s)).world = { s.world with
      mode := .normal
      environment := { s.world.environment with lastStatus := Outcome.failure } } := by
  rw [run_submit_password hmode]
  have hrun : (submitPassword (withoutLineEnd text) line input said).run s =
      (finish line.text (.fail "sudo: 3 incorrect password attempts" Outcome.failure) none false).run
        { s with
          world := { s.world with mode := .normal }
          journal := s.journal ++ [.password false] } := by
    unfold submitPassword setMode
    rw [run_modify_bind, run_get_bind]
    dsimp only
    rw [if_pos htext]
    rfl
  rw [hrun, world_finish]
  rfl

/-- Whether the words that wait for the password open a screen with elevated rights when it comes. -/
def Opens (s : Session) (text : String) (mode : Mode) : Prop :=
  ∃ line input said screen, s.world.mode = .password line input said ∧
    withoutLineEnd text = s.options.password ∧
    mode = .showing screen s.world.context.elevate line.text ∧
    ∃ given r w, (Dispatch.run s.options.remoteHosts s.world.context.elevate s.world.viewBase given
      line.words).run { s.world with mode := .normal } = .ok r w ∧ r.screen = some screen

theorem of_dispatch {ctx : Context} {base input : Option String} {words : List String}
    {r : Dispatch.Result} {t : Session} (h : (dispatch ctx base input words).run s = .ok r t) :
    (Dispatch.run s.options.remoteHosts ctx base input words).run s.world = .ok r t.world := by
  rw [dispatch, run_get_bind, run_step] at h
  cases hrun : (Dispatch.run s.options.remoteHosts ctx base input words).run s.world with
  | ok a w =>
      rw [hrun] at h
      cases h
      rfl
  | error e w =>
      rw [hrun] at h
      cases h

/-- Whether no elevated rights are kept, except for a screen that the words have opened. -/
def Holds (s : Session) (text : String) (t : Session) : Prop :=
  t.world.mode.IsPlain ∨ s.Opens text t.world.mode

theorem holds_of_normal {text : String} {t : Session} (h : t.world.mode = .normal) :
    s.Holds text t := by
  rw [Holds, h]
  exact .inl Mode.isPlain_normal

/-- The right password leaves no elevated rights behind but those of a screen that is opened. -/
theorem submit_holds {text : String} {line : CommandLine} {input said : Option String}
    (hmode : s.world.mode = .password line input said)
    (htext : withoutLineEnd text = s.options.password) :
    s.Holds text (left ((submit text).run s)) := by
  -- whatever keeps the mode keeps it normal, up to the end of the command
  have hkeeps : ∀ {α : Type} {x : Action α} {f : α → Action Response} {t : Session},
      t.world.mode = .normal → Leads KeepsMode x t →
        (∀ a u, x.run t = .ok a u → u.world.mode = .normal →
          Leads (fun _ v => s.Holds text v) (f a) u) →
        Leads (fun _ v => s.Holds text v) (x >>= f) t := by
    intro α x f t ht hx hf
    exact .bind_into (fun h => holds_of_normal (h.trans ht)) (fun _ h => h) hx
      fun a u hrun => hf a u hrun ((hx.of_run hrun).trans ht)
  rw [run_submit_password hmode]
  unfold submitPassword setMode
  rw [run_modify_bind, run_get_bind]
  dsimp only
  rw [if_neg (not_not.2 htext)]
  refine hkeeps rfl ((note_rests _).weaken Rests.keepsMode) fun _ t hnote ht => ?_
  refine hkeeps ht ((look_rests _).weaken Rests.keepsMode) fun _ u hlook hu => ?_
  refine hkeeps hu ((readInput_rests _ _ _ _).weaken Rests.keepsMode) fun answer v hread hv => ?_
  have hrests := lasting_rests.trans ((note_rests _).of_run hnote)
    (lasting_rests.trans ((look_rests _).of_run hlook) ((readInput_rests _ _ _ _).of_run hread))
  cases answer with
  | error problem => exact holds_of_normal ((finish_keepsMode _ _ _ _).trans hv)
  | ok given =>
      refine hkeeps hv (dispatch_keepsMode _ _ _ _) fun r x hrun hx => ?_
      have hruns := of_dispatch hrun
      rw [hrests.world, hrests.options] at hruns
      rw [Leads, Holds, mode_complete, hx]
      cases hscreen : r.screen with
      | none => exact .inl Mode.isPlain_normal
      | some screen =>
          exact .inr ⟨line, input, said, screen, hmode, htext, rfl, given, r, x.world, hruns, hscreen⟩

theorem submit_calms_or_opens (text : String) :
    Calms s (left ((submit text).run s)) ∨ s.Opens text (left ((submit text).run s)).world.mode := by
  cases hmode : s.world.mode with
  | password line input said =>
      by_cases htext : withoutLineEnd text = s.options.password
      · exact (submit_holds hmode htext).imp_left .inl
      · rw [world_submit_of_wrong hmode htext, Calms, world_submit_of_wrong hmode htext]
        exact .inl (.inl Mode.isPlain_normal)
  | normal =>
      rw [run_submit_normal hmode]
      exact .inl (submitCommand_calms _)
  | collecting line marker lines =>
      rw [run_submit_collecting hmode]
      exact .inl (submitInput_calms _ _ _ _)
  | confirming line warning ctx =>
      exact .inl ((submit_rests_of_intent? (by rw [intent?, hmode]; rfl)).weaken Rests.calms)
  | showing screen ctx command =>
      exact .inl ((submit_rests_of_intent? (by rw [intent?, hmode]; rfl)).weaken Rests.calms)

/-- An input leaves no elevated rights behind, unless it goes on in the same mode or opens a screen by
the password. -/
theorem next_calms_or_opens (h : s.IsSober) (i : Input) :
    Calms s (s.next i) ∨ ∃ text, i = .line text ∧ s.Opens text (s.next i).world.mode := by
  have hdrop : ∀ {α : Type} {x : Action α}, Leads Calms x s →
      Calms s (left ((do let _ ← x : Action Unit).run s)) := fun hx => by
    rwa [left_discard]
  unfold next
  cases i with
  | line text =>
      unfold Input.act
      rw [left_discard]
      exact (submit_calms_or_opens text).imp_right fun hopens => ⟨text, rfl, hopens⟩
  | question text => exact .inl (hdrop (ask_calms text))
  | answer resolution => exact .inl (hdrop (resolve_calms h resolution))
  | hint level => exact .inl (hdrop ((hint_rests level).weaken Rests.calms))
  | reset => exact .inl reset_calms
  | close => exact .inl (close_rests.weaken Rests.calms)
  | tick seconds => exact .inl (.inr rfl)

/-- Whether the mode after some inputs is that of a screen which the password, one of the inputs, has
opened, and has been the same ever since. -/
def Opened (s : Session) (inputs : List Input) : Prop :=
  ∃ before text later, inputs = before ++ .line text :: later ∧
    (s.after before).Opens text (s.after inputs).world.mode ∧
    ∀ first, first <+: later →
      (s.after (before ++ .line text :: first)).world.mode = (s.after inputs).world.mode

theorem after_append (s : Session) (inputs later : List Input) :
    s.after (inputs ++ later) = (s.after inputs).after later := List.foldl_append

theorem after_concat (s : Session) (inputs : List Input) (i : Input) :
    s.after (inputs ++ [i]) = (s.after inputs).next i := after_append s inputs [i]

theorem Opened.concat {inputs : List Input} (h : s.Opened inputs) {i : Input}
    (hsame : ((s.after inputs).next i).world.mode = (s.after inputs).world.mode) :
    s.Opened (inputs ++ [i]) := by
  obtain ⟨before, text, later, rfl, hopens, hsince⟩ := h
  refine ⟨before, text, later ++ [i], by simp, ?_, fun first hfirst => ?_⟩
  · rwa [after_concat, hsame]
  · rw [after_concat, hsame]
    rcases List.prefix_concat_iff.1 hfirst with rfl | hprefix
    · rw [← List.cons_append, ← List.append_assoc, after_concat, hsame]
    · exact hsince first hprefix

theorem isSober_of_isPlain (h : s.world.mode.IsPlain) : s.IsSober := by
  intro line warning ctx hmode
  rw [hmode] at h
  exact h ctx rfl

theorem Opened.isSober {inputs : List Input} (h : s.Opened inputs) : (s.after inputs).IsSober := by
  obtain ⟨before, text, later, -, ⟨line, input, said, screen, -, -, hshowing, -⟩, -⟩ := h
  intro other warning ctx hmode
  rw [hmode] at hshowing
  cases hshowing

/-- Whatever happens to a session, it keeps no elevated rights but those of an opened screen. -/
theorem after_isPlain_or_opened (h : s.world.mode.IsPlain) (inputs : List Input) :
    (s.after inputs).world.mode.IsPlain ∨ s.Opened inputs := by
  induction inputs using List.reverseRecOn with
  | nil => exact .inl h
  | append_singleton inputs i ih =>
      have hsober : (s.after inputs).IsSober := ih.elim isSober_of_isPlain Opened.isSober
      rcases next_calms_or_opens hsober i with (hplain | hsame) | ⟨text, rfl, hopens⟩
      · rw [after_concat]
        exact .inl hplain
      · rcases ih with hplain | hopened
        · rw [after_concat, hsame]
          exact .inl hplain
        · exact .inr (hopened.concat hsame)
      · rw [← after_concat] at hopens
        refine .inr ⟨inputs, text, [], rfl, hopens, fun first hfirst => ?_⟩
        rw [List.prefix_nil.1 hfirst]

/-- Whether no input is the password when it comes. -/
def IsLocked (s : Session) : List Input → Prop
  | [] => True
  | i :: inputs => ¬ s.Unlocks i ∧ IsLocked (s.next i) inputs

theorem unlocks_of_opens {text : String} {mode : Mode} (h : s.Opens text mode) :
    s.Unlocks (.line text) := by
  obtain ⟨line, input, said, screen, hmode, htext, -⟩ := h
  refine ⟨?_, htext⟩
  rw [hmode]
  rfl

/-- As long as the password is not given, no words are run with elevated rights: whatever they would
do, the session is the same. -/
theorem afterBy_eq {run : Runner} (hrun : run.IsFaithful) {inputs : List Input}
    (h : s.world.mode.IsPlain) (hlocked : s.IsLocked inputs) :
    s.afterBy run inputs = s.after inputs := by
  induction inputs generalizing s with
  | nil => rfl
  | cons i inputs ih =>
      obtain ⟨hfirst, hlater⟩ := hlocked
      have hsober := isSober_of_isPlain h
      have hplain : (s.next i).world.mode.IsPlain := by
        rcases next_calms_or_opens hsober i with (hplain | hsame) | ⟨text, rfl, hopens⟩
        · exact hplain
        · rwa [hsame]
        · exact absurd (unlocks_of_opens hopens) hfirst
      rw [afterBy_cons, run_actBy_of_isFaithful hrun hsober hfirst, after_cons]
      exact ih hplain hlater

/-- Elevated rights are never those of the session itself. They are kept only for a screen that has been
opened by the words which the password has just let run; a line that is not the password changes nothing
but the mode and the exit code; and as long as the password is not given, nothing is run with them. -/
theorem rights_come_by_the_password {o : SessionOptions} {adventure : Option Adventure}
    {store : Option ProgressStore} {resume : Bool} {now : Int}
    (hstart : start o adventure store resume now = .ok s) (inputs : List Input) :
    (s.after inputs).world.context.elevated = false ∧
    (∀ ctx, (s.after inputs).world.mode.context? = some ctx → ctx.elevated = true →
      s.Opened inputs) ∧
    (∀ text, (s.after inputs).world.mode.isPassword = true → withoutLineEnd text ≠ o.password →
      (left ((submit text).run (s.after inputs))).world = { (s.after inputs).world with
        mode := .normal
        environment := { (s.after inputs).world.environment with lastStatus := 1 } }) ∧
    (s.IsLocked inputs → ∀ run : Runner, run.IsFaithful → s.afterBy run inputs = s.after inputs) := by
  obtain ⟨tracker, w, -, hworld, hs⟩ := start_eq_ok_iff.1 hstart
  have hplain : s.world.mode.IsPlain := by
    rw [hs]
    dsimp only
    rw [mode_startWorld hworld]
    exact Mode.isPlain_normal
  have hoptions : (s.after inputs).options = o := by
    rw [(after_abides inputs).options, hs]
  refine ⟨(s.after inputs).world.elevated_context, fun ctx hctx helevated => ?_,
    fun text hasks hwrong => ?_, fun hlocked run hrun => afterBy_eq hrun hplain hlocked⟩
  · rcases after_isPlain_or_opened hplain inputs with hafter | hopened
    · rw [hafter ctx hctx] at helevated
      cases helevated
    · exact hopened
  · rw [← hoptions] at hwrong
    cases hmode : (s.after inputs).world.mode with
    | password line input said => exact world_submit_of_wrong hmode hwrong
    | normal => simp [hmode, Mode.isPassword] at hasks
    | collecting line marker lines => simp [hmode, Mode.isPassword] at hasks
    | confirming line warning ctx => simp [hmode, Mode.isPassword] at hasks
    | showing screen ctx command => simp [hmode, Mode.isPassword] at hasks

/-- A runner that runs nothing with elevated rights. -/
def refusing : Runner := fun ctx base input words =>
  if ctx.elevated then return .of {} else dispatch ctx base input words

theorem isFaithful_refusing : refusing.IsFaithful := by
  intro ctx base input words hctx
  rw [refusing, hctx, if_neg Bool.false_ne_true]

theorem editor_keeps_rights_by_the_password :
    start ⟨"ada", "lab", "secret", [], true, 0⟩ none none true 0 = .ok justBegun ∧
      (justBegun.after [.line "sudo nano notes", .line "secret"]).world.mode.context? =
        some ⟨"/home/ada", "ada", true⟩ ∧
      justBegun.Opened [.line "sudo nano notes", .line "secret"] ∧
      (justBegun.after [.line "sudo nano notes"]).world.mode.isPassword = true ∧
      withoutLineEnd "guess" ≠ "secret" ∧
      (left ((submit "guess").run (justBegun.after [.line "sudo nano notes"]))).world =
        { (justBegun.after [.line "sudo nano notes"]).world with
          mode := .normal
          environment := { (justBegun.after [.line "sudo nano notes"]).world.environment with
            lastStatus := 1 } } ∧
      justBegun.IsLocked [.line "sudo nano notes"] ∧
      justBegun.afterBy refusing [.line "sudo nano notes"] =
        justBegun.after [.line "sudo nano notes"] := by
  have hkept : (justBegun.after [.line "sudo nano notes", .line "secret"]).world.mode.context? =
      some ⟨"/home/ada", "ada", true⟩ := by decide +kernel
  have hasks : (justBegun.after [.line "sudo nano notes"]).world.mode.isPassword = true := by
    decide +kernel
  have hwrong : withoutLineEnd "guess" ≠ "secret" := by decide +kernel
  have hlocked : justBegun.IsLocked [.line "sudo nano notes"] :=
    ⟨fun h => absurd h.1 Bool.false_ne_true, trivial⟩
  obtain ⟨-, hopened, -, -⟩ :=
    rights_come_by_the_password start_justBegun [.line "sudo nano notes", .line "secret"]
  obtain ⟨-, -, hrefused, hsame⟩ :=
    rights_come_by_the_password start_justBegun [.line "sudo nano notes"]
  exact ⟨start_justBegun, hkept, hopened _ hkept rfl, hasks, hwrong, hrefused "guess" hasks hwrong,
    hlocked, hsame hlocked refusing isFaithful_refusing⟩

/-- A line is compared with the password without the line end that it ends with. -/
theorem password_with_line_end_is_taken :
    start ⟨"ada", "lab", "secret", [], true, 0⟩ none none true 0 = .ok justBegun ∧
      (justBegun.after [.line "sudo whoami"]).world.mode.isPassword = true ∧
      "secret\n" ≠ justBegun.options.password ∧
      (left ((submit "secret\n").run
        (justBegun.after [.line "sudo whoami"]))).world.environment.lastStatus = 0 :=
  ⟨start_justBegun, by decide +kernel, by decide, by decide +kernel⟩

end Session

end PracticeShell
