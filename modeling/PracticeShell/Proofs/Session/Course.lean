import PracticeShell.Proofs.Session.Advancing
import PracticeShell.Proofs.Session.Consenting
import PracticeShell.Proofs.Session.Modes
import PracticeShell.Proofs.Session.Remembering

/-!
# The course of a line

Whatever a line is for, most of what a session does with it is the same: files are written, tasks are
checked, the mode changes, and the journal notes asides, which are neither about a password nor about a
warning. What holds of all that (`Session.Accompanies`) holds of a whole line if it holds of the run of
its words. Only a warning breaks off the course of a command line, before any word is run
(`Session.submit_leads_or_asks`).

So a line that comes while the session waits for a password is checked once, whatever follows; no other
line, answer or question is ever checked as one (`Session.attempts_submit`).
-/

namespace PracticeShell

open Run

/-- Whether an activity is neither the check of a password nor about a warning. -/
def Activity.isAside : Activity → Bool
  | password _ | warning .. => false
  | _ => true

/-- Whether an activity is the check of a password. -/
def Activity.isAttempt : Activity → Bool
  | password _ => true
  | _ => false

/-- The warning that waits for an answer. -/
def Mode.warning? : Mode → Option Guard.Warning
  | confirming _ warning _ => some warning
  | _ => none

theorem Mode.eq_confirming_of_warning? {m : Mode} {warning : Guard.Warning}
    (h : m.warning? = some warning) : ∃ line ctx, m = .confirming line warning ctx := by
  cases m with
  | confirming line warning' ctx =>
      cases h
      exact ⟨line, ctx, rfl⟩
  | _ => cases h

namespace Session

/-- Whether a relation of earlier to later sessions holds of all that goes with the run of words. -/
structure Accompanies (R : Session → Session → Prop) : Prop where
  lasting : Lasting R
  progress : ∀ s tracker store, R s { s with tracker, store }
  aside : ∀ s added, (∀ a ∈ added, Activity.isAside a) → R s { s with journal := s.journal ++ added }
  files : ∀ s fs, R s { s with world := { s.world with fs } }
  history : ∀ s history, R s { s with world := { s.world with history } }
  status : ∀ s lastStatus,
    R s { s with world := { s.world with environment := { s.world.environment with lastStatus } } }
  mode : ∀ s mode, Mode.warning? mode = none → R s { s with world := { s.world with mode } }
  closing : ∀ s, R s { s with isClosed := true }

/-- The response to an input, if there is one. -/
def response? : Session × Input → Option Response
  | (s, .line text) =>
    match (submit text).run s with
    | .ok r _ => some r
    | .error _ _ => none
  | (s, .answer resolution) =>
    match (resolve resolution).run s with
    | .ok r _ => some r
    | .error _ _ => none
  | (s, .question text) =>
    match (ask text).run s with
    | .ok r _ => r
    | .error _ _ => none
  | _ => none

/-- A session that waits for a command line. -/
def ready (s : Session) : Session := { s with world := { s.world with mode := .normal } }

/-- A session that has held back a command line, and waits for the answer to the warning. -/
def warning (s : Session) (line : CommandLine) (warning : Guard.Warning) : Session :=
  { s with
    world := { s.world with mode := .confirming line warning s.world.context }
    journal := s.journal ++ [.warning warning.level .prompted] }

/-- A session that has checked a password. -/
def checking (s : Session) (text : String) : Session :=
  { s.ready with journal := s.journal ++ [.password (text = s.options.password)] }

/-- A session in which a warning has been answered. -/
def settling (s : Session) (level : Guard.Level) (settlement : Settlement) : Session :=
  { s.ready with journal := s.journal ++ [.warning level settlement] }

variable {R : Session → Session → Prop} {s : Session}

theorem activityOf_isAside (e : Event) : (activityOf e).isAside := by
  cases e <;> rfl

/-- A look at the files, and what is read from them, leaves the session as it is. -/
theorem look_same (base : Option String) : Leads Eq (step (Step.look base)) s := by
  rw [Leads, run_step, Step.look, run_get_bind]
  cases s.world.viewAt base <;> rfl

theorem readInput_same (line : CommandLine) (ctx : Context) (base otherwise : Option String) :
    Leads Eq (readInput line ctx base otherwise) s := by
  have hR : Lasting (Eq : Session → Session → Prop) := ⟨fun _ => rfl, Eq.trans⟩
  unfold readInput
  split
  · exact .bind hR (look_same base) fun _ t _ => .pure hR _ t
  · exact .pure hR _ s

/-- What a step leads to in the world of a session, it leads to in the session. -/
theorem step_leads_withWorld {α : Type} {operation : Step α}
    (h : Leads (fun w v => R { s with world := w } { s with world := v }) operation s.world) :
    Leads R (step operation) s := by
  rw [Leads] at h
  rw [Leads, run_step]
  cases hrun : operation.run s.world <;> rwa [hrun] at h

theorem dispatchOrGoBack_leads (hR : Lasting R) {line : CommandLine} {ctx : Context}
    {base input : Option String} (hline : Leads R (dispatch ctx base input line.words) s)
    (hback : Leads R
      (dispatch ctx base input ["cd", (s.world.environment.get? "OLDPWD").getD ""]) s) :
    Leads R (dispatchOrGoBack line ctx base input) s := by
  refine .get_bind (.ite (fun _ => ?_) fun _ => hline)
  refine .bind hR hback fun r t _ => ?_
  exact .ite (fun _ => .pure hR _ t) fun _ => .pure hR _ t

namespace Accompanies

variable (hR : Accompanies R)

include hR

theorem writes (s : Session) :
    World.Writes fun w v => R { s with world := w } { s with world := v } where
  lasting := ⟨fun _ => hR.lasting.refl _, fun h h' => hR.lasting.trans h h'⟩
  files w fs := hR.files { s with world := w } fs

/-- What comes of a look goes on from the same session. -/
theorem same_bind {α β : Type} {x : Action α} {f : α → Action β} (hx : Leads Eq x s)
    (hf : ∀ a, x.run s = .ok a s → Leads R (f a) s) : Leads R (x >>= f) s := by
  refine .bind hR.lasting (hx.weaken fun h => h ▸ hR.lasting.refl s) fun a t hrun => ?_
  obtain rfl : s = t := hx.of_run hrun
  exact hf a hrun

theorem note_leads {a : Activity} (h : a.isAside) : Leads R (note a) s :=
  .modify (hR.aside s [a] (by simpa using h))

theorem setMode_leads {mode : Mode} (h : mode.warning? = none) : Leads R (setMode mode) s :=
  .modify (hR.mode s mode h)

theorem onView_leads {α : Type} (base : Option String) (operation : StateM FileSystem α) :
    Leads R (step (Step.onView base operation)) s :=
  step_leads_withWorld (Step.onView_leads (hR.writes s) operation)

theorem closeScreen_leads (screen : Screen) (resolution : Resolution) (ctx : Context)
    (base : Option String) : Leads R (step (Screens.close screen resolution ctx base)) s :=
  step_leads_withWorld (Screens.close_leads (hR.writes s) screen resolution ctx)

theorem saveProgress_leads : Leads R saveProgress s := by
  refine .get_bind (.get_bind ?_)
  split
  · refine .get_bind ?_
    split
    · exact .modify (hR.progress s s.tracker _)
    · exact .throw hR.lasting _ s
  · exact .pure hR.lasting _ s

theorem checkTasks_leads (line : String) (o : Outcome) : Leads R (checkTasks line o) s := by
  refine .get_bind ?_
  cases s.tracker with
  | none => exact .pure hR.lasting _ s
  | some t =>
      refine .bind hR.lasting (.set ?_) fun _ u _ => ?_
      · refine hR.lasting.trans (hR.progress s (some (t.record (s.observe line o)).2) s.store)
          (hR.aside _ _ fun a ha => ?_)
        obtain ⟨c, -, rfl⟩ := List.mem_map.1 ha
        rfl
      · split
        · exact .throw hR.lasting _ u
        · refine .bind hR.lasting (.modify (hR.aside u _ fun a ha => ?_)) fun _ v _ => ?_
          · obtain ⟨e, -, rfl⟩ := List.mem_map.1 ha
            exact activityOf_isAside e
          · refine .ite (fun _ => ?_) fun _ => .pure hR.lasting _ v
            exact .bind hR.lasting hR.saveProgress_leads fun _ x _ => .pure hR.lasting _ x

theorem finish_leads (line : String) (o : Outcome) (intent : Option Intent) (leaves : Bool) :
    Leads R (finish line o intent leaves) s := by
  refine .bind hR.lasting (.modify (hR.status s _)) fun _ t _ => ?_
  refine .bind hR.lasting (hR.note_leads rfl) fun _ u _ => ?_
  exact .bind hR.lasting (hR.checkTasks_leads line o) fun _ v _ => .get_bind (.pure hR.lasting _ v)

theorem awaitPassword_leads (line : CommandLine) (o : Outcome) (input said : Option String) :
    Leads R (awaitPassword line o input said) s :=
  .bind hR.lasting (hR.setMode_leads rfl) fun _ t _ => hR.lasting.refl t

theorem complete_leads (line : CommandLine) (r : Dispatch.Result) (runner writer : Context)
    (base said : Option String) : Leads R (complete line r runner writer base said) s := by
  unfold complete
  cases r.screen with
  | none => exact .bind hR.lasting (hR.onView_leads _ _) fun o t _ => hR.finish_leads _ _ _ _
  | some screen =>
      refine .bind hR.lasting (hR.setMode_leads rfl) fun _ t _ => ?_
      exact .bind hR.lasting (hR.onView_leads _ _) fun o u _ => hR.finish_leads _ _ _ _

/-- What follows the run of the words of a line. -/
theorem dispatched_leads {line : CommandLine} {action : Action Dispatch.Result}
    (h : Leads R action s) (ctx : Context) (base input said : Option String) :
    Leads R (do
      let r ← action
      if r.outcome.needsPassword then awaitPassword line r.outcome input said
      else complete line r ctx ctx base said) s := by
  refine .bind hR.lasting h fun r t _ => ?_
  exact .ite (fun _ => hR.awaitPassword_leads _ _ _ _) fun _ => hR.complete_leads _ _ _ _ _ _

theorem runLine_leads {line : CommandLine} {ctx : Context}
    (h : ∀ base input, Leads R (dispatchOrGoBack line ctx base input) s) :
    Leads R (runLine line ctx) s := by
  unfold runLine
  split
  · exact .bind hR.lasting (hR.setMode_leads rfl) fun _ t _ => hR.lasting.refl t
  · refine .get_bind (hR.same_bind (look_same _) fun _ _ => ?_)
    refine hR.same_bind (readInput_same _ _ _ _) fun answer _ => ?_
    cases answer with
    | error problem => exact hR.finish_leads _ _ _ _
    | ok input =>
        refine .get_bind (.ite (fun _ => hR.finish_leads _ _ _ _) fun _ => ?_)
        exact hR.dispatched_leads (h _ _) _ _ _ _

/-- A command line has its words run in the session that remembers it, or is held back by a warning. -/
theorem submit_leads_or_warns {text : String} (hmode : s.world.mode = .normal)
    (h : ∀ expanded line, s.read? text = some (expanded, line) → ∀ base input,
      Leads R (dispatchOrGoBack line s.world.context base input) (s.remembering line.text)) :
    Leads R (submit text) s ∨ ∃ line warning, ∃ r : Response,
      (submit text).run s = .ok r ((s.remembering line.text).warning line warning) := by
  cases hread : s.read? text with
  | none =>
      refine .inl ?_
      rcases run_submit_of_not_read hread hmode with hrun | ⟨o, hrun⟩
      · rw [Leads, hrun]
        exact hR.lasting.refl s
      · rw [Leads, hrun]
        exact hR.lasting.trans (hR.history s _) (hR.finish_leads _ _ _ _)
  | some read =>
      obtain ⟨expanded, line⟩ := read
      have hrun := run_submit_of_read hread hmode
      have hsame := guard_same (s := s.remembering line.text) expanded s.world.context
      cases hguard : (guard expanded s.world.context).run (s.remembering line.text) with
      | error e t =>
          obtain rfl : s.remembering line.text = t := by rwa [Leads, hguard] at hsame
          rw [EStateM.run_bind, hguard] at hrun
          refine .inl ?_
          rw [Leads, hrun]
          exact hR.history s _
      | ok answer t =>
          obtain rfl : s.remembering line.text = t := hsame.of_run hguard
          rw [run_bind_of_ok hguard] at hrun
          cases answer with
          | some warning => exact .inr ⟨line, warning, _, hrun⟩
          | none =>
              refine .inl ?_
              rw [Leads, hrun]
              exact hR.lasting.trans (hR.history s _) (hR.runLine_leads (h expanded line hread))

theorem submitInput_leads {text : String} {line : CommandLine} {marker : String}
    {lines : List String} (h : text = marker → ∀ base input,
      Leads R (dispatch s.world.context base input line.words) s.ready) :
    Leads R (submitInput text line marker lines) s := by
  refine .ite (fun _ => ?_) fun hmarker => ?_
  · exact .bind hR.lasting (hR.setMode_leads rfl) fun _ t _ => hR.lasting.refl t
  · refine hR.lasting.trans (hR.mode s .normal rfl) ?_
    refine hR.same_bind (look_same _) fun _ _ => ?_
    exact hR.dispatched_leads (h (not_not.1 hmarker) _ _) _ _ _ _

/-- What follows the check of a password. -/
theorem submitPassword_leads {text : String} {line : CommandLine} {input said : Option String}
    (h : text = s.options.password → ∀ base input,
      Leads R (dispatch s.world.context.elevate base input line.words) (s.checking text)) :
    R (s.checking text) (left ((submitPassword text line input said).run s)) := by
  unfold submitPassword
  change R _ (left (EStateM.run (if text ≠ s.options.password then _ else _) s.ready))
  by_cases hpassword : text = s.options.password
  · have hchecked : s.checking text = { s.ready with journal := s.journal ++ [.password true] } := by
      rw [checking, decide_eq_true hpassword]
    have hruns := h hpassword
    rw [hchecked] at hruns ⊢
    rw [if_neg (not_not.2 hpassword)]
    refine hR.same_bind (look_same _) fun _ _ => ?_
    refine hR.same_bind (readInput_same _ _ _ _) fun answer _ => ?_
    cases answer with
    | error problem => exact hR.finish_leads _ _ _ _
    | ok input =>
        exact .bind hR.lasting (hruns _ _) fun r t _ => hR.complete_leads _ _ _ _ _ _
  · have hchecked : s.checking text = { s.ready with journal := s.journal ++ [.password false] } := by
      rw [checking, decide_eq_false hpassword]
    rw [hchecked, if_pos hpassword]
    exact hR.finish_leads _ _ _ _

/-- What follows the answer to a warning. -/
theorem resolve_leads_of_confirming {line : CommandLine} {warning : Guard.Warning} {ctx : Context}
    {resolution : Resolution} (hmode : s.world.mode = .confirming line warning ctx)
    (h : resolution = .confirmed → ∀ base input,
      Leads R (dispatchOrGoBack line ctx base input) (s.settling warning.level .confirmed)) :
    R (s.settling warning.level (if resolution = .confirmed then .confirmed else .cancelled))
      (left ((resolve resolution).run s)) := by
  rw [run_resolve_of_confirming hmode]
  by_cases hconfirmed : resolution = .confirmed
  · rw [if_pos hconfirmed, if_pos hconfirmed]
    exact hR.runLine_leads (h hconfirmed)
  · rw [if_neg hconfirmed, if_neg hconfirmed]
    exact hR.lasting.refl _

/-- An answer that no warning waits for runs no words. -/
theorem resolve_leads (resolution : Resolution) (hmode : s.world.mode.warning? = none) :
    Leads R (resolve resolution) s := by
  refine .get_bind ?_
  cases hcase : s.world.mode with
  | confirming line warning ctx => simp [hcase, Mode.warning?] at hmode
  | showing screen ctx command =>
      refine .bind hR.lasting (hR.setMode_leads rfl) fun _ t _ => .get_bind ?_
      exact .bind hR.lasting (hR.closeScreen_leads _ _ _ _) fun o u _ => hR.finish_leads _ _ _ _
  | normal => exact hR.lasting.refl s
  | collecting line marker lines => exact hR.lasting.refl s
  | password line input said => exact hR.lasting.refl s

theorem hint_leads (level : Int) : Leads R (hint level) s := by
  refine .get_bind ?_
  cases s.tracker with
  | none => exact .pure hR.lasting _ s
  | some t =>
      refine .bind hR.lasting (.set (hR.progress s _ s.store)) fun _ u _ => ?_
      refine .ite (fun _ => ?_) fun _ => .pure hR.lasting _ u
      refine .bind hR.lasting (hR.note_leads rfl) fun _ v _ => ?_
      exact .bind hR.lasting hR.saveProgress_leads fun _ x _ => .pure hR.lasting _ x

theorem answer_leads {question : Question} (h : question ≠ .reset) :
    Leads R (answer question) s := by
  have hhint : ∀ level, Leads R (answerHint level) s := fun level =>
    .bind hR.lasting (hR.hint_leads level) fun _ t _ => hR.lasting.refl t
  cases question with
  | hint level =>
      cases level with
      | none => exact hhint 1
      | some level =>
          refine .ite (fun _ => hR.lasting.refl s) fun _ => ?_
          split
          · exact hR.lasting.refl s
          · exact hhint _
  | reset => exact absurd rfl h
  | task => exact hR.lasting.refl s
  | progress => exact hR.lasting.refl s
  | quit => exact hR.lasting.refl s
  | unknown name => exact hR.lasting.refl s

/-- A question that does not start over. -/
theorem ask_leads {text : String} (h : ¬ StartsOver (s, .question text)) :
    Leads R (ask text) s := by
  refine .get_bind ?_
  split
  · rename_i question hmode hread
    refine .bind hR.lasting (hR.answer_leads ?_) fun _ t _ => hR.lasting.refl t
    rintro rfl
    exact h ⟨hmode, hread⟩
  · exact hR.lasting.refl s

theorem close_leads : Leads R close s := by
  refine .get_bind (.ite (fun _ => .pure hR.lasting _ s) fun _ => ?_)
  refine .bind hR.lasting (.modify (hR.closing s)) fun _ t _ => ?_
  exact .bind hR.lasting hR.saveProgress_leads fun _ u _ => .get_bind (hR.note_leads rfl)

end Accompanies

/-- Whether a session goes on with no password checked, and no warning given or answered. -/
structure CarriesOn (s t : Session) : Prop where
  journal : ∃ added, t.journal = s.journal ++ added ∧ ∀ a ∈ added, Activity.isAside a
  mode : t.world.mode = s.world.mode ∨ t.world.mode.warning? = none

/-- A session that has heeded an input: a password is checked, and a warning is answered. -/
def heeding (s : Session) : Input → Session
  | .line text =>
    match s.world.mode with
    | .password .. => s.checking (withoutLineEnd text)
    | _ => s
  | .answer resolution =>
    match s.world.mode with
    | .confirming _ warning _ =>
      s.settling warning.level (if resolution = .confirmed then .confirmed else .cancelled)
    | _ => s
  | _ => s

theorem CarriesOn.of_same {t : Session} (hjournal : t.journal = s.journal)
    (hmode : t.world.mode = s.world.mode) : CarriesOn s t :=
  ⟨⟨[], by simp [hjournal]⟩, .inl hmode⟩

theorem lasting_carriesOn : Lasting CarriesOn where
  refl _ := .of_same rfl rfl
  trans := by
    rintro s t u ⟨⟨added, hadded, haside⟩, hmode⟩ ⟨⟨more, hmore, haside'⟩, hmode'⟩
    refine ⟨⟨added ++ more, by rw [hmore, hadded, List.append_assoc], fun a ha => ?_⟩, ?_⟩
    · exact (List.mem_append.1 ha).elim (haside a) (haside' a)
    · rcases hmode' with hsame | hnone
      · rwa [hsame]
      · exact .inr hnone

theorem accompanies_carriesOn : Accompanies CarriesOn where
  lasting := lasting_carriesOn
  progress _ _ _ := .of_same rfl rfl
  aside _ added h := ⟨⟨added, rfl, h⟩, .inl rfl⟩
  files _ _ := .of_same rfl rfl
  history _ _ := .of_same rfl rfl
  status _ _ := .of_same rfl rfl
  mode _ _ h := ⟨⟨[], by simp⟩, .inr h⟩
  closing _ := .of_same rfl rfl

theorem dispatch_carriesOn (ctx : Context) (base input : Option String) (words : List String) :
    Leads CarriesOn (dispatch ctx base input words) s :=
  .get_bind (step_leads_withWorld ((Dispatch.run_leads World.changes_keepsMode).weaken
    fun h => .of_same rfl h))

theorem dispatchOrGoBack_carriesOn (line : CommandLine) (ctx : Context)
    (base input : Option String) : Leads CarriesOn (dispatchOrGoBack line ctx base input) s :=
  dispatchOrGoBack_leads lasting_carriesOn (dispatch_carriesOn _ _ _ _) (dispatch_carriesOn _ _ _ _)

/-- A session that starts over carries on as well, but no longer waits for the answer to a warning. -/
theorem reset_carriesOn : Leads CarriesOn reset s := by
  cases hstart : startWorld s.options s.adventure? s.world.now with
  | error e =>
      rw [Leads, reset, run_get_bind, hstart]
      exact lasting_carriesOn.refl s
  | ok w =>
      rw [Leads, run_reset hstart]
      refine ⟨⟨[.reset], rfl, by simp [Activity.isAside]⟩, .inr ?_⟩
      rw [left_ok, mode_startWorld hstart]
      rfl

theorem ask_carriesOn (text : String) : Leads CarriesOn (ask text) s := by
  by_cases hreset : StartsOver (s, .question text)
  · obtain ⟨hmode, hread⟩ := hreset
    refine .get_bind ?_
    rw [hmode, hread]
    refine .bind lasting_carriesOn ?_ fun _ t _ => lasting_carriesOn.refl t
    exact .bind lasting_carriesOn reset_carriesOn fun _ t _ => lasting_carriesOn.refl t
  · exact accompanies_carriesOn.ask_leads hreset

theorem next_eq_submit (s : Session) (text : String) :
    s.next (.line text) = left ((submit text).run s) := left_discard _ _

/-- A response to a line comes with what the line leaves behind. -/
theorem run_submit_of_response? {text : String} {r : Response}
    (h : response? (s, .line text) = some r) : (submit text).run s = .ok r (s.next (.line text)) := by
  rw [next_eq_submit]
  unfold response? at h
  dsimp only at h
  split at h
  · rename_i hrun
    cases h
    rw [hrun, left_ok]
  · cases h

theorem next_eq_resolve (s : Session) (resolution : Resolution) :
    s.next (.answer resolution) = left ((resolve resolution).run s) := left_discard _ _

theorem next_eq_ask (s : Session) (text : String) :
    s.next (.question text) = left ((ask text).run s) := left_discard _ _

theorem heeding_line_of_plain (h : s.world.mode.isPassword = false) (text : String) :
    s.heeding (.line text) = s := by
  unfold heeding
  cases hmode : s.world.mode <;> simp [hmode, Mode.isPassword] at h ⊢

theorem heeding_line_of_password (h : s.world.mode.isPassword = true) (text : String) :
    s.heeding (.line text) = s.checking (withoutLineEnd text) := by
  unfold heeding
  cases hmode : s.world.mode <;> simp [hmode, Mode.isPassword] at h ⊢

theorem heeding_answer_of_none (h : s.world.mode.warning? = none) (resolution : Resolution) :
    s.heeding (.answer resolution) = s := by
  unfold heeding
  cases hmode : s.world.mode <;> simp [hmode, Mode.warning?] at h ⊢

theorem heeding_answer_of_some {warning : Guard.Warning} (h : s.world.mode.warning? = some warning)
    (resolution : Resolution) : s.heeding (.answer resolution) = s.settling warning.level
      (if resolution = .confirmed then .confirmed else .cancelled) := by
  unfold heeding
  cases hmode : s.world.mode <;> simp [hmode, Mode.warning?] at h ⊢
  rw [h]

theorem submit_carriesOn (text : String) :
    CarriesOn (s.heeding (.line text)) (left ((submit text).run s)) ∨
      ∃ line warning, s.world.mode = .normal ∧
        left ((submit text).run s) = (s.remembering line.text).warning line warning := by
  have hR := accompanies_carriesOn
  cases hmode : s.world.mode with
  | normal =>
      rw [heeding_line_of_plain (by rw [hmode]; rfl)]
      rcases hR.submit_leads_or_warns hmode fun _ _ _ _ _ => dispatchOrGoBack_carriesOn _ _ _ _ with
        hcarries | ⟨line, warning, r, hrun⟩
      · exact .inl hcarries
      · exact .inr ⟨line, warning, rfl, by rw [hrun]; rfl⟩
  | collecting line marker lines =>
      rw [heeding_line_of_plain (by rw [hmode]; rfl), run_submit_collecting hmode]
      exact .inl (hR.submitInput_leads fun _ _ _ => dispatch_carriesOn _ _ _ _)
  | password line input said =>
      rw [heeding_line_of_password (by rw [hmode]; rfl), run_submit_password hmode]
      exact .inl (hR.submitPassword_leads fun _ _ _ => dispatch_carriesOn _ _ _ _)
  | confirming line warning ctx =>
      rw [heeding_line_of_plain (by rw [hmode]; rfl), submit, run_get_bind, hmode]
      exact .inl (lasting_carriesOn.refl s)
  | showing screen ctx command =>
      rw [heeding_line_of_plain (by rw [hmode]; rfl), submit, run_get_bind, hmode]
      exact .inl (lasting_carriesOn.refl s)

theorem resolve_carriesOn (resolution : Resolution) :
    CarriesOn (s.heeding (.answer resolution)) (left ((resolve resolution).run s)) := by
  cases hwarning : s.world.mode.warning? with
  | none =>
      rw [heeding_answer_of_none hwarning]
      exact accompanies_carriesOn.resolve_leads resolution hwarning
  | some warning =>
      rw [heeding_answer_of_some hwarning]
      obtain ⟨line, ctx, hmode⟩ := Mode.eq_confirming_of_warning? hwarning
      exact accompanies_carriesOn.resolve_leads_of_confirming hmode fun _ _ _ =>
        dispatchOrGoBack_carriesOn _ _ _ _

/-- With every input that it heeds, a session carries on, or it holds back a command line. -/
theorem next_carriesOn_or_warns (i : Input) : CarriesOn (s.heeding i) (s.next i) ∨
    ∃ line warning, s.world.mode = .normal ∧
      s.next i = (s.remembering line.text).warning line warning := by
  have hR := accompanies_carriesOn
  cases i with
  | line text =>
      rw [next_eq_submit]
      exact submit_carriesOn text
  | answer resolution =>
      rw [next_eq_resolve]
      exact .inl (resolve_carriesOn resolution)
  | question text =>
      rw [next_eq_ask]
      exact .inl (ask_carriesOn text)
  | hint level =>
      rw [next, Input.act, left_discard]
      exact .inl (hR.hint_leads level)
  | reset => exact .inl reset_carriesOn
  | close => exact .inl hR.close_leads
  | tick seconds => exact .inl (hR.files s _)

/-- A session that still waits for the answer to a warning has not been given one. -/
theorem heeding_of_waits {i : Input} (hwaits : (s.heeding i).world.mode.warning?.isSome) :
    s.heeding i = s ∧ ∀ resolution, i ≠ .answer resolution := by
  cases i with
  | line text =>
      cases hpassword : s.world.mode.isPassword with
      | false => exact ⟨heeding_line_of_plain hpassword text, nofun⟩
      | true =>
          rw [heeding_line_of_password hpassword] at hwaits
          cases hwaits
  | answer resolution =>
      cases hwarning : s.world.mode.warning? with
      | none =>
          rw [heeding_answer_of_none hwarning, hwarning] at hwaits
          cases hwaits
      | some warning =>
          rw [heeding_answer_of_some hwarning] at hwaits
          cases hwaits
  | _ => exact ⟨rfl, nofun⟩

/-- While a warning waits, no other input than an answer changes more of the world than its time, unless
it starts over. -/
theorem next_of_waits (hwaits : s.world.mode.warning?.isSome) {i : Input}
    (hanswer : ∀ resolution, i ≠ .answer resolution) (h : ¬ StartsOver (s, i)) :
    ∃ fs, (s.next i).world = { s.world with fs } := by
  cases i with
  | line text =>
      obtain ⟨warning, hwarning⟩ := Option.isSome_iff_exists.1 hwaits
      obtain ⟨line, ctx, hmode⟩ := Mode.eq_confirming_of_warning? hwarning
      rw [next_eq_submit]
      exact ⟨_, (submit_rests_of_intent? (by rw [intent?, hmode]; rfl)).world⟩
  | answer resolution => exact absurd rfl (hanswer resolution)
  | question text =>
      rw [next_eq_ask]
      exact ⟨_, (ask_rests_of_goesOn h).world⟩
  | hint level =>
      rw [next, Input.act, left_discard]
      exact ⟨_, (hint_rests level).world⟩
  | reset => exact absurd trivial h
  | close => exact ⟨_, close_rests.world⟩
  | tick seconds => exact ⟨_, rfl⟩

/-! ### Passwords that are checked -/

/-- How many passwords have been checked. -/
def attempts (s : Session) : Nat := s.journal.countP Activity.isAttempt

/-- Whether no further password has been checked. -/
def ChecksNone (s t : Session) : Prop := t.attempts = s.attempts

variable {s : Session}

theorem lasting_checksNone : Lasting ChecksNone := ⟨fun _ => rfl, fun h h' => h'.trans h⟩

theorem attempts_append (s : Session) (added : Journal) :
    attempts { s with journal := s.journal ++ added } =
      s.attempts + added.countP Activity.isAttempt := List.countP_append

theorem CarriesOn.checksNone {t : Session} (h : CarriesOn s t) : ChecksNone s t := by
  obtain ⟨added, hadded, haside⟩ := h.journal
  have hnone : added.countP Activity.isAttempt = 0 := by
    refine List.countP_eq_zero.2 fun a ha => ?_
    have haside := haside a ha
    cases a <;> simp_all [Activity.isAside, Activity.isAttempt]
  rw [ChecksNone, attempts, hadded, List.countP_append, hnone]
  rfl

theorem attempts_checking (s : Session) (text : String) :
    (s.checking text).attempts = s.attempts + 1 := attempts_append s _

/-- A line is checked as a password once if the session waits for one, and never otherwise. -/
theorem attempts_submit (text : String) : (left ((submit text).run s)).attempts =
    s.attempts + if s.world.mode.isPassword then 1 else 0 := by
  rcases submit_carriesOn text with hcarries | ⟨line, warning, hmode, hleft⟩
  · rw [hcarries.checksNone]
    cases hpassword : s.world.mode.isPassword with
    | false => rw [heeding_line_of_plain hpassword]; rfl
    | true => rw [heeding_line_of_password hpassword, attempts_checking]; rfl
  · rw [hleft, hmode]
    exact attempts_append _ _

theorem resolve_checksNone (resolution : Resolution) :
    Leads ChecksNone (resolve resolution) s := by
  have hcarries := (resolve_carriesOn (s := s) resolution).checksNone
  cases hwarning : s.world.mode.warning? with
  | none => rwa [heeding_answer_of_none hwarning] at hcarries
  | some warning =>
      rw [heeding_answer_of_some hwarning] at hcarries
      have hsettled : ChecksNone s (s.settling warning.level
        (if resolution = .confirmed then .confirmed else .cancelled)) := attempts_append s _
      exact lasting_checksNone.trans hsettled hcarries

theorem ask_checksNone (text : String) : Leads ChecksNone (ask text) s :=
  (ask_carriesOn text).weaken CarriesOn.checksNone

end Session

end PracticeShell
