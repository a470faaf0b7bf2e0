import PracticeShell.Proofs.Session.Advancing
import PracticeShell.Proofs.Session.Confirming
import PracticeShell.Proofs.Session.Modes
import PracticeShell.Proofs.Session.Starting

/-!
# What responses tell of the mode

A response is made by hand wherever a line ends, while the mode is set elsewhere. `Response.Tells` says
that the two agree: a response asks for a hidden line exactly if the session waits for a password, shows
the intent that the session waits for and no other, and ends with the prompt of the session. This holds
of every response to a line, a question, or an answer that was waited for.
-/

namespace PracticeShell

open Run

/-- Whether a response tells how a session waits for the next line. -/
structure Response.Tells (r : Response) (s : Session) : Prop where
  masked : r.masked = s.world.mode.isPassword
  intent : r.intent = s.intent?
  prompt : r.prompt = s.prompt

/-- Who has to close or confirm something is not asked for a password. -/
theorem Mode.isPassword_of_intent? {m : Mode} (h : m.intent?.isSome) : m.isPassword = false := by
  cases m with
  | password line input said => cases h
  | normal => rfl
  | collecting line marker lines => rfl
  | confirming line warning ctx => rfl
  | showing screen ctx command => rfl

namespace Session

/-- Whether a response, if there is one, tells how the session waits then. -/
def Told (x : Action Response) (s : Session) : Prop := ∀ r t, x.run s = .ok r t → r.Tells t

variable {s : Session}

namespace Told

theorem bind {α : Type} {x : Action α} {f : α → Action Response}
    (h : ∀ a t, x.run s = .ok a t → Told (f a) t) : Told (x >>= f) s := by
  intro r u hrun
  obtain ⟨a, t, hfirst, hlater⟩ := run_bind_eq_ok_iff.1 hrun
  exact h a t hfirst r u hlater

theorem ite {c : Prop} [Decidable c] {x y : Action Response} (hx : c → Told x s)
    (hy : ¬ c → Told y s) : Told (if c then x else y) s := by
  by_cases hc : c
  · rw [if_pos hc]
    exact hx hc
  · rw [if_neg hc]
    exact hy hc

theorem get_bind {f : Session → Action Response} (h : Told (f s) s) : Told (get >>= f) s := h

theorem modify_bind {g : Session → Session} {f : PUnit → Action Response}
    (h : Told (f ⟨⟩) (g s)) : Told (modify g >>= f) s := h

end Told

theorem run_respond (make : String → Response) (s : Session) :
    (respond make).run s = .ok (make s.prompt) s := rfl

theorem respond_told {make : String → Response} (h : (make s.prompt).Tells s) :
    Told (respond make) s := by
  intro r t hrun
  rw [run_respond] at hrun
  cases hrun
  exact h

theorem pure_told {r : Response} (h : r.Tells s) : Told (pure r) s := by
  intro r' t hrun
  cases hrun
  exact h

/-- A plain response fits a session that waits for a command line. -/
theorem tells_of_normal (hmode : s.world.mode = .normal) {r : Response} (hmasked : r.masked = false)
    (hintent : r.intent = none) (hprompt : r.prompt = s.prompt) : r.Tells s where
  masked := by rw [hmasked, hmode]; rfl
  intent := by rw [hintent, intent?, hmode]; rfl
  prompt := hprompt

theorem finish_told {line : String} {o : Outcome} {intent : Option Intent} {leaves : Bool}
    (hmode : s.world.mode.isPassword = false) (hintent : s.intent? = intent) :
    Told (finish line o intent leaves) s := by
  refine .modify_bind (.modify_bind (.bind fun events t hchecked => ?_))
  have hworld := ((checkTasks_rests line o).of_run hchecked).world
  have hkept : t.world.mode = s.world.mode := by rw [hworld]
  have hpending : t.intent? = s.intent? := by rw [intent?, intent?, hkept]
  exact respond_told ⟨by rw [hkept, hmode], by rw [hpending, hintent], rfl⟩

theorem awaitPassword_told (line : CommandLine) (o : Outcome) (input said : Option String) :
    Told (awaitPassword line o input said) s :=
  .modify_bind (respond_told ⟨rfl, rfl, rfl⟩)

section Commands

variable (hmode : s.world.mode = .normal)

include hmode

theorem finish_told_of_normal (line : String) (o : Outcome) (leaves : Bool) :
    Told (finish line o none leaves) s :=
  finish_told (by rw [hmode]; rfl) (by rw [intent?, hmode]; rfl)

/-- The response to a command shows the screen that the command has opened. -/
theorem complete_told (line : CommandLine) (r : Dispatch.Result) (runner writer : Context)
    (base said : Option String) : Told (complete line r runner writer base said) s := by
  have hkeeps : ∀ {t u : Session} {o o' : Outcome}, (step (Step.onView base
      (line.redirection.applyTo writer o said))).run t = .ok o' u → u.world.mode = t.world.mode :=
    fun hrun => (step_leads (Step.onView_leads World.changes_keepsMode.writes _)).of_run hrun
  unfold complete
  cases r.screen with
  | none =>
      refine .bind fun o u hrun => ?_
      exact finish_told_of_normal ((hkeeps hrun).trans hmode) _ _ _
  | some screen =>
      refine .modify_bind (.bind fun o u hrun => ?_)
      have hshowing : u.world.mode = .showing screen runner line.text := hkeeps hrun
      exact finish_told (by rw [hshowing]; rfl) (by rw [intent?, hshowing]; rfl)

/-- What follows the run of the words of a line. -/
theorem dispatched_told {line : CommandLine} {action : Action Dispatch.Result}
    (hkeeps : Leads KeepsMode action s) (ctx : Context) (base input said : Option String) :
    Told (do
      let r ← action
      if r.outcome.needsPassword then awaitPassword line r.outcome input said
      else complete line r ctx ctx base said) s := by
  refine .bind fun r t hrun => .ite (fun _ => awaitPassword_told _ _ _ _) fun _ => ?_
  exact complete_told ((hkeeps.of_run hrun).trans hmode) _ _ _ _ _ _

theorem runLine_told (line : CommandLine) (ctx : Context) : Told (runLine line ctx) s := by
  unfold runLine
  split
  · exact .modify_bind (respond_told ⟨rfl, rfl, rfl⟩)
  · refine .get_bind (.bind fun _ t hlook => .bind fun answer u hread => ?_)
    have hworld : u.world = s.world := by
      rw [((readInput_rests line ctx _ none).of_run hread).world,
        ((look_rests _).of_run hlook).world]
    rw [← hworld] at hmode
    cases answer with
    | error problem => exact finish_told_of_normal hmode _ _ _
    | ok input =>
        refine .get_bind (.ite (fun _ => finish_told_of_normal hmode _ _ _) fun _ => ?_)
        exact dispatched_told hmode (dispatchOrGoBack_keepsMode line ctx _ input) ctx _ _ _

theorem submitCommand_told (text : String) : Told (submitCommand text) s := by
  unfold submitCommand
  refine .ite (fun _ => ?_) fun _ => .modify_bind (.get_bind ?_)
  · exact respond_told (tells_of_normal hmode rfl rfl rfl)
  · have hnoted : (s.remembering (Text.Blank.trim text)).world.mode = .normal := hmode
    dsimp only
    split
    · exact finish_told_of_normal hnoted _ _ _
    · refine .ite (fun _ => finish_told_of_normal hnoted _ _ _) fun _ => .get_bind ?_
      refine .bind fun warning t hguard => ?_
      have hworld := ((guard_rests _ _).of_run hguard).world
      cases warning with
      | some warning => exact .modify_bind (.modify_bind (respond_told ⟨rfl, rfl, rfl⟩))
      | none =>
          refine runLine_told ?_ _ _
          rw [hworld]
          exact hmode

end Commands

/-- After a password, right or wrong, the session does not wait for another. -/
theorem submitPassword_told (text : String) (line : CommandLine) (input said : Option String) :
    Told (submitPassword text line input said) s := by
  refine .modify_bind (.get_bind (.ite (fun _ => .modify_bind ?_) fun _ => .modify_bind ?_))
  · exact finish_told_of_normal rfl _ _ _
  · refine .bind fun _ t hlook => .bind fun answer u hread => ?_
    have hmode : u.world.mode = .normal := by
      rw [((readInput_rests line _ _ input).of_run hread).world, ((look_rests _).of_run hlook).world]
    cases answer with
    | error problem => exact finish_told_of_normal hmode _ _ _
    | ok input =>
        refine .bind fun r v hrun => complete_told ?_ _ _ _ _ _ _
        exact ((dispatch_keepsMode _ _ _ _).of_run hrun).trans hmode

theorem submitInput_told (text : String) (line : CommandLine) (marker : String)
    (lines : List String) : Told (submitInput text line marker lines) s := by
  refine .ite (fun _ => .modify_bind (respond_told ⟨rfl, rfl, rfl⟩)) fun _ =>
    .modify_bind (.get_bind (.bind fun _ t hlook => ?_))
  have hmode : t.world.mode = .normal := by rw [((look_rests _).of_run hlook).world]
  exact dispatched_told hmode (dispatch_keepsMode _ _ _ _) _ _ _ _

/-- The response to a line tells how the session waits for the next one. -/
theorem submit_told (text : String) : Told (submit text) s := by
  refine .get_bind ?_
  cases hmode : s.world.mode with
  | password line input said => exact submitPassword_told _ _ _ _
  | collecting line marker lines => exact submitInput_told _ _ _ _
  | normal => exact submitCommand_told hmode _
  | confirming line warning ctx => exact pure_told ⟨by rw [hmode]; rfl, rfl, rfl⟩
  | showing screen ctx command => exact pure_told ⟨by rw [hmode]; rfl, rfl, rfl⟩

/-- The response to an answer that was waited for tells how the session waits then. -/
theorem resolve_told (h : s.intent?.isSome) (resolution : Resolution) :
    Told (resolve resolution) s := by
  refine .get_bind ?_
  cases hmode : s.world.mode with
  | confirming line warning ctx =>
      refine .modify_bind (.ite (fun _ => .modify_bind ?_) fun _ => .modify_bind ?_)
      · exact runLine_told rfl _ _
      · exact respond_told ⟨rfl, rfl, rfl⟩
  | showing screen ctx command =>
      refine .modify_bind (.get_bind (.bind fun o t hclosed => ?_))
      have hkept := (step_leads (Screens.close_leads World.changes_keepsMode.writes screen resolution
        ctx)).of_run hclosed
      exact finish_told_of_normal hkept _ _ _
  | normal => simp [intent?, hmode, Mode.intent?] at h
  | collecting line marker lines => simp [intent?, hmode, Mode.intent?] at h
  | password line input said => simp [intent?, hmode, Mode.intent?] at h

section Questions

theorem say_told (hmode : s.world.mode = .normal) (output : String) : Told (say output) s :=
  respond_told (tells_of_normal hmode rfl rfl rfl)

theorem refuse_told (hmode : s.world.mode = .normal) (errors : String) : Told (refuse errors) s :=
  respond_told (tells_of_normal hmode rfl rfl rfl)

theorem answerHint_told (hmode : s.world.mode = .normal) (level : Int) :
    Told (answerHint level) s := by
  refine .bind fun text t hhint => say_told ?_ _
  rw [((hint_rests level).of_run hhint).world, hmode]

/-- A session that starts over waits for a command line. -/
theorem mode_of_reset {t : Session} (h : reset.run s = .ok () t) : t.world.mode = .normal := by
  cases hstart : startWorld s.options s.adventure? s.world.now with
  | error e =>
      rw [reset, run_get_bind, hstart] at h
      cases h
  | ok w =>
      rw [run_reset hstart] at h
      cases h
      exact mode_startWorld hstart

theorem answer_told (hmode : s.world.mode = .normal) (question : Question) :
    Told (answer question) s := by
  cases question with
  | hint level =>
      cases level with
      | none => exact answerHint_told hmode 1
      | some level =>
          refine .ite (fun _ => refuse_told hmode _) fun _ => ?_
          split
          · intro r t hrun
            cases hrun
          · exact answerHint_told hmode _
  | task => exact .get_bind (say_told hmode _)
  | progress => exact .get_bind (say_told hmode _)
  | reset => exact .bind fun _ t hreset => say_told (mode_of_reset hreset) _
  | quit =>
      rw [answer]
      exact respond_told (tells_of_normal hmode rfl rfl rfl)
  | unknown name => exact refuse_told hmode _

/-- The response to a question tells how the session waits then. -/
theorem tells_of_ask {text : String} {r : Response} {t : Session}
    (h : (ask text).run s = .ok (some r) t) : r.Tells t := by
  unfold ask at h
  rw [run_get_bind] at h
  split at h
  · rename_i question hmode hread
    obtain ⟨r', u, hanswer, hlater⟩ := run_bind_eq_ok_iff.1 h
    cases hlater
    exact answer_told hmode question r t hanswer
  · cases h

end Questions

end Session

end PracticeShell
