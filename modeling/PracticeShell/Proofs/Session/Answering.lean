import PracticeShell.Proofs.Progress
import PracticeShell.Proofs.Session.Starting
import PracticeShell.Proofs.Session.Straying
import PracticeShell.Proofs.Session.Turns

/-!
# Turns that are answered

A session is sound if what commands see is there, its tasks can be decided, its progress can be saved,
and it can be reset (`Session.Sound`). All that happens to a session leaves it sound, but for an `ssh`
for a user who is not housed; and in a sound session a turn is answered unless the words that it
carries out stray (`Session.turns_are_answered`).
-/

namespace PracticeShell

open FileTree Run

namespace Session

/-- Whether all that a session depends on is there and in order, where `base` is the directory that
commands have begun to see. What the next commands see is asked for as far as users are housed. -/
structure Sound (housed : Prop) (base : Option String) (s : Session) : Prop where
  world : s.world.Shows housed base
  tasks : ∀ t, s.tracker = some t → ∀ task ∈ t.adventure.tasks, task.IsReadable
  marks : s.store.isSome → ∀ t, s.tracker = some t → t.progress.IsNamed
  restarts : ∀ now, ∃ w, startWorld s.options s.adventure? now = .ok w

variable {housed fault : Prop} {base : Option String} {s : Session}

namespace Sound

theorem withWorld {w : World} (h : Sound housed base s) (hw : w.Shows housed base) :
    Sound housed base { s with world := w } := ⟨hw, h.tasks, h.marks, h.restarts⟩

theorem setMode (h : Sound housed base s) (mode : Mode) :
    Sound housed base { s with world := { s.world with mode } } :=
  h.withWorld ⟨h.world.sees, h.world.later, h.world.apart⟩

theorem note (h : Sound housed base s) (a : Activity) :
    Sound housed base { s with journal := s.journal ++ [a] } :=
  ⟨h.world, h.tasks, h.marks, h.restarts⟩

end Sound

theorem step_fails_iff {α : Type} {x : Step α} : Fails (step x) s ↔ Fails x s.world := by
  unfold Fails
  rw [run_step]
  cases x.run s.world <;> simp

theorem step_upholds {α : Type} {x : Step α} (h : Sound housed base s)
    (hx : Upholds (World.Shows housed base) fault x s.world) :
    Upholds (Sound housed base) fault (step x) s := by
  have hleaves := hx.leaves
  refine ⟨?_, fun hfails => hx.answers (step_fails_iff.1 hfails)⟩
  rw [run_step]
  cases hrun : x.run s.world <;> rw [hrun] at hleaves <;> exact h.withWorld hleaves

theorem respond_upholds (h : Sound housed base s) (make : String → Response) :
    Upholds (Sound housed base) fault (respond make) s := .get_bind (.pure h _)

/-- Progress whose marks are names is saved, if there is a store. -/
theorem run_saveProgress (h : s.store.isSome → ∀ t, s.tracker = some t → t.progress.IsNamed) :
    ∃ store, saveProgress.run s = .ok () { s with store } ∧ (store.isSome → s.store.isSome) := by
  unfold saveProgress
  rw [run_get_bind, run_get_bind]
  split
  · rename_i t store htracker hstore
    have hnamed := h (by rw [hstore]; rfl) t htracker
    obtain ⟨⟨written, later⟩, hsaved⟩ := ProgressStore.save_of_isNamed hnamed store t.adventure.id
      (Calendar.stamp s.world.now)
    rw [run_get_bind, hsaved, hstore]
    exact ⟨some later, rfl, fun _ => rfl⟩
  · exact ⟨s.store, rfl, id⟩

theorem saveProgress_upholds (h : Sound housed base s) :
    Upholds (Sound housed base) fault saveProgress s := by
  obtain ⟨store, hrun, hstore⟩ := run_saveProgress h.marks
  refine .of_not_fails ?_ (not_fails_of_ok hrun)
  rw [hrun]
  exact ⟨h.world, h.tasks, fun hsome => h.marks (hstore hsome), h.restarts⟩

/-- A tracker that follows the same adventure by names leaves a session sound. -/
theorem Sound.track {t later : Tracker} (h : Sound housed base s) (htracker : s.tracker = some t)
    (hadventure : later.adventure = t.adventure)
    (hnamed : t.progress.IsNamed → later.progress.IsNamed) (journal : Journal) :
    Sound housed base { s with tracker := some later, journal } := by
  refine ⟨h.world, ?_, ?_, ?_⟩
  · rintro _ ⟨⟩
    rw [hadventure]
    exact h.tasks t htracker
  · rintro hstore _ ⟨⟩
    exact hnamed (h.marks hstore t htracker)
  · have hsame : ({ s with tracker := some later, journal } : Session).adventure? = s.adventure? := by
      simp [adventure?, htracker, hadventure]
    rw [hsame]
    exact h.restarts

theorem checkTasks_upholds (h : Sound housed base s) (line : String) (o : Outcome) :
    Upholds (Sound housed base) fault (checkTasks line o) s := by
  refine .get_bind ?_
  cases htracker : s.tracker with
  | none => exact .pure h _
  | some t =>
      have hfault := t.fault_record (h.tasks t htracker) (s.observe line o)
      have hrecorded := fun journal => h.track htracker (t.record_adventure (s.observe line o))
        (fun hnamed => t.isNamed_record hnamed (s.observe line o)) journal
      dsimp only
      rw [hfault]
      refine .set_bind (.modify_bind (.ite (fun _ => ?_) fun _ => .pure (hrecorded _) _))
      exact (saveProgress_upholds (hrecorded _)).bind fun _ u _ hu => .pure hu _

theorem finish_upholds (h : Sound housed base s) (line : String) (o : Outcome) (leaves : Bool)
    {intent : Option Intent} : Upholds (Sound housed base) fault (finish line o intent leaves) s := by
  have hended : Sound housed base { s with world := { s.world with
      environment := { s.world.environment with lastStatus := o.exitCode } } } :=
    h.withWorld ⟨h.world.sees, h.world.later, h.world.apart⟩
  refine .modify_bind (.modify_bind ?_)
  refine (checkTasks_upholds (hended.note _) line o).bind fun events u _ hu => ?_
  exact .get_bind (.pure hu _)

theorem awaitPassword_upholds (h : Sound housed base s) (line : CommandLine) (o : Outcome)
    (input said : Option String) :
    Upholds (Sound housed base) fault (awaitPassword line o input said) s :=
  .modify_bind (respond_upholds (h.setMode _) _)

theorem complete_upholds (h : Sound housed base s) (line : CommandLine) (r : Dispatch.Result)
    (runner writer : Context) (said : Option String) :
    Upholds (Sound housed base) fault (complete line r runner writer base said) s := by
  have hrest : ∀ {s intent}, Sound housed base s → Upholds (Sound housed base) fault (do
      let o ← step (Step.onView base (line.redirection.applyTo writer r.outcome said))
      finish line.text o intent r.leaves) s := by
    intro s intent h
    have hgrows := line.redirection.applyTo_grows writer r.outcome said
    refine (step_upholds h (Step.onView_upholds hgrows h.world)).bind fun o u _ hu => ?_
    exact finish_upholds hu _ _ _
  unfold complete
  dsimp only
  cases r.screen with
  | none => exact hrest h
  | some screen => exact .modify_bind (hrest (h.setMode _))

theorem look_upholds (h : Sound housed base s) :
    Upholds (Sound housed base) fault (step (Step.look base)) s :=
  step_upholds h (Step.look_upholds h.world)

theorem readInput_upholds (h : Sound housed base s) (line : CommandLine) (ctx : Context)
    (otherwise : Option String) :
    Upholds (Sound housed base) fault (readInput line ctx base otherwise) s := by
  unfold readInput
  split
  · exact (look_upholds h).bind fun fs u _ hu => .pure hu _
  · exact .pure h _

section

variable {ctx : Context} {words : List String} (h : Sound housed base s)
  (hbase : s.world.viewBase = base)

include h hbase

theorem dispatch_upholds (input : Option String)
    (hhoused : housed → Dispatch.AreHoused s.options.remoteHosts ctx s.world (Dispatch.bare ctx words))
    (hstrays : Dispatch.Strays s.options.remoteHosts ctx s.world (Dispatch.bare ctx words) → fault) :
    Upholds (Sound housed base) fault (dispatch ctx base input words) s := by
  have hruns : Upholds _ _ (Dispatch.run s.options.remoteHosts ctx base input words) s.world :=
    Dispatch.run_upholds hbase h.world.sees hhoused
  exact .get_bind (step_upholds h ⟨hruns.leaves, fun hfails => hstrays (hruns.answers hfails)⟩)

/-- Going back to the directory before does not stray. -/
theorem dispatchOrGoBack_upholds {line : CommandLine} (input : Option String)
    (hhoused : housed →
      Dispatch.AreHoused s.options.remoteHosts ctx s.world (Dispatch.bare ctx line.words))
    (hstrays : Dispatch.Strays s.options.remoteHosts ctx s.world (Dispatch.bare ctx line.words) →
      fault) :
    Upholds (Sound housed base) fault (dispatchOrGoBack line ctx base input) s := by
  refine .get_bind (.ite (fun _ => ?_) fun _ => dispatch_upholds h hbase input hhoused hstrays)
  have hbare : ∀ path, Dispatch.bare ctx ["cd", path] = ["cd", path] := fun path => by
    simp [Dispatch.bare]
  refine (dispatch_upholds h hbase input (fun _ => ?_) fun hback => ?_).bind fun r u _ hu =>
    .ite (fun _ => .pure hu _) fun _ => .pure hu _
  · rw [hbare]
    exact fun arguments hssh => absurd (List.cons.inj hssh).1 (by decide)
  · rw [hbare] at hback
    exact absurd hback (Dispatch.strays_of_ne (by simp))

theorem runLine_upholds {line : CommandLine}
    (hhoused : housed →
      Dispatch.AreHoused s.options.remoteHosts ctx s.world (Dispatch.bare ctx line.words))
    (hstrays : Dispatch.Strays s.options.remoteHosts ctx s.world (Dispatch.bare ctx line.words) →
      fault) :
    Upholds (Sound housed base) fault (runLine line ctx) s := by
  unfold runLine
  split
  · exact .modify_bind (respond_upholds (h.setMode _) _)
  · refine .get_bind ?_
    dsimp only
    rw [hbase]
    refine (look_upholds h).bind fun fs t hlook ht => ?_
    refine (readInput_upholds ht line ctx none).bind fun answer u hread hu => ?_
    have hrests := lasting_rests.trans ((look_rests base).of_run hlook)
      ((readInput_rests line ctx base none).of_run hread)
    cases answer with
    | error problem => exact finish_upholds hu _ _ _
    | ok input =>
        refine .get_bind (.ite (fun _ => finish_upholds hu _ _ _) fun _ => ?_)
        rw [← hrests.world] at hbase hhoused hstrays
        rw [← hrests.options] at hhoused hstrays
        refine (dispatchOrGoBack_upholds hu hbase input hhoused hstrays).bind fun r v _ hv => ?_
        exact .ite (fun _ => awaitPassword_upholds hv _ _ _ _) fun _ =>
          complete_upholds hv _ _ _ _ _

theorem guard_upholds (expanded : String) :
    Upholds (Sound housed base) fault (guard expanded ctx) s := by
  refine .get_bind (.ite (fun _ => .pure h _) fun _ => ?_)
  rw [hbase]
  exact (look_upholds h).bind fun fs u _ hu => .pure hu _

end

/-- Whether the words that a turn carries out stray. -/
def Strays (s : Session) (turn : Turn) : Prop :=
  ∃ ctx words, s.carried? turn = some (ctx, words) ∧
    Dispatch.Strays s.options.remoteHosts ctx s.world words

/-- Whether the words that a turn carries out, if they are those of `ssh`, name a user who is
housed. -/
def IsHoused (s : Session) (turn : Turn) : Prop :=
  ∀ ctx words, s.carried? turn = some (ctx, words) →
    Dispatch.AreHoused s.options.remoteHosts ctx s.world words

section

variable (h : Sound housed base s) (hbase : s.world.viewBase = base)

include h hbase

theorem submitCommand_upholds {text : String} (hmode : s.world.mode = .normal)
    (hhoused : housed → s.IsHoused (.line text)) :
    Upholds (Sound housed base) (s.Strays (.line text)) (submitCommand (withoutLineEnd text)) s := by
  have hnoted : Sound housed base (s.remembering (Text.Blank.trim (withoutLineEnd text))) :=
    h.withWorld ⟨h.world.sees, h.world.later, h.world.apart⟩
  have henvironment : (s.remembering (Text.Blank.trim (withoutLineEnd text))).world.environment =
      s.world.environment := rfl
  unfold submitCommand
  dsimp only
  refine .ite (fun _ => respond_upholds h _) fun htext =>
    .modify_bind (show Upholds _ _ _ (s.remembering _) from .get_bind ?_)
  rw [henvironment]
  cases hparse : Redirection.parse (s.world.environment.expand
      (Text.Blank.trim (withoutLineEnd text))) with
  | error problem => exact finish_upholds hnoted _ _ _
  | ok redirection =>
      refine .ite (fun _ => finish_upholds hnoted _ _ _) fun hwords => .get_bind ?_
      have hcarried := carried?_of_read? hmode
        (read?_of_parse htext hparse (by simpa using hwords))
      refine (guard_upholds hnoted hbase _).bind fun warning u hguard hu => ?_
      have hrests := (guard_rests _ _).of_run hguard
      cases warning with
      | some warning =>
          exact .modify_bind (.modify_bind (.get_bind (.pure ((hu.setMode _).note _) _)))
      | none =>
          refine runLine_upholds hu (by rw [hrests.world]; exact hbase) (fun hhouses => ?_)
            fun hstrays => ⟨_, _, hcarried, ?_⟩
          · rw [hrests.world, hrests.options]
            exact hhoused hhouses _ _ hcarried
          · rw [hrests.world, hrests.options] at hstrays
            exact hstrays

theorem submitPassword_upholds {text : String} {line : CommandLine} {input said : Option String}
    (hmode : s.world.mode = .password line input said)
    (hhoused : housed → s.IsHoused (.line text)) :
    Upholds (Sound housed base) (s.Strays (.line text))
      (submitPassword (withoutLineEnd text) line input said) s := by
  have hnormal := h.setMode .normal
  unfold submitPassword
  refine .modify_bind (.get_bind (.ite (fun _ => .modify_bind (finish_upholds (hnormal.note _) _ _ _))
    fun htext => .modify_bind ?_))
  have hcarried := carried?_of_password hmode (not_not.1 htext)
  have hgiven := hnormal.note (.password true)
  dsimp only
  rw [viewBase_setMode s.world, context_setMode s.world, hbase]
  refine (look_upholds hgiven).bind fun fs t hlook ht => ?_
  refine (readInput_upholds ht line s.world.context.elevate input).bind fun answer u hread hu => ?_
  have hrests := lasting_rests.trans ((look_rests base).of_run hlook)
    ((readInput_rests line _ base input).of_run hread)
  cases answer with
  | error problem => exact finish_upholds hu _ _ _
  | ok input =>
      refine (dispatch_upholds hu (by rw [hrests.world]; exact hbase) input (fun hhouses => ?_)
        fun hstrays => ⟨_, _, hcarried, ?_⟩).bind fun r v _ hv => complete_upholds hv _ _ _ _ _
      · rw [hrests.world, hrests.options]
        exact hhoused hhouses _ _ hcarried
      · rw [hrests.world, hrests.options] at hstrays
        exact hstrays

theorem submitInput_upholds {text : String} {line : CommandLine} {marker : String}
    {lines : List String} (hmode : s.world.mode = .collecting line marker lines)
    (hhoused : housed → s.IsHoused (.line text)) :
    Upholds (Sound housed base) (s.Strays (.line text))
      (submitInput (withoutLineEnd text) line marker lines) s := by
  have hnormal := h.setMode .normal
  unfold submitInput
  refine .ite (fun _ => .modify_bind (respond_upholds (h.setMode _) _)) fun htext =>
    .modify_bind (.get_bind ?_)
  have hcarried := carried?_of_collecting hmode (not_not.1 htext)
  dsimp only
  rw [viewBase_setMode s.world, context_setMode s.world, hbase]
  refine (look_upholds hnormal).bind fun fs t hlook ht => ?_
  have hrests := (look_rests base).of_run hlook
  refine (dispatch_upholds ht (by rw [hrests.world]; exact hbase) _ (fun hhouses => ?_)
    fun hstrays => ⟨_, _, hcarried, ?_⟩).bind fun r v _ hv => ?_
  · rw [hrests.world, hrests.options]
    exact hhoused hhouses _ _ hcarried
  · exact .ite (fun _ => awaitPassword_upholds hv _ _ _ _) fun _ => complete_upholds hv _ _ _ _ _
  · rw [hrests.world, hrests.options] at hstrays
    exact hstrays

theorem submit_upholds {text : String} (hhoused : housed → s.IsHoused (.line text)) :
    Upholds (Sound housed base) (s.Strays (.line text)) (submit text) s := by
  unfold submit
  refine .get_bind ?_
  cases hmode : s.world.mode with
  | normal => exact submitCommand_upholds h hbase hmode hhoused
  | password line input said => exact submitPassword_upholds h hbase hmode hhoused
  | collecting line marker lines => exact submitInput_upholds h hbase hmode hhoused
  | confirming line warning ctx => exact .pure h _
  | showing screen ctx command => exact .pure h _

theorem resolve_upholds {resolution : Resolution}
    (hhoused : housed → s.IsHoused (.answer resolution)) :
    Upholds (Sound housed base) (s.Strays (.answer resolution)) (resolve resolution) s := by
  have hnormal := h.setMode .normal
  unfold resolve
  refine .get_bind ?_
  cases hmode : s.world.mode with
  | confirming line warning ctx =>
      refine .modify_bind (.ite (fun hconfirmed => .modify_bind ?_) fun _ =>
        .modify_bind (respond_upholds (hnormal.note _) _))
      subst hconfirmed
      have hcarried := carried?_of_confirming hmode
      exact runLine_upholds (hnormal.note _) hbase (fun hhouses => hhoused hhouses _ _ hcarried)
        fun hstrays => ⟨_, _, hcarried, hstrays⟩
  | showing screen ctx command =>
      refine .modify_bind (.get_bind ?_)
      dsimp only
      rw [viewBase_setMode s.world, hbase]
      exact (step_upholds hnormal (Screens.close_upholds screen resolution ctx hnormal.world)).bind
        fun o u _ hu => finish_upholds hu _ _ _
  | normal => exact respond_upholds h _
  | collecting line marker lines => exact respond_upholds h _
  | password line input said => exact respond_upholds h _

/-- A turn leaves a session sound and is answered unless it strays. -/
theorem act_upholds {turn : Turn} (hhoused : housed → s.IsHoused turn) :
    Upholds (Sound housed base) (s.Strays turn) turn.act s := by
  cases turn with
  | line text => exact submit_upholds h hbase hhoused
  | answer resolution => exact resolve_upholds h hbase hhoused

end

/-- Whether a session is sound when the next input comes. -/
def IsSound (s : Session) : Prop := Sound True s.world.viewBase s

theorem Sound.isSound (h : Sound True base s) : s.IsSound :=
  ⟨World.shows_viewBase (h.world.later trivial), h.tasks, h.marks, h.restarts⟩

theorem IsSound.sound (h : s.IsSound) : Sound housed s.world.viewBase s :=
  ⟨World.shows_viewBase h.world.sees, h.tasks, h.marks, h.restarts⟩

theorem hint_upholds (h : Sound housed base s) (level : Int) :
    Upholds (Sound housed base) fault (hint level) s := by
  refine .get_bind ?_
  cases htracker : s.tracker with
  | none => exact .pure h _
  | some t =>
      have hseen := h.track htracker (t.hint_adventure level)
        (fun hnamed => t.isNamed_hint hnamed level) s.journal
      refine .set_bind (.ite (fun _ => .modify_bind ?_) fun _ => .pure hseen _)
      exact (saveProgress_upholds (hseen.note _)).bind fun _ u _ hu => .pure hu _

theorem answerHint_upholds (h : s.IsSound) (level : Int) :
    Upholds IsSound fault (answerHint level) s :=
  (hint_upholds h level).weaken Sound.isSound |>.bind fun _ _ _ hu =>
    (respond_upholds hu _).weaken Sound.isSound

/-- A session goes back to a sound beginning. -/
theorem reset_upholds (h : s.IsSound) : Upholds IsSound fault reset s := by
  obtain ⟨w, hw⟩ := h.restarts s.world.now
  have hclosed : w.viewBase = none := by rw [World.viewBase, remote_startWorld hw]; rfl
  refine .get_bind ?_
  rw [hw]
  refine .set_bind (.modify ⟨World.shows_viewBase ?_, ?_, ?_, ?_⟩)
  · change w.CanSee w.viewBase
    rw [hclosed]
    trivial
  · intro t ht
    obtain ⟨before, hbefore, rfl⟩ := Option.map_eq_some_iff.1 ht
    exact h.tasks before hbefore
  · intro _ t ht
    obtain ⟨before, -, rfl⟩ := Option.map_eq_some_iff.1 ht
    exact before.isNamed_reset
  · intro now
    have hsame : (s.tracker.map Tracker.reset).map (·.adventure) = s.adventure? := by
      cases htracker : s.tracker <;> simp [adventure?, htracker, Tracker.reset, Tracker.start,
        Tracker.resume, Tracker.settle_adventure]
    change ∃ w, startWorld s.options ((s.tracker.map Tracker.reset).map (·.adventure)) now = .ok w
    rw [hsame]
    exact h.restarts now

/-- Whether a question asks for a level with digits that are read as no number. -/
def Question.Strays : Question → Prop
  | hint (some level) => Text.Digit.IsUnreadable level
  | _ => False

theorem answer_upholds (h : s.IsSound) (question : Question) :
    Upholds IsSound question.Strays (answer question) s := by
  have htells : ∀ {s : Session}, s.IsSound → ∀ make,
      Upholds IsSound question.Strays (respond make) s := fun hs make =>
    (respond_upholds hs make).weaken Sound.isSound
  cases question with
  | hint level =>
      cases level with
      | none => exact answerHint_upholds h 1
      | some level =>
          unfold answer
          refine .ite (fun _ => htells h _) fun hdigits => ?_
          rw [Json.toInt_string]
          cases hread : Text.Digit.readInt level with
          | ok n => exact answerHint_upholds h n
          | error e =>
              refine ⟨h, fun _ => ⟨by simpa using hdigits, fun n hn => ?_⟩⟩
              rw [hread] at hn
              cases hn
  | task => exact .get_bind (htells h _)
  | progress => exact .get_bind (htells h _)
  | reset => exact (reset_upholds h).bind fun _ u _ hu => htells hu _
  | quit =>
      unfold answer
      exact htells h _
  | unknown name =>
      unfold answer
      exact htells h _

/-- A question leaves a session sound and is answered unless it strays. -/
theorem ask_upholds (h : s.IsSound) (text : String) : Upholds IsSound
    (s.world.mode = .normal ∧ ∃ question, Question.read? text = some question ∧ question.Strays)
    (ask text) s := by
  refine .get_bind ?_
  split
  · rename_i question hmode hquestion
    have hanswer := answer_upholds h question
    exact .bind ⟨hanswer.leaves, fun hfails => ⟨hmode, question, hquestion, hanswer.answers hfails⟩⟩
      fun _ u _ hu => .pure hu _
  · exact .pure h _

theorem answer_fails_of_strays {question : Question} (h : question.Strays) (s : Session) :
    Fails (answer question) s := by
  cases question with
  | hint level =>
      cases level with
      | none => exact h.elim
      | some level =>
          obtain ⟨hdigits, hnumber⟩ := h
          unfold answer
          dsimp only
          rw [if_neg (by simp [hdigits]), Json.toInt_string]
          cases hread : Text.Digit.readInt level with
          | ok n => exact absurd hread (hnumber n)
          | error e => exact fails_of_error rfl
  | _ => exact h.elim

/-- A question fails exactly if it strays. -/
theorem ask_fails_iff (h : s.IsSound) (text : String) : Fails (ask text) s ↔
    s.world.mode = .normal ∧ ∃ question, Question.read? text = some question ∧ question.Strays := by
  refine ⟨(ask_upholds h text).answers, ?_⟩
  rintro ⟨hmode, question, hquestion, hstrays⟩
  unfold ask
  rw [fails_bind_of_ok (EStateM.run_get s), hmode, hquestion]
  exact fails_bind_iff.2 (.inl (answer_fails_of_strays hstrays s))

theorem close_upholds (h : s.IsSound) : Upholds IsSound fault close s := by
  refine .get_bind (.ite (fun _ => .pure h _) fun _ => .modify_bind ?_)
  have hclosed : Sound True s.world.viewBase { s with isClosed := true } :=
    ⟨h.world, h.tasks, h.marks, h.restarts⟩
  refine ((saveProgress_upholds hclosed).weaken Sound.isSound).bind fun _ u _ hu => ?_
  exact .get_bind (.modify (hu.note _))

end Session

/-- Whether an input opens no session on another machine for a user who is not housed. -/
def Input.IsHoused (s : Session) : Input → Prop
  | line text => s.IsHoused (.line text)
  | answer resolution => s.IsHoused (.answer resolution)
  | _ => True

namespace Session

variable {s : Session}

/-- Whether all inputs are housed when they come. -/
def AreHoused (s : Session) : List Input → Prop
  | [] => True
  | i :: inputs => i.IsHoused s ∧ AreHoused (s.next i) inputs

/-- Every input that is housed leaves a session sound, whether it is answered or not. -/
theorem isSound_next {i : Input} (h : s.IsSound) (hi : i.IsHoused s) : (s.next i).IsSound := by
  have hdrop : ∀ {fault : Prop} {α : Type} {action : Action α}, Upholds IsSound fault action s →
      IsSound (left ((do let _ ← action : Action Unit).run s)) := fun hacts => by
    rw [left_discard]
    exact hacts.leaves
  cases i with
  | line text => exact hdrop ((submit_upholds h rfl fun _ => hi).weaken Sound.isSound)
  | question text => exact hdrop (ask_upholds h text)
  | answer resolution => exact hdrop ((resolve_upholds h rfl fun _ => hi).weaken Sound.isSound)
  | hint level =>
      have hhints : Upholds _ False _ s := hint_upholds h level
      exact hdrop (hhints.weaken Sound.isSound)
  | reset =>
      have hresets : Upholds _ False _ s := reset_upholds h
      exact hresets.leaves
  | close =>
      have hcloses : Upholds _ False _ s := close_upholds h
      exact hcloses.leaves
  | tick seconds => exact ⟨World.shows_viewBase h.world.sees, h.tasks, h.marks, h.restarts⟩

theorem isSound_after_inputs {inputs : List Input} (h : s.IsSound) (hhoused : s.AreHoused inputs) :
    (s.after inputs).IsSound := by
  induction inputs generalizing s with
  | nil => exact h
  | cons i inputs ih => exact ih (isSound_next h hhoused.1) hhoused.2

section

variable {text expanded : String} {line : CommandLine}

theorem bare_context (s : Session) (words : List String) :
    Dispatch.bare s.world.context words = words := by
  rw [Dispatch.bare, if_neg]
  unfold World.context
  split <;> simp

/-- What the guard answers from what is seen. -/
theorem run_guard_of_viewAt {fs : FileSystem} (ctx : Context)
    (hview : s.world.viewAt s.world.viewBase = .ok fs) : (guard expanded ctx).run s = .ok
      (if s.options.confirms then Guard.inspect ⟨ctx.directory, ctx.username, match s.adventure? with
        | some a => a.criticalPaths
        | none => [], some fs⟩ expanded else none) s := by
  unfold guard
  rw [run_get_bind]
  cases hconfirms : s.options.confirms with
  | false =>
      rw [if_pos (by simp)]
      rfl
  | true =>
      have hlook : (step (Step.look s.world.viewBase)).run s = .ok fs s := by
        rw [run_step, Step.look, run_get_bind, hview]
        rfl
      rw [if_neg (by simp), run_bind_of_ok hlook, if_pos rfl]
      rfl

/-- What the guard answers does not depend on the history. -/
theorem run_guard_remembering (h : s.IsSound) {ctx : Context} {warning : Option Guard.Warning}
    (hguard : (guard expanded ctx).run s = .ok warning s) (typed : String) :
    (guard expanded ctx).run (s.remembering typed) = .ok warning (s.remembering typed) := by
  obtain ⟨fs, hview, -⟩ := Step.run_look h.world.sees
  have hlater : (s.remembering typed).world.viewAt (s.remembering typed).world.viewBase = .ok fs :=
    hview
  rw [run_guard_of_viewAt ctx hview] at hguard
  rw [run_guard_of_viewAt ctx hlater, ← (EStateM.Result.ok.inj hguard).1]
  rfl

/-- A line without a redirection that strays fails when it is run. -/
theorem runLine_fails_of_strays (h : s.IsSound) (heffect : line.redirection.effect = .none)
    (hstrays : Dispatch.Strays s.options.remoteHosts s.world.context s.world line.words) :
    Fails (runLine line s.world.context) s := by
  obtain ⟨fs, -, hlook⟩ := Step.run_look h.world.sees
  have hlooked : (step (Step.look s.world.viewBase)).run s = .ok fs s := by rw [run_step, hlook]
  have hback : line.words ≠ ["cd", "-"] := by
    intro hback
    rw [hback] at hstrays
    exact Dispatch.strays_of_ne (by simp) hstrays
  unfold runLine
  rw [heffect]
  dsimp only
  rw [fails_bind_of_ok (EStateM.run_get s), fails_bind_of_ok hlooked,
    fails_bind_of_ok (run_readInput_of_none heffect _ _ _ s)]
  dsimp only
  rw [fails_bind_of_ok (EStateM.run_get s), if_neg (by simp [lacksPrevious, hback])]
  refine fails_bind_iff.2 (.inl ?_)
  unfold dispatchOrGoBack
  rw [fails_bind_of_ok (EStateM.run_get s)]
  dsimp only
  rw [if_neg (by simp [hback])]
  unfold dispatch
  rw [fails_bind_of_ok (EStateM.run_get s), step_fails_iff, Dispatch.run_fails_iff h.world.sees,
    bare_context]
  exact hstrays

/-- A plain command line that is not held back fails exactly if it strays. -/
theorem submit_fails_iff (h : s.IsSound) (hmode : s.world.mode = .normal)
    (hread : s.read? text = some (expanded, line))
    (hsilent : (guard expanded s.world.context).run s = .ok none s)
    (heffect : line.redirection.effect = .none) :
    Fails (submit text) s ↔
      Dispatch.Strays s.options.remoteHosts s.world.context s.world line.words := by
  have hbare := bare_context s line.words
  constructor
  · intro hfails
    have hupholds : Upholds (Sound False _) _ (submit text) s := submit_upholds h.sound rfl nofun
    obtain ⟨ctx, words, hcarried, hstrays⟩ := hupholds.answers hfails
    rw [carried?_of_read? hmode hread] at hcarried
    obtain ⟨rfl, rfl⟩ := Prod.mk.inj (Option.some.inj hcarried)
    rwa [hbare] at hstrays
  · intro hstrays
    have hnoted : (s.remembering line.text).IsSound :=
      h.sound.withWorld ⟨h.world.sees, h.world.later, h.world.apart⟩
    have hruns : Fails (runLine line s.world.context) (s.remembering line.text) :=
      runLine_fails_of_strays hnoted heffect hstrays
    unfold Fails
    rw [run_submit_of_guard hread hmode (run_guard_remembering h hsilent line.text)]
    exact hruns

end

section

variable {o : SessionOptions} {adventure : Option Adventure} {store : Option ProgressStore}
  {resume : Bool} {now : Int}

/-- A session begins sound if its tasks can be decided and its saved progress holds names. -/
theorem isSound_start (h : start o adventure store resume now = .ok s)
    (htasks : ∀ a, adventure = some a → ∀ task ∈ a.tasks, task.IsReadable)
    (hmarks : ∀ a p, adventure = some a → savedProgress a store resume = .ok p → p.IsNamed) :
    s.IsSound := by
  obtain ⟨rfl, hworld, htracker⟩ := of_start h
  have hclosed : s.world.viewBase = none := by
    rw [World.viewBase, remote_startWorld hworld]
    rfl
  have hsees : s.world.CanSee s.world.viewBase := by
    rw [hclosed]
    trivial
  rcases htracker with ⟨hnone, rfl⟩ | ⟨a, p, rfl, hprogress, hsome⟩
  · refine ⟨World.shows_viewBase hsees, ?_, ?_, fun later => ?_⟩
    · simp [hnone]
    · simp [hnone]
    · rw [adventure?, hnone]
      exact startWorld_at hworld later
  · refine ⟨World.shows_viewBase hsees, ?_, ?_, fun later => ?_⟩
    · intro t ht
      obtain rfl := Option.some.inj (hsome.symm.trans ht)
      exact htasks a rfl
    · intro _ t ht
      obtain rfl := Option.some.inj (hsome.symm.trans ht)
      exact Tracker.isNamed_settle (hmarks a p rfl hprogress)
    · rw [adventure?, hsome]
      exact startWorld_at hworld later

/-- In a session that has been begun with tasks that can be decided and with a progress that holds
names, as long as `ssh` is told no user who is not housed, a line or an answer is answered unless the
words that it carries out stray. A plain line that is not held back fails exactly if it strays, and a
question exactly if it asks for a level with digits that are read as no number. -/
theorem turns_are_answered (hstart : start o adventure store resume now = .ok s)
    (htasks : ∀ a, adventure = some a → ∀ task ∈ a.tasks, task.IsReadable)
    (hmarks : ∀ a p, adventure = some a → savedProgress a store resume = .ok p → p.IsNamed)
    {inputs : List Input} (hhoused : s.AreHoused inputs) :
    (∀ turn, ¬ (s.after inputs).Strays turn →
      ∃ response later, turn.act.run (s.after inputs) = .ok response later) ∧
    (∀ text expanded line, (s.after inputs).world.mode = .normal →
      (s.after inputs).read? text = some (expanded, line) → line.redirection.effect = .none →
      (guard expanded (s.after inputs).world.context).run (s.after inputs) =
        .ok none (s.after inputs) →
      (Fails (submit text) (s.after inputs) ↔ Dispatch.Strays (s.after inputs).options.remoteHosts
        (s.after inputs).world.context (s.after inputs).world line.words)) ∧
    ∀ text, Fails (ask text) (s.after inputs) ↔ (s.after inputs).world.mode = .normal ∧
      ∃ question, Question.read? text = some question ∧ question.Strays := by
  have hsound := isSound_after_inputs (isSound_start hstart htasks hmarks) hhoused
  refine ⟨fun turn hturn => ?_, fun text expanded line hmode hread heffect hsilent =>
    submit_fails_iff hsound hmode hread hsilent heffect, ask_fails_iff hsound⟩
  have hacts : Upholds (Sound False _) _ turn.act _ := act_upholds hsound.sound rfl nofun
  exact not_fails_iff.1 fun hfails => hturn (hacts.answers hfails)

end

/-- A number that can be read is answered. -/
theorem history_of_two_is_answered :
    start ⟨"ada", "lab", "secret", [], true, 0⟩ none none true 0 = .ok justBegun ∧
      justBegun.AreHoused [.tick 5] ∧ ¬ (justBegun.after [.tick 5]).Strays (.line "history 2") ∧
      ∃ response later,
        (submit "history 2").run (justBegun.after [.tick 5]) = .ok response later := by
  have hread : (justBegun.after [.tick 5]).read? "history 2" = some ("history 2",
    ⟨"history 2", ["history", "2"], ⟨"history 2", .none⟩⟩) := by decide +kernel
  have hnumber : Text.Digit.readInt "2" = .ok 2 := rfl
  have hstrays : ¬ (justBegun.after [.tick 5]).Strays (.line "history 2") := by
    rintro ⟨ctx, words, hcarried, hstrays⟩
    rw [carried?_of_read? rfl hread] at hcarried
    obtain ⟨rfl, rfl⟩ := Prod.mk.inj (Option.some.inj hcarried)
    rw [bare_context] at hstrays
    simp [Dispatch.Strays, Text.Digit.IsUnreadable, hnumber] at hstrays
  have hhoused : justBegun.AreHoused [.tick 5] := ⟨trivial, trivial⟩
  refine ⟨start_justBegun, hhoused, hstrays, ?_⟩
  exact (turns_are_answered start_justBegun (by simp) (by simp) hhoused).1 (.line "history 2") hstrays

theorem isUnreadable_superscript : Text.Digit.IsUnreadable "²" := by
  have hnumber : (Text.Digit.readInt "²").toOption = none := by decide +kernel
  refine ⟨by decide +kernel, fun n hn => ?_⟩
  rw [hn] at hnumber
  cases hnumber

/-- A digit that is read as no number makes a line and a question fail. -/
theorem history_of_superscript_fails :
    start ⟨"ada", "lab", "secret", [], true, 0⟩ none none true 0 = .ok justBegun ∧
      Fails (submit "history ²") justBegun ∧ Fails (ask ":hint ²") justBegun := by
  have hsound : justBegun.IsSound := isSound_start start_justBegun (by simp) (by simp)
  have hread : justBegun.read? "history ²" = some ("history ²",
    ⟨"history ²", ["history", "²"], ⟨"history ²", .none⟩⟩) := by decide +kernel
  have hquestion : Question.read? ":hint ²" = some (.hint (some "²")) := by decide +kernel
  have hinspect : Guard.inspect justBegun.situation "history ²" = none :=
    Option.isNone_iff_eq_none.1 (by decide +kernel)
  have hsilent : (guard "history ²" justBegun.world.context).run justBegun = .ok none justBegun := by
    rw [run_guard rfl rfl, hinspect]
  refine ⟨start_justBegun, (submit_fails_iff hsound rfl hread hsilent rfl).2 ?_,
    (ask_fails_iff hsound _).2 ⟨rfl, _, hquestion, isUnreadable_superscript⟩⟩
  exact .inl ⟨rfl, "²", rfl, isUnreadable_superscript⟩

end Session

end PracticeShell
