import PracticeShell.Proofs.Run
import PracticeShell.Proofs.Session.Straying
import PracticeShell.Proofs.Session.Turns

/-!
# Sessions on another machine

Two worlds are twins at a directory if they differ in nothing but the files outside of it
(`World.Twins`). While a session on another machine is open there, all commands but `scp` do the same
in both: they have the same results, leave twins, and change nothing outside of the directory
(`Dispatch.run_mirrors`). So two sessions that differ in nothing but these files (`Session.Twins`) give
the same responses for as long as it is open, and go on as such (`visits_are_isolated`).
-/

namespace PracticeShell

open FileTree Run

/-- Whether two worlds differ at most in the files outside of a directory, while the first has, outside
of it, the files and the current directory of the world `origin`. If `same` holds, they do not differ
at all. A session on another machine that is open is one at the directory. -/
structure World.Twins (same : Prop) (base : String) (origin w v : World) : Prop where
  view : v.fs.view base = w.fs.view base
  now : v.fs.now = w.fs.now
  rest : v = { w with fs := v.fs }
  same : same → v.fs = w.fs
  outside : ∀ place, ¬ Path.segments base <+: place → w.fs.faceAt place = origin.fs.faceAt place
  directory : w.directory = origin.directory
  base : ∀ r, w.remote = some r → r.base = base

variable {same : Prop} {base : String} {origin w v : World}

namespace World.Twins

theorem remote (h : Twins same base origin w v) : v.remote = w.remote := by rw [h.rest]

theorem environment (h : Twins same base origin w v) : v.environment = w.environment := by
  rw [h.rest]

theorem history (h : Twins same base origin w v) : v.history = w.history := by rw [h.rest]

theorem mode (h : Twins same base origin w v) : v.mode = w.mode := by rw [h.rest]

theorem context (h : Twins same base origin w v) : v.context = w.context := by
  rw [h.rest]
  rfl

/-- What is changed in twins besides their files leaves them twins. -/
theorem map {f : World → World} (h : Twins same base origin w v)
    (hf : ∀ fs, f { w with fs } = { f w with fs }) (hdirectory : (f w).directory = w.directory)
    (hbase : ∀ r, (f w).remote = some r → r.base = base) : Twins same base origin (f w) (f v) := by
  obtain ⟨other, rfl⟩ : ∃ other, v = { w with fs := other } := ⟨_, h.rest⟩
  have hself := congrArg World.fs (hf w.fs)
  have hfs : (f w).fs = w.fs := hself
  have hview : other.view base = w.fs.view base := h.view
  have hsame : same → other = w.fs := h.same
  rw [hf other]
  refine ⟨?_, ?_, rfl, ?_, ?_, hdirectory.trans h.directory, hbase⟩
  · rw [hfs, hview]
  · rw [hfs]
    exact h.now
  · rwa [hfs]
  · rw [hfs]
    exact h.outside

/-- The same put back in the directories of twins leaves them twins. -/
theorem putBack {inner : FileSystem} (h : Twins same base origin w v)
    (hview : w.fs.view base = .ok inner) (later : FileSystem) :
    Twins same base origin { w with fs := w.fs.putBack base later }
      { v with fs := v.fs.putBack base later } := by
  obtain ⟨other, rfl⟩ : ∃ other, v = { w with fs := other } := ⟨_, h.rest⟩
  have hother : other.view base = .ok inner := h.view.trans hview
  refine ⟨?_, ?_, rfl, fun hsame => ?_, fun place hplace => ?_, h.directory,
    h.base⟩
  · dsimp only
    rw [FileSystem.view_putBack hother, FileSystem.view_putBack hview]
  · dsimp only
    rw [FileSystem.now_putBack, FileSystem.now_putBack]
    exact h.now
  · have hfs : other = w.fs := h.same hsame
    dsimp only
    rw [hfs]
  · dsimp only
    rw [FileSystem.faceAt_putBack_beside hplace]
    exact h.outside place hplace

end World.Twins

namespace Step

theorem look_mirrors (h : World.Twins same base origin w v) :
    Mirrors Eq (World.Twins same base origin) Eq (look (some base)) (look (some base)) w v := by
  refine .get_bind ?_
  change Mirrors _ _ _ (ask (w.fs.view base)) (ask (v.fs.view base)) w v
  rw [h.view]
  cases w.fs.view base with
  | ok inner => exact .pure h rfl
  | error e => exact .throw h rfl

theorem onView_mirrors {α : Type} (operation : StateM FileSystem α)
    (h : World.Twins same base origin w v) :
    Mirrors Eq (World.Twins same base origin) Eq (onView (some base) operation)
      (onView (some base) operation) w v := by
  rw [Mirrors, run_onView_some, run_onView_some, h.view]
  cases hview : w.fs.view base with
  | ok inner => exact .ok rfl (h.putBack hview _)
  | error e => exact .error rfl h

theorem attempt_mirrors (operation : Edit Unit) (h : World.Twins same base origin w v) :
    Mirrors Eq (World.Twins same base origin) Eq (attempt (some base) operation)
      (attempt (some base) operation) w v := onView_mirrors _ h

end Step

namespace Remote

/-- While a session on another machine is open, no other one is opened. -/
theorem runSsh_mirrors {r : RemoteSession} (hosts : List String) (ctx : Context)
    (words : List String) (h : World.Twins same base origin w v) (hremote : w.remote = some r) :
    Mirrors Eq (World.Twins same base origin) Eq (runSsh hosts ctx words) (runSsh hosts ctx words)
      w v := by
  refine .get_bind ?_
  rw [h.remote, hremote]
  cases operandsOf words with
  | nil => exact .pure h rfl
  | cons target rest => exact .pure h rfl

theorem runExit_mirrors (h : World.Twins same base origin w v) :
    Mirrors Eq (World.Twins same base origin) Eq runExit runExit w v := by
  have hclosed := h.map (f := fun w => { w with remote := none }) (fun _ => rfl) rfl nofun
  refine .get_bind ?_
  rw [h.remote]
  cases w.remote with
  | none => exact .pure h rfl
  | some r =>
      refine .modify_bind (.get_bind ?_)
      rw [show World.now { v with remote := none } = World.now { w with remote := none } from h.now]
      exact .pure hclosed rfl

end Remote

namespace Screens

theorem close_mirrors (screen : Screen) (resolution : Resolution) (ctx : Context)
    (h : World.Twins same base origin w v) :
    Mirrors Eq (World.Twins same base origin) Eq (close screen resolution ctx (some base))
      (close screen resolution ctx (some base)) w v := by
  refine (Step.look_mirrors h).bind ?_
  rintro fs _ w' v' - - rfl h'
  dsimp only
  split
  · refine (Step.attempt_mirrors _ h').bind ?_
    rintro failure _ u x - - rfl hu
    cases failure <;> exact .pure hu rfl
  · exact .pure h' rfl

end Screens

namespace Dispatch

variable (hosts : List String) (ctx : Context) (input : Option String) (words : List String)

theorem runHistory_mirrors (h : World.Twins same base origin w v) :
    Mirrors Eq (World.Twins same base origin) Eq (runHistory words) (runHistory words) w v := by
  unfold runHistory
  dsimp only
  split
  · have hcleared := h.map (f := fun w => { w with history := [] }) (fun _ => rfl) rfl h.base
    exact .modify_bind (.pure hcleared rfl)
  · refine .get_bind ?_
    rw [h.history]
    split
    · exact .pure h rfl
    · refine .ite Iff.rfl (fun _ => .pure h rfl) fun _ => ?_
      split
      · exact .throw h rfl
      · exact .pure h rfl

theorem onVariables_mirrors (run : Environment → Outcome × Environment)
    (h : World.Twins same base origin w v) :
    Mirrors Eq (World.Twins same base origin) Eq (onVariables run) (onVariables run) w v := by
  have hran := h.map (f := fun w => { w with environment := (run w.environment).2 })
    (fun _ => rfl) rfl h.base
  have hsame : (run v.environment).1 = (run w.environment).1 := by rw [h.environment]
  exact .ok hsame.symm hran

theorem onScreen_mirrors (opener : FileSystem → Screens.Opening)
    (h : World.Twins same base origin w v) :
    Mirrors Eq (World.Twins same base origin) Eq (onScreen opener (some base))
      (onScreen opener (some base)) w v := by
  refine (Step.look_mirrors h).bind ?_
  rintro fs _ w' v' - - rfl h'
  exact .pure h' rfl

theorem plain_mirrors {step : Step Outcome}
    (h : Mirrors Eq (World.Twins same base origin) Eq step step w v) :
    Mirrors Eq (World.Twins same base origin) Eq (Result.of <$> step) (Result.of <$> step) w v := by
  rw [map_eq_pure_bind]
  refine h.bind ?_
  rintro o _ w' v' - - rfl h'
  exact .pure h' rfl

variable {r : RemoteSession} (h : World.Twins same base origin w v) (hremote : w.remote = some r)

include h hremote

/-- All commands of the session but `scp` see the directory only. -/
theorem session?_mirrors {name : String} (hname : name ≠ "scp") {step : Step Result}
    (hstep : session? hosts ctx (some base) name words = some step) :
    Mirrors Eq (World.Twins same base origin) Eq step step w v := by
  cases session?_cases hstep with
  | ssh => exact plain_mirrors (Remote.runSsh_mirrors hosts ctx words h hremote)
  | scp => exact absurd rfl hname
  | pager => exact onScreen_mirrors _ h
  | editor => exact onScreen_mirrors _ h
  | env => exact plain_mirrors (onVariables_mirrors _ h)
  | exports => exact plain_mirrors (onVariables_mirrors _ h)
  | unset => exact plain_mirrors (onVariables_mirrors _ h)
  | history => exact plain_mirrors (runHistory_mirrors words h)
  | exit =>
      refine (Remote.runExit_mirrors h).bind ?_
      rintro answer _ w' v' - - rfl h'
      exact .pure h' rfl

/-- What is run on the files that are seen goes to another directory on the other machine only. -/
theorem onFiles_mirrors : Mirrors Eq (World.Twins same base origin) Eq
    (onFiles ctx (some base) input words) (onFiles ctx (some base) input words) w v := by
  refine (Step.onView_mirrors _ h).bind ?_
  rintro outcome _ w' v' hw - rfl h'
  have hthere : w'.remote = some r := by
    rw [Step.run_onView_some] at hw
    split at hw <;> cases hw
    exact hremote
  dsimp only
  cases outcome.newDirectory with
  | none => exact .pure h' rfl
  | some path =>
      refine .modify_bind (.pure ?_ rfl)
      refine h'.map (fun fs => ?_) ?_ fun q hq => ?_
      · simp only [World.changeDirectory, hthere]
      · simp only [World.changeDirectory, hthere]
      · simp only [World.changeDirectory, hthere, Option.some.injEq] at hq
        rw [← hq]
        exact h'.base r hthere

/-- While a session on another machine is open, words other than those of `scp` do the same in
twins. -/
theorem run_mirrors (hwords : (bare ctx words).head? ≠ some "scp") :
    Mirrors Eq (World.Twins same base origin) Eq (run hosts ctx (some base) input words)
      (run hosts ctx (some base) input words) w v := by
  unfold run
  unfold bare at hwords
  dsimp only
  generalize (if ctx.elevated then words.dropWhile (· == "sudo") else words) = words at hwords
  cases words with
  | nil => exact onFiles_mirrors ctx input [] h hremote
  | cons name arguments =>
      dsimp only
      cases hsession : session? hosts ctx (some base) name arguments with
      | none => exact onFiles_mirrors ctx input _ h hremote
      | some step =>
          exact session?_mirrors hosts ctx arguments h hremote (fun hname => hwords (by simp [hname]))
            hsession

end Dispatch

namespace Tracker

/-- Whether no task of the open mission is left. -/
def IsIdle (t : Tracker) : Prop :=
  ∀ m, t.mission? = some m → ∀ task ∈ m.tasks, t.progress.completedTasks.contains task.id = true

theorem round_of_completed {p : Progress} {tasks : List Task}
    (h : ∀ task ∈ tasks, p.completedTasks.contains task.id = true) (o : Observation) :
    round p o tasks = ⟨[], [], none⟩ := by
  induction tasks with
  | nil => rfl
  | cons task rest ih =>
      rw [round, if_pos (h task (by simp)), ih fun t ht => h t (by simp [ht])]

/-- Where no task is left, nothing comes of an observation. -/
theorem record_of_isIdle {t : Tracker} (h : t.IsIdle) (o : Observation) :
    t.record o = (⟨[], [], none⟩, t) := by
  unfold record
  cases hmission : t.mission? with
  | none => rfl
  | some m =>
      dsimp only
      rw [round_of_completed (h m hmission) o]
      rfl

end Tracker

namespace Session

/-- Whether a session has no tasks that could be completed. -/
def HasNoTasks (s : Session) : Prop := ∀ t, s.tracker = some t → t.IsIdle

/-- Whether two sessions differ at most in the files outside of a directory and in what their
responses do not depend on, while neither has tasks left. Otherwise they must be the same. -/
structure Twins (same : Prop) (base : String) (origin : World) (s t : Session) : Prop where
  world : World.Twins same base origin s.world t.world
  options : t.options = s.options
  adventure : t.adventure? = s.adventure?
  tasks : (s.HasNoTasks ∧ t.HasNoTasks) ∨ same
  kept : same → t.tracker = s.tracker ∧ t.store = s.store

variable {same : Prop} {base : String} {origin : World} {s t : Session}

namespace Twins

theorem viewBase (h : Twins same base origin s t) : t.world.viewBase = s.world.viewBase := by
  rw [World.viewBase, World.viewBase, h.world.remote]

theorem prompt (h : Twins same base origin s t) : t.prompt = s.prompt := by
  unfold Session.prompt
  rw [h.options, h.world.rest]
  rfl

theorem intent? (h : Twins same base origin s t) : t.intent? = s.intent? := by
  rw [Session.intent?, Session.intent?, h.world.mode]

/-- A change of the worlds that leaves them twins leaves the sessions twins. -/
theorem withWorld {w v : World} (h : Twins same base origin s t)
    (hworld : World.Twins same base origin w v) :
    Twins same base origin { s with world := w } { t with world := v } :=
  ⟨hworld, h.options, h.adventure, h.tasks, h.kept⟩

theorem setMode (h : Twins same base origin s t) (mode : Mode) :
    Twins same base origin { s with world := { s.world with mode } }
      { t with world := { t.world with mode } } :=
  h.withWorld (h.world.map (f := fun w => { w with mode }) (fun _ => rfl) rfl h.world.base)

theorem note (h : Twins same base origin s t) (a : Activity) :
    Twins same base origin { s with journal := s.journal ++ [a] }
      { t with journal := t.journal ++ [a] } :=
  ⟨h.world, h.options, h.adventure, h.tasks, h.kept⟩

theorem remembering (h : Twins same base origin s t) (text : String) :
    Twins same base origin (s.remembering text) (t.remembering text) := by
  have hlimit : t.options.historyLimit = s.options.historyLimit := by rw [h.options]
  unfold Session.remembering
  rw [hlimit]
  exact h.withWorld (h.world.map (f := fun w => w.remember text s.options.historyLimit)
    (fun _ => rfl) rfl h.world.base)

end Twins

theorem step_mirrors {α : Type} {x y : Step α} (h : Twins same base origin s t)
    (hstep : Mirrors Eq (World.Twins same base origin) Eq x y s.world t.world) :
    Mirrors Eq (Twins same base origin) Eq (step x) (step y) s t := by
  rw [Mirrors, run_step, run_step]
  unfold Mirrors at hstep
  generalize x.run s.world = r at hstep
  generalize y.run t.world = r' at hstep
  cases hstep with
  | ok hresults hworlds => exact .ok hresults (h.withWorld hworlds)
  | error hfailures hworlds => exact .error (by rw [hfailures]) (h.withWorld hworlds)

theorem respond_mirrors (h : Twins same base origin s t) (make : String → Response) :
    Mirrors Eq (Twins same base origin) Eq (respond make) (respond make) s t := by
  refine .get_bind (.pure h ?_)
  rw [h.prompt]

/-- Without tasks, nothing but the journal changes when they are checked. -/
theorem run_checkTasks_of_hasNoTasks (h : s.HasNoTasks) (line : String) (o : Outcome) :
    ∃ journal, (checkTasks line o).run s = .ok [] { s with journal } := by
  unfold checkTasks
  rw [run_get_bind]
  cases htracker : s.tracker with
  | none =>
      refine ⟨s.journal, ?_⟩
      change EStateM.Result.ok [] s = _
      rw [← htracker]
  | some tracker =>
      dsimp only
      rw [Tracker.record_of_isIdle (h tracker htracker)]
      refine ⟨s.journal ++ [] ++ [], ?_⟩
      rw [← htracker]
      rfl

theorem saveProgress_mirrors (h : Twins same base origin s t) (hsame : same) :
    Mirrors Eq (Twins same base origin) Eq saveProgress saveProgress s t := by
  obtain ⟨htracker, hstore⟩ := h.kept hsame
  have hnow : t.world.now = s.world.now := h.world.now
  refine .get_bind (.get_bind ?_)
  rw [htracker, hstore]
  split
  · refine .get_bind ?_
    rw [hnow]
    split
    · refine .modify ⟨h.world, h.options, h.adventure, .inr hsame, fun _ => ⟨htracker, rfl⟩⟩ rfl
    · exact .throw h rfl
  · exact .pure h rfl

/-- Sessions without tasks have no events; others are the same and have the same events. -/
theorem checkTasks_mirrors (h : Twins same base origin s t) (line : String) (o : Outcome) :
    Mirrors Eq (Twins same base origin) Eq (checkTasks line o) (checkTasks line o) s t := by
  rcases h.tasks with ⟨hs, ht⟩ | hsame
  · obtain ⟨journal, hrun⟩ := run_checkTasks_of_hasNoTasks hs line o
    obtain ⟨journal', hrun'⟩ := run_checkTasks_of_hasNoTasks ht line o
    rw [Mirrors, hrun, hrun']
    exact .ok rfl ⟨h.world, h.options, h.adventure, h.tasks, h.kept⟩
  · obtain ⟨htracker, hstore⟩ := h.kept hsame
    have hworld : t.world = s.world := by rw [h.world.rest, h.world.same hsame]
    have hsees : t.observe line o = s.observe line o := by
      unfold observe
      rw [hworld]
    refine .get_bind ?_
    rw [htracker]
    cases s.tracker with
    | none => exact .pure h rfl
    | some tracker =>
        dsimp only
        rw [hsees]
        generalize tracker.record (s.observe line o) = recorded
        refine .set_bind ?_
        have hrecorded : ∀ journal journal' : Journal, Twins same base origin
            { s with tracker := some recorded.2, journal }
            { t with tracker := some recorded.2, journal := journal' } := fun _ _ =>
          ⟨h.world, h.options, rfl, .inr hsame, fun _ => ⟨rfl, hstore⟩⟩
        cases recorded.1.fault with
        | some fault => exact .throw (hrecorded _ _) rfl
        | none =>
            refine .modify_bind ?_
            by_cases hevents : (!recorded.1.events.isEmpty) = true
            · rw [if_pos hevents]
              refine (saveProgress_mirrors (hrecorded _ _) hsame).bind ?_
              rintro _ _ s' t' - - - h'
              exact .pure h' rfl
            · rw [if_neg hevents]
              exact .pure (hrecorded _ _) rfl

theorem finish_mirrors (h : Twins same base origin s t) (line : String) (o : Outcome)
    (leaves : Bool) {intent : Option Intent} :
    Mirrors Eq (Twins same base origin) Eq (finish line o intent leaves)
      (finish line o intent leaves) s t := by
  have hended := h.withWorld (h.world.map (f := fun w =>
    { w with environment := { w.environment with lastStatus := o.exitCode } }) (fun _ => rfl) rfl
    h.world.base)
  refine .modify_bind (.modify_bind ?_)
  refine (checkTasks_mirrors (hended.note _) line o).bind ?_
  rintro events _ s' t' - - rfl h'
  exact respond_mirrors h' _

theorem awaitPassword_mirrors (h : Twins same base origin s t) (line : CommandLine) (o : Outcome)
    (input said : Option String) :
    Mirrors Eq (Twins same base origin) Eq (awaitPassword line o input said)
      (awaitPassword line o input said) s t :=
  .modify_bind (respond_mirrors (h.setMode _) _)

theorem complete_mirrors (h : Twins same base origin s t) (line : CommandLine) (r : Dispatch.Result)
    (runner writer : Context) (said : Option String) :
    Mirrors Eq (Twins same base origin) Eq (complete line r runner writer (some base) said)
      (complete line r runner writer (some base) said) s t := by
  have hrest : ∀ {s t intent}, Twins same base origin s t → Mirrors Eq (Twins same base origin) Eq (do
      let o ← step (Step.onView (some base) (line.redirection.applyTo writer r.outcome said))
      finish line.text o intent r.leaves) (do
      let o ← step (Step.onView (some base) (line.redirection.applyTo writer r.outcome said))
      finish line.text o intent r.leaves) s t := by
    intro s t intent h
    refine (step_mirrors h (Step.onView_mirrors _ h.world)).bind ?_
    rintro o _ s' t' - - rfl h'
    exact finish_mirrors h' _ _ _
  unfold complete
  dsimp only
  cases r.screen with
  | none => exact hrest h
  | some screen => exact .modify_bind (hrest (h.setMode _))

theorem readInput_mirrors (h : Twins same base origin s t) (line : CommandLine) (ctx : Context)
    (otherwise : Option String) :
    Mirrors Eq (Twins same base origin) Eq (readInput line ctx (some base) otherwise)
      (readInput line ctx (some base) otherwise) s t := by
  unfold readInput
  split
  · refine (step_mirrors h (Step.look_mirrors h.world)).bind ?_
    rintro fs _ s' t' - - rfl h'
    exact .pure h' rfl
  · exact .pure h rfl

section

variable {r : RemoteSession} (h : Twins same base origin s t) (hremote : s.world.remote = some r)

include h hremote

theorem dispatch_mirrors {ctx : Context} {words : List String}
    (hwords : (Dispatch.bare ctx words).head? ≠ some "scp") (input : Option String) :
    Mirrors Eq (Twins same base origin) Eq (dispatch ctx (some base) input words)
      (dispatch ctx (some base) input words) s t := by
  refine .get_bind ?_
  rw [h.options]
  exact step_mirrors h (Dispatch.run_mirrors _ ctx input words h.world hremote hwords)

/-- On another machine nothing goes back to the directory before. -/
theorem dispatchOrGoBack_mirrors {line : CommandLine} {ctx : Context}
    (hwords : (Dispatch.bare ctx line.words).head? ≠ some "scp") (input : Option String) :
    Mirrors Eq (Twins same base origin) Eq (dispatchOrGoBack line ctx (some base) input)
      (dispatchOrGoBack line ctx (some base) input) s t := by
  refine .get_bind ?_
  dsimp only
  rw [h.world.remote, hremote, if_neg (by simp), if_neg (by simp)]
  exact dispatch_mirrors h hremote hwords input

theorem Twins.viewBase_eq : s.world.viewBase = some base := by
  rw [World.viewBase, hremote, ← h.world.base r hremote]
  rfl

theorem runLine_mirrors {line : CommandLine} {ctx : Context}
    (hwords : (Dispatch.bare ctx line.words).head? ≠ some "scp") :
    Mirrors Eq (Twins same base origin) Eq (runLine line ctx) (runLine line ctx) s t := by
  have hview := h.viewBase_eq hremote
  unfold runLine
  split
  · exact .modify_bind (respond_mirrors (h.setMode _) _)
  · refine .get_bind ?_
    dsimp only
    rw [h.viewBase, hview]
    refine (step_mirrors h (Step.look_mirrors h.world)).bind ?_
    rintro fs _ s' t' hlook - - h'
    refine (readInput_mirrors h' line ctx none).bind ?_
    rintro answer _ u v hread - rfl huv
    have hopen : u.world.remote = some r := by
      rw [((readInput_rests line ctx _ none).of_run hread).world,
        ((look_rests _).of_run hlook).world, hremote]
    cases answer with
    | error problem => exact finish_mirrors huv _ _ _
    | ok input =>
        have hprevious : ∀ w : World, w.remote = some r → lacksPrevious w line = false :=
          fun w hw => by simp [lacksPrevious, hw]
        refine .get_bind ?_
        rw [hprevious _ hopen, hprevious _ (huv.world.remote.trans hopen), if_neg Bool.false_ne_true]
        refine (dispatchOrGoBack_mirrors huv hopen hwords input).bind ?_
        rintro result _ x y - - rfl hxy
        exact .ite Iff.rfl (fun _ => awaitPassword_mirrors hxy _ _ _ _) fun _ =>
          complete_mirrors hxy _ _ _ _ _

theorem guard_mirrors (expanded : String) (ctx : Context) :
    Mirrors Eq (Twins same base origin) Eq (guard expanded ctx) (guard expanded ctx) s t := by
  have hview := h.viewBase_eq hremote
  refine .get_bind ?_
  rw [h.options, h.viewBase, hview, h.adventure]
  refine .ite Iff.rfl (fun _ => .pure h rfl) fun _ => ?_
  refine (step_mirrors h (Step.look_mirrors h.world)).bind ?_
  rintro fs _ s' t' - - rfl h'
  exact .pure h' rfl

/-- A command line is read and run in twins alike. -/
theorem submitCommand_mirrors {text : String} (hmode : s.world.mode = .normal)
    (hscp : ∀ ctx words, s.carried? (.line text) = some (ctx, words) → words.head? ≠ some "scp") :
    Mirrors Eq (Twins same base origin) Eq (submitCommand (withoutLineEnd text))
      (submitCommand (withoutLineEnd text)) s t := by
  unfold submitCommand
  dsimp only
  refine .ite Iff.rfl (fun _ => respond_mirrors h _) fun htext => ?_
  have hnoted := h.remembering (Text.Blank.trim (withoutLineEnd text))
  have henvironment : (s.remembering (Text.Blank.trim (withoutLineEnd text))).world.environment =
      s.world.environment := rfl
  refine .modify_bind (show Mirrors _ _ _ _ _ (s.remembering _) (t.remembering _) from .get_bind ?_)
  rw [hnoted.world.environment, henvironment]
  cases hparse : Redirection.parse (s.world.environment.expand
      (Text.Blank.trim (withoutLineEnd text))) with
  | error problem => exact finish_mirrors hnoted _ _ _
  | ok redirection =>
      refine .ite Iff.rfl (fun _ => finish_mirrors hnoted _ _ _) fun hwords => .get_bind ?_
      have hread := read?_of_parse htext hparse (by simpa using hwords)
      have hbare := hscp _ _ (carried?_of_read? hmode hread)
      rw [hnoted.world.context]
      refine (guard_mirrors hnoted hremote _ _).bind ?_
      rintro warning _ u v hguard - rfl huv
      cases warning with
      | none =>
          have hopen : u.world.remote = some r := by
            rw [((guard_rests _ _).of_run hguard).world]
            exact hremote
          exact runLine_mirrors huv hopen hbare
      | some warning =>
          exact .modify_bind (.modify_bind (respond_mirrors ((huv.setMode _).note _) _))

/-- Once the password is given, the words that have waited are run in twins alike. -/
theorem submitPassword_mirrors {text : String} {line : CommandLine} (input said : Option String)
    (hscp : text = s.options.password →
      (Dispatch.bare s.world.context.elevate line.words).head? ≠ some "scp") :
    Mirrors Eq (Twins same base origin) Eq (submitPassword text line input said)
      (submitPassword text line input said) s t := by
  have hnormal := h.setMode .normal
  have hpassword : text ≠ s.options.password ↔ text ≠ t.options.password := by rw [h.options]
  unfold submitPassword
  refine .modify_bind (.get_bind (.ite hpassword (fun _ => .modify_bind ?_) fun htext =>
    .modify_bind ?_))
  · exact finish_mirrors (hnormal.note _) _ _ _
  · have hgiven := hnormal.note (.password true)
    dsimp only
    rw [viewBase_setMode s.world, viewBase_setMode t.world, context_setMode s.world,
      context_setMode t.world, h.viewBase, h.viewBase_eq hremote, h.world.context]
    refine (step_mirrors hgiven (Step.look_mirrors hgiven.world)).bind ?_
    rintro _ _ u v hlook - - huv
    refine (readInput_mirrors huv line s.world.context.elevate input).bind ?_
    rintro answer _ x y hread - rfl hxy
    have hopen : x.world.remote = some r := by
      rw [((readInput_rests line _ _ _).of_run hread).world, ((look_rests _).of_run hlook).world]
      exact hremote
    cases answer with
    | error problem => exact finish_mirrors hxy _ _ _
    | ok input =>
        refine (dispatch_mirrors hxy hopen (hscp (not_not.1 htext)) input).bind ?_
        rintro result _ _ _ - - rfl hlast
        exact complete_mirrors hlast _ _ _ _ _

/-- At the end of the input the words that have waited for it are run in twins alike. -/
theorem submitInput_mirrors {text : String} {line : CommandLine} {marker : String}
    (lines : List String)
    (hscp : text = marker → (Dispatch.bare s.world.context line.words).head? ≠ some "scp") :
    Mirrors Eq (Twins same base origin) Eq (submitInput text line marker lines)
      (submitInput text line marker lines) s t := by
  have hnormal := h.setMode .normal
  unfold submitInput
  refine .ite Iff.rfl (fun _ => .modify_bind (respond_mirrors (h.setMode _) _)) fun htext =>
    .modify_bind (.get_bind ?_)
  dsimp only
  rw [viewBase_setMode s.world, viewBase_setMode t.world, context_setMode s.world,
    context_setMode t.world, h.viewBase, h.viewBase_eq hremote, h.world.context]
  refine (step_mirrors hnormal (Step.look_mirrors hnormal.world)).bind ?_
  rintro _ _ u v hlook - - huv
  have hopen : u.world.remote = some r := by
    rw [((look_rests _).of_run hlook).world]
    exact hremote
  refine (dispatch_mirrors huv hopen (hscp (not_not.1 htext)) _).bind ?_
  rintro result _ x y - - rfl hxy
  exact .ite Iff.rfl (fun _ => awaitPassword_mirrors hxy _ _ _ _) fun _ =>
    complete_mirrors hxy _ _ _ _ _

theorem submit_mirrors {text : String}
    (hscp : ∀ ctx words, s.carried? (.line text) = some (ctx, words) → words.head? ≠ some "scp") :
    Mirrors Eq (Twins same base origin) Eq (submit text) (submit text) s t := by
  unfold submit
  refine .get_bind ?_
  rw [h.world.mode]
  cases hmode : s.world.mode with
  | normal => exact submitCommand_mirrors h hremote hmode hscp
  | password line input said =>
      exact submitPassword_mirrors h hremote input said fun htext =>
        hscp _ _ (carried?_of_password hmode htext)
  | collecting line marker lines =>
      exact submitInput_mirrors h hremote lines fun htext =>
        hscp _ _ (carried?_of_collecting hmode htext)
  | confirming line warning ctx =>
      refine .pure h ?_
      rw [h.prompt, h.intent?]
  | showing screen ctx command =>
      refine .pure h ?_
      rw [h.prompt, h.intent?]

theorem resolve_mirrors {resolution : Resolution}
    (hscp : ∀ ctx words, s.carried? (.answer resolution) = some (ctx, words) →
      words.head? ≠ some "scp") :
    Mirrors Eq (Twins same base origin) Eq (resolve resolution) (resolve resolution) s t := by
  have hnormal := h.setMode .normal
  unfold resolve
  refine .get_bind ?_
  rw [h.world.mode]
  cases hmode : s.world.mode with
  | confirming line warning ctx =>
      refine .modify_bind (.ite Iff.rfl (fun hconfirmed => .modify_bind ?_) fun _ =>
        .modify_bind (respond_mirrors (hnormal.note _) _))
      subst hconfirmed
      exact runLine_mirrors (hnormal.note _) hremote (hscp _ _ (carried?_of_confirming hmode))
  | showing screen ctx command =>
      refine .modify_bind (.get_bind ?_)
      dsimp only
      rw [viewBase_setMode s.world, viewBase_setMode t.world, h.viewBase, h.viewBase_eq hremote]
      refine (step_mirrors hnormal (Screens.close_mirrors screen resolution ctx hnormal.world)).bind ?_
      rintro o _ u v - - rfl huv
      exact finish_mirrors huv _ _ _
  | normal => exact respond_mirrors h _
  | collecting line marker lines => exact respond_mirrors h _
  | password line input said => exact respond_mirrors h _

/-- While a session on another machine is open, a turn that does not carry out `scp` does the same in
twins. -/
theorem act_mirrors {turn : Turn}
    (hscp : ∀ ctx words, s.carried? turn = some (ctx, words) → words.head? ≠ some "scp") :
    Mirrors Eq (Twins same base origin) Eq turn.act turn.act s t := by
  cases turn with
  | line text => exact submit_mirrors h hremote hscp
  | answer resolution => exact resolve_mirrors h hremote hscp

end

/-- The answers to turns for as long as a session on another machine is open, that to the turn which
closes it included, and the session after them. -/
def visit (s : Session) : List Turn → List (Except Fault Response) × Session
  | [] => ([], s)
  | turn :: turns =>
    if s.world.remote.isNone then ([], s)
    else
      let run := turn.act.run s
      let later := visit (left run) turns
      (Run.answer run :: later.1, later.2)

/-- Whether no turn carries out `scp` for as long as a session on another machine is open. -/
def NeverCopies (s : Session) : List Turn → Prop
  | [] => True
  | turn :: turns => s.world.remote.isSome →
    (∀ ctx words, s.carried? turn = some (ctx, words) → words.head? ≠ some "scp") ∧
      NeverCopies (left (turn.act.run s)) turns

/-- Twins answer a whole visit alike and are twins after it. -/
theorem visit_mirrors {turns : List Turn} (h : Twins same base origin s t)
    (hscp : s.NeverCopies turns) : (t.visit turns).1 = (s.visit turns).1 ∧
      Twins same base origin (s.visit turns).2 (t.visit turns).2 := by
  induction turns generalizing s t with
  | nil => exact ⟨rfl, h⟩
  | cons turn turns ih =>
      unfold visit
      rw [h.world.remote]
      cases hremote : s.world.remote with
      | none => exact ⟨rfl, h⟩
      | some r =>
          obtain ⟨hturn, hturns⟩ := hscp (by rw [hremote]; rfl)
          have hends := act_mirrors h hremote hturn
          obtain ⟨hanswers, hlater⟩ := ih hends.states hturns
          refine ⟨?_, hlater⟩
          dsimp only
          rw [hends.answer_eq, hanswers]
          rfl

/-- Whether two sessions without tasks differ in nothing but the files outside of a directory and in
what their responses do not depend on. -/
structure LooksLike (base : String) (s t : Session) : Prop where
  options : t.options = s.options
  adventure : t.adventure? = s.adventure?
  tasks : s.HasNoTasks ∧ t.HasNoTasks
  world : t.world = { s.world with fs := t.world.fs }
  view : t.world.fs.view base = s.world.fs.view base
  now : t.world.fs.now = s.world.fs.now

/-- While a session on another machine is open, nothing outside of its directory changes, and nothing
outside of it is told or plays a part, unless `scp` is carried out. -/
theorem visits_are_isolated {r : RemoteSession} (hremote : s.world.remote = some r)
    {turns : List Turn} (hscp : s.NeverCopies turns) :
    (∀ place, ¬ Path.segments r.base <+: place →
      (s.visit turns).2.world.fs.faceAt place = s.world.fs.faceAt place) ∧
    (s.visit turns).2.world.directory = s.world.directory ∧
    ∀ t, LooksLike r.base s t → (t.visit turns).1 = (s.visit turns).1 ∧
      (t.visit turns).2.world.fs.view r.base = (s.visit turns).2.world.fs.view r.base := by
  have hbase : ∀ q, s.world.remote = some q → q.base = r.base := by
    intro q hq
    rw [Option.some.inj (hremote.symm.trans hq)]
  -- a session is its own twin, whatever tasks it has
  have hself : Twins True r.base s.world s s :=
    ⟨⟨rfl, rfl, rfl, fun _ => rfl, fun _ _ => rfl, rfl, hbase⟩, rfl, rfl, .inr trivial,
      fun _ => ⟨rfl, rfl⟩⟩
  have hlater := (visit_mirrors hself hscp).2
  refine ⟨hlater.world.outside, hlater.world.directory, fun t ht => ?_⟩
  have htwins : Twins False r.base s.world s t :=
    ⟨⟨ht.view, ht.now, ht.world, nofun, fun _ _ => rfl, rfl, hbase⟩, ht.options, ht.adventure,
      .inl ht.tasks, nofun⟩
  obtain ⟨hanswers, hafter⟩ := visit_mirrors htwins hscp
  exact ⟨hanswers, hafter.world.view⟩

/-- Files with the home of a learner and with the one that the learner has on other machines. -/
def homesOfAda (time : Int) : FileSystem :=
  let directory := fun (entries : Entries) =>
    Node.directory ⟨"ada", Permissions.newDirectory, 0⟩ entries
  { homeOfAda with entries := [
      ("home", .directory ⟨"ada", Permissions.newDirectory, time⟩ [("ada", directory [])]),
      ("remotes", directory [("ada", directory [("filesystem",
        directory [("home", directory [("ada", directory [])])])])])] }

/-- A session in which a learner has just gone to another machine. -/
def visiting (time : Int) : Session := { justBegun with
  world := { justBegun.world with
    fs := homesOfAda time
    remote := some ⟨"lab", "ada", "/home/ada", 0⟩ } }

theorem looksLike_visiting (time : Int) :
    LooksLike "/remotes/ada/filesystem" (visiting 0) (visiting time) where
  options := rfl
  adventure := rfl
  tasks := ⟨nofun, nofun⟩
  world := rfl
  view := by rfl
  now := rfl

theorem touch_stays_on_the_other_machine :
    (visiting 0).world.remote = some ⟨"lab", "ada", "/home/ada", 0⟩ ∧
      (visiting 0).NeverCopies [.line "touch notes"] ∧
      LooksLike "/remotes/ada/filesystem" (visiting 0) (visiting 7) ∧
      ((visiting 0).visit [.line "touch notes"]).2.world.fs.faceAt ["home", "ada"] =
        (visiting 0).world.fs.faceAt ["home", "ada"] ∧
      ((visiting 7).visit [.line "touch notes"]).1 =
        ((visiting 0).visit [.line "touch notes"]).1 := by
  have hread : (visiting 0).read? "touch notes" = some ("touch notes",
    ⟨"touch notes", ["touch", "notes"], ⟨"touch notes", .none⟩⟩) := by decide +kernel
  have hscp : (visiting 0).NeverCopies [.line "touch notes"] := by
    refine fun _ => ⟨fun ctx words hcarried => ?_, trivial⟩
    rw [carried?_of_read? rfl hread] at hcarried
    obtain ⟨rfl, rfl⟩ := Prod.mk.inj (Option.some.inj hcarried)
    decide
  have hisolated := visits_are_isolated (s := visiting 0) rfl hscp
  refine ⟨rfl, hscp, looksLike_visiting 7, ?_, (hisolated.2.2 _ (looksLike_visiting 7)).1⟩
  exact hisolated.1 _ (by decide)

end Session

end PracticeShell
