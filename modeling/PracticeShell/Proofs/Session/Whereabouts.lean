import PracticeShell.Proofs.Path.Resolving
import PracticeShell.Proofs.Session.Course
import PracticeShell.Proofs.Session.Sojourns

/-!
# Where a session is

A session keeps its directory twice: for itself, and in a variable that commands can read. The directory
before is kept in another variable. While nothing names these two variables, they tell the truth
(`World.IsOriented`): commands change the directory only together with them, on another machine they
change neither, and `cd -` exchanges the two directories.
-/

namespace PracticeShell

open Run

/-- Whether the variables tell where a world is and where it was before, in normal paths. -/
structure World.IsOriented (w : World) : Prop where
  home : Path.normalize (Path.home w.username) = Path.home w.username
  current : w.environment.get? "PWD" = some w.directory
  isNormal : Path.normalize w.directory = w.directory
  previous : ∀ path, w.environment.get? "OLDPWD" = some path → Path.normalize path = path

/-- Whether a world is oriented if it was so before. -/
def World.Orients (w v : World) : Prop := w.IsOriented → v.IsOriented

namespace World

variable {w v : World}

theorem lasting_orients : Lasting Orients := lasting_invariant _

/-- Only the user, the directory and the two variables matter. -/
theorem IsOriented.congr (h : w.IsOriented) (husername : v.username = w.username)
    (hdirectory : v.directory = w.directory)
    (hcurrent : v.environment.get? "PWD" = w.environment.get? "PWD")
    (hprevious : v.environment.get? "OLDPWD" = w.environment.get? "OLDPWD") : v.IsOriented where
  home := by rw [husername, h.home]
  current := by rw [hcurrent, hdirectory, h.current]
  isNormal := by rw [hdirectory, h.isNormal]
  previous path hpath := h.previous path (hprevious ▸ hpath)

theorem travels_orients : World.Travels Orients where
  lasting := lasting_orients
  files _ _ h := h.congr rfl rfl rfl rfl
  remote _ _ h := h.congr rfl rfl rfl rfl

/-- Where an oriented world was before, after it has gone to a directory. -/
theorem get?_changeDirectory (h : w.IsOriented) (hremote : w.remote = none) (path : String) :
    (w.changeDirectory path).directory = path ∧
      (w.changeDirectory path).environment.get? "PWD" = some path ∧
      (w.changeDirectory path).environment.get? "OLDPWD" =
        if w.directory = path then w.environment.get? "OLDPWD" else some w.directory := by
  unfold changeDirectory Environment.changeDirectory
  rw [hremote, h.current]
  dsimp only
  split
  · rename_i hsame
    exact ⟨rfl, hsame ▸ h.current, rfl⟩
  · exact ⟨rfl, by simp [Environment.get?_put], by simp [Environment.get?_put]⟩

/-- An oriented world that goes to a directory by a normal path is oriented there. On another machine
nothing of it changes. -/
theorem changeDirectory_orients {path : String}
    (hpath : w.remote = none → Path.normalize path = path) : w.Orients (w.changeDirectory path) := by
  intro h
  cases hremote : w.remote with
  | some r =>
      unfold changeDirectory
      rw [hremote]
      exact h.congr rfl rfl rfl rfl
  | none =>
      obtain ⟨hdirectory, hcurrent, hprevious⟩ := get?_changeDirectory h hremote path
      have husername : (w.changeDirectory path).username = w.username := by
        rw [changeDirectory, hremote]
      refine ⟨by rw [husername, h.home], by rw [hcurrent, hdirectory], ?_, ?_⟩
      · rw [hdirectory, hpath hremote]
      · rw [hprevious]
        split
        · exact h.previous
        · rintro before ⟨⟩
          exact h.isNormal

/-- Going to the directory before exchanges the two. -/
theorem IsOriented.changeDirectory_previous (h : w.IsOriented) (hremote : w.remote = none)
    {old : String} (hold : w.environment.get? "OLDPWD" = some old) :
    (w.changeDirectory old).directory = old ∧
      (w.changeDirectory old).environment.get? "OLDPWD" = some w.directory := by
  obtain ⟨hdirectory, -, hprevious⟩ := get?_changeDirectory h hremote old
  refine ⟨hdirectory, ?_⟩
  rw [hprevious]
  split
  · -- There is nothing to exchange then, and `OLDPWD` stays what it was.
    rename_i hsame
    rw [hold, hsame]
  · rfl

/-- The directory before is normal, so that a `cd` to it that succeeds goes just there. -/
theorem IsOriented.runCd_previous (h : w.IsOriented) {old : String}
    (hold : w.environment.get? "OLDPWD" = some old)
    (hok : (Command.runCd w.context [old] w.fs).exitCode = 0) :
    Command.runCd w.context [old] w.fs = { newDirectory := some old } := by
  rcases Command.runCd_cases w.context [old] w.fs with ⟨errors, -, hfail⟩ | hgoes
  · rw [hfail] at hok
    cases hok
  · rw [hgoes, List.headD_cons, Context.resolve, Path.resolve_of_normalize (h.previous old hold)]

end World

namespace Dispatch

variable {hosts : List String} {ctx : Context} {base input : Option String} {words : List String}
  {w : World}

/-- Words that do not name the two variables keep a world oriented, if they are run for its user. -/
theorem run_orients (hctx : w.remote = none → ctx.username = w.username)
    (hcall : ∀ call, Environment.Call.ofWords? (bare ctx words) = some call →
      call.names "PWD" = false ∧ call.names "OLDPWD" = false) :
    Leads World.Orients (run hosts ctx base input words) w := by
  refine run_leads_of_travels World.travels_orients (fun call hwords h => ?_) (fun fs target h => ?_)
    fun _ h => h.congr rfl rfl rfl rfl
  · obtain ⟨hcurrent, hprevious⟩ := hcall call hwords
    exact h.congr rfl rfl (Environment.get?_call hcurrent) (Environment.get?_call hprevious)
  · refine World.changeDirectory_orients (fun hremote => ?_) h
    have hhome : Path.normalize (Path.home ctx.username) = Path.home ctx.username := by
      rw [hctx hremote]
      exact h.home
    exact Path.normalize_resolve_of_home hhome _ _

end Dispatch

namespace Redirection

/-- What is a problem with a redirection is a failure. -/
theorem exitCode_of_write {ctx : Context} {t : Target} {output : String} {fs later : FileSystem}
    {problem : Outcome} (h : write ctx t output fs = (some problem, later)) :
    problem.exitCode = Outcome.failure := by
  unfold write at h
  dsimp only at h
  split at h
  · cases h
    rfl
  · split at h
    · cases h
      rfl
    · split at h <;> cases h
      rfl

theorem exitCode_of_input {ctx : Context} {fs : FileSystem} {operand : String} {problem : Outcome}
    (h : input ctx fs operand = .error problem) : problem.exitCode = Outcome.failure := by
  unfold input at h
  dsimp only at h
  repeat' split at h
  all_goals cases h
  all_goals rfl

/-- A command whose output has been sent on succeeds only if it has succeeded before. -/
theorem exitCode_of_applyTo {r : Redirection} {ctx : Context} {o : Outcome} {said : Option String}
    {fs : FileSystem} (h : (r.applyTo ctx o said fs).1.exitCode = 0) : o.exitCode = 0 := by
  unfold applyTo at h
  cases htarget : r.target? with
  | none =>
      rw [htarget] at h
      exact h
  | some t =>
      rw [htarget] at h
      cases hwrite : write ctx t o.output fs with
      | mk answer later =>
          change Outcome.exitCode (StateT.bind (write ctx t o.output) _ fs).1 = 0 at h
          unfold StateT.bind at h
          rw [hwrite] at h
          cases answer with
          | none => exact h
          | some problem =>
              have hfails : problem.exitCode = 0 := h
              rw [exitCode_of_write hwrite] at hfails
              cases hfails

end Redirection

namespace Session

variable {s : Session}

/-- Whether a session is oriented if it was so before. -/
def Orients (s t : Session) : Prop := s.world.Orients t.world

/-- What an input asks of the variables, by the words that it has run. -/
def call? : Session × Input → Option Environment.Call
  | (s, .line text) => (s.carried? (.line text)).bind fun carried => Environment.Call.ofWords? carried.2
  | (s, .answer resolution) =>
    (s.carried? (.answer resolution)).bind fun carried => Environment.Call.ofWords? carried.2
  | _ => none

/-- Whether an input names a variable in an `env`, `export` or `unset` that it has run. -/
def names (name : String) (step : Session × Input) : Bool := (call? step).any (·.names name)

/-- Whether a line that waits for consent is to be run where the session is. -/
def IsHeld (s : Session) : Prop :=
  ∀ line warning ctx, s.world.mode = .confirming line warning ctx → ctx = s.world.context

theorem accompanies_orients : Accompanies Orients where
  lasting := ⟨fun _ => World.lasting_orients.refl _, fun h h' => World.lasting_orients.trans h h'⟩
  progress _ _ _ h := h
  aside _ _ _ h := h
  files _ _ h := h.congr rfl rfl rfl rfl
  history _ _ h := h.congr rfl rfl rfl rfl
  status _ _ h := h.congr rfl rfl rfl rfl
  mode _ _ _ h := h.congr rfl rfl rfl rfl
  closing _ h := h

theorem dispatch_orients {ctx : Context} {base input : Option String} {words : List String}
    (hctx : s.world.remote = none → ctx.username = s.world.username)
    (hcall : ∀ call, Environment.Call.ofWords? (Dispatch.bare ctx words) = some call →
      call.names "PWD" = false ∧ call.names "OLDPWD" = false) :
    Leads Orients (dispatch ctx base input words) s :=
  .get_bind (step_leads (Dispatch.run_orients hctx hcall))

theorem dispatchOrGoBack_orients {line : CommandLine} {ctx : Context} {base input : Option String}
    (hctx : s.world.remote = none → ctx.username = s.world.username)
    (hcall : ∀ call, Environment.Call.ofWords? (Dispatch.bare ctx line.words) = some call →
      call.names "PWD" = false ∧ call.names "OLDPWD" = false) :
    Leads Orients (dispatchOrGoBack line ctx base input) s := by
  refine dispatchOrGoBack_leads accompanies_orients.lasting (dispatch_orients hctx hcall)
    (dispatch_orients hctx fun call hwords => ?_)
  have hnone : Environment.Call.ofWords?
      (Dispatch.bare ctx ["cd", (s.world.environment.get? "OLDPWD").getD ""]) = none := by
    unfold Dispatch.bare
    split <;> rfl
  rw [hnone] at hwords
  cases hwords

/-- Whether an input names neither of the two variables. -/
def NamesNeither (step : Session × Input) : Prop :=
  names "PWD" step = false ∧ names "OLDPWD" step = false

theorem NamesNeither.of_call? {step : Session × Input} (h : NamesNeither step)
    {call : Environment.Call} (hcall : call? step = some call) :
    call.names "PWD" = false ∧ call.names "OLDPWD" = false := by
  unfold NamesNeither names at h
  rwa [hcall] at h

theorem submit_orients {text : String} (h : NamesNeither (s, .line text)) :
    Leads Orients (submit text) s := by
  have hR := accompanies_orients
  have hctx : s.world.remote = none → s.world.context.username = s.world.username := fun hremote => by
    rw [World.context, hremote]
  cases hmode : s.world.mode with
  | normal =>
      have hruns : Leads Orients (submit text) s ∨ _ :=
        hR.submit_leads_or_warns hmode fun expanded line hread base input => by
          refine dispatchOrGoBack_orients (s := s.remembering line.text) hctx fun call hcall => ?_
          refine h.of_call? ?_
          rw [call?, carried?_of_read? hmode hread]
          exact hcall
      rcases hruns with hleads | ⟨line, warning, r, hrun⟩
      · exact hleads
      · rw [Leads, hrun]
        exact fun h => h.congr rfl rfl rfl rfl
  | collecting line marker lines =>
      rw [Leads, run_submit_collecting hmode]
      refine hR.submitInput_leads fun htext base input => ?_
      refine dispatch_orients (s := s.ready) hctx fun call hcall => h.of_call? ?_
      rw [call?, carried?_of_collecting hmode htext]
      exact hcall
  | password line input said =>
      rw [Leads, run_submit_password hmode]
      refine hR.lasting.trans (t := s.checking (withoutLineEnd text))
        (fun h => h.congr rfl rfl rfl rfl) (hR.submitPassword_leads fun htext base input => ?_)
      refine dispatch_orients (s := s.checking (withoutLineEnd text)) hctx fun call hcall =>
        h.of_call? ?_
      rw [call?, carried?_of_password hmode htext]
      exact hcall
  | confirming line warning ctx =>
      rw [Leads, Orients, (submit_rests_of_intent? (by rw [intent?, hmode]; rfl)).world]
      exact id
  | showing screen ctx command =>
      rw [Leads, Orients, (submit_rests_of_intent? (by rw [intent?, hmode]; rfl)).world]
      exact id

theorem resolve_orients (hheld : s.IsHeld) {resolution : Resolution}
    (h : NamesNeither (s, .answer resolution)) : Leads Orients (resolve resolution) s := by
  have hR := accompanies_orients
  cases hwarning : s.world.mode.warning? with
  | none => exact hR.resolve_leads resolution hwarning
  | some warning =>
      obtain ⟨line, ctx, hmode⟩ := Mode.eq_confirming_of_warning? hwarning
      have hsettling : ∀ settlement, Orients s (s.settling warning.level settlement) := fun _ h =>
        h.congr rfl rfl rfl rfl
      refine hR.lasting.trans (hsettling _)
        (hR.resolve_leads_of_confirming hmode fun hconfirmed base input => ?_)
      subst hconfirmed
      refine dispatchOrGoBack_orients (fun hremote => ?_) fun call hcall => h.of_call? ?_
      · rw [hheld line warning ctx hmode, World.context, show s.world.remote = none from hremote]
        rfl
      · rw [call?, carried?_of_confirming hmode]
        exact hcall

/-- Whether whatever a learner starts with is oriented. -/
def StartsOriented (o : SessionOptions) (adventure : Option Adventure) : Prop :=
  ∀ now w, startWorld o adventure now = .ok w → w.IsOriented

theorem reset_orients (h : StartsOriented s.options s.adventure?) : Leads Orients reset s := by
  cases hstart : startWorld s.options s.adventure? s.world.now with
  | error e =>
      rw [Leads, reset, run_get_bind, hstart]
      exact accompanies_orients.lasting.refl s
  | ok w =>
      rw [Leads, run_reset hstart]
      exact fun _ => h _ _ hstart

theorem ask_orients (h : StartsOriented s.options s.adventure?) (text : String) :
    Leads Orients (ask text) s := by
  have hR := accompanies_orients
  by_cases hreset : StartsOver (s, .question text)
  · obtain ⟨hmode, hread⟩ := hreset
    refine .get_bind ?_
    rw [hmode, hread]
    refine .bind hR.lasting ?_ fun _ t _ => hR.lasting.refl t
    exact .bind hR.lasting (reset_orients h) fun _ t _ => hR.lasting.refl t
  · exact hR.ask_leads hreset

theorem next_orients (hstarts : StartsOriented s.options s.adventure?) (hheld : s.IsHeld) {i : Input}
    (h : NamesNeither (s, i)) : Orients s (s.next i) := by
  have hR := accompanies_orients
  cases i with
  | line text =>
      rw [next_eq_submit]
      exact submit_orients h
  | answer resolution =>
      rw [next_eq_resolve]
      exact resolve_orients hheld h
  | question text =>
      rw [next_eq_ask]
      exact ask_orients hstarts text
  | hint level =>
      rw [next, Input.act, left_discard]
      exact hR.hint_leads level
  | reset => exact reset_orients hstarts
  | close => exact hR.close_leads
  | tick seconds => exact hR.files s _

theorem reset_isHeld (h : s.IsHeld) : (left (reset.run s)).IsHeld := by
  cases hstart : startWorld s.options s.adventure? s.world.now with
  | error e =>
      rw [reset, run_get_bind, hstart]
      exact h
  | ok w =>
      rw [run_reset hstart]
      intro line warning ctx hmode
      rw [left_ok, mode_startWorld hstart] at hmode
      cases hmode

/-- A line that waits for consent is still to be run where the session is, whatever comes in between. -/
theorem next_isHeld (h : s.IsHeld) (i : Input) : (s.next i).IsHeld := by
  by_cases hreset : i = .reset
  · subst hreset
    exact reset_isHeld h
  intro line warning ctx hmode
  rcases next_carriesOn_or_warns (s := s) i with hcarries | ⟨line', warning', -, hnext⟩
  · rcases hcarries.mode with hsame | hnone
    · rw [hmode] at hsame
      obtain ⟨hheeding, hanswer⟩ := heeding_of_waits (by rw [← hsame]; rfl)
      rw [hheeding] at hsame
      have hgoes : ¬ StartsOver (s, i) := by
        cases i with
        | reset => exact absurd rfl hreset
        | question text => exact fun hstarts => nomatch hsame.trans hstarts.1
        | _ => exact id
      obtain ⟨fs, hworld⟩ := next_of_waits (by rw [← hsame]; rfl) hanswer hgoes
      rw [hworld]
      exact h line warning ctx hsame.symm
    · rw [hmode] at hnone
      cases hnone
  · rw [hnext] at hmode ⊢
    cases hmode
    rfl

/-- What a run with the two variables left alone keeps. -/
theorem after_isOriented (hstarts : StartsOriented s.options s.adventure?) (hheld : s.IsHeld)
    (h : s.world.IsOriented) {inputs : List Input}
    (hnames : ∀ step ∈ s.steps inputs, NamesNeither step) :
    (s.after inputs).world.IsOriented := by
  induction inputs generalizing s with
  | nil => exact h
  | cons i inputs ih =>
      rw [steps, List.forall_mem_cons] at hnames
      have habides := next_abides (s := s) i
      refine ih ?_ (next_isHeld hheld i) (next_orients hstarts hheld hnames.1 h) hnames.2
      rwa [habides.options, habides.adventure]

theorem startsOriented_of_free {o : SessionOptions} {adventure : Option Adventure}
    (huser : Path.IsSegment o.username) (hfree : ∀ a, adventure = some a →
      ∀ p ∈ a.environment, p.1 ≠ "PWD" ∧ p.1 ≠ "OLDPWD") : StartsOriented o adventure := by
  intro now w hstart
  obtain ⟨fs, -, hworld⟩ := startWorld_eq_ok_iff.1 hstart
  obtain ⟨made, rfl⟩ := World.eq_of_start hworld
  have hextra : ∀ p ∈ (adventure.map (·.environment)).getD [], p.1 ≠ "PWD" ∧ p.1 ≠ "OLDPWD" := by
    cases adventure with
    | none => simp
    | some a => exact hfree a rfl
  have hhome := Path.normalize_home_of_isSegment huser
  refine ⟨hhome, ?_, hhome, fun path hpath => ?_⟩
  · dsimp only
    rw [Environment.get?_start_of_not_mem fun p hp => (hextra p hp).1]
    rfl
  · dsimp only at hpath
    rw [Environment.get?_start_of_not_mem fun p hp => (hextra p hp).2] at hpath
    cases hpath

/-- Whether a text is a command line `cd -` that is run at once on this machine, and succeeds. -/
def GoesBack (s : Session) (text : String) : Prop :=
  s.world.mode = .normal ∧ s.world.remote = none ∧
    (∃ expanded line, s.read? text = some (expanded, line) ∧ line.words = ["cd", "-"] ∧
      ∀ marker output, line.redirection.effect ≠ .lines marker output) ∧
    ∃ r, response? (s, .line text) = some r ∧ r.Proceeds ∧ r.exitCode = 0

variable {t u : Session} {text : String} {line : CommandLine} {r : Response}

theorem exitCode_of_finish {command : String} {o : Outcome} {intent : Option Intent} {leaves : Bool}
    (hrun : (finish command o intent leaves).run s = .ok r t) : r.exitCode = o.exitCode := by
  obtain ⟨-, u, -, hrun⟩ := run_bind_eq_ok_iff.1 hrun
  obtain ⟨-, v, -, hrun⟩ := run_bind_eq_ok_iff.1 hrun
  obtain ⟨events, x, -, hrun⟩ := run_bind_eq_ok_iff.1 hrun
  rw [run_respond] at hrun
  cases hrun
  rfl

/-- Where input cannot be read, the line fails. -/
theorem exitCode_of_readInput {ctx : Context} {base otherwise : Option String} {problem : Outcome}
    (hrun : (readInput line ctx base otherwise).run s = .ok (.error problem) t) :
    problem.exitCode = Outcome.failure := by
  unfold readInput at hrun
  split at hrun
  · rename_i operand heffect
    obtain ⟨fs, u, -, hrun⟩ := run_bind_eq_ok_iff.1 hrun
    cases hinput : Redirection.input ctx fs operand with
    | ok contents =>
        rw [hinput] at hrun
        cases hrun
    | error problem' =>
        rw [hinput] at hrun
        cases hrun
        exact Redirection.exitCode_of_input hinput
  · cases hrun

/-- What `cd` with one operand does on this machine. -/
theorem run_dispatch_cd {ctx : Context} (hctx : ctx.elevated = false) (input : Option String)
    (target : String) (s : Session) :
    (dispatch ctx none input ["cd", target]).run s =
      .ok (.of (Command.runCd ctx [target] s.world.fs)) { s with
        world := match (Command.runCd ctx [target] s.world.fs).newDirectory with
          | some path => s.world.changeDirectory path
          | none => s.world } := by
  have hrun : (Dispatch.run s.options.remoteHosts ctx none input ["cd", target]).run s.world =
      (Dispatch.onFiles ctx none input ["cd", target]).run s.world := by
    unfold Dispatch.run
    rw [hctx]
    rfl
  rw [dispatch, run_get_bind, run_step, hrun, Dispatch.run_onFiles_none]
  rfl

/-- What is left of the world once the output of a command without a screen is sent on, and whether
the command has succeeded. -/
theorem of_complete {answer : Dispatch.Result} {runner writer : Context} {base said : Option String}
    (hscreen : answer.screen = none) (hrun : (complete line answer runner writer base said).run s = .ok r t) :
    (r.exitCode = 0 → answer.outcome.exitCode = 0) ∧ ∃ fs lastStatus, t.world = { s.world with
      fs, environment := { s.world.environment with lastStatus } } := by
  unfold complete at hrun
  rw [hscreen] at hrun
  obtain ⟨o, u, hview, hrun⟩ := run_bind_eq_ok_iff.1 hrun
  rw [run_step] at hview
  split at hview
  · rename_i o' w hwritten
    cases hview
    obtain ⟨seen, fs, ho, rfl⟩ := Step.of_onView hwritten
    have hworld := world_finish (s := { s with world := { s.world with fs } }) line.text o none
      answer.leaves
    rw [show (finish line.text o none answer.leaves).run _ = _ from hrun, left_ok] at hworld
    refine ⟨fun hok => ?_, fs, o.exitCode, hworld⟩
    rw [exitCode_of_finish hrun, ← ho] at hok
    exact Redirection.exitCode_of_applyTo hok
  · cases hview

/-- What `cd -` does once there is a directory to go back to. -/
theorem run_goBack {old : String} (input : Option String) (hremote : s.world.remote = none)
    (hwords : line.words = ["cd", "-"]) (hold : s.world.environment.get? "OLDPWD" = some old) :
    ∃ back : Dispatch.Result, (dispatchOrGoBack line s.world.context none input).run s = .ok back
        { s with world := match (Command.runCd s.world.context [old] s.world.fs).newDirectory with
          | some path => s.world.changeDirectory path
          | none => s.world } ∧
      back.outcome.exitCode = (Command.runCd s.world.context [old] s.world.fs).exitCode ∧
      back.screen = none ∧ back.outcome.needsPassword = false := by
  have hcd := run_dispatch_cd (World.elevated_context s.world) input old s
  have hfinal : (Command.runCd s.world.context [old] s.world.fs).needsPassword = false :=
    Command.runCd_isFinal _ _
  unfold dispatchOrGoBack
  rw [run_get_bind]
  dsimp only
  rw [hwords, hremote, hold, if_pos (by rfl), Option.getD_some, run_bind_of_ok hcd]
  split
  · exact ⟨_, rfl, rfl, rfl, hfinal⟩
  · exact ⟨_, rfl, rfl, rfl, hfinal⟩

/-- A `cd -` that succeeds exchanges the directory with the one before. -/
theorem runLine_exchanges (h : s.world.IsOriented) (hremote : s.world.remote = none)
    (hwords : line.words = ["cd", "-"])
    (heffect : ∀ marker output, line.redirection.effect ≠ .lines marker output)
    (hrun : (runLine line s.world.context).run s = .ok r t) (hok : r.exitCode = 0) :
    s.world.environment.get? "OLDPWD" = some t.world.directory ∧
      t.world.environment.get? "OLDPWD" = some s.world.directory := by
  have hbase : s.world.viewBase = none := by rw [World.viewBase, hremote]; rfl
  unfold runLine at hrun
  split at hrun
  · exact absurd ‹_› (heffect _ _)
  rw [run_get_bind, hbase] at hrun
  obtain ⟨seen, u, hlook, hrun⟩ := run_bind_eq_ok_iff.1 hrun
  obtain rfl := (look_same _).of_run hlook
  obtain ⟨answer, u, hread, hrun⟩ := run_bind_eq_ok_iff.1 hrun
  obtain rfl := (readInput_same _ _ _ _).of_run hread
  cases answer with
  | error problem =>
      rw [exitCode_of_finish hrun, exitCode_of_readInput hread] at hok
      cases hok
  | ok input =>
      rw [run_get_bind] at hrun
      split at hrun
      · rw [exitCode_of_finish hrun] at hok
        cases hok
      · rename_i hprevious
        obtain ⟨old, hold⟩ : ∃ old, s.world.environment.get? "OLDPWD" = some old := by
          rw [← Option.isSome_iff_exists, Option.isSome_iff_ne_none]
          intro hnone
          simp [lacksPrevious, hwords, hremote, hnone] at hprevious
        obtain ⟨back, hback, hcode, hscreen, hasks⟩ := run_goBack input hremote hwords hold
        rw [run_bind_of_ok hback, hasks, if_neg Bool.false_ne_true] at hrun
        obtain ⟨hsucceeds, fs, lastStatus, hworld⟩ := of_complete hscreen hrun
        rw [h.runCd_previous hold (hcode.symm.trans (hsucceeds hok))] at hworld
        obtain ⟨hnow, hbefore⟩ := h.changeDirectory_previous hremote hold
        rw [hworld, hold]
        exact ⟨congrArg some hnow.symm, hbefore⟩

/-- A `cd -` names no variable. -/
theorem GoesBack.namesNeither (h : s.GoesBack text) : NamesNeither (s, .line text) := by
  obtain ⟨hmode, -, ⟨expanded, line, hread, hwords, -⟩, -⟩ := h
  have hnone : call? (s, .line text) = none := by
    rw [call?, carried?_of_read? hmode hread, Dispatch.bare, World.elevated_context, hwords]
    rfl
  rw [NamesNeither, names, names, hnone]
  exact ⟨rfl, rfl⟩

/-- A `cd -` exchanges the directory with the one before, and leaves the session oriented. -/
theorem GoesBack.exchanges (hback : s.GoesBack text) (h : s.world.IsOriented) :
    (s.next (.line text)).world.IsOriented ∧
      s.world.environment.get? "OLDPWD" = some (s.next (.line text)).world.directory ∧
      (s.next (.line text)).world.environment.get? "OLDPWD" = some s.world.directory := by
  have hnames := hback.namesNeither
  obtain ⟨hmode, hremote, ⟨expanded, line, hread, hwords, heffect⟩, r, hresponse, hproceeds, hok⟩ :=
    hback
  have hrun := run_submit_of_response? hresponse
  generalize s.next (.line text) = t at hrun ⊢
  refine ⟨(submit_orients hnames).of_run hrun h, ?_⟩
  rw [run_submit_of_read hread hmode] at hrun
  obtain ⟨answer, u, hguard, hrun⟩ := run_bind_eq_ok_iff.1 hrun
  obtain rfl := (guard_same _ _).of_run hguard
  cases answer with
  | some warning =>
      cases hrun
      exact absurd rfl (hproceeds _ _)
  | none =>
      have horiented : (s.remembering line.text).world.IsOriented := h.congr rfl rfl rfl rfl
      exact runLine_exchanges (s := s.remembering line.text) horiented hremote hwords heffect hrun hok

/-- As long as no `env`, `export` or `unset` names `PWD` or `OLDPWD`, and the adventure does not define
them, `PWD` is the directory of a learner on this machine, whatever is done on others. A `cd -` that is
not held back and succeeds exchanges it with `OLDPWD`, and so a second one restores both. -/
theorem directory_is_told {o : SessionOptions} {adventure : Option Adventure}
    {store : Option ProgressStore} {resume : Bool} {now : Int}
    (hstart : start o adventure store resume now = .ok s) (huser : Path.IsSegment o.username)
    (hfree : ∀ a, adventure = some a → ∀ p ∈ a.environment, p.1 ≠ "PWD" ∧ p.1 ≠ "OLDPWD")
    {inputs : List Input} (hnames : ∀ step ∈ s.steps inputs, NamesNeither step) :
    (s.after inputs).world.environment.get? "PWD" = some (s.after inputs).world.directory ∧
      ∀ text, (s.after inputs).GoesBack text →
        let back := (s.after inputs).next (.line text)
        (s.after inputs).world.environment.get? "OLDPWD" = some back.world.directory ∧
          back.world.environment.get? "OLDPWD" = some (s.after inputs).world.directory ∧
          ∀ again, back.GoesBack again →
            (back.next (.line again)).world.directory = (s.after inputs).world.directory ∧
              (back.next (.line again)).world.environment.get? "OLDPWD" =
                (s.after inputs).world.environment.get? "OLDPWD" := by
  obtain ⟨hoptions, hworld, -⟩ := of_start hstart
  have hstarts := startsOriented_of_free huser hfree
  have hheld : s.IsHeld := fun line warning ctx hmode =>
    nomatch hmode.symm.trans (mode_startWorld hworld)
  have horiented : (s.after inputs).world.IsOriented := by
    refine after_isOriented ?_ hheld (hstarts _ _ hworld) hnames
    rwa [hoptions, adventure?_of_start hstart]
  refine ⟨horiented.current, fun text hback => ?_⟩
  obtain ⟨hthere, hprevious, hbefore⟩ := hback.exchanges horiented
  refine ⟨hprevious, hbefore, fun again hagain => ?_⟩
  obtain ⟨-, hprevious', hbefore'⟩ := hagain.exchanges hthere
  exact ⟨Option.some.inj (hprevious'.symm.trans hbefore), hbefore'.trans hprevious.symm⟩

/-- A run in which the learner goes elsewhere on another machine and with elevated rights, and sets a
variable. -/
def roaming : List Input :=
  [.line "cd /", .line "ssh bob@lab", .line "cd /home", .line "export A=1", .line "exit",
    .line "sudo cd /home", .line "secret"]

theorem goesBack_of_plain (hplain : s.world.mode = .normal ∧ s.world.remote = none ∧
    s.read? text = some ("cd -", ⟨"cd -", ["cd", "-"], ⟨"cd -", .none⟩⟩) ∧
    (response? (s, .line text)).map (fun r => (r.exitCode, r.intent)) = some (0, none)) :
    s.GoesBack text := by
  obtain ⟨hmode, hremote, hread, hresponse⟩ := hplain
  obtain ⟨r, hr, heq⟩ := Option.map_eq_some_iff.1 hresponse
  obtain ⟨hok, hintent⟩ := Prod.mk.inj heq
  refine ⟨hmode, hremote, ⟨_, _, hread, rfl, nofun⟩, r, hr, fun command warning => ?_, hok⟩
  rw [hintent]
  exact nofun

theorem roamer_goes_back_and_forth :
    let gone := connected.after roaming
    let back := gone.next (.line "cd -")
    start ⟨"ada", "lab", "secret", ["lab"], false, 0⟩ none none true 0 = .ok connected ∧
      Path.IsSegment "ada" ∧ (∀ step ∈ connected.steps roaming, NamesNeither step) ∧
      gone.world.directory = "/home" ∧ gone.world.environment.get? "PWD" = some gone.world.directory ∧
      gone.GoesBack "cd -" ∧
      gone.world.environment.get? "OLDPWD" = some back.world.directory ∧
      back.world.environment.get? "OLDPWD" = some gone.world.directory ∧ back.GoesBack "cd -" ∧
      (back.next (.line "cd -")).world.directory = gone.world.directory ∧
      (back.next (.line "cd -")).world.environment.get? "OLDPWD" =
        gone.world.environment.get? "OLDPWD" := by
  have huser : Path.IsSegment "ada" := by decide
  have hnames : ∀ step ∈ connected.steps roaming, NamesNeither step := by
    unfold NamesNeither
    decide +kernel
  have hback : (connected.after roaming).GoesBack "cd -" := goesBack_of_plain (by decide +kernel)
  have hagain : ((connected.after roaming).next (.line "cd -")).GoesBack "cd -" :=
    goesBack_of_plain (by decide +kernel)
  obtain ⟨hcurrent, hexchanges⟩ := directory_is_told start_connected huser nofun hnames
  obtain ⟨hprevious, hbefore, hrestores⟩ := hexchanges "cd -" hback
  obtain ⟨hdirectory, hold⟩ := hrestores "cd -" hagain
  exact ⟨start_connected, huser, hnames, by decide +kernel, hcurrent, hback, hprevious, hbefore,
    hagain, hdirectory, hold⟩

end Session

end PracticeShell
