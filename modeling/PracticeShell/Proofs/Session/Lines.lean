import PracticeShell.Proofs.Command.Asking
import PracticeShell.Proofs.Session.Keeping
import PracticeShell.Proofs.Tracker.Settling
import PracticeShell.Session.Meta

/-!
# What lines keep

While no session on another machine is open, a session keeps what no command line takes, and goes on
for the same learner in the same adventure (`Session.Keeps`). A line can leave a session waiting for
input or for a password; then the words that are still to be run take no more than the line did
(`Session.Spares`).

The commands of a session ask for no password either. So what asks for one is a `sudo` that is run
without elevated rights; the world is as it was before, and the words after the `sudo` are left
(`Dispatch.run_needsPassword`).
-/

namespace PracticeShell

open FileTree FileTree.Change Run

section Asking

open Command

namespace Remote

variable (hosts : List String) (ctx : Context) (base : Option String) (words : List String)

theorem runSsh_isFinal : Yields IsFinal (runSsh hosts ctx words) := by
  refine .bind fun w => ?_
  split
  · exact .pure rfl
  · exact .pure rfl
  · exact .ite (.pure rfl) (.bind fun _ => .bind fun _ => .pure rfl)

theorem copy_isFinal (source target : End) (label owner : String) (upload : Bool) :
    Yields IsFinal (copy ctx source target label owner upload) := by
  refine .bind fun fs => ?_
  dsimp only
  split
  · exact .pure rfl
  · exact .pure rfl
  · refine .ite (.pure rfl) (.bind fun there => .bind fun failure => ?_)
    split <;> exact .pure rfl

theorem runScp_isFinal : Yields IsFinal (runScp hosts ctx base words) := by
  unfold runScp
  split
  · dsimp only
    split
    · exact .pure rfl
    · exact .ite (.pure rfl) (.bind fun _ => .ite (copy_isFinal ctx _ _ _ _ _)
        (copy_isFinal ctx _ _ _ _ _))
  · exact .pure rfl

theorem runExit_isFinal : Yields (fun answer => IsFinal answer.1) runExit := by
  refine .bind fun w => ?_
  split
  · exact .pure rfl
  · exact .bind fun _ => .bind fun _ => .pure rfl

end Remote

namespace Screens

theorem openPager_isFinal (name : String) (ctx : Context) (fs : FileSystem) (words : List String) :
    IsFinal (openPager name ctx fs words).outcome := by
  unfold openPager
  dsimp only
  repeat' split
  all_goals rfl

theorem openEditor_isFinal (name : String) (ctx : Context) (fs : FileSystem)
    (words : List String) : IsFinal (openEditor name ctx fs words).outcome := by
  unfold openEditor
  dsimp only
  repeat' split
  all_goals rfl

end Screens

namespace Environment

variable (arguments : List String) (env : Environment)

theorem runEnv_isFinal : IsFinal (env.runEnv arguments).1 := by
  unfold runEnv
  split <;> rfl

theorem runExport_isFinal : IsFinal (env.runExport arguments).1 := by
  unfold runExport
  split <;> rfl

theorem runUnset_isFinal : IsFinal (env.runUnset arguments).1 := rfl

end Environment

namespace Dispatch

variable {hosts : List String} {ctx : Context} {base input : Option String} {words : List String}

theorem runHistory_isFinal (words : List String) : Yields IsFinal (runHistory words) := by
  unfold runHistory
  dsimp only
  split
  · exact .bind fun _ => .pure rfl
  · refine .bind fun w => ?_
    split
    · exact .pure rfl
    · refine .ite (.pure rfl) ?_
      split
      · exact .throw _
      · exact .pure rfl

theorem onVariables_isFinal {run : Environment → Outcome × Environment}
    (h : ∀ env, IsFinal (run env).1) : Yields IsFinal (onVariables run) := by
  intro w o v hrun
  obtain ⟨rfl, -⟩ : (run w.environment).1 = o ∧ _ := by simpa [onVariables, EStateM.run] using hrun
  exact h _

theorem isFinal_plain {step : Step Outcome} (h : Yields IsFinal step) :
    Yields (fun r => IsFinal r.outcome) (Result.of <$> step) := by
  intro w r v hrun
  rw [map_eq_pure_bind, EStateM.run_bind] at hrun
  cases hstep : step.run w with
  | ok o u =>
      rw [hstep] at hrun
      obtain ⟨rfl, -⟩ : Result.of o = r ∧ u = v := by simpa using hrun
      exact h w o u hstep
  | error e u => simp [hstep] at hrun

theorem onScreen_isFinal {opener : FileSystem → Screens.Opening}
    (h : ∀ fs, IsFinal (opener fs).outcome) :
    Yields (fun r => IsFinal r.outcome) (onScreen opener base) := .bind fun fs => .pure (h fs)

/-- No command of the session asks for a password. -/
theorem session?_isFinal {name : String} {step : Step Result}
    (h : session? hosts ctx base name words = some step) :
    Yields (fun r => IsFinal r.outcome) step := by
  cases session?_cases h with
  | ssh => exact isFinal_plain (Remote.runSsh_isFinal hosts ctx words)
  | scp => exact isFinal_plain (Remote.runScp_isFinal hosts ctx base words)
  | pager => exact onScreen_isFinal fun fs => Screens.openPager_isFinal name ctx fs words
  | editor => exact onScreen_isFinal fun fs => Screens.openEditor_isFinal name ctx fs words
  | env => exact isFinal_plain (onVariables_isFinal fun env => env.runEnv_isFinal words)
  | exports => exact isFinal_plain (onVariables_isFinal fun env => env.runExport_isFinal words)
  | unset => exact isFinal_plain (onVariables_isFinal fun env => env.runUnset_isFinal words)
  | history => exact isFinal_plain (runHistory_isFinal words)
  | exit =>
      intro w r v hrun
      rw [EStateM.run_bind] at hrun
      cases hexit : Remote.runExit.run w with
      | ok answer u =>
          rw [hexit] at hrun
          obtain ⟨rfl, -⟩ : (⟨answer.1, none, answer.2⟩ : Result) = r ∧ u = v := by
            simpa using hrun
          exact Remote.runExit_isFinal w answer u hexit
      | error e u => simp [hexit] at hrun

/-- What asks for a password on all files leaves the world as it is. -/
theorem onFiles_needsPassword {w v : World} {r : Result}
    (hrun : (onFiles ctx none input words).run w = .ok r v)
    (hasks : r.outcome.needsPassword = true) :
    v = w ∧ ctx.elevated = false ∧ ∃ rest, words = "sudo" :: rest ∧
      r = .of { needsPassword := true, pending := rest } := by
  rw [run_onFiles_none] at hrun
  obtain ⟨rfl, hworld⟩ := EStateM.Result.ok.inj hrun
  obtain ⟨rest, rfl, hexecute⟩ := execute_needsPassword hasks
  rw [hexecute] at hworld ⊢
  refine ⟨hworld.symm, ?_, rest, rfl, rfl⟩
  by_contra hctx
  have hfinal : IsFinal (execute ctx input (name superuser :: rest) w.fs).1 :=
    execute_isFinal (by simpa using hctx)
  rw [hexecute] at hfinal
  exact absurd hfinal (by simp [IsFinal])

/-- What asks for a password is a `sudo` that is run without elevated rights. The words after it are
left, and the world is as it was before. -/
theorem run_needsPassword {w v : World} {r : Result}
    (hrun : (run hosts ctx none input words).run w = .ok r v)
    (hasks : r.outcome.needsPassword = true) :
    v = w ∧ ∃ rest, words = "sudo" :: rest ∧
      r = .of { needsPassword := true, pending := rest } := by
  unfold run at hrun
  dsimp only at hrun
  generalize hplain : ite (ctx.elevated = true) (words.dropWhile _) words = plain at hrun
  have hasked : v = w ∧ ctx.elevated = false ∧ ∃ rest, plain = "sudo" :: rest ∧
      r = .of { needsPassword := true, pending := rest } := by
    cases plain with
    | nil => exact onFiles_needsPassword hrun hasks
    | cons name arguments =>
        dsimp only at hrun
        cases hsession : session? hosts ctx none name arguments with
        | none =>
            rw [hsession] at hrun
            exact onFiles_needsPassword hrun hasks
        | some step =>
            rw [hsession] at hrun
            have hfinal := session?_isFinal hsession w r v hrun
            exact absurd hasks (by rw [hfinal]; simp)
  obtain ⟨hworld, hctx, hwords⟩ := hasked
  rw [← hplain, hctx, if_neg (by simp)] at hwords
  exact ⟨hworld, hwords⟩

end Dispatch

end Asking

/-- Whether the next line is for the shell, or nothing but a screen comes before it. -/
def Mode.IsCalm : Mode → Prop
  | normal | showing .. => True
  | _ => False

/-- The words that are still to be run once there is input or a password for them. -/
def Mode.pending? : Mode → Option (List String)
  | collecting line .. | password line .. => some line.words
  | _ => none

namespace Session

/-- Whether a session goes on for the same learner in the same adventure, with something at a place
if it was there before, and without beginning to wait for input, a password or a confirmation. -/
structure Keeps (place : List String) (s t : Session) : Prop where
  stays : Stays place s.world.fs t.world.fs
  options : t.options = s.options
  username : t.world.username = s.world.username
  adventure : t.adventure? = s.adventure?
  calm : s.world.mode.IsCalm → t.world.mode.IsCalm

variable {place : List String} {s : Session}

theorem lasting_keeps (place : List String) : Lasting (Keeps place) :=
  ⟨fun s => ⟨(lasting_stays place).refl s.world.fs, rfl, rfl, rfl, fun h => h⟩, fun h h' =>
    ⟨(lasting_stays place).trans h.stays h'.stays, h'.options.trans h.options,
      h'.username.trans h.username, h'.adventure.trans h.adventure, fun hs => h'.calm (h.calm hs)⟩⟩

theorem run_step {α : Type} (operation : Step α) (s : Session) :
    (step operation).run s = match operation.run s.world with
      | .ok a world => .ok a { s with world }
      | .error e world => .error (.step e) { s with world } := rfl

theorem step_keeps {α : Type} {operation : Step α}
    (h : Leads (World.Keeps place) operation s.world) : Leads (Keeps place) (step operation) s := by
  rw [Leads] at h
  rw [Leads, run_step]
  cases hrun : operation.run s.world <;> rw [hrun] at h <;>
    exact ⟨h.stays, rfl, h.username, rfl, fun hs => by rw [left] at h ⊢; rwa [h.mode]⟩

theorem run_look_none (s : Session) : (step (Step.look none)).run s = .ok s.world.fs s := rfl

/-- Whether nothing but the progress, the store and the journal of a session changes. -/
structure Rests (s t : Session) : Prop where
  world : t.world = s.world
  options : t.options = s.options
  adventure : t.adventure? = s.adventure?

theorem lasting_rests : Lasting Rests :=
  ⟨fun _ => ⟨rfl, rfl, rfl⟩, fun h h' =>
    ⟨h'.world.trans h.world, h'.options.trans h.options, h'.adventure.trans h.adventure⟩⟩

theorem Rests.keeps {t : Session} (h : Rests s t) : Keeps place s t :=
  ⟨by rw [h.world]; exact (lasting_stays place).refl s.world.fs, h.options, by rw [h.world],
    h.adventure, by rw [h.world]; exact id⟩

theorem note_rests (a : Activity) : Leads Rests (note a) s := .modify ⟨rfl, rfl, rfl⟩

theorem respond_rests (make : String → Response) : Leads Rests (respond make) s :=
  lasting_rests.refl s

theorem look_rests (base : Option String) : Leads Rests (step (Step.look base)) s := by
  rw [Leads, run_step, Step.look, run_get_bind]
  cases s.world.viewAt base <;> exact ⟨rfl, rfl, rfl⟩

theorem readInput_rests (line : CommandLine) (ctx : Context) (base otherwise : Option String) :
    Leads Rests (readInput line ctx base otherwise) s := by
  have hR := lasting_rests
  unfold readInput
  split
  · exact .bind hR (look_rests base) fun _ t _ => .pure hR _ t
  · exact .pure hR _ s

theorem guard_rests (expanded : String) (ctx : Context) :
    Leads Rests (guard expanded ctx) s := by
  have hR := lasting_rests
  refine .get_bind (.ite (fun _ => .pure hR _ s) fun _ => ?_)
  exact .bind hR (look_rests _) fun _ t _ => .pure hR _ t

theorem saveProgress_rests : Leads Rests saveProgress s := by
  have hR := lasting_rests
  refine .get_bind (.get_bind ?_)
  split
  · refine .get_bind ?_
    split
    · exact .modify ⟨rfl, rfl, rfl⟩
    · exact .throw hR _ s
  · exact .pure hR _ s

theorem checkTasks_rests (line : String) (o : Outcome) : Leads Rests (checkTasks line o) s := by
  have hR := lasting_rests
  refine .get_bind ?_
  split
  · exact .pure hR _ s
  · rename_i t ht
    have hadventure := t.record_adventure (s.observe line o)
    dsimp only
    refine .bind hR (.set ⟨rfl, rfl, ?_⟩) fun _ u _ => ?_
    · simp only [adventure?, ht, Option.map_some]
      rw [hadventure]
    · split
      · exact .throw hR _ u
      · refine .bind hR (.modify ⟨rfl, rfl, rfl⟩) fun _ v _ => ?_
        refine .ite (fun _ => ?_) fun _ => .pure hR _ v
        exact .bind hR saveProgress_rests fun _ x _ => .pure hR _ x

theorem hint_rests (level : Int) : Leads Rests (hint level) s := by
  have hR := lasting_rests
  refine .get_bind ?_
  split
  · exact .pure hR _ s
  · rename_i t ht
    have hadventure := t.hint_adventure level
    dsimp only
    refine .bind hR (.set ⟨rfl, rfl, ?_⟩) fun _ u _ => ?_
    · simp only [adventure?, ht, Option.map_some]
      rw [hadventure]
    · refine .ite (fun _ => ?_) fun _ => .pure hR _ u
      refine .bind hR (note_rests _) fun _ v _ => ?_
      exact .bind hR saveProgress_rests fun _ x _ => .pure hR _ x

/-- Questions do not change the world, except the one that starts over. -/
theorem answer_rests {question : Question} (h : question ≠ .reset) :
    Leads Rests (answer question) s := by
  have hR := lasting_rests
  have hhint : ∀ level, Leads Rests (answerHint level) s := fun level =>
    .bind hR (hint_rests level) fun _ _ _ => respond_rests _
  unfold answer
  split
  · exact hhint 1
  · refine .ite (fun _ => respond_rests _) fun _ => ?_
    split
    · exact .throw hR _ s
    · exact hhint _
  · exact .get_bind (respond_rests _)
  · exact .get_bind (respond_rests _)
  · exact absurd rfl h
  · exact respond_rests _
  · exact respond_rests _

theorem ask_rests {text : String} (h : Question.read? text ≠ some .reset) :
    Leads Rests (ask text) s := by
  have hR := lasting_rests
  refine .get_bind ?_
  split
  · rename_i question _ hread
    refine .bind hR (answer_rests ?_) fun _ t _ => .pure hR _ t
    rintro rfl
    exact h hread
  · exact .pure hR _ s

theorem close_rests : Leads Rests close s := by
  have hR := lasting_rests
  refine .get_bind (.ite (fun _ => .pure hR _ s) fun _ => ?_)
  refine .bind hR (.modify ⟨rfl, rfl, rfl⟩) fun _ t _ => ?_
  exact .bind hR saveProgress_rests fun _ u _ => .get_bind (note_rests _)

theorem setMode_keeps {mode : Mode} (h : mode.IsCalm) :
    Leads (Keeps place) (setMode mode) s :=
  .modify ⟨(lasting_stays place).refl s.world.fs, rfl, rfl, rfl, fun _ => h⟩

theorem finish_keeps (line : String) (o : Outcome) (leaves : Bool) {intent : Option Intent} :
    Leads (Keeps place) (finish line o intent leaves) s := by
  have hR := lasting_keeps place
  refine .bind hR (.modify ⟨(lasting_stays place).refl s.world.fs, rfl, rfl, rfl, id⟩) fun _ t _ => ?_
  refine .bind hR ((note_rests _).weaken Rests.keeps) fun _ u _ => ?_
  exact .bind hR ((checkTasks_rests line o).weaken Rests.keeps) fun _ v _ => .get_bind (.pure hR _ v)

theorem complete_keeps (line : CommandLine) (r : Dispatch.Result) (runner writer : Context)
    (said : Option String) : Leads (Keeps place) (complete line r runner writer none said) s := by
  have hR := lasting_keeps place
  unfold complete
  dsimp only
  have hrest : ∀ t, Leads (Keeps place) (do
      let o ← step (Step.onView none (line.redirection.applyTo writer r.outcome said))
      finish line.text o (r.screen.map Intent.screen) r.leaves) t := fun t =>
    .bind hR (step_keeps (Step.onView_keeps (.of_grows (Redirection.applyTo_grows _ _ _ _ _) _)))
      fun o u _ => finish_keeps _ _ _
  split
  · exact .bind hR (setMode_keeps trivial) fun _ t _ => hrest t
  · exact hrest s

/-- Input is read from all files without a fault, and nothing is changed. -/
theorem run_readInput_none (line : CommandLine) (ctx : Context) (otherwise : Option String)
    (s : Session) : ∃ answer, (readInput line ctx none otherwise).run s = .ok answer s := by
  unfold readInput
  split <;> exact ⟨_, rfl⟩

theorem dispatch_keeps {ctx : Context} {input : Option String} {words : List String}
    (h : ∀ operand ∈ Command.taken ctx s.world.fs words,
      ¬ Path.segments (ctx.resolve operand) <+: place) :
    Leads (Keeps place) (dispatch ctx none input words) s :=
  .get_bind (step_keeps (Dispatch.run_keeps _ ctx input words h))

/-- Whether the words that a session has still to run take nothing at or above a place. -/
def Spares (place : List String) (s : Session) : Prop :=
  ∀ words, s.world.mode.pending? = some words → s.world.remote = none ∧
    ∀ operand ∈ Command.taken s.world.context s.world.fs words,
      ¬ Path.segments (s.world.context.resolve operand) <+: place

theorem Spares.of_isCalm (h : s.world.mode.IsCalm) : Spares place s := by
  intro words hwords
  cases hmode : s.world.mode <;> simp [hmode, Mode.IsCalm, Mode.pending?] at h hwords

/-- Whether a calm session goes on as before, with something at a place if it was there before, and
waits neither for a confirmation nor for what does not spare the place. -/
structure Passes (place : List String) (s t : Session) : Prop where
  stays : Stays place s.world.fs t.world.fs
  options : t.options = s.options
  username : t.world.username = s.world.username
  adventure : t.adventure? = s.adventure?
  spares : s.world.mode.IsCalm → Spares place t
  unasked : s.world.mode.IsCalm →
    ∀ line warning ctx, t.world.mode ≠ .confirming line warning ctx

theorem Keeps.passes {t : Session} (h : Keeps place s t) : Passes place s t :=
  ⟨h.stays, h.options, h.username, h.adventure, fun hs => .of_isCalm (h.calm hs),
    fun hs line warning ctx hmode => by simpa [hmode, Mode.IsCalm] using h.calm hs⟩

theorem Keeps.trans_passes {t u : Session} (h : Keeps place s t) (h' : Passes place t u) :
    Passes place s u :=
  ⟨(lasting_stays place).trans h.stays h'.stays, h'.options.trans h.options,
    h'.username.trans h.username, h'.adventure.trans h.adventure, fun hs => h'.spares (h.calm hs),
    fun hs => h'.unasked (h.calm hs)⟩

/-- Going back takes nothing away, and any other line what its words take. -/
theorem dispatchOrGoBack_keeps {line : CommandLine} {ctx : Context} {input : Option String}
    (h : ∀ operand ∈ Command.taken ctx s.world.fs line.words,
      ¬ Path.segments (ctx.resolve operand) <+: place) :
    Leads (Keeps place) (dispatchOrGoBack line ctx none input) s := by
  have hR := lasting_keeps place
  refine .get_bind (.ite (fun _ => ?_) fun _ => dispatch_keeps h)
  refine .bind hR (dispatch_keeps fun operand hoperand => ?_) fun r t _ => ?_
  · rw [Command.taken_cd] at hoperand
    simp at hoperand
  · split <;> exact .pure hR _ t

/-- Words ask for a password only if they begin with `sudo`; then nothing has changed. -/
theorem dispatch_needsPassword {ctx : Context} {input : Option String} {words : List String}
    {r : Dispatch.Result} {t : Session} (hrun : (dispatch ctx none input words).run s = .ok r t)
    (hasks : r.outcome.needsPassword = true) : t = s ∧ words = "sudo" :: r.outcome.pending := by
  change (step (Dispatch.run s.options.remoteHosts ctx none input words)).run s = .ok r t at hrun
  rw [run_step] at hrun
  split at hrun
  · rename_i hworld
    cases hrun
    obtain ⟨rfl, rest, rfl, rfl⟩ := Dispatch.run_needsPassword hworld hasks
    exact ⟨rfl, rfl⟩
  · cases hrun

theorem dispatchOrGoBack_needsPassword {line : CommandLine} {ctx : Context}
    {input : Option String} {r : Dispatch.Result} {t : Session}
    (hrun : (dispatchOrGoBack line ctx none input).run s = .ok r t)
    (hasks : r.outcome.needsPassword = true) :
    t = s ∧ line.words = "sudo" :: r.outcome.pending := by
  unfold dispatchOrGoBack at hrun
  change EStateM.run (if _ then _ else _) s = _ at hrun
  split at hrun
  · rw [EStateM.run_bind] at hrun
    split at hrun
    · rename_i a u hcd
      have hwords : a.outcome.needsPassword = true → False := fun hasks => by
        simpa using (dispatch_needsPassword hcd hasks).2
      split at hrun <;> cases hrun <;> exact absurd hasks hwords
    · cases hrun
  · exact dispatch_needsPassword hrun hasks

theorem awaitPassword_passes {o : Outcome} (hremote : s.world.remote = none)
    (h : ∀ operand ∈ Command.taken s.world.context s.world.fs o.pending,
      ¬ Path.segments (s.world.context.resolve operand) <+: place)
    (line : CommandLine) (input said : Option String) :
    Leads (Passes place) (awaitPassword line o input said) s := by
  refine ⟨(lasting_stays place).refl s.world.fs, rfl, rfl, rfl, fun _ words hwords => ?_,
    fun _ _ _ _ => nofun⟩
  cases hwords
  exact ⟨hremote, h⟩

/-- What the run of a command keeps, up to the question for a password. -/
theorem dispatched_passes {line : CommandLine} {ctx : Context} {action : Action Dispatch.Result}
    {input said : Option String} (hremote : s.world.remote = none)
    (h : ∀ operand ∈ Command.taken s.world.context s.world.fs line.words,
      ¬ Path.segments (s.world.context.resolve operand) <+: place)
    (hkeeps : Leads (Keeps place) action s)
    (hasks : ∀ r t, action.run s = .ok r t → r.outcome.needsPassword = true →
      t = s ∧ line.words = "sudo" :: r.outcome.pending) :
    Leads (Passes place) (do
      let r ← action
      if r.outcome.needsPassword then awaitPassword line r.outcome input said
      else complete line r ctx ctx none said) s := by
  refine .bind_into Keeps.passes Keeps.trans_passes hkeeps fun r t hrun => ?_
  refine .ite (fun hpassword => ?_) fun _ => (complete_keeps line r ctx ctx said).weaken Keeps.passes
  obtain ⟨rfl, hwords⟩ := hasks r t hrun hpassword
  rw [hwords] at h
  exact awaitPassword_passes hremote h line input said

/-- The run of a line that takes nothing at or above a place. -/
theorem runLine_passes {line : CommandLine} (hremote : s.world.remote = none)
    (h : ∀ operand ∈ Command.taken s.world.context s.world.fs line.words,
      ¬ Path.segments (s.world.context.resolve operand) <+: place) :
    Leads (Passes place) (runLine line s.world.context) s := by
  have hbase : s.world.viewBase = none := by rw [World.viewBase, hremote]; rfl
  unfold runLine
  split
  · refine ⟨(lasting_stays place).refl s.world.fs, rfl, rfl, rfl, fun _ words hwords => ?_,
      fun _ _ _ _ => nofun⟩
    cases hwords
    exact ⟨hremote, h⟩
  · refine .get_bind ?_
    rw [hbase]
    refine .bind_same (run_look_none s) ?_
    obtain ⟨answer, hanswer⟩ := run_readInput_none line s.world.context none s
    refine .bind_same hanswer ?_
    cases answer with
    | error problem => exact (finish_keeps _ _ _).weaken Keeps.passes
    | ok input =>
        refine .get_bind (.ite (fun _ => (finish_keeps _ _ _).weaken Keeps.passes) fun _ => ?_)
        exact dispatched_passes hremote h (dispatchOrGoBack_keeps h)
          fun r t => dispatchOrGoBack_needsPassword

/-- Whether a session goes on as before, with something at a place if it was there before, and waits
at most for what spares the place. -/
structure Goes (place : List String) (s t : Session) : Prop where
  stays : Stays place s.world.fs t.world.fs
  options : t.options = s.options
  username : t.world.username = s.world.username
  adventure : t.adventure? = s.adventure?
  spares : Spares place t

theorem Passes.goes {t : Session} (h : Passes place s t) (hs : s.world.mode.IsCalm) :
    Goes place s t :=
  ⟨h.stays, h.options, h.username, h.adventure, h.spares hs⟩

/-- What a session goes on to from the normal mode, it goes on to from the mode before. -/
theorem toNormal_goes {β : Type} {f : Unit → Action β}
    (h : ∀ t : Session, t.world.fs = s.world.fs → t.world.context = s.world.context →
      t.world.viewBase = s.world.viewBase → t.world.remote = s.world.remote →
      Leads (Passes place) (f ()) t) :
    Leads (Goes place) (setMode .normal >>= f) s := by
  have hnormal := (h { s with world := { s.world with mode := .normal } } rfl rfl rfl rfl).goes trivial
  exact ⟨hnormal.stays, hnormal.options, hnormal.username, hnormal.adventure, hnormal.spares⟩

theorem submitInput_goes {line : CommandLine} {marker : String} {lines : List String}
    (hmode : s.world.mode = .collecting line marker lines) (hspares : Spares place s)
    (text : String) : Leads (Goes place) (submitInput text line marker lines) s := by
  obtain ⟨hremote, hwords⟩ := hspares line.words (by rw [hmode]; rfl)
  have hbase : s.world.viewBase = none := by rw [World.viewBase, hremote]; rfl
  refine .ite (fun _ => ?_) fun _ => toNormal_goes fun t hfs hctx hview hthere => ?_
  · refine ⟨(lasting_stays place).refl s.world.fs, rfl, rfl, rfl, fun words hpending => ?_⟩
    cases hpending
    exact ⟨hremote, hwords⟩
  · refine .get_bind ?_
    dsimp only
    rw [hview, hbase]
    refine .bind_same (run_look_none t) ?_
    rw [← hfs, ← hctx] at hwords
    exact dispatched_passes (hthere.trans hremote) hwords (dispatch_keeps hwords)
      fun r u => dispatch_needsPassword

theorem submitPassword_goes {line : CommandLine} {input said : Option String}
    (hmode : s.world.mode = .password line input said) (hspares : Spares place s)
    (text : String) : Leads (Goes place) (submitPassword text line input said) s := by
  obtain ⟨hremote, hwords⟩ := hspares line.words (by rw [hmode]; rfl)
  have hbase : s.world.viewBase = none := by rw [World.viewBase, hremote]; rfl
  have hR := lasting_keeps place
  refine toNormal_goes fun t hfs hctx hview hthere => Leads.weaken (R := Keeps place) ?_ Keeps.passes
  refine .get_bind (.ite (fun _ => ?_) fun _ => ?_)
  · exact .bind hR ((note_rests _).weaken Rests.keeps) fun _ u _ => finish_keeps _ _ _
  · refine .bind hR ((note_rests _).weaken Rests.keeps) fun _ u hnote => ?_
    have hworld : u.world = t.world := by
      cases hnote
      rfl
    rw [hview, hbase]
    refine .bind_same (run_look_none u) ?_
    obtain ⟨answer, hanswer⟩ := run_readInput_none line t.world.context.elevate input u
    refine .bind_same hanswer ?_
    cases answer with
    | error problem => exact finish_keeps _ _ _
    | ok input =>
        refine .bind hR (dispatch_keeps ?_) fun r v _ => complete_keeps _ _ _ _ _
        rw [Command.taken_elevate, hworld, hfs, hctx]
        exact hwords

/-- An answer other than a confirmation takes nothing away. -/
theorem resolve_goes {resolution : Resolution} (hresolution : resolution ≠ .confirmed)
    (hremote : s.world.remote = none) (hspares : Spares place s) :
    Leads (Goes place) (resolve resolution) s := by
  have hR := lasting_keeps place
  have hbase : s.world.viewBase = none := by rw [World.viewBase, hremote]; rfl
  refine .get_bind ?_
  split
  · rw [if_neg hresolution]
    refine toNormal_goes fun t _ _ _ _ => Leads.weaken (R := Keeps place) ?_ Keeps.passes
    exact .bind hR ((note_rests _).weaken Rests.keeps) fun _ u _ => (respond_rests _).weaken Rests.keeps
  · refine toNormal_goes fun t _ _ hview _ => Leads.weaken (R := Keeps place) ?_ Keeps.passes
    refine .get_bind ?_
    rw [hview, hbase]
    exact .bind hR (step_keeps (Screens.close_keeps _ _ _)) fun o u _ => finish_keeps _ _ _
  · exact ⟨(lasting_stays place).refl s.world.fs, rfl, rfl, rfl, hspares⟩

/-- What a session that waits for input or a password does with a line. -/
theorem submit_goes_of_pending {words : List String}
    (hpending : s.world.mode.pending? = some words) (hspares : Spares place s) (text : String) :
    Leads (Goes place) (submit text) s := by
  refine .get_bind ?_
  cases hmode : s.world.mode with
  | collecting line marker lines => exact submitInput_goes hmode hspares _
  | password line input said => exact submitPassword_goes hmode hspares _
  | normal => simp [hmode, Mode.pending?] at hpending
  | confirming line warning ctx => simp [hmode, Mode.pending?] at hpending
  | showing screen ctx command => simp [hmode, Mode.pending?] at hpending

theorem Rests.goes {t : Session} (h : Rests s t) (hspares : Spares place s) : Goes place s t :=
  ⟨by rw [h.world]; exact (lasting_stays place).refl s.world.fs, h.options, by rw [h.world],
    h.adventure, by rw [Spares, h.world]; exact hspares⟩

end Session

end PracticeShell
