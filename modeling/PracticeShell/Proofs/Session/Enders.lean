import PracticeShell.Proofs.Session.Consenting
import PracticeShell.Proofs.Session.Elevation

/-!
# Lines that are carried through with other ends

What a session does with a line that is carried through can be read as a program over whatever ends the
run of a command (`Session.Ender`); with `Session.complete` it is the session itself
(`carryWith_complete`). A line that can be carried through differently with an ender that differs from
`complete` only where a file would be replaced by `>` comes to such an end (`Session.Overwrites`). The
`>` is then one that was typed, and with what is seen at that time its operand means that file
(`Session.Overwrites.exists_aims`).
-/

namespace PracticeShell

open Run

namespace Dispatch

variable {hosts : List String} {ctx : Context} {base input : Option String} {words : List String}

/-- A command on the files that asks for a password is still in the same place. -/
theorem context_of_onFiles {w v : World} {r : Result}
    (hrun : (onFiles ctx base input words).run w = .ok r v)
    (hasks : r.outcome.needsPassword = true) : v.context = w.context := by
  obtain ⟨o, u, hview, hrest⟩ := run_bind_eq_ok_iff.1 hrun
  obtain ⟨fs, later, ho, rfl⟩ := Step.of_onView hview
  have hstays : o.needsPassword = true → o.newDirectory = none := by
    rintro hasks
    subst ho
    obtain ⟨rest, -, hexecute⟩ := Command.execute_needsPassword hasks
    rw [show (Command.execute ctx input words) fs = _ from hexecute]
  cases hdirectory : o.newDirectory with
  | none =>
      rw [hdirectory] at hrest
      cases hrest
      rfl
  | some path =>
      rw [hdirectory] at hrest
      cases hrest
      rw [hstays hasks] at hdirectory
      cases hdirectory

/-- A command that asks for a password is still in the same place. -/
theorem context_of_needsPassword {w v : World} {r : Result}
    (hrun : (run hosts ctx base input words).run w = .ok r v)
    (hasks : r.outcome.needsPassword = true) : v.context = w.context := by
  unfold run at hrun
  dsimp only at hrun
  generalize ite (ctx.elevated = true) (words.dropWhile _) words = plain at hrun
  cases plain with
  | nil => exact context_of_onFiles hrun hasks
  | cons name arguments =>
      dsimp only at hrun
      cases hsession : session? hosts ctx base name arguments with
      | none =>
          rw [hsession] at hrun
          exact context_of_onFiles hrun hasks
      | some step =>
          rw [hsession] at hrun
          have hfinal := session?_isFinal hsession w r v hrun
          exact absurd hasks (by rw [hfinal]; simp)

end Dispatch

/-- The line whose command is still to be run once there is input or a password for it. -/
def Mode.line? : Mode → Option CommandLine
  | collecting line .. | password line .. => some line
  | _ => none

namespace Session

/-- What ends the run of a command of a line: with its result, who has run it, who writes its output, the
directory that all is seen below, and what is said then. -/
abbrev Ender :=
  CommandLine → Dispatch.Result → Context → Context → Option String → Option String → Action Response

variable (ender : Ender)

/-- `runLine` with another ender. -/
def runLineWith (line : CommandLine) (ctx : Context) : Action Response := do
  match line.redirection.effect with
  | .lines marker _ =>
    setMode (.collecting line marker [])
    respond fun prompt => { prompt }
  | _ =>
    let base := (← get).world.viewBase
    let _ ← step (Step.look base)
    match ← readInput line ctx base none with
    | .error problem => finish line.text problem none false
    | .ok input =>
      if lacksPrevious (← get).world line then
        finish line.text (.fail "cd: OLDPWD not set" Outcome.failure) none false
      else
        let r ← dispatchOrGoBack line ctx base input
        if r.outcome.needsPassword then awaitPassword line r.outcome none none
        else ender line r ctx ctx base none

/-- `submitCommand` with another ender. -/
def submitCommandWith (text : String) : Action Response := do
  let text := Text.Blank.trim text
  if text = "" then respond fun prompt => { prompt }
  else
    modify fun s => { s with world := s.world.remember text s.options.historyLimit }
    let expanded := (← get).world.environment.expand text
    match Redirection.parse expanded with
    | .error _ => finish text (.fail Redirection.syntaxError Outcome.misuse) none false
    | .ok redirection =>
      let line : CommandLine := ⟨text, Words.split redirection.command, redirection⟩
      if line.words.isEmpty then finish text {} none false
      else
        let ctx := (← get).world.context
        match ← guard expanded ctx with
        | some warning =>
          setMode (.confirming line warning ctx)
          note (.warning warning.level .prompted)
          respond fun prompt => { prompt, intent := some (.confirm line.text warning) }
        | none => runLineWith ender line ctx

/-- `submitPassword` with another ender. -/
def submitPasswordWith (text : String) (line : CommandLine) (input said : Option String) :
    Action Response := do
  setMode .normal
  let s ← get
  let ctx := s.world.context
  if text ≠ s.options.password then
    note (.password false)
    finish line.text (.fail "sudo: 3 incorrect password attempts" Outcome.failure) none false
  else
    note (.password true)
    let base := s.world.viewBase
    let _ ← step (Step.look base)
    match ← readInput line ctx.elevate base input with
    | .error problem => finish line.text problem none false
    | .ok input =>
      let r ← dispatch ctx.elevate base input line.words
      ender line r ctx.elevate ctx base said

/-- `submitInput` with another ender. -/
def submitInputWith (text : String) (line : CommandLine) (marker : String) (lines : List String) :
    Action Response := do
  if text ≠ marker then
    setMode (.collecting line marker (lines ++ [text]))
    respond fun prompt => { prompt }
  else
    setMode .normal
    let input := some (Redirection.body lines)
    let said := line.redirection.target?.map (linesWritten lines.length)
    let w := (← get).world
    let base := w.viewBase
    let _ ← step (Step.look base)
    let r ← dispatch w.context base input line.words
    if r.outcome.needsPassword then awaitPassword line r.outcome input said
    else ender line r w.context w.context base said

/-- `submit` with another ender. While something is shown, a line runs nothing. -/
def submitWith (text : String) : Action Response := do
  match (← get).world.mode with
  | .password line input said => submitPasswordWith ender (withoutLineEnd text) line input said
  | .collecting line marker lines => submitInputWith ender (withoutLineEnd text) line marker lines
  | .normal => submitCommandWith ender (withoutLineEnd text)
  | .confirming .. | .showing .. => submit text

/-- `resolve` with another ender, where a warning is confirmed. -/
def confirmWith : Action Response := do
  match (← get).world.mode with
  | .confirming line warning ctx =>
    setMode .normal
    note (.warning warning.level .confirmed)
    runLineWith ender line ctx
  | _ => resolve .confirmed

/-- `follow` with another ender. -/
def followWith : List String → Action Unit
  | [] => return ()
  | text :: rest => do
    if (← get).world.mode.pending?.isSome then
      let _ ← submitWith ender text
      followWith rest

/-- `carry` with another ender. -/
def carryWith (text : String) (inputs : List String) : Action Unit := do
  let _ ← submitWith ender text
  match (← get).world.mode with
  | .confirming .. => do let _ ← confirmWith ender
  | _ => pure ()
  followWith ender inputs

/-- Whether the end of a command of a line replaces the file at a path by what the command has put out. -/
def Replaces (path : String) (line : CommandLine) (r : Dispatch.Result) (writer : Context)
    (base : Option String) (s : Session) : Prop :=
  ∃ operand fs, line.redirection.target? = some ⟨operand, false⟩ ∧ writer.resolve operand = path ∧
    s.world.viewAt base = .ok fs ∧ fs.isFile path = true ∧
    (Redirection.write writer ⟨operand, false⟩ r.outcome.output fs).1 = none

/-- Whether an ender does what `complete` does, except where the file at a path is replaced. -/
def Ender.IsFaithful (ender : Ender) (path : String) : Prop :=
  ∀ line r runner writer base said s, ¬ Replaces path line r writer base s →
    (ender line r runner writer base said).run s = (complete line r runner writer base said).run s

/-- Whether a redirection sends output to the file at a path, in place of what the file holds. -/
def Aims (path : String) (redirection : Redirection) (ctx : Context) : Prop :=
  ∃ operand, redirection.target? = some ⟨operand, false⟩ ∧ ctx.resolve operand = path

/-- Whether the file at a path is replaced while a text is carried through with some inputs: whether it
can make a difference what happens there. -/
def Overwrites (s : Session) (text : String) (inputs : List String) (path : String) : Prop :=
  ∃ ender : Ender, ender.IsFaithful path ∧
    (carryWith ender text inputs).run s ≠ (carry text inputs).run s

/-- Whether an ender ends a line as `complete` does, where the file that output goes to is opened in a
context. -/
def Ender.IsPlain (line : CommandLine) (writer : Context) : Prop :=
  ∀ r runner base said, ender line r runner writer base said = complete line r runner writer base said

variable {ender}

section Plain

variable {line : CommandLine} {ctx : Context} {s : Session} (text : String)

theorem runLineWith_eq (h : ender.IsPlain line ctx) : runLineWith ender line ctx = runLine line ctx := by
  unfold Ender.IsPlain at h
  unfold runLineWith
  simp only [h]
  unfold runLine
  cases line.redirection.effect <;> rfl

theorem run_submitCommandWith
    (h : ∀ expanded line t, s.read? text = some (expanded, line) →
      (guard expanded s.world.context).run (s.remembering line.text) = .ok none t →
        ender.IsPlain line s.world.context) :
    (submitCommandWith ender (withoutLineEnd text)).run s =
      (submitCommand (withoutLineEnd text)).run s := by
  unfold submitCommandWith submitCommand
  dsimp only
  split
  · rfl
  · rename_i htext
    have henvironment : (s.remembering (Text.Blank.trim (withoutLineEnd text))).world.environment =
        s.world.environment := rfl
    rw [run_modify_bind, run_modify_bind, run_get_bind, run_get_bind, ← remembering, henvironment]
    cases hparse : Redirection.parse (s.world.environment.expand
        (Text.Blank.trim (withoutLineEnd text))) with
    | error problem => rfl
    | ok redirection =>
        dsimp only
        split
        · rfl
        · rename_i hwords
          rw [run_get_bind, run_get_bind]
          refine run_bind_congr fun warning t hguard => ?_
          cases warning with
          | some warning => rfl
          | none =>
              have hread := read?_of_parse htext hparse (by simpa using hwords)
              exact congrArg (fun action => EStateM.run action t)
                (runLineWith_eq (h _ _ t hread hguard))

theorem run_submitPasswordWith (h : ender.IsPlain line s.world.context) (input said : Option String) :
    (submitPasswordWith ender text line input said).run s =
      (submitPassword text line input said).run s := by
  unfold Ender.IsPlain at h
  unfold submitPasswordWith setMode
  rw [run_modify_bind, run_get_bind]
  dsimp only
  rw [context_setMode]
  simp only [h]
  rfl

theorem run_submitInputWith (h : ender.IsPlain line s.world.context) (marker : String)
    (lines : List String) : (submitInputWith ender text line marker lines).run s =
      (submitInput text line marker lines).run s := by
  unfold Ender.IsPlain at h
  unfold submitInputWith submitInput setMode
  split
  · rfl
  · rw [run_modify_bind, run_modify_bind, run_get_bind, run_get_bind]
    dsimp only
    rw [context_setMode]
    simp only [h]

/-- A session takes a text as ever if the line that it runs, or has begun to run, is ended as ever. -/
theorem run_submitWith
    (hnormal : ∀ expanded line t, s.world.mode = .normal → s.read? text = some (expanded, line) →
      (guard expanded s.world.context).run (s.remembering line.text) = .ok none t →
        ender.IsPlain line s.world.context)
    (hpending : ∀ line, s.world.mode.line? = some line → ender.IsPlain line s.world.context) :
    (submitWith ender text).run s = (submit text).run s := by
  unfold submitWith submit
  rw [run_get_bind, run_get_bind]
  cases hmode : s.world.mode with
  | normal => exact run_submitCommandWith text fun expanded line t => hnormal expanded line t hmode
  | password line input said =>
      exact run_submitPasswordWith _ (hpending line (by rw [hmode]; rfl)) input said
  | collecting line marker lines =>
      exact run_submitInputWith _ (hpending line (by rw [hmode]; rfl)) marker lines
  | confirming line warning ctx =>
      dsimp only
      rw [run_get_bind, hmode]
  | showing screen ctx command =>
      dsimp only
      rw [run_get_bind, hmode]

theorem run_confirmWith (h : ∀ line warning ctx, s.world.mode = .confirming line warning ctx →
    ender.IsPlain line ctx) : (confirmWith ender).run s = (resolve .confirmed).run s := by
  unfold confirmWith
  rw [run_get_bind]
  cases hmode : s.world.mode with
  | confirming line warning ctx =>
      unfold resolve
      dsimp only
      rw [run_get_bind, hmode, runLineWith_eq (h line warning ctx hmode)]
      rfl
  | normal => rfl
  | collecting line marker lines => rfl
  | password line input said => rfl
  | showing screen ctx command => rfl

end Plain

section Complete

theorem submitWith_complete (text : String) : submitWith complete text = submit text := by
  funext s
  exact run_submitWith text (fun _ _ _ _ _ _ _ _ _ _ => rfl) fun _ _ _ _ _ _ => rfl

theorem confirmWith_complete : confirmWith complete = resolve .confirmed := by
  funext s
  exact run_confirmWith fun _ _ _ _ _ _ _ _ => rfl

theorem followWith_complete (inputs : List String) : followWith complete inputs = follow inputs := by
  induction inputs with
  | nil => rfl
  | cons text rest ih => rw [followWith, follow, submitWith_complete, ih]

/-- With `complete` a line is carried through as the session does it. -/
theorem carryWith_complete (text : String) (inputs : List String) :
    carryWith complete text inputs = carry text inputs := by
  rw [carryWith, submitWith_complete, confirmWith_complete, followWith_complete]
  unfold carry
  refine congrArg _ (funext fun _ => congrArg _ (funext fun s => ?_))
  cases s.world.mode <;> rfl

end Complete

section Aimless

variable {path : String} {line : CommandLine} {ctx : Context} {s : Session} {text : String}

/-- A line that does not aim at the path is ended as ever. -/
theorem Ender.IsFaithful.isPlain (hender : ender.IsFaithful path)
    (h : ¬ Aims path line.redirection ctx) : ender.IsPlain line ctx := by
  intro r runner base said
  funext s
  refine hender line r runner ctx base said s ?_
  rintro ⟨operand, fs, htarget, hpath, -⟩
  exact h ⟨operand, htarget, hpath⟩

/-- Whether no line that a session has still to run aims at a path. -/
def IsAimless (path : String) (s : Session) : Prop :=
  match s.world.mode with
  | .password line .. | .collecting line .. => ¬ Aims path line.redirection s.world.context
  | .confirming line _ ctx => ctx = s.world.context ∧ ¬ Aims path line.redirection ctx
  | .normal | .showing .. => True

theorem isAimless_of_normal (h : s.world.mode = .normal) : s.IsAimless path := by
  rw [IsAimless, h]
  trivial

theorem isAimless_of_keepsMode {t : Session} (hmode : s.world.mode = .normal) (h : KeepsMode s t) :
    t.IsAimless path := isAimless_of_normal (h.trans hmode)

/-- What keeps a session in the normal mode can come first. -/
theorem leads_isAimless_bind {α : Type} {x : Action α} {f : α → Action Response}
    (hmode : s.world.mode = .normal) (hx : Leads KeepsMode x s)
    (hf : ∀ a t, x.run s = .ok a t → t.world.mode = .normal →
      Leads (fun _ u => u.IsAimless path) (f a) t) :
    Leads (fun _ u => u.IsAimless path) (x >>= f) s :=
  .bind_into (isAimless_of_keepsMode hmode) (fun _ h => h) hx fun a t hrun =>
    hf a t hrun ((hx.of_run hrun).trans hmode)

theorem complete_isAimless (hmode : s.world.mode = .normal) (line : CommandLine) (r : Dispatch.Result)
    (runner writer : Context) (base said : Option String) :
    Leads (fun _ u => u.IsAimless path) (complete line r runner writer base said) s := by
  rw [Leads, IsAimless, mode_complete, hmode]
  cases r.screen <;> trivial

/-- A command that asks for a password is still in the same place. -/
theorem dispatched_isAimless {action : Action Dispatch.Result} (hmode : s.world.mode = .normal)
    (h : ¬ Aims path line.redirection s.world.context) (hkeeps : Leads KeepsMode action s)
    (hcontext : ∀ r t, action.run s = .ok r t → r.outcome.needsPassword = true →
      t.world.context = s.world.context) (runner writer : Context) (base input said : Option String) :
    Leads (fun _ u => u.IsAimless path) (do
      let r ← action
      if r.outcome.needsPassword then awaitPassword line r.outcome input said
      else complete line r runner writer base said) s := by
  refine leads_isAimless_bind hmode hkeeps fun r t hrun ht => .ite (fun hasks => ?_) fun _ =>
    complete_isAimless ht _ _ _ _ _ _
  change ¬ Aims path line.redirection t.world.context
  rwa [hcontext r t hrun hasks]

theorem context_of_dispatch {base input : Option String} {words : List String} {r : Dispatch.Result}
    {t : Session} (hrun : (dispatch ctx base input words).run s = .ok r t)
    (hasks : r.outcome.needsPassword = true) : t.world.context = s.world.context :=
  Dispatch.context_of_needsPassword (of_dispatch hrun) hasks

theorem context_of_dispatchOrGoBack {base input : Option String} {r : Dispatch.Result} {t : Session}
    (hrun : (dispatchOrGoBack line ctx base input).run s = .ok r t)
    (hasks : r.outcome.needsPassword = true) : t.world.context = s.world.context := by
  unfold dispatchOrGoBack at hrun
  rw [run_get_bind] at hrun
  dsimp only at hrun
  split at hrun
  · obtain ⟨answer, u, hback, hrest⟩ := run_bind_eq_ok_iff.1 hrun
    split at hrest <;> cases hrest <;> exact context_of_dispatch hback hasks
  · exact context_of_dispatch hrun hasks

theorem runLine_isAimless (hmode : s.world.mode = .normal)
    (h : ¬ Aims path line.redirection s.world.context) :
    Leads (fun _ u => u.IsAimless path) (runLine line s.world.context) s := by
  unfold runLine
  split
  · exact h
  · refine .get_bind (leads_isAimless_bind hmode ((look_rests _).weaken Rests.keepsMode)
      fun _ t hlook ht => ?_)
    refine leads_isAimless_bind ht ((readInput_rests _ _ _ _).weaken Rests.keepsMode)
      fun answer u hread hu => ?_
    have hrests := lasting_rests.trans ((look_rests _).of_run hlook)
      ((readInput_rests _ _ _ _).of_run hread)
    cases answer with
    | error problem => exact isAimless_of_keepsMode hu (finish_keepsMode _ _ _ _)
    | ok input =>
        refine .get_bind (.ite (fun _ => ?_) fun _ => ?_)
        · exact isAimless_of_keepsMode hu (finish_keepsMode _ _ _ _)
        · refine dispatched_isAimless hu (by rwa [hrests.world])
            (dispatchOrGoBack_keepsMode _ _ _ _) (fun _ _ => context_of_dispatchOrGoBack) _ _ _ _ _

theorem submitInput_isAimless (h : ¬ Aims path line.redirection s.world.context) (marker : String)
    (lines : List String) :
    Leads (fun _ u => u.IsAimless path) (submitInput text line marker lines) s := by
  unfold submitInput
  split
  · exact h
  · rw [Leads]
    unfold setMode
    rw [run_modify_bind, run_get_bind]
    dsimp only
    rw [context_setMode]
    refine leads_isAimless_bind rfl ((look_rests _).weaken Rests.keepsMode) fun _ t hlook ht => ?_
    refine dispatched_isAimless ht ?_ (dispatch_keepsMode _ _ _ _) (fun _ _ => context_of_dispatch)
      _ _ _ _ _
    rwa [((look_rests _).of_run hlook).world]

/-- Once there is a password, nothing is waited for any longer. -/
theorem submitPassword_isAimless (line : CommandLine) (input said : Option String) :
    Leads (fun _ u => u.IsAimless path) (submitPassword text line input said) s := by
  rw [Leads]
  unfold submitPassword setMode
  rw [run_modify_bind, run_get_bind]
  dsimp only
  split
  · exact leads_isAimless_bind rfl ((note_rests _).weaken Rests.keepsMode) fun _ t _ ht =>
      isAimless_of_keepsMode ht (finish_keepsMode _ _ _ _)
  · refine leads_isAimless_bind rfl ((note_rests _).weaken Rests.keepsMode) fun _ t _ ht => ?_
    refine leads_isAimless_bind ht ((look_rests _).weaken Rests.keepsMode) fun _ u _ hu => ?_
    refine leads_isAimless_bind hu ((readInput_rests _ _ _ _).weaken Rests.keepsMode)
      fun answer v _ hv => ?_
    cases answer with
    | error problem => exact isAimless_of_keepsMode hv (finish_keepsMode _ _ _ _)
    | ok given =>
        exact leads_isAimless_bind hv (dispatch_keepsMode _ _ _ _) fun r x _ hx =>
          complete_isAimless hx _ _ _ _ _ _

/-- What an aimless session waits for leaves it aimless. -/
theorem submit_isAimless_of_pending (haimless : s.IsAimless path)
    (hpending : s.world.mode.pending?.isSome) :
    Leads (fun _ u => u.IsAimless path) (submit text) s := by
  rw [IsAimless] at haimless
  cases hmode : s.world.mode with
  | password line input said =>
      rw [Leads, run_submit_password hmode]
      exact submitPassword_isAimless _ _ _
  | collecting line marker lines =>
      rw [hmode] at haimless
      rw [Leads, run_submit_collecting hmode]
      exact submitInput_isAimless haimless _ _
  | normal => simp [hmode, Mode.pending?] at hpending
  | confirming line warning ctx => simp [hmode, Mode.pending?] at hpending
  | showing screen ctx command => simp [hmode, Mode.pending?] at hpending

/-- A command line that does not aim at a path leaves a session aimless. -/
theorem submit_isAimless (hmode : s.world.mode = .normal)
    (h : ∀ expanded line answer t, s.read? text = some (expanded, line) →
      (guard expanded s.world.context).run (s.remembering line.text) = .ok answer t →
        ¬ Aims path line.redirection s.world.context) :
    Leads (fun _ u => u.IsAimless path) (submit text) s := by
  cases hread : s.read? text with
  | none =>
      rcases run_submit_of_not_read hread hmode with hrun | ⟨o, hrun⟩
      · rw [Leads, hrun]
        exact isAimless_of_keepsMode hmode ((respond_rests _).weaken Rests.keepsMode)
      · rw [Leads, hrun]
        exact isAimless_of_keepsMode hmode (finish_keepsMode _ _ _ _)
  | some read =>
      obtain ⟨expanded, line⟩ := read
      rw [Leads, run_submit_of_read hread hmode]
      refine leads_isAimless_bind hmode ((guard_rests _ _).weaken Rests.keepsMode)
        fun answer t hguard ht => ?_
      have haim := h expanded line answer t hread hguard
      obtain rfl : s.remembering line.text = t := (guard_same _ _).of_run hguard
      cases answer with
      | none => exact runLine_isAimless (s := s.remembering line.text) hmode haim
      | some warning => exact ⟨rfl, haim⟩

theorem confirm_isAimless {warning : Guard.Warning} (haimless : s.IsAimless path)
    (hmode : s.world.mode = .confirming line warning ctx) :
    Leads (fun _ u => u.IsAimless path) (resolve .confirmed) s := by
  rw [IsAimless, hmode] at haimless
  obtain ⟨rfl, haim⟩ := haimless
  rw [Leads, run_resolve_of_confirming hmode, if_pos rfl]
  unfold setMode
  rw [run_modify_bind]
  refine leads_isAimless_bind rfl ((note_rests _).weaken Rests.keepsMode) fun _ t hnote ht => ?_
  have hcontext : t.world.context = s.world.context := by
    rw [((note_rests _).of_run hnote).world]
    rfl
  rw [← hcontext] at haim ⊢
  exact runLine_isAimless ht haim

theorem IsAimless.not_aims (haimless : s.IsAimless path) (hline : s.world.mode.line? = some line) :
    ¬ Aims path line.redirection s.world.context := by
  rw [IsAimless] at haimless
  cases hmode : s.world.mode <;> rw [hmode] at haimless hline <;> cases hline <;> exact haimless

theorem run_followWith (hender : ender.IsFaithful path) (haimless : s.IsAimless path)
    (inputs : List String) : (followWith ender inputs).run s = (follow inputs).run s := by
  induction inputs generalizing s with
  | nil => rfl
  | cons text rest ih =>
      unfold followWith follow
      rw [run_get_bind, run_get_bind]
      split
      · rename_i hpending
        have hsame : (submitWith ender text).run s = (submit text).run s := by
          refine run_submitWith text (fun _ _ _ hmode => ?_) fun line hline =>
            hender.isPlain (haimless.not_aims hline)
          simp [hmode, Mode.pending?] at hpending
        have hleads : Leads (fun _ u => u.IsAimless path) (submit text) s :=
          submit_isAimless_of_pending haimless hpending
        rw [EStateM.run_bind, EStateM.run_bind, hsame]
        cases hrun : (submit text).run s with
        | ok _ t => exact ih (hleads.of_run hrun)
        | error e t => rfl
      · rfl

/-- A command line that does not aim at a path is carried through without its file being replaced. -/
theorem run_carryWith (hender : ender.IsFaithful path) (hmode : s.world.mode = .normal)
    (h : ∀ expanded line answer t, s.read? text = some (expanded, line) →
      (guard expanded s.world.context).run (s.remembering line.text) = .ok answer t →
        ¬ Aims path line.redirection s.world.context) (inputs : List String) :
    (carryWith ender text inputs).run s = (carry text inputs).run s := by
  have hsame : (submitWith ender text).run s = (submit text).run s := by
    refine run_submitWith text (fun expanded line t _ hread hguard =>
      hender.isPlain (h expanded line none t hread hguard)) fun line hline => ?_
    rw [hmode] at hline
    cases hline
  have hleads : Leads (fun _ u => u.IsAimless path) (submit text) s := submit_isAimless hmode h
  unfold carryWith carry
  rw [EStateM.run_bind, EStateM.run_bind, hsame]
  cases hrun : (submit text).run s with
  | error e t => rfl
  | ok _ t =>
      have haimless : t.IsAimless path := hleads.of_run hrun
      dsimp only
      rw [run_get_bind, run_get_bind]
      cases hlater : t.world.mode with
      | confirming line warning ctx =>
          have hconfirm : (confirmWith ender).run t = (resolve .confirmed).run t := by
            refine run_confirmWith fun line warning ctx hlater => ?_
            rw [IsAimless, hlater] at haimless
            exact hender.isPlain haimless.2
          dsimp only
          rw [EStateM.run_bind, EStateM.run_bind, hconfirm]
          cases hresolve : (resolve .confirmed).run t with
          | error e u => rfl
          | ok _ u =>
              exact run_followWith hender ((confirm_isAimless haimless hlater).of_run hresolve) inputs
      | normal => exact run_followWith hender haimless inputs
      | collecting line marker lines => exact run_followWith hender haimless inputs
      | password line input said => exact run_followWith hender haimless inputs
      | showing screen ctx command => exact run_followWith hender haimless inputs

/-- If warnings are wanted, the guard answers only where something is seen. -/
theorem exists_view_of_guard {expanded : String} {answer : Option Guard.Warning} {t : Session}
    (hconfirms : s.options.confirms = true) (hrun : (guard expanded ctx).run s = .ok answer t) :
    ∃ fs, s.world.viewAt s.world.viewBase = .ok fs := by
  unfold guard at hrun
  rw [run_get_bind, if_neg (by simp [hconfirms])] at hrun
  obtain ⟨fs, u, hlook, -⟩ := run_bind_eq_ok_iff.1 hrun
  rw [run_step, Step.look, run_get_bind] at hlook
  cases hview : s.world.viewAt s.world.viewBase with
  | ok fs => exact ⟨fs, rfl⟩
  | error e =>
      rw [hview] at hlook
      cases hlook

/-- A line by which the file at a path is replaced has been read from the text, and aims at that path
with what is seen when it is typed. -/
theorem Overwrites.exists_aims {inputs : List String} (h : s.Overwrites text inputs path)
    (hconfirms : s.options.confirms = true) (hmode : s.world.mode = .normal) :
    ∃ expanded line fs, s.read? text = some (expanded, line) ∧
      s.world.viewAt s.world.viewBase = .ok fs ∧
        Aims path line.redirection s.world.context := by
  by_contra hnot
  obtain ⟨ender, hender, hdiffers⟩ := h
  refine hdiffers (run_carryWith hender hmode (fun expanded line answer t hread hguard haim => ?_) inputs)
  obtain ⟨fs, hview⟩ := exists_view_of_guard (s := s.remembering line.text) hconfirms hguard
  exact hnot ⟨expanded, line, fs, hread, hview, haim⟩

end Aimless

end Session

end PracticeShell
