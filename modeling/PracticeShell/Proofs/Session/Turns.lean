import PracticeShell.Proofs.Session.Confirming
import PracticeShell.Proofs.Session.Straying

/-!
# Turns of the learner

A learner gives a session lines, and answers to what is shown. Most lines come to the words of a
command in the end, some at once and some by a later turn; `Session.carried?` says which words a turn
carries out.

What a session does with its inputs can be read as a program over whatever runs the words of commands
(`Session.Runner`); with `Session.dispatch` it is the session itself. If a run stays the same with every
runner that differs from `dispatch` in elevated contexts only, then no words have been run in such a
context.
-/

namespace PracticeShell

open Run

/-- A turn of the learner. -/
inductive Turn
  /-- A line. -/
  | line (text : String)
  /-- The answer to a screen or to a warning. -/
  | answer (resolution : Resolution)
deriving DecidableEq, Repr

/-- What a session does with a turn. -/
def Turn.act : Turn → Session.Action Response
  | line text => Session.submit text
  | answer resolution => Session.resolve resolution

namespace Session

/-- The words that a turn carries out, unless they are held back, and the context that they are run
in: those of a command line, or those that have waited for the end of their input, for the password
or for the answer to a warning. With elevated rights `sudo` before them is passed over. -/
def carried? (s : Session) (turn : Turn) : Option (Context × List String) :=
  let bare := fun (ctx : Context) (line : CommandLine) => (ctx, Dispatch.bare ctx line.words)
  match turn, s.world.mode with
  | .line text, .normal => (s.read? text).map fun read => bare s.world.context read.2
  | .line text, .collecting line marker _ =>
    if withoutLineEnd text = marker then some (bare s.world.context line) else none
  | .line text, .password line _ _ =>
    if withoutLineEnd text = s.options.password then some (bare s.world.context.elevate line)
    else none
  | .answer resolution, .confirming line _ ctx =>
    if resolution = .confirmed then some (bare ctx line) else none
  | _, _ => none

variable {s : Session} {text : String}

theorem viewBase_setMode (w : World) (mode : Mode) :
    World.viewBase { w with mode } = w.viewBase := rfl

theorem context_setMode (w : World) (mode : Mode) : World.context { w with mode } = w.context := rfl

/-- The converse of `of_read?`. -/
theorem read?_of_parse {redirection : Redirection}
    (htext : Text.Blank.trim (withoutLineEnd text) ≠ "")
    (hparse : Redirection.parse
      (s.world.environment.expand (Text.Blank.trim (withoutLineEnd text))) = .ok redirection)
    (hwords : (Words.split redirection.command).isEmpty = false) :
    s.read? text = some (s.world.environment.expand (Text.Blank.trim (withoutLineEnd text)),
      ⟨Text.Blank.trim (withoutLineEnd text), Words.split redirection.command, redirection⟩) := by
  unfold read?
  dsimp only
  rw [if_neg htext, hparse]
  dsimp only
  rw [hwords, if_neg Bool.false_ne_true]

theorem carried?_of_read? {expanded : String} {line : CommandLine} (hmode : s.world.mode = .normal)
    (hread : s.read? text = some (expanded, line)) : s.carried? (.line text) =
      some (s.world.context, Dispatch.bare s.world.context line.words) := by
  unfold carried?
  rw [hmode]
  dsimp only
  rw [hread]
  rfl

theorem carried?_of_collecting {line : CommandLine} {marker : String} {lines : List String}
    (hmode : s.world.mode = .collecting line marker lines) (htext : withoutLineEnd text = marker) :
    s.carried? (.line text) =
      some (s.world.context, Dispatch.bare s.world.context line.words) := by
  unfold carried?
  rw [hmode]
  exact if_pos htext

theorem carried?_of_password {line : CommandLine} {input said : Option String}
    (hmode : s.world.mode = .password line input said)
    (htext : withoutLineEnd text = s.options.password) : s.carried? (.line text) =
      some (s.world.context.elevate, Dispatch.bare s.world.context.elevate line.words) := by
  unfold carried?
  rw [hmode]
  exact if_pos htext

theorem carried?_of_confirming {line : CommandLine} {warning : Guard.Warning} {ctx : Context}
    (hmode : s.world.mode = .confirming line warning ctx) :
    s.carried? (.answer .confirmed) = some (ctx, Dispatch.bare ctx line.words) := by
  unfold carried?
  rw [hmode]
  exact if_pos rfl

end Session

theorem World.elevated_context (w : World) : w.context.elevated = false := by
  unfold World.context
  cases w.remote <;> rfl

namespace Session

/-- What runs the words of commands in a context, on the files below a directory, with an input. -/
abbrev Runner := Context → Option String → Option String → List String → Action Dispatch.Result

variable (run : Runner)

/-- `dispatchOrGoBack` with another runner. -/
def dispatchOrGoBackBy (line : CommandLine) (ctx : Context) (base input : Option String) :
    Action Dispatch.Result := do
  let w := (← get).world
  if line.words = ["cd", "-"] && w.remote.isNone then
    let r ← run ctx base input ["cd", (w.environment.get? "OLDPWD").getD ""]
    if r.outcome.isOk then
      return { r with outcome := { r.outcome with
        output := (w.environment.get? "OLDPWD").getD "" } }
    else return r
  else run ctx base input line.words

/-- `runLine` with another runner. -/
def runLineBy (line : CommandLine) (ctx : Context) : Action Response := do
  match line.redirection.effect with
  | .lines marker _ =>
    setMode (.collecting line marker [])
    respond fun prompt => { prompt }
  | _ =>
    let base := (← get).world.viewBase
    let _ ← step (Step.look base)
    match ← readInput line ctx base none with
    | .error problem => finish line.text problem none false
    | .ok input =>
      if lacksPrevious (← get).world line then
        finish line.text (.fail "cd: OLDPWD not set" Outcome.failure) none false
      else
        let r ← dispatchOrGoBackBy run line ctx base input
        if r.outcome.needsPassword then awaitPassword line r.outcome none none
        else complete line r ctx ctx base none

/-- `submitCommand` with another runner. -/
def submitCommandBy (text : String) : Action Response := do
  let text := Text.Blank.trim text
  if text = "" then respond fun prompt => { prompt }
  else
    modify fun s => { s with world := s.world.remember text s.options.historyLimit }
    let expanded := (← get).world.environment.expand text
    match Redirection.parse expanded with
    | .error _ => finish text (.fail Redirection.syntaxError Outcome.misuse) none false
    | .ok redirection =>
      let line : CommandLine := ⟨text, Words.split redirection.command, redirection⟩
      if line.words.isEmpty then finish text {} none false
      else
        let ctx := (← get).world.context
        match ← guard expanded ctx with
        | some warning =>
          setMode (.confirming line warning ctx)
          note (.warning warning.level .prompted)
          respond fun prompt => { prompt, intent := some (.confirm line.text warning) }
        | none => runLineBy run line ctx

/-- `submitPassword` with another runner. -/
def submitPasswordBy (text : String) (line : CommandLine) (input said : Option String) :
    Action Response := do
  setMode .normal
  let s ← get
  let ctx := s.world.context
  if text ≠ s.options.password then
    note (.password false)
    finish line.text (.fail "sudo: 3 incorrect password attempts" Outcome.failure) none false
  else
    note (.password true)
    let base := s.world.viewBase
    let _ ← step (Step.look base)
    match ← readInput line ctx.elevate base input with
    | .error problem => finish line.text problem none false
    | .ok input =>
      let r ← run ctx.elevate base input line.words
      complete line r ctx.elevate ctx base said

/-- `submitInput` with another runner. -/
def submitInputBy (text : String) (line : CommandLine) (marker : String) (lines : List String) :
    Action Response := do
  if text ≠ marker then
    setMode (.collecting line marker (lines ++ [text]))
    respond fun prompt => { prompt }
  else
    setMode .normal
    let input := some (Redirection.body lines)
    let said := line.redirection.target?.map (linesWritten lines.length)
    let w := (← get).world
    let base := w.viewBase
    let _ ← step (Step.look base)
    let r ← run w.context base input line.words
    if r.outcome.needsPassword then awaitPassword line r.outcome input said
    else complete line r w.context w.context base said

/-- `submit` with another runner. While something is shown, a line runs nothing. -/
def submitBy (text : String) : Action Response := do
  match (← get).world.mode with
  | .password line input said => submitPasswordBy run (withoutLineEnd text) line input said
  | .collecting line marker lines => submitInputBy run (withoutLineEnd text) line marker lines
  | .normal => submitCommandBy run (withoutLineEnd text)
  | .confirming .. | .showing .. => submit text

/-- `resolve` with another runner. Only a warning holds back words to be run. -/
def resolveBy (resolution : Resolution) : Action Response := do
  match (← get).world.mode with
  | .confirming line warning ctx =>
    if resolution = .confirmed then
      setMode .normal
      note (.warning warning.level .confirmed)
      runLineBy run line ctx
    else resolve resolution
  | _ => resolve resolution

/-- What a session does with an input, with another runner. -/
def actBy : Input → Action Unit
  | .line text => do let _ ← submitBy run text
  | .answer resolution => do let _ ← resolveBy run resolution
  | i => i.act

/-- A session after some inputs, with another runner. -/
def afterBy (s : Session) (inputs : List Input) : Session :=
  inputs.foldl (fun s i => left ((actBy run i).run s)) s

/-- Whether a runner runs words as a session does wherever the rights are not elevated. -/
def Runner.IsFaithful : Prop :=
  ∀ ctx base input words, ctx.elevated = false → run ctx base input words = dispatch ctx base input words

variable {run}

theorem afterBy_cons (s : Session) (i : Input) (inputs : List Input) :
    s.afterBy run (i :: inputs) = (left ((actBy run i).run s)).afterBy run inputs := rfl

section Same

variable {s : Session} {ctx : Context} (h : run ctx = dispatch ctx)

include h

theorem dispatchOrGoBackBy_eq (line : CommandLine) (base input : Option String) :
    dispatchOrGoBackBy run line ctx base input = dispatchOrGoBack line ctx base input := by
  unfold dispatchOrGoBackBy dispatchOrGoBack
  rw [h]

theorem runLineBy_eq (line : CommandLine) : runLineBy run line ctx = runLine line ctx := by
  have hsame : dispatchOrGoBackBy run line ctx = dispatchOrGoBack line ctx := by
    funext base input
    exact dispatchOrGoBackBy_eq h line base input
  unfold runLineBy
  rw [hsame]
  unfold runLine
  cases line.redirection.effect <;> rfl

end Same

section Same

variable {s : Session} (h : run s.world.context = dispatch s.world.context)

include h

theorem run_submitCommandBy (text : String) :
    (submitCommandBy run text).run s = (submitCommand text).run s := by
  unfold submitCommandBy submitCommand
  dsimp only
  split
  · rfl
  rw [run_modify_bind, run_modify_bind, run_get_bind, run_get_bind]
  cases Redirection.parse _ with
  | error problem => rfl
  | ok redirection =>
      dsimp only
      split
      · rfl
      rw [run_get_bind, run_get_bind]
      refine run_bind_congr fun warning t _ => ?_
      cases warning with
      | some warning => rfl
      | none => exact congrArg (fun action => EStateM.run action t) (runLineBy_eq h _)

theorem run_submitInputBy (text : String) (line : CommandLine) (marker : String)
    (lines : List String) :
    (submitInputBy run text line marker lines).run s = (submitInput text line marker lines).run s := by
  unfold submitInputBy submitInput
  split
  · rfl
  · refine run_bind_congr fun _ n hnormal => ?_
    cases hnormal
    dsimp only
    rw [run_get_bind, run_get_bind]
    refine run_bind_congr fun _ t _ => ?_
    rw [context_setMode, h]

end Same

/-- A wrong password runs nothing. -/
theorem run_submitPasswordBy {s : Session} {text : String} (h : text ≠ s.options.password)
    (line : CommandLine) (input said : Option String) :
    (submitPasswordBy run text line input said).run s = (submitPassword text line input said).run s := by
  unfold submitPasswordBy submitPassword
  change EStateM.run (ite _ _ _) _ = EStateM.run (ite _ _ _) _
  rw [if_pos h, if_pos h]

section Inputs

variable {s : Session}

theorem run_submitBy {text : String} (hcontext : run s.world.context = dispatch s.world.context)
    (hpassword : ∀ line input said, s.world.mode = .password line input said →
      (submitPasswordBy run (withoutLineEnd text) line input said).run s =
        (submitPassword (withoutLineEnd text) line input said).run s) :
    (submitBy run text).run s = (submit text).run s := by
  unfold submitBy submit
  rw [run_get_bind, run_get_bind]
  cases hmode : s.world.mode with
  | normal => exact run_submitCommandBy hcontext _
  | collecting line marker lines => exact run_submitInputBy hcontext _ _ _ _
  | password line input said => exact hpassword line input said hmode
  | confirming line warning ctx =>
      dsimp only
      rw [run_get_bind, hmode]
  | showing screen ctx command =>
      dsimp only
      rw [run_get_bind, hmode]

theorem run_resolveBy (h : ∀ line warning ctx, s.world.mode = .confirming line warning ctx →
    run ctx = dispatch ctx) (resolution : Resolution) :
    (resolveBy run resolution).run s = (resolve resolution).run s := by
  unfold resolveBy
  rw [run_get_bind]
  cases hmode : s.world.mode with
  | confirming line warning ctx =>
      dsimp only
      split
      · rename_i hconfirmed
        unfold resolve
        rw [run_get_bind, hmode, runLineBy_eq (h line warning ctx hmode)]
        subst hconfirmed
        rfl
      · rfl
  | normal => rfl
  | collecting line marker lines => rfl
  | password line input said => rfl
  | showing screen ctx command => rfl

/-- Only for lines and answers words are run. -/
theorem run_actBy {i : Input}
    (hline : ∀ text, i = .line text → (submitBy run text).run s = (submit text).run s)
    (hanswer : ∀ resolution, i = .answer resolution →
      (resolveBy run resolution).run s = (resolve resolution).run s) :
    (actBy run i).run s = i.act.run s := by
  cases i with
  | line text =>
      unfold actBy Input.act
      rw [EStateM.run_bind, EStateM.run_bind, hline text rfl]
  | answer resolution =>
      unfold actBy Input.act
      rw [EStateM.run_bind, EStateM.run_bind, hanswer resolution rfl]
  | question text => rfl
  | hint level => rfl
  | reset => rfl
  | close => rfl
  | tick seconds => rfl

end Inputs

/-- With `dispatch` as the runner, a session does what it does. -/
theorem afterBy_dispatch (s : Session) (inputs : List Input) :
    s.afterBy dispatch inputs = s.after inputs := by
  induction inputs generalizing s with
  | nil => rfl
  | cons i inputs ih =>
      have hsame : (actBy dispatch i).run s = i.act.run s :=
        run_actBy (fun _ _ => run_submitBy rfl fun _ _ _ _ => rfl)
          fun resolution _ => run_resolveBy (fun _ _ _ _ => rfl) resolution
      rw [afterBy_cons, hsame, ih, after_cons, next]

/-- Whether an input is the password that a session waits for. -/
def Unlocks (s : Session) : Input → Prop
  | .line text => s.world.mode.isPassword = true ∧ withoutLineEnd text = s.options.password
  | _ => False

/-- Whether a line that is held back by a warning is not to be run with elevated rights. -/
def IsSober (s : Session) : Prop :=
  ∀ line warning ctx, s.world.mode = .confirming line warning ctx → ctx.elevated = false

theorem Runner.IsFaithful.eq (h : run.IsFaithful) {ctx : Context} (hctx : ctx.elevated = false) :
    run ctx = dispatch ctx := by
  funext base input words
  exact h ctx base input words hctx

/-- Unless an input is the password that a session waits for, no words are run for it with elevated
rights. -/
theorem run_actBy_of_isFaithful {s : Session} (h : run.IsFaithful) (hsober : s.IsSober) {i : Input}
    (hlocked : ¬ s.Unlocks i) : (actBy run i).run s = i.act.run s := by
  refine run_actBy (fun text hi => ?_) fun resolution _ =>
    run_resolveBy (fun line warning ctx hmode => h.eq (hsober line warning ctx hmode)) resolution
  subst hi
  refine run_submitBy (h.eq s.world.elevated_context) fun line input said hmode => ?_
  refine run_submitPasswordBy (fun htext => hlocked ⟨?_, htext⟩) _ _ _
  rw [hmode]
  rfl

end Session

end PracticeShell
