import PracticeShell.Session.Basic
import PracticeShell.Session.Dispatch

/-!
# Lines and answers

`Session.submit` takes one line from the learner and does with it what the mode says. A command line
is noted in the history, its variables are expanded, and its redirection is found; the guard may ask
whether it is meant; then it is run, and what can be seen afterwards is held against the tasks.
`Session.resolve` takes the answer to a screen or a warning.
-/

namespace PracticeShell.Session

/-- A response with the prompt of now. -/
def respond (make : String → Response) : Action Response := do return make (← get).prompt

/-- What is noted about an event. -/
def activityOf : Event → Activity
  | .taskCompleted .. => .taskCompleted
  | .missionCompleted .. => .missionCompleted
  | .adventureCompleted .. => .adventureCompleted

/-- What can be seen after a command line. -/
def observe (s : Session) (line : String) (o : Outcome) : Observation :=
  let ctx := s.world.context
  { output := o.output
    errors := o.errors
    exitCode := o.exitCode
    fs := some s.world.fs
    command := line
    exported := s.world.environment.exported.map (·.1)
    directory := ctx.directory
    username := ctx.username }

/-- Holds what can be seen after a command line against the tasks. Progress is saved when something
has been achieved. -/
def checkTasks (line : String) (o : Outcome) : Action (List Event) := do
  let s ← get
  match s.tracker with
  | none => return []
  | some t =>
    let (r, t) := t.record (s.observe line o)
    set { s with
      tracker := some t
      journal := s.journal ++ r.faulty.map fun (c : Check) => Activity.faultyCheck c.name }
    match r.fault with
    | some fault => throw (.task fault)
    | none =>
      modify fun s => { s with journal := s.journal ++ r.events.map activityOf }
      if !r.events.isEmpty then saveProgress
      return r.events

/-- The name of the command of a line, without a first `sudo` that has a command after it. -/
def commandName (line : String) : String :=
  match Words.split line with
  | "sudo" :: name :: _ => name
  | name :: _ => name
  | [] => ""

/-- Ends a command line: its exit code is kept, and the tasks are checked. The response tells what the
line has opened. -/
def finish (line : String) (o : Outcome) (intent : Option Intent) (leaves : Bool) :
    Action Response := do
  modify fun s => { s with
    world := { s.world with
      environment := { s.world.environment with lastStatus := o.exitCode } } }
  note (.command (commandName line) o.exitCode)
  let events ← checkTasks line o
  respond fun prompt => {
    output := o.output, errors := o.errors, exitCode := o.exitCode, prompt, intent, events, leaves }

/-- Waits for the password that a command line needs. -/
def awaitPassword (line : CommandLine) (o : Outcome) (input said : Option String) :
    Action Response := do
  setMode (.password { line with words := o.pending } input said)
  respond fun prompt => { prompt, masked := true }

/-- Ends the run of a command: shows its screen, and sends its output where it is redirected to. -/
def complete (line : CommandLine) (r : Dispatch.Result) (runner writer : Context)
    (base : Option String) (said : Option String) : Action Response := do
  match r.screen with
  | some screen => setMode (.showing screen runner line.text)
  | none => pure ()
  let o ← step (Step.onView base (line.redirection.applyTo writer r.outcome said))
  finish line.text o (r.screen.map Intent.screen) r.leaves

/-- The text that a command reads from a file, if its input is redirected. -/
def readInput (line : CommandLine) (ctx : Context) (base : Option String)
    (otherwise : Option String) : Action (Except Outcome (Option String)) := do
  match line.redirection.effect with
  | .fromFile operand =>
    let fs ← step (Step.look base)
    return (Redirection.input ctx fs operand).map some
  | _ => return .ok otherwise

/-- Runs a command on the files that are seen. -/
def dispatch (ctx : Context) (base input : Option String) (words : List String) :
    Action Dispatch.Result := do
  step (Dispatch.run (← get).options.remoteHosts ctx base input words)

/-- Runs a command; `cd -` goes back to the directory before and tells it. -/
def dispatchOrGoBack (line : CommandLine) (ctx : Context) (base input : Option String) :
    Action Dispatch.Result := do
  let w := (← get).world
  if line.words = ["cd", "-"] && w.remote.isNone then
    let r ← dispatch ctx base input ["cd", (w.environment.get? "OLDPWD").getD ""]
    if r.outcome.isOk then
      return { r with outcome := { r.outcome with
        output := (w.environment.get? "OLDPWD").getD "" } }
    else return r
  else dispatch ctx base input line.words

/-- Whether a command line goes back to the directory before although there is none. -/
def lacksPrevious (w : World) (line : CommandLine) : Bool :=
  line.words = ["cd", "-"] && w.remote.isNone && (w.environment.get? "OLDPWD").getD "" = ""

/-- Runs a command line, or waits for the lines that are its input. -/
def runLine (line : CommandLine) (ctx : Context) : Action Response := do
  match line.redirection.effect with
  | .lines marker _ =>
    setMode (.collecting line marker [])
    respond fun prompt => { prompt }
  | _ =>
    let base := (← get).world.viewBase
    let _ ← step (Step.look base)
    match ← readInput line ctx base none with
    | .error problem => finish line.text problem none false
    | .ok input =>
      if lacksPrevious (← get).world line then
        finish line.text (.fail "cd: OLDPWD not set" Outcome.failure) none false
      else
        let r ← dispatchOrGoBack line ctx base input
        if r.outcome.needsPassword then awaitPassword line r.outcome none none
        else complete line r ctx ctx base none

/-- The warning about a command line, if warnings are wanted. -/
def guard (expanded : String) (ctx : Context) : Action (Option Guard.Warning) := do
  let s ← get
  if !s.options.confirms then return none
  let fs ← step (Step.look s.world.viewBase)
  let critical := match s.adventure? with
    | some a => a.criticalPaths
    | none => []
  return Guard.inspect ⟨ctx.directory, ctx.username, critical, some fs⟩ expanded

/-- Takes a command line. -/
def submitCommand (text : String) : Action Response := do
  let text := Text.Blank.trim text
  if text = "" then respond fun prompt => { prompt }
  else
    modify fun s => { s with world := s.world.remember text s.options.historyLimit }
    let expanded := (← get).world.environment.expand text
    match Redirection.parse expanded with
    | .error _ => finish text (.fail Redirection.syntaxError Outcome.misuse) none false
    | .ok redirection =>
      let line : CommandLine := ⟨text, Words.split redirection.command, redirection⟩
      if line.words.isEmpty then finish text {} none false
      else
        let ctx := (← get).world.context
        match ← guard expanded ctx with
        | some warning =>
          setMode (.confirming line warning ctx)
          note (.warning warning.level .prompted)
          respond fun prompt => { prompt, intent := some (.confirm line.text warning) }
        | none => runLine line ctx

/-- Takes a password. The file that output is redirected to is opened without elevated rights. -/
def submitPassword (text : String) (line : CommandLine) (input said : Option String) :
    Action Response := do
  setMode .normal
  let s ← get
  let ctx := s.world.context
  if text ≠ s.options.password then
    note (.password false)
    finish line.text (.fail "sudo: 3 incorrect password attempts" Outcome.failure) none false
  else
    note (.password true)
    let base := s.world.viewBase
    let _ ← step (Step.look base)
    match ← readInput line ctx.elevate base input with
    | .error problem => finish line.text problem none false
    | .ok input =>
      let r ← dispatch ctx.elevate base input line.words
      complete line r ctx.elevate ctx base said

/-- What is told when lines have been written to a file. -/
def linesWritten (count : Nat) (t : Redirection.Target) : String :=
  "Heredoc input captured: " ++ toString count ++ " lines written to " ++ t.operand

/-- Takes a line of input for a command; the marker ends the input. -/
def submitInput (text : String) (line : CommandLine) (marker : String) (lines : List String) :
    Action Response := do
  if text ≠ marker then
    setMode (.collecting line marker (lines ++ [text]))
    respond fun prompt => { prompt }
  else
    setMode .normal
    let input := some (Redirection.body lines)
    let said := line.redirection.target?.map (linesWritten lines.length)
    let w := (← get).world
    let base := w.viewBase
    let _ ← step (Step.look base)
    let r ← dispatch w.context base input line.words
    if r.outcome.needsPassword then awaitPassword line r.outcome input said
    else complete line r w.context w.context base said

/-- A line without the line ends that it ends with. -/
def withoutLineEnd (text : String) : String :=
  String.ofList (Text.Blank.dropWhileEnd (fun c => c == '\r' || c == '\n') text.toList)

/-- Takes a line from the learner. -/
def submit (text : String) : Action Response := do
  let text := withoutLineEnd text
  let s ← get
  match s.world.mode with
  | .password line input said => submitPassword text line input said
  | .collecting line marker lines => submitInput text line marker lines
  | .normal => submitCommand text
  | .confirming .. | .showing .. =>
    let kind := match s.intent? with
      | some i => i.kind
      | none => ""
    return {
      errors := "shellquest: waiting for the " ++ kind ++ " to close"
      exitCode := Outcome.failure, prompt := s.prompt, intent := s.intent? }

/-- Takes the answer to a screen or to a warning. -/
def resolve (resolution : Resolution) : Action Response := do
  match (← get).world.mode with
  | .confirming line warning ctx =>
    setMode .normal
    if resolution = .confirmed then
      note (.warning warning.level .confirmed)
      runLine line ctx
    else
      note (.warning warning.level .cancelled)
      respond fun prompt => { output := "Command cancelled.", prompt }
  | .showing screen ctx command =>
    setMode .normal
    let o ← step (Screens.close screen resolution ctx (← get).world.viewBase)
    finish command o none false
  | _ =>
    respond fun prompt => {
      errors := "shellquest: nothing to resolve", exitCode := Outcome.failure, prompt }

end PracticeShell.Session
