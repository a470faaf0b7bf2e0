import PracticeShell.Console
import PracticeShell.Help

/-!
# Playing on the program's own screen

A `Play` is a console on the screen that the program was started from. Its input is a list of lines,
in which the interrupt key can be pressed, and which ends at some point. However a play ends, its
session is closed.
-/

namespace PracticeShell

/-- What arrives from the keyboard. -/
inductive Keyboard
  | line (text : String)
  /-- The interrupt key. -/
  | interrupt
  /-- There is no more input. -/
  | endOfInput
deriving DecidableEq, Repr

/-- A console on the program's own screen. -/
structure Play where
  console : Console
  hasEnded : Bool

namespace Play

/-- Why a play breaks off. -/
inductive Fault
  | session (cause : Session.Fault)
  /-- The interrupt key is pressed where an answer is needed. -/
  | interrupted

/-- What happens in a play. What is done before a failure stays done. -/
abbrev Action (α : Type) := EStateM Fault Play α

/-- Lets the console do something. -/
def onConsole {α : Type} (action : Console.Action α) : Action α := fun p =>
  match action p.console with
  | .ok a console => .ok a { p with console }
  | .error e console => .error (.session e) { p with console }

/-- What is shown before the first line. -/
def greeting (a : Adventure) (isResumed : Bool) (s : Session) : List String :=
  [Look.cyan.apply banner, Look.bright.apply a.title] ++
    (if a.description = "" then [] else [a.description]) ++
    (if isResumed then
      [Look.cyan.apply "Continuing saved progress (use --fresh to start over)."]
    else []) ++
    ["", s.describeTask, "Meta-commands: :hint [level], :task, :progress, :reset, :quit", ""]

/-- Shows what stands before the next line. -/
def askNext : Action Unit := do
  let p ← get
  onConsole (Console.write p.console.prompt)

/-- Begins a play. -/
def start (a : Adventure) (isResumed : Bool) (session : Session) : Play :=
  let lines := greeting a isResumed session
  let console := Console.start session .own
  ⟨{ console with written := lines.map (· ++ "\n") ++ [console.prompt] }, false⟩

/-- Takes a line. -/
def takeLine (text : String) : Action Unit := do
  onConsole (Console.take text)
  if (← get).console.hasLeft then modify fun p => { p with hasEnded := true } else askNext

/-- Takes the interrupt key: it drops a line, but leaves no other question open. -/
def takeInterrupt : Action Unit := do
  match (← get).console.waiting with
  | .line .. =>
    onConsole (Console.writeLine "^C")
    askNext
  | _ => throw .interrupted

/-- Takes the end of the input, which cancels what is open and ends the play. -/
def takeEnd : Action Unit := do
  match (← get).console.waiting with
  | .line .. => pure ()
  | .confirm _ =>
    onConsole (Console.takeAnswer "")
    askNext
  | .page _ | .edit _ =>
    onConsole (Console.close .cancelled)
    askNext
  onConsole (Console.writeLine "")
  modify fun p => { p with hasEnded := true }

/-- Sets the clock. -/
def setTime (now : Int) (p : Play) : Play :=
  let session := p.console.session
  let world := session.world.tick (now - session.world.now)
  { p with console := { p.console with session := { session with world } } }

/-- Takes what has been written. -/
def takeWritten (p : Play) : List String × Play :=
  (p.console.written, { p with console := { p.console with written := [] } })

/-- Closes the session. -/
def close : Action Unit := onConsole (Console.act Session.close)

/-- Takes what arrives from the keyboard. After the end nothing is taken. -/
def take (input : Keyboard) : Action Unit := do
  if (← get).hasEnded then return ()
  let taken : Action Unit := match input with
    | .line text => takeLine text
    | .interrupt => takeInterrupt
    | .endOfInput => takeEnd
  try taken catch fault =>
    close
    throw fault
  if (← get).hasEnded then close

/-- Takes a whole input. -/
def run (inputs : List Keyboard) : Action Unit := do
  inputs.forM take
  take .endOfInput

end Play

end PracticeShell
