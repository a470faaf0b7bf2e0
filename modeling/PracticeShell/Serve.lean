import PracticeShell.Console
import PracticeShell.Terminal

/-!
# Sessions over the network

`Serve.run` shows a console at a terminal: it reads lines from the keys that arrive and sends what
the console writes, until the learner leaves, the terminal is closed, or something fails.
-/

namespace PracticeShell.Serve

/-- How a session over the network ends. -/
inductive Ending
  /-- The learner has left. -/
  | left
  /-- The terminal was closed. -/
  | closed
  /-- The session has failed. -/
  | failed (cause : Session.Fault)

/-- A console at a terminal, and all that has been sent. -/
structure Connection where
  console : Console
  terminal : Terminal
  sent : String

/-- Sends what the console has written. -/
def Connection.flush (c : Connection) : Connection :=
  { c with
    sent := c.sent ++ String.join (c.console.written.map Terminal.wire)
    console := { c.console with written := [] } }

/-- Reads a line and gives it to the console; the ending tells that it was the last. -/
def step (c : Connection) : Option Ending × Connection :=
  let r := c.terminal.readLine c.console.prompt c.console.isMasked
  let c := { c with terminal := r.terminal, sent := c.sent ++ r.sent }
  match r.line with
  | none => (some .closed, c)
  | some line =>
    match Console.take line c.console with
    | .ok () console =>
      (if console.hasLeft then some .left else none, { c with console }.flush)
    | .error e console => (some (.failed e), { c with console }.flush)

/-- Reads at most `fuel` lines. -/
def loop : (fuel : Nat) → Connection → Ending × Connection
  | 0, c => (.closed, c)
  | fuel + 1, c =>
    match step c with
    | (some ending, c) => (ending, c)
    | (none, c) => loop fuel c

/-- Shows a session at a terminal. -/
def run (session : Session) (height : Int) (t : Terminal) : Ending × Connection :=
  loop (t.bound + 1) ⟨.start session (.network height), t, ""⟩

end PracticeShell.Serve
