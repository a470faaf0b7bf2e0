import PracticeShell.Command.Arguments
import PracticeShell.FileTree.Edit
import PracticeShell.Json.Basic
import PracticeShell.Text.Lines

/-!
# Outcomes of commands

A command runs in a `Context`, which says who runs it and where, and ends with an `Outcome`: what it
prints, an exit code, the directory to go to, or the words to run once a password has been given.
Commands are `Action`s on the file system; a `Fault` ends one early and becomes an outcome where
commands are dispatched.
-/

namespace PracticeShell

/-- Who runs a command, and where. An elevated command runs as root. -/
structure Context where
  directory : String
  username : String
  elevated : Bool
deriving DecidableEq, Repr

namespace Context

/-- The user that owns all that is off limits. -/
def rootUser : String := "root"

/-- The user that a command counts as run by. -/
def user (ctx : Context) : String := if ctx.elevated then rootUser else ctx.username

/-- The home directory of the user. -/
def home (ctx : Context) : String := Path.home ctx.username

/-- The place that a path typed by the user means. -/
def resolve (ctx : Context) (target : String) : String :=
  Path.resolve ctx.directory target ctx.username

/-- The same context with elevated rights. -/
def elevate (ctx : Context) : Context := { ctx with elevated := true }

end Context

/-- What a command ends with. -/
structure Outcome where
  output : String := ""
  errors : String := ""
  exitCode : Nat := 0
  newDirectory : Option String := none
  needsPassword : Bool := false
  pending : List String := []
deriving DecidableEq, Repr

namespace Outcome

/-- The exit code of a failure. -/
def failure : Nat := 1

/-- The exit code of wrong usage. -/
def misuse : Nat := 2

/-- The exit code of a command that does not exist. -/
def unknown : Nat := 127

/-- An outcome that prints. -/
def print (output : String) : Outcome := { output }

/-- An outcome that fails with a message. -/
def fail (errors : String) (exitCode : Nat) : Outcome := { errors, exitCode }

/-- Lines of output and of errors; with errors the exit code is that of a failure. -/
def ofLines (output errors : List String) : Outcome where
  output := Text.Lines.join output
  errors := Text.Lines.join errors
  exitCode := if errors.isEmpty then 0 else failure

/-- Whether the exit code is that of success. -/
def isOk (o : Outcome) : Bool := o.exitCode == 0

/-- An outcome as a value of the data format. -/
def toJson (o : Outcome) : Json :=
  .object [("stdout", .string o.output), ("stderr", .string o.errors),
    ("exit_code", .ofNat o.exitCode), ("new_path", .ofString? o.newDirectory),
    ("requires_password", .bool o.needsPassword), ("pending_argv", .strings o.pending)]

end Outcome

/-- Why a command ends early. -/
inductive Fault
  /-- Its arguments are refused. -/
  | usage (error : Arguments.Error)
  /-- A file operation fails in a way that the command does not expect. -/
  | tree (error : FileTree.Error)
  /-- A number or a pattern is beyond what the command can handle. -/
  | internal

/-- A command that is being run. -/
abbrev Action (α : Type) := EStateM Fault FileSystem α

namespace Action

/-- The arguments of a command by its rules. -/
def arguments (rules : Arguments.Rules) (words : List String) : Action Arguments :=
  match Arguments.parse rules words with
  | .ok a => return a
  | .error (.countTooLong _) => throw .internal
  | .error e => throw (.usage e)

/-- Tries a file operation and tells the cause if it fails. -/
def attempt (operation : Edit Unit) : Action (Option FileTree.Cause) := fun fs =>
  match operation fs with
  | .ok _ fs => .ok none fs
  | .error e fs => .ok (some e.cause) fs

/-- The result of a question about the file system that is expected to have one. -/
def ask {α : Type} (question : FileSystem → Except FileTree.Error α) : Action α := do
  match question (← get) with
  | .ok a => return a
  | .error e => throw (.tree e)

/-- Runs an action for each operand and puts the messages together. -/
def forEach (operands : List String) (action : String → Action (List String)) :
    Action (List String) :=
  match operands with
  | [] => return []
  | operand :: rest => do
    let messages ← action operand
    return messages ++ (← forEach rest action)

end Action

end PracticeShell
