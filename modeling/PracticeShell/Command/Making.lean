import PracticeShell.Command.Access
import PracticeShell.Command.Operands

/-!
# Making and removing nodes

The commands `mkdir` and `touch`, `rm` and `rmdir`. A node can be made where the nearest node above
it that exists is not off limits. It can be removed when neither it, nor anything below it, nor the
directory that holds it is off limits. The root is never removed.
-/

namespace PracticeShell.Command

/-- The message that a failed operation gives, if it has failed. -/
def messageOf (start : String) : Option FileTree.Cause → List String
  | some cause => [start ++ cause.text]
  | none => []

/-- Makes one directory, with those above it if `parents` is set. -/
def makeOne (ctx : Context) (parents : Bool) (operand : String) : Action (List String) := do
  let full := ctx.resolve operand
  let start := "mkdir: cannot create directory '" ++ operand ++ "': "
  if Access.parentDenied ctx (← get) full then return [start ++ "Permission denied"]
  let make := if parents then Edit.makeDirectories else Edit.makeDirectory
  return messageOf start
    (← Action.attempt (make full Permissions.newDirectory (some ctx.user)))

/-- Makes directories. -/
def runMkdir (ctx : Context) (words : List String) : Action Outcome := do
  let args ← Action.arguments (.flagsOnly "p") words
  if args.operands.isEmpty then return .fail "mkdir: missing operand" Outcome.failure
  return .ofLines [] (← Action.forEach args.operands (makeOne ctx (args.has ['p'])))

/-- Makes an empty file, or stamps a node with the time. -/
def touchOne (ctx : Context) (operand : String) : Action (List String) := do
  let full := ctx.resolve operand
  let start := "touch: cannot touch '" ++ operand ++ "': "
  let fs ← get
  let node := fs.stat? full
  if Access.deniedIfAny ctx node || (node.isNone && Access.parentDenied ctx fs full) then
    return [start ++ "Permission denied"]
  return messageOf start (← Action.attempt (Edit.touch full (some ctx.user)))

/-- Makes empty files, or stamps nodes with the time. -/
def runTouch (ctx : Context) (words : List String) : Action Outcome := do
  let args ← Action.arguments (.flagsOnly "") words
  if args.operands.isEmpty then return .fail "touch: missing file operand" Outcome.failure
  return .ofLines [] (← Action.forEach args.operands (touchOne ctx))

/-- Removes one node. -/
def removeOne (ctx : Context) (recursive force : Bool) (operand : String) :
    Action (List String) := do
  let full := ctx.resolve operand
  let start := "rm: cannot remove '" ++ operand ++ "': "
  if full = "/" && recursive then return ["rm: it is dangerous to operate recursively on '/'"]
  let fs ← get
  match fs.stat? full with
  | none => return if force then [] else [start ++ "No such file or directory"]
  | some node =>
    if node.isDirectory && !recursive then return [start ++ "Is a directory"]
    if Access.parentDenied ctx fs full || Access.treeDenied ctx fs full then
      return [start ++ "Permission denied"]
    let remove := if node.isDirectory then Edit.removeTree else Edit.unlink
    return messageOf start (← Action.attempt (remove full))

/-- Removes files, and directories with all they hold. -/
def runRm (ctx : Context) (words : List String) : Action Outcome := do
  let args ← Action.arguments (.flagsOnly "rRf") words
  let force := args.has ['f']
  let operands := Operands.expand ctx (← get) args.operands
  if operands.isEmpty then
    return if force then {} else .fail "rm: missing operand" Outcome.failure
  return .ofLines [] (← Action.forEach operands (removeOne ctx (args.has ['r', 'R']) force))

/-- Removes one empty directory. -/
def removeDirectoryOne (ctx : Context) (operand : String) : Action (List String) := do
  let full := ctx.resolve operand
  let start := "rmdir: failed to remove '" ++ operand ++ "': "
  let fs ← get
  if Access.deniedIfAny ctx (fs.stat? full) || Access.parentDenied ctx fs full then
    return [start ++ "Permission denied"]
  return messageOf start (← Action.attempt (Edit.removeDirectory full))

/-- Removes empty directories. -/
def runRmdir (ctx : Context) (words : List String) : Action Outcome := do
  let args ← Action.arguments (.flagsOnly "") words
  if args.operands.isEmpty then return .fail "rmdir: missing operand" Outcome.failure
  return .ofLines [] (← Action.forEach args.operands (removeDirectoryOne ctx))

end PracticeShell.Command
