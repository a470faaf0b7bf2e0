import PracticeShell.Command.Making
import PracticeShell.FileTree.Copy

/-!
# Copying and moving

The commands `cp` and `mv`. Their last operand is the destination: a directory to put the sources
into, or the new path of a single source.
-/

namespace PracticeShell.Command

/-- The operands of a transfer. -/
structure Transfer where
  sources : List String
  destination : String
  intoDirectory : Bool
deriving Repr

/-- Sorts the operands of a transfer out, or says what is wrong with them. -/
def Transfer.ofOperands (command : String) (ctx : Context) (fs : FileSystem)
    (operands : List String) : Except String Transfer :=
  match Operands.expand ctx fs operands with
  | [] => .error (command ++ ": missing file operand")
  | [only] => .error (command ++ ": missing destination file operand after '" ++ only ++ "'")
  | operands =>
    let sources := operands.dropLast
    let destination := operands.getLast?.getD ""
    let intoDirectory := fs.isDirectory (ctx.resolve destination)
    if sources.length > 1 && !intoDirectory then
      .error (command ++ ": target '" ++ destination ++ "' is not a directory")
    else .ok ⟨sources, destination, intoDirectory⟩

/-- Where a source goes. -/
def Transfer.target (t : Transfer) (ctx : Context) (full : String) : String :=
  let destination := ctx.resolve t.destination
  if t.intoDirectory then Path.join destination (Path.basename full) else destination

/-- Copies one source. -/
def copyOne (ctx : Context) (t : Transfer) (recursive : Bool) (source : String) :
    Action (List String) := do
  let full := ctx.resolve source
  let fs ← get
  let create := "cp: cannot create regular file '" ++ t.destination ++ "': "
  match fs.stat? full with
  | none => return ["cp: cannot stat '" ++ source ++ "': No such file or directory"]
  | some node =>
    if node.isDirectory && !recursive then
      return ["cp: -r not specified; omitting directory '" ++ source ++ "'"]
    if Access.treeDenied ctx fs full then
      return ["cp: cannot open '" ++ source ++ "' for reading: Permission denied"]
    let target := t.target ctx full
    if node.isDirectory && Path.isWithin target full then
      return ["cp: cannot copy a directory, '" ++ source ++ "', into itself, '" ++ t.destination ++
        "'"]
    let there := fs.stat? target
    if Access.deniedIfAny ctx there || (there.isNone && Access.parentDenied ctx fs target) then
      return [create ++ "Permission denied"]
    if node.isDirectory && there.any (!·.isDirectory) then
      return ["cp: cannot overwrite non-directory '" ++ t.destination ++ "' with directory '" ++
        source ++ "'"]
    let copy := if node.isDirectory then Edit.copyTree else Edit.copyFile
    return messageOf create (← Action.attempt (copy full target (some ctx.user)))

/-- Copies files, and directories with all they hold. -/
def runCp (ctx : Context) (words : List String) : Action Outcome := do
  let args ← Action.arguments (.flagsOnly "rRf") words
  match Transfer.ofOperands "cp" ctx (← get) args.operands with
  | .error message => return .fail message Outcome.failure
  | .ok t => return .ofLines [] (← Action.forEach t.sources (copyOne ctx t (args.has ['r', 'R'])))

/-- Moves one source. -/
def moveOne (ctx : Context) (t : Transfer) (force : Bool) (source : String) :
    Action (List String) := do
  let full := ctx.resolve source
  let fs ← get
  let start := "mv: cannot move '" ++ source ++ "' to '" ++ t.destination ++ "': "
  match fs.stat? full with
  | none =>
    return if force then [] else ["mv: cannot stat '" ++ source ++ "': No such file or directory"]
  | some node =>
    let target := t.target ctx full
    if node.isDirectory && target ≠ full && Path.isWithin target full then
      return ["mv: cannot move '" ++ source ++ "' to a subdirectory of itself, '" ++
        t.destination ++ "'"]
    if Access.denied ctx node || Access.parentDenied ctx fs full ||
        Access.deniedIfAny ctx (fs.stat? target) || Access.parentDenied ctx fs target then
      return [start ++ "Permission denied"]
    return messageOf start (← Action.attempt (Edit.rename full target))

/-- Moves files and directories. -/
def runMv (ctx : Context) (words : List String) : Action Outcome := do
  let args ← Action.arguments (.flagsOnly "f") words
  match Transfer.ofOperands "mv" ctx (← get) args.operands with
  | .error message => return .fail message Outcome.failure
  | .ok t => return .ofLines [] (← Action.forEach t.sources (moveOne ctx t (args.has ['f'])))

end PracticeShell.Command
