import PracticeShell.Redirection
import PracticeShell.Text.Case
import PracticeShell.Text.Replace

/-!
# Guard against loss

Before a command line is run, `Guard.inspect` looks at whether it could destroy what a learner would
miss: protected directories, the learner's home, critical paths and files that look important. Such
a line gets a `Warning`, which has a level, a reason and the paths in danger, and perhaps offers a
safer way (`Guard.saferWay`).
-/

namespace PracticeShell.Guard

/-- How grave a warning is. -/
inductive Level
  | warning
  | danger
  | critical
deriving DecidableEq, Repr

namespace Level

/-- The name of a level. -/
def name : Level → String
  | warning => "warning"
  | danger => "danger"
  | critical => "critical"

/-- The title of a warning. -/
def title : Level → String
  | warning => "Confirm Action"
  | danger => "Dangerous Operation"
  | critical => "CRITICAL: Destructive Operation"

/-- What a learner says to go on. -/
def confirmLabel : Level → String
  | warning => "Continue"
  | danger => "Yes, proceed"
  | critical => "I understand the risk"

end Level

/-- A warning about a command line. -/
structure Warning where
  level : Level
  reason : String
  command : String
  affected : List String
  canRecover : Bool
deriving DecidableEq, Repr

/-- Directories that no exercise should lose. -/
def protectedPaths : List String :=
  ["/", "/home", "/var", "/etc", "/usr", "/bin", "/lib", "/root"]

/-- Paths that every adventure depends on. -/
def criticalPaths : List String := ["/var/log", "/etc/hosts", "/remotes"]

/-- Commands that write to whole disks. -/
def diskCommands : List String := ["dd", "mkfs", "fdisk", "shred"]

/-- Whether the name of a file or of one of its directories looks important. -/
def isImportant (path : String) : Bool :=
  let text := String.ofList (Text.Lines.withoutFinal path.toList)
  [".txt", ".log", ".json"].any (fun e => Text.Case.endsWith path e || Text.Case.endsWith text e) ||
    ["evidence", "report", "data", "backup", "mission"].any (Text.Case.contains path)

/-- Whether a path is, contains or lies inside a critical path. The root contains them all and is
protected anyway. -/
def touchesCritical (critical : List String) (path : String) : Bool :=
  critical.any fun item => Path.isWithin path item || (path ≠ "/" && Path.isWithin item path)

/-- The letters of all flags among words. -/
def flagLetters (words : List String) : List Char :=
  words.flatMap fun w => if Path.startsWith w "-" && w ≠ "-" then w.toList.drop 1 else []

/-- The words that are not flags. -/
def operandsOf (words : List String) : List String :=
  words.filter fun w => !Path.startsWith w "-" || w = "-"

/-- Whether the flags ask for whole directories. -/
def isRecursive (words : List String) : Bool :=
  (flagLetters words).any fun c => c == 'r' || c == 'R'

/-- What the guard knows: where the learner is, the critical paths, and the file system. Without a
file system every path is taken to exist. -/
structure Situation where
  directory : String
  username : String
  critical : List String
  fs : Option FileSystem

namespace Situation

/-- The place that an operand means. -/
def resolve (s : Situation) (operand : String) : String :=
  Path.resolve s.directory operand s.username

/-- The critical paths of all adventures and of this one. -/
def allCritical (s : Situation) : List String := criticalPaths ++ s.critical

/-- Whether a path is protected. -/
def isProtected (s : Situation) (path : String) : Bool :=
  protectedPaths.contains path || path == Path.home s.username

/-- The places that operands mean, without those where there is nothing. -/
def targets (s : Situation) (operands : List String) : List String :=
  (operands.map s.resolve).filter fun target => s.fs.all (·.contains target)

/-- Whether a path is critical. -/
def isCritical (s : Situation) (path : String) : Bool := touchesCritical s.allCritical path

end Situation

/-- The command of a line, with its arguments: its words without the redirection and a first
`sudo`. -/
def commandWords (line : String) : List String :=
  let command := match Redirection.parse line with
    | .ok r => r.command
    | .error text => text
  match Words.split command with
  | "sudo" :: words => words
  | words => words

/-- What removing with `rm` could destroy. -/
def inspectRm (s : Situation) (line : String) (words : List String) : Option Warning :=
  let targets := s.targets (operandsOf words)
  let recursive := isRecursive words
  let warn := fun level reason => some (Warning.mk level reason line targets false)
  if targets.any s.isProtected then
    warn .critical "Attempting to delete a protected system directory."
  else if targets.any s.isCritical then
    warn .critical "This would delete mission-critical files."
  else if recursive && targets.any isImportant then
    warn .danger "Recursive deletion of important files."
  else if recursive && !targets.isEmpty && s.fs.all (fun fs => targets.any fs.isDirectory) then
    warn .warning "Recursive deletion will remove every file in the listed directories."
  else if targets.any isImportant then
    warn .warning "Deleting files that look important."
  else none

/-- What removing with `rmdir` could destroy. -/
def inspectRmdir (s : Situation) (line : String) (words : List String) : Option Warning :=
  let targets := s.targets (operandsOf words)
  if targets.any s.isProtected then
    some ⟨.critical, "Attempting to remove a protected system directory.", line, targets, false⟩
  else if targets.any s.isCritical then
    some ⟨.danger, "Removing a mission-critical directory.", line, targets, true⟩
  else none

/-- What moving could destroy. -/
def inspectMv (s : Situation) (line : String) (words : List String) : Option Warning :=
  let operands := operandsOf words
  match operands.getLast? with
  | none => none
  | some last =>
    if operands.length < 2 then none
    else
      let sources := s.targets operands.dropLast
      let destination := s.resolve last
      if sources.any s.isProtected then
        some ⟨.critical, "Moving a protected system directory.", line, sources, false⟩
      else if sources.any s.isCritical then
        some ⟨.warning, "Moving mission-critical files out of place.", line, sources, true⟩
      else if s.fs.any (·.isFile destination) && isImportant destination then
        some ⟨.warning, "This move overwrites an existing file.", line, [destination], false⟩
      else none

/-- What overwriting a file by a redirection could destroy. -/
def inspectOutput (s : Situation) (line : String) : Option Warning :=
  match Redirection.parse line with
  | .ok ⟨_, .toFile ⟨operand, false⟩⟩ =>
    let target := s.resolve operand
    if operand ≠ "" && s.fs.all (·.isFile target) &&
        (isImportant target || s.isCritical target) then
      some ⟨.warning, "Redirecting with '>' replaces the existing contents of this file.", line,
        [target], false⟩
    else none
  | _ => none

/-- What a command could destroy. The outer nothing says that the line is not looked at further. -/
def inspectCommand (s : Situation) (line : String) : List String → Option (Option Warning)
  | [] => none
  | name :: words =>
    if diskCommands.contains name then
      some (some ⟨.critical, "'" ++ name ++ "' can destroy entire disks or filesystems.", line, [],
        false⟩)
    else if name = "rm" then
      if (s.targets (operandsOf words)).isEmpty then none else some (inspectRm s line words)
    else if name = "rmdir" then some (inspectRmdir s line words)
    else if name = "mv" then some (inspectMv s line words)
    else some none

/-- The warning about a command line, if it could destroy something. -/
def inspect (s : Situation) (line : String) : Option Warning :=
  match inspectCommand s line (commandWords line) with
  | none => none
  | some (some w) => some w
  | some none => inspectOutput s line

/-- A less dangerous way to do what a line does, if there is one. -/
def saferWay (line : String) : Option String :=
  match commandWords line with
  | [] => none
  | name :: words =>
    if name = "rm" then
      if isRecursive words then
        some ("ls -R " ++ (operandsOf words).headD "<dir>" ++
          " first to review what will be removed")
      else some "mv the file into a backup directory instead of deleting it"
    else if name = "mv" then some "cp the file first so the original stays in place"
    else if line.toList.contains '>' && !Text.Replace.contains line ">>" then
      some "use '>>' to append instead of overwriting"
    else none

/-- The full text of a warning. -/
def Warning.message (w : Warning) : String :=
  Text.Lines.join <| [w.reason] ++
    (if w.affected.isEmpty then [] else ["Affected: " ++ ", ".intercalate w.affected]) ++
    (if w.canRecover then [] else ["This cannot be undone."]) ++
    (match saferWay w.command with
      | some way => ["Safer alternative: " ++ way]
      | none => [])

/-- A warning as a value of the data format. -/
def Warning.toJson (w : Warning) : Json :=
  .object [("level", .string w.level.name), ("title", .string w.level.title),
    ("reason", .string w.reason), ("message", .string w.message),
    ("confirm_label", .string w.level.confirmLabel),
    ("affected_paths", Json.strings w.affected), ("can_recover", .bool w.canRecover)]

end PracticeShell.Guard
