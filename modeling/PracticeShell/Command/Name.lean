import PracticeShell.Command.Outcome
import PracticeShell.Text.Similar

/-!
# Names of commands

`Command` lists the commands that work on the file system. The session has more commands of its own;
their names count when a command that does not exist is answered by the name most like it.
-/

namespace PracticeShell

/-- A command that works on the file system. -/
inductive Command
  | cd | pwd | ls | cat | mkdir | touch | rm | rmdir | cp | mv | echo | grep | find | head | tail
  | wc | clear | whoami | chmod | chown | stat | superuser
deriving DecidableEq, Repr

namespace Command

/-- All commands. -/
def all : List Command :=
  [cd, pwd, ls, cat, mkdir, touch, rm, rmdir, cp, mv, echo, grep, find, head, tail, wc, clear,
    whoami, chmod, chown, stat, superuser]

/-- The name that a command is called by. -/
def name : Command → String
  | cd => "cd" | pwd => "pwd" | ls => "ls" | cat => "cat" | mkdir => "mkdir" | touch => "touch"
  | rm => "rm" | rmdir => "rmdir" | cp => "cp" | mv => "mv" | echo => "echo" | grep => "grep"
  | find => "find" | head => "head" | tail => "tail" | wc => "wc" | clear => "clear"
  | whoami => "whoami" | chmod => "chmod" | chown => "chown" | stat => "stat" | superuser => "sudo"

/-- The command with a name. -/
def ofName? (name : String) : Option Command := all.find? (·.name == name)

/-- The names of the commands that belong to the session. -/
def sessionNames : List String :=
  ["ssh", "scp", "less", "more", "env", "export", "unset", "nano", "vi", "vim", "history", "exit",
    "logout"]

/-- The names of all commands. -/
def knownNames : List String := all.map name ++ sessionNames

/-- The answer to the name of a command that does not exist. -/
def notFound (name : String) : Outcome :=
  let message := "bash: " ++ name ++ ": command not found"
  match Text.Similar.closest? knownNames name with
  | some known => .fail (message ++ "\nDid you mean '" ++ known ++ "'?") Outcome.unknown
  | none => .fail message Outcome.unknown

end Command

end PracticeShell
