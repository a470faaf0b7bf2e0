import PracticeShell.Command.Listing
import PracticeShell.Command.Making
import PracticeShell.Command.Name
import PracticeShell.Command.Ownership
import PracticeShell.Command.Reading
import PracticeShell.Command.Search
import PracticeShell.Command.Transfer
import PracticeShell.Command.Words
import PracticeShell.Text.Replace

/-!
# Running commands

`Command.execute` runs the words of a command line: the first names the command. It always ends with
an outcome, since every fault of a command becomes one (`Command.answerFault`).
-/

namespace PracticeShell.Command

/-- The text that clears a terminal. -/
def clearScreen : String := "\x1b[2J\x1b[H"

/-- Whether a word is one of the flags of `echo`. -/
def isEchoFlag (word : String) : Bool := ["-n", "-e", "-E", "-ne", "-en"].contains word

/-- Escapes of line feeds, tabs and backslashes replaced, one kind after the other. -/
def interpretEscapes (text : String) : String :=
  Text.Replace.all "\\\\" "\\" (Text.Replace.all "\\t" "\t" (Text.Replace.all "\\n" "\n" text))

/-- Prints its words. -/
def runEcho (words : List String) : Outcome :=
  let flags := words.takeWhile isEchoFlag
  let text := " ".intercalate (words.dropWhile isEchoFlag)
  .print (if flags.any (·.toList.contains 'e') then interpretEscapes text else text)

/-- Runs a command other than `sudo`. -/
def run (c : Command) (ctx : Context) (words : List String) (input : Option String) :
    Action Outcome :=
  match c with
  | cd => return runCd ctx words (← get)
  | pwd => return .print ctx.directory
  | ls => runLs ctx words
  | cat => runCat ctx words input
  | mkdir => runMkdir ctx words
  | touch => runTouch ctx words
  | rm => runRm ctx words
  | rmdir => runRmdir ctx words
  | cp => runCp ctx words
  | mv => runMv ctx words
  | echo => return runEcho words
  | grep => runGrep ctx words input
  | find => runFind ctx words
  | head => runWindow false ctx words input
  | tail => runWindow true ctx words input
  | wc => runWc ctx words input
  | clear => return .print clearScreen
  | whoami => return .print ctx.user
  | chmod => runChmod ctx words
  | chown => runChown ctx words
  | stat => runStat ctx words
  | superuser => return {}

/-- The outcome of a command that ended early. -/
def answerFault (name : String) : Fault → Outcome
  | .usage e => .fail (name ++ ": " ++ e.message) Outcome.misuse
  | .tree e => .fail (name ++ ": " ++ e.path ++ ": " ++ e.cause.text) Outcome.failure
  | .internal => .fail ("bash: " ++ name ++ ": internal error") Outcome.failure

/-- Runs an action to an outcome. -/
def guarded (name : String) (action : Action Outcome) : StateM FileSystem Outcome := fun fs =>
  match action fs with
  | .ok outcome fs => (outcome, fs)
  | .error fault fs => (answerFault name fault, fs)

/-- Runs the words of a command line. Without elevated rights `sudo` asks for a password and leaves
the words after it to be run later; with them it runs these words. -/
def execute (ctx : Context) (input : Option String) : List String → StateM FileSystem Outcome
  | [] => return {}
  | name :: words =>
    match ofName? name with
    | none => return notFound name
    | some .superuser =>
      if words.isEmpty then
        return .fail "sudo: a command must be specified" Outcome.failure
      else if ctx.elevated then execute ctx input words
      else return { needsPassword := true, pending := words }
    | some c => guarded name (c.run ctx words input)

/-- Runs a command line. -/
def executeLine (ctx : Context) (input : Option String) (line : String) :
    StateM FileSystem Outcome :=
  execute ctx input (Words.split line)

end PracticeShell.Command
