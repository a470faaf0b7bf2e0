import PracticeShell.Command.Access
import PracticeShell.Command.Operands
import PracticeShell.Text.Lines

/-!
# Reading files

The commands `cat`, `head`, `tail` and `wc`, which read files, or the text that is passed to them
when they have no operands.
-/

namespace PracticeShell.Command

/-- Why a file is not read. -/
inductive Unreadable
  /-- There is no such file. -/
  | missing
  /-- It is a directory. -/
  | directory
  /-- It is off limits. -/
  | denied
deriving DecidableEq, Repr

/-- The reason in words. -/
def Unreadable.text : Unreadable → String
  | missing => "No such file or directory"
  | directory => "Is a directory"
  | denied => "Permission denied"

/-- The text of the file that an operand names. -/
def readOperand (ctx : Context) (fs : FileSystem) (operand : String) :
    Except Unreadable String :=
  match fs.find? (ctx.resolve operand) with
  | none => .error .missing
  | some (.directory ..) => .error .directory
  | some (.file a bytes) =>
    if a.owner == Context.rootUser && !ctx.elevated then .error .denied
    else .ok (Text.Utf8.decode bytes)

/-- The texts of files in order, and the messages about those that cannot be read. -/
def readOperands (ctx : Context) (fs : FileSystem) (command : String) (operands : List String) :
    List (String × String) × List String :=
  let read := operands.map fun operand => (operand, readOperand ctx fs operand)
  (read.filterMap fun (operand, r) => match r with
      | .ok text => some (operand, text)
      | .error _ => none,
    read.filterMap fun (operand, r) => match r with
      | .ok _ => none
      | .error reason => some (command ++ ": " ++ operand ++ ": " ++ reason.text))

/-- Texts one after the other, each on a new line. -/
def concat (texts : List String) : String :=
  texts.foldl (fun output text =>
    if output ≠ "" ∧ output.toList.getLast? ≠ some '\n' then output ++ "\n" ++ text
    else output ++ text) ""

/-- Lines with their numbers, which start from one. -/
def numbered (width : Nat) (separator : String) (lines : List String) : List String :=
  lines.zipIdx.map fun (line, k) => Text.Pad.left width (toString (k + 1)) ++ separator ++ line

/-- Prints files one after the other. -/
def runCat (ctx : Context) (words : List String) (input : Option String) : Action Outcome := do
  let args ← Action.arguments (.flagsOnly "n") words
  let fs ← get
  let operands := Operands.expand ctx fs args.operands
  let finish := fun (texts errors : List String) =>
    let output := concat texts
    { Outcome.ofLines [] errors with
      output := if args.has ['n'] then
          Text.Lines.join (numbered 6 "\t" (Text.Lines.logical output))
        else output }
  match operands, input with
  | [], none => return .fail "cat: missing operand" Outcome.failure
  | [], some text => return finish [text] []
  | operands, _ =>
    let (texts, errors) := readOperands ctx fs "cat" operands
    return finish (texts.map (·.2)) errors

/-- Which lines of a text are shown. -/
inductive Window
  /-- The first ones. -/
  | first (count : Nat)
  /-- The last ones. -/
  | last (count : Nat)
  /-- All from the one with a number. -/
  | fromLine (number : Nat)
deriving DecidableEq, Repr

/-- The lines that a window shows. -/
def Window.apply (w : Window) (text : String) : String :=
  let lines := Text.Lines.logical text
  Text.Lines.join <| match w with
    | first count => lines.take count
    | last count => lines.drop (lines.length - count)
    | fromLine number => lines.drop (number - 1)

/-- The number of lines shown when none is given. -/
def defaultCount : Nat := 10

/-- The window that arguments ask for, or the text that is no number of lines. -/
def windowOf (fromEnd : Bool) (args : Arguments) : Action (Except String Window) := do
  let ofCount := fun (count : Nat) => if fromEnd then Window.last count else Window.first count
  match args.count, args.option? "-n" with
  | some count, _ => return .ok (ofCount count)
  | none, none => return .ok (ofCount defaultCount)
  | none, some raw =>
    let fromStart := fromEnd && Path.startsWith raw "+"
    let digits := if fromStart then String.ofList (raw.toList.drop 1) else raw
    if !Text.Digit.isDigits digits then return .error raw
    else
      match Text.Digit.readInt digits with
      | .ok n => return .ok (if fromStart then .fromLine n.toNat else ofCount n.toNat)
      | .error _ => throw .internal

/-- What is said about one of the files whose lines are shown. -/
def windowPart (ctx : Context) (fs : FileSystem) (command : String) (w : Window) (titled : Bool)
    (operand : String) : Except String String :=
  match readOperand ctx fs operand with
  | .ok text =>
    let body := w.apply text
    .ok (if titled then "==> " ++ operand ++ " <==\n" ++ body else body)
  | .error .directory => .error (command ++ ": error reading '" ++ operand ++ "': Is a directory")
  | .error reason =>
    .error (command ++ ": cannot open '" ++ operand ++ "' for reading: " ++ reason.text)

/-- Shows the first or the last lines of files. -/
def runWindow (fromEnd : Bool) (ctx : Context) (words : List String) (input : Option String) :
    Action Outcome := do
  let command := if fromEnd then "tail" else "head"
  let args ← Action.arguments ⟨"", ["-n"], true⟩ words
  match ← windowOf fromEnd args with
  | .error raw =>
    return .fail (command ++ ": invalid number of lines: '" ++ raw ++ "'") Outcome.failure
  | .ok w =>
    let fs ← get
    match Operands.expand ctx fs args.operands, input with
    | [], none => return .fail (command ++ ": missing operand") Outcome.failure
    | [], some text => return .print (w.apply text)
    | operands, _ =>
      let parts := operands.map (windowPart ctx fs command w (operands.length > 1))
      let errors := parts.filterMap fun | .error message => some message | .ok _ => none
      return {
        output := "\n\n".intercalate
          (parts.filterMap fun | .ok text => some text | .error _ => none)
        errors := Text.Lines.join errors
        exitCode := if errors.isEmpty then 0 else Outcome.failure }

/-- Numbers of lines, words and bytes. -/
structure Counts where
  lines : Nat
  words : Nat
  bytes : Nat
deriving DecidableEq, Repr

namespace Counts

/-- The numbers of a text. -/
def ofText (text : String) : Counts :=
  ⟨(Text.Lines.logical text).length, (Text.Blank.words text).length, text.utf8ByteSize⟩

/-- The sum of numbers. -/
def add (a b : Counts) : Counts := ⟨a.lines + b.lines, a.words + b.words, a.bytes + b.bytes⟩

/-- The line that shows the numbers chosen by flags, all of them if there are no flags. -/
def render (flags : List Char) (c : Counts) (label : String) : String :=
  let all := flags.isEmpty
  let columns := (if all || flags.contains 'l' then [c.lines] else []) ++
    (if all || flags.contains 'w' then [c.words] else []) ++
    (if all || flags.contains 'c' then [c.bytes] else [])
  Text.Blank.trimEnd (" ".intercalate (columns.map fun n => Text.Pad.left 7 (toString n)) ++ " " ++
    label)

end Counts

/-- Counts lines, words and bytes. -/
def runWc (ctx : Context) (words : List String) (input : Option String) : Action Outcome := do
  let args ← Action.arguments (.flagsOnly "lwc") words
  let fs ← get
  match Operands.expand ctx fs args.operands, input with
  | [], none => return .fail "wc: missing operand" Outcome.failure
  | [], some text => return .print ((Counts.ofText text).render args.flags "")
  | operands, _ =>
    let (texts, errors) := readOperands ctx fs "wc" operands
    let counted := texts.map fun (operand, text) => (operand, Counts.ofText text)
    let total : Counts := counted.foldl (fun (sum : Counts) (_, c) => sum.add c) ⟨0, 0, 0⟩
    let lines := counted.map fun (operand, c) => c.render args.flags operand
    return .ofLines
      (if operands.length > 1 then lines ++ [total.render args.flags "total"] else lines) errors

end PracticeShell.Command
