import PracticeShell.Command.Access
import PracticeShell.Command.Words
import PracticeShell.Text.Letter

/-!
# Redirections

A command line can send the output of its command to a file, take the input from a file, or take it
from the lines that follow up to a marker. `Redirection.parse` finds the redirection of a line
outside of quotes: lines that follow go before appending, appending before overwriting, overwriting
before input from a file. `Redirection.applyTo` writes output to the file, `Redirection.input` reads
input from it.
-/

namespace PracticeShell

namespace Redirection

/-- A file that output goes to: the operand that names it, and whether the output is put after what
the file holds. -/
structure Target where
  operand : String
  append : Bool
deriving DecidableEq, Repr

/-- What a redirection does. -/
inductive Effect
  /-- Nothing. -/
  | none
  /-- Output goes to a file. -/
  | toFile (target : Target)
  /-- Input comes from a file. -/
  | fromFile (operand : String)
  /-- Input comes from the lines up to a marker; output may go to a file. -/
  | lines (marker : String) (output : Option Target)
deriving DecidableEq, Repr

end Redirection

/-- A command line without its redirection, and the redirection. -/
structure Redirection where
  command : String
  effect : Redirection.Effect
deriving DecidableEq, Repr

namespace Redirection

/-- A redirection operator. -/
inductive Operator
  | overwrite
  | append
  | input
  | lines
deriving DecidableEq, Repr

/-- The number of characters of an operator. -/
def Operator.length : Operator → Nat
  | overwrite | input => 1
  | append | lines => 2

/-- The operators of a line outside of quotes, with their places. `skip` characters are passed over
and `quote` is the quote that is open. -/
def operatorsFrom (place : Nat) (skip : Nat) (quote : Option Char) :
    List Char → List (Nat × Operator)
  | [] => []
  | c :: rest =>
    match skip with
    | skip + 1 => operatorsFrom (place + 1) skip quote rest
    | 0 =>
      match quote with
      | some q => operatorsFrom (place + 1) 0 (if c = q then none else some q) rest
      | none =>
        if c = '\'' ∨ c = '"' then operatorsFrom (place + 1) 0 (some c) rest
        else if c = '\\' then operatorsFrom (place + 1) 1 none rest
        else if c = '<' then
          if rest.head? = some '<' then (place, .lines) :: operatorsFrom (place + 1) 1 none rest
          else (place, .input) :: operatorsFrom (place + 1) 0 none rest
        else if c = '>' then
          if rest.head? = some '>' then (place, .append) :: operatorsFrom (place + 1) 1 none rest
          else (place, .overwrite) :: operatorsFrom (place + 1) 0 none rest
        else operatorsFrom (place + 1) 0 none rest

/-- The operators of a line outside of quotes, with their places. -/
def operators (line : List Char) : List (Nat × Operator) := operatorsFrom 0 0 none line

/-- The first word of a text that does not start with a blank: what stands between quotes, if they
are closed, or else all up to the next blank. -/
def firstWord (cs : List Char) : List Char :=
  let unquoted := cs.takeWhile fun c => !Text.Blank.isBlank c
  match cs with
  | c :: rest =>
    if (c = '"' ∨ c = '\'') ∧ rest.contains c then c :: rest.takeWhile (· ≠ c) ++ [c]
    else unquoted
  | [] => unquoted

/-- The operand at the start of a text, and what follows it. -/
def splitOperand (cs : List Char) : Option (String × List Char) :=
  let cs := cs.dropWhile Text.Blank.isBlank
  if cs.isEmpty then none
  else
    let word := firstWord cs
    (Words.split (String.ofList word)).head?.map fun operand => (operand, cs.drop word.length)

/-- A marker after its operator, and what follows it. Quotes around the marker are dropped. -/
def splitMarker (cs : List Char) : Option (String × List Char) :=
  let isQuote := fun c => c == '\'' || c == '"'
  let cs := cs.dropWhile Text.Blank.isBlank
  let cs := match cs with
    | c :: rest => if isQuote c then rest else cs
    | [] => cs
  let word := cs.takeWhile Text.Letter.isWord
  let cs := cs.dropWhile Text.Letter.isWord
  if word.isEmpty then none
  else
    some (String.ofList word, match cs with
      | c :: rest => if isQuote c then rest else cs
      | [] => cs)

/-- The message about an operator without its operand. -/
def syntaxError : String := "bash: syntax error near unexpected token `newline'"

/-- Reads a line whose input comes from the lines that follow, the operator being at `place`. Output
may be redirected before the operator or after the marker. -/
def parseLines (line : List Char) (place : Nat) : Option Redirection := do
  let (marker, after) ← splitMarker (line.drop (place + 2))
  let rest := line.take place ++ ' ' :: after
  let outputs := (operators rest).filter fun (_, o) => o == .overwrite || o == .append
  let command := fun (cs : List Char) =>
    let words := " ".intercalate (Text.Blank.words (String.ofList cs))
    if words = "" then "cat" else words
  match outputs.getLast? with
  | none => return ⟨command rest, .lines marker none⟩
  | some (here, o) =>
    let (operand, remainder) ← splitOperand (rest.drop (here + o.length))
    return ⟨command (rest.take here ++ ' ' :: remainder),
      .lines marker (some ⟨operand, o == .append⟩)⟩

/-- Reads a line with an operator at a place that has an operand. -/
def parseAt (line : List Char) (effect : String → Effect) (o : Nat × Operator) :
    Option Redirection := do
  let (operand, remainder) ← splitOperand (line.drop (o.1 + o.2.length))
  return ⟨Text.Blank.trim (String.ofList (line.take o.1 ++ ' ' :: remainder)), effect operand⟩

/-- Finds the redirection of a line. The error holds the line, without blanks around it, when an
operator has no operand. -/
def parse (text : String) : Except String Redirection :=
  let text := Text.Blank.trim text
  let line := text.toList
  let all := operators line
  let having := fun o => all.filter (·.2 == o)
  let read : Option Redirection :=
    match (having .lines).head?, (having .append).getLast?, (having .overwrite).getLast?,
      (having .input).head? with
    | some o, _, _, _ => parseLines line o.1
    | none, some o, _, _ => parseAt line (fun operand => .toFile ⟨operand, true⟩) o
    | none, none, some o, _ => parseAt line (fun operand => .toFile ⟨operand, false⟩) o
    | none, none, none, some o => parseAt line .fromFile o
    | none, none, none, none => some ⟨text, .none⟩
  match read with
  | some r => .ok r
  | none => .error text

/-- The file that output goes to, if any. -/
def target? (r : Redirection) : Option Target :=
  match r.effect with
  | .toFile t => some t
  | .lines _ t => t
  | _ => none

/-- The text of lines that have been collected, each ended by a line feed. -/
def body (lines : List String) : String := String.join (lines.map (· ++ "\n"))

/-- An operand at fault and the reason. -/
def problem (operand reason : String) : Outcome :=
  .fail ("bash: " ++ operand ++ ": " ++ reason) Outcome.failure

/-- What is written to a file: the output, after what the file holds and a line feed that may be
missing there if it is appended. -/
def newContents (append : Bool) (existing : Option String) (output : String) : String :=
  match append, existing with
  | true, some text =>
    if text ≠ "" ∧ text.toList.getLast? ≠ some '\n' then text ++ "\n" ++ output else text ++ output
  | _, _ => output

/-- Makes the directories above a file and writes it. -/
def writeFile (ctx : Context) (full : String) (contents : String) : Edit Unit := do
  let parent := Path.dirname full
  if !(← get).contains parent then
    Edit.makeDirectories parent Permissions.newDirectory (some ctx.user)
  Edit.write full (Text.Utf8.encode contents) (some ctx.user) Permissions.newFile

/-- Whether writing a file is off limits: because of the file itself or, if there is none, of the
nearest directory above it. -/
def writeDenied (ctx : Context) (fs : FileSystem) (full : String) : Bool :=
  match fs.stat? full with
  | some node => Access.denied ctx node
  | none => Access.parentDenied ctx fs full

/-- Writes output to a file and answers with a problem if it cannot be written. -/
def write (ctx : Context) (t : Target) (output : String) :
    StateM FileSystem (Option Outcome) := fun fs =>
  let full := ctx.resolve t.operand
  if fs.isDirectory full then (some (problem t.operand "Is a directory"), fs)
  else if writeDenied ctx fs full then (some (problem t.operand "Permission denied"), fs)
  else
    let existing := (fs.text full).toOption
    match writeFile ctx full (newContents t.append existing output) fs with
    | .ok _ fs => (none, fs)
    | .error e fs => (some (problem t.operand e.cause.text), fs)

/-- What is said when output has been written. -/
def confirmation (t : Target) : String :=
  "Output redirected to " ++ t.operand ++ (if t.append then " (append)" else "")

/-- Sends the output of a command to the file of its redirection. A command that has succeeded says
so in a line, `said` if it is given; errors are not redirected. -/
def applyTo (r : Redirection) (ctx : Context) (o : Outcome) (said : Option String) :
    StateM FileSystem Outcome := do
  match r.target? with
  | none => return o
  | some t =>
    match ← write ctx t o.output with
    | some problem =>
      return {
        errors := Text.Lines.join ([o.errors, problem.errors].filter (· ≠ ""))
        exitCode := problem.exitCode
        newDirectory := o.newDirectory }
    | none =>
      return {
        output := if o.isOk then said.getD (confirmation t) else ""
        errors := o.errors
        exitCode := o.exitCode
        newDirectory := o.newDirectory }

/-- The text of the file that input comes from. -/
def input (ctx : Context) (fs : FileSystem) (operand : String) : Except Outcome String :=
  let full := ctx.resolve operand
  match fs.find? full with
  | none => .error (problem operand "No such file or directory")
  | some (.directory ..) => .error (problem operand "Is a directory")
  | some (.file a bytes) =>
    if a.owner == Context.rootUser && !ctx.elevated then
      .error (problem operand "Permission denied")
    else .ok (Text.Utf8.decode bytes)

end Redirection

end PracticeShell
