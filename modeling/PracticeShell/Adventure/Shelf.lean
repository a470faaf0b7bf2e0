import PracticeShell.Adventure.Basic
import PracticeShell.Disk
import PracticeShell.Json.Reader
import PracticeShell.Text.Lines

/-!
# The shelf of adventures

Adventures are kept as documents on the disk. A `Shelf` is the directory that they are looked for
in. `Shelf.find` tells the file that a path or a name means, `Shelf.load` reads it, and
`Shelf.listing` is a table of all adventures.
-/

namespace PracticeShell

/-- The directory of adventures on a disk, and the file of the adventure that is played if none is
named. -/
structure Shelf where
  directory : String
  standard : String
  disk : Disk

namespace Shelf

/-- Why an adventure cannot be found or loaded. -/
inductive Fault
  /-- The file cannot be read. -/
  | unreadable (path : String) (cause : Disk.Error)
  /-- The file is no document. -/
  | malformed (path : String)
  /-- The document is no adventure. -/
  | adventure (cause : Adventure.Error)
  /-- The file is not in UTF-8. -/
  | notUtf8
  /-- The file cannot be read as a value, for a reason that is not expected of documents. -/
  | document (cause : Json.ParseError)
  /-- The path has a character that no path can have. -/
  | badPath
  /-- It cannot be asked whether a file is there. -/
  | disk (cause : Disk.Error)

namespace Fault

/-- Whether a file is at fault in a way that is expected of files. -/
def isExpected : Fault → Bool
  | unreadable .. | malformed _ => true
  | adventure cause => cause.isExpected
  | _ => false

/-- The message that tells what is wrong with a file. -/
def message : Fault → String
  | unreadable path cause => "cannot read adventure " ++ path ++ ": " ++ cause.message path
  | malformed path => "adventure " ++ path ++ " is not valid JSON: no value can be read"
  | adventure cause => cause.message
  | notUtf8 => "the file is not in UTF-8"
  | document (.numberTooLong count) => Text.Digit.tooLongMessage count
  | document _ => "the document is nested too deep"
  | badPath => "embedded null byte"
  | disk cause => cause.text

end Fault

/-- Whether there is something at a path. -/
def has (s : Shelf) (path : String) : Except Fault Bool := (s.disk.exists? path).mapError .disk

/-- Reads the document at a path. -/
def readDocument (s : Shelf) (path : String) : Except Fault Json :=
  if path.toList.contains '\x00' then .error .badPath
  else
    match s.disk.read path with
    | .error e => .error (.unreadable path e)
    | .ok bytes =>
      match String.fromUTF8? bytes with
      | none => .error .notUtf8
      | some text =>
        match Json.parse text with
        | .ok v => .ok v
        | .error .malformed => .error (.malformed path)
        | .error e => .error (.document e)

/-- Loads the adventure at a path. -/
def load (s : Shelf) (path : String) : Except Fault Adventure := do
  (Adventure.ofJson (← s.readDocument path)).mapError .adventure

/-- The files of all adventures, in the order of their names. -/
def paths (s : Shelf) : List String :=
  (s.disk.namesEnding s.directory ".json").map fun name => Path.tidy (Path.join s.directory name)

/-- The first of some files whose document has a name. Files that are no documents are passed over,
unless a document is nested too deep. -/
def named? (s : Shelf) (id : String) : List String → Except Fault (Option String)
  | [] => .ok none
  | path :: rest =>
    match s.readDocument path with
    | .error (.document .tooDeep) => .error (.document .tooDeep)
    | .error _ => named? s id rest
    | .ok v =>
      if (v.get? "id").bind Json.string? = some id then .ok (some path) else named? s id rest

/-- The file in the directory that is called after a text. A path from the root stays what it is. -/
def calledAfter (s : Shelf) (text : String) : String :=
  let name := text ++ ".json"
  Path.tidy (if Path.startsWith name "/" then name else Path.join s.directory name)

/-- The file that a text means: a path at which there is something, else the file in the directory
that is called after the text, else the file of the adventure with that name, else the path. -/
def find (s : Shelf) (text : String) : Except Fault String := do
  if text = "" then return Path.tidy s.standard
  let path := Path.tidy text
  if ← s.has path then return path
  if ← s.has (s.calledAfter text) then return s.calledAfter text
  return (← s.named? text s.paths).getD path

/-- A row of the table. -/
def row (id missions tasks title : String) : String :=
  " ".intercalate [Text.Pad.right 24 id, Text.Pad.right 10 missions, Text.Pad.right 8 tasks, title]

/-- The row about a file. -/
def rowOf (s : Shelf) (path : String) : Except Fault String :=
  match s.load path with
  | .ok a =>
    .ok (row a.id (toString a.missions.length) (toString a.tasks.length) a.title)
  | .error e =>
    if e.isExpected then
      .ok (row (Disk.stem (Path.basename path)) "-" "-" ("(invalid: " ++ e.message ++ ")"))
    else .error e

/-- The lines of the table, if there are any adventures. -/
def listing (s : Shelf) : Except Fault (Option (List String)) := do
  if s.paths.isEmpty then return none
  let rows ← s.paths.mapM s.rowOf
  return some (["", row "ID" "MISSIONS" "TASKS" "TITLE", String.ofList (List.replicate 70 '-')] ++
    rows ++ [""])

end Shelf

end PracticeShell
