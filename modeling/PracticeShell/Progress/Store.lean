import PracticeShell.Disk
import PracticeShell.Json.Reader
import PracticeShell.Json.Writer
import PracticeShell.Progress.Basic
import PracticeShell.Text.Blank
import PracticeShell.Text.Letter
import PracticeShell.Text.Utf8

/-!
# Saved progress

A `ProgressStore` keeps progress on the disk, one file for each adventure in one directory; each
learner can have a directory of their own. Names of adventures and learners are made into safe names
first (`ProgressStore.safeName`), so that nothing outside of the directory is touched.
-/

namespace PracticeShell

/-- A directory of the disk that progress is saved in. -/
structure ProgressStore where
  directory : String
  disk : Disk

namespace ProgressStore

/-- Why progress cannot be loaded or saved. -/
inductive Fault
  /-- The file is not in UTF-8. -/
  | notUtf8
  /-- The file cannot be read as a value, for a reason that is not expected of documents. -/
  | document (cause : Json.ParseError)
  /-- The file holds a value that is no progress, in a way that is not expected of documents. -/
  | progress (cause : Progress.Error)
  /-- What is marked in the progress cannot be put in order. -/
  | unordered
  /-- The name of the file cannot be asked about. -/
  | disk (cause : Disk.Error)
deriving DecidableEq, Repr

/-- Whether a character can stand in a safe name. -/
def isSafe (c : Char) : Bool := Text.Letter.isAsciiWord c || c == '.' || c == '-'

/-- Puts one underscore in the place of each run of characters that are not safe. The flag says that
such a run has begun. -/
def replaceUnsafe (inRun : Bool) : List Char → List Char
  | [] => []
  | c :: rest =>
    if isSafe c then c :: replaceUnsafe false rest
    else if inRun then replaceUnsafe true rest
    else '_' :: replaceUnsafe true rest

/-- Whether a character is dropped from the ends of a safe name. -/
def isTrimmed (c : Char) : Bool := c == '.' || c == '_'

/-- A safe name for a text: letters, digits, underscores, points and dashes, with no point or
underscore at its ends. If nothing is left, `default` is the name. -/
def safeName (text default : String) : String :=
  let name := (replaceUnsafe false text.toList).dropWhile isTrimmed
  let name := Text.Blank.dropWhileEnd isTrimmed name
  if name.isEmpty then default else String.ofList name

/-- The path of the file of an adventure. -/
def path (s : ProgressStore) (id : String) : String :=
  Path.join s.directory (safeName id "adventure" ++ ".json")

/-- The store of one learner. -/
def forUser (s : ProgressStore) (username : String) : ProgressStore :=
  { s with directory := Path.join s.directory (safeName username "user") }

/-- The saved document of an adventure. A file that cannot be read, that is no document, or that
holds no object counts as none. -/
def loadDocument (s : ProgressStore) (id : String) : Except Fault (Option Json) :=
  match s.disk.exists? (s.path id) with
  | .error e => .error (.disk e)
  | .ok false => .ok none
  | .ok true =>
    match s.disk.read (s.path id) with
    | .error _ => .ok none
    | .ok bytes =>
      match String.fromUTF8? bytes with
      | none => .error .notUtf8
      | some text =>
        match Json.parse text with
        | .ok (.object ms) => .ok (some (.object ms))
        | .ok _ | .error .malformed => .ok none
        | .error e => .error (.document e)

/-- The saved progress of an adventure, if there is any. -/
def load (s : ProgressStore) (id : String) : Except Fault (Option Progress) := do
  match ← s.loadDocument id with
  | none => return none
  | some v =>
    match Progress.ofJson v with
    | .ok p => return some p
    | .error e => if e.isExpected then return none else throw (.progress e)

/-- The name of the member that tells when progress was saved. -/
def stampName : String := "lastSaved"

/-- The document that progress is saved as. -/
def document (p : Progress) (stamp : String) : Except Fault Json :=
  match p.toJson? with
  | some (.object ms) => .ok (.object (Json.Members.put stampName (.string stamp) ms))
  | _ => .error .unordered

/-- Saves the progress of an adventure, with a note of the time. The answer is whether the file has
been written. -/
def save (s : ProgressStore) (id : String) (p : Progress) (stamp : String) :
    Except Fault (Bool × ProgressStore) := do
  let v ← document p stamp
  let disk := s.disk.makeWay (s.path id)
  match disk.write (s.path id) (Text.Utf8.encode (v.indented 2)) with
  | .ok disk => return (true, { s with disk })
  | .error _ => return (false, { s with disk })

/-- Removes the progress of an adventure. The answer is whether there was any. -/
def clear (s : ProgressStore) (id : String) : Bool × ProgressStore :=
  match s.disk.remove (s.path id) with
  | .ok disk => (true, { s with disk })
  | .error _ => (false, s)

/-- The names of the adventures that progress is saved for, in order. -/
def saved (s : ProgressStore) : List String :=
  ((s.disk.namesEnding s.directory ".json").map Disk.stem).mergeSort fun a b => decide (a ≤ b)

end ProgressStore

end PracticeShell
