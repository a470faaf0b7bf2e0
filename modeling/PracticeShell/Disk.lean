import PracticeShell.Path
import PracticeShell.Text.Quoted

/-!
# The disk

The program itself reads adventures from the disk of its machine and keeps saved progress there. A
`Disk` is that part of it which the program can see: files with their contents, directories, and the
current directory. A directory is there if it has been made, or if a file or the current directory
lies below it.
-/

namespace PracticeShell

/-- The files and the directories that the program can see, by the names met on the way from the
root, and the current directory. -/
structure Disk where
  here : List String
  directories : List (List String)
  files : List (List String × ByteArray)

namespace Disk

/-- The disk of a program that runs in a directory, with no files. -/
def empty (here : List String) : Disk := ⟨here, [], []⟩

/-- Why a file cannot be used. -/
inductive Error
  | notFound
  | notADirectory
  | isADirectory
  | nameTooLong
deriving DecidableEq, Repr

/-- The number of an error. -/
def Error.number : Error → Nat
  | notFound => 2
  | notADirectory => 20
  | isADirectory => 21
  | nameTooLong => 36

/-- An error in words. -/
def Error.text : Error → String
  | notFound => "No such file or directory"
  | notADirectory => "Not a directory"
  | isADirectory => "Is a directory"
  | nameTooLong => "File name too long"

/-- The message about an error at a path. -/
def Error.message (path : String) (e : Error) : String :=
  "[Errno " ++ toString e.number ++ "] " ++ e.text ++ ": " ++ Text.Quoted.quote path

/-- The most bytes of a name. -/
def maxName : Nat := 255

/-- The most bytes of a path. -/
def maxPath : Nat := 4095

/-- Whether a name is too long. -/
def isLong (name : String) : Bool := name.utf8ByteSize > maxName

/-- The names met on the way to a path, if every directory on the way were there. -/
def place (d : Disk) (path : String) : List String :=
  if Path.startsWith path "/" then Path.segments path
  else Path.walkDown d.here.reverse (Path.parts path)

/-- The contents of the file at a place. -/
def file? (d : Disk) (place : List String) : Option ByteArray := d.files.lookup place

/-- Whether there is a directory at a place. -/
def isDirectory (d : Disk) (place : List String) : Bool :=
  place.isPrefixOf d.here || d.directories.any place.isPrefixOf ||
    d.files.any fun (p, _) => place.isPrefixOf p && place.length < p.length

/-- Walks along names from the place that is reached by `up`, nearest name first. Every place that a
name is looked for at has to be a directory. -/
def walk (d : Disk) (up : List String) : List String → Except Error (List String)
  | [] => .ok up.reverse
  | name :: rest =>
    if name = "" ∨ name = "." then walk d up rest
    else if !d.isDirectory up.reverse then
      .error (if (d.file? up.reverse).isSome then .notADirectory else .notFound)
    else if name = ".." then walk d up.tail rest
    else if isLong name then .error .nameTooLong
    else walk d (name :: up) rest

/-- The place that a path leads to. -/
def follow (d : Disk) (path : String) : Except Error (List String) :=
  if path.utf8ByteSize > maxPath then .error .nameTooLong
  else d.walk (if Path.startsWith path "/" then [] else d.here.reverse) (Path.parts path)

/-- Reads the file at a path. -/
def read (d : Disk) (path : String) : Except Error ByteArray := do
  let place ← d.follow path
  match d.file? place with
  | some bytes => return bytes
  | none => throw (if d.isDirectory place then .isADirectory else .notFound)

/-- Whether there is something at a path; a name that is too long cannot be asked about. -/
def exists? (d : Disk) (path : String) : Except Error Bool :=
  match d.read path with
  | .ok _ | .error .isADirectory => .ok true
  | .error .nameTooLong => .error .nameTooLong
  | .error _ => .ok false

/-- Sets the contents of the file at a place; a file that is there keeps its position. -/
def putFile (place : List String) (bytes : ByteArray) :
    List (List String × ByteArray) → List (List String × ByteArray)
  | [] => [(place, bytes)]
  | (p, b) :: rest => if p = place then (p, bytes) :: rest else (p, b) :: putFile place bytes rest

/-- Writes a file in a directory that is there. -/
def write (d : Disk) (path : String) (bytes : ByteArray) : Except Error Disk := do
  let place ← d.follow path
  if d.isDirectory place then throw .isADirectory
  return { d with files := putFile place bytes d.files }

/-- Makes the directories met along names from the place that is reached by `up`, nearest name first,
up to one that cannot be made: its name is too long, or a file has its place. -/
def makeAlong (d : Disk) (up : List String) : List String → Disk
  | [] => d
  | name :: rest =>
    if name = "" ∨ name = "." then makeAlong d up rest
    else if name = ".." then makeAlong d up.tail rest
    else
      let place := (name :: up).reverse
      if isLong name then d
      else if d.isDirectory place then makeAlong d (name :: up) rest
      else if (d.file? place).isSome then d
      else makeAlong { d with directories := place :: d.directories } (name :: up) rest

/-- Makes the directories on the way to a path, as far as they can be made. -/
def makeWay (d : Disk) (path : String) : Disk :=
  d.makeAlong (if Path.startsWith path "/" then [] else d.here.reverse) (Path.parts path).dropLast

/-- Writes a file and makes the directories above it. -/
def put (d : Disk) (path : String) (bytes : ByteArray) : Except Error Disk :=
  (d.makeWay path).write path bytes

/-- Removes a file. The directory that it was in stays. -/
def remove (d : Disk) (path : String) : Except Error Disk := do
  let _ ← d.read path
  let place := d.place path
  return { d with
    files := d.files.filter (·.1 ≠ place)
    directories := place.dropLast :: d.directories }

/-- The names in the directory at a path that end with an ending, in order. -/
def namesEnding (d : Disk) (path ending : String) : List String :=
  let place := d.place path
  let names := (d.files.map (·.1) ++ d.directories).filterMap fun p =>
    if place.isPrefixOf p then (p.drop place.length).head? else none
  let fitting := names.filter fun name => ending.toList.isSuffixOf name.toList
  fitting.eraseDups.mergeSort fun a b => decide (a ≤ b)

/-- The files of a disk that are not the same on another. -/
def newer (d old : Disk) : List (List String × ByteArray) :=
  d.files.filter fun (place, bytes) => (old.file? place).all (·.data ≠ bytes.data)

/-- The places of files that are on another disk only. -/
def gone (d old : Disk) : List (List String) :=
  (old.files.filter fun (place, _) => (d.file? place).isNone).map (·.1)

/-- The name of a file without what follows its last point, if that point is neither its first nor
its last character. -/
def stem (name : String) : String :=
  match name.toList.reverse.dropWhile (· ≠ '.') with
  | _ :: before =>
    if before.isEmpty || name.toList.getLast? = some '.' then name
    else String.ofList before.reverse
  | [] => name

end Disk

end PracticeShell
