import PracticeShell.FileTree.Node
import PracticeShell.Path
import PracticeShell.Text.Utf8

/-!
# The file system

A `FileSystem` is a directory that serves as the root, with the owner that new nodes get when none
is named and the time that changes are stamped with. Paths are read by `Path.segments`, so `..`
never leads out of the root. The questions here never change anything: `find?`, `stat?`, `contains`,
`isDirectory`, `isFile`, `names`, `contents`, `text` and `walk`. A question or an operation fails for
one of eight causes and names the path at fault.
-/

namespace PracticeShell.FileTree

/-- Why a file operation is not carried out. -/
inductive Cause
  /-- There is nothing at the path. -/
  | notFound
  /-- A directory is needed and there is a file. -/
  | notADirectory
  /-- A file is needed and there is a directory. -/
  | isADirectory
  /-- There is something at the path already. -/
  | alreadyExists
  /-- The directory is not empty. -/
  | notEmpty
  /-- The path is the root, which cannot be replaced or removed. -/
  | busy
  /-- A directory cannot be moved below itself. -/
  | invalid
  /-- A directory cannot be copied below itself: each copy would have to be copied in turn. -/
  | endless
deriving DecidableEq, Repr

namespace Cause

/-- The short name of a cause. -/
def code : Cause → String
  | notFound => "ENOENT"
  | notADirectory => "ENOTDIR"
  | isADirectory => "EISDIR"
  | alreadyExists => "EEXIST"
  | notEmpty => "ENOTEMPTY"
  | busy => "EBUSY"
  | invalid => "EINVAL"
  | endless => "ELOOP"

/-- A cause in words. -/
def text : Cause → String
  | notFound => "No such file or directory"
  | notADirectory => "Not a directory"
  | isADirectory => "Is a directory"
  | alreadyExists => "File exists"
  | notEmpty => "Directory not empty"
  | busy => "Device or resource busy"
  | invalid => "Invalid argument"
  | endless => "Too many levels of directories"

end Cause

/-- A file operation that was not carried out: the cause and the path at fault. -/
structure Error where
  cause : Cause
  path : String
deriving DecidableEq, Repr

/-- The full message of a failure. -/
def Error.message (e : Error) : String :=
  e.cause.code ++ ": " ++ e.cause.text ++ ", '" ++ e.path ++ "'"

end PracticeShell.FileTree

namespace PracticeShell

open FileTree

/-- A tree of files under a root directory. `name` is the name that the root has in a larger tree,
empty if there is none. -/
structure FileSystem where
  name : String
  attributes : Attributes
  entries : Entries
  defaultOwner : String
  now : Int

/-- What is known of a node without reading it. -/
structure Stat where
  path : String
  name : String
  isDirectory : Bool
  permissions : Permissions
  owner : String
  size : Nat
  modified : Int
deriving DecidableEq, Repr

namespace Stat

/-- Whether the node is a file. -/
def isFile (s : Stat) : Bool := !s.isDirectory

/-- The kind and the permissions in ten characters. -/
def modeText (s : Stat) : String :=
  String.ofList ((if s.isDirectory then 'd' else '-') :: s.permissions.render)

/-- The kind and the permissions as one number. -/
def mode (s : Stat) : Nat := (if s.isDirectory then 0o40000 else 0o100000) + s.permissions.val

end Stat

namespace FileSystem

/-- A file system that holds nothing. -/
def empty (defaultOwner : String) (now : Int) : FileSystem :=
  ⟨"", ⟨defaultOwner, Permissions.newDirectory, now⟩, [], defaultOwner, now⟩

/-- The root as a node. -/
def root (fs : FileSystem) : Node := .directory fs.attributes fs.entries

/-- Puts a directory in the place of the root. -/
def setRoot (fs : FileSystem) : Node → FileSystem
  | .directory a es => { fs with attributes := a, entries := es }
  | .file .. => fs

/-- The node at a path. -/
def find? (fs : FileSystem) (path : String) : Option Node :=
  fs.root.find? (Path.segments path)

/-- What is known of a node that is found along names. -/
def statOf (fs : FileSystem) (place : List String) (node : Node) : Stat where
  path := Path.ofSegments place
  name :=
    let name := place.getLast?.getD fs.name
    if name = "" then "/" else name
  isDirectory := node.isDirectory
  permissions := node.attributes.permissions
  owner := node.attributes.owner
  size := node.size
  modified := node.attributes.modified

/-- What is known of the node at a path. -/
def stat? (fs : FileSystem) (path : String) : Option Stat :=
  (fs.find? path).map (fs.statOf (Path.segments path))

/-- Whether there is a node at a path. -/
def contains (fs : FileSystem) (path : String) : Bool := (fs.find? path).isSome

/-- Whether there is a directory at a path. -/
def isDirectory (fs : FileSystem) (path : String) : Bool :=
  (fs.find? path).any (·.isDirectory)

/-- Whether there is a file at a path. -/
def isFile (fs : FileSystem) (path : String) : Bool :=
  (fs.find? path).any fun node => !node.isDirectory

/-- The names in the directory at a path, oldest first. -/
def names (fs : FileSystem) (path : String) : Except FileTree.Error (List String) :=
  match fs.find? path with
  | none => .error ⟨.notFound, path⟩
  | some (.file ..) => .error ⟨.notADirectory, path⟩
  | some (.directory _ es) => .ok (Entries.names es)

/-- The bytes of the file at a path. -/
def contents (fs : FileSystem) (path : String) : Except FileTree.Error ByteArray :=
  match fs.find? path with
  | none => .error ⟨.notFound, path⟩
  | some (.file _ bytes) => .ok bytes
  | some (.directory ..) => .error ⟨.isADirectory, path⟩

/-- The text of the file at a path. -/
def text (fs : FileSystem) (path : String) : Except FileTree.Error String :=
  (fs.contents path).map Text.Utf8.decode

/-- The node at a path and everything below it, each directory before its entries. -/
def walk (fs : FileSystem) (path : String) : Except FileTree.Error (List Stat) :=
  match fs.find? path with
  | none => .error ⟨.notFound, path⟩
  | some node =>
    .ok ((node.walk (Path.segments path)).map fun (place, node) => fs.statOf place node)

end FileSystem

end PracticeShell
