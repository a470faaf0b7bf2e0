import PracticeShell.FileTree.Edit

/-!
# Views

The directory at a path can serve as the root of a file system of its own. `view` gives that file
system, `putBack` puts a changed one back to where it was taken from, and `within` runs an operation
inside: nothing outside the directory can be reached, since no path leads above a root.
-/

namespace PracticeShell.FileSystem

open FileTree

/-- The directory at a path as a file system of its own. -/
def view (fs : FileSystem) (path : String) : Except FileTree.Error FileSystem :=
  match fs.find? path with
  | none => .error ⟨.notFound, path⟩
  | some (.file ..) => .error ⟨.notADirectory, path⟩
  | some (.directory a es) =>
    .ok { fs with
      name := (Path.segments path).getLast?.getD fs.name
      attributes := a
      entries := es }

/-- The file system with a changed view in the place it was taken from. -/
def putBack (fs : FileSystem) (path : String) (inner : FileSystem) : FileSystem :=
  fs.modifyAt (Path.segments path) fun _ => inner.root

/-- Runs an operation on the directory at a path as a file system of its own. -/
def within {ε α : Type} (path : String) (ofError : FileTree.Error → ε)
    (operation : EStateM ε FileSystem α) : EStateM ε FileSystem α := fun fs =>
  match fs.view path with
  | .error e => .error (ofError e) fs
  | .ok inner =>
    match operation inner with
    | .ok a inner => .ok a (fs.putBack path inner)
    | .error e inner => .error e (fs.putBack path inner)

end PracticeShell.FileSystem
