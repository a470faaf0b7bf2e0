import PracticeShell.FileTree.Edit

/-!
# Copying whole directories

`Edit.copyTree` copies a file, or a directory with everything below it, entry by entry. The names in
a directory are read once, when its copying starts; everything else is looked up when its turn
comes. So a copy that stops at a failure keeps what was copied before it, and the copy of a
directory to a place below itself, which would never end, fails when it is deeper than the directory
was high.
-/

namespace PracticeShell.Edit

open FileTree

/-- The path of an entry of a directory. -/
def entryPath (directory name : String) : String := Path.trimSlashes directory ++ "/" ++ name

/-- Copies a node to a path; `levels` bounds how deep the copy goes. -/
def copyNode (owner : Option String) : (levels : Nat) → (source target : String) → Edit Unit
  | 0, source, _ => throw ⟨.endless, source⟩
  | levels + 1, source, target => do
    match (← get).find? source with
    | none => throw ⟨.notFound, source⟩
    | some (.file ..) => copyFile source target owner
    | some (.directory a _) =>
      if !(← get).isDirectory target then makeDirectory target a.permissions owner
      let names ← ask (·.names source)
      names.forM fun name =>
        copyNode owner levels (entryPath source name) (entryPath target name)

/-- How many levels the copy of a node may go down: one more than the node has. -/
def copyLevels (fs : FileSystem) (source : String) : Nat :=
  ((fs.find? source).map Node.height).getD 0 + 1

/-- Copies a file or a directory with everything below it. -/
def copyTree (source target : String) (owner : Option String) : Edit Unit := do
  copyNode owner (copyLevels (← get) source) source target

end PracticeShell.Edit
