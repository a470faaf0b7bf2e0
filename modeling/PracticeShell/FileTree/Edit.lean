import PracticeShell.FileTree.Basic

/-!
# Changing the file system

An `Edit` runs on a file system and ends with a result or a failure; either way it leaves a file
system behind, so that what a failed operation has done can be seen. Each operation first asks all
its questions and then makes one change, except `makeDirectories`, which works level by level.
-/

namespace PracticeShell

open FileTree

/-- An operation on a file system that can fail. -/
abbrev Edit (α : Type) := EStateM FileTree.Error FileSystem α

namespace FileSystem

/-- Changes the node that is reached along names, if there is one. -/
def modifyAt (place : List String) (f : Node → Node) (fs : FileSystem) : FileSystem :=
  fs.setRoot (fs.root.modify f place)

/-- Changes the entries of the directory reached along names and stamps it with the time. -/
def modifyEntries (place : List String) (f : Entries → Entries) (fs : FileSystem) : FileSystem :=
  fs.modifyAt place fun
    | .directory a es => .directory { a with modified := fs.now } (f es)
    | node => node

end FileSystem

namespace Edit

/-- The result of a question about the file system. -/
def ask {α : Type} (question : FileSystem → Except FileTree.Error α) : Edit α := do
  match question (← get) with
  | .ok a => return a
  | .error e => throw e

/-- The owner named, or the default one if none or an empty one is named. -/
def ownerOr (owner : Option String) (fs : FileSystem) : String :=
  match owner with
  | some name => if name = "" then fs.defaultOwner else name
  | none => fs.defaultOwner

/-- The directory that holds the last name of a path: the names that lead to it, its entries, and
the last name. The root has none. -/
def parentOf (path : String) : Edit (List String × Entries × String) := do
  let place := Path.segments path
  match place.getLast? with
  | none => throw ⟨.busy, "/"⟩
  | some name =>
    match (← get).root.find? place.dropLast with
    | none => throw ⟨.notFound, Path.ofSegments place⟩
    | some (.file ..) => throw ⟨.notADirectory, Path.ofSegments place⟩
    | some (.directory _ es) => return (place.dropLast, es, name)

/-- Makes a directory. -/
def makeDirectory (path : String) (permissions : Permissions) (owner : Option String) :
    Edit Unit := do
  if (Path.segments path).isEmpty then throw ⟨.alreadyExists, "/"⟩
  let (parent, es, name) ← parentOf path
  if (Entries.get? es name).isSome then throw ⟨.alreadyExists, path⟩
  modify fun fs => fs.modifyEntries parent
    (Entries.put name (.directory ⟨ownerOr owner fs, permissions, fs.now⟩ []))

/-- Makes the directories along `rest`, below the directory reached along `done`, that are not there
yet. -/
def makeAlong (permissions : Permissions) (owner : Option String) (done : List String) :
    (rest : List String) → Edit Unit
  | [] => return ()
  | name :: rest => do
    let place := done ++ [name]
    match (← get).root.find? place with
    | none => makeDirectory (Path.ofSegments place) permissions owner
    | some (.file ..) => throw ⟨.notADirectory, Path.ofSegments place⟩
    | some (.directory ..) => pure ()
    makeAlong permissions owner place rest

/-- Makes a directory and those above it that are not there yet. -/
def makeDirectories (path : String) (permissions : Permissions) (owner : Option String) :
    Edit Unit :=
  makeAlong permissions owner [] (Path.segments path)

/-- Makes a file or replaces the contents of one. A file that is there keeps its owner and its
permissions. -/
def write (path : String) (bytes : ByteArray) (owner : Option String) (permissions : Permissions) :
    Edit Unit := do
  let (parent, es, name) ← parentOf path
  match Entries.get? es name with
  | some (.directory ..) => throw ⟨.isADirectory, path⟩
  | some (.file ..) =>
    modify fun fs => fs.modifyAt (parent ++ [name]) fun
      | .file a _ => .file { a with modified := fs.now } bytes
      | node => node
  | none =>
    modify fun fs => fs.modifyEntries parent
      (Entries.put name (.file ⟨ownerOr owner fs, permissions, fs.now⟩ bytes))

/-- Makes an empty file, or stamps the node that is there with the time. -/
def touch (path : String) (owner : Option String) : Edit Unit := do
  match (← get).find? path with
  | none => write path ByteArray.empty owner Permissions.newFile
  | some _ =>
    modify fun fs => fs.modifyAt (Path.segments path)
      (Node.mapAttributes fun a => { a with modified := fs.now })

/-- Removes a file. -/
def unlink (path : String) : Edit Unit := do
  let (parent, es, name) ← parentOf path
  match Entries.get? es name with
  | none => throw ⟨.notFound, path⟩
  | some (.directory ..) => throw ⟨.isADirectory, path⟩
  | some (.file ..) => modify fun fs => fs.modifyEntries parent (Entries.erase · name)

/-- Removes an empty directory. -/
def removeDirectory (path : String) : Edit Unit := do
  let (parent, es, name) ← parentOf path
  match Entries.get? es name with
  | none => throw ⟨.notFound, path⟩
  | some (.file ..) => throw ⟨.notADirectory, path⟩
  | some (.directory _ inner) =>
    if inner.isEmpty then modify fun fs => fs.modifyEntries parent (Entries.erase · name)
    else throw ⟨.notEmpty, path⟩

/-- Removes a node and everything below it. -/
def removeTree (path : String) : Edit Unit := do
  let (parent, es, name) ← parentOf path
  match Entries.get? es name with
  | none => throw ⟨.notFound, path⟩
  | some _ => modify fun fs => fs.modifyEntries parent (Entries.erase · name)

/-- Moves a node. A file takes the place of a file and a directory that of an empty directory;
moving a node to its own place does nothing. -/
def rename (source target : String) : Edit Unit := do
  let (oldParent, oldEntries, oldName) ← parentOf source
  match Entries.get? oldEntries oldName with
  | none => throw ⟨.notFound, source⟩
  | some node =>
    let sourcePlace := Path.segments source
    let targetPlace := Path.segments target
    if targetPlace = sourcePlace then return ()
    if sourcePlace.isPrefixOf targetPlace then throw ⟨.invalid, target⟩
    let (newParent, newEntries, newName) ← parentOf target
    match Entries.get? newEntries newName with
    | none => pure ()
    | some there =>
      if there.isDirectory && !node.isDirectory then throw ⟨.isADirectory, target⟩
      if node.isDirectory && !there.isDirectory then throw ⟨.notADirectory, target⟩
      if !there.entries.isEmpty then throw ⟨.notEmpty, target⟩
    modify fun fs =>
      (fs.modifyEntries oldParent (Entries.erase · oldName)).modifyEntries newParent
        (Entries.put newName node)

/-- Copies the contents of a file. A file that is made gets the permissions of its source. -/
def copyFile (source target : String) (owner : Option String) : Edit Unit := do
  match (← get).find? source with
  | none => throw ⟨.notFound, source⟩
  | some (.directory ..) => throw ⟨.isADirectory, source⟩
  | some (.file a bytes) => write target bytes owner a.permissions

/-- Sets the permissions of a node. -/
def setPermissions (path : String) (permissions : Permissions) : Edit Unit := do
  match (← get).find? path with
  | none => throw ⟨.notFound, path⟩
  | some _ =>
    modify fun fs => fs.modifyAt (Path.segments path)
      (Node.mapAttributes fun a => { a with permissions := permissions })

/-- Sets the owner of a node. -/
def setOwner (path owner : String) : Edit Unit := do
  match (← get).find? path with
  | none => throw ⟨.notFound, path⟩
  | some _ =>
    modify fun fs => fs.modifyAt (Path.segments path)
      (Node.mapAttributes fun a => { a with owner := owner })

end Edit

end PracticeShell
