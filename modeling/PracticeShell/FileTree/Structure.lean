import PracticeShell.FileTree.Edit
import PracticeShell.Json.Literal

/-!
# File systems from a description

A file system can be described by a JSON object: under `root`, or on the top level, names are mapped
to nodes, which say their type, contents, owner, permissions and children. `FileSystem.ofStructure`
builds it in the order in which the nodes are written.
-/

namespace PracticeShell

open FileTree

/-- Why a description gives no file system. -/
inductive StructureError
  /-- The names are not given as an object. -/
  | notAMapping
  /-- The node with this name is not given as an object. -/
  | notANode (name : String)
  /-- A node is of no known type. -/
  | unknownKind (kind : Json) (path : String)
  /-- Permissions cannot be read. -/
  | badPermissions (text : String)
  /-- A value is of a type that has no meaning at its place. -/
  | illTyped
  /-- Contents are not a text. -/
  | contentNotText
  /-- A node cannot be made. -/
  | failed (error : FileTree.Error)

namespace StructureError

/-- The message that tells what is wrong. -/
def message : StructureError → String
  | notAMapping => "filesystem definition must map names to nodes"
  | notANode name => "invalid node definition for " ++ Text.Quoted.quote name
  | unknownKind kind path => "unknown node type " ++ kind.literal ++ " for " ++ path
  | badPermissions text => "invalid permission string: " ++ Text.Quoted.quote text
  | illTyped => "a value has the wrong type"
  | contentNotText => "contents must be a text"
  | failed e => e.message

end StructureError

namespace Structure

/-- Building a file system from a description. -/
abbrev Build (α : Type) := EStateM StructureError FileSystem α

/-- Runs a file operation while building. -/
def edit (operation : Edit Unit) : Build Unit := fun fs =>
  match operation fs with
  | .ok a fs => .ok a fs
  | .error e fs => .error (.failed e) fs

/-- Permissions as a description gives them: by a number or a text. -/
def readPermissions (default : Permissions) : Option Json → Except StructureError Permissions
  | none => .ok default
  | some (.int n) => .ok (Permissions.ofInt n)
  | some (.bool b) => .ok (Permissions.ofInt (if b then 1 else 0))
  | some (.string text) =>
    match Permissions.read? text with
    | some p => .ok p
    | none => .error (.badPermissions text)
  | some _ => .error .illTyped

/-- The owner that a node names, if any. -/
def ownerOf (members : Json.Members) : Option String :=
  match members.lookup "owner" with
  | some owner => if owner.isTruthy then some owner.plainText else none
  | none => none

/-- What a node says about its type. Without a type, a node with children is a directory. -/
def kindOf (members : Json.Members) : Json :=
  match members.lookup "type" with
  | some kind => kind
  | none => .string (if (members.lookup "children").isSome then "directory" else "file")

/-- The contents that a node gives: those of a text, or else none. -/
def contentsOf (members : Json.Members) : ByteArray :=
  match members.lookup "content" with
  | some (.string text) => Text.Utf8.encode text
  | _ => ByteArray.empty

mutual

/-- Makes a node in the directory at `base`. -/
def addNode (base name : String) : Json → Build Unit
  | .object members => do
    let path := Path.trimSlashes base ++ "/" ++ name
    let owner := ownerOf members
    match kindOf members with
    | .string "directory" =>
      match readPermissions Permissions.newDirectory (members.lookup "permissions") with
      | .error e => throw e
      | .ok permissions =>
        edit (Edit.makeDirectory path permissions owner)
        addChildren path members
    | .string "file" =>
      match readPermissions Permissions.newFile (members.lookup "permissions") with
      | .error e => throw e
      | .ok permissions => edit (Edit.write path (contentsOf members) owner permissions)
    | kind => throw (.unknownKind kind path)
  | _ => throw (.notANode name)

/-- Makes the children that a directory names. -/
def addChildren (path : String) : List (String × Json) → Build Unit
  | [] => return ()
  | (name, value) :: rest =>
    if name = "children" then
      match value with
      | .object children => addNodes path children
      | other => if other.isTruthy then throw .illTyped else return ()
    else addChildren path rest

/-- Makes nodes in the directory at `base`, in order. -/
def addNodes (base : String) : List (String × Json) → Build Unit
  | [] => return ()
  | (name, value) :: rest => do
    addNode base name value
    addNodes base rest

end

mutual

/-- Whether the files at and below a node have texts for their contents. -/
def hasTexts : Json → Bool
  | .object members =>
    match kindOf members with
    | .string "file" =>
      match members.lookup "content" with
      | none | some (.string _) => true
      | some _ => false
    | _ => childrenHaveTexts members
  | _ => true

/-- Whether the files below the children that a directory names have texts for their contents. -/
def childrenHaveTexts : List (String × Json) → Bool
  | [] => true
  | (name, value) :: rest =>
    if name = "children" then
      match value with
      | .object children => haveTexts children
      | _ => true
    else childrenHaveTexts rest

/-- Whether the files at and below some nodes have texts for their contents. -/
def haveTexts : List (String × Json) → Bool
  | [] => true
  | (_, value) :: rest => hasTexts value && haveTexts rest

end

end Structure

/-- The file system that a description gives. A description that is null or empty gives the empty
one. Contents that are no texts are found out when all nodes are made. -/
def FileSystem.ofStructure (description : Json) (defaultOwner : String) (now : Int) :
    Except StructureError FileSystem :=
  let fs := FileSystem.empty defaultOwner now
  if !description.isTruthy then .ok fs
  else
    match description with
    | .object members =>
      match (members.lookup "root").getD description with
      | .object nodes =>
        match Structure.addNodes "/" nodes fs with
        | .ok _ fs => if Structure.haveTexts nodes then .ok fs else .error .contentNotText
        | .error e _ => .error e
      | _ => .error .notAMapping
    | _ => .error .illTyped

end PracticeShell
