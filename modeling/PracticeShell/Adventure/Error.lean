import PracticeShell.FileTree.Structure
import PracticeShell.Json.Number
import PracticeShell.Text.Replace

/-!
# Faults of adventure documents

An adventure is read from a JSON document that people write. `Adventure.Error` lists what can be
wrong with one. The readers in `Adventure.Reader` look at values of any type.
-/

namespace PracticeShell.Adventure

/-- Why a document gives no adventure. -/
inductive Error
  /-- The document is no object. -/
  | notAnObject
  /-- A member that every adventure has is missing. -/
  | missing (name : String)
  /-- A mission has no name of its own; its title is given. -/
  | missionWithoutId (title : Json)
  /-- A task has no name of its own. -/
  | taskWithoutId (task : Json)
  /-- Several tasks have the same name. -/
  | repeatedTasks (ids : List String)
  /-- The files of the adventure with this name cannot be made. -/
  | files (id : String) (cause : StructureError)
  /-- Something that has to be a number is none. -/
  | number (cause : Json.NumberError)
  /-- Something that has to be a list is none. -/
  | notAList
  /-- Members are asked of something that is no object. -/
  | noMembers

/-- The message that tells what is wrong with a document. -/
def Error.message : Error → String
  | notAnObject => "adventure document must be a JSON object"
  | missing name => "adventure is missing '" ++ name ++ "'"
  | missionWithoutId title => "mission without an id: " ++ title.literal
  | taskWithoutId task => "task without an id: " ++ task.literal
  | repeatedTasks ids => "duplicate task ids: " ++ ", ".intercalate ids
  | files id cause => "invalid initialFileSystem in " ++ id ++ ": " ++ cause.message
  | number cause => cause.message
  | notAList => "a list is needed"
  | noMembers => "an object is needed"

/-- Whether a document is at fault in a way that is expected of documents. -/
def Error.isExpected : Error → Bool
  | number _ | notAList | noMembers => false
  | files _ cause =>
    match cause with
    | .illTyped | .contentNotText | .failed _ => false
    | _ => true
  | _ => true

namespace Reader

/-- Whether a name occurs in a value: as a member of an object, as an item of a list, or as part of
a text. -/
def has (name : String) : Json → Except Error Bool
  | .object members => .ok (members.lookup name).isSome
  | .array items => .ok (items.any fun item => item.string? == some name)
  | .string text => .ok (Text.Replace.contains text name)
  | _ => .error .notAList

/-- The members of a value, which has to be an object. -/
def members (v : Json) : Except Error Json.Members :=
  match v with
  | .object members => .ok members
  | _ => .error .noMembers

/-- The elements of a value, which has to be a list or a collection. -/
def elements (v : Json) : Except Error (List Json) :=
  match v.elements? with
  | some items => .ok items
  | none => .error .notAList

/-- The elements of a member; there are none if it is missing. -/
def elementsOf (ms : Json.Members) (name : String) : Except Error (List Json) :=
  elements ((ms.lookup name).getD (.array []))

/-- A member as running text, or a text in its place if it is missing. -/
def textOf (ms : Json.Members) (name default : String) : String :=
  match ms.lookup name with
  | some v => v.plainText
  | none => default

/-- Reads all values of a list. -/
def all {α : Type} (read : Json → Except Error α) : List Json → Except Error (List α)
  | [] => .ok []
  | v :: rest => do
    let a ← read v
    return a :: (← all read rest)

end Reader

end PracticeShell.Adventure
