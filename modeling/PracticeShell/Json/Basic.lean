/-!
# JSON values

`Json` is a value of the data format: the members of an object keep the order in which they are
written, whole numbers are kept apart from doubles. A name that occurs twice in an object counts
once, at its first place with its last value (`Members.put`).
-/

namespace PracticeShell

/-- A value of the JSON data format. -/
inductive Json
  | null
  | bool (value : Bool)
  | int (value : Int)
  | float (value : Float)
  | string (value : String)
  | array (items : List Json)
  | object (members : List (String × Json))
deriving Inhabited

namespace Json

/-- The members of an object, in order. -/
abbrev Members := List (String × Json)

/-- Sets a member: a name that is there keeps its place. -/
def Members.put (name : String) (value : Json) : Members → Members
  | [] => [(name, value)]
  | (n, v) :: rest => if n = name then (n, value) :: rest else (n, v) :: put name value rest

/-- The member of an object with a name. -/
def get? (name : String) : Json → Option Json
  | .object members => members.lookup name
  | _ => none

/-- Whether a value counts as true where a condition is asked for: not when it is null, false, zero
or empty. -/
def isTruthy : Json → Bool
  | .null => false
  | .bool b => b
  | .int n => n != 0
  | .float x => x != 0.0
  | .string s => !s.isEmpty
  | .array items => !items.isEmpty
  | .object members => !members.isEmpty

/-- The text of a string value. -/
def string? : Json → Option String
  | .string s => some s
  | _ => none

/-- The members of an object value. -/
def members? : Json → Option Members
  | .object members => some members
  | _ => none

/-- The items of an array value. -/
def items? : Json → Option (List Json)
  | .array items => some items
  | _ => none

/-- The values that a collection goes through: the items of an array, the names of an object, the
characters of a text. -/
def elements? : Json → Option (List Json)
  | .array items => some items
  | .object members => some (members.map fun (name, _) => .string name)
  | .string text => some (text.toList.map fun c => .string c.toString)
  | _ => none

/-- Texts as an array value. -/
def strings (texts : List String) : Json := .array (texts.map .string)

/-- A text, or null where there is none. -/
def ofString? : Option String → Json
  | some s => .string s
  | none => .null

/-- A natural number as a value. -/
def ofNat (n : Nat) : Json := .int n

end Json

end PracticeShell
