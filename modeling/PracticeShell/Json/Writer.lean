import PracticeShell.Decimal.Shortest
import PracticeShell.Json.Basic

/-!
# Writing JSON

`Json.compact` writes a value on one line, `Json.indented` with one member or item a line. Both use
ASCII characters only: all others are written as UTF-16 code units. Doubles are written with the
fewest digits that read back, and infinities and what is not a number by their names.
-/

namespace PracticeShell.Json

namespace Writer

/-- Four hexadecimal digits. -/
def hex4 (n : Nat) : List Char :=
  let ds := Nat.toDigits 16 n
  List.replicate (4 - ds.length) '0' ++ ds

/-- A code unit in its written form. -/
def unit (n : Nat) : List Char := '\\' :: 'u' :: hex4 n

/-- The written form of a character inside a string. -/
def escape (c : Char) : List Char :=
  if c = '"' then ['\\', '"']
  else if c = '\\' then ['\\', '\\']
  else if c = '\n' then ['\\', 'n']
  else if c = '\r' then ['\\', 'r']
  else if c = '\t' then ['\\', 't']
  else if c = '\x08' then ['\\', 'b']
  else if c = '\x0c' then ['\\', 'f']
  else if 32 ≤ c.toNat ∧ c.toNat < 127 then [c]
  else if c.toNat < 0x10000 then unit c.toNat
  else
    let n := c.toNat - 0x10000
    unit (0xD800 + n / 0x400) ++ unit (0xDC00 + n % 0x400)

/-- A string with its quotes. -/
def quoted (s : String) : String := String.ofList ('"' :: s.toList.flatMap escape ++ ['"'])

/-- A double. -/
def float (x : Float) : String :=
  if x.isNaN then "NaN"
  else if x.isInf then if x < 0.0 then "-Infinity" else "Infinity"
  else Decimal.floatText x

mutual

/-- A value on one line. -/
def compactValue : Json → String
  | .null => "null"
  | .bool b => if b then "true" else "false"
  | .int n => toString n
  | .float x => float x
  | .string s => quoted s
  | .array items => "[" ++ ", ".intercalate (compactItems items) ++ "]"
  | .object members => "\x7b" ++ ", ".intercalate (compactMembers members) ++ "\x7d"

/-- The items of an array, each on one line. -/
def compactItems : List Json → List String
  | [] => []
  | v :: rest => compactValue v :: compactItems rest

/-- The members of an object, each on one line. -/
def compactMembers : List (String × Json) → List String
  | [] => []
  | (name, v) :: rest => (quoted name ++ ": " ++ compactValue v) :: compactMembers rest

end

/-- Parts of a container on lines of their own, at the given indentation. -/
def block (opening closing : String) (indent step : Nat) (parts : List String) : String :=
  if parts.isEmpty then opening ++ closing
  else
    let line := "\n" ++ String.ofList (List.replicate (indent + step) ' ')
    opening ++ line ++ ("," ++ line).intercalate parts ++ "\n" ++
      String.ofList (List.replicate indent ' ') ++ closing

mutual

/-- A value over several lines, inside lines that are indented by `indent`. -/
def indentedValue (step indent : Nat) : Json → String
  | .array items => block "[" "]" indent step (indentedItems step (indent + step) items)
  | .object members =>
    block "\x7b" "\x7d" indent step (indentedMembers step (indent + step) members)
  | .null => "null"
  | .bool b => if b then "true" else "false"
  | .int n => toString n
  | .float x => float x
  | .string s => quoted s

/-- The items of an array over several lines. -/
def indentedItems (step indent : Nat) : List Json → List String
  | [] => []
  | v :: rest => indentedValue step indent v :: indentedItems step indent rest

/-- The members of an object over several lines. -/
def indentedMembers (step indent : Nat) : List (String × Json) → List String
  | [] => []
  | (name, v) :: rest =>
    (quoted name ++ ": " ++ indentedValue step indent v) :: indentedMembers step indent rest

end

end Writer

/-- A value on one line. -/
def compact (v : Json) : String := Writer.compactValue v

/-- A value with one member or item a line, indented by `step` blanks for each level. -/
def indented (step : Nat) (v : Json) : String := Writer.indentedValue step 0 v

end PracticeShell.Json
