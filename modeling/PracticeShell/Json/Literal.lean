import PracticeShell.Decimal.Shortest
import PracticeShell.Json.Basic
import PracticeShell.Text.Quoted

/-!
# Values in messages

Messages show the value that is at fault. `Json.literal` is the form they show it in: texts are
quoted as `Text.Quoted` says, and the constants are written `None`, `True` and `False`.
`Json.plainText` is the same except that a text stands without quotes.
-/

namespace PracticeShell.Json

namespace Literal

mutual

/-- A value in the form that messages show it in. -/
def value : Json → String
  | .null => "None"
  | .bool b => if b then "True" else "False"
  | .int n => toString n
  | .float x => Decimal.floatText x
  | .string s => Text.Quoted.quote s
  | .array vs => "[" ++ ", ".intercalate (items vs) ++ "]"
  | .object ms => "\x7b" ++ ", ".intercalate (members ms) ++ "\x7d"

/-- The items of an array. -/
def items : List Json → List String
  | [] => []
  | v :: rest => value v :: items rest

/-- The members of an object. -/
def members : List (String × Json) → List String
  | [] => []
  | (name, v) :: rest => (Text.Quoted.quote name ++ ": " ++ value v) :: members rest

end

end Literal

/-- A value in the form that messages show it in. -/
def literal (v : Json) : String := Literal.value v

/-- A value as running text: a text as it is, any other value in its literal form. -/
def plainText : Json → String
  | .string s => s
  | v => literal v

end PracticeShell.Json
