import PracticeShell.Decimal.Shortest
import PracticeShell.Json.Basic
import PracticeShell.Text.Digit
import PracticeShell.Text.Quoted

/-!
# Numbers in JSON values

`Json.toInt` reads a value as a whole number: doubles lose their fraction and texts are read.
Numbers are compared by their exact values (`Json.less`); truth values count as one and zero.
`Json.same` says when two plain values count as one.
-/

namespace PracticeShell.Json

/-- Why a value is not read as a whole number. -/
inductive NumberError
  /-- The value is of a type that has no number. -/
  | wrongType
  /-- The value is a text that is not read. -/
  | text (text : String) (cause : Text.Digit.IntError)
  /-- The value is not a number. -/
  | undefined
  /-- The value is infinite. -/
  | infinite
deriving DecidableEq, Repr

/-- The message that tells what is wrong. The text at fault is shown quoted, up to 200 characters
of it. -/
def NumberError.message : NumberError → String
  | wrongType => "a value has the wrong type"
  | text t .malformed =>
    "invalid literal for int() with base 10: " ++
      String.ofList ((Text.Quoted.quote t).toList.take 200)
  | text _ (.tooLong count) => Text.Digit.tooLongMessage count
  | undefined => "cannot convert float NaN to integer"
  | infinite => "cannot convert float infinity to integer"

/-- A finite double as `m * 2 ^ e`. -/
def ofFloat? (x : Float) : Option (Int × Int) :=
  if x.isNaN || x.isInf then none
  else
    let bits := x.toBits.toNat
    let b := Decimal.Binary.ofBits (bits % Nat.pow 2 63)
    some (if bits ≥ Nat.pow 2 63 then -(b.mantissa : Int) else b.mantissa, b.exponent)

/-- The value `m * 2 ^ e` without its fraction. -/
def whole (m e : Int) : Int :=
  if e ≥ 0 then m * Nat.pow 2 e.toNat else Int.tdiv m (Nat.pow 2 (-e).toNat)

/-- A value as a whole number. -/
def toInt : Json → Except NumberError Int
  | .int n => .ok n
  | .bool b => .ok (if b then 1 else 0)
  | .float x =>
    match ofFloat? x with
    | some (m, e) => .ok (whole m e)
    | none => .error (if x.isNaN then .undefined else .infinite)
  | .string s =>
    match Text.Digit.readInt s with
    | .ok n => .ok n
    | .error e => .error (.text s e)
  | _ => .error .wrongType

/-- A number of any kind as `m * 2 ^ e`, if it is finite. -/
def dyadic? : Json → Option (Int × Int)
  | .int n => some (n, 0)
  | .bool b => some (if b then 1 else 0, 0)
  | .float x => ofFloat? x
  | _ => none

/-- The sides of a comparison of two numbers `m * 2 ^ e`, brought to one exponent. -/
def aligned (a b : Int × Int) : Int × Int :=
  let e := min a.2 b.2
  (a.1 * Nat.pow 2 (a.2 - e).toNat, b.1 * Nat.pow 2 (b.2 - e).toNat)

/-- Whether a number is infinite, and then whether it is negative. -/
def infinite? : Json → Option Bool
  | .float x => if x.isInf then some (x < 0.0) else none
  | _ => none

/-- Whether a value is a number of any kind. -/
def isNumber : Json → Bool
  | .int _ | .bool _ | .float _ => true
  | _ => false

/-- Whether a value is less than another, if both are texts or both are numbers. What is not a number
among the doubles is neither less than another nor greater. -/
def less (v w : Json) : Option Bool :=
  match v, w with
  | .string s, .string t => some (s < t)
  | v, w =>
    if v.isNumber && w.isNumber then
      some <| match v.dyadic?, w.dyadic? with
        | some a, some b => (aligned a b).1 < (aligned a b).2
        | some _, none => w.infinite? == some false
        | none, some _ => v.infinite? == some true
        | none, none => v.infinite? == some true && w.infinite? == some false
    else none

/-- Whether two plain values count as one: equal texts, equal numbers of any kind, or both null. -/
def same (v w : Json) : Bool :=
  match v, w with
  | .null, .null => true
  | .string s, .string t => s == t
  | .float x, .float y => x.toBits == y.toBits || x == y
  | v, w =>
    match v.dyadic?, w.dyadic? with
    | some a, some b => (aligned a b).1 == (aligned a b).2
    | _, _ => false

/-- Whether a value can be a member of a set: it is no array and no object. -/
def isPlain : Json → Bool
  | .array _ | .object _ => false
  | _ => true

end PracticeShell.Json
