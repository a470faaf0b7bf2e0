import PracticeShell.Text.Digit
import PracticeShell.Text.Case

/-!
# Reading decimals

`Reader.ofDecimal` is the double nearest to a decimal; exponents that no double reaches are settled
without computing the power of ten. `Reader.readFloat?` reads a number as people write it in
settings: blanks around it, a sign, single underscores between digits, digits of any script, a
fraction, an exponent, and the words for infinity and for what is not a number.
-/

namespace PracticeShell.Decimal.Reader

/-- The double nearest to `digits * 10 ^ exponent`. -/
def ofDecimal (digits : Nat) (exponent : Int) : Float :=
  if digits = 0 then 0.0
  else
    let first : Int := exponent + (Nat.toDigits 10 digits).length
    if first > 400 then Float.ofBits 0x7FF0000000000000
    else if first < -400 then 0.0
    else if exponent < 0 then Float.ofScientific digits true exponent.natAbs
    else Float.ofScientific digits false exponent.toNat

/-- A double with a sign. -/
def signed (negative : Bool) (x : Float) : Float := if negative then -x else x

/-- The maximal run of decimal digits and of underscores between two of them, as digit values, with
what follows it. -/
def digitRun (afterDigit : Bool) : List Char → List Nat × List Char
  | [] => ([], [])
  | '_' :: c :: rest =>
    match afterDigit, Text.Digit.value? c with
    | true, some d =>
      let (ds, rest) := digitRun true rest
      (d :: ds, rest)
    | _, _ => ([], '_' :: c :: rest)
  | c :: rest =>
    match Text.Digit.value? c with
    | some d =>
      let (ds, rest) := digitRun true rest
      (d :: ds, rest)
    | none => ([], c :: rest)

/-- An exponent mark with its digits, or nothing. -/
def exponent? : List Char → Option Int
  | [] => some 0
  | c :: rest =>
    if c = 'e' ∨ c = 'E' then
      let (negative, rest) := match rest with
        | '+' :: rest => (false, rest)
        | '-' :: rest => (true, rest)
        | rest => (false, rest)
      match digitRun false rest with
      | ([], _) => none
      | (ds, []) =>
        let n : Int := Text.Digit.ofDigits ds
        some (if negative then -n else n)
      | _ => none
    else none

/-- A number without a sign. -/
def unsigned? (cs : List Char) : Option Float :=
  let word := String.ofList (cs.map Char.toLower)
  if word = "inf" ∨ word = "infinity" then some (Float.ofBits 0x7FF0000000000000)
  else if word = "nan" then some (Float.ofBits 0x7FF8000000000000)
  else
    let (whole, rest) := digitRun false cs
    let (fraction, rest) := match rest with
      | '.' :: rest => digitRun false rest
      | rest => ([], rest)
    if whole.isEmpty && fraction.isEmpty then none
    else do
      let e ← exponent? rest
      return ofDecimal (Text.Digit.ofDigits (whole ++ fraction)) (e - fraction.length)

/-- Reads a number written with an optional sign and blanks around it. -/
def readFloat? (text : String) : Option Float :=
  match (Text.Blank.trim text).toList with
  | '+' :: rest => unsigned? rest
  | '-' :: rest => (unsigned? rest).map (signed true)
  | cs => unsigned? cs

end PracticeShell.Decimal.Reader
