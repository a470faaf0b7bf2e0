import PracticeShell.Decimal.Reader
import PracticeShell.Json.Basic

/-!
# Reading JSON

`Json.parse` reads one value with blanks around it. It keeps to the standard, except that the words
`NaN`, `Infinity` and `-Infinity` are numbers too. Numbers without fraction and exponent are whole
numbers of any size up to the limit of `Text.Digit.maxDigits` digits. Arrays and objects may be
nested `maxDepth` deep.
-/

namespace PracticeShell.Json

/-- Why a text is not read as a value. -/
inductive ParseError
  /-- The text is no value. -/
  | malformed
  /-- A whole number has the given number of digits, which is above the limit. -/
  | numberTooLong (count : Nat)
  /-- Arrays and objects are nested too deep. -/
  | tooDeep
deriving DecidableEq, Repr

/-- How deep arrays and objects may be nested. -/
def maxDepth : Nat := 980

namespace Reader

/-- The characters after blanks. -/
def skipBlanks (cs : List Char) : List Char :=
  cs.dropWhile fun c => c == ' ' || c == '\t' || c == '\n' || c == '\r'

/-- The value of a hexadecimal digit. -/
def hexValue? (c : Char) : Option Nat :=
  if '0' ≤ c ∧ c ≤ '9' then some (c.toNat - 48)
  else if 'a' ≤ c ∧ c ≤ 'f' then some (c.toNat - 87)
  else if 'A' ≤ c ∧ c ≤ 'F' then some (c.toNat - 55)
  else none

/-- Four hexadecimal digits. -/
def hex4? : List Char → Option (Nat × List Char)
  | a :: b :: c :: d :: rest => do
    let a ← hexValue? a
    let b ← hexValue? b
    let c ← hexValue? c
    let d ← hexValue? d
    return (((a * 16 + b) * 16 + c) * 16 + d, rest)
  | _ => none

/-- The character of a code unit written after `\u`. A leading half is put together with the
trailing half that follows it; a half alone gives the replacement character. -/
def unit (code : Nat) (rest : List Char) : Char × List Char :=
  if 0xD800 ≤ code ∧ code < 0xDC00 then
    match rest with
    | '\\' :: 'u' :: more =>
      match hex4? more with
      | some (low, more) =>
        if 0xDC00 ≤ low ∧ low < 0xE000 then
          (Char.ofNat (0x10000 + (code - 0xD800) * 0x400 + (low - 0xDC00)), more)
        else ('\uFFFD', rest)
      | none => ('\uFFFD', rest)
    | _ => ('\uFFFD', rest)
  else if 0xDC00 ≤ code ∧ code < 0xE000 then ('\uFFFD', rest)
  else (Char.ofNat code, rest)

/-- The characters of a string up to its closing quote; `fuel` bounds their number. -/
def stringBody (done : List Char) :
    (fuel : Nat) → List Char → Except ParseError (String × List Char)
  | 0, _ => .error .malformed
  | _, [] => .error .malformed
  | fuel + 1, c :: rest =>
    if c = '"' then .ok (String.ofList done.reverse, rest)
    else if c = '\\' then
      match rest with
      | 'u' :: more =>
        match hex4? more with
        | some (code, more) =>
          let (c, more) := unit code more
          stringBody (c :: done) fuel more
        | none => .error .malformed
      | '"' :: more => stringBody ('"' :: done) fuel more
      | '\\' :: more => stringBody ('\\' :: done) fuel more
      | '/' :: more => stringBody ('/' :: done) fuel more
      | 'b' :: more => stringBody ('\x08' :: done) fuel more
      | 'f' :: more => stringBody ('\x0c' :: done) fuel more
      | 'n' :: more => stringBody ('\n' :: done) fuel more
      | 'r' :: more => stringBody ('\r' :: done) fuel more
      | 't' :: more => stringBody ('\t' :: done) fuel more
      | _ => .error .malformed
    else if c.toNat < 32 then .error .malformed
    else stringBody (c :: done) fuel rest

/-- The maximal run of ASCII digits. -/
def asciiDigits (cs : List Char) : List Char × List Char :=
  (cs.takeWhile Char.isDigit, cs.dropWhile Char.isDigit)

/-- The number written by ASCII digits. -/
def natOf (ds : List Char) : Nat := Text.Digit.ofDigits (ds.map fun c => c.toNat - 48)

/-- A fraction: a point with at least one digit. -/
def fraction (cs : List Char) : List Char × List Char :=
  match cs with
  | '.' :: rest =>
    match asciiDigits rest with
    | ([], _) => ([], cs)
    | (ds, rest) => (ds, rest)
  | _ => ([], cs)

/-- An exponent: its mark, a sign perhaps, and at least one digit. -/
def exponent (cs : List Char) : Option Int × List Char :=
  match cs with
  | c :: rest =>
    if c = 'e' ∨ c = 'E' then
      let (negative, rest) := match rest with
        | '+' :: rest => (false, rest)
        | '-' :: rest => (true, rest)
        | rest => (false, rest)
      match asciiDigits rest with
      | ([], _) => (none, cs)
      | (ds, rest) => (some (if negative then -(natOf ds : Int) else natOf ds), rest)
    else (none, cs)
  | [] => (none, cs)

/-- A number after its sign. -/
def number (negative : Bool) (cs : List Char) : Except ParseError (Json × List Char) :=
  let (whole, rest) := match cs with
    | '0' :: rest => (['0'], rest)
    | cs => asciiDigits cs
  if whole.isEmpty then .error .malformed
  else
    let (fraction, rest) := fraction rest
    let (e, rest) := exponent rest
    if fraction.isEmpty && e.isNone then
      if whole.length > Text.Digit.maxDigits then .error (.numberTooLong whole.length)
      else .ok (.int (if negative then -(natOf whole : Int) else natOf whole), rest)
    else
      let x := Decimal.Reader.ofDecimal (natOf (whole ++ fraction)) (e.getD 0 - fraction.length)
      .ok (.float (Decimal.Reader.signed negative x), rest)

/-- The characters after a word that the text starts with. -/
def afterWord? (word : String) (cs : List Char) : Option (List Char) :=
  if word.toList.isPrefixOf cs then some (cs.drop word.length) else none

/-- A value that is neither a string nor a container. -/
def scalar (cs : List Char) : Except ParseError (Json × List Char) :=
  match afterWord? "null" cs with
  | some rest => .ok (.null, rest)
  | none => match afterWord? "true" cs with
  | some rest => .ok (.bool true, rest)
  | none => match afterWord? "false" cs with
  | some rest => .ok (.bool false, rest)
  | none => match afterWord? "NaN" cs with
  | some rest => .ok (.float (Float.ofBits 0x7FF8000000000000), rest)
  | none => match afterWord? "Infinity" cs with
  | some rest => .ok (.float (Float.ofBits 0x7FF0000000000000), rest)
  | none => match afterWord? "-Infinity" cs with
  | some rest => .ok (.float (Float.ofBits 0xFFF0000000000000), rest)
  | none => match cs with
  | '-' :: rest => number true rest
  | cs => number false cs

mutual

/-- A value; `depth` is how many containers may still be opened, `fuel` bounds the steps. -/
def value (depth : Nat) : (fuel : Nat) → List Char → Except ParseError (Json × List Char)
  | 0, _ => .error .malformed
  | fuel + 1, cs =>
    match cs with
    | '"' :: rest => do
      let (s, rest) ← stringBody [] rest.length rest
      return (.string s, rest)
    | '[' :: rest =>
      match depth with
      | 0 => .error .tooDeep
      | depth + 1 =>
        match skipBlanks rest with
        | ']' :: rest => .ok (.array [], rest)
        | rest => do
          let (items, rest) ← items depth fuel rest
          return (.array items, rest)
    | '\x7b' :: rest =>
      match depth with
      | 0 => .error .tooDeep
      | depth + 1 =>
        match skipBlanks rest with
        | '\x7d' :: rest => .ok (.object [], rest)
        | rest => do
          let (members, rest) ← members depth [] fuel rest
          return (.object members, rest)
    | cs => scalar cs

/-- The items of an array, up to the closing bracket. -/
def items (depth : Nat) : (fuel : Nat) → List Char → Except ParseError ((List Json) × List Char)
  | 0, _ => .error .malformed
  | fuel + 1, cs => do
    let (v, rest) ← value depth fuel cs
    match skipBlanks rest with
    | ',' :: rest =>
      let (vs, rest) ← items depth fuel (skipBlanks rest)
      return (v :: vs, rest)
    | ']' :: rest => return ([v], rest)
    | _ => .error .malformed

/-- The members of an object, up to the closing brace, after those in `done`. -/
def members (depth : Nat) (done : Members) :
    (fuel : Nat) → List Char → Except ParseError (Members × List Char)
  | 0, _ => .error .malformed
  | fuel + 1, cs =>
    match cs with
    | '"' :: rest => do
      let (name, rest) ← stringBody [] rest.length rest
      match skipBlanks rest with
      | ':' :: rest =>
        let (v, rest) ← value depth fuel (skipBlanks rest)
        let done := Members.put name v done
        match skipBlanks rest with
        | ',' :: rest => members depth done fuel (skipBlanks rest)
        | '\x7d' :: rest => return (done, rest)
        | _ => .error .malformed
      | _ => .error .malformed
    | _ => .error .malformed

end

end Reader

/-- Reads a text that consists of one value with blanks around it. -/
def parse (text : String) : Except ParseError Json := do
  let cs := text.toList
  let (v, rest) ← Reader.value maxDepth (2 * cs.length + 2) (Reader.skipBlanks cs)
  if (Reader.skipBlanks rest).isEmpty then return v else .error .malformed

end PracticeShell.Json
