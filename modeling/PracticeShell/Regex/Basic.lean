import PracticeShell.Text.Blank
import PracticeShell.Text.Case
import PracticeShell.Text.Digit
import PracticeShell.Text.Letter

/-!
# Regular expressions

`Regex` is the syntax of regular expressions with captures, back references, looking ahead and
behind, atomic groups, and greedy, lazy and possessive repetition. What depends on flags is settled
when an expression is read, so a `Regex` means the same wherever it stands.
-/

namespace PracticeShell.Regex

/-- A class of characters that has a short name. -/
inductive Category
  | digit
  | blank
  | word
deriving DecidableEq, Repr

namespace Category

/-- Whether a class holds a character; with `ascii` all classes are confined to ASCII. -/
def contains (ascii : Bool) (k : Category) (c : Char) : Bool :=
  match k with
  | digit => if ascii then Text.Letter.isAsciiDigit c else Text.Digit.isDecimal c
  | blank =>
    if ascii then c == ' ' || (9 ≤ c.toNat && c.toNat ≤ 13) else Text.Blank.isBlank c
  | word => if ascii then Text.Letter.isAsciiWord c else Text.Letter.isWord c

end Category

/-- A member of a set of characters. -/
inductive Member
  /-- The code points between two bounds. -/
  | interval (low high : Nat)
  /-- The characters of a class, or those outside of it. -/
  | category (k : Category) (negated : Bool)
deriving DecidableEq, Repr

/-- A test on one character. -/
structure CharTest where
  members : List Member
  negated : Bool
  ignoreCase : Bool
  ascii : Bool
deriving DecidableEq, Repr

namespace CharTest

/-- The characters equal to a given one when case is ignored. -/
def variants (ascii : Bool) (c : Char) : List Char :=
  if ascii then
    if 'a' ≤ c ∧ c ≤ 'z' then [c, c.toUpper]
    else if 'A' ≤ c ∧ c ≤ 'Z' then [c, c.toLower]
    else [c]
  else Text.Case.variants c

/-- Whether a member of the set holds a character, `forms` being the character and all that count as
equal to it. -/
def holds (ascii : Bool) (c : Char) (forms : List Char) : Member → Bool
  | .interval low high => forms.any fun d => low ≤ d.toNat && d.toNat ≤ high
  | .category k negated => k.contains ascii c != negated

/-- Whether a character passes the test. -/
def passes (t : CharTest) (c : Char) : Bool :=
  let forms := if t.ignoreCase then variants t.ascii c else [c]
  t.members.any (holds t.ascii c forms) != t.negated

/-- The test that every character passes. -/
def anything : CharTest := ⟨[], true, false, false⟩

/-- The test that every character but the line feed passes. -/
def notLineFeed : CharTest := ⟨[.interval 10 10], true, false, false⟩

end CharTest

/-- A place in a text. -/
inductive Anchor
  /-- The start of the text. -/
  | textStart
  /-- The start of the text or of a line. -/
  | lineStart
  /-- The end of the text. -/
  | textEnd
  /-- The end of the text, or before a line feed that ends it. -/
  | lastLineEnd
  /-- The end of the text or of a line. -/
  | lineEnd
  /-- Between a word character and another character or an end of the text. -/
  | boundary (ascii : Bool)
  /-- Inside a text, where there is no boundary. -/
  | notBoundary (ascii : Bool)
deriving DecidableEq, Repr

/-- In which order the numbers of repetitions are tried. -/
inductive Mode
  /-- Many first. -/
  | greedy
  /-- Few first. -/
  | lazy
  /-- As many as possible and no other number. -/
  | possessive
deriving DecidableEq, Repr

end Regex

/-- A regular expression. -/
inductive Regex
  | empty
  | one (test : Regex.CharTest)
  | anchor (place : Regex.Anchor)
  | seq (first second : Regex)
  | alt (first second : Regex)
  | capture (index : Nat) (body : Regex)
  | backref (index : Nat) (ignoreCase ascii : Bool)
  | rep (least : Nat) (most : Option Nat) (mode : Regex.Mode) (body : Regex)
  | ahead (negated : Bool) (body : Regex)
  | behind (width : Nat) (negated : Bool) (body : Regex)
  | atomic (body : Regex)
  | conditional (index : Nat) (present absent : Regex)
deriving Repr

namespace Regex

/-- How few and how many characters an expression takes; there may be no most. -/
structure Width where
  least : Nat
  most : Option Nat
deriving DecidableEq, Repr

namespace Width

/-- The width of two parts one after the other. -/
def add (v w : Width) : Width :=
  ⟨v.least + w.least, v.most.bind fun m => w.most.map (m + ·)⟩

/-- The width of one of two parts. -/
def either (v w : Width) : Width :=
  ⟨min v.least w.least, v.most.bind fun m => w.most.map (max m ·)⟩

/-- The width of a repeated part. -/
def times (least : Nat) (most : Option Nat) (w : Width) : Width :=
  ⟨least * w.least,
    match w.most with
    | some 0 => some 0
    | some m => most.map (m * ·)
    | none => if most = some 0 then some 0 else none⟩

end Width

/-- How many characters an expression takes; `widths` holds the widths of the captures. -/
def width (widths : List (Nat × Width)) : Regex → Width
  | empty => ⟨0, some 0⟩
  | one _ => ⟨1, some 1⟩
  | anchor _ => ⟨0, some 0⟩
  | seq a b => (width widths a).add (width widths b)
  | alt a b => (width widths a).either (width widths b)
  | capture _ r => width widths r
  | backref n _ _ => (widths.lookup n).getD ⟨0, none⟩
  | rep least most _ r => (width widths r).times least most
  | ahead .. => ⟨0, some 0⟩
  | behind .. => ⟨0, some 0⟩
  | atomic r => width widths r
  | conditional _ a b => (width widths a).either (width widths b)

end Regex

end PracticeShell
