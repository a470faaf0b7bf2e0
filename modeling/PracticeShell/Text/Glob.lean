/-!
# File name patterns

In a pattern `*` stands for any characters, `?` for one, and a bracket expression for one character
out of a set, or outside of it if `!` comes first. Inside brackets `a-z` stands for an interval; a
bracket that is never closed stands for itself. `Glob.accepts` compares a whole name with a pattern.
-/

namespace PracticeShell.Text.Glob

/-- One part of a pattern. -/
inductive Part
  /-- Any characters, perhaps none. -/
  | any
  /-- Any one character. -/
  | one
  /-- The given character. -/
  | char (c : Char)
  /-- One character that lies in one of the intervals, or in none if `negated`. -/
  | set (negated : Bool) (intervals : List (Char × Char))
deriving DecidableEq, Repr

/-- The intervals that the inside of brackets spells, without those whose ends are out of order. -/
def intervals : List Char → List (Char × Char)
  | a :: '-' :: b :: rest => if b < a then intervals rest else (a, b) :: intervals rest
  | a :: rest => (a, a) :: intervals rest
  | [] => []

/-- The set of the inside of brackets that does not start with `!`. Where intervals out of order
have been left out, a `!` may have come first: then it negates, and if it was the lower end of an
interval the dash and the upper end stand for themselves. -/
def setOf (body : List Char) : Part :=
  match intervals body with
  | ('!', b) :: rest => .set true (if b = '!' then rest else ('-', '-') :: (b, b) :: rest)
  | all => .set false all

/-- The inside of brackets and what follows them, for the characters after an opening bracket and a
possible `!`. A closing bracket that comes first belongs to the inside. -/
def inside? : List Char → Option (List Char × List Char)
  | [] => none
  | c :: rest =>
    let body := c :: rest.takeWhile (· ≠ ']')
    match rest.dropWhile (· ≠ ']') with
    | [] => none
    | _ :: after => some (body, after)

/-- The bracket expression after an opening bracket, with what follows it. -/
def bracket? (cs : List Char) : Option (Part × List Char) :=
  match cs with
  | '!' :: rest => (inside? rest).map fun (body, after) => (.set true (intervals body), after)
  | cs => (inside? cs).map fun (body, after) => (setOf body, after)

/-- The parts of a pattern; `fuel` bounds their number. -/
def parse : (fuel : Nat) → List Char → List Part
  | 0, _ => []
  | _, [] => []
  | fuel + 1, c :: rest =>
    if c = '*' then .any :: parse fuel rest
    else if c = '?' then .one :: parse fuel rest
    else if c = '[' then
      match bracket? rest with
      | some (part, after) => part :: parse fuel after
      | none => .char '[' :: parse fuel rest
    else .char c :: parse fuel rest

/-- Whether a part that stands for one character stands for the given one. -/
def Part.holds : Part → Char → Bool
  | any, _ => false
  | one, _ => true
  | char d, c => c == d
  | set negated intervals, c =>
    intervals.any (fun (a, b) => a ≤ c && c ≤ b) != negated

/-- Whether some end of a list, the whole list included, passes a test. -/
def anyTail (test : List Char → Bool) : List Char → Bool
  | [] => test []
  | c :: rest => test (c :: rest) || anyTail test rest

/-- Whether parts stand for a whole name. -/
def matchParts : List Part → List Char → Bool
  | [], name => name.isEmpty
  | .any :: .any :: parts, name => matchParts (.any :: parts) name
  | .any :: parts, name => anyTail (matchParts parts) name
  | _ :: _, [] => false
  | part :: parts, c :: name => part.holds c && matchParts parts name

/-- Whether a pattern stands for a whole name. -/
def accepts (pattern name : String) : Bool :=
  matchParts (parse pattern.length pattern.toList) name.toList

/-- Whether a text holds a character that makes it a pattern for operands of commands. -/
def isPattern (text : String) : Bool := text.toList.any fun c => c == '*' || c == '?'

end PracticeShell.Text.Glob
