/-!
# Lines and columns

Two readings of a text as lines are used. `Lines.split` cuts at every line boundary of the Unicode
standard, a carriage return with its line feed counting once, and gives no line after a final
boundary. `Lines.fields` cuts at line feeds only and always gives one line more than there are line
feeds; `Lines.logical` is the same without the empty line that a final line feed leaves.

In columns, numbers and names are brought to a width by blanks on one side; a text that is longer
keeps its length.
-/

namespace PracticeShell.Text.Lines

/-- Whether a character ends a line: line feed, vertical tab, form feed, carriage return, the
separators of files, groups and records, next line, and the line and paragraph separators. -/
def isBoundary (c : Char) : Bool :=
  let n := c.toNat
  (10 ≤ n && n ≤ 13) || (28 ≤ n && n ≤ 30) || n == 0x85 || n == 0x2028 || n == 0x2029

/-- The lines of a text at every kind of boundary: `current` holds, last character first, the line
being read. -/
def splitFrom (current : List Char) : List Char → List (List Char)
  | [] => if current.isEmpty then [] else [current.reverse]
  | '\r' :: '\n' :: rest => current.reverse :: splitFrom [] rest
  | c :: rest =>
    if isBoundary c then current.reverse :: splitFrom [] rest else splitFrom (c :: current) rest

/-- The lines of a text, cut at every kind of line boundary. -/
def split (text : String) : List String := (splitFrom [] text.toList).map String.ofList

/-- A text cut at each line feed. -/
def fields (text : String) : List String := (text.toList.splitOn '\n').map String.ofList

/-- The lines of a text that ends each line with a line feed, the last one possibly excepted. The
empty text has none. -/
def logical (text : String) : List String :=
  let all := fields text
  if all.getLast? = some "" then all.dropLast else all

/-- Lines put together with a line feed between them. -/
def join (lines : List String) : String := "\n".intercalate lines

/-- Characters without one line feed at their end. -/
def withoutFinal (cs : List Char) : List Char :=
  if cs.getLast? = some '\n' then cs.dropLast else cs

/-- A text without the line feeds it ends with. -/
def trimEnd (text : String) : String :=
  String.ofList (text.toList.reverse.dropWhile (· == '\n')).reverse

end PracticeShell.Text.Lines

namespace PracticeShell.Text.Pad

/-- A text with blanks before it, up to a width. -/
def left (width : Nat) (text : String) : String :=
  String.ofList (List.replicate (width - text.length) ' ') ++ text

/-- A text with blanks after it, up to a width. -/
def right (width : Nat) (text : String) : String :=
  text ++ String.ofList (List.replicate (width - text.length) ' ')

/-- A number with zeros before it, up to a width. -/
def zeros (width n : Nat) : String :=
  let text := toString n
  String.ofList (List.replicate (width - text.length) '0') ++ text

end PracticeShell.Text.Pad
