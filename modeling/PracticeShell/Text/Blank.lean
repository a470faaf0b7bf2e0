import PracticeShell.Text.Intervals

/-!
# Blanks

`Blank.isBlank` is the class of blank characters: the Unicode spaces and separators, the controls
from tab to carriage return, the four information separators and the next-line control. On it rest
trimming (`trim`, `trimStart`, `trimEnd`) and the reading of a text as words (`words`).
-/

namespace PracticeShell.Text.Blank

/-- Where the class of blanks starts and stops. -/
def intervals : Intervals := ⟨#[
    9, 14, 28, 33, 133, 134, 160, 161, 5760, 5761, 8192, 8203, 8232, 8234, 8239, 8240, 8287, 8288,
    12288, 12289]⟩

/-- Whether a character is blank. -/
def isBlank (c : Char) : Bool := intervals.contains c.toNat

/-- The part of a list from its first element that fails the test, read from the end. -/
def dropWhileEnd {α : Type} (p : α → Bool) (l : List α) : List α :=
  (l.reverse.dropWhile p).reverse

/-- A text without the blanks it starts with. -/
def trimStart (text : String) : String := String.ofList (text.toList.dropWhile isBlank)

/-- A text without the blanks it ends with. -/
def trimEnd (text : String) : String := String.ofList (dropWhileEnd isBlank text.toList)

/-- A text without the blanks at either end. -/
def trim (text : String) : String :=
  String.ofList (dropWhileEnd isBlank (text.toList.dropWhile isBlank))

/-- Whether a text holds nothing but blanks. -/
def isBlankText (text : String) : Bool := text.toList.all isBlank

/-- The maximal runs of characters without a blank: `current` holds, last character first, the run
being read. -/
def runs (current : List Char) : List Char → List (List Char)
  | [] => if current.isEmpty then [] else [current.reverse]
  | c :: rest =>
    if isBlank c then
      if current.isEmpty then runs [] rest else current.reverse :: runs [] rest
    else runs (c :: current) rest

/-- The words of a text: its maximal runs without a blank. -/
def words (text : String) : List String := (runs [] text.toList).map String.ofList

end PracticeShell.Text.Blank
