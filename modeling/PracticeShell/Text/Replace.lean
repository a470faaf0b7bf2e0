/-!
# Replacing parts of a text

`Replace.all` replaces every occurrence of a part, from left to right and without overlap.
-/

namespace PracticeShell.Text.Replace

/-- Replaces the occurrences of `old`; `skip` characters belong to an occurrence already
replaced. -/
def go (old new : List Char) : (skip : Nat) → List Char → List Char
  | _, [] => []
  | skip + 1, _ :: rest => go old new skip rest
  | 0, c :: rest =>
    if old.isPrefixOf (c :: rest) then new ++ go old new (old.length - 1) rest
    else c :: go old new 0 rest

/-- A text with every occurrence of the non-empty text `old` replaced by `new`. -/
def all (old new text : String) : String :=
  String.ofList (go old.toList new.toList 0 text.toList)

/-- Whether a list of characters occurs in another. -/
def occursIn (part : List Char) : List Char → Bool
  | [] => part.isEmpty
  | c :: rest => part.isPrefixOf (c :: rest) || occursIn part rest

/-- Whether `part` occurs in a text. -/
def contains (text part : String) : Bool := occursIn part.toList text.toList

end PracticeShell.Text.Replace
