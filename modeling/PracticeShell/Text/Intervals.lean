/-!
# Classes of characters given by intervals

A class of characters is stored as the increasing list of the code points at which membership
changes: the class starts at the first bound, stops before the second, starts again at the third
and so on. `Intervals.contains` reads membership off the number of bounds passed.
-/

namespace PracticeShell.Text

/-- A class of code points, as the code points where membership changes, in increasing order. -/
structure Intervals where
  bounds : Array Nat

namespace Intervals

/-- A code point belongs to the class when an odd number of bounds lie at or below it. -/
def contains (s : Intervals) (code : Nat) : Bool :=
  s.bounds.foldl (fun inside bound => if bound ≤ code then !inside else inside) false

/-- The bound most recently passed at a code point: the start of the interval that holds it, for a
member of the class. -/
def start? (s : Intervals) (code : Nat) : Option Nat :=
  s.bounds.foldl (fun last bound => if bound ≤ code then some bound else last) none

end Intervals

end PracticeShell.Text
