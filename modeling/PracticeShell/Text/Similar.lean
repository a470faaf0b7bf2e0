/-!
# Similar words

The likeness of two words is measured by the characters they share in order: the longest common run,
then the same for the parts before it and after it. `Similar.closest?` finds, among known words, the
one most like a given word.
-/

namespace PracticeShell.Text.Similar

/-- The length of the longest common beginning of two lists. -/
def commonStart : List Char → List Char → Nat
  | a :: as, b :: bs => if a = b then commonStart as bs + 1 else 0
  | _, _ => 0

/-- A common run: where it starts in each list, and its length. -/
structure Run where
  left : Nat
  right : Nat
  length : Nat
deriving DecidableEq, Repr

/-- The longer of two runs, the first if they are equally long. -/
def Run.max (r s : Run) : Run := if s.length > r.length then s else r

/-- The longest run that starts at the beginning of `a`, place `i`, and the first such in `b`. -/
def longestAt (i : Nat) (a : List Char) (best : Run) : (j : Nat) → List Char → Run
  | _, [] => best
  | j, b :: bs => longestAt i a (best.max ⟨i, j, commonStart a (b :: bs)⟩) (j + 1) bs

/-- The longest run common to two lists; the first in `a`, then the first in `b`, if several are
equally long. -/
def longest (b : List Char) (best : Run) : (i : Nat) → List Char → Run
  | _, [] => best
  | i, a :: as => longest b (longestAt i (a :: as) best 0 b) (i + 1) as

/-- The number of characters that two lists share in order; `fuel` bounds the number of runs. -/
def shared : (fuel : Nat) → List Char → List Char → Nat
  | 0, _, _ => 0
  | fuel + 1, a, b =>
    let run := longest b ⟨0, 0, 0⟩ 0 a
    if run.length = 0 then 0
    else run.length + shared fuel (a.take run.left) (b.take run.right) +
      shared fuel (a.drop (run.left + run.length)) (b.drop (run.right + run.length))

/-- A known word with its likeness to the word asked for: twice the number of shared characters, and
the number of characters of both. -/
structure Match where
  word : String
  twiceShared : Nat
  total : Nat
deriving Repr

/-- The likeness of two words. -/
def compare (known word : String) : Match :=
  let n := shared known.length known.toList word.toList
  ⟨known, 2 * n, known.length + word.length⟩

/-- Whether a known word is like enough to be offered: three quarters of the characters are
shared. -/
def Match.isClose (m : Match) : Bool := 3 * m.total ≤ 4 * m.twiceShared

/-- Whether a word is less like, or equally like and earlier in order, than another. -/
def Match.less (m n : Match) : Bool :=
  m.twiceShared * n.total < n.twiceShared * m.total ||
    (m.twiceShared * n.total == n.twiceShared * m.total && decide (m.word < n.word))

/-- The known word most like a given one, if any is like enough. -/
def closest? (known : List String) (word : String) : Option String :=
  let close := (known.map (compare · word)).filter Match.isClose
  let best := close.foldl (fun best m => match best with
    | none => some m
    | some b => if b.less m then some m else some b) none
  best.map (·.word)

end PracticeShell.Text.Similar
