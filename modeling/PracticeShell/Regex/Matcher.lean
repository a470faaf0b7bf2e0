import PracticeShell.Regex.Basic

/-!
# Matching regular expressions

`Regex.run` tries to match an expression from a state and passes each way of matching, best first,
to a continuation until one is accepted. Repetition is bounded by the characters that are left: an
iteration beyond the least number that takes nothing is not followed by another. `Regex.search?`
finds the first place in a text where an expression matches.
-/

namespace PracticeShell.Regex

/-- How far a match has come: the place in the text and the places of the captures, newest first. -/
structure State where
  place : Nat
  captures : List (Nat × Nat × Nat)
deriving Repr

namespace State

/-- The ends of a capture. -/
def capture? (st : State) (index : Nat) : Option (Nat × Nat) := st.captures.lookup index

end State

/-- Whether the character at a place, if there is one, belongs to a word. -/
def wordAt (text : Array Char) (ascii : Bool) (place : Nat) : Bool :=
  (text[place]?).any (Category.word.contains ascii)

/-- Whether a boundary of a word is at a place. -/
def atBoundary (text : Array Char) (ascii : Bool) (place : Nat) : Bool :=
  (place != 0 && wordAt text ascii (place - 1)) != wordAt text ascii place

/-- Whether a place is one that an anchor stands for. -/
def Anchor.holds (text : Array Char) (place : Nat) : Anchor → Bool
  | textStart => place == 0
  | lineStart => place == 0 || text[place - 1]? == some '\n'
  | textEnd => place == text.size
  | lastLineEnd =>
    place == text.size || (place + 1 == text.size && text[place]? == some '\n')
  | lineEnd => place == text.size || text[place]? == some '\n'
  | boundary ascii => !text.isEmpty && atBoundary text ascii place
  | notBoundary ascii => !text.isEmpty && !atBoundary text ascii place

/-- A character in lower case; with `ascii` only ASCII letters have case. -/
def lowered (ascii : Bool) (c : Char) : Char :=
  if ascii then c.toLower else Text.Case.lowerChar c

/-- Whether two characters count as equal. -/
def sameChar (ignoreCase ascii : Bool) (c d : Char) : Bool :=
  c == d || (ignoreCase && lowered ascii c == lowered ascii d)

/-- Whether the `count` characters from one place equal those from another. -/
def sameText (text : Array Char) (ignoreCase ascii : Bool) (i j : Nat) : (count : Nat) → Bool
  | 0 => true
  | count + 1 =>
    match text[i]?, text[j]? with
    | some c, some d =>
      sameChar ignoreCase ascii c d && sameText text ignoreCase ascii (i + 1) (j + 1) count
    | _, _ => false

/-- The number of characters from a place, at most `fuel`, that pass a test. -/
def runLength (text : Array Char) (t : CharTest) (place : Nat) : (fuel : Nat) → Nat
  | 0 => 0
  | fuel + 1 =>
    match text[place]? with
    | some c => if t.passes c then runLength text t (place + 1) fuel + 1 else 0
    | none => 0

/-- Tries a continuation after `least + extra`, …, `least` characters. -/
def tryDown (k : State → Option State) (st : State) (least : Nat) : (extra : Nat) → Option State
  | 0 => k { st with place := st.place + least }
  | extra + 1 =>
    match k { st with place := st.place + least + extra + 1 } with
    | some r => some r
    | none => tryDown k st least extra

/-- Tries a continuation after `taken` characters, then one more, up to `extra` more. -/
def tryUp (k : State → Option State) (st : State) : (taken extra : Nat) → Option State
  | taken, 0 => k { st with place := st.place + taken }
  | taken, extra + 1 =>
    match k { st with place := st.place + taken } with
    | some r => some r
    | none => tryUp k st (taken + 1) extra

/-- Whether another iteration is allowed after `count` of them. -/
def mayRepeat (most : Option Nat) (count : Nat) : Bool :=
  match most with
  | some m => count < m
  | none => true

/-- Repeats a body after `count` iterations. `last` is the place where the last iteration beyond the
least number started: no iteration starts there again. -/
def iterate (body : State → (State → Option State) → Option State) (least : Nat)
    (most : Option Nat) (isLazy : Bool) (k : State → Option State) :
    (fuel count : Nat) → (last : Option Nat) → State → Option State
  | 0, _, _, st => k st
  | fuel + 1, count, last, st =>
    if count < least then
      body st (iterate body least most isLazy k fuel (count + 1) last)
    else
      let again := fun (_ : Unit) =>
        if mayRepeat most count && last != some st.place then
          body st (iterate body least most isLazy k fuel (count + 1) (some st.place))
        else none
      if isLazy then
        match k st with
        | some r => some r
        | none => again ()
      else
        match again () with
        | some r => some r
        | none => k st

/-- Repeats a body as often as it matches, taking each time its first way of matching only. -/
def exhaust (body : State → (State → Option State) → Option State) (least : Nat)
    (most : Option Nat) : (fuel count : Nat) → (last : Option Nat) → State → Option State
  | 0, _, _, st => some st
  | fuel + 1, count, last, st =>
    if count < least then
      match body st some with
      | some st => exhaust body least most fuel (count + 1) last st
      | none => none
    else if mayRepeat most count && last != some st.place then
      match body st some with
      | some next => exhaust body least most fuel (count + 1) (some st.place) next
      | none => some st
    else some st

/-- Matches an expression and goes on with a continuation. -/
def run (text : Array Char) : Regex → State → (State → Option State) → Option State
  | .empty, st, k => k st
  | .one t, st, k =>
    match text[st.place]? with
    | some c => if t.passes c then k { st with place := st.place + 1 } else none
    | none => none
  | .anchor a, st, k => if a.holds text st.place then k st else none
  | .seq a b, st, k => run text a st fun st => run text b st k
  | .alt a b, st, k =>
    match run text a st k with
    | some r => some r
    | none => run text b st k
  | .capture n r, st, k =>
    run text r st fun next =>
      k { next with captures := (n, st.place, next.place) :: next.captures }
  | .backref n ignoreCase ascii, st, k =>
    match st.capture? n with
    | none => none
    | some (i, j) =>
      if sameText text ignoreCase ascii i st.place (j - i) then
        k { st with place := st.place + (j - i) }
      else none
  | .rep least most mode r, st, k =>
    let left := text.size - st.place
    match mode, r with
    | .possessive, r =>
      match exhaust (run text r) least most (left + least + 2) 0 none st with
      | some st => k st
      | none => none
    | .greedy, .one t =>
      let n := runLength text t st.place (min left (most.getD left))
      if n < least then none else tryDown k st least (n - least)
    | .lazy, .one t =>
      let n := runLength text t st.place (min left (most.getD left))
      if n < least then none else tryUp k st least (n - least)
    | .greedy, r => iterate (run text r) least most false k (left + least + 2) 0 none st
    | .lazy, r => iterate (run text r) least most true k (left + least + 2) 0 none st
  | .ahead negated r, st, k =>
    match run text r st some, negated with
    | some next, false => k { next with place := st.place }
    | none, true => k st
    | _, _ => none
  | .behind width negated r, st, k =>
    let found := if st.place < width then none
      else run text r { st with place := st.place - width } some
    match found, negated with
    | some next, false => k { next with place := st.place }
    | none, true => k st
    | _, _ => none
  | .atomic r, st, k =>
    match run text r st some with
    | some next => k next
    | none => none
  | .conditional n a b, st, k =>
    if (st.capture? n).isSome then run text a st k else run text b st k

/-- The first match that starts at a place or after it; `fuel` bounds the number of places tried. -/
def searchFrom (text : Array Char) (r : Regex) : (fuel start : Nat) → Option (Nat × State)
  | 0, _ => none
  | fuel + 1, start =>
    match run text r ⟨start, []⟩ some with
    | some st => some (start, st)
    | none => searchFrom text r fuel (start + 1)

/-- The first match in a text: where it starts and the state it ends in. -/
def search? (r : Regex) (text : String) : Option (Nat × State) :=
  let cs := text.toList.toArray
  searchFrom cs r (cs.size + 1) 0

/-- Whether an expression matches somewhere in a text. -/
def occursIn (r : Regex) (text : String) : Bool := (r.search? text).isSome

end PracticeShell.Regex
