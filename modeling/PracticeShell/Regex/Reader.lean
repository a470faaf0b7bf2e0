import PracticeShell.Regex.Basic

/-!
# Reading regular expressions

`Regex.parse` reads the usual notation: literal characters, `.`, sets in brackets, classes and
escapes after a backslash, anchors, groups with the extensions that start with `(?`, alternatives,
and repetition, which is lazy before `?` and possessive before `+`. Flags can be set for the whole
expression at its start, or for a group. What is no expression is refused with a cause.
-/

namespace PracticeShell.Regex

/-- Why a text is refused as a regular expression. -/
inductive ReadError
  /-- It is not well formed. -/
  | malformed
  /-- A number of repetitions is too large. -/
  | tooManyRepetitions
  /-- The flags for ASCII and for Unicode are both set. -/
  | incompatibleFlags
deriving DecidableEq, Repr

/-- What the flags of an expression say. -/
structure Flags where
  ignoreCase : Bool := false
  multiline : Bool := false
  dotAll : Bool := false
  verbose : Bool := false
  ascii : Bool := false
  unicode : Bool := false
deriving DecidableEq, Repr

namespace Flags

/-- Sets or clears the flag with a letter. -/
def set (value : Bool) (letter : Char) (f : Flags) : Flags :=
  match letter with
  | 'i' => { f with ignoreCase := value }
  | 'm' => { f with multiline := value }
  | 's' => { f with dotAll := value }
  | 'x' => { f with verbose := value }
  | 'a' => { f with ascii := value }
  | 'u' => { f with unicode := value }
  | _ => f

/-- Sets and clears flags for a group. A flag for ASCII or Unicode takes the place of the other. -/
def forGroup (added removed : List Char) (f : Flags) : Flags :=
  let f := if added.any (fun c => c == 'a' || c == 'u')
    then { f with ascii := false, unicode := false } else f
  removed.foldl (fun f c => f.set false c) (added.foldl (fun f c => f.set true c) f)

end Flags

namespace Reader

/-- A character as it stands or after a backslash. -/
inductive Token
  | plain (c : Char)
  | escaped (c : Char)
deriving DecidableEq, Repr

namespace Token

/-- The characters of a token. -/
def chars : Token → List Char
  | plain c => [c]
  | escaped c => ['\\', c]

end Token

/-- How far reading has come. -/
structure Progress where
  /-- The characters not yet read. -/
  rest : List Char
  /-- The flags for the whole expression. -/
  flags : Flags
  /-- The number of captures opened, plus one. -/
  groups : Nat
  /-- The widths of the captures that are closed. -/
  widths : List (Nat × Width)
  /-- The captures that have names. -/
  names : List (String × Nat)
  /-- The number of captures when the outermost look behind was opened. -/
  behind : Option Nat
  /-- The captures that conditions ask for. -/
  asked : List Nat

/-- Reading with a state and errors. -/
abbrev Read (α : Type) := EStateM ReadError Progress α

/-- Refuses the expression. -/
def refuse {α : Type} : Read α := throw .malformed

/-- The next token, which is not taken. -/
def peek : Read (Option Token) := do
  match (← get).rest with
  | [] => return none
  | ['\\'] => refuse
  | '\\' :: c :: _ => return some (.escaped c)
  | c :: _ => return some (.plain c)

/-- Drops characters. -/
def skip (count : Nat) : Read Unit := modify fun p => { p with rest := p.rest.drop count }

/-- The next token, which is taken. -/
def take : Read (Option Token) := do
  let t ← peek
  match t with
  | some t => skip t.chars.length
  | none => pure ()
  return t

/-- The next token, which must exist, is taken. -/
def take! : Read Token := do
  match ← take with
  | some t => return t
  | none => refuse

/-- Takes the next token if it is the given character. -/
def takeIf (c : Char) : Read Bool := do
  if (← peek) = some (.plain c) then
    skip 1
    return true
  else return false

/-- Takes the longest run of at most `count` characters that pass a test. -/
def takeRun (test : Char → Bool) : (count : Nat) → Read (List Char)
  | 0 => return []
  | count + 1 => do
    match ← peek with
    | some (.plain c) =>
      if test c then
        skip 1
        return c :: (← takeRun test count)
      else return []
    | _ => return []

/-- Takes the tokens up to a closing character, which is taken too. There must be at least one. -/
def takeUntil (closing : Char) (done : List Char) : (fuel : Nat) → Read String
  | 0 => refuse
  | fuel + 1 => do
    let t ← take!
    if t = .plain closing then
      if done.isEmpty then refuse else return String.ofList done
    else takeUntil closing (done ++ t.chars) fuel

/-- Whether a character is an octal digit. -/
def isOctal (c : Char) : Bool := '0' ≤ c && c ≤ '7'

/-- Whether a character is an ASCII digit. -/
def isDigit (c : Char) : Bool := Text.Letter.isAsciiDigit c

/-- The value of a hexadecimal digit. -/
def hexValue? (c : Char) : Option Nat :=
  if '0' ≤ c ∧ c ≤ '9' then some (c.toNat - 48)
  else if 'a' ≤ c ∧ c ≤ 'f' then some (c.toNat - 87)
  else if 'A' ≤ c ∧ c ≤ 'F' then some (c.toNat - 55)
  else none

/-- The number written by digits in a base. -/
def number (base : Nat) (ds : List Char) : Nat :=
  ds.foldl (fun n d => base * n + (hexValue? d).getD 0) 0

/-- A code point written with exactly `count` hexadecimal digits. -/
def hexCode (count : Nat) : Read Nat := do
  let ds ← takeRun (fun c => (hexValue? c).isSome) count
  if ds.length = count && number 16 ds ≤ 0x10FFFF then return number 16 ds else refuse

/-- A member of a set: one code point, or a class. -/
def literal (code : Nat) : Member := .interval code code

/-- The code point of an escape that means the same everywhere. -/
def control? (c : Char) : Option Nat :=
  match c with
  | 'a' => some 7
  | 'f' => some 12
  | 'n' => some 10
  | 'r' => some 13
  | 't' => some 9
  | 'v' => some 11
  | '\\' => some 92
  | _ => none

/-- The class of an escape that stands for one. -/
def category? (c : Char) : Option Member :=
  match c with
  | 'd' => some (.category .digit false)
  | 'D' => some (.category .digit true)
  | 's' => some (.category .blank false)
  | 'S' => some (.category .blank true)
  | 'w' => some (.category .word false)
  | 'W' => some (.category .word true)
  | _ => none

/-- What an escape means that stands for one character by its number, or for itself. -/
def codeEscape (c : Char) : Read Nat := do
  if c = 'x' then hexCode 2
  else if c = 'u' then hexCode 4
  else if c = 'U' then hexCode 8
  else if Text.Letter.isAsciiLetter c || isDigit c then refuse
  else return c.toNat

/-- An escape inside brackets. -/
def setEscape (c : Char) : Read Member := do
  if c = 'b' then return literal 8
  match control? c, category? c with
  | some code, _ => return literal code
  | _, some k => return k
  | none, none =>
    if isOctal c then
      let ds ← takeRun isOctal 2
      let code := number 8 (c :: ds)
      if code > 0o377 then refuse else return literal code
    else return literal (← codeEscape c)

/-- The member that a token inside brackets stands for. -/
def setMember : Token → Read Member
  | .plain c => return literal c.toNat
  | .escaped c => setEscape c

/-- The members of a set up to the closing bracket. -/
def setMembers (done : List Member) : (fuel : Nat) → Read (List Member)
  | 0 => refuse
  | fuel + 1 => do
    let t ← take!
    if t = .plain ']' && !done.isEmpty then return done.reverse
    let first ← setMember t
    if ← takeIf '-' then
      let t ← take!
      if t = .plain ']' then return (literal 45 :: first :: done).reverse
      match first, ← setMember t with
      | .interval low _, .interval high _ =>
        if high < low then refuse else setMembers (.interval low high :: done) fuel
      | _, _ => refuse
    else setMembers (first :: done) fuel

/-- The test for one character out of a set. -/
def oneOf (flags : Flags) (negated : Bool) (members : List Member) : Regex :=
  .one ⟨members, negated, flags.ignoreCase, flags.ascii⟩

/-- Whether a capture is closed. -/
def isClosed (index : Nat) : Read Bool := do return ((← get).widths.lookup index).isSome

/-- Refuses a reference, inside a look behind, to a capture that is open or belongs to it. -/
def checkBehind (index : Nat) : Read Unit := do
  match (← get).behind with
  | none => return ()
  | some groups =>
    if !(← isClosed index) then refuse
    if groups ≤ index then refuse

/-- A reference to a capture. -/
def reference (flags : Flags) (index : Nat) : Read Regex := do
  if !(← isClosed index) then refuse
  checkBehind index
  return .backref index flags.ignoreCase flags.ascii

/-- An escape that starts with a digit other than zero: three octal digits are a code point, all
else is a reference. -/
def digitEscape (flags : Flags) (c : Char) : Read Regex := do
  let second ← takeRun isDigit 1
  match second with
  | [] => reference flags (number 10 [c])
  | d :: _ =>
    if isOctal c && isOctal d then
      match ← takeRun isOctal 1 with
      | [] => reference flags (number 10 [c, d])
      | e :: _ =>
        let code := number 8 [c, d, e]
        if code > 0o377 then refuse else return oneOf flags false [literal code]
    else reference flags (number 10 [c, d])

/-- What an item is, as far as repetition is concerned. -/
inductive ItemKind
  | plain
  | anchor
  | repeated
deriving DecidableEq, Repr

/-- A part of a sequence. -/
structure Item where
  body : Regex
  kind : ItemKind

/-- An escape outside of brackets. -/
def escape (flags : Flags) (c : Char) : Read Item := do
  match c with
  | 'A' => return ⟨.anchor .textStart, .anchor⟩
  | 'Z' => return ⟨.anchor .textEnd, .anchor⟩
  | 'b' => return ⟨.anchor (.boundary flags.ascii), .anchor⟩
  | 'B' => return ⟨.anchor (.notBoundary flags.ascii), .anchor⟩
  | '0' => do
    let ds ← takeRun isOctal 2
    return ⟨oneOf flags false [literal (number 8 ds)], .plain⟩
  | _ =>
    match category? c, control? c with
    | some k, _ => return ⟨oneOf flags false [k], .plain⟩
    | _, some code => return ⟨oneOf flags false [literal code], .plain⟩
    | none, none =>
      if isDigit c then return ⟨← digitEscape flags c, .plain⟩
      else return ⟨oneOf flags false [literal (← codeEscape c)], .plain⟩

/-- Items as one expression; `items` holds them last first. -/
def ofItems (items : List Item) : Regex :=
  match items with
  | [] => .empty
  | last :: before => before.foldl (fun r item => .seq item.body r) last.body

/-- The bound that numbers of repetitions stay below. -/
def repetitionBound : Nat := 4294967295

/-- A number of repetitions, if its digits are there. -/
def repetitions (ds : List Char) : Read (Option Nat) := do
  if ds.isEmpty then return none
  let n := number 10 ds
  if n ≥ repetitionBound || ds.length > Text.Digit.maxDigits then throw .tooManyRepetitions
  return some n

/-- The least and the most repetitions after an opening brace, or nothing if the brace stands for
itself. -/
def braces : Read (Option (Nat × Option Nat)) := do
  let start ← get
  if (← peek) = some (.plain '\x7d') then return none
  let low ← takeRun isDigit start.rest.length
  let (high, exact) ← if ← takeIf ',' then
      do pure (← takeRun isDigit start.rest.length, false)
    else pure (low, true)
  if !(← takeIf '\x7d') then
    set start
    return none
  let least := (← repetitions low).getD 0
  let most ← if exact && low.isEmpty then pure none else repetitions high
  match most with
  | some m => if m < least then refuse else return some (least, some m)
  | none => return some (least, none)

/-- Repeats the last item. -/
def repeatLast (least : Nat) (most : Option Nat) (items : List Item) : Read (List Item) := do
  match items with
  | [] => refuse
  | last :: before =>
    if last.kind ≠ .plain then refuse
    let isLazy ← takeIf '?'
    let isPossessive ← if isLazy then pure false else takeIf '+'
    let mode : Mode := if isLazy then .lazy else if isPossessive then .possessive else .greedy
    return ⟨.rep least most mode last.body, .repeated⟩ :: before

/-- The letters of flags. -/
def isFlag (c : Char) : Bool := ['i', 'L', 'm', 's', 'x', 'a', 't', 'u'].contains c

/-- Flag letters up to a character that is none, which is taken and returned. -/
def flagLetters (done : List Char) : (fuel : Nat) → Read (List Char × Char)
  | 0 => refuse
  | fuel + 1 => do
    match ← take! with
    | .plain c => if isFlag c then flagLetters (c :: done) fuel else return (done, c)
    | .escaped _ => refuse

/-- What a group of flags does. -/
inductive FlagGroup
  /-- Sets flags for the whole expression. -/
  | whole (added : List Char)
  /-- Sets and clears flags for what follows in the group. -/
  | scoped (added removed : List Char)

/-- Flags after `(?`, the first character being taken already. -/
def flagGroup (c : Char) : Read FlagGroup := do
  let fuel := (← get).rest.length + 1
  let (added, terminator) ← if c = '-' then pure ([], '-') else flagLetters [c] fuel
  if added.contains 'L' then refuse
  if added.contains 'a' && added.contains 'u' then refuse
  if terminator = ')' then return .whole added
  if added.contains 't' then refuse
  if terminator = ':' then return .scoped added []
  if terminator ≠ '-' then refuse
  let (removed, terminator) ← flagLetters [] fuel
  if removed.isEmpty || terminator ≠ ':' then refuse
  if removed.any (fun c => ['a', 'u', 'L', 't'].contains c) then refuse
  if removed.any added.contains then refuse
  return .scoped added removed

/-- Whether a text can be the name of a capture. -/
def isName (name : String) : Bool :=
  match name.toList with
  | [] => false
  | c :: rest => (Text.Letter.isLetter c || c == '_') && rest.all Text.Letter.isWord

/-- The capture that a condition asks for, by name or by number. -/
def askedCapture (name : String) : Read Nat := do
  if isName name then
    match (← get).names.lookup name with
    | some index => return index
    | none => refuse
  else
    match Text.Digit.readInt name with
    | .ok n =>
      if n ≤ 0 then refuse
      modify fun p => { p with asked := n.toNat :: p.asked }
      return n.toNat
    | .error _ => refuse

/-- Opens a capture. -/
def openCapture (name : Option String) : Read Nat := do
  let p ← get
  match name with
  | some name => if (p.names.lookup name).isSome then refuse
  | none => pure ()
  set { p with
    groups := p.groups + 1
    names := match name with
      | some name => (name, p.groups) :: p.names
      | none => p.names }
  return p.groups

/-- Closes a capture. -/
def closeCapture (index : Nat) (body : Regex) : Read Unit :=
  modify fun p => { p with widths := (index, body.width p.widths) :: p.widths }

/-- Takes the parenthesis that closes a group. -/
def close : Read Unit := do if !(← takeIf ')') then refuse

/-- Skips a comment up to the parenthesis that closes it. -/
def skipComment : (fuel : Nat) → Read Unit
  | 0 => refuse
  | fuel + 1 => do
    if (← take!) = .plain ')' then return () else skipComment fuel

/-- Skips a line in a verbose expression. -/
def skipLine : (fuel : Nat) → Read Unit
  | 0 => return ()
  | fuel + 1 => do
    match ← take with
    | none => return ()
    | some t => if t = .plain '\n' then return () else skipLine fuel

/-- What a group adds to a sequence. -/
inductive GroupPart
  /-- An expression. -/
  | item (body : Regex)
  /-- Nothing. -/
  | nothing
  /-- Flags for the whole expression. -/
  | flags (added : List Char)

/-- Whether a blank is passed over in a verbose expression. -/
def isIgnored (c : Char) : Bool := c == ' ' || (9 ≤ c.toNat && c.toNat ≤ 13)

mutual

/-- Alternatives. `top` says that they are those of the whole expression, `first` that none of them
has been read. -/
def alternatives (flags : Flags) (top first : Bool) : (fuel : Nat) → Read Regex
  | 0 => refuse
  | fuel + 1 => do
    let a ← sequence flags (top && first) [] fuel
    if ← takeIf '|' then
      let whole := (← get).flags
      let flags := if top then whole else flags
      return .alt a (← alternatives flags top false fuel)
    else return a

/-- A sequence of items after those in `items`. `start` says that flags for the whole expression may
stand here, before any item. -/
def sequence (flags : Flags) (start : Bool) (items : List Item) : (fuel : Nat) → Read Regex
  | 0 => refuse
  | fuel + 1 => do
    match ← peek with
    | none => return ofItems items
    | some (.escaped c) =>
      skip 2
      let item ← escape flags c
      sequence flags start (item :: items) fuel
    | some (.plain c) =>
      if c = '|' ∨ c = ')' then return ofItems items
      skip 1
      let add := fun (body : Regex) (kind : ItemKind) =>
        sequence flags start (⟨body, kind⟩ :: items) fuel
      if flags.verbose && isIgnored c then sequence flags start items fuel
      else if flags.verbose && c = '#' then
        skipLine (← get).rest.length
        sequence flags start items fuel
      else if c = '[' then
        let negated ← takeIf '^'
        let members ← setMembers [] ((← get).rest.length + 1)
        add (oneOf flags negated members) .plain
      else if c = '.' then
        add (.one (if flags.dotAll then .anything else .notLineFeed)) .plain
      else if c = '^' then
        add (.anchor (if flags.multiline then .lineStart else .textStart)) .anchor
      else if c = '$' then
        add (.anchor (if flags.multiline then .lineEnd else .lastLineEnd)) .anchor
      else if c = '*' then
        sequence flags start (← repeatLast 0 none items) fuel
      else if c = '+' then
        sequence flags start (← repeatLast 1 none items) fuel
      else if c = '?' then
        sequence flags start (← repeatLast 0 (some 1) items) fuel
      else if c = '\x7b' then
        match ← braces with
        | none => add (oneOf flags false [literal c.toNat]) .plain
        | some (least, most) =>
          sequence flags start (← repeatLast least most items) fuel
      else if c = '(' then
        match ← group flags fuel with
        | .item body => add body .plain
        | .nothing => sequence flags start items fuel
        | .flags added =>
          if !start || !items.isEmpty then refuse
          modify fun p => { p with flags := added.foldl (fun f c => f.set true c) p.flags }
          sequence (← get).flags start items fuel
      else add (oneOf flags false [literal c.toNat]) .plain

/-- A group after its opening parenthesis. -/
def group (flags : Flags) : (fuel : Nat) → Read GroupPart
  | 0 => refuse
  | fuel + 1 => do
    if !(← takeIf '?') then capture flags none fuel
    else
      let count := (← get).rest.length + 1
      match ← take! with
      | .escaped _ => refuse
      | .plain c =>
        if c = 'P' then
          if ← takeIf '<' then
            let name ← takeUntil '>' [] count
            if !isName name then refuse
            capture flags (some name) fuel
          else if ← takeIf '=' then
            let name ← takeUntil ')' [] count
            match (← get).names.lookup name with
            | some index => return .item (← reference flags index)
            | none => refuse
          else refuse
        else if c = ':' then
          let body ← alternatives flags false true fuel
          close
          return .item body
        else if c = '#' then
          skipComment count
          return .nothing
        else if c = '=' ∨ c = '!' then
          let body ← alternatives flags false true fuel
          close
          return .item (.ahead (c == '!') body)
        else if c = '<' then
          match ← take! with
          | .plain d =>
            if d ≠ '=' ∧ d ≠ '!' then refuse
            let outer := (← get).behind
            modify fun p => { p with behind := some (outer.getD p.groups) }
            let body ← alternatives flags false true fuel
            modify fun p => { p with behind := outer }
            close
            let width := body.width (← get).widths
            if width.most ≠ some width.least then refuse
            return .item (.behind width.least (d == '!') body)
          | .escaped _ => refuse
        else if c = '(' then
          let index ← askedCapture (← takeUntil ')' [] count)
          checkBehind index
          let present ← sequence flags false [] fuel
          let absent ← if ← takeIf '|' then sequence flags false [] fuel else pure .empty
          close
          return .item (.conditional index present absent)
        else if c = '>' then
          let body ← alternatives flags false true fuel
          close
          return .item (.atomic body)
        else if isFlag c ∨ c = '-' then
          match ← flagGroup c with
          | .whole added => return .flags added
          | .scoped added removed =>
            let body ← alternatives (flags.forGroup added removed) false true fuel
            close
            return .item body
        else refuse

/-- A capture after its opening parenthesis. -/
def capture (flags : Flags) (name : Option String) : (fuel : Nat) → Read GroupPart
  | 0 => refuse
  | fuel + 1 => do
    let index ← openCapture name
    let body ← alternatives flags false true fuel
    close
    closeCapture index body
    return .item (.capture index body)

end

/-- A whole expression. -/
def whole (flags : Flags) (fuel : Nat) : Read Regex := do
  let r ← alternatives flags true true fuel
  let p ← get
  if p.flags.ascii && p.flags.unicode then throw .incompatibleFlags
  if !p.rest.isEmpty then refuse
  if p.asked.any (p.groups ≤ ·) then refuse
  return r

end Reader

/-- Reads a regular expression with some flags set. -/
def parse (flags : Flags) (pattern : String) : Except ReadError Regex :=
  let start : Reader.Progress := ⟨pattern.toList, flags, 1, [], [], none, []⟩
  match Reader.whole flags (4 * pattern.length + 4) start with
  | .ok r _ => .ok r
  | .error e _ => .error e

end PracticeShell.Regex
