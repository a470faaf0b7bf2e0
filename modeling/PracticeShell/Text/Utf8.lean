/-!
# UTF-8

Bytes are decoded by a machine that takes one byte at a time, so a text can be decoded in pieces.
`Utf8.State` says how many continuation bytes are owed and in which range the next one must lie.
`Utf8.step` takes a byte: a byte that cannot continue the sequence begun replaces that sequence by
one replacement character and is then read as a first byte. So each maximal run of bytes that
starts a valid sequence but does not complete it gives one replacement character. A surrogate is no
character: its first two bytes are replaced one by one, but not before the byte after them arrives.
-/

namespace PracticeShell.Text.Utf8

/-- The character that stands for bytes that are no text. -/
def replacement : Char := '\uFFFD'

/-- Where the decoder stands between two bytes. -/
inductive State
  /-- Between characters. -/
  | start
  /-- Inside a character: `owed + 1` bytes are missing, the next between `low` and `high`, and
  `code` is the value of the bits read. -/
  | inside (owed : Nat) (low high : Nat) (code : Nat)
  /-- After the first two bytes of a surrogate. -/
  | surrogate
deriving DecidableEq, Repr

/-- What a first byte gives: a character, the inside of one, or a replacement. -/
def first (b : Nat) : List Char × State :=
  if b < 0x80 then ([Char.ofNat b], .start)
  else if 0xC2 ≤ b ∧ b ≤ 0xDF then ([], .inside 0 0x80 0xBF (b - 0xC0))
  else if b = 0xE0 then ([], .inside 1 0xA0 0xBF 0)
  else if b = 0xED then ([], .inside 1 0x80 0x9F 0xD)
  else if 0xE1 ≤ b ∧ b ≤ 0xEF then ([], .inside 1 0x80 0xBF (b - 0xE0))
  else if b = 0xF0 then ([], .inside 2 0x90 0xBF 0)
  else if 0xF1 ≤ b ∧ b ≤ 0xF3 then ([], .inside 2 0x80 0xBF (b - 0xF0))
  else if b = 0xF4 then ([], .inside 2 0x80 0x8F 4)
  else ([replacement], .start)

/-- Takes one byte: the characters that it completes and the state after it. -/
def step (s : State) (byte : UInt8) : List Char × State :=
  let b := byte.toNat
  match s with
  | .start => first b
  | .inside owed low high code =>
    if low ≤ b ∧ b ≤ high then
      let code := code * 64 + (b - 0x80)
      match owed with
      | 0 => ([Char.ofNat code], .start)
      | owed + 1 => ([], .inside owed 0x80 0xBF code)
    else if high = 0x9F ∧ high < b ∧ b ≤ 0xBF then ([], .surrogate)
    else
      let (cs, s) := first b
      (replacement :: cs, s)
  | .surrogate =>
    let (cs, s) := first b
    (replacement :: replacement :: cs, s)

/-- Takes bytes one after the other: the characters completed and the state after them. -/
def run (s : State) : List UInt8 → List Char × State
  | [] => ([], s)
  | b :: rest =>
    let (cs, s) := step s b
    let (ds, t) := run s rest
    (cs ++ ds, t)

/-- What the end of the bytes gives: a sequence that is not complete is replaced. -/
def finish : State → List Char
  | .start => []
  | .inside .. => [replacement]
  | .surrogate => [replacement, replacement]

/-- The characters of a list of bytes. -/
def decodeList (bytes : List UInt8) : List Char :=
  let (cs, s) := run .start bytes
  cs ++ finish s

/-- The text that bytes spell, with replacement characters where they spell none. -/
def decode (bytes : ByteArray) : String :=
  match String.fromUTF8? bytes with
  | some text => text
  | none => String.ofList (decodeList bytes.toList)

/-- Whether bytes are text, with nothing to be replaced. -/
def isValid (bytes : ByteArray) : Bool := (String.fromUTF8? bytes).isSome

/-- The bytes of a text. -/
def encode (text : String) : ByteArray := text.toUTF8

end PracticeShell.Text.Utf8
