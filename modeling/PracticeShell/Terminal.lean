import PracticeShell.Text.Letter
import PracticeShell.Text.Replace
import PracticeShell.Text.Utf8

/-!
# Terminals

A `Terminal` reads lines from keys that arrive as bytes, a chunk at a time, and echoes what is
typed. Each key is one `Editor.step`: keys are put into the line, rub out its last character, end
it, abandon it, or close the terminal; escape sequences of other keys are passed over. A masked line
is echoed by stars. A line feed right after a carriage return is dropped if it has arrived by then.
-/

namespace PracticeShell

namespace Editor

/-- What a line editor is in the middle of. -/
inductive Place
  | line
  /-- After the escape character. -/
  | escape
  /-- Inside an escape sequence. -/
  | sequence
deriving DecidableEq, Repr

/-- A line that is being typed, last character first. -/
structure State where
  place : Place
  typed : List Char
deriving DecidableEq, Repr

/-- A line on which nothing has been typed. -/
def State.empty : State := ⟨.line, []⟩

/-- What a key does, with what is echoed. -/
inductive Effect
  /-- Typing goes on. -/
  | goOn (s : State) (echo : String)
  /-- The line is ended. -/
  | endLine (line echo : String)
  /-- The terminal is closed. -/
  | close
deriving DecidableEq, Repr

/-- Whether a key rubs out the last character. -/
def isRubOut (c : Char) : Bool := c == '\x7f' || c == '\x08'

/-- What a key does to a line outside of escape sequences. -/
def lineStep (masked : Bool) (typed : List Char) (c : Char) : Effect :=
  if c = '\r' ∨ c = '\n' then .endLine (String.ofList typed.reverse) "\n"
  else if c = '\x03' then .endLine "" "^C\n"
  else if c = '\x04' then if typed.isEmpty then .close else .goOn ⟨.line, typed⟩ ""
  else if isRubOut c then
    match typed with
    | [] => .goOn ⟨.line, []⟩ ""
    | _ :: rest => .goOn ⟨.line, rest⟩ "\x08 \x08"
  else if c = '\x1b' then .goOn ⟨.escape, typed⟩ ""
  else if c < ' ' ∧ c ≠ '\t' then .goOn ⟨.line, typed⟩ ""
  else .goOn ⟨.line, c :: typed⟩ (if masked then "*" else c.toString)

/-- What a key does. A sequence begins with a bracket or with `O` and ends with a letter or a
tilde. -/
def step (masked : Bool) (s : State) (c : Char) : Effect :=
  match s.place with
  | .line => lineStep masked s.typed c
  | .escape =>
    .goOn ⟨if c = '[' ∨ c = 'O' then .sequence else .line, s.typed⟩ ""
  | .sequence =>
    .goOn ⟨if Text.Letter.isLetter c ∨ c = '~' then .line else .sequence, s.typed⟩ ""

end Editor

/-- What a terminal has received and not used, the state of its decoder, and the chunks that are
still to come. An empty chunk stands for the end of what is received. -/
structure Terminal where
  decoder : Text.Utf8.State
  arrived : List Char
  chunks : List (List UInt8)
deriving DecidableEq, Repr

namespace Terminal

/-- A terminal that nothing has arrived at. -/
def start (chunks : List (List UInt8)) : Terminal := ⟨.start, [], chunks⟩

/-- The form in which a text is sent: each line feed has a carriage return before it. -/
def wire (text : String) : String :=
  Text.Replace.all "\n" "\r\n" (Text.Replace.all "\r\n" "\n" text)

/-- How a run of keys ends: still typing, or with the line ended or the terminal closed and some
keys left. -/
inductive Progress
  | typing (s : Editor.State) (echo : String)
  | ended (line : Option String) (echo : String) (rest : List Char)

/-- The keys after the end of a line: a line feed that belongs to it is dropped. -/
def afterLine (last : Char) (rest : List Char) : List Char :=
  match last, rest with
  | '\r', '\n' :: rest => rest
  | _, rest => rest

/-- Takes keys until the line is ended or the terminal is closed. -/
def typeKeys (masked : Bool) (s : Editor.State) (echo : String) : List Char → Progress
  | [] => .typing s echo
  | c :: rest =>
    match Editor.step masked s c with
    | .goOn s more => typeKeys masked s (echo ++ wire more) rest
    | .endLine line more => .ended (some line) (echo ++ wire more) (afterLine c rest)
    | .close => .ended none echo rest

/-- The outcome of reading a line: the line, none if the terminal was closed, what was sent, and the
terminal after it. -/
structure Reading where
  line : Option String
  sent : String
  terminal : Terminal

/-- Goes on reading a line with what is still to come. -/
def receive (masked : Bool) (decoder : Text.Utf8.State) (s : Editor.State) (sent : String) :
    List (List UInt8) → Reading
  | [] => ⟨none, sent, ⟨decoder, [], []⟩⟩
  | chunk :: chunks =>
    if chunk.isEmpty then ⟨none, sent, ⟨decoder, [], chunks⟩⟩
    else
      let (keys, decoder) := Text.Utf8.run decoder chunk
      match typeKeys masked s sent keys with
      | .typing s sent => receive masked decoder s sent chunks
      | .ended line sent rest => ⟨line, sent, ⟨decoder, rest, chunks⟩⟩

/-- Shows a prompt and reads a line. -/
def readLine (prompt : String) (masked : Bool) (t : Terminal) : Reading :=
  match typeKeys masked .empty (wire prompt) t.arrived with
  | .ended line sent rest => ⟨line, sent, { t with arrived := rest }⟩
  | .typing s sent => receive masked t.decoder s sent t.chunks

/-- A bound on the number of lines that can still be read. -/
def bound (t : Terminal) : Nat :=
  t.arrived.length + 2 * t.chunks.flatten.length + 1

end Terminal

end PracticeShell
