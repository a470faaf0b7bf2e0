import PracticeShell.Session.Meta

/-!
# Consoles

A `Console` shows a session on a screen that is written line by line. It takes one line at a time: a
line for the session, the answer to a question, a key of the pager, or a line of the editor. What it
writes is kept as a list of pieces. `Manner` says how it looks: over the network texts are shown
page by page and in colours, on the program's own screen a pager shows all at once.
-/

namespace PracticeShell

/-- Colours and other looks of a text. -/
inductive Look
  | red | green | yellow | cyan | bright
deriving DecidableEq, Repr

namespace Look

/-- The number of a look. -/
def number : Look → Nat
  | red => 31
  | green => 32
  | yellow => 33
  | cyan => 36
  | bright => 1

/-- A text in a look, and plain again after it. -/
def apply (l : Look) (text : String) : String :=
  "\x1b[" ++ toString l.number ++ "m" ++ text ++ "\x1b[0m"

/-- What follows a sequence that changes the look, if a text starts with one: the escape character,
a bracket, digits and semicolons, and a letter. -/
def afterEscape? : List Char → Option (List Char)
  | '\x1b' :: '[' :: rest =>
    match rest.dropWhile fun c => Text.Digit.isDecimal c || c == ';' with
    | c :: rest => if Text.Letter.isAsciiLetter c then some rest else none
    | [] => none
  | _ => none

/-- What follows a sequence and the marks around it that hide it from line editors. -/
def afterSequence? (cs : List Char) : Option (List Char) :=
  let cs := match cs with
    | '\x01' :: rest => rest
    | cs => cs
  (afterEscape? cs).map fun rest =>
    match rest with
    | '\x02' :: rest => rest
    | rest => rest

/-- A text without sequences; `skip` characters belong to one. -/
def stripFrom : (skip : Nat) → List Char → List Char
  | _, [] => []
  | skip + 1, _ :: rest => stripFrom skip rest
  | 0, c :: rest =>
    match afterSequence? (c :: rest) with
    | some after => stripFrom (rest.length - after.length) rest
    | none => c :: stripFrom 0 rest

/-- A text without sequences that change the look. -/
def strip (text : String) : String := String.ofList (stripFrom 0 text.toList)

end Look

/-- How a console looks. -/
structure Console.Manner where
  /-- The number of lines on the screen; without it a pager shows all at once. -/
  height : Option Int
  /-- Whether errors are red. -/
  redErrors : Bool
  /-- Whether the title of an editor tells a new file instead of its path. -/
  tellsNew : Bool

/-- What the next line is for. -/
inductive Console.Waiting
  /-- The session, which asks with a prompt and perhaps for a password. -/
  | line (prompt : String) (masked : Bool)
  /-- A pager with pages to come. -/
  | page (pages : List (List String))
  /-- An editor with the lines typed so far. -/
  | edit (lines : List String)
  /-- A warning. -/
  | confirm (warning : Guard.Warning)

/-- A session on a screen. What the learner has typed and achieved is recorded. -/
structure Console where
  session : Session
  manner : Console.Manner
  waiting : Console.Waiting
  hasLeft : Bool
  inputs : List String
  events : List Event
  written : List String

namespace Console

/-- The manner of the program's own screen. -/
def Manner.own : Manner := ⟨none, true, false⟩

/-- The manner of a screen over the network. -/
def Manner.network (height : Int) : Manner := ⟨some height, false, true⟩

/-- What a console does. What is written before a failure stays written. -/
abbrev Action (α : Type) := EStateM Session.Fault Console α

/-- A console that shows a session. -/
def start (session : Session) (manner : Manner) : Console :=
  ⟨session, manner, .line session.prompt false, false, [], [], []⟩

/-- What stands before the next line. -/
def prompt (c : Console) : String :=
  match c.waiting with
  | .line prompt _ => prompt
  | .page _ => Look.bright.apply "--More--"
  | .edit _ => ""
  | .confirm warning => warning.level.confirmLabel ++ "? [y/N] "

/-- Whether the next line is not to be seen. -/
def isMasked (c : Console) : Bool :=
  match c.waiting with
  | .line _ masked => masked
  | _ => false

/-- Writes a piece. -/
def write (text : String) : Action Unit :=
  if text = "" then return () else modify fun c => { c with written := c.written ++ [text] }

/-- Writes a line. -/
def writeLine (text : String) : Action Unit := write (text ++ "\n")

/-- Writes lines one after the other. -/
def writeLines (lines : List String) : Action Unit := lines.forM writeLine

/-- Sets what the next line is for. -/
def await (waiting : Waiting) : Action Unit := modify fun c => { c with waiting }

/-- Lets the session do something. -/
def act {α : Type} (action : Session.Action α) : Action α := fun c =>
  match action c.session with
  | .ok a session => .ok a { c with session }
  | .error e session => .error e { c with session }

/-- Writes what a response says. -/
def print (r : Response) : Action Unit := do
  if r.output ≠ "" then writeLine (Text.Lines.trimEnd r.output)
  if r.errors ≠ "" then
    let errors := Text.Lines.trimEnd r.errors
    writeLine (if (← get).manner.redErrors then Look.red.apply errors else errors)
  writeLines (r.events.map fun e => Look.green.apply e.describe)
  modify fun c => { c with events := c.events ++ r.events }

/-- Goes back to the session after a response. -/
def goBack (r : Response) : Action Unit := do
  modify fun c => { c with hasLeft := r.leaves }
  await (.line r.prompt r.masked)

/-- Closes what the session shows. -/
def close (resolution : Resolution) : Action Unit := do
  let r ← act (Session.resolve resolution)
  print r
  goBack r

/-- Lines cut into pages of a size. -/
def pagesOf (size : Nat) (lines : List String) : List (List String) :=
  if h : lines = [] ∨ size = 0 then []
  else
    have : (lines.drop size).length < lines.length := by
      have := List.length_pos_iff.mpr fun e => h (.inl e)
      simp only [List.length_drop]
      omega
    lines.take size :: pagesOf size (lines.drop size)
termination_by lines.length

/-- The number of lines of a page: one less than the screen has, but at least one. -/
def pageSize (height : Int) : Nat := max (height - 1) 1 |>.toNat

/-- Shows a page and waits if there are more. -/
def showPages : List (List String) → Action Unit
  | [] => close .cancelled
  | [lines] => do
    writeLines lines
    close .cancelled
  | lines :: rest => do
    writeLines lines
    await (.page rest)

/-- A text without each character that is struck over by a backspace. -/
def withoutOverstrikes : List Char → List Char
  | c :: '\x08' :: rest =>
    if c = '\n' then c :: withoutOverstrikes ('\x08' :: rest) else withoutOverstrikes rest
  | c :: rest => c :: withoutOverstrikes rest
  | [] => []

/-- Shows a text in a pager. -/
def showText (content : String) : Action Unit := do
  match (← get).manner.height with
  | some height => showPages (pagesOf (pageSize height) (Text.Lines.split content))
  | none =>
    write (String.ofList (withoutOverstrikes content.toList))
    close .cancelled

/-- The lines of a text with their numbers. -/
def numbered (content : String) : List String :=
  (Text.Lines.split content).zipIdx 1 |>.map fun (line, number) =>
    Text.Pad.left 4 (toString number) ++ "  " ++ line

/-- Opens an editor. -/
def openEditor (path content command : String) (isNew : Bool) : Action Unit := do
  let title := if (← get).manner.tellsNew && isNew then "New File" else path
  writeLine (Look.bright.apply ("  " ++ command ++ " (line mode)  " ++ title))
  writeLines (numbered content)
  writeLine "Type the new contents. '.' on its own line saves, ':q' cancels."
  await (.edit [])

/-- Shows what a response says and what it opens. -/
def render (r : Response) : Action Unit := do
  print r
  match r.intent, (← get).session.intent? with
  | some (.screen (.pager _ content _)), some _ => showText content
  | some (.screen (.editor path content command _ isNew)), some _ =>
    openEditor path content command isNew
  | some (.confirm _ warning), some _ =>
    writeLine (Look.yellow.apply warning.level.title)
    writeLine warning.message
    await (.confirm warning)
  | _, _ => goBack r

/-- Records what the learner has typed. -/
def record (input : String) : Action Unit :=
  modify fun c => { c with inputs := c.inputs ++ [input] }

/-- Takes a line for the session. A password is not recorded. -/
def takeLine (line : String) (masked : Bool) : Action Unit := do
  if masked then
    record "[password]"
    render (← act (Session.submit line))
  else
    let r ← act (Session.take line)
    record line
    render r

/-- Whether an answer means yes. -/
def isYes (answer : String) : Bool :=
  ["y", "yes"].contains (Text.Case.lower (Text.Blank.trim answer))

/-- Takes an answer to a warning. -/
def takeAnswer (answer : String) : Action Unit := do
  render (← act (Session.resolve (if isYes answer then .confirmed else .cancelled)))

/-- Takes a line for an editor. -/
def takeText (line : String) (lines : List String) : Action Unit :=
  if line = "." then close (.saved (Redirection.body lines))
  else if line = ":q" then close .cancelled
  else await (.edit (lines ++ [line]))

/-- Takes an answer to a pager: `q` closes it. -/
def takePage (answer : String) (pages : List (List String)) : Action Unit :=
  if Text.Case.lower (Text.Blank.trim answer) = "q" then close .cancelled else showPages pages

/-- Takes a line. -/
def take (line : String) : Action Unit := do
  match (← get).waiting with
  | .line _ masked => takeLine line masked
  | .page pages => takePage line pages
  | .edit lines => takeText line lines
  | .confirm _ => takeAnswer line

end Console

end PracticeShell
