import PracticeShell.Guard

/-!
# Modes of a session

A session reads a line as its mode says: as a command line, as a line of input for a command, as a
password, or not at all while something is shown that has to be closed or confirmed first. What is
shown is an `Intent`; a `Resolution` ends it.
-/

namespace PracticeShell

/-- Something that takes up the whole screen. -/
inductive Screen
  /-- The text of a file, page by page. -/
  | pager (path content command : String)
  /-- The text of a file to be changed, or of a new one. -/
  | editor (path content command : String) (asRoot isNew : Bool)
deriving DecidableEq, Repr

/-- Something that has to be closed or confirmed before a session goes on. -/
inductive Intent
  | screen (s : Screen)
  /-- A command line that could destroy something. -/
  | confirm (command : String) (warning : Guard.Warning)
deriving DecidableEq, Repr

/-- How an intent ends. -/
inductive Resolution
  | saved (content : String)
  | cancelled
  | confirmed
deriving DecidableEq, Repr

/-- A command line: the text that was typed, the words of the command, and the redirection. -/
structure CommandLine where
  text : String
  words : List String
  redirection : Redirection
deriving DecidableEq, Repr

/-- What a session does with the next line. -/
inductive Mode
  /-- It is a command line. -/
  | normal
  /-- It is a line of input for a command, up to a marker. -/
  | collecting (line : CommandLine) (marker : String) (lines : List String)
  /-- It is a password; the command gets `input`, and `said` is told if its output is redirected. -/
  | password (line : CommandLine) (input said : Option String)
  /-- It has to wait until a warning about a command line is answered. -/
  | confirming (line : CommandLine) (warning : Guard.Warning) (context : Context)
  /-- It has to wait until what is shown is closed. -/
  | showing (screen : Screen) (context : Context) (command : String)
deriving DecidableEq, Repr

namespace Screen

/-- What kind of screen it is. -/
def kind : Screen → String
  | pager .. => "pager"
  | editor .. => "editor"

/-- The text that is shown. -/
def content : Screen → String
  | pager _ content _ => content
  | editor _ content _ _ _ => content

/-- The members of a screen as a value of the data format. -/
def members : Screen → Json.Members
  | pager path _ command => [("path", .string path), ("command", .string command)]
  | editor path _ command asRoot isNew =>
    [("path", .string path), ("editor", .string command), ("as_root", .bool asRoot),
      ("is_new", .bool isNew)]

end Screen

namespace Intent

/-- What kind of intent it is. -/
def kind : Intent → String
  | screen s => s.kind
  | confirm .. => "confirm"

/-- An intent as a value of the data format. -/
def toJson (i : Intent) : Json :=
  let members := match i with
    | screen s => s.members
    | confirm command w => ("command", .string command) :: (w.toJson.members?).getD []
  .object (("kind", .string i.kind) :: members)

end Intent

namespace Mode

/-- The intent that a session waits for. -/
def intent? : Mode → Option Intent
  | confirming line warning _ => some (.confirm line.text warning)
  | showing screen _ _ => some (.screen screen)
  | _ => none

/-- Whether the next line is a password. -/
def isPassword : Mode → Bool
  | password .. => true
  | _ => false

/-- The name of a mode. -/
def name : Mode → String
  | normal => "normal"
  | collecting .. => "heredoc"
  | password .. => "password"
  | confirming .. | showing .. => "resolution"

end Mode

end PracticeShell
