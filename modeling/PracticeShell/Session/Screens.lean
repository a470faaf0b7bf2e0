import PracticeShell.Session.World

/-!
# Pagers and editors

`less` and `more` show a file, `nano`, `vi` and `vim` let it be changed. Both open a `Screen`; the
session goes on when it is closed. What an editor saves is written by `Screens.close`.
-/

namespace PracticeShell.Screens

/-- The commands that show a file. -/
def pagers : List String := ["less", "more"]

/-- The commands that change a file. -/
def editors : List String := ["nano", "vi", "vim"]

/-- What a pager or an editor ends with: an outcome, and the screen it opens. -/
structure Opening where
  outcome : Outcome
  screen : Option Screen

/-- The opening that fails. -/
def fail (message : String) : Opening := ⟨.fail message Outcome.failure, none⟩

/-- The opening of a screen. -/
def opened (screen : Screen) : Opening := ⟨{}, some screen⟩

/-- The file that the words name. -/
def target? (words : List String) : Option String :=
  (words.filter fun word => !Path.startsWith word "-").head?

/-- The message about the operand of a command. -/
def problem (name target reason : String) : Opening :=
  fail (name ++ ": " ++ target ++ ": " ++ reason)

/-- The text of a file, empty if there is none. -/
def textOf (fs : FileSystem) (path : String) : String := (fs.text path).toOption.getD ""

/-- Opens a pager. -/
def openPager (name : String) (ctx : Context) (fs : FileSystem) (words : List String) : Opening :=
  match target? words with
  | none => fail ("usage: " ++ name ++ " <filename>")
  | some target =>
    let full := ctx.resolve target
    match fs.stat? full with
    | none => problem name target "No such file or directory"
    | some node =>
      if node.isDirectory then problem name target "Is a directory"
      else if Access.denied ctx node then problem name target "Permission denied"
      else opened (.pager full (textOf fs full) name)

/-- Opens an editor. A new file needs access to the nearest directory above it. -/
def openEditor (name : String) (ctx : Context) (fs : FileSystem) (words : List String) : Opening :=
  match target? words with
  | none => fail ("usage: " ++ name ++ " <filename>")
  | some target =>
    let full := ctx.resolve target
    let node := fs.stat? full
    let holder := node.getD (Access.nearestExisting fs (Path.dirname full))
    if node.any (·.isDirectory) then problem name target "Is a directory"
    else if Access.denied ctx holder then problem name target "Permission denied"
    else opened (.editor full (textOf fs full) name ctx.elevated node.isNone)

/-- Closes a screen. What an editor has saved is written to its file. -/
def close (screen : Screen) (resolution : Resolution) (ctx : Context) (base : Option String) :
    Step Outcome := do
  let _ ← Step.look base
  match screen, resolution with
  | .editor path _ _ asRoot _, .saved content =>
    let owner := if asRoot then Context.rootUser else ctx.username
    match ← Step.attempt base
        (Edit.write path (Text.Utf8.encode content) (some owner) Permissions.newFile) with
    | some e =>
      return .fail ("[ Error writing " ++ path ++ ": " ++ e.cause.text ++ " ]") Outcome.failure
    | none =>
      return .print ("[ Wrote " ++ toString (Text.Lines.split content).length ++ " lines ]")
  | _, _ => return {}

end PracticeShell.Screens
