import PracticeShell.Usage.Reader

/-!
# Errands

An `Errand` is what the program is started for. `Errand.ofWords` reads it from the words that the
program is started with: flags of the program come first, then perhaps a command with flags and
operands of its own.
-/

namespace PracticeShell

/-- What the program is started for. -/
inductive Errand
  /-- To play an adventure, given by a path or a name, on the program's own screen. -/
  | play (adventure : Option String) (isFresh : Bool)
  /-- To let learners log in over the network. -/
  | serve (adventure host : Option String) (port metricsPort : Option Int)
  | listAdventures
  | showProgress (id : String)
  | removeProgress (id : String)
  /-- To show a page of help. -/
  | explain (page : HelpPage)

namespace Errand

open Usage (Ending Reading)

/-- The settings of the program itself. -/
structure Wishes where
  adventure : Option String := none
  isFresh : Bool := false
  level : Option String := none

/-- The settings of the server. -/
structure Address where
  host : Option String := none
  port : Option Int := none
  metricsPort : Option Int := none

/-- The levels of the log. -/
def levels : List String := ["DEBUG", "INFO", "WARNING", "ERROR", "CRITICAL"]

/-- The words of the program. -/
def program : Usage Wishes where
  page := .program
  flags := [
    Usage.help .program,
    ⟨["--adventure", "-a"], .word fun text w => { w with adventure := some text }⟩,
    ⟨["--log-level", "-l"], .choice levels fun text w => { w with level := some text }⟩,
    ⟨["--fresh"], .switch fun w => { w with isFresh := true }⟩,
    ⟨["--version", "-v"], .shows versionText⟩]
  operand := .command "command" ["serve", "adventures", "progress"]

/-- The words of the command to serve. -/
def server : Usage Address where
  page := .serve
  flags := [
    Usage.help .serve,
    ⟨["--host"], .word fun text a => { a with host := some text }⟩,
    ⟨["--port", "-p"], .number fun n a => { a with port := some n }⟩,
    ⟨["--metrics-port"], .number fun n a => { a with metricsPort := some n }⟩]
  operand := .none

/-- The words of a command with no flags but help. -/
def plain (page : HelpPage) (operand : Usage.Operand) : Usage Unit :=
  ⟨page, [Usage.help page], operand⟩

/-- Reads the words of a command with one operand. -/
def readId (page : HelpPage) (words : List String) : Except Ending (String × List String) := do
  let r ← (plain page (.word "adventure_id")).read () words
  return (r.operand.getD "", r.unknown)

/-- Reads the words after `adventures`. -/
def ofAdventuresWords (words : List String) : Except Ending (Errand × List String) := do
  let r ← (plain .adventures (.command "adventures_command" ["list"])).read () words
  match r.operand with
  | none => return (explain .adventures, r.unknown)
  | some _ =>
    let sub ← (plain .list .none).read () r.rest
    return (listAdventures, r.unknown ++ sub.unknown)

/-- Reads the words after `progress`. -/
def ofProgressWords (words : List String) : Except Ending (Errand × List String) := do
  let r ← (plain .progress (.command "progress_command" ["show", "reset"])).read () words
  match r.operand with
  | none => return (explain .progress, r.unknown)
  | some command =>
    if command = "show" then
      let (id, unknown) ← readId .showing r.rest
      return (showProgress id, r.unknown ++ unknown)
    else
      let (id, unknown) ← readId .reset r.rest
      return (removeProgress id, r.unknown ++ unknown)

/-- Reads the words of a command. -/
def ofCommand (wishes : Wishes) (command : String) (words : List String) :
    Except Ending (Errand × List String) := do
  if command = "serve" then
    let r ← server.read {} words
    let address := r.settings
    return (serve wishes.adventure address.host address.port address.metricsPort, r.unknown)
  else if command = "adventures" then ofAdventuresWords words
  else ofProgressWords words

/-- Reads the words that the program is started with. Words that are of no use are refused last. -/
def ofWords (words : List String) : Except Ending Errand := do
  let r ← program.read {} words
  let (errand, unknown) ← match r.operand with
    | none => pure (play r.settings.adventure r.settings.isFresh, [])
    | some command => ofCommand r.settings command r.rest
  match r.unknown ++ unknown with
  | [] => return errand
  | words => program.refuse (.unknown words)

end Errand

end PracticeShell
