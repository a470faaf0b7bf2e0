import PracticeShell.Command.Dispatch
import PracticeShell.Session.Remote
import PracticeShell.Session.Screens
import PracticeShell.Text.Lines

/-!
# Running commands in a session

Some commands belong to the session: those for other machines, pagers and editors, variables, the
history, and leaving. All others run on the files that are seen. `Dispatch.run` runs either kind.
-/

namespace PracticeShell.Dispatch

/-- What a command ends with: an outcome, the screen that it opens, and whether the learner
leaves. -/
structure Result where
  outcome : Outcome
  screen : Option Screen
  leaves : Bool

/-- The result that is nothing but an outcome. -/
def Result.of (outcome : Outcome) : Result := ⟨outcome, none, false⟩

/-- The last `count` elements of a list. -/
def lastOf {α : Type} (count : Nat) (l : List α) : List α := l.drop (l.length - count)

/-- Lists command lines with their numbers, or only the last ones. -/
def runHistory (words : List String) : Step Outcome := do
  if words = ["-c"] then
    modify fun w => { w with history := [] }
    return {}
  let entries := ((← get).history.zipIdx 1).map fun (line, number) =>
    Text.Pad.left 5 (toString number) ++ "  " ++ line
  match words with
  | [] => return .print (Text.Lines.join entries)
  | word :: _ =>
    if !Text.Digit.isDigits word then
      return .fail ("history: " ++ word ++ ": numeric argument required") Outcome.failure
    match (Json.string word).toInt with
    | .error e => throw (.number e)
    | .ok count => return .print (Text.Lines.join (lastOf count.toNat entries))

/-- Runs a command on the variables. -/
def onVariables (run : Environment → Outcome × Environment) : Step Outcome := fun w =>
  let (outcome, environment) := run w.environment
  .ok outcome { w with environment }

/-- Opens a screen on the files that are seen. -/
def onScreen (opener : FileSystem → Screens.Opening) (base : Option String) : Step Result := do
  let opening := opener (← Step.look base)
  return ⟨opening.outcome, opening.screen, false⟩

/-- Runs a command of the session, if it is one. -/
def session? (hosts : List String) (ctx : Context) (base : Option String) (name : String)
    (words : List String) : Option (Step Result) :=
  let plain := fun (step : Step Outcome) => some (Result.of <$> step)
  if name = "ssh" then plain (Remote.runSsh hosts ctx words)
  else if name = "scp" then plain (Remote.runScp hosts ctx base words)
  else if Screens.pagers.contains name then
    some (onScreen (fun fs => Screens.openPager name ctx fs words) base)
  else if Screens.editors.contains name then
    some (onScreen (fun fs => Screens.openEditor name ctx fs words) base)
  else if name = "env" then plain (onVariables (·.runEnv words))
  else if name = "export" then plain (onVariables (·.runExport words))
  else if name = "unset" then plain (onVariables (·.runUnset words))
  else if name = "history" then plain (runHistory words)
  else if name = "exit" ∨ name = "logout" then
    some do
      let (outcome, leaves) ← Remote.runExit
      return ⟨outcome, none, leaves⟩
  else none

/-- Runs a command on the files that are seen, and goes where it says. -/
def onFiles (ctx : Context) (base : Option String) (input : Option String) (words : List String) :
    Step Result := do
  let outcome ← Step.onView base (Command.execute ctx input words)
  match outcome.newDirectory with
  | some path => modify (World.changeDirectory path)
  | none => pure ()
  return .of outcome

/-- Runs the words of a command line. With elevated rights `sudo` before them is passed over. -/
def run (hosts : List String) (ctx : Context) (base : Option String) (input : Option String)
    (words : List String) : Step Result :=
  let words := if ctx.elevated then words.dropWhile (· == "sudo") else words
  match words with
  | [] => onFiles ctx base input []
  | name :: arguments =>
    (session? hosts ctx base name arguments).getD (onFiles ctx base input words)

end PracticeShell.Dispatch
