import PracticeShell.Session.Submit

/-!
# Asking about the adventure

Lines that start with a colon are not for the shell: they ask for a hint, the task or the progress,
start over, or leave. `Session.ask` answers them.
-/

namespace PracticeShell.Session

/-- A hint for the open task. One that is shown is noted and saved. -/
def hint (level : Int) : Action (Option String) := do
  let s ← get
  match s.tracker with
  | none => return none
  | some t =>
    let (text, t) := t.hint level
    set { s with tracker := some t }
    if text.isSome then
      note (.hint level)
      saveProgress
    return text

/-- The open task in words. -/
def describeTask (s : Session) : String :=
  match s.tracker with
  | none => "No adventure loaded."
  | some t =>
    match t.mission?, t.task? with
    | some mission, some task =>
      Text.Lines.join <| ["Mission: " ++ mission.title] ++
        (if mission.story = "" then [] else [mission.story]) ++ ["Task: " ++ task.description]
    | _, _ => "Adventure complete. Type :reset to play again."

/-- The progress in words. -/
def describeProgress (s : Session) : String :=
  match s.tracker with
  | none => "No adventure loaded."
  | some t =>
    t.adventure.title ++ ": " ++ toString t.percent ++ "% complete\nMissions: " ++
      toString t.progress.completedMissions.count ++ "/" ++
      toString t.adventure.missions.length ++ "  Tasks: " ++
      toString t.progress.completedTasks.count ++ "/" ++ toString t.adventure.tasks.length ++
      "  Score: " ++ toString t.score

/-- A question to the session. -/
inductive Question
  | hint (level : Option String)
  | task
  | progress
  | reset
  | quit
  | unknown (name : String)
deriving DecidableEq, Repr

/-- Reads a question from a line, if it is one. -/
def Question.read? (line : String) : Option Question :=
  match line.toList with
  | ':' :: rest =>
    let words := Text.Blank.words (String.ofList rest)
    let name := Text.Case.lower (words.headD "")
    some <|
      if name = "hint" then .hint words.tail.head?
      else if name = "task" then .task
      else if name = "progress" then .progress
      else if name = "reset" then .reset
      else if name = "quit" ∨ name = "q" then .quit
      else .unknown name
  | _ => none

/-- A response that prints. -/
def say (output : String) : Action Response := respond fun prompt => { output, prompt }

/-- A response that refuses. -/
def refuse (errors : String) : Action Response :=
  respond fun prompt => { errors, exitCode := Outcome.failure, prompt }

/-- Answers with a hint of a level. -/
def answerHint (level : Int) : Action Response := do
  let text := (← hint level).getD ""
  say (if text = "" then "No hint available." else text)

/-- Answers a question. -/
def answer : Question → Action Response
  | .hint none => answerHint 1
  | .hint (some level) =>
    if !Text.Digit.isDigits level then refuse ":hint takes a level from 1 to 3"
    else
      match (Json.string level).toInt with
      | .error e => throw (.step (.number e))
      | .ok n => answerHint n
  | .task => do say (← get).describeTask
  | .progress => do say (← get).describeProgress
  | .reset => do
    reset
    say "Exercise reset."
  | .quit => respond fun prompt => { prompt, leaves := true }
  | .unknown name =>
    refuse ("unknown meta-command ':" ++ name ++
      "' (try :hint, :task, :progress, :reset, :quit)")

/-- Answers a line that is a question. Other lines, and lines in another mode than the normal one,
are left alone. -/
def ask (line : String) : Action (Option Response) := do
  match (← get).world.mode, Question.read? line with
  | .normal, some question => return some (← answer question)
  | _, _ => return none

/-- Takes a line that is a question or for the shell. -/
def take (line : String) : Action Response := do
  match ← ask (Text.Blank.trim line) with
  | some r => return r
  | none => submit line

end PracticeShell.Session
