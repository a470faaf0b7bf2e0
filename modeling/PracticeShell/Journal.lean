import PracticeShell.Command.Name
import PracticeShell.Guard

/-!
# Journal of activities

What happens in sessions is noted in a `Journal`, a list of activities. All that is counted can be
read off it: `Journal.counts` gives the change of each sample since the journal was begun. A session
that ends without having begun is not counted.
-/

namespace PracticeShell

/-- What has come of a warning. -/
inductive Settlement
  | prompted
  | confirmed
  | cancelled
deriving DecidableEq, Repr

/-- The name of what has come of a warning. -/
def Settlement.name : Settlement → String
  | prompted => "prompted"
  | confirmed => "confirmed"
  | cancelled => "cancelled"

/-- Something that is noted. -/
inductive Activity
  /-- A command has ended with an exit code. -/
  | command (name : String) (exitCode : Int)
  /-- A password has been checked. -/
  | password (correct : Bool)
  /-- A warning has been given or settled. -/
  | warning (level : Guard.Level) (settlement : Settlement)
  | taskCompleted
  | missionCompleted
  | adventureCompleted
  /-- A hint of a level has been shown. -/
  | hint (level : Int)
  /-- The parameters of the check with this name have no meaning. -/
  | faultyCheck (name : String)
  | sessionStarted
  /-- A session has ended after a number of seconds. -/
  | sessionEnded (seconds : Int)
  | reset
deriving DecidableEq, Repr

/-- Activities, oldest first. -/
abbrev Journal := List Activity

/-- What is counted: a name with labels. -/
structure Sample where
  name : String
  labels : List (String × String)
deriving DecidableEq, Repr

/-- A sample in one text. -/
def Sample.render (s : Sample) : String :=
  if s.labels.isEmpty then s.name
  else
    let labels := s.labels.map fun (label, value) => label ++ "=" ++ value
    s.name ++ "\x7b" ++ ",".intercalate labels ++ "\x7d"

namespace Activity

/-- How a command has ended, in a word. -/
def resultName (exitCode : Int) : String :=
  if exitCode = 0 then "ok" else if exitCode = 127 then "not_found" else "error"

/-- The sample that an activity adds one to, if it does. -/
def sample? : Activity → Option Sample
  | command name exitCode =>
    let known := if Command.knownNames.contains name then name else "other"
    some ⟨"shellquest_commands_total", [("command", known), ("result", resultName exitCode)]⟩
  | password correct =>
    some ⟨"shellquest_sudo_attempts_total",
      [("result", if correct then "success" else "failure")]⟩
  | warning level settlement =>
    some ⟨"shellquest_destructive_prompts_total",
      [("level", level.name), ("outcome", settlement.name)]⟩
  | taskCompleted => some ⟨"shellquest_tasks_completed_total", []⟩
  | missionCompleted => some ⟨"shellquest_missions_completed_total", []⟩
  | adventureCompleted => some ⟨"shellquest_adventures_completed_total", []⟩
  | hint level => some ⟨"shellquest_hints_revealed_total", [("level", toString level)]⟩
  | faultyCheck name => some ⟨"shellquest_validator_errors_total", [("validator", name)]⟩
  | reset => some ⟨"shellquest_exercise_resets_total", []⟩
  | sessionStarted | sessionEnded _ => none

end Activity

namespace Journal

/-- The number of open sessions after activities, given the number before them. -/
def activeFrom (active : Nat) : Journal → Nat
  | [] => active
  | .sessionStarted :: rest => activeFrom (active + 1) rest
  | .sessionEnded _ :: rest => activeFrom (active - 1) rest
  | _ :: rest => activeFrom active rest

/-- The number of open sessions. -/
def active (j : Journal) : Nat := activeFrom 0 j

/-- The durations of the sessions that have begun and ended, given the number of those open
before. -/
def durationsFrom (active : Nat) : Journal → List Int
  | [] => []
  | .sessionStarted :: rest => durationsFrom (active + 1) rest
  | .sessionEnded seconds :: rest =>
    match active with
    | 0 => durationsFrom 0 rest
    | active + 1 => seconds :: durationsFrom active rest
  | _ :: rest => durationsFrom active rest

/-- The durations of the sessions that have begun and ended. -/
def durations (j : Journal) : List Int := durationsFrom 0 j

/-- The number of times that one was added to a sample. -/
def count (s : Sample) (j : Journal) : Nat := (j.filterMap Activity.sample?).count s

/-- The durations, in seconds, up to which sessions are counted together, with their names. -/
def durationBounds : List (Int × String) :=
  [(60, "60.0"), (300, "300.0"), (600, "600.0"), (1800, "1800.0"), (3600, "3600.0"),
    (7200, "7200.0")]

/-- What is counted of durations. -/
def durationCounts (seconds : List Int) : List (Sample × Int) :=
  let name := "shellquest_session_duration_seconds"
  let upTo := fun (label : String) (n : Nat) =>
    (Sample.mk (name ++ "_bucket") [("le", label)], (n : Int))
  durationBounds.map (fun (bound, label) => upTo label (seconds.filter (· ≤ bound)).length) ++
    [upTo "+Inf" seconds.length, (⟨name ++ "_count", []⟩, seconds.length),
      (⟨name ++ "_sum", []⟩, seconds.foldl (· + ·) 0)]

/-- The change of each sample that has changed. -/
def counts (j : Journal) : List (Sample × Int) :=
  let single := (j.filterMap Activity.sample?).eraseDups.map fun s => (s, (count s j : Int))
  let all := single ++ durationCounts (durations j) ++
    [(⟨"shellquest_sessions_active", []⟩, (active j : Int))]
  all.filter (·.2 ≠ 0)

end Journal

end PracticeShell
