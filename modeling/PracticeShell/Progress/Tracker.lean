import PracticeShell.Adventure.Basic
import PracticeShell.Progress.Basic

/-!
# Following an adventure

A `Tracker` holds an adventure and the progress in it. `Tracker.record` takes in what can be seen
after a command: it completes tasks of the open mission, a mission whose tasks are all completed,
and the adventure when no mission is left, and tells so by events. `Tracker.settle` moves on over
completed missions and finds the open task. Hints cost points (`Tracker.score`).
-/

namespace PracticeShell

/-- Something that a learner has achieved. -/
inductive Event
  | taskCompleted (task mission description : String)
  | missionCompleted (mission title : String) (message : Json)
  | adventureCompleted (adventure : String) (score : Int)

namespace Event

/-- An event in one line, or in two if a mission has something to say. -/
def describe : Event → String
  | taskCompleted _ _ description => "[+] Task complete: " ++ description
  | missionCompleted _ title message =>
    "[*] Mission complete: " ++ title ++
      (if message.isTruthy then "\n    " ++ message.plainText else "")
  | adventureCompleted _ score => "[*] Adventure complete! Final score: " ++ toString score

/-- An event as a value of the data format. -/
def toJson : Event → Json
  | taskCompleted task mission description =>
    .object [("kind", .string "task_completed"), ("task_id", .string task),
      ("mission_id", .string mission), ("description", .string description)]
  | missionCompleted mission title message =>
    .object [("kind", .string "mission_completed"), ("mission_id", .string mission),
      ("title", .string title), ("message", message)]
  | adventureCompleted adventure score =>
    .object [("kind", .string "adventure_completed"), ("adventure_id", .string adventure),
      ("score", .int score)]

end Event

/-- An adventure and the progress in it. -/
structure Tracker where
  adventure : Adventure
  progress : Progress

namespace Tracker

/-- The points that a learner starts with. -/
def baseScore : Int := 1000

/-- What each level of a hint costs. -/
def hintPenalty : Int := 10

/-- What is added when all missions are completed. -/
def completionBonus : Int := 500

/-- Whether no mission is left. -/
def isComplete (t : Tracker) : Bool := t.progress.missionIndex ≥ t.adventure.missions.length

/-- The open mission. -/
def mission? (t : Tracker) : Option Mission :=
  if t.isComplete then none else t.adventure.missions[t.progress.missionIndex.toNat]?

/-- The open task. -/
def task? (t : Tracker) : Option Task := do
  (← t.mission?).tasks[t.progress.taskIndex.toNat]?

/-- The points that a progress is worth in an adventure with this number of missions. -/
def scoreOf (missions : Nat) (p : Progress) : Int :=
  let spent := p.hintsUsed.foldl (fun spent (_, level) => spent + level * hintPenalty) 0
  let bonus := if p.completedMissions.count ≥ missions then completionBonus else 0
  max (baseScore - spent + bonus) 0

/-- The points of the learner. -/
def score (t : Tracker) : Int := scoreOf t.adventure.missions.length t.progress

/-- Whether all tasks of a mission are completed. -/
def isFinished (p : Progress) (m : Mission) : Bool :=
  m.tasks.all fun task => p.completedTasks.contains task.id

/-- Moves on over the missions that are finished. The list holds the missions from the open one
on. -/
def moveOn (a : Adventure) (p : Progress) : List Mission → List Event × Progress
  | [] => ([], p)
  | m :: rest =>
    if !isFinished p m then ([], p)
    else
      let told := if p.completedMissions.contains m.id then []
        else [Event.missionCompleted m.id m.title m.onComplete]
      let p := { p.completeMission m.id with missionIndex := p.missionIndex + 1 }
      let ended := if rest.isEmpty then
          [Event.adventureCompleted a.id (scoreOf a.missions.length p)]
        else []
      let (events, p) := moveOn a p rest
      (told ++ ended ++ events, p)

/-- The place of the first task that is not completed, or the first place. -/
def openTask (p : Progress) (tasks : List Task) : Nat :=
  (tasks.findIdx? fun task => !p.completedTasks.contains task.id).getD 0

/-- Moves on over finished missions and finds the open task. -/
def settle (t : Tracker) : List Event × Tracker :=
  let missions := t.adventure.missions
  let first := max 0 (min t.progress.missionIndex missions.length)
  let (events, p) :=
    moveOn t.adventure { t.progress with missionIndex := first } (missions.drop first.toNat)
  let tasks := match missions[p.missionIndex.toNat]? with
    | some m => m.tasks
    | none => []
  (events, { t with progress := { p with taskIndex := openTask p tasks } })

/-- A tracker that goes on from a progress. -/
def resume (a : Adventure) (p : Progress) : Tracker := (settle ⟨a, p⟩).2

/-- A tracker of a learner who has not started. -/
def start (a : Adventure) : Tracker := resume a Progress.start

/-- What comes of looking at the tasks of a mission: the tasks that are now completed, the checks
whose parameters have no meaning, and the fault that has ended the round early. -/
structure Round where
  completed : List Task
  faulty : List Check
  fault : Option Task.Fault

/-- Looks at the tasks of a mission that are not completed, in order, until there is a fault. -/
def round (p : Progress) (o : Observation) : List Task → Round
  | [] => ⟨[], [], none⟩
  | task :: rest =>
    if p.completedTasks.contains task.id then round p o rest
    else
      match task.evaluate o with
      | .error fault => ⟨[], [], some fault⟩
      | .ok verdict =>
        let r := round p o rest
        ⟨(if verdict.isDone then [task] else []) ++ r.completed,
          verdict.faulty.toList ++ r.faulty, r.fault⟩

/-- What comes of taking in an observation. -/
structure Record where
  events : List Event
  faulty : List Check
  fault : Option Task.Fault

/-- Takes in what can be seen after a command. A fault ends it early: the tasks found completed
before it stay so, but nothing is told of. -/
def record (t : Tracker) (o : Observation) : Record × Tracker :=
  match t.mission? with
  | none => (⟨[], [], none⟩, t)
  | some m =>
    let r := round t.progress o m.tasks
    let p := r.completed.foldl (fun p task => p.completeTask task.id) t.progress
    let t := { t with progress := p }
    match r.fault with
    | some fault => (⟨[], r.faulty, some fault⟩, t)
    | none =>
      if r.completed.isEmpty then (⟨[], r.faulty, none⟩, t)
      else
        let told := r.completed.map fun task => Event.taskCompleted task.id m.id task.description
        let (events, t) := t.settle
        (⟨told ++ events, r.faulty, none⟩, t)

/-- The levels of hints that can be asked for. -/
def hintLevels : List Int := [1, 2, 3]

/-- A hint for the open task, which is then counted as seen. -/
def hint (t : Tracker) (level : Int) : Option String × Tracker :=
  match t.task? with
  | none => (none, t)
  | some task =>
    if !hintLevels.contains level then (none, t)
    else
      match task.hint? level with
      | none => (none, t)
      | some text => (some text, { t with progress := t.progress.seeHint task.id level })

/-- A quotient rounded to the nearest whole number, a half to the even neighbour. -/
def percentage (done total : Nat) : Nat := Decimal.roundDiv (100 * done) total

/-- How much of the adventure is completed, in per cent. -/
def percent (t : Tracker) : Nat :=
  let tasks := t.adventure.tasks
  if tasks.isEmpty then if t.isComplete then 100 else 0
  else percentage (tasks.filter fun task => t.progress.completedTasks.contains task.id).length
    tasks.length

/-- The tracker of a learner who starts over. -/
def reset (t : Tracker) : Tracker := start t.adventure

end Tracker

end PracticeShell
