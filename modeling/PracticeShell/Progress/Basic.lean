import PracticeShell.Json.Number

/-!
# Progress

`Progress` is how far a learner has come in an adventure: where the open mission and its open task
are, what has been completed, and the highest level of the hints seen for each task.
`Progress.ofJson` reads what `Progress.toJson?` writes.

`Marks` are the names of what a learner has completed. A saved document can mark any plain value;
values that are no names are kept and counted, but nothing is ever asked about them. No two marks
count as one (`Json.same`).
-/

namespace PracticeShell

/-- The names of what has been completed, among other plain values; oldest first. -/
structure Marks where
  values : List Json

namespace Marks

/-- No marks. -/
def empty : Marks := ⟨[]⟩

/-- Whether a value is marked. -/
def holds (m : Marks) (v : Json) : Bool := m.values.any v.same

/-- Whether a name is marked. -/
def contains (m : Marks) (name : String) : Bool := m.holds (.string name)

/-- Marks a value, unless it is marked. -/
def put (m : Marks) (v : Json) : Marks := if m.holds v then m else ⟨m.values ++ [v]⟩

/-- Marks a name. -/
def add (m : Marks) (name : String) : Marks := m.put (.string name)

/-- The number of marks. -/
def count (m : Marks) : Nat := m.values.length

/-- The marks of some values. -/
def ofList (values : List Json) : Marks := values.foldl put empty

/-- Puts a value in its place among sorted ones, if all can be compared. -/
def insertSorted (v : Json) : List Json → Option (List Json)
  | [] => some [v]
  | w :: rest => do
    if ← v.less w then return v :: w :: rest
    return w :: (← insertSorted v rest)

/-- The marks in order. There is an order if all are names or all are numbers. -/
def sorted? (m : Marks) : Option (List Json) :=
  m.values.foldrM insertSorted []

end Marks

/-- How far a learner has come in an adventure. -/
structure Progress where
  missionIndex : Int
  taskIndex : Int
  completedTasks : Marks
  completedMissions : Marks
  hintsUsed : List (String × Int)

namespace Progress

/-- The progress of a learner who has not started. -/
def start : Progress := ⟨0, 0, .empty, .empty, []⟩

/-- Why a document gives no progress. -/
inductive Error
  /-- Something that has to be a number is none. -/
  | number (cause : Json.NumberError)
  /-- Something that has to be a list of plain values is none. -/
  | notAList
  /-- Members are asked of something that is no object. -/
  | noMembers
deriving DecidableEq, Repr

/-- The message that tells what is wrong with a document. -/
def Error.message : Error → String
  | number cause => cause.message
  | notAList => "a list of plain values is needed"
  | noMembers => "an object is needed"

/-- Whether a document is at fault in a way that is expected of documents. -/
def Error.isExpected : Error → Bool
  | number .infinite | noMembers => false
  | _ => true

/-- A member as a whole number, zero if it is missing. -/
def readIndex (ms : Json.Members) (name : String) : Except Error Int :=
  match ((ms.lookup name).getD (.int 0)).toInt with
  | .ok n => .ok n
  | .error e => .error (.number e)

/-- A member as marks; there are none if it is missing. -/
def readMarks (ms : Json.Members) (name : String) : Except Error Marks :=
  match ((ms.lookup name).getD (.array [])).elements? with
  | none => .error .notAList
  | some values => if values.all Json.isPlain then .ok (.ofList values) else .error .notAList

/-- Reads the levels of hints. -/
def readLevels : Json.Members → Except Error (List (String × Int))
  | [] => .ok []
  | (name, v) :: rest =>
    match v.toInt with
    | .error e => .error (.number e)
    | .ok level => do return (name, level) :: (← readLevels rest)

/-- The levels of hints in a document. -/
def readHints (ms : Json.Members) : Except Error (List (String × Int)) :=
  let hints := (ms.lookup "hintsUsed").getD .null
  if !hints.isTruthy then .ok []
  else
    match hints with
    | .object levels => readLevels levels
    | _ => .error .noMembers

/-- Reads progress. -/
def ofJson (v : Json) : Except Error Progress :=
  match v with
  | .object ms => do
    return {
      missionIndex := ← readIndex ms "currentMissionIndex"
      taskIndex := ← readIndex ms "currentTaskIndex"
      completedTasks := ← readMarks ms "completedTasks"
      completedMissions := ← readMarks ms "completedMissions"
      hintsUsed := ← readHints ms }
  | _ => .error .noMembers

/-- Progress as a value of the data format, if all that is marked can be put in order. -/
def toJson? (p : Progress) : Option Json := do
  return .object [("currentMissionIndex", .int p.missionIndex),
    ("currentTaskIndex", .int p.taskIndex),
    ("completedTasks", .array (← p.completedTasks.sorted?)),
    ("completedMissions", .array (← p.completedMissions.sorted?)),
    ("hintsUsed", .object (p.hintsUsed.map fun (id, level) => (id, .int level)))]

/-- The highest level of the hints seen for a task. -/
def hintLevel (p : Progress) (id : String) : Int := (p.hintsUsed.lookup id).getD 0

/-- Sets the level of the hints seen for a task; a task that is there keeps its place. -/
def setHint (id : String) (level : Int) : List (String × Int) → List (String × Int)
  | [] => [(id, level)]
  | (i, l) :: rest => if i = id then (i, level) :: rest else (i, l) :: setHint id level rest

/-- The progress of a learner who has seen a hint. -/
def seeHint (p : Progress) (id : String) (level : Int) : Progress :=
  { p with hintsUsed := setHint id (max level (p.hintLevel id)) p.hintsUsed }

/-- Marks a task as completed. -/
def completeTask (p : Progress) (id : String) : Progress :=
  { p with completedTasks := p.completedTasks.add id }

/-- Marks a mission as completed. -/
def completeMission (p : Progress) (id : String) : Progress :=
  { p with completedMissions := p.completedMissions.add id }

end Progress

end PracticeShell
