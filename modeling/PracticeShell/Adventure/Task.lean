import PracticeShell.Adventure.Error
import PracticeShell.Check.Run

/-!
# Tasks

A `Task` is one thing that a learner is asked to do. It names what has to hold after a command: a
pattern that the output matches, a check, or that there is output at all. `Task.evaluate` decides
whether an observation completes a task. The pattern and the check are kept as the document gives
them.
-/

namespace PracticeShell

/-- A hint of a task and its level; higher levels give more away. -/
structure Hint where
  level : Int
  text : String
deriving DecidableEq, Repr

/-- A task of a mission. -/
structure Task where
  id : String
  description : String
  pattern : Json
  check : Json
  parameters : Json
  requiresOutput : Bool
  hints : List Hint

namespace Task

open Adventure (Error)

/-- Reads a hint. -/
def readHint (v : Json) : Except Error Hint := do
  let ms ← Adventure.Reader.members v
  match ((ms.lookup "level").getD (.int 1)).toInt with
  | .error e => throw (.number e)
  | .ok level => return ⟨level, Adventure.Reader.textOf ms "text" ""⟩

/-- Reads a task. Its hints are put in the order of their levels. -/
def ofJson (v : Json) : Except Error Task := do
  if !(← Adventure.Reader.has "id" v) then throw (.taskWithoutId v)
  let ms ← Adventure.Reader.members v
  let hints ← Adventure.Reader.all readHint (← Adventure.Reader.elementsOf ms "hints")
  let member := fun name => (ms.lookup name).getD .null
  return {
    id := (member "id").plainText
    description := Adventure.Reader.textOf ms "description" ""
    pattern := member "outputPattern"
    check := member "outputCheck"
    parameters := member "outputCheckParams"
    requiresOutput := (member "requireOutput").isTruthy
    hints := hints.mergeSort fun a b => decide (a.level ≤ b.level) }

/-- A task as a value of the data format. -/
def toJson (t : Task) : Json :=
  let given := fun (name : String) (v : Json) => if v.isTruthy then [(name, v)] else []
  .object <| [("id", .string t.id), ("description", .string t.description)] ++
    given "outputPattern" t.pattern ++ given "outputCheck" t.check ++
    (match t.parameters with
      | .null => []
      | v => [("outputCheckParams", v)]) ++
    given "requireOutput" (.bool t.requiresOutput) ++
    [("hints", .array (t.hints.map fun h =>
      .object [("level", .int h.level), ("text", .string h.text)]))]

/-- The text of the first hint of a level. -/
def hint? (t : Task) (level : Int) : Option String :=
  (t.hints.find? (·.level == level)).map (·.text)

/-- Why it cannot be decided whether a task is completed. -/
inductive Fault
  /-- The pattern is no text. -/
  | patternNotText
  /-- The pattern repeats something more often than can be counted. -/
  | tooManyRepetitions
  /-- The pattern asks for two sets of characters at once. -/
  | incompatibleFlags
deriving DecidableEq, Repr

/-- The message that tells what is wrong with a pattern. -/
def Fault.message : Fault → String
  | patternNotText => "first argument must be string or compiled pattern"
  | tooManyRepetitions => "the repetition number is too large"
  | incompatibleFlags => "ASCII and UNICODE flags are incompatible"

/-- Whether an observation completes a task, and the check whose parameters have no meaning, if that
is what fails. -/
structure Verdict where
  isDone : Bool
  faulty : Option Check
deriving DecidableEq, Repr

/-- The verdict of a task that is not completed. -/
def Verdict.no : Verdict := ⟨false, none⟩

/-- Whether the pattern of a task matches somewhere in an output, in any case and over line ends.
What is no regular expression matches nowhere. -/
def matchesOutput (pattern : Json) (output : String) : Except Fault Bool :=
  match pattern with
  | .string text =>
    match Regex.parse { ignoreCase := true, dotAll := true } text with
    | .ok r => .ok (r.occursIn output)
    | .error .malformed => .ok false
    | .error .tooManyRepetitions => .error .tooManyRepetitions
    | .error .incompatibleFlags => .error .incompatibleFlags
  | _ => .error .patternNotText

/-- The verdict of the check that a task names; what is the name of no check is not satisfied. -/
def checkVerdict (t : Task) (o : Observation) : Verdict :=
  match t.check.string?.bind Check.ofName? with
  | none => .no
  | some c =>
    match c.run? o t.parameters with
    | some isDone => ⟨isDone, none⟩
    | none => ⟨false, some c⟩

/-- Decides whether an observation completes a task: everything that the task asks for has to hold.
A task that asks for nothing is never completed. -/
def evaluate (t : Task) (o : Observation) : Except Fault Verdict := do
  let found ← if t.pattern.isTruthy then matchesOutput t.pattern o.output else pure true
  if !found then return .no
  let checked := if t.check.isTruthy then t.checkVerdict o else ⟨true, none⟩
  if !checked.isDone then return checked
  if t.requiresOutput && Text.Blank.isBlankText o.output then return .no
  return ⟨t.pattern.isTruthy || t.check.isTruthy || t.requiresOutput, none⟩

end Task

end PracticeShell
