import PracticeShell.Adventure.Task

/-!
# Adventures

An `Adventure` is a list of missions, each of them a list of tasks, together with the files, the
variables and the critical paths that the learner starts with. `Adventure.ofJson` reads it from a
document; no two tasks of an adventure have the same name.
-/

namespace PracticeShell

/-- A part of an adventure. What is said on its completion can be any value. -/
structure Mission where
  id : String
  title : String
  story : String
  tasks : List Task
  onComplete : Json

/-- An adventure. Its files are given by a description. -/
structure Adventure where
  id : String
  title : String
  description : String
  missions : List Mission
  files : Json
  environment : List (String × String)
  criticalPaths : List String

namespace Mission

open Adventure (Error)

/-- What is said on completion: an object says it in its message or in its text. -/
def readCompletion : Json → Json
  | .object ms =>
    let message := (ms.lookup "message").getD .null
    if message.isTruthy then message else (ms.lookup "text").getD .null
  | v => v

/-- Reads a mission. -/
def ofJson (v : Json) : Except Error Mission := do
  let named ← Adventure.Reader.has "id" v
  let ms ← Adventure.Reader.members v
  let member := fun name => (ms.lookup name).getD .null
  if !named then throw (.missionWithoutId (member "title"))
  let id := (member "id").plainText
  return {
    id
    title := Adventure.Reader.textOf ms "title" id
    story := Adventure.Reader.textOf ms "story" ""
    tasks := ← Adventure.Reader.all Task.ofJson (← Adventure.Reader.elementsOf ms "tasks")
    onComplete := readCompletion (member "onComplete") }

end Mission

namespace Adventure

/-- The names that occur several times in a list, each once, in order. -/
def repeated (ids : List String) : List String :=
  let again := ids.filter fun id => ids.count id > 1
  again.eraseDups.mergeSort fun a b => decide (a ≤ b)

/-- The names of all tasks of missions. -/
def taskIds (missions : List Mission) : List String :=
  missions.flatMap fun m => m.tasks.map (·.id)

/-- The variables that a document sets. -/
def readEnvironment (v : Json) : Except Error (List (String × String)) :=
  if !v.isTruthy then .ok []
  else do return (← Reader.members v).map fun (name, value) => (name, value.plainText)

/-- Reads an adventure. -/
def ofJson (v : Json) : Except Error Adventure :=
  match v with
  | .object ms => do
    let member := fun name => (ms.lookup name).getD .null
    if (ms.lookup "id").isNone then throw (.missing "id")
    if (ms.lookup "missions").isNone then throw (.missing "missions")
    let missions ← Reader.all Mission.ofJson (← Reader.elements (member "missions"))
    let again := repeated (taskIds missions)
    if !again.isEmpty then throw (.repeatedTasks again)
    let id := (member "id").plainText
    let environment ← readEnvironment (member "environment")
    let criticalPaths ← Reader.elementsOf ms "criticalPaths"
    return {
      id
      title := Reader.textOf ms "title" id
      description := Reader.textOf ms "description" ""
      missions
      files := member "initialFileSystem"
      environment
      criticalPaths := criticalPaths.map Json.plainText }
  | _ => .error .notAnObject

/-- All tasks of an adventure. -/
def tasks (a : Adventure) : List Task := a.missions.flatMap (·.tasks)

/-- The task with a name. -/
def task? (a : Adventure) (id : String) : Option Task := a.tasks.find? (·.id == id)

/-- The files that a learner starts with. -/
def makeFiles (a : Adventure) (defaultOwner : String) (now : Int) : Except Error FileSystem :=
  match FileSystem.ofStructure a.files defaultOwner now with
  | .ok fs => .ok fs
  | .error cause => .error (.files a.id cause)

end Adventure

end PracticeShell
