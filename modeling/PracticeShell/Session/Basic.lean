import PracticeShell.Calendar
import PracticeShell.Journal
import PracticeShell.Progress.Store
import PracticeShell.Progress.Tracker
import PracticeShell.Session.World

/-!
# Sessions

A `Session` is one learner's shell: the world that the learner changes, the progress in an
adventure, the store that progress is saved in, and the journal. `Session.start` begins one,
`Session.reset` goes back to the beginning, `Session.close` ends it. What a session does is a
`Session.Action`, which can fail; what is done before a failure stays done.
-/

namespace PracticeShell

/-- What does not change in a session. -/
structure SessionOptions where
  username : String
  hostname : String
  password : String
  remoteHosts : List String
  confirms : Bool
  historyLimit : Int

/-- The answer of a session to a line. -/
structure Response where
  output : String := ""
  errors : String := ""
  exitCode : Nat := 0
  prompt : String
  masked : Bool := false
  intent : Option Intent := none
  events : List Event := []
  leaves : Bool := false

/-- A response as a value of the data format. -/
def Response.toJson (r : Response) : Json :=
  .object [("stdout", .string r.output), ("stderr", .string r.errors),
    ("exit_code", .ofNat r.exitCode), ("prompt", .string r.prompt), ("mask_input", .bool r.masked),
    ("intent", match r.intent with
      | some i => i.toJson
      | none => .null),
    ("events", .array (r.events.map Event.toJson)), ("exit_requested", .bool r.leaves)]

/-- One learner's shell. -/
structure Session where
  options : SessionOptions
  world : World
  tracker : Option Tracker
  store : Option ProgressStore
  journal : Journal
  startedAt : Int
  isClosed : Bool

namespace Session

/-- Why something in a session cannot be done. -/
inductive Fault
  | step (cause : StepFault)
  | task (cause : Task.Fault)
  | store (cause : ProgressStore.Fault)
  | adventure (cause : Adventure.Error)

/-- What a session does. -/
abbrev Action (α : Type) := EStateM Fault Session α

/-- The adventure of a session. -/
def adventure? (s : Session) : Option Adventure := s.tracker.map (·.adventure)

/-- The world that a learner starts an adventure with. -/
def startWorld (o : SessionOptions) (adventure : Option Adventure) (now : Int) :
    Except Fault World := do
  let fs ← match adventure with
    | none => pure (FileSystem.empty o.username now)
    | some a => (a.makeFiles o.username now).mapError Fault.adventure
  let initial := match adventure with
    | some a => a.environment
    | none => []
  (World.start o.username initial fs).mapError fun e => .step (.tree e)

/-- The progress that a session goes on from: what the store holds, if it is asked for. -/
def savedProgress (a : Adventure) (store : Option ProgressStore) (resume : Bool) :
    Except Fault Progress :=
  match store, resume with
  | some store, true =>
    match store.load a.id with
    | .ok p => .ok (p.getD Progress.start)
    | .error e => .error (.store e)
  | _, _ => .ok Progress.start

/-- Begins a session. -/
def start (o : SessionOptions) (adventure : Option Adventure) (store : Option ProgressStore)
    (resume : Bool) (now : Int) : Except Fault Session := do
  let tracker ← match adventure with
    | none => pure none
    | some a => do pure (some (Tracker.resume a (← savedProgress a store resume)))
  let world ← startWorld o adventure now
  return {
    options := o
    world, tracker, store
    journal := [.sessionStarted]
    startedAt := now
    isClosed := false }

/-- Notes an activity. -/
def note (a : Activity) : Action Unit := modify fun s => { s with journal := s.journal ++ [a] }

/-- Runs a step on the world. -/
def step {α : Type} (operation : Step α) : Action α := fun s =>
  match operation s.world with
  | .ok a world => .ok a { s with world }
  | .error e world => .error (.step e) { s with world }

/-- Sets what is done with the next line. -/
def setMode (mode : Mode) : Action Unit :=
  modify fun s => { s with world := { s.world with mode } }

/-- Saves the progress, if there is a store. -/
def saveProgress : Action Unit := do
  match (← get).tracker, (← get).store with
  | some t, some store =>
    match store.save t.adventure.id t.progress (Calendar.stamp (← get).world.now) with
    | .ok (_, store) => modify fun s => { s with store := some store }
    | .error e => throw (.store e)
  | _, _ => return ()

/-- Ends a session; a second end does nothing. -/
def close : Action Unit := do
  if (← get).isClosed then return ()
  modify fun s => { s with isClosed := true }
  saveProgress
  let s ← get
  note (.sessionEnded (s.world.now - s.startedAt))

/-- Goes back to the beginning and forgets the saved progress. -/
def reset : Action Unit := do
  let s ← get
  match startWorld s.options s.adventure? s.world.now with
  | .error e => throw e
  | .ok world =>
    let store := match s.tracker, s.store with
      | some t, some store => some (store.clear t.adventure.id).2
      | _, store => store
    set { s with world, store, tracker := s.tracker.map Tracker.reset }
    note .reset

/-- The text that asks for the next line. -/
def prompt (s : Session) : String :=
  let w := s.world
  match w.mode with
  | .collecting .. => "> "
  | .password .. => "[sudo] password for " ++ w.context.username ++ ": "
  | _ =>
    match w.remote with
    | some r => r.user ++ "@" ++ r.host ++ ":" ++ Path.display r.directory r.user ++ "$ "
    | none =>
      w.username ++ "@" ++ s.options.hostname ++ ":" ++ Path.display w.directory w.username ++ "$ "

/-- The intent that the session waits for. -/
def intent? (s : Session) : Option Intent := s.world.mode.intent?

end Session

end PracticeShell
