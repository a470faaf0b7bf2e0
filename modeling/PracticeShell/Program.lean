import PracticeShell.Adventure.Shelf
import PracticeShell.Play
import PracticeShell.Settings
import PracticeShell.Usage.Errand

/-!
# The program

`Program.begin` does what the program is started for, in its `Surroundings`: settings, disk and
time. An adventure is then played until its `Play` has ended; all else is finished at once with a
`Report`. `Program.run` is the whole program for an input that is known beforehand.
-/

namespace PracticeShell

/-- What the program finds when it is started. -/
structure Surroundings where
  settings : Settings
  disk : Disk
  now : Int

namespace Surroundings

/-- The shelf of adventures. -/
def shelf (s : Surroundings) : Shelf :=
  ⟨s.settings.locations.adventures, s.settings.locations.adventure, s.disk⟩

/-- The store of saved progress. -/
def store (s : Surroundings) : ProgressStore := ⟨s.settings.locations.progress, s.disk⟩

/-- The options of a session. -/
def options (s : Surroundings) : SessionOptions :=
  let shell := s.settings.shell
  { username := shell.username
    hostname := shell.hostname
    password := shell.password
    remoteHosts := shell.remoteHosts
    confirms := shell.confirms
    historyLimit := shell.historyLimit }

end Surroundings

namespace Program

/-- Why the program breaks off. -/
inductive Fault
  | shelf (cause : Shelf.Fault)
  | store (cause : ProgressStore.Fault)
  | play (cause : Play.Fault)
  /-- The file of the log cannot be made. -/
  | log (cause : Disk.Error)

/-- The message that tells why the program breaks off. -/
def Fault.message : Fault → String
  | shelf cause => cause.message
  | store _ => "the saved progress cannot be used"
  | play (.session (.adventure cause)) => cause.message
  | play (.session _) => "the session has failed"
  | play .interrupted => "interrupted"
  | log cause => "the log cannot be made: " ++ cause.text

/-- What the program leaves. -/
structure Report where
  exitCode : Nat
  written : List String
  disk : Disk

/-- Where the program stands after it has begun. -/
inductive Stage
  | finished (report : Report)
  | playing (play : Play)

/-- Makes the file of the log, if there is to be one and it is not there. -/
def openLog (s : Surroundings) : Except Fault Surroundings :=
  match s.settings.log.file with
  | none => .ok s
  | some path =>
    match s.disk.read path with
    | .ok _ => .ok s
    | .error _ =>
      match s.disk.put path .empty with
      | .ok disk => .ok { s with disk }
      | .error e => .error (.log e)

/-- The report of a program that writes lines and leaves the disk as it is. -/
def say (s : Surroundings) (exitCode : Nat) (lines : List String) : Stage :=
  .finished ⟨exitCode, lines.map (· ++ "\n"), s.disk⟩

/-- What is said about an adventure that cannot be loaded, if that is expected of files. -/
def complaint (e : Shelf.Fault) : Except Fault String :=
  if e.isExpected then .ok (Look.red.apply ("Error: " ++ e.message)) else .error (.shelf e)

/-- Finds the file of an adventure. -/
def find (s : Surroundings) (adventure : Option String) : Except Fault String :=
  (s.shelf.find (adventure.getD "")).mapError .shelf

/-- Begins to play an adventure. -/
def play (s : Surroundings) (adventure : Option String) (isFresh : Bool) : Except Fault Stage := do
  match s.shelf.load (← find s adventure) with
  | .error e => return say s 1 [← complaint e]
  | .ok a =>
    let saved ← if isFresh then pure none else (s.store.load a.id).mapError Fault.store
    match Session.start s.options (some a) (some s.store) (!isFresh) s.now with
    | .error e => throw (.play (.session e))
    | .ok session => return .playing (.start a saved.isSome session)

/-- What a server says when it begins. -/
def invitation (host : String) (port : Int) : List String :=
  let shown := if host = "0.0.0.0" then "127.0.0.1" else host
  ["", "shellquest listening on " ++ host ++ ":" ++ toString port,
    "Connect with: ssh student@" ++ shown ++ " -p " ++ toString port,
    "Press Ctrl+C to stop", ""]

/-- Begins to serve. No port can be opened here, so this always ends with a failure. -/
def serve (s : Surroundings) (adventure host : Option String) (port : Option Int) :
    Except Fault Stage := do
  let server := s.settings.server
  let hostText := host.getD ""
  let portNumber := port.getD 0
  let greeting := Look.cyan.apply banner
  match s.shelf.load (← find s adventure) with
  | .error e => return say s 1 [greeting, ← complaint e]
  | .ok _ =>
    return say s 1 (greeting ::
      invitation (if hostText = "" then server.host else hostText)
        (if portNumber = 0 then server.port else portNumber))

/-- Lists the adventures. -/
def listAdventures (s : Surroundings) : Except Fault Stage := do
  match ← s.shelf.listing.mapError Fault.shelf with
  | some lines => return say s 0 lines
  | none => return say s 1 ["No adventures found in: " ++ s.shelf.directory]

/-- What is said where there is no progress. -/
def noProgress (id : String) : String := "No saved progress for: " ++ id

/-- Shows the saved progress of an adventure. -/
def showProgress (s : Surroundings) (id : String) : Except Fault Stage := do
  match ← (s.store.loadDocument id).mapError Fault.store with
  | some v => return say s 0 [v.indented 2]
  | none => return say s 1 [noProgress id]

/-- Removes the saved progress of an adventure. -/
def removeProgress (s : Surroundings) (id : String) : Stage :=
  match s.store.clear id with
  | (true, store) => say { s with disk := store.disk } 0 ["Progress reset for: " ++ id]
  | (false, _) => say s 0 [noProgress id]

/-- The files that may be read to play or to serve an adventure. -/
def filesFor (s : Surroundings) (adventure : Option String) : List String :=
  match adventure with
  | none => [s.shelf.standard]
  | some text => [s.shelf.standard, text, s.shelf.calledAfter text]

/-- The files that may be read on an errand, apart from those in the directories of adventures and
of saved progress. -/
def filesOn (s : Surroundings) : Errand → List String
  | .play adventure _ | .serve adventure .. => filesFor s adventure
  | _ => []

/-- Begins what the program is started for. -/
def begin (s : Surroundings) (errand : Errand) : Except Fault Stage := do
  let s ← openLog s
  match errand with
  | .play adventure isFresh => play s adventure isFresh
  | .serve adventure host port _ => serve s adventure host port
  | .listAdventures => listAdventures s
  | .showProgress id => showProgress s id
  | .removeProgress id => return removeProgress s id
  | .explain page => return say s 0 [page.text]

/-- The report of a play. -/
def reportOf (s : Surroundings) (p : Play) : Report :=
  ⟨0, p.console.written, (p.console.session.store.getD s.store).disk⟩

/-- The whole program with all that is typed. -/
def run (s : Surroundings) (errand : Errand) (inputs : List Keyboard) : Except Fault Report := do
  match ← begin s errand with
  | .finished report => return report
  | .playing p =>
    match Play.run inputs p with
    | .ok _ p => return reportOf s p
    | .error e _ => throw (.play e)

end Program

end PracticeShell
