import PracticeShell.Environment
import PracticeShell.FileTree.View
import PracticeShell.Json.Number
import PracticeShell.Session.Mode

/-!
# The world of a session

The `World` is what a learner can change: files, current directory, variables, the session on
another machine, the history, and the mode. The files of other machines are kept under `/remotes`,
one directory for each user; while a session on another machine is open, that directory is all that
commands see (`Step.onView`). A `Step` changes a world and can fail.
-/

namespace PracticeShell

/-- An open session on another machine. -/
structure RemoteSession where
  host : String
  user : String
  directory : String
  startedAt : Int
deriving DecidableEq, Repr

namespace RemoteSession

/-- Where the files of other machines are kept. -/
def root : String := "/remotes"

/-- The directory that holds the files that a user sees on other machines. -/
def baseOf (user : String) : String := root ++ "/" ++ user ++ "/filesystem"

/-- The directory that holds the files of this session. -/
def base (r : RemoteSession) : String := baseOf r.user

end RemoteSession

/-- What a learner can change. The time is kept by the files. -/
structure World where
  username : String
  fs : FileSystem
  directory : String
  environment : Environment
  mode : Mode
  remote : Option RemoteSession
  history : List String

/-- Why a step of a session cannot be carried out. -/
inductive StepFault
  /-- A file operation fails where it is not expected to. -/
  | tree (cause : FileTree.Error)
  /-- A number is not read. -/
  | number (cause : Json.NumberError)
deriving DecidableEq, Repr

/-- A change of a world that can fail. -/
abbrev Step (α : Type) := EStateM StepFault World α

namespace World

/-- The current time. -/
def now (w : World) : Int := w.fs.now

/-- Lets time pass. -/
def tick (seconds : Int) (w : World) : World :=
  { w with fs := { w.fs with now := w.fs.now + seconds } }

/-- The world that a learner starts with, made from files and first variables. The home directory is
made if it is not there. -/
def start (username : String) (initial : List (String × String)) (fs : FileSystem) :
    Except FileTree.Error World :=
  let home := Path.home username
  let made : Except FileTree.Error FileSystem :=
    if fs.isDirectory home then .ok fs
    else
      match Edit.makeDirectories home Permissions.newDirectory (some username) fs with
      | .ok _ fs => .ok fs
      | .error e _ => .error e
  made.map fun fs => {
    username, fs
    directory := home
    environment := Environment.start username home (some home) initial
    mode := .normal
    remote := none
    history := [] }

/-- Who runs the next command, and where. -/
def context (w : World) : Context :=
  match w.remote with
  | some r => ⟨r.directory, r.user, false⟩
  | none => ⟨w.directory, w.username, false⟩

/-- The directory that is all that commands see, if a session on another machine is open. -/
def viewBase (w : World) : Option String := w.remote.map (·.base)

/-- The files at a directory, or all files. -/
def viewAt (w : World) : Option String → Except FileTree.Error FileSystem
  | none => .ok w.fs
  | some base => w.fs.view base

/-- Goes to a directory. -/
def changeDirectory (path : String) (w : World) : World :=
  match w.remote with
  | some r => { w with remote := some { r with directory := path } }
  | none => { w with directory := path, environment := w.environment.changeDirectory path }

/-- Notes a command line in the history, which keeps at most `limit` lines if the limit is
positive. -/
def remember (line : String) (limit : Int) (w : World) : World :=
  let history := w.history ++ [line]
  let extra := if limit > 0 then history.length - limit.toNat else 0
  { w with history := history.drop extra }

end World

namespace Step

/-- The result of a question that may fail. -/
def ask {α : Type} : Except FileTree.Error α → Step α
  | .ok a => return a
  | .error e => throw (.tree e)

/-- Runs a file operation on all files. -/
def edit {α : Type} (operation : Edit α) : Step α := fun w =>
  match operation w.fs with
  | .ok a fs => .ok a { w with fs }
  | .error e fs => .error (.tree e) { w with fs }

/-- The files that commands see, given the directory that is all that they see. -/
def look (base : Option String) : Step FileSystem := do ask ((← get).viewAt base)

/-- Runs an operation on the files that commands see. -/
def onView {α : Type} (base : Option String) (operation : StateM FileSystem α) : Step α :=
  fun w =>
    match base with
    | none =>
      let (a, fs) := operation w.fs
      .ok a { w with fs }
    | some path =>
      match w.fs.view path with
      | .error e => .error (.tree e) w
      | .ok inner =>
        let (a, inner) := operation inner
        .ok a { w with fs := w.fs.putBack path inner }

/-- Tries a file operation on the files that commands see and tells the failure. -/
def attempt (base : Option String) (operation : Edit Unit) : Step (Option FileTree.Error) :=
  onView base fun fs =>
    match operation fs with
    | .ok _ fs => (none, fs)
    | .error e fs => (some e, fs)

end Step

end PracticeShell
