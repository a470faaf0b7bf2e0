import PracticeShell.Proofs.Tree.Making
import PracticeShell.Session.Meta

/-!
# What happens to a session

A session goes from input to input: lines, questions, answers to what is shown, and what is done to
it from outside. An input that fails leaves the session as it is when the fault occurs, and the
session takes further inputs (`Session.after`).
-/

namespace PracticeShell

open FileTree Run

/-- What can happen to a session. -/
inductive Input
  /-- A line from the learner. -/
  | line (text : String)
  /-- A line that may be a question about the adventure. -/
  | question (text : String)
  /-- The answer to a screen or to a warning. -/
  | answer (resolution : Resolution)
  | hint (level : Int)
  | reset
  | close
  /-- Time passes. -/
  | tick (seconds : Int)

/-- What a session does with an input. -/
def Input.act : Input → Session.Action Unit
  | line text => do let _ ← Session.submit text
  | question text => do let _ ← Session.ask text
  | answer resolution => do let _ ← Session.resolve resolution
  | hint level => do let _ ← Session.hint level
  | reset => Session.reset
  | close => Session.close
  | tick seconds => modify fun s => { s with world := s.world.tick seconds }

namespace Session

/-- A session after an input. -/
def next (s : Session) (i : Input) : Session := left (i.act.run s)

/-- A session after some inputs. -/
def after (s : Session) (inputs : List Input) : Session := inputs.foldl next s

@[simp]
theorem after_nil (s : Session) : s.after [] = s := rfl

@[simp]
theorem after_cons (s : Session) (i : Input) (inputs : List Input) :
    s.after (i :: inputs) = (s.next i).after inputs := rfl

/-- Files with nothing but the home of a user. -/
def homeOfAda : FileSystem where
  name := ""
  attributes := ⟨"ada", Permissions.newDirectory, 0⟩
  entries := [("home", .directory ⟨"ada", Permissions.newDirectory, 0⟩
    [("ada", .directory ⟨"ada", Permissions.newDirectory, 0⟩ [])])]
  defaultOwner := "ada"
  now := 0

/-- A session that has just begun, with no adventure. -/
def justBegun : Session where
  options := ⟨"ada", "lab", "secret", [], true, 0⟩
  world :=
    { username := "ada"
      fs := homeOfAda
      directory := "/home/ada"
      environment := Environment.start "ada" "/home/ada" (some "/home/ada") []
      mode := .normal
      remote := none
      history := [] }
  tracker := none
  store := none
  journal := [.sessionStarted]
  startedAt := 0
  isClosed := false

theorem fs_justBegun : justBegun.world.fs = homeOfAda := rfl

theorem context_justBegun : justBegun.world.context = ⟨"/home/ada", "ada", false⟩ := rfl

theorem run_makeDirectories_home :
    (Edit.makeDirectories "/home/ada" Permissions.newDirectory (some "ada")).run
      (FileSystem.empty "ada" 0) = .ok () homeOfAda := by
  let withHome : FileSystem := { FileSystem.empty "ada" 0 with
    entries := [("home", .directory ⟨"ada", Permissions.newDirectory, 0⟩ [])] }
  have hhomePath : Path.segments "/home" = [] ++ ["home"] := by decide
  have hhome : (Edit.makeDirectory "/home" Permissions.newDirectory (some "ada")).run
      (FileSystem.empty "ada" 0) = .ok () withHome :=
    Edit.run_makeDirectory hhomePath rfl rfl _ _
  have hadaPath : Path.segments "/home/ada" = ["home"] ++ ["ada"] := by decide
  have hada : (Edit.makeDirectory "/home/ada" Permissions.newDirectory (some "ada")).run withHome =
      .ok () homeOfAda :=
    Edit.run_makeDirectory hadaPath rfl rfl _ _
  have hpath : Path.segments "/home/ada" = ["home", "ada"] := by decide
  have hfirst : Path.ofSegments ["home"] = "/home" := by decide
  have hsecond : Path.ofSegments ["home", "ada"] = "/home/ada" := by decide
  unfold Edit.makeDirectories Edit.makeAlong
  rw [hpath, run_get_bind]
  change EStateM.run (Edit.makeDirectory (Path.ofSegments ["home"]) _ _ >>= fun _ =>
    Edit.makeAlong _ _ ["home"] ["ada"]) _ = _
  rw [hfirst, run_bind_of_ok hhome]
  unfold Edit.makeAlong
  rw [run_get_bind]
  change EStateM.run (Edit.makeDirectory (Path.ofSegments ["home", "ada"]) _ _ >>= fun _ =>
    Edit.makeAlong _ _ ["home", "ada"] []) _ = _
  rw [hsecond, run_bind_of_ok hada]
  rfl

theorem start_justBegun : start ⟨"ada", "lab", "secret", [], true, 0⟩ none none true 0 =
    .ok justBegun := by
  have hpath : Path.home "ada" = "/home/ada" := by decide
  have hhome : (FileSystem.empty "ada" 0).isDirectory "/home/ada" = false := by decide
  have hmade := run_makeDirectories_home
  rw [EStateM.run] at hmade
  have hworld : startWorld ⟨"ada", "lab", "secret", [], true, 0⟩ none 0 = .ok justBegun.world := by
    unfold startWorld World.start
    dsimp only [pure, Except.pure, bind, Except.bind]
    rw [hpath, if_neg (by rw [hhome]; simp), hmade]
    rfl
  unfold start
  rw [hworld]
  rfl

end Session

end PracticeShell
