import PracticeShell.Proofs.Tree.Structure
import PracticeShell.Session.Basic

/-!
# Starting over

A world that a learner can start with at some time can be made at any time (`startWorld_at`), since
neither a description of files nor the home of the learner fails for a reason that has to do with the
time. So a session that has been begun can be reset at any time.
-/

namespace PracticeShell

open FileTree FileTree.Change Run

namespace World

variable {username : String} {initial : List (String × String)} {fs other : FileSystem} {w : World}

/-- A world is made exactly if no file is on the way to the home. -/
theorem start_ok_iff : (∃ w, start username initial fs = .ok w) ↔
    ¬ fs.Obstructs (Path.home username) := by
  have hfails : Fails (Edit.makeDirectories (Path.home username) Permissions.newDirectory
      (some username)) fs ↔ fs.Obstructs (Path.home username) := Edit.makeDirectories_fails_iff
  unfold start
  dsimp only
  by_cases hhome : fs.isDirectory (Path.home username) = true
  · rw [if_pos hhome]
    refine iff_of_true ⟨_, rfl⟩ ?_
    rintro ⟨place, hplace, hfile⟩
    rw [FileSystem.kindAt_of_prefix hplace (FileSystem.isDirectory_eq_true_iff.1 hhome)] at hfile
    cases hfile
  · rw [if_neg hhome, ← hfails, not_fails_iff, EStateM.run]
    cases Edit.makeDirectories (Path.home username) Permissions.newDirectory (some username) fs with
    | ok a t => exact iff_of_true ⟨_, rfl⟩ ⟨a, t, rfl⟩
    | error e t => simp [Except.map]

/-- But for the files, a learner always starts with the same world. -/
theorem eq_of_start (h : start username initial fs = .ok w) : ∃ made, w = {
    username
    fs := made
    directory := Path.home username
    environment := Environment.start username (Path.home username) (some (Path.home username)) initial
    mode := .normal
    remote := none
    history := [] } := by
  unfold start at h
  dsimp only at h
  split at h
  · cases h
    exact ⟨fs, rfl⟩
  · split at h <;> cases h
    exact ⟨_, rfl⟩

/-- A world that a learner starts with has no session on another machine. -/
theorem remote_start (h : start username initial fs = .ok w) : w.remote = none := by
  obtain ⟨made, rfl⟩ := eq_of_start h
  rfl

/-- A world that a learner starts with waits for a command line. -/
theorem mode_start (h : start username initial fs = .ok w) : w.mode = .normal := by
  obtain ⟨made, rfl⟩ := eq_of_start h
  rfl

/-- A world that a learner starts with has no history. -/
theorem history_start (h : start username initial fs = .ok w) : w.history = [] := by
  obtain ⟨made, rfl⟩ := eq_of_start h
  rfl

end World

namespace Session

variable {o : SessionOptions} {adventure : Option Adventure} {now : Int} {w : World}

/-- The files that a learner starts with. -/
def startFiles (o : SessionOptions) (adventure : Option Adventure) (now : Int) :
    Except Fault FileSystem :=
  match adventure with
  | none => .ok (FileSystem.empty o.username now)
  | some a => (a.makeFiles o.username now).mapError Fault.adventure

theorem mapError_eq_ok_iff {ε ε' α : Type} {f : ε → ε'} {x : Except ε α} {a : α} :
    x.mapError f = .ok a ↔ x = .ok a := by
  cases x with
  | error e => exact ⟨nofun, nofun⟩
  | ok b =>
      exact ⟨fun h => congrArg _ (Except.ok.inj h), fun h => congrArg _ (Except.ok.inj h)⟩

/-- A world to start with is made from the files. -/
theorem startWorld_eq_ok_iff : startWorld o adventure now = .ok w ↔
    ∃ fs, startFiles o adventure now = .ok fs ∧ World.start o.username
      ((adventure.map (·.environment)).getD []) fs = .ok w := by
  unfold startWorld startFiles
  cases adventure <;>
    exact bind_eq_ok_iff.trans (exists_congr fun fs => and_congr_right' mapError_eq_ok_iff)

theorem remote_startWorld (h : startWorld o adventure now = .ok w) : w.remote = none := by
  obtain ⟨fs, -, hstart⟩ := startWorld_eq_ok_iff.1 h
  exact World.remote_start hstart

theorem mode_startWorld (h : startWorld o adventure now = .ok w) : w.mode = .normal := by
  obtain ⟨fs, -, hstart⟩ := startWorld_eq_ok_iff.1 h
  exact World.mode_start hstart

theorem history_startWorld (h : startWorld o adventure now = .ok w) : w.history = [] := by
  obtain ⟨fs, -, hstart⟩ := startWorld_eq_ok_iff.1 h
  exact World.history_start hstart

/-- The files to start with can be made at any time, with the same kinds of nodes. -/
theorem startFiles_at {fs : FileSystem} (h : startFiles o adventure now = .ok fs) (later : Int) :
    ∃ other, startFiles o adventure later = .ok other ∧ Structure.SameKinds fs other := by
  unfold startFiles at h ⊢
  cases adventure with
  | none =>
      cases h
      exact ⟨_, rfl, FileSystem.sameKinds_empty o.username now later⟩
  | some a =>
      dsimp only at h ⊢
      rw [mapError_eq_ok_iff] at h
      unfold Adventure.makeFiles at h ⊢
      split at h
      · rename_i hmade
        obtain ⟨other, hother, hkinds⟩ := FileSystem.ofStructure_at hmade later
        rw [hother]
        cases h
        exact ⟨other, rfl, hkinds⟩
      · cases h

/-- What can be started with at some time can be started with at any time. -/
theorem startWorld_at (h : startWorld o adventure now = .ok w) (later : Int) :
    ∃ w', startWorld o adventure later = .ok w' := by
  obtain ⟨fs, hfiles, hstart⟩ := startWorld_eq_ok_iff.1 h
  obtain ⟨other, hother, hkinds⟩ := startFiles_at hfiles later
  have hfree := World.start_ok_iff.1 ⟨w, hstart⟩
  unfold FileSystem.Obstructs at hfree
  rw [Structure.SameKinds] at hkinds
  rw [hkinds] at hfree
  obtain ⟨w', hw'⟩ := World.start_ok_iff.2 hfree
  exact ⟨w', startWorld_eq_ok_iff.2 ⟨other, hother, hw'⟩⟩

/-- The tracker that a session starts with. -/
def startTracker (adventure : Option Adventure) (store : Option ProgressStore) (resume : Bool) :
    Except Fault (Option Tracker) :=
  match adventure with
  | none => .ok none
  | some a => (savedProgress a store resume).map fun p => some (Tracker.resume a p)

theorem startTracker_eq_ok_iff {store : Option ProgressStore} {resume : Bool}
    {tracker : Option Tracker} : startTracker adventure store resume = .ok tracker ↔
      tracker = none ∧ adventure = none ∨ ∃ a p, adventure = some a ∧
        savedProgress a store resume = .ok p ∧ tracker = some (Tracker.resume a p) := by
  unfold startTracker
  cases adventure with
  | none => simp [eq_comm]
  | some a =>
      dsimp only
      cases hprogress : savedProgress a store resume <;> simp [Except.map, hprogress, eq_comm]

/-- A session starts exactly if its tracker and its world can be made. -/
theorem start_eq_ok_iff {store : Option ProgressStore} {resume : Bool} {s : Session} :
    start o adventure store resume now = .ok s ↔ ∃ tracker w,
      startTracker adventure store resume = .ok tracker ∧ startWorld o adventure now = .ok w ∧
        s = { options := o, world := w, tracker, store, journal := [.sessionStarted]
              startedAt := now, isClosed := false } := by
  constructor
  · intro h
    unfold start at h
    cases adventure with
    | none =>
        obtain ⟨tracker, htracker, h⟩ := bind_eq_ok_iff.1 h
        obtain ⟨w, hworld, h⟩ := bind_eq_ok_iff.1 h
        cases htracker
        exact ⟨none, w, rfl, hworld, (Except.ok.inj h).symm⟩
    | some a =>
        obtain ⟨p, hprogress, h⟩ := bind_eq_ok_iff.1 h
        obtain ⟨tracker, htracker, h⟩ := bind_eq_ok_iff.1 h
        obtain ⟨w, hworld, h⟩ := bind_eq_ok_iff.1 h
        cases htracker
        exact ⟨_, w, by rw [startTracker, hprogress]; rfl, hworld, (Except.ok.inj h).symm⟩
  · rintro ⟨tracker, w, htracker, hworld, rfl⟩
    unfold start
    rcases startTracker_eq_ok_iff.1 htracker with ⟨rfl, rfl⟩ | ⟨a, p, rfl, hprogress, rfl⟩
    · rw [hworld]
      rfl
    · dsimp only
      rw [hworld, hprogress]
      rfl

section

variable {store : Option ProgressStore} {resume : Bool} {s : Session}

/-- What a session begins with. -/
theorem of_start (h : start o adventure store resume now = .ok s) :
    s.options = o ∧ startWorld o adventure now = .ok s.world ∧
      (s.tracker = none ∧ adventure = none ∨ ∃ a p, adventure = some a ∧
        savedProgress a store resume = .ok p ∧ s.tracker = some (Tracker.resume a p)) := by
  obtain ⟨tracker, w, htracker, hworld, rfl⟩ := start_eq_ok_iff.1 h
  exact ⟨rfl, hworld, startTracker_eq_ok_iff.1 htracker⟩

theorem adventure?_of_start (h : start o adventure store resume now = .ok s) :
    s.adventure? = adventure := by
  obtain ⟨-, -, ⟨htracker, rfl⟩ | ⟨a, p, rfl, -, htracker⟩⟩ := of_start h <;>
    rw [adventure?, htracker] <;> rfl

end

end Session

end PracticeShell
