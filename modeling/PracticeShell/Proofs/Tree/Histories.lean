import PracticeShell.Proofs.Tree.Order
import PracticeShell.Proofs.Tree.Views

/-!
# Requests and what a file system goes through

A `Request` names an operation with its arguments; modes are given as whole words, of which only the
permission bits count. It is carried out on all files, or in a directory of a directory and so on
(`Edit.inside`). All requests bring in only names that can be met (`Request.reaches`). One that fails
leaves the file system as it was (`failed_requests_change_nothing`), except that a copy of a directory
keeps what was copied before the failure.

A `Move` is a request, carried out on all files or in a directory, the passing of time, or the step
into a directory that is the file system from then on; a view that is kept while its directory moves
is the same as one taken at the new place. Each move keeps the names in all directories
proper (`IsProper.move`), and so does any number of them (`IsProper.after`). From this comes all that
can be relied on after any moves from an empty file system (`isSound_after`).
-/

namespace PracticeShell

open FileTree FileTree.Change Run

namespace Edit

/-- An operation on a file system with its arguments. -/
inductive Request
  | makeDirectory (path : String) (mode : Int) (owner : Option String)
  | makeDirectories (path : String) (mode : Int) (owner : Option String)
  | write (path : String) (bytes : ByteArray) (owner : Option String) (mode : Int)
  | touch (path : String) (owner : Option String)
  | unlink (path : String)
  | removeDirectory (path : String)
  | removeTree (path : String)
  | rename (source target : String)
  | copyFile (source target : String) (owner : Option String)
  | copyTree (source target : String) (owner : Option String)
  | setPermissions (path : String) (mode : Int)
  | setOwner (path owner : String)

namespace Request

/-- Carries out a request. -/
def edit : Request → Edit Unit
  | makeDirectory path mode owner => Edit.makeDirectory path (Permissions.ofInt mode) owner
  | makeDirectories path mode owner => Edit.makeDirectories path (Permissions.ofInt mode) owner
  | write path bytes owner mode => Edit.write path bytes owner (Permissions.ofInt mode)
  | touch path owner => Edit.touch path owner
  | unlink path => Edit.unlink path
  | removeDirectory path => Edit.removeDirectory path
  | removeTree path => Edit.removeTree path
  | rename source target => Edit.rename source target
  | copyFile source target owner => Edit.copyFile source target owner
  | copyTree source target owner => Edit.copyTree source target owner
  | setPermissions path mode => Edit.setPermissions path (Permissions.ofInt mode)
  | setOwner path owner => Edit.setOwner path owner

/-- Whether a request is about single nodes, or else copies a whole directory. -/
def IsSingle : Request → Prop
  | copyTree .. => False
  | _ => True

instance (r : Request) : Decidable r.IsSingle := by
  cases r <;> unfold IsSingle <;> infer_instance

/-- The changes that a request makes bring in only names that can be met. -/
theorem reaches (r : Request) (fs : FileSystem) : Leads (Reaches IsNamed) r.edit fs := by
  have hnamed : ∀ {operation : Edit Unit}, Leads (Reaches IsGrowth) operation fs →
      Leads (Reaches IsNamed) operation fs := fun h =>
    h.weaken fun h => h.imp fun _ hc => hc.isNamed
  cases r with
  | makeDirectory path mode owner => exact hnamed (makeDirectory_grows fs path _ owner)
  | makeDirectories path mode owner => exact hnamed (makeDirectories_grows fs path _ owner)
  | write path bytes owner mode => exact hnamed (write_grows fs path bytes owner _)
  | touch path owner => exact hnamed (touch_grows fs path owner)
  | unlink path => exact unlink_reaches fs path
  | removeDirectory path => exact removeDirectory_reaches fs path
  | removeTree path => exact removeTree_reaches fs path
  | rename source target => exact rename_reaches fs source target
  | copyFile source target owner => exact hnamed (copyFile_grows fs source target owner)
  | copyTree source target owner => exact hnamed (copyTree_grows fs source target owner)
  | setPermissions path mode => exact hnamed (setPermissions_grows fs path _)
  | setOwner path owner => exact hnamed (setOwner_grows fs path owner)

end Request

/-- Carries out an operation in the directory at the first path as a file system of its own, there in
the directory at the second, and so on. -/
def inside {α : Type} (operation : Edit α) : List String → Edit α
  | [] => operation
  | base :: rest => FileSystem.within base id (inside operation rest)

namespace Request

variable {fs later : FileSystem} {e : FileTree.Error}

theorem eq_of_error {r : Request} (hsingle : r.IsSingle) (hrun : r.edit.run fs = .error e later) :
    later = fs := by
  cases r with
  | makeDirectory path mode owner => exact (makes_makeDirectory path _ owner fs).eq_of_error hrun
  | makeDirectories path mode owner => exact makeDirectories_eq_of_error hrun
  | write path bytes owner mode => exact (makes_write path bytes owner _ fs).eq_of_error hrun
  | touch path owner => exact (makes_touch path owner fs).eq_of_error hrun
  | unlink path => exact (makes_unlink path fs).eq_of_error hrun
  | removeDirectory path => exact (makes_removeDirectory path fs).eq_of_error hrun
  | removeTree path => exact (makes_removeTree path fs).eq_of_error hrun
  | rename source target =>
      rcases makes_rename source target fs with ⟨-, hok⟩ | hmakes
      · rw [edit, hok] at hrun
        cases hrun
      · exact hmakes.eq_of_error hrun
  | copyFile source target owner => exact (makes_copyFile source target owner fs).eq_of_error hrun
  | copyTree source target owner => exact absurd hsingle id
  | setPermissions path mode => exact (makes_setPermissions path _ fs).eq_of_error hrun
  | setOwner path owner => exact (makes_setOwner path owner fs).eq_of_error hrun

end Request

/-- A request that fails leaves the whole file system as it was, also when it is carried out in a
directory that serves as a file system of its own. -/
theorem failed_requests_change_nothing (r : Request) (hsingle : r.IsSingle) (bases : List String)
    (fs later : FileSystem) (e : FileTree.Error)
    (hrun : (inside r.edit bases).run fs = .error e later) : later = fs := by
  induction bases generalizing fs later e with
  | nil => exact r.eq_of_error hsingle hrun
  | cons base rest ih =>
      rw [inside, run_within] at hrun
      cases hview : fs.view base with
      | error d =>
          rw [hview] at hrun
          exact (EStateM.Result.error.inj hrun).2.symm
      | ok inner =>
          rw [hview] at hrun
          dsimp only at hrun
          cases hinner : (inside r.edit rest).run inner with
          | ok a t =>
              rw [hinner] at hrun
              cases hrun
          | error d t =>
              rw [hinner] at hrun
              obtain rfl := ih inner t d hinner
              rw [← (EStateM.Result.error.inj hrun).2]
              exact FileSystem.putBack_view hview

/-- A directory with a file in it. -/
def boxOfNotes : FileSystem :=
  { FileSystem.empty "ada" 1 with
    entries := [("box", .directory ⟨"ada", Permissions.newDirectory, 1⟩
      [("notes", .file ⟨"ada", Permissions.newFile, 1⟩ ByteArray.empty)])] }

/-- In the directory, no directories can be made below the file. -/
theorem makeDirectories_stops_at_notes :
    let r : Request := .makeDirectories "/notes/old/2019" 0o755 none
    r.IsSingle ∧ ∃ later, (inside r.edit ["/box"]).run boxOfNotes =
      .error ⟨.notADirectory, "/notes"⟩ later ∧ later = boxOfNotes := by
  intro r
  have hsingle : r.IsSingle := trivial
  have hrun : (inside r.edit ["/box"]).run boxOfNotes =
      .error ⟨.notADirectory, "/notes"⟩ boxOfNotes := rfl
  exact ⟨hsingle, _, hrun, failed_requests_change_nothing r hsingle ["/box"] _ _ _ hrun⟩

end Edit

/-- What can happen to a file system, whether it succeeds or fails. -/
inductive Move
  /-- A request is carried out in the directory at the first path, there in the directory at the
  second, and so on. -/
  | request (bases : List String) (r : Edit.Request)
  /-- Time passes, or the clock is set. -/
  | wait (now : Int)
  /-- The directory at a path is looked at as a file system of its own from then on. -/
  | enter (path : String)

namespace Stat

/-- A mode shows the kind above the permissions, and has no other bits. -/
theorem mode_bits (s : Stat) :
    s.mode &&& 0o170000 = (if s.isDirectory then 0o40000 else 0o100000) ∧
      s.mode &&& 0o170777 = s.mode := by
  have hdirectory : ∀ p : Permissions, (0o40000 + p.val) &&& 0o170000 = 0o40000 ∧
      (0o40000 + p.val) &&& 0o170777 = 0o40000 + p.val := by decide +kernel
  have hfile : ∀ p : Permissions, (0o100000 + p.val) &&& 0o170000 = 0o100000 ∧
      (0o100000 + p.val) &&& 0o170777 = 0o100000 + p.val := by decide +kernel
  rw [mode]
  split
  · exact hdirectory s.permissions
  · exact hfile s.permissions

end Stat

namespace FileSystem

/-- The file system after a move. -/
def move (fs : FileSystem) : Move → FileSystem
  | .request bases r => left ((Edit.inside r.edit bases).run fs)
  | .wait now => { fs with now }
  | .enter path =>
    match fs.view path with
    | .ok inner => inner
    | .error _ => fs

/-- The file system after moves, one after the other. -/
def after (fs : FileSystem) (moves : List Move) : FileSystem := moves.foldl move fs

/-- What can be relied on in a file system. -/
structure IsSound (fs : FileSystem) : Prop where
  /-- The names in a directory are distinct and can be met on the way to a place. -/
  names : ∀ path names, fs.names path = .ok names →
    names.Nodup ∧ ∀ name ∈ names, Path.IsSegment name
  /-- The mode of a node shows its kind and its permissions, and nothing else. -/
  mode : ∀ path s, fs.stat? path = some s →
    s.mode &&& 0o170000 = (if fs.isDirectory path then 0o40000 else 0o100000) ∧
      s.mode &&& 0o170777 = s.mode
  /-- The walk from the root lists all there is. -/
  walk : ∃ nodes, fs.walk "/" = .ok nodes ∧ fs.IsListing nodes

variable {fs : FileSystem}

theorem IsProper.inside (h : fs.IsProper) (r : Edit.Request) (bases : List String) :
    (left ((Edit.inside r.edit bases).run fs)).IsProper := by
  induction bases generalizing fs with
  | nil => exact h.of_reaches (r.reaches fs)
  | cons base rest ih =>
      rw [Edit.inside]
      cases hview : fs.view base with
      | error e =>
          rw [Edit.run_within, hview]
          exact h
      | ok inner =>
          rw [Edit.left_run_within hview]
          exact h.putBack (view_eq_ok_iff.1 ⟨inner, hview⟩) (ih (h.view hview))

/-- A move keeps a file system proper. -/
theorem IsProper.move (h : fs.IsProper) (m : Move) : (fs.move m).IsProper := by
  cases m with
  | request bases r => exact h.inside r bases
  | wait now => exact h
  | enter path =>
      rw [FileSystem.move]
      cases hview : fs.view path with
      | error e => exact h
      | ok inner => exact h.view hview

/-- Moves keep a file system proper. -/
theorem IsProper.after (h : fs.IsProper) (moves : List Move) : (fs.after moves).IsProper := by
  induction moves generalizing fs with
  | nil => exact h
  | cons m moves ih => exact ih (h.move m)

/-- A proper file system is sound. -/
theorem IsProper.isSound (h : fs.IsProper) : fs.IsSound where
  names _ _ hnames := h.names hnames
  mode path s hs := by
    obtain ⟨node, hnode, rfl⟩ := Option.map_eq_some_iff.1 hs
    have hkind : fs.isDirectory path = (fs.statOf (Path.segments path) node).isDirectory := by
      rw [isDirectory, hnode]
      rfl
    rw [hkind]
    exact Stat.mode_bits _
  walk := h.exists_listing

/-- Whatever a new file system goes through, it is sound. -/
theorem isSound_after (defaultOwner : String) (now : Int) (moves : List Move) :
    ((empty defaultOwner now).after moves).IsSound :=
  ((isProper_empty defaultOwner now).after moves).isSound

end FileSystem

end PracticeShell
