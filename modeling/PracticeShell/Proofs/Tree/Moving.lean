import PracticeShell.Proofs.Tree.CopyTree
import PracticeShell.Proofs.Tree.Writing

/-!
# What moving a node changes

A node is moved to another place if that is in a directory and not within the node itself, and nothing
is there or what a node of its kind can replace (`rename_succeeds_iff`). Then it is found there with all
that it holds and is gone from its old place, and of all other nodes only the two directories change,
of which one lists a name less and the other a name more (`rename_moves_tree`).
-/

namespace PracticeShell

open FileTree FileTree.Change

/-- Whether the node at a path can be moved to another place. -/
def FileSystem.CanMove (fs : FileSystem) (source target : String) : Prop :=
  fs.CanHold target ∧ Path.isWithin target source = false ∧
    ∃ node, fs.find? source = some node ∧ CanReplace node (fs.find? target)

namespace FileTree

theorem Face.mapNames_mapNames (now : Int) (f g : List String → List String) (face : Face) :
    (face.mapNames now f).mapNames now g = face.mapNames now fun names => g (f names) := by
  cases face <;> rfl

namespace Change

variable {fs : FileSystem} {parent newParent : List String} {name newName : String}

/-- A node is moved to a place apart from its own: what it lies in is not empty. -/
theorem apart_of_fits_move (h : Fits fs (move parent name newParent newName)) :
    Apart (parent ++ [name]) (newParent ++ [newName]) := by
  obtain ⟨-, houtside, node, hnode, hreplace⟩ := h
  refine ⟨houtside, ?_⟩
  rintro ⟨below, hbelow⟩
  rw [← hbelow, Node.find?_append] at hnode
  obtain ⟨there, hthere, hlast⟩ := Option.bind_eq_some_iff.1 hnode
  rw [hthere] at hreplace
  rw [Node.find?_of_entries_eq_nil hreplace.2] at hlast
  cases below with
  | nil => exact houtside (by simp [← hbelow])
  | cons n rest => cases hlast

/-- What is seen of the directory that a node is moved out of. -/
theorem faceAt_move_parent (h : Fits fs (move parent name newParent newName))
    (hne : parent ≠ newParent) :
    (apply fs (move parent name newParent newName)).faceAt parent =
      (fs.faceAt parent).map (Face.mapNames fs.now (·.filter (· ≠ name))) := by
  have hbeside : ¬ newParent ++ [newName] <+: parent := fun hwithin =>
    (apart_of_fits_move h).2 (hwithin.trans (List.prefix_append _ _))
  rw [faceAt_move h, if_neg hbeside, if_neg (not_append_prefix_self parent name), Option.map_map]
  congr 1
  funext face
  simp [hne]

/-- What is seen of the directory that a node is moved into. -/
theorem faceAt_move_newParent (h : Fits fs (move parent name newParent newName)) :
    (apply fs (move parent name newParent newName)).faceAt newParent =
      (fs.faceAt newParent).map (Face.mapNames fs.now fun names => Face.addName newName
        (if parent = newParent then names.filter (· ≠ name) else names)) := by
  have hbeside : ¬ parent ++ [name] <+: newParent := fun hwithin =>
    (apart_of_fits_move h).1 (hwithin.trans (List.prefix_append _ _))
  rw [faceAt_move h, if_neg (not_append_prefix_self newParent newName), if_neg hbeside,
    Option.map_map]
  congr 1
  funext face
  by_cases hsame : parent = newParent
  · simp [hsame, Face.mapNames_mapNames]
  · simp [hsame, Ne.symm hsame]

end Change

end FileTree

namespace Edit

open FileSystem

variable {fs later : FileSystem} {source target : String}

/-- A node that has been moved to another place was moved by a move that fits. -/
theorem rename_cases (hne : Path.normalize source ≠ Path.normalize target)
    (h : (rename source target).run fs = .ok () later) :
    ∃ parent name newParent newName, Path.segments source = parent ++ [name] ∧
      Path.segments target = newParent ++ [newName] ∧
      Fits fs (.move parent name newParent newName) ∧
      Change.apply fs (.move parent name newParent newName) = later := by
  rcases makes_rename source target fs with ⟨hsame, -⟩ | hmakes
  · exact absurd ((Path.normalize_eq_iff source target).2 hsame.symm) hne
  · obtain ⟨_, ⟨parent, name, newParent, newName, hsource, htarget, rfl⟩, hfits, rfl⟩ :=
      hmakes.of_ok h
    exact ⟨parent, name, newParent, newName, hsource, htarget, hfits, rfl⟩

/-- When a node is moved to another place. -/
theorem rename_succeeds_iff (hne : Path.normalize source ≠ Path.normalize target) :
    (∃ later, (rename source target).run fs = .ok () later) ↔ fs.CanMove source target := by
  have houtside : Path.isWithin target source = false ↔
      ¬ Path.segments source <+: Path.segments target := by
    rw [← Path.isWithin_iff, Bool.not_eq_true]
  constructor
  · rintro ⟨later, hrun⟩
    obtain ⟨parent, name, newParent, newName, hsource, htarget, ⟨hdir, hprefix, hreplace⟩, -⟩ :=
      rename_cases hne hrun
    refine ⟨⟨newParent, newName, htarget, any_isDirectory_iff.1 hdir⟩, ?_, ?_⟩
    · rwa [houtside, hsource, htarget]
    · rwa [FileSystem.find?, FileSystem.find?, hsource, htarget]
  · rintro ⟨⟨newParent, newName, htarget, hdir⟩, hwithin, hreplace⟩
    rw [houtside] at hwithin
    rcases List.eq_nil_or_concat (Path.segments source) with hroot | ⟨parent, name, hsource⟩
    · exact absurd (hroot ▸ List.nil_prefix) hwithin
    · rw [List.concat_eq_append] at hsource
      rw [FileSystem.find?, FileSystem.find?, hsource, htarget] at hreplace
      exact ⟨_, run_rename hsource htarget
        ⟨any_isDirectory_iff.2 hdir, hsource ▸ htarget ▸ hwithin, hreplace⟩⟩

/-- What a file system has become when the node at a path has been moved to another place. -/
structure IsMoved (source target : String) (fs later : FileSystem) : Prop where
  /-- The node and all that it holds is at the new place as it was at the old one. -/
  arrived : ∀ below, later.faceAt (Path.segments target ++ below) =
    fs.faceAt (Path.segments source ++ below)
  /-- Nothing is left at the old place. -/
  gone : ∀ below, later.faceAt (Path.segments source ++ below) = none
  /-- At the new place there was nothing, or a file where a file has come, or an empty directory where
  a directory has come. -/
  replaced : ∃ node, fs.find? source = some node ∧ CanReplace node (fs.find? target)
  /-- The old directory is stamped with the time and lists the name no more. -/
  taken : Path.dirname source ≠ Path.dirname target →
    later.faceAt (Path.segments (Path.dirname source)) =
      (fs.faceAt (Path.segments (Path.dirname source))).map
        (Face.mapNames fs.now (·.filter (· ≠ Path.basename (Path.normalize source))))
  /-- The new directory is stamped with the time and lists the new name, which comes last if it is not
  there yet. -/
  added : later.faceAt (Path.segments (Path.dirname target)) =
    (fs.faceAt (Path.segments (Path.dirname target))).map (Face.mapNames fs.now fun names =>
      Face.addName (Path.basename (Path.normalize target))
        (if Path.dirname source = Path.dirname target then
          names.filter (· ≠ Path.basename (Path.normalize source))
        else names))
  /-- All that is at neither place nor below one, apart from their directories, is as it was. -/
  others : ∀ other, Path.isWithin other source = false → Path.isWithin other target = false →
    Path.normalize other ≠ Path.dirname source → Path.normalize other ≠ Path.dirname target →
    later.faceAt (Path.segments other) = fs.faceAt (Path.segments other)

/-- A node is moved exactly if it can be, and then it is at its new place with all that it holds, and
nothing else changes but the two directories. -/
theorem rename_moves_tree (hne : Path.normalize source ≠ Path.normalize target) :
    ((∃ later, (rename source target).run fs = .ok () later) ↔ fs.CanMove source target) ∧
      ∀ later, (rename source target).run fs = .ok () later → IsMoved source target fs later := by
  refine ⟨rename_succeeds_iff hne, fun later hrun => ?_⟩
  obtain ⟨parent, name, newParent, newName, hsource, htarget, hfits, rfl⟩ := rename_cases hne hrun
  have hapart := apart_of_fits_move hfits
  have hname := Path.basename_normalize hsource
  have hnewName := Path.basename_normalize htarget
  have hparent := Path.segments_dirname_of_append hsource
  have hnewParent := Path.segments_dirname_of_append htarget
  have hdirs : Path.dirname source = Path.dirname target ↔ parent = newParent := by
    rw [Path.dirname_eq_dirname_iff, hparent, hnewParent]
  constructor
  · intro below
    rw [faceAt_move hfits, hsource, htarget, if_pos (List.prefix_append _ _)]
    simp
  · intro below
    have hbeside : ¬ newParent ++ [newName] <+: parent ++ [name] ++ below := by
      simpa using hapart.not_append_prefix below []
    rw [faceAt_move hfits, hsource, if_neg hbeside, if_pos (List.prefix_append _ _)]
  · rw [FileSystem.find?, FileSystem.find?, hsource, htarget]
    exact hfits.2.2
  · intro hdifferent
    rw [hparent, hname]
    exact faceAt_move_parent hfits (mt hdirs.2 hdifferent)
  · rw [hnewParent, hname, hnewName, faceAt_move_newParent hfits]
    simp only [hdirs]
  · intro other hsourceSide htargetSide hnotOld hnotNew
    rw [← Bool.not_eq_true, Path.isWithin_iff] at hsourceSide htargetSide
    rw [Ne, Path.normalize_eq_dirname_iff] at hnotOld hnotNew
    rw [hsource] at hsourceSide
    rw [htarget] at htargetSide
    rw [hparent] at hnotOld
    rw [hnewParent] at hnotNew
    rw [faceAt_move hfits, if_neg htargetSide, if_neg hsourceSide]
    simp [hnotOld, hnotNew]

/-- The drawer is moved by a path through the box and takes the place of the empty shelf. -/
theorem drawer_is_moved :
    Path.normalize "/box/../desk/drawer" ≠ Path.normalize "shelf/" ∧
      ∃ later, (rename "/box/../desk/drawer" "shelf/").run study = .ok () later ∧
        IsMoved "/box/../desk/drawer" "shelf/" study later := by
  have hne : Path.normalize "/box/../desk/drawer" ≠ Path.normalize "shelf/" := by decide
  exact ⟨hne, _, rfl, (rename_moves_tree hne).2 _ rfl⟩

end Edit

end PracticeShell
