import PracticeShell.Command.Access
import PracticeShell.FileTree.View
import PracticeShell.Proofs.Tree.Steps

/-!
# Making files and directories

Where a node is made, the nearest node above that exists is the one that changes. `nearestAlong_eq`
says which one it is, and `faceAt_makeAlong` that no other node is touched when all directories along
a way are made.

`FileSystem.kindAt` tells a directory from a file at each place. It alone decides whether a directory
or a file can be made (`Edit.makeDirectory_fails_iff`, `Edit.write_fails_iff`), and making all
directories along a path fails exactly if a file is on the way (`Edit.makeDirectories_fails_iff`).
-/

namespace PracticeShell

open FileTree FileTree.Change Run

theorem Access.nearestAlong_of_find? {fs : FileSystem} {place : List String} {node : Node}
    (h : fs.root.find? place = some node) : nearestAlong fs place = fs.statOf place node := by
  rw [nearestAlong, h]

theorem Access.nearestAlong_concat {fs : FileSystem} {parent : List String} {name : String}
    (h : fs.root.find? (parent ++ [name]) = none) :
    nearestAlong fs (parent ++ [name]) = nearestAlong fs parent := by
  rw [nearestAlong, h]
  dsimp only
  rw [dif_neg (by simp), List.dropLast_concat]

/-- The nearest node above a place is the one below which the next name is missing. -/
theorem Access.nearestAlong_eq {fs : FileSystem} {place : List String} {node : Node}
    (hnode : fs.root.find? place = some node) (below : List String)
    (hnext : ∀ name ∈ below.head?, fs.root.find? (place ++ [name]) = none) :
    nearestAlong fs (place ++ below) = fs.statOf place node := by
  induction h : below.length generalizing below with
  | zero =>
      obtain rfl := List.length_eq_zero_iff.1 h
      rw [List.append_nil, nearestAlong_of_find? hnode]
  | succ n ih =>
      have hne : below ≠ [] := by
        rintro rfl
        simp at h
      obtain ⟨name, rest, rfl⟩ := List.exists_cons_of_ne_nil hne
      have hmissing : fs.root.find? (place ++ name :: rest) = none := by
        have hname : fs.root.find? (place ++ [name]) = none := hnext name rfl
        rw [← List.singleton_append, ← List.append_assoc, Node.find?_append, hname]
        rfl
      have hlast : (place ++ name :: rest).dropLast = place ++ (name :: rest).dropLast :=
        List.dropLast_append_of_ne_nil (by simp)
      rw [nearestAlong, hmissing]
      dsimp only
      rw [dif_neg (by simp), hlast]
      refine ih (name :: rest).dropLast ?_ (by simpa using h)
      intro other hother
      refine hnext other ?_
      cases rest with
      | nil => simp at hother
      | cons => simpa using hother

namespace Edit

/-- A directory is made where there is nothing. -/
theorem run_makeDirectory {path name : String} {parent : List String} {fs : FileSystem}
    {a : Attributes} {es : Entries} (hpath : Path.segments path = parent ++ [name])
    (hdir : fs.root.find? parent = some (.directory a es)) (hnone : Entries.get? es name = none)
    (permissions : Permissions) (owner : Option String) :
    (makeDirectory path permissions owner).run fs = .ok () (Change.apply fs
      (.make parent name (.directory ⟨ownerOr owner fs, permissions, fs.now⟩ []))) := by
  simp [makeDirectory, hpath, run_parentOf hpath hdir, hnone, Change.apply]

/-- Making all directories along a way touches only the node below which the next one is missing. -/
theorem faceAt_makeAlong (permissions : Permissions) (owner : Option String) (rest : List String)
    {done : List String} {fs : FileSystem} (hsegments : ∀ name ∈ done ++ rest, Path.IsSegment name)
    {place : List String} {face : Face} (hface : fs.faceAt place = some face)
    (hnext : ∀ name, place ++ [name] <+: done ++ rest →
      (fs.root.find? (place ++ [name])).isSome) :
    (left ((makeAlong permissions owner done rest).run fs)).faceAt place = some face := by
  induction rest generalizing done fs with
  | nil => exact hface
  | cons name rest ih =>
      have happend : done ++ name :: rest = done ++ [name] ++ rest := by simp
      rw [happend] at hsegments hnext
      rw [makeAlong, EStateM.run_bind, EStateM.run_get]
      dsimp only
      cases hnode : fs.root.find? (done ++ [name]) with
      | some node =>
          cases node with
          | file => exact hface
          | directory a es => exact ih hsegments hface hnext
      | none =>
          have hpath : Path.segments (Path.ofSegments (done ++ [name])) = done ++ [name] :=
            Path.segments_ofSegments fun n hn => hsegments n (List.mem_append_left _ hn)
          have hne : place ≠ done := by
            rintro rfl
            have hsome := hnext name (List.prefix_append _ _)
            simp [hnode] at hsome
          dsimp only
          rw [EStateM.run_bind]
          rcases makes_makeDirectory (Path.ofSegments (done ++ [name])) permissions owner fs with
            ⟨e, hrun⟩ | ⟨c, ⟨parent, last, hsplit, rfl⟩, hfits, hrun⟩
          · rw [hrun]
            exact hface
          · obtain ⟨rfl, rfl⟩ : done = parent ∧ name = last := by
              simpa using hpath.symm.trans hsplit
            have hface' := faceAt_of_not_touches hfits hface hne
            rw [hrun]
            refine ih hsegments hface' fun other hother => ?_
            have hsome := hnext other hother
            rw [← Node.isSome_faceAt] at hsome ⊢
            obtain ⟨there, hthere⟩ := Option.isSome_iff_exists.1 hsome
            obtain ⟨later, hlater, -⟩ :=
              (show IsGrowth (.make _ _ _) from isSegment_last hsplit).exists_faceAt hfits hthere
            rw [← FileSystem.faceAt, hlater]
            rfl

end Edit

namespace FileSystem

/-- Whether there is a directory or a file at a place, if there is anything. -/
def kindAt (fs : FileSystem) (place : List String) : Option Bool :=
  (fs.root.find? place).map (·.isDirectory)

/-- Whether a file is on the way along a path. -/
def Obstructs (fs : FileSystem) (path : String) : Prop :=
  ∃ place, place <+: Path.segments path ∧ fs.kindAt place = some false

/-- Whether what a path leads to would lie in a directory that is there. -/
def CanHold (fs : FileSystem) (path : String) : Prop :=
  ∃ parent name, Path.segments path = parent ++ [name] ∧ fs.kindAt parent = some true

variable {fs later : FileSystem} {place : List String}

theorem kindAt_eq (fs : FileSystem) (place : List String) :
    fs.kindAt place = (fs.faceAt place).map (·.isDirectory) := by
  rw [kindAt, faceAt, Node.faceAt, Option.map_map]
  congr 1
  funext node
  exact (Node.isDirectory_face node).symm

@[simp]
theorem kindAt_nil (fs : FileSystem) : fs.kindAt [] = some true := rfl

theorem kindAt_eq_none_iff : fs.kindAt place = none ↔ fs.root.find? place = none := by
  rw [kindAt, Option.map_eq_none_iff]

theorem any_isDirectory_iff :
    (fs.root.find? place).any (·.isDirectory) = true ↔ fs.kindAt place = some true := by
  rw [kindAt, Option.any_eq_true, Option.map_eq_some_iff]

theorem isDirectory_eq_true_iff {path : String} :
    fs.isDirectory path = true ↔ fs.kindAt (Path.segments path) = some true := any_isDirectory_iff

theorem isDirectory_eq_false_iff {path : String} :
    fs.isDirectory path = false ↔ fs.kindAt (Path.segments path) ≠ some true := by
  rw [← Bool.not_eq_true, isDirectory_eq_true_iff]

theorem any_isFile_iff :
    (fs.root.find? place).any (!·.isDirectory) = true ↔ fs.kindAt place = some false := by
  simp [kindAt, Option.any_eq_true, Option.map_eq_some_iff]

theorem kindAt_eq_true_iff :
    fs.kindAt place = some true ↔ ∃ a es, fs.root.find? place = some (.directory a es) := by
  rw [← any_isDirectory_iff]
  refine ⟨exists_directory_of_any, ?_⟩
  rintro ⟨a, es, hdir⟩
  simp [hdir, Node.isDirectory]

/-- Below nothing there is nothing. -/
theorem kindAt_append_of_none (h : fs.kindAt place = none) (below : List String) :
    fs.kindAt (place ++ below) = none := by
  rw [kindAt_eq_none_iff] at h ⊢
  rw [Node.find?_append, h]
  rfl

/-- What something lies in is a directory. -/
theorem kindAt_of_append {name : String} (h : fs.kindAt (place ++ [name]) ≠ none) :
    fs.kindAt place = some true := by
  rw [Ne, kindAt_eq_none_iff] at h
  exact any_isDirectory_iff.1 (any_isDirectory_of_isSome_append (Option.isSome_iff_ne_none.2 h))

/-- On the way to a directory there are directories. -/
theorem kindAt_of_prefix {other : List String} (h : place <+: other)
    (hother : fs.kindAt other = some true) : fs.kindAt place = some true := by
  obtain ⟨below, rfl⟩ := h
  cases below with
  | nil => rwa [List.append_nil] at hother
  | cons name rest =>
      rw [List.append_cons] at hother
      have hthere : fs.kindAt (place ++ [name]) ≠ none := by
        intro hnone
        rw [kindAt_append_of_none hnone] at hother
        cases hother
      exact kindAt_of_append hthere

/-- Growth leaves a file a file and a directory a directory. -/
theorem kindAt_of_reaches (h : Reaches IsGrowth fs later) {kind : Bool}
    (hkind : fs.kindAt place = some kind) : later.kindAt place = some kind := by
  rw [kindAt_eq] at hkind ⊢
  obtain ⟨face, hface, rfl⟩ := Option.map_eq_some_iff.1 hkind
  obtain ⟨last, hlast, hsame⟩ := h.exists_faceAt hface
  rw [hlast, Option.map_some, hsame]

theorem fits_make_iff {parent : List String} {name : String} {node : Node} :
    Fits fs (.make parent name node) ↔
      fs.kindAt parent = some true ∧ fs.kindAt (parent ++ [name]) = none ∧ node.entries = [] := by
  rw [Fits, any_isDirectory_iff, kindAt_eq_none_iff]

theorem kindAt_make {parent : List String} {name : String} {node : Node}
    (h : Fits fs (.make parent name node)) (place : List String) :
    (Change.apply fs (.make parent name node)).kindAt place =
      if place = parent ++ [name] then some node.isDirectory else fs.kindAt place := by
  rw [kindAt_eq, faceAt_make h]
  by_cases hparent : place = parent
  · subst hparent
    rw [if_pos rfl, if_neg (by simp), kindAt_eq, Option.map_map]
    congr 1
    funext face
    exact Face.isDirectory_mapNames _ _ face
  · rw [if_neg hparent, kindAt_eq]
    split
    · rw [Option.map_some, Node.isDirectory_face]
    · rfl

theorem kindAt_fill {file : List String} {contents : ByteArray}
    (h : Fits fs (.fill file contents)) (place : List String) :
    (Change.apply fs (.fill file contents)).kindAt place = fs.kindAt place := by
  rw [kindAt_eq, faceAt_fill h]
  split
  · rename_i hfile
    rw [hfile, any_isFile_iff.1 h]
    have hkind := any_isFile_iff.1 h
    rw [kindAt_eq] at hkind
    obtain ⟨face, hface, -⟩ := Option.map_eq_some_iff.1 hkind
    rw [hface]
    rfl
  · rw [kindAt_eq]

end FileSystem

namespace Edit

open FileSystem

variable {fs later : FileSystem} {path : String} {permissions : Permissions}
  {owner : Option String}

/-- A directory can be made in a directory where there is nothing. -/
theorem makeDirectory_fails_iff : Fails (makeDirectory path permissions owner) fs ↔
    ¬ (fs.CanHold path ∧ fs.kindAt (Path.segments path) = none) := by
  constructor
  · rintro hfails ⟨⟨parent, name, hpath, hkind⟩, hnone⟩
    obtain ⟨a, es, hdir⟩ := kindAt_eq_true_iff.1 hkind
    rw [hpath, kindAt_eq_none_iff, find?_entry hdir] at hnone
    exact not_fails_of_ok (run_makeDirectory hpath hdir hnone permissions owner) hfails
  · intro h
    rcases makes_makeDirectory path permissions owner fs with
      ⟨e, hrun⟩ | ⟨c, ⟨parent, name, hpath, rfl⟩, hfits, -⟩
    · exact fails_of_error hrun
    · obtain ⟨hparent, hnone, -⟩ := fits_make_iff.1 hfits
      exact absurd ⟨⟨parent, name, hpath, hparent⟩, hpath ▸ hnone⟩ h

theorem kindAt_makeDirectory (h : (makeDirectory path permissions owner).run fs = .ok () later)
    (place : List String) : later.kindAt place =
      if place = Path.segments path then some true else fs.kindAt place := by
  obtain ⟨_, ⟨parent, name, hpath, rfl⟩, hfits, rfl⟩ :=
    (makes_makeDirectory path permissions owner fs).of_ok h
  rw [kindAt_make hfits, hpath]
  rfl

/-- A file can be written in a directory, except over another directory. -/
theorem write_fails_iff {bytes : ByteArray} : Fails (write path bytes owner permissions) fs ↔
    ¬ (fs.CanHold path ∧ fs.kindAt (Path.segments path) ≠ some true) := by
  constructor
  · rintro hfails ⟨⟨parent, name, hpath, hkind⟩, hfree⟩
    obtain ⟨a, es, hdir⟩ := kindAt_eq_true_iff.1 hkind
    have hentry := find?_entry hdir name
    refine not_fails_bind (not_fails_of_ok (run_parentOf hpath hdir)) (fun found t hrun => ?_) hfails
    rw [run_parentOf hpath hdir] at hrun
    cases hrun
    dsimp only
    cases hnode : Entries.get? es name with
    | none => exact not_fails_modify _ _
    | some node =>
        cases node with
        | file => exact not_fails_modify _ _
        | directory =>
            rw [hpath, kindAt, hentry, hnode] at hfree
            exact absurd rfl hfree
  · intro h
    rcases makes_write path bytes owner permissions fs with
      ⟨e, hrun⟩ | ⟨c, ⟨parent, name, hpath, rfl⟩ | rfl, hfits, -⟩
    · exact fails_of_error hrun
    · obtain ⟨hparent, hnone, -⟩ := fits_make_iff.1 hfits
      exact absurd ⟨⟨parent, name, hpath, hparent⟩, by simp [hpath, hnone]⟩ h
    · have hfile := any_isFile_iff.1 hfits
      rcases List.eq_nil_or_concat (Path.segments path) with hpath | ⟨parent, name, hpath⟩
      · simp [hpath] at hfile
      · rw [List.concat_eq_append] at hpath
        have hthere : fs.kindAt (parent ++ [name]) ≠ none := by simp [← hpath, hfile]
        exact absurd ⟨⟨parent, name, hpath, kindAt_of_append hthere⟩, by simp [hfile]⟩ h

theorem kindAt_write {bytes : ByteArray}
    (h : (write path bytes owner permissions).run fs = .ok () later) (place : List String) :
    later.kindAt place =
      if place = Path.segments path then some false else fs.kindAt place := by
  obtain ⟨_, ⟨parent, name, hpath, rfl⟩ | rfl, hfits, rfl⟩ :=
    (makes_write path bytes owner permissions fs).of_ok h
  · rw [kindAt_make hfits, hpath]
    rfl
  · rw [kindAt_fill hfits]
    split
    · rename_i hplace
      rw [hplace, any_isFile_iff.1 hfits]
    · rfl

/-- Making all directories along a way fails exactly if there is a file on it. -/
theorem makeAlong_fails_iff (rest : List String) {done : List String} {fs : FileSystem}
    (hsegments : ∀ name ∈ done ++ rest, Path.IsSegment name) (hdone : fs.kindAt done = some true) :
    Fails (makeAlong permissions owner done rest) fs ↔
      ∃ below, below <+: rest ∧ fs.kindAt (done ++ below) = some false := by
  induction rest generalizing done fs with
  | nil =>
      refine ⟨fun h => absurd h (not_fails_pure () fs), ?_⟩
      rintro ⟨below, hbelow, hfile⟩
      rw [List.prefix_nil.1 hbelow, List.append_nil, hdone] at hfile
      simp at hfile
  | cons name rest ih =>
      -- a file on the way lies at or below the next place
      have hway : (∃ below, below <+: name :: rest ∧ fs.kindAt (done ++ below) = some false) ↔
          ∃ below, below <+: rest ∧ fs.kindAt (done ++ [name] ++ below) = some false := by
        constructor
        · rintro ⟨below, hbelow, hfile⟩
          rcases List.prefix_cons_iff.1 hbelow with rfl | ⟨below, rfl, hrest⟩
          · simp [hdone] at hfile
          · exact ⟨below, hrest, by simpa using hfile⟩
        · rintro ⟨below, hbelow, hfile⟩
          exact ⟨name :: below, List.cons_prefix_cons.2 ⟨rfl, hbelow⟩, by simpa using hfile⟩
      have hnames : ∀ n ∈ done ++ [name] ++ rest, Path.IsSegment n := by simpa using hsegments
      have hpath : Path.segments (Path.ofSegments (done ++ [name])) = done ++ [name] :=
        Path.segments_ofSegments fun n hn => hnames n (List.mem_append_left _ hn)
      rw [hway, makeAlong, fails_bind_of_ok (EStateM.run_get fs)]
      cases hnode : fs.root.find? (done ++ [name]) with
      | some node =>
          cases node with
          | file =>
              refine ⟨fun _ => ⟨[], List.nil_prefix, ?_⟩, fun _ => fails_of_error rfl⟩
              simp [kindAt, hnode, Node.isDirectory]
          | directory a es => exact ih hnames (kindAt_eq_true_iff.2 ⟨a, es, hnode⟩)
      | none =>
          have hnone := kindAt_eq_none_iff.2 hnode
          have hmakes : ¬ Fails (makeDirectory (Path.ofSegments (done ++ [name])) permissions owner)
              fs := by
            rw [makeDirectory_fails_iff, Classical.not_not, hpath]
            exact ⟨⟨done, name, hpath, hdone⟩, hnone⟩
          obtain ⟨_, t, hrun⟩ := not_fails_iff.1 hmakes
          have hkinds := kindAt_makeDirectory hrun
          rw [hpath] at hkinds
          dsimp only
          rw [fails_bind_of_ok hrun, ih hnames (by rw [hkinds, if_pos rfl])]
          refine exists_congr fun below => and_congr_right fun _ => ?_
          rw [hkinds, kindAt_append_of_none hnone]
          split <;> simp

/-- Making a directory and those above it fails exactly if there is a file on the way. -/
theorem makeDirectories_fails_iff :
    Fails (makeDirectories path permissions owner) fs ↔ fs.Obstructs path :=
  makeAlong_fails_iff (Path.segments path)
    (fun _ hname => Path.isSegment_of_mem_segments (by simpa using hname)) (kindAt_nil fs)

/-- Once a directory has to be made on the way, nothing is left that could fail. So all directories
along a way are made, or none is. -/
theorem makeAlong_eq_of_error {e : FileTree.Error} (rest : List String) {done : List String}
    (hsegments : ∀ name ∈ done ++ rest, Path.IsSegment name)
    (hdone : fs.kindAt done = some true)
    (hrun : (makeAlong permissions owner done rest).run fs = .error e later) : later = fs := by
  induction rest generalizing done with
  | nil => cases hrun
  | cons name rest ih =>
      have hnames : ∀ n ∈ done ++ [name] ++ rest, Path.IsSegment n := by simpa using hsegments
      cases hnode : fs.root.find? (done ++ [name]) with
      | some node =>
          rw [makeAlong, run_get_bind, hnode] at hrun
          cases node with
          | file =>
              cases hrun
              rfl
          | directory a es => exact ih hnames (kindAt_eq_true_iff.2 ⟨a, es, hnode⟩) hrun
      | none =>
          have hmissing := kindAt_eq_none_iff.2 hnode
          obtain ⟨below, hbelow, hfile⟩ :=
            (makeAlong_fails_iff (name :: rest) hsegments hdone).1 (fails_of_error hrun)
          -- a file on the way would lie below what is missing
          cases below with
          | nil => simp [hdone] at hfile
          | cons n below =>
              obtain ⟨rfl, -⟩ := List.cons_prefix_cons.1 hbelow
              have hnone := kindAt_append_of_none hmissing below
              rw [List.append_assoc, List.singleton_append, hfile] at hnone
              cases hnone

theorem makeDirectories_eq_of_error {e : FileTree.Error}
    (hrun : (makeDirectories path permissions owner).run fs = .error e later) : later = fs :=
  makeAlong_eq_of_error (Path.segments path)
    (fun _ hname => Path.isSegment_of_mem_segments (by simpa using hname))
    (kindAt_nil fs) hrun

/-- After all directories along a way have been made, the last one is there. -/
theorem kindAt_makeAlong (rest : List String) {done : List String} {fs later : FileSystem}
    (hsegments : ∀ name ∈ done ++ rest, Path.IsSegment name)
    (h : (makeAlong permissions owner done rest).run fs = .ok () later)
    (hdone : fs.kindAt done = some true) : later.kindAt (done ++ rest) = some true := by
  induction rest generalizing done fs with
  | nil =>
      cases h
      rwa [List.append_nil]
  | cons name rest ih =>
      have hnames : ∀ n ∈ done ++ [name] ++ rest, Path.IsSegment n := by simpa using hsegments
      have hpath : Path.segments (Path.ofSegments (done ++ [name])) = done ++ [name] :=
        Path.segments_ofSegments fun n hn => hnames n (List.mem_append_left _ hn)
      rw [List.append_cons]
      rw [makeAlong, run_get_bind] at h
      cases hnode : fs.root.find? (done ++ [name]) with
      | some node =>
          rw [hnode] at h
          cases node with
          | file => cases h
          | directory a es => exact ih hnames h (kindAt_eq_true_iff.2 ⟨a, es, hnode⟩)
      | none =>
          rw [hnode] at h
          dsimp only at h
          rw [EStateM.run_bind] at h
          split at h
          · rename_i t hrun
            have hkinds := kindAt_makeDirectory hrun (done ++ [name])
            rw [hpath, if_pos rfl] at hkinds
            exact ih hnames h hkinds
          · cases h

/-- After a directory and those above it have been made, it is there. -/
theorem kindAt_makeDirectories (h : (makeDirectories path permissions owner).run fs = .ok () later) :
    later.kindAt (Path.segments path) = some true :=
  kindAt_makeAlong (Path.segments path)
    (fun _ hname => Path.isSegment_of_mem_segments (by simpa using hname)) h (kindAt_nil fs)

end Edit

end PracticeShell
