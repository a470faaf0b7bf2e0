import PracticeShell.Proofs.Tree.CopyTree
import PracticeShell.Proofs.Tree.Views
import PracticeShell.Proofs.Tree.Writing

/-!
# What a copy makes of its target

`Face.overlay` says what becomes of a node when another is copied over it, and of a place where there
is nothing. After a copy that succeeds, each place at and below the target shows the overlay of what the
source and the target had there (`faceAt_copyNode`). So all of the source has been copied, what the
source lacks is spared, what was there keeps its rights and what is new gets them
(`copyTree_overlays_tree`).
-/

namespace PracticeShell

open FileTree FileTree.Change Run

namespace FileTree

namespace Face

/-- A directory that lists more names: those that are new to it come last and stamp it with the
time. -/
def enlarge (now : Int) (more : List String) : Face → Face
  | file a contents => file a contents
  | directory a names =>
    let new := more.filter (· ∉ names)
    if new = [] then directory a names else directory { a with modified := now } (names ++ new)

/-- What is seen where a node is copied to. What is there keeps its owner and its permissions, and what
is made has those of the copy. No file is laid over a directory, and no directory over a file. -/
def overlay (owner : String) (now : Int) : Option Face → Option Face → Option Face
  | none, there => there
  | some (file a contents), none => some (file ⟨owner, a.permissions, now⟩ contents)
  | some (directory a names), none =>
    some ((directory ⟨owner, a.permissions, now⟩ []).enlarge now names)
  | some (file _ contents), some (file b _) => some (file { b with modified := now } contents)
  | some (directory _ names), some (directory b others) =>
    some ((directory b others).enlarge now names)
  | some _, some _ => none

@[simp]
theorem enlarge_nil (now : Int) (face : Face) : face.enlarge now [] = face := by
  cases face <;> rfl

theorem enlarge_cons (now : Int) {name : String} {names : List String} (hname : name ∉ names)
    (face : Face) : face.enlarge now (name :: names) =
      (face.enlarge now [name]).enlarge now names := by
  cases face with
  | file => rfl
  | directory a others =>
      by_cases hthere : name ∈ others
      · simp [enlarge, hthere]
      · have hrest : names.filter (fun n => decide (n ∉ others ++ [name])) =
            names.filter (fun n => decide (n ∉ others)) := by
          refine List.filter_congr fun n hn => ?_
          have hne : n ≠ name := fun h => hname (h ▸ hn)
          simp [hne]
        have hfirst : (directory a others).enlarge now [name] =
            directory { a with modified := now } (others ++ [name]) := by simp [enlarge, hthere]
        rw [hfirst, enlarge, enlarge, hrest, List.filter_cons_of_pos (by simpa using hthere)]
        by_cases hnew : names.filter (fun n => decide (n ∉ others)) = [] <;> simp

theorem enlarge_of_mem (now : Int) {name : String} {face : Face} (h : name ∈ face.names) :
    face.enlarge now [name] = face := by
  cases face with
  | file => rfl
  | directory a names =>
      have hname : name ∈ names := h
      simp [enlarge, hname]

theorem mapNames_addName (now : Int) {name : String} {face : Face} (h : name ∉ face.names) :
    face.mapNames now (addName name) = face.enlarge now [name] := by
  cases face with
  | file => rfl
  | directory a names =>
      have hname : name ∉ names := h
      simp [enlarge, mapNames, addName, hname]

@[simp]
theorem owner_enlarge (now : Int) (names : List String) (face : Face) :
    (face.enlarge now names).attributes.owner = face.attributes.owner := by
  cases face with
  | file => rfl
  | directory a others =>
      rw [enlarge]
      split <;> rfl

@[simp]
theorem permissions_enlarge (now : Int) (names : List String) (face : Face) :
    (face.enlarge now names).attributes.permissions = face.attributes.permissions := by
  cases face with
  | file => rfl
  | directory a others =>
      rw [enlarge]
      split <;> rfl

/-- A directory that lists more names lists all of them. -/
theorem includes_enlarge (now : Int) (a b : Attributes) (names others : List String) :
    ((directory b others).enlarge now names).Includes (directory a names) := by
  rw [enlarge]
  split
  · rename_i hnew
    intro name hname
    by_contra hmissing
    exact List.filter_eq_nil_iff.1 hnew name hname (by simpa using hmissing)
  · intro name hname
    by_cases hthere : name ∈ others
    · exact List.mem_append_left _ hthere
    · exact List.mem_append_right _ (List.mem_filter.2 ⟨hname, by simpa using hthere⟩)

section

variable {owner : String} {now : Int} {source : Option Face} {face before after : Face}

/-- What is laid over something shows all that it shows. -/
theorem includes_overlay {there : Option Face}
    (h : overlay owner now (some face) there = some after) : after.Includes face := by
  cases face with
  | file a contents =>
      rcases there with - | ⟨b, old⟩ | ⟨b, others⟩
      · obtain rfl := Option.some.inj h
        rfl
      · obtain rfl := Option.some.inj h
        rfl
      · cases h
  | directory a names =>
      rcases there with - | ⟨b, old⟩ | ⟨b, others⟩
      · obtain rfl := Option.some.inj h
        exact includes_enlarge now a _ names []
      · cases h
      · obtain rfl := Option.some.inj h
        exact includes_enlarge now a b names others

/-- What something is laid over keeps its owner and its permissions. -/
theorem rights_overlay (h : overlay owner now source (some before) = some after) :
    after.attributes.owner = before.attributes.owner ∧
      after.attributes.permissions = before.attributes.permissions := by
  rcases source with - | ⟨a, contents⟩ | ⟨a, names⟩
  · obtain rfl := Option.some.inj h
    exact ⟨rfl, rfl⟩
  · cases before with
    | directory => cases h
    | file b old =>
        obtain rfl := Option.some.inj h
        exact ⟨rfl, rfl⟩
  · cases before with
    | file => cases h
    | directory b others =>
        obtain rfl := Option.some.inj h
        exact ⟨owner_enlarge now names _, permissions_enlarge now names _⟩

/-- What is made has the rights of the copy. -/
theorem attributes_overlay (h : overlay owner now source none = some after) :
    ∃ face, source = some face ∧
      after.attributes = ⟨owner, face.attributes.permissions, now⟩ := by
  rcases source with - | ⟨a, contents⟩ | ⟨a, names⟩
  · cases h
  · obtain rfl := Option.some.inj h
    exact ⟨_, rfl, rfl⟩
  · obtain rfl := Option.some.inj h
    refine ⟨_, rfl, ?_⟩
    rw [enlarge]
    split <;> rfl

end

end Face

/-- No change replaces the default owner. -/
theorem Change.defaultOwner_apply (fs : FileSystem) (c : Change) :
    (c.apply fs).defaultOwner = fs.defaultOwner := by
  cases c with
  | make parent name node => exact FileSystem.defaultOwner_modifyAt _ _ _
  | fill place contents => exact FileSystem.defaultOwner_modifyAt _ _ _
  | mark place f => exact FileSystem.defaultOwner_modifyAt _ _ _
  | remove parent name => exact FileSystem.defaultOwner_modifyAt _ _ _
  | move parent name newParent newName =>
      unfold Change.apply
      dsimp only
      split
      · rfl
      · exact (FileSystem.defaultOwner_modifyAt _ _ _).trans
          (FileSystem.defaultOwner_modifyAt _ _ _)

theorem Change.Reaches.defaultOwner_eq {P : Change → Prop} {fs later : FileSystem}
    (h : Reaches P fs later) : later.defaultOwner = fs.defaultOwner := by
  induction h with
  | refl => rfl
  | step _ _ _ ih => rw [ih, Change.defaultOwner_apply]

end FileTree

namespace Edit

open FileSystem

variable {fs later : FileSystem} {owner : Option String} {source target : String} {levels : Nat}

theorem ownerOr_of_reaches {P : Change → Prop} (h : Reaches P fs later) (owner : Option String) :
    ownerOr owner later = ownerOr owner fs := by
  rw [ownerOr_eq_getD, ownerOr_eq_getD, h.defaultOwner_eq]

/-- A node is listed in the directory that holds it. -/
theorem mem_names_iff_isSome_faceAt {parent : List String} {face : Face}
    (hparent : fs.faceAt parent = some face) (name : String) :
    name ∈ face.names ↔ (fs.faceAt (parent ++ [name])).isSome := by
  rw [FileSystem.faceAt, Node.isSome_faceAt]
  exact ⟨isSome_find?_of_mem_names hparent, mem_names_of_isSome_find? hparent⟩

/-- A file that is copied is laid over what is at the target. -/
theorem faceAt_copyFile {a : Attributes} {bytes : ByteArray}
    (hsource : fs.find? source = some (.file a bytes))
    (hrun : (copyFile source target owner).run fs = .ok () later) (below : List String) :
    later.faceAt (Path.segments target ++ below) =
      Face.overlay (ownerOr owner fs) fs.now (fs.faceAt (Path.segments source ++ below))
        (fs.faceAt (Path.segments target ++ below)) := by
  rw [run_copyFile hsource] at hrun
  obtain ⟨parent, name, b, names, hpath, -, hcases⟩ := write_cases hrun
  have hsourceFace : fs.faceAt (Path.segments source ++ below) =
      if below = [] then some (.file a bytes) else none := by
    have hfind : fs.root.find? (Path.segments source) = some (.file a bytes) := hsource
    rw [FileSystem.faceAt, Node.faceAt_append, hfind, Option.bind_some, Node.faceAt, Node.find?_file]
    split <;> rfl
  have hnotParent : parent ++ [name] ++ below ≠ parent := by simp
  rw [hsourceFace, hpath]
  cases below with
  | nil =>
      rw [List.append_nil, if_pos rfl]
      rw [List.append_nil] at hnotParent
      rcases hcases with ⟨hnone, hlater⟩ | ⟨there, old, hthere, hlater⟩
      · rw [hlater, if_neg hnotParent, if_pos rfl, hnone]
        rfl
      · rw [hlater, if_pos rfl, hthere]
        rfl
  | cons n rest =>
      have hne : parent ++ [name] ++ n :: rest ≠ parent ++ [name] := by simp
      rw [if_neg (List.cons_ne_nil n rest)]
      rcases hcases with ⟨-, hlater⟩ | ⟨there, old, -, hlater⟩
      · rw [hlater, if_neg hnotParent, if_neg hne]
        rfl
      · rw [hlater, if_neg hne]
        rfl

/-- What is seen of the directory that a node is made in. -/
theorem faceAt_make_parent {parent : List String} {name : String} {node : Node}
    (hfits : Fits fs (.make parent name node)) :
    (Change.apply fs (.make parent name node)).faceAt parent =
      (fs.faceAt parent).map (Face.enlarge fs.now [name]) := by
  rw [faceAt_make hfits, if_pos rfl]
  cases hparent : fs.faceAt parent with
  | none => rfl
  | some face =>
      have hnew : name ∉ face.names := by
        rw [mem_names_iff_isSome_faceAt hparent, FileSystem.faceAt, Node.isSome_faceAt, hfits.2.1]
        simp
      rw [Option.map_some, Option.map_some, Face.mapNames_addName fs.now hnew]

/-- A directory lists what is in it already. -/
theorem map_enlarge_of_isSome {parent : List String} {name : String}
    (hthere : (fs.faceAt (parent ++ [name])).isSome) :
    (fs.faceAt parent).map (Face.enlarge fs.now [name]) = fs.faceAt parent := by
  cases hparent : fs.faceAt parent with
  | none => rfl
  | some face =>
      rw [Option.map_some,
        Face.enlarge_of_mem fs.now ((mem_names_iff_isSome_faceAt hparent name).2 hthere)]

/-- What is seen of the directory that a file is copied into. -/
theorem faceAt_copyFile_parent {parent : List String} {name : String}
    (hpath : Path.segments target = parent ++ [name])
    (hrun : (copyFile source target owner).run fs = .ok () later) :
    later.faceAt parent = (fs.faceAt parent).map (Face.enlarge fs.now [name]) := by
  obtain ⟨_, ⟨a, bytes, -, ⟨parent', name', hpath', rfl⟩ | rfl⟩, hfits, rfl⟩ :=
    (makes_copyFile source target owner fs).of_ok hrun
  · obtain ⟨rfl, rfl⟩ : parent = parent' ∧ name = name' := by simpa using hpath.symm.trans hpath'
    exact faceAt_make_parent hfits
  · have hthere : (fs.faceAt (parent ++ [name])).isSome := by
      obtain ⟨node, hnode, -⟩ := (Option.any_eq_true _ _).1 hfits
      rw [← hpath, FileSystem.faceAt, Node.isSome_faceAt, hnode]
      rfl
    rw [faceAt_fill hfits, hpath, if_neg (by simp), map_enlarge_of_isSome hthere]

/-- What comes of making a directory at a path, unless there is one. -/
inductive Provides (target : String) (a : Attributes) (fs : FileSystem) : FileSystem → Prop
  | there {b : Attributes} {names : List String}
      (hface : fs.faceAt (Path.segments target) = some (.directory b names)) :
      Provides target a fs fs
  | made {parent : List String} {name : String} (hpath : Path.segments target = parent ++ [name])
      (hfits : Fits fs (.make parent name (.directory a []))) :
      Provides target a fs (Change.apply fs (.make parent name (.directory a [])))

namespace Provides

variable {a : Attributes}

theorem reaches (h : Provides target a fs later) : Reaches IsGrowth fs later := by
  cases h with
  | there => exact .refl
  | @made parent name hpath hfits =>
      have hgrowth : IsGrowth (.make parent name (.directory a [])) := isSegment_last hpath
      exact .step hgrowth hfits .refl

/-- Nothing is seen of it in a directory apart from the target. -/
theorem sameBelow (h : Provides target a fs later)
    (hapart : Apart (Path.segments source) (Path.segments target)) :
    SameBelow (Path.segments source) fs later := by
  cases h with
  | there => exact fun _ => rfl
  | made hpath hfits =>
      exact fun below => faceAt_apply_outside (outside_of_apart hapart below) hfits
        (.inl ⟨_, _, _, hpath, rfl⟩)

/-- What is seen of the directory that is provided. -/
theorem faceAt_target (h : Provides target a fs later) :
    (∃ b names, fs.faceAt (Path.segments target) = some (.directory b names) ∧
      later.faceAt (Path.segments target) = some (.directory b names)) ∨
    (fs.faceAt (Path.segments target) = none ∧
      later.faceAt (Path.segments target) = some (.directory a [])) := by
  cases h with
  | there hface => exact .inl ⟨_, _, hface, hface⟩
  | @made parent name hpath hfits =>
      have hne : parent ++ [name] ≠ parent := by simp
      refine .inr ⟨?_, ?_⟩
      · rw [hpath, FileSystem.faceAt, Node.faceAt, hfits.2.1]
        rfl
      · rw [hpath, faceAt_make hfits, if_neg hne, if_pos rfl]
        rfl

/-- What is seen below it is as before. -/
theorem faceAt_below (h : Provides target a fs later) (name : String) (rest : List String) :
    later.faceAt (Path.segments target ++ name :: rest) =
      fs.faceAt (Path.segments target ++ name :: rest) := by
  cases h with
  | there => rfl
  | made hpath hfits => rw [hpath, faceAt_make hfits, if_neg (by simp), if_neg (by simp)]

/-- What is seen of the directory that it is in. -/
theorem faceAt_parent (h : Provides target a fs later) {parent : List String} {name : String}
    (hpath : Path.segments target = parent ++ [name]) :
    later.faceAt parent = (fs.faceAt parent).map (Face.enlarge fs.now [name]) := by
  cases h with
  | there hface =>
      rw [hpath] at hface
      rw [map_enlarge_of_isSome (by rw [hface]; rfl)]
  | @made parent' name' hpath' hfits =>
      obtain ⟨rfl, rfl⟩ : parent = parent' ∧ name = name' := by simpa using hpath.symm.trans hpath'
      exact faceAt_make_parent hfits

end Provides

/-- A directory lists the same names where the same is seen. -/
theorem names_of_sameBelow {a : Attributes} {es : Entries}
    (hsource : fs.find? source = some (.directory a es))
    (hsame : SameBelow (Path.segments source) fs later) :
    later.names source = .ok (Entries.names es) := by
  have hself := hsame []
  rw [List.append_nil] at hself
  exact names_eq_ok_iff.2 ⟨a, hself.trans (faceAt_eq_some.2 ⟨_, hsource, rfl⟩)⟩

/-- A copy of a directory that succeeds makes the target, if it is not there, and copies the
entries. -/
theorem run_copyNode_directory {a : Attributes} {es : Entries}
    (hsource : fs.find? source = some (.directory a es))
    (hrun : (copyNode owner (levels + 1) source target).run fs = .ok () later) :
    ∃ t, Provides target ⟨ownerOr owner fs, a.permissions, fs.now⟩ fs t ∧
      (copyEntries (copyNode owner levels) source target).run t = .ok () later := by
  rw [run_copyNode_succ, hsource] at hrun
  dsimp only at hrun
  split at hrun
  · rename_i hdir
    rw [FileSystem.isDirectory, FileSystem.find?, any_isDirectory_iff, kindAt_eq_true_iff] at hdir
    obtain ⟨b, others, hnode⟩ := hdir
    exact ⟨fs, .there (faceAt_eq_some.2 ⟨_, hnode, rfl⟩), hrun⟩
  · obtain ⟨⟨⟩, t, hmake, hrest⟩ := run_bind_eq_ok_iff.1 hrun
    obtain ⟨_, ⟨parent, name, hpath, rfl⟩, hfits, rfl⟩ :=
      (makes_makeDirectory target a.permissions owner fs).of_ok hmake
    exact ⟨_, .made hpath hfits, hrest⟩

/-- What is seen of the directory that a node is copied into. -/
theorem faceAt_copyNode_parent (hproper : fs.IsProper) {parent : List String} {name : String}
    (hpath : Path.segments target = parent ++ [name])
    (hrun : (copyNode owner levels source target).run fs = .ok () later) :
    later.faceAt parent = (fs.faceAt parent).map (Face.enlarge fs.now [name]) := by
  cases levels with
  | zero => cases hrun
  | succ levels =>
      cases hnode : fs.find? source with
      | none => simp [run_copyNode_succ, hnode] at hrun
      | some node =>
          cases node with
          | file a bytes =>
              simp only [run_copyNode_succ, hnode] at hrun
              exact faceAt_copyFile_parent hpath hrun
          | directory a es =>
              obtain ⟨t, hprovides, hentries⟩ := run_copyNode_directory hnode hrun
              have ht := hproper.of_growth hprovides.reaches
              have hentriesOutside : (left ((copyEntries (copyNode owner levels) source target).run
                  t)).faceAt parent = t.faceAt parent := by
                refine faceAt_copyEntries_outside (copyNode_grows owner levels)
                  (fun _ _ _ hu => faceAt_copyNode_outside levels hu) ht (by simp [hpath]) ?_
                rintro names - n - ⟨below, hbelow⟩
                simp [hpath] at hbelow
              rw [hentries] at hentriesOutside
              exact hentriesOutside.trans (hprovides.faceAt_parent hpath)

/-- What is seen of the directory that a copy makes its target in. -/
theorem faceAt_copyNode_dirname (hproper : fs.IsProper) (hroot : Path.segments target ≠ [])
    (hmissing : fs.contains target = false)
    (hrun : (copyNode owner levels source target).run fs = .ok () later) :
    later.faceAt (Path.segments (Path.dirname target)) =
      (fs.faceAt (Path.segments (Path.dirname target))).map
        (Face.mapNames fs.now (Face.addName (Path.basename (Path.normalize target)))) := by
  rcases List.eq_nil_or_concat (Path.segments target) with hnil | ⟨parent, name, hpath⟩
  · exact absurd hnil hroot
  · rw [List.concat_eq_append] at hpath
    rw [contains_eq, hpath] at hmissing
    rw [Path.segments_dirname_of_append hpath, Path.basename_normalize hpath,
      faceAt_copyNode_parent hproper hpath hrun]
    cases hparent : fs.faceAt parent with
    | none => rfl
    | some face =>
        have hnew : name ∉ face.names := by simp [mem_names_iff_isSome_faceAt hparent, hmissing]
        rw [Option.map_some, Option.map_some, Face.mapNames_addName fs.now hnew]

/-- What is seen of the directory that entries are copied into. -/
theorem faceAt_forM_copyNode {names : List String} (hnames : ProperNames names)
    (hproper : fs.IsProper)
    (hrun : (names.forM fun name =>
      copyNode owner levels (entryPath source name) (entryPath target name)).run fs =
        .ok () later) :
    later.faceAt (Path.segments target) =
      (fs.faceAt (Path.segments target)).map (Face.enlarge fs.now names) := by
  induction names generalizing fs with
  | nil =>
      cases hrun
      cases later.faceAt (Path.segments target) <;> simp
  | cons name names ih =>
      obtain ⟨hnew, hrest⟩ := List.nodup_cons.1 hnames.1
      obtain ⟨_, t, hfirst, hlast⟩ := run_bind_eq_ok_iff.1 hrun
      have hpath := Path.segments_entryPath target (hnames.2 name List.mem_cons_self)
      have hgrows := (copyNode_grows owner levels _ _ fs).of_run hfirst
      have hstep := faceAt_copyNode_parent hproper hpath hfirst
      have hlater := ih ⟨hrest, fun n hn => hnames.2 n (List.mem_cons_of_mem name hn)⟩
        (hproper.of_growth hgrows) hlast
      rw [hlater, hstep, hgrows.now_eq]
      cases fs.faceAt (Path.segments target) with
      | none => rfl
      | some face =>
          rw [Option.map_some, Option.map_some, Option.map_some, Face.enlarge_cons fs.now hnew]

/-- A directory holds nothing but what it lists. -/
theorem faceAt_of_not_mem_names {place : List String} {face : Face}
    (hface : fs.faceAt place = some face) {name : String} (hname : name ∉ face.names)
    (rest : List String) : fs.faceAt (place ++ name :: rest) = none := by
  rw [mem_names_iff_isSome_faceAt hface, FileSystem.faceAt, Node.isSome_faceAt,
    Option.not_isSome_iff_eq_none] at hname
  rw [faceAt_append_cons, FileSystem.faceAt, Node.faceAt_append, hname]
  rfl

/-- After a copy, each place at and below the target shows what the source had there, laid over what
was there. -/
theorem faceAt_copyNode (hproper : fs.IsProper)
    (hapart : Apart (Path.segments source) (Path.segments target))
    (hrun : (copyNode owner levels source target).run fs = .ok () later) (below : List String) :
    later.faceAt (Path.segments target ++ below) =
      Face.overlay (ownerOr owner fs) fs.now (fs.faceAt (Path.segments source ++ below))
        (fs.faceAt (Path.segments target ++ below)) := by
  induction levels generalizing source target fs later below with
  | zero => cases hrun
  | succ levels ih =>
      cases hnode : fs.find? source with
      | none => simp [run_copyNode_succ, hnode] at hrun
      | some node =>
          cases node with
          | file a bytes =>
              simp only [run_copyNode_succ, hnode] at hrun
              exact faceAt_copyFile hnode hrun below
          | directory a es =>
              obtain ⟨t, hprovides, hentries⟩ := run_copyNode_directory hnode hrun
              have ht := hproper.of_growth hprovides.reaches
              have hsame := hprovides.sameBelow hapart
              have hnames := names_of_sameBelow hnode hsame
              have hdirectory : fs.faceAt (Path.segments source) =
                  some (.directory a (Entries.names es)) := faceAt_eq_some.2 ⟨_, hnode, rfl⟩
              cases below with
              | nil =>
                  rw [run_copyEntries hnames] at hentries
                  rw [List.append_nil, List.append_nil, hdirectory,
                    faceAt_forM_copyNode (ht.names hnames) ht hentries, hprovides.reaches.now_eq]
                  rcases hprovides.faceAt_target with
                    ⟨b, others, hbefore, hmade⟩ | ⟨hbefore, hmade⟩ <;> rw [hbefore, hmade] <;> rfl
              | cons name rest =>
                  by_cases hname : name ∈ Entries.names es
                  · rcases copyEntries_turn owner levels ht hapart hnames hname with
                      ⟨-, hfails⟩ | ⟨v, hreaches, htarget, hsource, hlater, hok⟩
                    · exact absurd hentries (hfails later)
                    · obtain ⟨u, hu⟩ := hok later hentries
                      have hv := hprovides.reaches.trans hreaches
                      have hsegment := (ht.names hnames).2 name hname
                      have hsourcePath := Path.segments_entryPath source hsegment
                      have htargetPath := Path.segments_entryPath target hsegment
                      have hstep := @ih v u (entryPath source name) (entryPath target name)
                        (hproper.of_growth hv)
                      have hbefore := hprovides.faceAt_below name rest
                      rw [hsourcePath, htargetPath] at hstep
                      rw [hentries, hu, left_ok, left_ok] at hlater
                      simp only [faceAt_append_cons] at hbefore ⊢
                      rw [hlater rest, hstep (hapart.append _ _) hu rest,
                        ownerOr_of_reaches hv, hv.now_eq, htarget rest, hbefore, List.append_assoc,
                        hsource, hsame]
                  -- nothing is copied to an entry that the source lacks
                  · have hkept := @faceAt_copyEntries_of_not_mem t owner source target rest levels ht
                      _ hnames name hname
                    rw [hentries, left_ok] at hkept
                    rw [hkept, hprovides.faceAt_below, faceAt_of_not_mem_names hdirectory hname]
                    rfl

/-- After a copy without failure, the target shows all that the source has. -/
theorem includes_copyNode (hproper : fs.IsProper)
    (hapart : Apart (Path.segments source) (Path.segments target))
    (hrun : (copyNode owner levels source target).run fs = .ok () later) {below : List String}
    {face : Face} (hface : fs.faceAt (Path.segments source ++ below) = some face) :
    ∃ there, later.faceAt (Path.segments target ++ below) = some there ∧ there.Includes face := by
  have hover := faceAt_copyNode hproper hapart hrun below
  rw [hface] at hover
  cases hlater : later.faceAt (Path.segments target ++ below) with
  | some there => exact ⟨there, rfl, Face.includes_overlay (hover.symm.trans hlater)⟩
  | none =>
      rw [hlater] at hover
      -- there is nothing only where there was something of another kind, and that would have stayed
      cases hbefore : fs.faceAt (Path.segments target ++ below) with
      | none =>
          rw [hbefore] at hover
          cases face <;> cases hover
      | some before =>
          obtain ⟨after, hafter, -⟩ :=
            ((copyNode_grows owner levels source target fs).of_run hrun).exists_faceAt hbefore
          rw [hlater] at hafter
          cases hafter

/-- What a file system has become when the node at a path has been copied to another. -/
structure IsCopied (source target : String) (owner : Option String) (fs later : FileSystem) :
    Prop where
  /-- All of the source is at the target: each file with its contents, each directory with its
  names. -/
  copied : ∀ below face, fs.faceAt (Path.segments source ++ below) = some face →
    ∃ there, later.faceAt (Path.segments target ++ below) = some there ∧ there.Includes face
  /-- What the source lacks is as it was. -/
  spared : ∀ below, fs.faceAt (Path.segments source ++ below) = none →
    later.faceAt (Path.segments target ++ below) = fs.faceAt (Path.segments target ++ below)
  /-- What is new has the owner that is named, or else the default one, and the permissions of what it
  is a copy of. -/
  made : ∀ below there, fs.faceAt (Path.segments target ++ below) = none →
    later.faceAt (Path.segments target ++ below) = some there →
    ∃ face, fs.faceAt (Path.segments source ++ below) = some face ∧
      there.attributes = ⟨(owner.filter (· ≠ "")).getD fs.defaultOwner,
        face.attributes.permissions, fs.now⟩
  /-- What was there keeps its kind, its owner and its permissions. -/
  kept : ∀ below before, fs.faceAt (Path.segments target ++ below) = some before →
    ∃ after, later.faceAt (Path.segments target ++ below) = some after ∧
      after.isDirectory = before.isDirectory ∧
      after.attributes.owner = before.attributes.owner ∧
      after.attributes.permissions = before.attributes.permissions
  /-- The source is as it was. -/
  unchanged : ∀ below, later.faceAt (Path.segments source ++ below) =
    fs.faceAt (Path.segments source ++ below)
  /-- The directory of a new target is stamped with the time and lists it. -/
  listed : fs.contains target = false → later.faceAt (Path.segments (Path.dirname target)) =
    (fs.faceAt (Path.segments (Path.dirname target))).map
      (Face.mapNames fs.now (Face.addName (Path.basename (Path.normalize target))))
  /-- All else outside of the target is as it was. -/
  others : ∀ other, Path.isWithin other target = false →
    (fs.contains target = true ∨ Path.normalize other ≠ Path.dirname target) →
    later.faceAt (Path.segments other) = fs.faceAt (Path.segments other)

/-- A directory that is copied apart from itself is laid over its target, and nothing else changes but
the directory that a new target is made in. -/
theorem copyTree_overlays_tree (hproper : fs.IsProper)
    (htarget : Path.isWithin target source = false) (hsource : Path.isWithin source target = false)
    (hrun : (copyTree source target owner).run fs = .ok () later) :
    IsCopied source target owner fs later := by
  rw [← Bool.not_eq_true, Path.isWithin_iff] at htarget hsource
  rw [run_copyTree] at hrun
  have hapart : Apart (Path.segments source) (Path.segments target) := ⟨htarget, hsource⟩
  have hover := faceAt_copyNode hproper hapart hrun
  rw [ownerOr_eq_getD] at hover
  have hgrows := (copyNode_grows owner _ source target fs).of_run hrun
  have houtside : ∀ place, fs.Outside (Path.segments target) place →
      later.faceAt place = fs.faceAt place := by
    intro place hplace
    have hkept := @faceAt_copyNode_outside fs owner source target place (copyLevels fs source)
      hproper hplace
    rwa [hrun] at hkept
  constructor
  · exact fun below face hface => includes_copyNode hproper hapart hrun hface
  · intro below hlacks
    rw [hover, hlacks]
    rfl
  · intro below there hnone hthere
    rw [hover, hnone] at hthere
    exact Face.attributes_overlay hthere
  · intro below before hbefore
    obtain ⟨after, hafter, hkind⟩ := hgrows.exists_faceAt hbefore
    have hlaid := hafter
    rw [hover, hbefore] at hlaid
    exact ⟨after, hafter, hkind, Face.rights_overlay hlaid⟩
  · intro below
    exact houtside _ (outside_of_apart hapart below)
  · intro hmissing
    exact faceAt_copyNode_dirname hproper (fun hroot => hapart.2 (hroot ▸ List.nil_prefix)) hmissing
      hrun
  · intro other hbeside hfree
    rw [← Bool.not_eq_true, Path.isWithin_iff] at hbeside
    refine houtside _ ⟨hbeside, fun heq => ?_⟩
    rw [Ne, Path.normalize_eq_dirname_iff, Path.segments_dirname] at hfree
    exact hfree.resolve_right fun h => h heq

/-- The drawer is copied into the box, over the memo there and beside the key. -/
theorem drawer_is_copied :
    study.IsProper ∧ Path.isWithin "/box/." "/desk//drawer" = false ∧
      Path.isWithin "/desk//drawer" "/box/." = false ∧
      ∃ later, (copyTree "/desk//drawer" "/box/." (some "bob")).run study = .ok () later ∧
        IsCopied "/desk//drawer" "/box/." (some "bob") study later := by
  have hproper : study.IsProper := by decide
  have htarget : Path.isWithin "/box/." "/desk//drawer" = false := by decide
  have hsource : Path.isWithin "/desk//drawer" "/box/." = false := by decide
  have hcopied : ¬ Fails (copyTree "/desk//drawer" "/box/." (some "bob")) study := by
    decide +kernel
  obtain ⟨⟨⟩, later, hrun⟩ := not_fails_iff.1 hcopied
  exact ⟨hproper, htarget, hsource, later, hrun,
    copyTree_overlays_tree hproper htarget hsource hrun⟩

end Edit

end PracticeShell
