import Mathlib.Data.List.Induction
import PracticeShell.Redirection
import PracticeShell.Proofs.Tree.Along

/-!
# What writing output to a file changes

Output is written after the directories above its file have been made. A run that fails has made
nothing before (`eq_of_writeFile_error`): a file on the way ends it at once, and once the directories
are there the file can be written. A run that succeeds is seen at each place in `Stores`, and at the
paths of a learner in `IsStored`.
-/

namespace PracticeShell

open FileTree Run

theorem Edit.ownerOr_some {user : String} (h : user ≠ "") (fs : FileSystem) :
    ownerOr (some user) fs = user := if_neg h

namespace Redirection

open FileSystem Edit

variable {fs mid later : FileSystem} {ctx : Context} {t : Target} {full contents output user : String}
  {bytes : ByteArray}

/-- What is seen at each place after a file has been written along a way, and the directories above it
have been made. -/
structure Stores (user : String) (bytes : ByteArray) (way : List String) (fs later : FileSystem) :
    Prop where
  /-- A file that was there keeps its rights. -/
  filled : ∀ a old, fs.faceAt way = some (.file a old) →
    later.faceAt way = some (.file { a with modified := fs.now } bytes)
  /-- A new file belongs to the user. -/
  made : fs.faceAt way = none →
    later.faceAt way = some (.file ⟨ownerOr (some user) fs, Permissions.newFile, fs.now⟩ bytes)
  /-- A new directory belongs to the user and holds what comes next on the way. -/
  laid : ∀ place name, place ++ [name] <+: way → fs.faceAt place = none → later.faceAt place =
    some (.directory ⟨ownerOr (some user) fs, Permissions.newDirectory, fs.now⟩ [name])
  /-- The last directory that was there lists the first new name. -/
  grown : ∀ place name, place ++ [name] <+: way → (fs.faceAt place).isSome →
    fs.faceAt (place ++ [name]) = none →
    later.faceAt place = (fs.faceAt place).map (Face.mapNames fs.now (· ++ [name]))
  /-- All else is as it was. -/
  others : ∀ place, place ≠ way → (fs.faceAt place = none → ¬ place <+: way) →
    (∀ name, place ++ [name] <+: way → (fs.faceAt (place ++ [name])).isSome) →
    later.faceAt place = fs.faceAt place

section

variable {parent names : List String} {name : String} {b : Attributes}

/-- A way that goes on from a place on the way to its last name ends there, or goes on before it. -/
theorem prefix_concat_cases {place : List String} {next : String}
    (h : place ++ [next] <+: parent ++ [name]) :
    (place = parent ∧ next = name) ∨ place ++ [next] <+: parent := by
  rcases List.prefix_concat_iff.1 h with hsame | hbefore
  · exact .inl (by simpa using hsame)
  · exact .inr hbefore

/-- A file that was there is filled, where all directories above it are there. -/
theorem stores_of_filled {a : Attributes} {old : ByteArray}
    (hlays : Lays Permissions.newDirectory (some user) parent fs mid) (hnow : mid.now = fs.now)
    (hold : mid.faceAt (parent ++ [name]) = some (.file a old))
    (hlater : ∀ place, later.faceAt place =
      if place = parent ++ [name] then some (.file { a with modified := mid.now } bytes)
      else mid.faceAt place) : Stores user bytes (parent ++ [name]) fs later := by
  have hthere : fs.faceAt (parent ++ [name]) = some (.file a old) := by
    rw [← hold, hlays.faceAt_concat]
  have hsome : ∀ place, place <+: parent ++ [name] → (fs.faceAt place).isSome := fun place hplace =>
    isSome_faceAt_of_prefix hplace (by rw [hthere, Option.isSome_some])
  constructor
  case filled =>
    intro a' old' hface
    obtain ⟨rfl, rfl⟩ := Face.file.inj (Option.some.inj (hthere.symm.trans hface))
    rw [hlater, if_pos rfl, hnow]
  case made =>
    intro hnone
    rw [hthere] at hnone
    cases hnone
  case laid =>
    intro place next hplace hnone
    have hgiven := hsome place ((List.prefix_append place [next]).trans hplace)
    rw [hnone] at hgiven
    cases hgiven
  case grown =>
    intro place next hplace _ hnone
    have hgiven := hsome _ hplace
    rw [hnone] at hgiven
    cases hgiven
  case others =>
    intro place hne hnone hall
    rw [hlater, if_neg hne]
    exact hlays.others place
      (fun hmissing hplace => hnone hmissing (hplace.trans (List.prefix_append parent [name])))
      fun next hnext => hall next (hnext.trans (List.prefix_append parent [name]))

/-- A directory that has been made holds the one that comes next on the way. -/
theorem made_next {place : List String} {next : String}
    (hlays : Lays Permissions.newDirectory (some user) parent fs mid)
    (hplace : place ++ [next] <+: parent) (hnone : fs.faceAt place = none) : mid.faceAt place =
      some (.directory ⟨ownerOr (some user) fs, Permissions.newDirectory, fs.now⟩ [next]) := by
  obtain ⟨rest, rfl⟩ := hplace
  have hnext : nextAlong (place ++ [next] ++ rest) place = some next := by
    rw [List.append_assoc, nextAlong_append]
    rfl
  rw [hlays.made place ⟨next :: rest, by simp⟩ hnone, hnext]
  rfl

/-- A file is made in the last of the directories that have been made. -/
theorem stores_of_made
    (hlays : Lays Permissions.newDirectory (some user) parent fs mid) (hnow : mid.now = fs.now)
    (howner : ownerOr (some user) mid = ownerOr (some user) fs)
    (hdir : mid.faceAt parent = some (.directory b names))
    (hnone : mid.faceAt (parent ++ [name]) = none)
    (hlater : ∀ place, later.faceAt place =
      if place = parent then some (.directory { b with modified := mid.now } (names ++ [name]))
      else if place = parent ++ [name] then
        some (.file ⟨ownerOr (some user) mid, Permissions.newFile, mid.now⟩ bytes)
      else mid.faceAt place) : Stores user bytes (parent ++ [name]) fs later := by
  have hmissing : fs.faceAt (parent ++ [name]) = none := by
    rw [← hnone, hlays.faceAt_concat]
  -- the place of a new directory that is not the last one is not touched by the file
  have hapart : ∀ place next, place ++ [next] <+: parent →
      place ≠ parent ∧ place ≠ parent ++ [name] := by
    intro place next hplace
    refine ⟨?_, ?_⟩
    · rintro rfl
      exact Change.not_append_prefix_self place next hplace
    · rintro rfl
      exact absurd hplace.length_le (by simp)
  constructor
  case filled =>
    intro a old hface
    rw [hmissing] at hface
    cases hface
  case made =>
    intro _
    rw [hlater, if_neg (by simp), if_pos rfl, howner, hnow]
  case laid =>
    intro place next hplace hnew
    rcases prefix_concat_cases hplace with ⟨rfl, rfl⟩ | hbefore
    · have hempty := hlays.made place List.prefix_rfl hnew
      have hlast := nextAlong_append place []
      rw [List.append_nil, List.head?_nil] at hlast
      rw [hlast, hdir] at hempty
      obtain ⟨rfl, rfl⟩ := Face.directory.inj (Option.some.inj hempty)
      rw [hlater, if_pos rfl, hnow]
      rfl
    · obtain ⟨hne, hfile⟩ := hapart place next hbefore
      rw [hlater, if_neg hne, if_neg hfile, made_next hlays hbefore hnew]
  case grown =>
    intro place next hplace hthere hnew
    rcases prefix_concat_cases hplace with ⟨rfl, rfl⟩ | hbefore
    · have hsame := hlays.others place (fun h => by simp [h] at hthere)
        fun other hother => absurd hother (Change.not_append_prefix_self place other)
      rw [hlater, if_pos rfl, ← hsame, hdir, hnow]
      rfl
    · obtain ⟨hne, hfile⟩ := hapart place next hbefore
      rw [hlater, if_neg hne, if_neg hfile, hlays.grown place next hbefore hthere hnew]
  case others =>
    intro place hne hnew hall
    have hparent : place ≠ parent := by
      rintro rfl
      have hsome := hall name List.prefix_rfl
      rw [hmissing] at hsome
      cases hsome
    rw [hlater, if_neg hparent, if_neg hne]
    exact hlays.others place
      (fun hgone hplace => hnew hgone (hplace.trans (List.prefix_append parent [name])))
      fun next hnext => hall next (hnext.trans (List.prefix_append parent [name]))

end

/-- Where the directory of a file is there, the file is written. -/
theorem run_writeFile_of_contains (h : fs.contains (Path.dirname full) = true) :
    (writeFile ctx full contents).run fs =
      (Edit.write full (Text.Utf8.encode contents) (some ctx.user) Permissions.newFile).run fs := by
  rw [writeFile, run_get_bind, h]
  rfl

/-- Where the directory of a file is missing, the directories above the file are made first. -/
theorem run_writeFile_of_missing (h : fs.contains (Path.dirname full) = false) :
    (writeFile ctx full contents).run fs =
      (makeDirectories (Path.dirname full) Permissions.newDirectory (some ctx.user) >>= fun _ =>
        Edit.write full (Text.Utf8.encode contents) (some ctx.user) Permissions.newFile).run fs := by
  rw [writeFile, run_get_bind, h]
  rfl

/-- A file is written where the directories along the way to it have been made. -/
theorem stores_of_write
    (hlays : Lays Permissions.newDirectory (some user) (Path.segments (Path.dirname full)) fs mid)
    (hreaches : Change.Reaches Change.IsGrowth fs mid)
    (hwrite : (Edit.write full bytes (some user) Permissions.newFile).run mid = .ok () later) :
    Stores user bytes (Path.segments full) fs later := by
  obtain ⟨parent, name, b, names, hpath, hdir, hcases⟩ := write_cases hwrite
  rw [Path.segments_dirname_of_append hpath] at hlays
  have hnow := hreaches.now_eq
  have howner : ownerOr (some user) mid = ownerOr (some user) fs := by
    rw [ownerOr_eq_getD, ownerOr_eq_getD, hreaches.defaultOwner_eq]
  rw [hpath]
  rcases hcases with ⟨hnone, hlater⟩ | ⟨a, old, hold, hlater⟩
  · exact stores_of_made hlays hnow howner hdir hnone hlater
  · exact stores_of_filled hlays hnow hold hlater

/-- The directories above a file that is written are there when it is. -/
theorem writeFile_stores (hrun : (writeFile ctx full contents).run fs = .ok () later) :
    Stores ctx.user (Text.Utf8.encode contents) (Path.segments full) fs later := by
  cases hthere : fs.contains (Path.dirname full) with
  | true =>
      rw [run_writeFile_of_contains hthere] at hrun
      rw [contains_eq] at hthere
      exact stores_of_write (lays_self hthere) .refl hrun
  | false =>
      rw [run_writeFile_of_missing hthere, run_bind_eq_ok_iff] at hrun
      obtain ⟨⟨⟩, mid, hmakes, hwrite⟩ := hrun
      exact stores_of_write (makeDirectories_lays hmakes)
        ((makeDirectories_grows fs _ _ _).of_run hmakes) hwrite

/-- Once the directories above a file that was missing are there, it can be written. -/
theorem not_fails_write_of_makeDirectories (hmissing : fs.contains (Path.dirname full) = false)
    (hmakes : (makeDirectories (Path.dirname full) Permissions.newDirectory
      (some user)).run fs = .ok () mid) :
    fs.kindAt (Path.segments full) = none ∧
      ¬ Fails (Edit.write full bytes (some user) Permissions.newFile) mid := by
  have hlays := makeDirectories_lays hmakes
  have hkind := kindAt_makeDirectories hmakes
  rw [contains_eq, Option.isSome_eq_false_iff, Option.isNone_iff_eq_none] at hmissing
  rcases List.eq_nil_or_concat (Path.segments full) with hroot | ⟨parent, name, hpath⟩
  · rw [Path.segments_dirname, hroot] at hmissing
    cases hmissing
  · rw [List.concat_eq_append] at hpath
    rw [Path.segments_dirname_of_append hpath] at hmissing hlays hkind
    have hnew : fs.faceAt (parent ++ [name]) = none := faceAt_append_of_none hmissing [name]
    have hstill : mid.faceAt (parent ++ [name]) = none := by
      rw [hlays.faceAt_concat, hnew]
    refine ⟨by rw [hpath, kindAt_eq, hnew]; rfl, ?_⟩
    rw [write_fails_iff, Classical.not_not, hpath, kindAt_eq mid (parent ++ [name]), hstill]
    exact ⟨⟨parent, name, hpath, hkind⟩, by simp⟩

/-- Where a path leads to something, only that itself can be in the way. -/
theorem obstructs_iff_of_contains {path : String} (h : fs.contains path = true) :
    fs.Obstructs path ↔ fs.kindAt (Path.segments path) ≠ some true := by
  have hthere : fs.kindAt (Path.segments path) ≠ none := by
    rw [contains_eq] at h
    rw [kindAt_eq, Ne, Option.map_eq_none_iff]
    exact Option.isSome_iff_ne_none.1 h
  constructor
  · rintro ⟨place, hplace, hfile⟩ hdir
    have hthis := kindAt_of_prefix hplace hdir
    rw [hfile] at hthis
    cases hthis
  · intro hdir
    refine ⟨Path.segments path, List.prefix_rfl, ?_⟩
    cases hkind : fs.kindAt (Path.segments path) with
    | none => exact absurd hkind hthere
    | some kind => cases kind <;> simp_all

/-- A file can be written unless there is a directory, or a file is in the way above it. -/
theorem writeFile_fails_iff : Fails (writeFile ctx full contents) fs ↔
    fs.kindAt (Path.segments full) = some true ∨ fs.Obstructs (Path.dirname full) := by
  cases hthere : fs.contains (Path.dirname full) with
  | true =>
      rw [Fails, run_writeFile_of_contains hthere, ← Fails, write_fails_iff,
        obstructs_iff_of_contains hthere]
      rcases List.eq_nil_or_concat (Path.segments full) with hroot | ⟨parent, name, hpath⟩
      · simp [hroot]
      · rw [List.concat_eq_append] at hpath
        have hholds : fs.CanHold full ↔ fs.kindAt parent = some true := by
          constructor
          · rintro ⟨other, last, hother, hkind⟩
            obtain ⟨rfl, -⟩ := List.append_inj' (hpath.symm.trans hother) rfl
            exact hkind
          · exact fun hkind => ⟨parent, name, hpath, hkind⟩
        rw [hholds, Path.segments_dirname_of_append hpath, Classical.not_and_iff_not_or_not,
          Classical.not_not, or_comm]
  | false =>
      rw [Fails, run_writeFile_of_missing hthere, ← Fails,
        fails_bind_left fun _ mid hrun => (not_fails_write_of_makeDirectories hthere hrun).2,
        makeDirectories_fails_iff]
      refine ⟨.inr, fun h => h.resolve_left fun hdir => ?_⟩
      have hparent := kindAt_of_prefix (List.dropLast_prefix (Path.segments full)) hdir
      rw [← Path.segments_dirname, kindAt_eq] at hparent
      rw [contains_eq] at hthere
      cases hface : fs.faceAt (Path.segments (Path.dirname full)) <;> simp_all

/-- What fails to write a file has not made a directory above it. -/
theorem eq_of_writeFile_error {e : FileTree.Error}
    (hrun : (writeFile ctx full contents).run fs = .error e later) : later = fs := by
  cases hthere : fs.contains (Path.dirname full) with
  | true =>
      rw [run_writeFile_of_contains hthere] at hrun
      exact (makes_write full _ _ _ fs).eq_of_error hrun
  | false =>
      rw [run_writeFile_of_missing hthere, EStateM.run_bind] at hrun
      split at hrun
      · rename_i mid hmakes
        exact absurd (fails_of_error hrun) (not_fails_write_of_makeDirectories hthere hmakes).2
      · rename_i hmakes
        cases hrun
        exact makeDirectories_eq_of_error hmakes

/-- What was there and is not the file is as it was, or is a directory that lists one more name. -/
theorem Stores.faceAt_cases {way place : List String} {face : Face}
    (h : Stores user bytes way fs later) (hne : place ≠ way) (hface : fs.faceAt place = some face) :
    later.faceAt place = some face ∨ ∃ name, place ++ [name] <+: way ∧
      fs.faceAt (place ++ [name]) = none ∧
      later.faceAt place = some (face.mapNames fs.now (· ++ [name])) := by
  by_cases hnext : ∃ name, place ++ [name] <+: way ∧ fs.faceAt (place ++ [name]) = none
  · obtain ⟨name, hname, hmissing⟩ := hnext
    refine .inr ⟨name, hname, hmissing, ?_⟩
    rw [h.grown place name hname (by simp [hface]) hmissing, hface]
    rfl
  · refine .inl ?_
    rw [h.others place hne (by simp [hface]) fun name hname => ?_, hface]
    by_contra hmissing
    exact hnext ⟨name, hname, Option.not_isSome_iff_eq_none.1 hmissing⟩

/-- What is made lies on the way and belongs to the user. -/
theorem Stores.of_missing {way place : List String} (h : Stores user bytes way fs later)
    (hmissing : fs.faceAt place = none) (hthere : (later.faceAt place).isSome) :
    place <+: way ∧ ∃ face, later.faceAt place = some face ∧
      face.attributes.owner = ownerOr (some user) fs := by
  by_cases hplace : place <+: way
  · refine ⟨hplace, ?_⟩
    obtain ⟨rest, rfl⟩ := hplace
    cases rest with
    | nil =>
        rw [List.append_nil] at h
        exact ⟨_, h.made hmissing, rfl⟩
    | cons name rest => exact ⟨_, h.laid place name (by simp) hmissing, rfl⟩
  · have hsame := h.others place (fun heq => hplace (heq ▸ List.prefix_rfl)) (fun _ => hplace)
      fun name hname => absurd ((List.prefix_append place [name]).trans hname) hplace
    rw [hsame, hmissing] at hthere
    cases hthere

/-- The file is there and holds the bytes. -/
theorem Stores.exists_file {way : List String} (h : Stores user bytes way fs later)
    (hfree : fs.kindAt way ≠ some true) : ∃ a, later.faceAt way = some (.file a bytes) := by
  cases hface : fs.faceAt way with
  | none => exact ⟨_, h.made hface⟩
  | some face =>
      cases face with
      | file a old => exact ⟨_, h.filled a old hface⟩
      | directory a names =>
          rw [kindAt_eq, hface] at hfree
          exact absurd rfl hfree

/-- What is left where output could not be written. -/
theorem eq_of_write_some {problem : Outcome}
    (h : write ctx t output fs = (some problem, later)) : later = fs := by
  unfold write at h
  dsimp only at h
  split at h
  · exact (congrArg Prod.snd h).symm
  · split at h
    · exact (congrArg Prod.snd h).symm
    · split at h
      · cases congrArg Prod.fst h
      · rename_i hrun
        obtain rfl := congrArg Prod.snd h
        exact eq_of_writeFile_error hrun

/-- Output is written to what is not a directory and not off limits. -/
theorem write_eq_none_iff : write ctx t output fs = (none, later) ↔
    fs.isDirectory (ctx.resolve t.operand) = false ∧
      writeDenied ctx fs (ctx.resolve t.operand) = false ∧
      (writeFile ctx (ctx.resolve t.operand)
        (newContents t.append (fs.text (ctx.resolve t.operand)).toOption output)).run fs =
          .ok () later := by
  unfold write
  dsimp only
  split
  · rename_i hdir
    rw [hdir]
    exact iff_of_false (fun h => nomatch congrArg Prod.fst h) (by simp)
  · rename_i hdir
    split
    · rename_i hdenied
      rw [hdenied]
      exact iff_of_false (fun h => nomatch congrArg Prod.fst h) (by simp)
    · rename_i hdenied
      rw [Bool.eq_false_iff.2 hdir, Bool.eq_false_iff.2 hdenied, EStateM.run]
      split <;> rename_i hrun <;> rw [hrun]
      · constructor
        · intro h
          obtain rfl := congrArg Prod.snd h
          exact ⟨rfl, rfl, rfl⟩
        · rintro ⟨-, -, h⟩
          cases h
          rfl
      · exact iff_of_false (fun h => nomatch congrArg Prod.fst h) (by simp)

/-- If the nearest node above a place is a directory, no file is on the way. -/
theorem not_obstructs_of_nearest {path : String}
    (h : (Access.nearestExisting fs path).isDirectory = true) : ¬ fs.Obstructs path := by
  rintro ⟨place, hplace, hfile⟩
  rw [Access.nearestExisting] at h
  generalize Path.segments path = way at h hplace
  -- From the end of the way up to the first node that is there.
  induction way using List.reverseRecOn with
  | nil =>
      obtain rfl := List.prefix_nil.1 hplace
      cases hfile
  | append_singleton parent name ih =>
      cases hnode : fs.root.find? (parent ++ [name]) with
      | some node =>
          rw [Access.nearestAlong_of_find? hnode] at h
          have hdir : fs.kindAt (parent ++ [name]) = some true := by
            rw [kindAt, hnode]
            exact congrArg some h
          rw [ kindAt_of_prefix hplace hdir] at hfile
          cases hfile
      | none =>
          rw [Access.nearestAlong_concat hnode] at h
          rcases List.prefix_concat_iff.1 hplace with rfl | hbefore
          · rw [kindAt, hnode] at hfile
            cases hfile
          · exact ih h hbefore

/-- Whether a learner may write to a path: there is a file or nothing, and the nearest node, which is a
directory if there is nothing, is not off limits. -/
structure IsWritable (fs : FileSystem) (path : String) : Prop where
  file : fs.isDirectory path = false
  owner : (Access.nearestExisting fs path).owner ≠ Context.rootUser
  directory : fs.contains path = false → (Access.nearestExisting fs path).isDirectory = true

theorem denied_eq_false_iff {node : Stat} : Access.denied ctx node = false ↔
    node.owner ≠ Context.rootUser ∨ ctx.elevated = true := by
  rw [Access.denied]
  cases ctx.elevated <;> simp

theorem IsWritable.writeDenied (h : IsWritable fs full) (ctx : Context) :
    writeDenied ctx fs full = false := by
  have howner := h.owner
  rw [Redirection.writeDenied, stat?, FileSystem.find?]
  rw [Access.nearestExisting] at howner
  cases hnode : fs.root.find? (Path.segments full) with
  | some node =>
      rw [Access.nearestAlong_of_find? hnode] at howner
      exact denied_eq_false_iff.2 (.inl howner)
  | none =>
      refine denied_eq_false_iff.2 (.inl ?_)
      rcases List.eq_nil_or_concat (Path.segments full) with hroot | ⟨parent, name, hpath⟩
      · rw [hroot] at hnode
        cases hnode
      · rw [List.concat_eq_append] at hpath
        rw [hpath] at howner hnode
        rw [Access.nearestAlong_concat hnode] at howner
        rwa [Access.nearestExisting, Path.segments_dirname_of_append hpath]

/-- No file is in the way of one that may be written. -/
theorem IsWritable.not_obstructs (h : IsWritable fs full) : ¬ fs.Obstructs (Path.dirname full) := by
  rintro ⟨place, hplace, hfile⟩
  cases hthere : fs.contains full with
  | false =>
      rw [Path.segments_dirname] at hplace
      exact not_obstructs_of_nearest (h.directory hthere)
        ⟨place, hplace.trans (List.dropLast_prefix _), hfile⟩
  | true =>
      rcases List.eq_nil_or_concat (Path.segments full) with hroot | ⟨parent, name, hpath⟩
      · rw [Path.segments_dirname, hroot] at hplace
        obtain rfl := List.prefix_nil.1 hplace
        cases hfile
      · rw [List.concat_eq_append] at hpath
        rw [Path.segments_dirname_of_append hpath] at hplace
        have hnext : fs.kindAt (parent ++ [name]) ≠ none := by
          rw [← hpath, Ne, kindAt_eq, Option.map_eq_none_iff]
          rw [contains_eq] at hthere
          exact Option.isSome_iff_ne_none.1 hthere
        rw [ kindAt_of_prefix hplace (kindAt_of_append hnext)] at hfile
        cases hfile

/-- Output is written where a learner may write. -/
theorem IsWritable.exists_write (h : IsWritable fs (ctx.resolve t.operand)) (output : String) :
    ∃ later, write ctx t output fs = (none, later) := by
  have hruns : ¬ Fails (writeFile ctx (ctx.resolve t.operand)
      (newContents t.append (fs.text (ctx.resolve t.operand)).toOption output)) fs := by
    rw [writeFile_fails_iff, not_or]
    exact ⟨isDirectory_eq_false_iff.1 h.file, h.not_obstructs⟩
  obtain ⟨⟨⟩, later, hrun⟩ := not_fails_iff.1 hruns
  exact ⟨later, write_eq_none_iff.2 ⟨h.file, h.writeDenied ctx, hrun⟩⟩

/-- What a file system has become when output has been written to a file. -/
structure IsStored (ctx : Context) (append : Bool) (full output : String)
    (fs later : FileSystem) : Prop where
  /-- A file is there now. -/
  file : later.isFile full = true
  /-- What was there was a file that was not off limits. -/
  permitted : ∀ before, fs.stat? full = some before →
    before.isFile ∧ (before.owner ≠ Context.rootUser ∨ ctx.elevated)
  /-- If nothing was there, the nearest node above was not off limits. -/
  reached : fs.contains full = false →
    (Access.nearestExisting fs (Path.dirname full)).owner ≠ Context.rootUser ∨ ctx.elevated
  /-- The file holds what is to be written, which is the output alone if it is not appended. -/
  contents : later.contents full =
    .ok (Text.Utf8.encode (newContents append (fs.text full).toOption output))
  overwritten : append = false → later.contents full = .ok (Text.Utf8.encode output)
  /-- A file that was there keeps its owner and its mode. -/
  kept : ∀ before, fs.stat? full = some before → ∃ after, later.stat? full = some after ∧
    after.owner = before.owner ∧ after.mode = before.mode
  /-- The directories above are there. -/
  directories : ∀ above, Path.isWithin full above = true →
    Path.normalize above ≠ Path.normalize full → later.isDirectory above = true
  /-- What is new is the file or lies above it, and belongs to the user. -/
  made : ∀ path, fs.contains path = false → later.contains path = true →
    Path.isWithin full path = true ∧
      ∃ after, later.stat? path = some after ∧ after.owner = ctx.user
  /-- All else that was there keeps its kind, its owner and its mode. -/
  others : ∀ path before, fs.stat? path = some before →
    Path.normalize path ≠ Path.normalize full →
    ∃ after, later.stat? path = some after ∧ after.isDirectory = before.isDirectory ∧
      after.owner = before.owner ∧ after.mode = before.mode
  /-- Other files keep their contents. -/
  files : ∀ path bytes, fs.contents path = .ok bytes →
    Path.normalize path ≠ Path.normalize full → later.contents path = .ok bytes
  /-- Directories list what they did, and one of them the first new name after that. -/
  names : ∀ path names, fs.names path = .ok names → later.names path = .ok names ∨
    ∃ name, later.names path = .ok (names ++ [name]) ∧
      Path.segments path ++ [name] <+: Path.segments full ∧
      fs.faceAt (Path.segments path ++ [name]) = none

/-- Nodes that look alike up to contents, names and times are known alike. -/
theorem exists_stat?_of_faceAt {path : String} {face last : Face} {before : Stat}
    (hbefore : fs.stat? path = some before) (hface : fs.faceAt (Path.segments path) = some face)
    (hlast : later.faceAt (Path.segments path) = some last)
    (hkind : last.isDirectory = face.isDirectory)
    (howner : last.attributes.owner = face.attributes.owner)
    (hpermissions : last.attributes.permissions = face.attributes.permissions) :
    ∃ after, later.stat? path = some after ∧ after.isDirectory = before.isDirectory ∧
      after.owner = before.owner ∧ after.mode = before.mode := by
  obtain ⟨s, hs, hsKind, hsOwner, hsPermissions⟩ := stat?_of_faceAt hface
  obtain rfl : s = before := Option.some.inj (hs.symm.trans hbefore)
  obtain ⟨after, hafter, haKind, haOwner, haPermissions⟩ := stat?_of_faceAt hlast
  have hsame : after.isDirectory = s.isDirectory := by rw [haKind, hkind, hsKind]
  refine ⟨after, hafter, hsame, by rw [haOwner, howner, hsOwner], ?_⟩
  rw [Stat.mode, Stat.mode, hsame, haPermissions, hpermissions, hsPermissions]

theorem exists_faceAt_of_stat? {path : String} {before : Stat}
    (hbefore : fs.stat? path = some before) : ∃ face, fs.faceAt (Path.segments path) = some face := by
  rw [← Option.ne_none_iff_exists', Ne, ← stat?_eq_none_iff, hbefore]
  simp

/-- What is above a node is a directory. -/
theorem isDirectory_of_isWithin {above : String} (hthere : fs.kindAt (Path.segments full) ≠ none)
    (habove : Path.isWithin full above = true) (hne : Path.segments above ≠ Path.segments full) :
    fs.isDirectory above = true := by
  obtain ⟨rest, hrest⟩ := (Path.isWithin_iff full above).1 habove
  rw [isDirectory_eq_true_iff]
  cases rest with
  | nil =>
      rw [List.append_nil] at hrest
      exact absurd hrest hne
  | cons name rest =>
      rw [List.append_cons] at hrest
      have hnext : fs.kindAt (Path.segments above ++ [name]) ≠ none := fun hnone =>
        hthere (by rw [← hrest, kindAt_append_of_none hnone])
      exact kindAt_of_append hnext

section Stored

variable {path : String} (hkind : fs.kindAt (Path.segments full) ≠ some true)
  (h : Stores user bytes (Path.segments full) fs later)

include h

theorem Stores.exists_stat?_others {before : Stat} (hbefore : fs.stat? path = some before)
    (hne : Path.segments path ≠ Path.segments full) :
    ∃ after, later.stat? path = some after ∧ after.isDirectory = before.isDirectory ∧
      after.owner = before.owner ∧ after.mode = before.mode := by
  obtain ⟨face, hface⟩ := exists_faceAt_of_stat? hbefore
  rcases h.faceAt_cases hne hface with hstill | ⟨name, -, -, hmore⟩
  · exact exists_stat?_of_faceAt hbefore hface hstill rfl rfl rfl
  · exact exists_stat?_of_faceAt hbefore hface hmore (Face.isDirectory_mapNames _ _ face)
      (by cases face <;> rfl) (by cases face <;> rfl)

theorem Stores.contents_others {other : ByteArray} (hother : fs.contents path = .ok other)
    (hne : Path.segments path ≠ Path.segments full) : later.contents path = .ok other := by
  obtain ⟨a, hface⟩ := contents_eq_ok_iff.1 hother
  rcases h.faceAt_cases hne hface with hstill | ⟨name, -, -, hstill⟩
  · exact contents_eq_ok_iff.2 ⟨a, hstill⟩
  · exact contents_eq_ok_iff.2 ⟨a, hstill⟩

theorem Stores.exists_stat?_of_missing (huser : user ≠ "") (hmissing : fs.contains path = false)
    (hthere : later.contains path = true) : Path.isWithin full path = true ∧
      ∃ after, later.stat? path = some after ∧ after.owner = user := by
  rw [contains_eq] at hthere
  rw [contains_eq, Option.isSome_eq_false_iff, Option.isNone_iff_eq_none] at hmissing
  obtain ⟨hway, face, hface, howner⟩ := h.of_missing hmissing hthere
  obtain ⟨after, hafter, -, hsame, -⟩ := stat?_of_faceAt hface
  exact ⟨(Path.isWithin_iff full path).2 hway, after, hafter,
    by rw [hsame, howner, ownerOr_some huser]⟩

include hkind

theorem Stores.exists_stat?_kept {before : Stat} (hbefore : fs.stat? full = some before) :
    ∃ after, later.stat? full = some after ∧ after.owner = before.owner ∧
      after.mode = before.mode := by
  obtain ⟨face, hface⟩ := exists_faceAt_of_stat? hbefore
  cases face with
  | directory =>
      rw [kindAt_eq, hface] at hkind
      exact absurd rfl hkind
  | file a old =>
      obtain ⟨after, hafter, -, hrights⟩ :=
        exists_stat?_of_faceAt hbefore hface (h.filled a old hface) rfl rfl rfl
      exact ⟨after, hafter, hrights⟩

theorem Stores.names_cases {names : List String} (hnames : fs.names path = .ok names) :
    later.names path = .ok names ∨ ∃ name, later.names path = .ok (names ++ [name]) ∧
      Path.segments path ++ [name] <+: Path.segments full ∧
      fs.faceAt (Path.segments path ++ [name]) = none := by
  obtain ⟨a, hface⟩ := names_eq_ok_iff.1 hnames
  have hne : Path.segments path ≠ Path.segments full := by
    intro heq
    rw [← heq, kindAt_eq, hface] at hkind
    exact hkind rfl
  rcases h.faceAt_cases hne hface with hstill | ⟨name, hname, hmissing, hmore⟩
  · exact .inl (names_eq_ok_iff.2 ⟨a, hstill⟩)
  · exact .inr ⟨name, names_eq_ok_iff.2 ⟨_, hmore⟩, hname, hmissing⟩

end Stored

/-- What is seen at each place tells what the paths of a learner lead to. -/
theorem isStored_of_stores {append : Bool} (huser : ctx.user ≠ "")
    (hfree : fs.isDirectory full = false) (hdenied : writeDenied ctx fs full = false)
    (h : Stores ctx.user (Text.Utf8.encode (newContents append (fs.text full).toOption output))
      (Path.segments full) fs later) : IsStored ctx append full output fs later := by
  have hkind := isDirectory_eq_false_iff.1 hfree
  obtain ⟨last, hlast⟩ := h.exists_file hkind
  have hfile : later.kindAt (Path.segments full) = some false := by
    rw [kindAt_eq, hlast]
    rfl
  have hcontents : later.contents full = .ok (Text.Utf8.encode
      (newContents append (fs.text full).toOption output)) := contents_of_faceAt hlast
  have hnamed : ∀ {path}, Path.normalize path ≠ Path.normalize full →
      Path.segments path ≠ Path.segments full := fun {path} hne heq =>
    hne ((Path.normalize_eq_iff path full).2 heq)
  constructor
  case file => exact any_isFile_iff.2 hfile
  case permitted =>
    intro before hbefore
    rw [writeDenied, hbefore] at hdenied
    refine ⟨?_, denied_eq_false_iff.1 hdenied⟩
    rw [Stat.isFile, ← isDirectory_of_stat? hbefore, hfree]
    rfl
  case reached =>
    intro hmissing
    rw [contains_eq, Option.isSome_eq_false_iff, Option.isNone_iff_eq_none,
      ← stat?_eq_none_iff] at hmissing
    rw [writeDenied, hmissing] at hdenied
    exact denied_eq_false_iff.1 hdenied
  case contents => exact hcontents
  case overwritten =>
    intro happend
    rw [hcontents, happend]
    rfl
  case kept => exact fun before => h.exists_stat?_kept hkind
  case directories =>
    exact fun above habove hne => isDirectory_of_isWithin (by simp [hfile]) habove (hnamed hne)
  case made => exact fun path => h.exists_stat?_of_missing huser
  case others => exact fun path before hbefore hne => h.exists_stat?_others hbefore (hnamed hne)
  case files => exact fun path other hother hne => h.contents_others hother (hnamed hne)
  case names => exact fun path names => h.names_cases hkind

/-- Writing output to a file either changes nothing at all, or the file is there and nothing else has
changed but the directories that had to be made. -/
theorem write_stores_or_changes_nothing (fs : FileSystem) (ctx : Context) (t : Target)
    (output : String) (husername : ctx.username ≠ "") :
    (∀ problem later, write ctx t output fs = (some problem, later) → later = fs) ∧
      ∀ later, write ctx t output fs = (none, later) →
        IsStored ctx t.append (ctx.resolve t.operand) output fs later := by
  refine ⟨fun problem later => eq_of_write_some, fun later h => ?_⟩
  obtain ⟨hfree, hdenied, hrun⟩ := write_eq_none_iff.1 h
  have huser : ctx.user ≠ "" := by
    rw [Context.user]
    split
    · simp [Context.rootUser]
    · exact husername
  exact isStored_of_stores huser hfree hdenied (writeFile_stores hrun)

/-- A draft is written with two directories above it; another one is not, because a file is in the way
of its directories. -/
theorem draft_is_stored :
    (∃ later, write ⟨"/box", "ada", false⟩ ⟨"../shelf/poems/./new//draft", false⟩ "one" study =
        (none, later) ∧
      IsStored ⟨"/box", "ada", false⟩ false "/shelf/poems/new/draft" "one" study later) ∧
    ∃ problem, write ⟨"/box", "ada", false⟩ ⟨"memo/old/draft", false⟩ "one" study =
      (some problem, study) := by
  have hstored := write_stores_or_changes_nothing study ⟨"/box", "ada", false⟩
    ⟨"../shelf/poems/./new//draft", false⟩ "one" (by decide)
  have hkept := write_stores_or_changes_nothing study ⟨"/box", "ada", false⟩
    ⟨"memo/old/draft", false⟩ "one" (by decide)
  have hdone : (write ⟨"/box", "ada", false⟩ ⟨"../shelf/poems/./new//draft", false⟩ "one" study).1 =
      none := by decide +kernel
  have hplace : (⟨"/box", "ada", false⟩ : Context).resolve "../shelf/poems/./new//draft" =
      "/shelf/poems/new/draft" := by decide +kernel
  have hfails : (write ⟨"/box", "ada", false⟩ ⟨"memo/old/draft", false⟩ "one" study).1 =
      some (problem "memo/old/draft" "Not a directory") := by decide +kernel
  refine ⟨⟨_, Prod.ext hdone rfl, ?_⟩, _, Prod.ext hfails (hkept.1 _ _ (Prod.ext hfails rfl))⟩
  rw [← hplace]
  exact hstored.2 _ (Prod.ext hdone rfl)

end Redirection

end PracticeShell
