import PracticeShell.Proofs.Tree.Overlay

/-!
# What making all directories along a path changes

The directories along a way are made one below the other, from the first that is missing. `Edit.Lays`
says what is seen after it at each place, and is shown by one step (`Lays.make`) and induction along the
way (`makeAlong_lays`). So making a directory and those above it succeeds exactly if no file is on the
way, makes what is missing and nothing else, and has nothing to do a second time
(`makeDirectories_lays_way`).
-/

namespace PracticeShell

open FileTree FileTree.Change Run

namespace FileTree

/-- The name that follows a place along a way, if the place is on the way and not its end. -/
def nextAlong (way place : List String) : Option String :=
  if place <+: way then way[place.length]? else none

theorem nextAlong_append (place rest : List String) :
    nextAlong (place ++ rest) place = rest.head? := by
  rw [nextAlong, if_pos (List.prefix_append place rest), List.getElem?_append_right (Nat.le_refl _),
    Nat.sub_self, List.head?_eq_getElem?]

end FileTree

namespace FileSystem

variable {fs : FileSystem} {way place other : List String} {name next : String}

/-- Below nothing nothing is seen. -/
theorem faceAt_append_of_none (h : fs.faceAt place = none) (below : List String) :
    fs.faceAt (place ++ below) = none := by
  rw [faceAt, Node.faceAt, Option.map_eq_none_iff] at h
  rw [faceAt, Node.faceAt_append, h]
  rfl

theorem isSome_faceAt_of_prefix (h : place <+: other) (hother : (fs.faceAt other).isSome) :
    (fs.faceAt place).isSome := by
  obtain ⟨below, rfl⟩ := h
  by_contra hnone
  rw [Option.not_isSome_iff_eq_none] at hnone
  rw [faceAt_append_of_none hnone] at hother
  cases hother

/-- Contents are read where a file is seen that has them. -/
theorem contents_eq_ok_iff {path : String} {bytes : ByteArray} : fs.contents path = .ok bytes ↔
    ∃ a, fs.faceAt (Path.segments path) = some (.file a bytes) := by
  simp only [FileSystem.contents, FileSystem.find?, faceAt_eq_some]
  cases fs.root.find? (Path.segments path) with
  | none => simp
  | some node => cases node <;> simp

/-- A place before a missing one is not below another that is there. -/
theorem length_le_of_missing (hname : place ++ [name] <+: way)
    (hnone : fs.faceAt (place ++ [name]) = none) (hother : other <+: way)
    (hthere : (fs.faceAt other).isSome) : other.length ≤ place.length := by
  by_contra hlonger
  have hprefix : place ++ [name] <+: other :=
    List.prefix_of_prefix_length_le hname hother (by simp; omega)
  have hsome := isSome_faceAt_of_prefix hprefix hthere
  rw [hnone] at hsome
  cases hsome

/-- Along a way there is only one place that is there while the next one is missing. -/
theorem eq_of_missing (hname : place ++ [name] <+: way) (hplace : (fs.faceAt place).isSome)
    (hnone : fs.faceAt (place ++ [name]) = none) (hnext : other ++ [next] <+: way)
    (hother : (fs.faceAt other).isSome) (hmissing : fs.faceAt (other ++ [next]) = none) :
    place = other ∧ name = next := by
  have hplaceWay : place <+: way := (List.prefix_append place [name]).trans hname
  have hotherWay : other <+: way := (List.prefix_append other [next]).trans hnext
  have hlength : place.length = other.length :=
    Nat.le_antisymm (length_le_of_missing hnext hmissing hplaceWay hplace)
      (length_le_of_missing hname hnone hotherWay hother)
  have hsame : place ++ [name] = other ++ [next] :=
    (List.prefix_of_prefix_length_le hname hnext (by simp [hlength])).eq_of_length
      (by simp [hlength])
  simpa using List.append_inj hsame hlength

end FileSystem

namespace Edit

open FileSystem

/-- What is seen after the directories along a way have been made. -/
structure Lays (permissions : Permissions) (owner : Option String) (way : List String)
    (fs later : FileSystem) : Prop where
  /-- Where nothing was there is a directory, which holds the next one. -/
  made : ∀ place, place <+: way → fs.faceAt place = none → later.faceAt place =
    some (.directory ⟨ownerOr owner fs, permissions, fs.now⟩ (nextAlong way place).toList)
  /-- The last directory that was there lists the first new one. -/
  grown : ∀ place name, place ++ [name] <+: way → (fs.faceAt place).isSome →
    fs.faceAt (place ++ [name]) = none →
    later.faceAt place = (fs.faceAt place).map (Face.mapNames fs.now (· ++ [name]))
  /-- All else is as it was. -/
  others : ∀ place, (fs.faceAt place = none → ¬ place <+: way) →
    (∀ name, place ++ [name] <+: way → (fs.faceAt (place ++ [name])).isSome) →
    later.faceAt place = fs.faceAt place

variable {fs later : FileSystem} {permissions : Permissions} {owner : Option String}
  {way done rest : List String} {name path : String}

/-- Where all is there, nothing is made. -/
theorem lays_self (h : (fs.faceAt way).isSome) : Lays permissions owner way fs fs where
  made place hplace hnone := by
    have hsome := isSome_faceAt_of_prefix hplace h
    rw [hnone] at hsome
    cases hsome
  grown place name hname _ hnone := by
    have hsome := isSome_faceAt_of_prefix hname h
    rw [hnone] at hsome
    cases hsome
  others _ _ _ := rfl

/-- What comes after the way is as it was. -/
theorem Lays.faceAt_concat (h : Lays permissions owner way fs later) (name : String) :
    later.faceAt (way ++ [name]) = fs.faceAt (way ++ [name]) :=
  h.others _ (fun _ hpast => absurd hpast.length_le (by simp))
    fun next hnext => absurd hnext.length_le (by simp)

/-- What is seen of an empty directory on the way. -/
theorem Lays.faceAt_empty (h : Lays permissions owner way fs later) {place : List String}
    {a : Attributes} (hplace : place <+: way) (hempty : fs.faceAt place = some (.directory a []))
    (hstamp : a.modified = fs.now) :
    later.faceAt place = some (.directory a (nextAlong way place).toList) := by
  obtain ⟨rest, rfl⟩ := hplace
  rw [nextAlong_append]
  cases rest with
  | nil =>
      rw [List.append_nil] at h
      have hend : ∀ name, place ++ [name] <+: place →
          (fs.faceAt (place ++ [name])).isSome := fun name hname =>
        absurd hname (not_append_prefix_self place name)
      rw [h.others place (by simp [hempty]) hend, hempty]
      rfl
  | cons next rest =>
      have hmissing : fs.faceAt (place ++ [next]) = none := by
        have hnot := mt (mem_names_iff_isSome_faceAt hempty next).2 (by simp [Face.names])
        rwa [Option.not_isSome_iff_eq_none] at hnot
      rw [h.grown place next (by simp) (by simp [hempty]) hmissing, hempty, ← hstamp]
      rfl

/-- The first missing directory is made, and then those below it. -/
theorem Lays.make {b : Attributes} {names : List String} {next : FileSystem}
    (hdone : fs.faceAt done = some (.directory b names))
    (hnone : fs.faceAt (done ++ [name]) = none)
    (hnow : next.now = fs.now) (howner : ownerOr owner next = ownerOr owner fs)
    (hnext : ∀ place, next.faceAt place =
      if place = done then some (.directory { b with modified := fs.now } (names ++ [name]))
      else if place = done ++ [name] then
        some (.directory ⟨ownerOr owner fs, permissions, fs.now⟩ [])
      else fs.faceAt place)
    (h : Lays permissions owner (done ++ name :: rest) next later) :
    Lays permissions owner (done ++ name :: rest) fs later := by
  have hhere : done ++ [name] <+: done ++ name :: rest := by simp
  have hself : next.faceAt done =
      some (.directory { b with modified := fs.now } (names ++ [name])) := by
    rw [hnext, if_pos rfl]
  have hnew : next.faceAt (done ++ [name]) =
      some (.directory ⟨ownerOr owner fs, permissions, fs.now⟩ []) := by
    rw [hnext, if_neg (by simp), if_pos rfl]
  have hlasting : ∀ place, (fs.faceAt place).isSome → (next.faceAt place).isSome := by
    intro place hsome
    rw [hnext]
    split
    · rfl
    · split
      · rfl
      · exact hsome
  constructor
  · intro place hplace hmissing
    by_cases hfirst : place = done ++ [name]
    · subst hfirst
      exact h.faceAt_empty hhere hnew hnow.symm
    · have hne : place ≠ done := by
        rintro rfl
        rw [hdone] at hmissing
        cases hmissing
      rw [← howner, ← hnow]
      exact h.made place hplace (by rw [hnext, if_neg hne, if_neg hfirst, hmissing])
  · intro place other hplace hsome hmissing
    obtain ⟨rfl, rfl⟩ := eq_of_missing hplace hsome hmissing hhere (by simp [hdone]) hnone
    have hall : ∀ n, place ++ [n] <+: place ++ other :: rest →
        (next.faceAt (place ++ [n])).isSome := by
      intro n hn
      obtain rfl : n = other := by simpa using hn
      simp [hnew]
    rw [h.others place (by simp [hself]) hall, hself, hdone]
    rfl
  · intro place hplace hall
    have hne : place ≠ done := by
      rintro rfl
      have hsome := hall name hhere
      rw [hnone] at hsome
      cases hsome
    have hfirst : place ≠ done ++ [name] := by
      rintro rfl
      exact hplace hnone hhere
    have hsame : next.faceAt place = fs.faceAt place := by
      rw [hnext, if_neg hne, if_neg hfirst]
    rw [h.others place (by rwa [hsame]) fun n hn => hlasting _ (hall n hn), hsame]

/-- What is seen after an empty directory has been made in one that does not list it. -/
theorem faceAt_make_directory {a b : Attributes} {names : List String}
    (hdone : fs.faceAt done = some (.directory b names)) (hname : name ∉ names)
    (hfits : Fits fs (.make done name (.directory a []))) (place : List String) :
    (Change.apply fs (.make done name (.directory a []))).faceAt place =
      if place = done then some (.directory { b with modified := fs.now } (names ++ [name]))
      else if place = done ++ [name] then some (.directory a []) else fs.faceAt place := by
  rw [faceAt_make hfits, hdone]
  simp [Face.mapNames, Face.addName, hname, Entries.names]

/-- The directories along a way are made below the first of them that is missing. -/
theorem makeAlong_lays (rest : List String) {done : List String} {fs : FileSystem}
    (hsegments : ∀ name ∈ done ++ rest, Path.IsSegment name)
    (hrun : (makeAlong permissions owner done rest).run fs = .ok () later)
    (hdone : fs.kindAt done = some true) : Lays permissions owner (done ++ rest) fs later := by
  induction rest generalizing done fs with
  | nil =>
      cases hrun
      obtain ⟨b, es, hdir⟩ := kindAt_eq_true_iff.1 hdone
      refine lays_self ?_
      rw [List.append_nil, FileSystem.faceAt, Node.isSome_faceAt, hdir]
      rfl
  | cons name rest ih =>
      have hnames : ∀ n ∈ done ++ [name] ++ rest, Path.IsSegment n := by simpa using hsegments
      have hpath : Path.segments (Path.ofSegments (done ++ [name])) = done ++ [name] :=
        Path.segments_ofSegments fun n hn => hnames n (List.mem_append_left _ hn)
      rw [makeAlong, run_get_bind] at hrun
      cases hnode : fs.root.find? (done ++ [name]) with
      | some node =>
          rw [hnode] at hrun
          rw [List.append_cons]
          cases node with
          | file => cases hrun
          | directory a es => exact ih hnames hrun (kindAt_eq_true_iff.2 ⟨a, es, hnode⟩)
      | none =>
          obtain ⟨b, es, hdir⟩ := kindAt_eq_true_iff.1 hdone
          have hentry : Entries.get? es name = none := by rw [← find?_entry hdir, hnode]
          have hname : name ∉ Entries.names es := by rw [Entries.mem_names_iff, hentry]; simp
          have hface : fs.faceAt done = some (.directory b (Entries.names es)) :=
            faceAt_eq_some.2 ⟨_, hdir, rfl⟩
          have hmissing : fs.faceAt (done ++ [name]) = none := by
            rw [FileSystem.faceAt, Node.faceAt, hnode]
            rfl
          have hfits : Fits fs
              (.make done name (.directory ⟨ownerOr owner fs, permissions, fs.now⟩ [])) :=
            fits_make_iff.2 ⟨hdone, kindAt_eq_none_iff.2 hnode, rfl⟩
          have hnext := faceAt_make_directory hface hname hfits
          have hkind := kindAt_make hfits (done ++ [name])
          rw [if_pos rfl] at hkind
          rw [hnode] at hrun
          dsimp only at hrun
          rw [run_bind_of_ok (run_makeDirectory hpath hdir hentry permissions owner)] at hrun
          have hlays := ih hnames hrun hkind
          rw [← List.append_cons] at hlays
          refine hlays.make hface hmissing (now_apply fs _) ?_ hnext
          rw [ownerOr_eq_getD, Change.defaultOwner_apply, ownerOr_eq_getD]

/-- What was there is as it was, or lists one more name if it is a directory. -/
theorem Lays.faceAt_cases (h : Lays permissions owner way fs later) {place : List String}
    {face : Face} (hface : fs.faceAt place = some face) : later.faceAt place = some face ∨
      ∃ name, later.faceAt place = some (face.mapNames fs.now (· ++ [name])) := by
  by_cases hnext : ∃ name, place ++ [name] <+: way ∧ fs.faceAt (place ++ [name]) = none
  · obtain ⟨name, hname, hmissing⟩ := hnext
    right
    exact ⟨name, by rw [h.grown place name hname (by simp [hface]) hmissing, hface]; rfl⟩
  · left
    have hall : ∀ name, place ++ [name] <+: way → (fs.faceAt (place ++ [name])).isSome := by
      intro name hname
      by_contra hmissing
      exact hnext ⟨name, hname, Option.not_isSome_iff_eq_none.1 hmissing⟩
    rw [h.others place (by simp [hface]) hall, hface]

/-- What was there keeps its kind, its owner and its permissions. -/
theorem Lays.rights (h : Lays permissions owner way fs later) {place : List String} {face : Face}
    (hface : fs.faceAt place = some face) : ∃ after, later.faceAt place = some after ∧
      after.isDirectory = face.isDirectory ∧ after.attributes.owner = face.attributes.owner ∧
      after.attributes.permissions = face.attributes.permissions := by
  rcases h.faceAt_cases hface with hlast | ⟨name, hlast⟩
  · exact ⟨face, hlast, rfl, rfl, rfl⟩
  · exact ⟨_, hlast, by cases face <;> exact ⟨rfl, rfl, rfl⟩⟩

/-- What has been made lies on the way. -/
theorem Lays.of_missing (h : Lays permissions owner way fs later) {place : List String}
    (hmissing : fs.faceAt place = none) (hthere : (later.faceAt place).isSome) : place <+: way := by
  by_contra hbeside
  have hsame := h.others place (fun _ => hbeside) fun name hname =>
    absurd ((List.prefix_append place [name]).trans hname) hbeside
  rw [hsame, hmissing] at hthere
  cases hthere

/-- Where all directories along a way are there, making them changes nothing. -/
theorem run_makeAlong_of_directories (permissions : Permissions) (owner : Option String)
    (rest : List String) {done : List String} {fs : FileSystem}
    (h : ∀ place, place <+: done ++ rest → fs.kindAt place = some true) :
    (makeAlong permissions owner done rest).run fs = .ok () fs := by
  induction rest generalizing done with
  | nil => rfl
  | cons name rest ih =>
      rw [List.append_cons] at h
      obtain ⟨a, es, hnode⟩ := kindAt_eq_true_iff.1 (h _ (List.prefix_append (done ++ [name]) rest))
      rw [makeAlong, run_get_bind, hnode]
      exact ih h

theorem run_makeDirectories_of_directory {fs : FileSystem} {path : String}
    (h : fs.kindAt (Path.segments path) = some true) (permissions : Permissions)
    (owner : Option String) : (makeDirectories path permissions owner).run fs = .ok () fs :=
  run_makeAlong_of_directories permissions owner _ fun place hplace =>
    kindAt_of_prefix (by simpa using hplace) h

/-- What a file system has become when a directory and those above it have been made. -/
structure IsLaid (path : String) (mode : Int) (owner : Option String) (fs later : FileSystem) :
    Prop where
  /-- Every path above, and the path itself, leads to a directory. -/
  directories : ∀ above, Path.isWithin path above = true → later.isDirectory above = true
  /-- Those that were missing are there with the owner that is named, or else the default one, and the
  permissions in the mode. -/
  made : ∀ above, Path.isWithin path above = true → fs.contains above = false →
    ∃ after, later.stat? above = some after ∧
      after.owner = (owner.filter (· ≠ "")).getD fs.defaultOwner ∧
      after.mode = 0o40000 + (mode % 512).toNat
  /-- Nothing else is made. -/
  only : ∀ other, fs.contains other = false → later.contains other = true →
    Path.isWithin path other = true
  /-- What was there keeps its owner, and its mode with the kind in it. -/
  kept : ∀ other before, fs.stat? other = some before → ∃ after, later.stat? other = some after ∧
    after.owner = before.owner ∧ after.mode = before.mode
  /-- Files keep their contents. -/
  contents : ∀ other bytes, fs.contents other = .ok bytes → later.contents other = .ok bytes
  /-- The last directory that was there is stamped with the time and lists the first new one after what
  it did. -/
  grown : ∀ place name, place ++ [name] <+: Path.segments path → (fs.faceAt place).isSome →
    fs.faceAt (place ++ [name]) = none →
    later.faceAt place = (fs.faceAt place).map (Face.mapNames fs.now (· ++ [name]))
  /-- All else that was there is as it was, the times included. -/
  others : ∀ place, (fs.faceAt place).isSome →
    (∀ name, place ++ [name] <+: Path.segments path → (fs.faceAt (place ++ [name])).isSome) →
    later.faceAt place = fs.faceAt place
  /-- A second time, whenever that is, there is nothing to do. -/
  again : ∀ now, (makeDirectories path (Permissions.ofInt mode) owner).run { later with now } =
    .ok () { later with now }

theorem makeDirectories_lays (hrun : (makeDirectories path permissions owner).run fs = .ok () later) :
    Lays permissions owner (Path.segments path) fs later :=
  makeAlong_lays (Path.segments path)
    (fun _ hname => Path.isSegment_of_mem_segments (by simpa using hname)) hrun (kindAt_nil fs)

/-- Directories can be made along a path exactly if there is no file above it or at it. -/
theorem makeDirectories_succeeds_iff :
    (∃ later, (makeDirectories path permissions owner).run fs = .ok () later) ↔
      ∀ above, Path.isWithin path above = true → fs.isFile above = false := by
  have hfails := not_congr (@makeDirectories_fails_iff fs path permissions owner)
  have hresult : (∃ later, (makeDirectories path permissions owner).run fs = .ok () later) ↔
      ¬ Fails (makeDirectories path permissions owner) fs := by
    rw [not_fails_iff]
    exact ⟨fun ⟨later, h⟩ => ⟨(), later, h⟩, fun ⟨(), later, h⟩ => ⟨later, h⟩⟩
  have hfile : ∀ above, fs.isFile above = true ↔ fs.kindAt (Path.segments above) = some false :=
    fun above => any_isFile_iff
  rw [hresult, hfails]
  constructor
  · intro hfree above habove
    rw [← Bool.not_eq_true, hfile]
    exact fun hkind => hfree ⟨_, (Path.isWithin_iff path above).1 habove, hkind⟩
  · rintro hall ⟨place, hplace, hkind⟩
    have hsegments : Path.segments (Path.ofSegments place) = place :=
      Path.segments_ofSegments fun _ hname =>
        Path.isSegment_of_mem_segments (hplace.subset hname)
    have habove : Path.isWithin path (Path.ofSegments place) = true := by
      rwa [Path.isWithin_iff, hsegments]
    have hnot := hall _ habove
    rw [← Bool.not_eq_true, hfile, hsegments] at hnot
    exact hnot hkind

/-- A directory and those above it are made exactly if no file is on the way. Then all of them are there,
nothing else has been made or replaced, and making them once more changes nothing. -/
theorem makeDirectories_lays_way (path : String) (mode : Int) (owner : Option String)
    (fs : FileSystem) :
    ((∃ later, (makeDirectories path (Permissions.ofInt mode) owner).run fs = .ok () later) ↔
        ∀ above, Path.isWithin path above = true → fs.isFile above = false) ∧
      ∀ later, (makeDirectories path (Permissions.ofInt mode) owner).run fs = .ok () later →
        IsLaid path mode owner fs later := by
  refine ⟨makeDirectories_succeeds_iff, fun later hrun => ?_⟩
  have hlays := makeDirectories_lays hrun
  have hthere : ∀ place, place <+: Path.segments path → later.kindAt place = some true :=
    fun place hplace => kindAt_of_prefix hplace (kindAt_makeDirectories hrun)
  constructor
  · intro above habove
    exact any_isDirectory_iff.2 (hthere _ ((Path.isWithin_iff path above).1 habove))
  · intro above habove hmissing
    rw [contains_eq, Option.isSome_eq_false_iff, Option.isNone_iff_eq_none] at hmissing
    obtain ⟨after, hafter, hkind, howner, hpermissions⟩ :=
      stat?_of_faceAt (hlays.made _ ((Path.isWithin_iff path above).1 habove) hmissing)
    refine ⟨after, hafter, howner.trans (ownerOr_eq_getD owner fs), ?_⟩
    rw [Stat.mode, hkind, hpermissions]
    exact congrArg (0o40000 + ·) (Permissions.val_ofInt mode)
  · intro other hmissing hnew
    by_contra hbeside
    rw [Path.isWithin_iff] at hbeside
    have hsame := hlays.others (Path.segments other) (fun _ => hbeside) fun name hname =>
      absurd ((List.prefix_append _ _).trans hname) hbeside
    rw [contains_eq, hsame, ← contains_eq, hmissing] at hnew
    cases hnew
  · intro other before hbefore
    obtain ⟨face, hface⟩ : ∃ face, fs.faceAt (Path.segments other) = some face := by
      rw [← Option.ne_none_iff_exists', Ne, ← stat?_eq_none_iff, hbefore]
      simp
    obtain ⟨s, hs, hkind, howner, hpermissions⟩ := stat?_of_faceAt hface
    obtain rfl : s = before := Option.some.inj (hs.symm.trans hbefore)
    obtain ⟨last, hlast, hsame, hlastOwner, hlastPermissions⟩ := hlays.rights hface
    obtain ⟨after, hafter, hkind', howner', hpermissions'⟩ := stat?_of_faceAt hlast
    refine ⟨after, hafter, howner'.trans (hlastOwner.trans howner.symm), ?_⟩
    rw [Stat.mode, Stat.mode, hkind, hkind', hpermissions, hpermissions', hsame, hlastPermissions]
  · intro other bytes hbytes
    obtain ⟨a, hface⟩ := contents_eq_ok_iff.1 hbytes
    rcases hlays.faceAt_cases hface with hlast | ⟨name, hlast⟩
    · exact contents_eq_ok_iff.2 ⟨a, hlast⟩
    · exact contents_eq_ok_iff.2 ⟨a, hlast⟩
  · exact fun place name => hlays.grown place name
  · intro place hplace
    exact hlays.others place fun hnone => by simp [hnone] at hplace
  · intro now
    refine run_makeAlong_of_directories _ owner (Path.segments path) fun place hplace => ?_
    exact hthere place hplace

/-- A directory is made below the letters, and on the way the bills above it. -/
theorem bills_are_laid :
    ∃ later, (makeDirectories "/box/../desk/drawer/letters//bills/./paid" (Permissions.ofInt 0o1750)
        (some "")).run study = .ok () later ∧
      IsLaid "/box/../desk/drawer/letters//bills/./paid" 0o1750 (some "") study later := by
  have hmade : ¬ Fails (makeDirectories "/box/../desk/drawer/letters//bills/./paid"
      (Permissions.ofInt 0o1750) (some "")) study := by decide +kernel
  obtain ⟨⟨⟩, later, hrun⟩ := not_fails_iff.1 hmade
  exact ⟨later, hrun, (makeDirectories_lays_way _ 0o1750 (some "") study).2 later hrun⟩

end Edit

end PracticeShell
