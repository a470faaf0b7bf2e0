import PracticeShell.Disk
import PracticeShell.Proofs.Path.Resolving
import PracticeShell.Proofs.Run

/-!
# Files on a disk

A path is followed to its place (`Disk.place_of_follow`). What has been written at a path is read
there (`Disk.read_of_write`) and can be written again (`Disk.put_again`), nothing is read where a file
has been removed (`Disk.not_read_of_remove`), and a path that has been followed once is never too long
to be asked about.

Writing and removing a file change the disk at its place only (`Disk.ChangesOnly`). What is read at
another path can still change when directories are made on the way to it, but not if that path goes
straight down (`Disk.ChangesOnly.read_of_isStraight`).
-/

namespace PracticeShell.Disk

open Run

variable {d later : Disk} {path : String} {place : List String} {bytes : ByteArray} {e : Error}

theorem eq_walkDown_of_walk {up names : List String} (h : d.walk up names = .ok place) :
    place = Path.walkDown up names := by
  induction names generalizing up with
  | nil =>
      rw [walk] at h
      exact (Except.ok.inj h).symm
  | cons name rest ih =>
      rw [walk] at h
      rw [Path.walkDown]
      by_cases hstay : name = "" ∨ name = "."
      · rw [if_pos hstay] at h ⊢
        exact ih h
      · rw [if_neg hstay] at h ⊢
        split at h
        · cases h
        · by_cases hup : name = ".."
          · rw [if_pos hup] at h ⊢
            exact ih h
          · rw [if_neg hup] at h ⊢
            split at h
            · cases h
            · exact ih h

/-- A path is followed to its place. -/
theorem place_of_follow (h : d.follow path = .ok place) : place = d.place path := by
  unfold follow at h
  unfold Disk.place Path.segments
  split at h
  · cases h
  · rw [eq_walkDown_of_walk h]
    split <;> rfl

/-- More directories do not lead a walk astray. -/
theorem walk_of_directories (hmore : ∀ p, d.isDirectory p = true → later.isDirectory p = true)
    {up names : List String} (h : d.walk up names = .ok place) :
    later.walk up names = .ok place := by
  induction names generalizing up with
  | nil => exact h
  | cons name rest ih =>
      rw [walk] at h ⊢
      by_cases hstay : name = "" ∨ name = "."
      · rw [if_pos hstay] at h ⊢
        exact ih h
      · rw [if_neg hstay] at h ⊢
        by_cases hdirectory : d.isDirectory up.reverse = true
        · rw [if_neg (by simp [hdirectory])] at h
          rw [if_neg (by simp [hmore _ hdirectory])]
          by_cases hup : name = ".."
          · rw [if_pos hup] at h ⊢
            exact ih h
          · rw [if_neg hup] at h ⊢
            split at h
            · cases h
            · rename_i hshort
              rw [if_neg hshort]
              exact ih h
        · rw [if_pos (by simpa using hdirectory)] at h
          cases h

theorem follow_of_directories (hhere : later.here = d.here)
    (hmore : ∀ p, d.isDirectory p = true → later.isDirectory p = true)
    (h : d.follow path = .ok place) : later.follow path = .ok place := by
  unfold follow at h ⊢
  split at h
  · cases h
  · rename_i hshort
    rw [if_neg hshort, hhere]
    exact walk_of_directories hmore h

/-- Names that have been walked along are not too long on any disk. -/
theorem not_nameTooLong_of_walk {up names : List String} (h : d.walk up names = .ok place) :
    later.walk up names ≠ .error .nameTooLong := by
  induction names generalizing up with
  | nil =>
      rw [walk]
      exact nofun
  | cons name rest ih =>
      rw [walk] at h ⊢
      by_cases hstay : name = "" ∨ name = "."
      · rw [if_pos hstay] at h ⊢
        exact ih h
      · rw [if_neg hstay] at h ⊢
        split at h
        · cases h
        · by_cases hdirectory : (!later.isDirectory up.reverse) = true
          · rw [if_pos hdirectory]
            split <;> exact nofun
          · rw [if_neg hdirectory]
            by_cases hup : name = ".."
            · rw [if_pos hup] at h ⊢
              exact ih h
            · rw [if_neg hup] at h ⊢
              split at h
              · cases h
              · rename_i hshort
                rw [if_neg hshort]
                exact ih h

theorem not_nameTooLong_of_follow (hhere : later.here = d.here) (h : d.follow path = .ok place) :
    later.follow path ≠ .error .nameTooLong := by
  unfold follow at h ⊢
  split at h
  · cases h
  · rename_i hshort
    rw [if_neg hshort, hhere]
    exact not_nameTooLong_of_walk h

theorem read_eq_ok_iff : d.read path = .ok bytes ↔
    ∃ place, d.follow path = .ok place ∧ d.file? place = some bytes := by
  unfold read
  rw [bind_eq_ok_iff]
  refine exists_congr fun place => and_congr_right fun _ => ?_
  cases d.file? place with
  | none => exact iff_of_false nofun nofun
  | some found =>
      exact ⟨fun h => congrArg some (Except.ok.inj h), fun h => congrArg _ (Option.some.inj h)⟩

/-- A file is too long to be asked about only if its path cannot be followed. -/
theorem follow_of_read_nameTooLong (h : d.read path = .error .nameTooLong) :
    d.follow path = .error .nameTooLong := by
  unfold read at h
  cases hfollow : d.follow path with
  | error e =>
      rw [hfollow] at h
      exact congrArg Except.error (Except.error.inj h)
  | ok place =>
      rw [hfollow] at h
      dsimp only [bind, Except.bind] at h
      split at h
      · cases h
      · split at h <;> cases h

theorem write_eq_ok_iff : d.write path bytes = .ok later ↔ ∃ place, d.follow path = .ok place ∧
    d.isDirectory place = false ∧ later = { d with files := putFile place bytes d.files } := by
  unfold write
  rw [bind_eq_ok_iff]
  refine exists_congr fun place => and_congr_right fun _ => ?_
  by_cases hdirectory : d.isDirectory place = true
  · rw [if_pos hdirectory]
    refine iff_of_false nofun fun h => ?_
    rw [hdirectory] at h
    cases h.1
  · rw [if_neg hdirectory, Bool.not_eq_true] at *
    exact ⟨fun h => ⟨hdirectory, (Except.ok.inj h).symm⟩, fun h => congrArg _ h.2.symm⟩

theorem lookup_putFile (place : List String) (bytes : ByteArray)
    (files : List (List String × ByteArray)) :
    (putFile place bytes files).lookup place = some bytes := by
  induction files with
  | nil => simp [putFile]
  | cons first rest ih =>
      unfold putFile
      by_cases hfirst : first.1 = place
      · simp [hfirst]
      · rw [if_neg hfirst, List.lookup_cons, beq_false_of_ne (Ne.symm hfirst)]
        exact ih

theorem any_putFile (f : List String → Bool) (place : List String) (bytes : ByteArray)
    (files : List (List String × ByteArray)) :
    ((putFile place bytes files).any fun (q, _) => f q) =
      (f place || files.any fun (q, _) => f q) := by
  induction files with
  | nil => rfl
  | cons first rest ih =>
      obtain ⟨p, old⟩ := first
      unfold putFile
      by_cases hfirst : p = place
      · rw [if_pos hfirst, List.any_cons, List.any_cons, hfirst, ← Bool.or_assoc]
        change (f place || _) = (f place || f place || _)
        rw [Bool.or_self]
      · rw [if_neg hfirst, List.any_cons, ih, List.any_cons, Bool.or_left_comm]

/-- A file makes the directories above it, and no other ones. -/
theorem isDirectory_putFile (d : Disk) (place : List String) (bytes : ByteArray)
    (p : List String) : isDirectory { d with files := putFile place bytes d.files } p =
      (d.isDirectory p || (p.isPrefixOf place && p.length < place.length)) := by
  unfold isDirectory
  rw [any_putFile fun q => p.isPrefixOf q && p.length < q.length]
  dsimp only
  rw [Bool.or_assoc, Bool.or_assoc, Bool.or_assoc, Bool.or_comm (p.isPrefixOf place && _)]

theorem follow_of_write (h : d.write path bytes = .ok later) :
    ∃ place, d.follow path = .ok place ∧ later.follow path = .ok place := by
  obtain ⟨place, hfollow, -, rfl⟩ := write_eq_ok_iff.1 h
  have hmore : ∀ p, d.isDirectory p = true →
      isDirectory { d with files := putFile place bytes d.files } p = true := by
    intro p hp
    rw [isDirectory_putFile, hp, Bool.true_or]
  exact ⟨place, hfollow, follow_of_directories (d := d) rfl hmore hfollow⟩

/-- What has been written at a path is read there. -/
theorem read_of_write (h : d.write path bytes = .ok later) : later.read path = .ok bytes := by
  obtain ⟨place, hfollow, hagain⟩ := follow_of_write h
  obtain ⟨other, hother, -, rfl⟩ := write_eq_ok_iff.1 h
  obtain rfl := Except.ok.inj (hfollow.symm.trans hother)
  exact read_eq_ok_iff.2 ⟨place, hagain, lookup_putFile _ _ _⟩

/-- Directories are made, and nothing else is changed. -/
theorem exists_makeAlong (d : Disk) (up names : List String) :
    ∃ directories, d.makeAlong up names = { d with directories } := by
  induction names generalizing d up with
  | nil => exact ⟨_, rfl⟩
  | cons name rest ih =>
      unfold makeAlong
      dsimp only
      repeat' split
      case isFalse.isFalse.isFalse.isFalse.isFalse =>
        obtain ⟨directories, hmade⟩ := ih { d with directories := _ :: d.directories } _
        exact ⟨directories, hmade⟩
      all_goals first
        | exact ih _ _
        | exact ⟨_, rfl⟩

theorem here_makeWay (d : Disk) (path : String) : (d.makeWay path).here = d.here := by
  obtain ⟨directories, hmade⟩ := d.exists_makeAlong _ _
  rw [makeWay, hmade]

theorem files_makeWay (d : Disk) (path : String) : (d.makeWay path).files = d.files := by
  obtain ⟨directories, hmade⟩ := d.exists_makeAlong _ _
  rw [makeWay, hmade]

/-- A walk goes on only from a directory. -/
theorem eq_of_walk_of_not_isDirectory {up names : List String} (h : d.walk up names = .ok place)
    (hup : d.isDirectory up.reverse = false) : place = up.reverse := by
  induction names with
  | nil => exact (Except.ok.inj h).symm
  | cons name rest ih =>
      rw [walk] at h
      by_cases hstay : name = "" ∨ name = "."
      · rw [if_pos hstay] at h
        exact ih h
      · rw [if_neg hstay, hup] at h
        cases h

/-- On the way to a file nothing has to be made. -/
theorem makeAlong_of_walk {up names : List String} {last : String}
    (h : d.walk up (names ++ [last]) = .ok place) (hfile : (d.file? place).isSome = true) :
    d.makeAlong up names = d := by
  induction names generalizing up with
  | nil => rfl
  | cons name rest ih =>
      rw [List.cons_append, walk] at h
      rw [makeAlong]
      by_cases hstay : name = "" ∨ name = "."
      · rw [if_pos hstay] at h ⊢
        exact ih h
      · rw [if_neg hstay] at h ⊢
        split at h
        · cases h
        by_cases hup : name = ".."
        · rw [if_pos hup] at h ⊢
          exact ih h
        rw [if_neg hup] at h ⊢
        dsimp only
        split at h
        · cases h
        rename_i hshort
        rw [if_neg hshort]
        cases hdirectory : d.isDirectory (name :: up).reverse with
        | true => exact ih h
        | false =>
            rw [eq_of_walk_of_not_isDirectory h hdirectory] at hfile
            rw [if_neg Bool.false_ne_true, if_pos hfile]

theorem makeWay_of_follow (h : d.follow path = .ok place) (hfile : (d.file? place).isSome = true) :
    d.makeWay path = d := by
  unfold follow at h
  split at h
  · cases h
  obtain ⟨names, last, hparts⟩ := (List.eq_nil_or_concat (Path.parts path)).resolve_left <| by
    simp [Path.parts]
  rw [hparts, List.concat_eq_append] at h
  rw [makeWay, hparts, List.concat_eq_append, List.dropLast_concat]
  exact makeAlong_of_walk h hfile

/-- What has been written at a path can be written there again. -/
theorem put_again (h : d.put path bytes = .ok later) (more : ByteArray) :
    ∃ last, later.put path more = .ok last := by
  obtain ⟨place, hfollow, hagain⟩ := follow_of_write h
  obtain ⟨other, hother, hfree, hlater⟩ := write_eq_ok_iff.1 h
  obtain rfl := Except.ok.inj (hfollow.symm.trans hother)
  have hfile : later.file? place = some bytes := by
    rw [hlater]
    exact lookup_putFile _ _ _
  have hway : later.makeWay path = later := makeWay_of_follow hagain (by rw [hfile]; rfl)
  refine ⟨_, write_eq_ok_iff.2 ⟨place, by rwa [hway], ?_, rfl⟩⟩
  rw [hway, hlater, isDirectory_putFile, hfree]
  simp

theorem remove_eq_ok_iff : d.remove path = .ok later ↔ (∃ bytes, d.read path = .ok bytes) ∧
    later = { d with
      files := d.files.filter (·.1 ≠ d.place path)
      directories := (d.place path).dropLast :: d.directories } := by
  unfold remove
  rw [bind_eq_ok_iff, exists_and_right.symm]
  exact exists_congr fun bytes => and_congr_right fun _ =>
    ⟨fun h => (Except.ok.inj h).symm, fun h => congrArg _ h.symm⟩

/-- Nothing is read where a file has been removed. -/
theorem not_read_of_remove (h : d.remove path = .ok later) (bytes : ByteArray) :
    later.read path ≠ .ok bytes := by
  obtain ⟨-, rfl⟩ := remove_eq_ok_iff.1 h
  rw [Ne, read_eq_ok_iff]
  rintro ⟨place, hfollow, hfile⟩
  have hnone : (d.files.filter (·.1 ≠ d.place path)).lookup place = none := by
    rw [List.lookup_eq_none_iff, place_of_follow hfollow]
    intro file hfile
    have hother := of_decide_eq_true (List.mem_filter.1 hfile).2
    exact bne_iff_ne.2 (Ne.symm hother)
  exact absurd (hnone.symm.trans hfile) nofun

theorem exists?_of_read (h : d.read path = .ok bytes) : d.exists? path = .ok true := by
  rw [exists?, h]

section Joined

theorem startsWith_slash_join (directory : String) {name : String} (hname : Path.IsSegment name) :
    Path.startsWith (Path.join directory name) "/" = Path.startsWith directory "/" := by
  by_cases hdirectory : directory = ""
  · have hrelative : Path.startsWith name "/" = false := by
      rw [← Bool.not_eq_true, Path.startsWith_iff]
      exact fun hslash => hname.2.2.2 (hslash.subset (List.mem_singleton_self '/'))
    rw [hdirectory, Path.join, if_pos rfl, hrelative]
    rfl
  · obtain ⟨rest, hrest⟩ := Path.exists_join hdirectory name
    obtain ⟨c, cs, hcs⟩ := List.exists_cons_of_ne_nil
      (show directory.toList ≠ [] by simpa using hdirectory)
    rw [Bool.eq_iff_iff, Path.startsWith_iff, Path.startsWith_iff, hrest, String.toList_append, hcs]
    simp

/-- The place of a name that is joined to a path. -/
theorem place_join (d : Disk) (directory : String) {name : String} (hname : Path.IsSegment name) :
    d.place (Path.join directory name) = d.place directory ++ [name] := by
  unfold Disk.place Path.segments
  rw [startsWith_slash_join directory hname]
  split <;> exact Path.walkDown_parts_join _ _ hname

end Joined

section Changes

/-- Whether two disks have files with the same contents everywhere but at one place, and the second
has all directories of the first. -/
structure ChangesOnly (place : List String) (d later : Disk) : Prop where
  here : later.here = d.here
  directories : ∀ p, d.isDirectory p = true → later.isDirectory p = true
  files : ∀ p, p ≠ place → later.file? p = d.file? p

theorem ChangesOnly.trans {last : Disk} (h : ChangesOnly place d later)
    (h' : ChangesOnly place later last) : ChangesOnly place d last where
  here := h'.here.trans h.here
  directories := fun p hp => h'.directories p (h.directories p hp)
  files := fun p hp => (h'.files p hp).trans (h.files p hp)

/-- A directory that is made comes with those above it, and with no other ones. -/
theorem isDirectory_cons (d : Disk) (place p : List String) :
    isDirectory { d with directories := place :: d.directories } p =
      (d.isDirectory p || p.isPrefixOf place) := by
  unfold isDirectory
  dsimp only
  rw [List.any_cons, Bool.or_comm (p.isPrefixOf place), ← Bool.or_assoc, Bool.or_right_comm]

theorem isDirectory_makeAlong (d : Disk) (up names : List String) {p : List String}
    (h : d.isDirectory p = true) : (d.makeAlong up names).isDirectory p = true := by
  induction names generalizing d up with
  | nil => exact h
  | cons name rest ih =>
      unfold makeAlong
      dsimp only
      repeat' split
      case isFalse.isFalse.isFalse.isFalse.isFalse =>
        refine ih _ _ ?_
        rw [isDirectory_cons, h, Bool.true_or]
      all_goals first
        | exact ih _ _ h
        | exact h

theorem makeWay_changesOnly (d : Disk) (path : String) (place : List String) :
    ChangesOnly place d (d.makeWay path) where
  here := here_makeWay d path
  directories := fun _ hp => isDirectory_makeAlong d _ _ hp
  files := fun p _ => by rw [file?, files_makeWay, file?]

theorem lookup_putFile_of_ne {p : List String} (h : p ≠ place) (bytes : ByteArray)
    (files : List (List String × ByteArray)) :
    (putFile place bytes files).lookup p = files.lookup p := by
  induction files with
  | nil => simp [putFile, h]
  | cons first rest ih =>
      unfold putFile
      by_cases hfirst : first.1 = place
      · rw [if_pos hfirst, List.lookup_cons, List.lookup_cons, hfirst, beq_false_of_ne h]
      · rw [if_neg hfirst, List.lookup_cons, List.lookup_cons, ih]

theorem write_changesOnly (h : d.write path bytes = .ok later) :
    ChangesOnly (d.place path) d later := by
  obtain ⟨place, hfollow, -, rfl⟩ := write_eq_ok_iff.1 h
  obtain rfl := place_of_follow hfollow
  refine ⟨rfl, fun p hp => ?_, fun p hp => lookup_putFile_of_ne hp _ _⟩
  rw [isDirectory_putFile, hp, Bool.true_or]

theorem lookup_filter_of_ne {p : List String} (h : p ≠ place)
    (files : List (List String × ByteArray)) :
    (files.filter (·.1 ≠ place)).lookup p = files.lookup p := by
  induction files with
  | nil => rfl
  | cons first rest ih =>
      by_cases hfirst : first.1 = place
      · rw [List.filter_cons_of_neg (by simpa using hfirst), ih, List.lookup_cons, hfirst,
          beq_false_of_ne h]
      · rw [List.filter_cons_of_pos (by simpa using hfirst), List.lookup_cons, List.lookup_cons, ih]

theorem prefix_dropLast_iff {p : List String} (h : place ≠ []) :
    p <+: place.dropLast ↔ p <+: place ∧ p.length < place.length := by
  obtain ⟨above, last, rfl⟩ := (List.eq_nil_or_concat place).resolve_left h
  rw [List.concat_eq_append, List.dropLast_concat, List.prefix_concat_iff]
  constructor
  · intro habove
    have hle := habove.length_le
    exact ⟨.inr habove, by rw [List.length_append, List.length_singleton]; omega⟩
  · rintro ⟨rfl | habove, hlt⟩
    · exact absurd hlt (Nat.lt_irrefl _)
    · exact habove

/-- A directory stays when a file is removed from it, and no directory is made. -/
theorem isDirectory_remove (h : d.remove path = .ok later) (p : List String) :
    later.isDirectory p = d.isDirectory p := by
  obtain ⟨⟨bytes, hread⟩, rfl⟩ := remove_eq_ok_iff.1 h
  obtain ⟨place, hfollow, hfile⟩ := read_eq_ok_iff.1 hread
  obtain rfl := place_of_follow hfollow
  obtain ⟨first, last, hfiles, -⟩ := List.lookup_eq_some_iff.1 hfile
  have hthere : (d.place path, bytes) ∈ d.files := by
    rw [hfiles]
    simp
  rw [isDirectory_cons { d with files := d.files.filter (·.1 ≠ d.place path) }]
  unfold isDirectory
  dsimp only
  rw [Bool.eq_iff_iff]
  simp only [Bool.or_eq_true, List.any_eq_true, List.mem_filter, Bool.and_eq_true,
    List.isPrefixOf_iff_prefix, decide_eq_true_eq]
  constructor
  · rintro ((hmade | ⟨file, ⟨hfile, -⟩, hbelow⟩) | habove)
    · exact .inl hmade
    · exact .inr ⟨file, hfile, hbelow⟩
    · by_cases hroot : d.place path = []
      · rw [hroot] at habove
        obtain rfl := List.prefix_nil.1 habove
        exact .inl (.inl List.nil_prefix)
      · exact .inr ⟨_, hthere, (prefix_dropLast_iff hroot).1 habove⟩
  · rintro (hmade | ⟨file, hfile, hbelow⟩)
    · exact .inl (.inl hmade)
    · by_cases hsame : file.1 = d.place path
      · rw [hsame] at hbelow
        have hroot : d.place path ≠ [] := List.ne_nil_of_length_pos (Nat.zero_lt_of_lt hbelow.2)
        exact .inr ((prefix_dropLast_iff hroot).2 hbelow)
      · exact .inl (.inr ⟨file, ⟨hfile, hsame⟩, hbelow⟩)

theorem remove_changesOnly (h : d.remove path = .ok later) : ChangesOnly (d.place path) d later := by
  refine ⟨?_, fun p hp => by rwa [isDirectory_remove h], fun p hp => ?_⟩
  · obtain ⟨-, rfl⟩ := remove_eq_ok_iff.1 h
    rfl
  · obtain ⟨-, rfl⟩ := remove_eq_ok_iff.1 h
    exact lookup_filter_of_ne hp _

variable {other : String}

theorem ChangesOnly.place_eq (h : ChangesOnly place d later) (path : String) :
    later.place path = d.place path := by
  rw [Disk.place, h.here, Disk.place]

/-- What has been read at another path is read there again. -/
theorem ChangesOnly.read_of_read (h : ChangesOnly place d later) (hother : d.place other ≠ place)
    (hread : d.read other = .ok bytes) : later.read other = .ok bytes := by
  obtain ⟨there, hfollow, hfile⟩ := read_eq_ok_iff.1 hread
  refine read_eq_ok_iff.2 ⟨there, follow_of_directories h.here h.directories hfollow, ?_⟩
  rwa [h.files there (by rwa [place_of_follow hfollow])]

/-- Whether a path goes straight down, along names that are not too long. -/
def IsStraight (path : String) : Prop :=
  ∀ name ∈ Path.parts path, name ≠ ".." ∧ isLong name = false

theorem prefix_walkDown {names : List String} (h : ∀ name ∈ names, name ≠ "..") (up : List String) :
    up.reverse <+: Path.walkDown up names := by
  induction names generalizing up with
  | nil => exact List.prefix_rfl
  | cons name rest ih =>
      obtain ⟨hname, hrest⟩ := List.forall_mem_cons.1 h
      rw [Path.walkDown, if_neg hname]
      split
      · exact ih hrest up
      · refine List.IsPrefix.trans ?_ (ih hrest (name :: up))
        rw [List.reverse_cons]
        exact List.prefix_append _ _

theorem isDirectory_of_file {p : List String} (hfile : (d.file? place).isSome = true)
    (hp : p <+: place) (hlt : p.length < place.length) : d.isDirectory p = true := by
  obtain ⟨file, hmem, hsame⟩ := List.lookup_isSome_iff.1 hfile
  obtain rfl := eq_of_beq hsame
  unfold isDirectory
  rw [Bool.or_eq_true, List.any_eq_true]
  exact .inr ⟨file, hmem, by simpa using ⟨hp, hlt⟩⟩

/-- Where a file is, there are all directories on a way straight down to it. -/
theorem walk_of_file {up names : List String} (h : later.walk up names = .ok place)
    (hnames : ∀ name ∈ names, name ≠ "..") (hfile : (d.file? place).isSome = true) :
    d.walk up names = .ok place := by
  induction names generalizing up with
  | nil => exact h
  | cons name rest ih =>
      obtain ⟨hname, hrest⟩ := List.forall_mem_cons.1 hnames
      rw [walk] at h ⊢
      by_cases hstay : name = "" ∨ name = "."
      · rw [if_pos hstay] at h ⊢
        exact ih h hrest
      rw [if_neg hstay, if_neg hname] at h ⊢
      split at h
      · cases h
      split at h
      · cases h
      rename_i hshort
      have hbelow := prefix_walkDown hrest (name :: up)
      rw [← eq_walkDown_of_walk h, List.reverse_cons] at hbelow
      have hlength := hbelow.length_le
      rw [List.length_append, List.length_singleton] at hlength
      have hdirectory := isDirectory_of_file hfile ((List.prefix_append _ _).trans hbelow) hlength
      rw [hdirectory, if_neg hshort]
      exact ih h hrest

/-- What is read at another path that goes straight down is what has been read there. -/
theorem ChangesOnly.read_of_isStraight (h : ChangesOnly place d later) (hpath : IsStraight other)
    (hother : d.place other ≠ place) : later.read other = .ok bytes ↔ d.read other = .ok bytes := by
  refine ⟨fun hread => ?_, h.read_of_read hother⟩
  obtain ⟨there, hfollow, hfile⟩ := read_eq_ok_iff.1 hread
  rw [h.files there (by rwa [place_of_follow hfollow, h.place_eq])] at hfile
  refine read_eq_ok_iff.2 ⟨there, ?_, hfile⟩
  unfold follow at hfollow ⊢
  rw [h.here] at hfollow
  split at hfollow
  · cases hfollow
  · rename_i hsize
    rw [if_neg hsize]
    exact walk_of_file hfollow (fun name hname => (hpath name hname).1) (by rw [hfile]; rfl)

theorem IsStraight.join {directory name : String} (h : IsStraight directory)
    (hname : Path.IsSegment name) (hshort : isLong name = false) :
    IsStraight (Path.join directory name) := by
  obtain ⟨names, hjoin, hparts⟩ := Path.parts_join directory hname
  intro other hother
  rw [hjoin, List.mem_append, List.mem_singleton] at hother
  rcases hother with hother | rfl
  · rcases hparts with hparts | hparts
    · exact h other (hparts ▸ hother)
    · exact h other (hparts ▸ List.mem_append_left _ hother)
  · exact ⟨hname.2.2.1, hshort⟩

theorem not_nameTooLong_of_isLong {names : List String} (h : ∀ name ∈ names, isLong name = false)
    (up : List String) : d.walk up names ≠ .error .nameTooLong := by
  induction names generalizing up with
  | nil => exact nofun
  | cons name rest ih =>
      obtain ⟨hname, hrest⟩ := List.forall_mem_cons.1 h
      rw [walk, hname]
      split
      · exact ih hrest up
      split
      · split <;> exact nofun
      split
      · exact ih hrest _
      · exact ih hrest _

/-- A path without names that are too long is too long to be asked about only as a whole. -/
theorem IsStraight.read_nameTooLong_iff (h : IsStraight path) :
    d.read path = .error .nameTooLong ↔ path.utf8ByteSize > maxPath := by
  refine ⟨fun hread => ?_, fun hlong => by rw [read, follow, if_pos hlong]; rfl⟩
  have hfollow := follow_of_read_nameTooLong hread
  unfold follow at hfollow
  split at hfollow
  · assumption
  · exact absurd hfollow (not_nameTooLong_of_isLong (fun name hname => (h name hname).2) _)

/-- Whether a path leads to a file is decided by the directories and by the file at its place. -/
theorem read_ok_iff_of_same (hhere : later.here = d.here)
    (hsame : ∀ p, later.isDirectory p = d.isDirectory p)
    (hfile : later.file? (d.place path) = d.file? (d.place path)) :
    later.read path = .ok bytes ↔ d.read path = .ok bytes := by
  rw [read_eq_ok_iff, read_eq_ok_iff]
  refine exists_congr fun place => ?_
  have hfollow : later.follow path = .ok place ↔ d.follow path = .ok place :=
    ⟨follow_of_directories hhere.symm fun p hp => by rwa [← hsame],
      follow_of_directories hhere fun p hp => by rwa [hsame]⟩
  rw [hfollow]
  refine and_congr_right fun hplace => ?_
  rw [place_of_follow hplace, hfile]

/-- More directories do not make a path shorter. -/
theorem walk_nameTooLong (hmore : ∀ p, d.isDirectory p = true → later.isDirectory p = true)
    {up names : List String} (h : d.walk up names = .error .nameTooLong) :
    later.walk up names = .error .nameTooLong := by
  induction names generalizing up with
  | nil => cases h
  | cons name rest ih =>
      rw [walk] at h ⊢
      by_cases hstay : name = "" ∨ name = "."
      · rw [if_pos hstay] at h ⊢
        exact ih h
      rw [if_neg hstay] at h ⊢
      split at h
      · split at h <;> cases h
      rename_i hdirectory
      rw [hmore _ (by simpa using hdirectory)]
      by_cases hup : name = ".."
      · rw [if_pos hup] at h ⊢
        exact ih h
      rw [if_neg hup] at h ⊢
      split at h
      · rename_i hlong
        rw [hlong]
        rfl
      · rename_i hshort
        rw [if_neg hshort]
        exact ih h

theorem read_nameTooLong (hhere : later.here = d.here)
    (hmore : ∀ p, d.isDirectory p = true → later.isDirectory p = true)
    (h : d.read path = .error .nameTooLong) : later.read path = .error .nameTooLong := by
  have hfollow := follow_of_read_nameTooLong h
  have hlater : later.follow path = .error .nameTooLong := by
    unfold follow at hfollow ⊢
    split at hfollow
    · rename_i hlong
      rw [if_pos hlong]
    · rename_i hshort
      rw [if_neg hshort, hhere]
      exact walk_nameTooLong hmore hfollow
  rw [read, hlater]
  rfl

end Changes

end PracticeShell.Disk
