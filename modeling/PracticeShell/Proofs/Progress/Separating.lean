import PracticeShell.Proofs.Progress.Saving
import PracticeShell.Proofs.Text.Trimming

/-!
# Files of learners

The file of an adventure lies directly in the directory of the store, and so does the directory of a
learner, since a safe name is a plain one (`ProgressStore.isPlainName_safeName`): whatever names are
given, a store uses that file and no other one (`ProgressStore.names_stay_in_the_directory`).

Progress of two learners, or in two adventures, is kept apart exactly if their safe names differ
(`ProgressStore.progress_is_kept_apart_iff`). Names that are not the same can have one safe name.
-/

namespace PracticeShell.ProgressStore

open Run

section Names

/-- Whether a name can be one of a file in a directory whatever it is that the directory holds: it is
made of ASCII letters, digits, underscores, points and dashes and starts with none but a letter, a digit
or a dash. -/
structure IsPlainName (name : String) : Prop where
  ne_empty : name ≠ ""
  ne_here : name ≠ "."
  ne_up : name ≠ ".."
  characters : ∀ c ∈ name.toList, 'a' ≤ c ∧ c ≤ 'z' ∨ 'A' ≤ c ∧ c ≤ 'Z' ∨ '0' ≤ c ∧ c ≤ '9' ∨
    c = '_' ∨ c = '.' ∨ c = '-'
  start : name.toList.head? ≠ some '.' ∧ name.toList.head? ≠ some '_'

theorem isSafe_iff {c : Char} : isSafe c = true ↔
    'a' ≤ c ∧ c ≤ 'z' ∨ 'A' ≤ c ∧ c ≤ 'Z' ∨ '0' ≤ c ∧ c ≤ '9' ∨ c = '_' ∨ c = '.' ∨ c = '-' := by
  simp [isSafe, Text.Letter.isAsciiWord, Text.Letter.isAsciiLetter, Text.Letter.isAsciiDigit,
    or_assoc]

theorem isSafe_of_mem_replaceUnsafe {inRun : Bool} {cs : List Char} {c : Char}
    (h : c ∈ replaceUnsafe inRun cs) : isSafe c = true := by
  induction cs generalizing inRun with
  | nil => cases h
  | cons d rest ih =>
      unfold replaceUnsafe at h
      split at h
      · rename_i hsafe
        rcases List.mem_cons.1 h with rfl | h
        · exact hsafe
        · exact ih h
      · split at h
        · exact ih h
        · rcases List.mem_cons.1 h with rfl | h
          · decide
          · exact ih h

theorem isPlainName_of_toList {name : String} {first : Char} {rest : List Char}
    (h : name.toList = first :: rest) (hfirst : isTrimmed first = false)
    (hsafe : ∀ c ∈ first :: rest, isSafe c = true) : IsPlainName name := by
  have hstart : first ≠ '.' ∧ first ≠ '_' := by simpa [isTrimmed] using hfirst
  have hnot : ∀ other : String, other.toList.head? ≠ some first → name ≠ other := by
    rintro other hother rfl
    exact hother (by rw [h]; rfl)
  refine ⟨hnot _ nofun, hnot _ ?_, hnot _ ?_, fun c hc => isSafe_iff.1 (hsafe c (h ▸ hc)), ?_⟩
  · exact fun hdot => hstart.1 (Option.some.inj hdot).symm
  · exact fun hdot => hstart.1 (Option.some.inj hdot).symm
  · rw [h]
    simpa using hstart

/-- A safe name is plain, if the name is that stands for those of which nothing is left. -/
theorem isPlainName_safeName (text : String) {default : String} (hdefault : IsPlainName default) :
    IsPlainName (safeName text default) := by
  unfold safeName
  dsimp only
  split
  · exact hdefault
  rename_i hleft
  rw [← Text.Blank.tidy, ← Text.Blank.dropWhile_dropWhileEnd] at hleft ⊢
  have hhead := List.head?_dropWhile_not isTrimmed
    (Text.Blank.dropWhileEnd isTrimmed (replaceUnsafe false text.toList))
  have hkept : ∀ c ∈ (Text.Blank.dropWhileEnd isTrimmed (replaceUnsafe false text.toList)).dropWhile
      isTrimmed, isSafe c = true := by
    intro c hc
    have hbefore := (List.dropWhile_sublist isTrimmed).mem hc
    rw [Text.Blank.dropWhileEnd, List.mem_reverse] at hbefore
    have hwhole := (List.dropWhile_sublist isTrimmed).mem hbefore
    exact isSafe_of_mem_replaceUnsafe (List.mem_reverse.1 hwhole)
  generalize (Text.Blank.dropWhileEnd isTrimmed (replaceUnsafe false text.toList)).dropWhile
    isTrimmed = cs at hleft hhead hkept ⊢
  obtain ⟨first, rest, rfl⟩ := List.exists_cons_of_ne_nil (show cs ≠ [] by simpa using hleft)
  exact isPlainName_of_toList String.toList_ofList hhead hkept

theorem IsPlainName.append_ending {name : String} (h : IsPlainName name) :
    IsPlainName (name ++ ".json") := by
  obtain ⟨first, rest, hname⟩ := List.exists_cons_of_ne_nil
    (show name.toList ≠ [] by simpa using h.ne_empty)
  have hstart := h.start
  rw [hname] at hstart
  have hending : ∀ c ∈ ".json".toList, isSafe c = true := List.all_eq_true.1 rfl
  have hwhole : (name ++ ".json").toList = first :: (rest ++ ".json".toList) := by
    rw [String.toList_append, hname, List.cons_append]
  refine isPlainName_of_toList hwhole ?_ fun c hc => ?_
  · simpa [isTrimmed] using hstart
  · rw [← List.cons_append, ← hname, List.mem_append] at hc
    exact hc.elim (fun hc => isSafe_iff.2 (h.characters c hc)) (hending c)

theorem IsPlainName.isSegment {name : String} (h : IsPlainName name) : Path.IsSegment name := by
  refine ⟨h.ne_empty, h.ne_here, h.ne_up, fun hslash => ?_⟩
  have hsafe := isSafe_iff.2 (h.characters '/' hslash)
  revert hsafe
  decide

theorem isPlainName_ofUser (user : String) : IsPlainName (safeName user "user") :=
  isPlainName_safeName user (isPlainName_of_toList rfl rfl (List.all_eq_true.1 rfl))

theorem isPlainName_ofAdventure (id : String) : IsPlainName (safeName id "adventure" ++ ".json") :=
  (isPlainName_safeName id (isPlainName_of_toList rfl rfl (List.all_eq_true.1 rfl))).append_ending

end Names

section Files

variable {s t : ProgressStore} {id other : String}

/-- The same directory on another disk. -/
def onDisk (s : ProgressStore) (d : Disk) : ProgressStore := { s with disk := d }

theorem disk_onDisk (s : ProgressStore) (d : Disk) : (s.onDisk d).disk = d := rfl

/-- Whether a path leads to an entry of a directory that has a plain name. -/
def LiesIn (path directory : String) : Prop :=
  ∃ name, IsPlainName name ∧ path = Path.join directory name ∧
    ∀ d : Disk, d.place path = d.place directory ++ [name]

theorem liesIn_join {name : String} (h : IsPlainName name) (directory : String) :
    LiesIn (Path.join directory name) directory :=
  ⟨name, h, rfl, fun d => d.place_join directory h.isSegment⟩

theorem loadDocument_of_error {e : Disk.Error} (h : s.disk.read (s.path id) = .error e) :
    s.loadDocument id = if e = .nameTooLong then .error (.disk .nameTooLong) else .ok none := by
  unfold loadDocument Disk.exists?
  rw [h]
  cases e <;> rfl

/-- What is loaded is decided by what is read at the path of the file. -/
theorem loadDocument_eq_of_read
    (hok : ∀ bytes, t.disk.read (t.path other) = .ok bytes ↔ s.disk.read (s.path id) = .ok bytes)
    (hlong : t.disk.read (t.path other) = .error .nameTooLong ↔
      s.disk.read (s.path id) = .error .nameTooLong) :
    t.loadDocument other = s.loadDocument id := by
  cases hread : s.disk.read (s.path id) with
  | ok bytes =>
      have hthere := (hok bytes).2 hread
      unfold loadDocument
      rw [Disk.exists?_of_read hread, Disk.exists?_of_read hthere, hread, hthere]
  | error e =>
      cases hother : t.disk.read (t.path other) with
      | ok bytes =>
          rw [(hok bytes).1 hother] at hread
          cases hread
      | error e' =>
          rw [hread, hother, Except.error.injEq, Except.error.injEq] at hlong
          rw [loadDocument_of_error hread, loadDocument_of_error hother]
          simp only [hlong]

theorem load_eq_of_read
    (hok : ∀ bytes, t.disk.read (t.path other) = .ok bytes ↔ s.disk.read (s.path id) = .ok bytes)
    (hlong : t.disk.read (t.path other) = .error .nameTooLong ↔
      s.disk.read (s.path id) = .error .nameTooLong) : t.load other = s.load id := by
  unfold load
  rw [loadDocument_eq_of_read hok hlong]

theorem load_eq_of_path (hdisk : t.disk = s.disk) (hpath : t.path other = s.path id) :
    t.load other = s.load id := by
  rw [load, loadDocument, hdisk, hpath, load, loadDocument]

/-- Nothing decides what is loaded but the directories and the contents of the file. -/
theorem load_eq_of_same (hhere : t.disk.here = s.disk.here)
    (hdirectories : ∀ p, t.disk.isDirectory p = s.disk.isDirectory p)
    (hpath : t.path other = s.path id)
    (hfile : t.disk.file? (s.disk.place (s.path id)) = s.disk.file? (s.disk.place (s.path id))) :
    t.loadDocument other = s.loadDocument id ∧ t.load other = s.load id := by
  have hok : ∀ bytes, t.disk.read (t.path other) = .ok bytes ↔
      s.disk.read (s.path id) = .ok bytes := by
    rw [hpath]
    exact fun _ => Disk.read_ok_iff_of_same hhere hdirectories hfile
  have hlong : t.disk.read (t.path other) = .error .nameTooLong ↔
      s.disk.read (s.path id) = .error .nameTooLong := by
    rw [hpath]
    exact ⟨Disk.read_nameTooLong hhere.symm fun p hp => by rwa [← hdirectories],
      Disk.read_nameTooLong hhere fun p hp => by rwa [hdirectories]⟩
  exact ⟨loadDocument_eq_of_read hok hlong, load_eq_of_read hok hlong⟩

theorem save_changesOnly {p : Progress} {stamp : String} {written : Bool} {later : ProgressStore}
    (h : s.save id p stamp = .ok (written, later)) :
    Disk.ChangesOnly (s.disk.place (s.path id)) s.disk later.disk := by
  unfold save at h
  obtain ⟨v, -, h⟩ := bind_eq_ok_iff.1 h
  have hway := s.disk.makeWay_changesOnly (s.path id) (s.disk.place (s.path id))
  dsimp only at h
  split at h
  · rename_i disk hwrite
    cases h
    have hfile := Disk.write_changesOnly hwrite
    rw [hway.place_eq] at hfile
    exact hway.trans hfile
  · cases h
    exact hway

theorem clear_changesOnly (s : ProgressStore) (id : String) :
    Disk.ChangesOnly (s.disk.place (s.path id)) s.disk (s.clear id).2.disk := by
  rcases s.clear_cases id with ⟨hsame, -⟩ | ⟨disk, hremove, hcleared⟩
  · rw [hsame]
    exact ⟨rfl, fun _ h => h, fun _ _ => rfl⟩
  · rw [hcleared]
    exact Disk.remove_changesOnly hremove

theorem isDirectory_clear (s : ProgressStore) (id : String) (p : List String) :
    (s.clear id).2.disk.isDirectory p = s.disk.isDirectory p := by
  rcases s.clear_cases id with ⟨hsame, -⟩ | ⟨disk, hremove, hcleared⟩
  · rw [hsame]
  · rw [hcleared]
    exact Disk.isDirectory_remove hremove p

/-- Whether a store uses no file but that of an adventure: no other file is changed, made or removed when
the progress in it is saved or cleared, and what is loaded is the same on all disks with the same
directories and the same contents of that file. -/
structure UsesOnlyItsFile (s : ProgressStore) (id : String) : Prop where
  saves : ∀ p stamp written later, s.save id p stamp = .ok (written, later) →
    ∀ place, place ≠ s.disk.place (s.path id) → later.disk.file? place = s.disk.file? place
  clears : ∀ place, place ≠ s.disk.place (s.path id) →
    (s.clear id).2.disk.file? place = s.disk.file? place
  loads : ∀ d : Disk, d.here = s.disk.here → (∀ p, d.isDirectory p = s.disk.isDirectory p) →
    d.file? (s.disk.place (s.path id)) = s.disk.file? (s.disk.place (s.path id)) →
      (s.onDisk d).loadDocument id = s.loadDocument id ∧ (s.onDisk d).load id = s.load id

theorem usesOnlyItsFile (s : ProgressStore) (id : String) : s.UsesOnlyItsFile id where
  saves := fun _ _ _ _ hsave place hplace => (save_changesOnly hsave).files place hplace
  clears := fun place hplace => (s.clear_changesOnly id).files place hplace
  loads := fun _ hhere hdirectories hfile => load_eq_of_same hhere hdirectories rfl hfile

/-- Whatever an adventure and a learner are called, the file of the adventure and the directory of the
learner lie directly in the directory of a store, under plain names. The store and that of the learner
read, write and remove no file but the one of the adventure, and it lies below the directory. -/
theorem names_stay_in_the_directory (s : ProgressStore) (id user : String) :
    LiesIn (s.path id) s.directory ∧ LiesIn (s.forUser user).directory s.directory ∧
      ∀ t ∈ [s, s.forUser user], t.UsesOnlyItsFile id ∧
        ∃ names, names ≠ [] ∧ t.disk.place (t.path id) = s.disk.place s.directory ++ names := by
  have hfile : ∀ t : ProgressStore, LiesIn (t.path id) t.directory := fun t =>
    liesIn_join (isPlainName_ofAdventure id) t.directory
  have hlearner : LiesIn (s.forUser user).directory s.directory :=
    liesIn_join (isPlainName_ofUser user) s.directory
  refine ⟨hfile s, hlearner, fun t ht => ⟨t.usesOnlyItsFile id, ?_⟩⟩
  rcases List.mem_pair.1 ht with rfl | rfl
  · obtain ⟨name, -, -, hplace⟩ := hfile t
    exact ⟨[name], by simp, hplace _⟩
  · obtain ⟨name, -, -, hplace⟩ := hfile (s.forUser user)
    obtain ⟨learner, -, -, hbelow⟩ := hlearner
    refine ⟨[learner, name], by simp, ?_⟩
    rw [hplace, hbelow, List.append_assoc]
    rfl

end Files

section Learners

variable {s : ProgressStore} {user id otherUser otherId : String}

/-- The path of the file of a learner in an adventure. -/
def pathFor (s : ProgressStore) (user id : String) : String := (s.forUser user).path id

/-- The progress of a learner in an adventure that is found on another disk. -/
def loadFor (s : ProgressStore) (d : Disk) (user id : String) : Except Fault (Option Progress) :=
  ((s.forUser user).onDisk d).load id

/-- Whether two learners in two adventures have safe names by which they can be told apart. -/
def AreApart (user id otherUser otherId : String) : Prop :=
  safeName user "user" ≠ safeName otherUser "user" ∨
    safeName id "adventure" ≠ safeName otherId "adventure"

instance : Decidable (AreApart user id otherUser otherId) :=
  inferInstanceAs (Decidable (_ ∨ _))

/-- Whether the safe names of a learner and of the file of an adventure are not too long. -/
def AreShort (user id : String) : Prop :=
  Disk.isLong (safeName user "user") = false ∧
    Disk.isLong (safeName id "adventure" ++ ".json") = false

instance : Decidable (AreShort user id) :=
  inferInstanceAs (Decidable (_ ∧ _))

/-- Whether saving and clearing the progress of a learner in an adventure keeps the progress of another:
the contents of its file stay, what is found there is found again, and clearing leaves what is loaded as
it was, whatever that is. -/
structure Keeps (s : ProgressStore) (user id otherUser otherId : String) : Prop where
  file : ∀ p stamp written later, (s.forUser user).save id p stamp = .ok (written, later) →
    later.disk.file? (s.disk.place (s.pathFor otherUser otherId)) =
      s.disk.file? (s.disk.place (s.pathFor otherUser otherId))
  found : ∀ p stamp written later, (s.forUser user).save id p stamp = .ok (written, later) →
    ∀ q, s.loadFor s.disk otherUser otherId = .ok (some q) →
      s.loadFor later.disk otherUser otherId = .ok (some q)
  clears : s.loadFor ((s.forUser user).clear id).2.disk otherUser otherId =
    s.loadFor s.disk otherUser otherId

/-- Whether saving and clearing the progress of a learner in an adventure leaves what is loaded for
another as it was. -/
structure Spares (s : ProgressStore) (user id otherUser otherId : String) : Prop where
  saves : ∀ p stamp written later, (s.forUser user).save id p stamp = .ok (written, later) →
    s.loadFor later.disk otherUser otherId = s.loadFor s.disk otherUser otherId
  clears : s.loadFor ((s.forUser user).clear id).2.disk otherUser otherId =
    s.loadFor s.disk otherUser otherId

theorem place_pathFor (d : Disk) (s : ProgressStore) (user id : String) :
    d.place (s.pathFor user id) = d.place s.directory ++
      [safeName user "user", safeName id "adventure" ++ ".json"] := by
  have hlearner := d.place_join s.directory (isPlainName_ofUser user).isSegment
  have hfile := d.place_join (s.forUser user).directory (isPlainName_ofAdventure id).isSegment
  change d.place (s.pathFor user id) = d.place (Path.join s.directory _) ++ _ at hfile
  rw [hfile, hlearner, List.append_assoc]
  rfl

/-- Two learners have one file if they cannot be told apart by their safe names. -/
theorem place_pathFor_eq_iff (d : Disk) (s : ProgressStore) : d.place (s.pathFor otherUser otherId) =
    d.place (s.pathFor user id) ↔ ¬ AreApart user id otherUser otherId := by
  rw [place_pathFor, place_pathFor, List.append_cancel_left_eq, List.cons.injEq, List.cons.injEq,
    String.append_left_inj, AreApart, not_or, not_not, not_not, eq_comm,
    eq_comm (a := safeName otherId _)]
  simp

theorem AreApart.place_ne (h : AreApart user id otherUser otherId) (d : Disk) (s : ProgressStore) :
    d.place (s.pathFor otherUser otherId) ≠ d.place (s.pathFor user id) := fun hsame =>
  (place_pathFor_eq_iff d s).1 hsame h

theorem isStraight_pathFor (h : Disk.IsStraight s.directory) (hshort : AreShort user id) :
    Disk.IsStraight (s.pathFor user id) :=
  (h.join (isPlainName_ofUser user).isSegment hshort.1).join
    (isPlainName_ofAdventure id).isSegment hshort.2

theorem loadFor_self (s : ProgressStore) (user id : String) :
    s.loadFor s.disk user id = (s.forUser user).load id := rfl

/-- What is found on another disk is the same, if what is read at the path of the file is. -/
theorem loadFor_eq_of_read {d : Disk}
    (hok : ∀ bytes, d.read (s.pathFor user id) = .ok bytes ↔
      s.disk.read (s.pathFor user id) = .ok bytes)
    (hlong : d.read (s.pathFor user id) = .error .nameTooLong ↔
      s.disk.read (s.pathFor user id) = .error .nameTooLong) :
    s.loadFor d user id = s.loadFor s.disk user id :=
  load_eq_of_read (t := (s.forUser user).onDisk d) hok hlong

/-- Progress is found only where a file is read. -/
theorem read_of_loadFor {d : Disk} {q : Progress} (h : s.loadFor d user id = .ok (some q)) :
    ∃ bytes, d.read (s.pathFor user id) = .ok bytes := by
  by_contra hnone
  rw [not_exists] at hnone
  exact not_holds_of_not_read (s := (s.forUser user).onDisk d) hnone ⟨q, h⟩

theorem AreApart.loadFor_clear (h : AreApart user id otherUser otherId) (s : ProgressStore) :
    s.loadFor ((s.forUser user).clear id).2.disk otherUser otherId =
      s.loadFor s.disk otherUser otherId := by
  have hcleared := (s.forUser user).clear_changesOnly id
  have hfile := hcleared.files _ (h.place_ne s.disk s)
  have hsame := @load_eq_of_same (s.forUser otherUser)
    ((s.forUser otherUser).onDisk ((s.forUser user).clear id).2.disk) otherId otherId
    hcleared.here ((s.forUser user).isDirectory_clear id) rfl hfile
  exact hsame.2

theorem AreApart.keeps (h : AreApart user id otherUser otherId) (s : ProgressStore) :
    s.Keeps user id otherUser otherId where
  file := fun _ _ _ _ hsave =>
    (save_changesOnly hsave).files _ (h.place_ne s.disk s)
  found := fun _ _ _ later hsave q hq => by
    obtain ⟨bytes, hread⟩ := read_of_loadFor hq
    have hagain : later.disk.read (s.pathFor otherUser otherId) = .ok bytes :=
      (save_changesOnly hsave).read_of_read (h.place_ne s.disk s) hread
    have hsame : s.loadFor later.disk otherUser otherId = s.loadFor s.disk otherUser otherId :=
      loadFor_eq_of_read (fun _ => by rw [hread, hagain]) (by rw [hread, hagain])
    exact hsame.trans hq
  clears := h.loadFor_clear s

theorem AreApart.spares (h : AreApart user id otherUser otherId) (hshort : AreShort otherUser otherId)
    (hdirectory : Disk.IsStraight s.directory) : s.Spares user id otherUser otherId where
  saves := fun _ _ _ _ hsave => by
    have hstraight := isStraight_pathFor hdirectory hshort
    refine loadFor_eq_of_read (fun bytes => ?_) ?_
    · exact (save_changesOnly hsave).read_of_isStraight hstraight (h.place_ne s.disk s)
    · rw [hstraight.read_nameTooLong_iff, hstraight.read_nameTooLong_iff]
  clears := h.loadFor_clear s

/-- Learners who cannot be told apart find the same progress. -/
theorem loadFor_eq_of_not_areApart (h : ¬ AreApart user id otherUser otherId) (s : ProgressStore)
    (d : Disk) : s.loadFor d otherUser otherId = s.loadFor d user id := by
  rw [AreApart, not_or, not_not, not_not] at h
  have hpath : s.pathFor otherUser otherId = s.pathFor user id := by
    unfold pathFor forUser path
    rw [h.1, h.2]
  rw [loadFor, loadFor]
  refine load_eq_of_path ?_ hpath
  rw [disk_onDisk, disk_onDisk]

/-- What is saved for a learner is loaded for all who cannot be told apart from them. -/
theorem loadFor_of_save {p : Progress} {stamp : String} {later : ProgressStore}
    (h : ¬ AreApart user id otherUser otherId) (hp : p.IsExact)
    (hsave : (s.forUser user).save id p stamp = .ok (true, later)) :
    ∃ q, s.loadFor later.disk otherUser otherId = .ok (some q) ∧ p.Same q := by
  obtain ⟨q, hq, hsame⟩ := load_of_save hp hsave
  refine ⟨q, ?_, hsame⟩
  rw [loadFor_eq_of_not_areApart h, ← hq]
  exact load_eq_of_path rfl (path_save hsave).symm

section Fresh

/-- A store on a disk without files, in the directory that the program runs in. -/
def fresh : ProgressStore := ⟨"", .empty []⟩

theorem isStraight_fresh : Disk.IsStraight fresh.directory := by
  intro name hname
  obtain rfl := List.mem_singleton.1 (show name ∈ [""] by rwa [fresh, Path.parts_empty] at hname)
  decide

theorem directory_fresh (user : String) : (fresh.forUser user).directory = safeName user "user" := by
  rw [fresh, forUser, Path.join, if_pos rfl]

theorem parts_fresh (user id : String) : Path.parts (fresh.pathFor user id) =
    [safeName user "user", safeName id "adventure" ++ ".json"] := by
  have huser := (isPlainName_ofUser user).isSegment
  obtain ⟨names, hparts, hbefore⟩ :=
    Path.parts_join (fresh.forUser user).directory (isPlainName_ofAdventure id).isSegment
  rw [directory_fresh, Path.parts_of_isSegment huser] at hbefore
  have hnames : names = [safeName user "user"] := by
    rcases hbefore with hsame | hslash
    · exact hsame.symm
    · have hlast := congrArg List.getLast? hslash
      rw [List.getLast?_singleton, List.getLast?_concat] at hlast
      exact absurd (Option.some.inj hlast) huser.1
  rw [pathFor, path, hparts, hnames]
  rfl

theorem startsWith_fresh (user id : String) :
    Path.startsWith (fresh.pathFor user id) "/" = false := by
  have hfile := Disk.startsWith_slash_join (fresh.forUser user).directory
    (isPlainName_ofAdventure id).isSegment
  have hlearner := Disk.startsWith_slash_join fresh.directory (isPlainName_ofUser user).isSegment
  rw [pathFor, path, hfile, forUser, hlearner]
  rfl

theorem size_fresh (h : AreShort user id) :
    (fresh.pathFor user id).utf8ByteSize ≤ Disk.maxPath := by
  have htext := Path.intercalate_parts (fresh.pathFor user id)
  rw [parts_fresh] at htext
  obtain ⟨huser, hfile⟩ := h
  simp only [Disk.isLong, Disk.maxName, gt_iff_lt, decide_eq_false_iff_not, not_lt] at huser hfile
  have hslash : "/".utf8ByteSize = 1 := rfl
  rw [← htext, String.intercalate_cons_cons, String.intercalate_singleton,
    String.utf8ByteSize_append, String.utf8ByteSize_append, Disk.maxPath]
  omega

theorem makeWay_fresh (h : AreShort user id) : fresh.disk.makeWay (fresh.pathFor user id) =
    ⟨[], [[safeName user "user"]], []⟩ := by
  obtain ⟨hempty, hhere, hup, -⟩ := (isPlainName_ofUser user).isSegment
  have hlearner : List.dropLast [safeName user "user", safeName id "adventure" ++ ".json"] =
      [safeName user "user"] := rfl
  rw [Disk.makeWay, startsWith_fresh, parts_fresh, hlearner, if_neg Bool.false_ne_true,
    Disk.makeAlong, if_neg (not_or.2 ⟨hempty, hhere⟩), if_neg hup]
  dsimp only
  rw [h.1]
  rfl

/-- In a fresh store the file of every learner can be written, if no name is too long. -/
theorem isWritable_fresh (h : AreShort user id) : (fresh.forUser user).IsWritable id := by
  intro bytes
  obtain ⟨hempty, hhere, hup, -⟩ := (isPlainName_ofUser user).isSegment
  obtain ⟨hempty', hhere', hup', -⟩ := (isPlainName_ofAdventure id).isSegment
  refine ⟨_, Disk.write_eq_ok_iff.2
    ⟨[safeName user "user", safeName id "adventure" ++ ".json"], ?_, ?_, rfl⟩⟩
  · change (fresh.disk.makeWay (fresh.pathFor user id)).follow (fresh.pathFor user id) = _
    rw [makeWay_fresh h, Disk.follow, if_neg (Nat.not_lt.2 (size_fresh h)), startsWith_fresh,
      parts_fresh]
    simp [Disk.walk, Disk.isDirectory, *, h.1, h.2]
  · change (fresh.disk.makeWay (fresh.pathFor user id)).isDirectory _ = false
    rw [makeWay_fresh h]
    simp [Disk.isDirectory]

theorem loadFor_fresh (h : AreShort user id) : fresh.loadFor fresh.disk user id = .ok none := by
  rw [loadFor_self]
  refine (isWritable_fresh h).load_of_not_read fun bytes hread => ?_
  obtain ⟨place, -, hfile⟩ := Disk.read_eq_ok_iff.1 hread
  cases hfile

/-- What is saved in a fresh store is seen by those who cannot be told apart. -/
theorem exists_save_fresh (h : ¬ AreApart user id otherUser otherId)
    (hshort : AreShort otherUser otherId) : ∃ later q,
      (fresh.forUser user).save id .start "" = .ok (true, later) ∧
      fresh.loadFor later.disk otherUser otherId = .ok (some q) := by
  have hsame : AreShort user id := by
    rw [AreApart, not_or, not_not, not_not] at h
    unfold AreShort
    rw [h.1, h.2]
    exact hshort
  obtain ⟨⟨written, later⟩, hsave⟩ :=
    save_of_isNamed Progress.isNamed_start (fresh.forUser user) id ""
  obtain rfl := (isWritable_fresh hsame).written hsave
  obtain ⟨q, hq, -⟩ := loadFor_of_save h Progress.isExact_start hsave
  exact ⟨later, q, hsave, hq⟩

theorem not_spares_fresh (h : ¬ AreApart user id otherUser otherId)
    (hshort : AreShort otherUser otherId) : ¬ fresh.Spares user id otherUser otherId := by
  intro hspares
  obtain ⟨later, q, hsave, hq⟩ := exists_save_fresh h hshort
  rw [hspares.saves _ _ _ _ hsave, loadFor_fresh hshort] at hq
  cases hq

end Fresh

/-- The files of two learners, or of one in two adventures, are different ones exactly if their safe
names differ. Then the progress of one is kept, whatever the other does: its file stays as it is and what
is found there is found again. What is loaded is the same before and after, even where there is nothing
to be found, if no name of the file is too long and the directory of the store is reached straight down,
and this is so for all such stores only if the safe names differ. -/
theorem progress_is_kept_apart_iff (user id otherUser otherId : String) :
    (∀ s : ProgressStore, s.disk.place (s.pathFor otherUser otherId) ≠
      s.disk.place (s.pathFor user id) ↔ AreApart user id otherUser otherId) ∧
    (AreApart user id otherUser otherId → ∀ s : ProgressStore, s.Keeps user id otherUser otherId) ∧
    (AreShort otherUser otherId →
      ((∀ s : ProgressStore, Disk.IsStraight s.directory → s.Spares user id otherUser otherId) ↔
        AreApart user id otherUser otherId)) := by
  refine ⟨fun s => ?_, fun h s => h.keeps s, fun hshort => ⟨fun hall => ?_, fun h s hs => ?_⟩⟩
  · rw [Ne, place_pathFor_eq_iff, not_not]
  · by_contra h
    exact not_spares_fresh h hshort (hall fresh isStraight_fresh)
  · exact h.spares hshort hs

theorem walks_are_kept_apart : AreApart "ada" "walk" "bea" "walk" ∧ AreShort "bea" "walk" ∧
    fresh.Keeps "ada" "walk" "bea" "walk" ∧ fresh.Spares "ada" "walk" "bea" "walk" := by
  have hapart : AreApart "ada" "walk" "bea" "walk" := by decide
  have hshort : AreShort "bea" "walk" := by decide
  obtain ⟨-, hkeeps, hspares⟩ := progress_is_kept_apart_iff "ada" "walk" "bea" "walk"
  exact ⟨hapart, hshort, hkeeps hapart fresh, (hspares hshort).2 hapart fresh isStraight_fresh⟩

/-- Learners with different names can have one file, and then one finds what the other has saved. -/
theorem namesakes_share_a_file : fresh.pathFor "ada." "walk" = fresh.pathFor "ada" "walk" ∧
    fresh.loadFor fresh.disk "ada." "walk" = .ok none ∧ ∃ later q,
      (fresh.forUser "ada").save "walk" .start "" = .ok (true, later) ∧
      fresh.loadFor later.disk "ada." "walk" = .ok (some q) := by
  have htogether : ¬ AreApart "ada" "walk" "ada." "walk" := by decide
  have hshort : AreShort "ada." "walk" := by decide
  exact ⟨by decide, loadFor_fresh hshort, exists_save_fresh htogether hshort⟩

end Learners

end PracticeShell.ProgressStore
