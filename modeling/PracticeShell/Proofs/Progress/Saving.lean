import Mathlib.Data.List.Nodup
import Mathlib.Data.Set.List
import PracticeShell.Proofs.Disk
import PracticeShell.Proofs.Json.Reading
import PracticeShell.Proofs.Progress
import PracticeShell.Proofs.Text.Bytes
import PracticeShell.Proofs.Tracker.Settling

/-!
# Progress that is saved

The document that progress is saved as is read back as the same progress, up to the order of its
marks (`Progress.IsExact.document`), if all marks are names, no name is there twice, and no number has
too many digits. So progress that has been written to its file is loaded as the same progress
(`ProgressStore.load_of_save`). Where the file can be written (`ProgressStore.IsWritable`), saving writes
it, and it can be written again. A store that has been cleared holds no progress of an adventure
(`ProgressStore.not_holds_clear`), and clearing it once more changes nothing.
-/

namespace PracticeShell

open Run

namespace Marks

variable {m : Marks} {l sorted : List Json} {v : Json}

theorem perm_insertSorted (h : insertSorted v l = some sorted) : sorted.Perm (v :: l) := by
  induction l generalizing sorted with
  | nil =>
      cases h
      exact .refl _
  | cons w rest ih =>
      unfold insertSorted at h
      obtain ⟨before, -, h⟩ := Option.bind_eq_some_iff.1 h
      cases before with
      | true =>
          cases h
          exact .refl _
      | false =>
          obtain ⟨placed, hplaced, h⟩ := Option.bind_eq_some_iff.1 h
          cases h
          exact ((ih hplaced).cons w).trans (.swap v w rest)

theorem perm_sorted? (h : m.sorted? = some sorted) : sorted.Perm m.values := by
  obtain ⟨values⟩ := m
  change values.foldrM insertSorted [] = some sorted at h
  induction values generalizing sorted with
  | nil =>
      cases h
      exact .refl _
  | cons v values ih =>
      rw [List.foldrM_cons] at h
      obtain ⟨placed, hplaced, h⟩ := Option.bind_eq_some_iff.1 h
      exact (perm_insertSorted h).trans ((ih hplaced).cons v)

theorem nodup_add (h : m.values.Nodup) (name : String) : (m.add name).values.Nodup := by
  by_cases hname : m.contains name = true
  · rwa [add_of_contains hname]
  · rw [values_add_of_not_contains hname, ← List.concat_eq_append, List.nodup_concat]
    exact ⟨fun hmem => hname (contains_iff.2 hmem), h⟩

theorem nodup_addAll (h : m.values.Nodup) (names : List String) :
    (m.addAll names).values.Nodup := by
  induction names generalizing m with
  | nil => exact h
  | cons name rest ih => exact ih (nodup_add h name)

/-- Names that are all different are the marks that they give. -/
theorem values_ofList (hnames : ∀ v ∈ l, ∃ name, v = .string name) (h : l.Nodup) :
    (ofList l).values = l := by
  have hrange : l ∈ Set.range (List.map Json.string) := by
    rw [Set.range_list_map]
    intro v hv
    obtain ⟨name, rfl⟩ := hnames v hv
    exact ⟨name, rfl⟩
  obtain ⟨names, rfl⟩ := hrange
  have hfold : ofList (names.map .string) = empty.addAll names := List.foldl_map
  rw [hfold, values_addAll (List.Nodup.of_map _ h) fun name _ => by simp [contains_iff, empty]]
  rfl

/-- Names in order are names, and they give the marks that have been put in order. -/
theorem IsNamed.ofList_sorted (hm : m.IsNamed) (hnodup : m.values.Nodup)
    (h : m.sorted? = some sorted) :
    (∀ v ∈ sorted, ∃ name, v = .string name) ∧ (ofList sorted).values.Perm m.values := by
  have hperm := perm_sorted? h
  have hnames : ∀ v ∈ sorted, ∃ name, v = .string name := fun v hv => hm v (hperm.mem_iff.1 hv)
  rw [values_ofList hnames (hperm.nodup_iff.2 hnodup)]
  exact ⟨hnames, hperm⟩

end Marks

namespace Progress

/-- Whether two progresses are the same, but for the order of their marks. -/
structure Same (p q : Progress) : Prop where
  missionIndex : q.missionIndex = p.missionIndex
  taskIndex : q.taskIndex = p.taskIndex
  completedTasks : q.completedTasks.values.Perm p.completedTasks.values
  completedMissions : q.completedMissions.values.Perm p.completedMissions.values
  hintsUsed : q.hintsUsed = p.hintsUsed

/-- Whether a number has few enough digits to be read. -/
def IsShort (n : Int) : Prop := n.natAbs < 10 ^ Text.Digit.maxDigits

/-- Whether all that is marked are names, and no name is there twice. -/
structure IsSound (p : Progress) : Prop where
  isNamed : p.IsNamed
  nodup_tasks : p.completedTasks.values.Nodup
  nodup_missions : p.completedMissions.values.Nodup
  nodup_hints : (p.hintsUsed.map (·.1)).Nodup
  levels : ∀ hint ∈ p.hintsUsed, IsShort hint.2

/-- Whether a progress is the same when it is read back. -/
structure IsExact (p : Progress) : Prop extends IsSound p where
  missionIndex : IsShort p.missionIndex
  taskIndex : IsShort p.taskIndex

theorem isSound_start : start.IsSound :=
  ⟨isNamed_start, List.nodup_nil, List.nodup_nil, List.nodup_nil, nofun⟩

theorem isShort_of_lt_ten {n : Int} (h : n.natAbs < 10) : IsShort n :=
  Nat.lt_of_lt_of_le h (Nat.le_self_pow (by decide) 10)

theorem isExact_start : start.IsExact :=
  ⟨isSound_start, isShort_of_lt_ten (by decide), isShort_of_lt_ten (by decide)⟩

/-- The members of the document of a progress, given its marks in order. -/
def members (p : Progress) (stamp : String) (tasks missions : List Json) : Json.Members :=
  [("currentMissionIndex", .int p.missionIndex), ("currentTaskIndex", .int p.taskIndex),
    ("completedTasks", .array tasks), ("completedMissions", .array missions),
    ("hintsUsed", .object (p.hintsUsed.map fun (id, level) => (id, .int level))),
    (ProgressStore.stampName, .string stamp)]

section

variable {p : Progress} {stamp : String} {tasks missions : List Json}
  (htasks : p.completedTasks.sorted? = some tasks)
  (hmissions : p.completedMissions.sorted? = some missions)

include htasks hmissions in
theorem document_eq_members :
    ProgressStore.document p stamp = .ok (.object (p.members stamp tasks missions)) := by
  unfold ProgressStore.document toJson?
  rw [htasks, hmissions]
  rfl

theorem readLevels_map (hints : List (String × Int)) :
    readLevels (hints.map fun (id, level) => (id, .int level)) = .ok hints := by
  induction hints with
  | nil => rfl
  | cons first rest ih =>
      rw [List.map_cons, readLevels, ih]
      rfl

theorem readHints_members : readHints (p.members stamp tasks missions) = .ok p.hintsUsed := by
  have hfound : (p.members stamp tasks missions).lookup "hintsUsed" =
      some (.object (p.hintsUsed.map fun (id, level) => (id, .int level))) := rfl
  unfold readHints
  rw [hfound]
  cases hhints : p.hintsUsed with
  | nil => rfl
  | cons first rest => exact readLevels_map (first :: rest)

theorem readMarks_of_lookup {ms : Json.Members} {name : String} {values : List Json}
    (h : ms.lookup name = some (.array values)) (hnames : ∀ v ∈ values, ∃ name, v = .string name) :
    readMarks ms name = .ok (.ofList values) := by
  have hplain : values.all Json.isPlain = true := by
    rw [List.all_eq_true]
    intro v hv
    obtain ⟨name, rfl⟩ := hnames v hv
    rfl
  unfold readMarks
  rw [h]
  exact if_pos hplain

end

theorem isExact_names {names : List Json} (h : ∀ v ∈ names, ∃ name, v = .string name)
    (depth : Nat) : (Json.array names).IsExact (depth + 1) := by
  refine .array fun v hv => ?_
  obtain ⟨name, rfl⟩ := h v hv
  exact .string name

theorem isExact_hints {hints : List (String × Int)} (hnames : (hints.map (·.1)).Nodup)
    (hlevels : ∀ hint ∈ hints, IsShort hint.2) (depth : Nat) :
    (Json.object (hints.map fun (id, level) => (id, .int level))).IsExact (depth + 1) := by
  refine .object ?_ fun m hm => ?_
  · rwa [List.map_map]
  · obtain ⟨hint, hhint, rfl⟩ := List.mem_map.1 hm
    exact .int (hlevels hint hhint)

theorem IsExact.members {p : Progress} (h : p.IsExact) (stamp : String)
    {tasks missions : List Json} (htasks : ∀ v ∈ tasks, ∃ name, v = .string name)
    (hmissions : ∀ v ∈ missions, ∃ name, v = .string name) :
    (Json.object (p.members stamp tasks missions)).IsExact Json.maxDepth := by
  have hnames : ((p.members stamp tasks missions).map (·.1)).Nodup := by
    change ["currentMissionIndex", "currentTaskIndex", "completedTasks", "completedMissions",
      "hintsUsed", "lastSaved"].Nodup
    decide
  refine .object hnames ?_
  simp only [Progress.members, List.forall_mem_cons]
  exact ⟨.int h.missionIndex, .int h.taskIndex, isExact_names htasks _, isExact_names hmissions _,
    isExact_hints h.nodup_hints h.levels _, .string stamp, nofun⟩

/-- The document of a progress is read back, as a value and as progress. -/
theorem IsExact.document {p : Progress} (h : p.IsExact) (stamp : String) :
    ∃ ms q, ProgressStore.document p stamp = .ok (.object ms) ∧
      (Json.object ms).IsExact Json.maxDepth ∧ ofJson (.object ms) = .ok q ∧ p.Same q := by
  obtain ⟨tasks, htasks⟩ := h.isNamed.tasks.sorted?
  obtain ⟨missions, hmissions⟩ := h.isNamed.missions.sorted?
  obtain ⟨htaskNames, htaskMarks⟩ := h.isNamed.tasks.ofList_sorted h.nodup_tasks htasks
  obtain ⟨hmissionNames, hmissionMarks⟩ :=
    h.isNamed.missions.ofList_sorted h.nodup_missions hmissions
  have hread : ofJson (.object (p.members stamp tasks missions)) = .ok ⟨p.missionIndex, p.taskIndex,
      .ofList tasks, .ofList missions, p.hintsUsed⟩ := by
    unfold ofJson
    dsimp only
    rw [readMarks_of_lookup rfl htaskNames, readMarks_of_lookup rfl hmissionNames,
      readHints_members]
    rfl
  refine ⟨_, _, document_eq_members htasks hmissions, h.members stamp htaskNames hmissionNames,
    hread, ?_⟩
  exact ⟨rfl, rfl, htaskMarks, hmissionMarks, rfl⟩

end Progress

namespace ProgressStore

section Clearing

/-- Whether a store gives progress of an adventure. -/
def Holds (s : ProgressStore) (id : String) : Prop := ∃ p, s.load id = .ok (some p)

variable {s : ProgressStore} {id : String}

theorem not_holds_of_load (h : s.load id = .ok none) : ¬ s.Holds id := by
  rintro ⟨p, hp⟩
  rw [h] at hp
  cases hp

/-- Where no file is read there is no progress, or the name of the file is too long to be asked
about. -/
theorem load_of_not_read (h : ∀ bytes, s.disk.read (s.path id) ≠ .ok bytes) :
    s.load id = .ok none ∨ s.disk.read (s.path id) = .error .nameTooLong := by
  cases hread : s.disk.read (s.path id) with
  | ok bytes => exact absurd hread (h bytes)
  | error e =>
      cases e with
      | nameTooLong => exact .inr rfl
      | isADirectory => exact .inl (by simp [load, loadDocument, Disk.exists?, hread]; rfl)
      | notFound => exact .inl (by simp [load, loadDocument, Disk.exists?, hread]; rfl)
      | notADirectory => exact .inl (by simp [load, loadDocument, Disk.exists?, hread]; rfl)

theorem not_holds_of_not_read (h : ∀ bytes, s.disk.read (s.path id) ≠ .ok bytes) :
    ¬ s.Holds id := by
  rcases load_of_not_read h with hload | hlong
  · exact not_holds_of_load hload
  · rintro ⟨p, hp⟩
    simp [load, loadDocument, Disk.exists?, hlong, bind, Except.bind] at hp

/-- Clearing removes the file, if there is one. -/
theorem clear_cases (s : ProgressStore) (id : String) :
    (s.clear id = (false, s) ∧ ∀ bytes, s.disk.read (s.path id) ≠ .ok bytes) ∨
      ∃ disk, s.disk.remove (s.path id) = .ok disk ∧ s.clear id = (true, { s with disk }) := by
  unfold clear
  cases hremove : s.disk.remove (s.path id) with
  | ok disk => exact .inr ⟨disk, rfl, rfl⟩
  | error e =>
      refine .inl ⟨rfl, fun bytes hread => ?_⟩
      have hremoved := Disk.remove_eq_ok_iff.2 ⟨⟨bytes, hread⟩, rfl⟩
      rw [hremove] at hremoved
      cases hremoved

theorem not_read_clear (s : ProgressStore) (id : String) (bytes : ByteArray) :
    (s.clear id).2.disk.read ((s.clear id).2.path id) ≠ .ok bytes := by
  rcases s.clear_cases id with ⟨hsame, hnone⟩ | ⟨disk, hremove, hcleared⟩
  · rw [hsame]
    exact hnone bytes
  · rw [hcleared]
    exact Disk.not_read_of_remove hremove bytes

end Clearing

variable {s later : ProgressStore} {id stamp : String} {p : Progress} {v : Json}

/-- Whether the file of an adventure can be written. -/
def IsWritable (s : ProgressStore) (id : String) : Prop :=
  ∀ bytes, ∃ disk, s.disk.put (s.path id) bytes = .ok disk

theorem path_save {written : Bool} (h : s.save id p stamp = .ok (written, later)) :
    later.path id = s.path id := by
  unfold save at h
  obtain ⟨v, -, h⟩ := bind_eq_ok_iff.1 h
  dsimp only at h
  split at h <;>
  · cases h
    rfl

theorem save_eq_written (h : s.save id p stamp = .ok (true, later)) :
    ∃ v, document p stamp = .ok v ∧
      s.disk.put (s.path id) (Text.Utf8.encode (v.indented 2)) = .ok later.disk := by
  unfold save at h
  obtain ⟨v, hv, h⟩ := bind_eq_ok_iff.1 h
  refine ⟨v, hv, ?_⟩
  dsimp only at h
  split at h
  · rename_i disk hwrite
    cases h
    exact hwrite
  · cases h

/-- Where the file can be written, it is written. -/
theorem IsWritable.written (h : s.IsWritable id) {written : Bool}
    (hsave : s.save id p stamp = .ok (written, later)) : written = true := by
  unfold save at hsave
  obtain ⟨v, -, hsave⟩ := bind_eq_ok_iff.1 hsave
  obtain ⟨disk, hdisk⟩ := h (Text.Utf8.encode (v.indented 2))
  rw [Disk.put] at hdisk
  dsimp only at hsave
  rw [hdisk] at hsave
  cases hsave
  rfl

/-- What has been saved can be saved again. -/
theorem IsWritable.save (h : s.IsWritable id) {written : Bool}
    (hsave : s.save id p stamp = .ok (written, later)) : later.IsWritable id := by
  obtain rfl := h.written hsave
  obtain ⟨v, -, hput⟩ := save_eq_written hsave
  intro bytes
  rw [path_save hsave]
  exact Disk.put_again hput bytes

/-- A path that can be written is not too long to be asked about. -/
theorem IsWritable.load_of_not_read (h : s.IsWritable id)
    (hnone : ∀ bytes, s.disk.read (s.path id) ≠ .ok bytes) : s.load id = .ok none := by
  rcases ProgressStore.load_of_not_read hnone with hload | hlong
  · exact hload
  · obtain ⟨disk, hdisk⟩ := h .empty
    obtain ⟨place, hfollow, -⟩ := Disk.write_eq_ok_iff.1 hdisk
    exact absurd (Disk.follow_of_read_nameTooLong hlong)
      (Disk.not_nameTooLong_of_follow (Disk.here_makeWay _ _).symm hfollow)

/-- A document that is read back as it is, is found where it has been written. -/
theorem loadDocument_of_read {ms : Json.Members} (hexact : (Json.object ms).IsExact Json.maxDepth)
    (hread : s.disk.read (s.path id) = .ok (Text.Utf8.encode ((Json.object ms).indented 2))) :
    s.loadDocument id = .ok (some (.object ms)) := by
  unfold loadDocument
  rw [Disk.exists?_of_read hread, hread]
  dsimp only
  rw [Text.Utf8.fromUTF8?_encode]
  dsimp only
  rw [Json.parse_indented hexact]

/-- Progress that has been written is loaded. -/
theorem load_of_save (hp : p.IsExact) (h : s.save id p stamp = .ok (true, later)) :
    ∃ q, later.load id = .ok (some q) ∧ p.Same q := by
  obtain ⟨v, hv, hwrite⟩ := save_eq_written h
  obtain ⟨ms, q, hdocument, hexact, hread, hsame⟩ := hp.document stamp
  obtain rfl := Except.ok.inj (hv.symm.trans hdocument)
  have hfound : later.disk.read (later.path id) = _ := path_save h ▸ Disk.read_of_write hwrite
  refine ⟨q, ?_, hsame⟩
  unfold load
  refine bind_eq_ok_iff.2 ⟨_, loadDocument_of_read hexact hfound, ?_⟩
  dsimp only
  rw [hread]
  rfl

end ProgressStore

end PracticeShell
