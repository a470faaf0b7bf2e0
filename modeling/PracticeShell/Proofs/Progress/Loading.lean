import PracticeShell.Proofs.Progress.Saving

/-!
# Files that cannot be loaded

A file of saved progress can hold anything. Most of what is no progress counts as none, but some of it
is at fault when it is loaded (`ProgressStore.load_ok_iff`), and some of it only when what has been
loaded is saved again (`ProgressStore.save_ok_iff`).
-/

namespace PracticeShell

open Run

namespace Json

variable {v w : Json} {l : List Json}

/-- Whether values are all names or all numbers. -/
def OfOneKind (l : List Json) : Prop :=
  (∀ v ∈ l, ∃ name, v = .string name) ∨ ∀ v ∈ l, v.isNumber = true

theorem isSome_less_iff : (v.less w).isSome ↔ OfOneKind [v, w] := by
  cases v <;> cases w <;> simp [less, isNumber, OfOneKind]

theorem OfOneKind.cons (h : OfOneKind l) (hw : w ∈ l) (hless : (v.less w).isSome) :
    OfOneKind (v :: l) := by
  obtain hpair | hpair := isSome_less_iff.1 hless
  all_goals
    obtain ⟨hv, hpair⟩ := List.forall_mem_cons.1 hpair
    have hwkind := hpair w (.head _)
    obtain hnames | hnumbers := h
  · exact .inl (List.forall_mem_cons.2 ⟨hv, hnames⟩)
  · obtain ⟨name, rfl⟩ := hwkind
    exact absurd (hnumbers _ hw) (by simp [isNumber])
  · obtain ⟨name, rfl⟩ := hnames w hw
    exact absurd hwkind (by simp [isNumber])
  · exact .inr (List.forall_mem_cons.2 ⟨hv, hnumbers⟩)

theorem OfOneKind.isSome_less (h : OfOneKind l) (hv : v ∈ l) (hw : w ∈ l) : (v.less w).isSome := by
  have hpair {p : Json → Prop} (hp : ∀ u ∈ l, p u) : ∀ u ∈ [v, w], p u := by
    simpa using ⟨hp v hv, hp w hw⟩
  exact isSome_less_iff.2 (h.imp hpair hpair)

end Json

namespace Marks

variable {m : Marks} {v : Json} {l : List Json}

/-- Whether the marks can be put in order: there is at most one, or all are names, or all are
numbers. -/
def HasOrder (m : Marks) : Prop := m.count ≤ 1 ∨ Json.OfOneKind m.values

theorem isSome_insertSorted (h : ∀ w ∈ l, (v.less w).isSome) : (insertSorted v l).isSome := by
  induction l with
  | nil => rfl
  | cons w rest ih =>
      obtain ⟨hw, hrest⟩ := List.forall_mem_cons.1 h
      obtain ⟨before, hbefore⟩ := Option.isSome_iff_exists.1 hw
      obtain ⟨later, hlater⟩ := Option.isSome_iff_exists.1 (ih hrest)
      rw [insertSorted, hbefore]
      cases before with
      | true => rfl
      | false => rw [hlater]; rfl

theorem isSome_less_of_insertSorted {w : Json} {rest : List Json}
    (h : (insertSorted v (w :: rest)).isSome) : (v.less w).isSome := by
  rw [insertSorted] at h
  cases hless : v.less w with
  | none => simp [hless] at h
  | some before => rfl

/-- Marks that can all be compared are put in order. -/
theorem isSome_sorted? (h : ∀ v ∈ m.values, ∀ w ∈ m.values, (v.less w).isSome) :
    m.sorted?.isSome := by
  obtain ⟨values⟩ := m
  induction values with
  | nil => rfl
  | cons v vs ih =>
      have hvs := ih fun u hu w hw => h u (.tail _ hu) w (.tail _ hw)
      obtain ⟨l, hl⟩ := Option.isSome_iff_exists.1 hvs
      have hperm := perm_sorted? hl
      rw [sorted?, List.foldrM_cons, ← sorted?.eq_1 ⟨vs⟩, hl]
      exact isSome_insertSorted fun w hw => h v (.head _) w (.tail _ (hperm.mem_iff.1 hw))

theorem HasOrder.isSome_sorted? (h : m.HasOrder) : m.sorted?.isSome := by
  obtain hcount | hkind := h
  · obtain ⟨_ | ⟨v, _ | ⟨w, rest⟩⟩⟩ := m
    · rfl
    · rfl
    · simp [count] at hcount
  · exact Marks.isSome_sorted? fun v hv w hw => hkind.isSome_less hv hw

/-- Each mark that is put in order is compared with one of those that are in order already. -/
theorem hasOrder_of_sorted? (h : m.sorted?.isSome) : m.HasOrder := by
  obtain ⟨values⟩ := m
  induction values with
  | nil => exact .inl (Nat.zero_le 1)
  | cons v vs ih =>
      rw [sorted?, List.foldrM_cons, ← sorted?.eq_1 ⟨vs⟩] at h
      obtain ⟨l, hl⟩ : ∃ l, sorted? ⟨vs⟩ = some l := by
        cases hsorted : sorted? ⟨vs⟩ with
        | none => simp [hsorted] at h
        | some l => exact ⟨l, rfl⟩
      have hperm := perm_sorted? hl
      rw [hl] at h
      -- The new mark is compared with the first, which is of the kind of all others.
      cases l with
      | nil =>
          obtain rfl : vs = [] := hperm.symm.eq_nil
          exact .inl (Nat.le_refl 1)
      | cons w rest =>
          have hw : w ∈ vs := hperm.mem_iff.1 (.head _)
          have hless := isSome_less_of_insertSorted h
          obtain hcount | hkind := ih (hl ▸ rfl)
          · obtain ⟨u, rfl⟩ := List.length_eq_one_iff.1
              (Nat.le_antisymm hcount (List.length_pos_of_mem hw))
            rw [← List.mem_singleton.1 hw]
            exact .inr (Json.isSome_less_iff.1 hless)
          · exact .inr (hkind.cons hw hless)

theorem isSome_sorted?_iff : m.sorted?.isSome ↔ m.HasOrder :=
  ⟨hasOrder_of_sorted?, HasOrder.isSome_sorted?⟩

end Marks

namespace Progress

section Strays

variable {α β : Type} {x : Except Error α} {f : α → Except Error β}

/-- Whether reading ends at a fault that is not expected of documents. -/
def Strays (x : Except Error α) : Prop := ∃ e, x = .error e ∧ e.isExpected = false

theorem not_strays_ok {a : α} : ¬ Strays (Except.ok a : Except Error α) := endsIn_ok_iff.1

theorem strays_bind_iff : Strays (x >>= f) ↔ Strays x ∨ ∃ a, x = .ok a ∧ Strays (f a) :=
  endsIn_bind_iff

end Strays

variable {ms : Json.Members} {name : String}

/-- Whether a member that has to be a whole number is infinite. -/
def IsInfinite (ms : Json.Members) (name : String) : Prop :=
  ((ms.lookup name).getD (.int 0)).toInt = .error .infinite

theorem strays_readIndex_iff : Strays (readIndex ms name) ↔ IsInfinite ms name := by
  unfold readIndex IsInfinite Strays
  cases ((ms.lookup name).getD (.int 0)).toInt with
  | ok n => simp
  | error e => cases e <;> simp [Error.isExpected]

theorem not_strays_readMarks : ¬ Strays (readMarks ms name) := by
  unfold readMarks Strays
  split
  · simp [Error.isExpected]
  · split <;> simp [Error.isExpected]

/-- Whether the first level that is no whole number is infinite. -/
def HasInfiniteLevel (levels : Json.Members) : Prop :=
  ∃ before name v after, levels = before ++ (name, v) :: after ∧ v.toInt = .error .infinite ∧
    ∀ m ∈ before, ∃ level, m.2.toInt = .ok level

theorem hasInfiniteLevel_cons_iff {v : Json} {levels : Json.Members} :
    HasInfiniteLevel ((name, v) :: levels) ↔
      v.toInt = .error .infinite ∨ (∃ level, v.toInt = .ok level) ∧ HasInfiniteLevel levels := by
  constructor
  · rintro ⟨_ | ⟨m, before⟩, other, w, after, heq, hw, hbefore⟩
    · cases heq
      exact .inl hw
    · cases heq
      obtain ⟨hv, hbefore⟩ := List.forall_mem_cons.1 hbefore
      exact .inr ⟨hv, before, other, w, after, rfl, hw, hbefore⟩
  · rintro (hv | ⟨hv, before, other, w, after, rfl, hw, hbefore⟩)
    · exact ⟨[], name, v, levels, rfl, hv, nofun⟩
    · exact ⟨(name, v) :: before, other, w, after, rfl, hw, List.forall_mem_cons.2 ⟨hv, hbefore⟩⟩

theorem strays_readLevels_iff {levels : Json.Members} :
    Strays (readLevels levels) ↔ HasInfiniteLevel levels := by
  induction levels with
  | nil => simp [readLevels, Strays, HasInfiniteLevel]
  | cons m rest ih =>
      obtain ⟨name, v⟩ := m
      rw [hasInfiniteLevel_cons_iff, ← ih, readLevels]
      cases hv : v.toInt with
      | error e => cases e <;> simp [Strays, Error.isExpected]
      | ok level => simp [strays_bind_iff, not_strays_ok, pure, Except.pure]

/-- Whether the levels of hints are at fault: they are neither nothing nor an object, or one of them
is infinite. -/
def HasFaultyHints (ms : Json.Members) : Prop :=
  ((ms.lookup "hintsUsed").getD .null).isTruthy = true ∧
    ∀ levels, (ms.lookup "hintsUsed").getD .null = .object levels → HasInfiniteLevel levels

theorem strays_readHints_iff : Strays (readHints ms) ↔ HasFaultyHints ms := by
  unfold readHints HasFaultyHints
  dsimp only
  cases htruthy : ((ms.lookup "hintsUsed").getD .null).isTruthy with
  | false => simp [not_strays_ok]
  | true =>
      cases (ms.lookup "hintsUsed").getD .null with
      | object levels => simp [strays_readLevels_iff]
      | _ => simp [Strays, Error.isExpected]

/-- Whether an object is at fault when it is read as progress. Its members are read one after the
other, so that a fault counts if what is read before it is in order. -/
def IsFaulty (ms : Json.Members) : Prop :=
  IsInfinite ms "currentMissionIndex" ∨
    (∃ n, readIndex ms "currentMissionIndex" = .ok n) ∧ (IsInfinite ms "currentTaskIndex" ∨
      (∃ n, readIndex ms "currentTaskIndex" = .ok n) ∧
        (∃ m, readMarks ms "completedTasks" = .ok m) ∧
        (∃ m, readMarks ms "completedMissions" = .ok m) ∧ HasFaultyHints ms)

theorem strays_ofJson_iff : Strays (ofJson (.object ms)) ↔ IsFaulty ms := by
  simp only [ofJson, strays_bind_iff, strays_readIndex_iff, not_strays_readMarks,
    strays_readHints_iff, pure, Except.pure, not_strays_ok, IsFaulty, false_or, or_false, and_false,
    exists_false, exists_and_right]

end Progress

namespace ProgressStore

variable {s : ProgressStore} {id stamp : String} {p : Progress}

/-- Whether the contents of a file cannot be read in a way that is not expected of files: they are
not in UTF-8, or they have a number with too many digits or too many containers in each other. -/
def IsUnreadable (bytes : ByteArray) : Prop :=
  String.fromUTF8? bytes = none ∨
    ∃ text e, String.fromUTF8? bytes = some text ∧ Json.parse text = .error e ∧ e ≠ .malformed

theorem loadDocument_ok_iff : (∃ found, s.loadDocument id = .ok found) ↔
    s.disk.read (s.path id) ≠ .error .nameTooLong ∧
      ∀ bytes, s.disk.read (s.path id) = .ok bytes → ¬ IsUnreadable bytes := by
  cases hread : s.disk.read (s.path id) with
  | error e => cases e <;> simp [loadDocument, Disk.exists?, hread]
  | ok bytes =>
      simp only [loadDocument, Disk.exists?_of_read hread, hread, IsUnreadable]
      cases htext : String.fromUTF8? bytes with
      | none => simp [htext]
      | some text =>
          cases hparse : Json.parse text with
          | ok v => cases v <;> simp [htext, hparse]
          | error e => cases e <;> simp [htext, hparse]

theorem object_of_loadDocument {v : Json} (h : s.loadDocument id = .ok (some v)) :
    ∃ ms, v = .object ms := by
  unfold loadDocument at h
  repeat' split at h
  all_goals cases h
  exact ⟨_, rfl⟩

theorem load_ok_iff : (∃ found, s.load id = .ok found) ↔
    ∃ v, s.loadDocument id = .ok v ∧ ∀ ms, v = some (.object ms) → ¬ Progress.IsFaulty ms := by
  cases hdocument : s.loadDocument id with
  | error e => simp [load, hdocument, bind, Except.bind]
  | ok v =>
      cases v with
      | none => simp [load, hdocument, bind, Except.bind, pure, Except.pure]
      | some v =>
          obtain ⟨ms, rfl⟩ := object_of_loadDocument hdocument
          have hfaulty : (∃ found, s.load id = .ok found) ↔
              ¬ Progress.Strays (Progress.ofJson (.object ms)) := by
            simp only [load, hdocument, bind, Except.bind, Progress.Strays]
            cases Progress.ofJson (.object ms) with
            | ok p => simp [pure, Except.pure]
            | error e => cases he : e.isExpected <;> simp [he, pure, Except.pure]
          rw [hfaulty, Progress.strays_ofJson_iff]
          simp

theorem document_ok_iff (p : Progress) (stamp : String) : (∃ v, document p stamp = .ok v) ↔
    p.completedTasks.HasOrder ∧ p.completedMissions.HasOrder := by
  rw [← Marks.isSome_sorted?_iff, ← Marks.isSome_sorted?_iff, document, Progress.toJson?]
  cases p.completedTasks.sorted? with
  | none => simp
  | some tasks => cases p.completedMissions.sorted? <;> simp

theorem save_ok_iff : (∃ r, s.save id p stamp = .ok r) ↔
    p.completedTasks.HasOrder ∧ p.completedMissions.HasOrder := by
  rw [← document_ok_iff p stamp, save]
  cases document p stamp with
  | error e => simp [bind, Except.bind]
  | ok v =>
      refine iff_of_true ?_ ⟨v, rfl⟩
      dsimp only [bind, Except.bind]
      split <;> exact ⟨_, rfl⟩

/-- Loading the document of an adventure comes to an end without a fault exactly if its path is not
too long and its file, if there is one, can be read; loading progress, if moreover the document is not
at fault; and saving progress, if what is marked in it can be put in order. -/
theorem files_are_tolerated_iff (s : ProgressStore) (id : String) :
    ((∃ found, s.loadDocument id = .ok found) ↔
      s.disk.read (s.path id) ≠ .error .nameTooLong ∧
        ∀ bytes, s.disk.read (s.path id) = .ok bytes → ¬ IsUnreadable bytes) ∧
    ((∃ found, s.load id = .ok found) ↔
      ∃ v, s.loadDocument id = .ok v ∧ ∀ ms, v = some (.object ms) → ¬ Progress.IsFaulty ms) ∧
    ∀ p stamp, (∃ r, s.save id p stamp = .ok r) ↔
      p.completedTasks.HasOrder ∧ p.completedMissions.HasOrder :=
  ⟨loadDocument_ok_iff, load_ok_iff, fun _ _ => save_ok_iff⟩

/-- A store with one file. -/
def storeOf (bytes : ByteArray) : ProgressStore :=
  ⟨"/saved", ⟨[], [], [(["saved", "unit.json"], bytes)]⟩⟩

theorem read_storeOf (bytes : ByteArray) :
    (storeOf bytes).disk.read ((storeOf bytes).path "unit") = .ok bytes := by
  have hpath : (storeOf bytes).path "unit" = "/saved/unit.json" := by
    change Path.join "/saved" (safeName "unit" "adventure" ++ ".json") = _
    decide +kernel
  rw [hpath, Disk.read_eq_ok_iff]
  exact ⟨["saved", "unit.json"], rfl, rfl⟩

/-- A document that marks a name and a number. -/
def mixedMembers : Json.Members := [("completedTasks", .array [.string "a", .int 1])]

theorem isExact_mixedMembers : (Json.object mixedMembers).IsExact Json.maxDepth :=
  .object (by simp [mixedMembers]) <| List.forall_mem_singleton.2 <| .array fun v hv => by
    obtain rfl | rfl : v = .string "a" ∨ v = .int 1 := by simpa using hv
    · exact .string "a"
    · exact .int (Nat.one_lt_pow (by decide) (by decide))

/-- A file that is not in UTF-8 cannot be loaded, and a mixture of marks is loaded, but cannot be saved
again. -/
theorem odd_files_are_not_tolerated :
    (storeOf ⟨#[0xFF]⟩).loadDocument "unit" = .error .notUtf8 ∧
    (storeOf ⟨#[0xFF]⟩).load "unit" = .error .notUtf8 ∧
    ∃ p, (storeOf (Text.Utf8.encode ((Json.object mixedMembers).indented 2))).load "unit" =
        .ok (some p) ∧
      ∀ s id stamp, save s id p stamp = .error .unordered := by
  have hbytes : String.fromUTF8? ⟨#[0xFF]⟩ = none := by decide +kernel
  have hdocument : (storeOf ⟨#[0xFF]⟩).loadDocument "unit" = .error .notUtf8 := by
    rw [loadDocument, Disk.exists?_of_read (read_storeOf _), read_storeOf]
    dsimp only
    rw [hbytes]
  refine ⟨hdocument, by rw [load, hdocument]; rfl, ⟨0, 0, ⟨[.string "a", .int 1]⟩, .empty, []⟩, ?_,
    fun s id stamp => rfl⟩
  rw [load, loadDocument_of_read isExact_mixedMembers (read_storeOf _)]
  rfl

end ProgressStore

end PracticeShell
