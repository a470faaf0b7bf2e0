import PracticeShell.Progress.Store
import PracticeShell.Progress.Tracker

/-!
# Following an adventure without a fault

Two things can go wrong after a command: the pattern of a task may be none that can be read, and what
is marked in the progress may have no order when it is saved. If all patterns can be read
(`Task.IsReadable`), nothing that is seen is at fault (`Tracker.fault_record`); if all marks are names
(`Progress.IsNamed`), progress can be saved (`ProgressStore.save_of_isNamed`), and they stay names.
-/

namespace PracticeShell

namespace Task

/-- Whether the pattern of a task, if there is one, is a text that can be read or is malformed. -/
def IsReadable (t : Task) : Prop :=
  t.pattern.isTruthy = true → ∃ text, t.pattern = .string text ∧
    ∀ e, Regex.parse { ignoreCase := true, dotAll := true } text = .error e → e = .malformed

theorem matchesOutput_string_iff (text output : String) :
    (∃ found, matchesOutput (.string text) output = .ok found) ↔
      ∀ e, Regex.parse { ignoreCase := true, dotAll := true } text = .error e → e = .malformed := by
  unfold matchesOutput
  dsimp only
  cases Regex.parse { ignoreCase := true, dotAll := true } text with
  | ok r => exact iff_of_true ⟨_, rfl⟩ nofun
  | error e => cases e <;> simp

/-- Nothing but the pattern of a task can be at fault. -/
theorem evaluate_ok_iff {t : Task} (o : Observation) : (∃ verdict, t.evaluate o = .ok verdict) ↔
    (t.pattern.isTruthy = true → ∃ found, matchesOutput t.pattern o.output = .ok found) := by
  unfold evaluate
  by_cases hpattern : t.pattern.isTruthy = true
  · rw [if_pos hpattern]
    cases matchesOutput t.pattern o.output with
    | error fault => simp [bind, Except.bind, hpattern]
    | ok found =>
        refine iff_of_true ?_ fun _ => ⟨found, rfl⟩
        dsimp only [bind, Except.bind]
        repeat' split
        all_goals exact ⟨_, rfl⟩
  · rw [if_neg hpattern]
    refine iff_of_true ?_ fun h => absurd h hpattern
    dsimp only [bind, Except.bind, pure, Except.pure]
    repeat' split
    all_goals exact ⟨_, rfl⟩

/-- It can be decided whether a task is completed exactly if its pattern can be read. -/
theorem isReadable_iff {t : Task} (o : Observation) :
    t.IsReadable ↔ ∃ verdict, t.evaluate o = .ok verdict := by
  rw [evaluate_ok_iff, IsReadable]
  refine imp_congr_right fun _ => ⟨?_, fun h => ?_⟩
  · rintro ⟨text, hpattern, hreads⟩
    rw [hpattern]
    exact (matchesOutput_string_iff text _).2 hreads
  · cases hpattern : t.pattern with
    | string text =>
        rw [hpattern] at h
        exact ⟨text, rfl, (matchesOutput_string_iff text _).1 h⟩
    | _ => simp [hpattern, matchesOutput] at h

end Task

namespace Marks

/-- Whether all marks are names. -/
def IsNamed (m : Marks) : Prop := ∀ v ∈ m.values, ∃ name, v = .string name

theorem isNamed_empty : empty.IsNamed := nofun

theorem IsNamed.add {m : Marks} (h : m.IsNamed) (name : String) : (m.add name).IsNamed := by
  unfold Marks.add put
  split
  · exact h
  · intro v hv
    rcases List.mem_append.1 hv with hv | hv
    · exact h v hv
    · exact ⟨name, List.mem_singleton.1 hv⟩

theorem insertSorted_of_names {name : String} {l : List Json}
    (h : ∀ v ∈ l, ∃ name, v = .string name) :
    ∃ l', insertSorted (.string name) l = some l' ∧ ∀ v ∈ l', ∃ name, v = .string name := by
  induction l with
  | nil => exact ⟨_, rfl, by simp⟩
  | cons w rest ih =>
      obtain ⟨other, rfl⟩ := h w (by simp)
      obtain ⟨rest', hrest, hnames⟩ := ih fun v hv => h v (by simp [hv])
      have hless : (Json.string name).less (.string other) = some (decide (name < other)) := rfl
      by_cases hbefore : name < other
      · refine ⟨.string name :: .string other :: rest, ?_, ?_⟩
        · simp [insertSorted, hless, hbefore]
        · exact List.forall_mem_cons.2 ⟨⟨name, rfl⟩, h⟩
      · refine ⟨.string other :: rest', ?_, ?_⟩
        · simp [insertSorted, hless, hbefore, hrest]
        · exact List.forall_mem_cons.2 ⟨⟨other, rfl⟩, hnames⟩

/-- Names can be put in order. -/
theorem IsNamed.sorted? {m : Marks} (h : m.IsNamed) : ∃ l, m.sorted? = some l := by
  obtain ⟨values⟩ := m
  have hsorted : ∃ l, values.foldrM insertSorted [] = some l ∧
      ∀ v ∈ l, ∃ name, v = .string name := by
    unfold IsNamed at h
    dsimp only at h
    induction values with
    | nil => exact ⟨[], rfl, by simp⟩
    | cons v values ih =>
        obtain ⟨l, hl, hnames⟩ := ih fun w hw => h w (by simp [hw])
        obtain ⟨name, rfl⟩ := h v (by simp)
        rw [List.foldrM_cons, hl]
        exact insertSorted_of_names hnames
  obtain ⟨l, hl, -⟩ := hsorted
  exact ⟨l, hl⟩

end Marks

namespace Progress

/-- Whether all that is marked in a progress are names. -/
structure IsNamed (p : Progress) : Prop where
  tasks : p.completedTasks.IsNamed
  missions : p.completedMissions.IsNamed

theorem isNamed_start : start.IsNamed := ⟨Marks.isNamed_empty, Marks.isNamed_empty⟩

theorem IsNamed.completeTask {p : Progress} (h : p.IsNamed) (id : String) :
    (p.completeTask id).IsNamed := ⟨h.tasks.add id, h.missions⟩

theorem IsNamed.completeMission {p : Progress} (h : p.IsNamed) (id : String) :
    (p.completeMission id).IsNamed := ⟨h.tasks, h.missions.add id⟩

theorem IsNamed.document {p : Progress} (h : p.IsNamed) (stamp : String) :
    ∃ v, ProgressStore.document p stamp = .ok v := by
  obtain ⟨tasks, htasks⟩ := h.tasks.sorted?
  obtain ⟨missions, hmissions⟩ := h.missions.sorted?
  simp [ProgressStore.document, toJson?, htasks, hmissions]

end Progress

/-- Where all marks are names, progress is saved without a fault. -/
theorem ProgressStore.save_of_isNamed {p : Progress} (h : p.IsNamed) (store : ProgressStore)
    (id stamp : String) : ∃ written, store.save id p stamp = .ok written := by
  obtain ⟨v, hv⟩ := h.document stamp
  unfold save
  rw [hv]
  dsimp only [bind, Except.bind]
  split <;> exact ⟨_, rfl⟩

namespace Tracker

theorem isNamed_moveOn {a : Adventure} {p : Progress} (h : p.IsNamed) (missions : List Mission) :
    (moveOn a p missions).2.IsNamed := by
  induction missions generalizing p with
  | nil => exact h
  | cons m rest ih =>
      unfold moveOn
      split
      · exact h
      · exact ih ⟨(h.completeMission m.id).tasks, (h.completeMission m.id).missions⟩

theorem isNamed_settle {t : Tracker} (h : t.progress.IsNamed) : t.settle.2.progress.IsNamed := by
  have hmoved := isNamed_moveOn (a := t.adventure) (p := { t.progress with
    missionIndex := max 0 (min t.progress.missionIndex t.adventure.missions.length) })
    ⟨h.tasks, h.missions⟩
    (t.adventure.missions.drop (max 0 (min t.progress.missionIndex
      t.adventure.missions.length)).toNat)
  exact ⟨hmoved.tasks, hmoved.missions⟩

theorem isNamed_reset (t : Tracker) : t.reset.progress.IsNamed :=
  isNamed_settle Progress.isNamed_start

theorem isNamed_completeTasks {p : Progress} (h : p.IsNamed) (tasks : List Task) :
    (tasks.foldl (fun p task => p.completeTask task.id) p).IsNamed := by
  induction tasks generalizing p with
  | nil => exact h
  | cons task rest ih => exact ih (h.completeTask task.id)

theorem isNamed_record {t : Tracker} (h : t.progress.IsNamed) (o : Observation) :
    (t.record o).2.progress.IsNamed := by
  unfold record
  split
  · exact h
  · rename_i m _
    have hcompleted := isNamed_completeTasks h (round t.progress o m.tasks).completed
    dsimp only
    split
    · exact hcompleted
    · split
      · exact hcompleted
      · exact isNamed_settle hcompleted

theorem isNamed_hint {t : Tracker} (h : t.progress.IsNamed) (level : Int) :
    (t.hint level).2.progress.IsNamed := by
  unfold hint
  split
  · exact h
  · split
    · exact h
    · split
      · exact h
      · exact ⟨h.tasks, h.missions⟩

theorem fault_round {p : Progress} {tasks : List Task} (h : ∀ task ∈ tasks, task.IsReadable)
    (o : Observation) : (round p o tasks).fault = none := by
  induction tasks with
  | nil => rfl
  | cons task rest ih =>
      have hrest := ih fun t ht => h t (by simp [ht])
      obtain ⟨verdict, hverdict⟩ := (Task.isReadable_iff o).1 (h task (by simp))
      unfold round
      rw [hverdict]
      split
      · exact hrest
      · exact hrest

theorem tasks_of_mission? {t : Tracker} {m : Mission} (h : t.mission? = some m) {task : Task}
    (htask : task ∈ m.tasks) : task ∈ t.adventure.tasks := by
  unfold mission? at h
  split at h
  · cases h
  · exact List.mem_flatMap.2 ⟨m, List.mem_of_getElem? h, htask⟩

/-- Where all patterns can be read, nothing that is seen is at fault. -/
theorem fault_record {t : Tracker} (h : ∀ task ∈ t.adventure.tasks, task.IsReadable)
    (o : Observation) : (t.record o).1.fault = none := by
  unfold record
  split
  · rfl
  · rename_i m hmission
    have hfault := fault_round (p := t.progress)
      (fun task htask => h task (tasks_of_mission? hmission htask)) o
    dsimp only
    rw [hfault]
    dsimp only
    split <;> rfl

end Tracker

end PracticeShell
