import PracticeShell.Proofs.Progress
import PracticeShell.Proofs.Tracker.Calls

/-!
# What a run of calls tells

Over a run of calls a tracker tells of the missions between its index at the beginning and its index
at the end, in order, except for those whose name is marked by then, and it tells of the end when
there is no mission left (`Tracker.Announces`). A run that comes to the end has met no fault: a task
that cannot be decided can never be completed (`Tracker.IsStuck`).
-/

namespace PracticeShell

open Run

/-- Whether an event tells of the completion of a mission. -/
def Event.isMission : Event → Bool
  | missionCompleted .. => true
  | _ => false

/-- Whether an event tells of the end of the adventure. -/
def Event.isEnding : Event → Bool
  | adventureCompleted .. => true
  | _ => false

theorem Marks.news_append (marks : Marks) (missions others : List Mission) :
    marks.news (missions ++ others) =
      marks.news missions ++ (marks.addAll (missions.map (·.id))).news others := by
  induction missions generalizing marks with
  | nil => rfl
  | cons m rest ih => simp [news, ih]

namespace Tracker

/-- What a run of calls makes a tracker tell. -/
def toldAll (t : Tracker) : List Call → List Event
  | [] => []
  | c :: calls => t.told c ++ toldAll (t.call c) calls

/-- The missions from the index of one tracker up to that of a later one. -/
def between (t u : Tracker) : List Mission :=
  (t.adventure.missions.take u.progress.missionIndex.toNat).drop t.progress.missionIndex.toNat

/-- Whether what is told on the way from a tracker to a later one is the completion of the missions
between them, and the end if it comes. -/
structure Announces (t u : Tracker) (events : List Event) : Prop where
  marked : u.progress.completedMissions =
    t.progress.completedMissions.addAll ((t.between u).map (·.id))
  missions : events.filter Event.isMission = t.progress.completedMissions.news (t.between u)
  ends : events.filter Event.isEnding = if !t.isComplete && u.isComplete then
    [.adventureCompleted t.adventure.id u.score] else []

theorem between_self (t : Tracker) : t.between t = [] := by
  unfold between
  rw [List.drop_eq_nil_iff, List.length_take]
  omega

/-- Nothing is told where nothing is passed. -/
theorem announces_nothing {t u : Tracker}
    (hindex : u.progress.missionIndex = t.progress.missionIndex)
    (hmarks : u.progress.completedMissions = t.progress.completedMissions)
    (hadventure : u.adventure = t.adventure) : t.Announces u [] := by
  have hbetween : t.between u = [] := by
    unfold between
    rw [hindex]
    exact t.between_self
  have hcomplete : u.isComplete = t.isComplete := by
    unfold isComplete
    rw [hindex, hadventure]
  constructor
  · rw [hbetween, hmarks]
    rfl
  · rw [hbetween]
    rfl
  · rw [hcomplete, Bool.not_and_self]
    rfl

theorem between_append {t u w : Tracker} (hadventure : u.adventure = t.adventure)
    (htu : t.progress.missionIndex ≤ u.progress.missionIndex)
    (huw : u.progress.missionIndex ≤ w.progress.missionIndex) :
    t.between w = t.between u ++ u.between w := by
  unfold between
  rw [hadventure]
  generalize t.adventure.missions = missions
  have hfirst : t.progress.missionIndex.toNat ≤ u.progress.missionIndex.toNat := by omega
  have hsecond : u.progress.missionIndex.toNat ≤ w.progress.missionIndex.toNat := by omega
  generalize t.progress.missionIndex.toNat = i at hfirst
  generalize u.progress.missionIndex.toNat = j at hfirst hsecond
  generalize w.progress.missionIndex.toNat = k at hsecond
  have hsplit : missions.take k = missions.take j ++ (missions.take k).drop j := by
    conv_lhs => rw [← List.take_append_drop j (missions.take k)]
    rw [List.take_take, Nat.min_eq_left hsecond]
  by_cases hj : j ≤ missions.length
  · conv_lhs => rw [hsplit]
    rw [List.drop_append_of_le_length (by rw [List.length_take]; omega)]
  · have hlong : missions.take j = missions := List.take_of_length_le (by omega)
    have hlonger : missions.take k = missions := List.take_of_length_le (by omega)
    rw [hlong, hlonger, List.drop_of_length_le (i := j) (by omega), List.append_nil]

/-- After the end nothing changes and nothing is told. -/
theorem call_of_isComplete {t : Tracker} (hcomplete : t.isComplete = true) (c : Call) :
    t.call c = t ∧ t.told c = [] := by
  have hmission : t.mission? = none := if_pos hcomplete
  cases c with
  | observe o => simp [Tracker.call, told, record, hmission]
  | hint level => simp [Tracker.call, told, hint, task?, hmission]

theorem after_of_isComplete {t : Tracker} (hcomplete : t.isComplete = true) (calls : List Call) :
    t.after calls = t := by
  induction calls with
  | nil => rfl
  | cons c calls ih => rw [after_cons, (call_of_isComplete hcomplete c).1, ih]

theorem filter_ofTask (m : Mission) (added : List Task) :
    (added.map (Event.ofTask m)).filter Event.isMission = [] ∧
      (added.map (Event.ofTask m)).filter Event.isEnding = [] := by
  constructor <;>
  · rw [List.filter_eq_nil_iff]
    intro e he
    obtain ⟨task, -, rfl⟩ := List.mem_map.1 he
    simp [Event.ofTask, Event.isMission, Event.isEnding]

theorem filter_news (marks : Marks) (missions : List Mission) :
    (marks.news missions).filter Event.isMission = marks.news missions ∧
      (marks.news missions).filter Event.isEnding = [] := by
  constructor
  · rw [List.filter_eq_self]
    intro e he
    obtain ⟨m, -, rfl⟩ := exists_of_mem_news he
    rfl
  · rw [List.filter_eq_nil_iff]
    intro e he
    obtain ⟨m, -, rfl⟩ := exists_of_mem_news he
    simp [Event.ofMission, Event.isEnding]

section

variable {t : Tracker} (h : t.IsSettled)

include h

theorem IsSettled.between_settle_completing (tasks : List Task) :
    t.between (t.completing tasks).settle.2 = (t.completing tasks).passing := by
  have hnonneg := h.nonneg
  have hfirst : (t.completing tasks).firstIndex = t.progress.missionIndex := h.firstIndex_eq
  have hindex := (t.completing tasks).settle_missionIndex
  have hnat : (t.completing tasks).settle.2.progress.missionIndex.toNat =
      t.progress.missionIndex.toNat + (t.completing tasks).passing.length := by omega
  have hprefix : (t.completing tasks).passing <+:
      t.adventure.missions.drop t.progress.missionIndex.toNat := by
    rw [← hfirst]
    exact prefix_finished _ _
  unfold between
  rw [hnat, List.drop_take, Nat.add_sub_cancel_left]
  exact (List.prefix_iff_eq_take.1 hprefix).symm

theorem IsSettled.announces_completing {m : Mission} (hm : t.mission? = some m)
    (added : List Task) : t.Announces (t.completing added).settle.2
      (added.map (Event.ofTask m) ++ (t.completing added).settle.1) := by
  have hnot : t.isComplete = false := by
    rw [← Bool.not_eq_true, h.isComplete_iff, hm]
    simp
  have hbetween := h.between_settle_completing added
  rw [h.settle_completing_events hm]
  constructor
  · rw [hbetween, settle_completedMissions]
    rfl
  · rw [List.filter_append, List.filter_append, (filter_ofTask m added).1, (filter_news _ _).1,
      hbetween, List.nil_append]
    split <;> simp [Event.isMission]
  · rw [List.filter_append, List.filter_append, (filter_ofTask m added).2, (filter_news _ _).2,
      hnot, List.nil_append, List.nil_append]
    cases (t.completing added).settle.2.isComplete <;> simp [Event.isEnding]

/-- A call that is taken makes a settled tracker tell of what it passes. -/
theorem IsSettled.announces_call {c : Call} (hc : t.Takes c) :
    t.Announces (t.call c) (t.told c) := by
  cases c with
  | observe o =>
      change t.Announces (t.record o).2 (t.record o).1.events
      rcases record_cases hc with ⟨hnone, hsame⟩ | ⟨m, added, hm, -, -, -, hevents, hlater⟩
      · rw [hnone, hsame]
        exact announces_nothing rfl rfl rfl
      · rw [hevents, hlater]
        exact h.announces_completing hm added
  | hint level =>
      change t.Announces (t.hint level).2 []
      rcases t.hint_cases level with hsame | ⟨task, text, -, hlater⟩
      · rw [hsame]
        exact announces_nothing rfl rfl rfl
      · rw [hlater]
        exact announces_nothing rfl rfl rfl

theorem IsSettled.announces_all {calls : List Call} (hcalls : t.TakesAll calls) :
    t.Announces (t.after calls) (t.toldAll calls) := by
  induction calls generalizing t with
  | nil => exact announces_nothing rfl rfl rfl
  | cons c calls ih =>
      obtain ⟨hsettled, hwithin⟩ := h.call hcalls.1
      obtain ⟨-, hlater⟩ := hsettled.after hcalls.2
      have hfirst := h.announces_call hcalls.1
      have hrest := ih hsettled hcalls.2
      have hadventure := adventure_call t c
      have hbetween : t.between ((t.call c).after calls) =
          t.between (t.call c) ++ (t.call c).between ((t.call c).after calls) :=
        between_append hadventure hwithin.missionIndex hlater.missionIndex
      rw [after_cons, toldAll]
      constructor
      · rw [hrest.marked, hfirst.marked, hbetween, List.map_append, Marks.addAll_append]
      · rw [List.filter_append, hfirst.missions, hrest.missions, hfirst.marked, hbetween,
          Marks.news_append]
      · rw [List.filter_append, hfirst.ends, hrest.ends, hadventure]
        -- the end is told of by the call that comes to it, and nothing changes afterwards
        by_cases hend : (t.call c).isComplete = true
        · rw [after_of_isComplete hend, hend]
          simp
        · have hopen : ¬ t.isComplete = true := by
            intro hover
            rw [(call_of_isComplete hover c).1] at hend
            exact hend hover
          rw [Bool.not_eq_true] at hend hopen
          rw [hopen, hend]
          simp

end

/-- Whether a task of the open mission is not completed and can never be. -/
def IsStuck (t : Tracker) : Prop :=
  ∃ m, t.mission? = some m ∧ ∃ task ∈ m.tasks,
    ¬ t.progress.completedTasks.contains task.id = true ∧ ¬ task.IsReadable

section Round

variable {p : Progress} {o : Observation} {tasks : List Task}

/-- A look at the tasks is at fault if one of them that is open can never be decided. -/
theorem exists_fault_iff : (∃ fault, (round p o tasks).fault = some fault) ↔
    ∃ task ∈ tasks, ¬ p.completedTasks.contains task.id = true ∧ ¬ task.IsReadable := by
  induction tasks with
  | nil => simp [round]
  | cons first rest ih =>
      by_cases hfirst : p.completedTasks.contains first.id = true
      · simp [round, hfirst, ih]
      · cases heval : first.evaluate o with
        | error fault =>
            have hunreadable : ¬ first.IsReadable := by
              rw [Task.isReadable_iff o, heval]
              simp
            refine iff_of_true ⟨fault, ?_⟩ ⟨first, List.mem_cons_self, hfirst, hunreadable⟩
            simp [round, hfirst, heval]
        | ok verdict =>
            have hreadable : first.IsReadable := (Task.isReadable_iff o).2 ⟨verdict, heval⟩
            simp [round, hfirst, heval, ih, hreadable]

theorem isReadable_of_mem_completed {task : Task} (h : task ∈ (round p o tasks).completed) :
    task.IsReadable := by
  induction tasks with
  | nil => cases h
  | cons first rest ih =>
      unfold round at h
      split at h
      · exact ih h
      · split at h
        · cases h
        · rename_i verdict hverdict
          rcases List.mem_append.1 h with hhead | hrest
          · split at hhead
            · rw [List.mem_singleton.1 hhead]
              exact (Task.isReadable_iff o).2 ⟨verdict, hverdict⟩
            · cases hhead
          · exact ih hrest

end Round

/-- The fault of an observation is that of a look at the tasks of the open mission. -/
theorem record_fault {t : Tracker} {o : Observation} {m : Mission} (hm : t.mission? = some m) :
    (t.record o).1.fault = (round t.progress o m.tasks).fault := by
  cases hfault : (round t.progress o m.tasks).fault with
  | some fault => simp [record, hm, hfault]
  | none =>
      simp only [record, hm, hfault]
      split <;> rfl

theorem record_of_fault {t : Tracker} {o : Observation} {m : Mission} {fault : Task.Fault}
    (hm : t.mission? = some m) (h : (round t.progress o m.tasks).fault = some fault) :
    (t.record o).1.fault = some fault ∧
      (t.record o).2 = t.completing (round t.progress o m.tasks).completed := by
  simp [record, hm, h, foldl_completeTask, completing]

theorem mem_of_mission? {t : Tracker} {m : Mission} (h : t.mission? = some m) :
    m ∈ t.adventure.missions := by
  unfold mission? at h
  split at h
  · cases h
  · exact List.mem_of_getElem? h

theorem IsStuck.not_isComplete {t : Tracker} (h : t.IsStuck) : ¬ t.isComplete = true := by
  obtain ⟨m, hm, -⟩ := h
  intro hcomplete
  rw [mission?, if_pos hcomplete] at hm
  cases hm

/-- An observation is at fault exactly if an open task of the open mission can never be completed. -/
theorem exists_fault_record_iff {t : Tracker} {o : Observation} :
    (∃ fault, (t.record o).1.fault = some fault) ↔ t.IsStuck := by
  unfold IsStuck
  cases hm : t.mission? with
  | none => simp [record, hm]
  | some m => simp [record_fault hm, exists_fault_iff]

theorem isStuck_of_not_takes {t : Tracker} {c : Call} (h : ¬ t.Takes c) : t.IsStuck := by
  cases c with
  | observe o => exact exists_fault_record_iff.1 (Option.ne_none_iff_exists'.1 h)
  | hint level => exact absurd trivial h

section

variable {t : Tracker} (hids : (Adventure.taskIds t.adventure.missions).Nodup)

include hids

/-- What can never be completed stays open. -/
theorem IsStuck.call (h : t.IsStuck) (c : Call) : (t.call c).IsStuck := by
  obtain ⟨m, hm, task, htask, hopen, hunreadable⟩ := h
  cases c with
  | observe o =>
      obtain ⟨fault, hfault⟩ := (exists_fault_iff (o := o)).2 ⟨task, htask, hopen, hunreadable⟩
      change (t.record o).2.IsStuck
      rw [(record_of_fault hm hfault).2]
      refine ⟨m, hm, task, htask, fun hcontains => ?_, hunreadable⟩
      rcases Marks.contains_addAll.1 hcontains with hbefore | hadded
      · exact hopen hbefore
      · -- the tasks that have been completed can be decided, and no two tasks share a name
        obtain ⟨other, hother, hsame⟩ := List.mem_map.1 hadded
        have hmission := Adventure.nodup_of_mem_missions hids (mem_of_mission? hm)
        have heq : other = task := List.inj_on_of_nodup_map hmission
          (round_completed_sublist.subset hother) htask hsame
        exact hunreadable (heq ▸ isReadable_of_mem_completed hother)
  | hint level =>
      change (t.hint level).2.IsStuck
      rcases t.hint_cases level with hsame | ⟨other, text, -, hlater⟩
      · rw [hsame]
        exact ⟨m, hm, task, htask, hopen, hunreadable⟩
      · rw [hlater]
        exact ⟨m, hm, task, htask, hopen, hunreadable⟩

theorem IsStuck.after (h : t.IsStuck) (calls : List Call) : (t.after calls).IsStuck := by
  induction calls generalizing t with
  | nil => exact h
  | cons c calls ih =>
      have hlater : (Adventure.taskIds (t.call c).adventure.missions).Nodup := by
        rwa [adventure_call]
      exact ih hlater (h.call hids c)

/-- A run that comes to the end has met no fault. -/
theorem takesAll_of_isComplete {calls : List Call} (h : (t.after calls).isComplete = true) :
    t.TakesAll calls := by
  induction calls generalizing t with
  | nil => trivial
  | cons c calls ih =>
      have hlater : (Adventure.taskIds (t.call c).adventure.missions).Nodup := by
        rwa [adventure_call]
      constructor
      · by_contra hfault
        exact ((isStuck_of_not_takes hfault).after hids (c :: calls)).not_isComplete h
      · exact ih hlater h

end

end Tracker

end PracticeShell
