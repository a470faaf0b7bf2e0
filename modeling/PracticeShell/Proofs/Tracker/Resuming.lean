import PracticeShell.Proofs.Progress.Saving
import PracticeShell.Proofs.Tracker.Finishing

/-!
# Going on from where one was

A settled tracker whose index of the open task is right is at rest (`Tracker.IsAtRest`): to settle
down once more changes nothing. Calls that are taken leave a tracker at rest with a sound progress
(`Tracker.IsSound.after`), and so the progress of a tracker is the one that a tracker goes on with when
it is loaded (`Tracker.IsAtRest.resume_eq`).
-/

namespace PracticeShell

namespace Progress

theorem Same.contains {p q : Progress} (h : p.Same q) (name : String) :
    q.completedTasks.contains name = p.completedTasks.contains name := by
  rw [Bool.eq_iff_iff, Marks.contains_iff, Marks.contains_iff]
  exact h.completedTasks.mem_iff

theorem mem_setHint {id : String} {level : Int} {hints : List (String × Int)}
    {hint : String × Int} (h : hint ∈ setHint id level hints) :
    hint = (id, level) ∨ hint ∈ hints := by
  induction hints with
  | nil => exact .inl (List.mem_singleton.1 h)
  | cons first rest ih =>
      unfold setHint at h
      by_cases hfirst : first.1 = id
      · rw [if_pos hfirst, hfirst] at h
        exact (List.mem_cons.1 h).imp_right (List.mem_cons_of_mem _)
      · rw [if_neg hfirst] at h
        rcases List.mem_cons.1 h with rfl | hrest
        · exact .inr List.mem_cons_self
        · exact (ih hrest).imp_right (List.mem_cons_of_mem _)

theorem IsSound.isShort_hintLevel {p : Progress} (h : p.IsSound) (id : String) :
    IsShort (p.hintLevel id) := by
  unfold hintLevel
  cases hlevel : p.hintsUsed.lookup id with
  | none => exact isShort_of_lt_ten (by decide)
  | some level =>
      obtain ⟨before, rest, hhints, -⟩ := List.lookup_eq_some_iff.1 hlevel
      have hmem : (id, level) ∈ p.hintsUsed := by simp [hhints]
      exact h.levels _ hmem

theorem IsSound.seeHint {p : Progress} (h : p.IsSound) (id : String) {level : Int}
    (hlevel : IsShort level) : (p.seeHint id level).IsSound := by
  refine ⟨⟨h.isNamed.tasks, h.isNamed.missions⟩, h.nodup_tasks, h.nodup_missions,
    nodup_setHint h.nodup_hints, fun hint hhint => ?_⟩
  rcases mem_setHint hhint with rfl | hbefore
  · change IsShort (max level (p.hintLevel id))
    rcases max_choice level (p.hintLevel id) with hmax | hmax
    · rwa [hmax]
    · rw [hmax]
      exact h.isShort_hintLevel id
  · exact h.levels hint hbefore

end Progress

namespace Tracker

variable {t : Tracker} {a : Adventure} {p q : Progress}

/-- The tasks of the open mission. -/
def openTasks (t : Tracker) : List Task := (t.mission?.map (·.tasks)).getD []

/-- Whether a tracker is settled and its open task is the first one that is not completed, or the
first place if no mission is left. -/
structure IsAtRest (t : Tracker) : Prop where
  isSettled : t.IsSettled
  taskIndex_eq : t.progress.taskIndex = openTask t.progress t.openTasks

theorem isAtRest_settle (t : Tracker) : t.settle.2.IsAtRest := by
  have hsettled := isSettled_settle t
  refine ⟨hsettled, ?_⟩
  unfold openTasks
  cases hm : t.settle.2.mission? with
  | some m => exact hsettled.taskIndex_eq m hm
  | none =>
      rw [mission?_eq _ hsettled.nonneg] at hm
      unfold settle at hm ⊢
      dsimp only at hm ⊢
      rw [hm]
      rfl

theorem IsAtRest.passing_eq_nil (h : t.IsAtRest) : t.passing = [] := by
  unfold passing upcoming finished
  rw [h.isSettled.firstIndex_eq]
  cases hmissions : t.adventure.missions.drop t.progress.missionIndex.toNat with
  | nil => rfl
  | cons m rest =>
      have hm : t.mission? = some m := by
        rw [mission?_eq t h.isSettled.nonneg, ← List.head?_drop, hmissions, List.head?_cons]
      exact List.takeWhile_cons_of_neg (by simp [h.isSettled.unfinished m hm])

/-- To settle down once more changes nothing. -/
theorem IsAtRest.settle_eq (h : t.IsAtRest) : t.settle.2 = t := by
  obtain ⟨taskIndex, hprogress⟩ := t.settle_progress
  have hunsettled : t.unsettled = t.progress := by
    unfold unsettled
    rw [h.isSettled.firstIndex_eq]
  rw [h.passing_eq_nil, pass_nil, hunsettled] at hprogress
  have hsame : t.settle.2 = { t with progress := { t.progress with taskIndex } } := by
    rw [← hprogress]
    rfl
  have hplace := (isAtRest_settle t).taskIndex_eq
  rw [hsame] at hplace ⊢
  have htask : taskIndex = t.progress.taskIndex := hplace.trans h.taskIndex_eq.symm
  rw [htask]

theorem isFinished_same (h : p.Same q) (m : Mission) : isFinished q m = isFinished p m := by
  unfold isFinished
  simp only [h.contains]

theorem openTask_same (h : p.Same q) (tasks : List Task) : openTask q tasks = openTask p tasks := by
  unfold openTask
  simp only [h.contains]

theorem IsAtRest.same (hrest : IsAtRest ⟨a, p⟩) (h : p.Same q) : IsAtRest ⟨a, q⟩ := by
  have hmission : mission? ⟨a, q⟩ = mission? ⟨a, p⟩ := by
    unfold mission? isComplete
    rw [h.missionIndex]
  constructor
  · constructor
    · change 0 ≤ q.missionIndex
      rw [h.missionIndex]
      exact hrest.isSettled.nonneg
    · change q.missionIndex ≤ a.missions.length
      rw [h.missionIndex]
      exact hrest.isSettled.le_length
    · intro m hm
      rw [hmission] at hm
      exact (isFinished_same h m).trans (hrest.isSettled.unfinished m hm)
    · intro m hm
      rw [hmission] at hm
      change q.taskIndex = openTask q m.tasks
      rw [h.taskIndex, openTask_same h]
      exact hrest.isSettled.taskIndex_eq m hm
  · unfold openTasks
    rw [hmission]
    change q.taskIndex = openTask q _
    rw [h.taskIndex, openTask_same h]
    exact hrest.taskIndex_eq

/-- A tracker that goes on from the progress of a tracker at rest goes on with that progress. -/
theorem IsAtRest.resume_eq (hrest : IsAtRest ⟨a, p⟩) (h : p.Same q) : resume a q = ⟨a, q⟩ :=
  (hrest.same h).settle_eq

theorem isSound_completing (h : t.progress.IsSound) (tasks : List Task) :
    (t.completing tasks).progress.IsSound := by
  rw [completing, ← foldl_completeTask]
  refine ⟨isNamed_completeTasks h.isNamed tasks, ?_, ?_, ?_, ?_⟩
  all_goals rw [foldl_completeTask]
  · exact Marks.nodup_addAll h.nodup_tasks _
  · exact h.nodup_missions
  · exact h.nodup_hints
  · exact h.levels

theorem isSound_settle (h : t.progress.IsSound) : t.settle.2.progress.IsSound := by
  constructor
  · exact isNamed_settle h.isNamed
  · rw [settle_completedTasks]
    exact h.nodup_tasks
  · rw [settle_completedMissions]
    exact Marks.nodup_addAll h.nodup_missions _
  · rw [settle_hintsUsed]
    exact h.nodup_hints
  · rw [settle_hintsUsed]
    exact h.levels

/-- Hints are shown for the levels that can be asked for only. -/
theorem mem_hintLevels_of_hint {level : Int} (h : (t.hint level).1.isSome = true) :
    level ∈ hintLevels := by
  unfold hint at h
  split at h
  · cases h
  · split at h
    · cases h
    · rename_i hlevel
      simpa using hlevel

/-- Whether a tracker is at rest with a sound progress. -/
structure IsSound (t : Tracker) : Prop where
  isAtRest : t.IsAtRest
  progress : t.progress.IsSound

theorem isSound_start (a : Adventure) : (start a).IsSound :=
  ⟨isAtRest_settle _, isSound_settle Progress.isSound_start⟩

theorem IsSound.call (h : t.IsSound) {c : Call} (hc : t.Takes c) : (t.call c).IsSound := by
  cases c with
  | observe o =>
      change (t.record o).2.IsSound
      rcases record_cases hc with ⟨-, hsame⟩ | ⟨m, added, -, -, -, -, -, hlater⟩
      · rwa [hsame]
      · rw [hlater]
        exact ⟨isAtRest_settle _, isSound_settle (isSound_completing h.progress added)⟩
  | hint level =>
      change (t.hint level).2.IsSound
      rcases t.hint_cases level with hsame | ⟨task, text, -, hlater⟩
      · rwa [hsame]
      · have hlevel : level ∈ hintLevels := mem_hintLevels_of_hint (by rw [hlater]; rfl)
        have hshort : Progress.IsShort level := by
          have hcases : level = 1 ∨ level = 2 ∨ level = 3 := by simpa [hintLevels] using hlevel
          exact Progress.isShort_of_lt_ten (by omega)
        rw [hlater]
        exact ⟨⟨h.isAtRest.isSettled.seeHint _ _, h.isAtRest.taskIndex_eq⟩,
          h.progress.seeHint task.id hshort⟩

theorem IsSound.after (h : t.IsSound) {calls : List Call} (hcalls : t.TakesAll calls) :
    (t.after calls).IsSound := by
  induction calls generalizing t with
  | nil => exact h
  | cons c calls ih => exact ih (h.call hcalls.1) hcalls.2

end Tracker

/-- Whether the missions of an adventure and the tasks of each can be counted by numbers that have
few enough digits to be read. -/
structure Adventure.IsCountable (a : Adventure) : Prop where
  missions : Progress.IsShort a.missions.length
  tasks : ∀ m ∈ a.missions, Progress.IsShort m.tasks.length

namespace Tracker

theorem openTask_le (p : Progress) (tasks : List Task) : openTask p tasks ≤ tasks.length := by
  unfold openTask
  cases hfirst : tasks.findIdx? fun task => !p.completedTasks.contains task.id with
  | none => exact Nat.zero_le _
  | some i => exact Nat.le_of_lt (List.findIdx?_eq_some_iff_findIdx_eq.1 hfirst).1

/-- The progress of a sound tracker is read back as it is. -/
theorem IsSound.isExact {t : Tracker} (h : t.IsSound) (ha : t.adventure.IsCountable) :
    t.progress.IsExact := by
  have hmissions := ha.missions
  have hnonneg := h.isAtRest.isSettled.nonneg
  have hle := h.isAtRest.isSettled.le_length
  have htasks : Progress.IsShort t.openTasks.length := by
    unfold openTasks
    cases hm : t.mission? with
    | none => exact Progress.isShort_of_lt_ten (by decide)
    | some m => exact ha.tasks m (mem_of_mission? hm)
  have hplace := openTask_le t.progress t.openTasks
  have hindex := h.isAtRest.taskIndex_eq
  unfold Progress.IsShort at hmissions htasks
  refine ⟨h.progress, ?_, ?_⟩
  · unfold Progress.IsShort
    omega
  · unfold Progress.IsShort
    omega

end Tracker

end PracticeShell
