import Mathlib.Data.List.TakeWhile
import PracticeShell.Progress.Basic
import PracticeShell.Progress.Tracker

/-!
# Marking names and settling down

A name is marked if it is among the marks as a text; no other value counts as a name
(`Marks.contains_iff`). Marking names puts those that are not marked yet behind the marks
(`Marks.values_addAll`), so that marks are never taken away.

`Tracker.settle` passes over the missions that are finished, one after the other. Which ones they
are is known beforehand, as passing a mission completes no task (`Tracker.moveOn_eq`). Afterwards
the tracker is settled: its index is that of a mission that is not finished, or of none, and its
open task is the first one that is not completed (`Tracker.IsSettled`).
-/

namespace PracticeShell

theorem Json.same_string_iff {name : String} {v : Json} :
    (Json.string name).same v = true ↔ v = .string name := by
  cases v with
  | string other =>
      change (name == other) = true ↔ _
      rw [beq_iff_eq, Json.string.injEq, eq_comm]
  | _ => simp [same, dyadic?]

namespace Marks

theorem contains_iff {m : Marks} {name : String} :
    m.contains name = true ↔ .string name ∈ m.values := by
  unfold contains holds
  rw [List.any_eq_true]
  constructor
  · rintro ⟨v, hv, hsame⟩
    rwa [← Json.same_string_iff.1 hsame]
  · intro hname
    exact ⟨_, hname, Json.same_string_iff.2 rfl⟩

theorem add_of_contains {m : Marks} {name : String} (h : m.contains name = true) :
    m.add name = m := if_pos h

theorem values_add_of_not_contains {m : Marks} {name : String} (h : ¬ m.contains name = true) :
    (m.add name).values = m.values ++ [.string name] := congrArg values (if_neg h)

theorem contains_add {m : Marks} {name other : String} :
    (m.add name).contains other = true ↔ m.contains other = true ∨ other = name := by
  by_cases hname : m.contains name = true
  · rw [add_of_contains hname]
    constructor
    · exact .inl
    · rintro (hother | rfl)
      · exact hother
      · exact hname
  · rw [contains_iff, values_add_of_not_contains hname, List.mem_append, List.mem_singleton,
      Json.string.injEq, contains_iff]

/-- The marks after some names are marked one after the other. -/
def addAll (m : Marks) (names : List String) : Marks := names.foldl add m

@[simp]
theorem addAll_nil (m : Marks) : m.addAll [] = m := rfl

@[simp]
theorem addAll_cons (m : Marks) (name : String) (names : List String) :
    m.addAll (name :: names) = (m.add name).addAll names := rfl

theorem addAll_append (m : Marks) (names others : List String) :
    m.addAll (names ++ others) = (m.addAll names).addAll others := List.foldl_append

theorem contains_addAll {m : Marks} {names : List String} {other : String} :
    (m.addAll names).contains other = true ↔ m.contains other = true ∨ other ∈ names := by
  induction names generalizing m with
  | nil => simp
  | cons name rest ih => rw [addAll_cons, ih, contains_add, List.mem_cons, or_assoc]

theorem prefix_values_addAll (m : Marks) (names : List String) :
    m.values <+: (m.addAll names).values := by
  induction names generalizing m with
  | nil => exact List.prefix_rfl
  | cons name rest ih =>
      have hadd : m.values <+: (m.add name).values := by
        by_cases hname : m.contains name = true
        · exact (add_of_contains hname).symm ▸ List.prefix_rfl
        · rw [values_add_of_not_contains hname]
          exact List.prefix_append _ _
      exact hadd.trans (ih (m.add name))

/-- New names that are all different are put behind the marks as they come. -/
theorem values_addAll {m : Marks} {names : List String} (hnames : names.Nodup)
    (hnew : ∀ name ∈ names, ¬ m.contains name = true) :
    (m.addAll names).values = m.values ++ names.map .string := by
  induction names generalizing m with
  | nil => simp
  | cons name rest ih =>
      have hrest : ∀ other ∈ rest, ¬ (m.add name).contains other = true := by
        intro other hother hcontains
        rcases contains_add.1 hcontains with hbefore | rfl
        · exact hnew other (List.mem_cons_of_mem _ hother) hbefore
        · exact (List.nodup_cons.1 hnames).1 hother
      rw [addAll_cons, ih (List.nodup_cons.1 hnames).2 hrest,
        values_add_of_not_contains (hnew name List.mem_cons_self), List.append_assoc]
      rfl

end Marks

/-- The event that tells of the completion of a mission. -/
def Event.ofMission (m : Mission) : Event := .missionCompleted m.id m.title m.onComplete

/-- What is told when missions are completed one after the other: a mission whose name is marked is
passed over in silence. -/
def Marks.news (marks : Marks) : List Mission → List Event
  | [] => []
  | m :: rest =>
    (if marks.contains m.id then [] else [Event.ofMission m]) ++ news (marks.add m.id) rest

/-- The progress of a learner who has passed some missions. -/
def Progress.pass (p : Progress) (missions : List Mission) : Progress :=
  { p with
    missionIndex := p.missionIndex + missions.length
    completedMissions := p.completedMissions.addAll (missions.map (·.id)) }

namespace Tracker

/-- The missions that are finished, up to the first one that is not. -/
def finished (p : Progress) (missions : List Mission) : List Mission :=
  missions.takeWhile (isFinished p)

/-- What is told when no mission is left after the finished ones. -/
def ending (a : Adventure) (p : Progress) (missions : List Mission) : List Event :=
  if missions.isEmpty = false ∧ missions.all (isFinished p) = true then
    [.adventureCompleted a.id (scoreOf a.missions.length (p.pass missions))]
  else []

/-- The progress of a learner who has passed one mission. -/
def passOne (p : Progress) (m : Mission) : Progress :=
  { p.completeMission m.id with missionIndex := p.missionIndex + 1 }

theorem pass_nil (p : Progress) : p.pass [] = p := by simp [Progress.pass]

theorem pass_cons (p : Progress) (m : Mission) (rest : List Mission) :
    p.pass (m :: rest) = (passOne p m).pass rest := by
  simp [Progress.pass, passOne, Progress.completeMission]
  omega

theorem ending_cons {a : Adventure} {p : Progress} {m : Mission} {rest : List Mission}
    (hm : isFinished p m = true) : ending a p (m :: rest) =
      (if rest.isEmpty then [.adventureCompleted a.id (scoreOf a.missions.length (passOne p m))]
        else []) ++ ending a (passOne p m) rest := by
  cases rest with
  | nil => simp [ending, hm, pass_cons, pass_nil]
  | cons n rest =>
      have hsame : isFinished (passOne p m) = isFinished p := rfl
      simp [ending, hm, hsame, pass_cons]

theorem moveOn_eq (a : Adventure) (p : Progress) (missions : List Mission) :
    moveOn a p missions = (p.completedMissions.news (finished p missions) ++ ending a p missions,
      p.pass (finished p missions)) := by
  induction missions generalizing p with
  | nil => simp [moveOn, finished, ending, Marks.news, pass_nil]
  | cons m rest ih =>
      by_cases hm : isFinished p m = true
      · have hfinished : finished p (m :: rest) = m :: finished (passOne p m) rest :=
          List.takeWhile_cons_of_pos hm
        have hmove : moveOn a p (m :: rest) =
            ((if p.completedMissions.contains m.id then [] else [Event.ofMission m]) ++
              (if rest.isEmpty then
                [.adventureCompleted a.id (scoreOf a.missions.length (passOne p m))] else []) ++
              (moveOn a (passOne p m) rest).1, (moveOn a (passOne p m) rest).2) := by
          rw [moveOn, if_neg (by simp [hm])]
          rfl
        rw [hmove, ih, hfinished, pass_cons, ending_cons hm]
        cases rest with
        | nil => simp [finished, Marks.news, ending]
        | cons n rest => simp [Marks.news, passOne, Progress.completeMission]
      · have hfinished : finished p (m :: rest) = [] := List.takeWhile_cons_of_neg hm
        simp [moveOn, hm, hfinished, ending, Marks.news, pass_nil]

theorem prefix_finished (p : Progress) (missions : List Mission) :
    finished p missions <+: missions := List.takeWhile_prefix _

/-- The mission that comes after the finished ones is not finished. -/
theorem isFinished_of_getElem? {p : Progress} {missions : List Mission} {m : Mission}
    (h : missions[(finished p missions).length]? = some m) : isFinished p m = false := by
  have hparts : finished p missions ++ missions.dropWhile (isFinished p) = missions :=
    List.takeWhile_append_dropWhile
  have hhead : (missions.dropWhile (isFinished p)).head? = some m := by
    rw [← hparts, List.getElem?_append_right (by rw [hparts])] at h
    rw [hparts, Nat.sub_self] at h
    rwa [List.head?_eq_getElem?]
  have hnot := List.head?_dropWhile_not (isFinished p) missions
  rwa [hhead] at hnot

theorem settle_adventure (t : Tracker) : t.settle.2.adventure = t.adventure := rfl

theorem record_adventure (t : Tracker) (o : Observation) :
    (t.record o).2.adventure = t.adventure := by
  unfold record
  split
  · rfl
  · dsimp only
    split
    · rfl
    · split <;> rfl

theorem hint_adventure (t : Tracker) (level : Int) : (t.hint level).2.adventure = t.adventure := by
  unfold hint
  split
  · rfl
  · split
    · rfl
    · split <;> rfl

section

variable (t : Tracker)

/-- The index from which a tracker settles down. -/
def firstIndex : Int := max 0 (min t.progress.missionIndex t.adventure.missions.length)

/-- The progress from which a tracker settles down. -/
def unsettled : Progress := { t.progress with missionIndex := t.firstIndex }

/-- The missions from which a tracker settles down. -/
def upcoming : List Mission := t.adventure.missions.drop t.firstIndex.toNat

/-- The missions that a tracker passes as it settles down. -/
def passing : List Mission := finished t.progress t.upcoming

theorem settle_events : t.settle.1 =
    t.progress.completedMissions.news t.passing ++ ending t.adventure t.unsettled t.upcoming := by
  unfold settle
  dsimp only
  rw [moveOn_eq]
  rfl

theorem settle_progress : ∃ taskIndex, t.settle.2.progress =
    { t.unsettled.pass t.passing with taskIndex } := by
  unfold settle
  dsimp only
  rw [moveOn_eq]
  exact ⟨_, rfl⟩

theorem firstIndex_nonneg : 0 ≤ t.firstIndex := by
  unfold firstIndex
  omega

theorem firstIndex_le : t.firstIndex ≤ t.adventure.missions.length := by
  unfold firstIndex
  omega

theorem length_passing_le :
    t.firstIndex + t.passing.length ≤ t.adventure.missions.length := by
  have hpassing : t.passing.length ≤ t.upcoming.length := (prefix_finished _ _).length_le
  have hupcoming : t.upcoming.length = t.adventure.missions.length - t.firstIndex.toNat :=
    List.length_drop
  have hnonneg := t.firstIndex_nonneg
  have hle := t.firstIndex_le
  omega

theorem settle_missionIndex :
    t.settle.2.progress.missionIndex = t.firstIndex + t.passing.length := by
  obtain ⟨taskIndex, hprogress⟩ := t.settle_progress
  rw [hprogress]
  rfl

theorem settle_completedTasks : t.settle.2.progress.completedTasks = t.progress.completedTasks := by
  obtain ⟨taskIndex, hprogress⟩ := t.settle_progress
  rw [hprogress]
  rfl

theorem settle_hintsUsed : t.settle.2.progress.hintsUsed = t.progress.hintsUsed := by
  obtain ⟨taskIndex, hprogress⟩ := t.settle_progress
  rw [hprogress]
  rfl

theorem settle_completedMissions : t.settle.2.progress.completedMissions =
    t.progress.completedMissions.addAll (t.passing.map (·.id)) := by
  obtain ⟨taskIndex, hprogress⟩ := t.settle_progress
  rw [hprogress]
  rfl

end

/-- Whether the index of a tracker is that of a mission that is not finished, or of none, and its
open task is the first one that is not completed. -/
structure IsSettled (t : Tracker) : Prop where
  nonneg : 0 ≤ t.progress.missionIndex
  le_length : t.progress.missionIndex ≤ t.adventure.missions.length
  unfinished : ∀ m, t.mission? = some m → isFinished t.progress m = false
  taskIndex_eq : ∀ m, t.mission? = some m → t.progress.taskIndex = openTask t.progress m.tasks

theorem mission?_eq (t : Tracker) (h : 0 ≤ t.progress.missionIndex) :
    t.mission? = t.adventure.missions[t.progress.missionIndex.toNat]? := by
  unfold mission? isComplete
  by_cases hcomplete : t.progress.missionIndex ≥ t.adventure.missions.length
  · rw [if_pos (by simpa using hcomplete), List.getElem?_eq_none (by omega)]
  · rw [if_neg (by simpa using hcomplete)]

theorem isSettled_settle (t : Tracker) : t.settle.2.IsSettled := by
  have hnonneg := t.firstIndex_nonneg
  have hle := t.length_passing_le
  have hindex := t.settle_missionIndex
  have hplace : ∀ m, t.settle.2.mission? = some m →
      t.upcoming[t.passing.length]? = some m := by
    intro m hm
    have hsum : t.settle.2.progress.missionIndex.toNat = t.firstIndex.toNat + t.passing.length := by
      omega
    rw [mission?_eq _ (by omega), hsum] at hm
    exact List.getElem?_drop.trans hm
  constructor
  · omega
  · change t.settle.2.progress.missionIndex ≤ t.adventure.missions.length
    omega
  · intro m hm
    have hunfinished : isFinished t.progress m = false := isFinished_of_getElem? (hplace m hm)
    unfold isFinished at hunfinished ⊢
    rwa [settle_completedTasks]
  · intro m hm
    rw [mission?_eq _ (by omega)] at hm
    unfold settle at hm ⊢
    dsimp only at hm ⊢
    rw [hm]
    rfl

theorem settle_isComplete (t : Tracker) :
    t.settle.2.isComplete = true ↔ t.passing.length = t.upcoming.length := by
  have hnonneg := t.firstIndex_nonneg
  have hle := t.firstIndex_le
  have hpassing := t.length_passing_le
  have hindex := t.settle_missionIndex
  have hupcoming : t.upcoming.length = t.adventure.missions.length - t.firstIndex.toNat :=
    List.length_drop
  have hcomplete : t.settle.2.isComplete = true ↔
      t.settle.2.progress.missionIndex ≥ t.adventure.missions.length := decide_eq_true_iff
  rw [hcomplete]
  omega

/-- The end is told of when the last mission is passed. -/
theorem ending_upcoming (t : Tracker) (h : t.firstIndex < t.adventure.missions.length) :
    ending t.adventure t.unsettled t.upcoming = if t.settle.2.isComplete then
      [.adventureCompleted t.adventure.id t.settle.2.score] else [] := by
  have hnonneg := t.firstIndex_nonneg
  have hupcoming : t.upcoming.length = t.adventure.missions.length - t.firstIndex.toNat :=
    List.length_drop
  have hempty : t.upcoming.isEmpty = false := by
    rw [List.isEmpty_eq_false_iff, ← List.length_pos_iff]
    omega
  by_cases hall : t.upcoming.all (isFinished t.progress) = true
  · have hpassing : t.passing = t.upcoming :=
      List.takeWhile_eq_self_iff.2 (List.all_eq_true.1 hall)
    obtain ⟨taskIndex, hprogress⟩ := t.settle_progress
    have hscore : t.settle.2.score =
        scoreOf t.adventure.missions.length (t.unsettled.pass t.upcoming) := by
      change scoreOf t.adventure.missions.length t.settle.2.progress = _
      rw [hprogress, hpassing]
      rfl
    rw [ending, if_pos ⟨hempty, hall⟩, if_pos (t.settle_isComplete.2 (by rw [hpassing])), hscore]
  · have hshort : ¬ t.settle.2.isComplete = true := by
      rw [settle_isComplete]
      intro hlength
      have hpassing : t.passing = t.upcoming := (prefix_finished _ _).eq_of_length hlength
      exact hall (List.all_eq_true.2 (List.takeWhile_eq_self_iff.1 hpassing))
    rw [ending, if_neg fun h => hall h.2, if_neg hshort]

section

variable {t : Tracker} (h : t.IsSettled)

include h

theorem IsSettled.firstIndex_eq : t.firstIndex = t.progress.missionIndex := by
  have hnonneg := h.nonneg
  have hle := h.le_length
  unfold firstIndex
  omega

/-- The open task is the first one that is not completed. -/
theorem IsSettled.task?_eq {m : Mission} (hm : t.mission? = some m) :
    t.task? = m.tasks.find? fun task => !t.progress.completedTasks.contains task.id := by
  have hexists : ∃ i, m.tasks.findIdx? (fun task =>
      !t.progress.completedTasks.contains task.id) = some i := by
    have hunfinished := h.unfinished m hm
    rw [isFinished, List.all_eq_false] at hunfinished
    obtain ⟨task, htask, hopen⟩ := hunfinished
    rw [← Option.isSome_iff_exists, List.findIdx?_isSome, List.any_eq_true]
    exact ⟨task, htask, by simpa using hopen⟩
  obtain ⟨i, hi⟩ := hexists
  have hindex : t.progress.taskIndex = i := by
    rw [h.taskIndex_eq m hm, openTask, hi]
    rfl
  rw [List.find?_eq_bind_findIdx?_getElem?, hi, task?, hm, hindex]
  rfl

theorem IsSettled.exists_task? {m : Mission} (hm : t.mission? = some m) :
    ∃ task, t.task? = some task := by
  have hunfinished := h.unfinished m hm
  rw [isFinished, List.all_eq_false] at hunfinished
  obtain ⟨task, htask, hopen⟩ := hunfinished
  rw [h.task?_eq hm, ← Option.isSome_iff_exists, List.find?_isSome]
  exact ⟨task, htask, by simpa using hopen⟩

end

end Tracker

end PracticeShell
