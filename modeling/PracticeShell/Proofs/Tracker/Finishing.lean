import Mathlib.Algebra.BigOperators.Group.List.Basic
import Mathlib.Algebra.Order.Group.Unbundled.Int
import Mathlib.Algebra.Ring.Int.Defs
import PracticeShell.Proofs.Tracker.Announcing

/-!
# Coming to the end

When a run of calls has come to the end, the points are those for all missions less what the hints
have cost, and each task costs as much as the highest of the levels that have been shown for it
(`Tracker.highest`). Every mission of the adventure is told of and counted exactly if the missions
have names of their own and the first one has a task (`Tracker.completions_are_told_iff`): a mission
whose name has been marked before is passed in silence, and nobody is told of what is passed when a
tracker begins.
-/

namespace PracticeShell

namespace Marks

theorem length_news_le (marks : Marks) (missions : List Mission) :
    (marks.news missions).length ≤ missions.length := by
  induction missions generalizing marks with
  | nil => exact Nat.le_refl 0
  | cons m rest ih =>
      have hrest := ih (marks.add m.id)
      unfold news
      split <;> simp only [List.length_append, List.length_cons, List.length_nil] <;> omega

/-- All missions are told of exactly if no name is marked before its turn comes. -/
theorem news_eq_map_iff {marks : Marks} {missions : List Mission} :
    marks.news missions = missions.map Event.ofMission ↔
      (missions.map (·.id)).Nodup ∧ ∀ m ∈ missions, ¬ marks.contains m.id = true := by
  induction missions generalizing marks with
  | nil => simp [news]
  | cons m rest ih =>
      by_cases hm : marks.contains m.id = true
      · refine iff_of_false (fun hall => ?_) fun hnew => hnew.2 m List.mem_cons_self hm
        have hlength := congrArg List.length hall
        have hrest := (marks.add m.id).length_news_le rest
        rw [news, if_pos hm, List.nil_append, List.length_map, List.length_cons] at hlength
        omega
      · rw [news, if_neg hm, List.singleton_append, List.map_cons, List.cons_inj_right, ih,
          List.map_cons, List.nodup_cons]
        constructor
        · rintro ⟨hnodup, hnew⟩
          refine ⟨⟨fun hagain => ?_, hnodup⟩, ?_⟩
          · obtain ⟨n, hn, hname⟩ := List.mem_map.1 hagain
            exact hnew n hn (contains_add.2 (.inr hname))
          · intro n hn hcontains
            rcases List.mem_cons.1 hn with rfl | hn
            · exact hm hcontains
            · exact hnew n hn (contains_add.2 (.inl hcontains))
        · rintro ⟨⟨hfresh, hnodup⟩, hnew⟩
          refine ⟨hnodup, fun n hn hcontains => ?_⟩
          rcases contains_add.1 hcontains with hbefore | hname
          · exact hnew n (List.mem_cons_of_mem _ hn) hbefore
          · exact hfresh (hname ▸ List.mem_map_of_mem hn)

theorem count_addAll_empty {names : List String} (h : names.Nodup) :
    (empty.addAll names).count = names.length := by
  rw [count, values_addAll h fun name _ => by simp [contains_iff, empty]]
  simp [empty]

end Marks

namespace Progress

section Hints

variable {id other : String} {level : Int} {hints : List (String × Int)}

theorem mem_names_setHint : other ∈ (setHint id level hints).map (·.1) ↔
    other = id ∨ other ∈ hints.map (·.1) := by
  induction hints with
  | nil => simp [setHint]
  | cons first rest ih =>
      unfold setHint
      by_cases hfirst : first.1 = id
      · simp [hfirst]
      · rw [if_neg hfirst, List.map_cons, List.mem_cons, ih, List.map_cons, List.mem_cons]
        exact or_left_comm

theorem nodup_setHint (h : (hints.map (·.1)).Nodup) :
    ((setHint id level hints).map (·.1)).Nodup := by
  induction hints with
  | nil => exact List.nodup_singleton id
  | cons first rest ih =>
      obtain ⟨hfresh, hrest⟩ := List.nodup_cons.1 h
      unfold setHint
      by_cases hfirst : first.1 = id
      · rw [if_pos hfirst]
        exact h
      · rw [if_neg hfirst, List.map_cons, List.nodup_cons, mem_names_setHint]
        refine ⟨fun hmem => ?_, ih hrest⟩
        rcases hmem with hname | hmem
        · exact hfirst hname
        · exact hfresh hmem

theorem sum_ite_eq {names : List String} (hnames : names.Nodup) :
    (names.map fun other => if other = id then level else 0).sum =
      if id ∈ names then level else 0 := by
  induction names with
  | nil => rfl
  | cons name rest ih =>
      obtain ⟨hfresh, hrest⟩ := List.nodup_cons.1 hnames
      rw [List.map_cons, List.sum_cons, ih hrest]
      by_cases hname : name = id
      · subst hname
        simp [hfresh]
      · simp [hname, Ne.symm hname]

/-- A name that has no level counts as nothing in the sum of all levels. -/
theorem sum_lookup {names : List String} (hnames : names.Nodup) (h : (hints.map (·.1)).Nodup)
    (hsub : ∀ id ∈ hints.map (·.1), id ∈ names) :
    (names.map fun id => (hints.lookup id).getD 0).sum = (hints.map (·.2)).sum := by
  induction hints with
  | nil => simp
  | cons first rest ih =>
      obtain ⟨id, level⟩ := first
      obtain ⟨hfresh, hrest⟩ := List.nodup_cons.1 h
      have hnone : rest.lookup id = none := by
        rw [List.lookup_eq_none_iff]
        intro entry hentry
        rw [bne_iff_ne]
        intro hname
        have hthere : entry.1 ∈ rest.map (·.1) := List.mem_map_of_mem hentry
        rw [← hname] at hthere
        exact hfresh hthere
      have hsplit : ∀ other, (((id, level) :: rest).lookup other).getD 0 =
          (if other = id then level else 0) + (rest.lookup other).getD 0 := by
        intro other
        rw [lookup_cons_eq_ite]
        by_cases hother : other = id
        · rw [if_pos hother, if_pos hother, hother, hnone]
          exact (Int.add_zero level).symm
        · rw [if_neg hother, if_neg hother, Int.zero_add]
      have hone : (names.map fun other => if other = id then level else 0).sum = level := by
        rw [sum_ite_eq hnames, if_pos (hsub id List.mem_cons_self)]
      simp only [hsplit, List.sum_map_add, hone, List.map_cons, List.sum_cons]
      rw [ih hrest fun other hother => hsub other (List.mem_cons_of_mem _ hother)]

end Hints

/-- The levels of hints after some more have been shown. -/
def seeAll (hints shown : List (String × Int)) : List (String × Int) :=
  shown.foldl
    (fun hints (id, level) => setHint id (max level ((hints.lookup id).getD 0)) hints) hints

section Seeing

variable {id : String} {hints shown : List (String × Int)}

theorem seeAll_append (hints shown more : List (String × Int)) :
    seeAll hints (shown ++ more) = seeAll (seeAll hints shown) more := List.foldl_append

theorem lookup_seeAll : ((seeAll hints shown).lookup id).getD 0 =
    ((shown.filter (·.1 == id)).map (·.2)).foldl max ((hints.lookup id).getD 0) := by
  induction shown generalizing hints with
  | nil => rfl
  | cons first rest ih =>
      obtain ⟨name, level⟩ := first
      change ((seeAll (setHint name (max level ((hints.lookup name).getD 0)) hints) rest).lookup
        id).getD 0 = _
      rw [ih, lookup_setHint]
      by_cases hname : name = id
      · subst hname
        rw [if_pos rfl, List.filter_cons_of_pos (by simp)]
        exact congrArg (List.foldl max · _) (Int.max_comm _ _)
      · rw [if_neg (Ne.symm hname), List.filter_cons_of_neg (by simpa using hname)]

theorem mem_names_seeAll {other : String} : other ∈ (seeAll hints shown).map (·.1) ↔
    other ∈ hints.map (·.1) ∨ other ∈ shown.map (·.1) := by
  induction shown generalizing hints with
  | nil => simp [seeAll]
  | cons first rest ih =>
      change other ∈ (seeAll (setHint first.1 _ hints) rest).map (·.1) ↔ _
      rw [ih, mem_names_setHint, List.map_cons, List.mem_cons]
      tauto

theorem nodup_seeAll (h : (hints.map (·.1)).Nodup) : ((seeAll hints shown).map (·.1)).Nodup := by
  induction shown generalizing hints with
  | nil => exact h
  | cons first rest ih => exact ih (nodup_setHint h)

end Seeing

end Progress

namespace Tracker

/-- The highest of the levels that have been shown for a task. -/
def highest (shown : List (String × Int)) (id : String) : Int :=
  ((shown.filter (·.1 == id)).map (·.2)).foldl max 0

/-- The hint that a call shows: the name of its task, and its level. -/
def shown (t : Tracker) : Call → List (String × Int)
  | .observe _ => []
  | .hint level =>
    if (t.hint level).1.isSome then (t.task?.map fun task => (task.id, level)).toList else []

/-- The hints that a run of calls shows. -/
def shownAll (t : Tracker) : List Call → List (String × Int)
  | [] => []
  | c :: calls => t.shown c ++ shownAll (t.call c) calls

theorem record_hintsUsed (t : Tracker) (o : Observation) :
    (t.record o).2.progress.hintsUsed = t.progress.hintsUsed := by
  unfold record
  split
  · rfl
  · dsimp only
    rw [foldl_completeTask]
    split
    · rfl
    · split
      · rfl
      · exact settle_hintsUsed _

theorem hintsUsed_call (t : Tracker) (c : Call) :
    (t.call c).progress.hintsUsed = Progress.seeAll t.progress.hintsUsed (t.shown c) := by
  cases c with
  | observe o => exact t.record_hintsUsed o
  | hint level =>
      change (t.hint level).2.progress.hintsUsed = _
      rw [shown]
      rcases t.hint_cases level with hsame | ⟨task, text, htask, hlater⟩
      · rw [hsame]
        rfl
      · rw [hlater, htask]
        rfl

theorem hintsUsed_after (t : Tracker) (calls : List Call) : (t.after calls).progress.hintsUsed =
    Progress.seeAll t.progress.hintsUsed (t.shownAll calls) := by
  induction calls generalizing t with
  | nil => rfl
  | cons c calls ih => rw [after_cons, ih, hintsUsed_call, shownAll, Progress.seeAll_append]

theorem mem_of_task? {t : Tracker} {task : Task} (h : t.task? = some task) :
    task ∈ t.adventure.tasks := by
  unfold task? at h
  obtain ⟨m, hm, htask⟩ := Option.bind_eq_some_iff.1 h
  exact tasks_of_mission? hm (List.mem_of_getElem? htask)

/-- Hints are shown for tasks of the adventure only. -/
theorem mem_tasks_of_mem_shownAll {t : Tracker} {calls : List Call} {id : String}
    (h : id ∈ (t.shownAll calls).map (·.1)) : id ∈ t.adventure.tasks.map (·.id) := by
  induction calls generalizing t with
  | nil => cases h
  | cons c calls ih =>
      rw [shownAll, List.map_append, List.mem_append] at h
      rcases h with hfirst | hrest
      · cases c with
        | observe o => cases hfirst
        | hint level =>
            rw [shown] at hfirst
            rcases t.hint_cases level with hsame | ⟨task, text, htask, hlater⟩
            · rw [hsame] at hfirst
              cases hfirst
            · rw [hlater, htask] at hfirst
              obtain rfl : id = task.id := by simpa using hfirst
              exact List.mem_map_of_mem (mem_of_task? htask)
      · have hlater := ih hrest
        rwa [adventure_call] at hlater

theorem scoreOf_eq (missions : Nat) (p : Progress) : scoreOf missions p =
    max (1000 - 10 * (p.hintsUsed.map (·.2)).sum +
      if p.completedMissions.count ≥ missions then 500 else 0) 0 := by
  have hspent : ∀ (hints : List (String × Int)) (spent : Int),
      hints.foldl (fun spent (_, level) => spent + level * hintPenalty) spent =
        spent + 10 * (hints.map (·.2)).sum := by
    intro hints
    induction hints with
    | nil => simp
    | cons first rest ih =>
        intro spent
        obtain ⟨id, level⟩ := first
        change rest.foldl _ (spent + level * 10) = _
        rw [ih, List.map_cons, List.sum_cons]
        omega
  unfold scoreOf
  dsimp only
  rw [hspent, Int.zero_add]
  rfl

/-- The missions at the beginning that have no tasks. -/
def skipped (a : Adventure) : List Mission := a.missions.takeWhile (·.tasks.isEmpty)

theorem firstIndex_start (a : Adventure) : firstIndex ⟨a, Progress.start⟩ = 0 := by
  change max 0 (min 0 (a.missions.length : Int)) = 0
  omega

theorem passing_start (a : Adventure) : passing ⟨a, Progress.start⟩ = skipped a := by
  have hfinished : isFinished Progress.start = fun m => m.tasks.isEmpty := by
    funext m
    cases htasks : m.tasks <;>
      simp [isFinished, htasks, Progress.start, Marks.contains, Marks.holds, Marks.empty]
  change (List.drop (firstIndex ⟨a, Progress.start⟩).toNat a.missions).takeWhile
    (isFinished Progress.start) = _
  rw [firstIndex_start, hfinished]
  rfl

/-- A fresh tracker has passed the missions at the beginning that have no tasks. -/
theorem start_missionIndex (a : Adventure) :
    (start a).progress.missionIndex = (skipped a).length := by
  have hindex := settle_missionIndex ⟨a, Progress.start⟩
  rw [passing_start, firstIndex_start, Int.zero_add] at hindex
  exact hindex

theorem start_completedMissions (a : Adventure) :
    (start a).progress.completedMissions = Marks.empty.addAll ((skipped a).map (·.id)) := by
  have hmarks := settle_completedMissions ⟨a, Progress.start⟩
  rw [passing_start] at hmarks
  exact hmarks

theorem start_hintsUsed (a : Adventure) : (start a).progress.hintsUsed = [] :=
  settle_hintsUsed ⟨a, Progress.start⟩

theorem skipped_eq_nil_iff {a : Adventure} :
    skipped a = [] ↔ ∀ m, a.missions.head? = some m → m.tasks ≠ [] := by
  unfold skipped
  cases a.missions with
  | nil => simp
  | cons m rest => cases htasks : m.tasks <;> simp [htasks]

section End

variable {a : Adventure} {calls : List Call} (hids : (Adventure.taskIds a.missions).Nodup)
  (hend : ((start a).after calls).isComplete = true)

include hids hend

theorem announces_start : (start a).Announces ((start a).after calls) (toldAll (start a) calls) :=
  (isSettled_settle ⟨a, Progress.start⟩).announces_all
    (takesAll_of_isComplete (t := start a) hids hend)

omit hids in
/-- A run to the end leads past all missions that have not been passed before it. -/
theorem between_start :
    (start a).between ((start a).after calls) = a.missions.drop (skipped a).length := by
  have hover : ((start a).after calls).progress.missionIndex ≥
      ((start a).after calls).adventure.missions.length := of_decide_eq_true hend
  rw [adventure_after] at hover
  change _ ≥ (a.missions.length : Int) at hover
  unfold between
  rw [start_missionIndex, List.take_of_length_le (by change a.missions.length ≤ _; omega)]
  rfl

theorem missions_toldAll : (toldAll (start a) calls).filter Event.isMission =
    (Marks.empty.addAll ((skipped a).map (·.id))).news (a.missions.drop (skipped a).length) := by
  rw [(announces_start hids hend).missions, between_start hend, start_completedMissions]

theorem completedMissions_end : ((start a).after calls).progress.completedMissions =
    Marks.empty.addAll (a.missions.map (·.id)) := by
  have hparts : skipped a ++ a.missions.drop (skipped a).length = a.missions := by
    obtain ⟨rest, hrest⟩ : skipped a <+: a.missions := List.takeWhile_prefix _
    rw [← hrest, List.drop_left]
  rw [(announces_start hids hend).marked, between_start hend, start_completedMissions,
    ← Marks.addAll_append, ← List.map_append, hparts]

/-- The end is told of if there is a mission left when the tracker begins. -/
theorem ending_toldAll : (toldAll (start a) calls).filter Event.isEnding =
    if (skipped a).length < a.missions.length then
      [.adventureCompleted a.id ((start a).after calls).score] else [] := by
  have hstart : (start a).isComplete = decide ((skipped a).length ≥ a.missions.length) := by
    unfold isComplete
    rw [start_missionIndex]
    exact decide_eq_decide.2 Int.ofNat_le
  rw [(announces_start hids hend).ends, hend, hstart]
  by_cases hleft : (skipped a).length < a.missions.length
  · rw [if_pos hleft, if_pos (by simpa using hleft)]
    rfl
  · rw [if_neg hleft, if_neg (by simpa using hleft)]

/-- At the end each task has cost as much as the highest of the levels shown for it. -/
theorem score_end : ((start a).after calls).score =
    max (1000 - 10 * (a.tasks.map fun task => highest ((start a).shownAll calls) task.id).sum +
      if (Marks.empty.addAll (a.missions.map (·.id))).count ≥ a.missions.length then 500 else 0)
      0 := by
  have hnames : (a.tasks.map (·.id)).Nodup := by rwa [← Adventure.taskIds_eq_map]
  have hhints : ((start a).after calls).progress.hintsUsed =
      Progress.seeAll [] ((start a).shownAll calls) := by
    rw [hintsUsed_after, start_hintsUsed]
  have hsub : ∀ id ∈ (Progress.seeAll [] ((start a).shownAll calls)).map (·.1),
      id ∈ a.tasks.map (·.id) := by
    intro id hid
    rcases Progress.mem_names_seeAll.1 hid with hbefore | hshown
    · cases hbefore
    · exact mem_tasks_of_mem_shownAll hshown
  have hlevels : ((Progress.seeAll [] ((start a).shownAll calls)).map (·.1)).Nodup :=
    Progress.nodup_seeAll List.nodup_nil
  have hspent := Progress.sum_lookup hnames hlevels hsub
  simp only [Progress.lookup_seeAll, List.map_map] at hspent
  change scoreOf _ _ = _
  rw [scoreOf_eq, completedMissions_end hids hend, hhints, ← hspent, adventure_after]
  rfl

end End

/-- A run of calls from the beginning to the end tells of every mission once and in order and of the
end once, counts every mission, and gives the points for all of them, exactly if the missions have
names of their own and the first one has a task. -/
theorem completions_are_told_iff {v : Json} {a : Adventure} (ha : Adventure.ofJson v = .ok a)
    {calls : List Call} (hend : ((start a).after calls).isComplete = true) :
    ((toldAll (start a) calls).filter Event.isMission = a.missions.map Event.ofMission ∧
      (toldAll (start a) calls).filter Event.isEnding = [.adventureCompleted a.id (max (1000 -
        10 * (a.tasks.map fun task => highest ((start a).shownAll calls) task.id).sum + 500) 0)] ∧
      ((start a).after calls).progress.completedMissions.count = a.missions.length) ↔
    (a.missions.map (·.id)).Nodup ∧ ∃ m, a.missions.head? = some m ∧ m.tasks ≠ [] := by
  have hids := Adventure.nodup_taskIds_of_ofJson ha
  rw [missions_toldAll hids hend, ending_toldAll hids hend, completedMissions_end hids hend,
    score_end hids hend]
  constructor
  · rintro ⟨hmissions, hending, -⟩
    have hleft : (skipped a).length < a.missions.length := by
      by_contra hnone
      rw [if_neg hnone] at hending
      cases hending
    -- as many missions are told of as there are, so none has been passed before
    have hskipped : skipped a = [] := by
      have hlength := Marks.length_news_le (Marks.empty.addAll ((skipped a).map (·.id)))
        (a.missions.drop (skipped a).length)
      rw [hmissions, List.length_map, List.length_drop] at hlength
      exact List.eq_nil_of_length_eq_zero (by omega)
    rw [hskipped] at hmissions hleft
    refine ⟨(Marks.news_eq_map_iff.1 hmissions).1, ?_⟩
    obtain ⟨m, rest, hparts⟩ := List.exists_cons_of_length_pos hleft
    have hhead : a.missions.head? = some m := by rw [hparts, List.head?_cons]
    exact ⟨m, hhead, skipped_eq_nil_iff.1 hskipped m hhead⟩
  · rintro ⟨hnodup, m, hhead, htasks⟩
    have hskipped : skipped a = [] := by
      rw [skipped_eq_nil_iff]
      intro n hn
      rw [hhead] at hn
      cases hn
      exact htasks
    have hleft : (skipped a).length < a.missions.length := by
      obtain ⟨rest, hparts⟩ := List.head?_eq_some_iff.1 hhead
      rw [hskipped, hparts]
      exact Nat.succ_pos _
    have hcount := Marks.count_addAll_empty hnodup
    rw [List.length_map] at hcount
    rw [if_pos hleft, hcount, if_pos (Nat.le_refl _), hskipped]
    refine ⟨?_, rfl, rfl⟩
    exact Marks.news_eq_map_iff.2 ⟨hnodup, fun n _ => by simp [Marks.contains_iff, Marks.empty]⟩

theorem walk_is_told_of :
    Adventure.ofJson (.walkDocument "north" "south") = .ok (.walk "north" "south") ∧
    ((start (.walk "north" "south")).after
      [.hint 2, .observe .printing, .observe .printing]).isComplete = true ∧
    (toldAll (start (.walk "north" "south"))
      [.hint 2, .observe .printing, .observe .printing]).filter Event.isEnding =
        [.adventureCompleted "walk" 1480] := by
  have hread : Adventure.ofJson (.walkDocument "north" "south") = .ok (.walk "north" "south") :=
    Adventure.ofJson_walkDocument _ _
  have hend : ((start (.walk "north" "south")).after
      [.hint 2, .observe .printing, .observe .printing]).isComplete = true := rfl
  obtain ⟨-, hending, -⟩ :=
    (completions_are_told_iff hread hend).2 ⟨by decide, _, rfl, List.cons_ne_nil _ _⟩
  have hpoints : max (1000 - 10 * ((Adventure.walk "north" "south").tasks.map fun task =>
      highest ((start (.walk "north" "south")).shownAll
        [.hint 2, .observe .printing, .observe .printing]) task.id).sum + 500) 0 = 1480 := rfl
  rw [hpoints] at hending
  exact ⟨hread, hend, hending⟩

/-- The second of two missions of one name is completed in silence, and the end is told of with the
points for an adventure that is not completed. -/
theorem namesake_is_passed_in_silence :
    Adventure.ofJson (.walkDocument "north" "north") = .ok (.walk "north" "north") ∧
    ((start (.walk "north" "north")).after
      [.observe .printing, .observe .printing]).isComplete = true ∧
    toldAll (start (.walk "north" "north")) [.observe .printing, .observe .printing] =
      [.taskCompleted "look" "north" "", .missionCompleted "north" "north" .null,
        .taskCompleted "leave" "north" "", .adventureCompleted "walk" 1000] := by
  exact ⟨Adventure.ofJson_walkDocument _ _, rfl, rfl⟩

end Tracker

end PracticeShell
