import PracticeShell.Proofs.Tracker.Calls

/-!
# How much is completed

The tasks of an adventure that are completed are told as a whole number of per cent
(`Tracker.percent`), rounded to the nearest, with a half going to the even neighbour. A quotient that is
rounded grows with what is divided (`Decimal.roundDiv_le_roundDiv`), so the number grows with the tasks
that are completed and never leaves the scale. It reaches the end of the scale when one task in two
hundred is still open (`Tracker.percent_eq_hundred_iff`): in a long adventure this is too early.
-/

namespace PracticeShell

namespace Decimal

variable {num other den n : Nat}

theorem div_le_roundDiv (num den : Nat) : num / den ≤ roundDiv num den := by
  unfold roundDiv
  dsimp only
  split <;> omega

theorem roundDiv_le_div_succ (num den : Nat) : roundDiv num den ≤ num / den + 1 := by
  unfold roundDiv
  dsimp only
  split <;> omega

/-- Whether a quotient is rounded down: what is left is less than a half, or is a half behind an even
number. -/
theorem roundDiv_eq_div_iff : roundDiv num den = num / den ↔
    2 * (num % den) < den ∨ 2 * (num % den) = den ∧ num / den % 2 = 0 := by
  unfold roundDiv
  dsimp only
  split
  · rename_i hdown
    exact iff_of_true rfl hdown
  · rename_i hup
    exact iff_of_false (by omega) hup

theorem roundDiv_le_roundDiv (hle : num ≤ other) : roundDiv num den ≤ roundDiv other den := by
  have hdiv : num / den ≤ other / den := Nat.div_le_div_right hle
  rcases Nat.lt_or_eq_of_le hdiv with hlt | heq
  · calc roundDiv num den ≤ num / den + 1 := roundDiv_le_div_succ num den
      _ ≤ other / den := hlt
      _ ≤ roundDiv other den := div_le_roundDiv other den
  · -- Of two numbers with one quotient, the greater leaves more.
    have hmod : num % den ≤ other % den := by
      have hnum := Nat.div_add_mod num den
      have hother := Nat.div_add_mod other den
      rw [heq] at hnum
      omega
    by_cases hdown : roundDiv num den = num / den
    · rw [hdown, heq]
      exact div_le_roundDiv other den
    · have hup : ¬ roundDiv other den = other / den := by
        rw [roundDiv_eq_div_iff] at hdown ⊢
        rw [← heq]
        omega
      have hnum := roundDiv_le_div_succ num den
      have hother := div_le_roundDiv other den
      omega

/-- A quotient is rounded to an even number or more from half a step below it on. -/
theorem even_le_roundDiv_iff (hden : 0 < den) (hn : n % 2 = 0) (hpos : 0 < n) :
    n ≤ roundDiv num den ↔ (2 * n - 1) * den ≤ 2 * num := by
  have hnum := Nat.div_add_mod num den
  have hmod := Nat.mod_lt num hden
  have hsteps : (2 * n - 1) * den + den = 2 * (n * den) := by
    rw [← Nat.succ_mul, Nat.succ_eq_add_one, Nat.sub_add_cancel (by omega), Nat.mul_assoc]
  have hlow := div_le_roundDiv num den
  have hhigh := roundDiv_le_div_succ num den
  rcases Nat.lt_trichotomy (num / den + 1) n with hbelow | hnext | habove
  · -- far below: not even the greater neighbour is enough
    have hless : (num / den + 1 + 1) * den ≤ n * den := Nat.mul_le_mul_right den hbelow
    rw [Nat.add_mul, Nat.add_mul, Nat.one_mul, Nat.mul_comm (num / den)] at hless
    exact iff_of_false (by omega) (by omega)
  · -- just below: the number is rounded up from an odd quotient
    have hodd : num / den % 2 = 1 := by omega
    have hsame : den * (num / den) + den = n * den := by
      rw [← hnext, Nat.add_mul, Nat.one_mul, Nat.mul_comm]
    by_cases hdown : roundDiv num den = num / den
    · have hrest := roundDiv_eq_div_iff.1 hdown
      exact iff_of_false (by omega) (by omega)
    · have hrest := mt roundDiv_eq_div_iff.2 hdown
      exact iff_of_true (by omega) (by omega)
  · have hmore : n * den ≤ num / den * den := Nat.mul_le_mul_right den (by omega)
    rw [Nat.mul_comm (num / den)] at hmore
    exact iff_of_true (by omega) (by omega)

end Decimal

namespace Adventure

variable {a : Adventure} {p : Progress}

/-- The tasks that are completed. -/
def doneTasks (a : Adventure) (p : Progress) : List Task :=
  a.tasks.filter fun task => p.completedTasks.contains task.id

/-- The tasks that are not completed. -/
def openTasks (a : Adventure) (p : Progress) : List Task :=
  a.tasks.filter fun task => !p.completedTasks.contains task.id

theorem length_doneTasks_add (a : Adventure) (p : Progress) :
    (a.doneTasks p).length + (a.openTasks p).length = a.tasks.length :=
  (List.length_eq_length_filter_add _).symm

theorem openTasks_eq_nil_iff :
    a.openTasks p = [] ↔ ∀ task ∈ a.tasks, p.completedTasks.contains task.id = true := by
  simp [openTasks, List.filter_eq_nil_iff]

/-- A task that is completed opens no other. -/
theorem length_doneTasks_le (a : Adventure) (p : Progress) (id : String) :
    (a.doneTasks p).length ≤ (a.doneTasks (p.completeTask id)).length :=
  (List.monotone_filter_right _ fun _ hdone => Marks.contains_add.2 (.inl hdone)).length_le

/-- A learner who has completed all tasks but the first. -/
def nearlyDone (a : Adventure) : Progress :=
  { Progress.start with completedTasks := Marks.empty.addAll ((a.tasks.drop 1).map (·.id)) }

theorem openTasks_nearlyDone {task : Task} {rest : List Task} (h : a.tasks = task :: rest)
    (hnames : (a.tasks.map (·.id)).Nodup) : a.openTasks a.nearlyDone = [task] := by
  have hdone : ∀ id, a.nearlyDone.completedTasks.contains id = true ↔ id ∈ rest.map (·.id) := by
    intro id
    change (Marks.empty.addAll _).contains id = true ↔ _
    rw [Marks.contains_addAll, h, List.drop_one, List.tail_cons, Marks.contains_iff]
    exact or_iff_right nofun
  rw [h, List.map_cons, List.nodup_cons] at hnames
  rw [openTasks, h, List.filter_cons_of_pos, List.filter_eq_nil_iff.2]
  · intro other hother hopen
    rw [Bool.not_eq_true', ← Bool.not_eq_true, hdone] at hopen
    exact hopen (List.mem_map_of_mem hother)
  · rw [Bool.not_eq_true', ← Bool.not_eq_true, hdone]
    exact hnames.1

end Adventure

namespace Tracker

variable {a : Adventure}

theorem percent_eq (h : a.tasks ≠ []) (p : Progress) :
    (Tracker.mk a p).percent = Decimal.roundDiv (100 * (a.doneTasks p).length) a.tasks.length :=
  if_neg (by simpa using h)

theorem percent_le_hundred (h : a.tasks ≠ []) (p : Progress) : (Tracker.mk a p).percent ≤ 100 := by
  have hpos := List.length_pos_iff.2 h
  have hcount := a.length_doneTasks_add p
  calc (Tracker.mk a p).percent
      = Decimal.roundDiv (100 * (a.doneTasks p).length) a.tasks.length := percent_eq h p
    _ ≤ Decimal.roundDiv (100 * a.tasks.length) a.tasks.length :=
        Decimal.roundDiv_le_roundDiv (by omega)
    _ = 100 * a.tasks.length / a.tasks.length :=
        Decimal.roundDiv_eq_div_iff.2 (.inl (by rwa [Nat.mul_mod_left]))
    _ = 100 := Nat.mul_div_cancel _ hpos

theorem percent_le_completeTask (h : a.tasks ≠ []) (p : Progress) (id : String) :
    (Tracker.mk a p).percent ≤ (Tracker.mk a (p.completeTask id)).percent := by
  rw [percent_eq h, percent_eq h]
  exact Decimal.roundDiv_le_roundDiv (Nat.mul_le_mul_left 100 (a.length_doneTasks_le p id))

/-- All is told to be completed as soon as no more than one task in two hundred is open. -/
theorem percent_eq_hundred_iff (h : a.tasks ≠ []) (p : Progress) :
    (Tracker.mk a p).percent = 100 ↔ 200 * (a.openTasks p).length ≤ a.tasks.length := by
  have hcount := a.length_doneTasks_add p
  have hle := percent_le_hundred h p
  have hend : 100 ≤ Decimal.roundDiv (100 * (a.doneTasks p).length) a.tasks.length ↔
      (2 * 100 - 1) * a.tasks.length ≤ 2 * (100 * (a.doneTasks p).length) :=
    Decimal.even_le_roundDiv_iff (List.length_pos_iff.2 h) rfl (by decide)
  rw [percent_eq h] at hle ⊢
  omega

/-- The number of per cent is on the scale and grows with the tasks that are completed. It is a hundred
exactly if no more than one task in two hundred is open. So an adventure whose tasks have names of their
own is never told to be completed too early exactly if it has less than two hundred tasks. -/
theorem hundred_percent_is_all_iff (h : a.tasks ≠ []) :
    (∀ p : Progress, (Tracker.mk a p).percent ≤ 100 ∧
      (∀ id, (Tracker.mk a p).percent ≤ (Tracker.mk a (p.completeTask id)).percent) ∧
      ((Tracker.mk a p).percent = 100 ↔ 200 * (a.openTasks p).length ≤ a.tasks.length)) ∧
    ((a.tasks.map (·.id)).Nodup →
      ((∀ p : Progress, (Tracker.mk a p).percent = 100 →
        ∀ task ∈ a.tasks, p.completedTasks.contains task.id = true) ↔ a.tasks.length < 200)) := by
  refine ⟨fun p => ⟨percent_le_hundred h p, percent_le_completeTask h p, percent_eq_hundred_iff h p⟩,
    fun hnames => ⟨fun hall => ?_, fun hshort p hhundred => ?_⟩⟩
  · -- all tasks but one are enough, if there are two hundred
    obtain ⟨task, rest, htasks⟩ := List.exists_cons_of_ne_nil h
    have hopen := Adventure.openTasks_nearlyDone htasks hnames
    by_contra hlong
    have hnone := Adventure.openTasks_eq_nil_iff.2 <|
      hall a.nearlyDone ((percent_eq_hundred_iff h _).2 (by rw [hopen, List.length_singleton]; omega))
    rw [hopen] at hnone
    cases hnone
  · rw [percent_eq_hundred_iff h] at hhundred
    exact Adventure.openTasks_eq_nil_iff.1 (List.length_eq_zero_iff.1 (by omega))

/-- A walk of two tasks is told to be completed when it is. -/
theorem walk_is_told_in_time :
    (Adventure.walk "north" "south").tasks ≠ [] ∧
    ((Adventure.walk "north" "south").tasks.map (·.id)).Nodup ∧
    (Tracker.mk (.walk "north" "south") (Progress.start.completeTask "look")).percent = 50 ∧
    ∀ p : Progress, (Tracker.mk (.walk "north" "south") p).percent = 100 →
      ∀ task ∈ (Adventure.walk "north" "south").tasks, p.completedTasks.contains task.id = true := by
  have hne : (Adventure.walk "north" "south").tasks ≠ [] := nofun
  have hnames : ((Adventure.walk "north" "south").tasks.map (·.id)).Nodup := by
    change ["look", "leave"].Nodup
    decide
  exact ⟨hne, hnames, by decide, ((hundred_percent_is_all_iff hne).2 hnames).2 (by decide)⟩

end Tracker

/-- An adventure of two hundred tasks, each named by one letter more than the one before. -/
def Adventure.longWalk : Adventure :=
  ⟨"walk", "walk", "", [⟨"north", "north", "", (List.range 200).map step, .null⟩], .null, [], []⟩
where
  step (n : Nat) : Task :=
    ⟨String.ofList (List.replicate (n + 1) 't'), "", .null, .null, .null, true, []⟩

theorem Adventure.tasks_longWalk : longWalk.tasks = (List.range 200).map longWalk.step :=
  List.append_nil _

theorem Adventure.nodup_longWalk : (longWalk.tasks.map (·.id)).Nodup := by
  rw [tasks_longWalk, List.map_map]
  refine List.nodup_range.map fun first second hsame => ?_
  have hlength := congrArg List.length (String.ofList_injective hsame)
  rw [List.length_replicate, List.length_replicate] at hlength
  exact Nat.succ.inj hlength

/-- A walk of two hundred tasks is told to be completed while one of them is open. -/
theorem Tracker.long_walk_is_told_too_early :
    (Tracker.mk .longWalk Adventure.longWalk.nearlyDone).percent = 100 ∧
      ∃ task ∈ Adventure.longWalk.tasks,
        Adventure.longWalk.nearlyDone.completedTasks.contains task.id = false := by
  have htasks : Adventure.longWalk.tasks = Adventure.longWalk.step 0 ::
      ((List.range 199).map Nat.succ).map Adventure.longWalk.step := by
    rw [Adventure.tasks_longWalk, List.range_succ_eq_map, List.map_cons]
  have hopen := Adventure.openTasks_nearlyDone htasks Adventure.nodup_longWalk
  have hfirst : Adventure.longWalk.step 0 ∈
      Adventure.longWalk.openTasks Adventure.longWalk.nearlyDone := by
    rw [hopen]
    exact List.mem_singleton_self _
  obtain ⟨hmem, hleft⟩ := List.mem_filter.1 hfirst
  have hne : Adventure.longWalk.tasks ≠ [] := List.ne_nil_of_mem hmem
  have hcount : Adventure.longWalk.tasks.length = 200 := by
    rw [Adventure.tasks_longWalk, List.length_map, List.length_range]
  refine ⟨(percent_eq_hundred_iff hne _).2 ?_, _, hmem, by simpa using hleft⟩
  rw [hopen, hcount]
  decide

end PracticeShell
