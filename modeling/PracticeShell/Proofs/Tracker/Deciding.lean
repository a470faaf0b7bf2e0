import PracticeShell.Proofs.Tracker.Announcing

/-!
# Deciding tasks

A task is completed by the observations that meet all that it asks for (`Task.IsMet`), which has to be
something. This can be decided of every observation, except if the pattern of the task cannot be read:
an unknown check, parameters without a meaning and a malformed pattern are just not met.

The tasks of a mission are looked at one after the other. The look ends at the first open task that
cannot be decided (`Tracker.exists_seen`), and the tasks met before it are marked all the same.
-/

namespace PracticeShell

open Run

namespace Task

variable {t : Task} {o : Observation}

/-- Whether the pattern of a task occurs in what is printed. -/
def IsMatched (t : Task) (o : Observation) : Prop :=
  ∃ text r, t.pattern = .string text ∧
    Regex.parse { ignoreCase := true, dotAll := true } text = .ok r ∧ r.occursIn o.output = true

/-- Whether a task names a check and an observation satisfies it. -/
def IsChecked (t : Task) (o : Observation) : Prop :=
  ∃ name c, t.check = .string name ∧ Check.ofName? name = some c ∧
    c.run? o t.parameters = some true

/-- Whether an observation meets all that a task asks for, which has to be something. -/
structure IsMet (t : Task) (o : Observation) : Prop where
  asks : t.pattern.isTruthy = true ∨ t.check.isTruthy = true ∨ t.requiresOutput = true
  matched : t.pattern.isTruthy = true → t.IsMatched o
  checked : t.check.isTruthy = true → t.IsChecked o
  printed : t.requiresOutput = true → ∃ c ∈ o.output.toList, Text.Blank.isBlank c = false

/-- Whether the pattern of a task occurs in what is printed, if the task has one. -/
def found (t : Task) (o : Observation) : Except Fault Bool :=
  if t.pattern.isTruthy then matchesOutput t.pattern o.output else .ok true

/-- The verdict of the check of a task, if the task has one. -/
def checked (t : Task) (o : Observation) : Verdict :=
  if t.check.isTruthy then t.checkVerdict o else ⟨true, none⟩

/-- The verdict on a task when it is known whether its pattern occurs. -/
def conclude (t : Task) (o : Observation) (found : Bool) : Verdict :=
  if !found then .no
  else if !(t.checked o).isDone then t.checked o
  else if t.requiresOutput && Text.Blank.isBlankText o.output then .no
  else ⟨t.pattern.isTruthy || t.check.isTruthy || t.requiresOutput, none⟩

theorem evaluate_eq (t : Task) (o : Observation) :
    t.evaluate o = (t.found o).map (t.conclude o) := by
  have hconclude (found : Bool) : (do
      if !found then return Verdict.no
      if !(t.checked o).isDone then return t.checked o
      if t.requiresOutput && Text.Blank.isBlankText o.output then return Verdict.no
      return ⟨t.pattern.isTruthy || t.check.isTruthy || t.requiresOutput, none⟩ :
        Except Fault Verdict) = .ok (t.conclude o found) := by
    unfold conclude
    repeat' split
    all_goals rfl
  unfold evaluate found
  by_cases hpattern : t.pattern.isTruthy = true
  · rw [if_pos hpattern, if_pos hpattern]
    cases matchesOutput t.pattern o.output with
    | error fault => rfl
    | ok found => exact hconclude found
  · rw [if_neg hpattern, if_neg hpattern]
    exact hconclude true

theorem found_eq_true_iff :
    t.found o = .ok true ↔ (t.pattern.isTruthy = true → t.IsMatched o) := by
  unfold found
  split
  · rename_i hpattern
    rw [imp_iff_right hpattern]
    unfold matchesOutput IsMatched
    cases t.pattern with
    | string text =>
        dsimp only
        cases hparse : Regex.parse { ignoreCase := true, dotAll := true } text with
        | ok r => simp [hparse]
        | error e => cases e <;> simp [hparse]
    | _ => simp
  · simp [*]

theorem isDone_checked_iff :
    (t.checked o).isDone = true ↔ (t.check.isTruthy = true → t.IsChecked o) := by
  unfold checked
  split
  · rename_i hcheck
    rw [imp_iff_right hcheck]
    unfold checkVerdict IsChecked
    cases t.check with
    | string name =>
        cases hname : Check.ofName? name with
        | none => simp [Json.string?, hname, Verdict.no]
        | some c => cases hrun : c.run? o t.parameters <;> simp [Json.string?, hname, hrun]
    | _ => simp [Json.string?, Verdict.no]
  · simp [*]

/-- What is concluded is that the task is completed exactly if nothing speaks against it and
something has been asked for. -/
theorem isDone_conclude_iff {found : Bool} : (t.conclude o found).isDone = true ↔
    found = true ∧ (t.checked o).isDone = true ∧
      (t.requiresOutput = true → Text.Blank.isBlankText o.output = false) ∧
      (t.pattern.isTruthy = true ∨ t.check.isTruthy = true ∨ t.requiresOutput = true) := by
  unfold conclude
  cases found with
  | false => simp [Verdict.no]
  | true =>
      by_cases hdone : (t.checked o).isDone = true
      · cases t.requiresOutput <;> cases Text.Blank.isBlankText o.output <;> simp [hdone, Verdict.no]
      · simp [hdone]

theorem isBlankText_eq_false_iff {text : String} :
    Text.Blank.isBlankText text = false ↔ ∃ c ∈ text.toList, Text.Blank.isBlank c = false := by
  simp [Text.Blank.isBlankText]

/-- A task is found completed exactly if all that it asks for is met. -/
theorem evaluate_isDone_iff :
    (∃ verdict, t.evaluate o = .ok verdict ∧ verdict.isDone = true) ↔ t.IsMet o := by
  have hdone : (∃ verdict, t.evaluate o = .ok verdict ∧ verdict.isDone = true) ↔
      t.found o = .ok true ∧ (t.conclude o true).isDone = true := by
    rw [evaluate_eq]
    cases t.found o with
    | error fault => simp [Except.map]
    | ok found => cases found <;> simp [Except.map, isDone_conclude_iff]
  rw [hdone, found_eq_true_iff, isDone_conclude_iff, isDone_checked_iff, isBlankText_eq_false_iff]
  constructor
  · rintro ⟨hmatched, -, hchecked, hprinted, hasks⟩
    exact ⟨hasks, hmatched, hchecked, hprinted⟩
  · intro h
    exact ⟨h.matched, rfl, h.checked, h.printed, h.asks⟩

end Task

namespace Progress

variable {p : Progress} {tasks seen rest : List Task} {o : Observation}

/-- Whether a look at tasks gets past one of them: it is completed already, or it can be decided. -/
def Passes (p : Progress) (task : Task) : Prop :=
  p.completedTasks.contains task.id = true ∨ task.IsReadable

/-- Whether a look at tasks sees the first ones and is stopped by the first of the rest, if there is
any. -/
structure Sees (p : Progress) (tasks seen rest : List Task) : Prop where
  split : tasks = seen ++ rest
  passed : ∀ task ∈ seen, p.Passes task
  stopped : ∀ task ∈ rest.head?, ¬ p.Passes task

open Classical in
theorem exists_sees (p : Progress) (tasks : List Task) : ∃ seen rest, p.Sees tasks seen rest := by
  refine ⟨tasks.takeWhile fun task => p.Passes task, tasks.dropWhile fun task => p.Passes task,
    List.takeWhile_append_dropWhile.symm, fun task htask => ?_, fun task htask => ?_⟩
  · have hhead := List.mem_takeWhile_imp htask
    exact of_decide_eq_true hhead
  · have hhead := List.head?_dropWhile_not (fun task => decide (p.Passes task)) tasks
    rw [Option.mem_def.1 htask] at hhead
    simpa using hhead

theorem Sees.cons {first : Task} (h : p.Sees tasks (first :: seen) rest) :
    p.Passes first ∧ p.Sees (seen ++ rest) seen rest :=
  ⟨h.passed first List.mem_cons_self, rfl, fun task htask =>
    h.passed task (List.mem_cons_of_mem first htask), h.stopped⟩

end Progress

namespace Tracker

variable {p : Progress} {tasks seen rest : List Task} {t : Tracker} {m : Mission} {o : Observation}

/-- There is no fault exactly if all tasks are seen. -/
theorem fault_round_eq_none_iff (h : p.Sees tasks seen rest) :
    (round p o tasks).fault = none ↔ rest = [] := by
  rw [Option.eq_none_iff_forall_ne_some, ← not_exists, exists_fault_iff, h.split]
  constructor
  · intro hnone
    cases rest with
    | nil => rfl
    | cons first rest =>
        have hstopped := h.stopped first rfl
        rw [Progress.Passes, not_or] at hstopped
        exact absurd ⟨first, by simp, hstopped⟩ hnone
  · rintro rfl ⟨task, htask, hopen, hunreadable⟩
    rw [List.append_nil] at htask
    exact (h.passed task htask).elim hopen hunreadable

/-- Nothing is found after a task that stops the look. -/
theorem completed_round_of_not_passes {first : Task} (h : ¬ p.Passes first) :
    (round p o (first :: rest)).completed = [] := by
  rw [Progress.Passes, not_or, Task.isReadable_iff o] at h
  cases heval : first.evaluate o with
  | error fault => simp [round, h.1, heval]
  | ok verdict => exact absurd ⟨verdict, heval⟩ h.2

theorem mem_completed_cons_iff {first task : Task} (h : p.Passes first) :
    task ∈ (round p o (first :: rest)).completed ↔
      (task = first ∧ ¬ p.completedTasks.contains first.id = true ∧ first.IsMet o) ∨
        task ∈ (round p o rest).completed := by
  by_cases hfirst : p.completedTasks.contains first.id = true
  · simp [round, hfirst]
  · obtain ⟨verdict, heval⟩ := (Task.isReadable_iff o).1 (h.resolve_left hfirst)
    have hmet : first.IsMet o ↔ verdict.isDone = true := by
      rw [← Task.evaluate_isDone_iff, heval]
      simp
    rw [round, if_neg hfirst, heval, hmet]
    dsimp only
    rw [List.mem_append]
    by_cases hdone : verdict.isDone = true <;> simp [hdone, hfirst]

/-- The open ones of the tasks that are seen are found completed if they are met. -/
theorem mem_completed_iff (h : p.Sees tasks seen rest) {task : Task} :
    task ∈ (round p o tasks).completed ↔
      task ∈ seen ∧ ¬ p.completedTasks.contains task.id = true ∧ task.IsMet o := by
  obtain rfl := h.split
  induction seen with
  | nil =>
      cases rest with
      | nil => simp [round]
      | cons first rest =>
          rw [List.nil_append, completed_round_of_not_passes (h.stopped first rfl)]
          simp
  | cons first seen ih =>
      obtain ⟨hpasses, hlater⟩ := h.cons
      rw [List.cons_append, mem_completed_cons_iff hpasses, ih hlater, List.mem_cons, or_and_right]
      -- What is said of the first task is said of any task that is the first one.
      refine or_congr_left (and_congr_right ?_)
      rintro rfl
      rfl

/-- After an observation those tasks are marked that were so before or have been found completed. -/
theorem completedTasks_record (hm : t.mission? = some m) :
    (t.record o).2.progress.completedTasks = t.progress.completedTasks.addAll
      ((round t.progress o m.tasks).completed.map (·.id)) := by
  cases hfault : (round t.progress o m.tasks).fault with
  | some fault => rw [(record_of_fault hm hfault).2, completing]
  | none =>
      by_cases hnone : (round t.progress o m.tasks).completed = []
      · simp [record, hm, hfault, hnone]
      · simp [record, hm, hfault, hnone, foldl_completeTask, settle_completedTasks]

/-- It can be decided whether a task is completed exactly if its pattern can be read, and it is
completed exactly if all that it asks for is met. An observation is at fault exactly if an open task of
the open mission cannot be decided. Then nothing is told of, but the tasks met before it are marked as
they are without a fault. -/
theorem observations_are_decided (task : Task) (t : Tracker) (o : Observation) :
    ((∃ verdict, task.evaluate o = .ok verdict) ↔ task.IsReadable) ∧
    ((∃ verdict, task.evaluate o = .ok verdict ∧ verdict.isDone = true) ↔ task.IsMet o) ∧
    ((∃ fault, (t.record o).1.fault = some fault) ↔ t.IsStuck) ∧
    ∀ m, t.mission? = some m → ∃ seen rest, t.progress.Sees m.tasks seen rest ∧
      (rest = [] ↔ (t.record o).1.fault = none) ∧ (rest ≠ [] → (t.record o).1.events = []) ∧
      ∀ name, (t.record o).2.progress.completedTasks.contains name = true ↔
        t.progress.completedTasks.contains name = true ∨
          ∃ task ∈ seen, task.id = name ∧ task.IsMet o := by
  refine ⟨(Task.isReadable_iff o).symm, Task.evaluate_isDone_iff, exists_fault_record_iff,
    fun m hm => ?_⟩
  obtain ⟨seen, rest, hsees⟩ := t.progress.exists_sees m.tasks
  have hrest := fault_round_eq_none_iff (o := o) hsees
  refine ⟨seen, rest, hsees, ?_, fun hne => ?_, fun name => ?_⟩
  · rw [record_fault hm, hrest]
  · cases hfault : (round t.progress o m.tasks).fault with
    | none => exact absurd (hrest.1 hfault) hne
    | some fault => simp [record, hm, hfault]
  · rw [completedTasks_record hm, Marks.contains_addAll, List.mem_map]
    simp only [mem_completed_iff hsees]
    constructor
    · rintro (hbefore | ⟨task, ⟨htask, -, hmet⟩, hname⟩)
      · exact .inl hbefore
      · exact .inr ⟨task, htask, hname, hmet⟩
    · rintro (hbefore | ⟨task, htask, hname, hmet⟩)
      · exact .inl hbefore
      · by_cases hopen : t.progress.completedTasks.contains task.id = true
        · exact .inl (hname ▸ hopen)
        · exact .inr ⟨task, ⟨htask, hopen, hmet⟩, hname⟩

/-- The document of a task that asks for output in which a pattern occurs. -/
def searchTask (id : String) (pattern : Json) : Json :=
  .object [("id", .string id), ("outputPattern", pattern), ("requireOutput", .bool true)]

theorem ofJson_searchTask (id : String) (pattern : Json) : Task.ofJson (searchTask id pattern) =
    .ok ⟨id, "", pattern, .null, .null, true, []⟩ := by
  have hread : Task.ofJson (searchTask id pattern) = .ok ⟨id, "", pattern, .null, .null, true,
      [].mergeSort fun a b => decide (a.level ≤ b.level)⟩ := rfl
  rw [hread, List.mergeSort_nil]

/-- The document of an adventure with a task that can be completed and one whose pattern repeats
something too often. -/
def countlessDocument : Json :=
  .object [("id", .string "count"), ("missions", .array [.object [("id", .string "one"),
    ("tasks", .array [searchTask "look" .null, searchTask "find" (.string "x{4294967295}")])]])]

/-- The adventure in that document. -/
def countless : Adventure :=
  ⟨"count", "count", "", [⟨"one", "one", "", [⟨"look", "", .null, .null, .null, true, []⟩,
    ⟨"find", "", .string "x{4294967295}", .null, .null, true, []⟩], .null⟩], .null, [], []⟩

theorem ofJson_countlessDocument : Adventure.ofJson countlessDocument = .ok countless := by
  have hnames : Adventure.repeated (Adventure.taskIds countless.missions) = [] := by
    rw [Adventure.repeated_eq_nil_iff]
    change ["look", "find"].Nodup
    decide
  have htasks : Adventure.Reader.all Task.ofJson [searchTask "look" .null,
      searchTask "find" (.string "x{4294967295}")] = .ok (countless.missions.flatMap (·.tasks)) := by
    rw [Adventure.Reader.all, ofJson_searchTask, Adventure.Reader.all, ofJson_searchTask]
    rfl
  have hmission : Mission.ofJson (.object [("id", .string "one"), ("tasks", .array [
      searchTask "look" .null, searchTask "find" (.string "x{4294967295}")])]) =
      .ok ⟨"one", "one", "", countless.missions.flatMap (·.tasks), .null⟩ :=
    bind_eq_ok_iff.2 ⟨_, rfl, bind_eq_ok_iff.2 ⟨_, rfl, bind_eq_ok_iff.2 ⟨_, rfl,
      bind_eq_ok_iff.2 ⟨_, htasks, rfl⟩⟩⟩⟩
  have hmissions : Adventure.Reader.all Mission.ofJson [.object [("id", .string "one"),
      ("tasks", .array [searchTask "look" .null, searchTask "find" (.string "x{4294967295}")])]] =
      .ok countless.missions := by
    rw [Adventure.Reader.all, hmission]
    rfl
  unfold Adventure.ofJson countlessDocument
  dsimp only
  refine bind_eq_ok_iff.2 ⟨_, rfl, ?_⟩
  refine bind_eq_ok_iff.2 ⟨_, hmissions, ?_⟩
  rw [hnames]
  rfl

/-- A task that its document gives is not decided, but raises a fault, and the task before it is
marked although nothing is told of it. -/
theorem countless_task_is_not_decided :
    (∃ task, Task.ofJson (searchTask "find" (.string "x{4294967295}")) = .ok task ∧
      task.evaluate .printing = .error .tooManyRepetitions) ∧
    Adventure.ofJson countlessDocument = .ok countless ∧
    ((start countless).record .printing).1.fault = some .tooManyRepetitions ∧
    ((start countless).record .printing).1.events = [] ∧
    (start countless).progress.completedTasks.contains "look" = false ∧
    ((start countless).record .printing).2.progress.completedTasks.contains "look" = true :=
  ⟨⟨_, ofJson_searchTask _ _, rfl⟩, ofJson_countlessDocument, rfl, rfl, rfl, rfl⟩

end Tracker

end PracticeShell
