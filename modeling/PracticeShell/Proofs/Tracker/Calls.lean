import PracticeShell.Proofs.Adventure.Refusing
import PracticeShell.Proofs.Tracker.Settling

/-!
# Calls to a tracker

A tracker is told what can be seen after a command, or asked for a hint. A call that is taken leaves
a settled tracker settled (`Tracker.IsSettled.call`) with a progress that contains the one before
(`Progress.Within`), and what an observation makes it tell of is what has been added
(`Tracker.Tells`). From this all runs of calls are described (`Tracker.progress_grows_as_told`).
-/

namespace PracticeShell

open Run

/-- The event that tells of the completion of a task. -/
def Event.ofTask (m : Mission) (task : Task) : Event := .taskCompleted task.id m.id task.description

/-- Whether an event tells of the completion of a task. -/
def Event.isTask : Event → Bool
  | taskCompleted .. => true
  | _ => false

namespace Progress

theorem lookup_cons_eq_ite {α : Type} (id other : String) (a : α) (rest : List (String × α)) :
    ((id, a) :: rest).lookup other = if other = id then some a else rest.lookup other := by
  by_cases hother : other = id
  · simp [hother]
  · have hbeq : (other == id) = false := beq_false_of_ne hother
    simp [List.lookup_cons, hother, hbeq]

theorem lookup_setHint (id other : String) (level : Int) (hints : List (String × Int)) :
    (setHint id level hints).lookup other =
      if other = id then some level else hints.lookup other := by
  induction hints with
  | nil => exact lookup_cons_eq_ite id other level []
  | cons first rest ih =>
      obtain ⟨name, old⟩ := first
      unfold setHint
      by_cases hname : name = id
      · rw [if_pos hname, hname, lookup_cons_eq_ite, lookup_cons_eq_ite]
        split <;> rfl
      · rw [if_neg hname, lookup_cons_eq_ite, lookup_cons_eq_ite, ih]
        by_cases hother : other = id
        · subst hother
          simp [Ne.symm hname]
        · simp [hother]

/-- Whether nothing in a progress is missing from another, and the other is as far or further. -/
structure Within (p q : Progress) : Prop where
  missionIndex : p.missionIndex ≤ q.missionIndex
  completedTasks : p.completedTasks.values <+: q.completedTasks.values
  completedMissions : p.completedMissions.values <+: q.completedMissions.values
  hintsUsed : ∀ id level, p.hintsUsed.lookup id = some level →
    ∃ higher, q.hintsUsed.lookup id = some higher ∧ level ≤ higher

theorem lasting_within : Lasting Within := by
  constructor
  · intro p
    exact ⟨Int.le_refl _, List.prefix_rfl, List.prefix_rfl,
      fun _ level h => ⟨level, h, Int.le_refl level⟩⟩
  · intro p q r hpq hqr
    constructor
    · exact Int.le_trans hpq.missionIndex hqr.missionIndex
    · exact hpq.completedTasks.trans hqr.completedTasks
    · exact hpq.completedMissions.trans hqr.completedMissions
    · intro id level hlevel
      obtain ⟨higher, hhigher, hle⟩ := hpq.hintsUsed id level hlevel
      obtain ⟨highest, hhighest, hle'⟩ := hqr.hintsUsed id higher hhigher
      exact ⟨highest, hhighest, Int.le_trans hle hle'⟩

end Progress

namespace Tracker

section Round

variable {p : Progress} {o : Observation} {tasks : List Task}

theorem round_completed_sublist : (round p o tasks).completed.Sublist tasks := by
  induction tasks with
  | nil => exact .slnil
  | cons task rest ih =>
      unfold round
      split
      · exact ih.cons task
      · split
        · exact List.nil_sublist _
        · rename_i verdict _
          by_cases hdone : verdict.isDone = true
          · simpa [hdone] using ih
          · simpa [hdone] using ih.cons task

theorem open_of_mem_completed {task : Task} (h : task ∈ (round p o tasks).completed) :
    ¬ p.completedTasks.contains task.id = true := by
  induction tasks with
  | nil => cases h
  | cons first rest ih =>
      unfold round at h
      split at h
      · exact ih h
      · rename_i hfirst
        split at h
        · cases h
        · rcases List.mem_append.1 h with hhead | hrest
          · split at hhead
            · rwa [List.mem_singleton.1 hhead]
            · cases hhead
          · exact ih hrest

end Round

/-- A tracker with some more tasks completed. -/
def completing (t : Tracker) (tasks : List Task) : Tracker :=
  { t with progress := { t.progress with
    completedTasks := t.progress.completedTasks.addAll (tasks.map (·.id)) } }

theorem foldl_completeTask (p : Progress) (tasks : List Task) :
    tasks.foldl (fun p task => p.completeTask task.id) p =
      { p with completedTasks := p.completedTasks.addAll (tasks.map (·.id)) } := by
  induction tasks generalizing p with
  | nil => rfl
  | cons task rest ih => exact ih (p.completeTask task.id)

/-- An observation that is taken in changes nothing and nothing is told, or some open tasks of the
open mission are completed, and the tracker settles down. -/
theorem record_cases {t : Tracker} {o : Observation} (h : (t.record o).1.fault = none) :
    ((t.record o).1.events = [] ∧ (t.record o).2 = t) ∨
      ∃ m added, t.mission? = some m ∧ added ≠ [] ∧ added.Sublist m.tasks ∧
        (∀ task ∈ added, ¬ t.progress.completedTasks.contains task.id = true) ∧
        (t.record o).1.events = added.map (Event.ofTask m) ++ (t.completing added).settle.1 ∧
        (t.record o).2 = (t.completing added).settle.2 := by
  cases hm : t.mission? with
  | none =>
      left
      simp [record, hm]
  | some m =>
      cases hfault : (round t.progress o m.tasks).fault with
      | some fault => simp [record, hm, hfault] at h
      | none =>
          by_cases hnone : (round t.progress o m.tasks).completed = []
          · left
            simp [record, hm, hfault, hnone]
          · right
            refine ⟨m, _, rfl, hnone, round_completed_sublist, fun task => open_of_mem_completed,
              ?_, ?_⟩
            · simp [record, hm, hfault, hnone, foldl_completeTask, completing, Event.ofTask]
            · simp [record, hm, hfault, hnone, foldl_completeTask, completing]

/-- Something that a tracker is told or asked. -/
inductive Call
  /-- What can be seen after a command. -/
  | observe (o : Observation)
  | hint (level : Int)

/-- A tracker after a call. -/
def call (t : Tracker) : Call → Tracker
  | .observe o => (t.record o).2
  | .hint level => (t.hint level).2

/-- What a tracker tells of when it is called. -/
def told (t : Tracker) : Call → List Event
  | .observe o => (t.record o).1.events
  | .hint _ => []

/-- Whether a call is taken without a fault. -/
def Takes (t : Tracker) : Call → Prop
  | .observe o => (t.record o).1.fault = none
  | .hint _ => True

/-- A tracker after some calls. -/
def after (t : Tracker) (calls : List Call) : Tracker := calls.foldl call t

@[simp]
theorem after_nil (t : Tracker) : t.after [] = t := rfl

@[simp]
theorem after_cons (t : Tracker) (c : Call) (calls : List Call) :
    t.after (c :: calls) = (t.call c).after calls := rfl

/-- Whether some calls are taken one after the other. -/
def TakesAll (t : Tracker) : List Call → Prop
  | [] => True
  | c :: calls => t.Takes c ∧ TakesAll (t.call c) calls

theorem hint_cases (t : Tracker) (level : Int) : t.hint level = (none, t) ∨
    ∃ task text, t.task? = some task ∧
      t.hint level = (some text, { t with progress := t.progress.seeHint task.id level }) := by
  unfold hint
  cases t.task? with
  | none => exact .inl rfl
  | some task =>
      dsimp only
      split
      · exact .inl rfl
      · cases task.hint? level with
        | none => exact .inl rfl
        | some text => exact .inr ⟨task, text, rfl, rfl⟩

theorem within_seeHint (p : Progress) (id : String) (level : Int) :
    p.Within (p.seeHint id level) := by
  constructor
  · exact Int.le_refl _
  · exact List.prefix_rfl
  · exact List.prefix_rfl
  · intro other lower hlower
    change ∃ higher, (Progress.setHint id (max level (p.hintLevel id)) p.hintsUsed).lookup other =
      some higher ∧ lower ≤ higher
    rw [Progress.lookup_setHint]
    by_cases hother : other = id
    · have hlevel : p.hintLevel id = lower := by rw [Progress.hintLevel, ← hother, hlower]; rfl
      rw [if_pos hother, hlevel]
      exact ⟨_, rfl, Int.le_max_right _ _⟩
    · rw [if_neg hother]
      exact ⟨lower, hlower, Int.le_refl lower⟩

section Settled

variable {t : Tracker} (h : t.IsSettled)

include h

theorem IsSettled.lt_of_mission? {m : Mission} (hm : t.mission? = some m) :
    t.progress.missionIndex < t.adventure.missions.length := by
  rw [mission?_eq t h.nonneg] at hm
  have hlength := (List.getElem?_eq_some_iff.1 hm).1
  omega

theorem IsSettled.isComplete_iff : t.isComplete = true ↔ t.mission? = none := by
  constructor
  · intro hcomplete
    exact if_pos hcomplete
  · intro hnone
    have hnonneg := h.nonneg
    rw [mission?_eq t hnonneg, List.getElem?_eq_none_iff] at hnone
    exact decide_eq_true (by omega)

theorem IsSettled.within_settle_completing (tasks : List Task) :
    t.progress.Within (t.completing tasks).settle.2.progress := by
  have hfirst : (t.completing tasks).firstIndex = t.progress.missionIndex := h.firstIndex_eq
  have hindex := (t.completing tasks).settle_missionIndex
  constructor
  · omega
  · rw [settle_completedTasks]
    exact Marks.prefix_values_addAll _ _
  · rw [settle_completedMissions]
    exact Marks.prefix_values_addAll _ _
  · rw [settle_hintsUsed]
    intro id level hlevel
    exact ⟨level, hlevel, Int.le_refl level⟩

theorem IsSettled.seeHint (id : String) (level : Int) :
    IsSettled { t with progress := t.progress.seeHint id level } :=
  ⟨h.nonneg, h.le_length, h.unfinished, h.taskIndex_eq⟩

/-- A call that is taken keeps a tracker settled, and nothing is lost from the progress. -/
theorem IsSettled.call {c : Call} (hc : t.Takes c) :
    (t.call c).IsSettled ∧ t.progress.Within (t.call c).progress := by
  cases c with
  | observe o =>
      change (t.record o).2.IsSettled ∧ t.progress.Within (t.record o).2.progress
      rcases record_cases hc with ⟨-, hsame⟩ | ⟨m, added, -, -, -, -, -, hlater⟩
      · rw [hsame]
        exact ⟨h, Progress.lasting_within.refl _⟩
      · rw [hlater]
        exact ⟨isSettled_settle _, h.within_settle_completing added⟩
  | hint level =>
      change (t.hint level).2.IsSettled ∧ t.progress.Within (t.hint level).2.progress
      rcases t.hint_cases level with hsame | ⟨task, text, -, hlater⟩
      · rw [hsame]
        exact ⟨h, Progress.lasting_within.refl _⟩
      · rw [hlater]
        exact ⟨h.seeHint _ _, within_seeHint _ _ _⟩

theorem IsSettled.after {calls : List Call} (hcalls : t.TakesAll calls) :
    (t.after calls).IsSettled ∧ t.progress.Within (t.after calls).progress := by
  induction calls generalizing t with
  | nil => exact ⟨h, Progress.lasting_within.refl _⟩
  | cons c calls ih =>
      obtain ⟨hsettled, hwithin⟩ := h.call hcalls.1
      obtain ⟨hlater, hrest⟩ := ih hsettled hcalls.2
      exact ⟨hlater, Progress.lasting_within.trans hwithin hrest⟩

end Settled

theorem exists_of_mem_news {marks : Marks} {missions : List Mission} {e : Event}
    (h : e ∈ marks.news missions) : ∃ m ∈ missions, e = Event.ofMission m := by
  induction missions generalizing marks with
  | nil => cases h
  | cons m rest ih =>
      rcases List.mem_append.1 h with hhead | hrest
      · by_cases hm : marks.contains m.id = true
        · rw [if_pos hm] at hhead
          cases hhead
        · rw [if_neg hm] at hhead
          exact ⟨m, List.mem_cons_self, List.mem_singleton.1 hhead⟩
      · obtain ⟨n, hn, he⟩ := ih hrest
        exact ⟨n, List.mem_cons_of_mem _ hn, he⟩

/-- Whether what is told as a tracker goes on to a later one is what has been added to its
progress. -/
structure Tells (t later : Tracker) (events : List Event) : Prop where
  tasks : ∀ m, t.mission? = some m → ∃ added : List Task,
    added.Sublist m.tasks ∧ (added.map (·.id)).Nodup ∧
      (∀ task ∈ added, t.progress.completedTasks.contains task.id = false) ∧
      later.progress.completedTasks.values =
        t.progress.completedTasks.values ++ added.map (.string ·.id) ∧
      events.filter Event.isTask = added.map (Event.ofTask m)
  ends : (∃ score, events.getLast? = some (.adventureCompleted t.adventure.id score)) ↔
    t.isComplete = false ∧ later.isComplete = true
  silent : events = [] ↔ later = t
  afterwards : t.isComplete = true → events = []

theorem filter_isTask_settled (marks : Marks) (missions : List Mission) (a : Adventure)
    (complete : Bool) (score : Int) :
    (marks.news missions ++ if complete then [Event.adventureCompleted a.id score] else []).filter
      Event.isTask = [] := by
  rw [List.filter_eq_nil_iff]
  intro e he
  rcases List.mem_append.1 he with hmission | hend
  · obtain ⟨m, -, rfl⟩ := exists_of_mem_news hmission
    simp [Event.ofMission, Event.isTask]
  · split at hend
    · rw [List.mem_singleton.1 hend]
      simp [Event.isTask]
    · cases hend

section

variable {t : Tracker} (h : t.IsSettled) {m : Mission} (hm : t.mission? = some m)
  {added : List Task} (hadded : added ≠ [])

include h hm

theorem IsSettled.settle_completing_events : (t.completing added).settle.1 =
    t.progress.completedMissions.news (t.completing added).passing ++
      if (t.completing added).settle.2.isComplete then
        [.adventureCompleted t.adventure.id (t.completing added).settle.2.score] else [] := by
  have hlt : (t.completing added).firstIndex < (t.completing added).adventure.missions.length := by
    rw [show (t.completing added).firstIndex = _ from h.firstIndex_eq]
    exact h.lt_of_mission? hm
  rw [settle_events, ending_upcoming _ hlt]
  rfl

include hadded

theorem IsSettled.tells_of_completing (hsublist : added.Sublist m.tasks)
    (hids : (m.tasks.map (·.id)).Nodup)
    (hopen : ∀ task ∈ added, ¬ t.progress.completedTasks.contains task.id = true) :
    t.Tells (t.completing added).settle.2
      (added.map (Event.ofTask m) ++ (t.completing added).settle.1) := by
  have hnodup : (added.map (·.id)).Nodup := hids.sublist (hsublist.map _)
  have hvalues : (t.completing added).settle.2.progress.completedTasks.values =
      t.progress.completedTasks.values ++ added.map (.string ·.id) := by
    rw [settle_completedTasks]
    change (t.progress.completedTasks.addAll (added.map (·.id))).values = _
    rw [Marks.values_addAll hnodup (by simpa using hopen), List.map_map]
    rfl
  have hnot : t.isComplete = false := by
    rw [← Bool.not_eq_true, h.isComplete_iff, hm]
    simp
  rw [h.settle_completing_events hm]
  constructor
  · intro n hn
    obtain rfl : m = n := Option.some.inj (hm.symm.trans hn)
    refine ⟨added, hsublist, hnodup, by simpa using hopen, hvalues, ?_⟩
    rw [List.filter_append, filter_isTask_settled, List.append_nil, List.filter_eq_self]
    intro e he
    obtain ⟨task, -, rfl⟩ := List.mem_map.1 he
    rfl
  · by_cases hcomplete : (t.completing added).settle.2.isComplete = true
    · rw [if_pos hcomplete, ← List.append_assoc, List.getLast?_concat]
      exact iff_of_true ⟨_, rfl⟩ ⟨hnot, hcomplete⟩
    · rw [if_neg hcomplete, List.append_nil]
      refine iff_of_false ?_ fun hboth => hcomplete hboth.2
      rintro ⟨score, hlast⟩
      rcases List.mem_append.1 (List.mem_of_getLast? hlast) with htask | hmission
      · obtain ⟨task, -, htask⟩ := List.mem_map.1 htask
        cases htask
      · obtain ⟨n, -, hmission⟩ := exists_of_mem_news hmission
        cases hmission
  · constructor
    · intro hnone
      simp [hadded] at hnone
    · intro hsame
      rw [hsame] at hvalues
      simp [hadded] at hvalues
  · intro hcomplete
    rw [hnot] at hcomplete
    cases hcomplete

end

/-- What is told when an observation is taken in is what has been added. -/
theorem IsSettled.tells {t : Tracker} (h : t.IsSettled)
    (hids : (Adventure.taskIds t.adventure.missions).Nodup) {o : Observation}
    (ho : (t.record o).1.fault = none) : t.Tells (t.record o).2 (t.record o).1.events := by
  rcases record_cases ho with ⟨hnone, hsame⟩ |
    ⟨m, added, hm, hadded, hsublist, hopen, hevents, hlater⟩
  · rw [hnone, hsame]
    constructor
    · intro m _
      exact ⟨[], List.nil_sublist _, List.nodup_nil, by simp, by simp, rfl⟩
    · refine iff_of_false (by simp) fun hboth => ?_
      rw [hboth.1] at hboth
      cases hboth.2
    · exact iff_of_true rfl rfl
    · exact fun _ => rfl
  · rw [hevents, hlater]
    have hmission : m ∈ t.adventure.missions := by
      rw [mission?_eq t h.nonneg] at hm
      exact List.mem_of_getElem? hm
    exact h.tells_of_completing hm hadded hsublist
      (Adventure.nodup_of_mem_missions hids hmission) hopen

theorem adventure_call (t : Tracker) (c : Call) : (t.call c).adventure = t.adventure := by
  cases c with
  | observe o => exact record_adventure t o
  | hint level => exact hint_adventure t level

theorem adventure_after (t : Tracker) (calls : List Call) :
    (t.after calls).adventure = t.adventure := by
  induction calls generalizing t with
  | nil => rfl
  | cons c calls ih => rw [after_cons, ih, adventure_call]

/-- Whatever progress a tracker of an adventure begins with: after any calls that are taken, its
index is in range; while it is not complete its open task is there and is the first one of the open
mission that is not completed; nothing is lost from its progress by further calls; and what it tells
of an observation is what is added to its progress. -/
theorem progress_grows_as_told {v : Json} {a : Adventure} (ha : Adventure.ofJson v = .ok a)
    (p : Progress) {calls : List Call} (hcalls : (resume a p).TakesAll calls) :
    (0 ≤ ((resume a p).after calls).progress.missionIndex ∧
      ((resume a p).after calls).progress.missionIndex ≤ a.missions.length) ∧
    (((resume a p).after calls).isComplete = false →
      ∃ m task, ((resume a p).after calls).mission? = some m ∧
        ((resume a p).after calls).task? = some task ∧
        m.tasks.find? (fun task => !((resume a p).after calls).progress.completedTasks.contains
          task.id) = some task) ∧
    (∀ more, ((resume a p).after calls).TakesAll more →
      ((resume a p).after calls).progress.Within
        (((resume a p).after calls).after more).progress) ∧
    ∀ o, (((resume a p).after calls).record o).1.fault = none →
      ((resume a p).after calls).Tells (((resume a p).after calls).record o).2
        (((resume a p).after calls).record o).1.events := by
  have hsettled : ((resume a p).after calls).IsSettled :=
    ((isSettled_settle ⟨a, p⟩).after hcalls).1
  have hadventure : ((resume a p).after calls).adventure = a := adventure_after _ calls
  have hids := Adventure.nodup_taskIds_of_ofJson ha
  rw [← hadventure] at hids
  constructor
  · rw [← congrArg (·.missions.length) hadventure]
    exact ⟨hsettled.nonneg, hsettled.le_length⟩
  constructor
  · intro hopen
    cases hm : ((resume a p).after calls).mission? with
    | none =>
        rw [hsettled.isComplete_iff.2 hm] at hopen
        cases hopen
    | some m =>
        obtain ⟨task, htask⟩ := hsettled.exists_task? hm
        exact ⟨m, task, rfl, htask, (hsettled.task?_eq hm).symm.trans htask⟩
  constructor
  · intro more hmore
    exact (hsettled.after hmore).2
  · intro o ho
    exact hsettled.tells hids ho

end Tracker

section Walk

variable (first second : String)

/-- The document of an adventure with two missions of one task each. -/
def Json.walkDocument : Json :=
  .object [("id", .string "walk"),
    ("missions", .array [mission first "look", mission second "leave"])]
where
  mission (id task : String) : Json :=
    .object [("id", .string id), ("tasks", .array [.object [("id", .string task),
      ("requireOutput", .bool true),
      ("hints", .array [.object [("level", .int 2), ("text", .string "Try a command.")]])]])]

/-- The adventure in the document. -/
def Adventure.walk : Adventure :=
  ⟨"walk", "walk", "", [mission first "look", mission second "leave"], .null, [], []⟩
where
  mission (id task : String) : Mission :=
    ⟨id, id, "", [⟨task, "", .null, .null, .null, true, [⟨2, "Try a command."⟩]⟩], .null⟩

theorem Mission.ofJson_walk (id task : String) :
    ofJson (Json.walkDocument.mission id task) = .ok (Adventure.walk.mission id task) := by
  have hhints : [(⟨2, "Try a command."⟩ : Hint)].mergeSort
      (fun a b => decide (a.level ≤ b.level)) = [⟨2, "Try a command."⟩] :=
    List.mergeSort_singleton _
  have hread : ofJson (Json.walkDocument.mission id task) = .ok ⟨id, id, "", [⟨task, "", .null,
    .null, .null, true, [⟨2, "Try a command."⟩].mergeSort fun a b => decide (a.level ≤ b.level)⟩],
    .null⟩ := rfl
  rw [hread, hhints]
  rfl

theorem Adventure.ofJson_walkDocument :
    ofJson (.walkDocument first second) = .ok (.walk first second) := by
  have hnames : repeated (taskIds (walk first second).missions) = [] := by
    rw [repeated_eq_nil_iff]
    change ["look", "leave"].Nodup
    decide
  have hmissions : Reader.all Mission.ofJson [Json.walkDocument.mission first "look",
      Json.walkDocument.mission second "leave"] = .ok (walk first second).missions := by
    rw [Reader.all, Mission.ofJson_walk, Reader.all, Mission.ofJson_walk]
    rfl
  unfold ofJson Json.walkDocument
  dsimp only
  refine bind_eq_ok_iff.2 ⟨_, rfl, ?_⟩
  refine bind_eq_ok_iff.2 ⟨_, hmissions, ?_⟩
  rw [hnames]
  rfl

end Walk

/-- What can be seen after a command that prints something. -/
def Observation.printing : Observation := ⟨"a path", "", 0, none, "ls", [], "/", "ada"⟩

namespace Tracker

/-- A saved progress with an index that is out of range and a mark that is no name. -/
def oddProgress : Progress := ⟨-1, 3, ⟨[.string "look", .int 5]⟩, .empty, []⟩

theorem odd_progress_grows_as_told :
    Adventure.ofJson (.walkDocument "north" "south") = .ok (.walk "north" "south") ∧
    (resume (.walk "north" "south") oddProgress).TakesAll [.hint 2] ∧
    ((resume (.walk "north" "south") oddProgress).after [.hint 2]).progress.missionIndex = 1 ∧
    ((resume (.walk "north" "south") oddProgress).after [.hint 2]).Tells
      ((resume (.walk "north" "south") oddProgress).after [.hint 2, .observe .printing])
      [.taskCompleted "leave" "south" "", .missionCompleted "south" "south" .null,
        .adventureCompleted "walk" 1480] := by
  have hread : Adventure.ofJson (.walkDocument "north" "south") = .ok (.walk "north" "south") :=
    Adventure.ofJson_walkDocument _ _
  have htaken : (resume (.walk "north" "south") oddProgress).TakesAll [.hint 2] :=
    ⟨trivial, trivial⟩
  have hfault : (((resume (.walk "north" "south") oddProgress).after [.hint 2]).record
      .printing).1.fault = none := rfl
  have hevents : (((resume (.walk "north" "south") oddProgress).after [.hint 2]).record
      .printing).1.events = [.taskCompleted "leave" "south" "",
        .missionCompleted "south" "south" .null, .adventureCompleted "walk" 1480] := rfl
  have htells := (progress_grows_as_told hread oddProgress htaken).2.2.2 .printing hfault
  rw [hevents] at htells
  exact ⟨hread, htaken, rfl, htells⟩

end Tracker

end PracticeShell
