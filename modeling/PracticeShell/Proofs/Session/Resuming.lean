import PracticeShell.Proofs.Progress.Saving
import PracticeShell.Proofs.Session.Advancing
import PracticeShell.Proofs.Session.Starting
import PracticeShell.Proofs.Tracker.Resuming

/-!
# Back to the beginning, and on in another session

Whatever has happened to a session, going back to the beginning does not fail, and its world and its
progress are then those of a session that starts at that time with nothing saved
(`Session.reset_starts_over`). The saved progress is forgotten, and going back once more changes
nothing but the journal.

At every point of a run without faults the store of a session gives the progress of its tracker back
(`Session.IsKept`): what changes the progress saves it, and what goes back to the beginning forgets
it. So a session that begins at that point goes on from where the first one is
(`Session.resumes_where_it_was`).
-/

namespace PracticeShell.Session

open Run

variable {s : Session} {o : SessionOptions} {adventure : Option Adventure}
  {store : Option ProgressStore} {resume : Bool} {now : Int}

/-- Without saved progress a session starts with a fresh tracker. -/
theorem startTracker_of_nothing_saved
    (h : ∀ a st, adventure = some a → store = some st → st.load a.id = .ok none) :
    startTracker adventure store resume = .ok (adventure.map Tracker.start) := by
  refine startTracker_eq_ok_iff.2 ?_
  cases adventure with
  | none => exact .inl ⟨rfl, rfl⟩
  | some a =>
      refine .inr ⟨a, Progress.start, rfl, ?_, rfl⟩
      unfold savedProgress
      split
      · rw [h a _ rfl rfl]
        rfl
      · rfl

/-- A store with nothing on its disk. -/
def emptyStore : ProgressStore := ⟨"/saved", .empty []⟩

/-- A session that has just begun with an adventure and a store. -/
def setOut : Session :=
  { justBegun with
    tracker := some (Tracker.start (.walk "north" "south"))
    store := some emptyStore }

theorem start_setOut : start ⟨"ada", "lab", "secret", [], true, 0⟩ (some (.walk "north" "south"))
    (some emptyStore) true 0 = .ok setOut := by
  have hload : emptyStore.load "walk" = .ok none := rfl
  obtain ⟨tracker, w, -, hworld, hbegun⟩ := start_eq_ok_iff.1 start_justBegun
  have htracker : startTracker (some (.walk "north" "south")) (some emptyStore) true =
      .ok (some (Tracker.start (.walk "north" "south"))) := by
    refine startTracker_of_nothing_saved ?_
    rintro a st ⟨⟩ ⟨⟩
    exact hload
  refine start_eq_ok_iff.2 ⟨_, w, htracker, hworld, ?_⟩
  rw [setOut, hbegun]

end PracticeShell.Session

namespace PracticeShell

/-- Whether a store gives back the progress of a tracker. A fresh one does not have to be saved. -/
def ProgressStore.Recalls (st : ProgressStore) (t : Tracker) : Prop :=
  st.load t.adventure.id = .ok none ∧ t = Tracker.start t.adventure ∨
    ∃ p, st.load t.adventure.id = .ok (some p) ∧ t.progress.Same p

namespace Session

open Run

variable {s t : Session} {a : Adventure} {o : SessionOptions} {store : ProgressStore}
  {resume : Bool} {now : Int}

/-- Whether an input does not fail. -/
def Accepts (s : Session) (i : Input) : Prop := ∃ t, i.act.run s = .ok () t

/-- Whether no input of a run fails. -/
def AcceptsAll (s : Session) : List Input → Prop
  | [] => True
  | i :: inputs => s.Accepts i ∧ AcceptsAll (s.next i) inputs

/-- Whether the file of an adventure can be written, if a session has a store. -/
def CanSave (s : Session) (a : Adventure) : Prop := ∀ st, s.store = some st → st.IsWritable a.id

/-- Whether the tracker of a session follows an adventure and the store gives its progress back. -/
def IsKept (s : Session) (a : Adventure) : Prop :=
  ∃ u st, s.tracker = some u ∧ s.store = some st ∧ u.adventure = a ∧ u.IsSound ∧ st.Recalls u

theorem recalls_of_save {u : Tracker} (hu : u.IsSound) (ha : u.adventure.IsCountable)
    {st later : ProgressStore} (hst : st.IsWritable u.adventure.id) {stamp : String}
    {written : Bool} (hsave : st.save u.adventure.id u.progress stamp = .ok (written, later)) :
    later.Recalls u := by
  obtain rfl := hst.written hsave
  exact .inr (ProgressStore.load_of_save (hu.isExact ha) hsave)

/-- What an input does to the progress of a session and to its store goes together. -/
theorem IsKept.advances (h : s.IsKept a) (ha : a.IsCountable) (hbefore : s.CanSave a)
    (hafter : t.CanSave a) (hst : Advances s t) : t.IsKept a := by
  obtain ⟨u, st, htracker, hstore, rfl, hsound, hrecalls⟩ := h
  cases hst with
  | idly h => exact ⟨u, st, h.tracker.trans htracker, h.store.trans hstore, rfl, hsound, hrecalls⟩
  | @byCalls w calls hw htaken hlater hsaved _ =>
      obtain rfl := Option.some.inj (hw.symm.trans htracker)
      have hadventure := w.adventure_after calls
      rw [hstore] at hsaved
      generalize hnew : t.store = new at hsaved
      cases hsaved with
      | inFile hsave =>
          refine ⟨_, _, hlater, hnew, hadventure, hsound.after htaken, ?_⟩
          rw [← hadventure] at ha
          exact recalls_of_save (hsound.after htaken) ha (hadventure ▸ hbefore st hstore) hsave
  | anew hw hlater hcleared _ =>
      obtain rfl := Option.some.inj (hw.symm.trans htracker)
      rw [hstore] at hcleared
      refine ⟨_, _, hlater, hcleared, rfl, Tracker.isSound_start _, .inl ⟨?_, rfl⟩⟩
      exact (hafter _ hcleared).load_of_not_read (st.not_read_clear _)

theorem IsKept.after (h : s.IsKept a) (ha : a.IsCountable) {inputs : List Input}
    (haccepts : s.AcceptsAll inputs)
    (hsaves : ∀ before, before <+: inputs → (s.after before).CanSave a) :
    (s.after inputs).IsKept a := by
  induction inputs generalizing s with
  | nil => exact h
  | cons i inputs ih =>
      obtain ⟨⟨t, hrun⟩, hrest⟩ := haccepts
      have hnext : s.next i = t := congrArg left hrun
      have hafter : ∀ before, before <+: inputs → ((s.next i).after before).CanSave a :=
        fun before hbefore => hsaves (i :: before) (List.cons_prefix_cons.2 ⟨rfl, hbefore⟩)
      have hadvances : Advances s (s.next i) := hnext ▸ (act_leaves i).advances () t hrun
      exact ih (h.advances ha (hsaves [] List.nil_prefix) (hafter [] List.nil_prefix) hadvances)
        hrest hafter

theorem isKept_start (hstart : start o (some a) (some store) resume now = .ok s)
    (hempty : store.load a.id = .ok none) : s.IsKept a := by
  obtain ⟨tracker, w, htracker, -, rfl⟩ := start_eq_ok_iff.1 hstart
  have hfresh : startTracker (some a) (some store) resume = .ok (some (Tracker.start a)) := by
    refine startTracker_of_nothing_saved ?_
    rintro b st ⟨⟩ ⟨⟩
    exact hempty
  obtain rfl := Except.ok.inj (hfresh.symm.trans htracker)
  exact ⟨_, store, rfl, rfl, rfl, Tracker.isSound_start a, .inl ⟨hempty, rfl⟩⟩

/-- A tracker that goes on from what a store gives back goes on from where the first one is. -/
theorem startTracker_of_recalls {u : Tracker} (hu : u.IsSound) (h : store.Recalls u) :
    ∃ v, startTracker (some u.adventure) (some store) true = .ok (some v) ∧
      v.adventure = u.adventure ∧ u.progress.Same v.progress := by
  rcases h with ⟨hnone, hfresh⟩ | ⟨p, hp, hsame⟩
  · refine ⟨Tracker.start u.adventure, ?_, rfl, ?_⟩
    · refine startTracker_of_nothing_saved ?_
      rintro b st ⟨⟩ ⟨⟩
      exact hnone
    · rw [← hfresh]
      exact ⟨rfl, rfl, .refl _, .refl _, rfl⟩
  · have hsaved : savedProgress u.adventure (some store) true = .ok p := by
      unfold savedProgress
      dsimp only
      rw [hp]
      rfl
    have hresume : Tracker.resume u.adventure p = ⟨u.adventure, p⟩ :=
      Tracker.IsAtRest.resume_eq hu.isAtRest hsame
    exact ⟨_, startTracker_eq_ok_iff.2 (.inr ⟨_, p, rfl, hsaved, rfl⟩), rfl, hresume ▸ hsame⟩

/-- A session starts with nothing saved, no input of a run fails, and the file of its adventure can
be written before and after each of them. Then another session in the adventure can be begun at that
point with the store, and any such session goes on from the progress of the first one: the same
indices, the same hints, and the same tasks and missions that are completed. Indices are written in
digits, so there must not be more missions or tasks than a number that can be read back. -/
theorem resumes_where_it_was (hstart : start o (some a) (some store) resume now = .ok s)
    (hempty : store.load a.id = .ok none) (ha : a.IsCountable) {inputs : List Input}
    (haccepts : s.AcceptsAll inputs)
    (hsaves : ∀ before, before <+: inputs → (s.after before).CanSave a) :
    ∃ u, (s.after inputs).tracker = some u ∧ u.adventure = a ∧
      (∀ later, ∃ t, start o (some a) (s.after inputs).store true later = .ok t) ∧
      ∀ o' later t, start o' (some a) (s.after inputs).store true later = .ok t →
        ∃ v, t.tracker = some v ∧ v.adventure = a ∧ u.progress.Same v.progress := by
  obtain ⟨u, st, htracker, hstore, rfl, hsound, hrecalls⟩ :=
    (isKept_start hstart hempty).after ha haccepts hsaves
  obtain ⟨v, hv, hadventure, hsame⟩ := startTracker_of_recalls hsound hrecalls
  obtain ⟨-, w, -, hworld, -⟩ := start_eq_ok_iff.1 hstart
  rw [hstore]
  refine ⟨u, htracker, rfl, fun later => ?_, fun o' later t ht => ?_⟩
  · obtain ⟨w', hw'⟩ := startWorld_at hworld later
    exact ⟨_, start_eq_ok_iff.2 ⟨_, w', hv, hw', rfl⟩⟩
  · obtain ⟨tracker, w', hagain, -, rfl⟩ := start_eq_ok_iff.1 ht
    obtain rfl := Except.ok.inj (hv.symm.trans hagain)
    exact ⟨v, rfl, hadventure, hsame⟩

/-- A session that has not started over can save what it could save before. -/
theorem CanSave.advances (h : s.CanSave a) (ha : s.adventure? = some a) (hst : Advances s t)
    (hgone : t.tracker ≠ s.tracker.map Tracker.reset) : t.CanSave a := by
  intro later hlater
  cases hst with
  | idly hidle => exact h later (hidle.store ▸ hlater)
  | @byCalls u calls hu _ _ hsaved _ =>
      have hadventure : (u.after calls).adventure = a := by
        rw [u.adventure_after]
        rw [adventure?, hu] at ha
        exact Option.some.inj ha
      rw [hlater] at hsaved
      generalize hstore : s.store = before at hsaved
      cases hsaved with
      | inFile hsave =>
          rw [hadventure] at hsave
          exact (h _ hstore).save hsave
  | anew hu hnew _ _ => exact absurd (by rw [hnew, hu]; rfl) hgone

theorem isCountable_walk : (Adventure.walk "north" "south").IsCountable := by
  refine ⟨Progress.isShort_of_lt_ten (by decide), fun m hm => ?_⟩
  have hone : m.tasks.length = 1 := by
    simp only [Adventure.walk, Adventure.walk.mission, List.mem_cons, List.not_mem_nil] at hm
    rcases hm with rfl | rfl | ⟨⟨⟩⟩ <;> rfl
  rw [hone]
  exact Progress.isShort_of_lt_ten (by decide)

theorem hint_setOut :
    (setOut.after [.hint 2]).tracker.map (·.progress.hintsUsed) = some [("look", 2)] := rfl

theorem canSave_setOut {before : List Input} (h : before <+: [.hint 2]) :
    (setOut.after before).CanSave (.walk "north" "south") := by
  have hbegin : setOut.CanSave (.walk "north" "south") := by
    rintro st ⟨⟩ bytes
    exact ⟨_, rfl⟩
  have hadvances : Advances setOut (setOut.next (.hint 2)) :=
    (act_leaves (.hint 2)).advances () _ rfl
  have hnew : (setOut.next (.hint 2)).tracker ≠ setOut.tracker.map Tracker.reset := by
    intro hreset
    have hlevels := hint_setOut
    rw [after_cons, after_nil, hreset] at hlevels
    cases hlevels
  rcases List.prefix_cons_iff.1 h with rfl | ⟨rest, rfl, hrest⟩
  · exact hbegin
  · obtain rfl := List.prefix_nil.1 hrest
    exact hbegin.advances rfl hadvances hnew

theorem walk_resumes_with_its_hint :
    start ⟨"ada", "lab", "secret", [], true, 0⟩ (some (.walk "north" "south")) (some emptyStore)
      true 0 = .ok setOut ∧
    emptyStore.load "walk" = .ok none ∧ (Adventure.walk "north" "south").IsCountable ∧
    setOut.AcceptsAll [.hint 2] ∧
    (∀ before, before <+: [.hint 2] → (setOut.after before).CanSave (.walk "north" "south")) ∧
    ∃ t v, start ⟨"ada", "lab", "secret", [], true, 0⟩ (some (.walk "north" "south"))
      (setOut.after [.hint 2]).store true 60 = .ok t ∧ t.tracker = some v ∧
        v.progress.hintsUsed = [("look", 2)] := by
  have hload : emptyStore.load "walk" = .ok none := rfl
  have haccepts : setOut.AcceptsAll [.hint 2] := ⟨⟨_, rfl⟩, trivial⟩
  obtain ⟨u, hu, -, hstarts, hsame⟩ := resumes_where_it_was start_setOut hload isCountable_walk
    haccepts fun _ => canSave_setOut
  obtain ⟨t, ht⟩ := hstarts 60
  obtain ⟨v, hv, -, hprogress⟩ := hsame _ _ _ ht
  have hlevels := hint_setOut
  rw [hu] at hlevels
  refine ⟨start_setOut, hload, isCountable_walk, haccepts, fun _ => canSave_setOut, t, v, ht, hv,
    ?_⟩
  exact hprogress.hintsUsed.trans (Option.some.inj hlevels)

end Session

end PracticeShell
