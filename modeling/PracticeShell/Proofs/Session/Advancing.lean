import PracticeShell.Proofs.Session.Inputs
import PracticeShell.Proofs.Session.Lines
import PracticeShell.Proofs.Tracker.Calls

/-!
# How progress goes on

Most of what a session does leaves its progress and its store alone (`Session.Idles`). An input that
does not fail either does so too, or it makes calls to the tracker and saves what has come of them,
or it starts over and forgets what has been saved (`Session.Advances`). Whether it fails or not, the
session goes on with its options in its adventure (`Session.Abides`).
-/

namespace PracticeShell.Session

open Run

/-- Whether nothing changes that has to do with progress. -/
structure Idles (s t : Session) : Prop where
  options : t.options = s.options
  tracker : t.tracker = s.tracker
  store : t.store = s.store

/-- Whether a session goes on with its options in its adventure. -/
structure Abides (s t : Session) : Prop where
  options : t.options = s.options
  adventure : t.adventure? = s.adventure?

/-- How a store, if there is one, goes on when the progress of a tracker is saved. -/
inductive Saves (u : Tracker) : Option ProgressStore → Option ProgressStore → Prop
  | nowhere : Saves u none none
  | inFile {store later : ProgressStore} {stamp : String} {written : Bool}
    (h : store.save u.adventure.id u.progress stamp = .ok (written, later)) :
    Saves u (some store) (some later)

/-- How the progress of a session goes on with an input that does not fail. -/
inductive Advances (s t : Session) : Prop
  | idly (h : Idles s t)
  | byCalls {u : Tracker} {calls : List Tracker.Call} (htracker : s.tracker = some u)
    (htaken : u.TakesAll calls) (hlater : t.tracker = some (u.after calls))
    (hsaved : Saves (u.after calls) s.store t.store) (hoptions : t.options = s.options)
  | anew {u : Tracker} (htracker : s.tracker = some u) (hlater : t.tracker = some u.reset)
    (hcleared : t.store = s.store.map fun store => (store.clear u.adventure.id).2)
    (hoptions : t.options = s.options)

theorem lasting_idles : Lasting Idles :=
  ⟨fun _ => ⟨rfl, rfl, rfl⟩, fun h h' =>
    ⟨h'.options.trans h.options, h'.tracker.trans h.tracker, h'.store.trans h.store⟩⟩

theorem lasting_abides : Lasting Abides :=
  ⟨fun _ => ⟨rfl, rfl⟩, fun h h' =>
    ⟨h'.options.trans h.options, h'.adventure.trans h.adventure⟩⟩

section

variable {s t u : Session}

theorem Idles.abides (h : Idles s t) : Abides s t :=
  ⟨h.options, by rw [adventure?, h.tracker]; rfl⟩

theorem Rests.abides (h : Rests s t) : Abides s t := ⟨h.options, h.adventure⟩

theorem Advances.abides (h : Advances s t) : Abides s t := by
  cases h with
  | idly h => exact h.abides
  | byCalls htracker _ hlater _ hoptions =>
      refine ⟨hoptions, ?_⟩
      rw [adventure?, adventure?, htracker, hlater, Option.map_some, Option.map_some,
        Tracker.adventure_after]
  | anew htracker hlater _ hoptions =>
      refine ⟨hoptions, ?_⟩
      rw [adventure?, adventure?, htracker, hlater]
      rfl

theorem Idles.advances (h : Idles s t) (h' : Advances t u) : Advances s u := by
  cases h' with
  | idly h' => exact .idly (lasting_idles.trans h h')
  | byCalls htracker htaken hlater hsaved hoptions =>
      rw [h.store] at hsaved
      exact .byCalls (h.tracker ▸ htracker) htaken hlater hsaved (hoptions.trans h.options)
  | anew htracker hlater hcleared hoptions =>
      rw [h.store] at hcleared
      exact .anew (h.tracker ▸ htracker) hlater hcleared (hoptions.trans h.options)

theorem Advances.idles (h : Advances s t) (h' : Idles t u) : Advances s u := by
  cases h with
  | idly h => exact .idly (lasting_idles.trans h h')
  | byCalls htracker htaken hlater hsaved hoptions =>
      rw [← h'.store] at hsaved
      exact .byCalls htracker htaken (h'.tracker.trans hlater) hsaved (h'.options.trans hoptions)
  | anew htracker hlater hcleared hoptions =>
      exact .anew htracker (h'.tracker.trans hlater) (h'.store.trans hcleared)
        (h'.options.trans hoptions)

end

/-- Whether an action, if it does not fail, is an advance, and abides in any case. -/
structure Leaves {α : Type} (x : Action α) (s : Session) : Prop where
  advances : ∀ a t, x.run s = .ok a t → Advances s t
  abides : Leads Abides x s

namespace Leaves

variable {α β : Type} {x : Action α} {s : Session}

theorem of_idles (h : Leads Idles x s) : Leaves x s :=
  ⟨fun _ _ hrun => .idly (h.of_run hrun), h.weaken Idles.abides⟩

theorem idly_bind {f : α → Action β} (hx : Leads Idles x s)
    (hf : ∀ a t, x.run s = .ok a t → Leaves (f a) t) : Leaves (x >>= f) s := by
  constructor
  · intro b v hrun
    obtain ⟨a, t, hfirst, hrest⟩ := run_bind_eq_ok_iff.1 hrun
    exact (hx.of_run hfirst).advances ((hf a t hfirst).advances b v hrest)
  · exact .bind lasting_abides (hx.weaken Idles.abides) fun a t hfirst => (hf a t hfirst).abides

theorem bind_idly {f : α → Action β} (hx : Leaves x s)
    (hf : ∀ a t, x.run s = .ok a t → Leads Idles (f a) t) : Leaves (x >>= f) s := by
  constructor
  · intro b v hrun
    obtain ⟨a, t, hfirst, hrest⟩ := run_bind_eq_ok_iff.1 hrun
    exact (hx.advances a t hfirst).idles ((hf a t hfirst).of_run hrest)
  · exact .bind lasting_abides hx.abides fun a t hfirst => (hf a t hfirst).weaken Idles.abides

theorem get_bind {f : Session → Action β} (h : Leaves (f s) s) : Leaves (get >>= f) s :=
  ⟨h.advances, h.abides⟩

theorem ite {c : Prop} [Decidable c] {y : Action α} (hx : c → Leaves x s)
    (hy : ¬ c → Leaves y s) : Leaves (if c then x else y) s := by
  split
  · exact hx ‹_›
  · exact hy ‹_›

end Leaves

section Idle

variable {s : Session}

theorem note_idles (a : Activity) : Leads Idles (note a) s := .modify ⟨rfl, rfl, rfl⟩

theorem setMode_idles (mode : Mode) : Leads Idles (setMode mode) s := .modify ⟨rfl, rfl, rfl⟩

theorem respond_idles (make : String → Response) : Leads Idles (respond make) s :=
  lasting_idles.refl s

theorem step_idles {α : Type} (operation : Step α) : Leads Idles (step operation) s := by
  rw [Leads, run_step]
  cases operation.run s.world <;> exact ⟨rfl, rfl, rfl⟩

theorem readInput_idles (line : CommandLine) (ctx : Context) (base otherwise : Option String) :
    Leads Idles (readInput line ctx base otherwise) s := by
  unfold readInput
  split
  · exact .bind lasting_idles (step_idles _) fun _ t _ => .pure lasting_idles _ t
  · exact .pure lasting_idles _ s

theorem guard_idles (expanded : String) (ctx : Context) :
    Leads Idles (guard expanded ctx) s := by
  refine .get_bind (.ite (fun _ => .pure lasting_idles _ s) fun _ => ?_)
  exact .bind lasting_idles (step_idles _) fun _ t _ => .pure lasting_idles _ t

theorem dispatch_idles (ctx : Context) (base input : Option String) (words : List String) :
    Leads Idles (dispatch ctx base input words) s := .get_bind (step_idles _)

theorem dispatchOrGoBack_idles (line : CommandLine) (ctx : Context) (base input : Option String) :
    Leads Idles (dispatchOrGoBack line ctx base input) s := by
  refine .get_bind (.ite (fun _ => ?_) fun _ => dispatch_idles _ _ _ _)
  refine .bind lasting_idles (dispatch_idles _ _ _ _) fun r t _ => ?_
  exact .ite (fun _ => .pure lasting_idles _ t) fun _ => .pure lasting_idles _ t

theorem awaitPassword_idles (line : CommandLine) (o : Outcome) (input said : Option String) :
    Leads Idles (awaitPassword line o input said) s :=
  .bind lasting_idles (setMode_idles _) fun _ _ _ => respond_idles _

end Idle

section Progress

variable {s : Session}

/-- What comes of saving, if it does not fail. -/
theorem saves_of_run {t : Session} {a : Unit} (hrun : saveProgress.run s = .ok a t) :
    t.options = s.options ∧ t.tracker = s.tracker ∧
      (s.tracker = none ∧ t.store = s.store ∨
        ∃ u, s.tracker = some u ∧ Saves u s.store t.store) := by
  unfold saveProgress at hrun
  rw [run_get_bind, run_get_bind] at hrun
  cases htracker : s.tracker with
  | none =>
      rw [htracker] at hrun
      cases hrun
      exact ⟨rfl, htracker, .inl ⟨rfl, rfl⟩⟩
  | some u =>
      cases hstore : s.store with
      | none =>
          rw [htracker, hstore] at hrun
          cases hrun
          refine ⟨rfl, htracker, .inr ⟨u, rfl, ?_⟩⟩
          rw [hstore]
          exact .nowhere
      | some store =>
          rw [htracker, hstore] at hrun
          dsimp only at hrun
          rw [run_get_bind] at hrun
          cases hsave : store.save u.adventure.id u.progress (Calendar.stamp s.world.now) with
          | error e =>
              rw [hsave] at hrun
              cases hrun
          | ok result =>
              rw [hsave] at hrun
              cases hrun
              exact ⟨rfl, htracker, .inr ⟨u, rfl, .inFile hsave⟩⟩

/-- Saving is an advance by the calls that have been made since the last one. -/
theorem saveProgress_advances {t v : Session} {u : Tracker} {calls : List Tracker.Call} {a : Unit}
    (hrun : saveProgress.run t = .ok a v) (htracker : s.tracker = some u)
    (htaken : u.TakesAll calls) (hlater : t.tracker = some (u.after calls))
    (hstore : t.store = s.store) (hoptions : t.options = s.options) : Advances s v := by
  obtain ⟨hsame, hkept, ⟨hnone, -⟩ | ⟨w, hw, hsaved⟩⟩ := saves_of_run hrun
  · rw [hlater] at hnone
    cases hnone
  · obtain rfl := Option.some.inj (hw.symm.trans hlater)
    rw [hstore] at hsaved
    exact .byCalls htracker htaken (hkept.trans hlater) hsaved (hsame.trans hoptions)

theorem checkTasks_leaves (line : String) (o : Outcome) : Leaves (checkTasks line o) s := by
  refine ⟨fun events v hrun => ?_, (checkTasks_rests line o).weaken Rests.abides⟩
  unfold checkTasks at hrun
  rw [run_get_bind] at hrun
  cases htracker : s.tracker with
  | none =>
      rw [htracker] at hrun
      cases hrun
      exact .idly (lasting_idles.refl s)
  | some u =>
      rw [htracker] at hrun
      dsimp only at hrun
      cases hfault : (u.record (s.observe line o)).1.fault with
      | some fault =>
          rw [hfault] at hrun
          cases hrun
      | none =>
          rw [hfault] at hrun
          have htaken : u.TakesAll [.observe (s.observe line o)] := ⟨hfault, trivial⟩
          change (do
            if !(u.record (s.observe line o)).1.events.isEmpty then saveProgress
            return _ : Action (List Event)).run _ = _ at hrun
          rcases Tracker.record_cases hfault with ⟨hnone, hsame⟩ |
            ⟨m, added, -, hadded, -, -, hevents, -⟩
          · rw [hnone] at hrun
            cases hrun
            exact .idly ⟨rfl, by rw [htracker, hsame], rfl⟩
          · have hnews : (u.record (s.observe line o)).1.events.isEmpty = false := by
              simp [hevents, hadded]
            rw [hnews] at hrun
            obtain ⟨_, w, hsave, hend⟩ := run_bind_eq_ok_iff.1 hrun
            cases hend
            exact saveProgress_advances hsave htracker htaken rfl rfl rfl

theorem hint_leaves (level : Int) : Leaves (hint level) s := by
  refine ⟨fun text v hrun => ?_, (hint_rests level).weaken Rests.abides⟩
  unfold hint at hrun
  rw [run_get_bind] at hrun
  cases htracker : s.tracker with
  | none =>
      rw [htracker] at hrun
      cases hrun
      exact .idly (lasting_idles.refl s)
  | some u =>
      rw [htracker] at hrun
      dsimp only at hrun
      have htaken : u.TakesAll [.hint level] := ⟨trivial, trivial⟩
      rcases u.hint_cases level with hsame | ⟨task, shown, -, hlater⟩
      · rw [hsame] at hrun
        cases hrun
        exact .idly ⟨rfl, htracker.symm, rfl⟩
      · have hafter : u.after [.hint level] =
            { u with progress := u.progress.seeHint task.id level } := congrArg (·.2) hlater
        rw [hlater] at hrun
        change (do
            saveProgress
            return _ : Action (Option String)).run _ = _ at hrun
        obtain ⟨_, w, hsave, hend⟩ := run_bind_eq_ok_iff.1 hrun
        cases hend
        exact saveProgress_advances hsave htracker htaken (congrArg some hafter.symm) rfl rfl

theorem close_leaves : Leaves close s := by
  refine .get_bind (.ite (fun _ => .of_idles (.pure lasting_idles _ s)) fun _ => ?_)
  refine .idly_bind (.modify ⟨rfl, rfl, rfl⟩) fun _ t _ => ?_
  refine .bind_idly ⟨fun a v hrun => ?_, saveProgress_rests.weaken Rests.abides⟩
    fun _ u _ => note_idles _
  obtain ⟨hoptions, hkept, ⟨-, hstore⟩ | ⟨u, hu, hsaved⟩⟩ := saves_of_run hrun
  · exact .idly ⟨hoptions, hkept, hstore⟩
  · have hnone : u.TakesAll [] := trivial
    exact .byCalls hu hnone (hkept.trans hu) hsaved hoptions

/-- What starting over leaves behind, if a world to start with is made. -/
theorem run_reset {w : World} (h : startWorld s.options s.adventure? s.world.now = .ok w) :
    reset.run s = .ok ⟨⟩ { s with
      world := w
      store := match s.tracker, s.store with
        | some t, some store => some (store.clear t.adventure.id).2
        | _, store => store
      tracker := s.tracker.map Tracker.reset
      journal := s.journal ++ [.reset] } := by
  unfold reset
  rw [run_get_bind, h]
  rfl

theorem reset_leaves : Leaves reset s := by
  cases h : startWorld s.options s.adventure? s.world.now with
  | error e =>
      have hrun : reset.run s = .error e s := by
        unfold reset
        rw [run_get_bind, h]
        rfl
      constructor
      · intro a t hok
        rw [hrun] at hok
        cases hok
      · rw [Leads, hrun]
        exact lasting_abides.refl s
  | ok w =>
      have hadvances : Advances s (left (reset.run s)) := by
        rw [run_reset h]
        cases htracker : s.tracker with
        | none => exact .idly ⟨rfl, htracker.symm, rfl⟩
        | some u =>
            refine .anew htracker rfl ?_ rfl
            cases s.store <;> rfl
      constructor
      · intro a t hrun
        rwa [hrun] at hadvances
      · exact hadvances.abides

end Progress

section Lines

variable {s : Session}

theorem finish_leaves (line : String) (o : Outcome) (leaves : Bool) {intent : Option Intent} :
    Leaves (finish line o intent leaves) s := by
  refine .idly_bind (.modify ⟨rfl, rfl, rfl⟩) fun _ t _ => ?_
  refine .idly_bind (note_idles _) fun _ u _ => ?_
  exact .bind_idly (checkTasks_leaves line o) fun _ v _ => .get_bind (.pure lasting_idles _ v)

theorem complete_leaves (line : CommandLine) (r : Dispatch.Result) (runner writer : Context)
    (base said : Option String) : Leaves (complete line r runner writer base said) s := by
  unfold complete
  dsimp only
  split
  · refine .idly_bind (setMode_idles _) fun _ t _ => ?_
    exact .idly_bind (step_idles _) fun _ u _ => finish_leaves _ _ _
  · exact .idly_bind (step_idles _) fun _ u _ => finish_leaves _ _ _

theorem runLine_leaves (line : CommandLine) (ctx : Context) : Leaves (runLine line ctx) s := by
  unfold runLine
  split
  · refine .of_idles (.bind lasting_idles (setMode_idles _) fun _ t _ => ?_)
    exact respond_idles _
  · refine .get_bind (.idly_bind (step_idles _) fun _ t _ => ?_)
    refine .idly_bind (readInput_idles _ _ _ _) fun read u _ => ?_
    split
    · exact finish_leaves _ _ _
    · refine .get_bind (.ite (fun _ => finish_leaves _ _ _) fun _ => ?_)
      refine .idly_bind (dispatchOrGoBack_idles _ _ _ _) fun r v _ => ?_
      refine .ite (fun _ => .of_idles (awaitPassword_idles _ _ _ _)) fun _ => ?_
      exact complete_leaves _ _ _ _ _ _

theorem submitCommand_leaves (text : String) : Leaves (submitCommand text) s := by
  unfold submitCommand
  dsimp only
  refine .ite (fun _ => .of_idles (respond_idles _)) fun _ => ?_
  refine .idly_bind (.modify ⟨rfl, rfl, rfl⟩) fun _ t _ => .get_bind ?_
  split
  · exact finish_leaves _ _ _
  · refine .ite (fun _ => finish_leaves _ _ _) fun _ => ?_
    refine .get_bind (.idly_bind (guard_idles _ _) fun warning u _ => ?_)
    split
    · refine .of_idles (.bind lasting_idles (setMode_idles _) fun _ v _ => ?_)
      refine .bind lasting_idles (note_idles _) fun _ w _ => ?_
      exact .get_bind (.pure lasting_idles _ w)
    · exact runLine_leaves _ _

theorem submitPassword_leaves (text : String) (line : CommandLine) (input said : Option String) :
    Leaves (submitPassword text line input said) s := by
  refine .idly_bind (setMode_idles _) fun _ t _ => .get_bind (.ite (fun _ => ?_) fun _ => ?_)
  · exact .idly_bind (note_idles _) fun _ u _ => finish_leaves _ _ _
  · refine .idly_bind (note_idles _) fun _ u _ => ?_
    refine .idly_bind (step_idles _) fun _ v _ => ?_
    refine .idly_bind (readInput_idles _ _ _ _) fun read w _ => ?_
    split
    · exact finish_leaves _ _ _
    · exact .idly_bind (dispatch_idles _ _ _ _) fun r x _ => complete_leaves _ _ _ _ _ _

theorem submitInput_leaves (text : String) (line : CommandLine) (marker : String)
    (lines : List String) : Leaves (submitInput text line marker lines) s := by
  refine .ite (fun _ => ?_) fun _ => ?_
  · refine .of_idles (.bind lasting_idles (setMode_idles _) fun _ t _ => ?_)
    exact respond_idles _
  · refine .idly_bind (setMode_idles _) fun _ t _ => .get_bind ?_
    refine .idly_bind (step_idles _) fun _ u _ => ?_
    refine .idly_bind (dispatch_idles _ _ _ _) fun r v _ => ?_
    refine .ite (fun _ => .of_idles (awaitPassword_idles _ _ _ _)) fun _ => ?_
    exact complete_leaves _ _ _ _ _ _

theorem submit_leaves (text : String) : Leaves (submit text) s := by
  refine .get_bind ?_
  split
  · exact submitPassword_leaves _ _ _ _
  · exact submitInput_leaves _ _ _ _
  · exact submitCommand_leaves _
  · exact .of_idles (.pure lasting_idles _ s)
  · exact .of_idles (.pure lasting_idles _ s)

theorem resolve_leaves (resolution : Resolution) : Leaves (resolve resolution) s := by
  refine .get_bind ?_
  split
  · refine .idly_bind (setMode_idles _) fun _ t _ => .ite (fun _ => ?_) fun _ => ?_
    · exact .idly_bind (note_idles _) fun _ u _ => runLine_leaves _ _
    · refine .of_idles (.bind lasting_idles (note_idles _) fun _ u _ => ?_)
      exact respond_idles _
  · refine .idly_bind (setMode_idles _) fun _ t _ => .get_bind ?_
    exact .idly_bind (step_idles _) fun _ u _ => finish_leaves _ _ _
  · exact .of_idles (respond_idles _)

theorem answerHint_leaves (level : Int) : Leaves (answerHint level) s :=
  .bind_idly (hint_leaves level) fun _ _ _ => respond_idles _

theorem answer_leaves (question : Question) : Leaves (answer question) s := by
  unfold answer
  split
  · exact answerHint_leaves 1
  · refine .ite (fun _ => .of_idles (respond_idles _)) fun _ => ?_
    split
    · exact .of_idles (.throw lasting_idles _ s)
    · exact answerHint_leaves _
  · exact .get_bind (.of_idles (respond_idles _))
  · exact .get_bind (.of_idles (respond_idles _))
  · exact .bind_idly reset_leaves fun _ _ _ => respond_idles _
  · exact .of_idles (respond_idles _)
  · exact .of_idles (respond_idles _)

theorem ask_leaves (text : String) : Leaves (ask text) s := by
  refine .get_bind ?_
  split
  · exact .bind_idly (answer_leaves _) fun _ t _ => .pure lasting_idles _ t
  · exact .of_idles (.pure lasting_idles _ s)

/-- Every input, if it is not at fault, is an advance. -/
theorem act_leaves (i : Input) : Leaves i.act s := by
  have hdrop : ∀ {α : Type} {x : Action α}, Leaves x s →
      Leaves (do let _ ← x : Action Unit) s := fun hx =>
    .bind_idly hx fun _ t _ => .pure lasting_idles _ t
  cases i with
  | line text => exact hdrop (submit_leaves text)
  | question text => exact hdrop (ask_leaves text)
  | answer resolution => exact hdrop (resolve_leaves resolution)
  | hint level => exact hdrop (hint_leaves level)
  | reset => exact reset_leaves
  | close => exact close_leaves
  | tick seconds => exact .of_idles (.modify ⟨rfl, rfl, rfl⟩)

theorem next_abides (i : Input) : Abides s (s.next i) := (act_leaves i).abides

/-- Whatever happens to a session, it goes on with its options in its adventure. -/
theorem after_abides (inputs : List Input) : Abides s (s.after inputs) := by
  induction inputs generalizing s with
  | nil => exact lasting_abides.refl s
  | cons i inputs ih => exact lasting_abides.trans (next_abides i) ih

end Lines

end PracticeShell.Session
