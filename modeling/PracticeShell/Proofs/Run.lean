import PracticeShell.Command.Outcome

/-!
# Runs that can fail

What a run leaves behind is `left`, whether it ends with a result or a failure. A relation is
`Lasting` if it holds of no change and of two changes in a row; `Leads R x s` says that it holds of
the states before and after the run of `x` from `s`, and is proved along the parts of `x`. Whether a
run fails is `Fails`; `Upholds` says at once what it leaves behind and why it can fail.

Runs of one program from two states are held against each other by `Parallel`. Two runs of any programs
end alike if both end with results or both fail, with related results, failures and states (`Run.Ends`),
and a program mirrors another from two states if their runs end alike (`Run.Mirrors`), which is proved
along the parts of two programs of one shape.
-/

namespace PracticeShell.Run

variable {ε ε' σ α β : Type}

/-- The state that a run leaves behind. -/
def left : EStateM.Result ε σ α → σ
  | .ok _ s => s
  | .error _ s => s

@[simp]
theorem left_ok (a : α) (s : σ) : left (.ok a s : EStateM.Result ε σ α) = s := rfl

@[simp]
theorem left_error (e : ε) (s : σ) : left (.error e s : EStateM.Result ε σ α) = s := rfl

@[simp]
theorem run_throw (e : ε) (s : σ) : (throw e : EStateM ε σ α).run s = .error e s := rfl

@[simp]
theorem run_throwThe (e : ε) (s : σ) :
    (throwThe ε e : EStateM ε σ α).run s = .error e s := rfl

theorem run_bind_of_ok {x : EStateM ε σ α} {s t : σ} {a : α} (h : x.run s = .ok a t)
    (f : α → EStateM ε σ β) : (x >>= f).run s = (f a).run t := by
  rw [EStateM.run_bind, h]

/-- What follows a first part matters only as it runs from there. -/
theorem run_bind_congr {x : EStateM ε σ α} {f g : α → EStateM ε σ β} {s : σ}
    (h : ∀ a t, x.run s = .ok a t → (f a).run t = (g a).run t) :
    (x >>= f).run s = (x >>= g).run s := by
  rw [EStateM.run_bind, EStateM.run_bind]
  cases hrun : x.run s with
  | ok a t => exact h a t hrun
  | error e t => rfl

/-- What is left does not depend on what becomes of the result. -/
theorem left_discard (x : EStateM ε σ α) (s : σ) :
    left ((do let _ ← x : EStateM ε σ Unit).run s) = left (x.run s) := by
  rw [EStateM.run_bind]
  cases x.run s <;> rfl

theorem run_get_bind (f : σ → EStateM ε σ α) (s : σ) : (get >>= f).run s = (f s).run s := rfl

theorem run_modify_bind (g : σ → σ) (f : PUnit → EStateM ε σ α) (s : σ) :
    (modify g >>= f).run s = (f ⟨⟩).run (g s) := rfl

/-- A run of two parts ends with a result exactly if both parts do. -/
theorem run_bind_eq_ok_iff {x : EStateM ε σ α} {f : α → EStateM ε σ β} {s t : σ} {b : β} :
    (x >>= f).run s = .ok b t ↔ ∃ a u, x.run s = .ok a u ∧ (f a).run u = .ok b t := by
  rw [EStateM.run_bind]
  cases x.run s with
  | ok a u => simp [and_assoc]
  | error e u => simp

theorem bind_eq_ok_iff {x : Except ε α} {f : α → Except ε β} {b : β} :
    x >>= f = .ok b ↔ ∃ a, x = .ok a ∧ f a = .ok b := by
  cases x <;> simp [bind, Except.bind]

/-- Whether a computation ends with an error of a kind. -/
def EndsIn (p : ε → Prop) (x : Except ε α) : Prop := ∃ e, x = .error e ∧ p e

@[simp]
theorem endsIn_ok_iff {p : ε → Prop} {a : α} : EndsIn p (.ok a) ↔ False := by simp [EndsIn]

@[simp]
theorem endsIn_error_iff {p : ε → Prop} {e : ε} : EndsIn p (.error e : Except ε α) ↔ p e := by
  simp [EndsIn]

/-- Two computations in a row end with an error of a kind if the first one does, or the second one
after it. -/
theorem endsIn_bind_iff {p : ε → Prop} {x : Except ε α} {f : α → Except ε β} :
    EndsIn p (x >>= f) ↔ EndsIn p x ∨ ∃ a, x = .ok a ∧ EndsIn p (f a) := by
  cases x with
  | error e => simp [EndsIn, bind, Except.bind]
  | ok a => simp [EndsIn, bind, Except.bind]

/-- A relation between earlier and later states that holds of no change and of two changes in a
row. -/
structure Lasting (R : σ → σ → Prop) : Prop where
  refl : ∀ s, R s s
  trans : ∀ {s t u}, R s t → R t u → R s u

/-- Whether a relation holds of the states before and after a run. -/
def Leads (R : σ → σ → Prop) (x : EStateM ε σ α) (s : σ) : Prop := R s (left (x.run s))

namespace Leads

variable {R : σ → σ → Prop} {x : EStateM ε σ α} {s : σ}

theorem pure (hR : Lasting R) (a : α) (s : σ) : Leads R (pure a : EStateM ε σ α) s := hR.refl s

theorem throw (hR : Lasting R) (e : ε) (s : σ) : Leads R (throw e : EStateM ε σ α) s := hR.refl s

theorem weaken {Q : σ → σ → Prop} (h : Leads R x s) (hRQ : ∀ {t}, R s t → Q s t) : Leads Q x s := hRQ h

theorem bind (hR : Lasting R) {f : α → EStateM ε σ β} (hx : Leads R x s)
    (hf : ∀ a t, x.run s = .ok a t → Leads R (f a) t) : Leads R (x >>= f) s := by
  unfold Leads at *
  rw [EStateM.run_bind]
  cases h : x.run s with
  | ok a t =>
      rw [h] at hx
      exact hR.trans hx (hf a t h)
  | error e t => rwa [h] at hx

/-- A first part that leads to one relation, and a second that goes on with another. -/
theorem bind_into {Q : σ → σ → Prop} (hfails : ∀ {t}, R s t → Q s t)
    (htrans : ∀ {t u}, R s t → Q t u → Q s u) {f : α → EStateM ε σ β} (hx : Leads R x s)
    (hf : ∀ a t, x.run s = .ok a t → Leads Q (f a) t) : Leads Q (x >>= f) s := by
  unfold Leads at *
  rw [EStateM.run_bind]
  cases h : x.run s with
  | ok a t =>
      rw [h] at hx
      exact htrans hx (hf a t h)
  | error e t =>
      rw [h] at hx
      exact hfails hx

/-- A first part that leads to a relation, and a second that leaves it so. -/
theorem bind_onto {Q : σ → σ → Prop} (htrans : ∀ {t u}, R s t → Q t u → R s u)
    {f : α → EStateM ε σ β} (hx : Leads R x s)
    (hf : ∀ a t, x.run s = .ok a t → Leads Q (f a) t) : Leads R (x >>= f) s := by
  unfold Leads at *
  rw [EStateM.run_bind]
  cases h : x.run s with
  | ok a t =>
      rw [h] at hx
      exact htrans hx (hf a t h)
  | error e t => rwa [h] at hx

/-- What becomes of the result does not matter. -/
theorem bind_pure {f : α → β} (h : Leads R x s) :
    Leads R (x >>= fun a => (Pure.pure (f a) : EStateM ε σ β)) s :=
  bind_onto (fun hst heq => heq ▸ hst) h fun _ _ _ => Eq.refl _

theorem map {f : α → β} (h : Leads R x s) : Leads R (f <$> x) s := by
  rw [map_eq_pure_bind]
  exact bind_pure h

/-- A first part that leaves the state as it is. -/
theorem bind_same {a : α} (hx : x.run s = .ok a s) {f : α → EStateM ε σ β} (hf : Leads R (f a) s) :
    Leads R (x >>= f) s := by
  rwa [Leads, EStateM.run_bind, hx]

theorem of_run (h : Leads R x s) {a : α} {t : σ} (hrun : x.run s = .ok a t) : R s t := by
  rwa [Leads, hrun] at h

/-- What follows a look at the state starts from that state. -/
theorem get_bind {f : σ → EStateM ε σ β} (h : Leads R (f s) s) : Leads R (get >>= f) s := h

theorem modify {f : σ → σ} (h : R s (f s)) : Leads R (modify f : EStateM ε σ PUnit) s := h

theorem set {t : σ} (h : R s t) : Leads R (set t : EStateM ε σ PUnit) s := h

theorem ite {c : Prop} [Decidable c] {y : EStateM ε σ α} (hx : c → Leads R x s)
    (hy : ¬ c → Leads R y s) : Leads R (if c then x else y) s := by
  split
  · exact hx ‹_›
  · exact hy ‹_›

theorem forM (hR : Lasting R) {l : List β} {f : β → EStateM ε σ PUnit}
    (h : ∀ b ∈ l, ∀ t, Leads R (f b) t) (s : σ) : Leads R (l.forM f) s := by
  induction l generalizing s with
  | nil => exact hR.refl s
  | cons b l ih =>
      change Leads R (f b >>= fun _ => l.forM f) s
      refine bind hR (h b (by simp) s) fun _ t _ => ?_
      exact ih (fun c hc => h c (by simp [hc])) t

/-- A run over a list comes to each of its elements once, unless it fails before. What all other
elements lead to, it leads to before and after. -/
theorem forM_turn (hR : Lasting R) {l : List β} (hl : l.Nodup) {b : β} (hb : b ∈ l)
    {f : β → EStateM ε σ PUnit} (hothers : ∀ c ∈ l, c ≠ b → ∀ t, Leads R (f c) t) (s : σ) :
    (R s (left ((l.forM f).run s)) ∧ ∀ t, (l.forM f).run s ≠ .ok () t) ∨
      ∃ t, R s t ∧ R (left ((f b).run t)) (left ((l.forM f).run s)) ∧
        ∀ v, (l.forM f).run s = .ok () v → ∃ u, (f b).run t = .ok () u := by
  induction l generalizing s with
  | nil => simp at hb
  | cons c l ih =>
      have hrun : ((c :: l).forM f).run s = match (f c).run s with
          | .ok _ t => (l.forM f).run t
          | .error e t => .error e t := by
        change (f c >>= fun _ => l.forM f).run s = _
        rw [EStateM.run_bind]
        cases (f c).run s <;> rfl
      obtain ⟨hc, hl⟩ := List.nodup_cons.1 hl
      by_cases hcb : c = b
      · subst hcb
        refine .inr ⟨s, hR.refl s, ?_, ?_⟩
        · rw [hrun]
          cases hf : (f c).run s with
          | error e t => exact hR.refl t
          | ok _ t =>
              exact forM hR (fun d hd => hothers d (by simp [hd]) fun h => hc (h ▸ hd)) t
        · intro v hv
          rw [hrun] at hv
          cases hf : (f c).run s with
          | error e t => simp [hf] at hv
          | ok _ t => exact ⟨t, rfl⟩
      · have hfirst := hothers c (by simp) hcb s
        unfold Leads at hfirst
        rw [hrun]
        cases hf : (f c).run s with
        | error e t =>
            rw [hf] at hfirst
            exact .inl ⟨hfirst, fun t => by simp⟩
        | ok _ t =>
            rw [hf] at hfirst
            have hrest := ih hl (by simpa [Ne.symm hcb] using hb)
              (fun d hd => hothers d (by simp [hd])) t
            rcases hrest with ⟨hleads, hfails⟩ | ⟨u, hbefore, hafter, hok⟩
            · exact .inl ⟨hR.trans hfirst hleads, hfails⟩
            · exact .inr ⟨u, hR.trans hfirst hbefore, hafter, hok⟩

end Leads

/-- Whether what a run ends with, if it does not fail, has a property. -/
def Yields (P : α → Prop) (x : EStateM ε σ α) : Prop := ∀ s a t, x.run s = .ok a t → P a

namespace Yields

variable {P : α → Prop} {x : EStateM ε σ α}

theorem pure {a : α} (h : P a) : Yields P (pure a : EStateM ε σ α) := by
  intro s b t hrun
  obtain ⟨rfl, -⟩ : a = b ∧ s = t := by simpa using hrun
  exact h

theorem throw (e : ε) : Yields P (throw e : EStateM ε σ α) := by
  intro s a t hrun
  simp at hrun

theorem bind {x : EStateM ε σ β} {f : β → EStateM ε σ α} (h : ∀ b, Yields P (f b)) :
    Yields P (x >>= f) := by
  intro s a t hrun
  rw [EStateM.run_bind] at hrun
  cases hx : x.run s with
  | ok b u => exact h b u a t (by rwa [hx] at hrun)
  | error e u => simp [hx] at hrun

/-- What the first part ends with can be relied on by the second. -/
theorem bind_of {Q : β → Prop} {x : EStateM ε σ β} (hx : Yields Q x) {f : β → EStateM ε σ α}
    (hf : ∀ b, Q b → Yields P (f b)) : Yields P (x >>= f) := by
  intro s a t hrun
  obtain ⟨b, u, hfirst, hsecond⟩ := run_bind_eq_ok_iff.1 hrun
  exact hf b (hx s b u hfirst) u a t hsecond

theorem ite {c : Prop} [Decidable c] {y : EStateM ε σ α} (hx : Yields P x) (hy : Yields P y) :
    Yields P (if c then x else y) := by
  split
  · exact hx
  · exact hy

end Yields

/-- Whether a run fails. -/
def Fails (x : EStateM ε σ α) (s : σ) : Prop := ∃ e t, x.run s = .error e t

section Fails

variable {x : EStateM ε σ α} {s : σ}

theorem fails_of_error {e : ε} {t : σ} (h : x.run s = .error e t) : Fails x s := ⟨e, t, h⟩

theorem not_fails_of_ok {a : α} {t : σ} (h : x.run s = .ok a t) : ¬ Fails x s := by
  rintro ⟨e, u, herror⟩
  rw [h] at herror
  cases herror

instance (x : EStateM ε σ α) (s : σ) : Decidable (Fails x s) :=
  match h : x.run s with
  | .ok _ _ => isFalse (not_fails_of_ok h)
  | .error _ _ => isTrue (fails_of_error h)

theorem not_fails_iff : ¬ Fails x s ↔ ∃ a t, x.run s = .ok a t := by
  constructor
  · intro h
    cases hrun : x.run s with
    | ok a t => exact ⟨a, t, rfl⟩
    | error e t => exact absurd ⟨e, t, hrun⟩ h
  · rintro ⟨a, t, hrun⟩
    exact not_fails_of_ok hrun

theorem not_fails_pure (a : α) (s : σ) : ¬ Fails (pure a : EStateM ε σ α) s := not_fails_of_ok rfl

theorem not_fails_modify (f : σ → σ) (s : σ) : ¬ Fails (modify f : EStateM ε σ PUnit) s :=
  not_fails_of_ok rfl

/-- A run of two parts fails where the first part fails or the second part does after it. -/
theorem fails_bind_iff {f : α → EStateM ε σ β} :
    Fails (x >>= f) s ↔ Fails x s ∨ ∃ a t, x.run s = .ok a t ∧ Fails (f a) t := by
  unfold Fails
  rw [EStateM.run_bind]
  cases hrun : x.run s with
  | ok a t =>
      refine ⟨fun h => .inr ⟨a, t, rfl, h⟩, ?_⟩
      rintro (⟨e, u, herror⟩ | ⟨b, u, hok, hfails⟩)
      · cases herror
      · cases hok
        exact hfails
  | error e t =>
      refine ⟨fun _ => .inl ⟨e, t, rfl⟩, fun _ => ⟨e, t, rfl⟩⟩

theorem fails_bind_of_ok {f : α → EStateM ε σ β} {a : α} {t : σ} (h : x.run s = .ok a t) :
    Fails (x >>= f) s ↔ Fails (f a) t := by
  unfold Fails
  rw [run_bind_of_ok h]

/-- A first part that does not fail leaves it to the second. -/
theorem not_fails_bind {f : α → EStateM ε σ β} (hx : ¬ Fails x s)
    (hf : ∀ a t, x.run s = .ok a t → ¬ Fails (f a) t) : ¬ Fails (x >>= f) s := by
  rw [fails_bind_iff]
  rintro (h | ⟨a, t, hrun, h⟩)
  · exact hx h
  · exact hf a t hrun h

/-- A second part that does not fail leaves it to the first. -/
theorem fails_bind_left {f : α → EStateM ε σ β}
    (hf : ∀ a t, x.run s = .ok a t → ¬ Fails (f a) t) : Fails (x >>= f) s ↔ Fails x s := by
  rw [fails_bind_iff]
  exact ⟨fun h => h.elim id fun ⟨a, t, hrun, hfails⟩ => absurd hfails (hf a t hrun), .inl⟩

end Fails

/-- Whether an invariant holds after a run, and the run fails only if something is at fault. -/
structure Upholds (I : σ → Prop) (fault : Prop) (x : EStateM ε σ α) (s : σ) : Prop where
  leaves : I (left (x.run s))
  answers : Fails x s → fault

namespace Upholds

variable {I : σ → Prop} {fault : Prop} {x : EStateM ε σ α} {s : σ}

theorem of_not_fails (hleaves : I (left (x.run s))) (hfails : ¬ Fails x s) : Upholds I fault x s :=
  ⟨hleaves, fun h => absurd h hfails⟩

theorem pure (h : I s) (a : α) : Upholds I fault (pure a : EStateM ε σ α) s :=
  of_not_fails h (not_fails_pure a s)

theorem weaken {J : σ → Prop} (h : Upholds I fault x s) (hIJ : ∀ {t}, I t → J t) :
    Upholds J fault x s := ⟨hIJ h.leaves, h.answers⟩

theorem bind {f : α → EStateM ε σ β} (hx : Upholds I fault x s)
    (hf : ∀ a t, x.run s = .ok a t → I t → Upholds I fault (f a) t) :
    Upholds I fault (x >>= f) s := by
  constructor
  · have hleaves := hx.leaves
    rw [EStateM.run_bind]
    cases hrun : x.run s with
    | ok a t =>
        rw [hrun] at hleaves
        exact (hf a t hrun hleaves).leaves
    | error e t => rwa [hrun] at hleaves
  · rw [fails_bind_iff]
    rintro (h | ⟨a, t, hrun, h⟩)
    · exact hx.answers h
    · have hleaves := hx.leaves
      rw [hrun] at hleaves
      exact (hf a t hrun hleaves).answers h

theorem get_bind {f : σ → EStateM ε σ β} (h : Upholds I fault (f s) s) :
    Upholds I fault (get >>= f) s := ⟨h.leaves, h.answers⟩

theorem modify_bind {g : σ → σ} {f : PUnit → EStateM ε σ β} (h : Upholds I fault (f ⟨⟩) (g s)) :
    Upholds I fault (modify g >>= f) s := ⟨h.leaves, h.answers⟩

theorem set_bind {t : σ} {f : PUnit → EStateM ε σ β} (h : Upholds I fault (f ⟨⟩) t) :
    Upholds I fault (set t >>= f) s := ⟨h.leaves, h.answers⟩

theorem modify {f : σ → σ} (h : I (f s)) : Upholds I fault (modify f : EStateM ε σ PUnit) s :=
  of_not_fails h (not_fails_modify f s)

theorem ite {c : Prop} [Decidable c] {y : EStateM ε σ α} (hx : c → Upholds I fault x s)
    (hy : ¬ c → Upholds I fault y s) : Upholds I fault (if c then x else y) s := by
  split
  · exact hx ‹_›
  · exact hy ‹_›

end Upholds

/-- Whether the runs from two states both fail, or both end with the same result, with states in a
relation. -/
structure Parallel (R : σ → σ → Prop) (x : EStateM ε σ α) (s t : σ) : Prop where
  fails_iff : Fails x s ↔ Fails x t
  relates : ∀ {a b s' t'}, x.run s = .ok a s' → x.run t = .ok b t' → a = b ∧ R s' t'

namespace Parallel

variable {R : σ → σ → Prop} {x : EStateM ε σ α} {s t : σ}

theorem throw (e : ε) : Parallel R (throw e : EStateM ε σ α) s t :=
  ⟨iff_of_true ⟨e, s, rfl⟩ ⟨e, t, rfl⟩, fun hrun => nomatch hrun⟩

theorem pure (h : R s t) (a : α) : Parallel R (pure a : EStateM ε σ α) s t := by
  refine ⟨iff_of_false (not_fails_pure a s) (not_fails_pure a t), ?_⟩
  rintro _ _ _ _ ⟨⟩ ⟨⟩
  exact ⟨rfl, h⟩

theorem bind {f : α → EStateM ε σ β} (hx : Parallel R x s t)
    (hf : ∀ a s' t', R s' t' → Parallel R (f a) s' t') : Parallel R (x >>= f) s t := by
  cases hs : x.run s with
  | ok a s' =>
      cases ht : x.run t with
      | ok b t' =>
          obtain ⟨rfl, hrelated⟩ := hx.relates hs ht
          have hnext := hf a s' t' hrelated
          refine ⟨?_, fun hrun hrun' => ?_⟩
          · rw [fails_bind_of_ok hs, fails_bind_of_ok ht, hnext.fails_iff]
          · rw [run_bind_of_ok hs] at hrun
            rw [run_bind_of_ok ht] at hrun'
            exact hnext.relates hrun hrun'
      | error e t' => exact absurd (hx.fails_iff.2 (fails_of_error ht)) (not_fails_of_ok hs)
  | error e s' =>
      obtain ⟨d, t', ht⟩ := hx.fails_iff.1 (fails_of_error hs)
      have hfails : Fails (x >>= f) s := fails_bind_iff.2 (.inl (fails_of_error hs))
      refine ⟨iff_of_true hfails (fails_bind_iff.2 (.inl (fails_of_error ht))), fun hrun => ?_⟩
      exact absurd hfails (not_fails_of_ok hrun)

theorem ite {c : Prop} [Decidable c] {y : EStateM ε σ α} (hx : Parallel R x s t)
    (hy : Parallel R y s t) : Parallel R (if c then x else y) s t := by
  split
  · exact hx
  · exact hy

end Parallel

/-- The relation of earlier to later states that an invariant gives. -/
theorem lasting_invariant (P : σ → Prop) : Lasting fun s t => P s → P t :=
  ⟨fun _ h => h, fun h h' hs => h' (h hs)⟩

theorem run_attempt (operation : Edit Unit) (fs : FileSystem) :
    (Action.attempt operation).run fs = match operation.run fs with
      | .ok _ t => .ok none t
      | .error e t => .ok (some e.cause) t := rfl

theorem leads_attempt {R : FileSystem → FileSystem → Prop} {operation : Edit Unit}
    {fs : FileSystem} :
    Leads R (Action.attempt operation) fs ↔ Leads R operation fs := by
  unfold Leads
  rw [run_attempt]
  cases operation.run fs <;> rfl

theorem leads_forEach {R : FileSystem → FileSystem → Prop} (hR : Lasting R)
    {operands : List String} {action : String → Action (List String)}
    (h : ∀ operand ∈ operands, ∀ fs, Leads R (action operand) fs) (fs : FileSystem) :
    Leads R (Action.forEach operands action) fs := by
  induction operands generalizing fs with
  | nil => exact hR.refl fs
  | cons operand rest ih =>
      refine .bind hR (h operand (by simp) fs) fun _ t _ => ?_
      refine .bind hR (ih (fun o ho => h o (by simp [ho])) t) fun _ u _ => ?_
      exact .pure hR _ u

/-- Running an action for each operand starts with the first and goes on with the rest. -/
theorem run_forEach_cons {operand : String} {rest : List String}
    {action : String → Action (List String)} {fs t : FileSystem} {messages : List String}
    (h : (action operand).run fs = .ok messages t) :
    (Action.forEach (operand :: rest) action).run fs =
      match (Action.forEach rest action).run t with
        | .ok others u => .ok (messages ++ others) u
        | .error e u => .error e u := by
  rw [Action.forEach, EStateM.run_bind, h]
  dsimp only
  rw [EStateM.run_bind]
  cases (Action.forEach rest action).run t <;> rfl

/-- Two actions that do the same for each operand, as long as an invariant holds, do the same for
all. -/
theorem run_forEach_congr {I : FileSystem → Prop} {operands : List String}
    {action other : String → Action (List String)} {fs : FileSystem}
    (hsame : ∀ operand t, I t → (other operand).run t = (action operand).run t)
    (hkeeps : ∀ operand t, I t → I (left ((action operand).run t))) (hfs : I fs) :
    (Action.forEach operands other).run fs = (Action.forEach operands action).run fs := by
  induction operands generalizing fs with
  | nil => rfl
  | cons operand rest ih =>
      rw [Action.forEach, Action.forEach, EStateM.run_bind, EStateM.run_bind, hsame operand fs hfs]
      have hleft := hkeeps operand fs hfs
      cases hrun : (action operand).run fs with
      | ok messages t =>
          rw [hrun, left_ok] at hleft
          dsimp only
          rw [EStateM.run_bind, EStateM.run_bind, ih hleft]
      | error e t => rfl

variable {ε ε' σ τ α α' β β' γ : Type}

/-- Whether two runs both end with results or both fail, with related failures, states and
results. -/
inductive Ends (E : ε → ε' → Prop) (R : σ → τ → Prop) (V : α → α' → Prop) :
    EStateM.Result ε σ α → EStateM.Result ε' τ α' → Prop
  | ok {a : α} {a' : α'} {s : σ} {t : τ} (hresults : V a a') (hstates : R s t) :
      Ends E R V (.ok a s) (.ok a' t)
  | error {e : ε} {e' : ε'} {s : σ} {t : τ} (hfailures : E e e') (hstates : R s t) :
      Ends E R V (.error e s) (.error e' t)

/-- Whether two answers are both given or both refused, with related failures and values. -/
inductive Answers (E : ε → ε' → Prop) (V : α → α' → Prop) : Except ε α → Except ε' α' → Prop
  | ok {a : α} {a' : α'} (hvalues : V a a') : Answers E V (.ok a) (.ok a')
  | error {e : ε} {e' : ε'} (hfailures : E e e') : Answers E V (.error e) (.error e')

/-- What a run ends with. -/
def answer : EStateM.Result ε σ α → Except ε α
  | .ok a _ => .ok a
  | .error e _ => .error e

/-- Whether the run of one program and that of another end alike. -/
def Mirrors (E : ε → ε' → Prop) (R : σ → τ → Prop) (V : α → α' → Prop) (x : EStateM ε σ α)
    (y : EStateM ε' τ α') (s : σ) (t : τ) : Prop := Ends E R V (x.run s) (y.run t)

theorem Answers.map {E : ε → ε' → Prop} {V : α → α' → Prop} {W : β → β' → Prop}
    {x : Except ε α} {y : Except ε' α'} {f : α → β} {g : α' → β'} (h : Answers E V x y)
    (hvalues : ∀ {a a'}, V a a' → W (f a) (g a')) : Answers E W (x.map f) (y.map g) := by
  cases h with
  | ok hrelated => exact .ok (hvalues hrelated)
  | error hfailures => exact .error hfailures

theorem Ends.imp {E : ε → ε' → Prop} {R Q : σ → τ → Prop} {V W : α → α' → Prop}
    {r : EStateM.Result ε σ α} {r' : EStateM.Result ε' τ α'} (h : Ends E R V r r')
    (hstates : ∀ {s t}, R s t → Q s t) (hresults : ∀ {a a'}, V a a' → W a a') : Ends E Q W r r' := by
  cases h with
  | ok hvalues hrelated => exact .ok (hresults hvalues) (hstates hrelated)
  | error hfailures hrelated => exact .error hfailures (hstates hrelated)

theorem Ends.states {E : ε → ε' → Prop} {R : σ → τ → Prop} {V : α → α' → Prop}
    {r : EStateM.Result ε σ α} {r' : EStateM.Result ε' τ α'} (h : Ends E R V r r') :
    R (left r) (left r') := by
  cases h <;> assumption

theorem Ends.answer_eq {R : σ → τ → Prop} {r : EStateM.Result ε σ α} {r' : EStateM.Result ε τ α}
    (h : Ends Eq R Eq r r') : answer r' = answer r := by
  cases h with
  | ok hresults => rw [answer, answer, hresults]
  | error hfailures => rw [answer, answer, hfailures]

theorem Ends.and_left {E : ε → ε' → Prop} {R : σ → τ → Prop} {V : α → α' → Prop} {Q : σ → Prop}
    {r : EStateM.Result ε σ α} {r' : EStateM.Result ε' τ α'} (h : Ends E R V r r')
    (hleft : Q (left r)) : Ends E (fun s t => R s t ∧ Q s) V r r' := by
  cases h with
  | ok hresults hstates => exact .ok hresults ⟨hstates, hleft⟩
  | error hfailures hstates => exact .error hfailures ⟨hstates, hleft⟩

namespace Mirrors

variable {E : ε → ε' → Prop} {R : σ → τ → Prop} {V : α → α' → Prop} {W : β → β' → Prop}
  {x : EStateM ε σ α} {y : EStateM ε' τ α'} {s : σ} {t : τ}

theorem pure {a : α} {a' : α'} (hstates : R s t) (hresults : V a a') :
    Mirrors E R V (pure a) (pure a') s t := .ok hresults hstates

theorem throw {e : ε} {e' : ε'} (hstates : R s t) (hfailures : E e e') :
    Mirrors E R V (throw e) (throw e') s t := .error hfailures hstates

theorem throw_bind {e : ε} {e' : ε'} {f : α → EStateM ε σ β} {g : α' → EStateM ε' τ β'}
    (hstates : R s t) (hfailures : E e e') :
    Mirrors E R W (throwThe ε e >>= f) (throwThe ε' e' >>= g) s t :=
  .error hfailures hstates

theorem modify_bind {k : σ → σ} {k' : τ → τ} {f : PUnit → EStateM ε σ β}
    {g : PUnit → EStateM ε' τ β'} (h : Mirrors E R W (f ⟨⟩) (g ⟨⟩) (k s) (k' t)) :
    Mirrors E R W (modify k >>= f) (modify k' >>= g) s t := h

theorem set_bind {s' : σ} {t' : τ} {f : PUnit → EStateM ε σ β} {g : PUnit → EStateM ε' τ β'}
    (h : Mirrors E R W (f ⟨⟩) (g ⟨⟩) s' t') : Mirrors E R W (set s' >>= f) (set t' >>= g) s t := h

theorem modify {f : σ → σ} {g : τ → τ} {V : PUnit → PUnit → Prop} (hstates : R (f s) (g t))
    (hresults : V ⟨⟩ ⟨⟩) : Mirrors E R V (modify f) (modify g) s t := .ok hresults hstates

theorem get_bind {f : σ → EStateM ε σ β} {g : τ → EStateM ε' τ β'}
    (h : Mirrors E R W (f s) (g t) s t) : Mirrors E R W (get >>= f) (get >>= g) s t := h

theorem bind {f : α → EStateM ε σ β} {g : α' → EStateM ε' τ β'} (h : Mirrors E R V x y s t)
    (hnext : ∀ a a' s' t', x.run s = .ok a s' → y.run t = .ok a' t' → V a a' → R s' t' →
      Mirrors E R W (f a) (g a') s' t') : Mirrors E R W (x >>= f) (y >>= g) s t := by
  unfold Mirrors at h ⊢
  rw [EStateM.run_bind, EStateM.run_bind]
  cases hx : x.run s with
  | ok a s' =>
      cases hy : y.run t with
      | ok a' t' =>
          rw [hx, hy] at h
          cases h with
          | ok hresults hstates => exact hnext a a' s' t' hx hy hresults hstates
      | error e' t' =>
          rw [hx, hy] at h
          cases h
  | error e s' =>
      cases hy : y.run t with
      | ok a' t' =>
          rw [hx, hy] at h
          cases h
      | error e' t' =>
          rw [hx, hy] at h
          cases h with
          | error hfailures hstates => exact .error hfailures hstates

theorem ite {c d : Prop} [Decidable c] [Decidable d] {x' : EStateM ε σ α} {y' : EStateM ε' τ α'}
    (hiff : c ↔ d) (h : c → Mirrors E R V x y s t) (h' : ¬ c → Mirrors E R V x' y' s t) :
    Mirrors E R V (if c then x else x') (if d then y else y') s t := by
  by_cases hc : c
  · rw [if_pos hc, if_pos (hiff.1 hc)]
    exact h hc
  · rw [if_neg hc, if_neg fun hd => hc (hiff.2 hd)]
    exact h' hc

/-- Runs over one list end alike if those over its elements do. -/
theorem forM {V : PUnit → PUnit → Prop} (hresults : V ⟨⟩ ⟨⟩) {l : List γ}
    {f : γ → EStateM ε σ PUnit} {g : γ → EStateM ε' τ PUnit}
    (h : ∀ c ∈ l, ∀ s t, R s t → Mirrors E R V (f c) (g c) s t) (hstates : R s t) :
    Mirrors E R V (l.forM f) (l.forM g) s t := by
  induction l generalizing s t with
  | nil => exact .ok hresults hstates
  | cons c l ih =>
      refine bind (h c (by simp) s t hstates) fun _ _ s' t' _ _ _ hnext => ?_
      exact ih (fun d hd => h d (by simp [hd])) hnext

end Mirrors

end PracticeShell.Run
