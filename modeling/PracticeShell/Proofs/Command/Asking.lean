import Mathlib.Tactic.ByContra
import PracticeShell.Proofs.Command.Steps

/-!
# Who asks for a password, and who goes elsewhere

No command but `sudo` asks for a password. So a command line that does is `sudo` with other words
after it, which are left to be run later, and nothing has been changed (`execute_needsPassword`). No
command but `cd` goes to another directory, which is the place that its operand means
(`execute_heads`).
-/

namespace PracticeShell.Command

open Run

/-- Whether an outcome asks for no password. -/
def IsFinal (o : Outcome) : Prop := o.needsPassword = false

/-- Whether an outcome asks for no password and goes nowhere. -/
structure StaysHere (o : Outcome) : Prop where
  isFinal : IsFinal o
  newDirectory : o.newDirectory = none

section

variable (ctx : Context) (words : List String) (input : Option String)

/-- What `cd` does, if it does not fail: it goes to the place that its operand means. -/
theorem runCd_cases (fs : FileSystem) :
    (∃ errors, errors ≠ "" ∧ runCd ctx words fs = .fail errors Outcome.failure) ∨
      runCd ctx words fs = { newDirectory := some (ctx.resolve (words.headD "~")) } := by
  unfold runCd
  dsimp only
  repeat' split
  all_goals first | exact .inr rfl | exact .inl ⟨_, by simp, rfl⟩

theorem runLs_staysHere : Yields StaysHere (runLs ctx words) :=
  .bind fun _ => .bind fun _ => .pure ⟨rfl, rfl⟩

theorem runCat_staysHere : Yields StaysHere (runCat ctx words input) := by
  refine .bind fun args => .bind fun fs => ?_
  dsimp only
  split <;> exact .pure ⟨rfl, rfl⟩

theorem runWindow_staysHere (fromEnd : Bool) :
    Yields StaysHere (runWindow fromEnd ctx words input) := by
  refine .bind fun args => .bind fun window => ?_
  cases window with
  | error raw => exact .pure ⟨rfl, rfl⟩
  | ok w =>
      refine .bind fun fs => ?_
      dsimp only
      split <;> exact .pure ⟨rfl, rfl⟩

theorem runWc_staysHere : Yields StaysHere (runWc ctx words input) := by
  refine .bind fun args => .bind fun fs => ?_
  dsimp only
  split <;> exact .pure ⟨rfl, rfl⟩

theorem runStat_staysHere : Yields StaysHere (runStat ctx words) :=
  .bind fun _ => .ite (.pure ⟨rfl, rfl⟩) (.bind fun _ => .pure ⟨rfl, rfl⟩)

theorem runGrep_staysHere : Yields StaysHere (runGrep ctx words input) := by
  refine .bind fun args => ?_
  split
  · exact .pure ⟨rfl, rfl⟩
  · refine .bind fun fs => ?_
    dsimp only
    split
    · exact .pure ⟨rfl, rfl⟩
    · exact .throw _
    · split <;> exact .pure ⟨rfl, rfl⟩

theorem runFind_staysHere : Yields StaysHere (runFind ctx words) := by
  unfold runFind
  dsimp only
  split
  · exact .pure ⟨rfl, rfl⟩
  · split
    · exact .pure ⟨rfl, rfl⟩
    · refine .bind fun depth => ?_
      cases depth with
      | error text => exact .pure ⟨rfl, rfl⟩
      | ok depth => exact .bind fun fs => .pure ⟨rfl, rfl⟩

theorem runMkdir_staysHere : Yields StaysHere (runMkdir ctx words) :=
  .bind fun _ => .ite (.pure ⟨rfl, rfl⟩) (.bind fun _ => .pure ⟨rfl, rfl⟩)

theorem runTouch_staysHere : Yields StaysHere (runTouch ctx words) :=
  .bind fun _ => .ite (.pure ⟨rfl, rfl⟩) (.bind fun _ => .pure ⟨rfl, rfl⟩)

theorem runRmdir_staysHere : Yields StaysHere (runRmdir ctx words) :=
  .bind fun _ => .ite (.pure ⟨rfl, rfl⟩) (.bind fun _ => .pure ⟨rfl, rfl⟩)

theorem runRm_staysHere : Yields StaysHere (runRm ctx words) := by
  refine .bind fun args => .bind fun fs => .ite ?_ (.bind fun _ => .pure ⟨rfl, rfl⟩)
  split <;> exact .pure ⟨rfl, rfl⟩

theorem runCp_staysHere : Yields StaysHere (runCp ctx words) := by
  refine .bind fun args => .bind fun fs => ?_
  split
  · exact .pure ⟨rfl, rfl⟩
  · exact .bind fun _ => .pure ⟨rfl, rfl⟩

theorem runMv_staysHere : Yields StaysHere (runMv ctx words) := by
  refine .bind fun args => .bind fun fs => ?_
  split
  · exact .pure ⟨rfl, rfl⟩
  · exact .bind fun _ => .pure ⟨rfl, rfl⟩

theorem runChmod_staysHere : Yields StaysHere (runChmod ctx words) := by
  unfold runChmod
  dsimp only
  split
  · exact .bind fun _ => .ite (.pure ⟨rfl, rfl⟩) (.bind fun _ => .pure ⟨rfl, rfl⟩)
  · exact .pure ⟨rfl, rfl⟩

theorem runChown_staysHere : Yields StaysHere (runChown ctx words) := by
  refine .bind fun args => ?_
  split
  · exact .bind fun _ => .ite (.pure ⟨rfl, rfl⟩) (.bind fun _ => .pure ⟨rfl, rfl⟩)
  · exact .pure ⟨rfl, rfl⟩

/-- No command but `cd` goes anywhere, and none asks for a password by itself. -/
theorem run_staysHere (c : Command) (h : c ≠ cd) : Yields StaysHere (c.run ctx words input) := by
  cases c with
  | cd => exact absurd rfl h
  | pwd => exact .pure ⟨rfl, rfl⟩
  | ls => exact runLs_staysHere ctx words
  | cat => exact runCat_staysHere ctx words input
  | mkdir => exact runMkdir_staysHere ctx words
  | touch => exact runTouch_staysHere ctx words
  | rm => exact runRm_staysHere ctx words
  | rmdir => exact runRmdir_staysHere ctx words
  | cp => exact runCp_staysHere ctx words
  | mv => exact runMv_staysHere ctx words
  | echo => exact .pure ⟨rfl, rfl⟩
  | grep => exact runGrep_staysHere ctx words input
  | find => exact runFind_staysHere ctx words
  | head => exact runWindow_staysHere ctx words input false
  | tail => exact runWindow_staysHere ctx words input true
  | wc => exact runWc_staysHere ctx words input
  | clear => exact .pure ⟨rfl, rfl⟩
  | whoami => exact .pure ⟨rfl, rfl⟩
  | chmod => exact runChmod_staysHere ctx words
  | chown => exact runChown_staysHere ctx words
  | stat => exact runStat_staysHere ctx words
  | superuser => exact .pure ⟨rfl, rfl⟩

theorem answerFault_staysHere (name : String) (fault : Fault) :
    StaysHere (answerFault name fault) := by
  cases fault <;> exact ⟨rfl, rfl⟩

theorem notFound_staysHere (name : String) : StaysHere (notFound name) := by
  unfold notFound
  split <;> exact ⟨rfl, rfl⟩

section

variable {P : Outcome → Prop} (hstays : ∀ {o}, StaysHere o → P o)
  (hcd : ∀ words fs, P (runCd ctx words fs))

include hstays

theorem guarded_yields {name : String} {action : Action Outcome} (h : Yields P action)
    (fs : FileSystem) : P (guarded name action fs).1 := by
  unfold guarded
  cases hrun : action fs with
  | ok outcome later => exact h fs outcome later hrun
  | error fault later => exact hstays (answerFault_staysHere name fault)

include hcd

theorem run_yields (c : Command) : Yields P (c.run ctx words input) := by
  by_cases hc : c = cd
  · subst hc
    exact .bind fun fs => .pure (hcd words fs)
  · exact fun fs o later hrun => hstays (run_staysHere ctx words input c hc fs o later hrun)

variable {words input}

/-- What holds of outcomes that ask for nothing and go nowhere, of what `cd` comes to, and of `sudo`
where it asks for a password, holds of all that words come to. -/
theorem execute_yields (hasks : ctx.elevated = false → ∀ rest,
    P { needsPassword := true, pending := rest }) (fs : FileSystem) :
    P (execute ctx input words fs).1 := by
  induction words with
  | nil => exact hstays ⟨rfl, rfl⟩
  | cons text words ih =>
      cases hname : ofName? text with
      | none =>
          rw [execute_unknown ctx words input hname]
          exact hstays (notFound_staysHere text)
      | some c =>
          by_cases hc : c = superuser
          · subst hc
            rw [execute_superuser ctx words input hname]
            split
            · exact hstays ⟨rfl, rfl⟩
            · split
              · exact ih
              · rename_i helevated
                exact hasks (by simpa using helevated) words
          · rw [execute_of_ne ctx words input hname hc]
            exact guarded_yields hstays (run_yields ctx words input hstays hcd c) fs

end

variable {ctx words input} {fs : FileSystem}

theorem runCd_isFinal (words : List String) (fs : FileSystem) : IsFinal (runCd ctx words fs) := by
  rcases runCd_cases ctx words fs with ⟨errors, -, hrun⟩ | hrun <;> rw [hrun] <;> rfl

theorem execute_isFinal (hctx : ctx.elevated = true) : IsFinal (execute ctx input words fs).1 :=
  execute_yields ctx StaysHere.isFinal runCd_isFinal (fun hplain => by simp [hctx] at hplain) fs

/-- Whether an outcome goes to a place that some operand means, if anywhere. -/
def Heads (ctx : Context) (o : Outcome) : Prop :=
  ∀ path, o.newDirectory = some path → ∃ target, path = ctx.resolve target

theorem StaysHere.heads {o : Outcome} (h : StaysHere o) : Heads ctx o := by
  intro path hpath
  rw [h.newDirectory] at hpath
  cases hpath

theorem runCd_heads (words : List String) (fs : FileSystem) : Heads ctx (runCd ctx words fs) := by
  rcases runCd_cases ctx words fs with ⟨errors, -, hrun⟩ | hrun
  · rw [hrun]
    exact nofun
  · rw [hrun]
    rintro path ⟨⟩
    exact ⟨_, rfl⟩

theorem execute_heads : Heads ctx (execute ctx input words fs).1 :=
  execute_yields ctx StaysHere.heads runCd_heads (fun _ _ _ => nofun) fs

/-- A command line that asks for a password is `sudo` with other words after it. These are left to
be run later, and nothing is changed. -/
theorem execute_needsPassword (h : (execute ctx input words fs).1.needsPassword = true) :
    ∃ rest, words = name superuser :: rest ∧
      execute ctx input words fs = ({ needsPassword := true, pending := rest }, fs) := by
  have hasks : ∀ o : Outcome, IsFinal o → o.needsPassword ≠ true := by
    intro o ho hasks
    rw [IsFinal, hasks] at ho
    exact absurd ho (by simp)
  have hctx : ctx.elevated = false := by
    by_contra hctx
    exact hasks _ (execute_isFinal (by simpa using hctx)) h
  cases words with
  | nil => exact absurd h Bool.false_ne_true
  | cons text words =>
      cases hname : ofName? text with
      | none =>
          rw [execute_unknown ctx words input hname] at h
          exact absurd h (hasks _ (notFound_staysHere text).isFinal)
      | some c =>
          by_cases hc : c = superuser
          · subst hc
            rw [execute_superuser ctx words input hname, hctx] at h ⊢
            split at h
            · exact absurd h Bool.false_ne_true
            · rename_i hwords
              rw [if_neg hwords]
              exact ⟨words, by rw [name_of_ofName? hname], rfl⟩
          · rw [execute_of_ne ctx words input hname hc] at h
            exact absurd h (hasks _ (guarded_yields StaysHere.isFinal
              (run_yields ctx words input StaysHere.isFinal runCd_isFinal c) fs))

end

end PracticeShell.Command
