import PracticeShell.Command.Dispatch
import PracticeShell.Proofs.Tree.Steps

/-!
# What commands change

Most commands only read. Of those that change something, `rm`, `rmdir` and `mv` can remove nodes,
and all others only make, fill and mark (`run_grows`). What an operand of a command leads to is what
its operation leads to where that is allowed (`leads_removeOne_of` and its like), and what is shown of
every operation that commands use holds of every command line (`leads_execute`).
-/

namespace PracticeShell

open FileTree FileTree.Change Run

namespace Action

/-- Whether an action gives a value, or fails, without a look at the files. -/
def IsFixed {α : Type} (x : Action α) : Prop := (∃ a, x = pure a) ∨ ∃ e, x = throw e

theorem IsFixed.pure {α : Type} (a : α) : IsFixed (pure a) := .inl ⟨a, rfl⟩

theorem IsFixed.throw {α : Type} (e : Fault) : IsFixed (throw e : Action α) := .inr ⟨e, rfl⟩

theorem IsFixed.ite {α : Type} {c : Prop} [Decidable c] {x y : Action α} (hx : IsFixed x)
    (hy : IsFixed y) : IsFixed (if c then x else y) := by
  split
  · exact hx
  · exact hy

theorem isFixed_arguments (rules : Arguments.Rules) (words : List String) :
    IsFixed (Action.arguments rules words) := by
  unfold Action.arguments
  cases Arguments.parse rules words with
  | ok a => exact .pure a
  | error e => cases e <;> exact .throw _

variable {R : FileSystem → FileSystem → Prop} (hR : Lasting R)

include hR

theorem IsFixed.leads {α : Type} {x : Action α} (h : IsFixed x) (fs : FileSystem) : Leads R x fs := by
  rcases h with ⟨a, rfl⟩ | ⟨e, rfl⟩
  · exact .pure hR a fs
  · exact .throw hR e fs

theorem leads_arguments (rules : Arguments.Rules) (words : List String) (fs : FileSystem) :
    Leads R (Action.arguments rules words) fs := IsFixed.leads hR (isFixed_arguments rules words) fs

omit hR in
/-- Arguments that the rules give are taken, and nothing is changed. -/
theorem run_arguments {rules : Arguments.Rules} {words : List String} {args : Arguments}
    (h : Arguments.parse rules words = .ok args) (fs : FileSystem) :
    (Action.arguments rules words).run fs = .ok args fs := by
  unfold Action.arguments
  rw [h]
  rfl

omit hR in
/-- Arguments that are taken are those that the rules give, and nothing is changed. -/
theorem of_run_arguments {rules : Arguments.Rules} {words : List String} {args : Arguments}
    {fs t : FileSystem} (h : (Action.arguments rules words).run fs = .ok args t) :
    Arguments.parse rules words = .ok args ∧ t = fs := by
  unfold Action.arguments at h
  cases hparse : Arguments.parse rules words with
  | ok a =>
      rw [hparse] at h
      obtain ⟨rfl, rfl⟩ : a = args ∧ fs = t := by simpa using h
      exact ⟨rfl, rfl⟩
  | error e => cases e <;> simp [hparse] at h

end Action

namespace Command

theorem isFixed_windowOf (fromEnd : Bool) (args : Arguments) :
    Action.IsFixed (windowOf fromEnd args) := by
  unfold windowOf
  dsimp only
  split
  · exact .pure _
  · exact .pure _
  · refine .ite (.pure _) ?_
    split
    · exact .pure _
    · exact .throw _

theorem isFixed_depthOf (predicates : List (String × String)) :
    Action.IsFixed (depthOf predicates) := by
  unfold depthOf
  split
  · exact .pure _
  · refine .ite (.pure _) ?_
    split
    · exact .pure _
    · exact .throw _

section Reading

variable {R : FileSystem → FileSystem → Prop} (hR : Lasting R) (ctx : Context)
  (words : List String) (input : Option String) (fs : FileSystem)

include hR

theorem leads_runLs : Leads R (runLs ctx words) fs := by
  refine .bind hR (Action.leads_arguments hR _ words fs) fun args t _ => .get_bind ?_
  exact .pure hR _ t

theorem leads_runCat : Leads R (runCat ctx words input) fs := by
  refine .bind hR (Action.leads_arguments hR _ words fs) fun args t _ => .get_bind ?_
  dsimp only
  split <;> exact .pure hR _ t

theorem leads_runWindow (fromEnd : Bool) : Leads R (runWindow fromEnd ctx words input) fs := by
  refine .bind hR (Action.leads_arguments hR _ words fs) fun args t _ => ?_
  refine .bind hR (Action.IsFixed.leads hR (isFixed_windowOf fromEnd args) t) fun window u _ => ?_
  cases window with
  | error raw => exact .pure hR _ u
  | ok w =>
      refine .get_bind ?_
      dsimp only
      split <;> exact .pure hR _ u

theorem leads_runWc : Leads R (runWc ctx words input) fs := by
  refine .bind hR (Action.leads_arguments hR _ words fs) fun args t _ => .get_bind ?_
  dsimp only
  split <;> exact .pure hR _ t

theorem leads_runStat : Leads R (runStat ctx words) fs := by
  refine .bind hR (Action.leads_arguments hR _ words fs) fun args t _ => ?_
  refine .ite (fun _ => .pure hR _ t) fun _ => .get_bind ?_
  exact .pure hR _ t

theorem leads_runGrep : Leads R (runGrep ctx words input) fs := by
  refine .bind hR (Action.leads_arguments hR _ words fs) fun args t _ => ?_
  split
  · exact .pure hR _ t
  · refine .get_bind ?_
    dsimp only
    split
    · exact .pure hR _ t
    · exact .throw hR _ t
    · split <;> exact .pure hR _ t

theorem leads_runFind : Leads R (runFind ctx words) fs := by
  unfold runFind
  dsimp only
  split
  · exact .pure hR _ fs
  · split
    · exact .pure hR _ fs
    · refine .bind hR (Action.IsFixed.leads hR (isFixed_depthOf _) fs) fun depth t _ => ?_
      cases depth with
      | error text => exact .pure hR _ t
      | ok depth => exact .get_bind (.pure hR _ t)

/-- Whether a command can change the file system. -/
def changes : Command → Bool
  | mkdir | touch | rm | rmdir | cp | mv | chmod | chown => true
  | _ => false

/-- A command that only reads leads to what no change leads to. -/
theorem leads_run_of_reads {c : Command} (hc : c.changes = false) :
    Leads R (c.run ctx words input) fs := by
  cases c with
  | cd => exact .get_bind (.pure hR _ fs)
  | pwd => exact .pure hR _ fs
  | ls => exact leads_runLs hR ctx words fs
  | cat => exact leads_runCat hR ctx words input fs
  | echo => exact .pure hR _ fs
  | grep => exact leads_runGrep hR ctx words input fs
  | find => exact leads_runFind hR ctx words fs
  | head => exact leads_runWindow hR ctx words input fs false
  | tail => exact leads_runWindow hR ctx words input fs true
  | wc => exact leads_runWc hR ctx words input fs
  | clear => exact .pure hR _ fs
  | whoami => exact .pure hR _ fs
  | stat => exact leads_runStat hR ctx words fs
  | superuser => exact .pure hR _ fs
  | _ => simp [changes] at hc

end Reading

section Writing

variable {R : FileSystem → FileSystem → Prop} (hR : Lasting R) (ctx : Context)
  (words : List String) (fs : FileSystem)

include hR

/-- What making each directory leads to, `mkdir` leads to. -/
theorem leads_runMkdir (h : ∀ parents operand t, Leads R (makeOne ctx parents operand) t) :
    Leads R (runMkdir ctx words) fs := by
  refine .bind hR (Action.leads_arguments hR _ words fs) fun args t _ => ?_
  refine .ite (fun _ => .pure hR _ t) fun _ => ?_
  refine .bind hR (leads_forEach hR (fun operand _ u => h _ operand u) t) fun messages u _ => ?_
  exact .pure hR _ u

/-- What touching each file leads to, `touch` leads to. -/
theorem leads_runTouch (h : ∀ operand t, Leads R (touchOne ctx operand) t) :
    Leads R (runTouch ctx words) fs := by
  refine .bind hR (Action.leads_arguments hR _ words fs) fun args t _ => ?_
  refine .ite (fun _ => .pure hR _ t) fun _ => ?_
  refine .bind hR (leads_forEach hR (fun operand _ u => h operand u) t) fun messages u _ => ?_
  exact .pure hR _ u

/-- What removing each operand leads to, `rm` leads to. -/
theorem leads_runRm (h : ∀ args, Arguments.parse (.flagsOnly "rRf") words = .ok args →
      ∀ operand ∈ Operands.expand ctx fs args.operands, ∀ recursive force t,
        Leads R (removeOne ctx recursive force operand) t) :
    Leads R (runRm ctx words) fs := by
  refine .bind hR (Action.leads_arguments hR _ words fs) fun args t hrun => ?_
  obtain ⟨hparse, rfl⟩ := Action.of_run_arguments hrun
  refine .get_bind ?_
  dsimp only
  refine .ite (fun _ => .pure hR _ t) fun _ => ?_
  refine .bind hR (leads_forEach hR (fun operand ho u => h args hparse operand ho _ _ u) t)
    fun messages u _ => ?_
  exact .pure hR _ u

/-- What removing each operand leads to, `rmdir` leads to. -/
theorem leads_runRmdir (h : ∀ args, Arguments.parse (.flagsOnly "") words = .ok args →
      ∀ operand ∈ args.operands, ∀ t, Leads R (removeDirectoryOne ctx operand) t) :
    Leads R (runRmdir ctx words) fs := by
  refine .bind hR (Action.leads_arguments hR _ words fs) fun args t hrun => ?_
  obtain ⟨hparse, rfl⟩ := Action.of_run_arguments hrun
  refine .ite (fun _ => .pure hR _ t) fun _ => ?_
  refine .bind hR (leads_forEach hR (fun operand ho u => h args hparse operand ho u) t)
    fun messages u _ => ?_
  exact .pure hR _ u

/-- What copying all sources leads to, `cp` leads to. -/
theorem leads_runCp (h : ∀ args transfer, Arguments.parse (.flagsOnly "rRf") words = .ok args →
      Transfer.ofOperands "cp" ctx fs args.operands = .ok transfer →
      Leads R (Action.forEach transfer.sources (copyOne ctx transfer (args.has ['r', 'R']))) fs) :
    Leads R (runCp ctx words) fs := by
  refine .bind hR (Action.leads_arguments hR _ words fs) fun args t hrun => ?_
  obtain ⟨hparse, rfl⟩ := Action.of_run_arguments hrun
  refine .get_bind ?_
  cases htransfer : Transfer.ofOperands "cp" ctx t args.operands with
  | error message => exact .pure hR _ t
  | ok transfer =>
      refine .bind hR (h args transfer hparse htransfer) fun messages u _ => ?_
      exact .pure hR _ u

/-- What moving all sources leads to, `mv` leads to. -/
theorem leads_runMv (h : ∀ args transfer, Arguments.parse (.flagsOnly "f") words = .ok args →
      Transfer.ofOperands "mv" ctx fs args.operands = .ok transfer →
      Leads R (Action.forEach transfer.sources (moveOne ctx transfer (args.has ['f']))) fs) :
    Leads R (runMv ctx words) fs := by
  refine .bind hR (Action.leads_arguments hR _ words fs) fun args t hrun => ?_
  obtain ⟨hparse, rfl⟩ := Action.of_run_arguments hrun
  refine .get_bind ?_
  cases htransfer : Transfer.ofOperands "mv" ctx t args.operands with
  | error message => exact .pure hR _ t
  | ok transfer =>
      refine .bind hR (h args transfer hparse htransfer) fun messages u _ => ?_
      exact .pure hR _ u

/-- What changing the permissions of each target leads to, `chmod` leads to. -/
theorem leads_runChmod (h : ∀ recursive change target t,
      Leads R (chmodOne ctx recursive change target) t) :
    Leads R (runChmod ctx words) fs := by
  unfold runChmod
  dsimp only
  split
  · refine .get_bind (.ite (fun _ => .pure hR _ fs) fun _ => ?_)
    refine .bind hR (leads_forEach hR (fun target _ u => h _ _ target u) fs)
      fun messages u _ => ?_
    exact .pure hR _ u
  · exact .pure hR _ fs

/-- What changing the owner of each target leads to, `chown` leads to. -/
theorem leads_runChown (h : ∀ recursive owner target t,
      Leads R (chownOne ctx recursive owner target) t) :
    Leads R (runChown ctx words) fs := by
  refine .bind hR (Action.leads_arguments hR _ words fs) fun args t _ => ?_
  split
  · refine .get_bind ?_
    dsimp only
    refine .ite (fun _ => .pure hR _ t) fun _ => ?_
    refine .bind hR (leads_forEach hR (fun target _ u => h _ _ target u) t)
      fun messages u _ => ?_
    exact .pure hR _ u
  · exact .pure hR _ t

end Writing

section Allowed

variable {R : FileSystem → FileSystem → Prop} {ctx : Context} {fs : FileSystem} (hrefl : R fs fs)

include hrefl

/-- What making directories leads to where it is allowed, an operand of `mkdir` leads to. -/
theorem leads_makeOne_of {parents : Bool} {operand : String}
    (h : Access.parentDenied ctx fs (ctx.resolve operand) = false →
      Leads R (Edit.makeDirectory (ctx.resolve operand) Permissions.newDirectory (some ctx.user)) fs ∧
      Leads R (Edit.makeDirectories (ctx.resolve operand) Permissions.newDirectory
        (some ctx.user)) fs) :
    Leads R (makeOne ctx parents operand) fs := by
  refine .get_bind (.ite (fun _ => hrefl) fun hallowed => ?_)
  obtain ⟨hone, hall⟩ := h (by simpa using hallowed)
  refine .bind_pure (leads_attempt.2 ?_)
  cases parents
  · exact hone
  · exact hall

/-- What touching a node leads to where it is allowed, an operand of `touch` leads to. -/
theorem leads_touchOne_of {operand : String}
    (h : Access.deniedIfAny ctx (fs.stat? (ctx.resolve operand)) = false →
      (fs.stat? (ctx.resolve operand) = none →
        Access.parentDenied ctx fs (ctx.resolve operand) = false) →
      Leads R (Edit.touch (ctx.resolve operand) (some ctx.user)) fs) :
    Leads R (touchOne ctx operand) fs := by
  refine .get_bind (.ite (fun _ => hrefl) fun hallowed => ?_)
  rw [Bool.not_eq_true, Bool.or_eq_false_iff] at hallowed
  exact .bind_pure (leads_attempt.2 (h hallowed.1 fun hnone => by simpa [hnone] using hallowed.2))

/-- What removing a node leads to where it is allowed, an operand of `rm` leads to. -/
theorem leads_removeOne_of {recursive force : Bool} {operand : String}
    (h : Access.parentDenied ctx fs (ctx.resolve operand) = false →
      Access.treeDenied ctx fs (ctx.resolve operand) = false →
      Leads R (Edit.unlink (ctx.resolve operand)) fs ∧
        Leads R (Edit.removeTree (ctx.resolve operand)) fs) :
    Leads R (removeOne ctx recursive force operand) fs := by
  refine .ite (fun _ => hrefl) fun _ => .get_bind ?_
  split
  · exact hrefl
  · rename_i node _
    refine .ite (fun _ => hrefl) fun _ => .ite (fun _ => hrefl) fun hallowed => ?_
    rw [Bool.not_eq_true, Bool.or_eq_false_iff] at hallowed
    obtain ⟨hunlink, htree⟩ := h hallowed.1 hallowed.2
    refine .bind_pure (leads_attempt.2 ?_)
    cases node.isDirectory
    · exact hunlink
    · exact htree

/-- What removing a directory leads to where it is allowed, an operand of `rmdir` leads to. -/
theorem leads_removeDirectoryOne_of {operand : String}
    (h : Access.deniedIfAny ctx (fs.stat? (ctx.resolve operand)) = false →
      Access.parentDenied ctx fs (ctx.resolve operand) = false →
      Leads R (Edit.removeDirectory (ctx.resolve operand)) fs) :
    Leads R (removeDirectoryOne ctx operand) fs := by
  refine .get_bind (.ite (fun _ => hrefl) fun hallowed => ?_)
  rw [Bool.not_eq_true, Bool.or_eq_false_iff] at hallowed
  exact .bind_pure (leads_attempt.2 (h hallowed.1 hallowed.2))

/-- What moving a node leads to where it is allowed at the target, a source of `mv` leads to. -/
theorem leads_moveOne_of {transfer : Transfer} {force : Bool} {source : String}
    (h : Access.deniedIfAny ctx (fs.stat? (transfer.target ctx (ctx.resolve source))) = false →
      Access.parentDenied ctx fs (transfer.target ctx (ctx.resolve source)) = false →
      Leads R (Edit.rename (ctx.resolve source) (transfer.target ctx (ctx.resolve source))) fs) :
    Leads R (moveOne ctx transfer force source) fs := by
  refine .get_bind ?_
  dsimp only
  split
  · exact hrefl
  · refine .ite (fun _ => hrefl) fun _ => .ite (fun _ => hrefl) fun hallowed => ?_
    simp only [Bool.not_eq_true, Bool.or_eq_false_iff] at hallowed
    exact .bind_pure (leads_attempt.2 (h hallowed.1.2 hallowed.2))

end Allowed

section Growing

variable {R : FileSystem → FileSystem → Prop} (hR : Edit.CoversGrowth R) (ctx : Context)
  (fs : FileSystem)

include hR

theorem leads_makeOne (parents : Bool) (operand : String) :
    Leads R (makeOne ctx parents operand) fs :=
  leads_makeOne_of (hR.lasting.refl fs) fun _ => ⟨hR.makes _ _ _ fs, hR.makesAll _ _ _ fs⟩

theorem leads_touchOne (operand : String) : Leads R (touchOne ctx operand) fs :=
  leads_touchOne_of (hR.lasting.refl fs) fun _ _ => hR.touches _ _ fs

theorem leads_copyOne (transfer : Transfer) (recursive : Bool) (source : String) :
    Leads R (copyOne ctx transfer recursive source) fs := by
  refine .get_bind ?_
  dsimp only
  split
  · exact .pure hR.lasting _ fs
  · rename_i node _
    refine .ite (fun _ => .pure hR.lasting _ fs) fun _ => ?_
    refine .ite (fun _ => .pure hR.lasting _ fs) fun _ => ?_
    refine .ite (fun _ => .pure hR.lasting _ fs) fun _ => ?_
    refine .ite (fun _ => .pure hR.lasting _ fs) fun _ => ?_
    refine .ite (fun _ => .pure hR.lasting _ fs) fun _ => ?_
    refine .bind hR.lasting (leads_attempt.2 ?_) fun _ t _ => .pure hR.lasting _ t
    cases node.isDirectory
    · exact hR.copies _ _ _ fs
    · exact hR.copiesTree _ _ _ fs

theorem leads_chmodOne (recursive : Bool) (change target : String) :
    Leads R (chmodOne ctx recursive change target) fs := by
  refine .get_bind ?_
  refine .ite (fun _ => .pure hR.lasting _ fs) fun _ => ?_
  dsimp only
  refine .ite (fun _ => .pure hR.lasting _ fs) fun _ => ?_
  refine .bind hR.lasting (.forM hR.lasting (fun path _ t => ?_) fs) fun _ t _ =>
    .pure hR.lasting _ t
  refine .get_bind ?_
  exact .bind hR.lasting (leads_attempt.2 (hR.permits _ _ t)) fun _ u _ => .pure hR.lasting _ u

theorem leads_chownOne (recursive : Bool) (owner target : String) :
    Leads R (chownOne ctx recursive owner target) fs := by
  refine .get_bind ?_
  refine .ite (fun _ => .pure hR.lasting _ fs) fun _ => ?_
  refine .ite (fun _ => .pure hR.lasting _ fs) fun _ => ?_
  refine .bind hR.lasting (.forM hR.lasting (fun path _ t => ?_) fs) fun _ t _ =>
    .pure hR.lasting _ t
  exact .bind hR.lasting (leads_attempt.2 (hR.gives _ _ t)) fun _ u _ => .pure hR.lasting _ u

end Growing

section Removing

variable {R : FileSystem → FileSystem → Prop} (hR : Edit.Covers R) (ctx : Context)
  (fs : FileSystem)

include hR

theorem leads_removeOne (recursive force : Bool) (operand : String) :
    Leads R (removeOne ctx recursive force operand) fs :=
  leads_removeOne_of (hR.lasting.refl fs) fun _ _ => ⟨hR.unlinks _ fs, hR.clears _ fs⟩

theorem leads_removeDirectoryOne (operand : String) :
    Leads R (removeDirectoryOne ctx operand) fs :=
  leads_removeDirectoryOne_of (hR.lasting.refl fs) fun _ _ => hR.removes _ fs

theorem leads_moveOne (transfer : Transfer) (force : Bool) (source : String) :
    Leads R (moveOne ctx transfer force source) fs :=
  leads_moveOne_of (hR.lasting.refl fs) fun _ _ => hR.moves _ _ fs

end Removing

section

variable (ctx : Context) (words : List String) (input : Option String) (fs : FileSystem)

/-- Whether a command can remove nodes. -/
def removes : Command → Bool
  | rm | rmdir | mv => true
  | _ => false

/-- What is covered where nodes are made, filled and marked is covered by a command that cannot
remove any. -/
theorem leads_run_of_not_removes {R : FileSystem → FileSystem → Prop} (hR : Edit.CoversGrowth R)
    {c : Command} (hc : c.removes = false) : Leads R (c.run ctx words input) fs := by
  cases hchanges : c.changes with
  | false => exact leads_run_of_reads hR.lasting ctx words input fs hchanges
  | true =>
      cases c with
      | mkdir =>
          exact leads_runMkdir hR.lasting ctx words fs fun _ _ t => leads_makeOne hR ctx t _ _
      | touch => exact leads_runTouch hR.lasting ctx words fs fun _ t => leads_touchOne hR ctx t _
      | cp =>
          exact leads_runCp hR.lasting ctx words fs fun _ transfer _ _ =>
            leads_forEach hR.lasting (fun _ _ t => leads_copyOne hR ctx t transfer _ _) fs
      | chmod =>
          exact leads_runChmod hR.lasting ctx words fs fun _ _ _ t => leads_chmodOne hR ctx t _ _ _
      | chown =>
          exact leads_runChown hR.lasting ctx words fs fun _ _ _ t => leads_chownOne hR ctx t _ _ _
      | rm => simp [removes] at hc
      | rmdir => simp [removes] at hc
      | mv => simp [removes] at hc
      | _ => simp [changes] at hchanges

/-- A relation that covers all operations covers every command. -/
theorem leads_run {R : FileSystem → FileSystem → Prop} (hR : Edit.Covers R) (c : Command) :
    Leads R (c.run ctx words input) fs := by
  cases hc : c.removes with
  | false => exact leads_run_of_not_removes ctx words input fs hR.toCoversGrowth hc
  | true =>
      cases c with
      | rm =>
          exact leads_runRm hR.lasting ctx words fs fun _ _ _ _ _ _ t =>
            leads_removeOne hR ctx t _ _ _
      | rmdir =>
          exact leads_runRmdir hR.lasting ctx words fs fun _ _ _ _ t =>
            leads_removeDirectoryOne hR ctx t _
      | mv =>
          exact leads_runMv hR.lasting ctx words fs fun _ transfer _ _ =>
            leads_forEach hR.lasting (fun _ _ t => leads_moveOne hR ctx t transfer _ _) fs
      | _ => simp [removes] at hc

/-- A command that cannot remove nodes only makes, fills and marks them. -/
theorem run_grows {c : Command} (hc : c.removes = false) :
    Leads (Reaches IsGrowth) (c.run ctx words input) fs :=
  leads_run_of_not_removes ctx words input fs Edit.coversGrowth_grows hc

@[simp]
theorem guarded_snd (name : String) (action : Action Outcome) :
    (guarded name action fs).2 = left (action.run fs) := by
  unfold guarded EStateM.run
  cases action fs <;> rfl

theorem name_of_ofName? {text : String} {c : Command} (h : ofName? text = some c) :
    c.name = text := by
  simpa using List.find?_some h

theorem ofName?_name (c : Command) : ofName? c.name = some c := by cases c <;> decide

theorem execute_of_ne {name : String} {c : Command} (hname : ofName? name = some c)
    (hc : c ≠ superuser) :
    execute ctx input (name :: words) = guarded name (c.run ctx words input) := by
  rw [execute, hname]
  cases c <;> first | rfl | exact absurd rfl hc

/-- A command other than `sudo` that runs without a fault ends with what its run ends with. -/
theorem execute_of_run {c : Command} (hc : c ≠ superuser) {outcome : Outcome} {later : FileSystem}
    (hrun : (c.run ctx words input).run fs = .ok outcome later) :
    execute ctx input (c.name :: words) fs = (outcome, later) := by
  rw [execute_of_ne ctx words input (ofName?_name c) hc, guarded]
  rw [EStateM.run] at hrun
  rw [hrun]

theorem execute_unknown {name : String} (hname : ofName? name = none) :
    execute ctx input (name :: words) = pure (notFound name) := by
  rw [execute, hname]

theorem execute_superuser {name : String} (hname : ofName? name = some superuser) :
    execute ctx input (name :: words) =
      if words.isEmpty then
        pure (.fail "sudo: a command must be specified" Outcome.failure)
      else if ctx.elevated then execute ctx input words
      else pure { needsPassword := true, pending := words } := by
  rw [execute, hname]

/-- A relation that covers all operations covers every command line. -/
theorem leads_execute {R : FileSystem → FileSystem → Prop} (hR : Edit.Covers R) :
    R fs (execute ctx input words fs).2 := by
  induction words with
  | nil => exact hR.lasting.refl fs
  | cons name words ih =>
      cases hname : ofName? name with
      | none =>
          rw [execute_unknown ctx words input hname]
          exact hR.lasting.refl fs
      | some c =>
          by_cases hc : c = superuser
          · subst hc
            rw [execute_superuser ctx words input hname]
            split
            · exact hR.lasting.refl fs
            · split
              · exact ih
              · exact hR.lasting.refl fs
          · rw [execute_of_ne ctx words input hname hc, guarded_snd]
            exact leads_run ctx words input fs hR c

/-- Every command line brings in only names that can be met. -/
theorem execute_reaches : Reaches IsNamed fs (execute ctx input words fs).2 :=
  leads_execute ctx words input fs Edit.covers_reaches

end

end Command

end PracticeShell
