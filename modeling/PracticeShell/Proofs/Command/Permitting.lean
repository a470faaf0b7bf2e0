import PracticeShell.Proofs.Command.Clauses
import PracticeShell.Proofs.Command.Steps
import PracticeShell.Proofs.Tree.Withheld

/-!
# Permissions that are changed again

A run `Settles` if it can be done again without a change, now or later. A change at one place settles,
since it leaves the place so that the change has been made there (`isMade_modifyAt`), and changes at
other places leave it so (`permits_modifyAt`). What `chmod` looks at besides does not depend on
permissions. So `chmod` settles (`settles_runChmod`).
-/

namespace PracticeShell

namespace Run

variable {ε σ α β : Type} {R : σ → σ → Prop} {x : EStateM ε σ α} {s : σ}

/-- Whether a run ends with a result, with which it ends again from what it leaves and from whatever
follows that, and then without a change. -/
def Settles (R : σ → σ → Prop) (x : EStateM ε σ α) (s : σ) : Prop :=
  ∃ a t, x.run s = .ok a t ∧ R s t ∧ ∀ u, R t u → x.run u = .ok a u

namespace Settles

theorem pure (hR : Lasting R) (a : α) (s : σ) : Settles R (pure a : EStateM ε σ α) s :=
  ⟨a, s, rfl, hR.refl s, fun _ _ => rfl⟩

theorem bind (hR : Lasting R) {f : α → EStateM ε σ β} (hx : Settles R x s)
    (hf : ∀ a t, R s t → Settles R (f a) t) : Settles R (x >>= f) s := by
  obtain ⟨a, t, hfirst, hst, hagain⟩ := hx
  obtain ⟨b, u, hsecond, htu, hlast⟩ := hf a t hst
  refine ⟨b, u, run_bind_eq_ok_iff.2 ⟨a, t, hfirst, hsecond⟩, hR.trans hst htu, fun v huv => ?_⟩
  exact run_bind_eq_ok_iff.2 ⟨a, v, hagain v (hR.trans htu huv), hlast v huv⟩

/-- What follows a look at the state does not depend on what the run changes. -/
theorem get_bind (hR : Lasting R) {f : σ → EStateM ε σ α} (hf : ∀ t, R s t → f t = f s)
    (h : Settles R (f s) s) : Settles R (get >>= f) s := by
  obtain ⟨a, t, hrun, hst, hagain⟩ := h
  refine ⟨a, t, hrun, hst, fun u htu => ?_⟩
  rw [run_get_bind, hf u (hR.trans hst htu)]
  exact hagain u htu

theorem ite {c : Prop} [Decidable c] {y : EStateM ε σ α} (hx : Settles R x s)
    (hy : Settles R y s) : Settles R (if c then x else y) s := by
  split
  · exact hx
  · exact hy

theorem forM (hR : Lasting R) {l : List β} {f : β → EStateM ε σ PUnit}
    (h : ∀ b t, Settles R (f b) t) (s : σ) : Settles R (l.forM f) s := by
  induction l generalizing s with
  | nil => exact pure hR PUnit.unit s
  | cons b l ih => exact bind hR (h b s) fun _ t _ => ih t

theorem forEach {R : FileSystem → FileSystem → Prop} (hR : Lasting R) {operands : List String}
    {action : String → Action (List String)} (h : ∀ operand t, Settles R (action operand) t)
    (fs : FileSystem) : Settles R (Action.forEach operands action) fs := by
  induction operands generalizing fs with
  | nil => exact pure hR [] fs
  | cons operand rest ih =>
      exact bind hR (h operand fs) fun messages t _ =>
        bind hR (ih t) fun others u _ => pure hR _ u

end Settles

end Run

namespace Command

open FileTree Run

/-- Attributes with changed permissions. -/
def permit (change : String) (a : Attributes) : Attributes :=
  { a with permissions := (changedPermissions? change a.permissions).getD .withheld }

/-- Whether a change has been made at a place, so that making it again changes nothing. -/
def IsMade (change : String) (fs : FileSystem) (place : List String) : Prop :=
  fs.root.modify (Node.mapAttributes (permit change)) place = fs.root

/-- Whether two file systems differ in permissions only, and a change that has been made in the first
has been made in the second. -/
structure Permits (change : String) (fs later : FileSystem) : Prop where
  same : later.withhold = fs.withhold
  made : ∀ {place}, IsMade change fs place → IsMade change later place

theorem lasting_permits (change : String) : Lasting (Permits change) :=
  ⟨fun _ => ⟨rfl, id⟩, fun h h' => ⟨h'.same.trans h.same, h'.made ∘ h.made⟩⟩

section Run

variable {change : String} {fs later : FileSystem}

theorem root_modifyAt_permit (change : String) (fs : FileSystem) (place : List String) :
    (fs.modifyAt place (Node.mapAttributes (permit change))).root =
      fs.root.modify (Node.mapAttributes (permit change)) place :=
  FileSystem.root_modifyAt fs place fun node => by cases node <;> rfl

theorem withhold_permit (change : String) (a : Attributes) :
    (permit change a).withhold = a.withhold := rfl

theorem permit_permit (hchange : ∀ p, (changedPermissions? change p).isSome) (a : Attributes) :
    permit change (permit change a) = permit change a := by
  obtain ⟨q, hq⟩ := Option.isSome_iff_exists.1 (hchange a.permissions)
  simp [permit, hq, changedPermissions?_again hq]

/-- A change that is made at a place has been made there. -/
theorem isMade_modifyAt (hchange : ∀ p, (changedPermissions? change p).isSome) (fs : FileSystem)
    (place : List String) :
    IsMade change (fs.modifyAt place (Node.mapAttributes (permit change))) place := by
  have htwice :
      (fun node => Node.mapAttributes (permit change) (Node.mapAttributes (permit change) node)) =
        Node.mapAttributes (permit change) := by
    funext node
    cases node <;> simp [Node.mapAttributes, permit_permit hchange]
  rw [IsMade, root_modifyAt_permit, Node.modify_modify, htwice]

theorem permits_modifyAt (change : String) (fs : FileSystem) (place : List String) :
    Permits change fs (fs.modifyAt place (Node.mapAttributes (permit change))) where
  same := fs.withhold_modifyAt (withhold_permit change) place
  made h := by
    rw [IsMade, root_modifyAt_permit, Node.modify_attributes_comm, h]

theorem modifyAt_of_isMade {place : List String} (h : IsMade change fs place) :
    fs.modifyAt place (Node.mapAttributes (permit change)) = fs := by
  rw [FileSystem.modifyAt, h, FileSystem.setRoot_root]

namespace Permits

variable (h : Permits change fs later)
include h

theorem contains_eq (path : String) : later.contains path = fs.contains path := by
  rw [← FileSystem.contains_withhold, h.same, FileSystem.contains_withhold]

theorem names_eq (path : String) : later.names path = fs.names path := by
  rw [← FileSystem.names_withhold, h.same, FileSystem.names_withhold]

theorem expand_eq (ctx : Context) (operands : List String) :
    Operands.expand ctx later operands = Operands.expand ctx fs operands := by
  have hone : Operands.expandOne ctx later = Operands.expandOne ctx fs := by
    funext operand
    unfold Operands.expandOne
    simp only [h.names_eq]
  rw [Operands.expand, hone, Operands.expand]

theorem affected_eq (recursive : Bool) (full : String) :
    affected later recursive full = affected fs recursive full := by
  have hpaths : ∀ t : FileSystem, affected t.withhold recursive full = affected t recursive full := by
    intro t
    unfold affected
    rw [FileSystem.walk_withhold]
    cases t.walk full with
    | error e => rfl
    | ok nodes => simp [Except.map, Function.comp_def, Stat.withhold]
  rw [← hpaths, h.same, hpaths]

theorem denied_eq (ctx : Context) (path : String) :
    Access.deniedIfAny ctx (later.stat? path) = Access.deniedIfAny ctx (fs.stat? path) := by
  have howner : ∀ t : FileSystem, Access.deniedIfAny ctx (t.withhold.stat? path) =
      Access.deniedIfAny ctx (t.stat? path) := by
    intro t
    rw [FileSystem.stat?_withhold, Access.deniedIfAny, Option.any_map, Access.deniedIfAny]
    rfl
  rw [← howner, h.same, howner]

end Permits

/-- Changes the permissions of the node at a path. -/
def changeAt (change path : String) : Action Unit := do
  let current := (((← get).stat? path).map (·.permissions)).getD .withheld
  let changed := (changedPermissions? change current).getD .withheld
  let _ ← Action.attempt (Edit.setPermissions path changed)

theorem run_changeAt (change path : String) (fs : FileSystem) : (changeAt change path).run fs =
    .ok () (fs.modifyAt (Path.segments path) (Node.mapAttributes (permit change))) := by
  cases hnode : fs.find? path with
  | none =>
      have hsame : fs.modifyAt (Path.segments path) (Node.mapAttributes (permit change)) = fs := by
        rw [FileSystem.modifyAt, Node.modify_of_find?_none hnode, FileSystem.setRoot_root]
      have hset : ∀ permissions, (Edit.setPermissions path permissions).run fs =
          .error ⟨.notFound, path⟩ fs := by
        simp [Edit.setPermissions, hnode]
      rw [changeAt, run_get_bind, EStateM.run_bind, run_attempt, hset, hsame]
      rfl
  | some node =>
      have hchanged : node.mapAttributes (fun a => { a with permissions :=
          (changedPermissions? change node.attributes.permissions).getD .withheld }) =
          node.mapAttributes (permit change) := by
        cases node <;> rfl
      have hset : ∀ permissions, (Edit.setPermissions path permissions).run fs = .ok ()
          (fs.modifyAt (Path.segments path)
            (Node.mapAttributes fun a => { a with permissions := permissions })) := by
        simp [Edit.setPermissions, hnode]
      rw [changeAt, run_get_bind, EStateM.run_bind, run_attempt, hset, FileSystem.stat?, hnode,
        FileSystem.modifyAt, FileSystem.modifyAt, ← Node.modify_congr hnode hchanged]
      rfl

theorem settles_changeAt (hchange : ∀ p, (changedPermissions? change p).isSome) (path : String)
    (fs : FileSystem) : Settles (Permits change) (changeAt change path) fs := by
  refine ⟨(), _, run_changeAt change path fs, permits_modifyAt change fs _, fun later hlater => ?_⟩
  rw [run_changeAt, modifyAt_of_isMade (hlater.made (isMade_modifyAt hchange fs _))]

theorem settles_chmodOne (hchange : ∀ p, (changedPermissions? change p).isSome) (ctx : Context)
    (recursive : Bool) (target : String) (fs : FileSystem) :
    Settles (Permits change) (chmodOne ctx recursive change target) fs := by
  have hR := lasting_permits change
  refine .get_bind hR (fun later hlater => ?_) ?_
  · simp only [hlater.contains_eq, hlater.affected_eq, hlater.denied_eq]
  · refine .ite (.pure hR _ fs) ?_
    dsimp only
    exact .ite (.pure hR _ fs) (.bind hR (.forM hR (fun path t => settles_changeAt hchange path t) fs)
      fun _ t _ => .pure hR _ t)

theorem settles_runChmod (ctx : Context) (words : List String) (fs : FileSystem) :
    ∃ change, Settles (Permits change) (runChmod ctx words) fs := by
  unfold runChmod
  dsimp only
  split
  · rename_i change target rest _
    have hR := lasting_permits change
    refine ⟨change, .get_bind hR (fun later hlater => ?_) ?_⟩
    · simp only [hlater.expand_eq]
    · split
      · exact .pure hR _ fs
      · rename_i hread
        obtain ⟨q, hq⟩ := Option.ne_none_iff_exists'.1 (by simpa using hread)
        exact .bind hR (.forEach hR (fun operand t =>
          settles_chmodOne (isSome_changedPermissions? hq) ctx _ operand t) fs) fun _ t _ => .pure hR _ t
  · exact ⟨"", .pure (lasting_permits "") _ fs⟩

end Run

/-- A change of permissions that can be read makes permissions of all permissions. Made again it changes
nothing, and a class that no clause names keeps its bits. So `chmod`, also of all below a directory, does
nothing when it is run again, and nothing but permissions is ever changed by it. -/
theorem changes_of_permissions_settle :
    (∀ change p q, changedPermissions? change p = some q →
      q.val ≤ 0o777 ∧ (∀ other, (changedPermissions? change other).isSome) ∧
        changedPermissions? change q = some q ∧
        ∀ k : Class, (∀ clause ∈ change.toList.splitOn ',', ¬ Names clause k) → k.bits q = k.bits p) ∧
      ∀ ctx input words fs, let (o, later) := execute ctx input (chmod.name :: words) fs
        execute ctx input (chmod.name :: words) later = (o, later) ∧
          later.withhold = fs.withhold ∧ ∀ place, later.kindAt place = fs.kindAt place := by
  refine ⟨fun change p q h => ⟨by omega, isSome_changedPermissions? h, changedPermissions?_again h,
    fun k hk => bits_of_not_names h hk⟩, fun ctx input words fs => ?_⟩
  obtain ⟨change, o, later, hrun, hpermits, hagain⟩ := settles_runChmod ctx words fs
  have hsettled := hagain later ((lasting_permits change).refl later)
  have hne : chmod ≠ superuser := by decide
  have hfirst : execute ctx input (chmod.name :: words) fs = (o, later) :=
    execute_of_run ctx words input fs hne hrun
  have hsecond : execute ctx input (chmod.name :: words) later = (o, later) :=
    execute_of_run ctx words input later hne hsettled
  rw [hfirst]
  refine ⟨hsecond, hpermits.same, fun place => ?_⟩
  rw [← FileSystem.kindAt_withhold, hpermits.same, FileSystem.kindAt_withhold]

/-- Two clauses that are not for others: what these may do is left as it is. -/
theorem others_keep_their_bits :
    changedPermissions? "u=rw,g+x" 0o744 = some 0o654 ∧
      (∀ clause ∈ "u=rw,g+x".toList.splitOn ',', ¬ Names clause .others) ∧
      Class.others.bits 0o654 = Class.others.bits 0o744 ∧
      changedPermissions? "u=rw,g+x" 0o654 = some 0o654 := by
  have hread : changedPermissions? "u=rw,g+x" 0o744 = some 0o654 := by decide +kernel
  have hothers : ∀ clause ∈ "u=rw,g+x".toList.splitOn ',', ¬ Names clause .others := by
    decide +kernel
  obtain ⟨-, -, hagain, hkeeps⟩ := changes_of_permissions_settle.1 "u=rw,g+x" 0o744 0o654 hread
  exact ⟨hread, hothers, hkeeps .others hothers, hagain⟩

end Command

end PracticeShell
