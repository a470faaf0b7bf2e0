import PracticeShell.FileTree.Structure
import PracticeShell.Proofs.Tree.Making
import PracticeShell.Proofs.Tree.Proper

/-!
# Building from a description

A file system that a description gives is made by growth from the empty one
(`ofStructure_reaches`), and so it is proper. Whether a description gives one does not depend on the
time (`ofStructure_at`), since each step is decided by the kinds of the nodes that are there.
-/

namespace PracticeShell

open FileTree FileTree.Change Run

namespace Structure

theorem run_edit (operation : Edit Unit) (fs : FileSystem) :
    (edit operation).run fs = match operation.run fs with
      | .ok a t => .ok a t
      | .error e t => .error (.failed e) t := rfl

theorem run_edit_eq_ok_iff {operation : Edit Unit} {fs later : FileSystem} :
    (edit operation).run fs = .ok () later ↔ operation.run fs = .ok () later := by
  rw [run_edit]
  cases operation.run fs <;> simp

theorem run_edit_eq_error_iff {operation : Edit Unit} {fs later : FileSystem} {e : StructureError} :
    (edit operation).run fs = .error e later ↔
      ∃ cause, operation.run fs = .error cause later ∧ e = .failed cause := by
  rw [run_edit]
  cases operation.run fs with
  | ok a t => simp
  | error cause t =>
      constructor
      · intro h
        cases h
        exact ⟨cause, rfl, rfl⟩
      · rintro ⟨other, h, rfl⟩
        cases h
        rfl

theorem leads_edit {R : FileSystem → FileSystem → Prop} {operation : Edit Unit} {fs : FileSystem}
    (h : Leads R operation fs) : Leads R (edit operation) fs := by
  unfold Leads at *
  rw [run_edit]
  cases hop : operation.run fs <;> rw [hop] at h <;> exact h

/-- Whether a relation of earlier to later file systems holds of all that a description can do: make
directories and write texts. -/
structure Builds (R : FileSystem → FileSystem → Prop) : Prop where
  lasting : Lasting R
  makes : ∀ path permissions owner fs, Leads R (Edit.makeDirectory path permissions owner) fs
  writes : ∀ path text owner permissions fs,
    Leads R (Edit.write path (Text.Utf8.encode text) owner permissions) fs

theorem exists_contentsOf (members : Json.Members) :
    ∃ text, contentsOf members = Text.Utf8.encode text := by
  unfold contentsOf
  split
  · exact ⟨_, rfl⟩
  · exact ⟨"", rfl⟩

theorem builds_grows : Builds (Reaches IsGrowth) where
  lasting := lasting_reaches IsGrowth
  makes path permissions owner fs := Edit.makeDirectory_grows fs path permissions owner
  writes path _ owner permissions fs := Edit.write_grows fs path _ owner permissions

section

variable {R : FileSystem → FileSystem → Prop} (hR : Builds R)

include hR

mutual

theorem leads_addNode (base name : String) (value : Json) (fs : FileSystem) :
    Leads R (addNode base name value) fs := by
  cases value with
  | object members =>
      rw [addNode]
      split
      · split
        · exact .throw hR.lasting _ fs
        · refine .bind hR.lasting (leads_edit (hR.makes _ _ _ fs)) fun _ t _ => ?_
          exact leads_addChildren _ members t
      · split
        · exact .throw hR.lasting _ fs
        · obtain ⟨text, htext⟩ := exists_contentsOf members
          rw [htext]
          exact leads_edit (hR.writes _ text _ _ fs)
      · exact .throw hR.lasting _ fs
  | _ => exact .throw hR.lasting _ fs

theorem leads_addChildren (path : String) (members : List (String × Json)) (fs : FileSystem) :
    Leads R (addChildren path members) fs := by
  cases members with
  | nil => exact .pure hR.lasting _ fs
  | cons member rest =>
      obtain ⟨name, value⟩ := member
      cases value with
      | object children =>
          rw [addChildren]
          exact .ite (fun _ => leads_addNodes path children fs) fun _ =>
            leads_addChildren path rest fs
      | _ =>
          rw [addChildren]
          · refine .ite (fun _ => ?_) fun _ => leads_addChildren path rest fs
            exact .ite (fun _ => .throw hR.lasting _ fs) fun _ => .pure hR.lasting _ fs
          · simp

/-- What holds of all that a description can do holds of the nodes that are built. -/
theorem leads_addNodes (base : String) (nodes : List (String × Json)) (fs : FileSystem) :
    Leads R (addNodes base nodes) fs := by
  cases nodes with
  | nil => exact .pure hR.lasting _ fs
  | cons entry rest =>
      obtain ⟨name, value⟩ := entry
      rw [addNodes]
      exact .bind hR.lasting (leads_addNode base name value fs) fun _ t _ => leads_addNodes base rest t

end

end

/-- Whether two file systems have the same kinds of nodes at the same places. -/
def SameKinds (fs other : FileSystem) : Prop := fs.kindAt = other.kindAt

section

variable {fs other : FileSystem} {path : String} {permissions : Permissions}
  {owner : Option String}

theorem canHold_iff (h : SameKinds fs other) : fs.CanHold path ↔ other.CanHold path := by
  unfold SameKinds at h
  simp only [FileSystem.CanHold, h]

theorem parallel_edit {operation : Edit Unit} (h : Parallel SameKinds operation fs other) :
    Parallel SameKinds (edit operation) fs other := by
  refine ⟨?_, fun {_ _ t t'} hrun hrun' => ⟨rfl, ?_⟩⟩
  · have hfails := h.fails_iff
    unfold Fails at hfails ⊢
    rw [run_edit, run_edit]
    cases hx : operation.run fs <;> cases hy : operation.run other <;> simp_all
  · rw [run_edit] at hrun hrun'
    cases hx : operation.run fs <;> cases hy : operation.run other <;> rw [hx] at hrun <;>
      rw [hy] at hrun' <;> cases hrun <;> cases hrun'
    exact (h.relates hx hy).2

theorem makeDirectory_parallel (h : SameKinds fs other) :
    Parallel SameKinds (Edit.makeDirectory path permissions owner) fs other := by
  refine ⟨?_, fun hrun hrun' => ⟨rfl, funext fun place => ?_⟩⟩
  · rw [Edit.makeDirectory_fails_iff, Edit.makeDirectory_fails_iff, canHold_iff h, h]
  · rw [Edit.kindAt_makeDirectory hrun, Edit.kindAt_makeDirectory hrun', h]

theorem write_parallel (h : SameKinds fs other) {bytes : ByteArray} :
    Parallel SameKinds (Edit.write path bytes owner permissions) fs other := by
  refine ⟨?_, fun hrun hrun' => ⟨rfl, funext fun place => ?_⟩⟩
  · rw [Edit.write_fails_iff, Edit.write_fails_iff, canHold_iff h, h]
  · rw [Edit.kindAt_write hrun, Edit.kindAt_write hrun', h]

end

mutual

theorem addNode_parallel (base name : String) (value : Json) {fs other : FileSystem}
    (h : SameKinds fs other) : Parallel SameKinds (addNode base name value) fs other := by
  cases value with
  | object members =>
      rw [addNode]
      split
      · split
        · exact .throw _
        · refine .bind (parallel_edit (makeDirectory_parallel h)) fun _ t t' h' => ?_
          exact addChildren_parallel _ members h'
      · split
        · exact .throw _
        · exact parallel_edit (write_parallel h)
      · exact .throw _
  | _ => exact .throw _

theorem addChildren_parallel (path : String) (members : List (String × Json))
    {fs other : FileSystem} (h : SameKinds fs other) :
    Parallel SameKinds (addChildren path members) fs other := by
  cases members with
  | nil => exact .pure h _
  | cons member rest =>
      obtain ⟨name, value⟩ := member
      cases value with
      | object children =>
          rw [addChildren]
          exact .ite (addNodes_parallel path children h) (addChildren_parallel path rest h)
      | _ =>
          rw [addChildren]
          · exact .ite (.ite (.throw _) (.pure h _)) (addChildren_parallel path rest h)
          · simp

theorem addNodes_parallel (base : String) (nodes : List (String × Json)) {fs other : FileSystem}
    (h : SameKinds fs other) : Parallel SameKinds (addNodes base nodes) fs other := by
  cases nodes with
  | nil => exact .pure h _
  | cons entry rest =>
      obtain ⟨name, value⟩ := entry
      rw [addNodes]
      exact .bind (addNode_parallel base name value h) fun _ t t' h' =>
        addNodes_parallel base rest h'

end

end Structure

namespace FileSystem

/-- What holds of all that a description can do leads from the empty file system to the one that it
gives. -/
theorem leads_ofStructure {R : FileSystem → FileSystem → Prop} (hR : Structure.Builds R)
    {description : Json} {defaultOwner : String} {now : Int} {fs : FileSystem}
    (h : ofStructure description defaultOwner now = .ok fs) : R (empty defaultOwner now) fs := by
  unfold ofStructure at h
  dsimp only at h
  split at h
  · obtain rfl := Except.ok.inj h
    exact hR.lasting.refl _
  · split at h
    · split at h
      · rename_i nodes _
        have hleads := Structure.leads_addNodes hR "/" nodes (empty defaultOwner now)
        unfold Leads EStateM.run at hleads
        split at h
        · rename_i later hrun
          split at h
          · obtain rfl := Except.ok.inj h
            rwa [hrun] at hleads
          · simp at h
        · simp at h
      · simp at h
    · simp at h

/-- A description gives a file system that grows from the empty one. -/
theorem ofStructure_reaches {description : Json} {defaultOwner : String} {now : Int}
    {fs : FileSystem} (h : ofStructure description defaultOwner now = .ok fs) :
    Reaches IsGrowth (empty defaultOwner now) fs :=
  leads_ofStructure Structure.builds_grows h

/-- A description gives a proper file system. -/
theorem isProper_ofStructure {description : Json} {defaultOwner : String} {now : Int}
    {fs : FileSystem} (h : ofStructure description defaultOwner now = .ok fs) : fs.IsProper :=
  (isProper_empty defaultOwner now).of_reaches
    ((ofStructure_reaches h).imp fun _ hc => hc.isNamed)

/-- What is at a place in an empty file system does not depend on the time. -/
theorem sameKinds_empty (defaultOwner : String) (now later : Int) :
    Structure.SameKinds (empty defaultOwner now) (empty defaultOwner later) := by
  funext place
  cases place <;> rfl

/-- A description that gives a file system at some time gives one at any time, with the same kinds of
nodes. -/
theorem ofStructure_at {description : Json} {defaultOwner : String} {now : Int} {fs : FileSystem}
    (h : ofStructure description defaultOwner now = .ok fs) (later : Int) :
    ∃ other, ofStructure description defaultOwner later = .ok other ∧
      Structure.SameKinds fs other := by
  have hempty := sameKinds_empty defaultOwner now later
  unfold ofStructure at h ⊢
  dsimp only at h ⊢
  split at h
  · rename_i hfalsy
    obtain rfl := Except.ok.inj h
    exact ⟨_, if_pos hfalsy, hempty⟩
  · rename_i htruthy
    rw [if_neg htruthy]
    split at h
    · split at h
      · rename_i nodes _
        have hparallel := Structure.addNodes_parallel "/" nodes hempty
        split at h
        · rename_i t hrun
          split at h
          · rename_i htexts
            obtain rfl := Except.ok.inj h
            obtain ⟨_, t', hrun'⟩ := not_fails_iff.1
              ((not_congr hparallel.fails_iff).1 (not_fails_of_ok hrun))
            have hkinds := (hparallel.relates hrun hrun').2
            rw [EStateM.run] at hrun'
            exact ⟨t', by simp only [hrun', htexts, if_true], hkinds⟩
          · simp at h
        · simp at h
      · simp at h
    · simp at h

end FileSystem

end PracticeShell
