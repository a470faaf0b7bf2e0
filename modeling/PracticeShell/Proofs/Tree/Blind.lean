import PracticeShell.Proofs.Tree.Proper
import PracticeShell.Proofs.Tree.Veil

/-!
# Runs that do not look under the veil

A run is `Blind` if it ends in the same way whether or not the file system is under the veil, and
what it leaves behind is the same under the veil. Every operation on files is blind except for those
that copy contents; these are blind where what they copy is not the root user's (`copyFile_blindAt`).
-/

namespace PracticeShell

open FileTree Run

theorem FileSystem.isProper_veil_iff {fs : FileSystem} : fs.veil.IsProper ↔ fs.IsProper := by
  have hfaces : ∀ place, (fs.veil.faceAt place).map Face.names =
      (fs.faceAt place).map Face.names := by
    intro place
    simp only [FileSystem.faceAt, Node.faceAt, FileSystem.root_veil, Node.find?_veil,
      Option.map_map]
    congr 1
    funext node
    simp
  rw [FileSystem.isProper_iff, FileSystem.isProper_iff]
  constructor
  · intro h place face hface
    have hnames := hfaces place
    rw [hface] at hnames
    obtain ⟨other, hother, heq⟩ := Option.map_eq_some_iff.1 hnames
    exact heq ▸ h place other hother
  · intro h place face hface
    have hnames := hfaces place
    rw [hface] at hnames
    obtain ⟨other, hother, heq⟩ := Option.map_eq_some_iff.1 hnames.symm
    exact heq ▸ h place other hother

theorem FileSystem.IsProper.of_veil_eq {fs other : FileSystem} (h : fs.IsProper)
    (hveil : fs.veil = other.veil) : other.IsProper :=
  FileSystem.isProper_veil_iff.1 (hveil ▸ FileSystem.isProper_veil_iff.2 h)

namespace Run

variable {ε α β : Type}

/-- The end of a run with what it leaves behind under the veil. -/
def hide : EStateM.Result ε FileSystem α → EStateM.Result ε FileSystem α
  | .ok a fs => .ok a fs.veil
  | .error e fs => .error e fs.veil

@[simp] theorem hide_ok (a : α) (fs : FileSystem) :
    hide (.ok a fs : EStateM.Result ε FileSystem α) = .ok a fs.veil := rfl

@[simp] theorem hide_error (e : ε) (fs : FileSystem) :
    hide (.error e fs : EStateM.Result ε FileSystem α) = .error e fs.veil := rfl

/-- Whether a run from a file system is the same if this is under the veil. What is left has to be
proper. -/
structure BlindAt (fs : FileSystem) (x : EStateM ε FileSystem α) : Prop where
  same : hide (x.run fs.veil) = hide (x.run fs)
  proper : (left (x.run fs)).IsProper

/-- Whether the runs from all proper file systems are the same if these are under the veil. -/
def Blind (x : EStateM ε FileSystem α) : Prop := ∀ fs, fs.IsProper → BlindAt fs x

/-- A blind run is the same from all file systems that are the same under the veil. -/
theorem Blind.hide_eq {x : EStateM ε FileSystem α} (h : Blind x) {fs other : FileSystem}
    (hfs : fs.IsProper) (hveil : fs.veil = other.veil) :
    hide (x.run fs) = hide (x.run other) := by
  rw [← (h fs hfs).same, hveil, (h other (hfs.of_veil_eq hveil)).same]

namespace BlindAt

variable {fs : FileSystem} {x : EStateM ε FileSystem α}

theorem pure (hfs : fs.IsProper) (a : α) : BlindAt fs (pure a : EStateM ε FileSystem α) :=
  ⟨by simp, hfs⟩

theorem throw (hfs : fs.IsProper) (e : ε) : BlindAt fs (throw e : EStateM ε FileSystem α) :=
  ⟨by simp, hfs⟩

theorem bind {f : α → EStateM ε FileSystem β} (hx : BlindAt fs x)
    (hf : ∀ a t, x.run fs = .ok a t → Blind (f a)) : BlindAt fs (x >>= f) := by
  obtain ⟨hsame, hproper⟩ := hx
  cases hrun : x.run fs with
  | error e t =>
      rw [hrun] at hsame hproper
      cases hveil : x.run fs.veil with
      | ok a s => simp [hveil] at hsame
      | error e' s =>
          rw [hveil] at hsame
          refine ⟨?_, ?_⟩
          · rw [EStateM.run_bind, EStateM.run_bind, hrun, hveil]
            simpa using hsame
          · rw [EStateM.run_bind, hrun]
            exact hproper
  | ok a t =>
      rw [hrun] at hsame hproper
      cases hveil : x.run fs.veil with
      | error e' s => simp [hveil] at hsame
      | ok a' s =>
          rw [hveil] at hsame
          obtain ⟨rfl, hst⟩ : a' = a ∧ s.veil = t.veil := by simpa using hsame
          refine ⟨?_, ?_⟩
          · rw [EStateM.run_bind, EStateM.run_bind, hrun, hveil]
            exact ((hf a' t hrun).hide_eq hproper hst.symm).symm
          · rw [EStateM.run_bind, hrun]
            exact (hf a' t hrun t hproper).proper

/-- What follows a look at the file system is blind if it is, and is the same under the veil. -/
theorem get_bind {f : FileSystem → EStateM ε FileSystem β} (hveil : f fs.veil = f fs)
    (h : BlindAt fs (f fs)) : BlindAt fs (get >>= f) := by
  refine ⟨?_, h.proper⟩
  have hsame := h.same
  simp only [EStateM.run_bind, EStateM.run_get]
  rwa [hveil]

theorem ite {c : Prop} [Decidable c] {y : EStateM ε FileSystem α} (hx : c → BlindAt fs x)
    (hy : ¬ c → BlindAt fs y) : BlindAt fs (if c then x else y) := by
  split
  · exact hx ‹_›
  · exact hy ‹_›

theorem attempt {operation : Edit Unit} (h : BlindAt fs operation) :
    BlindAt fs (Action.attempt operation) := by
  obtain ⟨hsame, hproper⟩ := h
  refine ⟨?_, leads_attempt (R := fun _ t => t.IsProper).2 hproper⟩
  rw [run_attempt, run_attempt]
  cases hveil : operation.run fs.veil <;> cases hrun : operation.run fs <;>
    simp_all

end BlindAt

theorem blind_forM {l : List β} {f : β → EStateM ε FileSystem PUnit}
    (h : ∀ b ∈ l, Blind (f b)) : Blind (l.forM f) := by
  induction l with
  | nil => exact fun fs hfs => .pure hfs _
  | cons b l ih =>
      intro fs hfs
      change BlindAt fs (f b >>= fun _ => l.forM f)
      exact .bind (h b (by simp) fs hfs) fun _ _ _ => ih fun c hc => h c (by simp [hc])

theorem blind_forEach {operands : List String} {action : String → Action (List String)}
    (h : ∀ operand ∈ operands, Blind (action operand)) :
    Blind (Action.forEach operands action) := by
  induction operands with
  | nil => exact fun fs hfs => .pure hfs _
  | cons operand rest ih =>
      intro fs hfs
      refine .bind (h operand (by simp) fs hfs) fun messages t _ u hu => ?_
      refine .bind (ih (fun o ho => h o (by simp [ho])) u hu) fun others v _ w hw => ?_
      exact .pure hw _

end Run

namespace FileTree.Change

/-- Whether a change leaves the owners of nodes alone. -/
def KeepsOwners : Change → Prop
  | mark _ f => ∀ a, (f a).owner = a.owner
  | _ => True

/-- A change that leaves owners alone does the same under the veil. -/
theorem veil_apply (fs : FileSystem) {c : Change} (hc : c.KeepsOwners) :
    (c.apply fs.veil).veil = (c.apply fs).veil := by
  have hput : ∀ (fs : FileSystem) parent name node,
      (fs.modifyEntries parent (Entries.put name node)).veil =
        fs.veil.modifyEntries parent (Entries.put name node.veil) := fun fs parent name node =>
    fs.veil_modifyEntries (veilEntries_put name node) parent
  have herase : ∀ (fs : FileSystem) parent name,
      (fs.modifyEntries parent (Entries.erase · name)).veil =
        fs.veil.modifyEntries parent (Entries.erase · name) := fun fs parent name =>
    fs.veil_modifyEntries (veilEntries_erase name) parent
  cases c with
  | make parent name node => rw [apply, apply, hput, hput, FileSystem.veil_veil]
  | remove parent name => rw [apply, apply, herase, herase, FileSystem.veil_veil]
  | fill place contents =>
      have hfill : ∀ node, (fillNode fs.now contents node).veil =
          ((fillNode fs.now contents) node.veil).veil := by
        intro node
        cases node <;> simp [fillNode, Node.veilEntries_veilEntries]
      have hkind : ∀ node, (fillNode fs.now contents node).isDirectory = node.isDirectory := by
        intro node
        cases node <;> rfl
      have hfs : ∀ t : FileSystem, (t.modifyAt place (fillNode fs.now contents)).veil =
          t.veil.modifyAt place fun node => (fillNode fs.now contents node).veil := fun t =>
        t.veil_modifyAt hfill hkind place
      rw [apply, apply, FileSystem.now_veil, hfs, hfs, FileSystem.veil_veil]
  | mark place f =>
      have hmark : ∀ node, (Node.mapAttributes f node).veil = Node.mapAttributes f node.veil := by
        intro node
        cases node with
        | directory => simp [Node.mapAttributes]
        | file a contents =>
            have howner : (f a).owner = a.owner := hc a
            simp [Node.mapAttributes, veilContents, howner]
      have hkind : ∀ node, (Node.mapAttributes f node).isDirectory = node.isDirectory := by
        intro node
        cases node <;> rfl
      rw [apply, apply, FileSystem.veil_modifyAt _ hmark hkind,
        FileSystem.veil_modifyAt _ hmark hkind, FileSystem.veil_veil]
  | move parent name newParent newName =>
      simp only [apply, FileSystem.root_veil, Node.find?_veil]
      cases fs.root.find? (parent ++ [name]) with
      | none => simp
      | some node =>
          simp only [Option.map_some]
          rw [hput, hput, herase, herase, FileSystem.veil_veil, Node.veil_veil]

end FileTree.Change

namespace Edit

open FileTree.Change

theorem run_parentOf_veil (path : String) (fs : FileSystem) :
    (parentOf path).run fs.veil = match (parentOf path).run fs with
      | .ok (parent, es, name) _ => .ok (parent, Node.veilEntries es, name) fs.veil
      | .error e _ => .error e fs.veil := by
  rcases List.eq_nil_or_concat (Path.segments path) with hpath | ⟨parent, name, hpath⟩
  · simp [parentOf, hpath]
  · rw [List.concat_eq_append] at hpath
    cases hdir : fs.root.find? parent with
    | none => simp [parentOf, hpath, hdir]
    | some node => cases node <;> simp [parentOf, hpath, hdir]

@[simp]
theorem ownerOr_veil (owner : Option String) (fs : FileSystem) :
    ownerOr owner fs.veil = ownerOr owner fs := rfl

theorem makeDirectory_blind (path : String) (permissions : Permissions) (owner : Option String) :
    Blind (makeDirectory path permissions owner) := by
  intro fs hfs
  refine ⟨?_, hfs.of_grows (makeDirectory_grows fs path permissions owner)⟩
  rcases parentOf_cases path fs with ⟨e, hrun⟩ | ⟨parent, name, a, es, hpath, hdir, hrun⟩
  · by_cases hroot : (Path.segments path).isEmpty <;>
      simp [makeDirectory, run_parentOf_veil, hrun, hroot]
  · cases hentry : Entries.get? es name with
    | some node => simp [makeDirectory, run_parentOf_veil, hrun, hpath, hentry]
    | none =>
        have hveil := veil_apply fs (c := .make parent name
          (.directory ⟨ownerOr owner fs, permissions, fs.now⟩ [])) trivial
        simpa [makeDirectory, run_parentOf_veil, hrun, hpath, hentry, Change.apply] using hveil

theorem write_blind (path : String) (bytes : ByteArray) (owner : Option String)
    (permissions : Permissions) : Blind (write path bytes owner permissions) := by
  intro fs hfs
  refine ⟨?_, hfs.of_grows (write_grows fs path bytes owner permissions)⟩
  rcases parentOf_cases path fs with ⟨e, hrun⟩ | ⟨parent, name, a, es, hpath, hdir, hrun⟩
  · simp [write, run_parentOf_veil, hrun]
  · cases hentry : Entries.get? es name with
    | none =>
        have hveil := veil_apply fs (c := .make parent name
          (.file ⟨ownerOr owner fs, permissions, fs.now⟩ bytes)) trivial
        simpa [write, run_parentOf_veil, hrun, hentry, Change.apply] using hveil
    | some node =>
        cases node with
        | directory => simp [write, run_parentOf_veil, hrun, hentry]
        | file old contents =>
            have hveil := veil_apply fs (c := .fill (parent ++ [name]) bytes) trivial
            simp only [write, EStateM.run_bind, run_parentOf_veil, hrun, hentry,
              Node.get?_veilEntries, Option.map_some, Node.veil_file, EStateM.run_modify, hide_ok]
            exact congrArg _ hveil

theorem touch_blind (path : String) (owner : Option String) : Blind (touch path owner) := by
  intro fs hfs
  refine ⟨?_, hfs.of_grows (touch_grows fs path owner)⟩
  cases hnode : fs.find? path with
  | none =>
      have hwrite := (write_blind path ByteArray.empty owner Permissions.newFile fs hfs).same
      simpa [touch, hnode] using hwrite
  | some node =>
      have hveil := veil_apply fs (c := .mark (Path.segments path) fun a =>
        { a with modified := fs.now }) fun _ => rfl
      simpa [touch, hnode, Change.apply] using hveil

theorem setPermissions_blind (path : String) (permissions : Permissions) :
    Blind (setPermissions path permissions) := by
  intro fs hfs
  refine ⟨?_, hfs.of_grows (setPermissions_grows fs path permissions)⟩
  cases hnode : fs.find? path with
  | none => simp [setPermissions, hnode]
  | some node =>
      have hveil := veil_apply fs (c := .mark (Path.segments path) fun a =>
        { a with permissions := permissions }) fun _ => rfl
      simpa [setPermissions, hnode, Change.apply] using hveil

theorem unlink_blind (path : String) : Blind (unlink path) := by
  intro fs hfs
  refine ⟨?_, hfs.of_reaches (unlink_reaches fs path)⟩
  rcases parentOf_cases path fs with ⟨e, hrun⟩ | ⟨parent, name, a, es, hpath, hdir, hrun⟩
  · simp [unlink, run_parentOf_veil, hrun]
  · cases hentry : Entries.get? es name with
    | none => simp [unlink, run_parentOf_veil, hrun, hentry]
    | some node =>
        have hveil := veil_apply fs (c := .remove parent name) trivial
        cases node with
        | directory => simp [unlink, run_parentOf_veil, hrun, hentry]
        | file => simpa [unlink, run_parentOf_veil, hrun, hentry, Change.apply] using hveil

theorem removeDirectory_blind (path : String) : Blind (removeDirectory path) := by
  intro fs hfs
  refine ⟨?_, hfs.of_reaches (removeDirectory_reaches fs path)⟩
  rcases parentOf_cases path fs with ⟨e, hrun⟩ | ⟨parent, name, a, es, hpath, hdir, hrun⟩
  · simp [removeDirectory, run_parentOf_veil, hrun]
  · cases hentry : Entries.get? es name with
    | none => simp [removeDirectory, run_parentOf_veil, hrun, hentry]
    | some node =>
        have hveil := veil_apply fs (c := .remove parent name) trivial
        cases node with
        | file => simp [removeDirectory, run_parentOf_veil, hrun, hentry]
        | directory b inner =>
            cases inner with
            | nil =>
                simpa [removeDirectory, run_parentOf_veil, hrun, hentry, Node.veilEntries,
                  Change.apply] using hveil
            | cons entry rest =>
                simp [removeDirectory, run_parentOf_veil, hrun, hentry, Node.veilEntries]

theorem removeTree_blind (path : String) : Blind (removeTree path) := by
  intro fs hfs
  refine ⟨?_, hfs.of_reaches (removeTree_reaches fs path)⟩
  rcases parentOf_cases path fs with ⟨e, hrun⟩ | ⟨parent, name, a, es, hpath, hdir, hrun⟩
  · simp [removeTree, run_parentOf_veil, hrun]
  · cases hentry : Entries.get? es name with
    | none => simp [removeTree, run_parentOf_veil, hrun, hentry]
    | some node =>
        have hveil := veil_apply fs (c := .remove parent name) trivial
        simpa [removeTree, run_parentOf_veil, hrun, hentry, Change.apply] using hveil

theorem makeDirectories_blind (path : String) (permissions : Permissions)
    (owner : Option String) : Blind (makeDirectories path permissions owner) := by
  have halong : ∀ rest done, Blind (makeAlong permissions owner done rest) := by
    intro rest
    induction rest with
    | nil => exact fun done fs hfs => .pure hfs ()
    | cons name rest ih =>
        intro done fs hfs
        have hmake := makeDirectory_blind (Path.ofSegments (done ++ [name])) permissions owner
        rw [makeAlong]
        refine .get_bind ?_ ?_
        · simp only [FileSystem.root_veil, Node.find?_veil]
          cases fs.root.find? (done ++ [name]) with
          | none => rfl
          | some node => cases node <;> simp
        · cases fs.root.find? (done ++ [name]) with
          | none => exact .bind (hmake fs hfs) fun _ _ _ => ih (done ++ [name])
          | some node =>
              cases node with
              | file => exact .bind (.throw hfs _) fun _ _ _ => ih (done ++ [name])
              | directory => exact ih (done ++ [name]) fs hfs
  exact halong _ []

theorem rename_blind (source target : String) : Blind (rename source target) := by
  intro fs hfs
  refine ⟨?_, hfs.of_reaches (rename_reaches fs source target)⟩
  rcases parentOf_cases source fs with ⟨e, hrun⟩ | ⟨parent, name, a, es, hpath, hdir, hrun⟩
  · simp [rename, run_parentOf_veil, hrun]
  · have hfound := find?_entry hdir name
    cases hentry : Entries.get? es name with
    | none => simp [rename, run_parentOf_veil, hrun, hentry]
    | some node =>
        rw [hentry] at hfound
        by_cases hsame : Path.segments target = Path.segments source
        · simp [rename, run_parentOf_veil, hrun, hentry, hsame]
        · by_cases hinside : Path.segments source <+: Path.segments target
          · simp [rename, run_parentOf_veil, hrun, hentry, hsame, hinside]
          · rcases parentOf_cases target fs with
              ⟨e, htrun⟩ | ⟨newParent, newName, b, es', htpath, htdir, htrun⟩
            · simp [rename, run_parentOf_veil, hrun, hentry, hsame, hinside, htrun]
            · have hveil := veil_apply fs (c := .move parent name newParent newName) trivial
              simp only [Change.apply, FileSystem.root_veil, Node.find?_veil, hfound,
                Option.map_some] at hveil
              rw [hpath, htpath] at hsame hinside
              cases htarget : Entries.get? es' newName with
              | none =>
                  simpa [rename, run_parentOf_veil, hrun, hentry, hsame, hinside, htrun, hpath,
                    htpath, htarget] using hveil
              | some there =>
                  have hentries : Node.veilEntries there.entries = [] ↔ there.entries = [] := by
                    simp [Node.veilEntries_eq_map]
                  cases hd : there.isDirectory <;> cases hn : node.isDirectory <;>
                    by_cases hempty : there.entries = [] <;>
                    simp [rename, run_parentOf_veil, hrun, hentry, hsame, hinside, htrun, hpath,
                      htpath, htarget, hd, hn, hentries, hempty, hveil]

/-- Copying a file is blind where the root user does not own it. -/
theorem copyFile_blindAt {source target : String} {owner : Option String} {fs : FileSystem}
    (hfs : fs.IsProper)
    (h : ∀ node, fs.find? source = some node → node.attributes.owner ≠ Context.rootUser) :
    BlindAt fs (copyFile source target owner) := by
  refine ⟨?_, hfs.of_grows (copyFile_grows fs source target owner)⟩
  cases hnode : fs.find? source with
  | none => simp [copyFile, hnode]
  | some node =>
      cases node with
      | directory => simp [copyFile, hnode]
      | file a bytes =>
          have hne : a.owner ≠ Context.rootUser := h _ hnode
          have hwrite := (write_blind target bytes owner a.permissions fs hfs).same
          simpa [copyFile, hnode, veilContents_of_ne hne] using hwrite

end Edit

end PracticeShell
