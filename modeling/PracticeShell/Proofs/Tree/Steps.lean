import PracticeShell.Path
import PracticeShell.Proofs.Tree.Operations

/-!
# Changes in a row

`Change.Reaches P fs later` says that `later` comes from `fs` by changes one after the other, each
of which fits and has `P`. It is shown once for each operation: all bring in only names that can be
met (`Change.IsNamed`), and those that remove nothing only make, fill and mark (`Change.IsGrowth`).
A property that each such change keeps is then kept by every operation.
-/

namespace PracticeShell

open FileTree Run

namespace FileTree.Change

/-- Whether the name that a change brings in, if any, can be met on the way to a place. -/
def IsNamed : Change → Prop
  | make _ name _ => Path.IsSegment name
  | move _ _ _ newName => Path.IsSegment newName
  | _ => True

/-- Whether a change leaves every node at its place. -/
def IsGrowth : Change → Prop
  | make _ name _ => Path.IsSegment name
  | fill .. => True
  | mark .. => True
  | _ => False

theorem IsGrowth.isNamed {c : Change} (h : c.IsGrowth) : c.IsNamed := by
  cases c <;> first | exact h | trivial

/-- Growth leaves a file a file and a directory a directory. -/
theorem IsGrowth.exists_faceAt {fs : FileSystem} {c : Change} (hc : c.IsGrowth)
    (hfits : c.Fits fs) {place : List String} {face : Face} (hface : fs.faceAt place = some face) :
    ∃ later, (c.apply fs).faceAt place = some later ∧ later.isDirectory = face.isDirectory := by
  by_cases htouches : c.Touches place
  · cases c with
    | make parent name node =>
        obtain rfl : place = parent := htouches
        rw [faceAt_make hfits, if_pos rfl, hface]
        exact ⟨_, rfl, Face.isDirectory_mapNames _ _ face⟩
    | fill file contents =>
        obtain rfl : place = file := htouches
        obtain ⟨node, hnode, hfile⟩ := (Option.any_eq_true _ _).1 hfits
        rw [FileSystem.faceAt, Node.faceAt, hnode] at hface
        obtain rfl := Option.some.inj hface
        rw [faceAt_fill hfits, if_pos rfl, FileSystem.faceAt, Node.faceAt, hnode]
        exact ⟨_, rfl, by cases node <;> simp_all [Face.isDirectory, Node.isDirectory]⟩
    | mark marked f =>
        obtain rfl : place = marked := htouches
        rw [faceAt_mark, if_pos rfl, hface]
        exact ⟨_, rfl, Face.isDirectory_mapAttributes f face⟩
    | remove => exact absurd hc (by simp [IsGrowth])
    | move => exact absurd hc (by simp [IsGrowth])
  · exact ⟨face, faceAt_of_not_touches hfits hface htouches, rfl⟩

/-- Whether a file system comes from another by changes with a property, one after the other. -/
inductive Reaches (P : Change → Prop) : FileSystem → FileSystem → Prop
  | refl {fs : FileSystem} : Reaches P fs fs
  | step {fs later : FileSystem} {c : Change} (hc : P c) (hfits : c.Fits fs)
      (hrest : Reaches P (c.apply fs) later) : Reaches P fs later

namespace Reaches

variable {P Q : Change → Prop} {fs later : FileSystem}

theorem trans {last : FileSystem} (h : Reaches P fs later) (h' : Reaches P later last) :
    Reaches P fs last := by
  induction h with
  | refl => exact h'
  | step hc hfits _ ih => exact .step hc hfits (ih h')

theorem imp (h : Reaches P fs later) (hPQ : ∀ c, P c → Q c) : Reaches Q fs later := by
  induction h with
  | refl => exact .refl
  | step hc hfits _ ih => exact .step (hPQ _ hc) hfits ih

theorem now_eq (h : Reaches P fs later) : later.now = fs.now := by
  induction h with
  | refl => rfl
  | step _ _ _ ih => rw [ih, FileSystem.now_apply]

end Reaches

/-- Growth leaves every file a file and every directory a directory. -/
theorem Reaches.exists_faceAt {fs later : FileSystem} (h : Reaches IsGrowth fs later)
    {place : List String} {face : Face} (hface : fs.faceAt place = some face) :
    ∃ last, later.faceAt place = some last ∧ last.isDirectory = face.isDirectory := by
  induction h generalizing face with
  | refl => exact ⟨face, hface, rfl⟩
  | step hc hfits _ ih =>
      obtain ⟨next, hnext, hkind⟩ := hc.exists_faceAt hfits hface
      obtain ⟨last, hlast, hsame⟩ := ih hnext
      exact ⟨last, hlast, hsame.trans hkind⟩

theorem lasting_reaches (P : Change → Prop) : Lasting (Reaches P) :=
  ⟨fun _ => .refl, fun h h' => h.trans h'⟩

end FileTree.Change

namespace Edit

open FileTree.Change

theorem Makes.reaches {P Q : Change → Prop} {operation : Edit Unit} {fs : FileSystem}
    (h : Makes P operation fs) (hPQ : ∀ c, P c → Q c) : Leads (Reaches Q) operation fs :=
  h.leads .refl fun c hc hfits => .step (hPQ c hc) hfits .refl

theorem isSegment_last {path : String} {parent : List String} {name : String}
    (h : Path.segments path = parent ++ [name]) : Path.IsSegment name :=
  Path.isSegment_of_mem_segments (by rw [h]; simp)

variable (fs : FileSystem)

theorem makeDirectory_grows (path : String) (permissions : Permissions) (owner : Option String) :
    Leads (Reaches IsGrowth) (makeDirectory path permissions owner) fs := by
  refine (makes_makeDirectory path permissions owner fs).reaches ?_
  rintro c ⟨parent, name, hpath, rfl⟩
  exact isSegment_last hpath

theorem write_grows (path : String) (bytes : ByteArray) (owner : Option String)
    (permissions : Permissions) :
    Leads (Reaches IsGrowth) (write path bytes owner permissions) fs := by
  refine (makes_write path bytes owner permissions fs).reaches ?_
  rintro c (⟨parent, name, hpath, rfl⟩ | rfl)
  · exact isSegment_last hpath
  · trivial

theorem touch_grows (path : String) (owner : Option String) :
    Leads (Reaches IsGrowth) (touch path owner) fs := by
  refine (makes_touch path owner fs).reaches ?_
  rintro c (⟨parent, name, hpath, rfl⟩ | rfl)
  · exact isSegment_last hpath
  · trivial

theorem copyFile_grows (source target : String) (owner : Option String) :
    Leads (Reaches IsGrowth) (copyFile source target owner) fs := by
  refine (makes_copyFile source target owner fs).reaches ?_
  rintro c ⟨a, bytes, -, ⟨parent, name, hpath, rfl⟩ | rfl⟩
  · exact isSegment_last hpath
  · trivial

theorem setPermissions_grows (path : String) (permissions : Permissions) :
    Leads (Reaches IsGrowth) (setPermissions path permissions) fs := by
  refine (makes_setPermissions path permissions fs).reaches ?_
  rintro c rfl
  trivial

theorem setOwner_grows (path owner : String) :
    Leads (Reaches IsGrowth) (setOwner path owner) fs := by
  refine (makes_setOwner path owner fs).reaches ?_
  rintro c rfl
  trivial

theorem unlink_reaches (path : String) : Leads (Reaches IsNamed) (unlink path) fs := by
  refine (makes_unlink path fs).reaches ?_
  rintro c ⟨parent, name, -, rfl, -⟩
  trivial

theorem removeDirectory_reaches (path : String) :
    Leads (Reaches IsNamed) (removeDirectory path) fs := by
  refine (makes_removeDirectory path fs).reaches ?_
  rintro c ⟨parent, name, a, -, rfl, -⟩
  trivial

theorem removeTree_reaches (path : String) : Leads (Reaches IsNamed) (removeTree path) fs := by
  refine (makes_removeTree path fs).reaches ?_
  rintro c ⟨parent, name, -, rfl⟩
  trivial

theorem rename_reaches (source target : String) :
    Leads (Reaches IsNamed) (rename source target) fs := by
  rcases makes_rename source target fs with ⟨-, hrun⟩ | hmakes
  · rw [Leads, hrun]
    exact .refl
  · refine hmakes.reaches ?_
    rintro c ⟨parent, name, newParent, newName, -, htarget, rfl⟩
    exact isSegment_last htarget

/-- Whether a relation of earlier to later file systems holds of the operations that commands use to
make, fill and mark nodes. -/
structure CoversGrowth (R : FileSystem → FileSystem → Prop) : Prop where
  lasting : Lasting R
  makes : ∀ path permissions owner fs, Leads R (makeDirectory path permissions owner) fs
  touches : ∀ path owner fs, Leads R (touch path owner) fs
  copies : ∀ source target owner fs, Leads R (copyFile source target owner) fs
  permits : ∀ path permissions fs, Leads R (setPermissions path permissions) fs
  gives : ∀ path owner fs, Leads R (setOwner path owner) fs

/-- Whether a relation of earlier to later file systems holds of all operations that commands use. -/
structure Covers (R : FileSystem → FileSystem → Prop) : Prop extends CoversGrowth R where
  unlinks : ∀ path fs, Leads R (unlink path) fs
  removes : ∀ path fs, Leads R (removeDirectory path) fs
  clears : ∀ path fs, Leads R (removeTree path) fs
  moves : ∀ source target fs, Leads R (rename source target) fs

namespace CoversGrowth

variable {R : FileSystem → FileSystem → Prop} (hR : CoversGrowth R)

include hR

theorem makesAll (path : String) (permissions : Permissions) (owner : Option String)
    (fs : FileSystem) : Leads R (makeDirectories path permissions owner) fs :=
  leads_makeAlong hR.lasting (fun path fs => hR.makes path permissions owner fs) [] _ fs

theorem copiesTree (source target : String) (owner : Option String) (fs : FileSystem) :
    Leads R (copyTree source target owner) fs :=
  .get_bind (leads_copyNode hR.lasting (fun path permissions fs => hR.makes path permissions owner fs)
    (fun source target fs => hR.copies source target owner fs) _ source target fs)

end CoversGrowth

/-- What is covered by a relation is covered by every weaker one. -/
theorem CoversGrowth.weaken {R Q : FileSystem → FileSystem → Prop} (h : CoversGrowth R)
    (hQ : Lasting Q) (hRQ : ∀ {fs later}, R fs later → Q fs later) : CoversGrowth Q where
  lasting := hQ
  makes path permissions owner fs := (h.makes path permissions owner fs).weaken hRQ
  touches path owner fs := (h.touches path owner fs).weaken hRQ
  copies source target owner fs := (h.copies source target owner fs).weaken hRQ
  permits path permissions fs := (h.permits path permissions fs).weaken hRQ
  gives path owner fs := (h.gives path owner fs).weaken hRQ

theorem coversGrowth_grows : CoversGrowth (Reaches IsGrowth) where
  lasting := lasting_reaches IsGrowth
  makes path permissions owner fs := makeDirectory_grows fs path permissions owner
  touches path owner fs := touch_grows fs path owner
  copies source target owner fs := copyFile_grows fs source target owner
  permits path permissions fs := setPermissions_grows fs path permissions
  gives path owner fs := setOwner_grows fs path owner

theorem covers_reaches : Covers (Reaches IsNamed) where
  toCoversGrowth := coversGrowth_grows.weaken (lasting_reaches IsNamed) fun h =>
    h.imp fun _ hc => hc.isNamed
  unlinks path fs := unlink_reaches fs path
  removes path fs := removeDirectory_reaches fs path
  clears path fs := removeTree_reaches fs path
  moves source target fs := rename_reaches fs source target

theorem makeDirectories_grows (path : String) (permissions : Permissions)
    (owner : Option String) :
    Leads (Reaches IsGrowth) (makeDirectories path permissions owner) fs :=
  coversGrowth_grows.makesAll path permissions owner fs

theorem copyTree_grows (source target : String) (owner : Option String) :
    Leads (Reaches IsGrowth) (copyTree source target owner) fs :=
  coversGrowth_grows.copiesTree source target owner fs

end Edit

end PracticeShell
