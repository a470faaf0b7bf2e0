import PracticeShell.Proofs.Text.Bytes
import PracticeShell.Proofs.Tree.Structure
import PracticeShell.Proofs.Tree.Views

/-!
# Files that hold texts

A file can hold any bytes, but nothing that a learner or a description does puts any others there than
those of a text. `FileSystem.HoldsTexts` says that all files hold texts, and `Edit.KeepsTexts` that an
operation leaves it at that. Copies hold what the file before them holds, so a copy of a text is one.
-/

namespace PracticeShell

open FileTree FileTree.Change Run

/-- Whether what is seen of a node is no file, or a file that holds a text. -/
def FileTree.Face.IsText : Face → Prop
  | .file _ contents => Text.Utf8.isValid contents = true
  | .directory .. => True

/-- Whether all files below a node hold texts. -/
def FileTree.Node.HoldsTexts (node : Node) : Prop :=
  ∀ place face, node.faceAt place = some face → face.IsText

/-- Whether all files hold texts. -/
def FileSystem.HoldsTexts (fs : FileSystem) : Prop := fs.root.HoldsTexts

namespace FileTree

namespace Face

theorem IsText.mapAttributes {face : Face} (h : face.IsText) (f : Attributes → Attributes) :
    (face.mapAttributes f).IsText := by
  cases face <;> exact h

theorem IsText.mapNames {face : Face} (h : face.IsText) (now : Int)
    (f : List String → List String) : (face.mapNames now f).IsText := by
  cases face <;> exact h

end Face

namespace Change

/-- Whether a change fills files with nothing but texts. -/
def IsText : Change → Prop
  | make _ _ node => node.face.IsText
  | fill _ contents => Text.Utf8.isValid contents = true
  | _ => True

/-- A change that fills files with texts leaves texts in all files. -/
theorem holdsTexts_apply {fs : FileSystem} (h : fs.HoldsTexts) {c : Change} (hfits : c.Fits fs)
    (htext : c.IsText) : (c.apply fs).HoldsTexts := by
  intro place face hface
  change (c.apply fs).faceAt place = some face at hface
  cases c with
  | make parent name node =>
      rw [faceAt_make hfits] at hface
      split at hface
      · obtain ⟨before, hbefore, rfl⟩ := Option.map_eq_some_iff.1 hface
        exact (h _ _ hbefore).mapNames _ _
      · split at hface
        · obtain rfl := Option.some.inj hface
          exact htext
        · exact h _ _ hface
  | fill file contents =>
      rw [faceAt_fill hfits] at hface
      split at hface
      · obtain ⟨before, -, rfl⟩ := Option.map_eq_some_iff.1 hface
        exact htext
      · exact h _ _ hface
  | mark marked f =>
      rw [faceAt_mark] at hface
      split at hface
      · obtain ⟨before, hbefore, rfl⟩ := Option.map_eq_some_iff.1 hface
        exact (h _ _ hbefore).mapAttributes f
      · exact h _ _ hface
  | remove parent name =>
      rw [faceAt_remove hfits] at hface
      split at hface
      · obtain ⟨before, hbefore, rfl⟩ := Option.map_eq_some_iff.1 hface
        exact (h _ _ hbefore).mapNames _ _
      · split at hface
        · cases hface
        · exact h _ _ hface
  | move parent name newParent newName =>
      rw [faceAt_move hfits] at hface
      split at hface
      · exact h _ _ hface
      · split at hface
        · cases hface
        · rw [Option.map_map] at hface
          obtain ⟨before, hbefore, rfl⟩ := Option.map_eq_some_iff.1 hface
          have hleft : Face.IsText (if place = parent then
              before.mapNames fs.now (·.filter (· ≠ name)) else before) := by
            split
            · exact (h _ _ hbefore).mapNames _ _
            · exact h _ _ hbefore
          simp only [Function.comp_apply]
          split
          · exact hleft.mapNames _ _
          · exact hleft

end Change

end FileTree

namespace FileSystem

variable {fs inner later : FileSystem} {path : String}

/-- A file of a file system that holds texts holds one. -/
theorem HoldsTexts.isValid (h : fs.HoldsTexts) {place : List String} {a : Attributes}
    {contents : ByteArray} (hfile : fs.root.find? place = some (.file a contents)) :
    Text.Utf8.isValid contents = true :=
  h place (.file a contents) (by rw [Node.faceAt, hfile]; rfl)

theorem holdsTexts_empty (defaultOwner : String) (now : Int) :
    (empty defaultOwner now).HoldsTexts := by
  intro place face hface
  cases place with
  | nil =>
      obtain rfl := Option.some.inj hface
      trivial
  | cons name rest => simp [Node.faceAt, root, empty, Node.find?] at hface

theorem HoldsTexts.view (h : fs.HoldsTexts) (hview : fs.view path = .ok inner) :
    inner.HoldsTexts := by
  intro place face hface
  refine h (Path.segments path ++ place) face ?_
  rw [Node.faceAt_append, find?_of_view hview]
  exact hface

/-- Texts that are put back in the place of a directory leave texts in all files. -/
theorem HoldsTexts.putBack (h : fs.HoldsTexts) (hview : fs.view path = .ok inner)
    (hlater : later.HoldsTexts) : (fs.putBack path later).HoldsTexts := by
  intro place face hface
  by_cases hbelow : Path.segments path <+: place
  · obtain ⟨below, rfl⟩ := hbelow
    rw [Node.faceAt, find?_putBack (view_eq_ok_iff.1 ⟨inner, hview⟩)] at hface
    exact hlater below face hface
  · exact h place face ((faceAt_putBack_beside hbelow later).symm.trans hface)

end FileSystem

/-- Whether all files hold texts afterwards if they do before. -/
def FileSystem.KeepsTexts (fs later : FileSystem) : Prop := fs.HoldsTexts → later.HoldsTexts

theorem FileSystem.lasting_keepsTexts : Lasting FileSystem.KeepsTexts :=
  lasting_invariant FileSystem.HoldsTexts

namespace Edit

open FileSystem

variable {fs : FileSystem}

theorem Makes.keepsTexts {P : Change → Prop} {operation : Edit Unit} (h : Makes P operation fs)
    (hP : ∀ c, P c → fs.HoldsTexts → c.IsText) : Leads KeepsTexts operation fs :=
  h.leads id fun c hc hfits htexts => holdsTexts_apply htexts hfits (hP c hc htexts)

variable (fs)

theorem makeDirectory_keepsTexts (path : String) (permissions : Permissions)
    (owner : Option String) : Leads KeepsTexts (makeDirectory path permissions owner) fs := by
  refine (makes_makeDirectory path permissions owner fs).keepsTexts ?_
  rintro c ⟨parent, name, -, rfl⟩ -
  trivial

/-- What is written as text is text. -/
theorem write_keepsTexts {bytes : ByteArray} (h : fs.HoldsTexts → Text.Utf8.isValid bytes = true)
    (path : String) (owner : Option String) (permissions : Permissions) :
    Leads KeepsTexts (write path bytes owner permissions) fs := by
  refine (makes_write path bytes owner permissions fs).keepsTexts ?_
  rintro c (⟨parent, name, -, rfl⟩ | rfl) htexts <;> exact h htexts

theorem touch_keepsTexts (path : String) (owner : Option String) :
    Leads KeepsTexts (touch path owner) fs := by
  refine (makes_touch path owner fs).keepsTexts ?_
  rintro c (⟨parent, name, -, rfl⟩ | rfl) -
  · exact Text.Utf8.isValid_encode ""
  · trivial

theorem copyFile_keepsTexts (source target : String) (owner : Option String) :
    Leads KeepsTexts (copyFile source target owner) fs := by
  refine (makes_copyFile source target owner fs).keepsTexts ?_
  rintro c ⟨a, bytes, hsource, ⟨parent, name, -, rfl⟩ | rfl⟩ htexts <;>
    exact htexts.isValid hsource

theorem setPermissions_keepsTexts (path : String) (permissions : Permissions) :
    Leads KeepsTexts (setPermissions path permissions) fs := by
  refine (makes_setPermissions path permissions fs).keepsTexts ?_
  rintro c rfl -
  trivial

theorem setOwner_keepsTexts (path owner : String) :
    Leads KeepsTexts (setOwner path owner) fs := by
  refine (makes_setOwner path owner fs).keepsTexts ?_
  rintro c rfl -
  trivial

theorem unlink_keepsTexts (path : String) : Leads KeepsTexts (unlink path) fs := by
  refine (makes_unlink path fs).keepsTexts ?_
  rintro c ⟨parent, name, -, rfl, -⟩ -
  trivial

theorem removeDirectory_keepsTexts (path : String) :
    Leads KeepsTexts (removeDirectory path) fs := by
  refine (makes_removeDirectory path fs).keepsTexts ?_
  rintro c ⟨parent, name, a, -, rfl, -⟩ -
  trivial

theorem removeTree_keepsTexts (path : String) : Leads KeepsTexts (removeTree path) fs := by
  refine (makes_removeTree path fs).keepsTexts ?_
  rintro c ⟨parent, name, -, rfl⟩ -
  trivial

theorem rename_keepsTexts (source target : String) :
    Leads KeepsTexts (rename source target) fs := by
  rcases makes_rename source target fs with ⟨-, hrun⟩ | hmakes
  · rw [Leads, hrun]
    exact id
  · refine hmakes.keepsTexts ?_
    rintro c ⟨parent, name, newParent, newName, -, -, rfl⟩ -
    trivial

theorem covers_keepsTexts : Covers KeepsTexts where
  lasting := lasting_keepsTexts
  makes path permissions owner fs := makeDirectory_keepsTexts fs path permissions owner
  touches path owner fs := touch_keepsTexts fs path owner
  copies source target owner fs := copyFile_keepsTexts fs source target owner
  permits path permissions fs := setPermissions_keepsTexts fs path permissions
  gives path owner fs := setOwner_keepsTexts fs path owner
  unlinks path fs := unlink_keepsTexts fs path
  removes path fs := removeDirectory_keepsTexts fs path
  clears path fs := removeTree_keepsTexts fs path
  moves source target fs := rename_keepsTexts fs source target

end Edit

theorem Structure.builds_keepsTexts : Structure.Builds FileSystem.KeepsTexts where
  lasting := FileSystem.lasting_keepsTexts
  makes path permissions owner fs := Edit.makeDirectory_keepsTexts fs path permissions owner
  writes path text owner permissions fs :=
    Edit.write_keepsTexts fs (fun _ => Text.Utf8.isValid_encode text) path owner permissions

/-- A description gives nothing but texts. -/
theorem FileSystem.holdsTexts_ofStructure {description : Json} {defaultOwner : String} {now : Int}
    {fs : FileSystem} (h : ofStructure description defaultOwner now = .ok fs) : fs.HoldsTexts :=
  leads_ofStructure Structure.builds_keepsTexts h (holdsTexts_empty defaultOwner now)

end PracticeShell
