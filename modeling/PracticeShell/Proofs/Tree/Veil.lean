import PracticeShell.Command.Access
import PracticeShell.Proofs.Tree.Face

/-!
# What may be seen of a tree

`veil` blots out the contents of the files that the root user owns: it leaves nothing of them but
their length. Two file systems are the same to a user without elevated rights if `veil` makes them
equal. Names, kinds, attributes and sizes are the same under the veil, and so is whatever is read
off them (`find?_veil`, `stat?_veil`, `walk_veil`, `names_veil`).
-/

namespace PracticeShell

open FileTree

namespace FileTree

/-- The contents of a file under the veil: zeros if the root user owns it. -/
def veilContents (a : Attributes) (contents : ByteArray) : ByteArray :=
  if a.owner = Context.rootUser then ⟨Array.replicate contents.size 0⟩ else contents

@[simp]
theorem size_veilContents (a : Attributes) (contents : ByteArray) :
    (veilContents a contents).size = contents.size := by
  unfold veilContents
  split
  · exact Array.size_replicate
  · rfl

@[simp]
theorem veilContents_veilContents (a : Attributes) (contents : ByteArray) :
    veilContents a (veilContents a contents) = veilContents a contents := by
  rw [veilContents, size_veilContents]
  split
  · rename_i h
    rw [veilContents, if_pos h]
  · rfl

theorem veilContents_of_ne {a : Attributes} (h : a.owner ≠ Context.rootUser)
    (contents : ByteArray) : veilContents a contents = contents := if_neg h

namespace Node

mutual

/-- A node under the veil. -/
def veil : Node → Node
  | file a contents => file a (veilContents a contents)
  | directory a es => directory a (veilEntries es)

/-- Entries under the veil. -/
def veilEntries : List (String × Node) → List (String × Node)
  | [] => []
  | (name, node) :: rest => (name, veil node) :: veilEntries rest

end

@[simp] theorem veil_file (a : Attributes) (contents : ByteArray) :
    veil (.file a contents) = .file a (veilContents a contents) := by rw [veil]

@[simp] theorem veil_directory (a : Attributes) (es : List (String × Node)) :
    veil (.directory a es) = .directory a (veilEntries es) := by rw [veil]

@[simp] theorem veilEntries_nil : veilEntries [] = [] := by rw [veilEntries]

theorem veilEntries_eq_map (es : List (String × Node)) :
    veilEntries es = es.map fun (name, node) => (name, veil node) := by
  induction es with
  | nil => rw [veilEntries, List.map_nil]
  | cons entry rest ih =>
      obtain ⟨name, node⟩ := entry
      rw [veilEntries, ih, List.map_cons]

@[simp]
theorem names_veilEntries (es : Entries) : Entries.names (veilEntries es) = Entries.names es := by
  simp [Entries.names, veilEntries_eq_map, Function.comp_def]

@[simp]
theorem get?_veilEntries (es : Entries) (name : String) :
    Entries.get? (veilEntries es) name = (Entries.get? es name).map veil := by
  induction es with
  | nil => simp [veilEntries]
  | cons entry rest ih =>
      obtain ⟨n, node⟩ := entry
      rw [veilEntries, Entries.get?_cons, Entries.get?_cons, ih]
      split <;> rfl

@[simp]
theorem isDirectory_veil (node : Node) : (veil node).isDirectory = node.isDirectory := by
  cases node <;> simp [Node.isDirectory]

@[simp]
theorem attributes_veil (node : Node) : (veil node).attributes = node.attributes := by
  cases node <;> simp [Node.attributes]

@[simp]
theorem size_veil (node : Node) : (veil node).size = node.size := by
  cases node <;> simp [Node.size]

@[simp]
theorem entries_veil (node : Node) : (veil node).entries = veilEntries node.entries := by
  cases node <;> simp [Node.entries]

@[simp]
theorem find?_veil (place : List String) (node : Node) :
    find? place (veil node) = (find? place node).map veil := by
  induction place generalizing node with
  | nil => rfl
  | cons name rest ih =>
      cases node with
      | file => rfl
      | directory a es =>
          rw [veil_directory, find?_cons_directory, find?_cons_directory, get?_veilEntries]
          cases Entries.get? es name with
          | none => rfl
          | some child => exact ih child

mutual

theorem veil_veil (node : Node) : veil (veil node) = veil node := by
  cases node with
  | file a contents => simp
  | directory a es => simp [veilEntries_veilEntries es]

theorem veilEntries_veilEntries (es : List (String × Node)) :
    veilEntries (veilEntries es) = veilEntries es := by
  cases es with
  | nil => simp [veilEntries]
  | cons entry rest =>
      obtain ⟨name, node⟩ := entry
      simp [veilEntries, veil_veil node, veilEntries_veilEntries rest]

end

mutual

theorem height_veil (node : Node) : (veil node).height = node.height := by
  cases node with
  | file a contents => simp [height]
  | directory a es => simp [height, heightEntries_veilEntries es]

theorem heightEntries_veilEntries (es : List (String × Node)) :
    heightEntries (veilEntries es) = heightEntries es := by
  cases es with
  | nil => simp [veilEntries]
  | cons entry rest =>
      obtain ⟨name, node⟩ := entry
      simp [veilEntries, heightEntries, height_veil node, heightEntries_veilEntries rest]

end

mutual

theorem walk_veil (place : List String) (node : Node) :
    walk place (veil node) = (walk place node).map fun (q, there) => (q, veil there) := by
  cases node with
  | file a contents => simp [walk]
  | directory a es => simp [walk, walkEntries_veilEntries place es]

theorem walkEntries_veilEntries (place : List String) (es : List (String × Node)) :
    walkEntries place (veilEntries es) =
      (walkEntries place es).map fun (q, there) => (q, veil there) := by
  cases es with
  | nil => simp [veilEntries, walkEntries]
  | cons entry rest =>
      obtain ⟨name, node⟩ := entry
      simp [veilEntries, walkEntries, walk_veil (place ++ [name]) node,
        walkEntries_veilEntries place rest]

end

end Node

/-- A change of one node, under the veil. -/
theorem Node.veil_modify {f g : Node → Node} (h : ∀ node, (f node).veil = g node.veil)
    (place : List String) (node : Node) :
    (node.modify f place).veil = node.veil.modify g place := by
  induction place generalizing node with
  | nil => exact h node
  | cons name rest ih =>
      cases node with
      | file => rfl
      | directory a es =>
          simp only [Node.modify, Node.veil_directory]
          congr 1
          induction es with
          | nil => rfl
          | cons entry es ihes =>
              obtain ⟨n, child⟩ := entry
              simp only [Node.veilEntries, Entries.modify]
              split
              · rw [Node.veilEntries, ih child]
              · rw [Node.veilEntries, ihes]

theorem veilEntries_put (name : String) (node : Node) (es : Entries) :
    Node.veilEntries (Entries.put name node es) =
      Entries.put name node.veil (Node.veilEntries es) := by
  induction es with
  | nil => rfl
  | cons entry es ih =>
      obtain ⟨n, child⟩ := entry
      simp only [Node.veilEntries, Entries.put]
      split
      · rfl
      · rw [Node.veilEntries, ih]

theorem veilEntries_erase (name : String) (es : Entries) :
    Node.veilEntries (Entries.erase es name) = Entries.erase (Node.veilEntries es) name := by
  simp [Node.veilEntries_eq_map, Entries.erase, List.filter_map, Function.comp_def]

end FileTree

namespace FileSystem

/-- A file system under the veil. -/
def veil (fs : FileSystem) : FileSystem := { fs with entries := Node.veilEntries fs.entries }

variable (fs : FileSystem)

@[simp] theorem now_veil : fs.veil.now = fs.now := rfl

@[simp] theorem defaultOwner_veil : fs.veil.defaultOwner = fs.defaultOwner := rfl

@[simp] theorem name_veil : fs.veil.name = fs.name := rfl

@[simp] theorem veil_veil : fs.veil.veil = fs.veil := by
  simp [veil, Node.veilEntries_veilEntries]

@[simp] theorem root_veil : fs.veil.root = fs.root.veil := by simp [root, veil]

@[simp]
theorem find?_veil (path : String) : fs.veil.find? path = (fs.find? path).map Node.veil := by
  simp [find?]

@[simp]
theorem statOf_veil (place : List String) (node : Node) :
    fs.veil.statOf place node.veil = fs.statOf place node := by
  simp only [statOf, name_veil, Node.isDirectory_veil, Node.attributes_veil, Node.size_veil]
  rfl

@[simp]
theorem stat?_veil (path : String) : fs.veil.stat? path = fs.stat? path := by
  simp [stat?, Function.comp_def]

@[simp]
theorem contains_veil (path : String) : fs.veil.contains path = fs.contains path := by
  simp [contains]

@[simp]
theorem isDirectory_veil (path : String) : fs.veil.isDirectory path = fs.isDirectory path := by
  simp [isDirectory, Option.any_map]

@[simp]
theorem names_veil (path : String) : fs.veil.names path = fs.names path := by
  rw [names, names, find?_veil]
  cases fs.find? path with
  | none => rfl
  | some node => cases node <;> simp

@[simp]
theorem walk_veil (path : String) : fs.veil.walk path = fs.walk path := by
  rw [walk, walk, find?_veil]
  cases fs.find? path with
  | none => rfl
  | some node => simp [Node.walk_veil, Function.comp_def]

/-- The text of a file that the root user does not own is the same under the veil. -/
theorem text_veil {path : String} (h : ∀ node, fs.find? path = some node →
    node.attributes.owner ≠ Context.rootUser) : fs.veil.text path = fs.text path := by
  rw [text, text, contents, contents, find?_veil]
  cases hnode : fs.find? path with
  | none => rfl
  | some node =>
      cases node with
      | directory => rfl
      | file a bytes =>
          have hne : a.owner ≠ Context.rootUser := h _ hnode
          simp only [Option.map_some, Node.veil_file, veilContents_of_ne hne]

theorem veil_modifyAt {f g : Node → Node} (hf : ∀ node, (f node).veil = g node.veil)
    (hkind : ∀ node, (f node).isDirectory = node.isDirectory) (place : List String) :
    (fs.modifyAt place f).veil = fs.veil.modifyAt place g := by
  have hroot := Node.veil_modify hf place fs.root
  rw [← root_veil] at hroot
  rw [modifyAt, modifyAt, ← hroot]
  have hdir : (fs.root.modify f place).isDirectory = true :=
    Node.isDirectory_modify hkind place fs.root
  cases hnode : fs.root.modify f place with
  | file => simp [hnode, Node.isDirectory] at hdir
  | directory a es => simp [setRoot, veil]

/-- Entries that are changed in the same way are the same under the veil. -/
theorem veil_modifyEntries {f g : Entries → Entries}
    (h : ∀ es, Node.veilEntries (f es) = g (Node.veilEntries es)) (place : List String) :
    (fs.modifyEntries place f).veil = fs.veil.modifyEntries place g := by
  refine veil_modifyAt fs ?_ ?_ place
  · intro node
    cases node <;> simp [h]
  · intro node
    cases node <;> rfl

end FileSystem

namespace Access

variable (ctx : Context) (fs : FileSystem)

@[simp]
theorem nearestAlong_veil (place : List String) :
    nearestAlong fs.veil place = nearestAlong fs place := by
  induction place using nearestAlong.induct fs with
  | case1 place node hnode =>
      rw [nearestAlong.eq_def fs.veil place, nearestAlong.eq_def fs place]
      simp [hnode]
  | case2 hnone => simp [Node.find?] at hnone
  | case3 place hnone hne hlt ih =>
      rw [nearestAlong.eq_def fs.veil place, nearestAlong.eq_def fs place]
      simpa [hnone, hne] using ih

@[simp]
theorem nearestExisting_veil (path : String) :
    nearestExisting fs.veil path = nearestExisting fs path := by
  rw [nearestExisting, nearestAlong_veil, nearestExisting]

@[simp]
theorem parentDenied_veil (path : String) :
    parentDenied ctx fs.veil path = parentDenied ctx fs path := by
  simp [parentDenied]

@[simp]
theorem treeDenied_veil (path : String) :
    treeDenied ctx fs.veil path = treeDenied ctx fs path := by
  simp [treeDenied]

end Access

end PracticeShell
