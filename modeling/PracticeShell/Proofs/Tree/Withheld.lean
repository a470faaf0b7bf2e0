import PracticeShell.Proofs.Tree.Views

/-!
# Nodes without their permissions

`withhold` takes all permissions away. Two file systems that differ in permissions only are the same
without them (`withhold_modifyAt`), and whatever is not read off permissions is the same there
(`stat?_withhold`, `names_withhold`, `walk_withhold`). Changes of attributes at two places can be made
in either order (`Node.modify_attributes_comm`).
-/

namespace PracticeShell

open FileTree

namespace FileTree

/-- Attributes without permissions. -/
def Attributes.withhold (a : Attributes) : Attributes := { a with permissions := .withheld }

namespace Node

mutual

/-- A node with no permissions for it or for anything below it. -/
def withhold : Node → Node
  | file a contents => file a.withhold contents
  | directory a es => directory a.withhold (withholdEntries es)

/-- Entries with no permissions. -/
def withholdEntries : List (String × Node) → List (String × Node)
  | [] => []
  | (name, node) :: rest => (name, withhold node) :: withholdEntries rest

end

@[simp] theorem withhold_file (a : Attributes) (contents : ByteArray) :
    withhold (.file a contents) = .file a.withhold contents := by rw [withhold]

@[simp] theorem withhold_directory (a : Attributes) (es : List (String × Node)) :
    withhold (.directory a es) = .directory a.withhold (withholdEntries es) := by rw [withhold]

theorem withholdEntries_eq_map (es : List (String × Node)) :
    withholdEntries es = es.map fun (name, node) => (name, withhold node) := by
  induction es with
  | nil => rw [withholdEntries, List.map_nil]
  | cons entry rest ih =>
      obtain ⟨name, node⟩ := entry
      rw [withholdEntries, ih, List.map_cons]

@[simp]
theorem names_withholdEntries (es : Entries) :
    Entries.names (withholdEntries es) = Entries.names es := by
  simp [Entries.names, withholdEntries_eq_map, Function.comp_def]

@[simp]
theorem get?_withholdEntries (es : Entries) (name : String) :
    Entries.get? (withholdEntries es) name = (Entries.get? es name).map withhold := by
  induction es with
  | nil => simp [withholdEntries]
  | cons entry rest ih =>
      obtain ⟨n, node⟩ := entry
      rw [withholdEntries, Entries.get?_cons, Entries.get?_cons, ih]
      split <;> rfl

@[simp]
theorem isDirectory_withhold (node : Node) : (withhold node).isDirectory = node.isDirectory := by
  cases node <;> simp [Node.isDirectory]

@[simp]
theorem attributes_withhold (node : Node) :
    (withhold node).attributes = node.attributes.withhold := by
  cases node <;> simp [Node.attributes]

@[simp]
theorem size_withhold (node : Node) : (withhold node).size = node.size := by
  cases node <;> simp [Node.size]

@[simp]
theorem find?_withhold (place : List String) (node : Node) :
    find? place (withhold node) = (find? place node).map withhold := by
  induction place generalizing node with
  | nil => rfl
  | cons name rest ih =>
      cases node with
      | file => simp [find?]
      | directory a es =>
          rw [withhold_directory, find?_cons_directory, find?_cons_directory, get?_withholdEntries]
          cases Entries.get? es name with
          | none => rfl
          | some child => exact ih child

mutual

theorem walk_withhold (place : List String) (node : Node) :
    walk place (withhold node) = (walk place node).map fun (q, there) => (q, withhold there) := by
  cases node with
  | file a contents => simp [walk]
  | directory a es => simp [walk, walkEntries_withholdEntries place es]

theorem walkEntries_withholdEntries (place : List String) (es : List (String × Node)) :
    walkEntries place (withholdEntries es) =
      (walkEntries place es).map fun (q, there) => (q, withhold there) := by
  cases es with
  | nil => simp [withholdEntries, walkEntries]
  | cons entry rest =>
      obtain ⟨name, node⟩ := entry
      simp [withholdEntries, walkEntries, walk_withhold (place ++ [name]) node,
        walkEntries_withholdEntries place rest]

end

/-- A change of attributes that leaves all but the permissions. -/
theorem withhold_modify {f : Attributes → Attributes} (hf : ∀ a, (f a).withhold = a.withhold)
    (place : List String) (node : Node) :
    (node.modify (mapAttributes f) place).withhold = node.withhold := by
  induction place generalizing node with
  | nil => cases node <;> simp [modify, mapAttributes, hf]
  | cons name rest ih =>
      cases node with
      | file => rfl
      | directory a es =>
          rw [modify, withhold_directory, withhold_directory]
          congr 1
          induction es with
          | nil => rfl
          | cons entry es ihes =>
              obtain ⟨n, child⟩ := entry
              rw [Entries.modify]
              split
              · rw [withholdEntries, withholdEntries, ih child]
              · rw [withholdEntries, withholdEntries, ihes]

end Node

theorem Entries.modify_comm (f g : Node → Node) {name other : String} (h : name ≠ other)
    (es : Entries) : modify name f (modify other g es) = modify other g (modify name f es) := by
  induction es with
  | nil => rfl
  | cons entry rest ih =>
      obtain ⟨n, node⟩ := entry
      by_cases hname : n = name
      · simp [modify, hname, h]
      · by_cases hother : n = other
        · simp [modify, hother, Ne.symm h]
        · simp [modify, hname, hother, ih]

/-- One change of attributes is made at two places in either order. -/
theorem Node.modify_attributes_comm (f : Attributes → Attributes) (place other : List String)
    (node : Node) : (node.modify (mapAttributes f) other).modify (mapAttributes f) place =
      (node.modify (mapAttributes f) place).modify (mapAttributes f) other := by
  induction place generalizing other node with
  | nil =>
      cases other with
      | nil => rfl
      | cons => cases node <;> rfl
  | cons name rest ih =>
      cases other with
      | nil => cases node <;> rfl
      | cons next below =>
          cases node with
          | file => rfl
          | directory a es =>
              simp only [modify]
              by_cases hname : name = next
              · rw [hname, Entries.modify_modify, Entries.modify_modify, funext (ih below)]
              · rw [Entries.modify_comm _ _ hname]

theorem Entries.modify_of_get?_none {f : Node → Node} {es : Entries} {name : String}
    (h : get? es name = none) : modify name f es = es := by
  induction es with
  | nil => rfl
  | cons entry rest ih =>
      obtain ⟨n, node⟩ := entry
      rw [get?_cons] at h
      split at h
      · cases h
      · rename_i hn
        rw [modify, if_neg (Ne.symm hn), ih h]

/-- Where nothing is found nothing is changed. -/
theorem Node.modify_of_find?_none {f : Node → Node} {place : List String} {node : Node}
    (h : node.find? place = none) : node.modify f place = node := by
  induction place generalizing node with
  | nil => cases h
  | cons name rest ih =>
      cases node with
      | file => rfl
      | directory a es =>
          rw [find?_cons_directory] at h
          rw [modify]
          cases hchild : Entries.get? es name with
          | none => rw [Entries.modify_of_get?_none hchild]
          | some child =>
              rw [hchild] at h
              rw [Entries.modify_of_get? hchild (ih h)]

end FileTree

/-- What is known of a node but its permissions. -/
def Stat.withhold (s : Stat) : Stat := { s with permissions := .withheld }

namespace FileSystem

/-- A file system with no permissions. -/
def withhold (fs : FileSystem) : FileSystem :=
  { fs with attributes := fs.attributes.withhold, entries := Node.withholdEntries fs.entries }

variable (fs : FileSystem)

@[simp] theorem root_withhold : fs.withhold.root = fs.root.withhold := by simp [root, withhold]

@[simp]
theorem find?_withhold (path : String) :
    fs.withhold.find? path = (fs.find? path).map Node.withhold := by
  simp [find?]

@[simp]
theorem statOf_withhold (place : List String) (node : Node) :
    fs.withhold.statOf place node.withhold = (fs.statOf place node).withhold := by
  simp only [statOf, Node.isDirectory_withhold, Node.attributes_withhold, Node.size_withhold]
  rfl

@[simp]
theorem stat?_withhold (path : String) :
    fs.withhold.stat? path = (fs.stat? path).map Stat.withhold := by
  simp [stat?, Function.comp_def]

@[simp]
theorem contains_withhold (path : String) : fs.withhold.contains path = fs.contains path := by
  simp [contains]

@[simp]
theorem kindAt_withhold (place : List String) : fs.withhold.kindAt place = fs.kindAt place := by
  simp [kindAt, Function.comp_def]

@[simp]
theorem names_withhold (path : String) : fs.withhold.names path = fs.names path := by
  rw [names, names, find?_withhold]
  cases fs.find? path with
  | none => rfl
  | some node => cases node <;> simp

@[simp]
theorem walk_withhold (path : String) :
    fs.withhold.walk path = (fs.walk path).map (·.map Stat.withhold) := by
  rw [walk, walk, find?_withhold]
  cases fs.find? path with
  | none => rfl
  | some node => simp [Node.walk_withhold, Function.comp_def, Except.map]

theorem withhold_modifyAt {f : Attributes → Attributes} (hf : ∀ a, (f a).withhold = a.withhold)
    (place : List String) : (fs.modifyAt place (Node.mapAttributes f)).withhold = fs.withhold := by
  have hroot := Node.withhold_modify hf place fs.root
  have hdir : (fs.root.modify (Node.mapAttributes f) place).isDirectory = true :=
    Node.isDirectory_modify (fun node => by cases node <;> rfl) place fs.root
  rw [modifyAt]
  cases hnode : fs.root.modify (Node.mapAttributes f) place with
  | file => simp [hnode, Node.isDirectory] at hdir
  | directory a es =>
      rw [hnode, root, Node.withhold_directory, Node.withhold_directory] at hroot
      injection hroot with hattributes hentries
      rw [setRoot, withhold, withhold, hattributes, hentries]

end FileSystem

end PracticeShell
