import PracticeShell.FileTree.Edit
import PracticeShell.FileTree.Places

/-!
# Faces

The `face` of a node is what the node is by itself: its attributes with the contents of a file or
the names in a directory. A tree is seen through `faceAt`, the face at each place. A change at one
place is seen at that place and below it, nowhere else (`faceAt_modify_beside`): not even
above, although the nodes there hold the changed one.
-/

namespace PracticeShell.FileTree

/-- A node without what its entries hold. -/
inductive Face
  | file (attributes : Attributes) (contents : ByteArray)
  | directory (attributes : Attributes) (names : List String)

namespace Face

/-- The attributes of a node. -/
def attributes : Face → Attributes
  | file a _ => a
  | directory a _ => a

/-- Whether the node is a directory. -/
def isDirectory : Face → Bool
  | file .. => false
  | directory .. => true

/-- The names in a directory; a file has none. -/
def names : Face → List String
  | file .. => []
  | directory _ names => names

/-- The face after a change of attributes. -/
def mapAttributes (f : Attributes → Attributes) : Face → Face
  | file a contents => file (f a) contents
  | directory a names => directory (f a) names

/-- The face of a directory after a change of its names, stamped with the time. -/
def mapNames (now : Int) (f : List String → List String) : Face → Face
  | file a contents => file a contents
  | directory a names => directory { a with modified := now } (f names)

/-- Names with one more, unless it is among them. -/
def addName (name : String) (names : List String) : List String :=
  if name ∈ names then names else names ++ [name]

@[simp]
theorem isDirectory_mapAttributes (f : Attributes → Attributes) (face : Face) :
    (face.mapAttributes f).isDirectory = face.isDirectory := by
  cases face <;> rfl

@[simp]
theorem isDirectory_mapNames (now : Int) (f : List String → List String) (face : Face) :
    (face.mapNames now f).isDirectory = face.isDirectory := by
  cases face <;> rfl

end Face

namespace Node

/-- What a node is by itself. -/
def face : Node → Face
  | file a contents => .file a contents
  | directory a es => .directory a (Entries.names es)

@[simp] theorem face_file (a : Attributes) (contents : ByteArray) :
    face (.file a contents) = .file a contents := rfl

@[simp] theorem face_directory (a : Attributes) (es : Entries) :
    face (.directory a es) = .directory a (Entries.names es) := rfl

@[simp] theorem attributes_face (node : Node) : node.face.attributes = node.attributes := by
  cases node <;> rfl

@[simp] theorem isDirectory_face (node : Node) : node.face.isDirectory = node.isDirectory := by
  cases node <;> rfl

@[simp] theorem names_face (node : Node) : node.face.names = Entries.names node.entries := by
  cases node <;> rfl

@[simp] theorem face_mapAttributes (f : Attributes → Attributes) (node : Node) :
    (node.mapAttributes f).face = node.face.mapAttributes f := by
  cases node <;> rfl

/-- The face of the node that is reached along names. -/
def faceAt (place : List String) (node : Node) : Option Face := (node.find? place).map face

@[simp] theorem faceAt_nil (node : Node) : faceAt [] node = some node.face := rfl

theorem faceAt_append (place below : List String) (node : Node) :
    faceAt (place ++ below) node = (find? place node).bind (faceAt below) := by
  simp only [faceAt, find?_append, Option.map_bind]
  rfl

@[simp] theorem isSome_faceAt (place : List String) (node : Node) :
    (faceAt place node).isSome = (find? place node).isSome := by
  simp [faceAt]

/-- What is seen above a changed node. -/
theorem find?_modify_above (f : Node → Node) (place below : List String) (node : Node) :
    find? place (modify f (place ++ below) node) = (find? place node).map (modify f below) := by
  induction place generalizing node with
  | nil => rfl
  | cons name rest ih =>
      cases node with
      | file => rfl
      | directory a es =>
          rw [List.cons_append, modify, find?_cons_directory, find?_cons_directory,
            Entries.get?_modify, if_pos rfl]
          cases Entries.get? es name with
          | none => rfl
          | some there => exact ih there

theorem face_modify_cons (f : Node → Node) (name : String) (rest : List String) (node : Node) :
    (modify f (name :: rest) node).face = node.face := by
  cases node with
  | file => rfl
  | directory a es => simp [modify]

/-- What is seen at a changed node and below it. -/
theorem faceAt_modify (f : Node → Node) (place below : List String) (node : Node) :
    faceAt (place ++ below) (modify f place node) =
      (find? place node).bind fun there => faceAt below (f there) := by
  rw [faceAt, find?_modify, Option.map_bind]
  rfl

/-- What is seen at a changed node. -/
theorem faceAt_modify_self (f : Node → Node) (place : List String) (node : Node) :
    faceAt place (modify f place node) = (find? place node).map fun there => (f there).face := by
  have h := faceAt_modify f place [] node
  rw [List.append_nil] at h
  rw [h]
  cases find? place node <;> rfl

/-- Nothing else is seen of a change of one node. -/
theorem faceAt_modify_beside (f : Node → Node) {place other : List String}
    (h : ¬ place <+: other) (node : Node) :
    faceAt other (modify f place node) = faceAt other node := by
  by_cases habove : other <+: place
  · obtain ⟨below, rfl⟩ := habove
    cases below with
    | nil => exact absurd (by simp) h
    | cons name rest =>
        rw [faceAt, find?_modify_above, faceAt, Option.map_map]
        congr 1
        funext there
        exact face_modify_cons f name rest there
  · rw [faceAt, find?_modify_of_not_prefix f h habove, faceAt]

/-- A change that keeps files files and directories directories. -/
theorem isDirectory_modify {f : Node → Node} (hf : ∀ node, (f node).isDirectory = node.isDirectory)
    (place : List String) (node : Node) :
    (modify f place node).isDirectory = node.isDirectory := by
  cases place with
  | nil => exact hf node
  | cons name rest => cases node <;> rfl

/-- Below a file there is nothing. -/
theorem find?_file (a : Attributes) (contents : ByteArray) (place : List String) :
    find? place (.file a contents) = if place = [] then some (.file a contents) else none := by
  cases place <;> rfl

/-- Below a directory without entries there is nothing. -/
theorem find?_of_entries_eq_nil {node : Node} (h : node.entries = []) (place : List String) :
    find? place node = if place = [] then some node else none := by
  cases node with
  | file a contents => exact find?_file a contents place
  | directory a es =>
      obtain rfl : es = [] := h
      cases place <;> rfl

end Node

end PracticeShell.FileTree

namespace PracticeShell.FileSystem

open FileTree

/-- The face of the node that is reached along names. -/
def faceAt (fs : FileSystem) (place : List String) : Option Face := fs.root.faceAt place

@[simp] theorem faceAt_nil (fs : FileSystem) : fs.faceAt [] = some fs.root.face := rfl

theorem faceAt_eq_some {fs : FileSystem} {place : List String} {face : Face} :
    fs.faceAt place = some face ↔ ∃ node, fs.root.find? place = some node ∧ node.face = face := by
  simp [faceAt, Node.faceAt]

/-- Names are listed where a directory is seen that has them. -/
theorem names_eq_ok_iff {fs : FileSystem} {path : String} {names : List String} :
    fs.names path = .ok names ↔ ∃ a, fs.faceAt (Path.segments path) = some (.directory a names) := by
  simp only [FileSystem.names, FileSystem.find?, faceAt_eq_some]
  cases fs.root.find? (Path.segments path) with
  | none => simp
  | some node => cases node <;> simp

theorem isDirectory_of_stat? {fs : FileSystem} {path : String} {node : Stat}
    (h : fs.stat? path = some node) : fs.isDirectory path = node.isDirectory := by
  obtain ⟨there, hthere, rfl⟩ := Option.map_eq_some_iff.1 h
  rw [isDirectory, hthere]
  rfl

theorem root_setRoot (fs : FileSystem) {node : Node} (h : node.isDirectory = true) :
    (fs.setRoot node).root = node := by
  cases node with
  | file => exact absurd h (by simp [Node.isDirectory])
  | directory a es => rfl

theorem root_modifyAt (fs : FileSystem) (place : List String) {f : Node → Node}
    (hf : ∀ node, (f node).isDirectory = node.isDirectory) :
    (fs.modifyAt place f).root = fs.root.modify f place :=
  root_setRoot fs (Node.isDirectory_modify hf place fs.root)

end PracticeShell.FileSystem
