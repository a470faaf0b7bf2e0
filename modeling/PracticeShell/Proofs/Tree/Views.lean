import PracticeShell.Proofs.Tree.Making
import PracticeShell.Proofs.Tree.Proper

/-!
# Views and what is put back

A directory looked at as a file system of its own shows what lies below it
(`FileSystem.find?_of_view`). What is put back in its place is found there (`find?_putBack`), nothing
is seen of it elsewhere (`faceAt_putBack_beside`), and looking again shows it (`view_putBack`). An
operation in a directory runs on its view, which is put back whether it fails or not
(`Edit.run_within`).
-/

namespace PracticeShell

open FileTree FileTree.Change Run

namespace FileTree

namespace Entries

theorem modify_modify (name : String) (f g : Node → Node) (es : Entries) :
    modify name f (modify name g es) = modify name (fun node => f (g node)) es := by
  induction es with
  | nil => rfl
  | cons entry rest ih =>
      obtain ⟨n, node⟩ := entry
      by_cases hn : n = name
      · simp [modify, hn]
      · simp [modify, hn, ih]

/-- Only what becomes of the entry that is found matters. -/
theorem modify_congr {f g : Node → Node} {es : Entries} {name : String} {node : Node}
    (hnode : get? es name = some node) (h : f node = g node) :
    modify name f es = modify name g es := by
  induction es with
  | nil => rfl
  | cons entry rest ih =>
      obtain ⟨n, other⟩ := entry
      rw [get?_cons] at hnode
      rw [modify, modify]
      by_cases hn : n = name
      · rw [if_pos hn.symm] at hnode
        obtain rfl := Option.some.inj hnode
        rw [if_pos hn, if_pos hn, h]
      · rw [if_neg (Ne.symm hn)] at hnode
        rw [if_neg hn, if_neg hn, ih hnode]

/-- Changing the entry that is found into itself changes nothing. -/
theorem modify_of_get? {f : Node → Node} {es : Entries} {name : String} {node : Node}
    (hnode : get? es name = some node) (hf : f node = node) : modify name f es = es := by
  induction es with
  | nil => rfl
  | cons entry rest ih =>
      obtain ⟨n, other⟩ := entry
      rw [get?_cons] at hnode
      rw [modify]
      by_cases hn : n = name
      · rw [if_pos hn.symm] at hnode
        obtain rfl := Option.some.inj hnode
        rw [if_pos hn, hf]
      · rw [if_neg (Ne.symm hn)] at hnode
        rw [if_neg hn, ih hnode]

end Entries

namespace Node

theorem modify_append (f : Node → Node) (place below : List String) (node : Node) :
    modify f (place ++ below) node = modify (modify f below) place node := by
  induction place generalizing node with
  | nil => rfl
  | cons name rest ih =>
      have hbelow : modify f (rest ++ below) = modify (modify f below) rest := funext ih
      cases node with
      | file => rfl
      | directory a es => rw [List.cons_append, modify, modify, hbelow]

theorem modify_modify (f g : Node → Node) (place : List String) (node : Node) :
    modify f place (modify g place node) = modify (fun n => f (g n)) place node := by
  induction place generalizing node with
  | nil => rfl
  | cons name rest ih =>
      have hboth : (fun n => modify f rest (modify g rest n)) = modify (fun n => f (g n)) rest :=
        funext ih
      cases node with
      | file => rfl
      | directory a es => rw [modify, modify, modify, Entries.modify_modify, hboth]

/-- Only what becomes of the node that is found matters. -/
theorem modify_congr {f g : Node → Node} {place : List String} {node there : Node}
    (hthere : node.find? place = some there) (h : f there = g there) :
    node.modify f place = node.modify g place := by
  induction place generalizing node with
  | nil =>
      obtain rfl := Option.some.inj hthere
      exact h
  | cons name rest ih =>
      cases node with
      | file => rfl
      | directory a es =>
          rw [find?_cons_directory] at hthere
          obtain ⟨child, hchild, hrest⟩ := Option.bind_eq_some_iff.1 hthere
          rw [modify, modify, Entries.modify_congr hchild (ih hrest)]

/-- Changing the node that is found into itself changes nothing. -/
theorem modify_of_find? {f : Node → Node} {place : List String} {node there : Node}
    (hthere : node.find? place = some there) (hf : f there = there) :
    node.modify f place = node := by
  induction place generalizing node with
  | nil =>
      obtain rfl := Option.some.inj hthere
      exact hf
  | cons name rest ih =>
      cases node with
      | file => rfl
      | directory a es =>
          rw [find?_cons_directory] at hthere
          obtain ⟨child, hchild, hrest⟩ := Option.bind_eq_some_iff.1 hthere
          rw [modify, Entries.modify_of_get? hchild (ih hrest)]

end Node

end FileTree

namespace FileSystem

variable {fs inner : FileSystem} {path : String}

theorem setRoot_root (fs : FileSystem) : fs.setRoot fs.root = fs := rfl

theorem setRoot_setRoot (fs : FileSystem) (node : Node) {other : Node}
    (h : other.isDirectory = true) : (fs.setRoot node).setRoot other = fs.setRoot other := by
  cases other with
  | file => cases h
  | directory a es => cases node <;> rfl

@[simp]
theorem defaultOwner_modifyAt (fs : FileSystem) (place : List String) (f : Node → Node) :
    (fs.modifyAt place f).defaultOwner = fs.defaultOwner := by
  unfold modifyAt
  cases fs.root.modify f place <;> rfl

/-- A directory is there if it can be looked at. -/
theorem view_eq_ok_iff :
    (∃ inner, fs.view path = .ok inner) ↔ fs.kindAt (Path.segments path) = some true := by
  unfold view
  rw [kindAt, FileSystem.find?]
  cases fs.root.find? (Path.segments path) with
  | none => simp
  | some node => cases node <;> simp [Node.isDirectory]

/-- What is seen at the root of a view is the directory that was found. -/
theorem find?_of_view (h : fs.view path = .ok inner) :
    fs.root.find? (Path.segments path) = some inner.root := by
  rw [view, FileSystem.find?] at h
  cases hnode : fs.root.find? (Path.segments path) with
  | none => simp [hnode] at h
  | some node =>
      cases node with
      | file => simp [hnode] at h
      | directory a es =>
          rw [hnode] at h
          obtain rfl := Except.ok.inj h
          rfl

/-- A view has the time, the default owner and the name that come with its file system. -/
theorem eq_of_view (h : fs.view path = .ok inner) : inner = { fs with
    name := (Path.segments path).getLast?.getD fs.name
    attributes := inner.attributes
    entries := inner.entries } := by
  rw [view] at h
  cases hnode : fs.find? path with
  | none => simp [hnode] at h
  | some node =>
      cases node with
      | file => simp [hnode] at h
      | directory a es =>
          rw [hnode] at h
          obtain rfl := Except.ok.inj h
          rfl

theorem now_of_view (h : fs.view path = .ok inner) : inner.now = fs.now := by
  rw [eq_of_view h]

theorem defaultOwner_of_view (h : fs.view path = .ok inner) :
    inner.defaultOwner = fs.defaultOwner := by
  rw [eq_of_view h]

theorem root_putBack (fs : FileSystem) (path : String) (inner : FileSystem) :
    (fs.putBack path inner).root = fs.root.modify (fun _ => inner.root) (Path.segments path) := by
  refine root_setRoot fs ?_
  cases Path.segments path <;> rfl

@[simp]
theorem now_putBack (fs : FileSystem) (path : String) (inner : FileSystem) :
    (fs.putBack path inner).now = fs.now := now_modifyAt fs _ _

/-- What is found in the place of a directory is what was put back there. -/
theorem find?_putBack (h : fs.kindAt (Path.segments path) = some true) (inner : FileSystem)
    (below : List String) :
    (fs.putBack path inner).root.find? (Path.segments path ++ below) = inner.root.find? below := by
  obtain ⟨a, es, hdir⟩ := kindAt_eq_true_iff.1 h
  rw [root_putBack, Node.find?_modify, hdir]
  rfl

/-- Nothing is seen elsewhere of what is put back. -/
theorem faceAt_putBack_beside {place : List String} (h : ¬ Path.segments path <+: place)
    (inner : FileSystem) : (fs.putBack path inner).faceAt place = fs.faceAt place := by
  rw [faceAt, root_putBack, Node.faceAt_modify_beside _ h, faceAt]

/-- What is put back in the place of a directory is a directory. -/
theorem kindAt_putBack (h : fs.kindAt (Path.segments path) = some true) :
    (fs.putBack path inner).kindAt (Path.segments path) = some true := by
  have hfound := find?_putBack h inner []
  rw [List.append_nil] at hfound
  rw [kindAt, hfound]
  rfl

/-- A view that is put back unchanged changes nothing. -/
theorem putBack_view (h : fs.view path = .ok inner) : fs.putBack path inner = fs := by
  rw [putBack, modifyAt, Node.modify_of_find? (find?_of_view h) rfl, setRoot_root]

/-- Looking at a directory again shows what was put back there. -/
theorem view_putBack (h : fs.view path = .ok inner) (later : FileSystem) :
    (fs.putBack path later).view path =
      .ok { inner with attributes := later.attributes, entries := later.entries } := by
  have hfound := find?_putBack (view_eq_ok_iff.1 ⟨inner, h⟩) later []
  rw [List.append_nil] at hfound
  rw [view, FileSystem.find?, hfound, eq_of_view h]
  rw [putBack, modifyAt]
  cases fs.root.modify (fun _ => later.root) (Path.segments path) <;> rfl

/-- A directory of a proper file system is proper. -/
theorem IsProper.view (hfs : fs.IsProper) (h : fs.view path = .ok inner) : inner.IsProper :=
  Node.IsProper.find? hfs (find?_of_view h)

/-- A proper file system that is put back in the place of a directory leaves all proper. -/
theorem IsProper.putBack (hfs : fs.IsProper) (h : fs.kindAt (Path.segments path) = some true)
    {later : FileSystem} (hlater : later.IsProper) : (fs.putBack path later).IsProper := by
  rw [isProper_iff] at *
  intro place face hface
  by_cases hbelow : Path.segments path <+: place
  · obtain ⟨below, rfl⟩ := hbelow
    rw [faceAt, Node.faceAt, find?_putBack h] at hface
    exact hlater below face hface
  · rw [faceAt_putBack_beside hbelow] at hface
    exact hfs place face hface

end FileSystem

namespace Edit

/-- An operation in a directory runs on its view, which is put back whether it fails or not. -/
theorem run_within {α : Type} (operation : Edit α) (path : String) (fs : FileSystem) :
    (FileSystem.within path id operation).run fs = match fs.view path with
      | .error e => .error e fs
      | .ok inner =>
        match operation.run inner with
        | .ok a t => .ok a (fs.putBack path t)
        | .error e t => .error e (fs.putBack path t) := by
  unfold FileSystem.within
  simp only [EStateM.run]
  cases fs.view path with
  | error e => rfl
  | ok inner =>
      dsimp only
      cases operation inner <;> rfl

/-- What an operation in a directory leaves behind is what it leaves of the view, put back. -/
theorem left_run_within {α : Type} {operation : Edit α} {path : String} {fs inner : FileSystem}
    (h : fs.view path = .ok inner) : left ((FileSystem.within path id operation).run fs) =
      fs.putBack path (left (operation.run inner)) := by
  rw [run_within, h]
  dsimp only
  cases operation.run inner <;> rfl

end Edit

end PracticeShell
