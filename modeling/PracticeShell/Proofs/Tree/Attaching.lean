import PracticeShell.Proofs.Tree.Operations
import PracticeShell.Proofs.Tree.Views

/-!
# Attached and shed entries

`FileSystem.attach` puts entries behind those of a directory. What is made under a new name is attached
(`modifyEntries_put`), entries that are attached one after the other are attached at once
(`attach_attach`), and so are those that are attached to a directory which has been attached itself
(`attach_below`).

`Face.shed` is what remains to be seen of a directory that some names are gone from. A file system
without the node at one place (`FileSystem.without`) shows nothing at or below it, and its directory
has shed its name (`faceAt_without`).
-/

namespace PracticeShell

open FileTree

namespace FileTree

namespace Entries

theorem put_of_get? {es : Entries} {name : String} (h : get? es name = none) (node : Node) :
    put name node es = es ++ [(name, node)] := by
  induction es with
  | nil => rfl
  | cons entry rest ih =>
      obtain ⟨n, old⟩ := entry
      rw [get?_cons] at h
      split at h
      · cases h
      · rename_i hne
        rw [put, if_neg (Ne.symm hne), ih h, List.cons_append]

/-- The last entry is found if no other has its name. -/
theorem get?_append_last {es : Entries} {name : String} (h : get? es name = none) (node : Node) :
    get? (es ++ [(name, node)]) name = some node := by
  rw [← put_of_get? h, get?_put, if_pos rfl]

theorem get?_append_of_ne {name other : String} (h : other ≠ name) (es : Entries) (node : Node) :
    get? (es ++ [(name, node)]) other = get? es other := by
  induction es with
  | nil => rw [List.nil_append, get?_cons, if_neg h]
  | cons entry rest ih =>
      obtain ⟨n, old⟩ := entry
      rw [List.cons_append, get?_cons, get?_cons, ih]

/-- The last entry is changed if no other has its name. -/
theorem modify_append_last {es : Entries} {name : String} (h : get? es name = none)
    (f : Node → Node) (node : Node) :
    modify name f (es ++ [(name, node)]) = es ++ [(name, f node)] := by
  induction es with
  | nil => simp [modify]
  | cons entry rest ih =>
      obtain ⟨n, old⟩ := entry
      rw [get?_cons] at h
      split at h
      · cases h
      · rename_i hne
        rw [List.cons_append, modify, if_neg (Ne.symm hne), ih h, List.cons_append]

end Entries

namespace Node

/-- A directory with more entries. -/
def attach (es : Entries) : Node → Node
  | .directory a old => .directory a (old ++ es)
  | node => node

theorem isDirectory_attach (es : Entries) (node : Node) :
    (attach es node).isDirectory = node.isDirectory := by
  cases node <;> rfl

theorem attach_attach (es more : Entries) (node : Node) :
    attach more (attach es node) = attach (es ++ more) node := by
  cases node with
  | file => rfl
  | directory a old => simp [attach]

end Node

end FileTree

namespace FileSystem

variable {fs : FileSystem} {place : List String} {a b : Attributes} {es : Entries} {name : String}

/-- A file system with more entries in a directory. -/
def attach (fs : FileSystem) (place : List String) (es : Entries) : FileSystem :=
  fs.modifyAt place (Node.attach es)

@[simp]
theorem now_attach (fs : FileSystem) (place : List String) (es : Entries) :
    (fs.attach place es).now = fs.now := now_modifyAt fs place _

@[simp]
theorem defaultOwner_attach (fs : FileSystem) (place : List String) (es : Entries) :
    (fs.attach place es).defaultOwner = fs.defaultOwner := defaultOwner_modifyAt fs place _

theorem root_attach (fs : FileSystem) (place : List String) (es : Entries) :
    (fs.attach place es).root = fs.root.modify (Node.attach es) place :=
  root_modifyAt fs place (Node.isDirectory_attach es)

/-- A change of a file system with more entries is a change of its root. -/
theorem modifyAt_attach (fs : FileSystem) (place other : List String) (es : Entries)
    {f : Node → Node} (hf : ∀ node, (f node).isDirectory = node.isDirectory) :
    (fs.attach place es).modifyAt other f =
      fs.setRoot ((fs.root.modify (Node.attach es) place).modify f other) := by
  have hdir : ((fs.root.modify (Node.attach es) place).modify f other).isDirectory = true := by
    rw [Node.isDirectory_modify hf, Node.isDirectory_modify (Node.isDirectory_attach es)]
    rfl
  rw [modifyAt, root_attach, attach, modifyAt, setRoot_setRoot _ _ hdir]

/-- The directory with more entries. -/
theorem find?_attach (h : fs.root.find? place = some (.directory a es)) (more : Entries) :
    (fs.attach place more).root.find? place = some (.directory a (es ++ more)) := by
  have hself := Node.find?_modify (Node.attach more) place [] fs.root
  rw [List.append_nil, h] at hself
  rw [root_attach, hself]
  rfl

/-- What has been attached is found. -/
theorem find?_attach_entry (h : fs.root.find? place = some (.directory a es))
    (hname : Entries.get? es name = none) (node : Node) :
    (fs.attach place [(name, node)]).root.find? (place ++ [name]) = some node := by
  rw [Node.find?_append, find?_attach h, Option.bind_some, Node.find?_cons_directory,
    Entries.get?_append_last hname]
  rfl

theorem attach_attach (fs : FileSystem) (place : List String) (es more : Entries) :
    (fs.attach place es).attach place more = fs.attach place (es ++ more) := by
  have hboth : (fun node => Node.attach more (Node.attach es node)) = Node.attach (es ++ more) :=
    funext fun node => Node.attach_attach es more node
  rw [attach, modifyAt_attach _ _ _ _ (Node.isDirectory_attach more), Node.modify_modify, hboth]
  rfl

theorem attach_nil (h : fs.root.find? place = some (.directory a es)) :
    fs.attach place [] = fs := by
  have hsame : Node.attach [] (.directory a es) = .directory a es := by simp [Node.attach]
  rw [attach, modifyAt, Node.modify_of_find? h hsame, setRoot_root]

/-- More entries in a new directory, which has been attached itself. -/
theorem attach_below (h : fs.root.find? place = some (.directory a es))
    (hname : Entries.get? es name = none) (more : Entries) :
    (fs.attach place [(name, .directory b [])]).attach (place ++ [name]) more =
      fs.attach place [(name, .directory b more)] := by
  have hnew : Node.modify (Node.attach more) [name]
      (Node.attach [(name, .directory b [])] (.directory a es)) =
        Node.attach [(name, .directory b more)] (.directory a es) := by
    simp only [Node.attach, Node.modify]
    rw [Entries.modify_append_last hname]
    rfl
  rw [attach, modifyAt_attach _ _ _ _ (Node.isDirectory_attach more), Node.modify_append,
    Node.modify_modify, Node.modify_congr h hnew]
  rfl

/-- A new entry that is put into a directory comes last. -/
theorem modifyEntries_put (h : fs.root.find? place = some (.directory a es))
    (hnow : a.modified = fs.now) (hname : Entries.get? es name = none) (node : Node) :
    fs.modifyEntries place (Entries.put name node) = fs.attach place [(name, node)] := by
  have hput : stampEntries fs.now (Entries.put name node) (.directory a es) =
      Node.attach [(name, node)] (.directory a es) := by
    rw [stampEntries, ← hnow, Entries.put_of_get? hname]
    rfl
  rw [modifyEntries_eq, attach, modifyAt, modifyAt, Node.modify_congr h hput]

end FileSystem

namespace Edit

/-- A file is made where there is nothing. -/
theorem run_write {path name : String} {parent : List String} {fs : FileSystem}
    {a : Attributes} {es : Entries} (hpath : Path.segments path = parent ++ [name])
    (hdir : fs.root.find? parent = some (.directory a es)) (hnone : Entries.get? es name = none)
    (bytes : ByteArray) (owner : Option String) (permissions : Permissions) :
    (write path bytes owner permissions).run fs = .ok () (fs.modifyEntries parent
      (Entries.put name (.file ⟨ownerOr owner fs, permissions, fs.now⟩ bytes))) := by
  simp [write, run_parentOf hpath hdir, hnone]

end Edit

section Shedding

open FileTree.Change

namespace FileTree.Face

/-- A directory without the names that are gone, stamped with the time if it had any of them. -/
def shed (now : Int) (gone : String → Bool) : Face → Face
  | file a contents => file a contents
  | directory a names =>
    directory { a with modified := if names.any gone then now else a.modified }
      (names.filter (!gone ·))

theorem shed_of_not_any {gone : String → Bool} {face : Face} (h : face.names.any gone = false)
    (now : Int) : face.shed now gone = face := by
  cases face with
  | file => rfl
  | directory a names =>
      have hnone : names.any gone = false := h
      have hkept : names.filter (!gone ·) = names := by
        rw [List.filter_eq_self]
        intro name hname
        simpa using List.any_eq_false.1 hnone name hname
      rw [shed, hnone, hkept]
      rfl

/-- Names that go one after the other. -/
theorem shed_shed (now : Int) (first second : String → Bool) (face : Face) :
    (face.shed now first).shed now second = face.shed now fun name => first name || second name := by
  cases face with
  | file => rfl
  | directory a names =>
      have hany : (names.any fun name => first name || second name) =
          (names.any first || (names.filter (!first ·)).any second) := by
        rw [Bool.eq_iff_iff]
        simp only [List.any_eq_true, Bool.or_eq_true, List.mem_filter, Bool.not_eq_true']
        constructor
        · rintro ⟨name, hname, hgone⟩
          cases hfirst : first name with
          | true => exact .inl ⟨name, hname, hfirst⟩
          | false => exact .inr ⟨name, ⟨hname, hfirst⟩, by simpa [hfirst] using hgone⟩
        · rintro (⟨name, hname, hfirst⟩ | ⟨name, ⟨hname, -⟩, hsecond⟩)
          · exact ⟨name, hname, .inl hfirst⟩
          · exact ⟨name, hname, .inr hsecond⟩
      simp only [shed, List.filter_filter, hany, Bool.not_or, Bool.and_comm]
      cases names.any first <;> cases (names.filter (!first ·)).any second <;> rfl

@[simp]
theorem isDirectory_shed (now : Int) (gone : String → Bool) (face : Face) :
    (face.shed now gone).isDirectory = face.isDirectory := by
  cases face <;> rfl

@[simp]
theorem owner_shed (now : Int) (gone : String → Bool) (face : Face) :
    (face.shed now gone).attributes.owner = face.attributes.owner := by
  cases face <;> rfl

end FileTree.Face

/-- A file system without the node at a place. -/
def FileSystem.without (fs : FileSystem) (place : List String) : FileSystem :=
  (Change.remove place.dropLast (place.getLast?.getD "")).apply fs

section

variable {fs : FileSystem} {place : List String}

theorem append_getLast?_getD (h : place ≠ []) :
    place.dropLast ++ [place.getLast?.getD ""] = place := by
  rw [List.getLast?_eq_some_getLast h, Option.getD_some, List.dropLast_concat_getLast h]

theorem eq_or_prefix_dropLast {place other : List String} (h : place <+: other) (hne : place ≠ []) :
    place = other ∨ place <+: other.dropLast := by
  have hother : other ≠ [] := fun hnil => hne (List.prefix_nil.1 (hnil ▸ h))
  rw [← List.dropLast_concat_getLast hother, List.prefix_concat_iff,
    List.dropLast_concat_getLast hother] at h
  exact h

/-- What is seen when a node has been taken away. -/
theorem faceAt_without (hthere : (fs.faceAt place).isSome) (hne : place ≠ []) (other : List String) :
    (fs.without place).faceAt other =
      if place <+: other then none
      else (fs.faceAt other).map (Face.shed fs.now fun name => other ++ [name] == place) := by
  have hplace := append_getLast?_getD hne
  have hfits : Fits fs (.remove place.dropLast (place.getLast?.getD "")) := by
    rw [Fits, hplace]
    simpa [FileSystem.faceAt] using hthere
  rw [FileSystem.without, faceAt_remove hfits, hplace]
  by_cases hother : other = place.dropLast
  · have hbeside : ¬ place <+: other := by
      intro habove
      have hlength := habove.length_le
      rw [hother, List.length_dropLast] at hlength
      have := List.length_pos_iff.2 hne
      omega
    rw [if_pos hother, if_neg hbeside, ← hother]
    obtain ⟨a, es, hdir⟩ := FileSystem.exists_directory_of_any
      (any_isDirectory_of_isSome_append hfits)
    rw [← hother] at hdir hplace
    have hmem : place.getLast?.getD "" ∈ Entries.names es := by
      rw [Entries.mem_names_iff, ← Edit.find?_entry hdir, hplace]
      simpa [FileSystem.faceAt] using hthere
    have hgone : (fun name => other ++ [name] == place) = (· == place.getLast?.getD "") := by
      funext name
      rw [Bool.eq_iff_iff, beq_iff_eq, beq_iff_eq]
      constructor
      · intro heq
        simpa using heq.trans hplace.symm
      · rintro rfl
        exact hplace
    have hany : (Entries.names es).any (· == place.getLast?.getD "") = true :=
      List.any_eq_true.2 ⟨_, hmem, by simp⟩
    rw [hgone, FileSystem.faceAt, Node.faceAt, hdir]
    simp only [Option.map_some, Node.face_directory, Face.mapNames, Face.shed, hany, if_true]
    congr 3
    funext name
    simp [Bool.beq_eq_decide_eq]
  · rw [if_neg hother]
    have hnone : ∀ name, (other ++ [name] == place) = false := by
      intro name
      rw [beq_eq_false_iff_ne]
      rintro rfl
      simp at hother
    have hsame : Face.shed fs.now (fun name => other ++ [name] == place) = id := funext fun face =>
      Face.shed_of_not_any (List.any_eq_false.2 fun name _ => by simp [hnone]) fs.now
    rw [hsame, Option.map_id, id]

@[simp]
theorem now_without (fs : FileSystem) (place : List String) : (fs.without place).now = fs.now :=
  FileSystem.now_apply fs _

end

end Shedding

end PracticeShell
