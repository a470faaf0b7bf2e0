import PracticeShell.Proofs.Tree.Face

/-!
# Changes of a file system

All that an operation can do to a file system is a `Change`: make a file or an empty directory, fill
a file, mark a node with other attributes, remove a node with all that is below it, or move one.
`Fits` says when a change can be made, and `faceAt_make`, `faceAt_fill`, `faceAt_mark`,
`faceAt_remove` and `faceAt_move` what is seen after it at each place.
-/

namespace PracticeShell.FileTree

/-- A change of a file system. -/
inductive Change
  /-- A node without entries is made in a directory. -/
  | make (parent : List String) (name : String) (node : Node)
  /-- The contents of a file are replaced. -/
  | fill (place : List String) (contents : ByteArray)
  /-- The attributes of a node are changed. -/
  | mark (place : List String) (f : Attributes → Attributes)
  /-- A node is removed from a directory. -/
  | remove (parent : List String) (name : String)
  /-- A node is moved from a directory to another. -/
  | move (parent : List String) (name : String) (newParent : List String) (newName : String)

namespace Change

/-- A node with other contents, if it is a file. -/
def fillNode (now : Int) (contents : ByteArray) : Node → Node
  | .file a _ => .file { a with modified := now } contents
  | node => node

/-- The file system after a change. -/
def apply (fs : FileSystem) : Change → FileSystem
  | make parent name node => fs.modifyEntries parent (Entries.put name node)
  | fill place contents => fs.modifyAt place (fillNode fs.now contents)
  | mark place f => fs.modifyAt place (Node.mapAttributes f)
  | remove parent name => fs.modifyEntries parent (Entries.erase · name)
  | move parent name newParent newName =>
    match fs.root.find? (parent ++ [name]) with
    | none => fs
    | some node =>
      (fs.modifyEntries parent (Entries.erase · name)).modifyEntries newParent
        (Entries.put newName node)

/-- Whether a node can take the place of what may be there: a file that of a file, a directory that
of an empty directory. -/
def CanReplace (node : Node) : Option Node → Prop
  | none => True
  | some there => there.isDirectory = node.isDirectory ∧ there.entries = []

/-- When a change can be made. -/
def Fits (fs : FileSystem) : Change → Prop
  | make parent name node =>
    (fs.root.find? parent).any (·.isDirectory) ∧ fs.root.find? (parent ++ [name]) = none ∧
      node.entries = []
  | fill place _ => (fs.root.find? place).any (!·.isDirectory)
  | mark place _ => (fs.root.find? place).isSome
  | remove parent name => (fs.root.find? (parent ++ [name])).isSome
  | move parent name newParent newName =>
    (fs.root.find? newParent).any (·.isDirectory) ∧
      ¬ parent ++ [name] <+: newParent ++ [newName] ∧
      ∃ node, fs.root.find? (parent ++ [name]) = some node ∧
        CanReplace node (fs.root.find? (newParent ++ [newName]))

end Change

end PracticeShell.FileTree

namespace PracticeShell.FileSystem

open FileTree

/-- A directory with other entries, stamped with the time. -/
def stampEntries (now : Int) (f : Entries → Entries) : Node → Node
  | .directory a es => .directory { a with modified := now } (f es)
  | node => node

theorem isDirectory_stampEntries (now : Int) (f : Entries → Entries) (node : Node) :
    (stampEntries now f node).isDirectory = node.isDirectory := by
  cases node <;> rfl

theorem modifyEntries_eq (fs : FileSystem) (place : List String) (f : Entries → Entries) :
    fs.modifyEntries place f = fs.modifyAt place (stampEntries fs.now f) := by
  unfold modifyEntries stampEntries
  congr 1

theorem root_modifyEntries (fs : FileSystem) (place : List String) (f : Entries → Entries) :
    (fs.modifyEntries place f).root = fs.root.modify (stampEntries fs.now f) place := by
  rw [modifyEntries_eq, root_modifyAt fs place (isDirectory_stampEntries fs.now f)]

@[simp]
theorem now_modifyAt (fs : FileSystem) (place : List String) (f : Node → Node) :
    (fs.modifyAt place f).now = fs.now := by
  unfold modifyAt setRoot
  split <;> rfl

@[simp]
theorem now_modifyEntries (fs : FileSystem) (place : List String) (f : Entries → Entries) :
    (fs.modifyEntries place f).now = fs.now :=
  now_modifyAt fs place _

/-- No change takes time. -/
theorem now_apply (fs : FileSystem) (c : Change) : (c.apply fs).now = fs.now := by
  cases c with
  | make parent name node => exact now_modifyEntries _ _ _
  | fill place contents => exact now_modifyAt _ _ _
  | mark place f => exact now_modifyAt _ _ _
  | remove parent name => exact now_modifyEntries _ _ _
  | move parent name newParent newName =>
      unfold Change.apply
      dsimp only
      split
      · rfl
      · rw [now_modifyEntries, now_modifyEntries]

/-- Other entries in one directory are seen there and below, nowhere else. -/
theorem faceAt_modifyEntries_beside (fs : FileSystem) {place other : List String}
    (f : Entries → Entries) (h : ¬ place <+: other) :
    (fs.modifyEntries place f).faceAt other = fs.faceAt other := by
  rw [faceAt, root_modifyEntries, Node.faceAt_modify_beside _ h, faceAt]

/-- What is seen of the directory whose entries are changed. -/
theorem faceAt_modifyEntries_self (fs : FileSystem) (place : List String) {f : Entries → Entries}
    {g : List String → List String} (h : ∀ es, Entries.names (f es) = g (Entries.names es)) :
    (fs.modifyEntries place f).faceAt place = (fs.faceAt place).map (Face.mapNames fs.now g) := by
  rw [faceAt, root_modifyEntries, Node.faceAt_modify_self, faceAt, Node.faceAt]
  cases fs.root.find? place with
  | none => rfl
  | some node =>
      cases node with
      | file => rfl
      | directory a es => simp [stampEntries, Face.mapNames, h]

/-- What is seen below a directory whose entries are changed. -/
theorem faceAt_modifyEntries_below (fs : FileSystem) {place : List String} {a : Attributes}
    {es : Entries} (f : Entries → Entries) (name : String) (below : List String)
    (h : fs.root.find? place = some (.directory a es)) :
    (fs.modifyEntries place f).faceAt (place ++ name :: below) =
      (Entries.get? (f es) name).bind (Node.faceAt below) := by
  rw [faceAt, root_modifyEntries, Node.faceAt_modify, h]
  simp only [Option.bind_some, stampEntries, Node.faceAt, Node.find?_cons_directory,
    Option.map_bind]
  rfl

theorem faceAt_below_directory {fs : FileSystem} {place : List String} {a : Attributes}
    {es : Entries} (name : String) (below : List String)
    (h : fs.root.find? place = some (.directory a es)) :
    fs.faceAt (place ++ name :: below) = (Entries.get? es name).bind (Node.faceAt below) := by
  rw [faceAt, Node.faceAt_append, h]
  simp only [Option.bind_some, Node.faceAt, Node.find?_cons_directory, Option.map_bind]
  rfl

theorem any_isDirectory_faceAt (fs : FileSystem) (place : List String) :
    (fs.faceAt place).any (·.isDirectory) = (fs.root.find? place).any (·.isDirectory) := by
  simp [faceAt, Node.faceAt, Option.any_map]

theorem exists_directory_of_any {fs : FileSystem} {place : List String}
    (h : (fs.root.find? place).any (·.isDirectory)) :
    ∃ a es, fs.root.find? place = some (.directory a es) := by
  obtain ⟨node, hnode, hdir⟩ := (Option.any_eq_true _ _).1 h
  cases node with
  | file => exact absurd hdir (by simp [Node.isDirectory])
  | directory a es => exact ⟨a, es, hnode⟩

section

variable {fs : FileSystem} {parent : List String}

/-- What is seen at and below an entry that is put into a directory. -/
theorem faceAt_put_below (h : (fs.root.find? parent).any (·.isDirectory)) (name : String)
    (node : Node) (below : List String) :
    (fs.modifyEntries parent (Entries.put name node)).faceAt (parent ++ name :: below) =
      node.faceAt below := by
  obtain ⟨a, es, hdir⟩ := exists_directory_of_any h
  rw [faceAt_modifyEntries_below fs _ name below hdir, Entries.get?_put, if_pos rfl]
  rfl

/-- What is seen of a directory that an entry is put into. -/
theorem faceAt_put_self (fs : FileSystem) (parent : List String) (name : String) (node : Node) :
    (fs.modifyEntries parent (Entries.put name node)).faceAt parent =
      (fs.faceAt parent).map (Face.mapNames fs.now (Face.addName name)) :=
  faceAt_modifyEntries_self fs parent fun es => Entries.names_put es name node

/-- What is seen elsewhere after an entry is put into a directory. -/
theorem faceAt_put_beside (h : (fs.root.find? parent).any (·.isDirectory)) {name : String}
    (node : Node) {place : List String} (hne : place ≠ parent)
    (hbelow : ¬ parent ++ [name] <+: place) :
    (fs.modifyEntries parent (Entries.put name node)).faceAt place = fs.faceAt place := by
  by_cases hprefix : parent <+: place
  · obtain ⟨below, rfl⟩ := hprefix
    cases below with
    | nil => simp at hne
    | cons other below =>
        obtain ⟨a, es, hdir⟩ := exists_directory_of_any h
        have hother : other ≠ name := by
          rintro rfl
          exact hbelow (by simp)
        rw [faceAt_modifyEntries_below fs _ other below hdir, Entries.get?_put, if_neg hother,
          faceAt_below_directory other below hdir]
  · exact faceAt_modifyEntries_beside fs _ hprefix

/-- What is seen after an entry is taken out of a directory. -/
theorem faceAt_erase (h : (fs.root.find? parent).any (·.isDirectory)) (name : String)
    (place : List String) :
    (fs.modifyEntries parent (Entries.erase · name)).faceAt place =
      if place = parent then (fs.faceAt parent).map (Face.mapNames fs.now (·.filter (· ≠ name)))
      else if parent ++ [name] <+: place then none else fs.faceAt place := by
  split
  · rename_i heq
    rw [heq, faceAt_modifyEntries_self fs parent fun es => Entries.names_erase es name]
  · rename_i hne
    by_cases hprefix : parent <+: place
    · obtain ⟨below, rfl⟩ := hprefix
      cases below with
      | nil => simp at hne
      | cons other below =>
          obtain ⟨a, es, hdir⟩ := exists_directory_of_any h
          rw [faceAt_modifyEntries_below fs _ other below hdir, Entries.get?_erase,
            faceAt_below_directory other below hdir]
          by_cases hother : other = name
          · subst hother
            simp
          · simp [hother, Ne.symm hother]
    · have hbelow : ¬ parent ++ [name] <+: place := fun h =>
        hprefix ((List.prefix_append parent [name]).trans h)
      rw [if_neg hbelow, faceAt_modifyEntries_beside fs _ hprefix]

/-- A directory stays one if it is not below the entry that is taken out. -/
theorem any_isDirectory_erase (h : (fs.root.find? parent).any (·.isDirectory)) {name : String}
    {place : List String} (hbeside : ¬ parent ++ [name] <+: place) :
    ((fs.modifyEntries parent (Entries.erase · name)).root.find? place).any (·.isDirectory) =
      (fs.root.find? place).any (·.isDirectory) := by
  rw [← any_isDirectory_faceAt, ← any_isDirectory_faceAt, faceAt_erase h, if_neg hbeside]
  split
  · rename_i heq
    simp [heq, Option.any_map]
  · rfl

end

end PracticeShell.FileSystem

namespace PracticeShell.FileTree.Change

open FileSystem

variable {fs : FileSystem}

theorem not_append_prefix_self (place : List String) (name : String) :
    ¬ place ++ [name] <+: place := fun h =>
  absurd h.length_le (by simp)

/-- What is seen after a node is made. -/
theorem faceAt_make {parent : List String} {name : String} {node : Node}
    (h : Fits fs (make parent name node)) (place : List String) :
    (apply fs (make parent name node)).faceAt place =
      if place = parent then (fs.faceAt parent).map (Face.mapNames fs.now (Face.addName name))
      else if place = parent ++ [name] then some node.face else fs.faceAt place := by
  obtain ⟨hdir, hnew, hleaf⟩ := h
  split
  · rename_i heq
    rw [heq, apply, faceAt_put_self]
  · rename_i hne
    by_cases hbelow : parent ++ [name] <+: place
    · obtain ⟨below, rfl⟩ := hbelow
      have hbefore : fs.faceAt (parent ++ [name] ++ below) = none := by
        rw [faceAt, Node.faceAt_append, hnew]
        rfl
      rw [hbefore, List.append_assoc, List.singleton_append, apply, faceAt_put_below hdir,
        Node.faceAt, Node.find?_of_entries_eq_nil hleaf]
      cases below <;> simp
    · have hself : place ≠ parent ++ [name] := fun heq => hbelow (heq ▸ List.prefix_rfl)
      rw [if_neg hself, apply, faceAt_put_beside hdir node hne hbelow]

/-- What is seen after a file is filled. -/
theorem faceAt_fill {file : List String} {contents : ByteArray}
    (h : Fits fs (fill file contents)) (place : List String) :
    (apply fs (fill file contents)).faceAt place =
      if place = file then (fs.faceAt file).map fun face =>
        .file { face.attributes with modified := fs.now } contents
      else fs.faceAt place := by
  have hkind : ∀ node, (fillNode fs.now contents node).isDirectory = node.isDirectory := by
    intro node
    cases node <;> rfl
  obtain ⟨node, hnode, hfile⟩ := (Option.any_eq_true _ _).1 h
  cases node with
  | directory => simp [Node.isDirectory] at hfile
  | file a bytes =>
      rw [apply, faceAt, root_modifyAt fs file hkind]
      split
      · rename_i heq
        rw [heq, Node.faceAt_modify_self, faceAt, Node.faceAt, hnode]
        rfl
      · rename_i hne
        by_cases hbelow : file <+: place
        · obtain ⟨below, rfl⟩ := hbelow
          rw [Node.faceAt_modify, faceAt, Node.faceAt_append, hnode]
          cases below with
          | nil => simp at hne
          | cons name rest => rfl
        · exact Node.faceAt_modify_beside _ hbelow fs.root

/-- What is seen after a node is marked. -/
theorem faceAt_mark (fs : FileSystem) (marked : List String) (f : Attributes → Attributes)
    (place : List String) :
    (apply fs (mark marked f)).faceAt place =
      if place = marked then (fs.faceAt marked).map (Face.mapAttributes f)
      else fs.faceAt place := by
  have hkind : ∀ node, (Node.mapAttributes f node).isDirectory = node.isDirectory := by
    intro node
    cases node <;> rfl
  rw [apply, faceAt, root_modifyAt fs marked hkind]
  split
  · rename_i heq
    rw [heq, Node.faceAt_modify_self, faceAt, Node.faceAt, Option.map_map]
    congr 1
    funext node
    exact Node.face_mapAttributes f node
  · rename_i hne
    by_cases hbelow : marked <+: place
    · obtain ⟨below, rfl⟩ := hbelow
      rw [Node.faceAt_modify, faceAt, Node.faceAt_append]
      congr 1
      funext node
      cases below with
      | nil => simp at hne
      | cons name rest => cases node <;> rfl
    · exact Node.faceAt_modify_beside _ hbelow fs.root

theorem any_isDirectory_of_isSome_append {place : List String} {name : String}
    (h : (fs.root.find? (place ++ [name])).isSome) :
    (fs.root.find? place).any (·.isDirectory) := by
  rw [Node.find?_append] at h
  cases hnode : fs.root.find? place with
  | none => simp [hnode] at h
  | some node =>
      cases node with
      | file => simp [hnode, Node.find?] at h
      | directory => rfl

/-- What is seen after a node is removed. -/
theorem faceAt_remove {parent : List String} {name : String}
    (h : Fits fs (remove parent name)) (place : List String) :
    (apply fs (remove parent name)).faceAt place =
      if place = parent then (fs.faceAt parent).map (Face.mapNames fs.now (·.filter (· ≠ name)))
      else if parent ++ [name] <+: place then none else fs.faceAt place :=
  faceAt_erase (any_isDirectory_of_isSome_append h) name place

/-- What is seen after a node is moved. -/
theorem faceAt_move {parent newParent : List String} {name newName : String}
    (h : Fits fs (move parent name newParent newName)) (place : List String) :
    (apply fs (move parent name newParent newName)).faceAt place =
      if newParent ++ [newName] <+: place then
        fs.faceAt (parent ++ name :: place.drop (newParent.length + 1))
      else if parent ++ [name] <+: place then none
      else
        ((fs.faceAt place).map fun face =>
          if place = parent then face.mapNames fs.now (·.filter (· ≠ name)) else face).map fun face =>
          if place = newParent then face.mapNames fs.now (Face.addName newName) else face := by
  obtain ⟨hdir, hinside, node, hnode, -⟩ := h
  have hparent : (fs.root.find? parent).any (·.isDirectory) :=
    any_isDirectory_of_isSome_append (by rw [hnode]; rfl)
  have happly : apply fs (move parent name newParent newName) =
      (fs.modifyEntries parent (Entries.erase · name)).modifyEntries newParent
        (Entries.put newName node) := by
    simp only [apply, hnode]
  have hbeside : ¬ parent ++ [name] <+: newParent := fun h =>
    hinside (h.trans (List.prefix_append _ _))
  have hkept : ((fs.modifyEntries parent (Entries.erase · name)).root.find? newParent).any
      (·.isDirectory) := by rwa [any_isDirectory_erase hparent hbeside]
  rw [happly]
  split
  · rename_i hbelow
    obtain ⟨below, rfl⟩ := hbelow
    rw [List.append_assoc, List.singleton_append, faceAt_put_below hkept]
    have hdrop : (newParent ++ newName :: below).drop (newParent.length + 1) = below := by
      simp
    have hsource : parent ++ name :: below = parent ++ [name] ++ below := by simp
    rw [hdrop, hsource, faceAt, Node.faceAt_append, hnode]
    rfl
  · rename_i hbelow
    by_cases hself : place = newParent
    · subst hself
      rw [faceAt_put_self, faceAt_erase hparent, if_neg hbeside, if_neg hbeside]
      split
      · rename_i heq
        simp [heq]
      · simp
    · rw [faceAt_put_beside hkept node hself hbelow, faceAt_erase hparent]
      split
      · rename_i heq
        subst heq
        simp [not_append_prefix_self place name, Function.comp_def]
      · split
        · rfl
        · simp

/-- Whether a change is seen at a place where something was before. -/
def Touches : Change → List String → Prop
  | make parent _ _, place => place = parent
  | fill file _, place => place = file
  | mark marked _, place => place = marked
  | remove parent name, place => place = parent ∨ parent ++ [name] <+: place
  | move parent name newParent newName, place =>
    place = parent ∨ parent ++ [name] <+: place ∨ place = newParent ∨
      place = newParent ++ [newName]

/-- What a change does not touch is seen as before. -/
theorem faceAt_of_not_touches {c : Change} (h : Fits fs c) {place : List String} {face : Face}
    (hface : fs.faceAt place = some face) (htouches : ¬ c.Touches place) :
    (apply fs c).faceAt place = some face := by
  cases c with
  | make parent name node =>
      have hnew : place ≠ parent ++ [name] := by
        rintro rfl
        rw [faceAt, Node.faceAt, h.2.1] at hface
        simp at hface
      have hparent : place ≠ parent := htouches
      rw [faceAt_make h, if_neg hparent, if_neg hnew, hface]
  | fill file contents =>
      have hfile : place ≠ file := htouches
      rw [faceAt_fill h, if_neg hfile, hface]
  | mark marked f =>
      have hmarked : place ≠ marked := htouches
      rw [faceAt_mark, if_neg hmarked, hface]
  | remove parent name =>
      obtain ⟨hparent, hbelow⟩ := not_or.1 htouches
      rw [faceAt_remove h, if_neg hparent, if_neg hbelow, hface]
  | move parent name newParent newName =>
      obtain ⟨hparent, hrest⟩ := not_or.1 htouches
      obtain ⟨hsource, hrest⟩ := not_or.1 hrest
      obtain ⟨hnewParent, htarget⟩ := not_or.1 hrest
      have hbelow : ¬ newParent ++ [newName] <+: place := by
        rintro ⟨below, rfl⟩
        obtain ⟨-, -, node, -, hreplace⟩ := h
        rw [faceAt, Node.faceAt_append] at hface
        obtain ⟨there, hthere, hbelow⟩ := Option.bind_eq_some_iff.1 hface
        rw [hthere] at hreplace
        rw [Node.faceAt, Node.find?_of_entries_eq_nil hreplace.2] at hbelow
        cases below with
        | nil => simp at htarget
        | cons name rest => simp at hbelow
      rw [faceAt_move h, if_neg hbelow, if_neg hsource, hface]
      simp [hparent, hnewParent]

end PracticeShell.FileTree.Change
