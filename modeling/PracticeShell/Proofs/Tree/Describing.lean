import PracticeShell.Proofs.Places
import PracticeShell.Proofs.Tree.Attaching
import PracticeShell.Proofs.Tree.Structure
import PracticeShell.Proofs.Tree.Walk

/-!
# Described trees

`Structure.described?` reads a well-formed description as sketches of its nodes, and `Sketch.listing`
goes through these, each directory before what it holds, in the order of the description. A well-formed
description gives a file system, and a walk through this meets what is sketched and nothing else
(`FileSystem.ofStructure_lists_description`).

The file system is made node by node, each at a path that is written and read again. So the invariant is
that what has been described so far is attached to the entries of the directory at this path
(`Structure.run_addNodes`).
-/

namespace PracticeShell

open FileTree Run

/-- What a description says of a node. What it leaves to the defaults is missing. -/
inductive Sketch
  | file (owner : Option String) (permissions : Option Permissions) (text : String)
  | directory (owner : Option String) (permissions : Option Permissions)
      (children : List (String × Sketch))

namespace Sketch

/-- The owner that is named. -/
def owner : Sketch → Option String
  | file owner .. => owner
  | directory owner .. => owner

/-- The permissions that are given. -/
def permissions : Sketch → Option Permissions
  | file _ permissions _ => permissions
  | directory _ permissions _ => permissions

/-- Whether the node is a directory. -/
def isDirectory : Sketch → Bool
  | file .. => false
  | directory .. => true

/-- The size of the node in bytes. -/
def size : Sketch → Nat
  | file _ _ text => (Text.Utf8.encode text).size
  | directory .. => Node.directorySize

/-- The permissions of nodes that are given none. -/
def defaultPermissions (sketch : Sketch) : Permissions :=
  if sketch.isDirectory then Permissions.newDirectory else Permissions.newFile

/-- What is to be known of the node at a place. -/
def stat (defaultOwner : String) (now : Int) (place : List String) (sketch : Sketch) : Stat where
  path := Path.ofSegments place
  name := place.getLast?.getD "/"
  isDirectory := sketch.isDirectory
  permissions := sketch.permissions.getD sketch.defaultPermissions
  owner := sketch.owner.getD defaultOwner
  size := sketch.size
  modified := now

mutual

/-- A sketch and all below it, with the names that lead there from `place`. -/
def listing (place : List String) : Sketch → List (List String × Sketch)
  | file owner permissions text => [(place, file owner permissions text)]
  | directory owner permissions children =>
    (place, directory owner permissions children) :: listingAll place children

/-- What is sketched below the directory at `place`. -/
def listingAll (place : List String) : List (String × Sketch) → List (List String × Sketch)
  | [] => []
  | (name, sketch) :: rest => listing (place ++ [name]) sketch ++ listingAll place rest

end

/-- What a sketched node has besides its contents. -/
def attributes (defaultOwner : String) (now : Int) (sketch : Sketch) : Attributes :=
  ⟨sketch.owner.getD defaultOwner, sketch.permissions.getD sketch.defaultPermissions, now⟩

mutual

/-- The node that is sketched. -/
def node (defaultOwner : String) (now : Int) : Sketch → Node
  | file owner permissions text =>
    .file (attributes defaultOwner now (file owner permissions text)) (Text.Utf8.encode text)
  | directory owner permissions children =>
    .directory (attributes defaultOwner now (directory owner permissions children))
      (entries defaultOwner now children)

/-- The entries that are sketched. -/
def entries (defaultOwner : String) (now : Int) : List (String × Sketch) → List (String × Node)
  | [] => []
  | (name, sketch) :: rest =>
    (name, node defaultOwner now sketch) :: entries defaultOwner now rest

end

end Sketch

namespace Structure

/-- The owner that a node names: none if it is missing or counts as false. Another value than a text is
no owner. -/
def owner? (members : Json.Members) : Option (Option String) :=
  match members.lookup "owner" with
  | none => some none
  | some (.string name) => some (if name = "" then none else some name)
  | some other => if other.isTruthy then none else some none

/-- The permissions that a node gives, by a number or a valid text. -/
def permissions? (members : Json.Members) : Option (Option Permissions) :=
  match members.lookup "permissions" with
  | none => some none
  | some (.int mode) => some (some (Permissions.ofInt mode))
  | some (.string text) => (Permissions.read? text).map some
  | some _ => none

/-- Whether a node is a directory: what it says itself, or else whether it has children. -/
def isDirectory? (members : Json.Members) : Option Bool :=
  match members.lookup "type" with
  | none => some (members.lookup "children").isSome
  | some (.string "directory") => some true
  | some (.string "file") => some false
  | some _ => none

/-- The text of a file, empty if it is missing. -/
def text? (members : Json.Members) : Option String :=
  match members.lookup "content" with
  | none => some ""
  | some (.string text) => some text
  | some _ => none

mutual

/-- The sketch that a well-formed node gives. -/
def sketch? : Json → Option Sketch
  | .object members => do
    let owner ← owner? members
    let permissions ← permissions? members
    if ← isDirectory? members then return .directory owner permissions (← children? members)
    else return .file owner permissions (← text? members)
  | _ => none

/-- The sketches of the children that a directory names, none if what it names counts as false. -/
def children? : List (String × Json) → Option (List (String × Sketch))
  | [] => some []
  | (name, value) :: rest =>
    if name = "children" then
      match value with
      | .object children => sketches? children
      | other => if other.isTruthy then none else some []
    else children? rest

/-- The sketches of well-formed nodes under different names that can be met on the way to a place. -/
def sketches? : List (String × Json) → Option (List (String × Sketch))
  | [] => some []
  | (name, value) :: rest => do
    let sketch ← sketch? value
    let others ← sketches? rest
    if Path.IsSegment name ∧ name ∉ others.map (·.1) then return (name, sketch) :: others
    else none

end

/-- The sketch of the root that a well-formed description gives. What is in it is described under `root`,
or on the top level. -/
def described? : Json → Option Sketch
  | .null => some (.directory none none [])
  | .object members =>
    match (members.lookup "root").getD (.object members) with
    | .object nodes => (sketches? nodes).map (.directory none none)
    | _ => none
  | _ => none

end Structure

namespace Structure

variable {members : Json.Members} {owner : Option String} {permissions : Option Permissions}

/-- A node is owned by whom its sketch names. -/
theorem ownerOr_ownerOf (h : owner? members = some owner) (fs : FileSystem) :
    Edit.ownerOr (ownerOf members) fs = owner.getD fs.defaultOwner := by
  unfold owner? at h
  unfold ownerOf
  split at h
  · obtain rfl := Option.some.inj h
    rename_i hnone
    rw [hnone]
    rfl
  · obtain rfl := Option.some.inj h
    rename_i name hname
    rw [hname]
    by_cases hempty : name = ""
    · simp [hempty, Json.isTruthy, Edit.ownerOr]
    · simp [hempty, Json.isTruthy, Json.plainText, Edit.ownerOr]
  · rename_i hother
    rw [hother]
    split at h
    · cases h
    · obtain rfl := Option.some.inj h
      rename_i hfalsy
      simp [hfalsy, Edit.ownerOr]

/-- The permissions of a sketch are read as they are given. -/
theorem readPermissions_eq (h : permissions? members = some permissions) (default : Permissions) :
    readPermissions default (members.lookup "permissions") =
      .ok (permissions.getD default) := by
  unfold permissions? at h
  unfold readPermissions
  split at h
  · obtain rfl := Option.some.inj h
    rename_i hnone
    rw [hnone]
    rfl
  · obtain rfl := Option.some.inj h
    rename_i hmode
    rw [hmode]
    rfl
  · obtain ⟨given, hgiven, rfl⟩ := Option.map_eq_some_iff.1 h
    rename_i text htext
    rw [htext]
    dsimp only
    rw [hgiven]
    rfl
  · cases h

theorem kindOf_eq {kind : Bool} (h : isDirectory? members = some kind) :
    kindOf members = .string (if kind then "directory" else "file") := by
  unfold isDirectory? at h
  unfold kindOf
  split at h
  · obtain rfl := Option.some.inj h
    rename_i hnone
    rw [hnone]
  · obtain rfl := Option.some.inj h
    rename_i htype
    rw [htype]
    rfl
  · obtain rfl := Option.some.inj h
    rename_i htype
    rw [htype]
    rfl
  · cases h

theorem contentsOf_eq {text : String} (h : text? members = some text) :
    contentsOf members = Text.Utf8.encode text := by
  unfold text? at h
  unfold contentsOf
  split at h
  · obtain rfl := Option.some.inj h
    rename_i hnone
    rw [hnone]
    rfl
  · obtain rfl := Option.some.inj h
    rename_i htext
    rw [htext]
  · cases h

theorem hasTexts_file {text : String} (hkind : isDirectory? members = some false)
    (htext : text? members = some text) : hasTexts (.object members) = true := by
  have hkindOf : kindOf members = .string "file" := kindOf_eq hkind
  unfold text? at htext
  split at htext
  · rename_i hnone
    simp [hasTexts, hkindOf, hnone]
  · rename_i hcontent
    simp [hasTexts, hkindOf, hcontent]
  · cases htext

theorem of_sketch? {sketch : Sketch} (h : sketch? (.object members) = some sketch) :
    ∃ owner permissions, owner? members = some owner ∧ permissions? members = some permissions ∧
      ((isDirectory? members = some true ∧ ∃ children, children? members = some children ∧
          sketch = .directory owner permissions children) ∨
        isDirectory? members = some false ∧ ∃ text, text? members = some text ∧
          sketch = .file owner permissions text) := by
  simp only [sketch?, Option.bind_eq_bind, Option.bind_eq_some_iff] at h
  obtain ⟨owner, howner, permissions, hpermissions, kind, hkind, h⟩ := h
  refine ⟨owner, permissions, howner, hpermissions, ?_⟩
  cases kind with
  | true =>
      rw [if_pos rfl, Option.bind_eq_some_iff] at h
      obtain ⟨children, hchildren, hsketch⟩ := h
      exact .inl ⟨hkind, children, hchildren, (Option.some.inj hsketch).symm⟩
  | false =>
      rw [if_neg (by decide), Option.bind_eq_some_iff] at h
      obtain ⟨text, htext, hsketch⟩ := h
      exact .inr ⟨hkind, text, htext, (Option.some.inj hsketch).symm⟩

theorem of_sketches?_cons {name : String} {value : Json} {rest : List (String × Json)}
    {sketches : List (String × Sketch)} (h : sketches? ((name, value) :: rest) = some sketches) :
    ∃ sketch others, sketch? value = some sketch ∧ sketches? rest = some others ∧
      Path.IsSegment name ∧ name ∉ others.map (·.1) ∧ sketches = (name, sketch) :: others := by
  simp only [sketches?, Option.bind_eq_bind, Option.bind_eq_some_iff] at h
  obtain ⟨sketch, hsketch, others, hothers, h⟩ := h
  split at h
  · rename_i hname
    exact ⟨sketch, others, hsketch, hothers, hname.1, hname.2, (Option.some.inj h).symm⟩
  · cases h

section

variable {base name : String} {fs : FileSystem} {a : Attributes} {es : Entries}

/-- The place of a described node. -/
theorem segments_nodePath (base : String) (hname : Path.IsSegment name) :
    Path.segments (Path.trimSlashes base ++ "/" ++ name) = Path.segments base ++ [name] := by
  rw [Path.segments_append_name _ hname, Path.segments_trimSlashes]

/-- A well-formed file is attached to the directory that it is described in. -/
theorem run_addNode_file {text : String} (howner : owner? members = some owner)
    (hpermissions : permissions? members = some permissions)
    (hkind : isDirectory? members = some false) (htext : text? members = some text)
    (hdir : fs.root.find? (Path.segments base) = some (.directory a es))
    (hnow : a.modified = fs.now) (hname : Path.IsSegment name)
    (hnone : Entries.get? es name = none) : (addNode base name (.object members)).run fs =
      .ok () (fs.attach (Path.segments base)
        [(name, (Sketch.file owner permissions text).node fs.defaultOwner fs.now)]) := by
  have hmade := Edit.run_write (segments_nodePath base hname) hdir hnone (Text.Utf8.encode text)
    (ownerOf members) (permissions.getD Permissions.newFile)
  rw [FileSystem.modifyEntries_put hdir hnow hnone, ownerOr_ownerOf howner] at hmade
  have hkindOf : kindOf members = .string "file" := kindOf_eq hkind
  simp only [addNode, hkindOf, readPermissions_eq hpermissions, contentsOf_eq htext]
  exact run_edit_eq_ok_iff.2 hmade

/-- A well-formed directory is attached to the one that it is described in, if its children are attached
to it when it is new. -/
theorem run_addNode_directory {children : List (String × Sketch)}
    (howner : owner? members = some owner) (hpermissions : permissions? members = some permissions)
    (hkind : isDirectory? members = some true)
    (hdir : fs.root.find? (Path.segments base) = some (.directory a es))
    (hnow : a.modified = fs.now) (hname : Path.IsSegment name)
    (hnone : Entries.get? es name = none)
    (hbelow : ∀ {path : String} {t : FileSystem} {b : Attributes},
      t.root.find? (Path.segments path) = some (.directory b []) → b.modified = t.now →
      (addChildren path members).run t = .ok () (t.attach (Path.segments path)
        (Sketch.entries t.defaultOwner t.now children))) :
    (addNode base name (.object members)).run fs =
      .ok () (fs.attach (Path.segments base)
        [(name, (Sketch.directory owner permissions children).node fs.defaultOwner fs.now)]) := by
  have hpath := segments_nodePath base hname
  have hmade := Edit.run_makeDirectory hpath hdir hnone
    (permissions.getD Permissions.newDirectory) (ownerOf members)
  rw [Change.apply, FileSystem.modifyEntries_put hdir hnow hnone, ownerOr_ownerOf howner] at hmade
  have hnew := FileSystem.find?_attach_entry hdir hnone
    (.directory ⟨owner.getD fs.defaultOwner, permissions.getD Permissions.newDirectory, fs.now⟩ [])
  rw [← hpath] at hnew
  have hkindOf : kindOf members = .string "directory" := kindOf_eq hkind
  simp only [addNode, hkindOf, readPermissions_eq hpermissions]
  rw [run_bind_of_ok (run_edit_eq_ok_iff.2 hmade), hbelow hnew (FileSystem.now_attach fs _ _).symm, hpath,
    FileSystem.attach_below hdir hnone, FileSystem.now_attach, FileSystem.defaultOwner_attach]
  rfl

end

mutual

/-- A well-formed node is attached to the directory that it is described in. -/
theorem run_addNode {base name : String} {value : Json} {sketch : Sketch} {fs : FileSystem}
    {a : Attributes} {es : Entries} (hsketch : sketch? value = some sketch)
    (hdir : fs.root.find? (Path.segments base) = some (.directory a es))
    (hnow : a.modified = fs.now) (hname : Path.IsSegment name)
    (hnone : Entries.get? es name = none) : (addNode base name value).run fs =
      .ok () (fs.attach (Path.segments base)
        [(name, sketch.node fs.defaultOwner fs.now)]) := by
  cases value with
  | object members =>
      obtain ⟨owner, permissions, howner, hpermissions, hkinds⟩ := of_sketch? hsketch
      rcases hkinds with ⟨hkind, children, hchildren, rfl⟩ | ⟨hkind, text, htext, rfl⟩
      · exact run_addNode_directory howner hpermissions hkind hdir hnow hname hnone
          fun hnew hstamp => run_addChildren hchildren hnew hstamp
      · exact run_addNode_file howner hpermissions hkind htext hdir hnow hname hnone
  | _ => simp [sketch?] at hsketch

/-- Well-formed children are attached to a new directory. -/
theorem run_addChildren {path : String} {members : List (String × Json)}
    {children : List (String × Sketch)} {fs : FileSystem} {a : Attributes}
    (hchildren : children? members = some children)
    (hdir : fs.root.find? (Path.segments path) = some (.directory a []))
    (hnow : a.modified = fs.now) : (addChildren path members).run fs =
      .ok () (fs.attach (Path.segments path)
        (Sketch.entries fs.defaultOwner fs.now children)) := by
  cases members with
  | nil =>
      obtain rfl := Option.some.inj hchildren
      rw [Sketch.entries, FileSystem.attach_nil hdir]
      rfl
  | cons member rest =>
      obtain ⟨name, value⟩ := member
      cases value with
      | object nodes =>
          simp only [children?, addChildren] at hchildren ⊢
          by_cases hname : name = "children"
          · rw [if_pos hname] at hchildren ⊢
            exact run_addNodes hchildren hdir hnow fun _ _ => rfl
          · rw [if_neg hname] at hchildren ⊢
            exact run_addChildren hchildren hdir hnow
      | _ =>
          simp only [children?, addChildren] at hchildren ⊢
          by_cases hname : name = "children"
          · rw [if_pos hname] at hchildren ⊢
            split at hchildren
            · cases hchildren
            · obtain rfl := Option.some.inj hchildren
              rw [Sketch.entries, FileSystem.attach_nil hdir, if_neg (by assumption)]
              rfl
          · rw [if_neg hname] at hchildren ⊢
            exact run_addChildren hchildren hdir hnow

/-- Well-formed nodes are attached to a directory that has none of their names. -/
theorem run_addNodes {base : String} {nodes : List (String × Json)}
    {sketches : List (String × Sketch)} {fs : FileSystem} {a : Attributes} {es : Entries}
    (hsketches : sketches? nodes = some sketches)
    (hdir : fs.root.find? (Path.segments base) = some (.directory a es))
    (hnow : a.modified = fs.now)
    (hnew : ∀ name ∈ sketches.map (·.1), Entries.get? es name = none) :
    (addNodes base nodes).run fs =
      .ok () (fs.attach (Path.segments base)
        (Sketch.entries fs.defaultOwner fs.now sketches)) := by
  cases nodes with
  | nil =>
      obtain rfl := Option.some.inj hsketches
      rw [Sketch.entries, FileSystem.attach_nil hdir]
      rfl
  | cons entry rest =>
      obtain ⟨name, value⟩ := entry
      obtain ⟨sketch, others, hsketch, hothers, hname, hdistinct, rfl⟩ := of_sketches?_cons hsketches
      have hfirst := run_addNode hsketch hdir hnow hname (hnew name (by simp))
      have hnext := FileSystem.find?_attach hdir
        [(name, sketch.node fs.defaultOwner fs.now)]
      rw [addNodes, run_bind_of_ok hfirst, run_addNodes hothers hnext (by simpa using hnow),
        FileSystem.attach_attach, FileSystem.now_attach, FileSystem.defaultOwner_attach,
        Sketch.entries, List.singleton_append]
      intro other hother
      have hne : other ≠ name := fun heq => hdistinct (heq ▸ hother)
      rw [Entries.get?_append_of_ne hne, hnew other (List.mem_cons_of_mem _ hother)]

end

mutual

/-- The contents of a well-formed node are texts. -/
theorem hasTexts_of_sketch? {value : Json} {sketch : Sketch} (h : sketch? value = some sketch) :
    hasTexts value = true := by
  cases value with
  | object members =>
      obtain ⟨owner, permissions, -, -, hkinds⟩ := of_sketch? h
      rcases hkinds with ⟨hkind, children, hchildren, -⟩ | ⟨hkind, text, htext, -⟩
      · have hkindOf : kindOf members = .string "directory" := kindOf_eq hkind
        rw [hasTexts, hkindOf]
        exact childrenHaveTexts_of_children? hchildren
      · exact hasTexts_file hkind htext
  | _ => simp [sketch?] at h

/-- The contents of well-formed children are texts. -/
theorem childrenHaveTexts_of_children? {members : List (String × Json)}
    {children : List (String × Sketch)} (h : children? members = some children) :
    childrenHaveTexts members = true := by
  cases members with
  | nil => rfl
  | cons member rest =>
      obtain ⟨name, value⟩ := member
      cases value with
      | object nodes =>
          simp only [children?, childrenHaveTexts] at h ⊢
          by_cases hname : name = "children"
          · rw [if_pos hname] at h ⊢
            exact haveTexts_of_sketches? h
          · rw [if_neg hname] at h ⊢
            exact childrenHaveTexts_of_children? h
      | _ =>
          simp only [children?, childrenHaveTexts] at h ⊢
          by_cases hname : name = "children"
          · exact if_pos hname
          · rw [if_neg hname] at h ⊢
            exact childrenHaveTexts_of_children? h

/-- The contents of well-formed nodes are texts. -/
theorem haveTexts_of_sketches? {nodes : List (String × Json)} {sketches : List (String × Sketch)}
    (h : sketches? nodes = some sketches) : haveTexts nodes = true := by
  cases nodes with
  | nil => rfl
  | cons entry rest =>
      obtain ⟨name, value⟩ := entry
      obtain ⟨sketch, others, hsketch, hothers, -, -, -⟩ := of_sketches?_cons h
      rw [haveTexts, hasTexts_of_sketch? hsketch, haveTexts_of_sketches? hothers]
      rfl

end

end Structure

namespace Sketch

mutual

/-- A walk meets what is listed. -/
theorem walk_node (defaultOwner : String) (now : Int) (place : List String) (sketch : Sketch) :
    Node.walk place (sketch.node defaultOwner now) =
      (sketch.listing place).map fun met => (met.1, met.2.node defaultOwner now) := by
  cases sketch with
  | file => rfl
  | directory owner permissions children =>
      rw [node, Node.walk, walkEntries_entries, listing, List.map_cons]
      rfl

theorem walkEntries_entries (defaultOwner : String) (now : Int) (place : List String)
    (children : List (String × Sketch)) :
    Node.walkEntries place (entries defaultOwner now children) =
      (listingAll place children).map fun met => (met.1, met.2.node defaultOwner now) := by
  cases children with
  | nil => rfl
  | cons child rest =>
      obtain ⟨name, sketch⟩ := child
      rw [entries, Node.walkEntries, walk_node, walkEntries_entries, listingAll, List.map_append]

end

/-- What is known of a sketched node under the names that lead to it. -/
theorem statOf_node {fs : FileSystem} (hroot : fs.name = "") (defaultOwner : String) (now : Int)
    {place : List String} (hplace : ∀ name ∈ place, Path.IsSegment name) (sketch : Sketch) :
    fs.statOf place (sketch.node defaultOwner now) = sketch.stat defaultOwner now place := by
  have hname : (if place.getLast?.getD "" = "" then "/" else place.getLast?.getD "") =
      place.getLast?.getD "/" := by
    cases hlast : place.getLast? with
    | none => rfl
    | some name =>
        have hne : name ≠ "" := (hplace name (List.mem_of_getLast? hlast)).1
        rw [Option.getD_some, if_neg hne, Option.getD_some]
  cases sketch <;> simp only [FileSystem.statOf, hroot, hname, node, stat] <;> rfl

/-- What is listed is found. -/
theorem find?_of_mem_listing {defaultOwner : String} {now : Int} {top sketch : Sketch}
    (htop : (top.node defaultOwner now).IsProper) {place : List String}
    (h : (place, sketch) ∈ top.listing []) :
    (top.node defaultOwner now).find? place = some (sketch.node defaultOwner now) := by
  have hmet : (place, sketch.node defaultOwner now) ∈ (top.node defaultOwner now).walk [] := by
    rw [walk_node]
    exact List.mem_map.2 ⟨_, h, rfl⟩
  obtain ⟨below, rfl, hfind⟩ := Node.find?_of_mem_walk htop hmet
  exact hfind

end Sketch

namespace FileSystem

variable {description : Json} {sketch : Sketch}

/-- A well-formed description gives the file system that is sketched. -/
theorem ofStructure_eq (h : Structure.described? description = some sketch)
    (defaultOwner : String) (now : Int) : ∃ fs, ofStructure description defaultOwner now = .ok fs ∧
      fs.name = "" ∧ fs.root = sketch.node defaultOwner now := by
  cases description with
  | null =>
      obtain rfl := Option.some.inj h
      exact ⟨_, rfl, rfl, rfl⟩
  | object members =>
      rw [Structure.described?] at h
      split at h
      · rename_i nodes hnodes
        obtain ⟨children, hchildren, rfl⟩ := Option.map_eq_some_iff.1 h
        have hplace : Path.segments "/" = [] := by decide
        have hroot : (empty defaultOwner now).root.find? (Path.segments "/") =
            some (.directory ⟨defaultOwner, Permissions.newDirectory, now⟩ []) := by
          rw [hplace]
          rfl
        have hrun := Structure.run_addNodes hchildren hroot rfl fun _ _ => rfl
        rw [EStateM.run, hplace] at hrun
        refine ⟨(empty defaultOwner now).attach [] (Sketch.entries defaultOwner now children),
          ?_, rfl, rfl⟩
        cases members with
        | nil =>
            obtain rfl : [] = nodes := Json.object.inj hnodes
            obtain rfl := Option.some.inj hchildren
            rfl
        | cons member rest =>
            unfold ofStructure
            rw [if_neg (by simp [Json.isTruthy])]
            dsimp only
            rw [hnodes]
            dsimp only
            rw [hrun]
            dsimp only
            rw [if_pos (Structure.haveTexts_of_sketches? hchildren)]
            rfl
      · cases h
  | _ => cases h

/-- A well-formed description gives a file system. A walk through it meets the root and then all that is
described, each directory before what it holds and in the order of the description. Each node is of its
kind, and it has the owner and the permissions that it is given or else those by default. Each file holds
its text. -/
theorem ofStructure_lists_description (h : Structure.described? description = some sketch)
    (defaultOwner : String) (now : Int) :
    ∃ fs, ofStructure description defaultOwner now = .ok fs ∧
      fs.walk "/" = .ok ((sketch.listing []).map fun (place, there) =>
        there.stat defaultOwner now place) ∧
      ∀ place owner permissions text, (place, .file owner permissions text) ∈ sketch.listing [] →
        fs.contents (Path.ofSegments place) = .ok (Text.Utf8.encode text) := by
  obtain ⟨fs, hfs, hname, hroot⟩ := ofStructure_eq h defaultOwner now
  have hproper : fs.root.IsProper := isProper_ofStructure hfs
  have hmet : ∀ place there, (place, there) ∈ sketch.listing [] →
      fs.root.find? place = some (there.node defaultOwner now) := by
    intro place there hlisted
    rw [hroot] at hproper ⊢
    exact Sketch.find?_of_mem_listing hproper hlisted
  have hsegments : ∀ place there, (place, there) ∈ sketch.listing [] →
      ∀ name ∈ place, Path.IsSegment name := fun place there hlisted =>
    hproper.isSegment_of_find? (hmet place there hlisted)
  refine ⟨fs, hfs, ?_, ?_⟩
  · have hplace : Path.segments "/" = [] := by decide
    have htop : fs.find? "/" = some fs.root := by rw [FileSystem.find?, hplace, Node.find?]
    rw [walk_of_find? htop, hplace, hroot, Sketch.walk_node, List.map_map]
    refine congrArg Except.ok (List.map_congr_left ?_)
    rintro ⟨place, there⟩ hlisted
    exact Sketch.statOf_node hname defaultOwner now (hsegments place there hlisted) there
  · intro place owner permissions text hlisted
    rw [contents, FileSystem.find?, Path.segments_ofSegments (hsegments place _ hlisted),
      hmet place _ hlisted]
    rfl

/-- A greeting in a directory without a type, and a private home with an empty note and a directory. -/
def household : Json :=
  .object [("root", .object
    [("etc", .object [("children", .object
        [("greeting", .object [("content", .string "héllo"), ("permissions", .string "r--r--r--")])])]),
      ("home", .object [("type", .string "directory"), ("owner", .string "eve"),
        ("permissions", .string " drwx------ "), ("children", .object
          [("note", .object [("owner", .null)]),
            ("ada", .object [("type", .string "directory"), ("permissions", .string "0750")])])])])]

theorem household_is_built :
    ∃ sketch, Structure.described? household = some sketch ∧
      (sketch.listing []).map (fun (place, there) =>
          ((there.stat "student" 7 place).modeText, there.owner, Path.ofSegments place)) =
        [("drwxr-xr-x", none, "/"), ("drwxr-xr-x", none, "/etc"),
          ("-r--r--r--", none, "/etc/greeting"), ("drwx------", some "eve", "/home"),
          ("-rw-r--r--", none, "/home/note"), ("drwxr-x---", none, "/home/ada")] ∧
      ∃ fs, ofStructure household "student" 7 = .ok fs ∧
        fs.walk "/" = .ok ((sketch.listing []).map fun (place, there) =>
          there.stat "student" 7 place) ∧
        ∀ place owner permissions text, (place, .file owner permissions text) ∈ sketch.listing [] →
          fs.contents (Path.ofSegments place) = .ok (Text.Utf8.encode text) := by
  have hlisted : (Structure.described? household).map (fun sketch =>
      (sketch.listing []).map fun (place, there) =>
        ((there.stat "student" 7 place).modeText, there.owner, Path.ofSegments place)) =
      some [("drwxr-xr-x", none, "/"), ("drwxr-xr-x", none, "/etc"),
        ("-r--r--r--", none, "/etc/greeting"), ("drwx------", some "eve", "/home"),
        ("-rw-r--r--", none, "/home/note"), ("drwxr-x---", none, "/home/ada")] := by
    decide +kernel
  obtain ⟨sketch, hsketch, hlisting⟩ := Option.map_eq_some_iff.1 hlisted
  exact ⟨sketch, hsketch, hlisting, ofStructure_lists_description hsketch "student" 7⟩

end FileSystem

end PracticeShell
