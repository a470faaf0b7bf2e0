import PracticeShell.Proofs.Tree.Walk

/-!
# Directories that are refilled

`FileSystem.refill` puts other entries into the directory at a place. Whoever is not below this place
sees nothing of it: what is known of a node stays the same (`stat?_refill`), and so do the names in a
directory that is not this one (`names_refill`) and all that is apart from it (`find?_refill_apart`). A
walk from above comes to it and meets what it holds, between what it meets before and after
(`exists_walk_refill`).
-/

namespace PracticeShell

open FileTree

namespace FileTree

/-- Whether a place lies below another, and is not this one. -/
def LiesBelow (place other : List String) : Prop := place <+: other ∧ other ≠ place

instance (place other : List String) : Decidable (LiesBelow place other) :=
  inferInstanceAs (Decidable (_ ∧ _))

theorem not_below_of_not_above {place other : List String} (h : ¬ LiesBelow place other)
    (habove : ¬ other <+: place) : ¬ place <+: other := fun hbelow =>
  h ⟨hbelow, fun heq => habove (heq ▸ List.prefix_rfl)⟩

/-- What is in a directory that is neither the one at a place nor below it does not lie below the place
either. -/
theorem not_liesBelow_append_singleton {place directory : List String} (h : ¬ place <+: directory)
    (name : String) : ¬ LiesBelow place (directory ++ [name]) := by
  rintro ⟨hbelow, hne⟩
  rcases List.prefix_concat_iff.1 hbelow with heq | hbelow
  · exact hne heq.symm
  · exact h hbelow

namespace Entries

/-- The entry that is changed stands among others that stay as they are. -/
theorem exists_modify_eq {es : Entries} {name : String} {child : Node}
    (h : get? es name = some child) :
    ∃ before after, es = before ++ (name, child) :: after ∧
      ∀ f, modify name f es = before ++ (name, f child) :: after := by
  induction es with
  | nil => cases h
  | cons entry rest ih =>
      obtain ⟨n, node⟩ := entry
      rw [get?_cons] at h
      by_cases hn : n = name
      · subst hn
        rw [if_pos rfl] at h
        obtain rfl := Option.some.inj h
        exact ⟨[], rest, rfl, fun f => by rw [modify, if_pos rfl, List.nil_append]⟩
      · rw [if_neg (Ne.symm hn)] at h
        obtain ⟨before, after, hes, hmodify⟩ := ih h
        refine ⟨(n, node) :: before, after, by rw [hes, List.cons_append], fun f => ?_⟩
        rw [modify, if_neg hn, hmodify, List.cons_append]

end Entries

namespace Node

/-- A directory with other entries. -/
def refill (new : Entries) : Node → Node
  | file a contents => file a contents
  | directory a _ => directory a new

@[simp]
theorem isDirectory_refill (new : Entries) (node : Node) :
    (refill new node).isDirectory = node.isDirectory := by
  cases node <;> rfl

/-- Whether two nodes, if there are any, are the same for whoever does not look into directories. -/
inductive LooksLike : (node? other? : Option Node) → Prop
  | missing : LooksLike none none
  | file (a : Attributes) (contents : ByteArray) :
      LooksLike (some (.file a contents)) (some (.file a contents))
  | directory (a : Attributes) (es others : Entries) :
      LooksLike (some (.directory a es)) (some (.directory a others))

theorem LooksLike.refl (node? : Option Node) : LooksLike node? node? := by
  cases node? with
  | none => exact .missing
  | some node =>
      cases node with
      | file a contents => exact .file a contents
      | directory a es => exact .directory a es es

/-- From outside of a directory it looks the same with other entries. -/
theorem looksLike_modify_refill (new : Entries) {place other : List String}
    (h : ¬ LiesBelow place other) (node : Node) :
    LooksLike (find? other node) (find? other (modify (refill new) place node)) := by
  by_cases habove : other <+: place
  · obtain ⟨below, rfl⟩ := habove
    rw [find?_modify_above]
    cases find? other node with
    | none => exact .missing
    | some there =>
        cases there with
        | file a contents => cases below <;> exact .file a contents
        | directory a es =>
            cases below with
            | nil => exact .directory a es new
            | cons name rest => exact .directory a es (Entries.modify name (modify (refill new) rest) es)
  · rw [ find?_modify_of_not_prefix _ (not_below_of_not_above h habove) habove]
    exact .refl _

theorem walkEntries_concat (place : List String) (es others : Entries) :
    walkEntries place (es ++ others) = walkEntries place es ++ walkEntries place others := by
  induction es with
  | nil => rfl
  | cons entry rest ih =>
      obtain ⟨name, node⟩ := entry
      rw [List.cons_append, walkEntries, walkEntries, ih, List.append_assoc]

end Node

end FileTree

namespace FileSystem

/-- A file system with other entries in the directory at a place. -/
def refill (fs : FileSystem) (place : List String) (new : Entries) : FileSystem :=
  fs.modifyAt place (Node.refill new)

section

variable (fs : FileSystem) (place : List String) (new : Entries)

@[simp]
theorem root_refill : (fs.refill place new).root = fs.root.modify (Node.refill new) place :=
  root_modifyAt fs place (Node.isDirectory_refill new)

theorem find?_refill (path : String) : (fs.refill place new).find? path =
    (fs.root.modify (Node.refill new) place).find? (Path.segments path) := by
  rw [find?, root_refill]

@[simp]
theorem statOf_refill : (fs.refill place new).statOf = fs.statOf := by
  have hname : (fs.refill place new).name = fs.name := by
    unfold refill modifyAt
    cases fs.root.modify (Node.refill new) place <;> rfl
  funext other node
  rw [statOf, hname, ← statOf]

end

/-- What is known of nodes that a walk meets. -/
def known (fs : FileSystem) (walked : List (List String × Node)) : List Stat :=
  walked.map fun met => fs.statOf met.1 met.2

theorem known_append (fs : FileSystem) (walked others : List (List String × Node)) :
    fs.known (walked ++ others) = fs.known walked ++ fs.known others :=
  List.map_append

variable {fs : FileSystem} {place : List String} (new : Entries)

theorem looksLike_refill (fs : FileSystem) {place : List String} (new : Entries) {path : String} (h : ¬ LiesBelow place (Path.segments path)) :
    Node.LooksLike (fs.find? path) ((fs.refill place new).find? path) := by
  rw [find?_refill]
  exact Node.looksLike_modify_refill new h fs.root

/-- What is known of a node that does not lie below the directory is the same. -/
theorem stat?_refill {path : String} (h : ¬ LiesBelow place (Path.segments path)) :
    (fs.refill place new).stat? path = fs.stat? path := by
  have hlooks := looksLike_refill fs new h
  rw [stat?, stat?, statOf_refill]
  generalize fs.find? path = node?, (fs.refill place new).find? path = other? at hlooks
  cases hlooks <;> rfl

/-- A node apart from the directory is the same. -/
theorem find?_refill_apart {path : String} (hbelow : ¬ place <+: Path.segments path)
    (habove : ¬ Path.segments path <+: place) : (fs.refill place new).find? path = fs.find? path := by
  rw [find?_refill, Node.find?_modify_of_not_prefix _ hbelow habove, ← find?]

/-- A file that does not lie below the directory has the same text. -/
theorem text_refill {path : String} (h : ¬ LiesBelow place (Path.segments path)) :
    (fs.refill place new).text path = fs.text path := by
  have hlooks := looksLike_refill fs new h
  rw [text, text, contents, contents]
  generalize fs.find? path = node?, (fs.refill place new).find? path = other? at hlooks
  cases hlooks <;> rfl

/-- A walk apart from the directory meets the same. -/
theorem walk_refill_apart {path : String} (hbelow : ¬ place <+: Path.segments path)
    (habove : ¬ Path.segments path <+: place) : (fs.refill place new).walk path = fs.walk path := by
  rw [walk, walk, find?_refill_apart new hbelow habove, statOf_refill]

/-- Another directory that does not lie below has the same names. -/
theorem names_refill {path : String} (h : ¬ place <+: Path.segments path) :
    (fs.refill place new).names path = fs.names path := by
  have hface : ∀ t : FileSystem, t.names path =
      match t.faceAt (Path.segments path) with
      | none => .error ⟨.notFound, path⟩
      | some (.file ..) => .error ⟨.notADirectory, path⟩
      | some (.directory _ names) => .ok names := by
    intro t
    rw [names, FileSystem.faceAt, Node.faceAt, ← find?]
    cases t.find? path with
    | none => rfl
    | some node => cases node <;> rfl
  rw [hface, hface, FileSystem.faceAt, root_refill, Node.faceAt_modify_beside _ h, ← FileSystem.faceAt]

/-- A file system stays proper if what is filled in is proper. -/
theorem IsProper.refill (hfs : fs.IsProper) {a : Attributes} {new : Entries}
    (hnew : (Node.directory a new).IsProper) (place : List String) : (fs.refill place new).IsProper := by
  rw [isProper_iff]
  intro other face hface
  rw [FileSystem.faceAt, root_refill] at hface
  by_cases hbelow : place <+: other
  · obtain ⟨below, rfl⟩ := hbelow
    rw [Node.faceAt_modify] at hface
    obtain ⟨there, hthere, hface⟩ := Option.bind_eq_some_iff.1 hface
    cases there with
    | file b contents =>
        exact (Node.IsProper.find? hfs hthere) below face hface
    | directory b es =>
        have hrefilled : (Node.directory b new).IsProper :=
          Node.isProper_directory_iff.2 (Node.isProper_directory_iff.1 hnew)
        exact hrefilled below face hface
  · rw [Node.faceAt_modify_beside _ hbelow] at hface
    exact hfs other face hface

/-- A walk from above comes to the directory and meets what it is filled with. What it meets before and
after does not depend on that. -/
theorem exists_walk_modify_refill (fs : FileSystem) {a : Attributes} {es : Entries}
    {below : List String} {top : Node} (htop : top.find? below = some (.directory a es))
    (place : List String) : ∃ before after, ∀ new,
      fs.known ((top.modify (Node.refill new) below).walk place) =
        before ++ fs.known (Node.walkEntries (place ++ below) new) ++ after := by
  induction below generalizing top place with
  | nil =>
      obtain rfl := Option.some.inj htop
      refine ⟨[fs.statOf place (.directory a [])], [], fun new => ?_⟩
      rw [Node.modify, Node.refill, Node.walk, List.append_nil, List.append_nil]
      rfl
  | cons name rest ih =>
      cases top with
      | file => cases htop
      | directory b entries =>
          rw [Node.find?_cons_directory] at htop
          obtain ⟨child, hchild, hrest⟩ := Option.bind_eq_some_iff.1 htop
          obtain ⟨left, right, -, hmodify⟩ := Entries.exists_modify_eq hchild
          obtain ⟨before, after, hwalk⟩ := ih hrest (place ++ [name])
          refine ⟨fs.statOf place (.directory b []) :: fs.known (Node.walkEntries place left) ++ before,
            after ++ fs.known (Node.walkEntries place right), fun new => ?_⟩
          have hhead : fs.known (Node.walk place (.directory b (left ++
              (name, child.modify (Node.refill new) rest) :: right))) =
              fs.statOf place (.directory b []) :: fs.known (Node.walkEntries place (left ++
                (name, child.modify (Node.refill new) rest) :: right)) := by
            rw [Node.walk]
            rfl
          rw [Node.modify, hmodify, hhead, Node.walkEntries_concat, Node.walkEntries, known_append,
            known_append, hwalk, List.append_assoc place]
          simp

/-- Above a directory there are directories. -/
theorem isDirectory_refill {a : Attributes} {es : Entries}
    (hthere : fs.root.find? place = some (.directory a es)) {path : String}
    (h : Path.segments path <+: place) (new : Entries) :
    (fs.refill place new).isDirectory path = true := by
  obtain ⟨below, rfl⟩ := h
  rw [Node.find?_append] at hthere
  obtain ⟨top, htop, hbelow⟩ := Option.bind_eq_some_iff.1 hthere
  rw [isDirectory, find?_refill, Node.find?_modify_above, htop, Option.map_some, Option.any_some,
    Node.isDirectory_modify (Node.isDirectory_refill new)]
  cases top with
  | directory => rfl
  | file => cases below <;> cases hbelow

theorem exists_walk_refill {a : Attributes} {es : Entries}
    (hthere : fs.root.find? place = some (.directory a es)) {path : String}
    (h : Path.segments path <+: place) : ∃ before after, ∀ new,
      (fs.refill place new).walk path =
        .ok (before ++ fs.known (Node.walkEntries place new) ++ after) := by
  obtain ⟨below, rfl⟩ := h
  rw [Node.find?_append] at hthere
  obtain ⟨top, htop, hbelow⟩ := Option.bind_eq_some_iff.1 hthere
  obtain ⟨before, after, hwalk⟩ := exists_walk_modify_refill fs hbelow (Path.segments path)
  refine ⟨before, after, fun new => ?_⟩
  have hfind : (fs.refill (Path.segments path ++ below) new).find? path =
      some (top.modify (Node.refill new) below) := by
    rw [find?_refill, Node.find?_modify_above, htop]
    rfl
  rw [walk_of_find? hfind, statOf_refill, ← hwalk]
  rfl

end FileSystem

end PracticeShell
