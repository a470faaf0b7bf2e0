import PracticeShell.Proofs.Tree.Steps

/-!
# Proper trees

In a proper tree each directory holds names that can be met on the way to a place, and none of them
twice. So each node is found at one place only, and the path that is written from this place leads
to it. Every operation keeps a file system proper, and those that sessions start with are proper.
-/

namespace PracticeShell

open FileTree Run

/-- Whether names may be those of one directory: each can be met on the way to a place, and none is
there twice. -/
def FileTree.ProperNames (names : List String) : Prop :=
  names.Nodup ∧ ∀ name ∈ names, Path.IsSegment name

instance (names : List String) : Decidable (FileTree.ProperNames names) :=
  inferInstanceAs (Decidable (names.Nodup ∧ ∀ name ∈ names, Path.IsSegment name))

theorem FileTree.properNames_nil : FileTree.ProperNames [] := ⟨List.nodup_nil, by simp⟩

namespace FileTree.Node

/-- Whether the names in all directories of a tree are proper. -/
def IsProper (node : Node) : Prop :=
  ∀ place face, node.faceAt place = some face → ProperNames face.names

theorem IsProper.find? {node there : Node} (h : node.IsProper) {place : List String}
    (hthere : node.find? place = some there) : there.IsProper := by
  intro below face hface
  refine h (place ++ below) face ?_
  rw [faceAt_append, hthere]
  exact hface

theorem IsProper.names_entries {node : Node} (h : node.IsProper) :
    ProperNames (Entries.names node.entries) := by
  have hnames := h [] node.face rfl
  rwa [names_face] at hnames

theorem IsProper.entry {a : Attributes} {es : Entries} (h : IsProper (.directory a es))
    {name : String} {child : Node} (hchild : Entries.get? es name = some child) :
    child.IsProper :=
  have hfind : Node.find? [name] (.directory a es) = some child := by
    rw [find?_cons_directory, hchild]
    rfl
  h.find? hfind

/-- All names on the way to a node of a proper tree can be met. -/
theorem IsProper.isSegment_of_find? {node there : Node} (h : node.IsProper) {place : List String}
    (hthere : node.find? place = some there) : ∀ name ∈ place, Path.IsSegment name := by
  induction place generalizing node with
  | nil => simp
  | cons name rest ih =>
      cases node with
      | file => simp [Node.find?] at hthere
      | directory a es =>
          rw [find?_cons_directory] at hthere
          cases hchild : Entries.get? es name with
          | none => simp [hchild] at hthere
          | some child =>
              rw [hchild, Option.bind_some] at hthere
              have hname : Path.IsSegment name :=
                h.names_entries.2 name ((Entries.mem_names_iff es name).2 (by simp [hchild]))
              have hrest := ih (h.entry hchild) hthere
              simpa [hname] using hrest

theorem isProper_file (a : Attributes) (contents : ByteArray) : IsProper (.file a contents) := by
  intro place face hface
  cases place with
  | nil =>
      obtain rfl := Option.some.inj hface
      exact properNames_nil
  | cons name rest => simp [faceAt, find?] at hface

theorem isProper_directory_iff {a : Attributes} {es : Entries} :
    IsProper (.directory a es) ↔
      ProperNames (Entries.names es) ∧ ∀ entry ∈ es, entry.2.IsProper := by
  constructor
  · intro h
    have hnames : ProperNames (Entries.names es) := h.names_entries
    refine ⟨hnames, ?_⟩
    rintro ⟨name, child⟩ hentry
    exact h.entry (Entries.get?_of_mem hnames.1 hentry)
  · rintro ⟨hnames, hes⟩ place face hface
    cases place with
    | nil =>
        obtain rfl := Option.some.inj hface
        exact hnames
    | cons name rest =>
        rw [faceAt, find?_cons_directory] at hface
        cases hchild : Entries.get? es name with
        | none => simp [hchild] at hface
        | some child =>
            rw [hchild] at hface
            exact hes (name, child) (Entries.mem_of_get? hchild) rest face hface

mutual

/-- Whether a tree is proper, told by going through all of it. -/
def checkProper : Node → Bool
  | file .. => true
  | directory _ es => decide (ProperNames (Entries.names es)) && checkEntries es

/-- Whether the trees in entries are proper, told by going through all of them. -/
def checkEntries : List (String × Node) → Bool
  | [] => true
  | (_, node) :: rest => checkProper node && checkEntries rest

end

mutual

theorem checkProper_iff (node : Node) : node.checkProper = true ↔ node.IsProper := by
  cases node with
  | file a contents => simp [checkProper, isProper_file]
  | directory a es =>
      rw [checkProper, Bool.and_eq_true, decide_eq_true_iff, checkEntries_iff es,
        isProper_directory_iff]

theorem checkEntries_iff (es : List (String × Node)) :
    checkEntries es = true ↔ ∀ entry ∈ es, entry.2.IsProper := by
  cases es with
  | nil => simp [checkEntries]
  | cons entry rest =>
      obtain ⟨name, node⟩ := entry
      rw [checkEntries, Bool.and_eq_true, checkProper_iff node, checkEntries_iff rest]
      simp

end

instance (node : Node) : Decidable node.IsProper :=
  decidable_of_iff (node.checkProper = true) (checkProper_iff node)

end FileTree.Node

/-- Whether the names in all directories of a file system are proper. -/
def FileSystem.IsProper (fs : FileSystem) : Prop := fs.root.IsProper

instance (fs : FileSystem) : Decidable fs.IsProper :=
  inferInstanceAs (Decidable fs.root.IsProper)

namespace FileSystem

variable {fs : FileSystem}

theorem isProper_iff :
    fs.IsProper ↔ ∀ place face, fs.faceAt place = some face → ProperNames face.names := Iff.rfl

/-- The names in a directory of a proper file system are proper. -/
theorem IsProper.names (h : fs.IsProper) {path : String} {names : List String}
    (hnames : fs.names path = .ok names) : ProperNames names := by
  obtain ⟨a, hface⟩ := names_eq_ok_iff.1 hnames
  exact h _ _ hface

theorem isProper_empty (defaultOwner : String) (now : Int) : (empty defaultOwner now).IsProper := by
  intro place face hface
  cases place with
  | nil =>
      obtain rfl := Option.some.inj hface
      exact ⟨List.nodup_nil, by simp [root, empty, Entries.names, Face.names]⟩
  | cons name rest => simp [Node.faceAt, root, empty, Node.find?] at hface

end FileSystem

namespace FileTree

theorem ProperNames.addName {names : List String} (h : ProperNames names) {name : String}
    (hname : Path.IsSegment name) : ProperNames (Face.addName name names) := by
  unfold Face.addName
  split
  · exact h
  · rename_i hnew
    refine ⟨?_, ?_⟩
    · rw [List.nodup_append]
      refine ⟨h.1, by simp, ?_⟩
      intro n hn other hother heq
      rw [List.mem_singleton] at hother
      exact hnew (hother ▸ heq ▸ hn)
    · intro n hn
      rcases List.mem_append.1 hn with hn | hn
      · exact h.2 n hn
      · rwa [List.mem_singleton.1 hn]

theorem ProperNames.filter {names : List String} (h : ProperNames names) (p : String → Bool) :
    ProperNames (names.filter p) :=
  ⟨h.1.filter p, fun n hn => h.2 n (List.mem_filter.1 hn).1⟩

theorem properNames_mapNames {face : Face} (h : ProperNames face.names) (now : Int)
    {f : List String → List String} (hf : ∀ names, ProperNames names → ProperNames (f names)) :
    ProperNames (face.mapNames now f).names := by
  cases face with
  | file => exact h
  | directory a names => exact hf names h

@[simp]
theorem Face.names_mapAttributes (f : Attributes → Attributes) (face : Face) :
    (face.mapAttributes f).names = face.names := by
  cases face <;> rfl

namespace Change

/-- A change that brings in names that can be met keeps a file system proper. -/
theorem isProper_apply {fs : FileSystem} (h : fs.IsProper) {c : Change} (hfits : c.Fits fs)
    (hnamed : c.IsNamed) : (c.apply fs).IsProper := by
  rw [FileSystem.isProper_iff] at *
  intro place face hface
  cases c with
  | make parent name node =>
      rw [faceAt_make hfits] at hface
      split at hface
      · obtain ⟨before, hbefore, rfl⟩ := Option.map_eq_some_iff.1 hface
        exact properNames_mapNames (h _ _ hbefore) _ fun names hnames => hnames.addName hnamed
      · split at hface
        · obtain rfl := Option.some.inj hface
          rw [Node.names_face, hfits.2.2]
          exact properNames_nil
        · exact h _ _ hface
  | fill file contents =>
      rw [faceAt_fill hfits] at hface
      split at hface
      · obtain ⟨before, -, rfl⟩ := Option.map_eq_some_iff.1 hface
        exact properNames_nil
      · exact h _ _ hface
  | mark marked f =>
      rw [faceAt_mark] at hface
      split at hface
      · obtain ⟨before, hbefore, rfl⟩ := Option.map_eq_some_iff.1 hface
        rw [Face.names_mapAttributes]
        exact h _ _ hbefore
      · exact h _ _ hface
  | remove parent name =>
      rw [faceAt_remove hfits] at hface
      split at hface
      · obtain ⟨before, hbefore, rfl⟩ := Option.map_eq_some_iff.1 hface
        exact properNames_mapNames (h _ _ hbefore) _ fun names hnames => hnames.filter _
      · split at hface
        · exact absurd hface (by simp)
        · exact h _ _ hface
  | move parent name newParent newName =>
      rw [faceAt_move hfits] at hface
      split at hface
      · exact h _ _ hface
      · split at hface
        · exact absurd hface (by simp)
        · rw [Option.map_map] at hface
          obtain ⟨before, hbefore, rfl⟩ := Option.map_eq_some_iff.1 hface
          have hleft : ProperNames (if place = parent then
              before.mapNames fs.now (·.filter (· ≠ name)) else before).names := by
            split
            · exact properNames_mapNames (h _ _ hbefore) _ fun names hnames => hnames.filter _
            · exact h _ _ hbefore
          simp only [Function.comp_apply]
          split
          · exact properNames_mapNames hleft _ fun names hnames => hnames.addName hnamed
          · exact hleft

end Change

end FileTree

/-- Changes that bring in names that can be met keep a file system proper. -/
theorem FileSystem.IsProper.of_reaches {fs later : FileSystem} (h : fs.IsProper)
    (hreaches : Change.Reaches Change.IsNamed fs later) : later.IsProper := by
  induction hreaches with
  | refl => exact h
  | step hnamed hfits _ ih => exact ih (Change.isProper_apply h hfits hnamed)

/-- Growth keeps a file system proper. -/
theorem FileSystem.IsProper.of_growth {fs later : FileSystem} (h : fs.IsProper)
    (hgrowth : Change.Reaches Change.IsGrowth fs later) : later.IsProper :=
  h.of_reaches (hgrowth.imp fun _ hc => hc.isNamed)

/-- An operation that only makes, fills and marks nodes keeps a file system proper. -/
theorem FileSystem.IsProper.of_grows {α : Type} {operation : Edit α} {fs : FileSystem}
    (h : fs.IsProper) (hgrows : Leads (Change.Reaches Change.IsGrowth) operation fs) :
    (left (operation.run fs)).IsProper :=
  h.of_growth hgrows

end PracticeShell
