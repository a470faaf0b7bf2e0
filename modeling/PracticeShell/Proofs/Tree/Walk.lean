import PracticeShell.Command.Access
import PracticeShell.Proofs.Tree.Proper

/-!
# Walks and look-ups

A walk meets every node that is found below a place (`mem_walk_of_find?`), and in a proper tree
nothing else (`find?_of_mem_walk`).
-/

namespace PracticeShell

/-- What is found among the rest is found, as no name stands twice. -/
theorem FileTree.Entries.get?_cons_of_not_mem {rest : Entries} {first name : String}
    {node child : Node} (hfirst : first ∉ names rest) (h : get? rest name = some child) :
    get? ((first, node) :: rest) name = some child := by
  have hne : name ≠ first := by
    rintro rfl
    exact hfirst ((mem_names_iff rest name).2 (by simp [h]))
  rw [get?_cons, if_neg hne, h]

namespace FileTree.Node

theorem mem_walkEntries {place : List String} {es : Entries} {name : String} {child : Node}
    (hchild : Entries.get? es name = some child) {met : List String × Node}
    (h : met ∈ walk (place ++ [name]) child) : met ∈ walkEntries place es := by
  induction es with
  | nil => simp at hchild
  | cons entry rest ih =>
      obtain ⟨n, node⟩ := entry
      rw [Entries.get?_cons] at hchild
      rw [walkEntries]
      split at hchild
      · rename_i hn
        obtain rfl := Option.some.inj hchild
        subst hn
        exact List.mem_append_left _ h
      · exact List.mem_append_right _ (ih hchild)

/-- A walk meets every node that is found. -/
theorem mem_walk_of_find? {node there : Node} {below : List String} (place : List String)
    (h : find? below node = some there) : (place ++ below, there) ∈ walk place node := by
  induction below generalizing place node with
  | nil =>
      obtain rfl := Option.some.inj h
      cases node <;> simp [walk]
  | cons name rest ih =>
      cases node with
      | file => simp [find?] at h
      | directory a es =>
          rw [find?_cons_directory] at h
          obtain ⟨child, hchild, hthere⟩ := Option.bind_eq_some_iff.1 h
          have hmet := ih (place ++ [name]) hthere
          rw [List.append_assoc, List.singleton_append] at hmet
          rw [walk]
          exact List.mem_cons_of_mem _ (mem_walkEntries hchild hmet)

mutual

/-- In a proper tree a walk meets only nodes that are found at their places. -/
theorem find?_of_mem_walk {node : Node} (hnode : node.IsProper) {place : List String}
    {met : List String × Node} (h : met ∈ walk place node) :
    ∃ below, met.1 = place ++ below ∧ find? below node = some met.2 := by
  cases node with
  | file a contents =>
      rw [walk, List.mem_singleton] at h
      exact ⟨[], by simp [h], by rw [h]; rfl⟩
  | directory a es =>
      rw [walk] at h
      rcases List.mem_cons.1 h with rfl | h
      · exact ⟨[], by simp, rfl⟩
      · have hnames : (Entries.names es).Nodup := hnode.names_entries.1
        obtain ⟨name, below, child, hchild, hplace, hfind⟩ :=
          find?_of_mem_walkEntries hnames (fun name child hchild => hnode.entry hchild) h
        exact ⟨name :: below, hplace, by rw [find?_cons_directory, hchild]; exact hfind⟩

theorem find?_of_mem_walkEntries {es : List (String × Node)} (hnames : (Entries.names es).Nodup)
    (hes : ∀ name child, Entries.get? es name = some child → child.IsProper)
    {place : List String} {met : List String × Node} (h : met ∈ walkEntries place es) :
    ∃ name below child, Entries.get? es name = some child ∧ met.1 = place ++ name :: below ∧
      find? below child = some met.2 := by
  cases es with
  | nil => simp [walkEntries] at h
  | cons entry rest =>
      obtain ⟨n, node⟩ := entry
      have hfirst : Entries.get? ((n, node) :: rest) n = some node := by
        rw [Entries.get?_cons, if_pos rfl]
      rw [walkEntries, List.mem_append] at h
      rcases h with h | h
      · obtain ⟨below, hplace, hfind⟩ := find?_of_mem_walk (hes n node hfirst) h
        exact ⟨n, below, node, hfirst, by simp [hplace], hfind⟩
      · have hnodup : n ∉ Entries.names rest ∧ (Entries.names rest).Nodup := by
          simpa [Entries.names] using hnames
        obtain ⟨name, below, child, hchild, hplace, hfind⟩ :=
          find?_of_mem_walkEntries hnodup.2 (fun name child hchild =>
            hes name child (Entries.get?_cons_of_not_mem hnodup.1 hchild)) h
        exact ⟨name, below, child, Entries.get?_cons_of_not_mem hnodup.1 hchild, hplace, hfind⟩

end

end FileTree.Node

/-- A walk from a path at which there is something reports what it meets. -/
theorem FileSystem.walk_of_find? {fs : FileSystem} {path : String} {top : FileTree.Node}
    (htop : fs.find? path = some top) :
    fs.walk path =
      .ok ((top.walk (Path.segments path)).map fun (place, node) => fs.statOf place node) := by
  rw [FileSystem.walk, htop]

/-- A walk from a path of a proper file system meets what is found at its places. -/
theorem FileSystem.IsProper.find?_of_mem_walk_at {fs : FileSystem} (hfs : fs.IsProper)
    {path : String} {top : FileTree.Node} (htop : fs.find? path = some top)
    {met : List String × FileTree.Node} (hmet : met ∈ top.walk (Path.segments path)) :
    fs.root.find? met.1 = some met.2 := by
  obtain ⟨below, hplace, hbelow⟩ :=
    FileTree.Node.find?_of_mem_walk (FileTree.Node.IsProper.find? hfs htop) hmet
  rw [hplace, FileTree.Node.find?_append, ← FileSystem.find?, htop]
  exact hbelow

/-- What a walk of a proper file system meets is known by the path at which it is met, and this leads on
from where the walk starts. -/
theorem FileSystem.IsProper.stat?_of_mem_walk {fs : FileSystem} (hfs : fs.IsProper) {path : String}
    {nodes : List Stat} (hwalk : fs.walk path = .ok nodes) {node : Stat} (hnode : node ∈ nodes) :
    fs.stat? node.path = some node ∧ Path.segments path <+: Path.segments node.path := by
  cases htop : fs.find? path with
  | none => simp [FileSystem.walk, htop] at hwalk
  | some top =>
      rw [FileSystem.walk_of_find? htop] at hwalk
      obtain rfl := Except.ok.inj hwalk
      obtain ⟨met, hmet, rfl⟩ := List.mem_map.1 hnode
      have hfind := hfs.find?_of_mem_walk_at htop hmet
      obtain ⟨below, hplace, -⟩ :=
        FileTree.Node.find?_of_mem_walk (FileTree.Node.IsProper.find? hfs htop) hmet
      have hpath : Path.segments (fs.statOf met.1 met.2).path = met.1 :=
        Path.segments_ofSegments (FileTree.Node.IsProper.isSegment_of_find? hfs hfind)
      refine ⟨?_, ?_⟩
      · rw [FileSystem.stat?, FileSystem.find?, hpath, hfind]
        rfl
      · rw [hpath, hplace]
        exact List.prefix_append _ _

/-- What a walk says about a node is said of the node that its path leads to. -/
theorem FileSystem.IsProper.of_mem_walk {fs : FileSystem} (hfs : fs.IsProper) {path : String}
    {nodes : List Stat} (hwalk : fs.walk path = .ok nodes) {node : Stat} (hnode : node ∈ nodes) :
    ∃ there, fs.find? node.path = some there ∧ node.owner = there.attributes.owner := by
  obtain ⟨there, hthere, hstat⟩ :=
    Option.map_eq_some_iff.1 (hfs.stat?_of_mem_walk hwalk hnode).1
  exact ⟨there, hthere, by rw [← hstat]; rfl⟩

namespace Access

/-- Where a tree is not denied, no node at or below its place is the root user's. -/
theorem owner_ne_of_not_treeDenied {ctx : Context} {fs : FileSystem} {path : String}
    (hctx : ctx.elevated = false) (h : treeDenied ctx fs path = false) {below : List String}
    {node : FileTree.Node} (hnode : fs.root.find? (Path.segments path ++ below) = some node) :
    node.attributes.owner ≠ Context.rootUser := by
  rw [FileTree.Node.find?_append] at hnode
  obtain ⟨top, htop, hbelow⟩ := Option.bind_eq_some_iff.1 hnode
  rw [treeDenied, if_neg (by simp [hctx]), FileSystem.walk_of_find? htop] at h
  have hmet := FileTree.Node.mem_walk_of_find? (Path.segments path) hbelow
  have hall := List.any_eq_false.1 h (fs.statOf _ node)
    (List.mem_map.2 ⟨_, hmet, rfl⟩)
  simpa [FileSystem.statOf] using hall

end Access

end PracticeShell
