import PracticeShell.Proofs.Places
import PracticeShell.Proofs.Tree.Walk

/-!
# The order of a walk

A walk of a proper tree meets each directory before what lies below it (`pairwise_walk`), and what
lies directly in one directory in the order of its entries (`metIn_walk`). For a file system
`FileSystem.IsListing` says the same of paths: each path of something that is there is listed once,
and nothing else is.
-/

namespace PracticeShell

open FileTree

namespace FileTree.Node

mutual

theorem place_prefix_walk {node : Node} {place : List String} {met : List String × Node}
    (h : met ∈ walk place node) : place <+: met.1 := by
  cases node with
  | file a contents =>
      rw [walk, List.mem_singleton] at h
      subst h
      exact List.prefix_rfl
  | directory a es =>
      rw [walk] at h
      rcases List.mem_cons.1 h with rfl | h
      · exact List.prefix_rfl
      · obtain ⟨name, -, hbelow⟩ := place_prefix_walkEntries h
        exact (List.prefix_append place [name]).trans hbelow

theorem place_prefix_walkEntries {es : List (String × Node)} {place : List String}
    {met : List String × Node} (h : met ∈ walkEntries place es) :
    ∃ name ∈ Entries.names es, place ++ [name] <+: met.1 := by
  cases es with
  | nil => simp [walkEntries] at h
  | cons entry rest =>
      obtain ⟨name, node⟩ := entry
      rw [walkEntries, List.mem_append] at h
      rcases h with h | h
      · exact ⟨name, by simp [Entries.names], place_prefix_walk h⟩
      · obtain ⟨other, hother, hbelow⟩ := place_prefix_walkEntries h
        exact ⟨other, List.mem_cons_of_mem _ hother, hbelow⟩

end

/-- Of two names that one place starts with at the same depth, both are the same. -/
theorem eq_of_append_singleton_prefix {place other : List String} {name second : String}
    (h : place ++ [name] <+: other) (h' : place ++ [second] <+: other) : name = second := by
  have heq := List.prefix_of_prefix_length_le h h' (by simp)
  simpa using heq

mutual

/-- In a walk nothing comes after what lies below it. -/
theorem pairwise_walk {node : Node} (hnode : node.IsProper) (place : List String) :
    (walk place node).Pairwise fun earlier later => ¬ later.1 <+: earlier.1 := by
  cases node with
  | file a contents => simp [walk]
  | directory a es =>
      rw [walk, List.pairwise_cons]
      refine ⟨fun later hlater => ?_, pairwise_walkEntries hnode.names_entries.1
        (fun name child hchild => hnode.entry hchild) place⟩
      obtain ⟨name, -, hbelow⟩ := place_prefix_walkEntries hlater
      intro habove
      have hlength : (place ++ [name]).length ≤ place.length := (hbelow.trans habove).length_le
      rw [List.length_append, List.length_singleton] at hlength
      omega

theorem pairwise_walkEntries {es : List (String × Node)} (hnames : (Entries.names es).Nodup)
    (hes : ∀ name child, Entries.get? es name = some child → child.IsProper)
    (place : List String) :
    (walkEntries place es).Pairwise fun earlier later => ¬ later.1 <+: earlier.1 := by
  cases es with
  | nil => simp [walkEntries]
  | cons entry rest =>
      obtain ⟨name, node⟩ := entry
      obtain ⟨hname, hrest⟩ : name ∉ Entries.names rest ∧ (Entries.names rest).Nodup := by
        simpa [Entries.names] using hnames
      have hfirst : Entries.get? ((name, node) :: rest) name = some node := by
        rw [Entries.get?_cons, if_pos rfl]
      rw [walkEntries, List.pairwise_append]
      refine ⟨pairwise_walk (hes name node hfirst) _, pairwise_walkEntries hrest
        (fun n child hchild => hes n child (Entries.get?_cons_of_not_mem hname hchild)) place, ?_⟩
      -- what lies below two entries of one directory is apart
      intro earlier hearlier later hlater habove
      obtain ⟨other, hother, hbelow⟩ := place_prefix_walkEntries hlater
      obtain rfl := eq_of_append_singleton_prefix (place_prefix_walk hearlier) (hbelow.trans habove)
      exact hname hother

end

/-- The places among those met that lie directly in a directory, in the order in which they are
met. -/
def metIn (directory : List String) (met : List (List String × Node)) : List (List String) :=
  (met.map (·.1)).filter fun place => place ≠ [] ∧ place.dropLast = directory

theorem ne_nil_and_dropLast_eq_iff {place directory : List String} :
    place ≠ [] ∧ place.dropLast = directory ↔ ∃ name, place = directory ++ [name] := by
  constructor
  · rintro ⟨hne, rfl⟩
    exact ⟨place.getLast hne, (List.dropLast_concat_getLast hne).symm⟩
  · rintro ⟨name, rfl⟩
    simp

theorem metIn_append (directory : List String) (first second : List (List String × Node)) :
    metIn directory (first ++ second) = metIn directory first ++ metIn directory second := by
  simp [metIn]

theorem metIn_eq_nil {directory : List String} {met : List (List String × Node)}
    (h : ∀ m ∈ met, ∀ name, m.1 ≠ directory ++ [name]) : metIn directory met = [] := by
  refine List.filter_eq_nil_iff.2 fun place hplace => ?_
  obtain ⟨m, hm, rfl⟩ := List.mem_map.1 hplace
  rw [decide_eq_true_iff, ne_nil_and_dropLast_eq_iff]
  rintro ⟨name, hname⟩
  exact h m hm name hname

/-- Of an entry and what lies below it only the entry lies directly in the directory. -/
theorem metIn_walk_entry (place : List String) (name : String) (node : Node) :
    metIn place (walk (place ++ [name]) node) = [place ++ [name]] := by
  cases node with
  | file a contents => simp [walk, metIn]
  | directory a es =>
      have hbelow : metIn place (walkEntries (place ++ [name]) es) = [] := by
        refine metIn_eq_nil fun met hmet other heq => ?_
        obtain ⟨n, -, hdeep⟩ := place_prefix_walkEntries hmet
        have hlength := hdeep.length_le
        rw [heq] at hlength
        simp only [List.length_append, List.length_singleton] at hlength
        omega
      have hself : metIn place [(place ++ [name], directory a es)] = [place ++ [name]] := by
        simp [metIn]
      rw [walk, ← List.singleton_append, metIn_append, hself, hbelow, List.append_nil]

theorem metIn_walkEntries_self (place : List String) (es : List (String × Node)) :
    metIn place (walkEntries place es) = (Entries.names es).map fun name => place ++ [name] := by
  induction es with
  | nil => rfl
  | cons entry rest ih =>
      obtain ⟨name, node⟩ := entry
      rw [walkEntries, metIn_append, metIn_walk_entry, ih]
      rfl

/-- Below an entry only what is met there lies in a directory at or below that entry. -/
theorem metIn_walkEntries_below {es : List (String × Node)} (hnames : (Entries.names es).Nodup)
    {name : String} {child : Node} (hchild : Entries.get? es name = some child)
    (place below : List String) :
    metIn (place ++ name :: below) (walkEntries place es) =
      metIn (place ++ name :: below) (walk (place ++ [name]) child) := by
  -- a place that starts with two names at the same depth would make both the same
  have hapart : ∀ {other n : String} {met : List String × Node},
      place ++ [n] <+: met.1 → met.1 = place ++ name :: below ++ [other] → n = name := by
    intro other n met hstarts heq
    refine eq_of_append_singleton_prefix hstarts ?_
    rw [heq]
    exact ⟨below ++ [other], by simp⟩
  induction es with
  | nil => simp at hchild
  | cons entry rest ih =>
      obtain ⟨n, node⟩ := entry
      obtain ⟨hn, hrest⟩ : n ∉ Entries.names rest ∧ (Entries.names rest).Nodup := by
        simpa [Entries.names] using hnames
      rw [walkEntries, metIn_append]
      rw [Entries.get?_cons] at hchild
      split at hchild
      · rename_i heq
        obtain rfl := Option.some.inj hchild
        subst heq
        have hothers : metIn (place ++ name :: below) (walkEntries place rest) = [] := by
          refine metIn_eq_nil fun met hmet other hother => ?_
          obtain ⟨second, hsecond, hstarts⟩ := place_prefix_walkEntries hmet
          exact hn (hapart hstarts hother ▸ hsecond)
        rw [hothers, List.append_nil]
      · rename_i hne
        have hfirst : metIn (place ++ name :: below) (walk (place ++ [n]) node) = [] :=
          metIn_eq_nil fun met hmet other hother =>
            hne (hapart (place_prefix_walk hmet) hother).symm
        rw [hfirst, List.nil_append]
        exact ih hrest hchild

/-- What lies directly in a directory is met in the order of its entries. -/
theorem metIn_walk {node there : Node} (hnode : node.IsProper) {below : List String}
    (hthere : node.find? below = some there) (place : List String) :
    metIn (place ++ below) (walk place node) =
      (Entries.names there.entries).map fun name => place ++ below ++ [name] := by
  induction below generalizing node place with
  | nil =>
      obtain rfl := Option.some.inj hthere
      rw [List.append_nil]
      have hself : ∀ n : Node, metIn place [(place, n)] = [] := fun n =>
        metIn_eq_nil fun met hmet name heq => by
          rw [List.mem_singleton] at hmet
          simp [hmet] at heq
      cases node with
      | file a contents => exact hself _
      | directory a es =>
          rw [walk, ← List.singleton_append, metIn_append, hself, List.nil_append,
            metIn_walkEntries_self]
          rfl
  | cons name rest ih =>
      cases node with
      | file => simp [find?] at hthere
      | directory a es =>
          rw [find?_cons_directory] at hthere
          obtain ⟨child, hchild, hrest⟩ := Option.bind_eq_some_iff.1 hthere
          have habove : metIn (place ++ name :: rest) [(place, directory a es)] = [] :=
            metIn_eq_nil fun met hmet other heq => by
              rw [List.mem_singleton] at hmet
              simp [hmet] at heq
          have hsplit : walk place (directory a es) =
              [(place, directory a es)] ++ walkEntries place es := by rw [walk]; rfl
          have hnames : (Entries.names es).Nodup := hnode.names_entries.1
          rw [hsplit, metIn_append, habove, List.nil_append,
            metIn_walkEntries_below hnames hchild]
          have hchildren := ih (hnode.entry hchild) hrest (place ++ [name])
          rwa [List.append_assoc, List.singleton_append] at hchildren

end FileTree.Node

namespace FileSystem

/-- Whether nodes are all those of a file system, each said as `stat?` says it and listed once, each
directory before what lies below it, and what lies directly in a directory in the order of its
names. -/
structure IsListing (fs : FileSystem) (nodes : List Stat) : Prop where
  stat : ∀ node ∈ nodes, fs.stat? node.path = some node
  mem_iff : ∀ path, path ∈ nodes.map (·.path) ↔
    Path.normalize path = path ∧ fs.contains path = true
  once : (nodes.map (·.path)).Nodup
  above : nodes.Pairwise fun earlier later => Path.isWithin earlier.path later.path = false
  siblings : ∀ directory names, fs.names directory = .ok names →
    (nodes.map (·.path)).filter
        (fun path => path ≠ "/" ∧ Path.dirname path = Path.normalize directory) =
      names.map fun name => Path.ofSegments (Path.segments directory ++ [name])

theorem walk_root (fs : FileSystem) :
    fs.walk "/" = .ok ((fs.root.walk []).map fun (place, node) => fs.statOf place node) := by
  have hroot : Path.segments "/" = [] := by decide
  have htop : fs.find? "/" = some fs.root := by
    rw [FileSystem.find?, hroot]
    rfl
  rw [walk_of_find? htop, hroot]

theorem map_path_walk (fs : FileSystem) :
    ((fs.root.walk []).map fun (place, node) => fs.statOf place node).map (·.path) =
      ((fs.root.walk []).map (·.1)).map Path.ofSegments := by
  rw [List.map_map, List.map_map]
  rfl

variable {fs : FileSystem}

/-- A walk of a proper file system meets what is found at its places. -/
theorem IsProper.find?_of_mem_walk_root (h : fs.IsProper) {met : List String × Node}
    (hmet : met ∈ fs.root.walk []) : fs.root.find? met.1 = some met.2 := by
  obtain ⟨below, hplace, hfind⟩ := Node.find?_of_mem_walk h hmet
  rw [hplace]
  exact hfind

theorem IsProper.segments_of_mem_walk_root (h : fs.IsProper) {met : List String × Node}
    (hmet : met ∈ fs.root.walk []) : Path.segments (Path.ofSegments met.1) = met.1 :=
  Path.segments_ofSegments (Node.IsProper.isSegment_of_find? h (h.find?_of_mem_walk_root hmet))

theorem IsProper.mem_map_path_walk_iff (h : fs.IsProper) (path : String) :
    path ∈ ((fs.root.walk []).map (·.1)).map Path.ofSegments ↔
      Path.normalize path = path ∧ fs.contains path = true := by
  rw [List.map_map, List.mem_map, contains, FileSystem.find?]
  constructor
  · rintro ⟨met, hmet, rfl⟩
    rw [Function.comp_apply, Path.normalize, h.segments_of_mem_walk_root hmet,
      h.find?_of_mem_walk_root hmet]
    exact ⟨rfl, rfl⟩
  · rintro ⟨hnormal, hthere⟩
    obtain ⟨node, hnode⟩ := Option.isSome_iff_exists.1 hthere
    exact ⟨_, Node.mem_walk_of_find? [] hnode, hnormal⟩

/-- The paths that are listed directly in a directory are those of its names, in their order. -/
theorem IsProper.filter_map_path_walk (h : fs.IsProper) {directory : String} {names : List String}
    (hnames : fs.names directory = .ok names) :
    (((fs.root.walk []).map (·.1)).map Path.ofSegments).filter
        (fun path => path ≠ "/" ∧ Path.dirname path = Path.normalize directory) =
      names.map fun name => Path.ofSegments (Path.segments directory ++ [name]) := by
  rw [FileSystem.names] at hnames
  cases hnode : fs.find? directory with
  | none => simp [hnode] at hnames
  | some node =>
      cases node with
      | file => simp [hnode] at hnames
      | directory a es =>
          rw [hnode] at hnames
          obtain rfl := Except.ok.inj hnames
          have hmet := Node.metIn_walk h hnode []
          rw [List.nil_append] at hmet
          have hsame : ∀ place ∈ (fs.root.walk []).map (·.1),
              ((fun path => decide (path ≠ "/" ∧ Path.dirname path = Path.normalize directory)) ∘
                Path.ofSegments) place =
              decide (place ≠ [] ∧ place.dropLast = Path.segments directory) := by
            intro place hplace
            obtain ⟨met, hmem, rfl⟩ := List.mem_map.1 hplace
            have hsegments := Node.IsProper.isSegment_of_find? h (h.find?_of_mem_walk_root hmem)
            have hroot : Path.ofSegments met.1 = "/" ↔ met.1 = [] :=
              ⟨fun heq => Path.ofSegments_injective hsegments (by simp) heq, fun heq => by
                rw [heq]; rfl⟩
            have hdirectory : Path.dirname (Path.ofSegments met.1) = Path.normalize directory ↔
                met.1.dropLast = Path.segments directory := by
              rw [Path.dirname, h.segments_of_mem_walk_root hmem]
              refine ⟨fun heq => Path.ofSegments_injective
                (fun n hn => hsegments n (List.dropLast_subset _ hn))
                (fun n hn => Path.isSegment_of_mem_segments hn) heq, fun heq => by rw [heq]; rfl⟩
            rw [Function.comp_apply, decide_eq_decide, Ne, Ne, hroot, hdirectory]
          rw [List.filter_map, List.filter_congr hsame]
          change (Node.metIn _ _).map _ = _
          rw [hmet, List.map_map]
          rfl

/-- The walk of a proper file system from its root lists it. -/
theorem IsProper.exists_listing (h : fs.IsProper) :
    ∃ nodes, fs.walk "/" = .ok nodes ∧ fs.IsListing nodes := by
  have habove : ((fs.root.walk []).map fun (place, node) => fs.statOf place node).Pairwise
      fun earlier later => Path.isWithin earlier.path later.path = false := by
    rw [List.pairwise_map]
    refine (Node.pairwise_walk h []).imp_of_mem fun {earlier later} hearlier hlater hapart => ?_
    rw [Bool.eq_false_iff, Ne, Path.isWithin_iff]
    change ¬ Path.segments (Path.ofSegments later.1) <+: Path.segments (Path.ofSegments earlier.1)
    rwa [h.segments_of_mem_walk_root hearlier, h.segments_of_mem_walk_root hlater]
  refine ⟨_, fs.walk_root, ⟨?_, ?_, ?_, habove, ?_⟩⟩
  · intro node hnode
    obtain ⟨met, hmet, rfl⟩ := List.mem_map.1 hnode
    change fs.stat? (Path.ofSegments met.1) = some (fs.statOf met.1 met.2)
    rw [stat?, FileSystem.find?, h.segments_of_mem_walk_root hmet, h.find?_of_mem_walk_root hmet]
    rfl
  · rw [map_path_walk]
    exact h.mem_map_path_walk_iff
  · rw [List.nodup_iff_pairwise_ne, List.pairwise_map]
    refine habove.imp fun {earlier later} hapart heq => ?_
    have hself := (Path.isWithin_iff earlier.path earlier.path).2 List.prefix_rfl
    rw [← heq, hself] at hapart
    cases hapart
  · intro directory names hnames
    rw [map_path_walk]
    exact h.filter_map_path_walk hnames

end FileSystem

end PracticeShell
