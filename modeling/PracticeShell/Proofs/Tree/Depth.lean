import PracticeShell.Proofs.Tree.CopyTree

/-!
# How deep a copy goes

A copy goes down at most as many levels as its source has when it starts, also if it writes into its
source, as long as the target is not within it: what it makes there lies no deeper than what it is a
copy of (`shallow_copyNode`). So it never runs out of levels (`finishes_copyNode`), and more of them
change nothing (`run_copyNode_add`).
-/

namespace PracticeShell

open FileTree FileTree.Change Run

namespace FileTree.Node

theorem height_le_heightEntries {es : Entries} {name : String} {node : Node}
    (h : Entries.get? es name = some node) : node.height ≤ heightEntries es := by
  induction es with
  | nil => cases h
  | cons entry rest ih =>
      obtain ⟨n, child⟩ := entry
      rw [heightEntries]
      rw [Entries.get?_cons] at h
      split at h
      · obtain rfl := Option.some.inj h
        exact Nat.le_max_left _ _
      · exact Nat.le_trans (ih h) (Nat.le_max_right _ _)

/-- What is found in a node is less far down than the node is high. -/
theorem length_lt_height {place : List String} {node there : Node}
    (h : node.find? place = some there) : place.length < node.height := by
  induction place generalizing node with
  | nil => cases node <;> simp [height]
  | cons name rest ih =>
      cases node with
      | file => cases h
      | directory a es =>
          rw [find?_cons_directory] at h
          obtain ⟨child, hchild, hrest⟩ := Option.bind_eq_some_iff.1 h
          have hle := height_le_heightEntries hchild
          have hlt := ih hrest
          rw [height, List.length_cons]
          omega

end FileTree.Node

namespace FileSystem

/-- The number of levels of the node at a path. -/
def height (fs : FileSystem) (path : String) : Nat := ((fs.find? path).map Node.height).getD 0

/-- Whether nothing at or below a place is more levels down than a number. -/
def Shallow (place : List String) (levels : Nat) (fs : FileSystem) : Prop :=
  ∀ below, (fs.faceAt (place ++ below)).isSome → below.length < levels

variable {fs : FileSystem} {source target : List String} {levels : Nat}

theorem shallow_height (fs : FileSystem) (path : String) :
    fs.Shallow (Path.segments path) (fs.height path) := by
  intro below hbelow
  rw [faceAt, Node.isSome_faceAt, Node.find?_append] at hbelow
  obtain ⟨there, hthere⟩ := Option.isSome_iff_exists.1 hbelow
  obtain ⟨node, hnode, hfind⟩ := Option.bind_eq_some_iff.1 hthere
  have hfound : fs.find? path = some node := hnode
  rw [height, hfound]
  exact Node.length_lt_height hfind

/-- A change at a target that is not within a place leaves the place shallow if it is no farther down
than the place reaches. -/
theorem shallow_apply {c : Change} {below : List String} (h : fs.Shallow source levels)
    (houtside : ¬ source <+: target) (hfits : c.Fits fs) (hc : c.Lays (target ++ below))
    (hlength : below.length < levels) : (c.apply fs).Shallow source levels := by
  intro rest hrest
  by_cases hthere : (fs.faceAt (source ++ rest)).isSome
  · exact h rest hthere
  -- only the place that is laid is new, and it is met above the source, if at all
  · have hplace : source ++ rest = target ++ below := by
      rcases hc with ⟨parent, name, node, hsplit, rfl⟩ | ⟨contents, rfl⟩
      · rw [hsplit]
        by_contra hne
        rw [faceAt_make hfits, if_neg hne] at hrest
        split at hrest
        · rename_i hparent
          rw [Option.isSome_map, ← hparent] at hrest
          exact hthere hrest
        · exact hthere hrest
      · by_contra hne
        rw [faceAt_fill hfits, if_neg hne] at hrest
        exact hthere hrest
    have hways := List.prefix_or_prefix_of_prefix (List.prefix_append source rest)
      (hplace ▸ List.prefix_append target below)
    have hprefix : target <+: source := hways.resolve_left houtside
    have hlengths := congrArg List.length hplace
    rw [List.length_append, List.length_append] at hlengths
    have hle := hprefix.length_le
    omega

end FileSystem

namespace Edit

open FileSystem

variable {fs : FileSystem} {owner : Option String} {source target : String} {levels : Nat}

/-- Whether an operation is not cut off for lack of levels. -/
def Finishes {α : Type} (operation : Edit α) (fs : FileSystem) : Prop :=
  ∀ e later, operation.run fs = .error e later → e.cause ≠ .endless

section

variable {α β : Type} {x : Edit α}

theorem finishes_pure (a : α) (fs : FileSystem) : Finishes (pure a) fs := by
  intro e later hrun
  cases hrun

theorem finishes_throw {e : FileTree.Error} (h : e.cause ≠ .endless) (fs : FileSystem) :
    Finishes (throw e : Edit α) fs := by
  intro e' later hrun
  cases hrun
  exact h

theorem finishes_modify (f : FileSystem → FileSystem) (fs : FileSystem) :
    Finishes (modify f) fs := by
  intro e later hrun
  cases hrun

theorem finishes_bind_iff {f : α → Edit β} : Finishes (x >>= f) fs ↔
    Finishes x fs ∧ ∀ a later, x.run fs = .ok a later → Finishes (f a) later := by
  unfold Finishes
  rw [EStateM.run_bind]
  cases x.run fs with
  | ok a later => simp
  | error e later => simp

theorem finishes_get_bind {f : FileSystem → Edit β} (h : Finishes (f fs) fs) :
    Finishes (get >>= f) fs := h

theorem finishes_throw_bind {e : FileTree.Error} (h : e.cause ≠ .endless) (f : α → Edit β)
    (fs : FileSystem) : Finishes (throw e >>= f) fs :=
  finishes_bind_iff.2 ⟨finishes_throw h fs, fun _ _ hrun => nomatch hrun⟩

theorem finishes_forM {γ : Type} {I : FileSystem → Prop} {l : List γ} {f : γ → Edit PUnit}
    (h : ∀ c ∈ l, ∀ t, I t → Finishes (f c) t ∧ I (left ((f c).run t))) (hfs : I fs) :
    Finishes (l.forM f) fs := by
  induction l generalizing fs with
  | nil => exact finishes_pure _ fs
  | cons c l ih =>
      obtain ⟨hfirst, hleft⟩ := h c (by simp) fs hfs
      refine finishes_bind_iff.2 ⟨hfirst, fun _ t hrun => ?_⟩
      rw [hrun] at hleft
      exact ih (fun d hd => h d (by simp [hd])) hleft

/-- Runs that are not cut off do the same as others that do the same where they are not cut off. -/
theorem run_forM_of_finishes {γ : Type} {l : List γ} {f g : γ → Edit PUnit}
    (h : ∀ c ∈ l, ∀ t, Finishes (f c) t → (g c).run t = (f c).run t)
    (hfinishes : Finishes (l.forM f) fs) : (l.forM g).run fs = (l.forM f).run fs := by
  induction l generalizing fs with
  | nil => rfl
  | cons c l ih =>
      obtain ⟨hfirst, hrest⟩ := finishes_bind_iff.1 hfinishes
      change (g c >>= fun _ => l.forM g).run fs = (f c >>= fun _ => l.forM f).run fs
      rw [EStateM.run_bind, h c (by simp) fs hfirst, EStateM.run_bind]
      cases hrun : (f c).run fs with
      | ok a t => exact ih (fun d hd => h d (by simp [hd])) (hrest a t hrun)
      | error e t => rfl

end

theorem finishes_parentOf (path : String) (fs : FileSystem) : Finishes (parentOf path) fs := by
  unfold parentOf
  dsimp only
  split
  · exact finishes_throw (by simp) fs
  · refine finishes_get_bind ?_
    split
    · exact finishes_throw (by simp) fs
    · exact finishes_throw (by simp) fs
    · exact finishes_pure _ fs

theorem finishes_makeDirectory (path : String) (permissions : Permissions) (owner : Option String)
    (fs : FileSystem) : Finishes (makeDirectory path permissions owner) fs := by
  unfold makeDirectory
  dsimp only
  split
  · exact finishes_throw_bind (by simp) _ fs
  · refine finishes_bind_iff.2 ⟨finishes_parentOf path fs, ?_⟩
    rintro ⟨parent, es, name⟩ later -
    dsimp only
    split
    · exact finishes_throw_bind (by simp) _ later
    · exact finishes_modify _ later

theorem finishes_write (path : String) (bytes : ByteArray) (owner : Option String)
    (permissions : Permissions) (fs : FileSystem) :
    Finishes (write path bytes owner permissions) fs := by
  unfold write
  refine finishes_bind_iff.2 ⟨finishes_parentOf path fs, ?_⟩
  rintro ⟨parent, es, name⟩ later -
  dsimp only
  split
  · exact finishes_throw (by simp) later
  · exact finishes_modify _ later
  · exact finishes_modify _ later

theorem finishes_copyFile (source target : String) (owner : Option String) (fs : FileSystem) :
    Finishes (copyFile source target owner) fs := by
  unfold copyFile
  refine finishes_get_bind ?_
  split
  · exact finishes_throw (by simp) fs
  · exact finishes_throw (by simp) fs
  · exact finishes_write _ _ _ _ fs

/-- The names in a directory are not asked for in vain for lack of levels. -/
theorem finishes_names (path : String) (fs : FileSystem) : Finishes (ask (·.names path)) fs := by
  intro e later hrun
  rw [run_ask, FileSystem.names] at hrun
  cases hnode : fs.find? path with
  | none =>
      rw [hnode] at hrun
      cases hrun
      simp
  | some node =>
      rw [hnode] at hrun
      cases node with
      | file =>
          cases hrun
          simp
      | directory => cases hrun

/-- Where the source of a copy is as far down as its target, its place stays shallow. -/
theorem Makes.shallow {operation : Edit Unit} {place other below : List String} {height : Nat}
    (hmakes : Makes (Lays (Path.segments target)) operation fs) (houtside : ¬ place <+: other)
    (htarget : Path.segments target = other ++ below) (h : fs.Shallow place height)
    (hthere : (fs.faceAt (place ++ below)).isSome) :
    (left (operation.run fs)).Shallow place height := by
  refine hmakes.leads (R := fun _ later => later.Shallow place height) h fun c hc hfits => ?_
  rw [htarget] at hc
  exact shallow_apply h houtside hfits hc (h below hthere)

theorem segments_entryPath_below {directory name : String} {place below : List String}
    (hdirectory : Path.segments directory = place ++ below) (hname : Path.IsSegment name) :
    Path.segments (entryPath directory name) = place ++ (below ++ [name]) := by
  rw [Path.segments_entryPath directory hname, hdirectory, List.append_assoc]

/-- The copy of all entries is not cut off if no entry's copy is. -/
theorem finishes_copyEntries {I : FileSystem → Prop} {copy : String → String → Edit Unit}
    (h : ∀ names, fs.names source = .ok names → ∀ name ∈ names, ∀ t, I t →
      Finishes (copy (entryPath source name) (entryPath target name)) t ∧
        I (left ((copy (entryPath source name) (entryPath target name)).run t)))
    (hfs : I fs) : Finishes (copyEntries copy source target) fs := by
  cases hnames : fs.names source with
  | error e =>
      refine finishes_bind_iff.2 ⟨finishes_names source fs, fun names t hrun => ?_⟩
      rw [run_ask, hnames] at hrun
      cases hrun
  | ok names =>
      rw [Finishes, run_copyEntries hnames]
      exact finishes_forM (fun name hname t ht => h names hnames name hname t ht) hfs

/-- What a directory lists stays in it while the file system grows. -/
theorem isSome_faceAt_entry {later : FileSystem} {names place below : List String}
    (hsource : Path.segments source = place ++ below) (hnames : fs.names source = .ok names)
    (h : Reaches IsGrowth fs later) {name : String} (hname : name ∈ names) :
    (later.faceAt (place ++ (below ++ [name]))).isSome := by
  obtain ⟨a, hface⟩ := names_eq_ok_iff.1 hnames
  obtain ⟨node, hnode⟩ := Option.isSome_iff_exists.1 (isSome_find?_of_mem_names hface hname)
  obtain ⟨last, hlast, -⟩ := h.exists_faceAt (faceAt_eq_some.2 ⟨node, hnode, rfl⟩)
  rw [← List.append_assoc, ← hsource, hlast]
  rfl

/-- What a copy makes lies no deeper than what it is a copy of: its source stays shallow. -/
theorem shallow_copyNode {place other : List String} {height : Nat} (houtside : ¬ place <+: other)
    (levels : Nat) {below : List String} (hproper : fs.IsProper)
    (hsource : Path.segments source = place ++ below)
    (htarget : Path.segments target = other ++ below) (h : fs.Shallow place height) :
    (left ((copyNode owner levels source target).run fs)).Shallow place height := by
  induction levels generalizing source target fs below with
  | zero => exact h
  | succ levels ih =>
      have hthere : ∀ {node}, fs.find? source = some node → (fs.faceAt (place ++ below)).isSome :=
        fun {node} hnode => by
          rw [FileSystem.find?, hsource] at hnode
          rw [FileSystem.faceAt, Node.isSome_faceAt, hnode]
          rfl
      have hentries : ∀ t : FileSystem, t.IsProper → t.Shallow place height →
          (left ((copyEntries (copyNode owner levels) source target).run t)).Shallow place
            height := by
        intro t ht hshallow
        refine (copyEntries_keeps (P := fun u => u.IsProper ∧ u.Shallow place height) ?_
          ⟨ht, hshallow⟩).2
        rintro names hnames name hname u ⟨hu, hshallow⟩
        have hsegment := (ht.names hnames).2 name hname
        exact ⟨hu.of_grows (copyNode_grows owner levels _ _ u),
          ih hu (segments_entryPath_below hsource hsegment)
            (segments_entryPath_below htarget hsegment) hshallow⟩
      rw [run_copyNode_succ]
      split
      · exact h
      · rename_i hnode
        exact (copyFile_lays source target owner fs).shallow houtside htarget h (hthere hnode)
      · rename_i a es hnode
        split
        · exact hentries fs hproper h
        · have hmade := (makeDirectory_lays target a.permissions owner fs).shallow houtside htarget h
            (hthere hnode)
          have hgrows := hproper.of_grows (makeDirectory_grows fs target a.permissions owner)
          rw [EStateM.run_bind]
          cases hrun : (makeDirectory target a.permissions owner).run fs with
          | error e t => rwa [hrun] at hmade
          | ok _ t =>
              rw [hrun] at hmade hgrows
              exact hentries t hgrows hmade

/-- A copy that may go down as many levels as its source has left is not cut off. -/
theorem finishes_copyNode {place other : List String} {height : Nat} (houtside : ¬ place <+: other)
    (levels : Nat) {below : List String} (hproper : fs.IsProper)
    (hsource : Path.segments source = place ++ below)
    (htarget : Path.segments target = other ++ below) (h : fs.Shallow place height)
    (hthere : (fs.faceAt (place ++ below)).isSome) (hlevels : height ≤ below.length + levels) :
    Finishes (copyNode owner levels source target) fs := by
  induction levels generalizing source target fs below with
  | zero =>
      have hlength := h below hthere
      omega
  | succ levels ih =>
      have hentries : ∀ t : FileSystem, t.IsProper → t.Shallow place height →
          Finishes (copyEntries (copyNode owner levels) source target) t := by
        intro t ht hshallow
        refine finishes_copyEntries (I := fun u => u.IsProper ∧ u.Shallow place height ∧
          Reaches IsGrowth t u) ?_ ⟨ht, hshallow, .refl⟩
        rintro names hnames name hname u ⟨hu, hshallow, hgrown⟩
        have hsegment := (ht.names hnames).2 name hname
        have hsourceEntry := segments_entryPath_below hsource hsegment
        have htargetEntry := segments_entryPath_below htarget hsegment
        have hgrows := copyNode_grows owner levels (entryPath source name) (entryPath target name) u
        refine ⟨ih hu hsourceEntry htargetEntry hshallow
            (isSome_faceAt_entry hsource hnames hgrown hname) ?_,
          hu.of_growth hgrows,
          shallow_copyNode houtside levels hu hsourceEntry htargetEntry hshallow,
          hgrown.trans hgrows⟩
        rw [List.length_append, List.length_singleton]
        omega
      rw [Finishes, run_copyNode_succ]
      split
      · rintro e later ⟨⟩
        simp
      · exact finishes_copyFile source target owner fs
      · rename_i a es hnode
        split
        · exact hentries fs hproper h
        · refine finishes_bind_iff.2 ⟨finishes_makeDirectory _ _ _ fs, fun _ t hrun => ?_⟩
          have hgrows := (makeDirectory_grows fs target a.permissions owner).of_run hrun
          have hshallow := (makeDirectory_lays target a.permissions owner fs).shallow houtside
            htarget h hthere
          rw [hrun] at hshallow
          exact hentries t (hproper.of_growth hgrows) hshallow

/-- A copy that is not cut off is not changed by more levels. -/
theorem run_copyNode_add (levels more : Nat)
    (h : Finishes (copyNode owner levels source target) fs) :
    (copyNode owner (levels + more) source target).run fs =
      (copyNode owner levels source target).run fs := by
  induction levels generalizing source target fs with
  | zero => exact absurd rfl (h _ _ rfl)
  | succ levels ih =>
      have hentries : ∀ t, Finishes (copyEntries (copyNode owner levels) source target) t →
          (copyEntries (copyNode owner (levels + more)) source target).run t =
            (copyEntries (copyNode owner levels) source target).run t := fun t ht =>
        run_bind_congr fun names u hrun =>
          run_forM_of_finishes (fun _ _ _ hfinishes => ih hfinishes)
            ((finishes_bind_iff.1 ht).2 names u hrun)
      rw [Finishes, run_copyNode_succ] at h
      rw [Nat.add_right_comm, run_copyNode_succ, run_copyNode_succ]
      split
      · rfl
      · rfl
      · rename_i a es hnode
        rw [hnode] at h
        dsimp only at h
        split
        · rename_i hdir
          rw [if_pos hdir] at h
          exact hentries fs h
        · rename_i hdir
          rw [if_neg hdir] at h
          exact run_bind_congr fun _ t hrun => hentries t ((finishes_bind_iff.1 h).2 _ t hrun)

/-- A copy to a place that is not within its source goes down no more levels than the source has: it
does the same with as many levels as with any more, and is not cut off. -/
theorem copyNode_within_height (hproper : fs.IsProper) (hthere : fs.contains source = true)
    (houtside : Path.isWithin target source = false) (hlevels : fs.height source ≤ levels) :
    Finishes (copyNode owner levels source target) fs ∧
      (copyNode owner levels source target).run fs = (copyTree source target owner).run fs := by
  rw [← Bool.not_eq_true, Path.isWithin_iff] at houtside
  have hfinishes : ∀ levels, fs.height source ≤ levels →
      Finishes (copyNode owner levels source target) fs := by
    intro levels hlevels
    have hsource : Path.segments source = Path.segments source ++ [] := (List.append_nil _).symm
    have htarget : Path.segments target = Path.segments target ++ [] := (List.append_nil _).symm
    refine finishes_copyNode houtside levels hproper hsource htarget (shallow_height fs source) ?_
      (by simpa using hlevels)
    rw [List.append_nil, FileSystem.faceAt, Node.isSome_faceAt]
    exact hthere
  obtain ⟨more, rfl⟩ := Nat.exists_eq_add_of_le hlevels
  have hheight := hfinishes _ (Nat.le_refl (fs.height source))
  refine ⟨hfinishes _ hlevels, ?_⟩
  rw [run_copyTree, run_copyNode_add _ more hheight]
  exact (run_copyNode_add _ 1 hheight).symm

end Edit

end PracticeShell
