import Mathlib.Tactic.ByContra
import PracticeShell.Proofs.Places
import PracticeShell.Proofs.Tree.Proper

/-!
# What copying a directory spares

A copy changes what is at its target and below, and the directory that it makes the target in;
`faceAt_copyNode_outside` says that everything else stays. If neither place is within the other, what
is copied stays too, and a node below the target is met once: when the entry that it lies below has
its turn (`copyEntries_turn`). So it shows as before unless the source has something that it does not
show (`timeless_copyNode`).
-/

namespace PracticeShell

open FileTree FileTree.Change Run

namespace FileTree

namespace Face

/-- A face without the time of the last change. -/
def timeless : Face → Face := mapAttributes fun a => { a with modified := 0 }

/-- Whether a face shows all that another does: the same contents, or at least the same names. -/
def Includes : Face → Face → Prop
  | file _ contents, file _ others => contents = others
  | directory _ names, directory _ others => ∀ name ∈ others, name ∈ names
  | _, _ => False

/-- Whether what may be in the source of a copy brings something new to a node of its kind. -/
def Overlays (source : Option Face) (there : Face) : Prop :=
  ∃ face ∈ source, face.isDirectory = there.isDirectory ∧ ¬ there.Includes face

/-- What a face includes does not depend on the time of its last change. -/
theorem includes_of_timeless_eq {there later face : Face} (h : there.timeless = later.timeless)
    (hlater : later.Includes face) : there.Includes face := by
  cases there <;> cases later <;> simp [timeless, mapAttributes] at h
  · cases face <;> simp_all [Includes]
  · cases face <;> simp_all [Includes]

end Face

/-- Whether neither of two places is within the other. -/
def Apart (place other : List String) : Prop := ¬ place <+: other ∧ ¬ other <+: place

theorem Apart.append {place other : List String} (h : Apart place other)
    (below rest : List String) : Apart (place ++ below) (other ++ rest) := by
  have hplace := List.prefix_append place below
  have hother := List.prefix_append other rest
  constructor
  · intro hprefix
    rcases List.prefix_or_prefix_of_prefix (hplace.trans hprefix) hother with h' | h'
    · exact h.1 h'
    · exact h.2 h'
  · intro hprefix
    rcases List.prefix_or_prefix_of_prefix hplace (hother.trans hprefix) with h' | h'
    · exact h.1 h'
    · exact h.2 h'

theorem Apart.not_append_prefix {place other : List String} (h : Apart place other)
    (below rest : List String) : ¬ other ++ rest <+: place ++ below :=
  (h.append below rest).2

/-- Whether a change makes or fills the node at a place. -/
def Change.Lays (place : List String) (c : Change) : Prop :=
  (∃ parent name node, place = parent ++ [name] ∧ c = .make parent name node) ∨
    ∃ contents, c = .fill place contents

end FileTree

namespace FileSystem

variable {fs : FileSystem}

/-- A name that is seen in a directory is that of a node. -/
theorem isSome_find?_of_mem_names {place : List String} {face : Face}
    (hface : fs.faceAt place = some face) {name : String} (hname : name ∈ face.names) :
    (fs.root.find? (place ++ [name])).isSome := by
  obtain ⟨node, hnode, rfl⟩ := faceAt_eq_some.1 hface
  cases node with
  | file => simp [Face.names] at hname
  | directory a es =>
      rw [Edit.find?_entry hnode, ← Entries.mem_names_iff]
      exact hname

/-- A node in a directory is seen there by its name. -/
theorem mem_names_of_isSome_find? {place : List String} {face : Face}
    (hface : fs.faceAt place = some face) {name : String}
    (hnode : (fs.root.find? (place ++ [name])).isSome) : name ∈ face.names := by
  obtain ⟨node, hfind, rfl⟩ := faceAt_eq_some.1 hface
  cases node with
  | file => simp [Node.find?_append, hfind, Node.find?] at hnode
  | directory a es =>
      rw [Edit.find?_entry hfind, ← Entries.mem_names_iff] at hnode
      exact hnode

/-- Whether the same is seen at a place and below it. -/
def SameBelow (place : List String) (fs later : FileSystem) : Prop :=
  ∀ below, later.faceAt (place ++ below) = fs.faceAt (place ++ below)

theorem lasting_sameBelow (place : List String) : Lasting (SameBelow place) :=
  ⟨fun _ _ => rfl, fun h h' below => (h' below).trans (h below)⟩

/-- Whether a place is neither at a target nor below it, nor the directory that the target would be
made in. -/
def Outside (fs : FileSystem) (target place : List String) : Prop :=
  ¬ target <+: place ∧ (place = target.dropLast → (fs.root.find? target).isSome)

/-- What is apart from a target, and below it, is outside of it. -/
theorem outside_of_apart {place target : List String} (h : Apart place target)
    (below : List String) : fs.Outside target (place ++ below) := by
  refine ⟨by simpa using h.not_append_prefix below [], fun heq => ?_⟩
  exact absurd ((List.prefix_append _ _).trans (heq ▸ List.dropLast_prefix _)) h.1

/-- Making a node at a target, or filling it, changes nothing outside. -/
theorem faceAt_apply_outside {target place : List String} (h : fs.Outside target place)
    {c : Change} (hfits : c.Fits fs) (hc : c.Lays target) :
    (c.apply fs).faceAt place = fs.faceAt place := by
  obtain ⟨hbelow, hparent⟩ := h
  rcases hc with ⟨parent, name, node, rfl, rfl⟩ | ⟨contents, rfl⟩
  · have hself : place ≠ parent ++ [name] := fun heq => hbelow (heq ▸ List.prefix_rfl)
    have habove : place ≠ parent := by
      intro heq
      have hsome := hparent (by simpa using heq)
      rw [hfits.2.1] at hsome
      simp at hsome
    rw [faceAt_make hfits, if_neg habove, if_neg hself]
  · have hself : place ≠ target := fun heq => hbelow (heq ▸ List.prefix_rfl)
    rw [faceAt_fill hfits, if_neg hself]

end FileSystem

namespace Edit

open FileSystem

variable {fs : FileSystem} {owner : Option String} {source target : String}
  {place below : List String} {face : Face}

theorem makeDirectory_lays (target : String) (permissions : Permissions) (owner : Option String)
    (fs : FileSystem) :
    Makes (Lays (Path.segments target)) (makeDirectory target permissions owner) fs := by
  refine (makes_makeDirectory target permissions owner fs).imp ?_
  rintro c - ⟨parent, name, hpath, rfl⟩
  exact .inl ⟨parent, name, _, hpath, rfl⟩

theorem copyFile_lays (source target : String) (owner : Option String) (fs : FileSystem) :
    Makes (Lays (Path.segments target)) (copyFile source target owner) fs := by
  refine (makes_copyFile source target owner fs).imp ?_
  rintro c - ⟨a, contents, -, ⟨parent, name, hpath, rfl⟩ | rfl⟩
  · exact .inl ⟨parent, name, _, hpath, rfl⟩
  · exact .inr ⟨contents, rfl⟩

/-- What is seen outside of the target of an operation that makes or fills a node. -/
theorem Makes.faceAt_outside {operation : Edit Unit}
    (h : Makes (Lays (Path.segments target)) operation fs)
    (houtside : fs.Outside (Path.segments target) place) :
    (left (operation.run fs)).faceAt place = fs.faceAt place :=
  h.leads (R := fun fs later => later.faceAt place = fs.faceAt place) rfl fun _ hc hfits =>
    faceAt_apply_outside houtside hfits hc

theorem copyNode_grows (owner : Option String) (levels : Nat) (source target : String)
    (fs : FileSystem) : Leads (Reaches IsGrowth) (copyNode owner levels source target) fs :=
  leads_copyNode (lasting_reaches IsGrowth)
    (fun path permissions fs => makeDirectory_grows fs path permissions owner)
    (fun source target fs => copyFile_grows fs source target owner) levels source target fs

theorem run_copyTree (source target : String) (owner : Option String) (fs : FileSystem) :
    (copyTree source target owner).run fs =
      (copyNode owner (copyLevels fs source) source target).run fs := by
  rw [copyTree, EStateM.run_bind, EStateM.run_get]

/-- The entries that are copied are those that the source has at the start. -/
theorem run_copyEntries {names : List String} (h : fs.names source = .ok names)
    (copy : String → String → Edit Unit) :
    (copyEntries copy source target).run fs =
      (names.forM fun name => copy (entryPath source name) (entryPath target name)).run fs := by
  rw [copyEntries, EStateM.run_bind, run_ask, h]

/-- What each entry's copy keeps, the copy of all entries keeps. -/
theorem copyEntries_keeps {P : FileSystem → Prop} {copy : String → String → Edit Unit}
    (h : ∀ names, fs.names source = .ok names → ∀ name ∈ names, ∀ t, P t →
      P (left ((copy (entryPath source name) (entryPath target name)).run t)))
    (hfs : P fs) : P (left ((copyEntries copy source target).run fs)) := by
  cases hnames : fs.names source with
  | error e =>
      rw [copyEntries, EStateM.run_bind, run_ask, hnames]
      exact hfs
  | ok names =>
      rw [run_copyEntries hnames]
      exact Leads.forM (lasting_invariant P) (fun name hname t => h names hnames name hname t) fs
        hfs

/-- What is seen outside of all entries that are copied, if each copy keeps what is outside of its
target. -/
theorem faceAt_copyEntries_outside {copy : String → String → Edit Unit}
    (hgrows : ∀ source target t, Leads (Reaches IsGrowth) (copy source target) t)
    (hcopy : ∀ source target (t : FileSystem), t.IsProper → t.Outside (Path.segments target) place →
      (left ((copy source target).run t)).faceAt place = t.faceAt place)
    (hproper : fs.IsProper) (hself : place ≠ Path.segments target)
    (hbelow : ∀ names, fs.names source = .ok names → ∀ name ∈ names,
      ¬ Path.segments target ++ [name] <+: place) :
    (left ((copyEntries copy source target).run fs)).faceAt place = fs.faceAt place := by
  refine (copyEntries_keeps (P := fun t => t.IsProper ∧ t.faceAt place = fs.faceAt place)
    ?_ ⟨hproper, rfl⟩).2
  rintro names hnames name hname t ⟨ht, hplace⟩
  have hpath := Path.segments_entryPath target ((hproper.names hnames).2 name hname)
  refine ⟨ht.of_grows (hgrows _ _ t), (hcopy _ _ t ht ⟨?_, fun heq => ?_⟩).trans hplace⟩
  · rw [hpath]
    exact hbelow names hnames name hname
  · rw [hpath, List.dropLast_concat] at heq
    exact absurd heq hself

/-- A copy changes nothing outside of its target. -/
theorem faceAt_copyNode_outside (levels : Nat) (hproper : fs.IsProper)
    (h : fs.Outside (Path.segments target) place) :
    (left ((copyNode owner levels source target).run fs)).faceAt place = fs.faceAt place := by
  induction levels generalizing source target fs with
  | zero => rfl
  | succ levels ih =>
      have hentries : ∀ t : FileSystem, t.IsProper →
          (left ((copyEntries (copyNode owner levels) source target).run t)).faceAt place =
            t.faceAt place := fun t ht =>
        faceAt_copyEntries_outside (copyNode_grows owner levels) (fun _ _ u hu => ih hu) ht
          (fun heq => h.1 (heq ▸ List.prefix_rfl))
          fun _ _ name _ hprefix => h.1 ((List.prefix_append _ [name]).trans hprefix)
      rw [run_copyNode_succ]
      split
      · rfl
      · exact (copyFile_lays source target owner fs).faceAt_outside h
      · rename_i a es hnode
        split
        · exact hentries fs hproper
        · have hmade := (makeDirectory_lays target a.permissions owner fs).faceAt_outside h
          have hgrows := makeDirectory_grows fs target a.permissions owner
          rw [EStateM.run_bind]
          cases hrun : (makeDirectory target a.permissions owner).run fs with
          | error e t => rwa [hrun] at hmade
          | ok _ t =>
              have ht := hproper.of_grows hgrows
              rw [hrun] at hmade ht
              exact (hentries t ht).trans hmade

/-- The copy of an entry is left alone by the copies of the other entries. -/
theorem copyNode_beside {names : List String} (levels : Nat)
    (hapart : Apart (Path.segments source) (Path.segments target)) (hnames : ProperNames names)
    {name other : String} (hother : other ∈ names) (hne : other ≠ name) (hproper : fs.IsProper) :
    SameBelow (Path.segments target ++ [name]) fs
        (left ((copyNode owner levels (entryPath source other) (entryPath target other)).run fs)) ∧
      SameBelow (Path.segments source) fs
        (left ((copyNode owner levels (entryPath source other) (entryPath target other)).run fs)) := by
  have hpath := Path.segments_entryPath target (hnames.2 other hother)
  constructor
  · intro below
    refine faceAt_copyNode_outside levels hproper ⟨?_, fun heq => ?_⟩
    · rw [hpath, List.append_assoc, List.prefix_append_right_inj, List.singleton_append]
      intro hprefix
      exact hne (List.cons_prefix_cons.1 hprefix).1
    · rw [hpath, List.dropLast_concat, List.append_assoc] at heq
      simp at heq
  · intro below
    refine faceAt_copyNode_outside levels hproper ⟨?_, fun heq => ?_⟩
    · rw [hpath]
      exact hapart.not_append_prefix below [other]
    · rw [hpath, List.dropLast_concat] at heq
      exact absurd ⟨below, heq⟩ hapart.1

/-- When the entries of a directory are copied, each has its turn once, unless there is a failure
before. Up to then its copy and the whole source are as they were, and after that its copy stays. -/
theorem copyEntries_turn (owner : Option String) (levels : Nat) (hproper : fs.IsProper)
    (hapart : Apart (Path.segments source) (Path.segments target)) {names : List String}
    (hnames : fs.names source = .ok names) {name : String} (hname : name ∈ names) :
    (SameBelow (Path.segments target ++ [name]) fs
        (left ((copyEntries (copyNode owner levels) source target).run fs)) ∧
      ∀ t, (copyEntries (copyNode owner levels) source target).run fs ≠ .ok () t) ∨
    ∃ t, Reaches IsGrowth fs t ∧ SameBelow (Path.segments target ++ [name]) fs t ∧
      SameBelow (Path.segments source) fs t ∧
      SameBelow (Path.segments target ++ [name])
        (left ((copyNode owner levels (entryPath source name) (entryPath target name)).run t))
        (left ((copyEntries (copyNode owner levels) source target).run fs)) ∧
      ∀ v, (copyEntries (copyNode owner levels) source target).run fs = .ok () v →
        ∃ u, (copyNode owner levels (entryPath source name) (entryPath target name)).run t =
          .ok () u := by
  have hproperNames := hproper.names hnames
  have hR : Lasting fun s t : FileSystem => s.IsProper → Reaches IsGrowth s t ∧
      SameBelow (Path.segments target ++ [name]) s t ∧ SameBelow (Path.segments source) s t := by
    refine ⟨fun s _ => ⟨.refl, fun _ => rfl, fun _ => rfl⟩, fun h h' hs => ?_⟩
    obtain ⟨ht, htarget, hsource⟩ := h hs
    obtain ⟨hu, htarget', hsource'⟩ := h' (hs.of_growth ht)
    exact ⟨ht.trans hu, (lasting_sameBelow _).trans htarget htarget',
      (lasting_sameBelow _).trans hsource hsource'⟩
  rw [run_copyEntries hnames]
  have hturn := Leads.forM_turn hR hproperNames.1 hname
    (f := fun n => copyNode owner levels (entryPath source n) (entryPath target n))
    (fun other hother hne t ht => ⟨copyNode_grows owner levels _ _ t,
      copyNode_beside levels hapart hproperNames hother hne ht⟩) fs
  rcases hturn with ⟨hleads, hfails⟩ | ⟨t, hbefore, hafter, hok⟩
  · exact .inl ⟨(hleads hproper).2.1, hfails⟩
  · obtain ⟨hreaches, htarget, hsource⟩ := hbefore hproper
    have ht := hproper.of_growth hreaches
    have hlater := hafter (ht.of_grows (copyNode_grows owner levels _ _ t))
    exact .inr ⟨t, hreaches, htarget, hsource, hlater.2.1, hok⟩

/-- What is seen at an entry, and at places below it. -/
theorem faceAt_append_cons (fs : FileSystem) (place : List String) (name : String)
    (below : List String) :
    fs.faceAt (place ++ name :: below) = fs.faceAt (place ++ [name] ++ below) := by
  rw [List.append_assoc, List.singleton_append]

theorem isSome_find?_of_faceAt_append (hface : fs.faceAt (place ++ below) = some face) :
    (fs.root.find? place).isSome := by
  obtain ⟨node, hnode, -⟩ := faceAt_eq_some.1 hface
  rw [Node.find?_append] at hnode
  obtain ⟨there, hthere, -⟩ := Option.bind_eq_some_iff.1 hnode
  rw [hthere]
  rfl

/-- No directory is made where there is something. -/
theorem run_makeDirectory_of_isSome (permissions : Permissions) (owner : Option String)
    (h : (fs.root.find? (Path.segments target)).isSome) :
    ∃ e, (makeDirectory target permissions owner).run fs = .error e fs := by
  rcases makes_makeDirectory target permissions owner fs with
    herror | ⟨c, ⟨parent, name, hpath, rfl⟩, hfits, -⟩
  · exact herror
  · rw [hpath, hfits.2.1] at h
    simp at h

/-- A file that is copied over another brings nothing new if the contents are the same. -/
theorem timeless_copyFile (hface : fs.faceAt (Path.segments target ++ below) = some face)
    (hspared : ¬ Face.Overlays (fs.faceAt (Path.segments source ++ below)) face) :
    ((left ((copyFile source target owner).run fs)).faceAt
        (Path.segments target ++ below)).map Face.timeless = some face.timeless := by
  refine (makes_copyFile source target owner fs).leads
    (R := fun _ later => (later.faceAt (Path.segments target ++ below)).map Face.timeless =
      some face.timeless) (by rw [hface]; rfl) ?_
  rintro c ⟨a, contents, hsource, ⟨parent, name, hpath, rfl⟩ | rfl⟩ hfits
  · have hthere := isSome_find?_of_faceAt_append hface
    rw [hpath, hfits.2.1] at hthere
    simp at hthere
  · obtain ⟨node, hnode, hfile⟩ := (Option.any_eq_true _ _).1 hfits
    cases node with
    | directory => simp [Node.isDirectory] at hfile
    | file b old =>
        rw [FileSystem.faceAt, Node.faceAt_append, hnode, Option.bind_some, Node.faceAt,
          Node.find?_file] at hface
        cases below with
        | cons name below => simp at hface
        | nil =>
            obtain rfl : Face.file b old = face := by simpa using hface
            rw [List.append_nil] at hspared
            have hsame : old = contents := by
              by_contra hne
              refine hspared ⟨.file a contents, ?_, rfl, hne⟩
              rw [FileSystem.find?] at hsource
              simp [FileSystem.faceAt, Node.faceAt, hsource]
            rw [List.append_nil, faceAt_fill hfits, if_pos rfl, FileSystem.faceAt, Node.faceAt,
              hnode, hsame]
            rfl

/-- A directory shows as before after entries are copied into it if it has all of their names. -/
theorem faceAt_copyEntries_self (levels : Nat) (hproper : fs.IsProper) {names : List String}
    (hnames : fs.names source = .ok names)
    (hface : fs.faceAt (Path.segments target) = some face) (hspared : ∀ n ∈ names, n ∈ face.names) :
    (left ((copyEntries (copyNode owner levels) source target).run fs)).faceAt
      (Path.segments target) = some face := by
  refine (copyEntries_keeps
    (P := fun t => t.IsProper ∧ t.faceAt (Path.segments target) = some face) ?_
    ⟨hproper, hface⟩).2
  rintro names' hnames' name hname t ⟨ht, hthere⟩
  obtain rfl : names = names' := Except.ok.inj (hnames.symm.trans hnames')
  have hpath := Path.segments_entryPath target ((hproper.names hnames).2 name hname)
  refine ⟨ht.of_grows (copyNode_grows owner levels _ _ t),
    (faceAt_copyNode_outside levels ht ⟨?_, fun _ => ?_⟩).trans hthere⟩
  · rw [hpath]
    exact not_append_prefix_self _ name
  · rw [hpath]
    exact isSome_find?_of_mem_names hthere (hspared name hname)

/-- What no entry is copied to shows as before. -/
theorem faceAt_copyEntries_of_not_mem (levels : Nat) (hproper : fs.IsProper) {names : List String}
    (hnames : fs.names source = .ok names) {name : String} (hname : name ∉ names) :
    (left ((copyEntries (copyNode owner levels) source target).run fs)).faceAt
      (Path.segments target ++ name :: below) =
        fs.faceAt (Path.segments target ++ name :: below) := by
  refine faceAt_copyEntries_outside (copyNode_grows owner levels)
    (fun _ _ _ ht => faceAt_copyNode_outside levels ht) hproper (by simp) ?_
  intro names' hnames' other hother
  obtain rfl : names = names' := Except.ok.inj (hnames.symm.trans hnames')
  rw [List.prefix_append_right_inj]
  intro hprefix
  exact hname ((List.cons_prefix_cons.1 hprefix).1 ▸ hother)

/-- A node below the target of a copy shows as before, apart from the time of its last change, if the
source brings nothing new to it. -/
theorem timeless_copyNode (levels : Nat) (hproper : fs.IsProper)
    (hapart : Apart (Path.segments source) (Path.segments target))
    (hface : fs.faceAt (Path.segments target ++ below) = some face)
    (hspared : ¬ Face.Overlays (fs.faceAt (Path.segments source ++ below)) face) :
    ((left ((copyNode owner levels source target).run fs)).faceAt
        (Path.segments target ++ below)).map Face.timeless = some face.timeless := by
  induction levels generalizing source target fs below with
  | zero => simp [copyNode, hface]
  | succ levels ih =>
      have hthere := isSome_find?_of_faceAt_append hface
      rw [run_copyNode_succ]
      split
      · rw [left_error, hface]
        rfl
      · exact timeless_copyFile hface hspared
      · rename_i a es hnode
        have hnames : fs.names source = .ok (Entries.names es) := by
          simp [FileSystem.names, hnode]
        split
        · rename_i hdir
          cases below with
          | nil =>
              rw [List.append_nil] at hface hspared ⊢
              refine congrArg (Option.map Face.timeless)
                (faceAt_copyEntries_self levels hproper hnames hface ?_)
              rw [FileSystem.find?] at hnode
              rw [FileSystem.isDirectory, FileSystem.find?, ← any_isDirectory_faceAt, hface] at hdir
              intro name hname
              by_contra hnew
              refine hspared ⟨.directory a (Entries.names es), ?_, hdir.symm, ?_⟩
              · simp [FileSystem.faceAt, Node.faceAt, hnode]
              · cases face with
                | file => exact id
                | directory b names => exact fun h => hnew (h name hname)
          | cons name below =>
              by_cases hname : name ∈ Entries.names es
              · rw [faceAt_append_cons] at hface hspared ⊢
                have hsegment := (hproper.names hnames).2 name hname
                rcases copyEntries_turn owner levels hproper hapart hnames hname with
                  ⟨hsame, -⟩ | ⟨t, hreaches, htarget, hsource, hlater, -⟩
                · rw [hsame below, hface]
                  rfl
                · rw [hlater below]
                  have ht := hproper.of_growth hreaches
                  have hsourcePath := Path.segments_entryPath source hsegment
                  have htargetPath := Path.segments_entryPath target hsegment
                  have hstep := @ih t (entryPath source name) (entryPath target name) below ht
                  rw [hsourcePath, htargetPath] at hstep
                  refine hstep (hapart.append _ _) ((htarget below).trans hface) ?_
                  rw [List.append_assoc, hsource, ← List.append_assoc]
                  exact hspared
              · rw [faceAt_copyEntries_of_not_mem levels hproper hnames hname, hface]
                rfl
        · obtain ⟨e, hmake⟩ := run_makeDirectory_of_isSome a.permissions owner hthere
          rw [EStateM.run_bind, hmake, left_error, hface]
          rfl

end Edit

end PracticeShell
