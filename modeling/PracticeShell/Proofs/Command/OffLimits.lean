import PracticeShell.Proofs.Command.Steps
import PracticeShell.Proofs.Tree.Making
import PracticeShell.Proofs.Tree.Overlay
import PracticeShell.Proofs.Tree.Walk

/-!
# What is off limits stays

Without elevated rights, what the root user owns is left as it is by every command but `mv`, with one
exception: a recursive copy into a directory that is there looks only at the directory itself, and so
can fill files and add names below it. `Transfer.Overlays` says when it does.
-/

namespace PracticeShell

open FileTree FileTree.Change Run

/-- Whether what the root user owns at a place is there later with the same kind, owner, permissions,
contents and names. -/
def Kept (place : List String) (fs later : FileSystem) : Prop :=
  ∀ face, fs.faceAt place = some face → face.attributes.owner = Context.rootUser →
    (later.faceAt place).map Face.timeless = some face.timeless

theorem lasting_kept (place : List String) : Lasting (Kept place) := by
  refine ⟨fun fs face hface _ => by rw [hface]; rfl, fun h h' face hface hroot => ?_⟩
  obtain ⟨next, hnext, hsame⟩ := Option.map_eq_some_iff.1 (h face hface hroot)
  have howner : next.attributes.owner = face.attributes.owner := by
    cases next <;> cases face <;> simp_all [Face.timeless, Face.mapAttributes, Face.attributes]
  rw [h' next hnext (howner.trans hroot), hsame]

/-- A change that does not touch a place keeps what is there. -/
theorem kept_of_faceAt {place : List String} {fs later : FileSystem}
    (h : ∀ face, fs.faceAt place = some face → face.attributes.owner = Context.rootUser →
      later.faceAt place = some face) : Kept place fs later := by
  intro face hface hroot
  rw [h face hface hroot]
  rfl

theorem Edit.Makes.kept {P : Change → Prop} {operation : Edit Unit} {fs : FileSystem}
    (h : Makes P operation fs) {place : List String}
    (hP : ∀ c, P c → c.Fits fs → ∀ face, fs.faceAt place = some face →
      face.attributes.owner = Context.rootUser → ¬ c.Touches place) :
    Leads (Kept place) operation fs :=
  h.leads ((lasting_kept place).refl fs) fun c hc hfits => kept_of_faceAt fun face hface hroot =>
    faceAt_of_not_touches hfits hface (hP c hc hfits face hface hroot)

namespace Access

variable {ctx : Context} {fs : FileSystem} {path : String} {face : Face}

theorem owner_ne_of_not_denied (hctx : ctx.elevated = false) {there : Stat}
    (h : denied ctx there = false) : there.owner ≠ Context.rootUser := by
  simpa [denied, hctx] using h

/-- Where the node at a path is not denied, it is not the root user's. -/
theorem owner_ne_of_not_deniedIfAny (hctx : ctx.elevated = false)
    (h : deniedIfAny ctx (fs.stat? path) = false)
    (hface : fs.faceAt (Path.segments path) = some face) :
    face.attributes.owner ≠ Context.rootUser := by
  obtain ⟨node, hnode, rfl⟩ := FileSystem.faceAt_eq_some.1 hface
  rw [FileSystem.stat?, FileSystem.find?, hnode] at h
  rw [Node.attributes_face]
  exact owner_ne_of_not_denied hctx h

/-- Where the directory that a node would be made in is not denied, the nearest node above is not the
root user's. -/
theorem owner_ne_of_not_parentDenied (hctx : ctx.elevated = false)
    (h : parentDenied ctx fs path = false) {place : List String} {name : String}
    {rest : List String} (hpath : Path.segments path = place ++ name :: rest)
    (hface : fs.faceAt place = some face)
    (hnext : rest ≠ [] → fs.root.find? (place ++ [name]) = none) :
    face.attributes.owner ≠ Context.rootUser := by
  obtain ⟨node, hnode, rfl⟩ := FileSystem.faceAt_eq_some.1 hface
  have hdirname : Path.segments (Path.dirname path) = place ++ (name :: rest).dropLast := by
    rw [Path.dirname, Path.segments_ofSegments, hpath, List.dropLast_append_of_ne_nil (by simp)]
    intro n hn
    exact Path.isSegment_of_mem_segments (List.dropLast_subset _ hn)
  have hnearest : nearestAlong fs (place ++ (name :: rest).dropLast) = fs.statOf place node := by
    refine nearestAlong_eq hnode _ fun other hother => ?_
    cases rest with
    | nil => simp at hother
    | cons => exact (by simpa using hother : name = other) ▸ hnext (by simp)
  rw [parentDenied, nearestExisting, hdirname, hnearest] at h
  rw [Node.attributes_face]
  exact owner_ne_of_not_denied hctx h

end Access

namespace Command

section Operands

variable {ctx : Context} (hctx : ctx.elevated = false) (place : List String) (fs : FileSystem)

include hctx

theorem makeOne_kept (parents : Bool) (operand : String) :
    Leads (Kept place) (makeOne ctx parents operand) fs := by
  refine leads_makeOne_of ((lasting_kept place).refl fs) fun hallowed => ⟨?_, ?_⟩
  · refine (Edit.makes_makeDirectory _ _ _ fs).kept ?_
    rintro c ⟨parent, name, hpath, rfl⟩ - face hface hroot rfl
    exact Access.owner_ne_of_not_parentDenied hctx hallowed hpath hface (by simp) hroot
  · refine kept_of_faceAt fun face hface hroot =>
      Edit.faceAt_makeAlong _ _ (Path.segments (ctx.resolve operand))
        (fun name hname => Path.isSegment_of_mem_segments hname) hface ?_
    rintro name ⟨rest, hpath⟩
    rw [List.append_assoc, List.singleton_append] at hpath
    by_contra hmissing
    have hnone : fs.root.find? (place ++ [name]) = none := by simpa using hmissing
    exact Access.owner_ne_of_not_parentDenied hctx hallowed hpath.symm hface (fun _ => hnone) hroot

/-- What is made or changed at a path where neither the node that is there is denied nor, if none is,
the directory that it would be made in. -/
theorem makes_kept {P : FileTree.Change → Prop} {operation : Edit Unit} {path : String}
    (h : Edit.Makes P operation fs)
    (hthere : Access.deniedIfAny ctx (fs.stat? path) = false)
    (hparent : fs.stat? path = none → Access.parentDenied ctx fs path = false)
    (hP : ∀ c, P c → (∃ parent name node, Path.segments path = parent ++ [name] ∧
        c = .make parent name node) ∨ ∀ p, c.Touches p → p = Path.segments path) :
    Leads (Kept place) operation fs := by
  refine h.kept fun c hc hfits face hface hroot htouches => ?_
  rcases hP c hc with ⟨parent, name, node, hpath, rfl⟩ | hself
  · obtain rfl : place = parent := htouches
    have hnone : fs.stat? path = none := by
      rw [FileSystem.stat?, FileSystem.find?, hpath, hfits.2.1]
      rfl
    exact Access.owner_ne_of_not_parentDenied hctx (hparent hnone) hpath hface (by simp) hroot
  · rw [hself place htouches] at hface
    exact Access.owner_ne_of_not_deniedIfAny hctx hthere hface hroot

theorem touchOne_kept (operand : String) : Leads (Kept place) (touchOne ctx operand) fs := by
  refine leads_touchOne_of ((lasting_kept place).refl fs) fun hthere hparent => ?_
  refine makes_kept hctx place fs (Edit.makes_touch _ _ fs) hthere hparent ?_
  rintro c (⟨parent, name, hpath, rfl⟩ | rfl)
  · exact .inl ⟨parent, name, _, hpath, rfl⟩
  · exact .inr fun p hp => hp

theorem removeOne_kept (recursive force : Bool) (operand : String) :
    Leads (Kept place) (removeOne ctx recursive force operand) fs := by
  refine leads_removeOne_of ((lasting_kept place).refl fs) fun hparent htree => ?_
  have hremove : ∀ parent name, Path.segments (ctx.resolve operand) = parent ++ [name] →
      ∀ face, fs.faceAt place = some face → face.attributes.owner = Context.rootUser →
        ¬ (FileTree.Change.remove parent name).Touches place := by
    rintro parent name hpath face hface hroot (rfl | ⟨below, rfl⟩)
    · exact Access.owner_ne_of_not_parentDenied hctx hparent hpath hface (by simp) hroot
    · obtain ⟨there, hthere, rfl⟩ := FileSystem.faceAt_eq_some.1 hface
      rw [← hpath] at hthere
      rw [Node.attributes_face] at hroot
      exact Access.owner_ne_of_not_treeDenied hctx htree hthere hroot
  constructor
  · refine (Edit.makes_unlink _ fs).kept ?_
    rintro c ⟨parent, name, hpath, rfl, -⟩ -
    exact hremove parent name hpath
  · refine (Edit.makes_removeTree _ fs).kept ?_
    rintro c ⟨parent, name, hpath, rfl⟩ -
    exact hremove parent name hpath

theorem removeDirectoryOne_kept (operand : String) :
    Leads (Kept place) (removeDirectoryOne ctx operand) fs := by
  refine leads_removeDirectoryOne_of ((lasting_kept place).refl fs) fun hthere hparent => ?_
  refine (Edit.makes_removeDirectory _ fs).kept ?_
  rintro c ⟨parent, name, a, hpath, rfl, hempty⟩ - face hface hroot (rfl | ⟨below, rfl⟩)
  · exact Access.owner_ne_of_not_parentDenied hctx hparent hpath hface (by simp) hroot
  · have hbelow := hface
    rw [FileSystem.faceAt, Node.faceAt_append, hempty, Option.bind_some, Node.faceAt,
      Node.find?_of_entries_eq_nil rfl] at hbelow
    cases below with
    | cons name rest => simp at hbelow
    | nil =>
        rw [List.append_nil, ← hpath] at hface
        exact Access.owner_ne_of_not_deniedIfAny hctx hthere hface hroot

theorem chmodOne_kept (recursive : Bool) (change target : String) :
    Leads (Kept place) (chmodOne ctx recursive change target) fs := by
  have hR := lasting_kept place
  refine .get_bind (.ite (fun _ => .pure hR _ fs) fun _ => ?_)
  dsimp only
  refine .ite (fun _ => .pure hR _ fs) fun hallowed => ?_
  refine .bind hR ?_ fun _ t _ => .pure hR _ t
  refine kept_of_faceAt fun face hface hroot => ?_
  -- all nodes are looked at before the first one is marked, so the marks go by what they were then
  refine Leads.forM (lasting_invariant fun t => t.faceAt place = some face)
    (fun path hpath t => ?_) fs hface
  have hne : place ≠ Path.segments path := by
    rintro rfl
    have hdenied : Access.deniedIfAny ctx (fs.stat? path) = false := by
      by_contra hdenied
      exact hallowed (List.any_eq_true.2 ⟨path, hpath, by simpa using hdenied⟩)
    exact Access.owner_ne_of_not_deniedIfAny hctx hdenied hface hroot
  refine .get_bind (.bind (lasting_invariant _) (leads_attempt.2 ?_) fun _ u _ =>
    .pure (lasting_invariant _) _ u)
  refine (Edit.makes_setPermissions path _ t).leads (fun h => h) ?_
  rintro c rfl hfits hthere
  exact faceAt_of_not_touches hfits hthere hne

theorem chownOne_kept (recursive : Bool) (owner target : String) :
    Leads (Kept place) (chownOne ctx recursive owner target) fs := by
  have hR := lasting_kept place
  refine .get_bind (.ite (fun _ => .pure hR _ fs) fun _ => ?_)
  exact .ite (fun _ => .pure hR _ fs) fun h => absurd hctx (by simpa using h)

end Operands

section Copies

variable {ctx : Context} {place : List String} {fs : FileSystem}

/-- Whether the copy of a directory goes into a directory that is there. -/
structure Merges (ctx : Context) (source target : String) (fs : FileSystem) : Prop where
  isDirectory_source : fs.isDirectory source
  readable : Access.treeDenied ctx fs source = false
  outside : Path.isWithin target source = false
  isDirectory_target : fs.isDirectory target
  writable : Access.deniedIfAny ctx (fs.stat? target) = false

/-- Whether the copy of a directory into a directory that is there can change the node at a place:
the source has something new for it, or lies below the target itself. -/
def Overlays (ctx : Context) (source target : String) (fs : FileSystem) (place : List String) :
    Prop :=
  Merges ctx source target fs ∧
    ∃ below face, place = Path.segments target ++ below ∧ fs.faceAt place = some face ∧
      (Path.segments target <+: Path.segments source ∨
        Face.Overlays (fs.faceAt (Path.segments source ++ below)) face)

theorem stat?_eq_none {path : String} :
    fs.stat? path = none ↔ fs.root.find? (Path.segments path) = none := by
  rw [FileSystem.stat?, Option.map_eq_none_iff, FileSystem.find?]

variable (hctx : ctx.elevated = false)

include hctx

/-- The copy of a directory keeps what it does not overlay. -/
theorem copyTree_kept (hfs : fs.IsProper) {source target : String}
    (hsource : fs.isDirectory source) (hreadable : Access.treeDenied ctx fs source = false)
    (houtside : Path.isWithin target source = false)
    (hwritable : Access.deniedIfAny ctx (fs.stat? target) = false)
    (hparent : fs.stat? target = none → Access.parentDenied ctx fs target = false)
    (hkind : ∀ there, fs.stat? target = some there → there.isDirectory)
    (hspared : ¬ Overlays ctx source target fs place) :
    Leads (Kept place) (Edit.copyTree source target (some ctx.user)) fs := by
  intro face hface hroot
  rw [Edit.run_copyTree]
  by_cases hbelow : Path.segments target <+: place
  · obtain ⟨below, rfl⟩ := hbelow
    have hmerges : Merges ctx source target fs := by
      refine ⟨hsource, hreadable, houtside, ?_, hwritable⟩
      cases hstat : fs.stat? target with
      | none =>
          have hthere := Edit.isSome_find?_of_faceAt_append hface
          rw [stat?_eq_none.1 hstat] at hthere
          simp at hthere
      | some there =>
          rw [FileSystem.isDirectory_of_stat? hstat]
          exact hkind there hstat
    have hapart : Apart (Path.segments source) (Path.segments target) := by
      constructor
      · rw [← Path.isWithin_iff, houtside]
        simp
      · exact fun hwithin => hspared ⟨hmerges, below, face, rfl, hface, .inl hwithin⟩
    exact Edit.timeless_copyNode _ hfs hapart hface fun hoverlays =>
      hspared ⟨hmerges, below, face, rfl, hface, .inr hoverlays⟩
  · rw [Edit.faceAt_copyNode_outside _ hfs ⟨hbelow, fun heq => ?_⟩, hface]
    · rfl
    · by_contra hmissing
      have hnone : fs.root.find? (Path.segments target) = none := by simpa using hmissing
      rcases List.eq_nil_or_concat (Path.segments target) with htop | ⟨parent, name, hpath⟩
      · exact hbelow (by simp [htop])
      · rw [List.concat_eq_append] at hpath
        rw [hpath, List.dropLast_concat] at heq
        subst heq
        exact Access.owner_ne_of_not_parentDenied hctx (hparent (stat?_eq_none.2 hnone)) hpath hface
          (by simp) hroot

theorem copyOne_kept (hfs : fs.IsProper) {t : Transfer} {recursive : Bool} {source : String}
    (hspared : recursive = true →
      ¬ Overlays ctx (ctx.resolve source) (t.target ctx (ctx.resolve source)) fs place) :
    Leads (Kept place) (copyOne ctx t recursive source) fs := by
  have hR := lasting_kept place
  refine .get_bind ?_
  dsimp only
  split
  · exact .pure hR _ fs
  · rename_i node hnode
    refine .ite (fun _ => .pure hR _ fs) fun hflag => ?_
    refine .ite (fun _ => .pure hR _ fs) fun hreadable => ?_
    refine .ite (fun _ => .pure hR _ fs) fun houtside => ?_
    refine .ite (fun _ => .pure hR _ fs) fun hallowed => ?_
    refine .ite (fun _ => .pure hR _ fs) fun hkind => ?_
    rw [Bool.not_eq_true, Bool.or_eq_false_iff] at hallowed
    have hparent : fs.stat? (t.target ctx (ctx.resolve source)) = none →
        Access.parentDenied ctx fs (t.target ctx (ctx.resolve source)) = false := fun hnone => by
      simpa [hnone] using hallowed.2
    refine .bind hR (leads_attempt.2 ?_) fun _ t _ => .pure hR _ t
    cases hdir : node.isDirectory with
    | false =>
        refine makes_kept hctx place fs (Edit.makes_copyFile _ _ _ fs) hallowed.1 hparent ?_
        rintro c ⟨a, contents, -, ⟨parent, name, hpath, rfl⟩ | rfl⟩
        · exact .inl ⟨parent, name, _, hpath, rfl⟩
        · exact .inr fun p hp => hp
    | true =>
        simp only [hdir, Bool.true_and, Bool.not_eq_true'] at hflag houtside hkind
        refine copyTree_kept hctx hfs (by rw [FileSystem.isDirectory_of_stat? hnode, hdir])
          (by simpa using hreadable) (by simpa using houtside) hallowed.1 hparent ?_
          (hspared (by simpa using hflag))
        intro there hthere
        rw [hthere] at hkind
        simpa using hkind

/-- What no source overlays when its turn comes is kept by a copy of all sources. -/
theorem copyEach_kept {t : Transfer} {recursive : Bool} (sources : List String) (hfs : fs.IsProper)
    (hspared : recursive = true → ∀ before source after, sources = before ++ source :: after →
      ¬ Overlays ctx (ctx.resolve source) (t.target ctx (ctx.resolve source))
        (left ((Action.forEach before (copyOne ctx t recursive)).run fs)) place) :
    Leads (Kept place) (Action.forEach sources (copyOne ctx t recursive)) fs := by
  have hR := lasting_kept place
  induction sources generalizing fs with
  | nil => exact .pure hR _ fs
  | cons source rest ih =>
      refine .bind hR (copyOne_kept hctx hfs fun hrec => hspared hrec [] source rest rfl)
        fun messages u hrun => .bind hR (ih ?_ ?_) fun _ v _ => .pure hR _ v
      · have hproper := hfs.of_reaches
          (leads_copyOne Edit.covers_reaches.toCoversGrowth ctx fs t recursive source)
        rwa [hrun] at hproper
      · intro hrec before next after hsplit
        have hturn := hspared hrec (source :: before) next after (by rw [hsplit]; rfl)
        rw [run_forEach_cons hrun] at hturn
        cases hbefore : (Action.forEach before (copyOne ctx t recursive)).run u <;>
          rw [hbefore] at hturn <;> exact hturn

omit hctx

/-- Whether a command line is a recursive copy, and which one. -/
def Copies (ctx : Context) (words : List String) (fs : FileSystem) (t : Transfer) : Prop :=
  ∃ rest args, words = name cp :: rest ∧ Arguments.parse (.flagsOnly "rRf") rest = .ok args ∧
    args.has ['r', 'R'] ∧ Transfer.ofOperands "cp" ctx fs args.operands = .ok t

/-- Whether a command line is a recursive copy one of whose sources, when its turn comes, overlays
the node at a place. -/
def CopiesOver (ctx : Context) (words : List String) (fs : FileSystem) (place : List String) :
    Prop :=
  ∃ t before source after, Copies ctx words fs t ∧ t.sources = before ++ source :: after ∧
    Overlays ctx (ctx.resolve source) (t.target ctx (ctx.resolve source))
      (left ((Action.forEach before (copyOne ctx t true)).run fs)) place

include hctx

/-- A command other than `mv` keeps what it does not copy over. -/
theorem run_kept (hfs : fs.IsProper) {c : Command} (hmv : c ≠ mv) (words : List String)
    (input : Option String) (hspared : ¬ CopiesOver ctx (c.name :: words) fs place) :
    Leads (Kept place) (c.run ctx words input) fs := by
  have hR := lasting_kept place
  cases hchanges : c.changes with
  | false => exact leads_run_of_reads hR ctx words input fs hchanges
  | true =>
      cases c with
      | mv => exact absurd rfl hmv
      | mkdir => exact leads_runMkdir hR ctx words fs fun _ _ t => makeOne_kept hctx place t _ _
      | touch => exact leads_runTouch hR ctx words fs fun _ t => touchOne_kept hctx place t _
      | rm =>
          exact leads_runRm hR ctx words fs fun _ _ _ _ _ _ t =>
            removeOne_kept hctx place t _ _ _
      | rmdir =>
          exact leads_runRmdir hR ctx words fs fun _ _ _ _ t =>
            removeDirectoryOne_kept hctx place t _
      | cp =>
          refine leads_runCp hR ctx words fs fun args t hparse htransfer =>
            copyEach_kept hctx t.sources hfs fun hrec before source after hsplit hoverlays => ?_
          rw [hrec] at hoverlays
          exact hspared ⟨t, before, source, after, ⟨words, args, rfl, hparse, hrec, htransfer⟩,
            hsplit, hoverlays⟩
      | chmod =>
          exact leads_runChmod hR ctx words fs fun _ _ _ t => chmodOne_kept hctx place t _ _ _
      | chown =>
          exact leads_runChown hR ctx words fs fun _ _ _ t => chownOne_kept hctx place t _ _ _
      | _ => simp [changes] at hchanges

omit hctx

/-- The copy of a directory into one that is there is tried, whatever it overlays. -/
theorem run_copyOne_of_merges {t : Transfer} {source : String}
    (h : Merges ctx (ctx.resolve source) (t.target ctx (ctx.resolve source)) fs) :
    (copyOne ctx t true source).run fs =
      match (Edit.copyTree (ctx.resolve source) (t.target ctx (ctx.resolve source))
          (some ctx.user)).run fs with
      | .ok _ later => .ok [] later
      | .error e later =>
        .ok ["cp: cannot create regular file '" ++ t.destination ++ "': " ++ e.cause.text] later := by
  have hstat : ∀ path, fs.isDirectory path → ∃ node, fs.stat? path = some node ∧
      node.isDirectory = true := by
    intro path hpath
    cases hnode : fs.stat? path with
    | none =>
        rw [FileSystem.isDirectory, FileSystem.find?, stat?_eq_none.1 hnode] at hpath
        simp at hpath
    | some node => exact ⟨node, rfl, (FileSystem.isDirectory_of_stat? hnode).symm.trans hpath⟩
  obtain ⟨node, hnode, hdir⟩ := hstat _ h.isDirectory_source
  obtain ⟨there, hthere, hthereDir⟩ := hstat _ h.isDirectory_target
  have hwritable := h.writable
  rw [hthere] at hwritable
  rw [copyOne, EStateM.run_bind, EStateM.run_get]
  simp only [hnode, hdir, hthere, hthereDir, hwritable, h.readable, h.outside, Bool.true_and,
    Bool.not_true, Bool.false_eq_true, if_false, Option.isNone_some, Bool.false_and, Bool.or_self,
    Option.any_some, if_true, EStateM.run_bind, run_attempt]
  cases (Edit.copyTree (ctx.resolve source) (t.target ctx (ctx.resolve source))
    (some ctx.user)).run fs <;> rfl

/-- A recursive copy of one source is the copy of this source. -/
theorem run_runCp_of_single {rest : List String} {args : Arguments} {t : Transfer} {source : String}
    (hparse : Arguments.parse (.flagsOnly "rRf") rest = .ok args)
    (hrec : args.has ['r', 'R'] = true)
    (htransfer : Transfer.ofOperands "cp" ctx fs args.operands = .ok t)
    (hsources : t.sources = [source]) :
    (runCp ctx rest).run fs =
      match (copyOne ctx t true source).run fs with
      | .ok messages later => .ok (.ofLines [] messages) later
      | .error fault later => .error fault later := by
  rw [runCp, EStateM.run_bind, Action.arguments, hparse]
  simp only [EStateM.run_pure, EStateM.run_bind, EStateM.run_get, htransfer, hrec, hsources,
    Action.forEach]
  cases (copyOne ctx t true source).run fs <;> simp

/-- A recursive copy of one source into a directory that is there ends as the copy of this source
does. -/
theorem execute_copies (input : Option String) {words : List String} {t : Transfer}
    {source : String} (h : Copies ctx words fs t) (hsources : t.sources = [source])
    (hmerges : Merges ctx (ctx.resolve source) (t.target ctx (ctx.resolve source)) fs) :
    execute ctx input words fs =
      match (Edit.copyTree (ctx.resolve source) (t.target ctx (ctx.resolve source))
          (some ctx.user)).run fs with
      | .ok _ later => ({}, later)
      | .error e later => (.ofLines []
          ["cp: cannot create regular file '" ++ t.destination ++ "': " ++ e.cause.text], later) := by
  obtain ⟨rest, args, rfl, hparse, hrec, htransfer⟩ := h
  have hname : ofName? (name cp) = some cp := by decide
  have hrun := run_runCp_of_single hparse hrec htransfer hsources
  have hexecute : execute ctx input (name cp :: rest) fs =
      guarded (name cp) (runCp ctx rest) fs := by
    rw [execute_of_ne ctx rest input hname (by decide)]
    rfl
  rw [run_copyOne_of_merges hmerges] at hrun
  rw [hexecute, guarded]
  rw [EStateM.run] at hrun
  cases hcopy : (Edit.copyTree (ctx.resolve source) (t.target ctx (ctx.resolve source))
      (some ctx.user)).run fs with
  | ok _ later =>
      rw [hcopy] at hrun
      rw [hrun]
      rfl
  | error e later =>
      rw [hcopy] at hrun
      rw [hrun]

/-- What a source overlays is not kept by a copy that ends without an error. -/
theorem not_kept_of_copyTree (hfs : fs.IsProper) {source target : String} {owner : Option String}
    {face : Face} (hface : fs.faceAt place = some face)
    (hoverlays : Overlays ctx source target fs place)
    (happart : ¬ Path.segments target <+: Path.segments source) {later : FileSystem}
    (hrun : (Edit.copyTree source target owner).run fs = .ok () later) :
    (later.faceAt place).map Face.timeless ≠ some face.timeless := by
  obtain ⟨hmerges, below, there, rfl, hthere, habove | hoverlays⟩ := hoverlays
  · exact absurd habove happart
  · obtain ⟨shown, hshown, -, hnew⟩ := hoverlays
    obtain rfl : face = there := by simpa [hface] using hthere
    have hapart : Apart (Path.segments source) (Path.segments target) := by
      refine ⟨?_, happart⟩
      rw [← Path.isWithin_iff, hmerges.outside]
      simp
    rw [Edit.run_copyTree] at hrun
    obtain ⟨last, hlast, hincludes⟩ := Edit.includes_copyNode hfs hapart hrun hshown
    intro hkept
    rw [hlast] at hkept
    exact hnew (Face.includes_of_timeless_eq (Option.some.inj hkept).symm hincludes)

include hctx

/-- Without elevated rights, every command other than `mv` leaves what the root user owns with its
kind, owner, permissions, contents and names, unless it is a recursive copy that goes into a directory
that is there and overlays it. A copy of a single source that does so, apart from its target, leaves
it changed if it ends without an error. -/
theorem unprivileged_commands_spare (input : Option String) {words : List String}
    (hmv : words.head? ≠ some (name mv)) (hfs : fs.IsProper) {face : Face}
    (hface : fs.faceAt place = some face) (hroot : face.attributes.owner = Context.rootUser) :
    (¬ CopiesOver ctx words fs place →
      ((execute ctx input words fs).2.faceAt place).map Face.timeless = some face.timeless) ∧
    ∀ t source, Copies ctx words fs t → t.sources = [source] →
      Overlays ctx (ctx.resolve source) (t.target ctx (ctx.resolve source)) fs place →
      ¬ Path.segments (t.target ctx (ctx.resolve source)) <+: Path.segments (ctx.resolve source) →
      (execute ctx input words fs).1.exitCode = 0 →
      ((execute ctx input words fs).2.faceAt place).map Face.timeless ≠ some face.timeless := by
  constructor
  · intro hspared
    cases words with
    | nil => exact congrArg (Option.map Face.timeless) hface
    | cons text words =>
        cases hname : ofName? text with
        | none =>
            rw [execute_unknown ctx words input hname]
            exact congrArg (Option.map Face.timeless) hface
        | some c =>
            by_cases hc : c = superuser
            · subst hc
              rw [execute_superuser ctx words input hname, hctx]
              split <;> exact congrArg (Option.map Face.timeless) hface
            · obtain rfl := name_of_ofName? hname
              have hne : c ≠ mv := by
                rintro rfl
                exact hmv rfl
              rw [execute_of_ne ctx words input hname hc, guarded_snd]
              exact run_kept hctx hfs hne words input hspared face hface hroot
  · intro t source hcopies hsources hoverlays happart hok
    have hexecute := execute_copies input hcopies hsources hoverlays.1
    cases hcopy : (Edit.copyTree (ctx.resolve source) (t.target ctx (ctx.resolve source))
        (some ctx.user)).run fs with
    | ok _ later =>
        rw [hcopy] at hexecute
        rw [hexecute]
        exact not_kept_of_copyTree hfs hface hoverlays happart hcopy
    | error e later =>
        rw [hcopy] at hexecute
        rw [hexecute] at hok
        simp [Outcome.ofLines, Outcome.failure] at hok

end Copies

/-- A file of the root user. -/
def rootFile (modified : Int) (contents : ByteArray) : Node :=
  .file ⟨Context.rootUser, Permissions.newFile, modified⟩ contents

/-- A file system with a directory of the user's, and one of the same name in another directory. Each
of the two holds a file of the same name. -/
def withShadowed (shadowed : Node) : FileSystem where
  name := ""
  attributes := ⟨Context.rootUser, Permissions.newDirectory, 0⟩
  entries :=
    [("src", .directory ⟨"ada", Permissions.newDirectory, 0⟩
        [("f", .file ⟨"ada", Permissions.newFile, 0⟩ ⟨#[1]⟩)]),
      ("dst", .directory ⟨"ada", Permissions.newDirectory, 0⟩
        [("src", .directory ⟨"ada", Permissions.newDirectory, 0⟩ [("f", shadowed)])])]
  defaultOwner := "ada"
  now := 1

/-- A user cannot remove a directory of the user's that holds a file of the root user. -/
theorem rm_spares_root_file :
    let fs := withShadowed (rootFile 0 ⟨#[2]⟩)
    fs.IsProper ∧ ["rm", "-r", "dst"].head? ≠ some (name mv) ∧
      fs.faceAt ["dst", "src", "f"] = some (rootFile 0 ⟨#[2]⟩).face ∧
      ((execute ⟨"/", "ada", false⟩ none ["rm", "-r", "dst"] fs).2.faceAt ["dst", "src", "f"]).map
        Face.timeless = some (rootFile 0 ⟨#[2]⟩).face := by
  intro fs
  have hproper : fs.IsProper := by decide
  have hmv : ["rm", "-r", "dst"].head? ≠ some (name mv) := by decide
  have hface : fs.faceAt ["dst", "src", "f"] = some (rootFile 0 ⟨#[2]⟩).face := rfl
  refine ⟨hproper, hmv, hface, ?_⟩
  refine (unprivileged_commands_spare rfl none hmv hproper hface rfl).1 ?_
  rintro ⟨t, before, source, after, ⟨rest, args, hwords, -⟩, -⟩
  exact absurd (List.cons.inj hwords).1 (by decide)

/-- The copy of the user's directory over the one that holds a file of the root user. -/
theorem run_copyTree_shadowed :
    (Edit.copyTree "/src" "/dst/src" (some "ada")).run (withShadowed (rootFile 0 ⟨#[2]⟩)) =
      .ok () (withShadowed (rootFile 1 ⟨#[1]⟩)) := by
  have hdirectory : (withShadowed (rootFile 0 ⟨#[2]⟩)).find? "/src" =
      some (.directory ⟨"ada", Permissions.newDirectory, 0⟩
        [("f", .file ⟨"ada", Permissions.newFile, 0⟩ ⟨#[1]⟩)]) := rfl
  have hfile : (withShadowed (rootFile 0 ⟨#[2]⟩)).find? (Edit.entryPath "/src" "f") =
      some (.file ⟨"ada", Permissions.newFile, 0⟩ ⟨#[1]⟩) := rfl
  have htarget : (withShadowed (rootFile 0 ⟨#[2]⟩)).isDirectory "/dst/src" = true := rfl
  have hnames : (withShadowed (rootFile 0 ⟨#[2]⟩)).names "/src" = .ok ["f"] := rfl
  have hlevels : Edit.copyLevels (withShadowed (rootFile 0 ⟨#[2]⟩)) "/src" = 3 := rfl
  have hfilled : (Edit.copyFile (Edit.entryPath "/src" "f") (Edit.entryPath "/dst/src" "f")
      (some "ada")).run (withShadowed (rootFile 0 ⟨#[2]⟩)) =
      .ok () (withShadowed (rootFile 1 ⟨#[1]⟩)) := rfl
  rw [Edit.run_copyTree, hlevels, Edit.run_copyNode_succ, hdirectory]
  dsimp only
  rw [if_pos htarget, Edit.run_copyEntries hnames]
  change (Edit.copyNode _ 2 _ _ >>= fun _ => pure ()).run _ = _
  rw [EStateM.run_bind, Edit.run_copyNode_succ, hfile]
  dsimp only
  rw [hfilled]
  rfl

/-- A user's copy fills a file of the root user that lies in a directory of the user's. -/
theorem cp_fills_root_file :
    let ctx : Context := ⟨"/", "ada", false⟩
    let fs := withShadowed (rootFile 0 ⟨#[2]⟩)
    fs.faceAt ["dst", "src", "f"] = some (rootFile 0 ⟨#[2]⟩).face ∧
      (execute ctx none ["cp", "-r", "src", "dst"] fs).2.faceAt ["dst", "src", "f"] =
        some (rootFile 1 ⟨#[1]⟩).face := by
  intro ctx fs
  have hexpand : Operands.expand ctx fs ["src", "dst"] = ["src", "dst"] := by decide +kernel
  have hinto : fs.isDirectory (ctx.resolve "dst") = true := by decide +kernel
  have htransfer : Transfer.ofOperands "cp" ctx fs ["src", "dst"] = .ok ⟨["src"], "dst", true⟩ := by
    simp [Transfer.ofOperands, hexpand, hinto]
  have hcopies : Copies ctx ["cp", "-r", "src", "dst"] fs ⟨["src"], "dst", true⟩ :=
    ⟨["-r", "src", "dst"], ⟨['r'], [], ["src", "dst"], none⟩, rfl, rfl, rfl, htransfer⟩
  have hsource : ctx.resolve "src" = "/src" := by decide +kernel
  have htarget : Transfer.target ⟨["src"], "dst", true⟩ ctx "/src" = "/dst/src" := by
    decide +kernel
  have hmerges : Merges ctx "/src" "/dst/src" fs := by
    constructor <;> decide +kernel
  have huser : ctx.user = "ada" := rfl
  refine ⟨rfl, ?_⟩
  rw [execute_copies none hcopies rfl (by rwa [hsource, htarget]), hsource, htarget, huser,
    run_copyTree_shadowed]
  rfl

end Command

end PracticeShell
