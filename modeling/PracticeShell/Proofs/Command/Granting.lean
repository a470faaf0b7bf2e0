import Mathlib.Data.List.Induction
import PracticeShell.Proofs.Command.Fates
import PracticeShell.Proofs.Path.Resolving
import PracticeShell.Proofs.Tree.Along
import PracticeShell.Proofs.Tree.Moving

/-!
# Where commands make something

A search for the node at a path that goes on with the directory of a path where there is nothing is a
`Search`. It ends at the root at the latest, after no more climbs than the path has names
(`exists_search`), and always with the node that is nearest (`Search.eq_nearest`): that of the longest
beginning of the normalized path to be there (`isNearest_iff`).

`mkdir`, `touch`, `cp` and `mv` ask before they make something where there is nothing, and are denied
exactly if the nearest node is off limits (`makeOne_denied_iff` and its like). What is made by a command
is then new only where it is allowed: it respects the nearest node everywhere (`execute_respects`,
`moveOne_respects`). The exception is a recursive copy into a directory that is there, which asks for
nothing below it. It makes something where it is not allowed exactly if it goes over a directory of the
root user (`Intrudes`, `execute_copies_respects_iff`).
-/

namespace PracticeShell

open FileTree FileTree.Change Run

/-- No file operation fails because something is denied. -/
theorem FileTree.Cause.text_ne_denied (cause : Cause) : cause.text ≠ "Permission denied" := by
  cases cause <;> decide

namespace Access

variable {fs later : FileSystem} {path : String} {place way : List String} {node : Stat}

theorem faceAt_eq_none_iff : fs.faceAt place = none ↔ fs.root.find? place = none := by
  rw [FileSystem.faceAt, Node.faceAt, Option.map_eq_none_iff]

/-- Below a place where there is nothing, the nearest node is that of the place. -/
theorem nearestAlong_append_of_none (h : fs.faceAt place = none) (below : List String) :
    nearestAlong fs (place ++ below) = nearestAlong fs place := by
  induction below using List.reverseRecOn with
  | nil => rw [List.append_nil]
  | append_singleton below name ih =>
      have hnone := FileSystem.faceAt_append_of_none h (below ++ [name])
      rw [faceAt_eq_none_iff, ← List.append_assoc] at hnone
      rw [← List.append_assoc, nearestAlong_concat hnone, ih]

/-- The nearest node along a way is found at a beginning of it, and nothing is beyond. -/
theorem exists_nearest (fs : FileSystem) (way : List String) : ∃ place node,
    place <+: way ∧ fs.root.find? place = some node ∧ nearestAlong fs way = fs.statOf place node ∧
      ∀ longer, longer <+: way → (fs.root.find? longer).isSome → longer <+: place := by
  induction way using List.reverseRecOn with
  | nil => exact ⟨[], fs.root, List.prefix_rfl, rfl, nearestAlong_of_find? rfl, fun _ h _ => h⟩
  | append_singleton parent name ih =>
      cases hnode : fs.root.find? (parent ++ [name]) with
      | some node =>
          exact ⟨_, node, List.prefix_rfl, hnode, nearestAlong_of_find? hnode, fun _ h _ => h⟩
      | none =>
          obtain ⟨place, node, hplace, hfound, hnearest, hbeyond⟩ := ih
          refine ⟨place, node, hplace.trans (List.prefix_append _ _), hfound, ?_, ?_⟩
          · rw [nearestAlong_concat hnode, hnearest]
          · intro longer hlonger hthere
            rcases List.prefix_concat_iff.1 hlonger with rfl | hbefore
            · rw [hnode] at hthere
              cases hthere
            · exact hbeyond longer hbefore hthere

section Search

theorem stat?_eq_map (fs : FileSystem) (path : String) :
    fs.stat? path = (fs.root.find? (Path.segments path)).map (fs.statOf (Path.segments path)) := rfl

theorem nearestExisting_of_stat? (h : fs.stat? path = some node) :
    nearestExisting fs path = node := by
  obtain ⟨there, hthere, rfl⟩ := Option.map_eq_some_iff.1 h
  exact nearestAlong_of_find? hthere

/-- Where there is nothing, the nearest node is that of the directory. -/
theorem nearestExisting_dirname (h : fs.stat? path = none) :
    nearestExisting fs (Path.dirname path) = nearestExisting fs path := by
  rw [stat?_eq_map, Option.map_eq_none_iff] at h
  unfold nearestExisting
  rw [Path.segments_dirname]
  rcases List.eq_nil_or_concat (Path.segments path) with hroot | ⟨parent, name, hpath⟩
  · rw [hroot]
    rfl
  · rw [List.concat_eq_append] at hpath
    rw [hpath] at h ⊢
    rw [List.dropLast_concat, nearestAlong_concat h]

/-- The search for a node from a path: where there is nothing it climbs to the directory, as long as the
path is not the root. It ends with what it has found, if anything, after a number of climbs. -/
inductive Search (fs : FileSystem) : String → Nat → Option Stat → Prop
  /-- There is a node. -/
  | found {path : String} {node : Stat} (h : fs.stat? path = some node) : Search fs path 0 (some node)
  /-- There is nothing up to the root. -/
  | lost (h : fs.stat? "/" = none) : Search fs "/" 0 none
  /-- There is nothing, and the search goes on. -/
  | climb {path : String} {climbs : Nat} {result : Option Stat} (h : fs.stat? path = none)
      (hroot : path ≠ "/") (hrest : Search fs (Path.dirname path) climbs result) :
      Search fs path (climbs + 1) result

theorem stat?_root_ne_none (fs : FileSystem) : fs.stat? "/" ≠ none := by
  have hroot : Path.segments "/" = [] := by decide
  rw [stat?_eq_map, hroot]
  exact Option.some_ne_none _

/-- However it goes, the search ends with the nearest node. -/
theorem Search.eq_nearest {climbs : Nat} {result : Option Stat} (h : Search fs path climbs result) :
    result = some (nearestExisting fs path) := by
  induction h with
  | found h => rw [nearestExisting_of_stat? h]
  | lost h => exact absurd h (stat?_root_ne_none fs)
  | climb h _ _ ih => rw [ih, nearestExisting_dirname h]

/-- The search ends, since each climb takes a name away. -/
theorem exists_search (fs : FileSystem) (path : String) :
    ∃ climbs, climbs ≤ (Path.segments path).length ∧
      Search fs path climbs (some (nearestExisting fs path)) := by
  induction hlength : (Path.segments path).length generalizing path with
  | zero =>
      have hthere : fs.stat? path = some (fs.statOf [] fs.root) := by
        rw [stat?_eq_map, List.length_eq_zero_iff.1 hlength]
        rfl
      rw [nearestExisting_of_stat? hthere]
      exact ⟨0, Nat.le_refl 0, .found hthere⟩
  | succ length ih =>
      cases hthere : fs.stat? path with
      | some node =>
          rw [nearestExisting_of_stat? hthere]
          exact ⟨0, Nat.zero_le _, .found hthere⟩
      | none =>
          have hroot : path ≠ "/" := by
            rintro rfl
            exact stat?_root_ne_none fs hthere
          have hshorter : (Path.segments (Path.dirname path)).length = length := by
            rw [Path.segments_dirname, List.length_dropLast, hlength, Nat.add_sub_cancel]
          obtain ⟨climbs, hclimbs, hsearch⟩ := ih (Path.dirname path) hshorter
          rw [nearestExisting_dirname hthere] at hsearch
          exact ⟨climbs + 1, Nat.succ_le_succ hclimbs, .climb hthere hroot hsearch⟩

/-- Whether a node is that of the longest beginning of the normalized path to be there. -/
structure IsNearest (fs : FileSystem) (path : String) (node : Stat) : Prop where
  /-- It is what is known of a node that is there. -/
  there : fs.stat? node.path = some node
  /-- Its path is a beginning of the normalized path. -/
  above : Path.steps node.path <+: Path.steps (Path.normalize path)
  /-- No longer beginning is there. -/
  longest : ∀ names, names <+: Path.steps (Path.normalize path) →
    fs.contains (Path.ofSegments names) = true → names <+: Path.steps node.path

theorem isNearest_nearestExisting (fs : FileSystem) (path : String) :
    IsNearest fs path (nearestExisting fs path) := by
  obtain ⟨place, node, hplace, hnode, hnearest, hbeyond⟩ := exists_nearest fs (Path.segments path)
  have hnames : ∀ names, names <+: Path.segments path → ∀ name ∈ names, Path.IsSegment name :=
    fun names hbegins name hname => Path.isSegment_of_mem_segments (hbegins.subset hname)
  have hsegments := Path.segments_ofSegments (hnames place hplace)
  rw [nearestExisting, hnearest]
  constructor
  case there =>
    change fs.stat? (Path.ofSegments place) = _
    rw [stat?_eq_map, hsegments, hnode]
    rfl
  case above =>
    change Path.steps (Path.ofSegments place) <+: _
    rwa [Path.steps_normalize, Path.steps_ofSegments (hnames place hplace)]
  case longest =>
    change ∀ names, _ → _ → names <+: Path.steps (Path.ofSegments place)
    intro names hbegins hthere
    rw [Path.steps_normalize] at hbegins
    rw [FileSystem.contains, FileSystem.find?,
      Path.segments_ofSegments (hnames names hbegins)] at hthere
    rw [Path.steps_ofSegments (hnames place hplace)]
    exact hbeyond names hbegins hthere

theorem normalize_of_stat? (h : fs.stat? path = some node) :
    node.path = Path.normalize path := by
  obtain ⟨there, -, rfl⟩ := Option.map_eq_some_iff.1 h
  rfl

/-- There is one nearest node, and it is the one that decides. -/
theorem isNearest_iff : IsNearest fs path node ↔ node = nearestExisting fs path := by
  constructor
  · intro h
    have hthis := isNearest_nearestExisting fs path
    -- each of the two paths is a beginning of the other
    have hself : ∀ {a b : Stat}, IsNearest fs path a → IsNearest fs path b →
        Path.segments a.path <+: Path.segments b.path := by
      intro a b ha hb
      have hnormal := normalize_of_stat? ha.there
      have hsteps : Path.steps a.path = Path.segments a.path := by
        rw [hnormal, Path.steps_normalize, Path.segments_normalize]
      have hbsteps : Path.steps b.path = Path.segments b.path := by
        rw [normalize_of_stat? hb.there, Path.steps_normalize, Path.segments_normalize]
      have hwithin := hb.longest (Path.segments a.path) (hsteps ▸ ha.above) ?_
      · rwa [hbsteps] at hwithin
      · change (fs.find? (Path.normalize a.path)).isSome = true
        rw [← hnormal, ← Option.isSome_map (f := fs.statOf (Path.segments a.path)),
          ← FileSystem.stat?, ha.there]
        rfl
    have hsame : Path.segments node.path = Path.segments (nearestExisting fs path).path :=
      (hself h hthis).eq_of_length_le (hself hthis h).length_le
    refine Option.some.inj (h.there.symm.trans ?_)
    rw [← hthis.there, stat?_eq_map, stat?_eq_map, hsame]
  · rintro rfl
    exact isNearest_nearestExisting fs path

end Search

/-- Whether something may be made at a place: if there is nothing, the nearest node is not off limits. -/
def Allows (ctx : Context) (fs : FileSystem) (place : List String) : Prop :=
  fs.faceAt place = none → denied ctx (nearestAlong fs place) = false

/-- Whether all that is there later was there before, or was made where it was allowed. -/
def Respects (ctx : Context) (fs later : FileSystem) : Prop :=
  ∀ place, (later.faceAt place).isSome → Allows ctx fs place

variable {ctx : Context}

theorem Respects.refl (ctx : Context) (fs : FileSystem) : Respects ctx fs fs := by
  intro place hthere hnone
  rw [hnone] at hthere
  cases hthere

/-- With elevated rights, everything is allowed. -/
theorem respects_of_elevated (h : ctx.elevated = true) (fs later : FileSystem) :
    Respects ctx fs later := by
  intro place _ _
  rw [denied, h, Bool.not_true, Bool.and_false]

/-- A place on the way to another is allowed if the other one is. -/
theorem Allows.of_prefix (h : Allows ctx fs way) (hplace : place <+: way) : Allows ctx fs place := by
  obtain ⟨below, rfl⟩ := hplace
  intro hnone
  rw [← nearestAlong_append_of_none hnone below]
  exact h (FileSystem.faceAt_append_of_none hnone below)

/-- Making nodes along a way that is allowed. -/
theorem respects_along (h : Allows ctx fs way)
    (hnew : ∀ place, fs.faceAt place = none → (later.faceAt place).isSome → place <+: way) :
    Respects ctx fs later :=
  fun place hthere hnone => h.of_prefix (hnew place hnone hthere) hnone

/-- Making nodes below a place that is allowed and where there was nothing. -/
theorem respects_below (hmissing : fs.faceAt way = none) (h : Allows ctx fs way)
    (hnew : ∀ place, fs.faceAt place = none → (later.faceAt place).isSome → way <+: place) :
    Respects ctx fs later := by
  intro place hthere hnone
  obtain ⟨below, rfl⟩ := hnew place hnone hthere
  rw [nearestAlong_append_of_none hmissing]
  exact h hmissing

/-- Whether the directory that a node would be made in is off limits, if there is no such node, is
decided by the nearest one. -/
theorem parentDenied_of_none (h : fs.stat? path = none) :
    parentDenied ctx fs path = denied ctx (nearestExisting fs path) := by
  rw [parentDenied, nearestExisting_dirname h]

theorem allows_of_not_parentDenied (h : fs.stat? path = none → parentDenied ctx fs path = false) :
    Allows ctx fs (Path.segments path) := by
  intro hnone
  have hstat := FileSystem.stat?_eq_none_iff.2 hnone
  exact (parentDenied_of_none hstat).symm.trans (h hstat)

/-- A directory that is kept holds no new name. -/
theorem faceAt_of_kept {a : Attributes} {names : List String} {name : String}
    (hface : fs.faceAt place = some (.directory a names)) (hroot : a.owner = Context.rootUser)
    (hkept : Kept place fs later) (hthere : (later.faceAt (place ++ [name])).isSome) :
    (fs.faceAt (place ++ [name])).isSome := by
  obtain ⟨after, hafter, hsame⟩ := Option.map_eq_some_iff.1 (hkept _ hface hroot)
  have hnames : after.names = names := by
    cases after with
    | file => cases hsame
    | directory b others => exact (Face.directory.inj hsame).2
  rw [← Edit.mem_names_iff_isSome_faceAt hafter, hnames] at hthere
  exact (Edit.mem_names_iff_isSome_faceAt hface name).1 hthere

/-- Where the directories of the root user are kept and no file has become a directory, all that is new
was made where it was allowed. -/
theorem respects_of_kept (hgrows : Reaches IsGrowth fs later)
    (hkept : ∀ place a names, fs.faceAt place = some (.directory a names) →
      a.owner = Context.rootUser → Kept place fs later) : Respects ctx fs later := by
  intro place hthere hnone
  by_contra hdenied
  rw [Bool.not_eq_false, denied_iff] at hdenied
  obtain ⟨above, node, ⟨below, rfl⟩, hnode, hnearest, hbeyond⟩ := exists_nearest fs place
  have hroot : node.face.attributes.owner = Context.rootUser := by
    rw [hnearest] at hdenied
    rw [Node.attributes_face]
    exact hdenied.2
  have hface : fs.faceAt above = some node.face := FileSystem.faceAt_eq_some.2 ⟨node, hnode, rfl⟩
  cases below with
  | nil =>
      rw [List.append_nil, hface] at hnone
      cases hnone
  | cons name below =>
      -- the next name is missing, and is there later
      have hbegins : above ++ [name] <+: above ++ name :: below := by simp
      have hmissing : ¬ (fs.faceAt (above ++ [name])).isSome := by
        rw [FileSystem.faceAt, Node.isSome_faceAt]
        exact fun hsome => not_append_prefix_self above name (hbeyond _ hbegins hsome)
      have hnew := FileSystem.isSome_faceAt_of_prefix hbegins hthere
      cases node with
      | directory a es =>
          exact hmissing (faceAt_of_kept hface hroot (hkept above a _ hface hroot) hnew)
      | file a bytes =>
          obtain ⟨last, hlast, hkind⟩ := hgrows.exists_faceAt hface
          rw [FileSystem.faceAt, Node.isSome_faceAt] at hnew
          have hdirectory := any_isDirectory_of_isSome_append hnew
          rw [← FileSystem.any_isDirectory_faceAt, hlast, Option.any_some, hkind] at hdirectory
          cases hdirectory

/-- A new name in a directory of the root user is not made where it is allowed. -/
theorem not_respects_of_new (hctx : ctx.elevated = false)
    {a : Attributes} {names : List String} {name : String}
    (hface : fs.faceAt place = some (.directory a names)) (hroot : a.owner = Context.rootUser)
    (hname : name ∉ names) (hthere : (later.faceAt (place ++ [name])).isSome) :
    ¬ Respects ctx fs later := by
  intro hrespects
  have hmissing : fs.faceAt (place ++ [name]) = none := by
    rw [← Option.not_isSome_iff_eq_none, ← Edit.mem_names_iff_isSome_faceAt hface name]
    exact hname
  obtain ⟨node, hnode, hsame⟩ := FileSystem.faceAt_eq_some.1 hface
  have hallowed := hrespects _ hthere hmissing
  rw [nearestAlong_concat (faceAt_eq_none_iff.1 hmissing), nearestAlong_of_find? hnode] at hallowed
  have howner : node.attributes.owner = a.owner := by
    rw [← Node.attributes_face, hsame]
    rfl
  exact owner_ne_of_not_denied hctx hallowed (howner.trans hroot)

/-- Where nothing new is there, nothing is made. -/
theorem respects_of_staysGone (h : ∀ place, StaysGone place fs later) : Respects ctx fs later := by
  intro place hthere hnone
  rw [h place hnone] at hthere
  cases hthere

end Access

namespace Command

open Access

section Runs

variable {ctx : Context} {fs : FileSystem}

theorem removeDirectoryOne_staysGone (ctx : Context) (operand : String) (place : List String)
    (fs : FileSystem) : Leads (StaysGone place) (removeDirectoryOne ctx operand) fs := by
  have hrefl := (lasting_staysGone place).refl fs
  refine leads_removeDirectoryOne_of hrefl fun _ _ => ?_
  refine (Edit.makes_removeDirectory _ fs).leads hrefl ?_
  rintro c ⟨parent, name, -, -, rfl, -⟩ hfits
  exact staysGone_remove hfits place

/-- Whether a command line is a recursive copy that goes over a directory of the root user. -/
def Intrudes (ctx : Context) (words : List String) (fs : FileSystem) : Prop :=
  ∃ place a names, fs.faceAt place = some (.directory a names) ∧ a.owner = Context.rootUser ∧
    CopiesOver ctx words fs place

/-- What a command other than `mv` makes, it makes where it is allowed, unless it is a recursive copy
that goes over a directory of the root user. -/
theorem run_respects (hctx : ctx.elevated = false) (hfs : fs.IsProper) {c : Command} (hmv : c ≠ mv)
    (words : List String) (input : Option String) (hspared : ¬ Intrudes ctx (c.name :: words) fs) :
    Leads (Respects ctx) (c.run ctx words input) fs := by
  cases hremoves : c.removes with
  | false =>
      refine respects_of_kept (run_grows ctx words input fs hremoves) fun place a names hface hroot =>
        run_kept hctx hfs hmv words input fun hover => ?_
      exact hspared ⟨place, a, names, hface, hroot, hover⟩
  | true =>
      refine respects_of_staysGone fun place => ?_
      have hR := lasting_staysGone place
      cases c with
      | rm =>
          exact leads_runRm hR ctx words fs fun _ _ _ _ _ _ t => removeOne_staysGone ctx _ _ _ t
      | rmdir =>
          exact leads_runRmdir hR ctx words fs fun _ _ _ _ t =>
            removeDirectoryOne_staysGone ctx _ place t
      | mv => exact absurd rfl hmv
      | _ => simp [removes] at hremoves

theorem execute_respects (hfs : fs.IsProper) {words : List String} (input : Option String)
    (hmv : words.head? ≠ some (name mv)) (hspared : ¬ Intrudes ctx words fs) :
    Respects ctx fs (execute ctx input words fs).2 := by
  cases hctx : ctx.elevated with
  | true => exact respects_of_elevated hctx fs _
  | false =>
      cases words with
      | nil => exact .refl ctx fs
      | cons text words =>
          cases hname : ofName? text with
          | none =>
              rw [execute_unknown ctx words input hname]
              exact .refl ctx fs
          | some c =>
              by_cases hc : c = superuser
              · subst hc
                rw [execute_superuser ctx words input hname, hctx]
                split <;> exact .refl ctx fs
              · obtain rfl := name_of_ofName? hname
                have hne : c ≠ mv := by
                  rintro rfl
                  exact hmv rfl
                rw [execute_of_ne ctx words input hname hc, guarded_snd]
                exact run_respects hctx hfs hne words input hspared

/-- What goes over a directory of the root user is not made where it is allowed. -/
theorem not_respects_of_overlays (hctx : ctx.elevated = false) (hfs : fs.IsProper)
    {later : FileSystem} {source target : String} {owner : Option String} {place : List String}
    {a : Attributes} {names : List String}
    (hface : fs.faceAt place = some (.directory a names)) (hroot : a.owner = Context.rootUser)
    (hover : Overlays ctx source target fs place)
    (hbelow : ¬ Path.segments target <+: Path.segments source)
    (hrun : (Edit.copyTree source target owner).run fs = .ok () later) : ¬ Respects ctx fs later := by
  obtain ⟨hmerges, below, there, rfl, hthere, hwithin | ⟨shown, hshown, hkind, hnew⟩⟩ := hover
  · exact absurd hwithin hbelow
  · obtain rfl : there = .directory a names := Option.some.inj (hthere.symm.trans hface)
    have hapart : Apart (Path.segments source) (Path.segments target) := by
      refine ⟨?_, hbelow⟩
      rw [← Path.isWithin_iff, hmerges.outside]
      simp
    rw [Edit.run_copyTree] at hrun
    obtain ⟨last, hlast, hincludes⟩ := Edit.includes_copyNode hfs hapart hrun hshown
    cases shown with
    | file => cases hkind
    | directory b others =>
        obtain ⟨name, hname, hmissing⟩ : ∃ name ∈ others, name ∉ names := by
          simpa [Face.Includes] using hnew
        cases last with
        | file => exact hincludes.elim
        | directory c all =>
            exact not_respects_of_new hctx hface hroot hmissing
              ((Edit.mem_names_iff_isSome_faceAt hlast name).1 (hincludes name hname))

/-- A copy of a single source goes over what its only turn goes over. -/
theorem overlays_of_copiesOver {words : List String} {t : Transfer} {source : String}
    {place : List String} (hcopies : Copies ctx words fs t) (hsources : t.sources = [source])
    (h : CopiesOver ctx words fs place) :
    Overlays ctx (ctx.resolve source) (t.target ctx (ctx.resolve source)) fs place := by
  obtain ⟨rest, args, rfl, hparse, -, htransfer⟩ := hcopies
  obtain ⟨u, before, other, after, hother, hsplit, hover⟩ := h
  obtain ⟨rest', args', hwords, hparse', -, htransfer'⟩ := hother
  obtain rfl := (List.cons.inj hwords).2
  obtain rfl := Except.ok.inj (hparse.symm.trans hparse')
  obtain rfl := Except.ok.inj (htransfer.symm.trans htransfer')
  rw [hsources] at hsplit
  cases before with
  | cons => simp at hsplit
  | nil =>
      obtain rfl : source = other := (List.cons.inj hsplit).1
      exact hover

/-- A copy of a single source, apart from its target, that ends without an error makes something where it
is not allowed exactly if it goes over a directory of the root user. -/
theorem execute_copies_respects_iff (hctx : ctx.elevated = false) (hfs : fs.IsProper)
    {words : List String} (input : Option String) {t : Transfer} {source : String}
    (hcopies : Copies ctx words fs t) (hsources : t.sources = [source])
    (hbelow : ¬ Path.segments (t.target ctx (ctx.resolve source)) <+:
      Path.segments (ctx.resolve source))
    (hok : (execute ctx input words fs).1.exitCode = 0) :
    Respects ctx fs (execute ctx input words fs).2 ↔ ¬ Intrudes ctx words fs := by
  constructor
  · rintro hrespects ⟨place, a, names, hface, hroot, hcopiesOver⟩
    have hover := overlays_of_copiesOver hcopies hsources hcopiesOver
    have hexecute := execute_copies input hcopies hsources hover.1
    cases hcopy : (Edit.copyTree (ctx.resolve source) (t.target ctx (ctx.resolve source))
        (some ctx.user)).run fs with
    | ok _ later =>
        rw [hcopy] at hexecute
        rw [hexecute] at hrespects
        exact not_respects_of_overlays hctx hfs hface hroot hover hbelow hcopy hrespects
    | error e later =>
        rw [hcopy] at hexecute
        rw [hexecute] at hok
        simp [Outcome.ofLines, Outcome.failure] at hok
  · obtain ⟨rest, args, rfl, -⟩ := hcopies
    have hmv : some (name cp) ≠ some (name mv) := by decide
    exact execute_respects hfs input hmv

end Runs

section Moves

variable {ctx : Context} {fs : FileSystem}

/-- What is moved is new only at and below its target. -/
theorem rename_respects {source target : String}
    (hthere : deniedIfAny ctx (fs.stat? target) = false) (hparent : parentDenied ctx fs target = false) :
    Leads (Respects ctx) (Edit.rename source target) fs := by
  rcases Edit.makes_rename source target fs with ⟨-, hrun⟩ | ⟨e, hrun⟩ |
    ⟨c, ⟨parent, name, newParent, newName, hsource, htarget, rfl⟩, hfits, hrun⟩
  · rw [Leads, hrun]
    exact .refl ctx fs
  · rw [Leads, hrun]
    exact .refl ctx fs
  · rw [Leads, hrun, left_ok]
    have hnew : ∀ place, fs.faceAt place = none →
        ((apply fs (.move parent name newParent newName)).faceAt place).isSome →
        Path.segments target <+: place := by
      intro place hnone hsome
      by_contra hbeside
      rw [htarget] at hbeside
      rw [faceAt_move hfits, if_neg hbeside, hnone] at hsome
      split at hsome <;> cases hsome
    cases hnode : fs.root.find? (Path.segments target) with
    | none =>
        exact respects_below (faceAt_eq_none_iff.2 hnode)
          (allows_of_not_parentDenied fun _ => hparent) hnew
    | some there =>
        intro place hsome hnone
        obtain ⟨below, rfl⟩ := hnew place hnone hsome
        obtain ⟨-, -, node, -, hreplace⟩ := hfits
        rw [← htarget, hnode] at hreplace
        -- what is replaced holds nothing
        rw [nearestAlong_eq hnode below]
        · rw [FileSystem.stat?, FileSystem.find?, hnode] at hthere
          exact hthere
        · intro next _
          rw [Node.find?_append, hnode, Option.bind_some, Node.find?_of_entries_eq_nil hreplace.2]
          rfl

theorem moveOne_respects (t : Transfer) (force : Bool) (source : String) :
    Leads (Respects ctx) (moveOne ctx t force source) fs :=
  leads_moveOne_of (Respects.refl ctx fs) fun hthere hparent => rename_respects hthere hparent

end Moves

section Refusals

variable {ctx : Context} {fs : FileSystem}

/-- The message that something is denied. -/
def denial (start : String) : String := start ++ "Permission denied"

theorem messageOf_ne_denial (start : String) (failure : Option Cause) :
    messageOf start failure ≠ [denial start] := by
  cases failure with
  | none => simp [messageOf]
  | some cause =>
      exact fun h => cause.text_ne_denied ((String.append_right_inj start).1 (List.cons.inj h).1)

/-- An operation that is denied from the start changes nothing, and no other failure is told of as one
that is denied. -/
theorem run_unless_denied_iff {denied : Bool} {start : String} {operation : Edit Unit} :
    (if denied = true then pure [denial start] else do
      return messageOf start (← Action.attempt operation) : Action (List String)).run fs =
        .ok [denial start] fs ↔ denied = true := by
  cases denied with
  | true => exact iff_of_true rfl rfl
  | false =>
      refine iff_of_false (fun h => ?_) Bool.false_ne_true
      rw [if_neg Bool.false_ne_true, run_bind_eq_ok_iff] at h
      obtain ⟨failure, later, -, hmessage⟩ := h
      exact messageOf_ne_denial start failure (EStateM.Result.ok.inj hmessage).1

theorem makeOne_denied_iff {operand : String} (h : fs.stat? (ctx.resolve operand) = none)
    (parents : Bool) : (makeOne ctx parents operand).run fs =
      .ok [denial ("mkdir: cannot create directory '" ++ operand ++ "': ")] fs ↔
        denied ctx (nearestExisting fs (ctx.resolve operand)) = true := by
  rw [← parentDenied_of_none h]
  exact run_unless_denied_iff

theorem touchOne_denied_iff {operand : String} (h : fs.stat? (ctx.resolve operand) = none) :
    (touchOne ctx operand).run fs = .ok [denial ("touch: cannot touch '" ++ operand ++ "': ")] fs ↔
      denied ctx (nearestExisting fs (ctx.resolve operand)) = true := by
  rw [← parentDenied_of_none h]
  have hasks : (deniedIfAny ctx (fs.stat? (ctx.resolve operand)) ||
      ((fs.stat? (ctx.resolve operand)).isNone && parentDenied ctx fs (ctx.resolve operand))) =
        parentDenied ctx fs (ctx.resolve operand) := by
    rw [h]
    rfl
  rw [← hasks]
  exact run_unless_denied_iff

/-- Whether nothing but what is at its target can keep a source from being copied: it may be read, and
if it is a directory, directories are copied and the target is not within it. -/
structure IsCopyable (ctx : Context) (recursive : Bool) (source target : String) (fs : FileSystem) :
    Prop where
  readable : treeDenied ctx fs source = false
  there : ∃ node, fs.stat? source = some node ∧
    (node.isDirectory = true → recursive = true ∧ Path.isWithin target source = false)

theorem copyOne_denied_iff {t : Transfer} {recursive : Bool} {source : String}
    (hcopyable : IsCopyable ctx recursive (ctx.resolve source) (t.target ctx (ctx.resolve source)) fs)
    (h : fs.stat? (t.target ctx (ctx.resolve source)) = none) :
    (copyOne ctx t recursive source).run fs =
      .ok [denial ("cp: cannot create regular file '" ++ t.destination ++ "': ")] fs ↔
        denied ctx (nearestExisting fs (t.target ctx (ctx.resolve source))) = true := by
  obtain ⟨hreadable, node, hnode, hdirectory⟩ := hcopyable
  have hflag : (node.isDirectory && !recursive) = false := by
    cases hkind : node.isDirectory with
    | false => rfl
    | true => rw [(hdirectory hkind).1]; rfl
  have houtside : (node.isDirectory &&
      Path.isWithin (t.target ctx (ctx.resolve source)) (ctx.resolve source)) = false := by
    cases hkind : node.isDirectory with
    | false => rfl
    | true => rw [(hdirectory hkind).2]; rfl
  rw [← parentDenied_of_none h, copyOne, run_get_bind]
  simp only [hnode, h, hflag, hreadable, houtside, deniedIfAny, Option.any_none, Option.isNone_none,
    Bool.and_false, Bool.false_or, Bool.true_and, Bool.false_eq_true, if_false]
  exact run_unless_denied_iff

/-- Whether nothing but its target can keep a source from being moved: neither it nor the directory that
it is taken from is off limits, and a directory is not moved into itself. -/
structure IsMovable (ctx : Context) (source target : String) (fs : FileSystem) : Prop where
  removable : parentDenied ctx fs source = false
  there : ∃ node, fs.stat? source = some node ∧ denied ctx node = false ∧
    (node.isDirectory = true → target ≠ source → Path.isWithin target source = false)

theorem moveOne_denied_iff {t : Transfer} {source : String} (force : Bool)
    (hmovable : IsMovable ctx (ctx.resolve source) (t.target ctx (ctx.resolve source)) fs)
    (h : fs.stat? (t.target ctx (ctx.resolve source)) = none) :
    (moveOne ctx t force source).run fs =
      .ok [denial ("mv: cannot move '" ++ source ++ "' to '" ++ t.destination ++ "': ")] fs ↔
        denied ctx (nearestExisting fs (t.target ctx (ctx.resolve source))) = true := by
  obtain ⟨hremovable, node, hnode, hallowed, hdirectory⟩ := hmovable
  have houtside : ¬ (node.isDirectory &&
      decide (t.target ctx (ctx.resolve source) ≠ ctx.resolve source) &&
      Path.isWithin (t.target ctx (ctx.resolve source)) (ctx.resolve source)) = true := by
    simp only [Bool.and_eq_true, decide_eq_true_eq, not_and, Bool.not_eq_true]
    exact fun hboth => hdirectory hboth.1 hboth.2
  rw [← parentDenied_of_none h, moveOne, run_get_bind]
  simp only [hnode, h, hremovable, hallowed, deniedIfAny, Option.any_none, Bool.false_or]
  rw [if_neg houtside]
  exact run_unless_denied_iff

end Refusals

end Command

end PracticeShell
