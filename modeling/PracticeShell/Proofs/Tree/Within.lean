import PracticeShell.Proofs.Run
import PracticeShell.Proofs.Tree.CopyTree
import PracticeShell.Proofs.Tree.Histories

/-!
# Operations on a view

A directory can be reached in two ways: as the root of a view, or by paths that start with its own
(`Path.under`). Whatever is done to the view happens in the whole file system when the paths are put
under that of the directory (`Request.mirrors`), except that the paths in failures are under that of
the directory, too. There is one lemma for each operation.
-/

namespace PracticeShell

open FileTree Run

namespace Path

/-- A path that is read in the directory at `base`: no `..` in it leads higher. -/
def under (base path : String) : String := base ++ normalize path

theorem parts_intercalate {names : List String} (hne : names ≠ [])
    (h : ∀ name ∈ names, '/' ∉ name.toList) : parts ("/".intercalate names) = names := by
  have hsplit := parts_append_slash "" ("/".intercalate names)
  rw [String.empty_append] at hsplit
  have hparts := parts_ofSegments hne h
  rw [ofSegments, hsplit, parts_empty] at hparts
  exact (List.cons.inj hparts).2

/-- A path that names are written after leads to the place with these names below its own. -/
theorem segments_append_ofSegments (path : String) {names : List String}
    (h : ∀ name ∈ names, IsSegment name) :
    segments (path ++ ofSegments names) = segments path ++ names := by
  rw [ofSegments, ← String.append_assoc, segments_append_slash]
  by_cases hne : names = []
  · have hempty : "/".intercalate names = "" := by rw [hne]; rfl
    rw [hempty, parts_empty, hne]
    simp [walkDown]
  · rw [parts_intercalate hne fun n hn => (h n hn).2.2.2, walkDown_of_isSegment h,
      List.reverse_reverse]

theorem segments_under (base path : String) :
    segments (under base path) = segments base ++ segments path :=
  segments_append_ofSegments base fun _ hname => isSegment_of_mem_segments hname

theorem normalize_eq_root_iff (path : String) : normalize path = "/" ↔ segments path = [] :=
  ⟨fun h => ofSegments_injective (fun _ hname => isSegment_of_mem_segments hname) (by simp) h,
    fun h => by rw [normalize, h]; rfl⟩

end Path

namespace FileTree

/-- Whether a failure has the cause of another, at the same path under a base directory. -/
def Error.IsUnder (base : String) (e e' : Error) : Prop :=
  e'.cause = e.cause ∧ Path.segments e'.path = Path.segments base ++ Path.segments e.path

end FileTree

namespace FileSystem

/-- Whether a file system is another one with a changed view put back, where the view still has the
time and the default owner that it was taken with. -/
structure Embeds (fs : FileSystem) (base : String) (inner whole : FileSystem) : Prop where
  eq_putBack : whole = fs.putBack base inner
  now : inner.now = fs.now
  defaultOwner : inner.defaultOwner = fs.defaultOwner

variable {fs inner whole : FileSystem} {base : String}

theorem embeds_of_view (h : fs.view base = .ok inner) : fs.Embeds base inner fs :=
  ⟨(putBack_view h).symm, now_of_view h, defaultOwner_of_view h⟩

namespace Embeds

theorem now_eq (h : fs.Embeds base inner whole) : whole.now = inner.now := by
  rw [h.eq_putBack, now_putBack, h.now]

theorem defaultOwner_eq (h : fs.Embeds base inner whole) :
    whole.defaultOwner = inner.defaultOwner := by
  rw [h.eq_putBack, putBack, defaultOwner_modifyAt, h.defaultOwner]

/-- Below the base directory is what the view shows. -/
theorem find? (h : fs.Embeds base inner whole) (hbase : fs.kindAt (Path.segments base) = some true)
    (below : List String) :
    whole.root.find? (Path.segments base ++ below) = inner.root.find? below := by
  rw [h.eq_putBack, find?_putBack hbase]

/-- A change of one node of the view is a change of that node under the base directory. -/
theorem modifyAt (h : fs.Embeds base inner whole) (place : List String) {f : Node → Node}
    (hf : ∀ node, (f node).isDirectory = node.isDirectory) :
    fs.Embeds base (inner.modifyAt place f) (whole.modifyAt (Path.segments base ++ place) f) := by
  refine ⟨?_, by rw [now_modifyAt, h.now], by rw [defaultOwner_modifyAt, h.defaultOwner]⟩
  have hboth : whole.root.modify f (Path.segments base ++ place) =
      fs.root.modify (fun _ => inner.root.modify f place) (Path.segments base) := by
    rw [h.eq_putBack, root_putBack, Node.modify_append, Node.modify_modify]
  have hdirectory : (fs.root.modify (fun _ => inner.root.modify f place)
      (Path.segments base)).isDirectory = true := by
    cases Path.segments base with
    | nil => exact Node.isDirectory_modify hf place inner.root
    | cons => rfl
  rw [putBack, root_modifyAt inner place hf]
  rw [FileSystem.modifyAt, hboth, h.eq_putBack, putBack, FileSystem.modifyAt,
    setRoot_setRoot _ _ hdirectory, FileSystem.modifyAt]

theorem modifyEntries (h : fs.Embeds base inner whole) (place : List String)
    (f : Entries → Entries) : fs.Embeds base (inner.modifyEntries place f)
      (whole.modifyEntries (Path.segments base ++ place) f) := by
  rw [modifyEntries_eq, modifyEntries_eq, h.now_eq]
  exact h.modifyAt place fun node => isDirectory_stampEntries _ _ node

theorem mapAttributes (h : fs.Embeds base inner whole) {path full : String}
    (hfull : Path.segments full = Path.segments base ++ Path.segments path)
    (f : Attributes → Attributes) : fs.Embeds base
      (inner.modifyAt (Path.segments path) (Node.mapAttributes f))
      (whole.modifyAt (Path.segments full) (Node.mapAttributes f)) := by
  rw [hfull]
  exact h.modifyAt _ fun node => by cases node <;> rfl

end Embeds

end FileSystem

namespace Edit

theorem ownerOr_eq {fs inner whole : FileSystem} {base : String}
    (h : fs.Embeds base inner whole) (owner : Option String) :
    ownerOr owner whole = ownerOr owner inner := by
  unfold ownerOr
  rw [h.defaultOwner_eq]

theorem run_parentOf_eq {path name : String} {parent : List String}
    (hpath : Path.segments path = parent ++ [name]) (fs : FileSystem) :
    (parentOf path).run fs = match fs.root.find? parent with
      | none => .error ⟨.notFound, Path.ofSegments (parent ++ [name])⟩ fs
      | some (.file ..) => .error ⟨.notADirectory, Path.ofSegments (parent ++ [name])⟩ fs
      | some (.directory _ es) => .ok (parent, es, name) fs := by
  simp only [parentOf, hpath, List.getLast?_concat, List.dropLast_concat, EStateM.run_bind,
    EStateM.run_get]
  cases fs.root.find? parent with
  | none => rfl
  | some node => cases node <;> rfl

section

variable {fs inner whole : FileSystem} {base path full : String}
  (hbase : fs.kindAt (Path.segments base) = some true) (h : fs.Embeds base inner whole)
  (hfull : Path.segments full = Path.segments base ++ Path.segments path)

include hfull

theorem isUnder_of_cause (cause : Cause) :
    Error.IsUnder base ⟨cause, path⟩ ⟨cause, full⟩ := ⟨rfl, hfull⟩

theorem isUnder_ofSegments (cause : Cause) :
    Error.IsUnder base ⟨cause, Path.ofSegments (Path.segments path)⟩
      ⟨cause, Path.ofSegments (Path.segments full)⟩ := by
  refine ⟨rfl, ?_⟩
  change Path.segments (Path.normalize full) = _ ++ Path.segments (Path.normalize path)
  rw [Path.segments_normalize, Path.segments_normalize, hfull]

include hbase h

theorem find?_full : whole.find? full = inner.find? path := by
  rw [FileSystem.find?, hfull, h.find? hbase, FileSystem.find?]

variable (hne : Path.segments path ≠ [])

include hne

/-- What `parentOf` finds in a view, it finds under the base directory. -/
theorem parentOf_mirrors :
    Mirrors (Error.IsUnder base) (fs.Embeds base)
      (fun found there => there = (Path.segments base ++ found.1, found.2) ∧
        Path.segments path = found.1 ++ [found.2.2])
      (parentOf path) (parentOf full) inner whole := by
  obtain hroot | ⟨parent, name, hpath⟩ := List.eq_nil_or_concat (Path.segments path)
  · exact absurd hroot hne
  · rw [List.concat_eq_append] at hpath
    have hplace : Path.segments full = (Path.segments base ++ parent) ++ [name] := by
      rw [hfull, hpath, List.append_assoc]
    rw [Mirrors, run_parentOf_eq hpath, run_parentOf_eq hplace, h.find? hbase, ← hpath, ← hplace]
    cases inner.root.find? parent with
    | none => exact .error (isUnder_ofSegments hfull _) h
    | some node =>
        cases node with
        | file => exact .error (isUnder_ofSegments hfull _) h
        | directory a es => exact .ok ⟨rfl, hpath⟩ h

theorem makeDirectory_mirrors (permissions : Permissions) (owner : Option String) :
    Mirrors (Error.IsUnder base) (fs.Embeds base) Eq (makeDirectory path permissions owner)
      (makeDirectory full permissions owner) inner whole := by
  have hne' : Path.segments full ≠ [] := by simp [hfull, hne]
  unfold makeDirectory
  rw [if_neg (by simpa using hne), if_neg (by simpa using hne')]
  refine (parentOf_mirrors hbase h hfull hne).bind ?_
  rintro ⟨parent, es, name⟩ _ s t - - ⟨rfl, -⟩ hst
  dsimp only
  refine .ite Iff.rfl (fun _ => .throw hst (isUnder_of_cause hfull _)) fun _ => .modify ?_ rfl
  rw [ownerOr_eq hst, hst.now_eq]
  exact hst.modifyEntries parent _

theorem write_mirrors (bytes : ByteArray) (owner : Option String) (permissions : Permissions) :
    Mirrors (Error.IsUnder base) (fs.Embeds base) Eq (write path bytes owner permissions)
      (write full bytes owner permissions) inner whole := by
  unfold write
  refine (parentOf_mirrors hbase h hfull hne).bind ?_
  rintro ⟨parent, es, name⟩ _ s t - - ⟨rfl, -⟩ hst
  dsimp only
  cases Entries.get? es name with
  | none =>
      refine .modify ?_ rfl
      rw [ownerOr_eq hst, hst.now_eq]
      exact hst.modifyEntries parent _
  | some node =>
      cases node with
      | directory => exact .throw hst (isUnder_of_cause hfull _)
      | file =>
          refine .modify ?_ rfl
          rw [hst.now_eq, List.append_assoc]
          exact hst.modifyAt (parent ++ [name]) fun node => by cases node <;> rfl

theorem touch_mirrors (owner : Option String) :
    Mirrors (Error.IsUnder base) (fs.Embeds base) Eq (touch path owner) (touch full owner)
      inner whole := by
  refine .get_bind ?_
  rw [find?_full hbase h hfull]
  cases inner.find? path with
  | none => exact write_mirrors hbase h hfull hne _ owner _
  | some node =>
      refine .modify ?_ rfl
      rw [h.now_eq]
      exact h.mapAttributes hfull _

theorem unlink_mirrors :
    Mirrors (Error.IsUnder base) (fs.Embeds base) Eq (unlink path) (unlink full) inner whole := by
  unfold unlink
  refine (parentOf_mirrors hbase h hfull hne).bind ?_
  rintro ⟨parent, es, name⟩ _ s t - - ⟨rfl, -⟩ hst
  dsimp only
  cases Entries.get? es name with
  | none => exact .throw hst (isUnder_of_cause hfull _)
  | some node =>
      cases node with
      | directory => exact .throw hst (isUnder_of_cause hfull _)
      | file => exact .modify (hst.modifyEntries parent _) rfl

theorem removeDirectory_mirrors :
    Mirrors (Error.IsUnder base) (fs.Embeds base) Eq (removeDirectory path) (removeDirectory full)
      inner whole := by
  unfold removeDirectory
  refine (parentOf_mirrors hbase h hfull hne).bind ?_
  rintro ⟨parent, es, name⟩ _ s t - - ⟨rfl, -⟩ hst
  dsimp only
  cases Entries.get? es name with
  | none => exact .throw hst (isUnder_of_cause hfull _)
  | some node =>
      cases node with
      | file => exact .throw hst (isUnder_of_cause hfull _)
      | directory a inside =>
          exact .ite Iff.rfl (fun _ => .modify (hst.modifyEntries parent _) rfl) fun _ =>
            .throw hst (isUnder_of_cause hfull _)

theorem removeTree_mirrors :
    Mirrors (Error.IsUnder base) (fs.Embeds base) Eq (removeTree path) (removeTree full)
      inner whole := by
  unfold removeTree
  refine (parentOf_mirrors hbase h hfull hne).bind ?_
  rintro ⟨parent, es, name⟩ _ s t - - ⟨rfl, -⟩ hst
  dsimp only
  cases Entries.get? es name with
  | none => exact .throw hst (isUnder_of_cause hfull _)
  | some node => exact .modify (hst.modifyEntries parent _) rfl

omit hne

theorem setPermissions_mirrors (permissions : Permissions) :
    Mirrors (Error.IsUnder base) (fs.Embeds base) Eq (setPermissions path permissions)
      (setPermissions full permissions) inner whole := by
  refine .get_bind ?_
  rw [find?_full hbase h hfull]
  cases inner.find? path with
  | none => exact .throw h (isUnder_of_cause hfull _)
  | some node => exact .modify (h.mapAttributes hfull _) rfl

theorem setOwner_mirrors (owner : String) :
    Mirrors (Error.IsUnder base) (fs.Embeds base) Eq (setOwner path owner) (setOwner full owner)
      inner whole := by
  refine .get_bind ?_
  rw [find?_full hbase h hfull]
  cases inner.find? path with
  | none => exact .throw h (isUnder_of_cause hfull _)
  | some node => exact .modify (h.mapAttributes hfull _) rfl

end

section

variable {fs inner whole : FileSystem} {base source target fullSource fullTarget : String}
  (hbase : fs.kindAt (Path.segments base) = some true) (h : fs.Embeds base inner whole)
  (hsource : Path.segments fullSource = Path.segments base ++ Path.segments source)
  (htarget : Path.segments fullTarget = Path.segments base ++ Path.segments target)

include hbase h hsource htarget

theorem rename_mirrors (hne : Path.segments source ≠ []) (hne' : Path.segments target ≠ []) :
    Mirrors (Error.IsUnder base) (fs.Embeds base) Eq (rename source target)
      (rename fullSource fullTarget) inner whole := by
  have hsame : Path.segments target = Path.segments source ↔
      Path.segments fullTarget = Path.segments fullSource := by
    rw [hsource, htarget, List.append_cancel_left_eq]
  have hinside : (Path.segments source).isPrefixOf (Path.segments target) ↔
      (Path.segments fullSource).isPrefixOf (Path.segments fullTarget) := by
    rw [hsource, htarget, List.isPrefixOf_iff_prefix, List.isPrefixOf_iff_prefix,
      List.prefix_append_right_inj]
  unfold rename
  refine (parentOf_mirrors hbase h hsource hne).bind ?_
  rintro ⟨parent, es, name⟩ _ s t - - ⟨rfl, -⟩ hst
  dsimp only
  cases Entries.get? es name with
  | none => exact .throw hst (isUnder_of_cause hsource _)
  | some node =>
      refine .ite hsame (fun _ => .pure hst rfl) fun _ =>
        .ite hinside (fun _ => .throw_bind hst (isUnder_of_cause htarget _)) fun _ => ?_
      refine (parentOf_mirrors hbase hst htarget hne').bind ?_
      rintro ⟨newParent, others, newName⟩ _ u v - - ⟨rfl, -⟩ huv
      have hmoves := (huv.modifyEntries parent (Entries.erase · name)).modifyEntries newParent
        (Entries.put newName node)
      dsimp only
      cases Entries.get? others newName with
      | none => exact .modify hmoves rfl
      | some there =>
          exact .ite Iff.rfl (fun _ => .throw_bind huv (isUnder_of_cause htarget _)) fun _ =>
            .ite Iff.rfl (fun _ => .throw_bind huv (isUnder_of_cause htarget _)) fun _ =>
            .ite Iff.rfl (fun _ => .throw_bind huv (isUnder_of_cause htarget _)) fun _ =>
            .modify hmoves rfl

theorem copyFile_mirrors (hne : Path.segments target ≠ []) (owner : Option String) :
    Mirrors (Error.IsUnder base) (fs.Embeds base) Eq (copyFile source target owner)
      (copyFile fullSource fullTarget owner) inner whole := by
  refine .get_bind ?_
  rw [find?_full hbase h hsource]
  cases inner.find? source with
  | none => exact .throw h (isUnder_of_cause hsource _)
  | some node =>
      cases node with
      | directory => exact .throw h (isUnder_of_cause hsource _)
      | file a bytes => exact write_mirrors hbase h htarget hne bytes owner a.permissions

end

section

variable {fs inner whole : FileSystem} {base : String}
  (hbase : fs.kindAt (Path.segments base) = some true)

include hbase

theorem makeAlong_mirrors (permissions : Permissions) (owner : Option String) (rest : List String)
    {done : List String} (hsegments : ∀ name ∈ done ++ rest, Path.IsSegment name)
    (h : fs.Embeds base inner whole) :
    Mirrors (Error.IsUnder base) (fs.Embeds base) Eq (makeAlong permissions owner done rest)
      (makeAlong permissions owner (Path.segments base ++ done) rest) inner whole := by
  induction rest generalizing done inner whole with
  | nil => exact .pure h rfl
  | cons name rest ih =>
      have hnames : ∀ n ∈ done ++ [name] ++ rest, Path.IsSegment n := by simpa using hsegments
      have hplace : Path.segments (Path.ofSegments (done ++ [name])) = done ++ [name] :=
        Path.segments_ofSegments fun n hn => hnames n (List.mem_append_left _ hn)
      have hfull : Path.segments (Path.ofSegments (Path.segments base ++ (done ++ [name]))) =
          Path.segments base ++ Path.segments (Path.ofSegments (done ++ [name])) := by
        rw [hplace]
        refine Path.segments_ofSegments fun n hn => ?_
        rcases List.mem_append.1 hn with hn | hn
        · exact Path.isSegment_of_mem_segments hn
        · exact hnames n (List.mem_append_left _ hn)
      have hne : Path.segments (Path.ofSegments (done ++ [name])) ≠ [] := by simp [hplace]
      rw [makeAlong, makeAlong]
      refine .get_bind ?_
      rw [List.append_assoc, h.find? hbase]
      cases inner.root.find? (done ++ [name]) with
      | none =>
          exact (makeDirectory_mirrors hbase h hfull hne permissions owner).bind
            fun _ _ s t _ _ _ hst => ih hnames hst
      | some node =>
          cases node with
          | file => exact .throw_bind h (isUnder_of_cause hfull _)
          | directory a es => exact ih hnames h

omit hbase in
/-- Nothing is made along a way to a directory that is there. -/
theorem run_makeAlong_append (permissions : Permissions) (owner : Option String)
    (way : List String) {done : List String} (rest : List String)
    (hthere : fs.kindAt (done ++ way) = some true) :
    (makeAlong permissions owner done (way ++ rest)).run fs =
      (makeAlong permissions owner (done ++ way) rest).run fs := by
  induction way generalizing done with
  | nil => rw [List.nil_append, List.append_nil]
  | cons name way ih =>
      have hnext : fs.kindAt (done ++ [name] ++ way) = some true := by simpa using hthere
      obtain ⟨a, es, hdir⟩ := FileSystem.kindAt_eq_true_iff.1 (FileSystem.kindAt_of_prefix
        (List.prefix_append _ way) hnext)
      rw [List.cons_append, makeAlong, run_get_bind, hdir]
      have hsplit : done ++ name :: way = done ++ [name] ++ way := by simp
      rw [hsplit]
      exact ih hnext

theorem makeDirectories_mirrors {path full : String} (h : fs.Embeds base inner whole)
    (hfull : Path.segments full = Path.segments base ++ Path.segments path)
    (permissions : Permissions) (owner : Option String) :
    Mirrors (Error.IsUnder base) (fs.Embeds base) Eq (makeDirectories path permissions owner)
      (makeDirectories full permissions owner) inner whole := by
  have hthere : whole.kindAt ([] ++ Path.segments base) = some true := by
    have hroot := h.find? hbase []
    rw [List.append_nil] at hroot
    rw [List.nil_append, FileSystem.kindAt, hroot]
    rfl
  have hsegments : ∀ name ∈ [] ++ Path.segments path, Path.IsSegment name := fun _ hname =>
    Path.isSegment_of_mem_segments (by simpa using hname)
  have halong := makeAlong_mirrors hbase permissions owner (Path.segments path) hsegments h
  rw [Mirrors, makeDirectories, makeDirectories, hfull,
    run_makeAlong_append permissions owner _ _ hthere]
  rwa [List.append_nil] at halong

omit hbase in
theorem ask_mirrors {α β : Type} {V : α → β → Prop} {f : FileSystem → Except FileTree.Error α}
    {g : FileSystem → Except FileTree.Error β} (h : fs.Embeds base inner whole)
    (hanswers : Answers (Error.IsUnder base) V (f inner) (g whole)) :
    Mirrors (Error.IsUnder base) (fs.Embeds base) V (ask f) (ask g) inner whole := by
  rw [Mirrors, run_ask, run_ask]
  generalize f inner = x at hanswers
  generalize g whole = y at hanswers
  cases hanswers with
  | ok hvalues => exact .ok hvalues h
  | error hfailures => exact .error hfailures h

/-- The names in a directory of a view are those in the directory under the base directory. -/
theorem names_answers {path full : String} (h : fs.Embeds base inner whole)
    (hfull : Path.segments full = Path.segments base ++ Path.segments path) :
    Answers (Error.IsUnder base) Eq (inner.names path) (whole.names full) := by
  rw [FileSystem.names, FileSystem.names, find?_full hbase h hfull]
  cases inner.find? path with
  | none => exact .error (isUnder_of_cause hfull _)
  | some node =>
      cases node with
      | file => exact .error (isUnder_of_cause hfull _)
      | directory a es => exact .ok rfl

omit hbase in
theorem segments_entryPath_full {path full name : String}
    (hfull : Path.segments full = Path.segments base ++ Path.segments path)
    (hname : Path.IsSegment name) : Path.segments (entryPath full name) =
      Path.segments base ++ Path.segments (entryPath path name) := by
  rw [Path.segments_entryPath full hname, Path.segments_entryPath path hname, hfull,
    List.append_assoc]

/-- A copy in a view is a copy under the base directory, entry by entry. -/
theorem copyNode_mirrors (owner : Option String) (levels : Nat)
    {source target fullSource fullTarget : String} (h : fs.Embeds base inner whole)
    (hproper : inner.IsProper)
    (hsource : Path.segments fullSource = Path.segments base ++ Path.segments source)
    (htarget : Path.segments fullTarget = Path.segments base ++ Path.segments target)
    (hne : Path.segments target ≠ []) :
    Mirrors (Error.IsUnder base) (fun s t => fs.Embeds base s t ∧ s.IsProper) Eq
      (copyNode owner levels source target) (copyNode owner levels fullSource fullTarget)
      inner whole := by
  induction levels generalizing inner whole source target fullSource fullTarget with
  | zero => exact .throw ⟨h, hproper⟩ (isUnder_of_cause hsource _)
  | succ levels ih =>
      have hentries : ∀ {s t : FileSystem}, fs.Embeds base s t → s.IsProper →
          Mirrors (Error.IsUnder base) (fun s t => fs.Embeds base s t ∧ s.IsProper) Eq
            (copyEntries (copyNode owner levels) source target)
            (copyEntries (copyNode owner levels) fullSource fullTarget) s t := by
        intro s t hst hs
        have hnames : Mirrors (Error.IsUnder base) (fs.Embeds base) Eq (ask (·.names source))
            (ask (·.names fullSource)) s t := ask_mirrors hst (names_answers hbase hst hsource)
        refine Mirrors.bind (hnames.and_left (leads_ask (lasting_invariant _) _ s hs)) ?_
        rintro names _ u v hrun - rfl huv
        refine .forM rfl (fun name hname u v huv => ?_) huv
        have hsegment : Path.IsSegment name := by
          rw [run_ask] at hrun
          cases hfound : s.names source with
          | error e => simp [hfound] at hrun
          | ok found =>
              rw [hfound] at hrun
              cases hrun
              exact (hs.names hfound).2 name hname
        exact ih huv.1 huv.2 (segments_entryPath_full hsource hsegment)
          (segments_entryPath_full htarget hsegment) (by simp [Path.segments_entryPath _ hsegment])
      rw [Mirrors, run_copyNode_succ, run_copyNode_succ, find?_full hbase h hsource]
      cases inner.find? source with
      | none => exact .error (isUnder_of_cause hsource _) ⟨h, hproper⟩
      | some node =>
          cases node with
          | file =>
              exact Ends.and_left (copyFile_mirrors hbase h hsource htarget hne owner)
                (hproper.of_grows (copyFile_grows _ source target owner))
          | directory a es =>
              dsimp only
              have hdirectory : whole.isDirectory fullTarget = inner.isDirectory target := by
                rw [FileSystem.isDirectory, FileSystem.isDirectory, find?_full hbase h htarget]
              rw [hdirectory]
              split
              · exact hentries h hproper
              · have hmakes := Ends.and_left
                  (makeDirectory_mirrors hbase h htarget hne a.permissions owner)
                  (hproper.of_grows (makeDirectory_grows _ target a.permissions owner))
                exact Mirrors.bind hmakes fun _ _ s t _ _ _ hst => hentries hst.1 hst.2

theorem copyTree_mirrors (owner : Option String) {source target fullSource fullTarget : String}
    (h : fs.Embeds base inner whole) (hproper : inner.IsProper)
    (hsource : Path.segments fullSource = Path.segments base ++ Path.segments source)
    (htarget : Path.segments fullTarget = Path.segments base ++ Path.segments target)
    (hne : Path.segments target ≠ []) :
    Mirrors (Error.IsUnder base) (fs.Embeds base) Eq (copyTree source target owner)
      (copyTree fullSource fullTarget owner) inner whole := by
  have hlevels : copyLevels whole fullSource = copyLevels inner source := by
    rw [copyLevels, copyLevels, find?_full hbase h hsource]
  have hcopies := copyNode_mirrors hbase owner (copyLevels inner source) h hproper hsource htarget
    hne
  rw [Mirrors, run_copyTree, run_copyTree, hlevels]
  exact hcopies.imp (fun hst => hst.1) fun hresults => hresults

end

namespace Request

/-- The paths that a request is about. -/
def paths : Request → List String
  | makeDirectory path .. | makeDirectories path .. | write path .. | touch path .. => [path]
  | unlink path | removeDirectory path | removeTree path => [path]
  | rename source target | copyFile source target _ | copyTree source target _ => [source, target]
  | setPermissions path _ | setOwner path _ => [path]

/-- A request with other paths. -/
def mapPaths (f : String → String) : Request → Request
  | makeDirectory path mode owner => makeDirectory (f path) mode owner
  | makeDirectories path mode owner => makeDirectories (f path) mode owner
  | write path bytes owner mode => write (f path) bytes owner mode
  | touch path owner => touch (f path) owner
  | unlink path => unlink (f path)
  | removeDirectory path => removeDirectory (f path)
  | removeTree path => removeTree (f path)
  | rename source target => rename (f source) (f target)
  | copyFile source target owner => copyFile (f source) (f target) owner
  | copyTree source target owner => copyTree (f source) (f target) owner
  | setPermissions path mode => setPermissions (f path) mode
  | setOwner path owner => setOwner (f path) owner

/-- A request to a view is mirrored by the same request with paths under the base directory. -/
theorem mirrors {fs inner : FileSystem} {base : String} (hfs : fs.IsProper)
    (hview : fs.view base = .ok inner) (r : Request)
    (hpaths : ∀ path ∈ r.paths, Path.segments path ≠ []) :
    Mirrors (Error.IsUnder base) (fs.Embeds base) Eq r.edit (r.mapPaths (Path.under base)).edit
      inner fs := by
  have hbase := FileSystem.view_eq_ok_iff.1 ⟨inner, hview⟩
  have h := FileSystem.embeds_of_view hview
  have hunder := Path.segments_under base
  cases r with
  | makeDirectory path mode owner =>
      exact makeDirectory_mirrors hbase h (hunder path) (hpaths path (by simp [paths])) _ owner
  | makeDirectories path mode owner => exact makeDirectories_mirrors hbase h (hunder path) _ owner
  | write path bytes owner mode =>
      exact write_mirrors hbase h (hunder path) (hpaths path (by simp [paths])) bytes owner _
  | touch path owner =>
      exact touch_mirrors hbase h (hunder path) (hpaths path (by simp [paths])) owner
  | unlink path => exact unlink_mirrors hbase h (hunder path) (hpaths path (by simp [paths]))
  | removeDirectory path =>
      exact removeDirectory_mirrors hbase h (hunder path) (hpaths path (by simp [paths]))
  | removeTree path => exact removeTree_mirrors hbase h (hunder path) (hpaths path (by simp [paths]))
  | rename source target =>
      exact rename_mirrors hbase h (hunder source) (hunder target)
        (hpaths source (by simp [paths])) (hpaths target (by simp [paths]))
  | copyFile source target owner =>
      exact copyFile_mirrors hbase h (hunder source) (hunder target)
        (hpaths target (by simp [paths])) owner
  | copyTree source target owner =>
      exact copyTree_mirrors hbase owner h (hfs.view hview) (hunder source) (hunder target)
        (hpaths target (by simp [paths]))
  | setPermissions path mode => exact setPermissions_mirrors hbase h (hunder path) _
  | setOwner path owner => exact setOwner_mirrors hbase h (hunder path) owner

end Request

end Edit

end PracticeShell
