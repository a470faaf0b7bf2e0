import PracticeShell.Proofs.Guard
import PracticeShell.Proofs.Path.Resolving
import PracticeShell.Proofs.Redirection.Storing
import PracticeShell.Proofs.Session.Visiting
import PracticeShell.Proofs.Tree.Within

/-!
# What `scp` copies

A transfer goes from one `End` to another, of which one lies on another machine and the other in what
the learner sees. First the home on the other machine is made. What follows ends in one of four ways
(`Copied`): there is no file to copy, it is off limits, it cannot be written, or it has been written,
and the directories above it have been made. So the file that arrives holds what the source holds, and
a transfer that fails has made nothing but directories (`transfers_deliver_or_keep`).
-/

namespace PracticeShell

open FileTree FileTree.Change Run

namespace FileTree.Face

/-- What is left of the face of a node without the time and without the names in a directory: the
contents, if it is a file, the owner and the permissions. -/
def core : Face → Option ByteArray × String × Permissions
  | file a bytes => (some bytes, a.owner, a.permissions)
  | directory a _ => (none, a.owner, a.permissions)

theorem core_mapNames (now : Int) (f : List String → List String) (face : Face) :
    (face.mapNames now f).core = face.core := by
  cases face <;> rfl

end FileTree.Face

namespace Path

/-- What follows the last slash is the base name if it is a name. -/
theorem basename_append_name (start : String) {name : String} (h : IsSegment name) :
    basename (start ++ "/" ++ name) = name := by
  have hne : start ++ "/" ++ name ≠ "" := by
    intro heq
    have hlist := congrArg String.toList heq
    simp at hlist
  rw [basename, trimSlashes_of_isSegment _ h, if_neg hne, parts_append_slash, parts_of_isSegment h,
    List.getLast?_concat]
  rfl

/-- The base name of a normalized path is its last name, whatever is written before it. -/
theorem basename_append_normal (first : String) {path name : String} {parent : List String}
    (hnormal : ofSegments (segments path) = path) (h : segments path = parent ++ [name]) :
    basename (first ++ path) = name := by
  have hmem : name ∈ segments path := by simp [h]
  have hname : IsSegment name := isSegment_of_mem_segments hmem
  obtain ⟨start, hstart⟩ : ∃ start, path = start ++ "/" ++ name := by
    rw [← hnormal, h]
    by_cases hparent : parent = []
    · exact ⟨"", by simp [hparent, ofSegments]⟩
    · refine ⟨ofSegments parent, String.toList_injective ?_⟩
      rw [toList_ofSegments, List.map_append, intercalate_append _ (by simpa using hparent) (by simp)]
      simp [toList_ofSegments]
  have hfirst : first ++ path = first ++ start ++ "/" ++ name := by
    rw [hstart, String.append_assoc, String.append_assoc, String.append_assoc]
  rw [hfirst, basename_append_name _ hname]

end Path

namespace Edit

open FileSystem Redirection

/-- Writes a file after making the directories above it. -/
def deliver (user path : String) (bytes : ByteArray) : Edit Unit := do
  Edit.makeDirectories (Path.dirname path) Permissions.newDirectory (some user)
  Edit.write path bytes (some user) Permissions.newFile

variable {fs mid later inner whole : FileSystem} {user path full base : String} {bytes : ByteArray}
  {e : FileTree.Error} {permissions : Permissions} {owner : Option String} {way place : List String}
  {face : Face}

/-- A file that has been delivered has been written along its way. -/
theorem deliver_stores (hrun : (deliver user path bytes).run fs = .ok () later) :
    Stores user bytes (Path.segments path) fs later ∧
      fs.kindAt (Path.segments path) ≠ some true := by
  obtain ⟨⟨⟩, mid, hmakes, hwrite⟩ := run_bind_eq_ok_iff.1 hrun
  have hreaches := (makeDirectories_grows fs (Path.dirname path) _ _).of_run hmakes
  refine ⟨stores_of_write (makeDirectories_lays hmakes) hreaches hwrite, fun hdirectory => ?_⟩
  have hfree := Classical.not_not.1 (mt write_fails_iff.2 (not_fails_of_ok hwrite))
  exact hfree.2 (kindAt_of_reaches hreaches hdirectory)

/-- What cannot be delivered has made nothing. -/
theorem eq_of_deliver_error (hrun : (deliver user path bytes).run fs = .error e later) :
    later = fs := by
  rw [deliver, EStateM.run_bind] at hrun
  split at hrun
  · rename_i mid hmakes
    cases hthere : fs.contains (Path.dirname path) with
    | true =>
        have hdirectory : fs.kindAt (Path.segments (Path.dirname path)) = some true := by
          have hfree := mt makeDirectories_fails_iff.2 (not_fails_of_ok hmakes)
          by_contra hfile
          exact hfree ((obstructs_iff_of_contains hthere).2 hfile)
        rw [run_makeDirectories_of_directory hdirectory] at hmakes
        cases hmakes
        exact (makes_write path bytes _ _ fs).eq_of_error hrun
    | false =>
        exact absurd (fails_of_error hrun) (not_fails_write_of_makeDirectories hthere hmakes).2
  · rename_i hmakes
    cases hrun
    exact makeDirectories_eq_of_error hmakes

theorem deliver_fails_of_kindAt (h : fs.kindAt (Path.segments path) = some true) :
    Fails (deliver user path bytes) fs := by
  rw [← Classical.not_not (a := Fails _ _), not_fails_iff]
  rintro ⟨⟨⟩, later, hrun⟩
  exact (deliver_stores hrun).2 h

/-- What is delivered in a view is delivered under its directory, or fails in both. -/
theorem deliver_mirrors (hview : fs.view base = .ok inner)
    (hfull : Path.segments full = Path.segments base ++ Path.segments path) :
    Mirrors (fun _ _ => True) (fs.Embeds base) Eq (deliver user path bytes)
      (deliver user full bytes) inner fs := by
  have hbase := FileSystem.view_eq_ok_iff.1 ⟨inner, hview⟩
  have hembeds := FileSystem.embeds_of_view hview
  by_cases hroot : Path.segments path = []
  · obtain ⟨e, s, hinner⟩ : Fails (deliver user path bytes) inner :=
      deliver_fails_of_kindAt (by rw [hroot, kindAt_nil])
    obtain ⟨e', t, hwhole⟩ : Fails (deliver user full bytes) fs :=
      deliver_fails_of_kindAt (by rw [hfull, hroot, List.append_nil, hbase])
    rw [Mirrors, hinner, hwhole, eq_of_deliver_error hinner, eq_of_deliver_error hwhole]
    exact .error trivial hembeds
  · have hdirname : Path.segments (Path.dirname full) =
        Path.segments base ++ Path.segments (Path.dirname path) := by
      rw [Path.segments_dirname, Path.segments_dirname, hfull, List.dropLast_append_of_ne_nil hroot]
    have hmirrors : Mirrors (Error.IsUnder base) (fs.Embeds base) Eq (deliver user path bytes)
        (deliver user full bytes) inner fs :=
      (makeDirectories_mirrors hbase hembeds hdirname _ _).bind fun _ _ s t _ _ _ hst =>
        write_mirrors hbase hst hfull hroot bytes _ _
    rw [Mirrors] at hmirrors ⊢
    generalize (deliver user path bytes).run inner = r at hmirrors ⊢
    generalize (deliver user full bytes).run fs = r' at hmirrors ⊢
    cases hmirrors with
    | ok hsame hstates => exact .ok hsame hstates
    | error _ hstates => exact .error trivial hstates

namespace Lays

variable (h : Lays permissions owner way fs later)

include h

/-- Of what was there, nothing changes but times and the names in directories. -/
theorem core_eq (hface : fs.faceAt place = some face) :
    ∃ after, later.faceAt place = some after ∧ after.core = face.core := by
  rcases h.faceAt_cases hface with hlast | ⟨name, hlast⟩
  · exact ⟨face, hlast, rfl⟩
  · exact ⟨_, hlast, Face.core_mapNames _ _ face⟩

/-- Nothing but directories is made. -/
theorem isDirectory_of_missing (hmissing : fs.faceAt place = none)
    (hface : later.faceAt place = some face) : face.isDirectory = true := by
  have hplace := h.of_missing hmissing (by rw [hface]; rfl)
  rw [h.made place hplace hmissing] at hface
  cases hface
  rfl

/-- The files that are there afterwards were there before. -/
theorem faceAt_file_iff {a : Attributes} :
    later.faceAt place = some (.file a bytes) ↔ fs.faceAt place = some (.file a bytes) := by
  constructor
  · intro hlater
    cases hface : fs.faceAt place with
    | none => exact absurd (h.isDirectory_of_missing hface hlater) (by simp [Face.isDirectory])
    | some face =>
        rcases h.faceAt_cases hface with hlast | ⟨name, hlast⟩
        · rw [← hlater, hlast]
        · rw [hlater] at hlast
          cases face with
          | file => exact hlast.symm
          | directory => cases hlast
  · intro hface
    rcases h.faceAt_cases hface with hlast | ⟨name, hlast⟩
    · exact hlast
    · exact hlast

end Lays

end Edit

namespace Redirection.Stores

variable {fs later : FileSystem} {user : String} {bytes : ByteArray} {way place : List String}
  {face : Face} (h : Stores user bytes way fs later) (hne : place ≠ way)

include h hne

theorem core_eq (hface : fs.faceAt place = some face) :
    ∃ after, later.faceAt place = some after ∧ after.core = face.core := by
  rcases h.faceAt_cases hne hface with hlast | ⟨name, -, -, hlast⟩
  · exact ⟨face, hlast, rfl⟩
  · exact ⟨_, hlast, Face.core_mapNames _ _ face⟩

theorem isDirectory_of_missing (hmissing : fs.faceAt place = none)
    (hface : later.faceAt place = some face) : face.isDirectory = true := by
  obtain ⟨⟨rest, rfl⟩, -⟩ := h.of_missing hmissing (by rw [hface]; rfl)
  cases rest with
  | nil => exact absurd (List.append_nil place).symm hne
  | cons name rest =>
      rw [h.laid place name (by simp) hmissing] at hface
      cases hface
      rfl

end Redirection.Stores

namespace Remote

/-- The place of a path in all files, where it is seen from a directory. -/
def placeOf (base : Option String) (path : String) : List String :=
  base.elim [] Path.segments ++ Path.segments path

/-- The place of an end in all files. -/
def End.place (e : End) : List String := placeOf e.base e.path

/-- Where a file goes that is copied between two ends, in a directory or not: into a directory it goes
under its own name. -/
def landing (source target : End) (inside : Prop) [Decidable inside] : List String :=
  placeOf target.base (if inside then Path.join target.path (Path.basename source.path)
    else target.path)

section View

variable {w v : World} {base : Option String} {path user : String} {bytes : ByteArray}
  {inner : FileSystem}

/-- What is seen from a directory lies below it. -/
theorem faceAt_of_viewAt (h : w.viewAt base = .ok inner) (path : String) :
    inner.faceAt (Path.segments path) = w.fs.faceAt (placeOf base path) := by
  cases base with
  | none =>
      cases h
      rfl
  | some base =>
      rw [placeOf, Option.elim_some, FileSystem.faceAt, FileSystem.faceAt, Node.faceAt_append,
        FileSystem.find?_of_view h]
      rfl

theorem kindAt_of_viewAt (h : w.viewAt base = .ok inner) (path : String) :
    inner.kindAt (Path.segments path) = w.fs.kindAt (placeOf base path) := by
  rw [FileSystem.kindAt_eq, FileSystem.kindAt_eq, faceAt_of_viewAt h]

/-- What is tried in a view is tried on all files under the directory of the view. -/
theorem run_attempt_under {base : String} {x y : Edit Unit} {E : FileTree.Error → FileTree.Error → Prop}
    (h : w.fs.view base = .ok inner)
    (hmirrors : Mirrors E (w.fs.Embeds base) Eq x y inner w.fs) :
    ∃ failure, (Step.attempt (some base) x).run w =
        .ok failure { w with fs := left (y.run w.fs) } ∧ (failure = none ↔ ¬ Fails y w.fs) := by
  rw [Mirrors] at hmirrors
  rw [Step.attempt, Step.run_onView_some, h]
  dsimp only
  change Ends _ _ _ (x inner) (y.run w.fs) at hmirrors
  cases hx : x inner with
  | ok _ t =>
      cases hy : y.run w.fs with
      | error e later =>
          rw [hx, hy] at hmirrors
          cases hmirrors
      | ok _ later =>
          rw [hx, hy] at hmirrors
          cases hmirrors with
          | ok _ hembeds =>
              exact ⟨none, by rw [left_ok, hembeds.eq_putBack],
                iff_of_true rfl (not_fails_of_ok hy)⟩
  | error e t =>
      cases hy : y.run w.fs with
      | ok _ later =>
          rw [hx, hy] at hmirrors
          cases hmirrors
      | error e' later =>
          rw [hx, hy] at hmirrors
          cases hmirrors with
          | error _ hembeds =>
              exact ⟨some e, by rw [left_error, hembeds.eq_putBack],
                iff_of_false (by simp) (not_not_intro (fails_of_error hy))⟩

theorem run_attempt_none (x : Edit Unit) (w : World) :
    ∃ failure, (Step.attempt none x).run w = .ok failure { w with fs := left (x.run w.fs) } ∧
      (failure = none ↔ ¬ Fails x w.fs) := by
  rw [Step.attempt, Step.run_onView_none]
  cases hx : x.run w.fs with
  | ok _ later =>
      rw [EStateM.run] at hx
      exact ⟨none, by rw [hx]; rfl, iff_of_true rfl (not_fails_of_ok hx)⟩
  | error e later =>
      rw [EStateM.run] at hx
      exact ⟨some e, by rw [hx]; rfl, iff_of_false (by simp) (not_not_intro (fails_of_error hx))⟩

/-- What is delivered from what is seen is delivered at its place in all files, or nothing is made. -/
theorem run_attempt_deliver (h : w.viewAt base = .ok inner) (user path : String)
    (bytes : ByteArray) : ∃ failure later,
      (Step.attempt base (Edit.deliver user path bytes)).run w = .ok failure { w with fs := later } ∧
      (failure = none → Redirection.Stores user bytes (placeOf base path) w.fs later ∧
        w.fs.kindAt (placeOf base path) ≠ some true) ∧
      (failure ≠ none → later = w.fs) := by
  obtain ⟨full, hfull, failure, hrun, hfailure⟩ : ∃ full, Path.segments full = placeOf base path ∧
      ∃ failure, (Step.attempt base (Edit.deliver user path bytes)).run w =
          .ok failure { w with fs := left ((Edit.deliver user full bytes).run w.fs) } ∧
        (failure = none ↔ ¬ Fails (Edit.deliver user full bytes) w.fs) := by
    cases base with
    | none => exact ⟨path, rfl, run_attempt_none _ w⟩
    | some base =>
        exact ⟨Path.under base path, Path.segments_under base path,
          run_attempt_under h (Edit.deliver_mirrors h (Path.segments_under base path))⟩
  refine ⟨failure, _, hrun, ?_, ?_⟩
  · rw [hfailure, not_fails_iff]
    rintro ⟨⟨⟩, later, hlater⟩
    rw [hlater, left_ok, ← hfull]
    exact Edit.deliver_stores hlater
  · rw [Ne, hfailure, Classical.not_not]
    rintro ⟨e, later, hlater⟩
    rw [hlater, left_error]
    exact Edit.eq_of_deliver_error hlater

end View

/-- The answer when a file is not copied for a reason. -/
def refusal (label reason : String) : Outcome :=
  .fail ("scp: " ++ label ++ ": " ++ reason) Outcome.failure

/-- What copying between two ends comes to. -/
inductive Copied (ctx : Context) (source target : End) (label owner : String) (upload : Bool)
    (w : World) : Outcome → World → Prop
  /-- There is no file. -/
  | missing (reason : String) (hfile : ∀ a bytes, w.fs.faceAt source.place ≠ some (.file a bytes)) :
      Copied ctx source target label owner upload w (refusal label reason) w
  /-- The file is off limits. -/
  | denied {a : Attributes} {bytes : ByteArray}
      (hfile : w.fs.faceAt source.place = some (.file a bytes)) (hupload : upload = true)
      (hdenied : a.owner = Context.rootUser ∧ ctx.elevated = false) :
      Copied ctx source target label owner upload w (refusal label "Permission denied") w
  /-- The file cannot be written. -/
  | failed {a : Attributes} {bytes : ByteArray}
      (hfile : w.fs.faceAt source.place = some (.file a bytes))
      (hallowed : upload = true → ¬ (a.owner = Context.rootUser ∧ ctx.elevated = false))
      (e : FileTree.Error) :
      Copied ctx source target label owner upload w (refusal e.path e.cause.text) w
  /-- The file has been written. -/
  | stored {a : Attributes} {bytes : ByteArray} {later : FileSystem}
      (hfile : w.fs.faceAt source.place = some (.file a bytes))
      (hallowed : upload = true → ¬ (a.owner = Context.rootUser ∧ ctx.elevated = false))
      (hstores : Redirection.Stores owner bytes
        (landing source target (w.fs.kindAt target.place = some true)) w.fs later)
      (hfree : w.fs.kindAt (landing source target (w.fs.kindAt target.place = some true)) ≠ some true)
      (hbelow : Path.segments source.path ≠ []) (line : String) :
      Copied ctx source target label owner upload w (.print line) { w with fs := later }

/-- A file is off limits by its owner alone. -/
theorem denied_iff_of_file {ctx : Context} {fs : FileSystem} {path : String} {a : Attributes}
    {bytes : ByteArray} {s : Stat} (hface : fs.faceAt (Path.segments path) = some (.file a bytes))
    (hstat : fs.stat? path = some s) :
    Access.denied ctx s = true ↔ a.owner = Context.rootUser ∧ ctx.elevated = false := by
  obtain ⟨there, hthere, -, howner, -⟩ := FileSystem.stat?_of_faceAt hface
  obtain rfl : there = s := Option.some.inj (hthere.symm.trans hstat)
  rw [Access.denied, howner]
  simp [Face.attributes]

/-- Copying comes to one of the four. -/
theorem copied_of_run {ctx : Context} {source target : End} {label owner : String} {upload : Bool}
    {w v : World} {outcome : Outcome}
    (hrun : (copy ctx source target label owner upload).run w = .ok outcome v) :
    Copied ctx source target label owner upload w outcome v := by
  unfold copy at hrun
  dsimp only at hrun
  obtain ⟨inner, u, hlook, hnext⟩ := run_bind_eq_ok_iff.1 hrun
  obtain ⟨hview, rfl⟩ := Step.run_look_eq_ok_iff.1 hlook
  clear hrun hlook
  have hseen : inner.faceAt (Path.segments source.path) = u.fs.faceAt source.place :=
    faceAt_of_viewAt hview source.path
  split at hnext
  · rename_i hnone
    cases hnext
    refine .missing _ fun a bytes hfile => ?_
    rw [← hseen] at hfile
    rw [FileSystem.stat?_eq_none_iff, hfile] at hnone
    cases hnone
  · rename_i herror
    cases hnext
    refine .missing _ fun a bytes hfile => ?_
    rw [← hseen] at hfile
    rw [FileSystem.contents_eq_ok_iff.2 ⟨a, hfile⟩] at herror
    cases herror
  · rename_i node bytes hstat hbytes
    obtain ⟨a, hface⟩ := FileSystem.contents_eq_ok_iff.1 hbytes
    have hfile := hface
    rw [hseen] at hfile
    have hdenied : Access.denied ctx node = true ↔
        a.owner = Context.rootUser ∧ ctx.elevated = false := denied_iff_of_file hface hstat
    split at hnext
    · rename_i hupload
      cases hnext
      rw [Bool.and_eq_true, hdenied] at hupload
      exact .denied hfile hupload.1 hupload.2
    · rename_i hallowed
      have hallowed : upload = true → ¬ (a.owner = Context.rootUser ∧ ctx.elevated = false) := by
        rw [Bool.and_eq_true, hdenied] at hallowed
        exact fun hupload hroot => hallowed ⟨hupload, hroot⟩
      obtain ⟨there, u', hlook, hwrite⟩ := run_bind_eq_ok_iff.1 hnext
      obtain ⟨hthere, rfl⟩ := Step.run_look_eq_ok_iff.1 hlook
      clear hnext hlook
      have hkind : there.isDirectory target.path = true ↔ u'.fs.kindAt target.place = some true := by
        rw [FileSystem.isDirectory_eq_true_iff, kindAt_of_viewAt hthere, End.place]
      simp only [hkind] at hwrite
      obtain ⟨failure, later, hattempt, hstored, hsame⟩ := run_attempt_deliver hthere owner
        (if u'.fs.kindAt target.place = some true then
          Path.join target.path (Path.basename source.path) else target.path) bytes
      rw [← landing] at hstored
      rw [Edit.deliver] at hattempt
      rw [run_bind_of_ok hattempt] at hwrite
      cases failure with
      | some e =>
          obtain ⟨rfl, rfl⟩ := EStateM.Result.ok.inj hwrite
          rw [hsame (by simp)]
          exact .failed hfile hallowed e
      | none =>
          obtain ⟨rfl, rfl⟩ := EStateM.Result.ok.inj hwrite
          obtain ⟨hstores, hfree⟩ := hstored rfl
          refine .stored hfile hallowed hstores hfree (fun hroot => ?_) _
          rw [hroot, FileSystem.faceAt_nil] at hface
          cases hface

/-- A transfer that has got as far as another machine: the user there, what is copied where, and how
it is told of. -/
structure Transfer where
  user : String
  source : End
  target : End
  label : String
  upload : Bool

/-- The end that a path means on another machine. -/
def remoteEnd (user path : String) : End :=
  let there := Path.resolve (Path.home user) (if path = "" then "~" else path) user
  ⟨none, RemoteSession.baseOf user ++ (if there = "/" then "" else there)⟩

/-- The transfer that words ask for, if one of the two operands is a place on a machine that can be
reached. -/
def transfer? (hosts : List String) (ctx : Context) (base : Option String) (words : List String) :
    Option Transfer :=
  match words.filter fun word => !Path.startsWith word "-" with
  | [source, target] =>
    let at? := fun (place : Place) (t : String → Transfer) =>
      if hosts.contains place.host then some (t (place.user.getD ctx.username)) else none
    match Place.read? source, Place.read? target with
    | some place, none => at? place fun user =>
        ⟨user, remoteEnd user place.path, ⟨base, ctx.resolve target⟩, place.path, false⟩
    | none, some place => at? place fun user =>
        ⟨user, ⟨base, ctx.resolve source⟩, remoteEnd user place.path, source, true⟩
    | _, _ => none
  | _ => none

namespace Transfer

/-- Who owns what arrives. -/
def owner (t : Transfer) (ctx : Context) : String := if t.upload then t.user else ctx.user

/-- Makes the home on the other machine and copies the file. -/
def run (t : Transfer) (ctx : Context) : Step Outcome := do
  Step.edit (Edit.makeDirectories (homeOf t.user) Permissions.newDirectory (some t.user))
  copy ctx t.source t.target t.label (t.owner ctx) t.upload

/-- Whether the target is a directory, by itself or because it is made on the way to the home. -/
def GoesInside (t : Transfer) (fs : FileSystem) : Prop :=
  fs.kindAt t.target.place = some true ∨ t.target.place <+: Path.segments (homeOf t.user)

instance (t : Transfer) (fs : FileSystem) : Decidable (t.GoesInside fs) :=
  inferInstanceAs (Decidable (_ ∨ _))

/-- The way to the file that is written. -/
def way (t : Transfer) (fs : FileSystem) : List String := landing t.source t.target (t.GoesInside fs)

/-- Where the file arrives: in a directory under its own name. -/
def arrival (t : Transfer) (fs : FileSystem) : List String :=
  if t.GoesInside fs then t.target.place ++ [Path.basename t.source.path] else t.target.place

end Transfer

section Transfer

variable {hosts : List String} {ctx : Context} {base : Option String} {words : List String}
  {w v : World} {outcome : Outcome} {t : Transfer}

/-- Words that ask for a transfer run it, and others answer with an error. -/
theorem runScp_eq (hosts : List String) (ctx : Context) (base : Option String)
    (words : List String) : (∃ t, transfer? hosts ctx base words = some t ∧
      runScp hosts ctx base words = t.run ctx) ∨
    transfer? hosts ctx base words = none ∧
      ∃ o, o.exitCode ≠ 0 ∧ runScp hosts ctx base words = pure o := by
  unfold runScp transfer?
  generalize words.filter (fun word => !Path.startsWith word "-") = operands
  have hlocal : (Outcome.fail "scp: only local<->remote transfers supported"
      Outcome.failure).exitCode ≠ 0 := by decide
  have hunreachable : ∀ host, (unreachable host).exitCode ≠ 0 := fun host => by
    simp [unreachable, Outcome.fail, noConnection]
  match operands with
  | [source, target] =>
      dsimp only
      cases Place.read? source <;> cases Place.read? target <;> dsimp only
      · exact .inr ⟨rfl, _, hlocal, rfl⟩
      · rename_i place
        cases hosts.contains place.host with
        | false => exact .inr ⟨rfl, _, hunreachable place.host, rfl⟩
        | true => exact .inl ⟨_, rfl, rfl⟩
      · rename_i place
        cases hosts.contains place.host with
        | false => exact .inr ⟨rfl, _, hunreachable place.host, rfl⟩
        | true => exact .inl ⟨_, rfl, rfl⟩
      · exact .inr ⟨rfl, _, hlocal, rfl⟩
  | [] | [_] | _ :: _ :: _ :: _ =>
      exact .inr ⟨rfl, .fail "usage: scp source target" Outcome.failure, by decide, rfl⟩

/-- The ends of a transfer: one on the other machine, and one in what the learner sees. -/
theorem of_transfer? (h : transfer? hosts ctx base words = some t) : ∃ path operand,
    (t.upload = true ∧ t.source = ⟨base, ctx.resolve operand⟩ ∧ t.target = remoteEnd t.user path) ∨
    (t.upload = false ∧ t.source = remoteEnd t.user path ∧
      t.target = ⟨base, ctx.resolve operand⟩) := by
  unfold transfer? at h
  split at h
  · rename_i source target _
    dsimp only at h
    cases hsource : Place.read? source <;> cases htarget : Place.read? target <;>
      rw [hsource, htarget] at h <;> dsimp only at h
    · cases h
    · split at h
      · cases h
        exact ⟨_, source, .inl ⟨rfl, rfl, rfl⟩⟩
      · cases h
    · split at h
      · cases h
        exact ⟨_, target, .inr ⟨rfl, rfl, rfl⟩⟩
      · cases h
    · cases h
  · cases h

theorem isSegment_basename_of_normal {path : String}
    (h : Path.ofSegments (Path.segments path) = path) (hne : Path.segments path ≠ []) :
    Path.IsSegment (Path.basename path) := by
  obtain hroot | ⟨parent, name, hpath⟩ := List.eq_nil_or_concat (Path.segments path)
  · exact absurd hroot hne
  · rw [List.concat_eq_append] at hpath
    have hname := Path.basename_append_normal "" h hpath
    rw [String.empty_append] at hname
    have hmem : name ∈ Path.segments path := by simp [hpath]
    rw [hname]
    exact Path.isSegment_of_mem_segments hmem

theorem isSegment_basename_remoteEnd {user : String} (huser : Path.IsSegment user) (path : String) :
    Path.IsSegment (Path.basename (remoteEnd user path).path) := by
  have hfilesystem : Path.IsSegment "filesystem" := by decide
  unfold remoteEnd
  dsimp only
  generalize hthere : Path.resolve (Path.home user) (if path = "" then "~" else path) user = there
  have hnormal : Path.ofSegments (Path.segments there) = there := by
    rw [← hthere]
    exact Path.ofSegments_segments_resolve _ _ huser
  obtain hroot | ⟨parent, name, hpath⟩ := List.eq_nil_or_concat (Path.segments there)
  · have hbase : RemoteSession.baseOf user = RemoteSession.root ++ "/" ++ user ++ "/" ++ "filesystem" := by
      simp [RemoteSession.baseOf, String.append_assoc]
    have htop : there = "/" := by
      rw [← hnormal, hroot]
      rfl
    rw [if_pos htop, String.append_empty, hbase, Path.basename_append_name _ hfilesystem]
    exact hfilesystem
  · rw [List.concat_eq_append] at hpath
    have hbelow : there ≠ "/" := by
      rintro rfl
      have hempty : Path.segments "/" = [] := by decide
      rw [hempty] at hpath
      simp at hpath
    have hmem : name ∈ Path.segments there := by simp [hpath]
    rw [if_neg hbelow, Path.basename_append_normal _ hnormal hpath]
    exact Path.isSegment_of_mem_segments hmem

/-- What is made on the way to the home is a directory when the file is copied. -/
theorem landing_of_home {mid : FileSystem} (hhome : (Edit.makeDirectories (homeOf t.user)
      Permissions.newDirectory (some t.user)).run w.fs = .ok () mid) :
    landing t.source t.target (mid.kindAt t.target.place = some true) = t.way w.fs := by
  have hkinds : mid.kindAt t.target.place = some true ↔ t.GoesInside w.fs := by
    rw [Edit.kindAt_makeDirectories_iff hhome, Transfer.GoesInside, or_comm]
  simp only [Transfer.way, landing, hkinds]

/-- Where the names of users are names, a file lands in a directory under its own name. -/
theorem way_eq_arrival (hctx : Path.IsSegment ctx.username) (hpeer : Path.IsSegment t.user)
    (ht : transfer? hosts ctx base words = some t) (hbelow : Path.segments t.source.path ≠ [])
    (fs : FileSystem) : t.way fs = t.arrival fs := by
  have hname : Path.IsSegment (Path.basename t.source.path) := by
    obtain ⟨path, operand, ⟨-, hsource, -⟩ | ⟨-, hsource, -⟩⟩ := of_transfer? ht
    · rw [hsource] at hbelow ⊢
      exact isSegment_basename_of_normal (Path.ofSegments_segments_resolve _ _ hctx) hbelow
    · rw [hsource]
      exact isSegment_basename_remoteEnd hpeer path
  rw [Transfer.way, landing, Transfer.arrival]
  split
  · rw [placeOf, Path.segments_join _ hname, ← List.append_assoc]
    rfl
  · rfl

/-- What `scp` comes to: an error before anything is done, or what copying comes to after the home on
the other machine has been made. -/
theorem runScp_cases (hrun : (runScp hosts ctx base words).run w = .ok outcome v) :
    (transfer? hosts ctx base words = none ∧ outcome.exitCode ≠ 0 ∧ v = w) ∨
    ∃ t mid, transfer? hosts ctx base words = some t ∧
      (Edit.makeDirectories (homeOf t.user) Permissions.newDirectory (some t.user)).run w.fs =
        .ok () mid ∧
      Copied ctx t.source t.target t.label (t.owner ctx) t.upload { w with fs := mid } outcome v := by
  rcases runScp_eq hosts ctx base words with
    ⟨t, ht, heq⟩ | ⟨hnone, o, ho, heq⟩
  · rw [heq] at hrun
    obtain ⟨⟨⟩, u, hedit, hcopy⟩ := run_bind_eq_ok_iff.1 hrun
    rw [Step.run_edit] at hedit
    cases hhome : (Edit.makeDirectories (homeOf t.user) Permissions.newDirectory
        (some t.user)).run w.fs with
    | error e mid =>
        rw [hhome] at hedit
        cases hedit
    | ok _ mid =>
        rw [hhome] at hedit
        cases hedit
        exact .inr ⟨t, mid, ht, hhome, copied_of_run hcopy⟩
  · rw [heq] at hrun
    obtain ⟨rfl, rfl⟩ := EStateM.Result.ok.inj hrun
    exact .inl ⟨hnone, ho, rfl⟩

/-- Whether the same files are there with the same contents and attributes. -/
def KeepsFiles (fs later : FileSystem) : Prop :=
  ∀ place a bytes, later.faceAt place = some (.file a bytes) ↔ fs.faceAt place = some (.file a bytes)

/-- What a transfer that succeeds has done. -/
structure Transfer.IsDone (t : Transfer) (fs later : FileSystem) : Prop where
  /-- The file that arrives holds what the source held and still holds. -/
  delivered : ∃ bytes,
    (∃ a, fs.faceAt t.source.place = some (.file a bytes)) ∧
    (∃ a, later.faceAt (t.arrival fs) = some (.file a bytes)) ∧
    ∃ a, later.faceAt t.source.place = some (.file a bytes)
  /-- All else that was there keeps its kind, contents, owner and permissions. -/
  others : ∀ place face, place ≠ t.arrival fs → fs.faceAt place = some face →
    ∃ after, later.faceAt place = some after ∧ after.core = face.core
  /-- All else that is new is a directory. -/
  new : ∀ place face, place ≠ t.arrival fs → fs.faceAt place = none →
    later.faceAt place = some face → face.isDirectory = true

/-- What is copied after the home has been made is all that the transfer does. -/
theorem isDone_of_stores {mid later : FileSystem} {a : Attributes} {bytes : ByteArray} {user : String}
    (hhome : (Edit.makeDirectories (homeOf t.user) Permissions.newDirectory (some t.user)).run w.fs =
      .ok () mid)
    (hfile : mid.faceAt t.source.place = some (.file a bytes))
    (hstores : Redirection.Stores user bytes (t.arrival w.fs) mid later)
    (hfree : mid.kindAt (t.arrival w.fs) ≠ some true) : t.IsDone w.fs later := by
  have hlays := Edit.makeDirectories_lays hhome
  have hothers : ∀ place face, place ≠ t.arrival w.fs → w.fs.faceAt place = some face →
      ∃ after, later.faceAt place = some after ∧ after.core = face.core := by
    intro place face hne hface
    obtain ⟨between, hbetween, hfirst⟩ := hlays.core_eq hface
    obtain ⟨after, hafter, hsecond⟩ := hstores.core_eq hne hbetween
    exact ⟨after, hafter, hsecond.trans hfirst⟩
  have hsource := hlays.faceAt_file_iff.1 hfile
  have harrived := hstores.exists_file hfree
  refine ⟨⟨bytes, ⟨a, hsource⟩, harrived, ?_⟩, hothers, ?_⟩
  · by_cases hsame : t.source.place = t.arrival w.fs
    · rwa [hsame]
    · obtain ⟨after, hafter, hcore⟩ := hothers _ _ hsame hsource
      cases after with
      | file b other =>
          obtain rfl : other = bytes := Option.some.inj (congrArg Prod.fst hcore)
          exact ⟨b, hafter⟩
      | directory => cases congrArg Prod.fst hcore
  · intro place face hne hmissing hface
    cases hbetween : mid.faceAt place with
    | none => exact hstores.isDirectory_of_missing hne hbetween hface
    | some between =>
        have hdirectory := hlays.isDirectory_of_missing hmissing hbetween
        obtain ⟨after, hafter, hcore⟩ := hstores.core_eq hne hbetween
        obtain rfl := Option.some.inj (hafter.symm.trans hface)
        cases between with
        | file => cases hdirectory
        | directory =>
            cases after with
            | file => cases congrArg Prod.fst hcore
            | directory => rfl

/-- A transfer that succeeds has put a copy of the source where it is meant to arrive and has otherwise
made nothing but directories. If `scp` answers with an error, no file has been made or changed. -/
theorem transfers_deliver_or_keep (hctx : Path.IsSegment ctx.username)
    (hpeer : ∀ t ∈ transfer? hosts ctx base words, Path.IsSegment t.user)
    (hrun : (runScp hosts ctx base words).run w = .ok outcome v) :
    (outcome.exitCode = 0 → ∃ t ∈ transfer? hosts ctx base words, t.IsDone w.fs v.fs) ∧
      (outcome.exitCode ≠ 0 → KeepsFiles w.fs v.fs) := by
  rcases runScp_cases hrun with ⟨-, hne, rfl⟩ | ⟨t, mid, ht, hhome, hcopied⟩
  · exact ⟨fun hzero => absurd hzero hne, fun _ _ _ _ => Iff.rfl⟩
  · have hkeeps : KeepsFiles w.fs mid :=
      fun place a bytes => (Edit.makeDirectories_lays hhome).faceAt_file_iff
    cases hcopied with
    | missing | denied | failed =>
        exact ⟨fun hzero => absurd hzero Nat.one_ne_zero, fun _ => hkeeps⟩
    | stored hfile _ hstores hfree hbelow =>
        dsimp only at hstores hfree
        rw [landing_of_home hhome, way_eq_arrival hctx (hpeer t ht) ht hbelow] at hstores hfree
        exact ⟨fun _ => ⟨t, ht, isDone_of_stores hhome hfile hstores hfree⟩,
          fun hne => absurd rfl hne⟩

/-- A world with two machines, on both of which some of what is in the home of the learner is the root
user's. -/
def exchange : World where
  username := "ada"
  fs := { FileSystem.empty "ada" 0 with
    entries :=
      [("home", .directory ⟨"ada", Permissions.newDirectory, 0⟩
        [("ada", .directory ⟨"ada", Permissions.newDirectory, 0⟩
          [("notes", .file ⟨"ada", Permissions.newFile, 0⟩ ⟨#[104, 105]⟩),
            ("keys", .file ⟨"root", .ofNat 0o600, 0⟩ ⟨#[49]⟩),
            ("vault", .directory ⟨"root", .ofNat 0o700, 0⟩ [])])]),
      ("remotes", .directory ⟨"ada", Permissions.newDirectory, 0⟩
        [("ada", .directory ⟨"ada", Permissions.newDirectory, 0⟩
          [("filesystem", .directory ⟨"ada", Permissions.newDirectory, 0⟩
            [("home", .directory ⟨"ada", Permissions.newDirectory, 0⟩
              [("ada", .directory ⟨"ada", Permissions.newDirectory, 0⟩
                [("keys", .file ⟨"root", .ofNat 0o600, 0⟩ ⟨#[50]⟩),
                  ("orders", .file ⟨"ada", Permissions.newFile, 0⟩ ⟨#[51]⟩)])])])])])] }
  directory := "/home/ada"
  environment := Environment.start "ada" "/home/ada" (some "/home/ada") []
  mode := .normal
  remote := none
  history := []

/-- What `scp` comes to by its exit code. -/
theorem exists_of_exitCode (hosts : List String) (ctx : Context) (base : Option String)
    (words : List String) (w : World) (code : Nat)
    (h : (answer ((runScp hosts ctx base words).run w)).toOption.map (·.exitCode) = some code) :
    ∃ outcome v, (runScp hosts ctx base words).run w = .ok outcome v ∧ outcome.exitCode = code := by
  cases hrun : (runScp hosts ctx base words).run w with
  | error e v => simp [hrun, answer, Except.toOption] at h
  | ok outcome v => exact ⟨outcome, v, rfl, by simpa [hrun, answer, Except.toOption] using h⟩

/-- Notes arrive in a directory that is made for them, and nothing is made of notes that are not there. -/
theorem notes_are_delivered :
    (∃ outcome v, (runScp ["lab"] ⟨"/home/ada", "ada", false⟩ none ["notes", "eve@lab:/drafts/new"]).run
        exchange = .ok outcome v ∧ outcome.exitCode = 0 ∧
      ∃ t ∈ transfer? ["lab"] ⟨"/home/ada", "ada", false⟩ none ["notes", "eve@lab:/drafts/new"],
        t.arrival exchange.fs = ["remotes", "eve", "filesystem", "drafts", "new"] ∧
        t.IsDone exchange.fs v.fs) ∧
    ∃ outcome v, (runScp ["lab"] ⟨"/home/ada", "ada", false⟩ none ["lab:ghost", "."]).run exchange =
      .ok outcome v ∧ outcome.exitCode = 1 ∧ KeepsFiles exchange.fs v.fs := by
  have hctx : Path.IsSegment "ada" := by decide
  have hpeers : ∀ words, (transfer? ["lab"] ⟨"/home/ada", "ada", false⟩ none words).all
      (fun t => decide (Path.IsSegment t.user)) = true →
      ∀ t ∈ transfer? ["lab"] ⟨"/home/ada", "ada", false⟩ none words, Path.IsSegment t.user := by
    intro words hall t ht
    rw [Option.mem_def.1 ht] at hall
    simpa using hall
  have harrival : (transfer? ["lab"] ⟨"/home/ada", "ada", false⟩ none
      ["notes", "eve@lab:/drafts/new"]).all (fun t => t.arrival exchange.fs =
        ["remotes", "eve", "filesystem", "drafts", "new"]) = true := by decide +kernel
  refine ⟨?_, ?_⟩
  · obtain ⟨outcome, v, hrun, hcode⟩ := exists_of_exitCode ["lab"]
      ⟨"/home/ada", "ada", false⟩ none ["notes", "eve@lab:/drafts/new"] exchange 0 (by decide +kernel)
    obtain ⟨t, ht, hdone⟩ :=
      (transfers_deliver_or_keep hctx (hpeers _ (by decide +kernel)) hrun).1 hcode
    rw [Option.mem_def.1 ht] at harrival
    exact ⟨outcome, v, hrun, hcode, t, ht, by simpa using harrival, hdone⟩
  · obtain ⟨outcome, v, hrun, hcode⟩ := exists_of_exitCode ["lab"]
      ⟨"/home/ada", "ada", false⟩ none ["lab:ghost", "."] exchange 1 (by decide +kernel)
    exact ⟨outcome, v, hrun, hcode,
      (transfers_deliver_or_keep hctx (hpeers _ (by decide +kernel)) hrun).2 (by simp [hcode])⟩

end Transfer

end Remote

end PracticeShell
