import PracticeShell.Proofs.Session.Transferring

/-!
# What `scp` does with what is the root user's

A transfer asks for elevated rights in one place: for a file of the root user that is to be copied to
another machine. It never asks who owns the file that is written or the directory that gets a new name.
So the files and directories of the root user are spared exactly if the way to the home and the way to
the file are new in no directory of the root user (`FileSystem.Trespasses`) and no other contents of a
file of the root user are replaced (`root_is_spared_iff`).
-/

namespace PracticeShell

open FileTree FileTree.Change Run

namespace FileSystem

/-- Whether a name that is missing along a way would be new in the directory at a place. -/
def GrowsAt (fs : FileSystem) (way place : List String) : Prop :=
  ∃ name, place ++ [name] <+: way ∧ fs.faceAt (place ++ [name]) = none

/-- Whether a name that is missing along a way would be new in a directory of the root user. -/
def Trespasses (fs : FileSystem) (way : List String) : Prop :=
  ∃ place a names, fs.faceAt place = some (.directory a names) ∧ a.owner = Context.rootUser ∧
    fs.GrowsAt way place

/-- Whether the bytes would replace others in a file of the root user. -/
def Replaces (fs : FileSystem) (way : List String) (bytes : ByteArray) : Prop :=
  ∃ a old, fs.faceAt way = some (.file a old) ∧ a.owner = Context.rootUser ∧ old ≠ bytes

/-- Whether the files of the root user keep their contents, and the directories their names. -/
structure Spares (fs later : FileSystem) : Prop where
  files : ∀ place a bytes, fs.faceAt place = some (.file a bytes) → a.owner = Context.rootUser →
    ∃ b, later.faceAt place = some (.file b bytes)
  directories : ∀ place a names, fs.faceAt place = some (.directory a names) →
    a.owner = Context.rootUser → ∃ b, later.faceAt place = some (.directory b names)

theorem Spares.refl (fs : FileSystem) : Spares fs fs :=
  ⟨fun _ a _ h _ => ⟨a, h⟩, fun _ a _ h _ => ⟨a, h⟩⟩

variable {fs mid later : FileSystem} {permissions : Permissions} {owner : Option String}
  {home way place : List String} {a : Attributes} {names : List String} {user : String}
  {bytes : ByteArray}

theorem not_growsAt_iff : ¬ fs.GrowsAt way place ↔
    ∀ name, place ++ [name] <+: way → (fs.faceAt (place ++ [name])).isSome := by
  constructor
  · intro h name hname
    by_contra hmissing
    exact h ⟨name, hname, Option.not_isSome_iff_eq_none.1 hmissing⟩
  · rintro h ⟨name, hname, hmissing⟩
    have hsome := h name hname
    rw [hmissing] at hsome
    cases hsome

/-- A directory lists what it did, and one more name exactly if one is missing along the way. -/
theorem exists_names (hface : fs.faceAt place = some (.directory a names))
    (hgrown : ∀ name, place ++ [name] <+: way → fs.faceAt (place ++ [name]) = none →
      later.faceAt place = (fs.faceAt place).map (Face.mapNames fs.now (· ++ [name])))
    (hothers : ¬ fs.GrowsAt way place → later.faceAt place = fs.faceAt place) :
    ∃ b more, later.faceAt place = some (.directory b (names ++ more)) ∧
      (more = [] ↔ ¬ fs.GrowsAt way place) := by
  by_cases hgrows : fs.GrowsAt way place
  · obtain ⟨name, hname, hmissing⟩ := id hgrows
    refine ⟨{ a with modified := fs.now }, [name], ?_, iff_of_false (by simp) (not_not_intro hgrows)⟩
    rw [hgrown name hname hmissing, hface]
    rfl
  · refine ⟨a, [], ?_, iff_of_true rfl hgrows⟩
    rw [hothers hgrows, hface, List.append_nil]

section Laid

variable (hlays : Edit.Lays permissions owner home fs mid)

include hlays

theorem exists_names_of_lays (hface : fs.faceAt place = some (.directory a names)) :
    ∃ b more, mid.faceAt place = some (.directory b (names ++ more)) ∧
      (more = [] ↔ ¬ fs.GrowsAt home place) :=
  exists_names hface (fun name hname => hlays.grown place name hname (by simp [hface]))
    fun hgrows => hlays.others place (by simp [hface]) (not_growsAt_iff.1 hgrows)

/-- The directories along a way are made without harm exactly if they do not trespass. -/
theorem spares_iff_of_lays : Spares fs mid ↔ ¬ fs.Trespasses home := by
  constructor
  · rintro h ⟨place, a, names, hface, hroot, hgrows⟩
    obtain ⟨b, more, hmid, hmore⟩ := exists_names_of_lays hlays hface
    obtain ⟨c, hsame⟩ := h.directories place a names hface hroot
    have hnames : names ++ more = names :=
      (Face.directory.inj (Option.some.inj (hmid.symm.trans hsame))).2
    exact hmore.1 (List.append_right_eq_self.1 hnames) hgrows
  · intro h
    refine ⟨fun place a bytes hface _ => ⟨a, hlays.faceAt_file_iff.2 hface⟩, ?_⟩
    intro place a names hface hroot
    obtain ⟨b, more, hmid, hmore⟩ := exists_names_of_lays hlays hface
    rw [hmore.2 fun hgrows => h ⟨place, a, names, hface, hroot, hgrows⟩, List.append_nil] at hmid
    exact ⟨b, hmid⟩

/-- Where a directory gets no name along the way, nothing in it is new. -/
theorem isSome_of_not_growsAt {name : String} (hgrows : ¬ fs.GrowsAt home place)
    (hthere : (mid.faceAt (place ++ [name])).isSome) : (fs.faceAt (place ++ [name])).isSome := by
  by_contra hmissing
  rw [Option.not_isSome_iff_eq_none] at hmissing
  exact hgrows ⟨name, hlays.of_missing hmissing hthere, hmissing⟩

/-- Where a directory gets no name on the one way, it gets one along the other way exactly if one is
missing there from the start. -/
theorem growsAt_mid_iff (hgrows : ¬ fs.GrowsAt home place) :
    mid.GrowsAt way place ↔ fs.GrowsAt way place := by
  refine exists_congr fun name => and_congr_right fun _ => ?_
  rw [← Option.not_isSome_iff_eq_none, ← Option.not_isSome_iff_eq_none, not_iff_not]
  refine ⟨isSome_of_not_growsAt hlays hgrows, fun hsome => ?_⟩
  obtain ⟨face, hface⟩ := Option.isSome_iff_exists.1 hsome
  obtain ⟨after, hafter, -⟩ := hlays.core_eq hface
  rw [hafter]
  rfl

variable (hstores : Redirection.Stores user bytes way mid later) (hfree : mid.kindAt way ≠ some true)

include hstores hfree

/-- What becomes of a directory where the directories along one way and the file along another are made. -/
theorem exists_names_of_stores (hface : fs.faceAt place = some (.directory a names)) :
    ∃ b more, later.faceAt place = some (.directory b (names ++ more)) ∧
      (more = [] ↔ ¬ fs.GrowsAt home place ∧ ¬ fs.GrowsAt way place) := by
  obtain ⟨b, first, hmid, hfirst⟩ := exists_names_of_lays hlays hface
  have hne : place ≠ way := by
    rintro rfl
    rw [kindAt_eq, hmid] at hfree
    exact hfree rfl
  obtain ⟨c, second, hlater, hsecond⟩ := exists_names hmid
    (fun name hname => hstores.grown place name hname (by simp [hmid]))
    fun hgrows => hstores.others place hne (by simp [hmid])
      (not_growsAt_iff.1 hgrows)
  refine ⟨c, first ++ second, by rw [hlater, List.append_assoc], ?_⟩
  rw [List.append_eq_nil_iff, hfirst, hsecond]
  exact and_congr_right fun hgrows => not_congr (growsAt_mid_iff hlays hgrows)

/-- A file is written without harm exactly if neither way trespasses and it does not replace another of
the root user. -/
theorem spares_iff_of_stores : Spares fs later ↔
    ¬ fs.Trespasses home ∧ ¬ fs.Trespasses way ∧ ¬ fs.Replaces way bytes := by
  constructor
  · intro h
    have hnames : ∀ place a names, fs.faceAt place = some (.directory a names) →
        a.owner = Context.rootUser → ¬ fs.GrowsAt home place ∧ ¬ fs.GrowsAt way place := by
      intro place a names hface hroot
      obtain ⟨b, more, hlater, hmore⟩ := exists_names_of_stores hlays hstores hfree hface
      obtain ⟨c, hsame⟩ := h.directories place a names hface hroot
      have hnames : names ++ more = names :=
        (Face.directory.inj (Option.some.inj (hlater.symm.trans hsame))).2
      exact hmore.1 (List.append_right_eq_self.1 hnames)
    refine ⟨?_, ?_, ?_⟩
    · rintro ⟨place, a, names, hface, hroot, hgrows⟩
      exact (hnames place a names hface hroot).1 hgrows
    · rintro ⟨place, a, names, hface, hroot, hgrows⟩
      exact (hnames place a names hface hroot).2 hgrows
    · rintro ⟨a, old, hface, hroot, hne⟩
      obtain ⟨b, hsame⟩ := h.files way a old hface hroot
      have hfilled := hstores.filled a old (hlays.faceAt_file_iff.2 hface)
      exact hne (Face.file.inj (Option.some.inj (hsame.symm.trans hfilled))).2
  · rintro ⟨hhome, hway, hreplaces⟩
    constructor
    · intro place a old hface hroot
      have hmid := hlays.faceAt_file_iff.2 hface
      by_cases hplace : place = way
      · subst hplace
        have hsame : old = bytes := by
          by_contra hne
          exact hreplaces ⟨a, old, hface, hroot, hne⟩
        rw [hsame]
        exact ⟨_, hstores.filled a old hmid⟩
      · rcases hstores.faceAt_cases hplace hmid with hlast | ⟨name, -, -, hlast⟩
        · exact ⟨a, hlast⟩
        · exact ⟨a, hlast⟩
    · intro place a names hface hroot
      obtain ⟨b, more, hlater, hmore⟩ := exists_names_of_stores hlays hstores hfree hface
      have hnone := hmore.2 ⟨fun hgrows => hhome ⟨place, a, names, hface, hroot, hgrows⟩,
        fun hgrows => hway ⟨place, a, names, hface, hroot, hgrows⟩⟩
      rw [hnone, List.append_nil] at hlater
      exact ⟨b, hlater⟩

end Laid

end FileSystem

namespace Remote

theorem getLast?_refusal (label : String) {reason : String} (h : reason.toList ≠ []) :
    (refusal label reason).errors.toList.getLast? = reason.toList.getLast? := by
  obtain ⟨start, last, hreason⟩ := (List.eq_nil_or_concat reason.toList).resolve_left h
  rw [List.concat_eq_append] at hreason
  rw [refusal, Outcome.fail, String.toList_append, hreason, ← List.append_assoc,
    List.getLast?_concat, List.getLast?_concat]

/-- A failed file operation is not told of as one that is denied. -/
theorem refusal_ne (path label : String) (cause : Cause) :
    refusal path cause.text ≠ refusal label "Permission denied" := by
  intro h
  have hlast := congrArg (fun o : Outcome => o.errors.toList.getLast?) h
  rw [getLast?_refusal path (by cases cause <;> decide), getLast?_refusal label (by decide)] at hlast
  cases cause <;> exact absurd hlast (by decide)

variable {hosts : List String} {ctx : Context} {base : Option String} {words : List String}
  {w v : World} {outcome : Outcome}

/-- Without elevated rights, a file of the root user is refused exactly if it is to be copied to another
machine. -/
theorem Copied.denied_iff {source target : End} {label owner : String} {upload : Bool}
    {a : Attributes} {bytes : ByteArray} (h : Copied ctx source target label owner upload w outcome v)
    (hctx : ctx.elevated = false) (hfile : w.fs.faceAt source.place = some (.file a bytes))
    (hroot : a.owner = Context.rootUser) :
    outcome = refusal label "Permission denied" ↔ upload = true := by
  cases h with
  | missing reason hmissing => exact absurd hfile (hmissing a bytes)
  | denied _ hupload => exact iff_of_true rfl hupload
  | failed hother hallowed e =>
      obtain ⟨rfl, rfl⟩ := Face.file.inj (Option.some.inj (hother.symm.trans hfile))
      exact iff_of_false (refusal_ne _ _ _) fun hupload => hallowed hupload ⟨hroot, hctx⟩
  | stored hother hallowed =>
      obtain ⟨rfl, rfl⟩ := Face.file.inj (Option.some.inj (hother.symm.trans hfile))
      refine iff_of_false (fun heq => ?_) fun hupload => hallowed hupload ⟨hroot, hctx⟩
      exact Nat.zero_ne_one (congrArg Outcome.exitCode heq)

/-- What the root user has is spared exactly if neither the home nor the file trespasses and the file
does not replace another of the root user. -/
theorem Copied.spares_iff {t : Transfer} {owner : String} {mid : FileSystem}
    (hhome : (Edit.makeDirectories (homeOf t.user) Permissions.newDirectory (some t.user)).run w.fs =
      .ok () mid)
    (h : Copied ctx t.source t.target t.label owner t.upload { w with fs := mid } outcome v) :
    w.fs.Spares v.fs ↔ ¬ w.fs.Trespasses (Path.segments (homeOf t.user)) ∧
      (outcome.exitCode = 0 → ¬ w.fs.Trespasses (t.way w.fs) ∧
        ∀ a bytes, w.fs.faceAt t.source.place = some (.file a bytes) →
          ¬ w.fs.Replaces (t.way w.fs) bytes) := by
  have hlays := Edit.makeDirectories_lays hhome
  cases h with
  | missing | denied | failed =>
      rw [FileSystem.spares_iff_of_lays hlays]
      exact ⟨fun h => ⟨h, nofun⟩, And.left⟩
  | stored hfile _ hstores hfree =>
      dsimp only at hfile hstores hfree
      rw [landing_of_home hhome] at hstores hfree
      rw [hlays.faceAt_file_iff] at hfile
      rw [FileSystem.spares_iff_of_stores hlays hstores hfree]
      refine and_congr_right fun _ => ⟨?_, fun h => ?_⟩
      · rintro ⟨hway, hreplaces⟩ -
        refine ⟨hway, fun b other hother => ?_⟩
        obtain ⟨rfl, rfl⟩ := Face.file.inj (Option.some.inj (hfile.symm.trans hother))
        exact hreplaces
      · obtain ⟨hway, hreplaces⟩ := h rfl
        exact ⟨hway, hreplaces _ _ hfile⟩

/-- Without elevated rights, a file of the root user is refused exactly if it is to be copied to another
machine. What else is the root user's is spared exactly if neither the home nor the file trespasses and
the file does not replace another of the root user. -/
theorem root_is_spared_iff (hctx : ctx.elevated = false)
    (hrun : (runScp hosts ctx base words).run w = .ok outcome v) :
    (∀ t ∈ transfer? hosts ctx base words, ∀ a bytes,
      w.fs.faceAt t.source.place = some (.file a bytes) → a.owner = Context.rootUser →
        (outcome = refusal t.label "Permission denied" ↔ t.upload = true)) ∧
    (w.fs.Spares v.fs ↔ ∀ t ∈ transfer? hosts ctx base words,
      ¬ w.fs.Trespasses (Path.segments (homeOf t.user)) ∧
        (outcome.exitCode = 0 → ¬ w.fs.Trespasses (t.way w.fs) ∧
          ∀ a bytes, w.fs.faceAt t.source.place = some (.file a bytes) →
            ¬ w.fs.Replaces (t.way w.fs) bytes)) := by
  rcases runScp_cases hrun with ⟨hnone, -, rfl⟩ | ⟨t, mid, ht, hhome, hcopied⟩
  · simp only [hnone]
    exact ⟨nofun, iff_of_true (.refl _) nofun⟩
  · simp only [ht, Option.mem_some_iff, forall_eq']
    refine ⟨fun a bytes hfile hroot => ?_, hcopied.spares_iff hhome⟩
    have hsource := (Edit.makeDirectories_lays hhome).faceAt_file_iff.2 hfile
    exact hcopied.denied_iff hctx hsource hroot

/-- Keys of the root user are not copied to another machine, and all that is the root user's is spared. -/
theorem keys_are_refused :
    ∃ v, (runScp ["lab"] ⟨"/home/ada", "ada", false⟩ none ["keys", "lab:"]).run exchange =
      .ok (refusal "keys" "Permission denied") v ∧ exchange.fs.Spares v.fs := by
  obtain ⟨outcome, v, hrun, hcode⟩ := exists_of_exitCode ["lab"] ⟨"/home/ada", "ada", false⟩ none
    ["keys", "lab:"] exchange 1 (by decide +kernel)
  obtain ⟨hrefused, hspared⟩ := root_is_spared_iff rfl hrun
  obtain ⟨t, ht, hlabel, hupload, hsource, huser⟩ : ∃ t,
      transfer? ["lab"] ⟨"/home/ada", "ada", false⟩ none ["keys", "lab:"] = some t ∧
        t.label = "keys" ∧ t.upload = true ∧ t.source.place = ["home", "ada", "keys"] ∧
        t.user = "ada" := ⟨_, rfl, rfl, rfl, by decide +kernel, rfl⟩
  have hfile : exchange.fs.faceAt t.source.place =
      some (.file ⟨"root", .ofNat 0o600, 0⟩ ⟨#[49]⟩) := by
    rw [hsource]
    rfl
  have houtcome := (hrefused t ht _ _ hfile rfl).2 hupload
  rw [hlabel] at houtcome
  subst houtcome
  refine ⟨v, hrun, hspared.2 fun t' ht' => ⟨?_, fun hzero => ?_⟩⟩
  · obtain rfl : t = t' := Option.some.inj (ht.symm.trans ht')
    rw [huser]
    rintro ⟨place, a, names, -, -, name, hname, hmissing⟩
    have hhome : (exchange.fs.faceAt (Path.segments (homeOf "ada"))).isSome := by decide +kernel
    have hthere := FileSystem.isSome_faceAt_of_prefix hname hhome
    rw [hmissing] at hthere
    cases hthere
  · rw [hcode] at hzero
    cases hzero

/-- A file of the root user is read on another machine and replaces one at home, and a directory of the
root user gets a file. -/
theorem keys_are_replaced :
    (∃ outcome v, (runScp ["lab"] ⟨"/home/ada", "ada", false⟩ none ["lab:keys", "keys"]).run exchange =
        .ok outcome v ∧ outcome.exitCode = 0 ∧ ¬ exchange.fs.Spares v.fs) ∧
    ∃ outcome v, (runScp ["lab"] ⟨"/home/ada", "ada", false⟩ none ["lab:orders", "vault"]).run exchange =
      .ok outcome v ∧ outcome.exitCode = 0 ∧ ¬ exchange.fs.Spares v.fs := by
  refine ⟨?_, ?_⟩
  · obtain ⟨outcome, v, hrun, hcode⟩ := exists_of_exitCode ["lab"]
      ⟨"/home/ada", "ada", false⟩ none ["lab:keys", "keys"] exchange 0 (by decide +kernel)
    refine ⟨outcome, v, hrun, hcode, fun hspares => ?_⟩
    obtain ⟨b, hkept⟩ := hspares.files ["home", "ada", "keys"] ⟨"root", .ofNat 0o600, 0⟩ ⟨#[49]⟩ rfl rfl
    have hcore : ((left ((runScp ["lab"] ⟨"/home/ada", "ada", false⟩ none ["lab:keys", "keys"]).run
        exchange)).fs.faceAt ["home", "ada", "keys"]).map (fun face => face.core.1) =
        some (some ⟨#[50]⟩) := by decide +kernel
    rw [hrun, left_ok, hkept] at hcore
    have hbytes : (⟨#[49]⟩ : ByteArray) = ⟨#[50]⟩ := Option.some.inj (Option.some.inj hcore)
    exact absurd hbytes (by decide)
  · obtain ⟨outcome, v, hrun, hcode⟩ := exists_of_exitCode ["lab"]
      ⟨"/home/ada", "ada", false⟩ none ["lab:orders", "vault"] exchange 0 (by decide +kernel)
    refine ⟨outcome, v, hrun, hcode, fun hspares => ?_⟩
    obtain ⟨b, hkept⟩ := hspares.directories ["home", "ada", "vault"] ⟨"root", .ofNat 0o700, 0⟩ []
      rfl rfl
    have hnames : ((left ((runScp ["lab"] ⟨"/home/ada", "ada", false⟩ none
        ["lab:orders", "vault"]).run exchange)).fs.faceAt ["home", "ada", "vault"]).map Face.names =
        some ["orders"] := by decide +kernel
    rw [hrun, left_ok, hkept] at hnames
    cases hnames

end Remote

end PracticeShell
