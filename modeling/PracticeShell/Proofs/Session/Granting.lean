import PracticeShell.Proofs.Command.Granting
import PracticeShell.Proofs.Session.Editing
import PracticeShell.Proofs.Session.Transferring

/-!
# What the nearest node decides

Output that is sent to a file and a file that is opened in an editor are refused as `mkdir` refuses: where
there is nothing, exactly if the nearest node is off limits. What is written then is new only along a way
that is allowed (`write_respects`, `close_respects`). `ssh` and `scp` ask for nothing, so that what they
make is made where it is allowed only if it happens to be (`runSsh_respects_iff`, `runScp_respects_iff`).

`nearest_decides` puts all of this together with what the search for the nearest node finds and with what
commands make.
-/

namespace PracticeShell

open FileTree FileTree.Change Run

namespace Access

variable {ctx : Context} {fs mid later : FileSystem} {path user : String} {home way : List String}
  {bytes : ByteArray} {permissions : Permissions} {owner : Option String}

/-- The directories along a way are made where it is allowed exactly if the way is. -/
theorem respects_iff_of_lays (h : Edit.Lays permissions owner way fs later) :
    Respects ctx fs later ↔ Allows ctx fs way := by
  constructor
  · intro hrespects hnone
    have hmade := h.made way List.prefix_rfl hnone
    exact hrespects way (by rw [hmade]; rfl) hnone
  · exact fun hallowed => respects_along hallowed fun _ => h.of_missing

/-- A file is written where it is allowed if its way is. -/
theorem respects_of_stores (h : Redirection.Stores user bytes way fs later)
    (hallowed : Allows ctx fs way) : Respects ctx fs later :=
  respects_along hallowed fun _ hnone hthere => (h.of_missing hnone hthere).1

/-- A file is written after the directories along another way have been made, where it is allowed exactly
if both ways are. -/
theorem respects_iff_of_stores (hlays : Edit.Lays permissions owner home fs mid)
    (hstores : Redirection.Stores user bytes way mid later) (hfree : mid.kindAt way ≠ some true) :
    Respects ctx fs later ↔ Allows ctx fs home ∧ Allows ctx fs way := by
  constructor
  · intro hrespects
    constructor
    · intro hnone
      have hmade := hlays.made home List.prefix_rfl hnone
      have hne : home ≠ way := by
        rintro rfl
        rw [FileSystem.kindAt_eq, hmade] at hfree
        exact hfree rfl
      refine hrespects home ?_ hnone
      rcases hstores.faceAt_cases hne hmade with hlast | ⟨name, -, -, hlast⟩
      · rw [hlast]
        rfl
      · rw [hlast]
        rfl
    · intro hnone
      obtain ⟨a, hfile⟩ := hstores.exists_file hfree
      exact hrespects way (by rw [hfile]; rfl) hnone
  · rintro ⟨hhome, hway⟩ place hthere hnone
    by_cases hmid : (mid.faceAt place).isSome
    · exact (respects_iff_of_lays hlays).2 hhome place hmid hnone
    · rw [Option.not_isSome_iff_eq_none] at hmid
      exact hway.of_prefix (hstores.of_missing hmid hthere).1 hnone

/-- A node that is made or filled at a path is made where it is allowed if the path is. -/
theorem respects_of_makes {operation : Edit Unit} (h : Edit.Makes (Change.Lays way) operation fs)
    (hallowed : Allows ctx fs way) : Leads (Respects ctx) operation fs := by
  refine h.leads (.refl ctx fs) fun c hc hfits => respects_along hallowed fun place hnone hthere => ?_
  rcases hc with ⟨parent, name, node, rfl, rfl⟩ | ⟨contents, rfl⟩
  · rw [faceAt_make hfits] at hthere
    split at hthere
    · rename_i hparent
      rw [← hparent, hnone] at hthere
      cases hthere
    · split at hthere
      · rename_i hself
        exact hself ▸ List.prefix_rfl
      · rw [hnone] at hthere
        cases hthere
  · rw [faceAt_fill hfits] at hthere
    split at hthere
    · rename_i hself
      exact hself ▸ List.prefix_rfl
    · rw [hnone] at hthere
      cases hthere

theorem write_lays (path : String) (bytes : ByteArray) (owner : Option String)
    (permissions : Permissions) (fs : FileSystem) :
    Edit.Makes (Change.Lays (Path.segments path)) (Edit.write path bytes owner permissions) fs := by
  refine (Edit.makes_write path bytes owner permissions fs).imp ?_
  rintro c - (⟨parent, name, hpath, rfl⟩ | rfl)
  · exact .inl ⟨parent, name, _, hpath, rfl⟩
  · exact .inr ⟨bytes, rfl⟩

section Output

variable {t : Redirection.Target} {output : String}

theorem not_isDirectory_of_none (h : fs.stat? path = none) : fs.isDirectory path = false := by
  rw [FileSystem.stat?, Option.map_eq_none_iff] at h
  rw [FileSystem.isDirectory, h]
  rfl

theorem writeDenied_of_none (h : fs.stat? path = none) :
    Redirection.writeDenied ctx fs path = parentDenied ctx fs path := by
  rw [Redirection.writeDenied, h]

theorem problem_ne_denied (operand : String) (cause : Cause) :
    Redirection.problem operand cause.text ≠ Redirection.problem operand "Permission denied" :=
  fun h => cause.text_ne_denied ((String.append_right_inj _).1 (congrArg Outcome.errors h))

/-- Output for a new file is refused exactly if the nearest node is off limits. -/
theorem write_denied_iff (h : fs.stat? (ctx.resolve t.operand) = none) :
    Redirection.write ctx t output fs =
      (some (Redirection.problem t.operand "Permission denied"), fs) ↔
        denied ctx (nearestExisting fs (ctx.resolve t.operand)) = true := by
  have hasks : Redirection.writeDenied ctx fs (ctx.resolve t.operand) =
      denied ctx (nearestExisting fs (ctx.resolve t.operand)) := by
    rw [writeDenied_of_none h, parentDenied_of_none h]
  unfold Redirection.write
  dsimp only
  rw [not_isDirectory_of_none h, hasks, if_neg Bool.false_ne_true]
  split
  · rename_i hdenied
    exact iff_of_true rfl hdenied
  · rename_i hallowed
    refine iff_of_false (fun hsame => ?_) hallowed
    split at hsame
    · cases congrArg Prod.fst hsame
    · exact problem_ne_denied _ _ (Option.some.inj (congrArg Prod.fst hsame))

theorem write_respects (ctx : Context) (t : Redirection.Target) (output : String) (fs : FileSystem) :
    Respects ctx fs (Redirection.write ctx t output fs).2 := by
  rcases hwrite : Redirection.write ctx t output fs with ⟨failure, later⟩
  cases failure with
  | some problem =>
      rw [Redirection.eq_of_write_some hwrite]
      exact .refl ctx fs
  | none =>
      obtain ⟨-, hallowed, hrun⟩ := Redirection.write_eq_none_iff.1 hwrite
      have hway : Allows ctx fs (Path.segments (ctx.resolve t.operand)) :=
        allows_of_not_parentDenied fun hnone => (writeDenied_of_none hnone).symm.trans hallowed
      exact respects_of_stores (Redirection.writeFile_stores hrun) hway

end Output

section Screens

variable {name target : String} {words : List String}

/-- An editor for a new file is refused exactly if the nearest node is off limits. -/
theorem openEditor_denied_iff (htarget : Screens.target? words = some target)
    (h : fs.stat? (ctx.resolve target) = none) :
    Screens.openEditor name ctx fs words = Screens.problem name target "Permission denied" ↔
      denied ctx (nearestExisting fs (ctx.resolve target)) = true := by
  unfold Screens.openEditor
  rw [htarget]
  dsimp only
  rw [h, Option.any_none, if_neg Bool.false_ne_true, Option.getD_none, nearestExisting_dirname h]
  split
  · rename_i hdenied
    exact iff_of_true rfl hdenied
  · rename_i hallowed
    exact iff_of_false (fun hsame => nomatch congrArg Screens.Opening.screen hsame) hallowed

/-- An editor is open for a file at a path that is allowed. -/
theorem of_openEditor {screen : Screen}
    (h : (Screens.openEditor name ctx fs words).screen = some screen) : ∃ full text isNew, screen = .editor full text name ctx.elevated isNew ∧
      Allows ctx fs (Path.segments full) := by
  unfold Screens.openEditor at h
  split at h
  · cases h
  · dsimp only at h
    split at h
    · cases h
    · split at h
      · cases h
      · rename_i hallowed
        obtain rfl := Option.some.inj h
        refine ⟨_, _, _, rfl, allows_of_not_parentDenied fun hnone => ?_⟩
        rw [hnone, Option.getD_none, Bool.not_eq_true] at hallowed
        exact hallowed

variable {w : World} {base : Option String}

/-- After an operation on what commands see has been tried, they see what it has left. -/
theorem exists_run_attempt (hview : w.viewAt base = .ok fs) (operation : Edit Unit) :
    ∃ failure v later, (Step.attempt base operation).run w = .ok failure v ∧
      v.viewAt base = .ok later ∧ later.root = (left (operation.run fs)).root := by
  rw [Step.attempt]
  cases base with
  | none =>
      obtain rfl : w.fs = fs := Except.ok.inj hview
      rw [Step.run_onView_none]
      refine ⟨_, _, _, rfl, rfl, ?_⟩
      rw [EStateM.run]
      cases operation w.fs <;> rfl
  | some path =>
      have hinner : w.fs.view path = .ok fs := hview
      rw [Step.run_onView_some, hinner]
      refine ⟨_, _, _, rfl, FileSystem.view_putBack hinner _, ?_⟩
      rw [EStateM.run]
      cases operation fs <;> rfl

/-- What an editor saves is made where it was allowed when it was opened. -/
theorem close_respects {screen : Screen} (hview : w.viewAt base = .ok fs)
    (hopens : (Screens.openEditor name ctx fs words).screen = some screen) (resolution : Resolution)
    (asker : Context) : ∃ later,
      (left ((Screens.close screen resolution asker base).run w)).viewAt base = .ok later ∧
        Respects ctx fs later := by
  obtain ⟨full, text, isNew, rfl, hallowed⟩ := of_openEditor hopens
  unfold Screens.close
  rw [run_bind_of_ok (Step.run_look_eq_ok_iff.2 ⟨hview, rfl⟩)]
  cases resolution with
  | saved content =>
      obtain ⟨failure, v, later, hrun, hlater, hroot⟩ := exists_run_attempt hview
        (Edit.write full (Text.Utf8.encode content)
          (some (if ctx.elevated then Context.rootUser else asker.username)) Permissions.newFile)
      have hlays := write_lays full (Text.Utf8.encode content)
        (some (if ctx.elevated then Context.rootUser else asker.username)) Permissions.newFile fs
      have hrespects := respects_of_makes hlays hallowed
      dsimp only
      rw [run_bind_of_ok hrun]
      refine ⟨later, ?_, fun place hthere => hrespects place ?_⟩
      · cases failure <;> exact hlater
      · rwa [FileSystem.faceAt, hroot] at hthere
  | _ => exact ⟨fs, hview, .refl ctx fs⟩

end Screens

section Remote

variable {hosts : List String} {base : Option String} {words : List String} {w v : World}
  {outcome : Outcome}

theorem respects_self_iff {P : Prop} (h : P) : Respects ctx fs fs ↔ P :=
  iff_of_true (.refl ctx fs) h

/-- `ssh` asks for nothing: the home on the other machine is made where it is allowed exactly if it
happens to be. -/
theorem runSsh_respects_iff (hrun : (Remote.runSsh hosts ctx words).run w = .ok outcome v) :
    Respects ctx w.fs v.fs ↔ ∀ user ∈ Remote.login? hosts ctx w words,
      Allows ctx w.fs (Path.segments (Remote.homeOf user)) := by
  unfold Remote.runSsh at hrun
  rw [run_get_bind] at hrun
  split at hrun
  · rename_i hwords
    cases hrun
    refine respects_self_iff ?_
    simp [Remote.login?, hwords]
  · rename_i hwords hremote
    cases hrun
    refine respects_self_iff ?_
    simp [Remote.login?, hwords, hremote]
  · rename_i target rest hwords hremote
    dsimp only at hrun
    split at hrun
    · rename_i hunknown
      cases hrun
      refine respects_self_iff ?_
      rw [Remote.login?, hwords, hremote]
      simp_all
    · rename_i hknown
      have hlogin : Remote.login? hosts ctx w words =
          some (if (Remote.splitUser target).1 = "" then ctx.username
            else (Remote.splitUser target).1) := by
        rw [Remote.login?, hwords, hremote]
        simp_all
      obtain ⟨⟨⟩, u, hedit, hnext⟩ := run_bind_eq_ok_iff.1 hrun
      cases hnext
      rw [Step.run_edit] at hedit
      split at hedit
      · rename_i hmakes
        cases hedit
        simp only [hlogin, Option.mem_some_iff, forall_eq']
        exact respects_iff_of_lays (Edit.makeDirectories_lays hmakes)
      · cases hedit

/-- Nor does `scp` ask for anything. -/
theorem runScp_respects_iff (hrun : (Remote.runScp hosts ctx base words).run w = .ok outcome v) :
    Respects ctx w.fs v.fs ↔ ∀ t ∈ Remote.transfer? hosts ctx base words,
      Allows ctx w.fs (Path.segments (Remote.homeOf t.user)) ∧
        (outcome.exitCode = 0 → Allows ctx w.fs (t.way w.fs)) := by
  rcases Remote.runScp_cases hrun with ⟨hnone, -, rfl⟩ | ⟨t, mid, ht, hhome, hcopied⟩
  · refine respects_self_iff ?_
    simp [hnone]
  · simp only [ht, Option.mem_some_iff, forall_eq']
    have hlays := Edit.makeDirectories_lays hhome
    cases hcopied with
    | missing | denied | failed =>
        rw [respects_iff_of_lays hlays]
        exact ⟨fun h => ⟨h, nofun⟩, And.left⟩
    | stored _ _ hstores hfree =>
        dsimp only at hstores hfree
        rw [Remote.landing_of_home hhome] at hstores hfree
        rw [respects_iff_of_stores hlays hstores hfree]
        exact and_congr_right fun _ => ⟨fun h _ => h, fun h => h rfl⟩

end Remote

/-- A workshop with a kit of the user's, and another one on the bench, the box in which is the root
user's. -/
def workshop : FileSystem :=
  { FileSystem.empty "ada" 0 with
    entries :=
      [("kit", .directory ⟨"ada", Permissions.newDirectory, 0⟩
          [("box", .directory ⟨"ada", Permissions.newDirectory, 0⟩
            [("nail", .file ⟨"ada", Permissions.newFile, 0⟩ ⟨#[1]⟩)])]),
        ("bench", .directory ⟨"ada", Permissions.newDirectory, 0⟩
          [("kit", .directory ⟨"ada", Permissions.newDirectory, 0⟩
            [("box", .directory ⟨Context.rootUser, Permissions.newDirectory, 0⟩ [])])])] }

/-- The copy of the kit goes to the bench. -/
theorem kit_is_copied : Command.Copies ⟨"/", "ada", false⟩ ["cp", "-r", "kit", "bench"] workshop
    ⟨["kit"], "bench", true⟩ := by
  have hexpand : Operands.expand ⟨"/", "ada", false⟩ workshop ["kit", "bench"] =
      ["kit", "bench"] := by decide +kernel
  have hinto : workshop.isDirectory (Context.resolve ⟨"/", "ada", false⟩ "bench") = true := by
    decide +kernel
  refine ⟨["-r", "kit", "bench"], ⟨['r'], [], ["kit", "bench"], none⟩, rfl, rfl, rfl, ?_⟩
  simp [Command.Transfer.ofOperands, hexpand, hinto]

theorem kit_is_copied_to : Command.Transfer.target ⟨["kit"], "bench", true⟩ ⟨"/", "ada", false⟩
    (Context.resolve ⟨"/", "ada", false⟩ "kit") = "/bench/kit" := by decide +kernel

/-- There it goes over the box of the root user. -/
theorem kit_goes_over_box :
    Command.Intrudes ⟨"/", "ada", false⟩ ["cp", "-r", "kit", "bench"] workshop := by
  have hsource : Context.resolve ⟨"/", "ada", false⟩ "kit" = "/kit" := by decide +kernel
  have hmerges : Command.Merges ⟨"/", "ada", false⟩ "/kit" "/bench/kit" workshop := by
    constructor <;> decide +kernel
  have htarget : Path.segments "/bench/kit" = ["bench", "kit"] := by decide +kernel
  have hshown : workshop.faceAt (Path.segments "/kit" ++ ["box"]) =
      some (.directory ⟨"ada", Permissions.newDirectory, 0⟩ ["nail"]) := by
    have hkit : Path.segments "/kit" = ["kit"] := by decide +kernel
    rw [hkit]
    rfl
  refine ⟨["bench", "kit", "box"], _, [], rfl, rfl, _, [], "kit", [], kit_is_copied, rfl, ?_⟩
  rw [kit_is_copied_to, hsource]
  refine ⟨hmerges, ["box"], _, by rw [htarget]; rfl, rfl, .inr ⟨_, hshown, rfl, ?_⟩⟩
  simp [Face.Includes, Entries.names]

open Command in
/-- What the nearest node above a path is, and that it decides whether something may be made there. -/
structure NearestDecides (ctx : Context) (fs : FileSystem) : Prop where
  /-- The search for a node ends, after no more climbs than the normalized path has names. -/
  ends : ∀ path, ∃ climbs, climbs ≤ (Path.steps (Path.normalize path)).length ∧
    Search fs path climbs (some (nearestExisting fs path))
  /-- It ends in no other way. -/
  certain : ∀ path climbs result, Search fs path climbs result →
    result = some (nearestExisting fs path)
  /-- It ends with the node of the longest beginning of the normalized path to be there. -/
  longest : ∀ path node, IsNearest fs path node ↔ node = nearestExisting fs path
  /-- Where there is nothing, `mkdir` is denied exactly if the nearest node is off limits. -/
  mkdir : ∀ parents operand, fs.stat? (ctx.resolve operand) = none →
    ((makeOne ctx parents operand).run fs =
      .ok [denial ("mkdir: cannot create directory '" ++ operand ++ "': ")] fs ↔
        denied ctx (nearestExisting fs (ctx.resolve operand)) = true)
  /-- So is `touch`. -/
  touch : ∀ operand, fs.stat? (ctx.resolve operand) = none →
    ((touchOne ctx operand).run fs = .ok [denial ("touch: cannot touch '" ++ operand ++ "': ")] fs ↔
      denied ctx (nearestExisting fs (ctx.resolve operand)) = true)
  /-- So is `cp`, for a source that can be copied otherwise. -/
  cp : ∀ (t : Transfer) recursive source,
    IsCopyable ctx recursive (ctx.resolve source) (t.target ctx (ctx.resolve source)) fs →
    fs.stat? (t.target ctx (ctx.resolve source)) = none →
    ((copyOne ctx t recursive source).run fs =
      .ok [denial ("cp: cannot create regular file '" ++ t.destination ++ "': ")] fs ↔
        denied ctx (nearestExisting fs (t.target ctx (ctx.resolve source))) = true)
  /-- So is `mv`, for a source that can be moved otherwise. -/
  mv : ∀ (t : Transfer) force source,
    IsMovable ctx (ctx.resolve source) (t.target ctx (ctx.resolve source)) fs →
    fs.stat? (t.target ctx (ctx.resolve source)) = none →
    ((moveOne ctx t force source).run fs =
      .ok [denial ("mv: cannot move '" ++ source ++ "' to '" ++ t.destination ++ "': ")] fs ↔
        denied ctx (nearestExisting fs (t.target ctx (ctx.resolve source))) = true)
  /-- So is output that is sent to a file. -/
  output : ∀ (t : Redirection.Target) output, fs.stat? (ctx.resolve t.operand) = none →
    (Redirection.write ctx t output fs =
      (some (Redirection.problem t.operand "Permission denied"), fs) ↔
        denied ctx (nearestExisting fs (ctx.resolve t.operand)) = true)
  /-- So is an editor. -/
  editor : ∀ name words target, Screens.target? words = some target →
    fs.stat? (ctx.resolve target) = none →
    (Screens.openEditor name ctx fs words = Screens.problem name target "Permission denied" ↔
      denied ctx (nearestExisting fs (ctx.resolve target)) = true)
  /-- All that a command line other than `mv` makes, it makes where it is allowed, unless it is a
  recursive copy that goes over a directory of the root user. -/
  made : fs.IsProper → ∀ input words, words.head? ≠ some (name .mv) → ¬ Intrudes ctx words fs →
    Respects ctx fs (execute ctx input words fs).2
  /-- So is all that is new after a source has been moved. -/
  moved : ∀ t force source, Leads (Respects ctx) (moveOne ctx t force source) fs
  /-- So is all that is new after output has been sent to a file. -/
  sent : ∀ t output, Respects ctx fs (Redirection.write ctx t output fs).2
  /-- So is all that is new after an editor has been closed. -/
  saved : ∀ (w : World) base name words screen resolution asker, w.viewAt base = .ok fs →
    (Screens.openEditor name ctx fs words).screen = some screen → ∃ later,
      (left ((Screens.close screen resolution asker base).run w)).viewAt base = .ok later ∧
        Respects ctx fs later
  /-- A copy of one source, apart from its target, that goes over a directory of the root user and ends
  without an error has made something where it is not allowed. -/
  copied : ctx.elevated = false → fs.IsProper → ∀ input words t source, Copies ctx words fs t →
    t.sources = [source] →
    ¬ Path.segments (t.target ctx (ctx.resolve source)) <+: Path.segments (ctx.resolve source) →
    (execute ctx input words fs).1.exitCode = 0 →
    (Respects ctx fs (execute ctx input words fs).2 ↔ ¬ Intrudes ctx words fs)
  /-- `ssh` asks for nothing: it makes the home on the other machine where it is allowed exactly if it
  happens to be. -/
  ssh : ∀ (w v : World) hosts words outcome, w.fs = fs →
    (Remote.runSsh hosts ctx words).run w = .ok outcome v →
    (Respects ctx fs v.fs ↔ ∀ user ∈ Remote.login? hosts ctx w words,
      Allows ctx fs (Path.segments (Remote.homeOf user)))
  /-- Nor does `scp` ask, for the home or for the file that arrives. -/
  scp : ∀ (w v : World) hosts base words outcome, w.fs = fs →
    (Remote.runScp hosts ctx base words).run w = .ok outcome v →
    (Respects ctx fs v.fs ↔ ∀ t ∈ Remote.transfer? hosts ctx base words,
      Allows ctx fs (Path.segments (Remote.homeOf t.user)) ∧
        (outcome.exitCode = 0 → Allows ctx fs (t.way fs)))

/-- The search for the nearest node ends with that of the longest beginning of a path. It decides for all
that ask whether something may be made there, but not for what a recursive copy makes in directories
that are there, nor for what is made for other machines. -/
theorem nearest_decides (ctx : Context) (fs : FileSystem) : NearestDecides ctx fs where
  ends path := by
    rw [Path.steps_normalize]
    exact exists_search fs path
  certain _ _ _ := Search.eq_nearest
  longest _ _ := isNearest_iff
  mkdir parents _ h := Command.makeOne_denied_iff h parents
  touch _ := Command.touchOne_denied_iff
  cp _ _ _ := Command.copyOne_denied_iff
  mv _ force _ := Command.moveOne_denied_iff force
  output _ _ := write_denied_iff
  editor _ _ _ := openEditor_denied_iff
  made hfs input _ := Command.execute_respects hfs input
  moved := Command.moveOne_respects
  sent t output := write_respects ctx t output fs
  saved _ _ _ _ _ resolution asker hview hopens := close_respects hview hopens resolution asker
  copied hctx hfs input _ _ _ := Command.execute_copies_respects_iff hctx hfs input
  ssh w v _ _ _ hfs hrun := by
    subst hfs
    exact runSsh_respects_iff hrun
  scp w v _ _ _ _ hfs hrun := by
    subst hfs
    exact runScp_respects_iff hrun

/-- In the workshop the box is the nearest node of a hinge that would lie in it. Nothing can be made there
by itself, but the copy of the kit goes over it. -/
theorem workshop_is_decided :
    let ctx : Context := ⟨"/", "ada", false⟩
    (∃ climbs box, climbs ≤ 5 ∧ Search workshop "bench/.//kit/box/lid/hinge" climbs (some box) ∧
      box.path = "/bench/kit/box" ∧ box.owner = Context.rootUser) ∧
    (Command.touchOne ctx "bench/kit/box/nail").run workshop = .ok
      [Command.denial "touch: cannot touch 'bench/kit/box/nail': "] workshop ∧
    Respects ctx workshop (Command.execute ctx none ["mkdir", "-p", "shelf/new"] workshop).2 ∧
    ¬ Respects ctx workshop (Command.execute ctx none ["cp", "-r", "kit", "bench"] workshop).2 := by
  intro ctx
  have hfs : workshop.IsProper := by decide
  have hdecides := nearest_decides ctx workshop
  refine ⟨?_, ?_, ?_, ?_⟩
  · obtain ⟨climbs, hclimbs, hsearch⟩ := hdecides.ends "bench/.//kit/box/lid/hinge"
    have hlength : (Path.steps (Path.normalize "bench/.//kit/box/lid/hinge")).length ≤ 5 := by
      decide +kernel
    exact ⟨climbs, _, hclimbs.trans hlength, hsearch, by decide +kernel, by decide +kernel⟩
  · exact (hdecides.touch "bench/kit/box/nail" (by decide +kernel)).2 (by decide +kernel)
  · refine hdecides.made hfs none _ (by decide) ?_
    rintro ⟨_, _, _, -, -, _, _, _, _, ⟨rest, args, hwords, -⟩, -⟩
    exact absurd (List.cons.inj hwords).1 (by decide)
  · have hbelow : ¬ Path.segments (Command.Transfer.target ⟨["kit"], "bench", true⟩ ctx
        (ctx.resolve "kit")) <+: Path.segments (ctx.resolve "kit") := by decide +kernel
    have hok : (Command.execute ctx none ["cp", "-r", "kit", "bench"] workshop).1.exitCode = 0 := by
      decide +kernel
    rw [hdecides.copied rfl hfs none _ _ _ kit_is_copied rfl hbelow hok]
    exact not_not_intro kit_goes_over_box

/-- A nail that `touch` may not make in the box is made there by the copy of the kit. -/
theorem nail_goes_into_box :
    let ctx : Context := ⟨"/", "ada", false⟩
    workshop.stat? "/bench/kit/box/nail" = none ∧
      denied ctx (nearestExisting workshop "/bench/kit/box/nail") = true ∧
      (Command.execute ctx none ["touch", "bench/kit/box/nail"] workshop).1.errors =
        "touch: cannot touch 'bench/kit/box/nail': Permission denied" ∧
      (Command.execute ctx none ["cp", "-r", "kit", "bench"] workshop).1.exitCode = 0 ∧
      ((Command.execute ctx none ["cp", "-r", "kit", "bench"] workshop).2.stat?
        "/bench/kit/box/nail").isSome := by
  decide +kernel

end Access

end PracticeShell
