import PracticeShell.Proofs.Places
import PracticeShell.Proofs.Session.Keeping
import PracticeShell.Proofs.Tree.Views

/-!
# Commands of a session that fail

While a session on another machine is open, commands see nothing but one directory. If that directory
is there (`World.CanSee`), looking at it and running operations on it never fails, and it stays there
until the end of a command.

A few commands of a session fail instead of answering with an error: `history` with digits that are
read as no number, and `ssh` and `scp` if a file is on the way to the home that is made on the other
machine. `Dispatch.run_fails_iff` says that no other command does, as long as the files can be seen.

While words are run, the directory that they see can stop being the one that the next words see: `exit`
closes a session on another machine, and `ssh` opens one. `World.Shows` says that both are there, the
latter as far as `ssh` is told a user whose home on other machines lies in the directory that is seen
(`Remote.IsHoused`). Running words keeps it so (`Dispatch.run_upholds`).
-/

namespace PracticeShell

open FileTree FileTree.Change Run

/-- Whether the directory that is all that commands see is there. -/
def World.CanSee (w : World) : Option String → Prop
  | none => True
  | some path => w.fs.kindAt (Path.segments path) = some true

/-- Whether a directory that can be seen before can be seen afterwards. -/
def World.Watches (base : Option String) (w v : World) : Prop := w.CanSee base → v.CanSee base

variable {base : Option String} {w : World}

theorem World.lasting_watches (base : Option String) : Lasting (World.Watches base) :=
  lasting_invariant fun w : World => w.CanSee base

theorem World.Watches.of_fs {v : World} (h : v.fs = w.fs) : World.Watches base w v := by
  intro hsees
  cases base with
  | none => trivial
  | some path => rwa [CanSee, h]

theorem World.Watches.of_grows {v : World} (h : Reaches IsGrowth w.fs v.fs) :
    World.Watches base w v := by
  cases base with
  | none => exact fun _ => trivial
  | some path => exact fun hsees => FileSystem.kindAt_of_reaches h hsees

namespace Step

theorem canSee_iff : w.CanSee base ↔ ∃ fs, w.viewAt base = .ok fs := by
  cases base with
  | none => exact ⟨fun _ => ⟨w.fs, rfl⟩, fun _ => trivial⟩
  | some path => exact FileSystem.view_eq_ok_iff.symm

/-- A look that does not fail sees what there is to see, and changes nothing. -/
theorem run_look_eq_ok_iff {fs : FileSystem} {v : World} :
    (look base).run w = .ok fs v ↔ w.viewAt base = .ok fs ∧ v = w := by
  rw [look, run_get_bind]
  constructor
  · intro h
    cases hview : w.viewAt base with
    | error e =>
        rw [hview] at h
        cases h
    | ok there =>
        rw [hview] at h
        cases h
        exact ⟨rfl, rfl⟩
  · rintro ⟨hview, rfl⟩
    rw [hview]
    rfl

/-- What is seen when the directory is there. -/
theorem run_look (h : w.CanSee base) : ∃ fs, w.viewAt base = .ok fs ∧
    (look base).run w = .ok fs w := by
  obtain ⟨fs, hfs⟩ := canSee_iff.1 h
  exact ⟨fs, hfs, run_look_eq_ok_iff.2 ⟨hfs, rfl⟩⟩

theorem edit_fails_iff {α : Type} {operation : Edit α} :
    Fails (edit operation) w ↔ Fails operation w.fs := by
  unfold Fails
  rw [run_edit]
  cases operation.run w.fs <;> simp

theorem edit_watches {α : Type} {operation : Edit α}
    (h : Leads (Reaches IsGrowth) operation w.fs) :
    Leads (World.Watches base) (edit operation) w := by
  rw [Leads] at h
  rw [Leads, run_edit]
  cases hrun : operation.run w.fs <;> rw [hrun] at h <;> exact .of_grows h

theorem run_onView_some {α : Type} (path : String) (operation : StateM FileSystem α) (w : World) :
    (onView (some path) operation).run w = match w.fs.view path with
      | .error e => .error (.tree e) w
      | .ok inner => .ok (operation inner).1 { w with fs := w.fs.putBack path (operation inner).2 } :=
  rfl

theorem not_fails_onView {α : Type} (h : w.CanSee base) (operation : StateM FileSystem α) :
    ¬ Fails (onView base operation) w := by
  cases base with
  | none => exact not_fails_of_ok (run_onView_none operation w)
  | some path =>
      obtain ⟨inner, hview⟩ := FileSystem.view_eq_ok_iff.2 h
      have hrun := run_onView_some path operation w
      rw [hview] at hrun
      exact not_fails_of_ok hrun

/-- An operation on what commands see leaves its directory there. -/
theorem onView_watches {α : Type} (operation : StateM FileSystem α) :
    Leads (World.Watches base) (onView base operation) w := by
  cases base with
  | none => exact fun _ => trivial
  | some path =>
      intro hsees
      obtain ⟨inner, hview⟩ := FileSystem.view_eq_ok_iff.2 hsees
      rw [run_onView_some, hview]
      exact FileSystem.kindAt_putBack hsees

theorem not_fails_attempt (h : w.CanSee base) (operation : Edit Unit) :
    ¬ Fails (attempt base operation) w := not_fails_onView h _

/-- An attempt that grows the files grows them whether it fails or not. -/
theorem attempted_grows {operation : Edit Unit} {fs : FileSystem}
    (h : Leads (Reaches IsGrowth) operation fs) :
    Reaches IsGrowth fs (match operation fs with
      | .ok _ later => ((none, later) : Option FileTree.Error × FileSystem)
      | .error e later => (some e, later)).2 := by
  rw [Leads, EStateM.run] at h
  cases hrun : operation fs <;> rw [hrun] at h <;> exact h

theorem attempt_watches {operation : Edit Unit} {other : Option String}
    (hother : other = base ∨ other = none)
    (h : ∀ fs, Leads (Reaches IsGrowth) operation fs) :
    Leads (World.Watches base) (attempt other operation) w := by
  rcases hother with rfl | rfl
  · exact onView_watches _
  · exact .of_grows (attempted_grows (h w.fs))

end Step

/-- Whether a word consists of digits and yet is read as no number. -/
def Text.Digit.IsUnreadable (word : String) : Prop :=
  isDigits word = true ∧ ∀ n, readInt word ≠ .ok n

theorem Json.toInt_string (word : String) : (Json.string word).toInt =
    match Text.Digit.readInt word with
      | .ok n => .ok n
      | .error e => .error (.text word e) := by
  cases hread : Text.Digit.readInt word <;> rw [toInt, hread]

namespace Remote

/-- The home that is made for a user on other machines. -/
def homeOf (user : String) : String := RemoteSession.baseOf user ++ Path.home user

/-- The user for whom `ssh` opens a session, if it gets as far as that. -/
def login? (hosts : List String) (ctx : Context) (w : World) (words : List String) :
    Option String :=
  match operandsOf words, w.remote with
  | target :: _, none =>
    if hosts.contains (splitUser target).2 then
      some (if (splitUser target).1 = "" then ctx.username else (splitUser target).1)
    else none
  | _, _ => none

/-- The one place on another machine among a source and a target. -/
def place? (source target : String) : Option Place :=
  match Place.read? source, Place.read? target with
  | some place, none | none, some place => some place
  | _, _ => none

/-- The user whose files on another machine `scp` uses, if it gets as far as that. -/
def peer? (hosts : List String) (ctx : Context) (words : List String) : Option String :=
  match words.filter fun word => !Path.startsWith word "-" with
  | [source, target] => do
    let place ← place? source target
    if hosts.contains place.host then some (place.user.getD ctx.username) else none
  | _ => none

variable {hosts : List String} {ctx : Context} {base : Option String} {words : List String}
  {w : World}

theorem runSsh_fails_iff : Fails (runSsh hosts ctx words) w ↔
    ∃ user ∈ login? hosts ctx w words, w.fs.Obstructs (homeOf user) := by
  unfold runSsh
  rw [fails_bind_of_ok (EStateM.run_get w)]
  split
  · rename_i hwords
    simp [login?, hwords, not_fails_pure]
  · rename_i hwords hremote
    simp [login?, hwords, hremote, not_fails_pure]
  · rename_i target rest hwords hremote
    have hlogin : login? hosts ctx w words = if hosts.contains (splitUser target).2 then
        some (if (splitUser target).1 = "" then ctx.username else (splitUser target).1)
      else none := by
      rw [login?, hwords, hremote]
    rw [hlogin]
    dsimp only
    cases hosts.contains (splitUser target).2 with
    | false => simp [not_fails_pure]
    | true =>
        have hmade : ∀ (user : String) (f : World → World) (o : Outcome), Fails (do
              Step.edit (Edit.makeDirectories (RemoteSession.baseOf user ++ Path.home user)
                Permissions.newDirectory (some user))
              modify f
              return o : Step Outcome) w ↔ w.fs.Obstructs (homeOf user) := fun user f o => by
          rw [fails_bind_left fun _ v _ => not_fails_bind (not_fails_modify _ v) fun _ u _ =>
            not_fails_pure _ u, Step.edit_fails_iff, Edit.makeDirectories_fails_iff, homeOf]
        rw [if_neg (by simp), hmade]
        simp

theorem runSsh_watches : Leads (World.Watches base) (runSsh hosts ctx words) w :=
  runSsh_leads_of (World.lasting_watches base)
    (fun _ _ => Step.edit_watches (Edit.makeDirectories_grows _ _ _ _)) fun _ _ => .of_fs rfl

/-- Between ends that can be seen a file is copied or refused. -/
theorem not_fails_copy {source target : End} (hsource : w.CanSee source.base)
    (htarget : w.CanSee target.base) (label owner : String) (upload : Bool) :
    ¬ Fails (copy ctx source target label owner upload) w := by
  obtain ⟨fs, -, hlook⟩ := Step.run_look hsource
  unfold copy
  dsimp only
  rw [fails_bind_of_ok hlook]
  split
  · exact not_fails_pure _ w
  · exact not_fails_pure _ w
  · split
    · exact not_fails_pure _ w
    · obtain ⟨there, -, hthere⟩ := Step.run_look htarget
      rw [fails_bind_of_ok hthere]
      refine not_fails_bind (Step.not_fails_attempt htarget _) fun failure v _ => ?_
      split <;> exact not_fails_pure _ v

theorem copy_watches {source target : End} (htarget : target.base = base ∨ target.base = none)
    (label owner : String) (upload : Bool) :
    Leads (World.Watches base) (copy ctx source target label owner upload) w :=
  copy_leads_of (World.lasting_watches base) fun _ _ _ _ _ _ _ =>
    Step.attempt_watches htarget fun _ =>
      .bind (lasting_reaches IsGrowth) (Edit.makeDirectories_grows _ _ _ _)
        fun _ t _ => Edit.write_grows t _ _ _ _

theorem runScp_fails_iff (hsees : w.CanSee base) : Fails (runScp hosts ctx base words) w ↔
    ∃ user ∈ peer? hosts ctx words, w.fs.Obstructs (homeOf user) := by
  unfold runScp
  split
  · rename_i source target hwords
    have hpeer : peer? hosts ctx words = (place? source target).bind fun place =>
        if hosts.contains place.host then some (place.user.getD ctx.username) else none := by
      rw [peer?, hwords]
      rfl
    rw [hpeer, place?]
    -- what follows the home that is made does not fail
    have hmade : ∀ (place : Place) (next : Step Outcome),
        (∀ v : World, v.CanSee base → ¬ Fails next v) →
        (Fails (if !hosts.contains place.host then return unreachable place.host else do
            Step.edit (Edit.makeDirectories (RemoteSession.baseOf (place.user.getD ctx.username) ++
              Path.home (place.user.getD ctx.username)) Permissions.newDirectory
              (some (place.user.getD ctx.username)))
            next) w ↔
          ∃ user ∈ if hosts.contains place.host then some (place.user.getD ctx.username) else none,
            w.fs.Obstructs (homeOf user)) := by
      intro place next hnext
      cases hosts.contains place.host with
      | false => simp [not_fails_pure]
      | true =>
          rw [if_neg (by simp), fails_bind_left, Step.edit_fails_iff,
            Edit.makeDirectories_fails_iff]
          · simp [homeOf]
          · intro _ v hrun
            exact hnext v ((Step.edit_watches (Edit.makeDirectories_grows _ _ _ _)).of_run hrun hsees)
    dsimp only
    cases hsource : Place.read? source <;> cases htarget : Place.read? target <;> dsimp only
    · simp [not_fails_pure]
    · refine hmade _ _ fun v hv => ?_
      rw [if_pos rfl]
      refine not_fails_copy ?_ ?_ _ _ _
      · exact hv
      · trivial
    · refine hmade _ _ fun v hv => ?_
      rw [if_neg (by simp)]
      refine not_fails_copy ?_ ?_ _ _ _
      · trivial
      · exact hv
    · simp [not_fails_pure]
  · rename_i hwords
    have hpeer : peer? hosts ctx words = none := by
      rw [peer?]
      split
      · exact absurd ‹_› (hwords _ _)
      · rfl
    rw [hpeer]
    simp [not_fails_pure]

theorem runScp_watches : Leads (World.Watches base) (runScp hosts ctx base words) w :=
  runScp_leads_of (World.lasting_watches base)
    (fun _ _ => Step.edit_watches (Edit.makeDirectories_grows _ _ _ _))
    fun _ _ _ _ _ _ htarget => copy_watches htarget _ _ _

theorem not_fails_runExit : ¬ Fails runExit w := by
  unfold runExit
  rw [fails_bind_of_ok (EStateM.run_get w)]
  split
  · exact not_fails_pure _ w
  · exact not_fails_bind (not_fails_modify _ w) fun _ v _ =>
      not_fails_bind (not_fails_of_ok (EStateM.run_get v)) fun _ u _ => not_fails_pure _ u

theorem runExit_watches : Leads (World.Watches base) runExit w :=
  runExit_leads_of (World.lasting_watches base) fun _ _ => .of_fs rfl

end Remote

namespace Dispatch

variable {hosts : List String} {ctx : Context} {base input : Option String} {words : List String}
  {w : World}

/-- Whether words are those of a command that fails instead of answering with an error. -/
def Strays (hosts : List String) (ctx : Context) (w : World) : List String → Prop
  | [] => False
  | name :: arguments =>
    (name = "history" ∧ ∃ count ∈ arguments.head?, Text.Digit.IsUnreadable count) ∨
    (name = "ssh" ∧
      ∃ user ∈ Remote.login? hosts ctx w arguments, w.fs.Obstructs (Remote.homeOf user)) ∨
    (name = "scp" ∧
      ∃ user ∈ Remote.peer? hosts ctx arguments, w.fs.Obstructs (Remote.homeOf user))

/-- The words that are run: with elevated rights `sudo` before them is passed over. -/
def bare (ctx : Context) (words : List String) : List String :=
  if ctx.elevated then words.dropWhile (· == "sudo") else words

theorem strays_of_ne {name : String} {arguments : List String}
    (h : name ∉ ["history", "ssh", "scp"]) : ¬ Strays hosts ctx w (name :: arguments) := by
  simp only [List.mem_cons, List.not_mem_nil, or_false, not_or] at h
  simp [Strays, h]

theorem runHistory_fails_iff : Fails (runHistory words) w ↔
    ∃ count ∈ words.head?, Text.Digit.IsUnreadable count := by
  unfold runHistory
  split
  · rename_i hclear
    rw [hclear]
    refine iff_of_false (not_fails_bind (not_fails_modify _ w) fun _ v _ => not_fails_pure _ v) ?_
    rintro ⟨count, hcount, hdigits, -⟩
    obtain rfl := Option.some.inj hcount
    exact absurd hdigits (by decide)
  · rw [fails_bind_of_ok (EStateM.run_get w)]
    split
    · simp [not_fails_pure]
    · rename_i word rest _
      dsimp only
      rw [Json.toInt_string]
      by_cases hdigits : Text.Digit.isDigits word = true
      · rw [if_neg (by simp [hdigits])]
        cases hread : Text.Digit.readInt word with
        | ok n => simp [not_fails_pure, Text.Digit.IsUnreadable, hread]
        | error e =>
            refine iff_of_true (fails_of_error rfl) ⟨word, rfl, hdigits, fun n => ?_⟩
            rw [hread]
            exact nofun
      · rw [if_pos (by simpa using hdigits)]
        simp [not_fails_pure, Text.Digit.IsUnreadable, hdigits]

theorem fails_plain_iff {step : Step Outcome} : Fails (Result.of <$> step) w ↔ Fails step w := by
  rw [map_eq_pure_bind, fails_bind_left fun _ v _ => not_fails_pure _ v]

theorem not_fails_onScreen (hsees : w.CanSee base) (opener : FileSystem → Screens.Opening) :
    ¬ Fails (onScreen opener base) w := by
  obtain ⟨fs, -, hlook⟩ := Step.run_look hsees
  unfold onScreen
  rw [fails_bind_of_ok hlook]
  exact not_fails_pure _ w

theorem not_fails_onVariables (run : Environment → Outcome × Environment) :
    ¬ Fails (onVariables run) w := not_fails_of_ok rfl

/-- A command of the session fails exactly if it strays. -/
theorem session?_fails_iff (hsees : w.CanSee base) {name : String} {arguments : List String}
    {step : Step Result} (h : session? hosts ctx base name arguments = some step) :
    Fails step w ↔ Strays hosts ctx w (name :: arguments) := by
  have hscreen : ∀ opener, name ∉ ["history", "ssh", "scp"] →
      (Fails (onScreen opener base) w ↔ Strays hosts ctx w (name :: arguments)) :=
    fun opener hname => iff_of_false (not_fails_onScreen hsees _) (strays_of_ne hname)
  have hvariables : ∀ run, name ∉ ["history", "ssh", "scp"] →
      (Fails (Result.of <$> onVariables run) w ↔ Strays hosts ctx w (name :: arguments)) :=
    fun run hname => by
      rw [fails_plain_iff]
      exact iff_of_false (not_fails_onVariables _) (strays_of_ne hname)
  cases session?_cases h with
  | ssh =>
      rw [fails_plain_iff, Remote.runSsh_fails_iff]
      simp [Strays]
  | scp =>
      rw [fails_plain_iff, Remote.runScp_fails_iff hsees]
      simp [Strays]
  | pager hname =>
      refine hscreen _ ?_
      simp only [Screens.pagers, List.mem_cons, List.not_mem_nil, or_false] at hname
      rcases hname with rfl | rfl <;> simp
  | editor hname =>
      refine hscreen _ ?_
      simp only [Screens.editors, List.mem_cons, List.not_mem_nil, or_false] at hname
      rcases hname with rfl | rfl | rfl <;> simp
  | env => exact hvariables _ (by simp)
  | exports => exact hvariables _ (by simp)
  | unset => exact hvariables _ (by simp)
  | history =>
      rw [fails_plain_iff, runHistory_fails_iff]
      simp [Strays]
  | exit hname =>
      refine iff_of_false (not_fails_bind Remote.not_fails_runExit fun _ v _ => not_fails_pure _ v)
        (strays_of_ne ?_)
      rcases hname with rfl | rfl <;> simp

/-- What is no command of the session does not stray. -/
theorem strays_of_session? {name : String} {arguments : List String}
    (h : session? hosts ctx base name arguments = none) :
    ¬ Strays hosts ctx w (name :: arguments) := by
  refine strays_of_ne fun hname => ?_
  simp only [List.mem_cons, List.not_mem_nil, or_false] at hname
  rcases hname with rfl | rfl | rfl <;> simp [session?, Screens.pagers, Screens.editors] at h

theorem not_fails_onFiles (hsees : w.CanSee base) : ¬ Fails (onFiles ctx base input words) w := by
  unfold onFiles
  refine not_fails_bind (Step.not_fails_onView hsees _) fun outcome v _ => ?_
  dsimp only
  cases outcome.newDirectory with
  | none => exact not_fails_pure _ v
  | some path => exact not_fails_bind (not_fails_modify _ v) fun _ u _ => not_fails_pure _ u

/-- While the files can be seen, words fail exactly if they stray. -/
theorem run_fails_iff (hsees : w.CanSee base) :
    Fails (run hosts ctx base input words) w ↔ Strays hosts ctx w (bare ctx words) := by
  unfold run bare
  dsimp only
  generalize (if ctx.elevated then words.dropWhile (· == "sudo") else words) = words
  cases words with
  | nil => exact iff_of_false (not_fails_onFiles hsees) id
  | cons name arguments =>
      dsimp only
      cases hsession : session? hosts ctx base name arguments with
      | none => exact iff_of_false (not_fails_onFiles hsees) (strays_of_session? hsession)
      | some step => exact session?_fails_iff hsees hsession

theorem onVariables_watches (run : Environment → Outcome × Environment) :
    Leads (World.Watches base) (onVariables run) w := World.Watches.of_fs rfl

theorem session?_watches {name : String} {step : Step Result}
    (h : session? hosts ctx base name words = some step) :
    Leads (World.Watches base) step w := by
  have hR := World.lasting_watches base
  cases session?_cases h with
  | ssh => exact .map Remote.runSsh_watches
  | scp => exact .map Remote.runScp_watches
  | pager => exact onScreen_leads hR _
  | editor => exact onScreen_leads hR _
  | env => exact .map (onVariables_watches _)
  | exports => exact .map (onVariables_watches _)
  | unset => exact .map (onVariables_watches _)
  | history => exact .map (runHistory_leads hR fun _ => .of_fs rfl)
  | exit => exact .bind hR Remote.runExit_watches fun _ v _ => .pure hR _ v

theorem onFiles_watches : Leads (World.Watches base) (onFiles ctx base input words) w := by
  have hR := World.lasting_watches base
  refine .bind hR (Step.onView_watches _) fun outcome v _ => ?_
  dsimp only
  split
  · refine .bind hR (.modify (.of_fs ?_)) fun _ u _ => .pure hR _ u
    unfold World.changeDirectory
    split <;> rfl
  · exact .pure hR _ v

/-- Running words leaves what commands see there. -/
theorem run_watches : Leads (World.Watches base) (run hosts ctx base input words) w := by
  unfold run
  dsimp only
  split
  · exact onFiles_watches
  · rename_i name arguments _
    cases hsession : session? hosts ctx base name arguments with
    | none => exact onFiles_watches
    | some step => exact session?_watches hsession

end Dispatch

namespace Remote

/-- Whether the home of a user on other machines lies in the directory that is seen there. -/
def IsHoused (user : String) : Prop :=
  Path.segments (RemoteSession.baseOf user) <+: Path.segments (homeOf user)

theorem isHoused_of_isSegment {user : String} (h : Path.IsSegment user) : IsHoused user := by
  have hhome : homeOf user = RemoteSession.baseOf user ++ "/" ++ "home" ++ "/" ++ user := by
    simp [homeOf, Path.home, String.append_assoc]
  have hsegment : Path.IsSegment "home" := by decide
  rw [IsHoused, hhome, Path.segments_append_name _ h, Path.segments_append_name _ hsegment,
    List.append_assoc]
  exact List.prefix_append _ _

end Remote

/-- Whether the directory is there that commands have begun to see and, as far as users are housed,
the one that the next commands see. If the two differ, no more than one of them is a directory on
another machine. -/
structure World.Shows (housed : Prop) (base : Option String) (w : World) : Prop where
  sees : w.CanSee base
  later : housed → w.CanSee w.viewBase
  apart : w.viewBase = base ∨ base = none ∨ w.viewBase = none

/-- Whether a session on another machine stays open or closed, or is closed, or is opened at a
directory that is there as far as users are housed. -/
def World.Turns (housed : Prop) (w v : World) : Prop :=
  v.viewBase = w.viewBase ∨ v.viewBase = none ∨
    (w.viewBase = none ∧ (housed → v.CanSee v.viewBase))

/-- Whether commands see the same directory as before. -/
def World.Abides (w v : World) : Prop := v.viewBase = w.viewBase

variable {housed : Prop} {base : Option String} {w v : World}

theorem World.lasting_abides : Lasting World.Abides := ⟨fun _ => rfl, fun h h' => h'.trans h⟩

theorem World.shows_viewBase (h : w.CanSee w.viewBase) : w.Shows housed w.viewBase :=
  ⟨h, fun _ => h, .inl rfl⟩

theorem World.Shows.of_turns (hbase : w.viewBase = base) (hsees : v.CanSee base)
    (h : World.Turns housed w v) : v.Shows housed base := by
  rcases h with hsame | hclosed | ⟨hnone, hlater⟩
  · rw [← hbase, ← hsame] at hsees ⊢
    exact shows_viewBase hsees
  · exact ⟨hsees, fun _ => by rw [hclosed]; trivial, .inr (.inr hclosed)⟩
  · exact ⟨hsees, hlater, .inr (.inl (hbase ▸ hnone))⟩

namespace Step

theorem edit_abides {α : Type} (operation : Edit α) : Leads World.Abides (edit operation) w := by
  rw [Leads, run_edit]
  cases operation.run w.fs <;> rfl

theorem onView_abides {α : Type} (operation : StateM FileSystem α) :
    Leads World.Abides (onView base operation) w := by
  cases base with
  | none => rfl
  | some path =>
      rw [Leads, run_onView_some]
      cases w.fs.view path <;> rfl

/-- What does nothing but grow the files leaves there what is seen. -/
theorem onView_upholds {α : Type} {operation : StateM FileSystem α} {fault : Prop}
    (hgrows : ∀ fs, Reaches IsGrowth fs (operation fs).2) (h : w.Shows housed base) :
    Upholds (World.Shows housed base) fault (onView base operation) w := by
  have habides : World.Abides w (left ((onView base operation).run w)) := onView_abides operation
  refine .of_not_fails ⟨onView_watches operation h.sees, fun hhoused => ?_, ?_⟩
    (not_fails_onView h.sees operation)
  · rw [habides]
    have hlater := h.later hhoused
    rcases h.apart with hsame | rfl | hclosed
    · rw [hsame]
      exact onView_watches operation h.sees
    · exact World.Watches.of_grows (hgrows w.fs) hlater
    · rw [hclosed]
      trivial
  · rw [habides]
    exact h.apart

theorem attempt_upholds {operation : Edit Unit} {fault : Prop}
    (hgrows : ∀ fs, Leads (Reaches IsGrowth) operation fs) (h : w.Shows housed base) :
    Upholds (World.Shows housed base) fault (attempt base operation) w :=
  onView_upholds (fun fs => attempted_grows (hgrows fs)) h

theorem look_upholds {fault : Prop} (h : w.Shows housed base) :
    Upholds (World.Shows housed base) fault (look base) w := by
  obtain ⟨fs, -, hrun⟩ := run_look h.sees
  refine .of_not_fails ?_ (not_fails_of_ok hrun)
  rw [hrun]
  exact h

end Step

theorem Screens.close_upholds {fault : Prop} (screen : Screen) (resolution : Resolution)
    (ctx : Context) (h : w.Shows housed base) :
    Upholds (World.Shows housed base) fault (close screen resolution ctx base) w := by
  refine (Step.look_upholds h).bind fun fs v _ hv => ?_
  dsimp only
  split
  · refine (Step.attempt_upholds (fun fs => Edit.write_grows fs _ _ _ _) hv).bind
      fun failure u _ hu => ?_
    split <;> exact .pure hu _
  · exact .pure hv _

namespace Remote

variable {hosts : List String} {ctx : Context} {words : List String}

/-- The directory at which `ssh` opens a session is there if its user is housed. -/
theorem runSsh_turns (hhoused : housed → ∀ user ∈ login? hosts ctx w words, IsHoused user) :
    Leads (World.Turns housed) (runSsh hosts ctx words) w := by
  refine .get_bind ?_
  split
  · exact .inl rfl
  · exact .inl rfl
  · rename_i target rest hwords hremote
    have hnone : w.viewBase = none := by rw [World.viewBase, hremote]; rfl
    dsimp only
    refine .ite (fun _ => .inl rfl) fun hknown => ?_
    have hlogin : login? hosts ctx w words =
        some (if (splitUser target).1 = "" then ctx.username else (splitUser target).1) := by
      simp [login?, hwords, hremote, show (splitUser target).2 ∈ hosts by simpa using hknown]
    rw [hlogin] at hhoused
    generalize (if (splitUser target).1 = "" then ctx.username else (splitUser target).1) = user
      at hhoused
    rw [Leads, EStateM.run_bind, Step.run_edit]
    cases hmade : (Edit.makeDirectories (RemoteSession.baseOf user ++ Path.home user)
        Permissions.newDirectory (some user)).run w.fs with
    | error e fs => exact .inl rfl
    | ok made fs =>
        refine .inr (.inr ⟨hnone, fun h => ?_⟩)
        exact FileSystem.kindAt_of_prefix (hhoused h user rfl) (Edit.kindAt_makeDirectories hmade)

theorem copy_abides (source target : End) (label owner : String) (upload : Bool) :
    Leads World.Abides (copy ctx source target label owner upload) w :=
  copy_leads_of World.lasting_abides fun _ _ _ _ _ _ _ => Step.onView_abides _

theorem runScp_abides : Leads World.Abides (runScp hosts ctx base words) w :=
  runScp_leads_of World.lasting_abides (fun _ _ => Step.edit_abides _)
    fun _ _ _ _ _ _ _ => copy_abides _ _ _ _ _

theorem runExit_turns : Leads (World.Turns housed) runExit w := by
  refine .get_bind ?_
  split
  · exact .inl rfl
  · exact .inr (.inl rfl)

end Remote

namespace Dispatch

variable {hosts : List String} {ctx : Context} {input : Option String} {words : List String}

theorem onFiles_abides : Leads World.Abides (onFiles ctx base input words) w := by
  have hR := World.lasting_abides
  refine .bind hR (Step.onView_abides _) fun outcome v _ => ?_
  dsimp only
  split
  · refine .bind hR (.modify ?_) fun _ u _ => .pure hR _ u
    unfold World.changeDirectory
    split
    · rename_i r hremote
      rw [World.Abides, World.viewBase, World.viewBase, hremote]
      rfl
    · rfl
  · exact .pure hR _ v

/-- Whether words that are those of `ssh` name a user who is housed. -/
def AreHoused (hosts : List String) (ctx : Context) (w : World) (words : List String) : Prop :=
  ∀ arguments, words = "ssh" :: arguments →
    ∀ user ∈ Remote.login? hosts ctx w arguments, Remote.IsHoused user

theorem session?_turns {name : String} {step : Step Result}
    (hhoused : housed → AreHoused hosts ctx w (name :: words))
    (h : session? hosts ctx base name words = some step) :
    Leads (World.Turns housed) step w := by
  have hR := World.lasting_abides
  cases session?_cases h with
  | ssh => exact .map (Remote.runSsh_turns fun h => hhoused h words rfl)
  | scp => exact .map (Remote.runScp_abides.weaken .inl)
  | pager => exact (onScreen_leads hR _).weaken .inl
  | editor => exact (onScreen_leads hR _).weaken .inl
  | env => exact .inl rfl
  | exports => exact .inl rfl
  | unset => exact .inl rfl
  | history => exact .map ((runHistory_leads hR fun _ => rfl).weaken .inl)
  | exit => exact .bind_pure Remote.runExit_turns

theorem run_turns (hhoused : housed → AreHoused hosts ctx w (bare ctx words)) :
    Leads (World.Turns housed) (run hosts ctx base input words) w := by
  unfold run
  unfold bare at hhoused
  dsimp only
  generalize (if ctx.elevated then words.dropWhile (· == "sudo") else words) = words at hhoused
  split
  · exact onFiles_abides.weaken .inl
  · rename_i name arguments
    cases hsession : session? hosts ctx base name arguments with
    | none => exact onFiles_abides.weaken .inl
    | some step => exact session?_turns hhoused hsession

/-- Running words leaves there what is seen, and fails only if they stray. -/
theorem run_upholds (hbase : w.viewBase = base) (hsees : w.CanSee base)
    (hhoused : housed → AreHoused hosts ctx w (bare ctx words)) :
    Upholds (World.Shows housed base) (Strays hosts ctx w (bare ctx words))
      (run hosts ctx base input words) w :=
  ⟨.of_turns hbase (run_watches hsees) (run_turns hhoused), (run_fails_iff hsees).1⟩

end Dispatch

end PracticeShell
