import PracticeShell.Proofs.Command.Taking
import PracticeShell.Session.Dispatch

/-!
# What commands of a session keep

`Dispatch.IsCommand` lists the commands that belong to the session, with their names and what is run
for them. What `Dispatch.session?` finds is one of them (`Dispatch.session?_cases`), so that what holds
of all commands of the session is shown by one case for each. What such a command leads to is what its
few operations on the world lead to: there is one lemma for each command (`Remote.runSsh_leads_of` and
its like), for any relation of earlier to later worlds.

While no session on another machine is open, commands see all files. `Dispatch.run` then keeps every
place that its words do not take, and neither the name of the learner nor the mode is changed before
it is over.
-/

namespace PracticeShell.Dispatch

/-- Whether a step is what is run for a command of the session with some words after its name. -/
inductive IsCommand (hosts : List String) (ctx : Context) (base : Option String)
    (words : List String) : (name : String) → Step Result → Prop
  | ssh : IsCommand hosts ctx base words "ssh" (Result.of <$> Remote.runSsh hosts ctx words)
  | scp : IsCommand hosts ctx base words "scp" (Result.of <$> Remote.runScp hosts ctx base words)
  | pager {name : String} (hname : name ∈ Screens.pagers) : IsCommand hosts ctx base words name
      (onScreen (fun fs => Screens.openPager name ctx fs words) base)
  | editor {name : String} (hname : name ∈ Screens.editors) : IsCommand hosts ctx base words name
      (onScreen (fun fs => Screens.openEditor name ctx fs words) base)
  | env : IsCommand hosts ctx base words "env" (Result.of <$> onVariables (·.runEnv words))
  | exports : IsCommand hosts ctx base words "export"
      (Result.of <$> onVariables (·.runExport words))
  | unset : IsCommand hosts ctx base words "unset" (Result.of <$> onVariables (·.runUnset words))
  | history : IsCommand hosts ctx base words "history" (Result.of <$> runHistory words)
  | exit {name : String} (hname : name = "exit" ∨ name = "logout") :
      IsCommand hosts ctx base words name (do
        let (outcome, leaves) ← Remote.runExit
        return ⟨outcome, none, leaves⟩)

/-- What is found for a name is a command of the session. -/
theorem session?_cases {hosts : List String} {ctx : Context} {base : Option String}
    {name : String} {words : List String} {step : Step Result}
    (h : session? hosts ctx base name words = some step) :
    IsCommand hosts ctx base words name step := by
  unfold session? at h
  dsimp only at h
  split at h
  · rename_i hname
    cases h
    subst hname
    exact .ssh
  split at h
  · rename_i hname
    cases h
    subst hname
    exact .scp
  split at h
  · rename_i hname
    cases h
    exact .pager (List.contains_iff_mem.1 hname)
  split at h
  · rename_i hname
    cases h
    exact .editor (List.contains_iff_mem.1 hname)
  split at h
  · rename_i hname
    cases h
    subst hname
    exact .env
  split at h
  · rename_i hname
    cases h
    subst hname
    exact .exports
  split at h
  · rename_i hname
    cases h
    subst hname
    exact .unset
  split at h
  · rename_i hname
    cases h
    subst hname
    exact .history
  split at h
  · rename_i hname
    cases h
    exact .exit hname
  · cases h

end PracticeShell.Dispatch

namespace PracticeShell

open FileTree FileTree.Change Run

section Leading

variable {R : World → World → Prop} (hR : Lasting R) {hosts : List String} {ctx : Context}
  {base : Option String} {words : List String} {w : World}

include hR

theorem Step.look_leads : Leads R (look base) w := by
  rw [Leads, look, run_get_bind]
  cases w.viewAt base with
  | ok fs => exact hR.refl w
  | error e => exact hR.refl w

/-- What writing a text leads to, closing a screen leads to. -/
theorem Screens.close_leads_of (screen : Screen) (resolution : Resolution)
    (hsave : ∀ path text owner v, Leads R (Step.attempt base
      (Edit.write path (Text.Utf8.encode text) (some owner) Permissions.newFile)) v) :
    Leads R (close screen resolution ctx base) w := by
  refine .bind hR (Step.look_leads hR) fun _ v _ => ?_
  dsimp only
  split
  · refine .bind hR (hsave _ _ _ v) fun failure u _ => ?_
    cases failure with
    | none => exact .pure hR _ u
    | some e => exact .pure hR _ u
  · exact .pure hR _ v

namespace Remote

/-- What making a home and going to another machine lead to, `ssh` leads to. -/
theorem runSsh_leads_of
    (hhome : ∀ path user, Leads R
      (Step.edit (Edit.makeDirectories path Permissions.newDirectory (some user))) w)
    (hremote : ∀ v remote, R v { v with remote }) : Leads R (runSsh hosts ctx words) w := by
  refine .get_bind ?_
  split
  · exact .pure hR _ w
  · exact .pure hR _ w
  · refine .ite (fun _ => .pure hR _ w) fun _ => ?_
    refine .bind hR (hhome _ _) fun _ v _ => ?_
    exact .bind hR (.modify (hremote v _)) fun _ u _ => .pure hR _ u

/-- What storing the bytes of the source leads to, copying between two ends leads to. -/
theorem copy_leads_of {source target : End} {label owner : String} {upload : Bool}
    (hstore : ∀ fs v bytes, (Step.look source.base).run w = .ok fs v →
      fs.contents source.path = .ok bytes → ∀ path u, Leads R (Step.attempt target.base do
        Edit.makeDirectories (Path.dirname path) Permissions.newDirectory (some owner)
        Edit.write path bytes (some owner) Permissions.newFile) u) :
    Leads R (copy ctx source target label owner upload) w := by
  refine .bind hR (Step.look_leads hR) fun fs v hlook => ?_
  split
  · exact .pure hR _ v
  · exact .pure hR _ v
  · rename_i bytes _ hbytes
    refine .ite (fun _ => .pure hR _ v) fun _ => ?_
    refine .bind hR (Step.look_leads hR) fun there u _ => ?_
    refine .bind hR (hstore fs v bytes hlook hbytes _ u) fun failure x _ => ?_
    cases failure with
    | none => exact .pure hR _ x
    | some e => exact .pure hR _ x

/-- What making a home and copying between the two ends lead to, `scp` leads to. One of the ends is
what commands see, and the other all files. -/
theorem runScp_leads_of
    (hhome : ∀ path user, Leads R
      (Step.edit (Edit.makeDirectories path Permissions.newDirectory (some user))) w)
    (hcopy : ∀ (source target : End) label owner upload v,
      target.base = base ∨ target.base = none →
        Leads R (copy ctx source target label owner upload) v) :
    Leads R (runScp hosts ctx base words) w := by
  unfold runScp
  split
  · dsimp only
    split
    · exact .pure hR _ w
    · refine .ite (fun _ => .pure hR _ w) fun _ => ?_
      refine .bind hR (hhome _ _) fun _ v _ => ?_
      exact .ite (fun _ => hcopy _ _ _ _ _ v (.inr rfl)) fun _ => hcopy _ _ _ _ _ v (.inl rfl)
  · exact .pure hR _ w

theorem runExit_leads_of (hremote : ∀ v remote, R v { v with remote }) : Leads R runExit w := by
  refine .get_bind ?_
  split
  · exact .pure hR _ w
  · exact .bind hR (.modify (hremote w none)) fun _ v _ => .pure hR _ v

end Remote

namespace Dispatch

theorem runHistory_leads (hhistory : words = ["-c"] → R w { w with history := [] }) :
    Leads R (runHistory words) w := by
  refine .ite (fun hclears => ?_) fun _ => .get_bind ?_
  · exact .bind hR (.modify (hhistory hclears)) fun _ v _ => .pure hR _ v
  · cases words with
    | nil => exact .pure hR _ w
    | cons word rest =>
        refine .ite (fun _ => .pure hR _ w) fun _ => ?_
        split
        · exact .throw hR _ w
        · exact .pure hR _ w

theorem onScreen_leads (opener : FileSystem → Screens.Opening) : Leads R (onScreen opener base) w :=
  .bind hR (Step.look_leads hR) fun _ v _ => .pure hR _ v

end Dispatch

end Leading

/-- Whether a place that is there stays there, and the learner and the mode stay the same. -/
structure World.Keeps (place : List String) (w v : World) : Prop where
  stays : Stays place w.fs v.fs
  username : v.username = w.username
  mode : v.mode = w.mode

variable {place : List String} {w : World}

theorem World.Keeps.of_fs {v : World} (hfs : v.fs = w.fs) (husername : v.username = w.username)
    (hmode : v.mode = w.mode) : World.Keeps place w v :=
  ⟨hfs ▸ (lasting_stays place).refl w.fs, husername, hmode⟩

theorem World.lasting_keeps (place : List String) : Lasting (World.Keeps place) :=
  ⟨fun w => ⟨(lasting_stays place).refl w.fs, rfl, rfl⟩, fun h h' =>
    ⟨(lasting_stays place).trans h.stays h'.stays, h'.username.trans h.username,
      h'.mode.trans h.mode⟩⟩

namespace Step

theorem run_edit {α : Type} (operation : Edit α) (w : World) :
    (edit operation).run w = match operation.run w.fs with
      | .ok a fs => .ok a { w with fs }
      | .error e fs => .error (.tree e) { w with fs } := rfl

theorem edit_keeps {α : Type} {operation : Edit α}
    (h : Leads (Reaches IsGrowth) operation w.fs) :
    Leads (World.Keeps place) (edit operation) w := by
  have hstays := Stays.of_grows h place
  rw [Leads, run_edit]
  cases hrun : operation.run w.fs <;> rw [hrun] at hstays <;> exact ⟨hstays, rfl, rfl⟩

theorem run_onView_none {α : Type} (operation : StateM FileSystem α) (w : World) :
    (onView none operation).run w = .ok (operation w.fs).1 { w with fs := (operation w.fs).2 } := rfl

theorem onView_keeps {α : Type} {operation : StateM FileSystem α}
    (h : Stays place w.fs (operation w.fs).2) :
    Leads (World.Keeps place) (onView none operation) w := by
  rw [Leads, run_onView_none]
  exact ⟨h, rfl, rfl⟩

theorem attempt_keeps {operation : Edit Unit} (h : Leads (Reaches IsGrowth) operation w.fs) :
    Leads (World.Keeps place) (attempt none operation) w := by
  have hstays := Stays.of_grows h place
  refine onView_keeps ?_
  rw [EStateM.run] at hstays
  cases hrun : operation w.fs <;> rw [hrun] at hstays <;> exact hstays

end Step

namespace Remote

variable (hosts : List String) (ctx : Context) (words : List String)

theorem runSsh_keeps : Leads (World.Keeps place) (runSsh hosts ctx words) w :=
  runSsh_leads_of (World.lasting_keeps place)
    (fun _ _ => Step.edit_keeps (Edit.makeDirectories_grows _ _ _ _)) fun _ _ => .of_fs rfl rfl rfl

theorem copy_keeps {source target : End} (htarget : target.base = none) (label owner : String)
    (upload : Bool) : Leads (World.Keeps place) (copy ctx source target label owner upload) w := by
  refine copy_leads_of (World.lasting_keeps place) fun _ _ _ _ _ _ _ => ?_
  rw [htarget]
  exact Step.attempt_keeps (.bind (lasting_reaches IsGrowth) (Edit.makeDirectories_grows _ _ _ _)
    fun _ t _ => Edit.write_grows t _ _ _ _)

theorem runScp_keeps : Leads (World.Keeps place) (runScp hosts ctx none words) w :=
  runScp_leads_of (World.lasting_keeps place)
    (fun _ _ => Step.edit_keeps (Edit.makeDirectories_grows _ _ _ _))
    fun _ _ _ _ _ _ htarget => copy_keeps ctx (or_self_iff.1 htarget) _ _ _

theorem runExit_keeps : Leads (World.Keeps place) runExit w :=
  runExit_leads_of (World.lasting_keeps place) fun _ _ => .of_fs rfl rfl rfl

end Remote

namespace Screens

theorem close_keeps (screen : Screen) (resolution : Resolution) (ctx : Context) :
    Leads (World.Keeps place) (close screen resolution ctx none) w :=
  close_leads_of (World.lasting_keeps place) screen resolution fun _ _ _ _ =>
    Step.attempt_keeps (Edit.write_grows _ _ _ _ _)

end Screens

namespace Redirection

/-- What making directories and writing a text lead to, output that is sent to a file leads to. -/
theorem write_leads {R : FileSystem → FileSystem → Prop} (hR : Lasting R) {ctx : Context}
    {fs : FileSystem}
    (hmakes : ∀ path, Leads R
      (Edit.makeDirectories path Permissions.newDirectory (some ctx.user)) fs)
    (hwrites : ∀ path text u, Leads R
      (Edit.write path (Text.Utf8.encode text) (some ctx.user) Permissions.newFile) u)
    (t : Target) (output : String) : R fs (write ctx t output fs).2 := by
  have hwrite : ∀ full contents, Leads R (writeFile ctx full contents) fs := by
    intro full contents
    refine .get_bind ?_
    dsimp only
    split
    · exact .bind hR (hmakes _) fun _ u _ => hwrites _ _ u
    · exact hwrites _ _ fs
  unfold write
  dsimp only
  split
  · exact hR.refl fs
  · split
    · exact hR.refl fs
    · have hleads := hwrite (ctx.resolve t.operand)
        (newContents t.append (fs.text (ctx.resolve t.operand)).toOption output)
      rw [Leads, EStateM.run] at hleads
      split <;> rename_i hrun <;> rw [hrun] at hleads <;> exact hleads

theorem write_grows (ctx : Context) (t : Target) (output : String) (fs : FileSystem) :
    Reaches IsGrowth fs (write ctx t output fs).2 :=
  write_leads (lasting_reaches IsGrowth) (fun _ => Edit.makeDirectories_grows _ _ _ _)
    (fun _ _ u => Edit.write_grows u _ _ _ _) t output

theorem applyTo_snd (r : Redirection) (ctx : Context) (o : Outcome) (said : Option String)
    (fs : FileSystem) : (r.applyTo ctx o said fs).2 = match r.target? with
      | none => fs
      | some t => (write ctx t o.output fs).2 := by
  unfold applyTo
  cases r.target? with
  | none => rfl
  | some t =>
      change (StateT.bind (write ctx t o.output) _ fs).2 = (write ctx t o.output fs).2
      unfold StateT.bind
      cases write ctx t o.output fs with
      | mk failure later => cases failure <;> rfl

/-- Nothing but a file that is written comes of a redirection. -/
theorem applyTo_grows (r : Redirection) (ctx : Context) (o : Outcome) (said : Option String)
    (fs : FileSystem) : Reaches IsGrowth fs (r.applyTo ctx o said fs).2 := by
  rw [applyTo_snd]
  split
  · exact (lasting_reaches IsGrowth).refl fs
  · exact write_grows ctx _ _ fs

end Redirection

namespace Dispatch

variable (hosts : List String) (ctx : Context) (input : Option String) (words : List String)

theorem onVariables_keeps (run : Environment → Outcome × Environment) :
    Leads (World.Keeps place) (onVariables run) w := World.Keeps.of_fs rfl rfl rfl

/-- Commands of the session take nothing away. -/
theorem session?_keeps {name : String} {step : Step Result}
    (h : session? hosts ctx none name words = some step) :
    Leads (World.Keeps place) step w := by
  have hR := World.lasting_keeps place
  cases session?_cases h with
  | ssh => exact .map (Remote.runSsh_keeps hosts ctx words)
  | scp => exact .map (Remote.runScp_keeps hosts ctx words)
  | pager => exact onScreen_leads hR _
  | editor => exact onScreen_leads hR _
  | env => exact .map (onVariables_keeps _)
  | exports => exact .map (onVariables_keeps _)
  | unset => exact .map (onVariables_keeps _)
  | history => exact .map (runHistory_leads hR fun _ => .of_fs rfl rfl rfl)
  | exit => exact .bind hR Remote.runExit_keeps fun _ v _ => .pure hR _ v

/-- On all files a command never fails. -/
theorem run_onFiles_none (w : World) : (onFiles ctx none input words).run w =
    .ok (.of (Command.execute ctx input words w.fs).1)
      (match (Command.execute ctx input words w.fs).1.newDirectory with
        | some path => { w with fs := (Command.execute ctx input words w.fs).2 }.changeDirectory path
        | none => { w with fs := (Command.execute ctx input words w.fs).2 }) := by
  unfold onFiles
  rw [EStateM.run_bind, Step.run_onView_none]
  dsimp only
  cases (Command.execute ctx input words w.fs).1.newDirectory <;> rfl

theorem onFiles_keeps (h : ∀ operand ∈ Command.taken ctx w.fs words,
    ¬ Path.segments (ctx.resolve operand) <+: place) :
    Leads (World.Keeps place) (onFiles ctx none input words) w := by
  have hstays := Command.execute_stays ctx words input w.fs h
  rw [Leads, run_onFiles_none]
  unfold World.changeDirectory
  split
  · dsimp only [left_ok]
    split <;> exact ⟨hstays, rfl, rfl⟩
  · exact ⟨hstays, rfl, rfl⟩

/-- A `sudo` before the words of a line takes nothing by itself. -/
theorem taken_dropWhile (fs : FileSystem) :
    Command.taken ctx fs (words.dropWhile (· == "sudo")) = Command.taken ctx fs words := by
  induction words with
  | nil => rfl
  | cons name words ih =>
      by_cases hname : name = "sudo"
      · subst hname
        rw [List.dropWhile_cons_of_pos (by simp), ih, Command.taken_superuser]
      · rw [List.dropWhile_cons_of_neg (by simpa using hname)]

/-- What the words of a line do not take stays. -/
theorem run_keeps (h : ∀ operand ∈ Command.taken ctx w.fs words,
    ¬ Path.segments (ctx.resolve operand) <+: place) :
    Leads (World.Keeps place) (run hosts ctx none input words) w := by
  unfold run
  dsimp only
  generalize hplain : ite (ctx.elevated = true) (words.dropWhile _) words = plain
  have h : ∀ operand ∈ Command.taken ctx w.fs plain,
      ¬ Path.segments (ctx.resolve operand) <+: place := by
    subst hplain
    split
    · rwa [taken_dropWhile]
    · exact h
  cases plain with
  | nil => exact onFiles_keeps ctx input [] h
  | cons name arguments =>
      dsimp only
      cases hsession : session? hosts ctx none name arguments with
      | none => exact onFiles_keeps ctx input _ h
      | some step => exact session?_keeps hosts ctx arguments hsession

end Dispatch

end PracticeShell
