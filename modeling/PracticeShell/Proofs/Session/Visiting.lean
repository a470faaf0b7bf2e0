import PracticeShell.Proofs.Session.Straying

/-!
# Going to another machine

Words that are run go to another machine, stay on it, leave it, or stay at home (`World.Ventures`). To
go there is to begin to see one directory, which is there afterwards exactly if it was there before or
lies on the way to the home that is made below it (`Remote.runSsh_ventures`). Running words in view of
a directory does not take it away (`Dispatch.run_ventures`).
-/

namespace PracticeShell

open FileTree FileTree.Change Run

namespace Edit

variable {permissions : Permissions} {owner : Option String} {later : FileSystem}
  {place : List String} {kind : Bool}

/-- What is there after all directories along a way have been made was there before or lies on the
way. -/
theorem of_kindAt_makeAlong (rest : List String) {done : List String} {fs : FileSystem}
    (hsegments : ∀ name ∈ done ++ rest, Path.IsSegment name)
    (h : (makeAlong permissions owner done rest).run fs = .ok () later)
    (hkind : later.kindAt place = some kind) :
    fs.kindAt place = some kind ∨ place <+: done ++ rest := by
  induction rest generalizing done fs with
  | nil =>
      cases h
      exact .inl hkind
  | cons name rest ih =>
      rw [List.append_cons] at hsegments ⊢
      have hpath : Path.segments (Path.ofSegments (done ++ [name])) = done ++ [name] :=
        Path.segments_ofSegments fun n hn => hsegments n (List.mem_append_left _ hn)
      rw [makeAlong, run_get_bind] at h
      cases hnode : fs.root.find? (done ++ [name]) with
      | some node =>
          rw [hnode] at h
          cases node with
          | file => cases h
          | directory a es => exact ih hsegments h
      | none =>
          rw [hnode] at h
          dsimp only at h
          rw [EStateM.run_bind] at h
          split at h
          · rename_i t hrun
            rcases ih hsegments h with hthere | hway
            · rw [kindAt_makeDirectory hrun, hpath] at hthere
              split at hthere
              · rename_i hplace
                exact .inr (hplace ▸ List.prefix_append _ _)
              · exact .inl hthere
            · exact .inr hway
          · cases h

/-- After a directory and those above it have been made, the directories are those that were there and
those on the way to it. -/
theorem kindAt_makeDirectories_iff {fs : FileSystem} {path : String}
    (h : (makeDirectories path permissions owner).run fs = .ok () later) :
    later.kindAt place = some true ↔
      place <+: Path.segments path ∨ fs.kindAt place = some true := by
  constructor
  · intro hkind
    exact (of_kindAt_makeAlong (Path.segments path)
      (fun _ hname => Path.isSegment_of_mem_segments (by simpa using hname)) h hkind).symm
  · rintro (hway | hthere)
    · exact FileSystem.kindAt_of_prefix hway (kindAt_makeDirectories h)
    · exact FileSystem.kindAt_of_reaches ((makeDirectories_grows fs path permissions owner).of_run h)
        hthere

end Edit

namespace RemoteSession

theorem segments_baseOf (user : String) :
    Path.segments (baseOf user) = Path.segments (root ++ "/" ++ user) ++ ["filesystem"] := by
  have hname : Path.IsSegment "filesystem" := by decide
  have hbase : baseOf user = root ++ "/" ++ user ++ "/" ++ "filesystem" := by
    simp [baseOf, String.append_assoc]
  rw [hbase, Path.segments_append_name _ hname]

theorem baseOf_injective {user other : String} (h : baseOf user = baseOf other) : user = other := by
  have hlist := congrArg String.toList h
  simp only [baseOf, String.toList_append, List.append_assoc, List.append_cancel_left_eq,
    List.append_cancel_right_eq] at hlist
  exact String.toList_injective hlist

/-- What a user sees on other machines lies strictly below the place that is kept for them exactly if
the name of the user does not lead away from that place. -/
theorem below_root_iff (user : String) :
    (Path.isWithin (baseOf user) root = true ∧
        Path.segments (baseOf user) ≠ Path.segments root) ↔
      Path.isWithin (root ++ "/" ++ user) root = true := by
  have hroot : Path.segments root = ["remotes"] := by decide
  rw [Path.isWithin_iff, Path.isWithin_iff, segments_baseOf, hroot]
  cases hplace : Path.segments (root ++ "/" ++ user) with
  | nil => simp
  | cons name rest => simp

theorem isWithin_of_isSegment {user : String} (h : Path.IsSegment user) :
    Path.isWithin (root ++ "/" ++ user) root = true := by
  rw [Path.isWithin_iff, Path.segments_append_name _ h]
  exact List.prefix_append _ _

end RemoteSession

/-- Whether the files and the session on another machine are the same. -/
def World.Stands (w v : World) : Prop := v.fs = w.fs ∧ v.remote = w.remote

/-- Whether commands see no directory of another machine afterwards, or the same one as before, which
is there if it was there before, or begin to see one. What is there then was there before or is the
home that is made, and nothing else if all is `quiet`. -/
inductive World.Ventures (quiet : Prop) (w v : World) : Prop
  | home (h : v.viewBase = none)
  | stay (hsame : v.viewBase = w.viewBase) (hsees : v.CanSee v.viewBase ↔ w.CanSee v.viewBase)
  | out {user : String} (hhome : w.viewBase = none)
      (hout : v.viewBase = some (RemoteSession.baseOf user))
      (hthere : Remote.IsHoused user ∨ w.CanSee (some (RemoteSession.baseOf user)) →
        v.CanSee (some (RemoteSession.baseOf user)))
      (hnothing : quiet → v.CanSee (some (RemoteSession.baseOf user)) →
        Remote.IsHoused user ∨ w.CanSee (some (RemoteSession.baseOf user)))

/-- Whether a world goes on with the same session on another machine and with the directory that
commands see there; if they see all files, none of them is lost, and all are the same if all is
`quiet`. -/
structure World.Trails (quiet : Prop) (base : Option String) (w v : World) : Prop where
  remote : v.remote = w.remote
  watches : World.Watches base w v
  grows : base = none → Reaches IsGrowth w.fs v.fs
  quiet : quiet → base = none → v.fs = w.fs

variable {quiet : Prop} {base : Option String} {w v u : World}

namespace World

theorem canSee_congr (h : v.fs = w.fs) (base : Option String) : v.CanSee base ↔ w.CanSee base := by
  cases base with
  | none => exact Iff.rfl
  | some path => rw [CanSee, CanSee, h]

theorem viewBase_congr (h : v.remote = w.remote) : v.viewBase = w.viewBase := by
  rw [viewBase, viewBase, h]

theorem lasting_stands : Lasting Stands :=
  ⟨fun _ => ⟨rfl, rfl⟩, fun h h' => ⟨h'.1.trans h.1, h'.2.trans h.2⟩⟩

theorem lasting_trails (quiet : Prop) (base : Option String) : Lasting (Trails quiet base) where
  refl w := ⟨rfl, id, fun _ => (lasting_reaches IsGrowth).refl w.fs, fun _ _ => rfl⟩
  trans h h' := ⟨h'.remote.trans h.remote, h'.watches ∘ h.watches,
    fun hbase => (lasting_reaches IsGrowth).trans (h.grows hbase) (h'.grows hbase),
    fun hquiet hbase => (h'.quiet hquiet hbase).trans (h.quiet hquiet hbase)⟩

theorem Stands.ventures (h : Stands w v) : Ventures quiet w v :=
  .stay (viewBase_congr h.2) (canSee_congr h.1 _)

theorem Stands.trails (h : Stands w v) : Trails quiet base w v :=
  ⟨h.2, .of_fs h.1, fun _ => h.1 ▸ (lasting_reaches IsGrowth).refl w.fs, fun _ _ => h.1⟩

theorem Stands.trans_ventures (h : Stands w v) (h' : Ventures quiet v u) : Ventures quiet w u := by
  have hsees := canSee_congr h.1
  have hbase := viewBase_congr h.2
  cases h' with
  | home hhome => exact .home hhome
  | stay hsame hsees' => exact .stay (hsame.trans hbase) (hsees'.trans (hsees _))
  | out hhome hout hthere hnothing =>
      rw [hsees] at hthere hnothing
      exact .out (hbase.symm.trans hhome) hout hthere hnothing

theorem Ventures.trans_stands (h : Ventures quiet w v) (h' : Stands v u) : Ventures quiet w u := by
  have hsees := canSee_congr h'.1
  have hbase := viewBase_congr h'.2
  cases h with
  | home hhome => exact .home (hbase.trans hhome)
  | stay hsame hsees' =>
      refine .stay (hbase.trans hsame) ?_
      rw [hbase, hsees, hsees']
  | out hhome hout hthere hnothing =>
      rw [← hsees] at hthere hnothing
      exact .out hhome (hbase.trans hout) hthere hnothing

/-- What follows where commands have gone leaves it at that. -/
theorem Ventures.trans_trails (h : Ventures quiet w v) (hbase : w.viewBase = base)
    (hbefore : w.CanSee base) (hafter : v.CanSee base) (h' : Trails quiet base v u) :
    Ventures quiet w u := by
  have hview := viewBase_congr h'.remote
  cases h with
  | home hhome => exact .home (hview.trans hhome)
  | stay hsame hsees =>
      have hsame : u.viewBase = w.viewBase := hview.trans hsame
      refine .stay hsame (iff_of_true ?_ ?_)
      · rw [hsame, hbase]
        exact h'.watches hafter
      · rwa [hsame, hbase]
  | out hhome hout hthere hnothing =>
      have hnone : base = none := hbase.symm.trans hhome
      refine .out hhome (hview.trans hout)
        (fun h => Watches.of_grows (h'.grows hnone) (hthere h)) fun hquiet hsees => ?_
      rw [canSee_congr (h'.quiet hquiet hnone)] at hsees
      exact hnothing hquiet hsees

/-- To see the same directory as before is to go nowhere. -/
theorem Abides.ventures (h : Abides w v) (hbase : w.viewBase = base) (hbefore : w.CanSee base)
    (hwatches : Watches base w v) : Ventures quiet w v := by
  refine .stay h (iff_of_true ?_ ?_)
  · rw [h, hbase]
    exact hwatches hbefore
  · rwa [h, hbase]

end World

theorem Step.look_stands : Leads World.Stands (look base) w := look_leads World.lasting_stands

/-- A look that does not fail sees. -/
theorem Step.canSee_of_look {fs : FileSystem} (h : (look base).run w = .ok fs v) :
    w.CanSee base :=
  canSee_iff.2 ⟨fs, (run_look_eq_ok_iff.1 h).1⟩

/-- Output that is sent to a file takes nothing away. -/
theorem Step.onView_trails {line : Redirection} (hquiet : quiet → line.target? = none)
    (ctx : Context) (o : Outcome) (said : Option String) :
    Leads (World.Trails quiet base) (onView base (line.applyTo ctx o said)) w := by
  have hwatches : World.Watches base w (left ((onView base (line.applyTo ctx o said)).run w)) :=
    onView_watches _
  have hremote : Leads (fun w v => v.remote = w.remote) (onView base (line.applyTo ctx o said)) w := by
    cases base with
    | none => rfl
    | some path =>
        rw [Leads, run_onView_some]
        cases w.fs.view path <;> rfl
  refine ⟨hremote, hwatches, ?_, ?_⟩
  · rintro rfl
    exact Redirection.applyTo_grows line ctx o said w.fs
  · rintro h rfl
    have hsame := Redirection.applyTo_snd line ctx o said w.fs
    rw [hquiet h] at hsame
    exact hsame

/-- What begins with a look goes on where the directory can be seen. -/
theorem Step.look_bind_ventures {α : Type} {f : FileSystem → Step α} (hbase : w.viewBase = base)
    (h : ∀ fs v, v.viewBase = base → v.CanSee base → Leads (World.Ventures quiet) (f fs) v) :
    Leads (World.Ventures quiet) (look base >>= f) w :=
  .bind_into World.Stands.ventures World.Stands.trans_ventures look_stands fun fs v hlook =>
    have hstands := look_stands.of_run hlook
    h fs v ((World.viewBase_congr hstands.2).trans hbase)
      ((World.canSee_congr hstands.1 base).2 (canSee_of_look hlook))

theorem Screens.close_ventures (screen : Screen) (resolution : Resolution) (ctx : Context)
    (hbase : w.viewBase = base) :
    Leads (World.Ventures quiet) (close screen resolution ctx base) w := by
  refine Step.look_bind_ventures hbase fun _ v hv hsees => ?_
  dsimp only
  split
  · refine World.Abides.ventures (Leads.bind World.lasting_abides (Step.onView_abides _) ?_) hv hsees
      (Leads.bind (World.lasting_watches base) (Step.onView_watches _) ?_)
    · exact fun failure x _ => by cases failure <;> exact .pure World.lasting_abides _ x
    · exact fun failure x _ => by cases failure <;> exact .pure (World.lasting_watches base) _ x
  · exact World.Stands.ventures ⟨rfl, rfl⟩

namespace Remote

variable {hosts : List String} {ctx : Context} {words : List String}

/-- The directory that `ssh` begins to show is there exactly if it was there before or the home that
is made lies in it. -/
theorem runSsh_ventures : Leads (World.Ventures quiet) (runSsh hosts ctx words) w := by
  have hstands : World.Ventures quiet w w := (World.lasting_stands.refl w).ventures
  refine .get_bind ?_
  split
  · exact hstands
  · exact hstands
  · rename_i target rest hwords hremote
    have hnone : w.viewBase = none := by rw [World.viewBase, hremote]; rfl
    dsimp only
    refine .ite (fun _ => hstands) fun hknown => ?_
    generalize (if (splitUser target).1 = "" then ctx.username else (splitUser target).1) = user
    rw [Leads, EStateM.run_bind, Step.run_edit]
    cases hmade : (Edit.makeDirectories (RemoteSession.baseOf user ++ Path.home user)
        Permissions.newDirectory (some user)).run w.fs with
    | error e fs => exact .home hnone
    | ok made fs =>
        have hthere : World.CanSee { w with fs } (some (RemoteSession.baseOf user)) ↔
            IsHoused user ∨ w.CanSee (some (RemoteSession.baseOf user)) :=
          Edit.kindAt_makeDirectories_iff hmade
        exact .out hnone rfl hthere.2 fun _ => hthere.1

theorem runExit_ventures : Leads (World.Ventures quiet) runExit w := by
  refine .get_bind ?_
  split
  · exact (World.lasting_stands.refl w).ventures
  · exact .home rfl

end Remote

namespace Dispatch

variable {hosts : List String} {ctx : Context} {input : Option String} {words : List String}

theorem session?_ventures {name : String} {step : Step Result} (hbase : w.viewBase = base)
    (hsees : w.CanSee base) (h : session? hosts ctx base name words = some step) :
    Leads (World.Ventures quiet) step w := by
  have hR := World.lasting_abides
  have hwatches := session?_watches (w := w) h
  have habides (hstep : Leads World.Abides step w) : Leads (World.Ventures quiet) step w :=
    World.Abides.ventures hstep hbase hsees hwatches
  cases session?_cases h with
  | ssh => exact .map Remote.runSsh_ventures
  | scp => exact habides (.map Remote.runScp_abides)
  | pager => exact habides (onScreen_leads hR _)
  | editor => exact habides (onScreen_leads hR _)
  | env => exact habides rfl
  | exports => exact habides rfl
  | unset => exact habides rfl
  | history => exact habides (.map (runHistory_leads hR fun _ => rfl))
  | exit => exact .bind_pure Remote.runExit_ventures

/-- Words that are run where their directory can be seen go to another machine, stay on it, leave it,
or stay at home. -/
theorem run_ventures (hbase : w.viewBase = base) (hsees : w.CanSee base) :
    Leads (World.Ventures quiet) (run hosts ctx base input words) w := by
  have hfiles {words : List String} :
      Leads (World.Ventures quiet) (onFiles ctx base input words) w :=
    World.Abides.ventures onFiles_abides hbase hsees onFiles_watches
  unfold run
  dsimp only
  split
  · exact hfiles
  · rename_i name arguments _
    cases hsession : session? hosts ctx base name arguments with
    | none => exact hfiles
    | some step => exact session?_ventures hbase hsees hsession

end Dispatch

end PracticeShell
