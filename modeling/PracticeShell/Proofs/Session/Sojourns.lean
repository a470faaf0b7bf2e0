import PracticeShell.Proofs.Session.Elevation
import PracticeShell.Proofs.Session.Visiting

/-!
# Staying on another machine

Whatever happens to a session, the directory that it sees on another machine is there exactly if it
was there when the session went to that machine (`Session.base_stays`).
-/

namespace PracticeShell

open Run

namespace Session

variable {quiet : Prop} {base : Option String} {s t u : Session}

/-- Whether the files and the session on another machine are the same. -/
def Stands (s t : Session) : Prop := s.world.Stands t.world

/-- Where commands go when something happens to a session. -/
def Ventures (quiet : Prop) (s t : Session) : Prop := World.Ventures quiet s.world t.world

/-- Whether a directory that can be seen before can be seen afterwards. -/
def Watches (base : Option String) (s t : Session) : Prop := World.Watches base s.world t.world

/-- Whether nothing is taken away where commands have gone. -/
def Trails (quiet : Prop) (base : Option String) (s t : Session) : Prop :=
  World.Trails quiet base s.world t.world

theorem lasting_stands : Lasting Stands :=
  ⟨fun s => World.lasting_stands.refl s.world, World.lasting_stands.trans⟩

theorem lasting_watches (base : Option String) : Lasting (Watches base) :=
  lasting_invariant fun s : Session => s.world.CanSee base

theorem lasting_trails (quiet : Prop) (base : Option String) : Lasting (Trails quiet base) :=
  ⟨fun s => (World.lasting_trails quiet base).refl s.world, (World.lasting_trails quiet base).trans⟩

theorem Rests.stands (h : Rests s t) : Stands s t := by
  rw [Stands, h.world]
  exact World.lasting_stands.refl s.world

theorem Stands.ventures (h : Stands s t) : Ventures quiet s t := World.Stands.ventures h

theorem Stands.trans_ventures (h : Stands s t) (h' : Ventures quiet t u) : Ventures quiet s u :=
  World.Stands.trans_ventures h h'

theorem Ventures.trans_stands (h : Ventures quiet s t) (h' : Stands t u) : Ventures quiet s u :=
  World.Ventures.trans_stands h h'

theorem ventures_refl (s : Session) : Ventures quiet s s := (lasting_stands.refl s).ventures

/-- What stands first leaves it to the rest. -/
theorem bind_ventures {α β : Type} {x : Action α} {f : α → Action β} (hx : Leads Stands x s)
    (hf : ∀ a t, x.run s = .ok a t → Stands s t → Leads (Ventures quiet) (f a) t) :
    Leads (Ventures quiet) (x >>= f) s :=
  .bind_into Stands.ventures Stands.trans_ventures hx fun a t hrun => hf a t hrun (hx.of_run hrun)

/-- What only notes and answers leaves it to the rest. -/
theorem rests_bind_ventures {α β : Type} {x : Action α} {f : α → Action β} (hx : Leads Rests x s)
    (hf : ∀ a t, t.world = s.world → Leads (Ventures quiet) (f a) t) :
    Leads (Ventures quiet) (x >>= f) s :=
  bind_ventures (hx.weaken Rests.stands) fun a t hrun _ => hf a t (hx.of_run hrun).world

/-- What stands last leaves it at that. -/
theorem ventures_bind {α β : Type} {x : Action α} {f : α → Action β}
    (hx : Leads (Ventures quiet) x s) (hf : ∀ a t, Leads Stands (f a) t) :
    Leads (Ventures quiet) (x >>= f) s :=
  .bind_onto Ventures.trans_stands hx fun a t _ => hf a t

theorem setMode_stands (mode : Mode) : Leads Stands (setMode mode) s := .modify ⟨rfl, rfl⟩

theorem finish_stands (line : String) (o : Outcome) (intent : Option Intent) (leaves : Bool) :
    Leads Stands (finish line o intent leaves) s := by
  rw [Leads, Stands, world_finish]
  exact ⟨rfl, rfl⟩

theorem awaitPassword_stands (line : CommandLine) (o : Outcome) (input said : Option String) :
    Leads Stands (awaitPassword line o input said) s :=
  .bind lasting_stands (setMode_stands _) fun _ _ _ => (respond_rests _).weaken Rests.stands

/-- The end of a command takes nothing away. -/
theorem complete_trails {line : CommandLine} (hquiet : quiet → line.redirection.target? = none)
    (r : Dispatch.Result) (runner writer : Context) (said : Option String) :
    Leads (Trails quiet base) (complete line r runner writer base said) s := by
  have hR := lasting_trails quiet base
  have hrest : ∀ t, Leads (Trails quiet base) (do
      let o ← step (Step.onView base (line.redirection.applyTo writer r.outcome said))
      finish line.text o (r.screen.map Intent.screen) r.leaves) t := fun t =>
    .bind hR (step_leads (Step.onView_trails hquiet _ _ _)) fun o v _ =>
      (finish_stands _ _ _ _).weaken World.Stands.trails
  unfold complete
  dsimp only
  split
  · exact .bind hR ((setMode_stands _).weaken World.Stands.trails) fun _ t _ => hrest t
  · exact hrest s

section Dispatched

variable {α : Type} {action : Action α} (hbase : s.world.viewBase = base)
  (hsees : s.world.CanSee base) (hventures : Leads (Ventures quiet) action s)
  (hwatches : Leads (Watches base) action s)

include hbase hsees hventures hwatches

/-- What follows a command that is run where its directory can be seen leaves it where it has gone. -/
theorem then_ventures {β : Type} {f : α → Action β}
    (h : ∀ a t, Leads (Trails quiet base) (f a) t) : Leads (Ventures quiet) (action >>= f) s := by
  have hruns : Leads (fun s t => Ventures quiet s t ∧ Watches base s t) action s :=
    ⟨hventures, hwatches⟩
  have hends := Leads.bind_onto (fun hst htu => ⟨World.Ventures.trans_trails hst.1 hbase hsees
    (hst.2 hsees) htu, htu.watches ∘ hst.2⟩) hruns fun a t _ => h a t
  exact hends.1

end Dispatched

section Dispatch

variable (hbase : s.world.viewBase = base) (hsees : s.world.CanSee base) (ctx : Context)
  (input : Option String)

theorem dispatch_watches (words : List String) :
    Leads (Watches base) (dispatch ctx base input words) s :=
  .get_bind (step_leads Dispatch.run_watches)

theorem dispatchOrGoBack_watches (line : CommandLine) :
    Leads (Watches base) (dispatchOrGoBack line ctx base input) s := by
  have hR := lasting_watches base
  refine .get_bind (.ite (fun _ => ?_) fun _ => dispatch_watches _ _ _)
  refine .bind hR (dispatch_watches _ _ _) fun r t _ => ?_
  exact .ite (fun _ => .pure hR _ t) fun _ => .pure hR _ t

include hbase hsees

theorem dispatch_ventures (words : List String) :
    Leads (Ventures quiet) (dispatch ctx base input words) s :=
  .get_bind (step_leads (Dispatch.run_ventures hbase hsees))

theorem dispatchOrGoBack_ventures (line : CommandLine) :
    Leads (Ventures quiet) (dispatchOrGoBack line ctx base input) s := by
  have hR := lasting_trails quiet base
  refine .get_bind (.ite (fun _ => ?_) fun _ => dispatch_ventures hbase hsees _ _ _)
  refine then_ventures hbase hsees (dispatch_ventures hbase hsees _ _ _) (dispatch_watches _ _ _)
    fun r t => ?_
  exact .ite (fun _ => .pure hR _ t) fun _ => .pure hR _ t

end Dispatch

/-- What is run where its directory can be seen leads on, up to the question for a password. -/
theorem dispatched_ventures {action : Action Dispatch.Result} {line : CommandLine}
    (hbase : s.world.viewBase = base) (hsees : s.world.CanSee base)
    (hventures : Leads (Ventures quiet) action s) (hwatches : Leads (Watches base) action s)
    (hquiet : quiet → line.redirection.target? = none) (runner writer : Context)
    (input said : Option String) : Leads (Ventures quiet) (do
      let r ← action
      if r.outcome.needsPassword then awaitPassword line r.outcome input said
      else complete line r runner writer base said) s :=
  then_ventures hbase hsees hventures hwatches fun r _ => .ite
    (fun _ => (awaitPassword_stands _ _ _ _).weaken World.Stands.trails)
    fun _ => complete_trails hquiet r runner writer said

/-- What begins with a look goes on where the directory can be seen. -/
theorem look_bind_ventures {β : Type} {f : FileSystem → Action β}
    (h : ∀ fs, s.world.CanSee base → Leads (Ventures quiet) (f fs) s) :
    Leads (Ventures quiet) (step (Step.look base) >>= f) s := by
  refine bind_ventures (step_leads Step.look_stands) fun fs t hrun _ => ?_
  rw [run_step] at hrun
  cases hlook : (Step.look base).run s.world with
  | error e w => simp [hlook] at hrun
  | ok seen w =>
      have hsees := Step.canSee_of_look hlook
      obtain ⟨-, rfl⟩ := Step.run_look_eq_ok_iff.1 hlook
      rw [hlook] at hrun
      cases hrun
      exact h fs hsees

section Line

variable {line : CommandLine} (hquiet : quiet → line.redirection.target? = none)

include hquiet

theorem runLine_ventures (ctx : Context) : Leads (Ventures quiet) (runLine line ctx) s := by
  unfold runLine
  split
  · exact bind_ventures (setMode_stands _) fun _ _ _ _ => (respond_rests _).stands.ventures
  · refine .get_bind (look_bind_ventures fun _ hsees => ?_)
    refine rests_bind_ventures (readInput_rests _ _ _ _) fun answer t hworld => ?_
    cases answer with
    | error problem => exact (finish_stands _ _ _ _).ventures
    | ok input =>
        refine .get_bind (.ite (fun _ => (finish_stands _ _ _ _).ventures) fun _ => ?_)
        rw [← hworld] at hsees ⊢
        exact dispatched_ventures rfl hsees (dispatchOrGoBack_ventures rfl hsees _ _ _)
          (dispatchOrGoBack_watches _ _ _) hquiet _ _ _ _

theorem submitPassword_ventures (text : String) (input said : Option String) :
    Leads (Ventures quiet) (submitPassword text line input said) s := by
  refine bind_ventures (setMode_stands _) fun _ t _ _ => .get_bind (.ite (fun _ => ?_) fun _ => ?_)
  · exact rests_bind_ventures (note_rests _) fun _ _ _ => (finish_stands _ _ _ _).ventures
  · refine rests_bind_ventures (note_rests _) fun _ u hnoted => ?_
    dsimp only
    rw [← hnoted]
    refine look_bind_ventures fun _ hsees => ?_
    refine rests_bind_ventures (readInput_rests _ _ _ _) fun answer v hworld => ?_
    cases answer with
    | error problem => exact (finish_stands _ _ _ _).ventures
    | ok input =>
        rw [← hworld] at hsees ⊢
        exact then_ventures rfl hsees (dispatch_ventures rfl hsees _ _ _) (dispatch_watches _ _ _)
          fun r _ => complete_trails hquiet _ _ _ _

theorem submitInput_ventures (text marker : String) (lines : List String) :
    Leads (Ventures quiet) (submitInput text line marker lines) s := by
  refine .ite (fun _ => ?_) fun _ => ?_
  · exact bind_ventures (setMode_stands _) fun _ _ _ _ => (respond_rests _).stands.ventures
  · refine bind_ventures (setMode_stands _) fun _ t _ _ => .get_bind ?_
    refine look_bind_ventures fun _ hsees => ?_
    exact dispatched_ventures rfl hsees (dispatch_ventures rfl hsees _ _ _) (dispatch_watches _ _ _)
      hquiet _ _ _ _

end Line

/-- The command line that an input carries out, unless it is held back. -/
def runs? (s : Session) : Input → Option CommandLine
  | .line text =>
    match s.world.mode with
    | .normal => (s.read? text).map (·.2)
    | .collecting line .. | .password line .. => some line
    | _ => none
  | .answer _ =>
    match s.world.mode with
    | .confirming line .. => some line
    | _ => none
  | _ => none

theorem submitCommand_ventures {text : String}
    (hquiet : quiet → ∀ read, s.read? text = some read → read.2.redirection.target? = none) :
    Leads (Ventures quiet) (submitCommand (withoutLineEnd text)) s := by
  unfold submitCommand
  dsimp only
  refine .ite (fun _ => (respond_rests _).stands.ventures) fun htext => ?_
  refine bind_ventures (.modify ⟨rfl, rfl⟩) fun _ t hnoted hstands => .get_bind ?_
  have henvironment : t.world.environment = s.world.environment := by
    cases hnoted
    rfl
  rw [henvironment]
  cases hparse : Redirection.parse (s.world.environment.expand
      (Text.Blank.trim (withoutLineEnd text))) with
  | error problem => exact (finish_stands _ _ _ _).ventures
  | ok redirection =>
      refine .ite (fun _ => (finish_stands _ _ _ _).ventures) fun hwords => .get_bind ?_
      have hread := read?_of_parse htext hparse (by simpa using hwords)
      refine rests_bind_ventures (guard_rests _ _) fun warning u _ => ?_
      cases warning with
      | none => exact runLine_ventures (fun h => hquiet h _ hread) _
      | some warning =>
          exact bind_ventures (setMode_stands _) fun _ _ _ _ =>
            rests_bind_ventures (note_rests _) fun _ _ _ => (respond_rests _).stands.ventures

theorem submit_ventures {text : String}
    (hquiet : quiet → ∀ line, s.runs? (.line text) = some line → line.redirection.target? = none) :
    Leads (Ventures quiet) (submit text) s := by
  refine .get_bind ?_
  cases hmode : s.world.mode with
  | normal =>
      refine submitCommand_ventures fun h read hread => hquiet h read.2 ?_
      rw [runs?, hmode]
      dsimp only
      rw [hread]
      rfl
  | password line input said =>
      exact submitPassword_ventures (fun h => hquiet h line (by rw [runs?, hmode])) _ _ _
  | collecting line marker lines =>
      exact submitInput_ventures (fun h => hquiet h line (by rw [runs?, hmode])) _ _ _
  | confirming line warning ctx => exact ventures_refl s
  | showing screen ctx command => exact ventures_refl s

theorem resolve_ventures {resolution : Resolution}
    (hquiet : quiet → ∀ line, s.runs? (.answer resolution) = some line →
      line.redirection.target? = none) :
    Leads (Ventures quiet) (resolve resolution) s := by
  refine .get_bind ?_
  cases hmode : s.world.mode with
  | confirming line warning ctx =>
      refine bind_ventures (setMode_stands _) fun _ t _ _ => .ite (fun _ => ?_) fun _ => ?_
      · exact rests_bind_ventures (note_rests _) fun _ _ _ =>
          runLine_ventures (fun h => hquiet h line (by rw [runs?, hmode])) _
      · exact rests_bind_ventures (note_rests _) fun _ _ _ => (respond_rests _).stands.ventures
  | showing screen ctx command =>
      refine bind_ventures (setMode_stands _) fun _ t _ _ => .get_bind ?_
      exact ventures_bind (step_leads (Screens.close_ventures _ _ _ rfl)) fun _ _ =>
        finish_stands _ _ _ _
  | normal => exact ventures_refl s
  | collecting line marker lines => exact ventures_refl s
  | password line input said => exact ventures_refl s

theorem reset_ventures : Leads (Ventures quiet) reset s := by
  cases hstart : startWorld s.options s.adventure? s.world.now with
  | error e =>
      rw [Leads, reset, run_get_bind, hstart]
      exact ventures_refl s
  | ok w =>
      rw [Leads, run_reset hstart]
      refine .home ?_
      rw [left_ok, World.viewBase, remote_startWorld hstart]
      rfl

theorem ask_ventures (text : String) : Leads (Ventures quiet) (ask text) s := by
  by_cases hreset : Question.read? text = some .reset
  · refine .get_bind ?_
    rw [hreset]
    split
    · rename_i question hmode hread
      cases hread
      exact ventures_bind (ventures_bind reset_ventures fun _ _ => (respond_rests _).stands)
        fun _ u => .pure lasting_stands _ u
    · exact ventures_refl s
  · exact (ask_rests hreset).stands.ventures

/-- Where commands go with an input. -/
theorem next_ventures {i : Input}
    (hquiet : quiet → ∀ line, s.runs? i = some line → line.redirection.target? = none) :
    Ventures quiet s (s.next i) := by
  unfold next
  cases i with
  | line text =>
      unfold Input.act
      rw [left_discard]
      exact submit_ventures hquiet
  | question text =>
      unfold Input.act
      rw [left_discard]
      exact ask_ventures text
  | answer resolution =>
      unfold Input.act
      rw [left_discard]
      exact resolve_ventures hquiet
  | hint level =>
      unfold Input.act
      rw [left_discard]
      exact (hint_rests level).stands.ventures
  | reset => exact reset_ventures
  | close => exact close_rests.stands.ventures
  | tick seconds =>
      refine .stay rfl ?_
      cases s.world.viewBase <;> exact Iff.rfl

/-- Whether an input goes to the files of a user on another machine. They are there afterwards if they
were there before or the home of the user lies in them, and only then if the output of the line goes
to no file. -/
structure GoesOut (s : Session) (i : Input) (user : String) : Prop where
  home : s.world.remote = none
  out : (s.next i).world.viewBase = some (RemoteSession.baseOf user)
  there : Remote.IsHoused user ∨ s.world.CanSee (some (RemoteSession.baseOf user)) →
    (s.next i).world.CanSee (some (RemoteSession.baseOf user))
  nothing : (∀ line, s.runs? i = some line → line.redirection.target? = none) →
    (s.next i).world.CanSee (some (RemoteSession.baseOf user)) →
      Remote.IsHoused user ∨ s.world.CanSee (some (RemoteSession.baseOf user))

/-- While a session is on another machine, one of the inputs has gone there, and since then it has been
the same for what is seen there to be there. -/
theorem after_goesOut (h : s.world.remote = none) {inputs : List Input} {user : String}
    (hbase : (s.after inputs).world.viewBase = some (RemoteSession.baseOf user)) :
    ∃ before i later, inputs = before ++ i :: later ∧ (s.after before).GoesOut i user ∧
      ((s.after inputs).world.CanSee (some (RemoteSession.baseOf user)) ↔
        (s.after (before ++ [i])).world.CanSee (some (RemoteSession.baseOf user))) := by
  -- From the last input back to the one that has gone out: those after it stay.
  induction inputs using List.reverseRecOn with
  | nil =>
      rw [after_nil, World.viewBase, h] at hbase
      cases hbase
  | append_singleton inputs j ih =>
      have hnext : Ventures (∀ line, (s.after inputs).runs? j = some line →
          line.redirection.target? = none) (s.after inputs) ((s.after inputs).next j) :=
        next_ventures fun hquiet => hquiet
      rw [after_concat] at hbase ⊢
      cases hnext with
      | home hhome =>
          rw [hhome] at hbase
          cases hbase
      | stay hsame hsees =>
          rw [hbase] at hsame hsees
          obtain ⟨before, i, later, rfl, hout, hsince⟩ := ih hsame.symm
          exact ⟨before, i, later ++ [j], by simp, hout, hsees.trans hsince⟩
      | out hhome hout hthere hnothing =>
          rw [hbase] at hout
          obtain rfl := RemoteSession.baseOf_injective (Option.some.inj hout)
          refine ⟨inputs, j, [], rfl, ⟨?_, hbase, hthere, hnothing⟩, ?_⟩
          · exact Option.map_eq_none_iff.1 hhome
          · rw [after_concat]

/-- In every state in which a session is on another machine, what it sees there lies strictly below the
place of other machines exactly if the name of its user does not lead away from that place, and is
there exactly if it was there after the input that has gone to the machine: if it was there before
that input or the home of the user lies in it, and only then if the output of the line has not been
sent to a file. For users whose names are names of files both hold. -/
theorem visits_see_their_files {o : SessionOptions} {a : Option Adventure}
    {store : Option ProgressStore} {resume : Bool} {now : Int}
    (hstart : start o a store resume now = .ok s) {inputs : List Input} {r : RemoteSession}
    (hremote : (s.after inputs).world.remote = some r) :
    ((Path.isWithin r.base RemoteSession.root = true ∧
        Path.segments r.base ≠ Path.segments RemoteSession.root) ↔
      Path.isWithin (RemoteSession.root ++ "/" ++ r.user) RemoteSession.root = true) ∧
    (∃ before i later, inputs = before ++ i :: later ∧ (s.after before).GoesOut i r.user ∧
      ((s.after inputs).world.CanSee (some r.base) ↔
        (s.after (before ++ [i])).world.CanSee (some r.base))) ∧
    (Path.IsSegment r.user →
      Path.isWithin (RemoteSession.root ++ "/" ++ r.user) RemoteSession.root = true ∧
        (s.after inputs).world.CanSee (some r.base)) := by
  obtain ⟨tracker, w, -, hworld, rfl⟩ := start_eq_ok_iff.1 hstart
  have hbase : (Session.after _ inputs).world.viewBase = some (RemoteSession.baseOf r.user) :=
    congrArg (Option.map RemoteSession.base) hremote
  obtain ⟨before, i, later, hinputs, hout, hsince⟩ := after_goesOut (remote_startWorld hworld) hbase
  refine ⟨RemoteSession.below_root_iff r.user, ⟨before, i, later, hinputs, hout, hsince⟩,
    fun hname => ⟨RemoteSession.isWithin_of_isSegment hname, ?_⟩⟩
  refine hsince.2 ?_
  rw [after_concat]
  exact hout.there (.inl (Remote.isHoused_of_isSegment hname))

/-- A session that has just begun and knows another machine. -/
def connected : Session := { justBegun with options := ⟨"ada", "lab", "secret", ["lab"], false, 0⟩ }

theorem start_connected : start ⟨"ada", "lab", "secret", ["lab"], false, 0⟩ none none true 0 =
    .ok connected := by
  obtain ⟨tracker, w, htracker, hworld, hbegun⟩ := start_eq_ok_iff.1 start_justBegun
  refine start_eq_ok_iff.2 ⟨tracker, w, htracker, hworld, ?_⟩
  rw [connected, hbegun]

/-- A session on another machine that is still there after a directory is made. -/
theorem visit_sees_its_files :
    start ⟨"ada", "lab", "secret", ["lab"], false, 0⟩ none none true 0 = .ok connected ∧
    (connected.after [.line "ssh bob@lab", .line "mkdir notes"]).world.remote =
      some ⟨"lab", "bob", "/home/bob", 0⟩ ∧
    (connected.after [.line "ssh bob@lab", .line "mkdir notes"]).world.CanSee
      (some "/remotes/bob/filesystem") := by
  have hremote : (connected.after [.line "ssh bob@lab", .line "mkdir notes"]).world.remote =
      some ⟨"lab", "bob", "/home/bob", 0⟩ := by decide +kernel
  refine ⟨start_connected, hremote, ?_⟩
  exact ((visits_see_their_files start_connected hremote).2.2 (by decide)).2

/-- One user leads away from the place of other machines, and the home of another does not lie in what
the user sees, so that nothing is there to be seen. -/
theorem users_lead_astray :
    start ⟨"ada", "lab", "secret", ["lab"], false, 0⟩ none none true 0 = .ok connected ∧
    ((connected.after [.line "ssh ..@lab"]).world.viewBase = some "/remotes/../filesystem" ∧
      Path.isWithin "/remotes/../filesystem" RemoteSession.root = false) ∧
    (connected.after [.line "ssh ../..@lab"]).world.viewBase = some "/remotes/../../filesystem" ∧
    ∀ view, (connected.after [.line "ssh ../..@lab"]).world.fs.view "/remotes/../../filesystem" ≠
      .ok view := by
  refine ⟨start_connected, by decide +kernel, by decide +kernel, fun view hview => ?_⟩
  have hthere := FileSystem.view_eq_ok_iff.1 ⟨view, hview⟩
  have hmissing : (connected.after [.line "ssh ../..@lab"]).world.fs.kindAt
      (Path.segments "/remotes/../../filesystem") = none := by decide +kernel
  rw [hmissing] at hthere
  cases hthere

end Session

end PracticeShell
