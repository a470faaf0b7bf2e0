import PracticeShell.Proofs.Command.Removing
import PracticeShell.Proofs.Guard
import PracticeShell.Proofs.Session.Inputs
import PracticeShell.Proofs.Session.Lines

/-!
# What is asked before something vital is lost

A command line overlooks a place if it takes the place away, or one above it, and the guard heeds none
of the operands that do so. A line that does not overlook a place either is answered by a warning, and
nothing has happened yet, or leaves the place alone, whatever input and password follow.
-/

namespace PracticeShell

open FileTree Run

namespace Session

/-- What the guard knows of a session. -/
def situation (s : Session) : Guard.Situation where
  directory := s.world.context.directory
  username := s.world.context.username
  critical := match s.adventure? with
    | some a => a.criticalPaths
    | none => []
  fs := some s.world.fs

/-- The command line that a session reads from a text, if there is one, after its text with variables
replaced. -/
def read? (s : Session) (text : String) : Option (String × CommandLine) :=
  let text := Text.Blank.trim (withoutLineEnd text)
  let expanded := s.world.environment.expand text
  if text = "" then none
  else
    match Redirection.parse expanded with
    | .error _ => none
    | .ok redirection =>
      let line : CommandLine := ⟨text, Words.split redirection.command, redirection⟩
      if line.words.isEmpty then none else some (expanded, line)

/-- Whether the words of a line take a place away, or one above it, by an operand. -/
def Takes (s : Session) (words : List String) (place : List String) (operand : String) : Prop :=
  operand ∈ Command.taken s.world.context s.world.fs words ∧
    Path.segments (s.world.context.resolve operand) <+: place

/-- Whether a text is a command line that takes a place away, or one above it, only by operands that
the guard does not heed. -/
def Overlooks (s : Session) (text : String) (place : List String) : Prop :=
  ∃ expanded line, s.read? text = some (expanded, line) ∧
    (∃ operand, s.Takes line.words place operand) ∧
      ∀ operand, s.Takes line.words place operand → ¬ s.situation.Heeds line.words operand

/-- Whether a text is answered by a warning that has to be confirmed, while nothing but the history,
the mode and the journal has changed. -/
def IsAsked (s : Session) (text : String) : Prop :=
  ∃ response line warning history journal,
    (submit text).run s = .ok response { s with
      world := { s.world with history, mode := .confirming line warning s.world.context }
      journal } ∧
      response.intent = some (.confirm line.text warning)

/-- Takes further lines for as long as a command line waits for input or a password. -/
def follow : List String → Action Unit
  | [] => return ()
  | text :: rest => do
    if (← get).world.mode.pending?.isSome then
      let _ ← submit text
      follow rest

/-- Carries a text through: confirms it if there is a warning, and gives it what it waits for. -/
def carry (text : String) (inputs : List String) : Action Unit := do
  let _ ← submit text
  match (← get).world.mode with
  | .confirming .. => do let _ ← resolve .confirmed
  | _ => pure ()
  follow inputs

variable {place : List String} {s : Session} {text : String}

/-- What the guard answers while no session on another machine is open. -/
theorem run_guard (hconfirms : s.options.confirms = true) (hremote : s.world.remote = none)
    (expanded : String) :
    (guard expanded s.world.context).run s = .ok (Guard.inspect s.situation expanded) s := by
  have hbase : s.world.viewBase = none := by rw [World.viewBase, hremote]; rfl
  unfold guard
  change (if (!s.options.confirms) = true then _ else _ : Action _).run s = _
  rw [if_neg (by simp [hconfirms]), hbase]
  rfl

/-- If no warnings are wanted, there are none. -/
theorem run_guard_of_not_confirms (h : s.options.confirms = false) (expanded : String)
    (ctx : Context) : (guard expanded ctx).run s = .ok none s := by
  unfold guard
  rw [run_get_bind, h]
  rfl

theorem run_guard_of_inspect {expanded : String} (hremote : s.world.remote = none)
    (h : Guard.inspect s.situation expanded = none) :
    (guard expanded s.world.context).run s = .ok none s := by
  cases hconfirms : s.options.confirms with
  | true => rw [run_guard hconfirms hremote, h]
  | false => exact run_guard_of_not_confirms hconfirms expanded s.world.context

theorem run_submit_normal (hmode : s.world.mode = .normal) :
    (submit text).run s = (submitCommand (withoutLineEnd text)).run s := by
  unfold submit
  rw [run_get_bind, hmode]

theorem run_submit_password {line : CommandLine} {input said : Option String}
    (hmode : s.world.mode = .password line input said) :
    (submit text).run s = (submitPassword (withoutLineEnd text) line input said).run s := by
  unfold submit
  rw [run_get_bind, hmode]

theorem run_submit_collecting {line : CommandLine} {marker : String} {lines : List String}
    (hmode : s.world.mode = .collecting line marker lines) :
    (submit text).run s = (submitInput (withoutLineEnd text) line marker lines).run s := by
  unfold submit
  rw [run_get_bind, hmode]

/-- While something is shown or asked, a line does nothing. -/
theorem submit_rests_of_intent? (h : s.intent?.isSome) : Leads Rests (submit text) s := by
  refine .get_bind ?_
  unfold intent? at h
  cases hmode : s.world.mode with
  | confirming line warning ctx => exact lasting_rests.refl s
  | showing screen ctx command => exact lasting_rests.refl s
  | normal => simp [hmode, Mode.intent?] at h
  | collecting line marker lines => simp [hmode, Mode.intent?] at h
  | password line input said => simp [hmode, Mode.intent?] at h

/-- What is read from a text. -/
theorem of_read? {expanded : String} {line : CommandLine}
    (h : s.read? text = some (expanded, line)) :
    line.text = Text.Blank.trim (withoutLineEnd text) ∧ line.text ≠ "" ∧
      expanded = s.world.environment.expand line.text ∧
      Redirection.parse expanded = .ok line.redirection ∧
      line.words = Words.split line.redirection.command ∧ line.words.isEmpty = false := by
  unfold read? at h
  dsimp only at h
  split at h
  · exact absurd h nofun
  · rename_i htext
    split at h
    · exact absurd h nofun
    · rename_i redirection hparse
      split at h
      · exact absurd h nofun
      · rename_i hwords
        obtain ⟨rfl, rfl⟩ := Prod.mk.inj (Option.some.inj h)
        exact ⟨rfl, htext, rfl, hparse, rfl, by simpa using hwords⟩

/-- A session in which a line has been noted in the history. -/
def remembering (s : Session) (text : String) : Session :=
  { s with world := s.world.remember text s.options.historyLimit }

/-- What a session does about a warning before a line is run. -/
def warn (s : Session) (line : CommandLine) (warning : Guard.Warning) : Action Response := do
  setMode (.confirming line warning s.world.context)
  note (.warning warning.level .prompted)
  respond fun prompt => { prompt, intent := some (.confirm line.text warning) }

/-- A command line is remembered, shown to the guard, and run or asked about as the guard says. -/
theorem run_submit_of_read {expanded : String} {line : CommandLine}
    (hread : s.read? text = some (expanded, line)) (hmode : s.world.mode = .normal) :
    (submit text).run s = (do
      match ← guard expanded s.world.context with
      | some warning => warn s line warning
      | none => runLine line s.world.context).run (s.remembering line.text) := by
  obtain ⟨htext, hne, hexpanded, hparse, hwords, hempty⟩ := of_read? hread
  obtain ⟨command, words, redirection⟩ := line
  dsimp only at htext hne hexpanded hparse hwords hempty ⊢
  subst hwords
  rw [run_submit_normal hmode]
  unfold submitCommand
  rw [← htext]
  dsimp only
  rw [if_neg hne, run_modify_bind, run_get_bind, ← remembering]
  rw [show (s.remembering command).world.environment = s.world.environment from rfl, ← hexpanded,
    hparse]
  dsimp only
  rw [hempty, if_neg Bool.false_ne_true, run_get_bind]
  rw [show (s.remembering command).world.context = s.world.context from rfl]
  refine run_bind_congr fun answer t _ => ?_
  cases answer <;> rfl

/-- A command line is run, or asked about if the guard warns. -/
theorem run_submit_of_guard {expanded : String} {line : CommandLine} {answer : Option Guard.Warning}
    (hread : s.read? text = some (expanded, line)) (hmode : s.world.mode = .normal) :
    (guard expanded s.world.context).run (s.remembering line.text) =
      .ok answer (s.remembering line.text) →
    (submit text).run s = match answer with
      | some warning => (warn s line warning).run (s.remembering line.text)
      | none => (runLine line s.world.context).run (s.remembering line.text) := by
  intro hguard
  rw [run_submit_of_read hread hmode, run_bind_of_ok hguard]
  cases answer <;> rfl

/-- The guard warns by what it knows of the session. -/
theorem run_submit_of_read? {expanded : String} {line : CommandLine}
    (hread : s.read? text = some (expanded, line)) (hconfirms : s.options.confirms = true)
    (hremote : s.world.remote = none) (hmode : s.world.mode = .normal) :
    (submit text).run s = match Guard.inspect s.situation expanded with
      | some warning => (warn s line warning).run (s.remembering line.text)
      | none => (runLine line s.world.context).run (s.remembering line.text) := by
  have hguard := run_guard (s := s.remembering line.text) hconfirms hremote expanded
  rw [show (s.remembering line.text).world.context = s.world.context from rfl,
    show (s.remembering line.text).situation = s.situation from rfl] at hguard
  generalize Guard.inspect s.situation expanded = answer at hguard ⊢
  exact run_submit_of_guard hread hmode hguard

theorem remembering_keeps (s : Session) (text : String) : Keeps place s (s.remembering text) :=
  ⟨(lasting_stays place).refl s.world.fs, rfl, rfl, rfl, id⟩

/-- A text that is no command line is passed over, or remembered and ended at once. -/
theorem run_submit_of_not_read (hread : s.read? text = none) (hmode : s.world.mode = .normal) :
    (submit text).run s = (respond fun prompt => { prompt }).run s ∨
      ∃ o, (submit text).run s = (finish (Text.Blank.trim (withoutLineEnd text)) o none false).run
        (s.remembering (Text.Blank.trim (withoutLineEnd text))) := by
  rw [run_submit_normal hmode]
  unfold read? at hread
  dsimp only at hread
  unfold submitCommand
  dsimp only
  split
  · exact .inl rfl
  · rename_i htext
    rw [if_neg htext] at hread
    refine .inr ?_
    rw [run_modify_bind, run_get_bind, ← remembering]
    rw [show (s.remembering (Text.Blank.trim (withoutLineEnd text))).world.environment =
      s.world.environment from rfl]
    split
    · exact ⟨_, rfl⟩
    · rename_i redirection hparse
      rw [hparse] at hread
      dsimp only at hread
      split at hread
      · rename_i hwords
        rw [if_pos hwords]
        exact ⟨_, rfl⟩
      · cases hread

/-- A text that is no command line takes nothing away. -/
theorem submit_keeps_of_read? (hread : s.read? text = none) (hmode : s.world.mode = .normal) :
    Leads (Keeps place) (submit text) s := by
  rcases run_submit_of_not_read hread hmode with hrun | ⟨o, hrun⟩
  · rw [Leads, hrun]
    exact (respond_rests _).weaken Rests.keeps
  · rw [Leads, hrun]
    exact (lasting_keeps place).trans (remembering_keeps s _) (finish_keeps _ _ _)

/-- A line that does not overlook a place where there is something is asked about, or leaves it
alone. -/
theorem submit_asked_or_passes (hconfirms : s.options.confirms = true)
    (hremote : s.world.remote = none) (hmode : s.world.mode = .normal)
    (hthere : (s.world.fs.faceAt place).isSome) (h : ¬ s.Overlooks text place) :
    s.IsAsked text ∨ Leads (Passes place) (submit text) s := by
  cases hread : s.read? text with
  | none => exact .inr ((submit_keeps_of_read? hread hmode).weaken Keeps.passes)
  | some read =>
      obtain ⟨expanded, line⟩ := read
      have hrun := run_submit_of_read? hread hconfirms hremote hmode
      obtain ⟨-, -, -, hparse, hwords, -⟩ := of_read? hread
      cases hwarning : Guard.inspect s.situation expanded with
      | some warning =>
          rw [hwarning] at hrun
          exact .inl ⟨_, line, warning, _, _, hrun, rfl⟩
      | none =>
          rw [hwarning] at hrun
          -- nothing that takes the place away is heeded, since the guard would have warned
          have hnot : ∀ operand, ¬ s.Takes line.words place operand := by
            intro operand htakes
            refine h ⟨expanded, line, hread, ⟨operand, htakes⟩, fun other hother hheeds => ?_⟩
            have hsome : (Guard.inspect s.situation expanded).isSome :=
              Guard.inspect_of_heeds rfl (by rw [Guard.commandWords_of_parse hparse, ← hwords])
                hheeds hthere hother.2
            rw [hwarning] at hsome
            exact absurd hsome Bool.false_ne_true
          refine .inr ?_
          rw [Leads, hrun]
          exact (remembering_keeps s line.text).trans_passes
            (runLine_passes hremote fun operand hoperand habove => hnot operand ⟨hoperand, habove⟩)

/-- Whether there is something at a place if there was something before. -/
def LeavesAlone (place : List String) (s t : Session) : Prop := Stays place s.world.fs t.world.fs

theorem Goes.leavesAlone {t : Session} (h : Goes place s t) : LeavesAlone place s t := h.stays

theorem Passes.leavesAlone {t : Session} (h : Passes place s t) : LeavesAlone place s t := h.stays

theorem Goes.trans_leavesAlone {t u : Session} (h : Goes place s t) (h' : LeavesAlone place t u) :
    LeavesAlone place s u := (lasting_stays place).trans h.stays h'

theorem Passes.trans_leavesAlone {t u : Session} (h : Passes place s t)
    (h' : LeavesAlone place t u) : LeavesAlone place s u := (lasting_stays place).trans h.stays h'

/-- What follows a line takes no more than what the session waits for. -/
theorem follow_leavesAlone (inputs : List String) (hspares : Spares place s) :
    Leads (LeavesAlone place) (follow inputs) s := by
  have hS := lasting_stays place
  induction inputs generalizing s with
  | nil => exact hS.refl s.world.fs
  | cons text rest ih =>
      refine .get_bind (.ite (fun hpending => ?_) fun _ => hS.refl s.world.fs)
      obtain ⟨words, hwords⟩ := Option.isSome_iff_exists.1 hpending
      have hgoes := submit_goes_of_pending hwords hspares text
      exact .bind_into Goes.leavesAlone Goes.trans_leavesAlone hgoes
        fun _ t hrun => ih (hgoes.of_run hrun).spares

/-- A line that does not overlook a place where there is something is asked about, or leaves it alone
when it is carried through. -/
theorem carry_asked_or_stays (hconfirms : s.options.confirms = true)
    (hremote : s.world.remote = none) (hmode : s.world.mode = .normal)
    (hthere : (s.world.fs.faceAt place).isSome) (h : ¬ s.Overlooks text place)
    (inputs : List String) :
    s.IsAsked text ∨ Leads (LeavesAlone place) (carry text inputs) s := by
  rcases submit_asked_or_passes hconfirms hremote hmode hthere h with hasked | hpasses
  · exact .inl hasked
  · refine .inr (.bind_into Passes.leavesAlone Passes.trans_leavesAlone hpasses
      fun _ t hrun => .get_bind ?_)
    have hcalm : s.world.mode.IsCalm := by rw [hmode]; trivial
    have ht := hpasses.of_run hrun
    split
    · rename_i line warning ctx hconfirming
      exact absurd hconfirming (ht.unasked hcalm line warning ctx)
    · exact follow_leavesAlone inputs (ht.spares hcalm)

end Session

/-- Whether an input neither confirms a warning nor starts over, and is no command line that overlooks
a place. -/
def Input.IsCareful (place : List String) (s : Session) : Input → Prop
  | line text => s.world.mode = .normal → ¬ s.Overlooks text place
  | question text => Session.Question.read? text ≠ some .reset
  | answer resolution => resolution ≠ .confirmed
  | reset => False
  | _ => True

namespace Session

variable {place : List String} {s : Session} {text : String}

/-- Whether all inputs are careful when they come, and no session on another machine is open then. -/
def IsCareful (place : List String) (s : Session) : List Input → Prop
  | [] => True
  | i :: inputs =>
    s.world.remote = none ∧ i.IsCareful place s ∧ IsCareful place (s.next i) inputs

theorem Spares.tick (h : Spares place s) (seconds : Int) :
    Spares place { s with world := s.world.tick seconds } := by
  intro words hwords
  obtain ⟨hremote, htaken⟩ := h words hwords
  refine ⟨hremote, fun operand hoperand => htaken operand ?_⟩
  rw [World.tick, Command.taken_at] at hoperand
  exact hoperand

/-- What a careful input leaves alone. -/
theorem next_goes {i : Input} (hconfirms : s.options.confirms = true)
    (hremote : s.world.remote = none) (hthere : (s.world.fs.faceAt place).isSome)
    (hspares : Spares place s) (hi : i.IsCareful place s) : Goes place s (s.next i) := by
  have hkeep : ∀ {t}, Rests s t → Goes place s t := fun h => h.goes hspares
  -- an input does nothing but what it stands for, whose answer is dropped
  have hdrop : ∀ {α : Type} {action : Action α}, Leads (Goes place) action s →
      Leads (Goes place) (do let _ ← action : Action Unit) s := fun h => by
    rwa [Leads, left_discard]
  cases i with
  | line text =>
      refine hdrop ?_
      cases hpending : s.world.mode.pending? with
      | some words => exact submit_goes_of_pending hpending hspares text
      | none =>
          cases hmode : s.world.mode with
          | normal =>
              rcases submit_asked_or_passes hconfirms hremote hmode hthere (hi hmode) with
                ⟨response, line, warning, history, journal, hrun, -⟩ | hpasses
              · rw [Leads, hrun]
                exact ⟨(lasting_stays place).refl s.world.fs, rfl, rfl, rfl,
                  by simp [Spares, Mode.pending?]⟩
              · exact hpasses.weaken fun h => h.goes (by rw [hmode]; trivial)
          | confirming line warning ctx =>
              exact (submit_rests_of_intent? (by rw [intent?, hmode]; rfl)).weaken hkeep
          | showing screen ctx command =>
              exact (submit_rests_of_intent? (by rw [intent?, hmode]; rfl)).weaken hkeep
          | collecting line marker lines => simp [hmode, Mode.pending?] at hpending
          | password line input said => simp [hmode, Mode.pending?] at hpending
  | question text => exact hdrop ((ask_rests hi).weaken hkeep)
  | answer resolution => exact hdrop (resolve_goes hi hremote hspares)
  | hint level => exact hdrop ((hint_rests level).weaken hkeep)
  | reset => exact hi.elim
  | close => exact close_rests.weaken hkeep
  | tick seconds => exact ⟨fun h => h, rfl, rfl, rfl, hspares.tick seconds⟩

/-- What careful inputs leave alone. -/
theorem after_stays {inputs : List Input} (hconfirms : s.options.confirms = true)
    (hthere : (s.world.fs.faceAt place).isSome) (hspares : Spares place s)
    (h : s.IsCareful place inputs) : ((s.after inputs).world.fs.faceAt place).isSome := by
  induction inputs generalizing s with
  | nil => exact hthere
  | cons i inputs ih =>
      obtain ⟨hremote, hi, hrest⟩ := h
      have hgoes := next_goes hconfirms hremote hthere hspares hi
      exact ih (by rw [hgoes.options]; exact hconfirms) (hgoes.stays hthere) hgoes.spares hrest

/-- What `sudo` does before there is a password. -/
theorem run_dispatch_superuser {ctx : Context} (hctx : ctx.elevated = false) (input : Option String)
    {words : List String} (hwords : words ≠ []) (s : Session) :
    (dispatch ctx none input ("sudo" :: words)).run s =
      .ok (.of { needsPassword := true, pending := words }) s := by
  have hname : Command.ofName? "sudo" = some .superuser := by decide
  have hexecute : Command.execute ctx input ("sudo" :: words) s.world.fs =
      ({ needsPassword := true, pending := words }, s.world.fs) := by
    rw [Command.execute_superuser ctx words input hname, hctx, if_neg (by simpa using hwords)]
    rfl
  have hrun : (Dispatch.run s.options.remoteHosts ctx none input ("sudo" :: words)).run s.world =
      .ok (.of { needsPassword := true, pending := words }) s.world := by
    unfold Dispatch.run
    rw [hctx, if_neg Bool.false_ne_true]
    change (Dispatch.onFiles ctx none input ("sudo" :: words)).run s.world = _
    rw [Dispatch.run_onFiles_none, hexecute]
  unfold dispatch
  rw [run_get_bind, run_step, hrun]

theorem run_readInput_of_none {line : CommandLine} (heffect : line.redirection.effect = .none)
    (ctx : Context) (base otherwise : Option String) (s : Session) :
    (readInput line ctx base otherwise).run s = .ok (.ok otherwise) s := by
  unfold readInput
  rw [heffect]
  rfl

/-- A session that waits for the password that some words need. -/
def awaiting (s : Session) (line : CommandLine) (words : List String) : Session :=
  { s with world := { s.world with mode := .password { line with words } none none } }

theorem run_runLine_superuser {line : CommandLine} {words : List String}
    (hremote : s.world.remote = none) (heffect : line.redirection.effect = .none)
    (hline : line.words = "sudo" :: words) (hwords : words ≠ []) :
    ∃ response, (runLine line s.world.context).run s = .ok response (s.awaiting line words) := by
  have hbase : s.world.viewBase = none := by rw [World.viewBase, hremote]; rfl
  have hctx : s.world.context.elevated = false := by rw [World.context, hremote]
  have hback : line.words ≠ ["cd", "-"] := by simp [hline]
  unfold runLine
  rw [heffect]
  dsimp only
  rw [run_get_bind, hbase, run_bind_of_ok (run_look_none s),
    run_bind_of_ok (run_readInput_of_none heffect _ _ _ s)]
  dsimp only
  rw [run_get_bind, lacksPrevious, if_neg (by simp [hback])]
  have hdispatch : (dispatchOrGoBack line s.world.context none none).run s =
      .ok (.of { needsPassword := true, pending := words }) s := by
    unfold dispatchOrGoBack
    rw [run_get_bind]
    dsimp only
    rw [if_neg (by simp [hback]), hline, run_dispatch_superuser hctx none hwords]
  rw [run_bind_of_ok hdispatch]
  exact ⟨_, rfl⟩

theorem finish_fs (line : String) (o : Outcome) (leaves : Bool) {intent : Option Intent} :
    Leads (fun s t => t.world.fs = s.world.fs) (finish line o intent leaves) s := by
  have hR : Lasting fun s t : Session => t.world.fs = s.world.fs :=
    ⟨fun _ => rfl, fun h h' => h'.trans h⟩
  refine .bind hR (.modify rfl) fun _ t _ => ?_
  refine .bind hR ((note_rests _).weaken fun h => by rw [h.world]) fun _ u _ => ?_
  exact .bind hR ((checkTasks_rests line o).weaken fun h => by rw [h.world]) fun _ v _ =>
    .get_bind (.pure hR _ v)

/-- The files that `rm` leaves behind are those that a session goes on with. -/
theorem run_dispatch_rm (ctx : Context) (input : Option String) (words : List String) (s : Session) :
    ∃ t, (dispatch ctx none input ("rm" :: words)).run s =
        .ok (.of (Command.execute ctx input ("rm" :: words) s.world.fs).1) t ∧
      t.world.fs = (Command.execute ctx input ("rm" :: words) s.world.fs).2 := by
  have hrun : (Dispatch.run s.options.remoteHosts ctx none input ("rm" :: words)).run s.world =
      (Dispatch.onFiles ctx none input ("rm" :: words)).run s.world := by
    unfold Dispatch.run
    rw [List.dropWhile_cons_of_neg (by decide), ite_self]
    rfl
  unfold dispatch
  rw [run_get_bind, run_step, hrun, Dispatch.run_onFiles_none]
  refine ⟨_, rfl, ?_⟩
  dsimp only
  split
  · unfold World.changeDirectory
    split <;> rfl
  · rfl

theorem complete_fs {line : CommandLine} (heffect : line.redirection.effect = .none) (o : Outcome)
    (runner writer : Context) (said : Option String) :
    Leads (fun s t => t.world.fs = s.world.fs) (complete line (.of o) runner writer none said) s := by
  have htarget : line.redirection.target? = none := by rw [Redirection.target?, heffect]
  have happly : line.redirection.applyTo writer o said s.world.fs = (o, s.world.fs) := by
    unfold Redirection.applyTo
    rw [htarget]
    rfl
  have hrun : (step (Step.onView none (line.redirection.applyTo writer o said))).run s = .ok o s := by
    rw [run_step, Step.run_onView_none, happly]
  exact .bind_same hrun (finish_fs _ _ _)

/-- Once the password is given, the files are those that `rm` leaves behind. -/
theorem submitPassword_fs {line : CommandLine} {words : List String}
    (hremote : s.world.remote = none) (heffect : line.redirection.effect = .none)
    (hwords : line.words = "rm" :: words) :
    (left ((submitPassword s.options.password line none none).run s)).world.fs =
      (Command.execute s.world.context.elevate none line.words s.world.fs).2 := by
  have hbase : s.world.viewBase = none := by rw [World.viewBase, hremote]; rfl
  have hnormal : ∀ t : Session, t.world.fs = s.world.fs →
      Leads (fun _ u => u.world.fs =
          (Command.execute s.world.context.elevate none line.words s.world.fs).2)
        (do
          let r ← dispatch s.world.context.elevate none none line.words
          complete line r s.world.context.elevate s.world.context none none) t := by
    intro t ht
    obtain ⟨u, hrun, hu⟩ := run_dispatch_rm s.world.context.elevate none words t
    rw [Leads, hwords, run_bind_of_ok hrun, ← ht, ← hu]
    exact complete_fs heffect _ _ _ _
  unfold submitPassword setMode note
  rw [run_modify_bind, run_get_bind]
  dsimp only
  rw [if_neg (fun h => h rfl), run_modify_bind]
  rw [show ({ s.world with mode := .normal } : World).viewBase = s.world.viewBase from rfl, hbase,
    run_bind_of_ok (run_look_none _), run_bind_of_ok (run_readInput_of_none heffect _ _ _ _)]
  exact hnormal _ rfl

theorem submit_awaiting_fs {line : CommandLine} {words : List String}
    (hremote : s.world.remote = none) (heffect : line.redirection.effect = .none) {password : String}
    (hpassword : withoutLineEnd password = s.options.password) :
    (left ((submit password).run (s.awaiting line ("rm" :: words)))).world.fs =
      (Command.execute s.world.context.elevate none ("rm" :: words) s.world.fs).2 := by
  have hmode : (s.awaiting line ("rm" :: words)).world.mode =
      .password { line with words := "rm" :: words } none none := rfl
  rw [run_submit_password hmode, hpassword]
  exact submitPassword_fs (s := s.awaiting line ("rm" :: words)) hremote heffect rfl

/-- Whether a text removes a place, or one above it, with `sudo rm -r`, while there is nothing at the
paths that are typed. -/
def SlipsThrough (s : Session) (text : String) (place : List String) : Prop :=
  ∃ expanded line words args operand, s.read? text = some (expanded, line) ∧
    line.words = "sudo" :: "rm" :: words ∧ line.redirection.effect = .none ∧
    Arguments.parse (.flagsOnly "rRf") words = .ok args ∧ args.has ['r', 'R'] = true ∧
    (∀ typed ∈ Guard.operandsOf words, s.world.fs.contains (s.world.context.resolve typed) = false) ∧
    s.Takes line.words place operand ∧ Path.segments (s.world.context.resolve operand) ≠ []

/-- What slips through is lost without a question once the password is given. -/
theorem carry_of_slipsThrough (hconfirms : s.options.confirms = true)
    (hremote : s.world.remote = none) (hmode : s.world.mode = .normal)
    (h : s.SlipsThrough text place) {password : String}
    (hpassword : withoutLineEnd password = s.options.password) :
    ¬ s.IsAsked text ∧ (left ((carry text [password]).run s)).world.fs.faceAt place = none := by
  obtain ⟨expanded, line, words, args, operand, hread, hwords, heffect, hparse, hrecursive, hnothing,
    ⟨hoperand, habove⟩, hroot⟩ := h
  obtain ⟨-, -, -, hredirection, hsplit, -⟩ := of_read? hread
  have hsilent : Guard.inspect s.situation expanded = none := by
    have hcommand : Guard.withoutSudo line.words = "rm" :: words := by
      rw [hwords]
      rfl
    refine Guard.inspect_of_nothing ?_ hcommand (.inl rfl) ?_ rfl hnothing
    · rw [Guard.commandWords_of_parse hredirection, ← hsplit]
    · refine Guard.inspectOutput_of_parse hredirection fun operand => ?_
      rw [heffect]
      nofun
  obtain ⟨response, hline⟩ := run_runLine_superuser (s := s.remembering line.text) hremote heffect
    hwords (by simp)
  have hsubmit := run_submit_of_read? hread hconfirms hremote hmode
  rw [hsilent] at hsubmit
  replace hsubmit := hsubmit.trans hline
  constructor
  · rintro ⟨response, asked, warning, history, journal, hrun, -⟩
    rw [hsubmit] at hrun
    have hmodes := congrArg (·.world.mode) (EStateM.Result.ok.inj hrun).2
    exact absurd hmodes nofun
  · rw [hwords, Command.taken_superuser, ← Command.taken_elevate] at hoperand
    have hgone : (Command.execute s.world.context.elevate none ("rm" :: words) s.world.fs).2.faceAt
        place = none :=
      Command.execute_rm_removes _ rfl hparse hrecursive hoperand habove hroot none
    have hfs : (left ((submit password).run ((s.remembering line.text).awaiting line
        ("rm" :: words)))).world.fs = (Command.execute (s.remembering line.text).world.context.elevate
          none ("rm" :: words) (s.remembering line.text).world.fs).2 :=
      submit_awaiting_fs (s := s.remembering line.text) hremote heffect hpassword
    change _ = (Command.execute s.world.context.elevate none ("rm" :: words) s.world.fs).2 at hfs
    rw [← hfs] at hgone
    unfold carry
    rw [run_bind_of_ok hsubmit, run_get_bind]
    change (left ((follow [password]).run _)).world.fs.faceAt place = none
    unfold follow
    have hpending : ((s.remembering line.text).awaiting line
        ("rm" :: words)).world.mode.pending?.isSome = true := rfl
    rw [run_get_bind, if_pos hpending, EStateM.run_bind]
    split <;> rename_i hrun <;> rw [hrun] at hgone <;> exact hgone

/-- A vital place is lost only by a line that was asked about or that overlooks it. So it stays as
long as no warning is confirmed and no line overlooks it. What slips through is lost without a
question. Among the operands that can take the place away the guard heeds those that it looks at, if
the name of the user is a segment of a path. -/
theorem vital_places_stay_unless_overlooked (hconfirms : s.options.confirms = true)
    (hremote : s.world.remote = none) (hmode : s.world.mode = .normal)
    (hvital : s.situation.IsVital place) (hthere : (s.world.fs.faceAt place).isSome) :
    (∀ text inputs, (left ((carry text inputs).run s)).world.fs.faceAt place = none →
      s.IsAsked text ∨ s.Overlooks text place) ∧
    (∀ inputs, s.IsCareful place inputs → ((s.after inputs).world.fs.faceAt place).isSome) ∧
    (∀ text password, s.SlipsThrough text place → withoutLineEnd password = s.options.password →
      ¬ s.IsAsked text ∧ (left ((carry text [password]).run s)).world.fs.faceAt place = none) ∧
    (Path.IsSegment s.world.username → ∀ words operand,
      Path.segments (s.world.context.resolve operand) <+: place →
      (s.situation.Heeds words operand ↔ operand ∈ Guard.seen words)) := by
  refine ⟨fun text inputs hlost => ?_, fun inputs hcareful => ?_, fun text password hslips => ?_,
    fun huser words operand habove => ?_⟩
  · by_cases hoverlooks : s.Overlooks text place
    · exact .inr hoverlooks
    · refine (carry_asked_or_stays hconfirms hremote hmode hthere hoverlooks inputs).imp_right
        fun hstays => ?_
      have hlater := hstays hthere
      rw [hlost] at hlater
      exact absurd hlater Bool.false_ne_true
  · exact after_stays hconfirms hthere (.of_isCalm (by rw [hmode]; trivial)) hcareful
  · exact carry_of_slipsThrough hconfirms hremote hmode hslips
  · have husername : s.situation.username = s.world.username := by
      rw [situation, World.context, hremote]
    exact Guard.Situation.heeds_iff_mem_seen (by rwa [husername]) hvital habove words

/-- A warning about `/home` keeps a home that lies there. -/
theorem home_stays_after_warning :
    justBegun.options.confirms = true ∧ justBegun.world.remote = none ∧
      justBegun.world.mode = .normal ∧ justBegun.situation.IsVital ["home", "ada"] ∧
      (justBegun.world.fs.faceAt ["home", "ada"]).isSome ∧
      ((justBegun.after [.line "rm -r /home"]).world.fs.faceAt ["home", "ada"]).isSome := by
  have hvital : justBegun.situation.IsVital ["home", "ada"] := ⟨"/home/ada", by decide, by decide⟩
  refine ⟨rfl, rfl, rfl, hvital, rfl, ?_⟩
  refine (vital_places_stay_unless_overlooked rfl rfl rfl hvital rfl).2.1 _ ⟨rfl, fun _ => ?_, trivial⟩
  rintro ⟨expanded, line, hread, ⟨operand, htakes⟩, hheeds⟩
  have hline : justBegun.read? "rm -r /home" = some ("rm -r /home",
    ⟨"rm -r /home", ["rm", "-r", "/home"], ⟨"rm -r /home", .none⟩⟩) := by decide +kernel
  obtain ⟨rfl, rfl⟩ := Prod.mk.inj (Option.some.inj (hline.symm.trans hread))
  have htaken : Command.taken ⟨"/home/ada", "ada", false⟩ homeOfAda ["rm", "-r", "/home"] =
      ["/home"] := by decide +kernel
  obtain rfl : operand = "/home" := by
    have hoperand := htakes.1
    rw [context_justBegun, fs_justBegun, htaken] at hoperand
    simpa using hoperand
  exact hheeds "/home" htakes ⟨by decide, .inl (by decide)⟩

theorem expandOne_home : Operands.expandOne ⟨"/home/ada", "ada", false⟩ homeOfAda "/home/a*" =
    ["/home/ada"] := by
  have hpattern : Text.Glob.isPattern "/home/a*" = true := by decide
  have hsplit : Operands.splitPattern "/home/a*" = ("/home", "a*") := by decide
  have hresolve : Context.resolve ⟨"/home/ada", "ada", false⟩ "/home" = "/home" := by decide
  have hnames : homeOfAda.names "/home" = .ok ["ada"] := rfl
  have hsorted : Operands.sorted (["ada"].filter (Operands.isMatch "a*")) = ["ada"] := by decide +kernel
  have hjoin : Path.join "/home" "ada" = "/home/ada" := by decide
  simp [Operands.expandOne, hpattern, hsplit, hresolve, hnames, hsorted, hjoin]

/-- A pattern that matches the home slips through, and the home is lost. -/
theorem home_slips_through :
    start ⟨"ada", "lab", "secret", [], true, 0⟩ none none true 0 = .ok justBegun ∧
      justBegun.options.confirms = true ∧ justBegun.world.remote = none ∧
      justBegun.world.mode = .normal ∧ justBegun.situation.IsVital ["home", "ada"] ∧
      (justBegun.world.fs.faceAt ["home", "ada"]).isSome ∧
      ¬ justBegun.IsAsked "sudo rm -r /home/a*" ∧
      (left ((carry "sudo rm -r /home/a*" ["secret"]).run justBegun)).world.fs.faceAt
        ["home", "ada"] = none := by
  refine ⟨start_justBegun, rfl, rfl, rfl, ⟨"/home/ada", by decide, by decide⟩, rfl, ?_⟩
  have hread : justBegun.read? "sudo rm -r /home/a*" = some ("sudo rm -r /home/a*",
      ⟨"sudo rm -r /home/a*", ["sudo", "rm", "-r", "/home/a*"],
        ⟨"sudo rm -r /home/a*", .none⟩⟩) := by decide +kernel
  have hparse : Arguments.parse (.flagsOnly "rRf") ["-r", "/home/a*"] =
      .ok ⟨['r'], [], ["/home/a*"], none⟩ := rfl
  have htyped : Guard.operandsOf ["-r", "/home/a*"] = ["/home/a*"] := by decide +kernel
  have hname : Command.ofName? "rm" = some .rm := by decide
  have htaken : Command.taken ⟨"/home/ada", "ada", false⟩ homeOfAda
      ["sudo", "rm", "-r", "/home/a*"] = ["/home/ada"] := by
    rw [Command.taken_superuser, Command.taken, hname]
    dsimp only
    rw [Command.takenBy, hparse]
    simp [Operands.expand, expandOne_home]
  refine carry_of_slipsThrough rfl rfl rfl ⟨_, _, ["-r", "/home/a*"], _, "/home/ada", hread, rfl, rfl,
    hparse, by decide, ?_, ⟨?_, ?_⟩, ?_⟩ (by decide +kernel)
  · rw [htyped, context_justBegun, fs_justBegun]
    decide
  · rw [context_justBegun, fs_justBegun, htaken]
    simp
  · rw [context_justBegun]
    decide
  · rw [context_justBegun]
    decide

end Session

end PracticeShell
