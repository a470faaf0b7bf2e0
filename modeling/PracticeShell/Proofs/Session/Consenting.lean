import PracticeShell.Proofs.Run
import PracticeShell.Proofs.Session.Confirming

/-!
# Lines that wait for consent

A command line that is held back by a warning is kept as it was read, and is run from there once it is
confirmed: just as if there had been no warning, except for what the journal notes
(`Session.Resembles`). Any other answer leaves the session as it was before the line, which is only
remembered.
-/

namespace PracticeShell

open Run

/-- In the history a line comes last, after those that are still kept. -/
theorem World.history_remember (line : String) (limit : Int) (w : World) :
    ∃ forgotten, forgotten ++ (w.remember line limit).history = w.history ++ [line] ∧
      (forgotten ≠ [] → ((w.remember line limit).history.length : Int) = limit) := by
  refine ⟨_, List.take_append_drop _ _, fun hforgotten => ?_⟩
  have hextra : (if limit > 0 then (w.history ++ [line]).length - limit.toNat else 0) ≠ 0 := by
    intro hzero
    rw [hzero, List.take_zero] at hforgotten
    exact hforgotten rfl
  have hkept : (w.remember line limit).history.length = (w.history ++ [line]).length -
      (if limit > 0 then (w.history ++ [line]).length - limit.toNat else 0) := List.length_drop
  by_cases hlimit : limit > 0
  · rw [if_pos hlimit] at hextra hkept
    omega
  · rw [if_neg hlimit] at hextra
    exact absurd rfl hextra

/-- Whether a response is something else than a warning that holds a command line back. -/
def Response.Proceeds (r : Response) : Prop :=
  ∀ command warning, r.intent ≠ some (.confirm command warning)

namespace Session

/-- Whether two sessions are the same but for what their journals note, and for whether warnings are
wanted. -/
structure Resembles (s t : Session) : Prop where
  world : t.world = s.world
  tracker : t.tracker = s.tracker
  store : t.store = s.store
  startedAt : t.startedAt = s.startedAt
  isClosed : t.isClosed = s.isClosed
  options : ∃ confirms, t.options = { s.options with confirms }

variable {s t : Session}

namespace Resembles

variable (h : Resembles s t)

include h

theorem withWorld (w : World) : Resembles { s with world := w } { t with world := w } :=
  ⟨rfl, h.tracker, h.store, h.startedAt, h.isClosed, h.options⟩

theorem withJournal (journal journal' : Journal) :
    Resembles { s with journal } { t with journal := journal' } :=
  ⟨h.world, h.tracker, h.store, h.startedAt, h.isClosed, h.options⟩

theorem setMode (mode : Mode) : Resembles { s with world := { s.world with mode } }
    { t with world := { t.world with mode } } := by
  rw [h.world]
  exact h.withWorld _

theorem prompt : t.prompt = s.prompt := by
  obtain ⟨confirms, hoptions⟩ := h.options
  unfold Session.prompt
  rw [h.world, hoptions]

theorem remoteHosts : t.options.remoteHosts = s.options.remoteHosts := by
  obtain ⟨confirms, hoptions⟩ := h.options
  rw [hoptions]

end Resembles

section Mirrors

variable (h : Resembles s t)

include h

theorem step_resembles {α : Type} (operation : Step α) :
    Mirrors Eq Resembles Eq (step operation) (step operation) s t := by
  rw [Mirrors, run_step, run_step, h.world]
  cases operation.run s.world with
  | ok a w => exact .ok rfl (h.withWorld w)
  | error e w => exact .error rfl (h.withWorld w)

theorem respond_resembles (make : String → Response) :
    Mirrors Eq Resembles Eq (respond make) (respond make) s t := by
  refine .get_bind (.pure h ?_)
  rw [h.prompt]

theorem saveProgress_resembles : Mirrors Eq Resembles Eq saveProgress saveProgress s t := by
  refine .get_bind (.get_bind ?_)
  rw [h.tracker, h.store]
  split
  · refine .get_bind ?_
    rw [h.world]
    split
    · exact .modify ⟨h.world, h.tracker, rfl, h.startedAt, h.isClosed, h.options⟩ rfl
    · exact .throw h rfl
  · exact .pure h rfl

theorem checkTasks_resembles (line : String) (o : Outcome) :
    Mirrors Eq Resembles Eq (checkTasks line o) (checkTasks line o) s t := by
  have hseen : t.observe line o = s.observe line o := by
    unfold observe
    rw [h.world]
  refine .get_bind ?_
  rw [h.tracker]
  cases s.tracker with
  | none => exact .pure h rfl
  | some tracker =>
      dsimp only
      rw [hseen]
      have hrecorded : ∀ journal journal' tracker,
          Resembles { s with tracker, journal } { t with tracker, journal := journal' } :=
        fun _ _ _ => ⟨h.world, rfl, h.store, h.startedAt, h.isClosed, h.options⟩
      refine .set_bind ?_
      cases (tracker.record (s.observe line o)).1.fault with
      | some fault => exact .throw (hrecorded _ _ _) rfl
      | none =>
          refine .modify_bind (.ite Iff.rfl (fun _ => ?_) fun _ => .pure (hrecorded _ _ _) rfl)
          refine (saveProgress_resembles (hrecorded _ _ _)).bind fun _ _ u v _ _ _ huv => ?_
          exact .pure huv rfl

theorem finish_resembles (line : String) (o : Outcome) (intent : Option Intent) (leaves : Bool) :
    Mirrors Eq Resembles Eq (finish line o intent leaves) (finish line o intent leaves) s t := by
  refine .modify_bind (.modify_bind ?_)
  rw [h.world]
  refine (checkTasks_resembles ((h.withWorld _).withJournal _ _) line o).bind ?_
  rintro events _ u v - - rfl huv
  exact respond_resembles huv _

theorem awaitPassword_resembles (line : CommandLine) (o : Outcome) (input said : Option String) :
    Mirrors Eq Resembles Eq (awaitPassword line o input said) (awaitPassword line o input said) s t :=
  .modify_bind (respond_resembles (h.setMode _) _)

theorem complete_resembles (line : CommandLine) (r : Dispatch.Result) (runner writer : Context)
    (base said : Option String) : Mirrors Eq Resembles Eq (complete line r runner writer base said)
      (complete line r runner writer base said) s t := by
  have hrest : ∀ {s t intent}, Resembles s t → Mirrors Eq Resembles Eq (do
      let o ← step (Step.onView base (line.redirection.applyTo writer r.outcome said))
      finish line.text o intent r.leaves) (do
      let o ← step (Step.onView base (line.redirection.applyTo writer r.outcome said))
      finish line.text o intent r.leaves) s t := by
    intro s t intent h
    refine (step_resembles h _).bind ?_
    rintro o _ u v - - rfl huv
    exact finish_resembles huv _ _ _ _
  unfold complete
  cases r.screen with
  | none => exact hrest h
  | some screen => exact .modify_bind (hrest (h.setMode _))

theorem readInput_resembles (line : CommandLine) (ctx : Context) (base otherwise : Option String) :
    Mirrors Eq Resembles Eq (readInput line ctx base otherwise) (readInput line ctx base otherwise)
      s t := by
  unfold readInput
  split
  · refine (step_resembles h _).bind ?_
    rintro fs _ u v - - rfl huv
    exact .pure huv rfl
  · exact .pure h rfl

theorem dispatch_resembles (ctx : Context) (base input : Option String) (words : List String) :
    Mirrors Eq Resembles Eq (dispatch ctx base input words) (dispatch ctx base input words) s t := by
  refine .get_bind ?_
  rw [h.remoteHosts]
  exact step_resembles h _

theorem dispatchOrGoBack_resembles (line : CommandLine) (ctx : Context)
    (base input : Option String) : Mirrors Eq Resembles Eq (dispatchOrGoBack line ctx base input)
      (dispatchOrGoBack line ctx base input) s t := by
  refine .get_bind ?_
  rw [h.world]
  refine .ite Iff.rfl (fun _ => ?_) fun _ => dispatch_resembles h _ _ _ _
  refine (dispatch_resembles h _ _ _ _).bind ?_
  rintro r _ u v - - rfl huv
  exact .ite Iff.rfl (fun _ => .pure huv rfl) fun _ => .pure huv rfl

/-- A line is run in the same way, whatever the journal has noted, and whether or not warnings are
wanted. -/
theorem runLine_resembles (line : CommandLine) (ctx : Context) :
    Mirrors Eq Resembles Eq (runLine line ctx) (runLine line ctx) s t := by
  unfold runLine
  split
  · exact .modify_bind (respond_resembles (h.setMode _) _)
  · refine .get_bind ?_
    rw [h.world]
    refine (step_resembles h _).bind ?_
    rintro _ _ u v - - - huv
    refine (readInput_resembles huv _ _ _ _).bind ?_
    rintro answer _ x y - - rfl hxy
    cases answer with
    | error problem => exact finish_resembles hxy _ _ _ _
    | ok input =>
        refine .get_bind ?_
        rw [hxy.world]
        refine .ite Iff.rfl (fun _ => finish_resembles hxy _ _ _ _) fun _ => ?_
        refine (dispatchOrGoBack_resembles hxy _ _ _ _).bind ?_
        rintro r _ p q - - rfl hpq
        exact .ite Iff.rfl (fun _ => awaitPassword_resembles hpq _ _ _ _) fun _ =>
          complete_resembles hpq _ _ _ _ _ _

end Mirrors

section Proceeds

theorem respond_proceeds {make : String → Response} (h : ∀ prompt, (make prompt).Proceeds) :
    Yields Response.Proceeds (respond make) := .bind fun t => .pure (h t.prompt)

theorem finish_proceeds {intent : Option Intent} (h : ∀ command warning,
    intent ≠ some (.confirm command warning)) (line : String) (o : Outcome) (leaves : Bool) :
    Yields Response.Proceeds (finish line o intent leaves) :=
  .bind fun _ => .bind fun _ => .bind fun _ => respond_proceeds fun _ => h

theorem complete_proceeds (line : CommandLine) (r : Dispatch.Result) (runner writer : Context)
    (base said : Option String) :
    Yields Response.Proceeds (complete line r runner writer base said) := by
  unfold complete
  cases r.screen with
  | none => exact .bind fun _ => finish_proceeds (by simp) _ _ _
  | some screen => exact .bind fun _ => .bind fun _ => finish_proceeds (by simp) _ _ _

theorem runLine_proceeds (line : CommandLine) (ctx : Context) :
    Yields Response.Proceeds (runLine line ctx) := by
  unfold runLine
  split
  · exact .bind fun _ => respond_proceeds fun _ _ _ => nofun
  · refine .bind fun _ => .bind fun _ => .bind fun answer => ?_
    cases answer with
    | error problem => exact finish_proceeds (by simp) _ _ _
    | ok input =>
        refine .bind fun _ => .ite (finish_proceeds (by simp) _ _ _) (.bind fun r => ?_)
        refine .ite ?_ (complete_proceeds _ _ _ _ _ _)
        exact .bind fun _ => respond_proceeds fun _ _ _ => nofun

/-- A text that is no command line is not held back. -/
theorem proceeds_of_read? {text : String} {response : Response} {u : Session}
    (hread : s.read? text = none) (hmode : s.world.mode = .normal)
    (hrun : (submit text).run s = .ok response u) : response.Proceeds := by
  rcases run_submit_of_not_read hread hmode with hpassed | ⟨o, hended⟩
  · rw [hpassed] at hrun
    cases hrun
    exact fun _ _ => nofun
  · rw [hended] at hrun
    exact finish_proceeds (by simp) _ _ _ _ _ _ hrun

end Proceeds

/-- The guard only looks. -/
theorem guard_same (expanded : String) (ctx : Context) : Leads Eq (guard expanded ctx) s := by
  have hR : Lasting (Eq : Session → Session → Prop) := ⟨fun _ => rfl, Eq.trans⟩
  refine .get_bind (.ite (fun _ => .pure hR _ s) fun _ => .bind hR ?_ fun _ t _ => .pure hR _ t)
  rw [Leads, run_step, Step.look, run_get_bind]
  cases s.world.viewAt s.world.viewBase <;> rfl

section Held

variable {text command : String} {warning : Guard.Warning} {response : Response}

/-- A line that is held back has been read and noted, and the session waits for the answer to the
warning. -/
theorem of_held (hmode : s.world.mode = .normal) (hrun : (submit text).run s = .ok response t)
    (hheld : response.intent = some (.confirm command warning)) :
    ∃ expanded line, s.read? text = some (expanded, line) ∧ line.text = command ∧
      t = { s.remembering command with
        world := { (s.remembering command).world with
          mode := .confirming line warning s.world.context }
        journal := s.journal ++ [.warning warning.level .prompted] } := by
  cases hread : s.read? text with
  | none => exact absurd hheld (proceeds_of_read? hread hmode hrun _ _)
  | some read =>
      obtain ⟨expanded, line⟩ := read
      rw [run_submit_of_read hread hmode] at hrun
      obtain ⟨answer, u, hguard, hrest⟩ := run_bind_eq_ok_iff.1 hrun
      obtain rfl : s.remembering line.text = u := (guard_same _ _).of_run hguard
      cases answer with
      | none => exact absurd hheld (runLine_proceeds _ _ _ _ _ hrest _ _)
      | some warning' =>
          cases hrest
          cases hheld
          exact ⟨expanded, line, rfl, rfl, rfl⟩

/-- The session in which no warnings are wanted. -/
def unwarned (s : Session) : Session := { s with options := { s.options with confirms := false } }

theorem read?_unwarned (s : Session) (text : String) : s.unwarned.read? text = s.read? text := by
  have hworld : s.unwarned.world = s.world := rfl
  unfold read?
  rw [hworld]

/-- If no warnings are wanted, a command line is run at once. -/
theorem run_submit_of_not_confirms {expanded : String} {line : CommandLine}
    (hread : s.read? text = some (expanded, line)) (hmode : s.world.mode = .normal)
    (hconfirms : s.options.confirms = false) :
    (submit text).run s = (runLine line s.world.context).run (s.remembering line.text) := by
  have hguard := run_guard_of_not_confirms (s := s.remembering line.text) hconfirms expanded
    s.world.context
  rw [run_submit_of_read hread hmode, run_bind_of_ok hguard]

theorem run_resolve_of_confirming {line : CommandLine} {ctx : Context}
    (hmode : s.world.mode = .confirming line warning ctx) (resolution : Resolution) :
    (resolve resolution).run s = (do
      setMode .normal
      if resolution = .confirmed then
        note (.warning warning.level .confirmed)
        runLine line ctx
      else
        note (.warning warning.level .cancelled)
        respond fun prompt => { output := "Command cancelled.", prompt } : Action Response).run s := by
  unfold resolve
  rw [run_get_bind, hmode]

/-- A command line that is held back by a warning awaits consent. Once it is confirmed, it ends as if
there had been no warnings, but for what the journal notes. Otherwise all is as before the line, but
that the line is remembered, and others may be forgotten if the history is full. -/
theorem held_line_awaits_consent (hmode : s.world.mode = .normal)
    (hrun : (submit text).run s = .ok response t)
    (hheld : response.intent = some (.confirm command warning)) :
    command = Text.Blank.trim (withoutLineEnd text) ∧
    Mirrors Eq Resembles Eq (submit text) (resolve .confirmed) s.unwarned t ∧
    ∀ resolution, resolution ≠ .confirmed → ∃ history forgotten,
      (resolve resolution).run t = .ok { output := "Command cancelled.", prompt := s.prompt } { s with
        world := { s.world with history }
        journal := s.journal ++
          [.warning warning.level .prompted, .warning warning.level .cancelled] } ∧
      forgotten ++ history = s.world.history ++ [command] ∧
      (forgotten ≠ [] → (history.length : Int) = s.options.historyLimit) := by
  obtain ⟨expanded, line, hread, rfl, ht⟩ := of_held hmode hrun hheld
  have hwaits : t.world.mode = .confirming line warning s.world.context := by rw [ht]
  refine ⟨(of_read? hread).1, ?_, fun resolution hresolution => ?_⟩
  · rw [← read?_unwarned] at hread
    rw [Mirrors, run_submit_of_not_confirms hread hmode rfl, run_resolve_of_confirming hwaits,
      if_pos rfl]
    refine runLine_resembles ?_ line s.world.context
    have hback : { t.world with mode := .normal } = (s.remembering line.text).world := by
      rw [ht, ← hmode]
      rfl
    rw [ht] at hback ⊢
    exact ⟨hback, rfl, rfl, rfl, rfl, ⟨_, rfl⟩⟩
  · obtain ⟨forgotten, hkept, hfull⟩ :=
      s.world.history_remember line.text s.options.historyLimit
    refine ⟨_, forgotten, ?_, hkept, hfull⟩
    rw [run_resolve_of_confirming hwaits, if_neg hresolution, ht, setMode, ← hmode,
      List.append_cons s.journal _ [_]]
    rfl

/-- Before the homes are removed, consent is awaited. -/
theorem removal_of_homes_awaits_consent : justBegun.world.mode = .normal ∧
    ∃ response t warning, (submit "rm -r /home").run justBegun = .ok response t ∧
      response.intent = some (.confirm "rm -r /home" warning) ∧
      Mirrors Eq Resembles Eq (submit "rm -r /home") (resolve .confirmed) justBegun.unwarned t ∧
      ∀ resolution, resolution ≠ .confirmed → ∃ history forgotten,
        (resolve resolution).run t =
          .ok { output := "Command cancelled.", prompt := justBegun.prompt } { justBegun with
            world := { justBegun.world with history }
            journal := justBegun.journal ++
              [.warning warning.level .prompted, .warning warning.level .cancelled] } ∧
          forgotten ++ history = justBegun.world.history ++ ["rm -r /home"] ∧
          (forgotten ≠ [] → (history.length : Int) = justBegun.options.historyLimit) := by
  have hread : justBegun.read? "rm -r /home" = some ("rm -r /home",
    ⟨"rm -r /home", ["rm", "-r", "/home"], ⟨"rm -r /home", .none⟩⟩) := by decide +kernel
  obtain ⟨warning, hwarning⟩ : ∃ warning,
      Guard.inspect justBegun.situation "rm -r /home" = some warning :=
    Option.isSome_iff_exists.1 (by decide +kernel)
  have hrun := run_submit_of_read? hread rfl rfl rfl
  rw [hwarning] at hrun
  exact ⟨rfl, _, _, warning, hrun, rfl, (held_line_awaits_consent rfl hrun rfl).2⟩

end Held

end Session

end PracticeShell
