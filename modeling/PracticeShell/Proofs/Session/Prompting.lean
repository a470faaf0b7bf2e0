import PracticeShell.Proofs.Session.Course

/-!
# Prompts that are settled

A warning that holds back a command line is confirmed or cancelled later, or still waits; and a password
that is asked for is checked later, or still awaited. Both are conserved: as long as a session does not
start over, each input adds as much to what has been asked as to what has been settled and what waits
(`Session.isSettled_next`, `Session.attempts_next`). An input that fails asks for nothing, since no
password is awaited then (`Session.Quits`).
-/

namespace PracticeShell

open Run

theorem Guard.Level.name_injective : Function.Injective Guard.Level.name := by
  intro level other h
  cases level <;> cases other <;> simp_all [name]

theorem Settlement.name_injective : Function.Injective Settlement.name := by
  intro settlement other h
  cases settlement <;> cases other <;> simp_all [name]

namespace Sample

/-- The sample that counts the warnings of a level that have come to something. -/
def warnings (level : Guard.Level) (settlement : Settlement) : Sample :=
  ⟨"shellquest_destructive_prompts_total", [("level", level.name), ("outcome", settlement.name)]⟩

/-- The sample that counts the passwords that have been right, or wrong. -/
def passwords (correct : Bool) : Sample :=
  ⟨"shellquest_sudo_attempts_total", [("result", if correct then "success" else "failure")]⟩

end Sample

namespace Activity

theorem sample?_eq_warnings_iff {a : Activity} {level : Guard.Level} {settlement : Settlement} :
    a.sample? = some (.warnings level settlement) ↔ a = .warning level settlement := by
  cases a with
  | warning level' settlement' =>
      simp [sample?, Sample.warnings, Guard.Level.name_injective.eq_iff,
        Settlement.name_injective.eq_iff]
  | _ => simp [sample?, Sample.warnings]

theorem sample?_eq_passwords_iff {a : Activity} {correct : Bool} :
    a.sample? = some (.passwords correct) ↔ a = .password correct := by
  cases a with
  | password correct' => cases correct <;> cases correct' <;> decide
  | _ => simp [sample?, Sample.passwords]

end Activity

namespace Journal

theorem count_warnings (level : Guard.Level) (settlement : Settlement) (j : Journal) :
    count (.warnings level settlement) j = List.count (.warning level settlement) j := by
  rw [count, List.count_filterMap]
  exact List.countP_congr fun a _ => by simp [Activity.sample?_eq_warnings_iff]

theorem count_passwords (correct : Bool) (j : Journal) :
    count (.passwords correct) j = List.count (.password correct) j := by
  rw [count, List.count_filterMap]
  exact List.countP_congr fun a _ => by simp [Activity.sample?_eq_passwords_iff]

/-- A password that is checked is right or wrong. -/
theorem count_passwords_add (j : Journal) :
    count (.passwords true) j + count (.passwords false) j = j.countP Activity.isAttempt := by
  rw [count_passwords, count_passwords]
  induction j with
  | nil => rfl
  | cons a j ih =>
      rw [List.count_cons, List.count_cons, List.countP_cons, ← ih]
      cases a with
      | password correct => cases correct <;> simp [Activity.isAttempt] <;> omega
      | _ => simp [Activity.isAttempt]

end Journal

namespace Session

/-- How many warnings of a level have come to something. -/
def warned (s : Session) (level : Guard.Level) (settlement : Settlement) : Nat :=
  Journal.count (.warnings level settlement) s.journal

/-- How many passwords have been right, or wrong. -/
def checked (s : Session) (correct : Bool) : Nat := Journal.count (.passwords correct) s.journal

/-- How many warnings of a level wait for an answer. -/
def waiting (s : Session) (level : Guard.Level) : Nat :=
  if s.world.mode.warning?.map (·.level) = some level then 1 else 0

/-- Whether each warning of a level has been confirmed or cancelled once, but for the one that waits. -/
def IsSettled (s : Session) (level : Guard.Level) : Prop :=
  s.warned level .prompted =
    s.warned level .confirmed + s.warned level .cancelled + s.waiting level

/-- Whether the response to an input asks for a password. -/
def asksPassword (step : Session × Input) : Bool := (response? step).any (·.masked)

variable {s t : Session} {level : Guard.Level} {settlement : Settlement}

section Warnings

theorem warned_append (s : Session) (added : Journal) :
    warned { s with journal := s.journal ++ added } level settlement =
      s.warned level settlement + List.count (.warning level settlement) added := by
  simp only [warned, Journal.count_warnings, List.count_append]

theorem warned_concat (s : Session) (level' : Guard.Level) (settlement' : Settlement) :
    warned { s with journal := s.journal ++ [.warning level' settlement'] } level settlement =
      s.warned level settlement + if level' = level ∧ settlement' = settlement then 1 else 0 := by
  rw [warned_append, List.count_singleton]
  simp

theorem CarriesOn.warned (h : CarriesOn s t) : t.warned level settlement = s.warned level settlement := by
  obtain ⟨added, hadded, haside⟩ := h.journal
  have hnone : List.count (.warning level settlement) added = 0 := by
    refine List.count_eq_zero.2 fun hmem => ?_
    exact absurd (haside _ hmem) (by simp [Activity.isAside])
  simp only [Session.warned, Journal.count_warnings, hadded, List.count_append, hnone, Nat.add_zero]

theorem CarriesOn.warning? (h : CarriesOn s t) (hs : s.world.mode.warning? = none) :
    t.world.mode.warning? = none := by
  rcases h.mode with hsame | hnone
  · rw [hsame, hs]
  · exact hnone

theorem waiting_of_none (h : s.world.mode.warning? = none) : s.waiting level = 0 := by
  rw [waiting, h]
  rfl

theorem waiting_of_some {warning : Guard.Warning} (h : s.world.mode.warning? = some warning) :
    s.waiting level = if warning.level = level then 1 else 0 := by
  rw [waiting, h]
  simp

namespace IsSettled

variable (hs : s.IsSettled level)

include hs

theorem settling {warning : Guard.Warning} (hwaits : s.world.mode.warning? = some warning)
    (h : settlement ≠ .prompted) : (s.settling warning.level settlement).IsSettled level := by
  rw [IsSettled, waiting_of_some hwaits] at hs
  have hready : (s.settling warning.level settlement).waiting level = 0 := waiting_of_none rfl
  have hwarned : ∀ other, (s.settling warning.level settlement).warned level other =
      s.warned level other + if warning.level = level ∧ settlement = other then 1 else 0 :=
    fun _ => warned_concat s.ready _ _
  rw [IsSettled, hready, hwarned, hwarned, hwarned]
  cases settlement with
  | prompted => exact absurd rfl h
  | confirmed => simp; omega
  | cancelled => simp; omega

theorem warning (hnone : s.world.mode.warning? = none) (line : CommandLine)
    (warning : Guard.Warning) : (s.warning line warning).IsSettled level := by
  rw [IsSettled, waiting_of_none hnone] at hs
  have hwaits : (s.warning line warning).waiting level = if warning.level = level then 1 else 0 :=
    waiting_of_some rfl
  have hwarned : ∀ other, (s.warning line warning).warned level other =
      s.warned level other + if warning.level = level ∧ .prompted = other then 1 else 0 :=
    fun _ => warned_concat { s with world := { s.world with
      mode := .confirming line warning s.world.context } } _ _
  rw [IsSettled, hwaits, hwarned, hwarned, hwarned]
  simp
  omega

theorem heeding (i : Input) : (s.heeding i).IsSettled level := by
  cases i with
  | line text =>
      cases hpassword : s.world.mode.isPassword with
      | false => rwa [heeding_line_of_plain hpassword]
      | true =>
          have hnone : s.world.mode.warning? = none := by
            cases hmode : s.world.mode <;> simp_all [Mode.isPassword, Mode.warning?]
          have hwarned : ∀ settlement, (s.checking (withoutLineEnd text)).warned level settlement =
              s.warned level settlement := fun settlement => warned_append s.ready _
          rw [IsSettled, waiting_of_none hnone] at hs
          rw [heeding_line_of_password hpassword, IsSettled, hwarned, hwarned, hwarned, hs]
          rfl
  | answer resolution =>
      cases hwarning : s.world.mode.warning? with
      | none => rwa [heeding_answer_of_none hwarning]
      | some warning =>
          rw [heeding_answer_of_some hwarning]
          exact hs.settling hwarning (by split <;> decide)
  | _ => exact hs

/-- Each input that does not start over settles as many warnings as no longer wait then. -/
theorem next {i : Input} (h : ¬ StartsOver (s, i)) : (s.next i).IsSettled level := by
  rcases next_carriesOn_or_warns (s := s) i with hcarries | ⟨line, warning, hmode, hnext⟩
  · -- The answer to a warning is settled by `heeding` already, so what waits then still waits.
    have hwaits : (s.next i).waiting level = (s.heeding i).waiting level := by
      cases hwarning : (s.heeding i).world.mode.warning? with
      | none => rw [waiting_of_none hwarning, waiting_of_none (hcarries.warning? hwarning)]
      | some warning =>
          obtain ⟨hsame, hanswer⟩ := heeding_of_waits (by rw [hwarning]; rfl)
          rw [hsame] at hwarning ⊢
          obtain ⟨fs, hworld⟩ := next_of_waits (by rw [hwarning]; rfl) hanswer h
          rw [waiting, waiting, hworld]
    have hheeding := hs.heeding i
    rwa [IsSettled, hcarries.warned, hcarries.warned, hcarries.warned, hwaits]
  · have hremembering : (s.remembering line.text).IsSettled level := hs
    rw [hnext]
    exact hremembering.warning (by rw [remembering, World.remember, hmode]; rfl) line warning

theorem after {inputs : List Input} (h : ∀ step ∈ s.steps inputs, ¬ StartsOver step) :
    (s.after inputs).IsSettled level := by
  induction inputs generalizing s with
  | nil => exact hs
  | cons i inputs ih =>
      rw [steps, List.forall_mem_cons] at h
      exact ih (hs.next h.1) h.2

end IsSettled

end Warnings

section Quitting

/-- Whether no password is awaited where an action fails. -/
def Quits {α : Type} (action : Action α) (s : Session) : Prop :=
  ∀ e t, action.run s = .error e t → t.world.mode.isPassword = false

namespace Quits

theorem of_keepsMode {α : Type} {action : Action α} (h : Leads KeepsMode action s)
    (hmode : s.world.mode.isPassword = false) : Quits action s := by
  intro e t hrun
  rw [Leads, hrun] at h
  rw [← hmode]
  exact congrArg _ h

theorem of_rests {α : Type} {action : Action α} (h : Leads Rests action s)
    (hmode : s.world.mode.isPassword = false) : Quits action s :=
  of_keepsMode (h.weaken Rests.keepsMode) hmode

theorem bind {α β : Type} {action : Action α} {f : α → Action β} (h : Quits action s)
    (hf : ∀ a t, action.run s = .ok a t → Quits (f a) t) : Quits (action >>= f) s := by
  intro e u hrun
  rw [EStateM.run_bind] at hrun
  cases hfirst : action.run s with
  | ok a t =>
      rw [hfirst] at hrun
      exact hf a t hfirst e u hrun
  | error e' t =>
      rw [hfirst] at hrun
      cases hrun
      exact h _ _ hfirst

theorem get_bind {β : Type} {f : Session → Action β} (h : Quits (f s) s) : Quits (get >>= f) s := h

theorem modify_bind {β : Type} {g : Session → Session} {f : PUnit → Action β}
    (h : Quits (f ⟨⟩) (g s)) : Quits (modify g >>= f) s := h

theorem ite {α : Type} {c : Prop} [Decidable c] {action other : Action α} (h : c → Quits action s)
    (hother : ¬ c → Quits other s) : Quits (if c then action else other) s := by
  split
  · exact h ‹_›
  · exact hother ‹_›

end Quits

theorem respond_quits (make : String → Response) : Quits (respond make) s := by
  intro e t hrun
  rw [run_respond] at hrun
  cases hrun

theorem awaitPassword_quits (line : CommandLine) (o : Outcome) (input said : Option String) :
    Quits (awaitPassword line o input said) s := .modify_bind (respond_quits _)

variable (hmode : s.world.mode.isPassword = false)

include hmode

theorem finish_quits (line : String) (o : Outcome) (intent : Option Intent) (leaves : Bool) :
    Quits (finish line o intent leaves) s :=
  .of_keepsMode (finish_keepsMode _ _ _ _) hmode

theorem complete_quits (line : CommandLine) (r : Dispatch.Result) (runner writer : Context)
    (base said : Option String) : Quits (complete line r runner writer base said) s := by
  intro e t hrun
  have hleft := mode_complete (s := s) line r runner writer base said
  rw [hrun, left_error] at hleft
  rw [hleft]
  cases r.screen with
  | none => exact hmode
  | some screen => rfl

theorem dispatched_quits {line : CommandLine} {action : Action Dispatch.Result}
    (hkeeps : Leads KeepsMode action s) (ctx : Context) (base input said : Option String) :
    Quits (do
      let r ← action
      if r.outcome.needsPassword then awaitPassword line r.outcome input said
      else complete line r ctx ctx base said) s := by
  refine .bind (.of_keepsMode hkeeps hmode) fun r t hrun => ?_
  refine .ite (fun _ => awaitPassword_quits _ _ _ _) fun _ => complete_quits ?_ _ _ _ _ _ _
  rw [hkeeps.of_run hrun, hmode]

theorem runLine_quits (line : CommandLine) (ctx : Context) : Quits (runLine line ctx) s := by
  unfold runLine
  split
  · exact .modify_bind (respond_quits _)
  · refine .get_bind (.bind (.of_rests (look_rests _) hmode) fun _ t hlook => ?_)
    obtain rfl : s = t := (look_same _).of_run hlook
    refine .bind (.of_rests (readInput_rests _ _ _ _) hmode) fun answer u hread => ?_
    obtain rfl : s = u := (readInput_same _ _ _ _).of_run hread
    cases answer with
    | error problem => exact finish_quits hmode _ _ _ _
    | ok input =>
        refine .get_bind (.ite (fun _ => finish_quits hmode _ _ _ _) fun _ => ?_)
        exact dispatched_quits hmode (dispatchOrGoBack_keepsMode _ _ _ _) _ _ _ _

end Quitting

theorem submitPassword_quits (text : String) (line : CommandLine) (input said : Option String) :
    Quits (submitPassword text line input said) s := by
  refine .modify_bind (.get_bind (.ite (fun _ => .modify_bind (finish_quits rfl _ _ _ _)) fun _ => ?_))
  refine .modify_bind (.bind (.of_rests (look_rests _) rfl) fun _ t hlook => ?_)
  obtain rfl := (look_same _).of_run hlook
  refine .bind (.of_rests (readInput_rests _ _ _ _) rfl) fun answer u hread => ?_
  obtain rfl := (readInput_same _ _ _ _).of_run hread
  cases answer with
  | error problem => exact finish_quits rfl _ _ _ _
  | ok input =>
      refine .bind (.of_keepsMode (dispatch_keepsMode _ _ _ _) rfl) fun r v hrun => ?_
      refine complete_quits ?_ _ _ _ _ _ _
      rw [(dispatch_keepsMode _ _ _ _).of_run hrun]
      rfl

theorem submitInput_quits (text : String) (line : CommandLine) (marker : String)
    (lines : List String) : Quits (submitInput text line marker lines) s := by
  refine .ite (fun _ => .modify_bind (respond_quits _)) fun _ => .modify_bind (.get_bind ?_)
  refine .bind (.of_rests (look_rests _) rfl) fun _ t hlook => ?_
  obtain rfl := (look_same _).of_run hlook
  exact dispatched_quits rfl (dispatch_keepsMode _ _ _ _) _ _ _ _

theorem submitCommand_quits (hmode : s.world.mode.isPassword = false) (text : String) :
    Quits (submitCommand text) s := by
  have hnoted : (s.remembering (Text.Blank.trim text)).world.mode.isPassword = false := hmode
  refine .ite (fun _ => respond_quits _) fun _ => .modify_bind (.get_bind ?_)
  dsimp only
  split
  · exact finish_quits hnoted _ _ _ _
  · refine .ite (fun _ => finish_quits hnoted _ _ _ _) fun _ => .get_bind ?_
    refine .bind (.of_rests (guard_rests _ _) hnoted) fun warning t hguard => ?_
    obtain rfl := (guard_same _ _).of_run hguard
    cases warning with
    | none => exact runLine_quits hnoted _ _
    | some warning => exact .modify_bind (.modify_bind (respond_quits _))

theorem submit_quits (text : String) : Quits (submit text) s := by
  refine .get_bind ?_
  cases hmode : s.world.mode with
  | password line input said => exact submitPassword_quits _ _ _ _
  | collecting line marker lines => exact submitInput_quits _ _ _ _
  | normal => exact submitCommand_quits (by rw [hmode]; rfl) _
  | confirming line warning ctx => exact .of_rests (lasting_rests.refl s) (by rw [hmode]; rfl)
  | showing screen ctx command => exact .of_rests (lasting_rests.refl s) (by rw [hmode]; rfl)

theorem resolve_quits (h : s.intent?.isSome) (resolution : Resolution) :
    Quits (resolve resolution) s := by
  refine .get_bind ?_
  cases hmode : s.world.mode with
  | confirming line warning ctx =>
      refine .modify_bind (.ite (fun _ => .modify_bind ?_) fun _ => .modify_bind (respond_quits _))
      exact runLine_quits rfl _ _
  | showing screen ctx command =>
      have hkeeps : Leads KeepsMode (step (Screens.close screen resolution ctx s.world.viewBase))
          s.ready :=
        step_leads (Screens.close_leads World.changes_keepsMode.writes screen resolution ctx)
      refine .modify_bind (.get_bind (.bind (.of_keepsMode hkeeps rfl) fun o t hclosed => ?_))
      exact finish_quits (by rw [hkeeps.of_run hclosed]; rfl) _ _ _ _
  | normal => simp [intent?, hmode, Mode.intent?] at h
  | collecting line marker lines => simp [intent?, hmode, Mode.intent?] at h
  | password line input said => simp [intent?, hmode, Mode.intent?] at h

section Passwords

theorem asksPassword_line (text : String) :
    asksPassword (s, .line text) = (s.next (.line text)).world.mode.isPassword := by
  rw [next_eq_submit, asksPassword, response?]
  cases hrun : (submit text).run s with
  | ok r t => exact (submit_told text r t hrun).masked
  | error e t => exact (submit_quits text e t hrun).symm

theorem asksPassword_answer (h : s.intent?.isSome) (resolution : Resolution) :
    asksPassword (s, .answer resolution) =
      (s.next (.answer resolution)).world.mode.isPassword := by
  rw [next_eq_resolve, asksPassword, response?]
  cases hrun : (resolve resolution).run s with
  | ok r t => exact (resolve_told h resolution r t hrun).masked
  | error e t => exact (resolve_quits h resolution e t hrun).symm

/-- An answer that nothing waits for asks for nothing and changes nothing. -/
theorem run_resolve_of_none (h : s.intent? = none) (resolution : Resolution) :
    (resolve resolution).run s = .ok {
      errors := "shellquest: nothing to resolve", exitCode := Outcome.failure, prompt := s.prompt } s := by
  rw [resolve, run_get_bind]
  cases hmode : s.world.mode <;> first | rfl | simp [intent?, hmode, Mode.intent?] at h

/-- A question that does not start over asks for no password. -/
theorem asksPassword_question (text : String) (h : ¬ StartsOver (s, .question text)) :
    asksPassword (s, .question text) = false := by
  rw [asksPassword, response?]
  cases hrun : (ask text).run s with
  | error e t => rfl
  | ok answered t =>
      cases answered with
      | none => rfl
      | some r =>
          have hmode : s.world.mode = .normal := by
            rw [ask, run_get_bind] at hrun
            split at hrun
            · assumption
            · cases hrun
          have hkept := ((ask_rests_of_goesOn h).weaken Rests.keepsMode).of_run hrun
          rw [Option.any_some, (tells_of_ask hrun).masked, hkept, hmode]
          rfl

theorem asksPassword_of_none (h : s.intent? = none) (resolution : Resolution) :
    asksPassword (s, .answer resolution) = false := by
  rw [asksPassword, response?, run_resolve_of_none h]
  rfl

theorem Rests.isPassword (h : Rests s t) : t.world.mode.isPassword = s.world.mode.isPassword := by
  rw [h.world]

/-- With each input that does not start over, as many passwords are asked for as have been checked
then, or are newly awaited. -/
theorem attempts_next {i : Input} (h : ¬ StartsOver (s, i)) :
    s.attempts + s.world.mode.isPassword.toNat + (asksPassword (s, i)).toNat =
      (s.next i).attempts + (s.next i).world.mode.isPassword.toNat := by
  have hquiet : ∀ {t}, Rests s t → CarriesOn s t → s.attempts + s.world.mode.isPassword.toNat =
      t.attempts + t.world.mode.isPassword.toNat := fun hrests hcarries => by
    rw [hcarries.checksNone, hrests.isPassword]
  cases i with
  | line text =>
      rw [asksPassword_line, next_eq_submit, attempts_submit]
      cases s.world.mode.isPassword <;> rfl
  | answer resolution =>
      rw [next_eq_resolve, resolve_checksNone]
      cases hintent : s.intent? with
      | none => rw [asksPassword_of_none hintent, run_resolve_of_none hintent]; rfl
      | some intent =>
          have hwaits : s.intent?.isSome := by rw [hintent]; rfl
          rw [asksPassword_answer hwaits, next_eq_resolve, Mode.isPassword_of_intent? hwaits]
          rfl
  | question text =>
      rw [asksPassword_question text h, next_eq_ask]
      exact hquiet (ask_rests_of_goesOn h) (ask_carriesOn text)
  | hint level =>
      rw [next, Input.act, left_discard]
      exact hquiet (hint_rests level) (accompanies_carriesOn.hint_leads level)
  | reset => exact absurd trivial h
  | close => exact hquiet close_rests accompanies_carriesOn.close_leads
  | tick seconds => rfl

theorem attempts_after {inputs : List Input} (h : ∀ step ∈ s.steps inputs, ¬ StartsOver step) :
    s.attempts + s.world.mode.isPassword.toNat + (s.steps inputs).countP asksPassword =
      (s.after inputs).attempts + (s.after inputs).world.mode.isPassword.toNat := by
  induction inputs generalizing s with
  | nil => rfl
  | cons i inputs ih =>
      rw [steps, List.forall_mem_cons] at h
      have hfirst := attempts_next h.1
      rw [steps, List.countP_cons, after_cons, ← ih h.2, ← hfirst]
      cases asksPassword (s, i) with
      | false => simp
      | true => simp; omega

end Passwords

/-- As long as a session does not start over, each prompt is settled once. The warnings of a level that
have held back a command line are those that have been confirmed and those that have been cancelled,
and the one that waits for its answer; the responses that have asked for a password are as many as
passwords have been right and wrong, and the one that is awaited. -/
theorem prompts_are_settled_once {o : SessionOptions} {adventure : Option Adventure}
    {store : Option ProgressStore} {resume : Bool} {now : Int}
    (hstart : start o adventure store resume now = .ok s) {inputs : List Input}
    (h : ∀ step ∈ s.steps inputs, ¬ StartsOver step) :
    (∀ level, (s.after inputs).warned level .prompted =
        (s.after inputs).warned level .confirmed + (s.after inputs).warned level .cancelled +
          (s.after inputs).waiting level) ∧
      (s.steps inputs).countP asksPassword =
        (s.after inputs).checked true + (s.after inputs).checked false +
          if (s.after inputs).world.mode.isPassword then 1 else 0 := by
  obtain ⟨tracker, w, -, hworld, hbegun⟩ := start_eq_ok_iff.1 hstart
  have hjournal : s.journal = [.sessionStarted] := by rw [hbegun]
  have hmode : s.world.mode = .normal := by
    rw [hbegun]
    exact mode_startWorld hworld
  refine ⟨fun level => IsSettled.after ?_ h, ?_⟩
  · rw [IsSettled, waiting_of_none (by rw [hmode]; rfl)]
    simp [warned, Journal.count_warnings, hjournal]
  · have hnone : s.attempts = 0 := by rw [attempts, hjournal]; rfl
    have hconserved := attempts_after h
    rw [hmode, hnone] at hconserved
    rw [checked, checked, Journal.count_passwords_add, ← attempts]
    cases hpassword : (s.after inputs).world.mode.isPassword <;>
      simp_all [Mode.isPassword]

/-- A run in which warnings are cancelled and confirmed, and passwords are wrong and right; the last
warning still waits. -/
def hesitating : List Input :=
  [.line "rm -r /home", .answer .cancelled, .line "sudo rm -r /home", .answer .confirmed,
    .line "wrong", .line "sudo ls", .answer .cancelled, .line "secret", .line "rm -r /home",
    .line "ls"]

theorem hesitation_is_settled :
    start ⟨"ada", "lab", "secret", [], true, 0⟩ none none true 0 = .ok justBegun ∧
      (∀ step ∈ justBegun.steps hesitating, ¬ StartsOver step) ∧
      ((justBegun.after hesitating).warned .critical .prompted,
        (justBegun.after hesitating).waiting .critical,
        (justBegun.steps hesitating).countP asksPassword) = (3, 1, 2) ∧
      (∀ level, (justBegun.after hesitating).warned level .prompted =
        (justBegun.after hesitating).warned level .confirmed +
          (justBegun.after hesitating).warned level .cancelled +
          (justBegun.after hesitating).waiting level) ∧
      (justBegun.steps hesitating).countP asksPassword =
        (justBegun.after hesitating).checked true + (justBegun.after hesitating).checked false +
          if (justBegun.after hesitating).world.mode.isPassword then 1 else 0 := by
  have hgoes : ∀ step ∈ justBegun.steps hesitating, ¬ StartsOver step := by decide +kernel
  have hasked : ((justBegun.after hesitating).warned .critical .prompted,
      (justBegun.after hesitating).waiting .critical,
      (justBegun.steps hesitating).countP asksPassword) = (3, 1, 2) := by decide +kernel
  exact ⟨start_justBegun, hgoes, hasked, prompts_are_settled_once start_justBegun hgoes⟩

end Session

end PracticeShell
