import PracticeShell.Proofs.Session.Elevation
import PracticeShell.Proofs.Text.Trimming

/-!
# What the history holds

A line enters the history when it is typed as a command line, before anything is known of what becomes
of it; the words of a `history -c` may be run by a much later input. Which input runs some words is read
off the session with a runner that fails at them (`Session.Executes`). The history holds the last of the
lines that have been typed since `history -c` was run (`Session.history_holds_lines_typed`).
-/

namespace PracticeShell

open Run

/-- Whether the history is the same. -/
def World.KeepsHistory (w v : World) : Prop := v.history = w.history

theorem World.moves_keepsHistory : World.Moves World.KeepsHistory where
  lasting := ⟨fun _ => rfl, fun h h' => h'.trans h⟩
  files _ _ := rfl
  environment _ _ := rfl
  directory w path := by
    unfold World.changeDirectory
    cases w.remote <;> rfl
  remote _ _ := rfl

theorem Dispatch.history_of_run_clearing {hosts : List String} {ctx : Context}
    {base input : Option String} {words : List String} {w v : World} {r : Result}
    (hwords : bare ctx words = ["history", "-c"])
    (hrun : (run hosts ctx base input words).run w = .ok r v) : v.history = [] := by
  unfold bare at hwords
  unfold run at hrun
  dsimp only at hrun
  rw [hwords] at hrun
  have hclears : (Result.of <$> runHistory ["-c"]).run w = .ok r v := hrun
  rw [map_eq_pure_bind] at hclears
  cases hclears
  rfl

namespace Session

/-- The last of some lines: as many as a limit says, or all if it is not positive. -/
def latest (limit : Int) (lines : List String) : List String :=
  if limit ≤ 0 then lines else lines.rtake limit.toNat

@[simp]
theorem latest_nil (limit : Int) : latest limit [] = [] := by
  unfold latest
  split
  · rfl
  · exact List.rtake_nil _

theorem rtake_rtake_append {α : Type} (count : Nat) (l later : List α) :
    (l.rtake count ++ later).rtake count = (l ++ later).rtake count := by
  simp only [List.rtake_eq_reverse_take_reverse, List.reverse_append, List.reverse_reverse,
    List.take_append, List.take_take]
  rw [Nat.min_eq_left (Nat.sub_le _ _)]

/-- What has been forgotten already does not matter to what is kept. -/
theorem latest_latest_append (limit : Int) (lines later : List String) :
    latest limit (latest limit lines ++ later) = latest limit (lines ++ later) := by
  unfold latest
  split
  · rfl
  · exact rtake_rtake_append _ _ _

theorem history_remember_eq (line : String) (limit : Int) (w : World) :
    (w.remember line limit).history = latest limit (w.history ++ [line]) := by
  unfold World.remember latest
  dsimp only
  by_cases hlimit : limit ≤ 0
  · rw [if_pos hlimit, if_neg (by omega), List.drop_zero]
  · rw [if_neg hlimit, if_pos (by omega), List.rtake]

/-- Inputs, each with the session that takes it. -/
def steps (s : Session) : List Input → List (Session × Input)
  | [] => []
  | i :: inputs => (s, i) :: (s.next i).steps inputs

theorem steps_concat (s : Session) (inputs : List Input) (i : Input) :
    s.steps (inputs ++ [i]) = s.steps inputs ++ [(s.after inputs, i)] := by
  induction inputs generalizing s with
  | nil => rfl
  | cons j inputs ih => rw [List.cons_append, steps, ih, steps, after_cons, List.cons_append]

/-- The line that is typed, without the blanks around it, if a command line is awaited and there is
more to it than blanks. -/
def typed? : Session × Input → Option String
  | (s, .line text) =>
    match s.world.mode with
    | .normal => if Text.Blank.trim text = "" then none else some (Text.Blank.trim text)
    | _ => none
  | _ => none

/-- The runner that fails at some words. -/
def barring (words : List String) : Runner := fun ctx base input given =>
  if Dispatch.bare ctx given = words then throw (.step (.number .undefined))
  else dispatch ctx base input given

/-- Whether an input has words run: with a runner that fails at them, the session fails. -/
def Executes (words : List String) (step : Session × Input) : Prop :=
  Fails (actBy (barring words) step.2) step.1

instance (words : List String) (step : Session × Input) : Decidable (Executes words step) :=
  inferInstanceAs (Decidable (Fails _ _))

/-- The steps after the last one that has `history -c` run. -/
def sinceClearing (s : Session) (inputs : List Input) : List (Session × Input) :=
  (s.steps inputs).rtakeWhile fun step => ¬ Executes ["history", "-c"] step

/-- Whether an input makes a session start over. -/
def StartsOver : Session × Input → Prop
  | (_, .reset) => True
  | (s, .question text) => s.world.mode = .normal ∧ Question.read? text = some .reset
  | _ => False

/-- The history after an input that does not clear it. -/
def historyWith (step : Session × Input) : List String :=
  match typed? step with
  | none => step.1.world.history
  | some line => latest step.1.options.historyLimit (step.1.world.history ++ [line])

/-- Whether the history is the same. -/
def KeepsHistory (s t : Session) : Prop := s.world.KeepsHistory t.world

instance : DecidablePred StartsOver
  | (_, .reset) => isTrue trivial
  | (_, .question _) => inferInstanceAs (Decidable (_ ∧ _))
  | (_, .line _) | (_, .answer _) | (_, .hint _) | (_, .close) | (_, .tick _) => isFalse id

variable {s : Session} {ctx : Context} {base input : Option String} {text : String}

theorem typed?_of_normal (h : s.world.mode = .normal) : typed? (s, .line text) =
    if Text.Blank.trim text = "" then none else some (Text.Blank.trim text) := by
  simp only [typed?, h]

theorem typed?_of_ne_normal (h : s.world.mode ≠ .normal) : typed? (s, .line text) = none := by
  unfold typed?
  dsimp only
  split
  · exact absurd ‹_› h
  · rfl

theorem lasting_keepsHistory : Lasting KeepsHistory := ⟨fun _ => rfl, fun h h' => h'.trans h⟩

theorem Rests.keepsHistory {t : Session} (h : Rests s t) : KeepsHistory s t := by
  rw [KeepsHistory, World.KeepsHistory, h.world]

theorem finish_keepsHistory (line : String) (o : Outcome) (intent : Option Intent) (leaves : Bool) :
    Leads KeepsHistory (finish line o intent leaves) s := by
  rw [Leads, KeepsHistory, world_finish]
  rfl

theorem awaitPassword_keepsHistory (line : CommandLine) (o : Outcome) (input said : Option String) :
    Leads KeepsHistory (awaitPassword line o input said) s :=
  .bind lasting_keepsHistory (.modify rfl) fun _ _ _ => (respond_rests _).weaken Rests.keepsHistory

theorem complete_keepsHistory (line : CommandLine) (r : Dispatch.Result) (runner writer : Context)
    (said : Option String) :
    Leads KeepsHistory (complete line r runner writer base said) s := by
  have hR := lasting_keepsHistory
  have hrest : ∀ t, Leads KeepsHistory (do
      let o ← step (Step.onView base (line.redirection.applyTo writer r.outcome said))
      finish line.text o (r.screen.map Intent.screen) r.leaves) t := fun t =>
    .bind hR (step_leads (Step.onView_leads World.moves_keepsHistory.writes _)) fun _ _ _ =>
      finish_keepsHistory _ _ _ _
  unfold complete
  dsimp only
  split
  · exact .bind hR (.modify rfl) fun _ t _ => hrest t
  · exact hrest s

/-- Whether a run clears the history where the barred one fails, and otherwise is the same as that and
ends with a certain history. -/
def Shadows {α : Type} (history : List String) (barred action : Action α) (s : Session) : Prop :=
  ∀ a t, action.run s = .ok a t → (Fails barred s ∧ t.world.history = []) ∨
    (barred.run s = .ok a t ∧ t.world.history = history)

namespace Shadows

variable {α β : Type} {history : List String} {barred action : Action α}

/-- Where no words are run, nothing is barred. -/
theorem of_same (hsame : barred.run s = action.run s) (h : Leads KeepsHistory action s) :
    Shadows s.world.history barred action s :=
  fun _ _ hrun => .inr ⟨hsame.trans hrun, h.of_run hrun⟩

theorem of_keeps (h : Leads KeepsHistory action s) : Shadows s.world.history action action s :=
  of_same rfl h

theorem of_rests (h : Leads Rests action s) : Shadows s.world.history action action s :=
  of_keeps (h.weaken Rests.keepsHistory)

theorem bind {f g : α → Action β} (h : Shadows history barred action s)
    (hf : ∀ a t, action.run s = .ok a t → Shadows t.world.history (g a) (f a) t) :
    Shadows history (barred >>= g) (action >>= f) s := by
  intro b u hrun
  obtain ⟨a, t, hfirst, hsecond⟩ := run_bind_eq_ok_iff.1 hrun
  rcases h a t hfirst with ⟨hfails, hempty⟩ | ⟨hsame, hkept⟩
  · refine .inl ⟨fails_bind_iff.2 (.inl hfails), ?_⟩
    rcases hf a t hfirst b u hsecond with ⟨-, hlater⟩ | ⟨-, hlater⟩
    · exact hlater
    · rw [hlater, hempty]
  · rcases hf a t hfirst b u hsecond with ⟨hfails, hempty⟩ | ⟨hlater, hkept'⟩
    · exact .inl ⟨(fails_bind_of_ok hsame).2 hfails, hempty⟩
    · exact .inr ⟨(run_bind_of_ok hsame _).trans hlater, hkept'.trans hkept⟩

/-- What comes first runs no words. -/
theorem rests_bind {f g : α → Action β} (h : Leads Rests action s)
    (hf : ∀ a t, t.world = s.world → Shadows t.world.history (g a) (f a) t) :
    Shadows s.world.history (action >>= g) (action >>= f) s :=
  bind (of_rests h) fun a t hrun => hf a t (h.of_run hrun).world

theorem get_bind {f g : Session → Action α} (h : Shadows history (g s) (f s) s) :
    Shadows history (get >>= g) (get >>= f) s := h

theorem modify_bind {k : Session → Session} {f g : PUnit → Action α}
    (h : Shadows history (g ⟨⟩) (f ⟨⟩) (k s)) :
    Shadows history (modify k >>= g) (modify k >>= f) s := h

theorem ite {c : Prop} [Decidable c] {other barredOther : Action α}
    (h : c → Shadows history barred action s) (hother : ¬ c → Shadows history barredOther other s) :
    Shadows history (if c then barred else barredOther) (if c then action else other) s := by
  split
  · exact h ‹_›
  · exact hother ‹_›

end Shadows

theorem dispatch_shadows (words : List String) :
    Shadows s.world.history (barring ["history", "-c"] ctx base input words)
      (dispatch ctx base input words) s := by
  unfold barring
  by_cases hwords : Dispatch.bare ctx words = ["history", "-c"]
  · rw [if_pos hwords]
    intro r t hrun
    refine .inl ⟨⟨_, _, rfl⟩, ?_⟩
    rw [dispatch, run_get_bind, run_step] at hrun
    split at hrun
    · rename_i v hrun'
      cases hrun
      exact Dispatch.history_of_run_clearing hwords hrun'
    · cases hrun
  · rw [if_neg hwords]
    exact .of_keeps (.get_bind (step_leads (Dispatch.run_leads_of_moves World.moves_keepsHistory
      fun hclears => absurd hclears hwords)))

theorem dispatchOrGoBack_shadows (line : CommandLine) :
    Shadows s.world.history (dispatchOrGoBackBy (barring ["history", "-c"]) line ctx base input)
      (dispatchOrGoBack line ctx base input) s := by
  refine .get_bind (.ite (fun _ => ?_) fun _ => dispatch_shadows _)
  refine .bind (dispatch_shadows _) fun r t _ => ?_
  split <;> exact .of_keeps (.pure lasting_keepsHistory _ t)

theorem runLine_shadows (line : CommandLine) :
    Shadows s.world.history (runLineBy (barring ["history", "-c"]) line ctx) (runLine line ctx) s := by
  unfold runLineBy runLine
  cases line.redirection.effect with
  | lines marker output =>
      exact .modify_bind (.of_rests (respond_rests _))
  | _ =>
      refine .get_bind (.rests_bind (look_rests _) fun _ t _ => ?_)
      refine .rests_bind (readInput_rests _ _ _ _) fun answer u _ => ?_
      cases answer with
      | error problem => exact .of_keeps (finish_keepsHistory _ _ _ _)
      | ok input =>
          refine .get_bind (.ite (fun _ => .of_keeps (finish_keepsHistory _ _ _ _)) fun _ => ?_)
          refine .bind (dispatchOrGoBack_shadows line) fun r v _ => ?_
          split
          · exact .of_keeps (awaitPassword_keepsHistory _ _ _ _)
          · exact .of_keeps (complete_keepsHistory _ _ _ _ _)

/-- A command line is in the history before any of its words are run. -/
theorem submitCommand_shadows (text : String) :
    Shadows (if Text.Blank.trim text = "" then s.world.history else
        latest s.options.historyLimit (s.world.history ++ [Text.Blank.trim text]))
      (submitCommandBy (barring ["history", "-c"]) text) (submitCommand text) s := by
  unfold submitCommandBy submitCommand
  dsimp only
  split
  · exact .of_rests (respond_rests _)
  rw [← history_remember_eq]
  refine .modify_bind (.get_bind ?_)
  dsimp only
  cases Redirection.parse _ with
  | error problem => exact .of_keeps (finish_keepsHistory _ _ _ _)
  | ok redirection =>
      refine .ite (fun _ => .of_keeps (finish_keepsHistory _ _ _ _)) fun _ => .get_bind ?_
      refine .rests_bind (guard_rests _ _) fun warning t _ => ?_
      cases warning with
      | some warning =>
          exact .modify_bind (.rests_bind (note_rests _) fun _ _ _ => .of_rests (respond_rests _))
      | none => exact runLine_shadows _

theorem submitPassword_shadows (text : String) (line : CommandLine) (input said : Option String) :
    Shadows s.world.history (submitPasswordBy (barring ["history", "-c"]) text line input said)
      (submitPassword text line input said) s := by
  unfold submitPasswordBy submitPassword
  refine .modify_bind (.get_bind (.ite (fun _ => ?_) fun _ => ?_))
  · exact .rests_bind (note_rests _) fun _ _ _ => .of_keeps (finish_keepsHistory _ _ _ _)
  · refine .rests_bind (note_rests _) fun _ _ _ => .rests_bind (look_rests _) fun _ t _ => ?_
    refine .rests_bind (readInput_rests _ _ _ _) fun answer u _ => ?_
    cases answer with
    | error problem => exact .of_keeps (finish_keepsHistory _ _ _ _)
    | ok input => exact .bind (dispatch_shadows _) fun r v _ => .of_keeps (complete_keepsHistory _ _ _ _ _)

theorem submitInput_shadows (text : String) (line : CommandLine) (marker : String)
    (lines : List String) :
    Shadows s.world.history (submitInputBy (barring ["history", "-c"]) text line marker lines)
      (submitInput text line marker lines) s := by
  unfold submitInputBy submitInput
  refine .ite (fun _ => .modify_bind (.of_rests (respond_rests _))) fun _ => ?_
  refine .modify_bind (.get_bind (.rests_bind (look_rests _) fun _ t _ => ?_))
  refine .bind (dispatch_shadows _) fun r v _ => ?_
  split
  · exact .of_keeps (awaitPassword_keepsHistory _ _ _ _)
  · exact .of_keeps (complete_keepsHistory _ _ _ _ _)

theorem trim_withoutLineEnd (text : String) :
    Text.Blank.trim (withoutLineEnd text) = Text.Blank.trim text := by
  have hblank : ∀ c : Char, (c == '\r' || c == '\n') = true → Text.Blank.isBlank c = true := by
    intro c hc
    rcases Bool.or_eq_true_iff.1 hc with h | h <;> rw [eq_of_beq h] <;> rfl
  rw [withoutLineEnd, Text.Blank.trim_ofList, Text.Blank.tidy_dropWhileEnd_of_imp hblank,
    ← Text.Blank.toList_trim, String.ofList_toList]

theorem historyWith_of_normal (h : s.world.mode = .normal) : historyWith (s, .line text) =
    if Text.Blank.trim text = "" then s.world.history else
      latest s.options.historyLimit (s.world.history ++ [Text.Blank.trim text]) := by
  rw [historyWith, typed?_of_normal h]
  by_cases hblank : Text.Blank.trim text = ""
  · rw [if_pos hblank, if_pos hblank]
  · rw [if_neg hblank, if_neg hblank]

theorem historyWith_of_ne_normal (h : s.world.mode ≠ .normal) :
    historyWith (s, .line text) = s.world.history := by
  rw [historyWith, typed?_of_ne_normal h]

theorem submit_shadows (text : String) :
    Shadows (historyWith (s, .line text)) (submitBy (barring ["history", "-c"]) text)
      (submit text) s := by
  cases hmode : s.world.mode with
  | normal =>
      rw [historyWith_of_normal hmode, ← trim_withoutLineEnd]
      unfold submitBy submit
      refine .get_bind ?_
      rw [hmode]
      exact submitCommand_shadows _
  | password line input said =>
      rw [historyWith_of_ne_normal (by simp [hmode])]
      unfold submitBy submit
      refine .get_bind ?_
      rw [hmode]
      exact submitPassword_shadows _ _ _ _
  | collecting line marker lines =>
      rw [historyWith_of_ne_normal (by simp [hmode])]
      unfold submitBy submit
      refine .get_bind ?_
      rw [hmode]
      exact submitInput_shadows _ _ _ _
  | confirming line warning ctx =>
      rw [historyWith_of_ne_normal (by simp [hmode])]
      refine .of_same ?_ ((submit_rests_of_intent? (by rw [intent?, hmode]; rfl)).weaken
        Rests.keepsHistory)
      rw [submitBy, run_get_bind, hmode]
  | showing screen ctx command =>
      rw [historyWith_of_ne_normal (by simp [hmode])]
      refine .of_same ?_ ((submit_rests_of_intent? (by rw [intent?, hmode]; rfl)).weaken
        Rests.keepsHistory)
      rw [submitBy, run_get_bind, hmode]

/-- Of all answers, only the confirmation of a line has words run. -/
theorem resolve_keepsHistory {resolution : Resolution} (h : ∀ line warning ctx,
    s.world.mode = .confirming line warning ctx → resolution ≠ .confirmed) :
    Leads KeepsHistory (resolve resolution) s := by
  have hR := lasting_keepsHistory
  have hanswer : ∀ {make : String → Response} {t : Session}, Leads KeepsHistory (respond make) t :=
    (respond_rests _).weaken Rests.keepsHistory
  refine .get_bind ?_
  cases hmode : s.world.mode with
  | confirming line warning ctx =>
      refine .bind hR (.modify rfl) fun _ t _ => .ite (fun hconfirmed => ?_) fun _ => ?_
      · exact absurd hconfirmed (h line warning ctx hmode)
      exact .bind hR ((note_rests _).weaken Rests.keepsHistory) fun _ _ _ => hanswer
  | showing screen ctx command =>
      refine .bind hR (.modify rfl) fun _ t _ => .get_bind ?_
      exact .bind hR (step_leads (Screens.close_leads World.moves_keepsHistory.writes _ _ _)) fun _ _ _ =>
        finish_keepsHistory _ _ _ _
  | normal => exact hanswer
  | collecting line marker lines => exact hanswer
  | password line input said => exact hanswer

theorem resolve_shadows (resolution : Resolution) :
    Shadows s.world.history (resolveBy (barring ["history", "-c"]) resolution) (resolve resolution)
      s := by
  cases hmode : s.world.mode with
  | confirming line warning ctx =>
      by_cases hconfirmed : resolution = .confirmed
      · subst hconfirmed
        unfold resolveBy resolve
        refine .get_bind ?_
        rw [hmode]
        exact .modify_bind (.rests_bind (note_rests _) fun _ _ _ => runLine_shadows _)
      · refine .of_same ?_ (resolve_keepsHistory fun _ _ _ _ => hconfirmed)
        rw [resolveBy, run_get_bind, hmode]
        dsimp only
        rw [if_neg hconfirmed]
  | _ =>
      refine .of_same ?_ (resolve_keepsHistory fun _ _ _ hother => nomatch hmode.symm.trans hother)
      rw [resolveBy, run_get_bind, hmode]

/-- A question that does not start over does not change the world. -/
theorem ask_rests_of_goesOn (h : ¬ StartsOver (s, .question text)) : Leads Rests (ask text) s := by
  by_cases hmode : s.world.mode = .normal
  · exact ask_rests fun hreset => h ⟨hmode, hreset⟩
  · refine .get_bind ?_
    split
    · exact absurd ‹_› hmode
    · exact .pure lasting_rests _ s

/-- What an input that does not start over does to the history. -/
theorem act_shadows {i : Input} (h : ¬ StartsOver (s, i)) :
    Shadows (historyWith (s, i)) (actBy (barring ["history", "-c"]) i) i.act s := by
  have hR := lasting_keepsHistory
  have hdrop : ∀ {α : Type} {action : Action α}, Leads KeepsHistory action s →
      Leads KeepsHistory (do let _ ← action : Action Unit) s := fun haction =>
    .bind hR haction fun _ t _ => .pure hR _ t
  cases i with
  | line text => exact .bind (submit_shadows text) fun _ t _ => .of_keeps (.pure hR _ t)
  | answer resolution => exact .bind (resolve_shadows resolution) fun _ t _ => .of_keeps (.pure hR _ t)
  | question text => exact .of_keeps (hdrop ((ask_rests_of_goesOn h).weaken Rests.keepsHistory))
  | hint level => exact .of_keeps (hdrop ((hint_rests level).weaken Rests.keepsHistory))
  | reset => exact absurd trivial h
  | close => exact .of_keeps (close_rests.weaken Rests.keepsHistory)
  | tick seconds => exact .of_keeps (.modify rfl)

/-- An input that does not fail clears the history exactly if it has `history -c` run; otherwise it adds
what is typed. -/
theorem history_next {i : Input} (hfails : ¬ Fails i.act s) (h : ¬ StartsOver (s, i)) :
    (s.next i).world.history = if Executes ["history", "-c"] (s, i) then []
      else historyWith (s, i) := by
  obtain ⟨a, t, hrun⟩ := not_fails_iff.1 hfails
  rw [next, hrun, left_ok]
  rcases act_shadows h a t hrun with ⟨hbarred, hempty⟩ | ⟨hsame, hkept⟩
  · have hclears : Executes ["history", "-c"] (s, i) := hbarred
    rw [if_pos hclears, hempty]
  · have hclears : ¬ Executes ["history", "-c"] (s, i) := not_fails_of_ok hsame
    rw [if_neg hclears, hkept]

/-- It is the password that has a `history -c` behind `sudo` run. -/
example : ¬ Executes ["history", "-c"] (justBegun, .line "sudo history -c") ∧
    Executes ["history", "-c"] (justBegun.next (.line "sudo history -c"), .line "secret") := by
  decide +kernel

/-- What the history holds after a run is the last of what has been typed since it was cleared. -/
theorem history_after {inputs : List Input} (hempty : s.world.history = [])
    (h : ∀ step ∈ s.steps inputs, ¬ Fails step.2.act step.1 ∧ ¬ StartsOver step) :
    (s.after inputs).world.history =
      latest s.options.historyLimit ((s.sinceClearing inputs).filterMap typed?) := by
  induction inputs using List.reverseRecOn with
  | nil => exact hempty.trans (latest_nil _).symm
  | append_singleton inputs i ih =>
      rw [steps_concat] at h
      obtain ⟨hfails, hgoes⟩ := h (s.after inputs, i) (by simp)
      have hbefore := ih fun step hstep => h step (List.mem_append_left _ hstep)
      rw [after_concat, history_next hfails hgoes, sinceClearing, steps_concat]
      by_cases hclears : Executes ["history", "-c"] (s.after inputs, i)
      · rw [if_pos hclears, List.rtakeWhile_concat_neg _ _ _ (by simpa using hclears), List.filterMap_nil,
          latest_nil]
      · rw [if_neg hclears, List.rtakeWhile_concat_pos _ _ _ (by simpa using hclears),
          List.filterMap_append, historyWith, hbefore, (after_abides inputs).options]
        change _ = latest _ ((s.sinceClearing inputs).filterMap typed? ++ _)
        cases htyped : typed? (s.after inputs, i) with
        | none => simp [htyped]
        | some line => simp [htyped, latest_latest_append]

/-- As long as nothing fails and nothing starts over, the history holds the last of the lines that have
been typed as command lines since `history -c` was run. So a line that is given for anything else, be it
a password, input for a command, or while something is shown, does not come into it. -/
theorem history_holds_lines_typed {o : SessionOptions} {adventure : Option Adventure}
    {store : Option ProgressStore} {resume : Bool} {now : Int}
    (hstart : start o adventure store resume now = .ok s) {inputs : List Input}
    (h : ∀ step ∈ s.steps inputs, ¬ Fails step.2.act step.1 ∧ ¬ StartsOver step) :
    (s.after inputs).world.history =
        latest o.historyLimit ((s.sinceClearing inputs).filterMap typed?) ∧
      ∀ text, (s.after inputs).world.mode ≠ .normal → ¬ Fails (Input.line text).act (s.after inputs) →
        ((s.after inputs).next (.line text)).world.history = (s.after inputs).world.history ∨
          ((s.after inputs).next (.line text)).world.history = [] := by
  obtain ⟨tracker, w, -, hworld, rfl⟩ := start_eq_ok_iff.1 hstart
  refine ⟨history_after (history_startWorld hworld) h, fun text hmode hfails => ?_⟩
  rw [history_next hfails id, historyWith_of_ne_normal hmode]
  split
  · exact .inr rfl
  · exact .inl rfl

/-- A session that remembers two lines. -/
def forgetful : Session := { justBegun with options := ⟨"ada", "lab", "secret", [], true, 2⟩ }

theorem start_forgetful : start ⟨"ada", "lab", "secret", [], true, 2⟩ none none true 0 =
    .ok forgetful := by
  obtain ⟨tracker, w, htracker, hworld, hbegun⟩ := start_eq_ok_iff.1 start_justBegun
  exact start_eq_ok_iff.2 ⟨tracker, w, htracker, hworld, by rw [forgetful, hbegun]⟩

/-- A run in which the history is cleared with the password, and a text is typed for `cat`. -/
def tidying : List Input :=
  [.line "ls", .line "sudo history -c", .line "secret", .line " whoami ", .line "cat << END",
    .line "hidden", .line "END", .line "  ", .line "pwd"]

theorem tidied_history_holds_two_lines :
    start ⟨"ada", "lab", "secret", [], true, 2⟩ none none true 0 = .ok forgetful ∧
      (∀ step ∈ forgetful.steps tidying, ¬ Fails step.2.act step.1 ∧ ¬ StartsOver step) ∧
      (forgetful.sinceClearing tidying).filterMap typed? = ["whoami", "cat << END", "pwd"] ∧
      (forgetful.after tidying).world.history = ["cat << END", "pwd"] ∧
      (∀ step ∈ forgetful.steps (tidying.take 5), ¬ Fails step.2.act step.1 ∧ ¬ StartsOver step) ∧
      (forgetful.after (tidying.take 5)).world.mode ≠ .normal ∧
      ¬ Fails (Input.line "hidden").act (forgetful.after (tidying.take 5)) ∧
      (((forgetful.after (tidying.take 5)).next (.line "hidden")).world.history =
          (forgetful.after (tidying.take 5)).world.history ∨
        ((forgetful.after (tidying.take 5)).next (.line "hidden")).world.history = []) := by
  have hsteps : ∀ step ∈ forgetful.steps tidying, ¬ Fails step.2.act step.1 ∧ ¬ StartsOver step := by
    decide +kernel
  have htyped : (forgetful.sinceClearing tidying).filterMap typed? =
      ["whoami", "cat << END", "pwd"] := by decide +kernel
  have hfirst : ∀ step ∈ forgetful.steps (tidying.take 5),
      ¬ Fails step.2.act step.1 ∧ ¬ StartsOver step := by decide +kernel
  have hmode : (forgetful.after (tidying.take 5)).world.mode ≠ .normal := by decide +kernel
  have hfails : ¬ Fails (Input.line "hidden").act (forgetful.after (tidying.take 5)) := by
    decide +kernel
  obtain ⟨hhistory, -⟩ := history_holds_lines_typed start_forgetful hsteps
  rw [htyped] at hhistory
  obtain ⟨-, hother⟩ := history_holds_lines_typed start_forgetful hfirst
  exact ⟨start_forgetful, hsteps, htyped, hhistory, hfirst, hmode, hfails,
    hother "hidden" hmode hfails⟩

end Session

end PracticeShell
