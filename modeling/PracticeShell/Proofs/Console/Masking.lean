import Mathlib.Logic.Relation
import PracticeShell.Proofs.Session.Course
import PracticeShell.Proofs.Session.Telling
import PracticeShell.Serve

/-!
# Passwords on a screen

A console hides the next line exactly if its session waits for a password (`Console.IsSteady`), since it
goes by what the last response tells. What is typed then is checked as a password and recorded as
`[password]`; whatever else is typed is never checked as one.
-/

namespace PracticeShell

open Run

namespace Session

variable {s : Session}

/-- A line that is no question leaves the session as it is. -/
theorem eq_of_ask {text : String} {t : Session} (h : (ask text).run s = .ok none t) : t = s := by
  rw [ask, run_get_bind] at h
  split at h
  · obtain ⟨r, u, -, hlater⟩ := run_bind_eq_ok_iff.1 h
    cases hlater
  · cases h
    rfl

/-- The response to a line, whether it is a question or not, tells how the session waits then. -/
theorem take_told (line : String) : Told (take line) s := by
  refine .bind fun answered t hask => ?_
  cases answered with
  | some r => exact pure_told (tells_of_ask hask)
  | none => exact submit_told line

theorem take_checksNone (hmode : s.world.mode.isPassword = false) (line : String) :
    Leads ChecksNone (take line) s := by
  refine .bind lasting_checksNone (ask_checksNone _) fun answered t hask => ?_
  cases answered with
  | some r => exact lasting_checksNone.refl t
  | none =>
      have hsubmit := attempts_submit (s := t) line
      rw [eq_of_ask hask, hmode] at hsubmit
      rw [eq_of_ask hask]
      exact hsubmit

end Session

namespace Console

/-- Whether what the next line is for fits how a session waits. -/
def Waiting.Fits (s : Session) : Waiting → Prop
  | line prompt masked => masked = s.world.mode.isPassword ∧ prompt = s.prompt
  | page _ | edit _ | confirm _ => s.intent?.isSome

/-- Whether a console takes the next line for what its session waits for. -/
def IsSteady (c : Console) : Prop := c.waiting.Fits c.session

/-- Whether a console is steady after a run, unless the run fails. -/
def Steadies (x : Action Unit) (c : Console) : Prop := ∀ d, x.run c = .ok () d → d.IsSteady

/-- Whether nothing but what is shown of a console changes. -/
structure Shows (c d : Console) : Prop where
  session : d.session = c.session
  waiting : d.waiting = c.waiting
  inputs : d.inputs = c.inputs

variable {c : Console}

theorem Steadies.bind {α : Type} {x : Action α} {f : α → Action Unit}
    (h : ∀ a d, x.run c = .ok a d → Steadies (f a) d) : Steadies (x >>= f) c := by
  intro e hrun
  obtain ⟨a, d, hfirst, hlater⟩ := run_bind_eq_ok_iff.1 hrun
  exact h a d hfirst e hlater

theorem run_act {α : Type} (action : Session.Action α) (c : Console) :
    (act action).run c = match action.run c.session with
      | .ok a session => .ok a { c with session }
      | .error e session => .error e { c with session } := rfl

/-- What a session is let do is done by the session of the console, and nothing else changes. -/
theorem of_act {α : Type} {action : Session.Action α} {a : α} {d : Console}
    (h : (act action).run c = .ok a d) :
    action.run c.session = .ok a d.session ∧ d.waiting = c.waiting ∧ d.inputs = c.inputs := by
  rw [run_act] at h
  cases haction : action.run c.session with
  | ok b session =>
      rw [haction] at h
      cases h
      exact ⟨rfl, rfl, rfl⟩
  | error e session =>
      rw [haction] at h
      cases h

section Showing

theorem lasting_shows : Lasting Shows :=
  ⟨fun _ => ⟨rfl, rfl, rfl⟩, fun h h' => ⟨h'.session.trans h.session, h'.waiting.trans h.waiting,
    h'.inputs.trans h.inputs⟩⟩

theorem write_shows (text : String) : Leads Shows (write text) c :=
  .ite (fun _ => .pure lasting_shows _ c) fun _ => .modify ⟨rfl, rfl, rfl⟩

theorem writeLine_shows (text : String) : Leads Shows (writeLine text) c := write_shows _

theorem writeLines_shows (lines : List String) : Leads Shows (writeLines lines) c :=
  .forM lasting_shows (fun _ _ _ => writeLine_shows _) c

theorem print_shows (r : Response) : Leads Shows (print r) c := by
  have hR := lasting_shows
  refine .ite (fun _ => .bind hR (writeLine_shows _) fun _ d _ => ?_) fun _ => ?_
  all_goals
    refine .ite (fun _ => .get_bind (.bind hR (writeLine_shows _) fun _ e _ => ?_)) fun _ => ?_
  all_goals exact .bind hR (writeLines_shows _) fun _ _ _ => .modify ⟨rfl, rfl, rfl⟩

end Showing

section Steady

/-- What is typed after a response goes to the session, and is hidden if that waits for a password. -/
theorem goBack_steadies {r : Response} (h : r.Tells c.session) : Steadies (goBack r) c := by
  intro d hrun
  cases hrun
  exact ⟨h.masked, h.prompt⟩

theorem await_steadies {waiting : Waiting} (h : waiting.Fits c.session) :
    Steadies (await waiting) c := by
  intro d hrun
  cases hrun
  exact h

theorem close_steadies (h : c.session.intent?.isSome) (resolution : Resolution) :
    Steadies (close resolution) c := by
  refine .bind fun r d hact => .bind fun _ e hprint => goBack_steadies ?_
  rw [((print_shows r).of_run hprint).session]
  exact Session.resolve_told h resolution r d.session (of_act hact).1

theorem showPages_steadies (h : c.session.intent?.isSome) (pages : List (List String)) :
    Steadies (showPages pages) c := by
  have hwritten : ∀ {lines : List String} {d : Console}, (writeLines lines).run c = .ok () d →
      d.session.intent?.isSome := fun hrun => by
    rwa [((writeLines_shows _).of_run hrun).session]
  match pages with
  | [] => exact close_steadies h _
  | [lines] => exact .bind fun _ d hrun => close_steadies (hwritten hrun) _
  | lines :: next :: rest => exact .bind fun _ d hrun => await_steadies (hwritten hrun)

theorem showText_steadies (h : c.session.intent?.isSome) (content : String) :
    Steadies (showText content) c := by
  refine .bind fun shown d hget => ?_
  cases hget
  cases c.manner.height with
  | some height => exact showPages_steadies h _
  | none =>
      refine .bind fun _ d hrun => close_steadies ?_ _
      rwa [((write_shows _).of_run hrun).session]

theorem openEditor_steadies (h : c.session.intent?.isSome) (path content command : String)
    (isNew : Bool) : Steadies (openEditor path content command isNew) c := by
  refine .bind fun shown d hget => .bind fun _ e htitle => .bind fun _ x hlines =>
    .bind fun _ y hhelp => await_steadies ?_
  cases hget
  have hshows := lasting_shows.trans ((writeLine_shows _).of_run htitle)
    (lasting_shows.trans ((writeLines_shows _).of_run hlines) ((writeLine_shows _).of_run hhelp))
  rwa [Waiting.Fits, hshows.session]

/-- Whatever a response opens, the console goes on to what the session waits for. -/
theorem render_steadies {r : Response} (h : r.Tells c.session) : Steadies (render r) c := by
  refine .bind fun _ d hprint => .bind fun shown e hget => ?_
  cases hget
  have hsession := ((print_shows r).of_run hprint).session
  rw [← hsession] at h
  split
  · rename_i hpending
    exact showText_steadies (by rw [hpending]; rfl) _
  · rename_i hpending
    exact openEditor_steadies (by rw [hpending]; rfl) _ _ _ _
  · rename_i command warning intent hintent hpending
    refine .bind fun _ x htitle => .bind fun _ y hmessage => await_steadies ?_
    have hshows := lasting_shows.trans ((writeLine_shows _).of_run htitle)
      ((writeLine_shows _).of_run hmessage)
    rw [Waiting.Fits, hshows.session, hpending]
    rfl
  · exact goBack_steadies h

theorem takeLine_steadies (line : String) (masked : Bool) : Steadies (takeLine line masked) c := by
  unfold takeLine
  split
  · refine .bind fun _ d hrecord => .bind fun r e hact => render_steadies ?_
    exact Session.submit_told line r e.session (of_act hact).1
  · refine .bind fun r d hact => .bind fun _ e hrecord => render_steadies ?_
    cases hrecord
    exact Session.take_told line r d.session (of_act hact).1

theorem takeAnswer_steadies (h : c.session.intent?.isSome) (answer : String) :
    Steadies (takeAnswer answer) c :=
  .bind fun r d hact => render_steadies (Session.resolve_told h _ r d.session (of_act hact).1)

theorem takeText_steadies (h : c.session.intent?.isSome) (line : String) (lines : List String) :
    Steadies (takeText line lines) c := by
  unfold takeText
  split
  · exact close_steadies h _
  split
  · exact close_steadies h _
  · exact await_steadies h

theorem takePage_steadies (h : c.session.intent?.isSome) (answer : String)
    (pages : List (List String)) : Steadies (takePage answer pages) c := by
  unfold takePage
  split
  · exact close_steadies h _
  · exact showPages_steadies h _

/-- A steady console is steady after it has taken a line. -/
theorem take_steadies (h : c.IsSteady) (line : String) : Steadies (take line) c := by
  refine .bind fun shown d hget => ?_
  cases hget
  unfold IsSteady at h
  cases hwaiting : c.waiting with
  | line prompt masked => exact takeLine_steadies _ _
  | page pages =>
      rw [hwaiting] at h
      exact takePage_steadies h _ _
  | edit lines =>
      rw [hwaiting] at h
      exact takeText_steadies h _ _
  | confirm warning =>
      rw [hwaiting] at h
      exact takeAnswer_steadies h _

/-- A steady console hides the next line exactly if its session waits for a password. -/
theorem IsSteady.isMasked (h : c.IsSteady) : c.isMasked = c.session.world.mode.isPassword := by
  unfold IsSteady at h
  unfold Console.isMasked
  cases hwaiting : c.waiting with
  | line prompt masked =>
      rw [hwaiting] at h
      exact h.1
  | page pages =>
      rw [hwaiting] at h
      exact (Mode.isPassword_of_intent? h).symm
  | edit lines =>
      rw [hwaiting] at h
      exact (Mode.isPassword_of_intent? h).symm
  | confirm warning =>
      rw [hwaiting] at h
      exact (Mode.isPassword_of_intent? h).symm

end Steady

section Recorded

/-- Whether some passwords have been checked, and nothing has been recorded. -/
structure Checks (count : Nat) (c d : Console) : Prop where
  attempts : d.session.attempts = c.session.attempts + count
  inputs : d.inputs = c.inputs

theorem lasting_checks : Lasting (Checks 0) :=
  ⟨fun _ => ⟨rfl, rfl⟩, fun h h' => ⟨h'.attempts.trans h.attempts, h'.inputs.trans h.inputs⟩⟩

theorem Checks.trans {count : Nat} {d e : Console} (h : Checks count c d) (h' : Checks 0 d e) :
    Checks count c e :=
  ⟨h'.attempts.trans h.attempts, h'.inputs.trans h.inputs⟩

theorem Shows.checks {d : Console} (h : Shows c d) : Checks 0 c d := ⟨by rw [h.session]; rfl, h.inputs⟩

theorem act_checks {α : Type} {action : Session.Action α} {count : Nat}
    (h : (left (action.run c.session)).attempts = c.session.attempts + count) :
    Leads (Checks count) (act action) c := by
  rw [Leads, run_act]
  cases hrun : action.run c.session with
  | ok a session =>
      rw [hrun] at h
      exact ⟨h, rfl⟩
  | error e session =>
      rw [hrun] at h
      exact ⟨h, rfl⟩

theorem print_checks (r : Response) : Leads (Checks 0) (print r) c :=
  (print_shows r).weaken Shows.checks

theorem goBack_checks (r : Response) : Leads (Checks 0) (goBack r) c := ⟨rfl, rfl⟩

theorem await_checks (waiting : Waiting) : Leads (Checks 0) (await waiting) c := ⟨rfl, rfl⟩

theorem close_checks (resolution : Resolution) : Leads (Checks 0) (close resolution) c := by
  have hR := lasting_checks
  refine .bind hR (act_checks (Session.resolve_checksNone resolution)) fun r d _ => ?_
  exact .bind hR (print_checks r) fun _ e _ => goBack_checks r

theorem showPages_checks (pages : List (List String)) : Leads (Checks 0) (showPages pages) c := by
  have hwrites : ∀ lines, Leads (Checks 0) (writeLines lines) c := fun lines =>
    (writeLines_shows lines).weaken Shows.checks
  match pages with
  | [] => exact close_checks _
  | [lines] => exact .bind lasting_checks (hwrites lines) fun _ d _ => close_checks _
  | lines :: next :: rest => exact .bind lasting_checks (hwrites lines) fun _ _ _ => await_checks _

theorem showText_checks (content : String) : Leads (Checks 0) (showText content) c := by
  refine .get_bind ?_
  cases c.manner.height with
  | some height => exact showPages_checks _
  | none =>
      exact .bind lasting_checks ((write_shows _).weaken Shows.checks) fun _ d _ => close_checks _

theorem openEditor_checks (path content command : String) (isNew : Bool) :
    Leads (Checks 0) (openEditor path content command isNew) c := by
  have hR := lasting_checks
  refine .get_bind (.bind hR ((writeLine_shows _).weaken Shows.checks) fun _ d _ => ?_)
  refine .bind hR ((writeLines_shows _).weaken Shows.checks) fun _ e _ => ?_
  exact .bind hR ((writeLine_shows _).weaken Shows.checks) fun _ _ _ => await_checks _

theorem render_checks (r : Response) : Leads (Checks 0) (render r) c := by
  have hR := lasting_checks
  refine .bind hR (print_checks r) fun _ d _ => .get_bind ?_
  split
  · exact showText_checks _
  · exact openEditor_checks _ _ _ _
  · refine .bind hR ((writeLine_shows _).weaken Shows.checks) fun _ e _ => ?_
    exact .bind hR ((writeLine_shows _).weaken Shows.checks) fun _ _ _ => await_checks _
  · exact goBack_checks r

theorem takeAnswer_checks (answer : String) : Leads (Checks 0) (takeAnswer answer) c :=
  .bind lasting_checks (act_checks (Session.resolve_checksNone _)) fun r _ _ => render_checks r

theorem takeText_checks (line : String) (lines : List String) :
    Leads (Checks 0) (takeText line lines) c :=
  .ite (fun _ => close_checks _) fun _ => .ite (fun _ => close_checks _) fun _ => await_checks _

theorem takePage_checks (answer : String) (pages : List (List String)) :
    Leads (Checks 0) (takePage answer pages) c :=
  .ite (fun _ => close_checks _) fun _ => showPages_checks _

/-- A hidden line is checked as a password and recorded as one, even if something fails then. -/
theorem takeLine_masked (hmode : c.session.world.mode.isPassword = true) (line : String) :
    Leads (fun c d => d.session.attempts = c.session.attempts + 1 ∧
      d.inputs = c.inputs ++ ["[password]"]) (takeLine line true) c := by
  have hsubmit := Session.attempts_submit (s := c.session) line
  rw [hmode] at hsubmit
  have hrecorded : Leads (Checks 1) (do render (← act (Session.submit line)))
      { c with inputs := c.inputs ++ ["[password]"] } :=
    .bind_onto Checks.trans (act_checks hsubmit) fun r d _ => render_checks r
  exact ⟨hrecorded.attempts, hrecorded.inputs⟩

/-- A line that is not hidden is checked as no password, and is recorded if there is a response. -/
theorem takeLine_plain (hmode : c.session.world.mode.isPassword = false) (line : String) :
    Leads (fun c d => d.session.attempts = c.session.attempts ∧
      (d.inputs = c.inputs ∨ d.inputs = c.inputs ++ [line])) (takeLine line false) c := by
  have htaken := Session.take_checksNone hmode line
  rw [Leads] at htaken ⊢
  rw [takeLine, if_neg Bool.false_ne_true, EStateM.run_bind, run_act]
  cases hsession : (Session.take line).run c.session with
  | ok r session =>
      rw [hsession] at htaken
      have hrendered : Leads (Checks 0) (render r) { c with session, inputs := c.inputs ++ [line] } :=
        render_checks r
      exact ⟨hrendered.attempts.trans htaken, .inr hrendered.inputs⟩
  | error e session =>
      rw [hsession] at htaken
      exact ⟨htaken, .inl rfl⟩

/-- Whether a line was checked as a password and recorded as one if it was hidden, and otherwise was
not. -/
structure Took (line : String) (c d : Console) : Prop where
  attempts : d.session.attempts = c.session.attempts + if c.isMasked then 1 else 0
  hidden : c.isMasked = true → d.inputs = c.inputs ++ ["[password]"]
  plain : c.isMasked = false → d.inputs = c.inputs ∨ d.inputs = c.inputs ++ [line]

theorem Checks.took {d : Console} (h : Checks 0 c d) (hmasked : c.isMasked = false) (line : String) :
    Took line c d where
  attempts := by rw [h.attempts, hmasked, if_neg Bool.false_ne_true]
  hidden := fun hhidden => absurd hhidden (by rw [hmasked]; exact Bool.false_ne_true)
  plain := fun _ => .inl h.inputs

/-- What a steady console does with a line, whether or not something fails. -/
theorem take_took (h : c.IsSteady) (line : String) : Leads (Took line) (take line) c := by
  have hmode := h.isMasked
  have hplain : ∀ {x : Action Unit}, Leads (Checks 0) x c → c.isMasked = false →
      Leads (Took line) x c := fun hx hmasked => hx.weaken fun h => h.took hmasked line
  refine .get_bind ?_
  cases hwaiting : c.waiting with
  | page pages => exact hplain (takePage_checks line pages) (by rw [Console.isMasked, hwaiting])
  | edit lines => exact hplain (takeText_checks line lines) (by rw [Console.isMasked, hwaiting])
  | confirm warning => exact hplain (takeAnswer_checks line) (by rw [Console.isMasked, hwaiting])
  | line prompt masked =>
      have hsame : c.isMasked = masked := by rw [Console.isMasked, hwaiting]
      rw [hsame] at hmode
      cases masked with
      | true =>
          obtain ⟨hattempts, hinputs⟩ := takeLine_masked hmode.symm line
          refine ⟨?_, fun _ => hinputs, fun hplain => ?_⟩
          · rw [hattempts, hsame, if_pos rfl]
          · rw [hsame] at hplain
            cases hplain
      | false =>
          obtain ⟨hattempts, hinputs⟩ := takeLine_plain hmode.symm line
          refine ⟨?_, fun hhidden => ?_, fun _ => hinputs⟩
          · rw [hattempts, hsame, if_neg Bool.false_ne_true, Nat.add_zero]
          · rw [hsame] at hhidden
            cases hhidden

end Recorded

end Console

namespace Serve

/-- Whether a connection comes to another by reading some lines. -/
def Reaches : Connection → Connection → Prop := Relation.ReflTransGen fun c d => step c = (none, d)

variable {c d : Connection}

/-- A connection that goes on has read a line, and its console has taken it. -/
theorem step_cases (h : step c = (none, d)) : ∃ line,
    (c.terminal.readLine c.console.prompt c.console.isMasked).line = some line ∧
      ∃ console, (Console.take line).run c.console = .ok () console ∧
        d.console = { console with written := [] } := by
  unfold step at h
  dsimp only at h
  split at h
  · cases h
  · rename_i line hread
    refine ⟨line, hread, ?_⟩
    split at h
    · rename_i console htake
      refine ⟨console, htake, ?_⟩
      rw [← (Prod.mk.inj h).2]
      rfl
    · cases h

theorem isSteady_of_reaches (h : Reaches c d) (hc : c.console.IsSteady) : d.console.IsSteady := by
  induction h with
  | refl => exact hc
  | tail _ hstep ih =>
      obtain ⟨line, -, console, htake, hconsole⟩ := step_cases hstep
      have hsteady := Console.take_steadies ih line console htake
      rw [hconsole]
      exact hsteady

/-- What a steady console at a terminal does with the line that is read for it. -/
theorem step_took (h : c.console.IsSteady) {line : String}
    (hread : (c.terminal.readLine c.console.prompt c.console.isMasked).line = some line) :
    Console.Took line c.console (step c).2.console := by
  have htook := Console.take_took h line
  unfold step
  dsimp only
  rw [hread]
  dsimp only
  rw [Leads, EStateM.run] at htook
  cases htake : Console.take line c.console with
  | ok done console =>
      rw [htake] at htook
      exact ⟨htook.attempts, htook.hidden, htook.plain⟩
  | error e console =>
      rw [htake] at htook
      exact ⟨htook.attempts, htook.hidden, htook.plain⟩

/-- Every response to a line, to a question, or to an answer that was waited for tells how the session
waits. So whatever lines are read over the network, the next one is hidden exactly if the session waits
for a password; it is then checked as one and recorded as `[password]`, and otherwise it is not. -/
theorem lines_are_read_as_told :
    (∀ s text, Session.Told (Session.submit text) s) ∧
    (∀ s resolution, s.intent?.isSome → Session.Told (Session.resolve resolution) s) ∧
    (∀ s text r t, (Session.ask text).run s = .ok (some r) t → r.Tells t) ∧
    ∀ s height terminal c, s.world.mode.isPassword = false →
      Reaches ⟨.start s (.network height), terminal, ""⟩ c →
        c.console.isMasked = c.console.session.world.mode.isPassword ∧
        ∀ line, (c.terminal.readLine c.console.prompt c.console.isMasked).line = some line →
          Console.Took line c.console (step c).2.console := by
  refine ⟨fun _ => Session.submit_told, fun _ resolution h => Session.resolve_told h resolution,
    fun _ _ _ _ => Session.tells_of_ask, fun s height terminal c hmode hreaches => ?_⟩
  have hsteady := isSteady_of_reaches hreaches ⟨hmode.symm, rfl⟩
  exact ⟨hsteady.isMasked, fun line => step_took hsteady⟩

/-- A session that shows a text in a pager. -/
def paging : Session := { Session.justBegun with
  world := { Session.justBegun.world with
    mode := .showing (.pager "/home/ada/notes" "by the sea" "less") ⟨"/home/ada", "ada", false⟩
      "less notes" } }

/-- A terminal at which a learner types a command that needs the password, and the password. -/
def typing : Connection :=
  ⟨.start Session.justBegun (.network 24),
    .start [(Text.Utf8.encode "sudo whoami\rsecret\r").toList], ""⟩

theorem password_is_read_in_hiding :
    paging.intent?.isSome ∧ Session.Told (Session.resolve .cancelled) paging ∧
      Session.justBegun.world.mode.isPassword = false ∧ Reaches typing (step typing).2 ∧
      (step typing).2.console.session.world.mode.isPassword = true ∧
      (step typing).2.console.isMasked = true ∧
      ((step typing).2.terminal.readLine (step typing).2.console.prompt true).line = some "secret" ∧
      Console.Took "secret" (step typing).2.console (step (step typing).2).2.console := by
  have hgoes : (step typing).1.isNone = true := by decide +kernel
  have hreaches : Reaches typing (step typing).2 :=
    .single (Prod.ext (Option.isNone_iff_eq_none.1 hgoes) rfl)
  obtain ⟨-, hanswers, -, hserves⟩ := lines_are_read_as_told
  have hasks : (step typing).2.console.session.world.mode.isPassword = true := by decide +kernel
  have hread : ((step typing).2.terminal.readLine (step typing).2.console.prompt true).line =
      some "secret" := by decide +kernel
  obtain ⟨hmasked, htook⟩ := hserves Session.justBegun 24 _ _ rfl hreaches
  rw [hasks] at hmasked
  refine ⟨rfl, hanswers paging .cancelled rfl, rfl, hreaches, hasks, hmasked, hread, htook _ ?_⟩
  rw [hmasked]
  exact hread

end Serve

end PracticeShell
