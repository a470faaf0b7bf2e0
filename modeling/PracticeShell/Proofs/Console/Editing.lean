import PracticeShell.Proofs.Console.Masking
import PracticeShell.Proofs.Console.Paging
import PracticeShell.Proofs.Session.Editing
import PracticeShell.Proofs.Terminal.Keys
import PracticeShell.Proofs.Tracker.Deciding

/-!
# Editors at a terminal

A line that opens an editor is read at a terminal, then the lines of the text, then the line that closes
the editor. Each of them is a step of the connection, and what is typed meanwhile goes into the text and
nowhere else (`Serve.loop_lines`). So the session gets two inputs, whatever the lines look like
(`Serve.edited_lines_are_saved`).
-/

namespace PracticeShell

open Run

/-- A line that is no question is for the shell. -/
theorem Session.run_take {text : String} (h : Question.read? (Text.Blank.trim text) = none)
    (s : Session) : (take text).run s = (submit text).run s := by
  have hask : (ask (Text.Blank.trim text)).run s = .ok none s := by
    rw [ask, run_get_bind, h]
    cases s.world.mode <;> rfl
  rw [take, run_bind_of_ok hask]

namespace Console

variable {c : Console} {events : List Event}

/-- Whether an action does nothing but write and tell of events. -/
def Prints (events : List Event) (x : Action Unit) (c : Console) : Prop :=
  ∃ pieces, x.run c =
    .ok () { c with written := c.written ++ pieces, events := c.events ++ events }

namespace Prints

theorem modify : Prints events (modify fun c => { c with events := c.events ++ events }) c :=
  ⟨[], by rw [List.append_nil]; rfl⟩

theorem ite {p : Prop} [Decidable p] {x y : Action Unit} (hx : Prints events x c)
    (hy : Prints events y c) : Prints events (if p then x else y) c := by
  split
  · exact hx
  · exact hy

theorem writeLines_bind {lines : List String} {f : Unit → Action Unit}
    (h : ∀ d, Prints events (f ()) d) : Prints events (writeLines lines >>= f) c := by
  obtain ⟨pieces, hrun⟩ := h { c with written := c.written ++ lines.map (· ++ "\n") }
  refine ⟨lines.map (· ++ "\n") ++ pieces, ?_⟩
  rw [run_bind_of_ok (run_writeLines lines c), hrun, List.append_assoc]

theorem writeLine_bind {line : String} {f : Unit → Action Unit} (h : ∀ d, Prints events (f ()) d) :
    Prints events (writeLine line >>= f) c := by
  obtain ⟨pieces, hrun⟩ := h { c with written := c.written ++ [line ++ "\n"] }
  refine ⟨[line ++ "\n"] ++ pieces, ?_⟩
  rw [run_bind_of_ok (run_writeLine line c), hrun, List.append_assoc]

end Prints

/-- What a response says is written, and its events are kept. -/
theorem print_prints (r : Response) (c : Console) : Prints r.events (print r) c := by
  have hlast : ∀ d, Prints r.events (do
      writeLines (r.events.map fun e => Look.green.apply e.describe)
      modify fun c => { c with events := c.events ++ r.events }) d := fun _ =>
    .writeLines_bind fun _ => .modify
  have herrors : ∀ d, Prints r.events (do
      if r.errors ≠ "" then
        let errors := Text.Lines.trimEnd r.errors
        writeLine (if (← get).manner.redErrors then Look.red.apply errors else errors)
      writeLines (r.events.map fun e => Look.green.apply e.describe)
      modify fun c => { c with events := c.events ++ r.events }) d := fun d =>
    .ite (.writeLine_bind hlast) (hlast d)
  exact .ite (.writeLine_bind herrors) (herrors c)

theorem run_openEditor (path content command : String) (isNew : Bool) (c : Console) : ∃ pieces,
    (openEditor path content command isNew).run c =
      .ok () { c with written := c.written ++ pieces, waiting := .edit [] } := by
  unfold openEditor
  rw [run_get_bind, run_bind_of_ok (run_writeLine _ _), run_bind_of_ok (run_writeLines _ _),
    run_bind_of_ok (run_writeLine _ _)]
  simp only [List.append_assoc]
  exact ⟨_, rfl⟩

variable {s t : Session} {r : Response} {text full : String} {fs : FileSystem}

/-- A console opens an editor that its session shows. -/
theorem run_render_editor {path content command : String} {asRoot isNew : Bool}
    (hintent : r.intent = some (.screen (.editor path content command asRoot isNew)))
    (hshows : c.session.intent?.isSome) : ∃ pieces, (render r).run c =
      .ok () { c with
        waiting := .edit []
        written := c.written ++ pieces
        events := c.events ++ r.events } := by
  obtain ⟨said, hprint⟩ := print_prints r c
  obtain ⟨pending, hpending⟩ := Option.isSome_iff_exists.1 hshows
  obtain ⟨shown, hopen⟩ := run_openEditor path content command isNew
    { c with written := c.written ++ said, events := c.events ++ r.events }
  refine ⟨said ++ shown, ?_⟩
  rw [render, run_bind_of_ok hprint, run_get_bind, hintent]
  dsimp only
  rw [hpending]
  dsimp only
  rw [hopen, List.append_assoc]

theorem run_take_line {prompt : String} (hwaiting : c.waiting = .line prompt false) (line : String) :
    (take line).run c = (do
      let r ← act (Session.take line)
      record line
      render r : Action Unit).run c := by
  rw [take, run_get_bind, hwaiting]
  rfl

/-- A line that opens an editor leaves the console waiting for its lines. -/
theorem run_take_edits (h : c.session.Edits text fs full) {prompt : String}
    (hwaiting : c.waiting = .line prompt false) (hsubmit : (Session.submit text).run c.session = .ok r t) :
    ∃ pieces, (take text).run c = .ok () { c with
      session := t
      waiting := .edit []
      inputs := c.inputs ++ [text]
      written := c.written ++ pieces
      events := c.events ++ r.events } := by
  obtain ⟨name, hworld⟩ := Session.world_submit_edits h
  rw [hsubmit, left_ok] at hworld
  have hshows : t.intent? = some (.screen (Screens.editor name full fs c.session.world.context)) := by
    rw [Session.intent?, hworld]
    rfl
  have hintent := (Session.submit_told text r t hsubmit).intent.trans hshows
  have hact : (act (Session.take text)).run c = .ok r { c with session := t } := by
    rw [run_act, Session.run_take h.not_question, hsubmit]
  obtain ⟨pieces, hrender⟩ := run_render_editor
    (c := { c with session := t, inputs := c.inputs ++ [text] }) hintent (by rw [hshows]; rfl)
  refine ⟨pieces, ?_⟩
  rw [run_take_line hwaiting, run_bind_of_ok hact, record, run_modify_bind]
  exact hrender

/-- Where the tasks cannot be checked, a line that opens an editor fails. -/
theorem run_take_of_error (h : Session.Question.read? (Text.Blank.trim text) = none) {prompt : String}
    (hwaiting : c.waiting = .line prompt false) {e : Session.Fault}
    (hsubmit : (Session.submit text).run c.session = .error e t) :
    (take text).run c = .error e { c with session := t } := by
  have hact : (act (Session.take text)).run c = .error e { c with session := t } := by
    rw [run_act, Session.run_take h, hsubmit]
  rw [run_take_line hwaiting, EStateM.run_bind, hact]

/-- What a line closes an editor with, if it does. -/
def closing? (line : String) (lines : List String) : Option Resolution :=
  if line = "." then some (.saved (Redirection.body lines))
  else if line = ":q" then some .cancelled
  else none

/-- A line for an editor closes it or goes into the text. -/
theorem run_take_edit {lines : List String} (hwaiting : c.waiting = .edit lines) (line : String) :
    (take line).run c = match closing? line lines with
      | some resolution => (close resolution).run c
      | none => .ok () { c with waiting := .edit (lines ++ [line]) } := by
  rw [take, run_get_bind, hwaiting]
  dsimp only
  unfold takeText closing?
  split
  · rfl
  split <;> rfl

/-- However an editor is closed, its session gets the resolution, whether or not the tasks can be
checked then. -/
theorem left_close (resolution : Resolution) (c : Console) :
    (left ((close resolution).run c)).session =
      left ((Session.resolve resolution).run c.session) ∧
    (left ((close resolution).run c)).inputs = c.inputs := by
  rw [close, EStateM.run_bind, run_act]
  cases (Session.resolve resolution).run c.session with
  | error e t => exact ⟨rfl, rfl⟩
  | ok r t =>
      obtain ⟨said, hprint⟩ := print_prints r { c with session := t }
      dsimp only
      rw [run_bind_of_ok hprint]
      exact ⟨rfl, rfl⟩

end Console

namespace Serve

open Terminal Console

variable {c d : Connection} {line : String} {lines : List String} {rest : List Char}

/-- A line that is typed is echoed, and the console takes it. -/
theorem step_typed (h : c.terminal.Brings (line.toList ++ '\r' :: rest))
    (hline : ∀ k ∈ line.toList, Editor.IsTyped k) (hrest : '\n' ∉ rest)
    (hplain : c.console.isMasked = false) : ∃ later : Terminal, later.Brings rest ∧
      step c = match (take line).run c.console with
        | .ok () console => (if console.hasLeft then some .left else none,
            Connection.flush ⟨console, later, c.sent ++ (wire c.console.prompt ++ line ++ "\r\n")⟩)
        | .error e console => (some (.failed e),
            Connection.flush ⟨console, later, c.sent ++ (wire c.console.prompt ++ line ++ "\r\n")⟩) := by
  obtain ⟨later, hread, hlater⟩ := readLine_typed h hline hrest c.console.prompt
  refine ⟨later, hlater, ?_⟩
  unfold step
  dsimp only
  rw [hplain, hread]
  rfl

theorem loop_of_step (h : step c = (none, d)) (fuel : Nat) : loop (fuel + 1) c = loop fuel d := by
  rw [loop, h]

/-- Where nothing is typed any more, the console stays as it is. -/
theorem loop_of_brings_nil (h : c.terminal.Brings []) (fuel : Nat) :
    (loop fuel c).2.console = c.console ∧ ∃ told, (loop fuel c).2.sent = c.sent ++ told := by
  cases fuel with
  | zero => exact ⟨rfl, "", String.append_empty.symm⟩
  | succ fuel =>
      obtain ⟨later, hread⟩ := readLine_of_brings_nil h c.console.prompt c.console.isMasked
      rw [loop, step]
      dsimp only
      rw [hread]
      exact ⟨rfl, _, rfl⟩

theorem flush_of_written_nil (h : c.console.written = []) : c.flush = c := by
  obtain ⟨⟨session, manner, waiting, hasLeft, inputs, events, written⟩, terminal, sent⟩ := c
  obtain rfl : written = [] := h
  simp [Connection.flush]

theorem wire_prompt_of_edit {typed : List String} (h : c.console.waiting = .edit typed) :
    wire c.console.prompt = "" := by
  have hempty : wire "" = "" := by decide
  rw [prompt, h]
  exact hempty

/-- A line that does not close an editor goes into its text. -/
theorem step_line {typed : List String} (hwaiting : c.console.waiting = .edit typed)
    (hstays : c.console.hasLeft = false) (hwritten : c.console.written = [])
    (h : c.terminal.Brings (line.toList ++ '\r' :: rest))
    (hline : ∀ k ∈ line.toList, Editor.IsTyped k) (hrest : '\n' ∉ rest)
    (hgoes : closing? line typed = none) : ∃ later : Terminal, later.Brings rest ∧ step c = (none,
      ⟨{ c.console with waiting := .edit (typed ++ [line]) }, later, c.sent ++ (line ++ "\r\n")⟩) := by
  have hplain : c.console.isMasked = false := by rw [isMasked, hwaiting]
  obtain ⟨later, hlater, hstep⟩ := step_typed h hline hrest hplain
  refine ⟨later, hlater, ?_⟩
  rw [run_take_edit hwaiting, hgoes] at hstep
  dsimp only at hstep
  rw [hstep, if_neg (by rw [hstays]; exact Bool.false_ne_true), wire_prompt_of_edit hwaiting,
    String.empty_append]
  exact congrArg (Prod.mk none) (flush_of_written_nil hwritten)

/-- Lines that do not close an editor go into its text one after the other. -/
theorem loop_lines {typed : List String} (hwaiting : c.console.waiting = .edit typed)
    (hstays : c.console.hasLeft = false) (hwritten : c.console.written = [])
    (h : c.terminal.Brings ((entered lines).toList ++ rest))
    (htyped : ∀ line ∈ lines, ∀ k ∈ line.toList, Editor.IsTyped k)
    (hlines : ∀ line ∈ lines, line ≠ "." ∧ line ≠ ":q") (hrest : '\n' ∉ rest) (fuel : Nat) :
    ∃ later : Terminal, later.Brings rest ∧ loop (lines.length + fuel) c = loop fuel
      ⟨{ c.console with waiting := .edit (typed ++ lines) }, later, c.sent ++ echoed lines⟩ := by
  induction lines generalizing c typed with
  | nil =>
      refine ⟨c.terminal, h, ?_⟩
      rw [List.append_nil, ← hwaiting, echoed, List.map_nil, String.join_nil, String.append_empty,
        List.length_nil, Nat.zero_add]
  | cons line lines ih =>
      obtain ⟨hline, htyped⟩ := List.forall_mem_cons.1 htyped
      obtain ⟨hnot, hlines⟩ := List.forall_mem_cons.1 hlines
      rw [toList_entered_cons, List.append_assoc, List.cons_append] at h
      have hfeed : '\n' ∉ (entered lines).toList ++ rest := by
        rw [List.mem_append, not_or]
        exact ⟨not_mem_entered htyped, hrest⟩
      obtain ⟨next, hnext, hstep⟩ := step_line hwaiting hstays hwritten h hline hfeed
        (by rw [closing?, if_neg hnot.1, if_neg hnot.2])
      obtain ⟨later, hlater, hloop⟩ := ih (c := ⟨{ c.console with
        waiting := .edit (typed ++ [line]) }, next, c.sent ++ (line ++ "\r\n")⟩) rfl hstays hwritten
          hnext htyped hlines
      refine ⟨later, hlater, ?_⟩
      rw [List.length_cons, Nat.add_right_comm, loop_of_step hstep, hloop, echoed_cons,
        List.append_assoc, List.singleton_append, String.append_assoc]

/-- Where a line is the last that is typed, the console stays as it leaves it. -/
theorem loop_last (h : c.terminal.Brings (line.toList ++ ['\r']))
    (hline : ∀ k ∈ line.toList, Editor.IsTyped k) (hplain : c.console.isMasked = false) (fuel : Nat) :
    (loop (fuel + 1) c).2.console = { left ((take line).run c.console) with written := [] } ∧
    ∃ told, (loop (fuel + 1) c).2.sent =
      c.sent ++ (wire c.console.prompt ++ line ++ "\r\n") ++ told := by
  obtain ⟨later, hlater, hstep⟩ := step_typed h hline List.not_mem_nil hplain
  cases htake : (take line).run c.console with
  | error e console =>
      rw [htake] at hstep
      rw [loop, hstep]
      exact ⟨rfl, _, rfl⟩
  | ok done console =>
      rw [htake] at hstep
      dsimp only at hstep
      by_cases hleft : console.hasLeft = true
      · rw [if_pos hleft] at hstep
        rw [loop, hstep]
        exact ⟨rfl, _, rfl⟩
      · rw [if_neg hleft] at hstep
        obtain ⟨hconsole, told, hsent⟩ := loop_of_brings_nil (c := Connection.flush
          ⟨console, later, c.sent ++ (wire c.console.prompt ++ line ++ "\r\n")⟩) hlater fuel
        rw [loop_of_step hstep, hconsole, hsent]
        exact ⟨rfl, _, String.append_assoc ..⟩

/-- The line that closes an editor is the last that is read of it. -/
theorem loop_closing {typed : List String} {resolution : Resolution}
    (hwaiting : c.console.waiting = .edit typed) (h : c.terminal.Brings (entered [line]).toList)
    (hline : ∀ k ∈ line.toList, Editor.IsTyped k) (hcloses : closing? line typed = some resolution)
    (fuel : Nat) :
    (loop (fuel + 1) c).2.console.session =
      left ((Session.resolve resolution).run c.console.session) ∧
    (loop (fuel + 1) c).2.console.inputs = c.console.inputs ∧
    ∃ told, (loop (fuel + 1) c).2.sent = c.sent ++ echoed [line] ++ told := by
  have hplain : c.console.isMasked = false := by rw [isMasked, hwaiting]
  have htake : (take line).run c.console = (close resolution).run c.console := by
    rw [run_take_edit hwaiting, hcloses]
  have hechoed : echoed [line] = line ++ "\r\n" := by
    rw [echoed_cons, echoed, List.map_nil, String.join_nil, String.append_empty]
  rw [toList_entered_cons] at h
  obtain ⟨hconsole, hsent⟩ := loop_last h hline hplain fuel
  obtain ⟨hsession, hinputs⟩ := left_close resolution c.console
  rw [wire_prompt_of_edit hwaiting, String.empty_append] at hsent
  rw [hconsole, htake, hechoed]
  exact ⟨hsession, hinputs, hsent⟩

section Run

variable {s t : Session} {r : Response} {text full closing : String} {fs : FileSystem}
  {resolution : Resolution} {chunks : List (List UInt8)}

/-- Whether a session has been at an editor and nothing else: it has got the line that opens the editor
and what closes it, and waits for a command line. The lines between have been echoed. -/
structure Connection.HasEdited (c : Connection) (s : Session) (text : String) (lines : List String)
    (resolution : Resolution) (fs : FileSystem) : Prop where
  session : c.console.session = s.after [.line text, .answer resolution]
  world : c.console.session.world =
    { s.world.remember (Text.Blank.trim text) s.options.historyLimit with
      fs
      mode := .normal
      environment := { s.world.environment with lastStatus := 0 } }
  inputs : c.console.inputs = [text]
  sent : ∃ shown told,
    c.sent = wire s.prompt ++ text ++ "\r\n" ++ shown ++ echoed lines ++ told

variable (h : s.Edits text fs full)
  (henters : Enters chunks (text :: lines ++ [closing]))
  (htyped : ∀ line ∈ text :: lines ++ [closing], ∀ k ∈ line.toList, Editor.IsTyped k)

include henters htyped

/-- The first line that is read is the one that opens the editor. -/
theorem step_start (height : Int) : ∃ later : Terminal,
    later.Brings (entered (lines ++ [closing])).toList ∧
      step ⟨.start s (.network height), .start chunks, ""⟩ =
        match (take text).run (.start s (.network height)) with
        | .ok () console => (if console.hasLeft then some .left else none,
            Connection.flush ⟨console, later, wire s.prompt ++ text ++ "\r\n"⟩)
        | .error e console => (some (.failed e),
            Connection.flush ⟨console, later, wire s.prompt ++ text ++ "\r\n"⟩) := by
  have hbrings := henters.brings htyped
  rw [List.cons_append, toList_entered_cons] at hbrings
  obtain ⟨htext, hrest⟩ := List.forall_mem_cons.1 htyped
  have hstep := step_typed (c := ⟨.start s (.network height), .start chunks, ""⟩) hbrings htext
    (not_mem_entered hrest) rfl
  rwa [String.empty_append] at hstep

include h

/-- Where the tasks cannot be checked, the connection ends with the editor open. -/
theorem session_run_of_error {e : Session.Fault} (hsubmit : (Session.submit text).run s = .error e t)
    (height : Int) : (run s height (.start chunks)).2.console.session = t := by
  obtain ⟨later, -, hstep⟩ := step_start henters htyped height
  have htake := run_take_of_error (c := .start s (.network height)) h.not_question rfl hsubmit
  rw [htake] at hstep
  dsimp only at hstep
  rw [run, loop, hstep]
  rfl

/-- Where the tasks can be checked, the first step leaves the console waiting for the text. -/
theorem step_edits (hsubmit : (Session.submit text).run s = .ok r t) (height : Int) : ∃ d,
    step ⟨.start s (.network height), .start chunks, ""⟩ = (none, d) ∧
      d.terminal.Brings (entered (lines ++ [closing])).toList ∧
      d.console.waiting = .edit [] ∧ d.console.hasLeft = false ∧ d.console.written = [] ∧
      d.console.session = t ∧ d.console.inputs = [text] ∧
      ∃ shown, d.sent = wire s.prompt ++ text ++ "\r\n" ++ shown := by
  obtain ⟨later, hlater, hstep⟩ := step_start henters htyped height
  obtain ⟨pieces, htake⟩ := run_take_edits (c := .start s (.network height)) h rfl hsubmit
  rw [htake] at hstep
  dsimp only at hstep
  rw [Console.start, if_neg Bool.false_ne_true] at hstep
  exact ⟨_, hstep, hlater, rfl, rfl, rfl, rfl, rfl, _, rfl⟩

/-- Where the tasks can be checked, the connection goes on until the editor is closed. -/
theorem run_of_ok (hlines : ∀ line ∈ lines, line ≠ "." ∧ line ≠ ":q")
    (hcloses : closing? closing lines = some resolution)
    (hsubmit : (Session.submit text).run s = .ok r t) (height : Int) :
    (run s height (.start chunks)).2.console.session = left ((Session.resolve resolution).run t) ∧
    (run s height (.start chunks)).2.console.inputs = [text] ∧
    ∃ shown told, (run s height (.start chunks)).2.sent =
      wire s.prompt ++ text ++ "\r\n" ++ shown ++ echoed (lines ++ [closing]) ++ told := by
  obtain ⟨d, hstep, hbrings, hwaiting, hstays, hwritten, rfl, hinputs, shown, hshown⟩ :=
    step_edits h henters htyped hsubmit height
  obtain ⟨-, hrest⟩ := List.forall_mem_cons.1 htyped
  obtain ⟨hmore, hclosing⟩ := List.forall_mem_append.1 hrest
  rw [toList_entered_append] at hbrings
  -- a line is read in each turn of the loop, and there are more turns than lines
  obtain ⟨fuel, hfuel⟩ : ∃ fuel, (start chunks).bound + 1 = lines.length + (fuel + 1) + 1 := by
    have hbound := henters.length_lt_bound
    rw [List.cons_append, List.length_cons, List.length_append, List.length_singleton] at hbound
    exact ⟨(start chunks).bound - lines.length - 1, by omega⟩
  obtain ⟨later, hlater, hloop⟩ := loop_lines hwaiting hstays hwritten hbrings hmore hlines
    (not_mem_entered hclosing) (fuel + 1)
  obtain ⟨hsession, hsame, told, hsent⟩ := loop_closing
    (c := ⟨{ d.console with waiting := .edit ([] ++ lines) }, later, d.sent ++ echoed lines⟩)
    rfl hlater (hclosing closing (List.mem_singleton_self closing)) hcloses fuel
  rw [run, hfuel, loop_of_step hstep, hloop]
  refine ⟨hsession, hsame.trans hinputs, shown, told, hsent.trans ?_⟩
  rw [hshown, echoed_append, ← String.append_assoc]

/-- The session has been at the editor and nothing else exactly if the tasks can be checked when the
editor is opened. -/
theorem hasEdited_iff (hlines : ∀ line ∈ lines, line ≠ "." ∧ line ≠ ":q")
    (hcloses : closing? closing lines = some resolution) {later : FileSystem}
    (hworld : (s.after [.line text, .answer resolution]).world =
      { s.world.remember (Text.Blank.trim text) s.options.historyLimit with
        fs := later
        mode := .normal
        environment := { s.world.environment with lastStatus := 0 } }) (height : Int) :
    (run s height (.start chunks)).2.HasEdited s text (lines ++ [closing]) resolution later ↔
      ¬ Fails (Session.submit text) s := by
  cases hsubmit : (Session.submit text).run s with
  | ok r t =>
      refine iff_of_true ?_ (not_fails_of_ok hsubmit)
      obtain ⟨hsession, hinputs, hsent⟩ :=
        run_of_ok h henters htyped hlines hcloses hsubmit height
      have hafter := s.after_line_answer text resolution
      rw [hsubmit, left_ok] at hafter
      rw [← hafter] at hsession
      exact ⟨hsession, hsession ▸ hworld, hinputs, hsent⟩
  | error e t =>
      refine iff_of_false (fun hedited => ?_) (not_not_intro (fails_of_error hsubmit))
      obtain ⟨name, hopen⟩ := Session.world_submit_edits h
      have hmode := congrArg World.mode hedited.world
      rw [session_run_of_error h henters htyped hsubmit] at hmode
      rw [hsubmit, left_error] at hopen
      rw [hopen] at hmode
      cases hmode

end Run

variable {s : Session} {text full : String} {fs : FileSystem}

/-- An editor that is cancelled leaves the files as they are, whether or not the tasks can be checked. -/
theorem fs_run_cancelled (h : s.Edits text fs full) {chunks : List (List UInt8)}
    (henters : Enters chunks (text :: lines ++ [":q"]))
    (htyped : ∀ line ∈ text :: lines ++ [":q"], ∀ k ∈ line.toList, Editor.IsTyped k)
    (hlines : ∀ line ∈ lines, line ≠ "." ∧ line ≠ ":q") (height : Int) :
    (run s height (.start chunks)).2.console.session.world.fs = s.world.fs := by
  cases hsubmit : (Session.submit text).run s with
  | ok r t =>
      have hedited := (hasEdited_iff h henters htyped hlines rfl (Session.world_after_cancelled h)
        height).2 (not_fails_of_ok hsubmit)
      rw [hedited.world]
  | error e t =>
      obtain ⟨name, hopen⟩ := Session.world_submit_edits h
      rw [hsubmit, left_error] at hopen
      rw [session_run_of_error h henters htyped hsubmit, hopen]
      rfl

/-- A line that opens an editor is typed at a terminal, then lines of printable characters, and then
`.` or `:q`. With `.` the file holds each line and a line feed after it, and with `:q` all files are as
they were. None of the lines is a command or a question for the session, each is echoed, and the session
waits for a command line again: all this exactly if the tasks can be checked when the editor is opened.
They can, as far as progress can be saved, unless an open one of the mission can never be decided. -/
theorem edited_lines_are_saved (h : s.Edits text fs full)
    (htyped : ∀ line ∈ text :: lines, ∀ k ∈ line.toList, Editor.IsTyped k)
    (hlines : ∀ line ∈ lines, line ≠ "." ∧ line ≠ ":q") :
    (∃ stored later,
      Redirection.Stores s.world.context.username (Text.Utf8.encode (Redirection.body lines))
        (Path.segments full) fs stored ∧
      { s.world with fs := s.world.holding stored }.viewAt s.world.viewBase = .ok later ∧
      later.contents full = .ok (Text.Utf8.encode (Redirection.body lines)) ∧
      ∀ height chunks, Enters chunks (text :: lines ++ ["."]) →
        ((run s height (.start chunks)).2.HasEdited s text (lines ++ ["."])
          (.saved (Redirection.body lines)) (s.world.holding stored) ↔
            ¬ Fails (Session.submit text) s)) ∧
    (∀ height chunks, Enters chunks (text :: lines ++ [":q"]) →
      (run s height (.start chunks)).2.console.session.world.fs = s.world.fs ∧
      ((run s height (.start chunks)).2.HasEdited s text (lines ++ [":q"]) .cancelled s.world.fs ↔
        ¬ Fails (Session.submit text) s)) ∧
    ((s.store.isSome → ∀ t, s.tracker = some t → t.progress.IsNamed) →
      (Fails (Session.submit text) s ↔ ∃ t, s.tracker = some t ∧ t.IsStuck)) := by
  have hclosing : ∀ closing ∈ [".", ":q"], ∀ k ∈ closing.toList, Editor.IsTyped k :=
    Editor.isTyped_of_all (by decide)
  have hall : ∀ closing ∈ [".", ":q"], ∀ line ∈ text :: lines ++ [closing],
      ∀ k ∈ line.toList, Editor.IsTyped k := fun closing hmem =>
    List.forall_mem_append.2 ⟨htyped, List.forall_mem_singleton.2 (hclosing closing hmem)⟩
  refine ⟨?_, fun height chunks henters => ?_, Session.fails_submit_edits_iff h⟩
  · obtain ⟨stored, hwrite, hstores, hcontents⟩ := h.exists_write (Redirection.body lines)
    obtain ⟨later, hlater, hroot⟩ := World.exists_viewAt_holding h.view stored
    refine ⟨stored, later, hstores, hlater, ?_, fun height chunks henters => ?_⟩
    · rw [← hcontents, FileSystem.contents, FileSystem.contents, FileSystem.find?,
        FileSystem.find?, hroot]
    · exact hasEdited_iff h henters (hall "." (by decide)) hlines rfl
        (Session.world_after_saved h hwrite) height
  · have hkeys := hall ":q" (by decide)
    exact ⟨fs_run_cancelled h henters hkeys hlines height,
      hasEdited_iff h henters hkeys hlines rfl (Session.world_after_cancelled h) height⟩

/-- Lines that look like a question and a command are saved as they are. -/
theorem notes_are_edited :
    Session.justBegun.Edits "nano notes" Session.homeOfAda "/home/ada/notes" ∧
    (∀ line ∈ ["nano notes", ":reset", "rm -r ~"], ∀ k ∈ line.toList, Editor.IsTyped k) ∧
    (∀ line ∈ [":reset", "rm -r ~"], line ≠ "." ∧ line ≠ ":q") ∧
    ¬ Fails (Session.submit "nano notes") Session.justBegun ∧
    ∃ stored : FileSystem,
      stored.contents "/home/ada/notes" = .ok (Text.Utf8.encode ":reset\nrm -r ~\n") ∧
      (run Session.justBegun 24
        (.start [(Text.Utf8.encode "nano notes\r:reset\rrm -r ~\r.\r").toList])).2.HasEdited
          Session.justBegun "nano notes" [":reset", "rm -r ~", "."] (.saved ":reset\nrm -r ~\n")
          stored := by
  have htyped : ∀ line ∈ ["nano notes", ":reset", "rm -r ~"], ∀ k ∈ line.toList,
      Editor.IsTyped k := Editor.isTyped_of_all (by decide)
  have hlines : ∀ line ∈ [":reset", "rm -r ~"], line ≠ "." ∧ line ≠ ":q" := by decide
  have hedits := Session.edits_notes (s := Session.justBegun) rfl
  obtain ⟨⟨stored, later, -, hlater, hcontents, hsaved⟩, -, hfails⟩ :=
    edited_lines_are_saved hedits htyped hlines
  have hanswers : ¬ Fails (Session.submit "nano notes") Session.justBegun := by
    rw [hfails nofun]
    rintro ⟨t, htracker, -⟩
    cases htracker
  have hentered : entered ["nano notes", ":reset", "rm -r ~", "."] =
      "nano notes\r:reset\rrm -r ~\r.\r" := by decide
  have hbody : Redirection.body [":reset", "rm -r ~"] = ":reset\nrm -r ~\n" := by decide
  have henters : Enters [(Text.Utf8.encode "nano notes\r:reset\rrm -r ~\r.\r").toList]
      ["nano notes", ":reset", "rm -r ~", "."] := hentered ▸ enters_singleton (by simp)
  obtain rfl : Session.justBegun.world.holding stored = later := Except.ok.inj hlater
  rw [hbody] at hcontents hsaved
  exact ⟨hedits, htyped, hlines, hanswers, _, hcontents, (hsaved 24 _ henters).2 hanswers⟩

/-- A session that has just begun with an adventure whose second task can never be decided. -/
def counting : Session :=
  { Session.justBegun with tracker := some (Tracker.start Tracker.countless) }

theorem start_counting : Session.start ⟨"ada", "lab", "secret", [], true, 0⟩
    (some Tracker.countless) none true 0 = .ok counting := by
  obtain ⟨tracker, w, -, hworld, hbegun⟩ :=
    Session.start_eq_ok_iff.1 Session.start_justBegun
  refine Session.start_eq_ok_iff.2 ⟨_, w, rfl, hworld, ?_⟩
  rw [counting, hbegun]
  rfl

theorem isStuck_countless : (Tracker.start Tracker.countless).IsStuck :=
  (Tracker.exists_fault_record_iff (o := .printing)).1 ⟨.tooManyRepetitions, rfl⟩

/-- Where a task can never be decided, what is typed into an editor is lost: the session fails when the
editor is opened, nothing is saved, and no command line is waited for. -/
theorem notes_are_lost :
    Adventure.ofJson Tracker.countlessDocument = .ok Tracker.countless ∧
    Session.start ⟨"ada", "lab", "secret", [], true, 0⟩ (some Tracker.countless) none true 0 =
      .ok counting ∧
    counting.Edits "nano notes" Session.homeOfAda "/home/ada/notes" ∧
    Enters [(Text.Utf8.encode "nano notes\rstep one\r.\r").toList]
      ["nano notes", "step one", "."] ∧
    let c := (run counting 24
      (.start [(Text.Utf8.encode "nano notes\rstep one\r.\r").toList])).2
    c.console.session.world.mode ≠ .normal ∧
    c.console.session.world.fs.contents "/home/ada/notes" =
      .error ⟨.notFound, "/home/ada/notes"⟩ := by
  have hedits := Session.edits_notes (s := counting) rfl
  have hentered : entered ["nano notes", "step one", "."] = "nano notes\rstep one\r.\r" := by decide
  have henters : Enters [(Text.Utf8.encode "nano notes\rstep one\r.\r").toList]
      ("nano notes" :: ["step one"] ++ ["."]) := hentered ▸ enters_singleton (by simp)
  have htyped : ∀ line ∈ "nano notes" :: ["step one"] ++ ["."], ∀ k ∈ line.toList,
      Editor.IsTyped k := Editor.isTyped_of_all (by decide)
  obtain ⟨e, t, hsubmit⟩ := (Session.fails_submit_edits_iff hedits nofun).2
    ⟨_, rfl, isStuck_countless⟩
  obtain ⟨name, hopen⟩ := Session.world_submit_edits hedits
  rw [hsubmit, left_error] at hopen
  refine ⟨Tracker.ofJson_countlessDocument, start_counting, hedits, henters, ?_⟩
  intro c
  have hsession : c.console.session = t :=
    session_run_of_error hedits henters htyped hsubmit 24
  rw [hsession, hopen]
  exact ⟨nofun, rfl⟩

end Serve

end PracticeShell
