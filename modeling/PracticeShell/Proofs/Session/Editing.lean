import PracticeShell.Proofs.Environment.Echoing
import PracticeShell.Proofs.Redirection.Storing
import PracticeShell.Proofs.Session.Answering
import PracticeShell.Proofs.Session.Remembering
import PracticeShell.Proofs.Tracker.Announcing

/-!
# Files that are edited

A line that opens an editor on a file that may be written (`Session.Edits`) is taken as a command line
and nothing else, and leaves the session waiting for the screen to be closed. What is saved then is
written to the file, and otherwise the files are as they were; either way the session waits for a
command line again (`Session.world_after_saved`, `Session.world_after_cancelled`). The line is answered
unless a task can never be decided (`Session.fails_submit_edits_iff`).
-/

namespace PracticeShell

open FileTree Run

section Leading

variable {c : Char}

theorem getLast?_cons_of_eq {cs : List Char} (h : cs.getLast? = some c) (d : Char) :
    (d :: cs).getLast? = some c := by
  rw [List.getLast?_cons, h]
  rfl

/-- Whether what has been read of a text that is expanded begins with a character. -/
def Environment.Reading.Begins (c : Char) : Environment.Reading → Prop
  | .open part _ | .rest part => part.getLast? = some c
  | .single => False

theorem Environment.head?_substitute (env : Environment) (hc : c ≠ '$') {part : List Char}
    (h : part.getLast? = some c) (more : List Char) :
    (env.substitute 0 part.reverse ++ more).head? = some c := by
  obtain ⟨before, rfl⟩ := List.getLast?_eq_some_iff.1 h
  rw [List.reverse_concat, substitute, if_neg hc]
  rfl

/-- A character that is no dollar sign still comes first when a text is expanded. -/
theorem Environment.head?_expandFrom (env : Environment) (hc : c ≠ '$') {r : Reading}
    (h : r.Begins c) (cs : List Char) : (env.expandFrom r cs).head? = some c := by
  fun_induction expandFrom env r cs with
  | case1 | case2 =>
      have hhead := env.head?_substitute hc h []
      rwa [List.append_nil] at hhead
  | case3 | case5 => exact h.elim
  | case4 part d cs ih | case6 part _ cs ih => exact ih (getLast?_cons_of_eq h _)
  | case7 | case8 | case9 => exact env.head?_substitute hc h _
  | case10 _ _ _ _ _ _ _ _ ih | case11 _ _ _ _ _ _ _ ih => exact ih (getLast?_cons_of_eq h _)

/-- The first word of a line begins as what has been read of it. -/
theorem Words.head?_scan {current : List Char} (h : current.getLast? = some c) (quote : Option Char)
    (cs : List Char) : ∃ word words, scan current true quote cs = word :: words ∧
      word.head? = some c := by
  generalize hstarted : true = started
  fun_induction scan current started quote cs with
  | case1 current => exact ⟨_, _, rfl, by rw [List.head?_reverse, h]⟩
  | case2 _ _ _ hnot => exact absurd hstarted.symm hnot
  | case3 _ _ _ _ ih => exact ih h hstarted
  | case4 _ _ _ _ _ _ _ _ _ ih | case5 _ _ _ _ _ _ _ _ _ ih => exact ih (getLast?_cons_of_eq h _) hstarted
  | case6 _ _ _ _ _ _ ih | case7 _ _ _ _ _ _ _ ih => exact ih (getLast?_cons_of_eq h _) hstarted
  | case8 _ _ _ _ _ ih => exact ih h rfl
  | case9 current => exact ⟨_, _, rfl, by rw [List.head?_reverse, h]⟩
  | case10 _ _ _ _ _ _ hnot => exact absurd hstarted.symm hnot
  | case11 _ _ _ _ _ _ ih | case12 _ _ _ _ ih | case13 _ _ _ _ _ _ _ ih =>
      exact ih (getLast?_cons_of_eq h _) rfl

theorem Text.Blank.head?_trim {text : String} (hc : isBlank c = false)
    (h : text.toList.head? = some c) : (trim text).toList.head? = some c := by
  obtain ⟨rest, hrest⟩ := List.head?_eq_some_iff.1 h
  have hkept := dropWhileEnd_append hc [] rest
  rw [toList_trim, hrest, tidy, List.dropWhile_cons_of_neg (by simp [hc])]
  rw [List.nil_append] at hkept
  rw [hkept]
  rfl

end Leading

section Opening

variable {name target full : String} {words : List String} {ctx : Context} {fs : FileSystem}

theorem Screens.ne_sudo_of_mem_editors (h : name ∈ Screens.editors) : name ≠ "sudo" := by
  rintro rfl
  exact absurd h (by decide)

/-- The screen of an editor on a file that may be written. -/
def Screens.editor (name full : String) (fs : FileSystem) (ctx : Context) : Screen :=
  .editor full (textOf fs full) name ctx.elevated (fs.stat? full).isNone

/-- An editor is opened on a file that may be written. -/
theorem Screens.openEditor_of_isWritable (htarget : target? words = some target)
    (hfull : ctx.resolve target = full) (h : Redirection.IsWritable fs full) :
    openEditor name ctx fs words = opened (editor name full fs ctx) := by
  have hfile : (fs.stat? full).any (·.isDirectory) = false := by
    rw [FileSystem.stat?, Option.any_map]
    exact h.file
  have hopen : Access.denied ctx
      ((fs.stat? full).getD (Access.nearestExisting fs (Path.dirname full))) = false := by
    have hdenied := h.writeDenied ctx
    unfold Redirection.writeDenied at hdenied
    split at hdenied
    · rename_i hnode
      rwa [hnode]
    · rename_i hnode
      rwa [hnode]
  unfold openEditor
  rw [htarget]
  dsimp only
  rw [hfull, hfile, hopen]
  rfl

/-- The guard sees no danger in a line that opens an editor. -/
theorem Guard.inspect_of_editor {line : String} {r : Redirection}
    (hparse : Redirection.parse line = .ok r) (heffect : r.effect = .none)
    (hwords : Words.split r.command = name :: words) (hname : name ∈ Screens.editors)
    (situation : Situation) : inspect situation line = none := by
  have hcommand : commandWords line = name :: words := by
    unfold commandWords
    rw [hparse]
    dsimp only
    rw [hwords]
    split
    · rename_i hsudo
      exact absurd (List.cons.inj hsudo).1 (Screens.ne_sudo_of_mem_editors hname)
    · rfl
  have hnext : inspectCommand situation line (name :: words) = some none := by
    simp only [Screens.editors, List.mem_cons, List.not_mem_nil, or_false] at hname
    rcases hname with rfl | rfl | rfl <;> simp [inspectCommand, diskCommands]
  have houtput : inspectOutput situation line = none := by
    unfold inspectOutput
    obtain ⟨command, effect⟩ := r
    obtain rfl : effect = .none := heffect
    rw [hparse]
  unfold inspect
  rw [hcommand, hnext]
  exact houtput

/-- An editor changes nothing when it is opened. -/
theorem Dispatch.run_editor {w : World} {base : Option String} (hname : name ∈ Screens.editors)
    (hview : w.viewAt base = .ok fs) (hosts : List String) (input : Option String) :
    (run hosts ctx base input (name :: words)).run w =
      .ok ⟨(Screens.openEditor name ctx fs words).outcome,
        (Screens.openEditor name ctx fs words).screen, false⟩ w := by
  have hplain : (if ctx.elevated then (name :: words).dropWhile (· == "sudo") else name :: words) =
      name :: words := by
    rw [List.dropWhile_cons_of_neg (by simpa using Screens.ne_sudo_of_mem_editors hname), ite_self]
  have hsession : session? hosts ctx base name words =
      some (onScreen (fun fs => Screens.openEditor name ctx fs words) base) := by
    simp only [Screens.editors, List.mem_cons, List.not_mem_nil, or_false] at hname
    rcases hname with rfl | rfl | rfl <;> simp [session?, Screens.pagers, Screens.editors]
  unfold run
  rw [hplain]
  dsimp only
  rw [hsession, Option.getD_some, onScreen, Step.look, bind_assoc, run_get_bind, hview]
  rfl

end Opening

namespace Session

variable {s : Session} {text expanded : String} {line : CommandLine} {name : String}
  {words : List String}

/-- A line without a redirection that begins with a colon is the command of that name. -/
theorem head?_of_question (hread : s.read? text = some (expanded, line))
    (heffect : line.redirection.effect = .none) (hwords : line.words = name :: words)
    (hquestion : Question.read? (Text.Blank.trim text) ≠ none) : name.toList.head? = some ':' := by
  obtain ⟨htext, -, hexpanded, hparse, hsplit, -⟩ := of_read? hread
  rw [trim_withoutLineEnd] at htext
  have hcolon : line.text.toList.head? = some ':' := by
    unfold Question.read? at hquestion
    rw [htext]
    split at hquestion
    · rename_i hlist
      rw [hlist]
      rfl
    · exact absurd rfl hquestion
  have hexpandedHead : expanded.toList.head? = some ':' := by
    obtain ⟨rest, hrest⟩ := List.head?_eq_some_iff.1 hcolon
    have hopen : (Environment.Reading.open [':'] false).Begins ':' := rfl
    have hfirst : s.world.environment.expandFrom (.open [] false) (':' :: rest) =
        s.world.environment.expandFrom (.open [':'] false) rest := by
      rw [Environment.expandFrom.eq_def]
      simp
    rw [hexpanded, Environment.expand, String.toList_ofList, hrest, hfirst]
    exact Environment.head?_expandFrom _ (by decide) hopen rest
  have hcommand : line.redirection.command = Text.Blank.trim expanded := by
    rw [← Redirection.parse_eq_none_iff.1 (by rw [hparse, ← heffect]) |>.2]
  obtain ⟨rest, hrest⟩ := List.head?_eq_some_iff.1
    (Text.Blank.head?_trim (by decide) hexpandedHead)
  have hcolon : [':'].getLast? = some ':' := rfl
  obtain ⟨word, more, hscan, hword⟩ := Words.head?_scan hcolon none rest
  have hfirst : Words.split line.redirection.command = (word :: more).map String.ofList := by
    rw [hcommand, Words.split, hrest, ← hscan, Words.scan.eq_def]
    simp
  rw [hwords, hfirst] at hsplit
  obtain ⟨rfl, -⟩ := List.cons.inj hsplit
  rwa [String.toList_ofList]

/-- Whether a text is a command line that opens an editor on the file `full` among the files `fs` that
commands see: a file that may be written, in a directory that is there. -/
structure Edits (s : Session) (text : String) (fs : FileSystem) (full : String) : Prop where
  mode : s.world.mode = .normal
  view : s.world.viewAt s.world.viewBase = .ok fs
  opens : ∃ expanded line name words target, s.read? text = some (expanded, line) ∧
    line.redirection.effect = .none ∧ line.words = name :: words ∧ name ∈ Screens.editors ∧
    Screens.target? words = some target ∧ s.world.context.resolve target = full
  directory : fs.isDirectory (Path.dirname full) = true
  writable : Redirection.IsWritable fs full

variable {fs : FileSystem} {full : String}

theorem Edits.not_question (h : s.Edits text fs full) :
    Question.read? (Text.Blank.trim text) = none := by
  obtain ⟨expanded, line, name, words, target, hread, heffect, hwords, hname, -⟩ := h.opens
  by_contra hquestion
  have hcolon := head?_of_question hread heffect hwords hquestion
  simp only [Screens.editors, List.mem_cons, List.not_mem_nil, or_false] at hname
  rcases hname with rfl | rfl | rfl <;> exact absurd hcolon (by decide)

/-- A session that shows a screen of a command line. -/
def showing (s : Session) (screen : Screen) (text : String) : Session :=
  { s with world := { s.world with mode := .showing screen s.world.context text } }

/-- Output that is not redirected changes no files. -/
theorem run_onView_applyTo_of_none {w : World} {base : Option String} {r : Redirection}
    (heffect : r.effect = .none) (hview : w.viewAt base = .ok fs) (ctx : Context) (o : Outcome)
    (said : Option String) : (Step.onView base (r.applyTo ctx o said)).run w = .ok o w := by
  have happly : ∀ fs, r.applyTo ctx o said fs = (o, fs) := by
    intro fs
    unfold Redirection.applyTo Redirection.target?
    rw [heffect]
    rfl
  cases base with
  | none => rw [Step.run_onView_none, happly]
  | some path =>
      have hinner : w.fs.view path = .ok fs := hview
      rw [Step.run_onView_some, hinner]
      dsimp only
      rw [happly, FileSystem.putBack_view hinner]

theorem run_runLine_edits (hview : s.world.viewAt s.world.viewBase = .ok fs)
    (heffect : line.redirection.effect = .none) (hwords : line.words = name :: words)
    (hname : name ∈ Screens.editors) {screen : Screen}
    (hopens : Screens.openEditor name s.world.context fs words = Screens.opened screen) :
    (runLine line s.world.context).run s =
      (finish line.text {} (some (.screen screen)) false).run (s.showing screen line.text) := by
  have hback : line.words ≠ ["cd", "-"] := by
    rw [hwords]
    rintro heq
    rw [(List.cons.inj heq).1] at hname
    exact absurd hname (by decide)
  have hlook : (step (Step.look s.world.viewBase)).run s = .ok fs s := by
    rw [run_step, Step.run_look_eq_ok_iff.2 ⟨hview, rfl⟩]
  have hdispatch : (dispatchOrGoBack line s.world.context s.world.viewBase none).run s =
      .ok ⟨{}, some screen, false⟩ s := by
    unfold dispatchOrGoBack dispatch
    rw [run_get_bind]
    dsimp only
    rw [if_neg (by simp [hback]), hwords, run_get_bind, run_step,
      Dispatch.run_editor hname hview, hopens]
    rfl
  have hcomplete : (complete line ⟨{}, some screen, false⟩ s.world.context s.world.context
      s.world.viewBase none).run s =
        (finish line.text {} (some (.screen screen)) false).run (s.showing screen line.text) := by
    have hstays : (step (Step.onView s.world.viewBase
        (line.redirection.applyTo s.world.context {} none))).run (s.showing screen line.text) =
          .ok {} (s.showing screen line.text) := by
      have hseen : (s.showing screen line.text).world.viewAt s.world.viewBase = .ok fs := hview
      rw [run_step, run_onView_applyTo_of_none heffect hseen]
    unfold complete setMode
    dsimp only
    rw [run_modify_bind]
    exact run_bind_of_ok hstays _
  unfold runLine
  rw [heffect]
  dsimp only
  rw [run_get_bind, run_bind_of_ok hlook, run_bind_of_ok (run_readInput_of_none heffect _ _ _ s)]
  dsimp only
  rw [run_get_bind, lacksPrevious, if_neg (by simp [hback]), run_bind_of_ok hdispatch,
    if_neg (by simp)]
  exact hcomplete

/-- A line that opens an editor is noted, and the screen of the editor is shown. -/
theorem run_submit_edits (h : s.Edits text fs full) : ∃ name, (submit text).run s =
    (finish (Text.Blank.trim text) {}
      (some (.screen (Screens.editor name full fs s.world.context))) false).run
        ((s.remembering (Text.Blank.trim text)).showing
          (Screens.editor name full fs s.world.context) (Text.Blank.trim text)) := by
  obtain ⟨expanded, line, name, words, target, hread, heffect, hwords, hname, htarget, hfull⟩ :=
    h.opens
  obtain ⟨htext, -, -, hparse, hsplit, -⟩ := of_read? hread
  rw [trim_withoutLineEnd] at htext
  have hview : (s.remembering line.text).world.viewAt (s.remembering line.text).world.viewBase =
      .ok fs := h.view
  have hguard : (guard expanded s.world.context).run (s.remembering line.text) =
      .ok none (s.remembering line.text) := by
    rw [run_guard_of_viewAt _ hview,
      Guard.inspect_of_editor hparse heffect (hsplit.symm.trans hwords) hname, ite_self]
  refine ⟨name, ?_⟩
  rw [run_submit_of_guard hread h.mode hguard, ← htext]
  exact run_runLine_edits hview heffect hwords hname
    (Screens.openEditor_of_isWritable htarget hfull h.writable)

/-- What a session is once an editor is open, whether or not the tasks could be checked. -/
theorem world_submit_edits (h : s.Edits text fs full) : ∃ name,
    (left ((submit text).run s)).world =
      { s.world.remember (Text.Blank.trim text) s.options.historyLimit with
        mode := .showing (Screens.editor name full fs s.world.context) s.world.context
          (Text.Blank.trim text)
        environment := { s.world.environment with lastStatus := 0 } } := by
  obtain ⟨name, hrun⟩ := run_submit_edits h
  refine ⟨name, ?_⟩
  rw [hrun, world_finish]
  rfl

/-- Where progress can be saved, the tasks are checked unless an open one of the mission cannot be
decided. -/
theorem fails_checkTasks_iff
    (h : s.store.isSome → ∀ t, s.tracker = some t → t.progress.IsNamed) (o : Outcome) :
    Fails (checkTasks text o) s ↔ ∃ t, s.tracker = some t ∧ t.IsStuck := by
  unfold Fails checkTasks
  rw [run_get_bind]
  cases htracker : s.tracker with
  | none => simp
  | some t =>
      have hstuck : (∃ u, some t = some u ∧ u.IsStuck) ↔
          ∃ fault, (t.record (s.observe text o)).1.fault = some fault := by
        simp [Tracker.exists_fault_record_iff]
      rw [hstuck]
      dsimp only
      cases hfault : (t.record (s.observe text o)).1.fault with
      | some fault => exact iff_of_true ⟨_, _, rfl⟩ ⟨fault, rfl⟩
      | none =>
          refine iff_of_false ?_ (by simp)
          change ¬ Fails _ _
          refine not_fails_bind (not_fails_of_ok rfl) fun _ u hset => ?_
          refine not_fails_bind (not_fails_modify _ _) fun _ v hnoted => ?_
          have hmarks : v.store.isSome → ∀ later, v.tracker = some later →
              later.progress.IsNamed := by
            cases hset
            cases hnoted
            rintro hstore _ ⟨⟩
            exact Tracker.isNamed_record (h hstore t htracker) (s.observe text o)
          split
          · obtain ⟨store, hrun, -⟩ := run_saveProgress hmarks
            exact not_fails_bind (not_fails_of_ok hrun) fun _ _ _ => not_fails_pure _ _
          · exact not_fails_pure _ _

/-- Where progress can be saved, a command line is ended unless an open task of the mission cannot be
decided. -/
theorem fails_finish_iff (h : s.store.isSome → ∀ t, s.tracker = some t → t.progress.IsNamed)
    (o : Outcome) (intent : Option Intent) (leaves : Bool) :
    Fails (finish text o intent leaves) s ↔ ∃ t, s.tracker = some t ∧ t.IsStuck := by
  let ended : Session := { s with
    world := { s.world with environment := { s.world.environment with lastStatus := o.exitCode } }
    journal := s.journal ++ [.command (commandName text) o.exitCode] }
  have hended : Fails (checkTasks text o) ended ↔ ∃ t, s.tracker = some t ∧ t.IsStuck :=
    fails_checkTasks_iff (s := ended) h o
  rw [← hended]
  unfold finish note Fails
  rw [run_modify_bind, run_modify_bind]
  exact fails_bind_left fun _ _ _ => not_fails_of_ok rfl

/-- Where progress can be saved, a line that opens an editor is answered unless an open task of the
mission cannot be decided. -/
theorem fails_submit_edits_iff (h : s.Edits text fs full)
    (hmarks : s.store.isSome → ∀ t, s.tracker = some t → t.progress.IsNamed) :
    Fails (submit text) s ↔ ∃ t, s.tracker = some t ∧ t.IsStuck := by
  obtain ⟨name, hrun⟩ := run_submit_edits h
  unfold Fails
  rw [hrun]
  exact fails_finish_iff (s := (s.remembering (Text.Blank.trim text)).showing
    (Screens.editor name full fs s.world.context) (Text.Blank.trim text)) hmarks _ _ _

/-- The file of an editor can be written. -/
theorem Edits.exists_write (h : s.Edits text fs full) (content : String) : ∃ stored,
    (Edit.write full (Text.Utf8.encode content) (some s.world.context.username)
      Permissions.newFile).run fs = .ok () stored ∧
    Redirection.Stores s.world.context.username (Text.Utf8.encode content) (Path.segments full) fs
      stored ∧
    stored.contents full = .ok (Text.Utf8.encode content) := by
  have huser : s.world.context.user = s.world.context.username := by
    rw [Context.user, World.elevated_context]
    rfl
  have hthere : fs.contains (Path.dirname full) = true := by
    have hdirectory := h.directory
    rw [FileSystem.isDirectory] at hdirectory
    rw [FileSystem.contains]
    cases hnode : fs.find? (Path.dirname full) <;> simp_all
  have hruns : ¬ Fails (Redirection.writeFile s.world.context full content) fs := by
    rw [Redirection.writeFile_fails_iff, not_or]
    exact ⟨FileSystem.isDirectory_eq_false_iff.1 h.writable.file, h.writable.not_obstructs⟩
  obtain ⟨⟨⟩, stored, hrun⟩ := not_fails_iff.1 hruns
  have hstores := Redirection.writeFile_stores hrun
  rw [Redirection.run_writeFile_of_contains hthere] at hrun
  rw [huser] at hrun hstores
  obtain ⟨a, hface⟩ := hstores.exists_file (FileSystem.isDirectory_eq_false_iff.1 h.writable.file)
  exact ⟨stored, hrun, hstores, FileSystem.contents_of_faceAt hface⟩

end Session

namespace World

/-- The files of a world in which those that commands see have been replaced. -/
def holding (w : World) (stored : FileSystem) : FileSystem :=
  match w.viewBase with
  | none => stored
  | some path => w.fs.putBack path stored

variable {w : World} {fs stored : FileSystem}

/-- What is held is what commands see: at each place there is what has been stored. -/
theorem exists_viewAt_holding (hview : w.viewAt w.viewBase = .ok fs) (stored : FileSystem) :
    ∃ later, { w with fs := w.holding stored }.viewAt w.viewBase = .ok later ∧
      later.root = stored.root := by
  unfold holding
  cases hbase : w.viewBase with
  | none => exact ⟨stored, rfl, rfl⟩
  | some path =>
      rw [hbase] at hview
      exact ⟨_, FileSystem.view_putBack hview stored, rfl⟩

/-- A file operation on what commands see. -/
theorem run_attempt_of_ok {operation : Edit Unit} (hview : w.viewAt w.viewBase = .ok fs)
    (hrun : operation.run fs = .ok () stored) :
    (Step.attempt w.viewBase operation).run w = .ok none { w with fs := w.holding stored } := by
  unfold holding Step.attempt
  cases hbase : w.viewBase with
  | none =>
      rw [hbase] at hview
      obtain rfl : w.fs = fs := Except.ok.inj hview
      rw [EStateM.run] at hrun
      rw [Step.run_onView_none, hrun]
  | some path =>
      rw [hbase] at hview
      have hinner : w.fs.view path = .ok fs := hview
      rw [EStateM.run] at hrun
      rw [Step.run_onView_some, hinner]
      dsimp only
      rw [hrun]

end World

namespace Session

variable {s t : Session} {text : String} {fs stored : FileSystem} {full name content : String}
  {screen : Screen} {ctx : Context} {command : String}

/-- An answer to a screen closes it, and the session waits for a command line again. -/
theorem world_resolve_of_close {resolution : Resolution} {o : Outcome} {w : World}
    (hmode : t.world.mode = .showing screen ctx command)
    (hclose : (Screens.close screen resolution ctx t.world.viewBase).run
      { t.world with mode := .normal } = .ok o w) :
    (left ((resolve resolution).run t)).world =
      { w with environment := { w.environment with lastStatus := o.exitCode } } := by
  have hstep : (step (Screens.close screen resolution ctx t.world.viewBase)).run
      { t with world := { t.world with mode := .normal } } = .ok o { t with world := w } := by
    rw [run_step, hclose]
  have hrun : (resolve resolution).run t = (do
      let o ← step (Screens.close screen resolution ctx t.world.viewBase)
      finish command o none false : Action Response).run
        { t with world := { t.world with mode := .normal } } := by
    unfold resolve
    rw [run_get_bind, hmode]
    rfl
  rw [hrun, run_bind_of_ok hstep, world_finish]

/-- What is saved in an editor is written to its file. -/
theorem world_resolve_saved {old : String} {isNew : Bool}
    (hmode : t.world.mode = .showing (.editor full old name false isNew) ctx command)
    (hview : t.world.viewAt t.world.viewBase = .ok fs)
    (hwrite : (Edit.write full (Text.Utf8.encode content) (some ctx.username)
      Permissions.newFile).run fs = .ok () stored) :
    (left ((resolve (.saved content)).run t)).world = { t.world with
      fs := t.world.holding stored
      mode := .normal
      environment := { t.world.environment with lastStatus := 0 } } := by
  let waiting : World := { t.world with mode := .normal }
  have hlook : (Step.look t.world.viewBase).run waiting = .ok fs waiting :=
    Step.run_look_eq_ok_iff.2 ⟨hview, rfl⟩
  have hattempt : (Step.attempt t.world.viewBase (Edit.write full (Text.Utf8.encode content)
      (some ctx.username) Permissions.newFile)).run waiting =
        .ok none { waiting with fs := waiting.holding stored } :=
    World.run_attempt_of_ok (w := waiting) hview hwrite
  have hclose : (Screens.close (.editor full old name false isNew) (.saved content) ctx
      t.world.viewBase).run waiting =
        .ok (.print ("[ Wrote " ++ toString (Text.Lines.split content).length ++ " lines ]"))
          { waiting with fs := waiting.holding stored } := by
    unfold Screens.close
    rw [run_bind_of_ok hlook]
    dsimp only
    rw [if_neg Bool.false_ne_true, run_bind_of_ok hattempt]
    rfl
  rw [world_resolve_of_close hmode hclose]
  rfl

/-- A screen that is cancelled leaves the files as they are. -/
theorem world_resolve_cancelled (hmode : t.world.mode = .showing screen ctx command)
    (hview : t.world.viewAt t.world.viewBase = .ok fs) :
    (left ((resolve .cancelled).run t)).world = { t.world with
      mode := .normal
      environment := { t.world.environment with lastStatus := 0 } } := by
  let waiting : World := { t.world with mode := .normal }
  have hlook : (Step.look t.world.viewBase).run waiting = .ok fs waiting :=
    Step.run_look_eq_ok_iff.2 ⟨hview, rfl⟩
  have hclose : (Screens.close screen .cancelled ctx t.world.viewBase).run waiting =
      .ok {} waiting := by
    unfold Screens.close
    rw [run_bind_of_ok hlook]
    cases screen <;> rfl
  rw [world_resolve_of_close hmode hclose]
  rfl

theorem after_line_answer (s : Session) (text : String) (resolution : Resolution) :
    s.after [.line text, .answer resolution] =
      left ((resolve resolution).run (left ((submit text).run s))) := by
  rw [after_cons, after_cons, after_nil, next, next, Input.act, Input.act, left_discard,
    left_discard]

/-- A line that opens an editor, and what is saved in it. -/
theorem world_after_saved (h : s.Edits text fs full)
    (hwrite : (Edit.write full (Text.Utf8.encode content) (some s.world.context.username)
      Permissions.newFile).run fs = .ok () stored) :
    (s.after [.line text, .answer (.saved content)]).world =
      { s.world.remember (Text.Blank.trim text) s.options.historyLimit with
        fs := s.world.holding stored
        mode := .normal
        environment := { s.world.environment with lastStatus := 0 } } := by
  obtain ⟨name, hworld⟩ := world_submit_edits h
  rw [after_line_answer]
  generalize left ((submit text).run s) = t at hworld ⊢
  have hmode : t.world.mode = .showing (.editor full (Screens.textOf fs full) name false
      (fs.stat? full).isNone) s.world.context (Text.Blank.trim text) := by
    rw [hworld, Screens.editor, World.elevated_context]
  have hview : t.world.viewAt t.world.viewBase = .ok fs := hworld ▸ h.view
  rw [world_resolve_saved hmode hview hwrite, hworld]
  rfl

/-- A line that opens an editor, and its end without saving. -/
theorem world_after_cancelled (h : s.Edits text fs full) :
    (s.after [.line text, .answer .cancelled]).world =
      { s.world.remember (Text.Blank.trim text) s.options.historyLimit with
        fs := s.world.fs
        mode := .normal
        environment := { s.world.environment with lastStatus := 0 } } := by
  obtain ⟨name, hworld⟩ := world_submit_edits h
  rw [after_line_answer]
  generalize left ((submit text).run s) = t at hworld ⊢
  have hmode := congrArg World.mode hworld
  have hview : t.world.viewAt t.world.viewBase = .ok fs := hworld ▸ h.view
  rw [world_resolve_cancelled hmode hview, hworld]
  rfl

/-- In a world that has just begun, a new file can be edited. -/
theorem edits_notes (h : s.world = justBegun.world) :
    s.Edits "nano notes" homeOfAda "/home/ada/notes" := by
  have hpath : Path.segments "/home/ada/notes" = ["home", "ada"] ++ ["notes"] := by decide +kernel
  have hnearest : Access.nearestExisting homeOfAda "/home/ada/notes" = homeOfAda.statOf ["home", "ada"]
      (.directory ⟨"ada", Permissions.newDirectory, 0⟩ []) := by
    rw [Access.nearestExisting, hpath, Access.nearestAlong_concat rfl,
      Access.nearestAlong_of_find? rfl]
  have hread : s.read? "nano notes" =
      some ("nano notes", ⟨"nano notes", ["nano", "notes"], ⟨"nano notes", .none⟩⟩) := by
    unfold read?
    rw [h]
    decide +kernel
  refine ⟨by rw [h]; rfl, by rw [h]; rfl, ?_, by decide +kernel, ⟨by decide +kernel, ?_, fun _ => ?_⟩⟩
  · exact ⟨_, _, "nano", ["notes"], "notes", hread, rfl, rfl, by decide, by decide, by
      rw [h]; decide +kernel⟩
  · rw [hnearest]
    decide
  · rw [hnearest]
    rfl

end Session

end PracticeShell
