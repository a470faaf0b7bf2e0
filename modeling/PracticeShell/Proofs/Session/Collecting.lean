import PracticeShell.Proofs.Redirection.Opening
import PracticeShell.Proofs.Redirection.Storing
import PracticeShell.Proofs.Session.Texts
import PracticeShell.Proofs.Text.Bytes

/-!
# Collecting lines for a file

What is appended to a file comes after the text that the bytes of the file spell
(`write_append_contents`). So the bytes that were there stay exactly if they are valid UTF-8: all others
are written back with replacement characters in their place (`append_keeps_bytes_iff`).

After `cat << END > notes` a session collects lines until one is the marker. No line is looked at for
anything else (`after_lines`); with the marker they are written to the file as they are
(`world_next_marker`), and nothing but the file, the history and the exit code has changed
(`collected_lines_are_written`).
-/

namespace PracticeShell.Redirection

open FileTree FileSystem

variable {fs later : FileSystem} {ctx : Context} {t : Target} {output : String} {old : ByteArray}

/-- Bytes with the output after them, on a line of its own. -/
def appended (old : ByteArray) (output : String) : ByteArray :=
  old ++ (if old.data.back?.all (· == 10) then .empty else Text.Utf8.encode "\n") ++
    Text.Utf8.encode output

theorem data_back?_eq_none_iff : old.data.back? = none ↔ old = .empty := by
  rw [Array.back?_eq_none_iff]
  exact ⟨fun h => ByteArray.ext h, fun h => h ▸ rfl⟩

/-- A line feed is missing after a text that is not empty and does not end with one. -/
theorem all_back?_encode_iff (text : String) :
    (Text.Utf8.encode text).data.back?.all (· == 10) = true ↔
      ¬ (text ≠ "" ∧ text.toList.getLast? ≠ some '\n') := by
  have hempty : text = "" ↔ (Text.Utf8.encode text).data.back? = none := by
    rw [data_back?_eq_none_iff, ← Text.Utf8.encode_injective.eq_iff]
    rfl
  rw [Classical.not_and_iff_not_or_not, Ne, Ne, Classical.not_not, Classical.not_not, hempty,
    ← Text.Utf8.back?_encode_iff]
  cases (Text.Utf8.encode text).data.back? <;> simp

/-- What is written after a text. -/
theorem encode_newContents (text output : String) :
    Text.Utf8.encode (newContents true (some text) output) =
      appended (Text.Utf8.encode text) output := by
  have hfeed := all_back?_encode_iff text
  rw [newContents, appended]
  split
  · rename_i hmissing
    rw [if_neg (fun h => hfeed.1 h hmissing), Text.Utf8.encode_append, Text.Utf8.encode_append]
  · rename_i hthere
    rw [if_pos (hfeed.2 hthere), ByteArray.append_empty, Text.Utf8.encode_append]

/-- Bytes that are text once something has been appended to them are text. -/
theorem isValid_of_appended (h : Text.Utf8.isValid (appended old output) = true) :
    Text.Utf8.isValid old = true := by
  rw [appended] at h
  split at h
  · rename_i hfeed
    cases hlast : old.data.back? with
    | none =>
        rw [data_back?_eq_none_iff.1 hlast]
        exact Text.Utf8.isValid_encode ""
    | some byte =>
        obtain rfl : byte = 10 := by simpa [hlast] using hfeed
        obtain ⟨before, rfl⟩ := Text.Utf8.back?_eq_lineFeed_iff.1 hlast
        rw [ByteArray.append_empty] at h
        obtain ⟨text, rfl⟩ := Text.Utf8.isValid_iff.1 (Text.Utf8.isValid_of_append_lineFeed h)
        rw [← Text.Utf8.encode_append]
        exact Text.Utf8.isValid_encode _
  · exact Text.Utf8.isValid_of_append_lineFeed h

/-- Output is appended to the text that the bytes of a file spell. -/
theorem write_append_contents (happend : t.append = true)
    (hold : fs.contents (ctx.resolve t.operand) = .ok old)
    (hrun : write ctx t output fs = (none, later)) :
    later.contents (ctx.resolve t.operand) =
      .ok (appended (Text.Utf8.encode (Text.Utf8.decode old)) output) := by
  obtain ⟨hfree, -, hfile⟩ := write_eq_none_iff.1 hrun
  obtain ⟨a, hface⟩ := contents_eq_ok_iff.1 hold
  have htext : fs.text (ctx.resolve t.operand) = .ok (Text.Utf8.decode old) := by
    rw [FileSystem.text, hold]
    rfl
  have hfilled := (writeFile_stores hfile).filled a old hface
  rw [happend, htext, Except.toOption, encode_newContents] at hfilled
  exact contents_of_faceAt hfilled

/-- Appending to a file keeps the bytes that were there exactly if they are valid UTF-8. Others come back
as the bytes of the text they are read as. -/
theorem append_keeps_bytes_iff (happend : t.append = true)
    (hold : fs.contents (ctx.resolve t.operand) = .ok old)
    (hrun : write ctx t output fs = (none, later)) :
    later.contents (ctx.resolve t.operand) =
        .ok (appended (Text.Utf8.encode (Text.Utf8.decode old)) output) ∧
      (later.contents (ctx.resolve t.operand) = .ok (appended old output) ↔
        Text.Utf8.isValid old = true) := by
  have hnow := write_append_contents happend hold hrun
  refine ⟨hnow, ?_⟩
  rw [hnow]
  constructor
  · intro hkept
    rw [Except.ok.injEq, ← encode_newContents] at hkept
    have hvalid : Text.Utf8.isValid (appended old output) = true := by
      rw [← hkept]
      exact Text.Utf8.isValid_encode _
    exact isValid_of_appended hvalid
  · intro hvalid
    rw [Text.Utf8.encode_decode_iff.2 hvalid]

/-- A file with a byte that is no text, and one with a letter of two bytes. -/
def scraps : FileSystem :=
  { FileSystem.empty "ada" 2 with
    entries :=
      [("latin", .file ⟨"ada", Permissions.newFile, 1⟩ ⟨#[0x61, 0xff]⟩),
        ("letter", .file ⟨"ada", Permissions.newFile, 1⟩ ⟨#[0xc3, 0xa9]⟩)] }

/-- The letter of two bytes is kept. -/
theorem letter_is_kept : ∃ later, write ⟨"/", "ada", false⟩ ⟨"letter", true⟩ "b" scraps = (none, later) ∧
    later.contents "/letter" = .ok ⟨#[0xc3, 0xa9, 0x0a, 0x62]⟩ := by
  have hdone : (write ⟨"/", "ada", false⟩ ⟨"letter", true⟩ "b" scraps).1 = none := by decide +kernel
  have hplace : (⟨"/", "ada", false⟩ : Context).resolve "letter" = "/letter" := by decide +kernel
  have hletter : Text.Utf8.isValid ⟨#[0xc3, 0xa9]⟩ = true := by decide +kernel
  have hold : scraps.contents ((⟨"/", "ada", false⟩ : Context).resolve "letter") =
      .ok ⟨#[0xc3, 0xa9]⟩ := by
    rw [hplace]
    rfl
  obtain ⟨later, hrun⟩ : ∃ later, write ⟨"/", "ada", false⟩ ⟨"letter", true⟩ "b" scraps =
      (none, later) := ⟨_, Prod.ext hdone rfl⟩
  have hkept := (append_keeps_bytes_iff (t := ⟨"letter", true⟩) rfl hold hrun).2.2 hletter
  rw [hplace] at hkept
  refine ⟨later, hrun, hkept.trans (congrArg Except.ok ?_)⟩
  decide +kernel

/-- The byte that is no text is replaced. -/
theorem appending_replaces_bytes : ¬ ∀ fs later ctx t output old, t.append = true →
    fs.contents (ctx.resolve t.operand) = .ok old → write ctx t output fs = (none, later) →
    later.contents (ctx.resolve t.operand) = .ok (appended old output) := by
  intro hall
  have hdone : (write ⟨"/", "ada", false⟩ ⟨"latin", true⟩ "b" scraps).1 = none := by decide +kernel
  have hplace : (⟨"/", "ada", false⟩ : Context).resolve "latin" = "/latin" := by decide +kernel
  have hold : scraps.contents ((⟨"/", "ada", false⟩ : Context).resolve "latin") =
      .ok ⟨#[0x61, 0xff]⟩ := by
    rw [hplace]
    rfl
  obtain ⟨later, hrun⟩ : ∃ later, write ⟨"/", "ada", false⟩ ⟨"latin", true⟩ "b" scraps =
      (none, later) := ⟨_, Prod.ext hdone rfl⟩
  have hclaimed := hall scraps later ⟨"/", "ada", false⟩ ⟨"latin", true⟩ "b" _ rfl hold hrun
  have hnow := write_append_contents (t := ⟨"latin", true⟩) rfl hold hrun
  have hsame := Except.ok.inj (hnow.symm.trans hclaimed)
  revert hsame
  decide +kernel

end PracticeShell.Redirection

namespace PracticeShell

open FileTree Run

namespace Command

/-- Without operands `cat` prints its input. -/
theorem execute_cat_input (ctx : Context) (text : String) (fs : FileSystem) :
    execute ctx (some text) ["cat"] fs = (.print text, fs) := by
  have hrun : (Command.cat.run ctx [] (some text)).run fs = .ok (.print text) fs := by
    have hconcat : concat [text] = text := by simp [concat]
    have hargs : Arguments.parse (.flagsOnly "n") [] = .ok ⟨[], [], [], none⟩ := rfl
    change (runCat ctx [] (some text)).run fs = _
    unfold runCat
    rw [run_bind_of_ok (Action.run_arguments hargs fs), run_get_bind]
    change EStateM.Result.ok _ fs = _
    have hjoin : Text.Lines.join [] = "" := rfl
    simp [Arguments.has, Outcome.ofLines, Outcome.print, hconcat, hjoin]
  exact execute_of_run ctx [] (some text) fs (by decide) hrun

end Command

namespace Redirection

variable {marker : String} {t : Target}

/-- What a file holds after output has been written to it, given what it has held. -/
def Target.filled (t : Target) (old : Except FileTree.Error ByteArray) (output : String) : ByteArray :=
  match old with
  | .ok bytes => if t.append then appended bytes output else Text.Utf8.encode output
  | .error _ => Text.Utf8.encode output

/-- Where all files hold texts, what has been written is there after what is appended to. -/
theorem write_contents {fs later : FileSystem} (htexts : fs.HoldsTexts) {ctx : Context}
    {output : String} (hrun : write ctx t output fs = (none, later)) :
    later.contents (ctx.resolve t.operand) =
      .ok (t.filled (fs.contents (ctx.resolve t.operand)) output) := by
  obtain ⟨hfree, -, hfile⟩ := write_eq_none_iff.1 hrun
  obtain ⟨a, hface⟩ := (writeFile_stores hfile).exists_file
    (FileSystem.isDirectory_eq_false_iff.1 hfree)
  rw [FileSystem.contents_of_faceAt hface, FileSystem.text]
  cases hold : fs.contents (ctx.resolve t.operand) with
  | error e => cases t.append <;> rfl
  | ok old =>
      obtain ⟨b, hbefore⟩ := FileSystem.contents_eq_ok_iff.1 hold
      have hvalid : Text.Utf8.isValid old = true := htexts _ _ hbefore
      have htext : (Except.map Text.Utf8.decode (.ok old : Except FileTree.Error ByteArray)).toOption =
          some (Text.Utf8.decode old) := rfl
      rw [htext, Target.filled]
      cases t.append with
      | false => rfl
      | true => rw [encode_newContents, Text.Utf8.encode_decode_iff.2 hvalid, if_pos rfl]

/-- Output that is written to a file leaves the exit code as it is. -/
theorem applyTo_of_write {r : Redirection} {ctx : Context} {o : Outcome} {fs later : FileSystem}
    (htarget : r.target? = some t) (hwrite : write ctx t o.output fs = (none, later))
    (said : Option String) :
    ∃ written, r.applyTo ctx o said fs = (written, later) ∧ written.exitCode = o.exitCode := by
  have happly : r.applyTo ctx o said fs = ({
      output := if o.isOk then said.getD (confirmation t) else ""
      errors := o.errors
      exitCode := o.exitCode
      newDirectory := o.newDirectory }, later) := by
    unfold applyTo
    rw [htarget]
    change StateT.bind (write ctx t o.output) _ fs = _
    unfold StateT.bind
    rw [hwrite]
    rfl
  exact ⟨_, happly, rfl⟩

end Redirection

open Redirection (Target IsMarker IsPlain opening)

/-- The guard sees no danger in a line that makes `cat` take lines. -/
theorem Guard.inspect_of_parse {line marker : String} {output : Option Target}
    (hparse : Redirection.parse line = .ok ⟨"cat", .lines marker output⟩) (situation : Situation) :
    inspect situation line = none := by
  have hcat : Words.split "cat" = ["cat"] := by decide
  have hwords : commandWords line = ["cat"] := by
    unfold commandWords
    rw [hparse]
    simp [hcat]
  have hcommand : inspectCommand situation line ["cat"] = some none := by
    simp [inspectCommand, diskCommands]
  have houtput : inspectOutput situation line = none := by
    unfold inspectOutput
    rw [hparse]
  unfold inspect
  rw [hwords, hcommand]
  exact houtput

theorem Dispatch.run_cat (hosts : List String) (ctx : Context) (text : String) (w : World) :
    (run hosts ctx none (some text) ["cat"]).run w = .ok (.of (.print text)) w := by
  have hplain : (if ctx.elevated then ["cat"].dropWhile (· == "sudo") else ["cat"]) = ["cat"] := by
    split <;> rfl
  have hsession : session? hosts ctx none "cat" [] = none := by
    simp [session?, Screens.pagers, Screens.editors]
  unfold run
  dsimp only
  rw [hplain]
  dsimp only
  rw [hsession]
  change (onFiles ctx none (some text) ["cat"]).run w = _
  rw [run_onFiles_none, Command.execute_cat_input]
  rfl

namespace Session

variable {s : Session} {marker text : String} {t : Target} {line : CommandLine}
  {lines : List String}

/-- A text that ends with no line end is taken as it is. -/
theorem withoutLineEnd_eq (h : ∀ c ∈ text.toList.getLast?, c ≠ '\r' ∧ c ≠ '\n') :
    withoutLineEnd text = text := by
  rw [withoutLineEnd]
  rcases List.eq_nil_or_concat text.toList with hnil | ⟨before, c, hlast⟩
  · rw [String.toList_eq_nil_iff.1 hnil]
    rfl
  · rw [List.concat_eq_append] at hlast
    obtain ⟨hreturn, hfeed⟩ := h c (by simp [hlast])
    rw [hlast, Text.Blank.dropWhileEnd_concat_neg (by simp [hreturn, hfeed]), ← hlast,
      String.ofList_toList]

/-- The command line of `cat` that takes lines for a file. -/
def collector (marker : String) (t : Target) : CommandLine :=
  ⟨opening "cat" marker t, ["cat"], ⟨"cat", .lines marker (some t)⟩⟩

/-- A session that waits for lines. -/
def collecting (s : Session) (line : CommandLine) (marker : String) (lines : List String) : Session :=
  { s with world := { s.world with mode := .collecting line marker lines } }

section Opening

variable (hmarker : IsMarker marker) (ht : IsPlain t.operand)

include hmarker ht

theorem parse_collector :
    Redirection.parse (opening "cat" marker t) = .ok (collector marker t).redirection :=
  Redirection.parse_opening (by decide) hmarker ht

omit hmarker in
theorem withoutLineEnd_opening :
    withoutLineEnd (opening "cat" marker t) = opening "cat" marker t := by
  refine withoutLineEnd_eq ?_
  rw [Redirection.getLast?_opening ht]
  exact fun c hc => (ht.2 c (List.mem_of_getLast? hc)).ne_lineEnd

theorem read?_opening :
    s.read? (opening "cat" marker t) = some (opening "cat" marker t, collector marker t) := by
  have hcat : IsPlain "cat" := by decide
  have hwords : Words.split "cat" = ["cat"] := by decide
  have hexpand := s.world.environment.expand_of_stays
    (Redirection.stays_opening hcat hmarker ht s.world.environment)
  have hne : opening "cat" marker t ≠ "" := by
    intro hnil
    have hlist := congrArg String.toList hnil
    rw [Redirection.toList_opening] at hlist
    simp at hlist
  unfold read?
  simp only [withoutLineEnd_opening ht, Redirection.trim_opening hcat ht, hexpand, if_neg hne,
    parse_collector hmarker ht]
  simp only [collector, hwords]
  rfl

/-- A line that opens a text is noted, and the session waits for lines. -/
theorem next_opening (hmode : s.world.mode = .normal) (hremote : s.world.remote = none) :
    s.next (.line (opening "cat" marker t)) =
      (s.remembering (opening "cat" marker t)).collecting (collector marker t) marker [] := by
  have hguard : (guard (opening "cat" marker t)
      (s.remembering (opening "cat" marker t)).world.context).run
        (s.remembering (opening "cat" marker t)) = .ok none _ :=
    run_guard_of_inspect hremote (Guard.inspect_of_parse (parse_collector hmarker ht) _)
  have hrun := run_submit_of_guard (read?_opening hmarker ht) hmode hguard
  rw [next, Input.act, left_discard, hrun]
  rfl

end Opening

/-- A line that is not the marker is taken as it is. -/
theorem next_line (hmode : s.world.mode = .collecting line marker lines) (hne : text ≠ marker)
    (hend : ∀ c ∈ text.toList.getLast?, c ≠ '\r' ∧ c ≠ '\n') :
    s.next (.line text) = s.collecting line marker (lines ++ [text]) := by
  rw [next, Input.act, left_discard, run_submit_collecting hmode, withoutLineEnd_eq hend,
    submitInput, if_pos hne]
  rfl

/-- Lines are collected one after the other. -/
theorem after_lines (lines : List String) {more : List String}
    (h : ∀ text ∈ more, text ≠ marker ∧ ∀ c ∈ text.toList.getLast?, c ≠ '\r' ∧ c ≠ '\n') :
    (s.collecting line marker lines).after (more.map .line) =
      s.collecting line marker (lines ++ more) := by
  induction more generalizing lines with
  | nil => rw [List.map_nil, after_nil, List.append_nil]
  | cons text more ih =>
      obtain ⟨⟨hne, hend⟩, hmore⟩ := List.forall_mem_cons.1 h
      have hcollected := ih (lines ++ [text]) hmore
      rw [← List.append_cons] at hcollected
      rw [List.map_cons, after_cons, next_line rfl hne hend]
      exact hcollected

theorem run_dispatch_cat (ctx : Context) (text : String) (s : Session) :
    (dispatch ctx none (some text) ["cat"]).run s = .ok (.of (.print text)) s := by
  change (step (Dispatch.run s.options.remoteHosts ctx none (some text) ["cat"])).run s = _
  rw [run_step, Dispatch.run_cat]

/-- A command without a screen ends with its output in its file. -/
theorem world_complete {o written : Outcome} {ctx : Context} {said : Option String}
    {stored : FileSystem} (happly : line.redirection.applyTo ctx o said s.world.fs =
      (written, stored)) (runner : Context) :
    (left ((complete line (.of o) runner ctx none said).run s)).world = { s.world with
      fs := stored
      environment := { s.world.environment with lastStatus := written.exitCode } } := by
  have hstored : (step (Step.onView none (line.redirection.applyTo ctx o said))).run s =
      .ok written { s with world := { s.world with fs := stored } } := by
    rw [run_step, Step.run_onView_none, happly]
  change (left ((step (Step.onView none (line.redirection.applyTo ctx o said)) >>= fun o =>
    finish line.text o none false).run s)).world = _
  rw [run_bind_of_ok hstored, world_finish]

/-- With the marker the lines are written to the file. -/
theorem world_next_marker (hmarker : IsMarker marker)
    (hmode : s.world.mode = .collecting (collector marker t) marker lines)
    (hremote : s.world.remote = none) {stored : FileSystem}
    (hwrite : Redirection.write s.world.context t (Redirection.body lines) s.world.fs =
      (none, stored)) :
    (s.next (.line marker)).world = { s.world with
      fs := stored
      mode := .normal
      environment := { s.world.environment with lastStatus := 0 } } := by
  have hend : withoutLineEnd marker = marker := withoutLineEnd_eq fun c hc =>
    (hmarker.isPlain.2 c (List.mem_of_getLast? hc)).ne_lineEnd
  have hbase : World.viewBase { s.world with mode := .normal } = none := by
    rw [World.viewBase, hremote]
    rfl
  have hctx : World.context { s.world with mode := .normal } = s.world.context := rfl
  have hwords : (collector marker t).words = ["cat"] := rfl
  obtain ⟨written, happly, hexit⟩ := Redirection.applyTo_of_write
    (r := (collector marker t).redirection) (o := .print (Redirection.body lines)) rfl hwrite
      (some (linesWritten lines.length t))
  rw [next, Input.act, left_discard, run_submit_collecting hmode, hend, submitInput,
    if_neg (not_not_intro rfl)]
  unfold setMode
  rw [run_modify_bind, run_get_bind]
  dsimp only
  rw [hbase, hctx, hwords, run_bind_of_ok (run_look_none _),
    run_bind_of_ok (run_dispatch_cat _ _ _)]
  change (left ((complete (collector marker t) (.of (.print (Redirection.body lines)))
    s.world.context s.world.context none (some (linesWritten lines.length t))).run
      { s with world := { s.world with mode := .normal } })).world = _
  rw [world_complete (s := { s with world := { s.world with mode := .normal } }) happly, hexit]
  rfl

/-- A session that waits for a command line takes a line that opens a text for a file, the lines of the
text and the marker. It ends as it was, with the lines in the file as they are, after what they are
appended to, and with the first of all lines in the history. -/
theorem collected_lines_are_written {o : SessionOptions} {adventure : Option Adventure}
    {store : Option ProgressStore} {resume : Bool} {now : Int} {first : Session}
    (hstart : start o adventure store resume now = .ok first) (inputs : List Input)
    (hs : first.after inputs = s) (hmode : s.world.mode = .normal)
    (hremote : s.world.remote = none) (hmarker : IsMarker marker) (ht : IsPlain t.operand)
    (hwritable : Redirection.IsWritable s.world.fs (s.world.context.resolve t.operand))
    (hlines : ∀ text ∈ lines, text ≠ marker ∧
      ∀ c ∈ text.toList.getLast?, c ≠ '\r' ∧ c ≠ '\n') :
    ∃ stored : FileSystem,
      Redirection.write s.world.context t (Redirection.body lines) s.world.fs = (none, stored) ∧
      stored.contents (s.world.context.resolve t.operand) = .ok (t.filled
        (s.world.fs.contents (s.world.context.resolve t.operand)) (Redirection.body lines)) ∧
      (s.after (.line (opening "cat" marker t) :: lines.map .line ++ [.line marker])).world =
        { s.world.remember (opening "cat" marker t) s.options.historyLimit with
          fs := stored
          mode := .normal
          environment := { s.world.environment with lastStatus := 0 } } := by
  have htexts : s.world.fs.HoldsTexts := hs ▸ after_holdsTexts hstart inputs
  obtain ⟨stored, hwrite⟩ := hwritable.exists_write (Redirection.body lines)
  refine ⟨stored, hwrite, Redirection.write_contents htexts hwrite, ?_⟩
  have hwritten := world_next_marker
    (s := (s.remembering (opening "cat" marker t)).collecting (collector marker t) marker lines)
    hmarker rfl hremote hwrite
  rw [after_concat, after_cons, next_opening hmarker ht hmode hremote, after_lines [] hlines,
    List.nil_append, hwritten]
  rfl

/-- Lines that could be read in many other ways are written to a new file. -/
theorem lines_are_taken_as_they_are :
    start ⟨"ada", "lab", "secret", [], true, 0⟩ none none true 0 = .ok justBegun ∧
    ∃ stored : FileSystem, stored.contents "/home/ada/notes" =
        .ok (Text.Utf8.encode "\n:reset\nrm -r ~ > x\n'$HOME\n EOF \n") ∧
      (justBegun.after [.line "cat << EOF > notes", .line "", .line ":reset", .line "rm -r ~ > x",
        .line "'$HOME", .line " EOF ", .line "EOF"]).world =
        { justBegun.world with fs := stored, history := ["cat << EOF > notes"] } := by
  have hplace : justBegun.world.context.resolve "notes" = "/home/ada/notes" := by decide +kernel
  have hpath : Path.segments "/home/ada/notes" = ["home", "ada"] ++ ["notes"] := by decide +kernel
  have hnearest : Access.nearestExisting justBegun.world.fs "/home/ada/notes" =
      justBegun.world.fs.statOf ["home", "ada"]
        (.directory ⟨"ada", Permissions.newDirectory, 0⟩ []) := by
    rw [Access.nearestExisting, hpath, Access.nearestAlong_concat rfl,
      Access.nearestAlong_of_find? rfl]
  have hwritable : Redirection.IsWritable justBegun.world.fs
      (justBegun.world.context.resolve "notes") := by
    rw [hplace]
    refine ⟨by decide +kernel, ?_, fun _ => ?_⟩ <;> rw [hnearest]
    · decide
    · rfl
  have hlines : ∀ text ∈ ["", ":reset", "rm -r ~ > x", "'$HOME", " EOF "], text ≠ "EOF" ∧
      ∀ c ∈ text.toList.getLast?, c ≠ '\r' ∧ c ≠ '\n' := by simp
  have hcollected := collected_lines_are_written (s := justBegun) (t := ⟨"notes", false⟩)
    start_justBegun [] rfl rfl rfl (by decide +kernel) (by decide +kernel) hwritable hlines
  rw [hplace] at hcollected
  obtain ⟨stored, -, hcontents, hworld⟩ := hcollected
  have hopening : opening "cat" "EOF" ⟨"notes", false⟩ = "cat << EOF > notes" := by decide
  have hbody : Redirection.body ["", ":reset", "rm -r ~ > x", "'$HOME", " EOF "] =
      "\n:reset\nrm -r ~ > x\n'$HOME\n EOF \n" := by decide
  have hmissing : justBegun.world.fs.contents "/home/ada/notes" =
      .error ⟨.notFound, "/home/ada/notes"⟩ := by
    rw [FileSystem.contents, FileSystem.find?, hpath]
    rfl
  rw [hopening] at hworld
  rw [hmissing, hbody] at hcontents
  exact ⟨start_justBegun, stored, hcontents, hworld⟩

end Session

end PracticeShell
