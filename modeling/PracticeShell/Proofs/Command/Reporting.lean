import PracticeShell.Proofs.Command.Asking
import PracticeShell.Proofs.Command.Sifting

/-!
# What commands report

A command line ends with one of four exit codes. The exit code is that of success exactly if there is no
message, but for a search that finds nothing, which fails without one (`failures_are_reported`). Only `cd`
leads to another directory, and only if it succeeds.
-/

namespace PracticeShell

open Run

theorem Text.Lines.join_eq_empty_iff {lines : List String} (h : "" ∉ lines) :
    join lines = "" ↔ lines = [] := by
  cases lines with
  | nil => simp [join]
  | cons line rest =>
      rw [List.mem_cons, not_or] at h
      rw [join, ← String.toList_inj, String.toList_intercalate]
      cases rest <;> simp [Ne.symm h.1]

namespace Outcome

/-- Whether an outcome stays in the directory and reports its failure: the exit code is one of those in
use, and it is not that of success exactly if there is a message. -/
structure Reports (o : Outcome) : Prop where
  code : o.exitCode ∈ [0, failure, misuse, unknown]
  failure_iff : o.exitCode ≠ 0 ↔ o.errors ≠ ""
  stays : o.newDirectory = none

theorem reports_print (output : String) : Reports (print output) :=
  ⟨by simp [print], by simp [print], rfl⟩

theorem reports_fail {errors : String} (herrors : errors ≠ "") {code : Nat}
    (hcode : code ∈ [failure, misuse, unknown]) : Reports (fail errors code) := by
  refine ⟨List.mem_cons_of_mem _ hcode, iff_of_true ?_ herrors, rfl⟩
  rintro (rfl : code = 0)
  exact absurd hcode (by decide)

/-- An outcome with messages. -/
theorem reports_join {output : String} {messages : List String} (hmessages : "" ∉ messages) {code : Nat}
    (hcode : code ∈ [0, failure, misuse, unknown]) (hfailure : code ≠ 0 ↔ messages ≠ []) :
    Reports { output, errors := Text.Lines.join messages, exitCode := code } :=
  ⟨hcode, hfailure.trans (Text.Lines.join_eq_empty_iff hmessages).not.symm, rfl⟩

/-- An outcome with messages that fails if there are any. -/
theorem reports_messages {messages : List String} (h : "" ∉ messages) (output : String) :
    Reports { output, errors := Text.Lines.join messages,
              exitCode := if messages.isEmpty then 0 else failure } := by
  refine reports_join h ?_ ?_ <;> cases messages <;> simp [failure]

theorem reports_ofLines {messages : List String} (h : "" ∉ messages) (output : List String) :
    Reports (ofLines output messages) := reports_messages h _

end Outcome

open Outcome (Reports reports_print reports_fail reports_join reports_messages reports_ofLines)

/-- The messages for each operand together. -/
theorem Action.forEach_speaks {operands : List String} {action : String → Action (List String)}
    (h : ∀ operand, Yields ("" ∉ ·) (action operand)) :
    Yields ("" ∉ ·) (Action.forEach operands action) := by
  induction operands with
  | nil => exact .pure (by simp)
  | cons operand rest ih =>
      refine .bind_of (h operand) fun messages hmessages => .bind_of ih fun others hothers => .pure ?_
      rw [List.mem_append, not_or]
      exact ⟨hmessages, hothers⟩

namespace Command

theorem messageOf_speaks {start : String} (h : start ≠ "") (cause : Option FileTree.Cause) :
    "" ∉ messageOf start cause := by
  cases cause <;> simp [messageOf, h]

section Operands

variable (ctx : Context) (operand : String)

theorem makeOne_speaks (parents : Bool) : Yields ("" ∉ ·) (makeOne ctx parents operand) := by
  refine .bind fun fs => .ite (.pure (by simp)) (.bind fun cause => .pure ?_)
  exact messageOf_speaks (by simp) cause

theorem touchOne_speaks : Yields ("" ∉ ·) (touchOne ctx operand) := by
  refine .bind fun fs => .ite (.pure (by simp)) (.bind fun cause => .pure ?_)
  exact messageOf_speaks (by simp) cause

theorem removeOne_speaks (recursive force : Bool) :
    Yields ("" ∉ ·) (removeOne ctx recursive force operand) := by
  refine .ite (.pure (by simp)) (.bind fun fs => ?_)
  split
  · exact .pure (by split <;> simp)
  · refine .ite (.pure (by simp)) (.ite (.pure (by simp)) (.bind fun cause => .pure ?_))
    exact messageOf_speaks (by simp) cause

theorem removeDirectoryOne_speaks : Yields ("" ∉ ·) (removeDirectoryOne ctx operand) := by
  refine .bind fun fs => .ite (.pure (by simp)) (.bind fun cause => .pure ?_)
  exact messageOf_speaks (by simp) cause

theorem copyOne_speaks (t : Transfer) (recursive : Bool) :
    Yields ("" ∉ ·) (copyOne ctx t recursive operand) := by
  refine .bind fun fs => ?_
  dsimp only
  split
  · exact .pure (by simp)
  · refine .ite (.pure (by simp)) (.ite (.pure (by simp)) (.ite (.pure (by simp))
      (.ite (.pure (by simp)) (.ite (.pure (by simp)) (.bind fun cause => .pure ?_)))))
    exact messageOf_speaks (by simp) cause

theorem moveOne_speaks (t : Transfer) (force : Bool) :
    Yields ("" ∉ ·) (moveOne ctx t force operand) := by
  refine .bind fun fs => ?_
  dsimp only
  split
  · exact .pure (by split <;> simp)
  · refine .ite (.pure (by simp)) (.ite (.pure (by simp)) (.bind fun cause => .pure ?_))
    exact messageOf_speaks (by simp) cause

theorem chmodOne_speaks (recursive : Bool) (change : String) :
    Yields ("" ∉ ·) (chmodOne ctx recursive change operand) := by
  refine .bind fun fs => .ite (.pure (by simp)) ?_
  dsimp only
  exact .ite (.pure (by simp)) (.bind fun _ => .pure (by simp))

theorem chownOne_speaks (recursive : Bool) (owner : String) :
    Yields ("" ∉ ·) (chownOne ctx recursive owner operand) := by
  refine .bind fun fs => .ite (.pure (by simp)) (.ite (.pure (by simp)) ?_)
  exact .bind fun _ => .pure (by simp)

end Operands

/-- What a listing says about a target: a text, or a message with the exit code of a failure. -/
def Listed.Speaks : Listed → Prop
  | .block _ => True
  | .problem message asked => message ≠ "" ∧ (asked = Outcome.failure ∨ asked = Outcome.misuse)

theorem listTarget_speaks (ctx : Context) (fs : FileSystem) (style : ListingStyle) (titled : Bool)
    (target : String) : (listTarget ctx fs style titled target).Speaks := by
  unfold listTarget
  dsimp only
  repeat' split
  all_goals simp [Listed.Speaks]

/-- The messages among what a listing says. -/
def problemsOf (parts : List Listed) : List String :=
  parts.filterMap fun | .problem message _ => some message | .block _ => none

theorem problemsOf_speaks {parts : List Listed} (h : ∀ part ∈ parts, part.Speaks) :
    "" ∉ problemsOf parts := by
  intro hmem
  obtain ⟨part, hpart, heq⟩ := List.mem_filterMap.1 hmem
  have hspeaks := h part hpart
  cases part with
  | block text => cases heq
  | problem message asked => exact hspeaks.1 (Option.some.inj heq)

/-- The exit code that is asked for, after a first one. -/
def askedCode (code : Nat) (parts : List Listed) : Nat :=
  parts.foldl (fun code part => match part with
    | .block _ => code
    | .problem _ asked =>
      if asked = Outcome.misuse then asked else if code = 0 then asked else code) code

/-- An exit code is asked for exactly where there is a message. -/
theorem askedCode_cases {parts : List Listed} (h : ∀ part ∈ parts, part.Speaks) {code : Nat}
    (hcode : code ∈ [0, Outcome.failure, Outcome.misuse, Outcome.unknown]) :
    askedCode code parts ∈ [0, Outcome.failure, Outcome.misuse, Outcome.unknown] ∧
      (askedCode code parts ≠ 0 ↔ code ≠ 0 ∨ problemsOf parts ≠ []) := by
  induction parts generalizing code with
  | nil => exact ⟨hcode, by simp [askedCode, problemsOf]⟩
  | cons part rest ih =>
      obtain ⟨hpart, hrest⟩ := List.forall_mem_cons.1 h
      cases part with
      | block text => exact ih hrest hcode
      | problem message asked =>
          have hstep : askedCode code (.problem message asked :: rest) = askedCode
            (if asked = Outcome.misuse then asked else if code = 0 then asked else code) rest := rfl
          have hasked : (if asked = Outcome.misuse then asked else if code = 0 then asked else code) ∈
              [0, Outcome.failure, Outcome.misuse, Outcome.unknown] ∧
            (if asked = Outcome.misuse then asked else if code = 0 then asked else code) ≠ 0 := by
            rcases hpart.2 with rfl | rfl
            · rw [if_neg (by decide)]
              split
              · decide
              · exact ⟨hcode, ‹_›⟩
            · rw [if_pos rfl]
              decide
          obtain ⟨hmem, hiff⟩ := ih hrest hasked.1
          rw [hstep]
          refine ⟨hmem, hiff.trans (iff_of_true (.inl hasked.2) (.inr ?_))⟩
          simp [problemsOf]

/-- An outcome with what a listing says. -/
theorem reports_listed {parts : List Listed} (h : ∀ part ∈ parts, part.Speaks) (output : String) :
    Reports { output, errors := Text.Lines.join (problemsOf parts), exitCode := askedCode 0 parts } := by
  obtain ⟨hcode, hiff⟩ := askedCode_cases h (by decide : 0 ∈ _)
  exact reports_join (problemsOf_speaks h) hcode (by simpa using hiff)

section Commands

variable (ctx : Context) (words : List String) (input : Option String)

theorem runLs_reports : Yields Reports (runLs ctx words) := by
  refine .bind fun args => .bind fun fs => .pure (reports_listed (fun part hpart => ?_) _)
  obtain ⟨target, -, rfl⟩ := List.mem_map.1 hpart
  exact listTarget_speaks ctx fs _ _ target

theorem runStat_reports : Yields Reports (runStat ctx words) := by
  refine .bind fun args => .ite (.pure (reports_fail (by simp) (by decide))) (.bind fun fs => .pure ?_)
  refine reports_ofLines (problemsOf_speaks fun part hpart => ?_) _
  obtain ⟨operand, -, rfl⟩ := List.mem_map.1 hpart
  split <;> simp [Listed.Speaks]

theorem readOperands_speaks (fs : FileSystem) {command : String} (h : command ≠ "")
    (operands : List String) : "" ∉ (readOperands ctx fs command operands).2 := by
  intro hmem
  obtain ⟨⟨operand, read⟩, -, heq⟩ := List.mem_filterMap.1 hmem
  cases read with
  | ok text => cases heq
  | error reason => simp [h] at heq

theorem runCat_reports : Yields Reports (runCat ctx words input) := by
  refine .bind fun args => .bind fun fs => ?_
  dsimp only
  split
  · exact .pure (reports_fail (by simp) (by decide))
  · exact .pure (reports_messages List.not_mem_nil _)
  · exact .pure (reports_messages (readOperands_speaks ctx fs (by simp) _) _)

theorem windowPart_speaks (fs : FileSystem) {command : String} (h : command ≠ "") (w : Window)
    (titled : Bool) (operand : String) :
    windowPart ctx fs command w titled operand ≠ .error "" := by
  unfold windowPart
  split <;> simp [h]

theorem runWindow_reports (fromEnd : Bool) : Yields Reports (runWindow fromEnd ctx words input) := by
  have hcommand : (if fromEnd then "tail" else "head") ≠ "" := by cases fromEnd <;> decide
  refine .bind fun args => .bind fun window => ?_
  cases window with
  | error raw => exact .pure (reports_fail (by simp [hcommand]) (by decide))
  | ok w =>
      refine .bind fun fs => ?_
      dsimp only
      split
      · exact .pure (reports_fail (by simp [hcommand]) (by decide))
      · exact .pure (reports_print _)
      · refine .pure (reports_messages ?_ _)
        intro hmem
        obtain ⟨part, hpart, heq⟩ := List.mem_filterMap.1 hmem
        obtain ⟨operand, -, rfl⟩ := List.mem_map.1 hpart
        split at heq
        · obtain rfl := Option.some.inj heq
          exact windowPart_speaks ctx fs hcommand w _ operand ‹_›
        · cases heq

theorem runWc_reports : Yields Reports (runWc ctx words input) := by
  refine .bind fun args => .bind fun fs => ?_
  dsimp only
  split
  · exact .pure (reports_fail (by simp) (by decide))
  · exact .pure (reports_print _)
  · exact .pure (reports_ofLines (readOperands_speaks ctx fs (by simp) _) _)

theorem runMkdir_reports : Yields Reports (runMkdir ctx words) :=
  .bind fun _ => .ite (.pure (reports_fail (by simp) (by decide)))
    (.bind_of (Action.forEach_speaks fun operand => makeOne_speaks ctx operand _)
      fun _ hmessages => .pure (reports_ofLines hmessages _))

theorem runTouch_reports : Yields Reports (runTouch ctx words) :=
  .bind fun _ => .ite (.pure (reports_fail (by simp) (by decide)))
    (.bind_of (Action.forEach_speaks fun operand => touchOne_speaks ctx operand)
      fun _ hmessages => .pure (reports_ofLines hmessages _))

theorem runRmdir_reports : Yields Reports (runRmdir ctx words) :=
  .bind fun _ => .ite (.pure (reports_fail (by simp) (by decide)))
    (.bind_of (Action.forEach_speaks fun operand => removeDirectoryOne_speaks ctx operand)
      fun _ hmessages => .pure (reports_ofLines hmessages _))

theorem runRm_reports : Yields Reports (runRm ctx words) := by
  refine .bind fun args => .bind fun fs => .ite ?_ ?_
  · split
    · exact .pure (reports_print "")
    · exact .pure (reports_fail (by simp) (by decide))
  · exact .bind_of (Action.forEach_speaks fun operand => removeOne_speaks ctx operand _ _)
      fun _ hmessages => .pure (reports_ofLines hmessages _)

theorem ofOperands_speaks {command : String} (h : command ≠ "") (fs : FileSystem)
    (operands : List String) : Transfer.ofOperands command ctx fs operands ≠ .error "" := by
  unfold Transfer.ofOperands
  split
  · simp [h]
  · simp [h]
  · dsimp only
    split <;> simp [h]

/-- A refusal to copy or move says something. -/
theorem reports_of_ofOperands {command message : String} (h : command ≠ "") {fs : FileSystem}
    {operands : List String} (hmessage : Transfer.ofOperands command ctx fs operands = .error message) :
    Reports (.fail message Outcome.failure) := by
  refine reports_fail ?_ (by decide)
  rintro rfl
  exact ofOperands_speaks ctx h fs operands hmessage

theorem runCp_reports : Yields Reports (runCp ctx words) := by
  refine .bind fun args => .bind fun fs => ?_
  split
  · rename_i message hmessage
    exact .pure (reports_of_ofOperands ctx (by simp) hmessage)
  · exact .bind_of (Action.forEach_speaks fun source => copyOne_speaks ctx source _ _)
      fun _ hmessages => .pure (reports_ofLines hmessages _)

theorem runMv_reports : Yields Reports (runMv ctx words) := by
  refine .bind fun args => .bind fun fs => ?_
  split
  · rename_i message hmessage
    exact .pure (reports_of_ofOperands ctx (by simp) hmessage)
  · exact .bind_of (Action.forEach_speaks fun source => moveOne_speaks ctx source _ _)
      fun _ hmessages => .pure (reports_ofLines hmessages _)

theorem runChmod_reports : Yields Reports (runChmod ctx words) := by
  unfold runChmod
  dsimp only
  split
  · refine .bind fun fs => .ite (.pure (reports_fail (by simp) (by decide))) ?_
    exact .bind_of (Action.forEach_speaks fun target => chmodOne_speaks ctx target _ _)
      fun _ hmessages => .pure (reports_ofLines hmessages _)
  · exact .pure (reports_fail (by simp) (by decide))

theorem runChown_reports : Yields Reports (runChown ctx words) := by
  refine .bind fun args => ?_
  split
  · refine .bind fun fs => .ite (.pure (reports_fail (by simp) (by decide))) ?_
    exact .bind_of (Action.forEach_speaks fun target => chownOne_speaks ctx target _ _)
      fun _ hmessages => .pure (reports_ofLines hmessages _)
  · exact .pure (reports_fail (by simp) (by decide))

theorem readPredicates_speaks {done : List (String × String)} :
    readPredicates done words ≠ .error "" := by
  fun_induction readPredicates done words <;> simp_all

mutual

theorem findFrom_speaks (c : Criteria) (depth : Nat) (display : String) (node : FileTree.Node) :
    "" ∉ (findFrom ctx c depth display node).errors := by
  cases node with
  | file a contents => simp [findFrom]
  | directory a es =>
      rw [findFrom]
      dsimp only
      split
      · simp
      · split
        · simp
        · exact findAmong_speaks c (depth + 1) display es

theorem findAmong_speaks (c : Criteria) (depth : Nat) (display : String)
    (es : List (String × FileTree.Node)) : "" ∉ (findAmong ctx c depth display es).errors := by
  cases es with
  | nil => simp [findAmong]
  | cons entry rest =>
      obtain ⟨name, node⟩ := entry
      rw [findAmong, Found.append, List.mem_append, not_or]
      exact ⟨findFrom_speaks c depth _ node, findAmong_speaks c depth display rest⟩

end

theorem findAt_speaks (c : Criteria) (fs : FileSystem) (start : String) :
    "" ∉ (findAt ctx c fs start).errors := by
  unfold findAt
  split
  · simp
  · exact findFrom_speaks ctx c 0 start _

theorem errors_foldl_found (first : Found) (others : List Found) :
    (others.foldl Found.append first).errors = first.errors ++ others.flatMap (·.errors) := by
  induction others generalizing first with
  | nil => simp
  | cons other rest ih => simp [ih, Found.append]

theorem runFind_reports : Yields Reports (runFind ctx words) := by
  unfold runFind
  dsimp only
  split
  · rename_i message hmessage
    refine .pure (reports_fail ?_ (by decide))
    rintro rfl
    exact readPredicates_speaks _ hmessage
  · split
    · exact .pure (reports_fail (by simp) (by decide))
    · refine .bind fun depth => ?_
      cases depth with
      | error text => exact .pure (reports_fail (by simp) (by decide))
      | ok depth =>
          refine .bind fun fs => .pure (reports_ofLines ?_ _)
          rw [errors_foldl_found, List.nil_append, List.mem_flatMap]
          rintro ⟨found, hfound, hempty⟩
          obtain ⟨start, -, rfl⟩ := List.mem_map.1 hfound
          exact findAt_speaks ctx _ fs start hempty

variable {ctx words input}

theorem errors_sourceBelow_speaks (fs : FileSystem) (operand full : String) (node : Stat) :
    "" ∉ (sourceBelow ctx fs operand full node).errors := by
  unfold sourceBelow
  dsimp only
  repeat' split
  all_goals simp [Sources.none, Sources.error, Sources.text]

theorem errors_sourceOf_speaks (fs : FileSystem) (recursive : Bool) (operand : String) :
    "" ∉ (sourceOf ctx fs recursive operand).errors := by
  unfold sourceOf
  dsimp only
  split
  · simp [Sources.error]
  · split
    · split
      · split
        · rw [errors_foldl_append, Sources.none, List.nil_append, List.flatMap_map, List.mem_flatMap]
          rintro ⟨node, -, hempty⟩
          exact errors_sourceBelow_speaks fs operand _ node hempty
        · simp [Sources.error]
      · simp [Sources.error]
    · repeat' split
      all_goals simp [Sources.error, Sources.text]

theorem errors_sourcesFor_speaks {fs : FileSystem} {recursive : Bool} {files : List String}
    {sources : Sources} (h : sourcesFor ctx fs recursive input files = some sources) :
    "" ∉ sources.errors := by
  cases files with
  | nil =>
      cases recursive with
      | true =>
          obtain rfl := Option.some.inj h
          exact errors_sourceOf_speaks fs true "."
      | false =>
          cases input with
          | none => cases h
          | some text =>
              obtain rfl := Option.some.inj h
              exact List.not_mem_nil
  | cons file rest =>
      obtain rfl := Option.some.inj h
      rw [errors_foldl_append, Sources.none, List.nil_append, List.flatMap_map, List.mem_flatMap]
      rintro ⟨operand, -, hempty⟩
      exact errors_sourceOf_speaks fs recursive operand hempty

/-- Whether a search selects nothing in what is read for its operands, and there is no error. -/
def FindsNothing (ctx : Context) (fs : FileSystem) (input : Option String) (words : List String) : Prop :=
  ∃ args pattern operands selects sources,
    Arguments.parse (.flagsOnly "invclrRw") words = .ok args ∧ args.operands = pattern :: operands ∧
    Matcher.regex (args.has ['i']) (wholePattern args pattern) = .ok selects ∧
    sourcesFor ctx fs (args.has ['r', 'R']) input (Operands.expand ctx fs operands) = some sources ∧
    sources.errors = [] ∧ ∀ source ∈ sources.texts, picked selects (args.has ['v']) source.2 = []

/-- A search that finds nothing fails without a message. -/
theorem FindsNothing.run_runGrep {fs : FileSystem} (h : FindsNothing ctx fs input words) :
    ∃ output, (runGrep ctx words input).run fs = .ok { output, exitCode := Outcome.failure } fs := by
  obtain ⟨args, pattern, operands, selects, sources, hparse, hoperands, hpattern, hsources, herrors,
    hnone⟩ := h
  have hrun := run_runGrepBy input hparse hoperands hpattern hsources
  rw [runGrepBy_regex] at hrun
  have htells := tells_siftedOutcome args selects sources
  have hcode : (siftedOutcome args selects sources).exitCode = Outcome.failure := by
    rw [htells.exitCode, if_neg (by simp [herrors]), if_neg (by simpa using hnone)]
    rfl
  have hsilent : (siftedOutcome args selects sources).errors = "" := by
    rw [htells.errors, herrors]
    rfl
  refine ⟨(siftedOutcome args selects sources).output, hrun.trans ?_⟩
  rw [← hcode]
  exact congrArg (fun errors => EStateM.Result.ok
    { siftedOutcome args selects sources with errors } fs) hsilent

/-- The outcome of a search that finds something or meets an error. -/
theorem reports_siftedOutcome {args : Arguments} {selects : String → Bool} {sources : Sources}
    (hspeaks : "" ∉ sources.errors)
    (h : ¬ (sources.errors = [] ∧
      ∀ source ∈ sources.texts, picked selects (args.has ['v']) source.2 = [])) :
    Reports (siftedOutcome args selects sources) := by
  have hcode := (tells_siftedOutcome args selects sources).exitCode
  have hfinds : sources.errors = [] →
      ∃ source ∈ sources.texts, picked selects (args.has ['v']) source.2 ≠ [] := by
    simpa using h
  refine reports_join hspeaks ?_ ?_
  · change (siftedOutcome args selects sources).exitCode ∈ _
    rw [hcode]
    split
    · decide
    · split <;> decide
  · change (siftedOutcome args selects sources).exitCode ≠ 0 ↔ _
    rw [hcode]
    by_cases herrors : sources.errors = []
    · simp [herrors, if_pos (hfinds herrors)]
    · simp [herrors]

/-- A search reports its failure, unless it finds nothing. -/
theorem reports_of_runGrep {fs later : FileSystem} {o : Outcome}
    (hrun : (runGrep ctx words input).run fs = .ok o later) :
    Reports o ∨ FindsNothing ctx fs input words := by
  rw [← runGrepBy_regex] at hrun
  obtain ⟨args, t, hargs, hrest⟩ := run_bind_eq_ok_iff.1 hrun
  obtain ⟨hparse, rfl⟩ := Action.of_run_arguments hargs
  cases hoperands : args.operands with
  | nil =>
      rw [hoperands] at hrest
      cases hrest
      exact .inl (reports_fail (by decide) (by decide))
  | cons pattern operands =>
      rw [hoperands] at hrest
      dsimp only at hrest
      rw [run_get_bind] at hrest
      cases hpattern : Matcher.regex (args.has ['i']) (wholePattern args pattern) with
      | error e =>
          rw [hpattern] at hrest
          cases e with
          | malformed =>
              cases hrest
              exact .inl (reports_fail (by simp) (by decide))
          | _ => cases hrest
      | ok selects =>
          rw [hpattern] at hrest
          dsimp only at hrest
          cases hsources : sourcesFor ctx t (args.has ['r', 'R']) input
            (Operands.expand ctx t operands) with
          | none =>
              rw [hsources] at hrest
              cases hrest
              exact .inl (reports_fail (by decide) (by decide))
          | some sources =>
              rw [hsources] at hrest
              cases hrest
              refine or_iff_not_imp_right.2 fun hfinds => ?_
              exact reports_siftedOutcome (errors_sourcesFor_speaks hsources) fun hsilent =>
                hfinds ⟨args, pattern, operands, selects, sources, hparse, hoperands, hpattern,
                  hsources, hsilent⟩

variable (ctx words input)

/-- A command other than `cd`, `grep` and `sudo` reports its failure. -/
theorem run_reports {c : Command} (hcd : c ≠ cd) (hgrep : c ≠ grep) :
    Yields Reports (c.run ctx words input) := by
  cases c with
  | cd => exact absurd rfl hcd
  | grep => exact absurd rfl hgrep
  | pwd => exact .pure (reports_print _)
  | ls => exact runLs_reports ctx words
  | cat => exact runCat_reports ctx words input
  | mkdir => exact runMkdir_reports ctx words
  | touch => exact runTouch_reports ctx words
  | rm => exact runRm_reports ctx words
  | rmdir => exact runRmdir_reports ctx words
  | cp => exact runCp_reports ctx words
  | mv => exact runMv_reports ctx words
  | echo => exact .pure (reports_print _)
  | find => exact runFind_reports ctx words
  | head => exact runWindow_reports ctx words input false
  | tail => exact runWindow_reports ctx words input true
  | wc => exact runWc_reports ctx words input
  | clear => exact .pure (reports_print _)
  | whoami => exact .pure (reports_print _)
  | chmod => exact runChmod_reports ctx words
  | chown => exact runChown_reports ctx words
  | stat => exact runStat_reports ctx words
  | superuser => exact .pure (reports_print "")

end Commands

theorem answerFault_reports (name : String) (fault : Fault) : Reports (answerFault name fault) := by
  cases fault <;> exact reports_fail (by simp) (by decide)

theorem notFound_reports (name : String) : Reports (notFound name) := by
  unfold notFound
  dsimp only
  split <;> exact reports_fail (by simp) (by decide)

theorem guarded_reports {name : String} {action : Action Outcome} {fs : FileSystem}
    (h : ∀ o later, action.run fs = .ok o later → Reports o) : Reports (guarded name action fs).1 := by
  unfold guarded
  cases hrun : action fs with
  | ok outcome later => exact h outcome later hrun
  | error fault later => exact answerFault_reports name fault

/-- The words that run in the end: with elevated rights `sudo` runs the words after it. -/
def innermost (ctx : Context) : List String → List String
  | [] => []
  | word :: words =>
    if word = superuser.name ∧ ctx.elevated = true ∧ words ≠ [] then innermost ctx words
    else word :: words

/-- How the outcome of a command line is accounted for: by an exit code in use, by messages if it is a
failure, unless a search finds nothing, and by a directory that is led to if it is that of `cd`. -/
structure Accounts (ctx : Context) (fs : FileSystem) (input : Option String) (words : List String)
    (o : Outcome) : Prop where
  code : o.exitCode ∈ [0, 1, 2, 127]
  failure_iff : o.exitCode ≠ 0 ↔ o.errors ≠ "" ∨
    ∃ arguments, words = grep.name :: arguments ∧ FindsNothing ctx fs input arguments
  leads_iff : o.newDirectory ≠ none ↔ o.exitCode = 0 ∧ ∃ arguments, words = cd.name :: arguments

section Lines

variable {ctx : Context} {fs : FileSystem} {input : Option String} {words : List String} {o : Outcome}

theorem accounts_of_reports (h : Reports o) (hcd : words.head? ≠ some cd.name)
    (hgrep : words.head? ≠ some grep.name) : Accounts ctx fs input words o where
  code := h.code
  failure_iff := by
    rw [h.failure_iff, or_iff_left]
    rintro ⟨arguments, rfl, -⟩
    exact hgrep rfl
  leads_iff := by
    refine iff_of_false (fun hne => hne h.stays) ?_
    rintro ⟨-, arguments, rfl⟩
    exact hcd rfl

theorem accounts_cd (arguments : List String) : Accounts ctx fs input (cd.name :: arguments)
    (guarded cd.name (cd.run ctx arguments input) fs).1 := by
  have hgrep : ∀ words, cd.name :: arguments ≠ grep.name :: words := by
    intro words heq
    exact absurd (List.cons.inj heq).1 (by decide)
  have hrun : (guarded cd.name (cd.run ctx arguments input) fs).1 = runCd ctx arguments fs := rfl
  rw [hrun]
  rcases runCd_cases ctx arguments fs with ⟨errors, herrors, hfail⟩ | hpath
  · have hreports : Reports (.fail errors Outcome.failure) := reports_fail herrors (by decide)
    rw [hfail]
    refine ⟨hreports.code, ?_, iff_of_false (fun hne => hne hreports.stays) fun h => by cases h.1⟩
    rw [hreports.failure_iff, or_iff_left]
    rintro ⟨words, heq, -⟩
    exact hgrep words heq
  · rw [hpath]
    refine ⟨by simp, iff_of_false (by simp) ?_, iff_of_true (by simp) ⟨rfl, arguments, rfl⟩⟩
    rintro (herrors | ⟨words, heq, -⟩)
    · exact herrors rfl
    · exact hgrep words heq

theorem accounts_grep (arguments : List String) : Accounts ctx fs input (grep.name :: arguments)
    (guarded grep.name (grep.run ctx arguments input) fs).1 := by
  have hcd : ∀ words, grep.name :: arguments ≠ cd.name :: words := by
    intro words heq
    exact absurd (List.cons.inj heq).1 (by decide)
  by_cases hfinds : FindsNothing ctx fs input arguments
  · obtain ⟨output, hrun⟩ := hfinds.run_runGrep
    have hguarded : (guarded grep.name (grep.run ctx arguments input) fs).1 =
        { output, exitCode := Outcome.failure } := by
      rw [EStateM.run] at hrun
      rw [guarded, run, hrun]
    rw [hguarded]
    refine ⟨by simp [Outcome.failure], iff_of_true Nat.one_ne_zero (.inr ⟨arguments, rfl, hfinds⟩),
      iff_of_false (by simp) ?_⟩
    rintro ⟨hcode, -⟩
    exact absurd hcode Nat.one_ne_zero
  · have hreports : Reports (guarded grep.name (grep.run ctx arguments input) fs).1 :=
      guarded_reports fun o later hrun => (reports_of_runGrep hrun).resolve_right hfinds
    refine ⟨hreports.code, ?_, iff_of_false (fun hne => hne hreports.stays) ?_⟩
    · rw [hreports.failure_iff, or_iff_left]
      rintro ⟨words, heq, hnothing⟩
      exact hfinds ((List.cons.inj heq).2 ▸ hnothing)
    · rintro ⟨-, words, heq⟩
      exact hcd words heq

/-- The prefixes that have no effect aside, `sudo` is only met without elevated rights or without other
words. -/
theorem execute_innermost (ctx : Context) (input : Option String) (words : List String) :
    execute ctx input (innermost ctx words) = execute ctx input words := by
  induction words with
  | nil => rfl
  | cons word words ih =>
      rw [innermost]
      split
      · rename_i hrun
        obtain ⟨rfl, helevated, hwords⟩ := hrun
        rw [execute_superuser ctx words input (by decide), helevated, if_neg (by simpa using hwords)]
        exact ih
      · rfl

/-- With elevated rights the words that run in the end are not `sudo` with other words. -/
theorem ne_superuser_of_innermost {word : String} {rest : List String} (helevated : ctx.elevated = true)
    (hrest : rest ≠ []) (h : innermost ctx words = word :: rest) : word ≠ superuser.name := by
  induction words with
  | nil => cases h
  | cons first words ih =>
      rw [innermost] at h
      split at h
      · exact ih h
      · rename_i hstays
        obtain ⟨rfl, rfl⟩ := List.cons.inj h
        exact fun hword => hstays ⟨hword, helevated, hrest⟩

/-- A command line without a prefix that has no effect. -/
theorem accounts_of_execute {word : String} {rest : List String}
    (hword : word = superuser.name → ctx.elevated = false ∨ rest = []) :
    Accounts ctx fs input (word :: rest) (execute ctx input (word :: rest) fs).1 := by
  have hreported : ∀ {c}, c ≠ cd → c ≠ grep → ofName? word = some c → ∀ {o : Outcome}, Reports o →
      Accounts ctx fs input (word :: rest) o := by
    intro c hcd hgrep hname o hreports
    have hne : ∀ other : Command, c ≠ other → (word :: rest).head? ≠ some other.name := by
      intro other hother heq
      rw [Option.some.inj heq, ofName?_name] at hname
      exact hother (Option.some.inj hname).symm
    exact accounts_of_reports hreports (hne cd hcd) (hne grep hgrep)
  cases hname : ofName? word with
  | none =>
      rw [execute_unknown ctx rest input hname]
      have hne : ∀ other : Command, (word :: rest).head? ≠ some other.name := by
        intro other heq
        rw [Option.some.inj heq, ofName?_name] at hname
        cases hname
      exact accounts_of_reports (notFound_reports word) (hne cd) (hne grep)
  | some c =>
      by_cases hc : c = superuser
      · subst hc
        refine hreported (by decide) (by decide) hname ?_
        rw [execute_superuser ctx rest input hname]
        split
        · exact reports_fail (by decide) (by decide)
        · rename_i hrest
          rcases hword (name_of_ofName? hname).symm with helevated | hnil
          · rw [helevated, if_neg Bool.false_ne_true]
            exact ⟨List.mem_cons_self, iff_of_false (absurd rfl) (absurd rfl), rfl⟩
          · exact absurd (by simp [hnil]) hrest
      · rw [execute_of_ne ctx rest input hname hc]
        obtain rfl := name_of_ofName? hname
        by_cases hcd : c = cd
        · subst hcd
          exact accounts_cd rest
        · by_cases hgrep : c = grep
          · subst hgrep
            exact accounts_grep rest
          · exact hreported hcd hgrep hname
              (guarded_reports fun o later hrun => run_reports ctx rest input hcd hgrep fs o later hrun)

/-- Without elevated rights `sudo` with other words asks for a password, and changes nothing. -/
theorem needsPassword_iff : (execute ctx input words fs).1.needsPassword = true ↔
    ctx.elevated = false ∧ ∃ rest, rest ≠ [] ∧ words = superuser.name :: rest := by
  constructor
  · intro h
    obtain ⟨rest, rfl, heq⟩ := execute_needsPassword h
    have helevated : ctx.elevated = false := by
      by_contra helevated
      have hfinal : IsFinal (execute ctx input (superuser.name :: rest) fs).1 :=
        execute_isFinal (by simpa using helevated)
      rw [IsFinal, h] at hfinal
      cases hfinal
    refine ⟨helevated, rest, ?_, rfl⟩
    rintro rfl
    rw [execute_superuser ctx [] input (by decide)] at h
    cases h
  · rintro ⟨helevated, rest, hrest, rfl⟩
    rw [execute_superuser ctx rest input (by decide), helevated, if_neg (by simpa using hrest)]
    rfl

/-- Every command line ends with one of the exit codes in use. It fails exactly if there are messages,
unless it is a search that finds nothing. It leads to another directory exactly if it is a `cd` that
succeeds, and asks for a password exactly if it is `sudo` with other words and without elevated rights,
when nothing is changed. -/
theorem failures_are_reported (ctx : Context) (input : Option String) (words : List String)
    (fs : FileSystem) :
    let (o, later) := execute ctx input words fs
    Accounts ctx fs input (innermost ctx words) o ∧
      (o.needsPassword = true ↔
        ctx.elevated = false ∧ ∃ rest, rest ≠ [] ∧ words = superuser.name :: rest) ∧
      (o.needsPassword = true → later = fs) := by
  refine ⟨?_, needsPassword_iff, fun h => ?_⟩
  · rw [← execute_innermost]
    cases hinner : innermost ctx words with
    | nil => exact accounts_of_reports (reports_print "") (by simp) (by simp)
    | cons word rest =>
        refine accounts_of_execute fun hword => ?_
        by_contra hboth
        obtain ⟨helevated, hrest⟩ := not_or.1 hboth
        exact ne_superuser_of_innermost (by simpa using helevated) hrest hinner hword
  · obtain ⟨rest, -, heq⟩ := execute_needsPassword h
    exact congrArg Prod.snd heq

end Lines

end Command

end PracticeShell
