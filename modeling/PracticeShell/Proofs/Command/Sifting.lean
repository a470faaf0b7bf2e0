import PracticeShell.Proofs.Command.Arguments
import PracticeShell.Proofs.Command.Steps

/-!
# What `grep` selects

What `grep` does can be read as a program over whatever turns a pattern into a property of lines
(`Command.Matcher`); with regular expressions it is the command itself (`runGrepBy_regex`). Which texts
it reads does not depend on the property (`IsRead`). For every property the lines that it selects and
those that it selects with the flag to invert are all lines of these texts, each once
(`grep_sifts_lines`).
-/

namespace PracticeShell

open FileTree Run

namespace Command

/-- What turns a pattern, with or without regard to case, into a property of lines. -/
abbrev Matcher := (ignoreCase : Bool) → String → Except Regex.ReadError (String → Bool)

/-- Regular expressions. -/
def Matcher.regex : Matcher := fun ignoreCase pattern =>
  (Regex.parse { ignoreCase } pattern).map Regex.occursIn

/-- The lines of a text with their numbers. -/
def numberedLines (text : String) : List (Nat × String) :=
  (Text.Lines.logical text).zipIdx.map fun (line, k) => (k + 1, line)

/-- The lines of a text with a property, or without it, with their numbers. -/
def picked (selects : String → Bool) (invert : Bool) (text : String) : List (Nat × String) :=
  (numberedLines text).filter fun (_, line) => selects line != invert

/-- What is read for some files; without any, the current directory, if the search goes below
directories, or else the input. -/
def sourcesFor (ctx : Context) (fs : FileSystem) (recursive : Bool) (input : Option String)
    (files : List String) : Option Sources :=
  match files, recursive, input with
  | [], true, _ => some (sourceOf ctx fs recursive ".")
  | [], false, some text => some (.text "(standard input)" text)
  | [], false, none => none
  | files, _, _ => some ((files.map (sourceOf ctx fs recursive)).foldl Sources.append .none)

/-- The outcome of a search. -/
def siftedOutcome (args : Arguments) (selects : String → Bool) (sources : Sources) : Outcome :=
  let named := sources.texts.length > 1 || args.has ['r', 'R']
  let found := sources.texts.map fun (label, text) =>
    (label, picked selects (args.has ['v']) text)
  { output := Text.Lines.join
      (found.flatMap fun (label, lines) => searchOutput args named label lines)
    errors := Text.Lines.join sources.errors
    exitCode :=
      if !sources.errors.isEmpty then Outcome.misuse
      else if found.any fun (_, lines) => !lines.isEmpty then 0
      else Outcome.failure }

/-- The pattern that is searched for: whole words only, if there is a flag for it. -/
def wholePattern (args : Arguments) (pattern : String) : String :=
  if args.has ['w'] then "\\b(?:" ++ pattern ++ ")\\b" else pattern

/-- `runGrep` with another matcher. -/
def runGrepBy (matcher : Matcher) (ctx : Context) (words : List String) (input : Option String) :
    Action Outcome := do
  let args ← Action.arguments (.flagsOnly "invclrRw") words
  match args.operands with
  | [] => return .fail "grep: missing pattern or file" Outcome.misuse
  | pattern :: operands =>
    let fs ← get
    match matcher (args.has ['i']) (wholePattern args pattern) with
    | .error .malformed =>
      return .fail ("grep: invalid regular expression: " ++ pattern) Outcome.misuse
    | .error _ => throw .internal
    | .ok selects =>
      match sourcesFor ctx fs (args.has ['r', 'R']) input (Operands.expand ctx fs operands) with
      | none => return .fail "grep: missing pattern or file" Outcome.misuse
      | some sources => return siftedOutcome args selects sources

theorem runGrepBy_regex : runGrepBy .regex = runGrep := by
  funext ctx words input
  unfold runGrepBy runGrep Matcher.regex
  congr 1
  funext args
  cases hoperands : args.operands with
  | nil => rfl
  | cons pattern operands =>
      dsimp only
      congr 1
      funext fs
      unfold wholePattern
      cases hparse : Regex.parse { ignoreCase := args.has ['i'] }
        (if args.has ['w'] then "\\b(?:" ++ pattern ++ ")\\b" else pattern) with
      | error e => cases e <;> rfl
      | ok r =>
          dsimp only [Except.map]
          unfold sourcesFor siftedOutcome
          generalize args.has ['r', 'R'] = recursive
          cases Operands.expand ctx fs operands with
          | nil => cases recursive <;> cases input <;> rfl
          | cons => rfl

/-- A search with a pattern that can be read, in what is there to be read. -/
theorem run_runGrepBy {matcher : Matcher} {ctx : Context} {fs : FileSystem} (input : Option String)
    {words : List String} {args : Arguments}
    (hparse : Arguments.parse (.flagsOnly "invclrRw") words = .ok args) {pattern : String}
    {operands : List String} (hoperands : args.operands = pattern :: operands)
    {selects : String → Bool}
    (hpattern : matcher (args.has ['i']) (wholePattern args pattern) = .ok selects)
    {sources : Sources}
    (hsources : sourcesFor ctx fs (args.has ['r', 'R']) input (Operands.expand ctx fs operands) =
      some sources) :
    (runGrepBy matcher ctx words input).run fs = .ok (siftedOutcome args selects sources) fs := by
  unfold runGrepBy
  rw [run_bind_of_ok (Action.run_arguments hparse fs), hoperands]
  dsimp only
  rw [run_get_bind, hpattern]
  dsimp only
  rw [hsources]
  rfl

/-- What is read for an operand, under the name by which it is shown: the file it means, unless it is
denied; or, if the search goes below directories, each file that a walk of the directory meets and that
is not denied. -/
inductive IsRead (ctx : Context) (fs : FileSystem) (recursive : Bool) (operand : String) :
    String × String → Prop
  | file {node : Stat} {text : String} (hnode : fs.stat? (ctx.resolve operand) = some node)
      (hfile : node.isDirectory = false) (hallowed : Access.denied ctx node = false)
      (htext : fs.text (ctx.resolve operand) = .ok text) :
      IsRead ctx fs recursive operand (operand, text)
  | below {top node : Stat} {walked : List Stat} {text : String} (hrecursive : recursive = true)
      (htop : fs.stat? (ctx.resolve operand) = some top) (hdirectory : top.isDirectory = true)
      (hwalk : fs.walk (ctx.resolve operand) = .ok walked) (hnode : node ∈ walked)
      (hfile : node.isDirectory = false) (hallowed : Access.denied ctx node = false)
      (htext : fs.text node.path = .ok text) :
      IsRead ctx fs recursive operand (labelBelow operand (ctx.resolve operand) node.path, text)

section

variable {ctx : Context} {fs : FileSystem} {recursive : Bool} {operand : String}
  {source : String × String}

theorem texts_foldl_append (first : Sources) (others : List Sources) :
    (others.foldl Sources.append first).texts = first.texts ++ others.flatMap (·.texts) := by
  induction others generalizing first with
  | nil => simp
  | cons other rest ih => simp [ih, Sources.append]

theorem errors_foldl_append (first : Sources) (others : List Sources) :
    (others.foldl Sources.append first).errors = first.errors ++ others.flatMap (·.errors) := by
  induction others generalizing first with
  | nil => simp
  | cons other rest ih => simp [ih, Sources.append]

theorem mem_sourceBelow_iff {full : String} {node : Stat} :
    source ∈ (sourceBelow ctx fs operand full node).texts ↔
      node.isDirectory = false ∧ Access.denied ctx node = false ∧
        ∃ text, fs.text node.path = .ok text ∧ source = (labelBelow operand full node.path, text) := by
  unfold sourceBelow
  cases node.isDirectory with
  | true => simp [Sources.none]
  | false =>
      cases Access.denied ctx node with
      | true => simp [Sources.error]
      | false => cases fs.text node.path <;> simp [Sources.error, Sources.text]

theorem mem_sourceOf_iff : source ∈ (sourceOf ctx fs recursive operand).texts ↔
    IsRead ctx fs recursive operand source := by
  unfold sourceOf
  dsimp only
  constructor
  · intro h
    split at h
    · simp [Sources.error] at h
    · rename_i node hnode
      split at h
      · rename_i hdirectory
        split at h
        · rename_i hrecursive
          split at h
          · rename_i walked hwalk
            rw [texts_foldl_append] at h
            simp only [Sources.none, List.nil_append, List.flatMap_map, List.mem_flatMap] at h
            obtain ⟨met, hmet, hread⟩ := h
            obtain ⟨hfile, hallowed, text, htext, rfl⟩ := mem_sourceBelow_iff.1 hread
            exact .below hrecursive hnode hdirectory hwalk hmet hfile hallowed htext
          · simp [Sources.error] at h
        · simp [Sources.error] at h
      · rename_i hfile
        split at h
        · simp [Sources.error] at h
        · rename_i hallowed
          split at h
          · rename_i text htext
            obtain rfl := List.mem_singleton.1 h
            exact .file hnode (Bool.eq_false_iff.2 hfile) (Bool.eq_false_iff.2 hallowed) htext
          · simp [Sources.error] at h
  · rintro (⟨hnode, hfile, hallowed, htext⟩ |
      ⟨hrecursive, htop, hdirectory, hwalk, hnode, hfile, hallowed, htext⟩)
    · rw [hnode]
      simp [hfile, hallowed, htext, Sources.text]
    · rw [htop]
      simp only [hdirectory, hrecursive, hwalk, if_true, texts_foldl_append, Sources.none,
        List.nil_append, List.flatMap_map, List.mem_flatMap]
      exact ⟨_, hnode, mem_sourceBelow_iff.2 ⟨hfile, hallowed, _, htext, rfl⟩⟩

end

/-- Whether the outcome tells of the lines with a property, or without it, in what is read: the lines,
how many they are, or where there are any, as the flags say. -/
structure Tells (args : Arguments) (selects : String → Bool) (invert : Bool) (sources : Sources)
    (outcome : Outcome) : Prop where
  lines : args.has ['l'] = false → args.has ['c'] = false → outcome.output =
    Text.Lines.join (sources.texts.flatMap fun (label, text) =>
      (picked selects invert text).map fun (number, line) =>
        (if sources.texts.length > 1 || args.has ['r', 'R'] then label ++ ":" else "") ++
          (if args.has ['n'] then toString number ++ ":" else "") ++ line)
  counts : args.has ['l'] = false → args.has ['c'] = true → outcome.output =
    Text.Lines.join (sources.texts.map fun (label, text) =>
      (if sources.texts.length > 1 || args.has ['r', 'R'] then label ++ ":" else "") ++
        toString (picked selects invert text).length)
  labels : args.has ['l'] = true → outcome.output =
    Text.Lines.join ((sources.texts.filter fun (_, text) => picked selects invert text ≠ []).map
      (·.1))
  errors : outcome.errors = Text.Lines.join sources.errors
  exitCode : outcome.exitCode =
    if sources.errors ≠ [] then 2
    else if ∃ source ∈ sources.texts, picked selects invert source.2 ≠ [] then 0
    else 1

theorem tells_siftedOutcome (args : Arguments) (selects : String → Bool) (sources : Sources) :
    Tells args selects (args.has ['v']) sources (siftedOutcome args selects sources) where
  lines := by
    intro hl hc
    simp [siftedOutcome, searchOutput, hl, hc, List.flatMap_map]
  counts := by
    intro hl hc
    have hone : ∀ source : String × String, searchOutput args
        (sources.texts.length > 1 || args.has ['r', 'R']) source.1
        (picked selects (args.has ['v']) source.2) =
        [(if sources.texts.length > 1 || args.has ['r', 'R'] then source.1 ++ ":" else "") ++
          toString (picked selects (args.has ['v']) source.2).length] := by
      intro source
      simp [searchOutput, hl, hc]
    simp only [siftedOutcome, List.flatMap_map, hone, ← List.map_eq_flatMap]
  labels := by
    intro hl
    have hall : ∀ texts : List (String × String),
        (texts.flatMap fun source =>
          if (picked selects (args.has ['v']) source.2).isEmpty then [] else [source.1]) =
        (texts.filter fun source => picked selects (args.has ['v']) source.2 ≠ []).map (·.1) := by
      intro texts
      induction texts with
      | nil => rfl
      | cons source rest ih =>
          rw [List.flatMap_cons, ih]
          cases hpicked : picked selects (args.has ['v']) source.2 <;> simp [hpicked]
    rw [← hall]
    simp only [siftedOutcome, List.flatMap_map, searchOutput, hl, if_true]
  errors := rfl
  exitCode := by
    have hany : (sources.texts.map fun source =>
        (source.1, picked selects (args.has ['v']) source.2)).any (fun found => !found.2.isEmpty) =
        decide (∃ source ∈ sources.texts, picked selects (args.has ['v']) source.2 ≠ []) := by
      rw [Bool.eq_iff_iff]
      simp
    change (if !sources.errors.isEmpty then _ else if List.any _ _ then _ else _) = _
    rw [hany]
    cases sources.errors with
    | cons => rfl
    | nil => simp only [decide_eq_true_eq, Outcome.failure]; rfl

/-- The lines with a property and those without it are all lines, each once. -/
theorem picked_perm (selects : String → Bool) (text : String) :
    (picked selects false text ++ picked selects true text).Perm (numberedLines text) := by
  have hflip : picked selects true text =
      (numberedLines text).filter fun entry => !(selects entry.2 != false) :=
    List.filter_congr fun entry _ => by
      dsimp only
      cases selects entry.2 <;> rfl
  rw [hflip]
  exact List.filter_append_perm _ _

/-- No two lines have one number. -/
theorem nodup_numbers (text : String) : ((numberedLines text).map (·.1)).Nodup := by
  have hnumbers : (numberedLines text).map (·.1) =
      ((Text.Lines.logical text).zipIdx.map (·.2)).map (· + 1) := by
    rw [numberedLines, List.map_map, List.map_map]
    rfl
  rw [hnumbers, List.zipIdx_map_snd]
  exact List.Pairwise.map _ (fun _ _ hne heq => hne (Nat.succ.inj heq)) List.nodup_range'

/-- Whether arguments are others with the flag to invert besides. -/
structure InvertedBy (args inverted : Arguments) : Prop where
  operands : inverted.operands = args.operands
  before : args.has ['v'] = false
  after : inverted.has ['v'] = true
  others : ∀ letter, letter ≠ 'v' → inverted.has [letter] = args.has [letter]

/-- Words after the flag to invert are read as without it, but for that flag. -/
theorem exists_parse_inverted {words : List String} {args : Arguments}
    (hparse : Arguments.parse (.flagsOnly "invclrRw") words = .ok args)
    (hv : args.has ['v'] = false) :
    ∃ inverted, Arguments.parse (.flagsOnly "invclrRw") ("-v" :: words) = .ok inverted ∧
      InvertedBy args inverted := by
  have hletter : 'v' ∉ args.flags := by simpa [Arguments.has] using hv
  have hword : Arguments.isOperand "-v" = false := by decide
  have hadd : Arguments.addFlags (.flagsOnly "invclrRw") .none (("-v").toList.drop 1) =
      .ok { Arguments.none with flags := ['v'] } := by rfl
  refine ⟨{ args with flags := 'v' :: args.flags }, ?_, rfl, hv, ?_, ?_⟩
  · rw [Arguments.parse, Arguments.parseFrom_flagsOnly_cons, hword, if_neg Bool.false_ne_true,
      if_neg (by decide), hadd]
    exact Arguments.parseFrom_flagged hparse hletter
  · simp [Arguments.has]
  · intro letter hne
    simp [Arguments.has, hne]

/-- Whether a text is one of those that are read for some files; without any, for the current
directory, if the search goes below directories, or else the input. -/
def IsSource (ctx : Context) (fs : FileSystem) (recursive : Bool) (input : Option String)
    (files : List String) (source : String × String) : Prop :=
  if files = [] ∧ recursive = false then ∃ text, input = some text ∧ source = ("(standard input)", text)
  else ∃ operand ∈ (if files = [] then ["."] else files), IsRead ctx fs recursive operand source

theorem mem_sourcesFor_iff {ctx : Context} {fs : FileSystem} {recursive : Bool}
    {input : Option String} {files : List String} {sources : Sources}
    (h : sourcesFor ctx fs recursive input files = some sources) (source : String × String) :
    source ∈ sources.texts ↔ IsSource ctx fs recursive input files source := by
  cases files with
  | nil =>
      cases recursive with
      | true =>
          obtain rfl := Option.some.inj h
          simp [IsSource, mem_sourceOf_iff]
      | false =>
          cases input with
          | none => cases h
          | some text =>
              obtain rfl := Option.some.inj h
              simp [IsSource, Sources.text]
  | cons first rest =>
      obtain rfl := Option.some.inj h
      rw [IsSource, if_neg (by simp), if_neg (by simp), texts_foldl_append, Sources.none,
        List.nil_append, List.flatMap_map, List.mem_flatMap]
      simp only [mem_sourceOf_iff]

/-- What a search and the one with the flag to invert tell about the same texts. -/
structure Sifts (ctx : Context) (fs : FileSystem) (input : Option String) (files : List String)
    (args inverted : Arguments) (selects : String → Bool) (sources : Sources)
    (outcome opposite : Outcome) : Prop where
  /-- What is read does not depend on the property. -/
  reads : ∀ source, source ∈ sources.texts ↔
    IsSource ctx fs (args.has ['r', 'R']) input files source
  /-- The lines of each text have numbers of their own. -/
  once : ∀ source ∈ sources.texts, ((numberedLines source.2).map (·.1)).Nodup
  /-- Together the lines that are selected from a text by the two searches are all its lines, each
  once. -/
  parts : ∀ source ∈ sources.texts,
    (picked selects false source.2 ++ picked selects true source.2).Perm (numberedLines source.2)
  tells : Tells args selects false sources outcome
  tellsOpposite : Tells inverted selects true sources opposite

/-- What `grep` selects with and without the flag to invert, for any property of lines. -/
theorem grep_sifts_lines (matcher : Matcher) (ctx : Context) (fs : FileSystem)
    (input : Option String) {words inverting : List String} {args inverted : Arguments}
    (hparse : Arguments.parse (.flagsOnly "invclrRw") words = .ok args)
    (hparse' : Arguments.parse (.flagsOnly "invclrRw") inverting = .ok inverted)
    (hinverted : InvertedBy args inverted) {pattern : String} {operands : List String}
    (hoperands : args.operands = pattern :: operands) {selects : String → Bool}
    (hpattern : matcher (args.has ['i']) (wholePattern args pattern) = .ok selects)
    {sources : Sources}
    (hsources : sourcesFor ctx fs (args.has ['r', 'R']) input (Operands.expand ctx fs operands) =
      some sources) :
    ∃ outcome opposite,
      (runGrepBy matcher ctx words input).run fs = .ok outcome fs ∧
      (runGrepBy matcher ctx inverting input).run fs = .ok opposite fs ∧
      Sifts ctx fs input (Operands.expand ctx fs operands) args inverted selects sources outcome
        opposite ∧
      (matcher = .regex →
        execute ctx input (name grep :: words) fs = (outcome, fs) ∧
        execute ctx input (name grep :: inverting) fs = (opposite, fs)) := by
  have hrecursive : inverted.has ['r', 'R'] = args.has ['r', 'R'] := by
    have hlower := hinverted.others 'r' (by decide)
    have hupper := hinverted.others 'R' (by decide)
    simp only [Arguments.has, List.any_cons, List.any_nil, Bool.or_false] at hlower hupper ⊢
    rw [hlower, hupper]
  have hwhole : wholePattern inverted pattern = wholePattern args pattern := by
    rw [wholePattern, hinverted.others 'w' (by decide), wholePattern]
  have hfirst := run_runGrepBy input hparse hoperands hpattern hsources
  have hsecond := run_runGrepBy input hparse' (hinverted.operands.trans hoperands)
    (by rwa [hinverted.others 'i' (by decide), hwhole]) (by rwa [hrecursive])
  refine ⟨_, _, hfirst, hsecond, ⟨mem_sourcesFor_iff hsources, ?_, ?_, ?_, ?_⟩, ?_⟩
  · exact fun source _ => nodup_numbers source.2
  · exact fun source _ => picked_perm selects source.2
  · have htells := tells_siftedOutcome args selects sources
    rwa [hinverted.before] at htells
  · have htells := tells_siftedOutcome inverted selects sources
    rwa [hinverted.after] at htells
  · rintro rfl
    rw [runGrepBy_regex] at hfirst hsecond
    exact ⟨execute_of_run ctx words input fs (by decide : grep ≠ superuser) hfirst,
      execute_of_run ctx inverting input fs (by decide : grep ≠ superuser) hsecond⟩

/-- A file that ends without a line feed, and a file of the root user. -/
def pinboard : FileSystem :=
  { FileSystem.empty "ada" 0 with
    entries :=
      [("notes", .file ⟨"ada", Permissions.newFile, 0⟩ "one\ntwo\nthree".toUTF8),
        ("sealed", .file ⟨"root", Permissions.newFile, 0⟩ "two".toUTF8)] }

/-- What is read from the notes, and the message about the file that may not be read. -/
def pinned : Sources :=
  ⟨[("notes", "one\ntwo\nthree")], ["grep: sealed: Permission denied"]⟩

/-- The notes are sifted, line by line, whatever becomes of the sealed file. -/
theorem notes_are_sifted :
    (∃ args inverted,
      Arguments.parse (.flagsOnly "invclrRw") ["-n", "t", "notes", "sealed"] = .ok args ∧
      Arguments.parse (.flagsOnly "invclrRw") ["-v", "-n", "t", "notes", "sealed"] = .ok inverted ∧
      InvertedBy args inverted ∧ ∃ selects outcome opposite,
        Matcher.regex (args.has ['i']) (wholePattern args "t") = .ok selects ∧
        Sifts ⟨"/", "ada", false⟩ pinboard none ["notes", "sealed"] args inverted selects pinned
          outcome opposite ∧
        execute ⟨"/", "ada", false⟩ none ["grep", "-n", "t", "notes", "sealed"] pinboard =
          (outcome, pinboard) ∧
        execute ⟨"/", "ada", false⟩ none ["grep", "-v", "-n", "t", "notes", "sealed"] pinboard =
          (opposite, pinboard)) ∧
      (execute ⟨"/", "ada", false⟩ none ["grep", "-n", "t", "notes", "sealed"] pinboard).1.output =
        "2:two\n3:three" ∧
      (execute ⟨"/", "ada", false⟩ none ["grep", "-v", "-n", "t", "notes", "sealed"] pinboard).1.output =
        "1:one" := by
  have hparse : Arguments.parse (.flagsOnly "invclrRw") ["-n", "t", "notes", "sealed"] =
      .ok ⟨['n'], [], ["t", "notes", "sealed"], none⟩ := rfl
  obtain ⟨inverted, hparse', hinverted⟩ := exists_parse_inverted hparse rfl
  have hexpand : Operands.expand ⟨"/", "ada", false⟩ pinboard ["notes", "sealed"] =
      ["notes", "sealed"] := rfl
  have hpattern : Matcher.regex false "t" = .ok _ := rfl
  have hsources : sourcesFor ⟨"/", "ada", false⟩ pinboard false none
      (Operands.expand ⟨"/", "ada", false⟩ pinboard ["notes", "sealed"]) = some pinned := rfl
  obtain ⟨outcome, opposite, -, -, hsifts, hexecute⟩ := grep_sifts_lines .regex _ _ none hparse hparse'
    hinverted rfl hpattern hsources
  rw [hexpand] at hsifts
  refine ⟨⟨_, inverted, hparse, hparse', hinverted, _, outcome, opposite, hpattern, hsifts,
    hexecute rfl⟩, ?_, ?_⟩
  · decide +kernel
  · decide +kernel

end Command

end PracticeShell
