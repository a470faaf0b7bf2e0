import PracticeShell.Command.Operands
import PracticeShell.Proofs.Path.Resolving
import PracticeShell.Proofs.Tree.Proper
import PracticeShell.Proofs.Tree.Writing
import PracticeShell.Text.Glob

/-!
# What patterns among operands stand for

`Text.Glob.Spells` says what the parts of a pattern stand for: the name is cut into one piece for each
part. Comparing a name with the parts finds such a cut if there is one (`Text.Glob.matchParts_iff`).

A pattern stands for the names that match it in the directory before its last slash, in alphabetical
order, and each of them is written so that it means the very entry that was found
(`expandOne_lists_children`). Only the bare name `~`, found in the current directory, is mistaken for
the home of the user (`tilde_is_mistaken`).
-/

namespace PracticeShell.Text.Glob

/-- Parts stand for a name if it can be cut into what each of them stands for: one character that it
holds, or anything at all. -/
inductive Spells : (parts : List Part) → (name : List Char) → Prop
  | nil : Spells [] []
  | any (skipped : List Char) {parts : List Part} {name : List Char} (h : Spells parts name) :
      Spells (.any :: parts) (skipped ++ name)
  | char {part : Part} {c : Char} (hc : part.holds c = true) {parts : List Part} {name : List Char}
      (h : Spells parts name) : Spells (part :: parts) (c :: name)

theorem anyTail_iff (test : List Char → Bool) (cs : List Char) :
    anyTail test cs = true ↔ ∃ skipped rest, cs = skipped ++ rest ∧ test rest = true := by
  induction cs with
  | nil =>
      rw [anyTail]
      constructor
      · exact fun h => ⟨[], [], rfl, h⟩
      · rintro ⟨skipped, rest, hnil, h⟩
        rwa [(List.append_eq_nil_iff.1 hnil.symm).2] at h
  | cons c cs ih =>
      rw [anyTail, Bool.or_eq_true, ih]
      constructor
      · rintro (h | ⟨skipped, rest, rfl, h⟩)
        · exact ⟨[], c :: cs, rfl, h⟩
        · exact ⟨c :: skipped, rest, rfl, h⟩
      · rintro ⟨skipped, rest, hcut, h⟩
        cases skipped with
        | nil => exact .inl (hcut ▸ h)
        | cons d skipped =>
            obtain ⟨-, rfl⟩ := List.cons.inj hcut
            exact .inr ⟨skipped, rest, rfl, h⟩

theorem spells_any_iff {parts : List Part} {name : List Char} :
    Spells (.any :: parts) name ↔
      ∃ skipped rest, name = skipped ++ rest ∧ Spells parts rest := by
  constructor
  · intro h
    cases h with
    | any skipped h => exact ⟨skipped, _, rfl, h⟩
    | char hc => cases hc
  · rintro ⟨skipped, rest, rfl, h⟩
    exact .any skipped h

theorem spells_any_any_iff {parts : List Part} {name : List Char} :
    Spells (.any :: .any :: parts) name ↔ Spells (.any :: parts) name := by
  constructor
  · rw [spells_any_iff]
    rintro ⟨skipped, rest, rfl, h⟩
    obtain ⟨more, after, rfl, hafter⟩ := spells_any_iff.1 h
    rw [← List.append_assoc]
    exact .any _ hafter
  · exact fun h => .any [] h

theorem spells_nil_iff {name : List Char} : Spells [] name ↔ name = [] := by
  constructor
  · intro h
    cases h
    rfl
  · rintro rfl
    exact .nil

theorem spells_cons_iff {part : Part} (hpart : part ≠ .any) {parts : List Part}
    {name : List Char} : Spells (part :: parts) name ↔
      ∃ c rest, name = c :: rest ∧ part.holds c = true ∧ Spells parts rest := by
  constructor
  · intro h
    cases h with
    | any => exact absurd rfl hpart
    | char hc h => exact ⟨_, _, rfl, hc, h⟩
  · rintro ⟨c, rest, rfl, hc, h⟩
    exact .char hc h

/-- Parts stand for a name exactly if comparing them says so. -/
theorem matchParts_iff (parts : List Part) (name : List Char) :
    matchParts parts name = true ↔ Spells parts name := by
  induction parts generalizing name with
  | nil => rw [matchParts, List.isEmpty_iff, spells_nil_iff]
  | cons part parts ih =>
      by_cases hpart : part = .any
      · subst hpart
        by_cases htwice : ∃ rest, parts = .any :: rest
        · obtain ⟨rest, rfl⟩ := htwice
          rw [matchParts, ih, spells_any_any_iff]
        · rw [matchParts, anyTail_iff, spells_any_iff]
          · simp only [ih]
          · exact fun rest hrest => htwice ⟨rest, hrest⟩
      · rw [spells_cons_iff hpart]
        cases name with
        | nil => simp [matchParts, hpart]
        | cons c name =>
            have hstep : matchParts (part :: parts) (c :: name) =
                (part.holds c && matchParts parts name) := by simp [matchParts, hpart]
            rw [hstep, Bool.and_eq_true, ih]
            constructor
            · exact fun h => ⟨c, name, rfl, h⟩
            · rintro ⟨_, _, hname, h⟩
              obtain ⟨rfl, rfl⟩ := List.cons.inj hname
              exact h

end PracticeShell.Text.Glob

namespace PracticeShell.Operands

open FileTree

/-- Which directory is searched for an operand, and by which pattern: the pattern is what comes after
the last slash, and the directory what is before. -/
inductive Searches : (operand directory pattern : String) → Prop
  | here {pattern : String} (h : '/' ∉ pattern.toList) : Searches pattern "." pattern
  | root {pattern : String} (h : '/' ∉ pattern.toList) : Searches ("/" ++ pattern) "/" pattern
  | inside {directory pattern : String} (hne : directory ≠ "") (h : '/' ∉ pattern.toList) :
      Searches (directory ++ "/" ++ pattern) directory pattern

/-- How a name that is found for an operand is written as an operand. -/
def asOperand (operand directory name : String) : String :=
  if '/' ∈ operand.toList then Path.join directory name else name

/-- The names in a directory that a pattern stands for. -/
def found (ctx : Context) (fs : FileSystem) (directory pattern : String) : List String :=
  match fs.names (ctx.resolve directory) with
  | .ok names => sorted (names.filter (isMatch pattern))
  | .error _ => []

section

variable {operand directory pattern name : String} {ctx : Context} {fs : FileSystem}

/-- An operand with a slash is cut at its last one. -/
theorem splitPattern_append (before : String) (h : '/' ∉ pattern.toList) :
    splitPattern (before ++ "/" ++ pattern) = (if before = "" then "/" else before, pattern) := by
  have hreverse : (before ++ "/" ++ pattern).toList.reverse =
      pattern.toList.reverse ++ '/' :: before.toList.reverse := by simp
  have hbare : ∀ c ∈ pattern.toList.reverse, decide (c ≠ '/') = true := by
    intro c hc
    rw [decide_eq_true_iff]
    rintro rfl
    exact h (List.mem_reverse.1 hc)
  have hbefore : String.ofList before.toList.reverse.reverse = before := by simp
  unfold splitPattern
  simp only [hreverse]
  rw [if_pos (by simp), List.dropWhile_append_of_pos hbare, List.takeWhile_append_of_pos hbare]
  simp

theorem splitPattern_of_not_mem (h : '/' ∉ operand.toList) :
    splitPattern operand = ("", operand) := by
  simp [splitPattern, h]

/-- For every operand there is a directory to search, and a pattern. -/
theorem exists_searches (operand : String) :
    ∃ directory pattern, Searches operand directory pattern := by
  by_cases hslash : '/' ∈ operand.toList
  · obtain ⟨after, before, hsplit, hafter⟩ :=
      List.eq_append_cons_of_mem (List.mem_reverse.2 hslash)
    have hpattern : '/' ∉ (String.ofList after.reverse).toList := by simpa using hafter
    have hoperand : operand =
        String.ofList before.reverse ++ "/" ++ String.ofList after.reverse := by
      apply String.toList_injective
      have hreverse := congrArg List.reverse hsplit
      simpa using hreverse
    by_cases hroot : String.ofList before.reverse = ""
    · rw [hroot, String.empty_append] at hoperand
      exact ⟨_, _, hoperand ▸ Searches.root hpattern⟩
    · exact ⟨_, _, hoperand ▸ Searches.inside hroot hpattern⟩
  · exact ⟨_, _, .here hslash⟩

/-- The directory that is searched is named. -/
theorem Searches.directory_ne (h : Searches operand directory pattern) : directory ≠ "" := by
  cases h with
  | here => decide
  | root => decide
  | inside hne => exact hne

theorem Searches.splitPattern_eq (h : Searches operand directory pattern) :
    splitPattern operand = (if '/' ∈ operand.toList then directory else "", pattern) := by
  cases h with
  | here hpattern => rw [splitPattern_of_not_mem hpattern, if_neg hpattern]
  | root hpattern =>
      have hsplit := splitPattern_append "" hpattern
      rw [String.empty_append, if_pos rfl] at hsplit
      rw [hsplit, if_pos (by simp)]
  | inside hne hpattern =>
      rw [splitPattern_append _ hpattern, if_neg hne, if_pos (by simp)]

/-- Without a slash the current directory is searched. -/
theorem Searches.eq_here (h : Searches operand directory pattern) (hslash : '/' ∉ operand.toList) :
    directory = "." := by
  cases h with
  | here => rfl
  | root => simp at hslash
  | inside => simp at hslash

/-- What an operand with a pattern stands for. -/
theorem expandOne_eq (hpattern : Text.Glob.isPattern operand = true)
    (h : Searches operand directory pattern) : expandOne ctx fs operand =
      if found ctx fs directory pattern = [] then [operand]
      else (found ctx fs directory pattern).map (asOperand operand directory) := by
  have hsearch : (if (if '/' ∈ operand.toList then directory else "") = "" then "."
      else if '/' ∈ operand.toList then directory else "") = directory := by
    by_cases hslash : '/' ∈ operand.toList
    · simp [hslash, h.directory_ne]
    · simp [hslash, h.eq_here hslash]
  rw [expandOne, if_pos hpattern, h.splitPattern_eq]
  dsimp only
  rw [hsearch]
  change (if (found ctx fs directory pattern).isEmpty then [operand]
    else if (if '/' ∈ operand.toList then directory else "") = "" then
      found ctx fs directory pattern
    else (found ctx fs directory pattern).map
      (Path.join (if '/' ∈ operand.toList then directory else ""))) = _
  simp only [List.isEmpty_iff]
  by_cases hslash : '/' ∈ operand.toList
  · have hwritten : asOperand operand directory = Path.join directory :=
      funext fun _ => if_pos hslash
    rw [if_pos hslash, if_neg h.directory_ne, hwritten]
  · have hwritten : asOperand operand directory = id := funext fun _ => if_neg hslash
    rw [if_neg hslash, if_pos rfl, hwritten, List.map_id]

/-- What the names are that a pattern stands for in a directory. -/
structure StandsFor (fs : FileSystem) (directory pattern : String) (names : List String) : Prop where
  /-- They are in alphabetical order, and none is there twice. -/
  sorted : names.Pairwise (· < ·)
  /-- They are the names in the directory that match. One with a dot in front needs a pattern with a
  dot in front. -/
  mem_iff : ∀ name, name ∈ names ↔ (∃ listed, fs.names directory = .ok listed ∧ name ∈ listed) ∧
    Text.Glob.Spells (Text.Glob.parse pattern.length pattern.toList) name.toList ∧
      (Path.startsWith name "." = true → Path.startsWith pattern "." = true)

theorem mem_sorted {names : List String} : name ∈ sorted names ↔ name ∈ names := List.mem_mergeSort

/-- Names without repetition are put in order. -/
theorem pairwise_sorted {names : List String} (h : names.Nodup) : (sorted names).Pairwise (· < ·) := by
  have hnodup : (sorted names).Nodup := (List.mergeSort_perm names _).nodup_iff.2 h
  have hle : (sorted names).Pairwise fun first second => decide (first ≤ second) = true :=
    List.pairwise_mergeSort (fun first second third h h' => by
        simpa using String.le_trans (by simpa using h) (by simpa using h'))
      (fun first second => by simpa using String.le_total first second) names
  refine (hle.and hnodup).imp fun {first second} h => ?_
  obtain ⟨hsmall, hne⟩ := h
  rw [decide_eq_true_iff] at hsmall
  exact String.not_le.1 fun hback => hne (String.le_antisymm hsmall hback)

theorem isMatch_iff : isMatch pattern name = true ↔
    Text.Glob.Spells (Text.Glob.parse pattern.length pattern.toList) name.toList ∧
      (Path.startsWith name "." = true → Path.startsWith pattern "." = true) := by
  rw [← Text.Glob.matchParts_iff, isMatch, Text.Glob.accepts, Bool.and_eq_true, Bool.or_eq_true,
    Bool.not_eq_true', Bool.eq_false_iff]
  exact and_congr_right fun _ => by rw [or_comm, ← Decidable.imp_iff_not_or]

theorem standsFor_found (ctx : Context) (hfs : fs.IsProper) (directory pattern : String) :
    StandsFor fs (ctx.resolve directory) pattern (found ctx fs directory pattern) := by
  unfold found
  cases hnames : fs.names (ctx.resolve directory) with
  | error e => exact ⟨List.Pairwise.nil, fun name => by simp [hnames]⟩
  | ok names =>
      refine ⟨pairwise_sorted ((hfs.names hnames).1.filter _), fun name => ?_⟩
      dsimp only
      rw [mem_sorted, List.mem_filter, isMatch_iff]
      simp [hnames]

/-- A name that is found is written so that it means the entry that has it, except for the bare `~`. -/
theorem resolve_asOperand (hsearch : Searches operand directory pattern)
    (hname : Path.IsSegment name) (h : '/' ∈ operand.toList ∨ name ≠ "~") :
    ctx.resolve (asOperand operand directory name) =
      Path.ofSegments (Path.segments (ctx.resolve directory) ++ [name]) := by
  have hfound : asOperand operand directory name ≠ "~" ∧
      Path.segments (ctx.resolve (asOperand operand directory name)) =
        Path.segments (ctx.resolve directory) ++ [name] := by
    by_cases hslash : '/' ∈ operand.toList
    · rw [asOperand, if_pos hslash]
      exact ⟨Path.join_ne_tilde hsearch.directory_ne hname,
        Path.segments_resolve_join hsearch.directory_ne hname ctx.directory ctx.username⟩
    · have hne : name ≠ "~" := h.resolve_left hslash
      rw [asOperand, if_neg hslash, hsearch.eq_here hslash, Context.resolve, Context.resolve,
        Path.segments_resolve_here]
      exact ⟨hne, Path.segments_resolve_name hname hne ctx.directory ctx.username⟩
  rw [Context.resolve, ← Path.normalize_resolve hfound.1, Path.normalize, ← hfound.2]
  rfl

/-- What an operand with a pattern stands for, if these names are found for it. -/
structure IsExpanded (ctx : Context) (fs : FileSystem) (operand directory pattern : String)
    (names : List String) : Prop where
  /-- The directory before the last slash is searched by what comes after it. -/
  searches : Searches operand directory pattern
  /-- The names are those in this directory that match. -/
  standsFor : StandsFor fs (ctx.resolve directory) pattern names
  /-- The operand stands for them, or for itself if there are none. -/
  expandOne_eq : expandOne ctx fs operand =
    if names = [] then [operand] else names.map (asOperand operand directory)
  /-- Each is written so that it means the entry that has it, unless it is a bare `~` whose place is not
  the home of the user. -/
  means_iff : ∀ name ∈ names, ctx.resolve (asOperand operand directory name) =
      Path.ofSegments (Path.segments (ctx.resolve directory) ++ [name]) ↔
    ('/' ∉ operand.toList → name = "~" →
      ctx.home = Path.ofSegments (Path.segments ctx.directory ++ ["~"]))

/-- An operand with a pattern stands for the names that match it in the directory that is searched, or
for itself if there are none. Each name is written so that it means the entry that has it, except for
the bare `~`. -/
theorem expandOne_lists_children (ctx : Context) (hfs : fs.IsProper)
    (hpattern : Text.Glob.isPattern operand = true) :
    ∃ directory pattern names, IsExpanded ctx fs operand directory pattern names := by
  obtain ⟨directory, pattern, hsearch⟩ := exists_searches operand
  have hstands := standsFor_found ctx hfs directory pattern
  refine ⟨directory, pattern, found ctx fs directory pattern, hsearch, hstands,
    expandOne_eq hpattern hsearch, ?_⟩
  intro name hmem
  by_cases hbare : '/' ∈ operand.toList ∨ name ≠ "~"
  · obtain ⟨⟨listed, hlisted, hin⟩, -⟩ := (hstands.mem_iff name).1 hmem
    refine iff_of_true (resolve_asOperand hsearch ((hfs.names hlisted).2 name hin) hbare) ?_
    exact fun hslash htilde => absurd hbare (not_or.2 ⟨hslash, not_not_intro htilde⟩)
  · obtain ⟨hslash, htilde⟩ := not_or.1 hbare
    obtain rfl := Decidable.not_not.1 htilde
    rw [asOperand, if_neg hslash, hsearch.eq_here hslash, Context.resolve, Context.resolve,
      Path.segments_resolve_here, Path.resolve_tilde]
    exact ⟨fun hhome _ _ => hhome, fun hhome => hhome hslash rfl⟩

/-- What has an `e` second, in a drawer that is reached by slashes and a dot. -/
theorem letters_and_memo_are_found :
    Edit.study.IsProper ∧ Text.Glob.isPattern "?e*" = true ∧
      (∃ directory pattern names,
        IsExpanded ⟨"/desk//drawer/.", "eve", false⟩ Edit.study "?e*" directory pattern names) ∧
      expandOne ⟨"/desk//drawer/.", "eve", false⟩ Edit.study "?e*" = ["letters", "memo"] := by
  refine ⟨by decide, by decide, expandOne_lists_children _ (by decide) (by decide), ?_⟩
  have hfound : found ⟨"/desk//drawer/.", "eve", false⟩ Edit.study "." "?e*" =
      sorted ["letters", "memo"] := rfl
  rw [expandOne_eq (by decide) (.here (by decide)), hfound, sorted,
    List.mergeSort_of_pairwise (by decide)]
  rfl

end

/-- A home, and a file that has the name `~`. -/
def untidy : FileSystem :=
  { FileSystem.empty "ada" 0 with
    entries :=
      [("home", .directory ⟨"ada", Permissions.newDirectory, 0⟩
          [("ada", .directory ⟨"ada", Permissions.newDirectory, 0⟩ [])]),
        ("tmp", .directory ⟨"ada", Permissions.newDirectory, 0⟩
          [("~", .file ⟨"ada", Permissions.newFile, 0⟩ ⟨#[7]⟩)])] }

/-- The file is found, but what is written for it means the home. -/
theorem tilde_is_mistaken :
    untidy.IsProper ∧ untidy.names "/tmp" = .ok ["~"] ∧
      expandOne ⟨"/tmp", "ada", false⟩ untidy "?" = ["~"] ∧
      (Context.resolve ⟨"/tmp", "ada", false⟩ "~" ≠ "/tmp/~" ∧
        Context.resolve ⟨"/tmp", "ada", false⟩ "~" = "/home/ada" ∧
        untidy.isDirectory "/home/ada" = true) := by
  refine ⟨by decide, rfl, ?_, by decide, by decide, by decide⟩
  have hfound : found ⟨"/tmp", "ada", false⟩ untidy "." "?" = sorted ["~"] := rfl
  rw [expandOne_eq (by decide) (.here (by decide)), hfound, sorted, List.mergeSort_singleton]
  rfl

end PracticeShell.Operands
