import PracticeShell.Path
import PracticeShell.Proofs.Environment.Changes

/-!
# Names of variables

The test for names takes an identifier, and also one that a line feed follows (`isName_iff`). So all
variables have identifiers for names as long as no name that is given to one ends with a line feed, and
just as long each variable has one line of the listing (`names_are_identifiers_iff`).
-/

namespace PracticeShell

namespace Text.Lines

/-- Lines without line feeds are the fields of the text that they are joined to. -/
theorem fields_join {lines : List String} (hne : lines ≠ []) (h : ∀ line ∈ lines, '\n' ∉ line.toList) :
    fields (join lines) = lines := by
  have hsplit : (['\n'].intercalate (lines.map String.toList)).splitOn '\n' =
      lines.map String.toList :=
    List.splitOn_intercalate '\n' (by simpa using h) (by simpa using hne)
  have hfeed : "\n".toList = ['\n'] := rfl
  rw [fields, join, String.toList_intercalate, hfeed, hsplit, List.map_map]
  simp [Function.comp_def]

theorem not_mem_of_mem_fields {text field : String} (h : field ∈ fields text) :
    '\n' ∉ field.toList := by
  obtain ⟨part, hpart, rfl⟩ := List.mem_map.1 h
  rw [String.toList_ofList]
  exact Path.not_mem_of_mem_splitOn hpart

end Text.Lines

namespace Environment

/-- Whether characters are an identifier: a letter or an underscore and then only letters, digits and
underscores, all of them ASCII. -/
def IsIdentifier : List Char → Prop
  | [] => False
  | c :: rest => isNameStart c = true ∧ ∀ d ∈ rest, Text.Letter.isAsciiWord d = true

instance : DecidablePred IsIdentifier
  | [] => inferInstanceAs (Decidable False)
  | c :: rest =>
    decidable_of_iff ((isNameStart c && rest.all Text.Letter.isAsciiWord) = true)
      (by simp [IsIdentifier])

/-- Whether a text is an identifier with a line feed after it. -/
def EndsInFeed (name : String) : Prop :=
  ∃ base : String, IsIdentifier base.toList ∧ name = base ++ "\n"

section

variable {cs : List Char} {name : String}

theorem isAsciiWord_of_isNameStart {c : Char} (h : isNameStart c = true) :
    Text.Letter.isAsciiWord c = true := by
  rw [isNameStart, Bool.or_eq_true] at h
  rw [Text.Letter.isAsciiWord, Bool.or_eq_true, Bool.or_eq_true]
  exact h.imp_left .inl

theorem IsIdentifier.isAsciiWord (h : IsIdentifier cs) {c : Char} (hc : c ∈ cs) :
    Text.Letter.isAsciiWord c = true := by
  cases cs with
  | nil => cases hc
  | cons d rest =>
      rcases List.mem_cons.1 hc with rfl | hrest
      · exact isAsciiWord_of_isNameStart h.1
      · exact h.2 c hrest

theorem IsIdentifier.feed_not_mem (h : IsIdentifier cs) : '\n' ∉ cs := fun hmem =>
  absurd (h.isAsciiWord hmem) (by decide)

theorem isName_iff_withoutFinal :
    isName name = true ↔ IsIdentifier (Text.Lines.withoutFinal name.toList) := by
  rw [isName]
  cases Text.Lines.withoutFinal name.toList with
  | nil => exact ⟨fun h => absurd h (by decide), False.elim⟩
  | cons c rest => simp [IsIdentifier]

/-- A name is an identifier that a line feed may follow. -/
theorem isName_iff : isName name = true ↔ IsIdentifier name.toList ∨ EndsInFeed name := by
  rw [isName_iff_withoutFinal, Text.Lines.withoutFinal]
  constructor
  · intro h
    split at h
    · rename_i hlast
      obtain ⟨base, hbase⟩ := List.getLast?_eq_some_iff.1 hlast
      rw [hbase, List.dropLast_concat] at h
      refine .inr ⟨String.ofList base, by simpa using h, ?_⟩
      rw [← name.ofList_toList, hbase, String.ofList_append]
    · exact .inl h
  · rintro (h | ⟨base, hbase, rfl⟩)
    · rwa [if_neg fun hlast => h.feed_not_mem (List.mem_of_getLast? hlast)]
    · rw [String.toList_append]
      simpa using hbase

theorem EndsInFeed.feed_mem (h : EndsInFeed name) : '\n' ∈ name.toList := by
  obtain ⟨base, -, rfl⟩ := h
  simp

theorem EndsInFeed.not_mem_readOnlyNames (h : EndsInFeed name) : name ∉ readOnlyNames := fun hmem =>
  have hfree : ∀ name ∈ readOnlyNames, '\n' ∉ name.toList := by decide
  hfree name hmem h.feed_mem

end

/-- The names of the variables. -/
def names (env : Environment) : List String := env.values.map (·.1)

section Stored

variable {env later : Environment} {given : List String} {name other value : String}

theorem mem_names_iff : name ∈ env.names ↔ (env.get? name).isSome = true := isSome_lookup_iff.symm

theorem mem_names_put : other ∈ (env.put name value).names ↔ other = name ∨ other ∈ env.names := by
  rw [mem_names_iff, mem_names_iff, get?_put]
  by_cases h : other = name <;> simp [h]

theorem mem_names_markExported : other ∈ (env.markExported name).names ↔ other ∈ env.names := by
  rw [mem_names_iff, mem_names_iff, get?_markExported]

theorem of_mem_names_without (h : other ∈ (env.without name).names) : other ∈ env.names := by
  rw [mem_names_iff, get?_without] at h
  split at h
  · cases h
  · exact mem_names_iff.2 h

theorem Change.of_mem_names (h : Change given env later) (hname : name ∈ later.names) :
    name ∈ env.names ∨ name ∈ given ∧ isName name = true := by
  cases h with
  | put value hgiven hvalid hfree =>
      rcases mem_names_put.1 hname with rfl | hbefore
      · exact .inr ⟨hgiven, hvalid⟩
      · exact .inl hbefore
  | mark hsome => exact .inl (mem_names_markExported.1 hname)
  | drop hfree => exact .inl (of_mem_names_without hname)

/-- Variables that are new have a valid name that was given. -/
theorem Changes.of_mem_names (h : Changes given env later) (hname : name ∈ later.names) :
    name ∈ env.names ∨ name ∈ given ∧ isName name = true := by
  induction h with
  | refl => exact .inl hname
  | tail _ hchange ih =>
      rcases hchange.of_mem_names hname with hbefore | hnew
      · exact ih hbefore
      · exact .inr hnew

theorem of_mem_names_after {calls : List Call} (h : name ∈ (env.after calls).names) :
    name ∈ env.names ∨ name ∈ calls.flatMap Call.given ∧ isName name = true := by
  induction calls generalizing env with
  | nil => exact .inl h
  | cons c calls ih =>
      rw [List.flatMap_cons, List.mem_append]
      rcases ih h with hbefore | ⟨hgiven, hvalid⟩
      · exact ((env.call_changes c).of_mem_names hbefore).imp_right (.imp_left .inl)
      · exact .inr ⟨.inr hgiven, hvalid⟩

theorem of_mem_names_start {username home : String} {directory : Option String}
    {extra : List (String × String)} (h : name ∈ (start username home directory extra).names) :
    IsIdentifier name.toList ∨ name ∈ extra.map (·.1) ∧ isName name = true := by
  refine ((start_changes username home directory extra).of_mem_names h).imp_left fun hfirst => ?_
  have hfixed : ∀ name ∈ ["USER", "HOME", "SHELL", "PATH", "PWD", "TERM", "LANG"],
      IsIdentifier name.toList := by decide
  exact hfixed name hfirst

/-- Setting a variable keeps the others, and it is there afterwards if it can be set. -/
theorem names_call_set (env : Environment) (name value : String) (exporting : Bool) :
    env.names ⊆ (env.call (.set name value exporting)).names ∧
      (isName name = true → name ∉ readOnlyNames →
        name ∈ (env.call (.set name value exporting)).names) := by
  rw [call]
  cases hset : env.set name value exporting with
  | error e =>
      refine ⟨fun _ => id, fun hname hfree => ?_⟩
      rcases of_set_eq_error hset with hinvalid | hfixed
      · rw [hname] at hinvalid
        cases hinvalid
      · exact absurd hfixed hfree
  | ok later =>
      obtain ⟨-, -, rfl⟩ := set_eq_ok_iff.1 hset
      have hput : env.names ⊆ (env.put name value).names := fun other hother =>
        mem_names_put.2 (.inr hother)
      have hmem : name ∈ (env.put name value).names := mem_names_put.2 (.inl rfl)
      cases exporting with
      | false => exact ⟨hput, fun _ _ => hmem⟩
      | true =>
          refine ⟨fun other hother => ?_, fun _ _ => mem_names_markExported.2 hmem⟩
          exact mem_names_markExported.2 (hput hother)

/-- Whether a command keeps all variables and sets what an argument is about, if it can be set. -/
def Gives (step : String → Environment → Line × Environment) (about : String → Option String) : Prop :=
  ∀ argument env, env.names ⊆ (step argument env).2.names ∧
    ∀ name, about argument = some name → isName name = true → name ∉ readOnlyNames →
      name ∈ (step argument env).2.names

theorem envStep_gives : Gives envStep assigned := by
  intro argument env
  rw [envStep_snd, assigned]
  obtain ⟨first, value | value⟩ := splitAssignment argument
  · exact ⟨fun _ => id, fun _ habout => by cases habout⟩
  · obtain ⟨hsub, hmem⟩ := names_call_set env first value true
    exact ⟨hsub, fun name habout => Option.some.inj habout ▸ hmem⟩

theorem exportStep_gives : Gives exportStep (some ∘ named) := by
  intro argument env
  rw [exportStep_snd, Function.comp_apply, named]
  obtain ⟨first, value | value⟩ := splitAssignment argument
  · dsimp only
    split
    · rename_i hsome
      refine ⟨fun _ => mem_names_markExported.2, fun name habout _ _ => ?_⟩
      obtain rfl : first = name := Option.some.inj habout
      exact mem_names_markExported.2 (mem_names_iff.2 (Bool.and_eq_true_iff.1 hsome).1)
    · obtain ⟨hsub, hmem⟩ := names_call_set env first "" true
      exact ⟨hsub, fun name habout => Option.some.inj habout ▸ hmem⟩
  · obtain ⟨hsub, hmem⟩ := names_call_set env first value true
    exact ⟨hsub, fun name habout => Option.some.inj habout ▸ hmem⟩

theorem Gives.runEach {step : String → Environment → Line × Environment}
    {about : String → Option String} (h : Gives step about) (arguments : List String)
    (env : Environment) : env.names ⊆ (runEach step arguments env).2.names ∧
      (name ∈ arguments.filterMap about → isName name = true → name ∉ readOnlyNames →
        name ∈ (runEach step arguments env).2.names) := by
  induction arguments generalizing env with
  | nil => exact ⟨fun _ => id, fun hmem => by cases hmem⟩
  | cons argument rest ih =>
      obtain ⟨hkeeps, hgives⟩ := h argument env
      obtain ⟨hsub, hrest⟩ := ih (step argument env).2
      rw [runEach_cons_snd]
      refine ⟨List.Subset.trans hkeeps hsub, fun hmem hname hfree => ?_⟩
      obtain ⟨other, hother, habout⟩ := List.mem_filterMap.1 hmem
      rcases List.mem_cons.1 hother with rfl | hlater
      · exact hsub (hgives name habout hname hfree)
      · exact hrest (List.mem_filterMap.2 ⟨other, hlater, habout⟩) hname hfree

/-- After a call that gives a variable a name with a line feed at its end it is there. -/
theorem mem_names_call {c : Call} (h : name ∈ c.given) (hfeed : EndsInFeed name) :
    name ∈ (env.call c).names := by
  have hname : isName name = true := isName_iff.2 (.inr hfeed)
  have hfree := hfeed.not_mem_readOnlyNames
  cases c with
  | set other value exporting =>
      rw [List.mem_singleton.1 h] at hname hfree ⊢
      exact (names_call_set env other value exporting).2 hname hfree
  | unset other => cases h
  | changeDirectory path =>
      have hwords : ∀ name ∈ ["OLDPWD", "PWD"], '\n' ∉ name.toList := by decide
      exact absurd hfeed.feed_mem (hwords name h)
  | runEnv arguments =>
      rw [call, runEnv_snd]
      exact (envStep_gives.runEach arguments env).2 h hname hfree
  | runExport arguments =>
      rw [Call.given] at h
      split at h
      · cases h
      · rename_i hlists
        rw [call, runExport_snd, if_neg hlists]
        refine (exportStep_gives.runEach arguments env).2 ?_ hname hfree
        rwa [List.filterMap_eq_map]
  | runUnset arguments => cases h

theorem mem_names_start {username home : String} {directory : Option String}
    {extra : List (String × String)} (h : name ∈ extra.map (·.1)) (hfeed : EndsInFeed name) :
    name ∈ (start username home directory extra).names := by
  induction extra using List.reverseRecOn with
  | nil => cases h
  | append_singleton extra p ih =>
      have hgrows {env : Environment} (hmem : name ∈ env.names ∨ name = p.1) :
          name ∈ ((env.put p.1 p.2).markExported p.1).names :=
        mem_names_markExported.2 (mem_names_put.2 hmem.symm)
      rw [List.map_append, List.mem_append, List.map_singleton, List.mem_singleton] at h
      rw [start_concat]
      split
      · exact hgrows (h.imp_left ih)
      · rename_i hinvalid
        refine ih (h.resolve_right ?_)
        rintro rfl
        have hname : isName p.1 = true := isName_iff.2 (.inr hfeed)
        simp [hname, hfeed.not_mem_readOnlyNames] at hinvalid

end Stored

section Listing

variable {env : Environment}

theorem after_append (env : Environment) (calls more : List Call) :
    env.after (calls ++ more) = (env.after calls).after more := List.foldl_append

theorem mem_names_of_mem_exported {p : String × String} (h : p ∈ env.exported) : p.1 ∈ env.names :=
  List.mem_map_of_mem (List.mem_filter.1 h).1

theorem mem_exportedSorted {p : String × String} : p ∈ env.exportedSorted ↔ p ∈ env.exported :=
  (List.mergeSort_perm _ _).mem_iff

/-- A line of the listing. -/
def line (p : String × String) : String := p.1 ++ "=" ++ p.2

theorem output_runEnv_nil : (env.runEnv []).1.output =
    Text.Lines.join (env.exportedSorted.map line) := rfl

/-- Each exported variable has a line of its own in the listing exactly if its name and its value have no
line feed. -/
theorem fields_listing_iff (hne : env.exported ≠ []) :
    Text.Lines.fields (env.runEnv []).1.output = env.exportedSorted.map line ↔
      ∀ p ∈ env.exported, '\n' ∉ p.1.toList ∧ '\n' ∉ p.2.toList := by
  have hline (p : String × String) :
      '\n' ∉ (line p).toList ↔ '\n' ∉ p.1.toList ∧ '\n' ∉ p.2.toList := by
    simp [line]
  rw [output_runEnv_nil]
  constructor
  · intro hfields p hp
    have hmem : line p ∈ env.exportedSorted.map line :=
      List.mem_map_of_mem (mem_exportedSorted.2 hp)
    rw [← hfields] at hmem
    exact (hline p).1 (Text.Lines.not_mem_of_mem_fields hmem)
  · intro hfree
    refine Text.Lines.fields_join (fun hnil => hne ?_) fun text htext => ?_
    · rw [List.map_eq_nil_iff] at hnil
      exact List.eq_nil_iff_forall_not_mem.2 fun p hp => by
        have hmem := mem_exportedSorted.2 hp
        rw [hnil] at hmem
        cases hmem
    · obtain ⟨p, hp, rfl⟩ := List.mem_map.1 htext
      exact (hline p).2 (hfree p (mem_exportedSorted.1 hp))

theorem IsKept.exported_ne_nil {username home : String} (h : IsKept username home env) :
    env.exported ≠ [] := by
  obtain ⟨p, hp, hname⟩ := List.mem_map.1 (mem_names_iff.2 (h.valued "USER" (h.exported _ (by decide))))
  have hexported : p.1 ∈ env.exportedNames := by
    rw [hname]
    exact h.exported "USER" (by decide)
  exact List.ne_nil_of_mem (List.mem_filter.2 ⟨hp, List.contains_iff_mem.2 hexported⟩)

theorem IsKept.isIdentifier_or {username home : String} (h : IsKept username home env) {name : String}
    (hname : name ∈ env.names) : IsIdentifier name.toList ∨ EndsInFeed name :=
  isName_iff.1 (h.valid name (mem_names_iff.1 hname))

end Listing

/-- The names of variables are identifiers, but for a line feed that may follow. They are identifiers at
all times exactly if no name with such a line feed is ever given to a variable. Where no value has a line
feed, the listing has a line for each exported variable exactly if their names are identifiers. -/
theorem names_are_identifiers_iff (username home : String) (directory : Option String)
    (extra : List (String × String)) (calls : List Call) :
    let first := start username home directory extra
    (∀ name ∈ (first.after calls).names, IsIdentifier name.toList ∨ EndsInFeed name) ∧
    ((∀ earlier, earlier <+: calls → ∀ name ∈ (first.after earlier).names,
        IsIdentifier name.toList) ↔
      ∀ name ∈ extra.map (·.1) ++ calls.flatMap Call.given, ¬ EndsInFeed name) ∧
    ((∀ p ∈ (first.after calls).exported, '\n' ∉ p.2.toList) →
      (Text.Lines.fields ((first.after calls).runEnv []).1.output =
          (first.after calls).exportedSorted.map (fun p => p.1 ++ "=" ++ p.2) ↔
        ∀ p ∈ (first.after calls).exported, IsIdentifier p.1.toList)) := by
  intro first
  have hfirst : IsKept username home first := isKept_start username home directory extra
  have hkept := hfirst.after calls
  refine ⟨fun name => hkept.isIdentifier_or, ⟨?_, ?_⟩, fun hvalues => ?_⟩
  · intro hall name hgiven hfeed
    rcases List.mem_append.1 hgiven with hextra | hcall
    · have hname := hall [] List.nil_prefix name (mem_names_start hextra hfeed)
      exact hname.feed_not_mem hfeed.feed_mem
    · obtain ⟨c, hc, hname⟩ := List.mem_flatMap.1 hcall
      obtain ⟨before, rest, rfl⟩ := List.append_of_mem hc
      have hmem : name ∈ (first.after (before ++ [c])).names := by
        rw [after_append]
        exact mem_names_call hname hfeed
      exact (hall (before ++ [c]) ⟨rest, by simp⟩ name hmem).feed_not_mem hfeed.feed_mem
  · intro hnone earlier hearlier name hname
    refine ((hfirst.after earlier).isIdentifier_or hname).resolve_right fun hfeed => ?_
    rcases of_mem_names_after hname with hstart | ⟨hgiven, -⟩
    · rcases of_mem_names_start hstart with hidentifier | ⟨hextra, -⟩
      · exact hidentifier.feed_not_mem hfeed.feed_mem
      · exact hnone name (List.mem_append_left _ hextra) hfeed
    · obtain ⟨c, hc, hmem⟩ := List.mem_flatMap.1 hgiven
      have hcall := List.mem_flatMap.2 ⟨c, hearlier.subset hc, hmem⟩
      exact hnone name (List.mem_append_right _ hcall) hfeed
  · refine (fields_listing_iff hkept.exported_ne_nil).trans ⟨fun hfree p hp => ?_, fun hnames p hp => ?_⟩
    · refine (hkept.isIdentifier_or (mem_names_of_mem_exported hp)).resolve_right fun hfeed => ?_
      exact (hfree p hp).1 hfeed.feed_mem
    · exact ⟨(hnames p hp).feed_not_mem, hvalues p hp⟩

/-- Names that are refused leave no trace, and each variable has its line. -/
theorem lines_of_identifiers :
    let first := start "ada" "/home/ada" none [("MISSION", "unit"), ("1BAD", "x")]
    let calls : List Call := [.runExport ["9x=1", "_a1=two words"], .runUnset ["PATH", "TERM", "LANG"]]
    (∀ name ∈ ["MISSION", "1BAD"] ++ calls.flatMap Call.given, ¬ EndsInFeed name) ∧
      (∀ name ∈ (first.after calls).names, IsIdentifier name.toList) ∧
      (∀ p ∈ (first.after calls).exported, '\n' ∉ p.2.toList) ∧
      Text.Lines.fields ((first.after calls).runEnv []).1.output =
        ["HOME=/home/ada", "MISSION=unit", "PWD=/home/ada", "SHELL=/bin/sh", "USER=ada",
          "_a1=two words"] := by
  intro first calls
  have hgiven : ∀ name ∈ ["MISSION", "1BAD"] ++ calls.flatMap Call.given, '\n' ∉ name.toList := by
    decide +kernel
  have hnone : ∀ name ∈ ["MISSION", "1BAD"] ++ calls.flatMap Call.given, ¬ EndsInFeed name :=
    fun name hname hfeed => hgiven name hname hfeed.feed_mem
  have hexported : (first.after calls).exported = [("USER", "ada"), ("HOME", "/home/ada"),
      ("SHELL", "/bin/sh"), ("PWD", "/home/ada"), ("MISSION", "unit"), ("_a1", "two words")] := by
    decide +kernel
  have hvalues : ∀ p ∈ (first.after calls).exported, '\n' ∉ p.2.toList := by
    rw [hexported]
    decide
  obtain ⟨-, htimes, hlines⟩ := names_are_identifiers_iff "ada" "/home/ada" none
    [("MISSION", "unit"), ("1BAD", "x")] calls
  have hnames := htimes.2 hnone calls List.prefix_rfl
  refine ⟨hnone, hnames, hvalues, ?_⟩
  rw [(hlines hvalues).2 fun p hp => hnames p.1 (mem_names_of_mem_exported hp), exportedSorted,
    hexported]
  simp [List.mergeSort, List.MergeSort.Internal.splitInTwo]

/-- A name with a line feed at its end is taken, and the listing has two lines for it. -/
theorem line_feed_ends_a_name :
    let env := (start "ada" "/home/ada" none []).after
      [.runExport ["A\n=1"], .runUnset ["PATH", "TERM", "LANG"]]
    "A\n" ∈ env.names ∧ ¬ IsIdentifier "A\n".toList ∧
      (∀ p ∈ env.exported, '\n' ∉ p.2.toList) ∧
      Text.Lines.fields (env.runEnv []).1.output =
        ["A", "=1", "HOME=/home/ada", "PWD=/home/ada", "SHELL=/bin/sh", "USER=ada"] := by
  intro env
  have hexported : env.exported = [("USER", "ada"), ("HOME", "/home/ada"), ("SHELL", "/bin/sh"),
      ("PWD", "/home/ada"), ("A\n", "1")] := by decide +kernel
  have hsorted : env.exportedSorted = [("A\n", "1"), ("HOME", "/home/ada"), ("PWD", "/home/ada"),
      ("SHELL", "/bin/sh"), ("USER", "ada")] := by
    rw [exportedSorted, hexported]
    simp [List.mergeSort, List.MergeSort.Internal.splitInTwo]
  rw [output_runEnv_nil, hsorted, hexported]
  decide +kernel

end Environment

end PracticeShell
