import PracticeShell.Proofs.Command.Written
import PracticeShell.Proofs.Environment.Expanding

/-!
# Echoing a variable

A variable is shown by echoing a reference between double quotes. Its value is put into the line before
operators and words are looked for in it, so a double quote in the value ends the quotes, and a backslash
may escape what follows it. The line has no redirection and gives the value back exactly if the value is
`IsInert` (`echoes_value_iff`).
-/

namespace PracticeShell

namespace Words

/-- Whether a text stands for itself between double quotes. -/
@[mk_iff]
structure IsInert (cs : List Char) : Prop where
  noQuote : '"' ∉ cs
  noEscape : cs.IsChain fun c d => c = '\\' → d ≠ '\\' ∧ d ≠ '$'
  noEnd : cs.getLast? ≠ some '\\'

section Inert

variable {c d : Char} {cs : List Char}

theorem isInert_nil : IsInert [] := ⟨by simp, .nil, by simp⟩

theorem not_isInert_backslash : ¬ IsInert ['\\'] := fun h => h.noEnd rfl

theorem isInert_cons_iff (hc : c ≠ '\\') : IsInert (c :: cs) ↔ c ≠ '"' ∧ IsInert cs := by
  cases cs with
  | nil => simp [isInert_iff, hc, eq_comm]
  | cons d cs => simp [isInert_iff, hc, eq_comm, and_assoc]

theorem isInert_escape_iff :
    IsInert ('\\' :: d :: cs) ↔ (d ≠ '\\' ∧ d ≠ '$') ∧ IsInert (d :: cs) := by
  rw [isInert_iff, isInert_iff, List.isChain_cons_cons, List.getLast?_cons_cons, List.mem_cons]
  simp [and_assoc, and_left_comm]

end Inert

/-- How the characters of a text between double quotes stand, with the quote that ends it. -/
def inQuotes (cs : List Char) : List (Char × Standing) := standings (some '"') (cs ++ ['"'])

section InQuotes

variable {quote : Option Char} {c d : Char} {cs : List Char}

theorem inQuotes_nil : inQuotes [] = [('"', .dropped)] := rfl

theorem inQuotes_backslash : inQuotes ['\\'] = [('\\', .dropped), ('"', .kept)] := rfl

theorem inQuotes_quote (cs : List Char) :
    inQuotes ('"' :: cs) = ('"', .dropped) :: standings none (cs ++ ['"']) :=
  standings_close _ _

theorem inQuotes_cons (hquote : c ≠ '"') (hback : c ≠ '\\') :
    inQuotes (c :: cs) = (c, .kept) :: inQuotes cs :=
  standings_quoted hquote (fun h => hback h.1) _

theorem inQuotes_escape (hd : d = '"' ∨ d = '\\' ∨ d = '$') (cs : List Char) :
    inQuotes ('\\' :: d :: cs) = ('\\', .dropped) :: (d, .kept) :: inQuotes cs :=
  standings_escape hd _

theorem inQuotes_escape_not (hd : ¬ (d = '"' ∨ d = '\\' ∨ d = '$')) (cs : List Char) :
    inQuotes ('\\' :: d :: cs) = ('\\', .kept) :: inQuotes (d :: cs) :=
  standings_escape_not hd _

/-- A double quote costs a character: itself, or what it is quoted or escaped by. -/
theorem dropped_mem (hquote : quote = none ∨ quote = some '"') (h : '"' ∈ cs) :
    .dropped ∈ (standings quote cs).map (·.2) := by
  fun_induction standings quote cs <;> grind

theorem length_contents_lt (hquote : quote = none ∨ quote = some '"') (h : '"' ∈ cs) :
    (contents (standings quote cs)).length < cs.length := by
  obtain ⟨x, hx, hdropped⟩ := List.mem_map.1 (dropped_mem hquote h)
  have hfilter : ((standings quote cs).filter stands).length < (standings quote cs).length :=
    List.length_filter_lt_length_iff_exists.2 ⟨x, hx, by simp [stands, hdropped]⟩
  have hlength := congrArg List.length (map_fst_standings quote cs)
  rw [List.length_map] at hlength
  rwa [contents, List.length_map, ← hlength]

theorem contents_dropped (c : Char) (S : List (Char × Standing)) :
    contents ((c, .dropped) :: S) = contents S := rfl

theorem contents_kept (c : Char) (S : List (Char × Standing)) :
    contents ((c, .kept) :: S) = c :: contents S := rfl

theorem contents_inQuotes_quote_ne (cs : List Char) : contents (inQuotes ('"' :: cs)) ≠ '"' :: cs := by
  intro heq
  rw [inQuotes_quote, contents_dropped] at heq
  have hlength : (contents (standings none (cs ++ ['"']))).length < _ :=
    length_contents_lt (.inl rfl) (by simp)
  simp [heq] at hlength

theorem contents_inQuotes_escape_ne (hd : d = '"' ∨ d = '\\' ∨ d = '$') (cs : List Char) :
    contents (inQuotes ('\\' :: d :: cs)) ≠ '\\' :: d :: cs := by
  intro heq
  rw [inQuotes_escape hd, contents_dropped, contents_kept] at heq
  have hlength : (contents (inQuotes cs)).length < _ := length_contents_lt (.inr rfl) (by simp)
  rw [(List.cons.inj heq).2] at hlength
  simp at hlength

/-- A text between double quotes is kept as it is exactly if it is inert. -/
theorem contents_inQuotes_iff (cs : List Char) : contents (inQuotes cs) = cs ↔ IsInert cs := by
  induction cs with
  | nil => exact iff_of_true rfl isInert_nil
  | cons c cs ih =>
      by_cases hquote : c = '"'
      · subst hquote
        exact iff_of_false (contents_inQuotes_quote_ne cs) fun h => h.noQuote List.mem_cons_self
      by_cases hback : c = '\\'
      · subst hback
        cases cs with
        | nil => exact iff_of_false (by decide) not_isInert_backslash
        | cons d cs =>
            by_cases hd : d = '"' ∨ d = '\\' ∨ d = '$'
            · refine iff_of_false (contents_inQuotes_escape_ne hd cs) fun h => ?_
              obtain ⟨hnot, hrest⟩ := isInert_escape_iff.1 h
              rcases hd with rfl | rfl | rfl
              · exact hrest.noQuote List.mem_cons_self
              · exact hnot.1 rfl
              · exact hnot.2 rfl
            · rw [inQuotes_escape_not hd, contents_kept, isInert_escape_iff, ← ih]
              simp only [not_or] at hd
              simp [hd]
      · rw [inQuotes_cons hquote hback, contents_kept, isInert_cons_iff hback, ← ih]
        simp [hquote]

/-- Between double quotes nothing is bare up to a double quote. -/
theorem ne_bare_of_mem_inQuotes (h : '"' ∉ cs) : ∀ x ∈ inQuotes cs, x.2 ≠ .bare := by
  induction cs using List.twoStepInduction with
  | nil => simp [inQuotes_nil]
  | singleton c =>
      by_cases hback : c = '\\'
      · simp [hback, inQuotes_backslash]
      · rw [inQuotes_cons (by simpa [eq_comm] using h) hback]
        simp [inQuotes_nil]
  | cons_cons c d cs ih ih' =>
      obtain ⟨hc, hrest⟩ := not_or.1 (List.mem_cons.not.1 h)
      by_cases hback : c = '\\'
      · subst hback
        by_cases hd : d = '"' ∨ d = '\\' ∨ d = '$'
        · rw [inQuotes_escape hd]
          simpa using ih (not_or.1 (List.mem_cons.not.1 hrest)).2
        · rw [inQuotes_escape_not hd]
          simpa using ih' d hrest
      · rw [inQuotes_cons (Ne.symm hc) hback]
        simpa using ih' d hrest

/-- Between double quotes a text without double quotes is in one word. -/
theorem gather_inQuotes (h : '"' ∉ cs) : gather [] true (inQuotes cs) = [contents (inQuotes cs)] := by
  have hword : ∀ x ∈ inQuotes cs, separates x = false := fun x hx =>
    Bool.eq_false_iff.2 fun hseparates => ne_bare_of_mem_inQuotes h x hx (bare_of_separates hseparates)
  have hgather : gather [] true (inQuotes cs ++ []) = _ := gather_append_word hword
  simpa [gather] using hgather

end InQuotes

/-- A word, and then a text between double quotes. -/
theorem scan_echo (cs : List Char) : scan [] false none ("echo \"".toList ++ (cs ++ ['"'])) =
    "echo".toList :: gather [] true (inQuotes cs) := by
  have hspace : scan [] false none ("echo".toList ++ ' ' :: '"' :: (cs ++ ['"'])) = _ :=
    scan_append_space (by decide) (by decide) _
  have hword : scan [] false none "echo".toList = ["echo".toList] := by decide
  have hquoted : scan [] false none ('"' :: (cs ++ ['"'])) = gather [] true (inQuotes cs) := by
    rw [scan_eq_gather (by simp), standings_open (.inr rfl), gather, inQuotes]
  rw [hword, hquoted] at hspace
  exact hspace

end Words

namespace Redirection

variable {line : List Char} {place : Nat} {r : Redirection} {text command : String}

theorem effect_of_parseLines (h : parseLines line place = some r) : r.effect ≠ .none := by
  simp only [parseLines, Option.bind_eq_bind, Option.bind_eq_some_iff] at h
  obtain ⟨⟨marker, after⟩, -, h⟩ := h
  dsimp only at h
  split at h
  · rw [← Option.some.inj h]
    exact nofun
  · simp only [Option.bind_eq_some_iff] at h
    obtain ⟨⟨operand, remainder⟩, -, h⟩ := h
    rw [← Option.some.inj h]
    exact nofun

theorem effect_of_parseAt {effect : String → Effect} {o : Nat × Operator}
    (heffect : ∀ operand, effect operand ≠ .none) (h : parseAt line effect o = some r) :
    r.effect ≠ .none := by
  simp only [parseAt, Option.bind_eq_bind, Option.bind_eq_some_iff] at h
  obtain ⟨⟨operand, remainder⟩, -, h⟩ := h
  rw [← Option.some.inj h]
  exact heffect operand

/-- A line is read without a redirection exactly if it has no operators. -/
theorem parse_eq_none_iff : parse text = .ok ⟨command, .none⟩ ↔
    operators (Text.Blank.trim text).toList = [] ∧ command = Text.Blank.trim text := by
  refine ⟨fun h => ?_, fun h => h.2 ▸ parse_of_no_operators h.1⟩
  rw [parse] at h
  dsimp only at h
  split at h
  · rename_i r hread
    obtain rfl := Except.ok.inj h
    split at hread
    · exact absurd rfl (effect_of_parseLines hread)
    · exact absurd rfl (effect_of_parseAt (by simp) hread)
    · exact absurd rfl (effect_of_parseAt (by simp) hread)
    · exact absurd rfl (effect_of_parseAt (by simp) hread)
    · rename_i hlines happend hoverwrite hinput
      simp only [List.head?_eq_none_iff, List.getLast?_eq_none_iff, List.filter_eq_nil_iff]
        at hlines happend hoverwrite hinput
      refine ⟨List.eq_nil_iff_forall_not_mem.2 fun p hp => ?_, ?_⟩
      · obtain ⟨place, o⟩ := p
        cases o with
        | overwrite => exact hoverwrite _ hp rfl
        | append => exact happend _ hp rfl
        | input => exact hinput _ hp rfl
        | lines => exact hlines _ hp rfl
      · exact congrArg Redirection.command (Option.some.inj hread).symm
  · exact absurd h (by simp)

theorem operators_echo {cs : List Char} (h : '"' ∉ cs) :
    operators ("echo \"".toList ++ (cs ++ ['"'])) = [] := by
  have hclosed : operatorsFrom 6 0 (some '"') (cs ++ ['"']) = _ := operatorsFrom_closed h
  simpa [operators, operatorsFrom] using hclosed

end Redirection

namespace Environment

open Text.Letter (isAsciiWord)

/-- The line that shows a variable. -/
def echoLine (name : String) : String := "echo \"$" ++ name ++ "\""

/-- Whether showing a variable echoes a word, and that only. -/
def Echoes (env : Environment) (name word : String) : Prop :=
  ∃ command, Redirection.parse (env.expand (echoLine name)) = .ok ⟨command, .none⟩ ∧
    Words.split command = ["echo", word]

section Echo

variable {env : Environment} {name word : String}

theorem toList_expand_echoLine (h : IsIdentifier name.toList) :
    (env.expand (echoLine name)).toList =
      "echo \"".toList ++ (((env.get? name).getD "").toList ++ ['"']) := by
  have hreading : IsReading false ("echo \"".toList.map Piece.plain ++
      [.reference (.bare name.toList), .plain '"']) := by
    have hend : ∀ c ∈ (Piece.plain '"').source.head?, isAsciiWord c = false := by
      rintro _ ⟨⟩
      decide
    simpa [IsReading, Piece.Stands, Piece.next, Reference.Fits, h] using hend
  have htext : sources ("echo \"".toList.map Piece.plain ++
      [.reference (.bare name.toList), .plain '"']) = (echoLine name).toList := by
    simp [echoLine, Piece.source, Reference.text]
  rw [expand_eq_told hreading htext]
  simp [told, Piece.result, Piece.source, Reference.value]

theorem trim_expand_echoLine (h : IsIdentifier name.toList) :
    Text.Blank.trim (env.expand (echoLine name)) = env.expand (echoLine name) := by
  rw [← (env.expand (echoLine name)).ofList_toList, toList_expand_echoLine h]
  refine Text.Blank.trim_of_ends (fun c hc => ?_) fun c hc => ?_
  · obtain rfl : 'e' = c := by simpa using hc
    decide
  · obtain rfl : '"' = c := by simpa [List.getLast?_cons] using hc
    decide

/-- What is echoed is what the value is read as between double quotes. -/
theorem echoes_iff (h : IsIdentifier name.toList) {value : String} (hvalue : env.get? name = some value) :
    Echoes env name word ↔
      Redirection.operators ("echo \"".toList ++ (value.toList ++ ['"'])) = [] ∧
        Words.gather [] true (Words.inQuotes value.toList) = [word.toList] := by
  have hline : (env.expand (echoLine name)).toList = _ := toList_expand_echoLine h
  rw [hvalue, Option.getD_some] at hline
  have hparse (command : String) :
      Redirection.parse (env.expand (echoLine name)) = .ok ⟨command, .none⟩ ↔
        Redirection.operators ("echo \"".toList ++ (value.toList ++ ['"'])) = [] ∧
          command = env.expand (echoLine name) := by
    rw [Redirection.parse_eq_none_iff, trim_expand_echoLine h, hline]
  have hsplit : Words.split (env.expand (echoLine name)) = ["echo", word] ↔
      Words.gather [] true (Words.inQuotes value.toList) = [word.toList] := by
    rw [Words.split, hline, Words.scan_echo]
    refine ⟨fun heq => ?_, fun heq => by rw [heq]; simp⟩
    simpa using congrArg (List.map String.toList) heq
  constructor
  · rintro ⟨command, hcommand, hwords⟩
    obtain ⟨hnone, hsame⟩ := (hparse command).1 hcommand
    rw [hsame] at hwords
    exact ⟨hnone, hsplit.1 hwords⟩
  · rintro ⟨hnone, hwords⟩
    exact ⟨_, (hparse _).2 ⟨hnone, rfl⟩, hsplit.2 hwords⟩

end Echo

theorem exists_set (env : Environment) {name : String} (hname : IsIdentifier name.toList)
    (hfree : name ∉ readOnlyNames) (value : String) (exporting : Bool) :
    ∃ later, env.set name value exporting = .ok later ∧ later.get? name = some value := by
  refine ⟨_, set_eq_ok_iff.2 ⟨isName_iff.2 (.inl hname), fun h => absurd h hfree, rfl⟩, ?_⟩
  cases exporting <;> simp [get?_put]

/-- A variable can be shown after it is set. It is echoed as it was set exactly if its value is inert, and
as a single word, without a redirection, if its value has no double quote. -/
theorem echoes_value_iff (env : Environment) (value : String) (exporting : Bool) {name : String}
    (hname : IsIdentifier name.toList) (hfree : name ∉ readOnlyNames) :
    ∃ later, env.set name value exporting = .ok later ∧
      (Echoes later name value ↔ Words.IsInert value.toList) ∧
      ('"' ∉ value.toList → ∃ word, Echoes later name word) := by
  obtain ⟨later, hset, hget⟩ := exists_set env hname hfree value exporting
  have hword (hquote : '"' ∉ value.toList) :
      Echoes later name (String.ofList (Words.contents (Words.inQuotes value.toList))) :=
    (echoes_iff hname hget).2
      ⟨Redirection.operators_echo hquote, by rw [Words.gather_inQuotes hquote, String.toList_ofList]⟩
  refine ⟨later, hset, ⟨fun hechoes => ?_, fun hinert => ?_⟩, fun hquote => ⟨_, hword hquote⟩⟩
  · have hflat := congrArg List.flatten ((echoes_iff hname hget).1 hechoes).2
    rw [Words.flatten_gather (by simp)] at hflat
    exact (Words.contents_inQuotes_iff _).1 (by simpa using hflat)
  · have hechoes := hword hinert.noQuote
    rwa [(Words.contents_inQuotes_iff _).2 hinert, String.ofList_toList] at hechoes

/-- An apostrophe, operators, references and a backslash are echoed. -/
theorem markup_is_echoed :
    let value := "it's <b> > $HOME \\n"
    let env := start "ada" "/home/ada" none []
    IsIdentifier "X".toList ∧ "X" ∉ readOnlyNames ∧ Words.IsInert value.toList ∧
      ∃ later, env.set "X" value false = .ok later ∧ Echoes later "X" value := by
  intro value env
  have hname : IsIdentifier "X".toList := by decide
  have hfree : "X" ∉ readOnlyNames := by decide
  have hinert : Words.IsInert value.toList := ⟨by decide, by decide, by decide⟩
  obtain ⟨later, hset, hechoes, -⟩ := echoes_value_iff env value false hname hfree
  exact ⟨hname, hfree, hinert, later, hset, hechoes.2 hinert⟩

/-- A value with double quotes in it ends the quotes around it, and names a file to overwrite. -/
theorem value_names_a_file :
    let value := "hi\" > notes \""
    let later := (start "ada" "/home/ada" none []).put "X" value
    (start "ada" "/home/ada" none []).set "X" value false = .ok later ∧
      Redirection.parse (later.expand (echoLine "X")) =
        .ok ⟨"echo \"hi\"   \"\"", .toFile ⟨"notes", false⟩⟩ ∧ ¬ Echoes later "X" value := by
  intro value later
  have hparse : Redirection.parse (later.expand (echoLine "X")) =
      .ok ⟨"echo \"hi\"   \"\"", .toFile ⟨"notes", false⟩⟩ := by decide +kernel
  refine ⟨by decide +kernel, hparse, ?_⟩
  rintro ⟨command, hnone, -⟩
  rw [hparse] at hnone
  exact absurd (congrArg Redirection.effect (Except.ok.inj hnone)) (by simp)

end Environment

end PracticeShell
