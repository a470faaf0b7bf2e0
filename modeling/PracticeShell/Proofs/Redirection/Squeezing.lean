import PracticeShell.Proofs.Command.Spaced
import PracticeShell.Proofs.Redirection.Opening

/-!
# Commands that read a text

In a line such as `grep "two words" << END` the marker is cut out, and what is left is put together
again by single spaces (`parseLines_marked`). The command has all other words of the line exactly if
each blank in a word is a single space between two characters that are not blank
(`reader_has_words_iff`). Two spaces between quotes become one (`spaces_in_quotes_are_squeezed`).
-/

namespace PracticeShell.Redirection

open Words
open Text.Blank (isBlank tidy dropWhileEnd trim squeeze)

section Cut

variable {before rest : List Char} {quote : Option Char}

theorem le_of_mem_operatorsFrom {place skip : Nat} {cs : List Char} {o : Nat × Operator}
    (h : o ∈ operatorsFrom place skip quote cs) : place ≤ o.1 := by
  fun_induction operatorsFrom place skip quote cs <;> grind

/-- A character begins an operator, or it only decides how the rest of the line is read. -/
theorem operatorsFrom_cons (place skip : Nat) (quote : Option Char) (c : Char) :
    (skip = 0 ∧ quote = none ∧ (c = '<' ∨ c = '>')) ∨ ∃ later next, ∀ cs,
      operatorsFrom place skip quote (c :: cs) = operatorsFrom (place + 1) later next cs := by
  cases skip with
  | succ skip => exact .inr ⟨skip, quote, fun cs => rfl⟩
  | zero =>
      cases quote with
      | some q => exact .inr ⟨0, _, fun cs => operatorsFrom_quoted⟩
      | none =>
          by_cases hquote : c = '\'' ∨ c = '"'
          · exact .inr ⟨0, some c, fun cs => operatorsFrom_open hquote⟩
          · by_cases hback : c = '\\'
            · exact .inr ⟨1, none, fun cs => by rw [operatorsFrom, if_neg hquote, if_pos hback]⟩
            · by_cases hsymbol : c = '<' ∨ c = '>'
              · exact .inl ⟨rfl, rfl, hsymbol⟩
              · rw [not_or] at hsymbol
                exact .inr ⟨0, none, fun cs => by
                  rw [operatorsFrom, if_neg hquote, if_neg hback, if_neg hsymbol.1, if_neg hsymbol.2]⟩

theorem of_mem_cons {place later : Nat} {o o' : Operator} {l : List (Nat × Operator)}
    (h : (place + 1 + later, o) ∈ (place, o') :: l) : (place + 1 + later, o) ∈ l := by
  refine (List.mem_cons.1 h).resolve_left fun heq => ?_
  have hplace : place + 1 + later = place := congrArg Prod.fst heq
  omega

/-- Which operator a character begins depends on the next one only. -/
theorem operatorsFrom_begun (place : Nat) {c : Char} (hc : c = '<' ∨ c = '>')
    (next : Option Char) : ∃ o later, ∀ cs, cs.head? = next →
      operatorsFrom place 0 none (c :: cs) = (place, o) :: operatorsFrom (place + 1) later none cs := by
  rcases hc with rfl | rfl
  · by_cases hnext : next = some '<'
    · exact ⟨.lines, 1, fun cs hcs => by simp [operatorsFrom, hcs, hnext]⟩
    · exact ⟨.input, 0, fun cs hcs => by simp [operatorsFrom, hcs, hnext]⟩
  · by_cases hnext : next = some '>'
    · exact ⟨.append, 1, fun cs hcs => by simp [operatorsFrom, hcs, hnext]⟩
    · exact ⟨.overwrite, 0, fun cs hcs => by simp [operatorsFrom, hcs, hnext]⟩

/-- An operator before an operator for lines begins alike without what follows it. -/
theorem operatorsFrom_cons_cut {place : Nat} {c : Char} (hc : c = '<' ∨ c = '>')
    (h : (place + 1 + before.length, .lines) ∈
      operatorsFrom place 0 none (c :: (before ++ (Operator.lines.symbol.toList ++ rest)))) :
    ∃ o later, ∀ cs, (cs = before ++ (Operator.lines.symbol.toList ++ rest) ∨ cs = before ∨
        ∃ ds, cs = before ++ ' ' :: ds) →
      operatorsFrom place 0 none (c :: cs) = (place, o) :: operatorsFrom (place + 1) later none cs := by
  cases before with
  | nil =>
      rcases hc with rfl | rfl
      · have hdouble : operatorsFrom place 0 none ('<' :: ([] ++ (Operator.lines.symbol.toList ++ rest))) =
            (place, .lines) :: operatorsFrom (place + 1 + 1) 0 none ('<' :: rest) := by
          simp [operatorsFrom, Operator.symbol]
        rw [hdouble] at h
        exact absurd (le_of_mem_operatorsFrom (of_mem_cons h)) (by simp)
      · refine ⟨.overwrite, 0, fun cs hcs => ?_⟩
        have hnext : cs.head? ≠ some '>' := by
          rcases hcs with rfl | rfl | ⟨ds, rfl⟩ <;> simp [Operator.symbol]
        simp [operatorsFrom, hnext]
  | cons d before =>
      obtain ⟨o, later, hbegun⟩ := operatorsFrom_begun place hc (some d)
      refine ⟨o, later, fun cs hcs => hbegun cs ?_⟩
      rcases hcs with rfl | rfl | ⟨ds, rfl⟩ <;> rfl

/-- At an operator for lines no quote is open. So what is before it is read by itself, whether the
operator or a space follows, and so is what comes after it. -/
theorem operatorsFrom_cut {place skip : Nat}
    (h : (place + before.length, .lines) ∈
      operatorsFrom place skip quote (before ++ (Operator.lines.symbol.toList ++ rest))) :
    operatorsFrom place skip quote (before ++ (Operator.lines.symbol.toList ++ rest)) =
        operatorsFrom place skip quote before ++ (place + before.length, .lines) ::
          operatorsFrom (place + before.length + 2) 0 none rest ∧
      ∀ cs, operatorsFrom place skip quote (before ++ ' ' :: cs) =
        operatorsFrom place skip quote before ++
          operatorsFrom (place + before.length + 1) 0 none cs := by
  induction before generalizing place skip quote with
  | nil =>
      rcases operatorsFrom_cons place skip quote '<' with ⟨rfl, rfl, -⟩ | ⟨later, next, hskip⟩
      · exact ⟨by simp [operatorsFrom, Operator.symbol], fun cs => operatorsFrom_space⟩
      · have hplace := le_of_mem_operatorsFrom (hskip _ ▸ h)
        exact absurd hplace (by simp)
  | cons c before ih =>
      rw [List.length_cons, ← Nat.add_assoc, Nat.add_right_comm] at h ⊢
      simp only [List.cons_append] at h ⊢
      rcases operatorsFrom_cons place skip quote c with ⟨rfl, rfl, hc⟩ | ⟨later, next, hskip⟩
      · obtain ⟨o, later, hbegun⟩ := operatorsFrom_cons_cut hc h
        rw [hbegun _ (.inl rfl)] at h
        obtain ⟨hline, hothers⟩ := ih (of_mem_cons h)
        rw [hbegun _ (.inl rfl), hbegun _ (.inr (.inl rfl)), hline]
        refine ⟨rfl, fun cs => ?_⟩
        rw [hbegun _ (.inr (.inr ⟨cs, rfl⟩)), hothers]
        rfl
      · simp only [hskip] at h ⊢
        exact ih h

end Cut

/-- How a marker is written after its operator where `after` follows it: by itself or between a pair of
quotes. -/
inductive Marked (marker : String) (after : List Char) : List Char → Prop
  | bare {blanks : List Char} (hblanks : ∀ b ∈ blanks, isBlank b = true)
      (hafter : ∀ c ∈ after.head?, ¬ (c = '\'' ∨ c = '"') ∧ Text.Letter.isWord c = false) :
      Marked marker after (blanks ++ (marker.toList ++ after))
  | quoted {blanks : List Char} {q : Char} (hblanks : ∀ b ∈ blanks, isBlank b = true)
      (hq : q = '\'' ∨ q = '"') :
      Marked marker after (blanks ++ q :: (marker.toList ++ q :: after))

section Marked

variable {marker : String} {after text : List Char}

theorem dropWhileEnd_head? {cs : List Char} {c : Char} (h : c ∈ (dropWhileEnd isBlank cs).head?) :
    c ∈ cs.head? := by
  obtain ⟨rest, hrest⟩ := List.head?_eq_some_iff.1 h
  obtain ⟨more, hmore⟩ := List.rdropWhile_prefix isBlank (l := cs)
  have hcs : dropWhileEnd isBlank cs ++ more = cs := hmore
  rw [← hcs, hrest]
  rfl

theorem operatorsFrom_blanks {blanks rest : List Char} (h : ∀ b ∈ blanks, isBlank b = true)
    (place : Nat) : operatorsFrom place 0 none (blanks ++ rest) =
      operatorsFrom (place + blanks.length) 0 none rest := by
  induction blanks generalizing place with
  | nil => rfl
  | cons b blanks ih =>
      obtain ⟨hb, hrest⟩ := List.forall_mem_cons.1 h
      rw [List.cons_append, operatorsFrom_blank hb, ih hrest, List.length_cons, Nat.add_assoc,
        Nat.add_comm 1]

variable (hmarker : IsMarker marker)

include hmarker

theorem IsMarker.takeWhile_eq {rest : List Char}
    (h : ∀ c ∈ rest.head?, Text.Letter.isWord c = false) :
    (marker.toList ++ rest).takeWhile Text.Letter.isWord = marker.toList ∧
      (marker.toList ++ rest).dropWhile Text.Letter.isWord = rest := by
  rw [List.takeWhile_append_of_pos hmarker.2, List.dropWhile_append_of_pos hmarker.2]
  cases rest with
  | nil => simp
  | cons c rest =>
      have hc : ¬ Text.Letter.isWord c = true := by simp [h c rfl]
      rw [List.takeWhile_cons_of_neg hc, List.dropWhile_cons_of_neg hc, List.append_nil]
      exact ⟨rfl, rfl⟩

/-- The marker is read, and what follows it is left. -/
theorem Marked.splitMarker_eq (h : Marked marker after text) :
    splitMarker text = some (marker, after) := by
  obtain ⟨c, cs, hword, hblank, hplain⟩ := hmarker.isPlain.exists_cons
  simp only [List.mem_cons, List.not_mem_nil, or_false, not_or] at hplain
  have hne : marker.toList ≠ [] := by simp [hword]
  rw [Redirection.splitMarker_eq]
  cases h with
  | @bare blanks hblanks hafter =>
      have hstart : withoutQuote ((blanks ++ (marker.toList ++ after)).dropWhile isBlank) =
          marker.toList ++ after := by
        rw [List.dropWhile_append_of_pos hblanks, hword, List.cons_append,
          List.dropWhile_cons_of_neg (by simp [hblank]), withoutQuote, if_neg (by simp [hplain])]
      obtain ⟨htake, hdrop⟩ := hmarker.takeWhile_eq fun c hc => (hafter c hc).2
      have hend : withoutQuote after = after := by
        cases after with
        | nil => rfl
        | cons d rest => rw [withoutQuote, if_neg (hafter d rfl).1]
      rw [hstart, htake, hdrop, hend, if_neg hne, String.ofList_toList]
  | @quoted blanks q hblanks hq =>
      have hq' : isBlank q = false ∧ Text.Letter.isWord q = false := by
        rcases hq with rfl | rfl <;> exact ⟨by decide, by decide +kernel⟩
      have hstart : withoutQuote ((blanks ++ q :: (marker.toList ++ q :: after)).dropWhile isBlank) =
          marker.toList ++ q :: after := by
        rw [List.dropWhile_append_of_pos hblanks, List.dropWhile_cons_of_neg (by simp [hq'.1]),
          withoutQuote, if_pos hq]
      obtain ⟨htake, hdrop⟩ := @IsMarker.takeWhile_eq _ hmarker (q :: after) (by simpa using hq'.2)
      rw [hstart, htake, hdrop, withoutQuote, if_pos hq, if_neg hne, String.ofList_toList]

theorem Marked.dropWhileEnd (h : Marked marker after text) :
    Marked marker (dropWhileEnd isBlank after) (dropWhileEnd isBlank text) := by
  have hplain := hmarker.isPlain
  cases h with
  | @bare blanks hblanks hafter =>
      have hne : marker.toList ≠ [] := by simpa using hplain.1
      rw [Text.Blank.dropWhileEnd_append_word hne (fun c hc => (hplain.2 c hc).1)]
      exact .bare hblanks fun c hc => hafter c (dropWhileEnd_head? hc)
  | @quoted blanks q hblanks hq =>
      have hq' : isBlank q = false := by rcases hq with rfl | rfl <;> decide
      have hend := Text.Blank.dropWhileEnd_append hq' (blanks ++ q :: marker.toList) after
      simp only [List.append_assoc, List.cons_append] at hend
      rw [hend]
      exact .quoted hblanks hq

/-- A marker holds no operators. -/
theorem Marked.operatorsFrom_eq (h : Marked marker after text) (place : Nat) : ∃ n,
    operatorsFrom place 0 none text = operatorsFrom (place + n) 0 none after := by
  cases h with
  | @bare blanks hblanks hafter =>
      exact ⟨_, by rw [operatorsFrom_blanks hblanks, operatorsFrom_bland hmarker.isPlain.2,
        Nat.add_assoc]⟩
  | @quoted blanks q hblanks hq =>
      have hinside : q ∉ marker.toList := by
        intro hmem
        have hbland := hmarker.isPlain.2 q hmem
        rcases hq with rfl | rfl <;> exact absurd hbland.2 (by decide)
      exact ⟨_, by rw [operatorsFrom_blanks hblanks, operatorsFrom_open hq, operatorsFrom_closed hinside,
        Nat.add_assoc, Nat.add_assoc, Nat.add_assoc]⟩

end Marked

section Kinds

variable {before text after : List Char} {marker : String}

theorem map_snd_operatorsFrom (place skip : Nat) (quote : Option Char) (cs : List Char) :
    (operatorsFrom place skip quote cs).map (·.2) = (operatorsFrom 0 skip quote cs).map (·.2) := by
  rw [← Nat.add_zero place, operatorsFrom_add, List.map_map]
  rfl

/-- With a space in place of an operator for lines and its marker the other operators are left. -/
theorem map_snd_operators (hmarker : IsMarker marker) (hmarked : Marked marker after text)
    (h : (before.length, .lines) ∈ operators (before ++ (Operator.lines.symbol.toList ++ text))) :
    ((operators (before ++ ' ' :: after)).map (·.2)).Sublist
      ((operators (before ++ (Operator.lines.symbol.toList ++ text))).map (·.2)) := by
  have hzero : (0 + before.length, Operator.lines) ∈
      operatorsFrom 0 0 none (before ++ (Operator.lines.symbol.toList ++ text)) := by
    rwa [Nat.zero_add]
  obtain ⟨hline, hothers⟩ := operatorsFrom_cut hzero
  obtain ⟨n, htext⟩ := hmarked.operatorsFrom_eq hmarker (0 + before.length + 2)
  rw [operators, operators, hline, hothers, htext, List.map_append, List.map_append, List.map_cons,
    map_snd_operatorsFrom (0 + before.length + 1), map_snd_operatorsFrom (0 + before.length + 2 + n)]
  exact (List.Sublist.refl _).append (List.sublist_cons_self _ _)

/-- The command that is read from what is left of a line: its runs without blanks joined by single
spaces, or `cat` if there are none. -/
def reader (cs : List Char) : String := if squeeze cs = [] then "cat" else String.ofList (squeeze cs)

theorem intercalate_words (cs : List Char) :
    " ".intercalate (Text.Blank.words (String.ofList cs)) = String.ofList (squeeze cs) := by
  rw [← String.toList_inj, String.toList_intercalate, Text.Blank.words, String.toList_ofList,
    String.toList_ofList, squeeze, List.map_map]
  simp [Function.comp_def]

/-- Where no output is redirected, the command is read from what is left beside the marker. -/
theorem parseLines_marked (hmarker : IsMarker marker) (hmarked : Marked marker after text)
    (h : (before.length, .lines) ∈ operators (before ++ (Operator.lines.symbol.toList ++ text)))
    (houtput : ∀ o ∈ operators (before ++ (Operator.lines.symbol.toList ++ text)),
      o.2 ≠ .overwrite ∧ o.2 ≠ .append) :
    parseLines (before ++ (Operator.lines.symbol.toList ++ text)) before.length =
      some ⟨reader (before ++ ' ' :: after), .lines marker none⟩ := by
  have hdrop : (before ++ (Operator.lines.symbol.toList ++ text)).drop (before.length + 2) = text := by
    rw [List.drop_length_add_append]
    rfl
  have hnone : ∀ isOutput : Nat × Operator → Bool,
      (∀ o, isOutput o = true → o.2 = .overwrite ∨ o.2 = .append) →
        (operators (before ++ ' ' :: after)).filter isOutput = [] := by
    intro isOutput houtputs
    rw [List.filter_eq_nil_iff]
    intro o ho hisOutput
    obtain ⟨other, hother, heq⟩ := List.mem_map.1
      ((map_snd_operators hmarker hmarked h).subset (List.mem_map_of_mem ho))
    obtain ⟨hoverwrite, happend⟩ := houtput other hother
    rw [heq] at hoverwrite happend
    exact (houtputs o hisOutput).elim hoverwrite happend
  unfold parseLines
  simp only [hdrop, hmarked.splitMarker_eq hmarker, List.take_left, Option.bind_eq_bind,
    Option.bind_some, intercalate_words]
  rw [hnone _ fun o ho => by simpa using ho, reader]
  simp

end Kinds

theorem reader_tidy (cs : List Char) : reader (tidy isBlank cs) = reader cs := by
  rw [reader, Text.Blank.squeeze_tidy, reader]

/-- The command has the words of what is left of the line exactly if each blank in a word is a single
space between two characters that are not blank. -/
theorem split_reader_iff (cs : List Char) :
    split (reader cs) =
        (if split (String.ofList cs) = [] then ["cat"] else split (String.ofList cs)) ↔
      Spaced false (standings none cs) := by
  have hempty : split (String.ofList cs) = [] ↔ scan [] false none cs = [] := split_ofList_eq_iff
  rw [← scan_squeeze_eq_iff, reader]
  by_cases hnil : squeeze cs = []
  · have hcat : split "cat" = ["cat"] := by decide +kernel
    have hnone : scan [] false none [] = [] := rfl
    rw [if_pos hnil, hcat, hnil, hnone]
    split
    · rename_i hwords
      simp [hempty.1 hwords]
    · rename_i hwords
      refine ⟨fun heq => ?_, fun heq => absurd (hempty.2 heq.symm) hwords⟩
      have hscan : scan [] false none cs = ["cat".toList] := split_ofList_eq_iff.1 heq.symm
      have hmem : 'c' ∈ cs := mem_of_mem_scan hscan (by decide)
      exact absurd ((Text.Blank.squeeze_eq_nil_iff cs).1 hnil 'c' hmem) (by decide)
  · have hwords : split (String.ofList cs) ≠ [] := fun h => hnil (squeeze_eq_nil_of_scan (hempty.1 h))
    have hscan : scan [] false none cs = (split (String.ofList cs)).map String.toList :=
      split_ofList_eq_iff.1 rfl
    rw [if_neg hnil, if_neg hwords, split_ofList_eq_iff, ← hscan]

/-- A line with an operator for lines outside of quotes, with a marker after the first of these and no
operator for output, has all its other words for its command, or `cat` if there are none, exactly if
each blank in a word is a single space between two characters that are not blank. -/
theorem reader_has_words_iff {line : String} {before text after : List Char} {marker : String}
    (hline : line.toList = before ++ (Operator.lines.symbol.toList ++ text))
    (hagree : operators line.toList = bareOperators line.toList)
    (hfirst : ((bareOperators line.toList).filter (·.2 == .lines)).head? =
      some (before.length, .lines))
    (houtput : ∀ o ∈ bareOperators line.toList, o.2 ≠ .overwrite ∧ o.2 ≠ .append)
    (hmarker : IsMarker marker) (hmarked : Marked marker after text) :
    ∃ command, parse line = .ok ⟨command, .lines marker none⟩ ∧
      (split command = (if split (String.ofList (before ++ ' ' :: after)) = [] then ["cat"]
          else split (String.ofList (before ++ ' ' :: after))) ↔
        Spaced false (standings none (before ++ ' ' :: after))) := by
  rw [← hagree, hline] at hfirst houtput
  have htrim : (trim line).toList = before.dropWhile isBlank ++
      (Operator.lines.symbol.toList ++ dropWhileEnd isBlank text) := by
    rw [Text.Blank.toList_trim, hline, tidy_symbol]
  have hhead := head?_operators_tidy hfirst
  have hmem := (List.mem_filter.1 (List.mem_of_mem_head? hhead)).1
  have hkinds : ∀ o ∈ operators (before.dropWhile isBlank ++
      (Operator.lines.symbol.toList ++ dropWhileEnd isBlank text)),
      o.2 ≠ .overwrite ∧ o.2 ≠ .append := by
    intro o ho
    rw [operators_eq_map_tidy, tidy_symbol] at houtput
    have hplace := houtput _ (List.mem_map_of_mem ho)
    exact hplace
  have hread := parseLines_marked hmarker (hmarked.dropWhileEnd hmarker) hmem hkinds
  have hrest : reader (before.dropWhile isBlank ++ ' ' :: dropWhileEnd isBlank after) =
      reader (before ++ ' ' :: after) := by
    rw [← reader_tidy, Text.Blank.tidy_dropWhile_append, List.append_cons,
      Text.Blank.tidy_append_dropWhileEnd, ← List.append_cons, reader_tidy]
  rw [hrest] at hread
  refine ⟨reader (before ++ ' ' :: after), ?_, split_reader_iff _⟩
  rw [← htrim] at hread hhead
  exact parse_of_parseLines hhead hread

/-- A command with a quoted operand after its marker has its words. -/
theorem words_beside_marker_are_read :
    "grep -n << 'END' \"two words\"".toList =
        "grep -n ".toList ++ (Operator.lines.symbol.toList ++ " 'END' \"two words\"".toList) ∧
      bareOperators "grep -n << 'END' \"two words\"".toList = [(8, .lines)] ∧
      IsMarker "END" ∧
      Marked "END" " \"two words\"".toList " 'END' \"two words\"".toList ∧
      ∃ command, parse "grep -n << 'END' \"two words\"" = .ok ⟨command, .lines "END" none⟩ ∧
        split command = ["grep", "-n", "two words"] := by
  have hline : "grep -n << 'END' \"two words\"".toList =
      "grep -n ".toList ++ (Operator.lines.symbol.toList ++ " 'END' \"two words\"".toList) := by
    decide +kernel
  have hone : bareOperators "grep -n << 'END' \"two words\"".toList = [(8, .lines)] := by
    decide +kernel
  have hmarker : IsMarker "END" := by decide +kernel
  have hmarked : Marked "END" " \"two words\"".toList " 'END' \"two words\"".toList :=
    @Marked.quoted _ _ [' '] '\'' (List.forall_mem_singleton.2 (by decide)) (.inl rfl)
  obtain ⟨command, hparse, hwords⟩ := reader_has_words_iff hline (by decide +kernel)
    (by rw [hone]; rfl) (by rw [hone]; decide) hmarker hmarked
  refine ⟨hline, hone, hmarker, hmarked, command, hparse, ?_⟩
  rw [hwords.2 (by decide +kernel)]
  decide +kernel

/-- Two spaces between quotes become one. -/
theorem spaces_in_quotes_are_squeezed :
    bareOperators "grep \"a  b\" << EOF".toList = [(12, .lines)] ∧
      split "grep \"a  b\"  " = ["grep", "a  b"] ∧
      (parse "grep \"a  b\" << EOF").toOption =
        some ⟨"grep \"a b\"", .lines "EOF" none⟩ ∧
      split "grep \"a b\"" = ["grep", "a b"] := by
  decide +kernel

end PracticeShell.Redirection
