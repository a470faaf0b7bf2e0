import PracticeShell.Proofs.Command.Written
import PracticeShell.Proofs.Redirection.Operators
import PracticeShell.Proofs.Redirection.Quoted

/-!
# Operands that are words

The operand after an operator is cut off by other rules than words are: a pair of quotes is taken by
itself, and any other text up to a blank of any kind. In a line with a single operator the operand is
the first word after it, and the other words are those of the command, exactly if that word is written
in one piece and trimming takes only separators away (`operand_is_first_word_iff`). A word that only
starts with a pair of quotes is cut in two (`start_in_quotes_is_cut_off`).
-/

namespace PracticeShell.Redirection

open Words
open Text.Blank (isBlank tidy dropWhileEnd trim)

section Ends

variable {place skip : Nat} {quote : Option Char} {cs : List Char}

theorem not_mem_of_isBlank {b : Char} (hb : isBlank b = true) :
    b ∉ ['\'', '"', '\\', '<', '>'] := by
  intro hmem
  simp only [List.mem_cons, List.not_mem_nil, or_false] at hmem
  rcases hmem with rfl | rfl | rfl | rfl | rfl <;> exact absurd hb (by decide)

theorem operatorsFrom_blank {b : Char} (hb : isBlank b = true) :
    operatorsFrom place 0 none (b :: cs) = operatorsFrom (place + 1) 0 none cs := by
  have hplain := not_mem_of_isBlank hb
  simp only [List.mem_cons, List.not_mem_nil, or_false, not_or] at hplain
  simp [operatorsFrom, hplain]

theorem operatorsFrom_concat {b : Char} (hb : isBlank b = true) :
    operatorsFrom place skip quote (cs ++ [b]) = operatorsFrom place skip quote cs := by
  have hplain := not_mem_of_isBlank hb
  simp only [List.mem_cons, List.not_mem_nil, or_false, not_or] at hplain
  induction cs generalizing place skip quote with
  | nil =>
      cases skip with
      | succ skip => rfl
      | zero =>
          cases quote with
          | some q => rfl
          | none => exact operatorsFrom_blank hb
  | cons c cs ih =>
      cases skip with
      | succ skip => exact ih
      | zero =>
          cases quote with
          | some q => exact ih
          | none =>
              have hless : (cs ++ [b]).head? = some '<' ↔ cs.head? = some '<' := by
                cases cs <;> simp [hplain]
              have hgreater : (cs ++ [b]).head? = some '>' ↔ cs.head? = some '>' := by
                cases cs <;> simp [hplain]
              rw [List.cons_append, operatorsFrom, operatorsFrom]
              simp only [hless, hgreater, ih]

/-- Blanks at the end of a line hold no operator. -/
theorem operatorsFrom_dropWhileEnd : operatorsFrom place skip quote (dropWhileEnd isBlank cs) =
    operatorsFrom place skip quote cs := by
  induction cs using List.reverseRecOn with
  | nil => rfl
  | append_singleton cs c ih =>
      cases hc : isBlank c with
      | true => rw [Text.Blank.dropWhileEnd_concat_pos hc, ih, operatorsFrom_concat hc]
      | false => rw [Text.Blank.dropWhileEnd_concat_neg hc]

/-- Blanks at the start of a line hold no operator. -/
theorem operatorsFrom_dropWhile : operatorsFrom (place + (cs.takeWhile isBlank).length) 0 none
    (cs.dropWhile isBlank) = operatorsFrom place 0 none cs := by
  induction cs generalizing place with
  | nil => rfl
  | cons c cs ih =>
      cases hc : isBlank c with
      | true =>
          rw [List.takeWhile_cons_of_pos hc, List.dropWhile_cons_of_pos hc, List.length_cons,
            ← Nat.add_assoc, Nat.add_right_comm, ih, operatorsFrom_blank hc]
      | false =>
          rw [List.takeWhile_cons_of_neg (by simp [hc]), List.dropWhile_cons_of_neg (by simp [hc])]
          rfl

end Ends

section Single

variable {before after : List Char} {o : Operator}

theorem Operator.symbol_ne_nil (o : Operator) : o.symbol.toList ≠ [] := by cases o <;> decide

theorem Operator.isBlank_of_mem_symbol (o : Operator) :
    ∀ c ∈ o.symbol.toList, isBlank c = false := by
  intro c hc
  have hsymbol : c = '<' ∨ c = '>' := by
    cases o <;> simp only [symbol] at hc <;> simp at hc <;> simp [hc]
  rcases hsymbol with rfl | rfl <;> decide

/-- The blanks at the ends of a line are beside its operator. -/
theorem tidy_symbol (o : Operator) (before after : List Char) :
    tidy isBlank (before ++ (o.symbol.toList ++ after)) =
      before.dropWhile isBlank ++ (o.symbol.toList ++ dropWhileEnd isBlank after) := by
  rw [tidy, Text.Blank.dropWhile_append_word o.symbol_ne_nil o.isBlank_of_mem_symbol,
    Text.Blank.dropWhileEnd_append_word o.symbol_ne_nil o.isBlank_of_mem_symbol]

/-- Without the blanks at the ends of a line its operators are as many places further on as there are
blanks at its start. -/
theorem operators_eq_map_tidy (cs : List Char) : operators cs =
    (operators (tidy isBlank cs)).map (Prod.map ((cs.takeWhile isBlank).length + ·) id) := by
  rw [operators, ← operatorsFrom_dropWhile, ← operatorsFrom_dropWhileEnd, Nat.zero_add,
    ← Nat.add_zero (List.length _), operatorsFrom_add]
  rfl

/-- The blanks at the start of a line are before its operator. -/
theorem length_takeWhile_symbol (o : Operator) (before after : List Char) :
    ((before ++ (o.symbol.toList ++ after)).takeWhile isBlank).length +
      (before.dropWhile isBlank).length = before.length := by
  have hlength := congrArg List.length (List.takeWhile_append_dropWhile (p := isBlank)
    (l := before ++ (o.symbol.toList ++ after)))
  rw [Text.Blank.dropWhile_append_word o.symbol_ne_nil o.isBlank_of_mem_symbol] at hlength
  simp only [List.length_append] at hlength
  omega

/-- The first operator of a kind is at the same place among what is left of a line without the blanks
at its ends. -/
theorem head?_operators_tidy
    (h : ((operators (before ++ (o.symbol.toList ++ after))).filter (·.2 == o)).head? =
      some (before.length, o)) :
    ((operators (before.dropWhile isBlank ++
      (o.symbol.toList ++ dropWhileEnd isBlank after))).filter (·.2 == o)).head? =
        some ((before.dropWhile isBlank).length, o) := by
  have hlength := length_takeWhile_symbol o before after
  rw [operators_eq_map_tidy, List.filter_map, List.head?_map, tidy_symbol] at h
  obtain ⟨⟨place, found⟩, hfound, heq⟩ := Option.map_eq_some_iff.1 h
  simp only [Prod.map_apply, id_eq, Prod.mk.injEq] at heq
  obtain ⟨hplace, rfl⟩ := heq
  obtain rfl : place = (before.dropWhile isBlank).length := by omega
  exact hfound

/-- A single operator is at the same place among what is left of a line without the blanks at its
ends. -/
theorem operators_tidy (h : operators (before ++ (o.symbol.toList ++ after)) = [(before.length, o)]) :
    operators (before.dropWhile isBlank ++ (o.symbol.toList ++ dropWhileEnd isBlank after)) =
      [((before.dropWhile isBlank).length, o)] := by
  have hlength := length_takeWhile_symbol o before after
  rw [operators_eq_map_tidy, tidy_symbol] at h
  obtain ⟨⟨place, found⟩, hfound, heq⟩ := List.map_eq_singleton_iff.1 h
  simp only [Prod.map_apply, id_eq, Prod.mk.injEq] at heq
  obtain ⟨hplace, rfl⟩ := heq
  obtain rfl : place = (before.dropWhile isBlank).length := by omega
  exact hfound

theorem firstWord_quoted {q : Char} (hq : q = '"' ∨ q = '\'') {cs : List Char} (hcs : q ∉ cs)
    (rest : List Char) : firstWord (q :: (cs ++ q :: rest)) = q :: (cs ++ [q]) := by
  have htake : (cs ++ q :: rest).takeWhile (· ≠ q) = cs := by
    rw [List.takeWhile_append_of_pos (by grind)]
    simp
  rw [firstWord, htake, if_pos ⟨hq, by simp⟩]
  rfl

theorem firstWord_unquoted {c : Char} {cs : List Char} (h : (c = '"' ∨ c = '\'') → c ∉ cs) :
    firstWord (c :: cs) = (c :: cs).takeWhile fun c => !isBlank c := by
  rw [firstWord, if_neg]
  rintro ⟨hq, hmem⟩
  exact h hq (by simpa using hmem)

/-- A text that does not start with a blank is its first word with what follows, and the first word is
not cut off elsewhere if blanks at the end are missing. -/
theorem firstWord_dropWhileEnd {c : Char} (hc : isBlank c = false) (cs : List Char) :
    ∃ rest, c :: cs = firstWord (c :: cs) ++ rest ∧
      dropWhileEnd isBlank (c :: cs) = firstWord (c :: cs) ++ dropWhileEnd isBlank rest ∧
      firstWord (dropWhileEnd isBlank (c :: cs)) = firstWord (c :: cs) := by
  by_cases hq : (c = '"' ∨ c = '\'') ∧ c ∈ cs
  · obtain ⟨hquote, hmem⟩ := hq
    obtain ⟨inner, rest, rfl, hinner⟩ := List.eq_append_cons_of_mem hmem
    have hend : dropWhileEnd isBlank (c :: (inner ++ c :: rest)) =
        c :: (inner ++ c :: dropWhileEnd isBlank rest) :=
      Text.Blank.dropWhileEnd_append hc (c :: inner) rest
    rw [hend, firstWord_quoted hquote hinner, firstWord_quoted hquote hinner]
    exact ⟨rest, by simp, by simp, rfl⟩
  · have hclosed : (c = '"' ∨ c = '\'') → c ∉ cs := fun hquote hmem => hq ⟨hquote, hmem⟩
    have hends : (c = '"' ∨ c = '\'') → c ∉ dropWhileEnd isBlank cs := fun hquote hmem =>
      hclosed hquote ((List.rdropWhile_prefix isBlank cs).subset hmem)
    have hcons : dropWhileEnd isBlank (c :: cs) = c :: dropWhileEnd isBlank cs :=
      Text.Blank.dropWhileEnd_append hc [] cs
    have hparts := List.takeWhile_append_dropWhile (p := fun c => !isBlank c) (l := c :: cs)
    generalize hrest : (c :: cs).dropWhile (fun c => !isBlank c) = rest at hparts
    have hword : ∀ d ∈ (c :: cs).takeWhile fun c => !isBlank c, isBlank d = false := fun d hd => by
      simpa using List.all_eq_true.1 List.all_takeWhile d hd
    have hne : (c :: cs).takeWhile (fun c => !isBlank c) ≠ [] := by simp [hc]
    have hend := Text.Blank.dropWhileEnd_append_word hne hword [] rest
    rw [List.nil_append, List.nil_append, hparts] at hend
    refine ⟨rest, ?_, ?_, ?_⟩
    · rw [firstWord_unquoted hclosed, hparts]
    · rw [firstWord_unquoted hclosed, hend]
    · rw [hcons, firstWord_unquoted hends, firstWord_unquoted hclosed, ← hcons,
        Text.Blank.takeWhile_dropWhileEnd]

theorem splitOperand_of_dropWhile {cs text rest : List Char} (htext : cs.dropWhile isBlank = text)
    (hne : text ≠ []) (hrest : text = firstWord text ++ rest) : splitOperand cs =
      (split (String.ofList (firstWord text))).head?.map fun operand => (operand, rest) := by
  have hafter : (firstWord text ++ rest).drop (firstWord text).length = rest := List.drop_left
  rw [← hrest] at hafter
  rw [splitOperand, htext, if_neg (by simpa using hne)]
  dsimp only
  rw [hafter]

theorem of_splitOperand {cs text rest found word : List Char} (htext : cs.dropWhile isBlank = text)
    (hne : text ≠ []) (hrest : text = firstWord text ++ rest)
    (h : splitOperand cs = some (String.ofList word, found)) :
    ∃ more, scan [] false none (firstWord text) = word :: more := by
  rw [splitOperand_of_dropWhile htext hne hrest, split, String.toList_ofList] at h
  cases hwords : scan [] false none (firstWord text) with
  | nil => simp [hwords] at h
  | cons first more =>
      rw [hwords, List.map_cons, List.head?_cons, Option.map_some, Option.some_inj,
        Prod.mk.injEq, String.ofList_inj] at h
      exact ⟨more, by rw [h.1]⟩

/-- Where a text starts with a pair of quotes, the operand is what is between them. -/
theorem splitOperand_between {q : Char} {cs word rest : List Char} (hq : q = '"' ∨ q = '\'')
    (hno : '\\' ∉ word) (hword : q ∉ word) (hdrop : cs.dropWhile isBlank = q :: (word ++ q :: rest)) :
    splitOperand cs = some (String.ofList word, rest) := by
  have hscan : scan [] false none (q :: (word ++ [q])) = [word] := by
    rw [scan_eq_gather (by simp), standings_between hq hno hword [], gather_between, standings,
      gather, if_pos rfl, List.reverse_reverse]
  have hfirst := firstWord_quoted hq hword rest
  have hparts : q :: (word ++ q :: rest) = firstWord (q :: (word ++ q :: rest)) ++ rest := by
    rw [hfirst]
    simp
  rw [splitOperand_of_dropWhile hdrop (by simp) hparts, hfirst, split, String.toList_ofList, hscan]
  rfl

/-- Where an operand is cut off, blanks at the end make no difference to it. -/
theorem splitOperand_dropWhileEnd (cs : List Char) : splitOperand (dropWhileEnd isBlank cs) =
    (splitOperand cs).map fun found => (found.1, dropWhileEnd isBlank found.2) := by
  have hends := Text.Blank.dropWhile_dropWhileEnd (p := isBlank) cs
  rw [tidy] at hends
  cases hcs : cs.dropWhile isBlank with
  | nil =>
      rw [hcs] at hends
      rw [splitOperand, splitOperand, hends, hcs]
      rfl
  | cons c text =>
      have hc : isBlank c = false := eq_false_of_dropWhile hcs
      have hcons : dropWhileEnd isBlank (c :: text) = c :: dropWhileEnd isBlank text :=
        Text.Blank.dropWhileEnd_append hc [] text
      obtain ⟨rest, hline, hend, hword⟩ := firstWord_dropWhileEnd hc text
      rw [hcs] at hends
      rw [splitOperand_of_dropWhile hcs (List.cons_ne_nil c text) hline,
        splitOperand_of_dropWhile hends (by simp [hcons]) (by rw [hword, hend]), hword,
        Option.map_map]
      rfl

theorem parse_error_of_operators {text : String} {place : Nat} (ho : o ≠ .lines)
    (h : operators (trim text).toList = [(place, o)])
    (hnone : parseAt (trim text).toList o.effect (place, o) = none) :
    parse text = .error (trim text) := by
  cases o with
  | lines => exact absurd rfl ho
  | _ =>
      rw [Operator.effect] at hnone
      simp [parse, h, hnone]

/-- A line with a single operator is read if an operand can be cut off after it. -/
theorem parse_single (ho : o ≠ .lines)
    (h : operators (before ++ (o.symbol.toList ++ after)) = [(before.length, o)]) (r : Redirection) :
    parse (String.ofList (before ++ (o.symbol.toList ++ after))) = .ok r ↔
      ∃ found, splitOperand after = some found ∧
        r = ⟨String.ofList (tidy isBlank (before ++ ' ' :: found.2)), o.effect found.1⟩ := by
  have htrim : (trim (String.ofList (before ++ (o.symbol.toList ++ after)))).toList =
      before.dropWhile isBlank ++ (o.symbol.toList ++ dropWhileEnd isBlank after) := by
    rw [Text.Blank.toList_trim, String.toList_ofList, tidy_symbol]
  have hat : parseAt (before.dropWhile isBlank ++ (o.symbol.toList ++ dropWhileEnd isBlank after))
      o.effect ((before.dropWhile isBlank).length, o) = (splitOperand after).map fun found =>
        ⟨String.ofList (tidy isBlank (before ++ ' ' :: found.2)), o.effect found.1⟩ := by
    rw [parseAt, o.length_eq, List.drop_length_add_append, List.drop_left, List.take_left,
      splitOperand_dropWhileEnd]
    cases splitOperand after with
    | none => rfl
    | some found =>
        have hcommand : trim (String.ofList
            (before.dropWhile isBlank ++ ' ' :: dropWhileEnd isBlank found.2)) =
            String.ofList (tidy isBlank (before ++ ' ' :: found.2)) := by
          rw [Text.Blank.trim_ofList, Text.Blank.tidy_dropWhile_append, List.append_cons,
            Text.Blank.tidy_append_dropWhileEnd, ← List.append_cons]
        exact congrArg (fun command => some (⟨command, o.effect found.1⟩ : Redirection)) hcommand
  have hone := operators_tidy h
  rw [← htrim] at hat hone
  cases hfound : splitOperand after with
  | none =>
      rw [hfound, Option.map_none] at hat
      rw [parse_error_of_operators ho hone hat]
      simp
  | some found =>
      rw [hfound, Option.map_some] at hat
      rw [parse_of_operators ho hone hat]
      simp [eq_comm]

end Single

section Places

/-- The operator that a character begins is written there. -/
theorem eq_symbol_of_begun? {c : Char} {cs : List Char} {o : Operator}
    (h : begun? c (standings none cs).head? = some o) :
    ∃ after, c :: cs = o.symbol.toList ++ after := by
  rw [begun?] at h
  simp only [head?_standings_iff (.inl rfl), head?_standings_iff (.inr rfl)] at h
  split_ifs at h with hc hnext hc hnext <;> cases h
  · obtain ⟨after, rfl⟩ := List.head?_eq_some_iff.1 hnext
    exact ⟨after, by rw [hc]; rfl⟩
  · exact ⟨cs, by rw [hc]; rfl⟩
  · obtain ⟨after, rfl⟩ := List.head?_eq_some_iff.1 hnext
    exact ⟨after, by rw [hc]; rfl⟩
  · exact ⟨cs, by rw [hc]; rfl⟩

/-- A line without backslashes is cut at an operator, where no quote is open. -/
theorem of_mem_bareFrom {cs : List Char} {quote : Option Char} {place skip here : Nat} {o : Operator}
    (hcs : '\\' ∉ cs) (h : (here, o) ∈ bareFrom place skip (standings quote cs)) :
    ∃ before after, cs = before ++ (o.symbol.toList ++ after) ∧ here = place + before.length ∧
      quoteAfter quote before = none := by
  induction cs generalizing quote place skip with
  | nil =>
      rw [standings, bareFrom] at h
      exact absurd h List.not_mem_nil
  | cons c cs ih =>
      obtain ⟨hc, hrest⟩ := not_or.1 (List.mem_cons.not.1 hcs)
      obtain ⟨standing, hclosed, hcons⟩ := standings_cons (Ne.symm hc) quote
      have hnext (n : Nat)
          (hmem : (here, o) ∈ bareFrom (place + 1) n (standings (quoteAfter quote [c]) cs)) :
          ∃ before after, c :: cs = before ++ (o.symbol.toList ++ after) ∧
            here = place + before.length ∧ quoteAfter quote before = none := by
        obtain ⟨before, after, hline, hplace, hquote⟩ := ih hrest hmem
        refine ⟨c :: before, after, by rw [hline]; rfl, ?_, by rw [quoteAfter_cons, hquote]⟩
        rw [List.length_cons]
        omega
      rw [hcons] at h
      cases skip with
      | succ skip => exact hnext skip h
      | zero =>
          by_cases hbare : standing = .bare
          · obtain ⟨hquote, hafter⟩ := hclosed hbare
            rw [hbare, bareFrom_bare] at h
            cases hbegun : begun? c (standings (quoteAfter quote [c]) cs).head? with
            | none =>
                rw [hbegun] at h
                exact hnext 0 h
            | some found =>
                rw [hbegun] at h
                rcases List.mem_cons.1 h with heq | hmem
                · cases heq
                  rw [hafter] at hbegun
                  obtain ⟨after, hline⟩ := eq_symbol_of_begun? hbegun
                  exact ⟨[], after, hline, rfl, hquote⟩
                · exact hnext _ hmem
          · rw [bareFrom_of_ne hbare] at h
            exact hnext 0 h

theorem afterEscapedQuote?_of_not_mem {quote : Option Char} {cs : List Char} (h : '\\' ∉ cs) :
    afterEscapedQuote? quote cs = none := by
  fun_induction afterEscapedQuote? quote cs <;> simp_all

end Places

section Operand

variable {before after : List Char}

/-- A word that is written in one piece: a pair of quotes and what is between them, or characters
without a blank among them that do not start with such a pair. -/
inductive InOnePiece : List Char → Prop
  | quoted {q : Char} {cs : List Char} (hq : q = '"' ∨ q = '\'') (hcs : q ∉ cs) :
    InOnePiece (q :: (cs ++ [q]))
  | plain {c : Char} {cs : List Char} (hblank : ∀ d ∈ c :: cs, isBlank d = false)
    (hopen : (c = '"' ∨ c = '\'') → c ∉ cs) : InOnePiece (c :: cs)

theorem InOnePiece.head {word : List Char} (h : InOnePiece word) :
    ∃ c cs, word = c :: cs ∧ isBlank c = false := by
  cases h with
  | quoted hq hcs => exact ⟨_, _, rfl, by rcases hq with rfl | rfl <;> decide⟩
  | plain hblank hopen => exact ⟨_, _, rfl, hblank _ List.mem_cons_self⟩

/-- A word in one piece is cut off as it is. -/
theorem InOnePiece.firstWord_eq {word rest : List Char} (h : InOnePiece word)
    (hclosed : rest ≠ [] → quoteAfter none word = none) (hrest : ∀ b ∈ rest.head?, isBlank b = true) :
    firstWord (word ++ rest) = word := by
  cases h with
  | @quoted q cs hq hcs =>
      rw [List.cons_append, List.append_assoc, List.singleton_append, firstWord_quoted hq hcs]
  | @plain c cs hblank hopen =>
      have hends : (c = '"' ∨ c = '\'') → c ∉ cs ++ rest := by
        intro hq hmem
        rcases List.mem_append.1 hmem with hmem | hmem
        · exact hopen hq hmem
        · have hquote := hclosed (List.ne_nil_of_mem hmem)
          rw [quoteAfter, if_pos hq.symm, quoteAfter_of_not_mem (hopen hq)] at hquote
          exact absurd hquote (by simp)
      rw [List.cons_append, firstWord_unquoted hends, ← List.cons_append,
        List.takeWhile_append_of_pos (fun d hd => by simp [hblank d hd])]
      cases rest with
      | nil => rw [List.takeWhile_nil, List.append_nil]
      | cons b rest =>
          rw [List.takeWhile_cons_of_neg (by simp [hrest b rfl]), List.append_nil]

/-- The words in one piece are the ones that are cut off whole. -/
theorem inOnePiece_iff {word : List Char} :
    InOnePiece word ↔ word ≠ [] ∧ firstWord word = word := by
  constructor
  · intro h
    obtain ⟨c, cs, hword, -⟩ := h.head
    have hfirst : firstWord (word ++ []) = word := h.firstWord_eq (by simp) (by simp)
    rw [List.append_nil] at hfirst
    exact ⟨by simp [hword], hfirst⟩
  · rintro ⟨hne, hfirst⟩
    obtain ⟨c, cs, rfl⟩ := List.exists_cons_of_ne_nil hne
    by_cases hpair : (c = '"' ∨ c = '\'') ∧ c ∈ cs
    · obtain ⟨hq, hmem⟩ := hpair
      obtain ⟨inner, rest, rfl, hinner⟩ := List.eq_append_cons_of_mem hmem
      rw [firstWord_quoted hq hinner] at hfirst
      obtain rfl : rest = [] := by simpa using hfirst.symm
      exact .quoted hq hinner
    · have hopen : (c = '"' ∨ c = '\'') → c ∉ cs := fun hq hmem => hpair ⟨hq, hmem⟩
      rw [firstWord_unquoted hopen] at hfirst
      refine .plain (fun d hd => ?_) hopen
      rw [← hfirst] at hd
      simpa using List.all_eq_true.1 List.all_takeWhile d hd

instance (word : List Char) : Decidable (InOnePiece word) := decidable_of_iff _ inOnePiece_iff.symm

variable (hafter : '\\' ∉ after) {word : List Char} {words : List (List Char)}
  (hwords : scan [] false none after = word :: words)

include hafter hwords

/-- A first word that is written in one piece is the operand. -/
theorem splitOperand_of_inOnePiece (h : InOnePiece (written after)) :
    splitOperand after = some (String.ofList word, unwritten after) := by
  obtain ⟨-, hword, -⟩ := of_scan_eq_cons hafter hwords
  obtain ⟨-, -, hclosed⟩ := standings_written hafter
  obtain ⟨c, cs, hhead, hc⟩ := h.head
  have hdrop : after.dropWhile isBlank = written after ++ unwritten after := by
    rw [dropWhile_written, hhead, List.cons_append, List.dropWhile_cons_of_neg (by simp [hc])]
  have hfirst : firstWord (written after ++ unwritten after) = written after := by
    refine h.firstWord_eq hclosed fun b hb => ?_
    obtain ⟨rest, hrest⟩ := List.head?_eq_some_iff.1 hb
    exact isBlank_of_unwritten hrest
  rw [splitOperand_of_dropWhile hdrop (by simp [hhead]) (by rw [hfirst]), hfirst, split,
    String.toList_ofList, hword]
  rfl

/-- What is left after the blanks before an operand is written down from the first word on, if this
starts with no blank. -/
theorem written_eq_of_dropWhile {c : Char} {cs : List Char}
    (hdrop : after.dropWhile isBlank = c :: cs)
    (hblank : ∀ d ∈ written after, isBlank d = false) :
    ∃ ws, written after = c :: ws ∧ ws ⊆ cs := by
  obtain ⟨hne, -⟩ := of_scan_eq_cons hafter hwords
  obtain ⟨w, ws, hwritten⟩ := List.exists_cons_of_ne_nil hne
  rw [hwritten] at hblank
  rw [dropWhile_written, hwritten, List.cons_append,
    List.dropWhile_cons_of_neg (by simp [hblank w List.mem_cons_self])] at hdrop
  obtain ⟨rfl, rfl⟩ := List.cons.inj hdrop
  exact ⟨ws, hwritten, List.subset_append_left ws _⟩

/-- Where no pair of quotes is cut off, the operand is the first word only if this is written without
blanks. -/
theorem inOnePiece_of_open {c : Char} {cs rest : List Char}
    (hdrop : after.dropWhile isBlank = c :: cs) (hopen : (c = '"' ∨ c = '\'') → c ∉ cs)
    (hfound : splitOperand after = some (String.ofList word, rest)) : InOnePiece (written after) := by
  have hc : isBlank c = false := eq_false_of_dropWhile hdrop
  obtain ⟨-, hfirst, -⟩ := of_scan_eq_cons hafter hwords
  obtain ⟨remainder, hline, -⟩ := firstWord_dropWhileEnd hc cs
  obtain ⟨more, hoperand⟩ := of_splitOperand hdrop (List.cons_ne_nil c cs) hline hfound
  rw [firstWord_unquoted hopen] at hoperand
  have hblank : ∀ d ∈ written after, isBlank d = false := by
    intro d hd
    by_contra hb
    have hmem := mem_of_mem_written hafter hfirst (by simpa using hb) hd
    have hcut := List.all_eq_true.1 List.all_takeWhile d (mem_of_mem_scan hoperand hmem)
    exact hb (by simpa using hcut)
  obtain ⟨ws, hwritten, hsubset⟩ := written_eq_of_dropWhile hafter hwords hdrop hblank
  rw [hwritten] at hblank ⊢
  exact .plain hblank fun hq hmem => hopen hq (hsubset hmem)

/-- Where a pair of quotes is cut off, nothing is lost only if the first word ends with it. -/
theorem inOnePiece_of_closed {q : Char} {rest : List Char} (hq : q = '"' ∨ q = '\'')
    (hword : q ∉ word) (hdrop : after.dropWhile isBlank = q :: (word ++ q :: rest))
    (hbefore : '\\' ∉ before) (hclosed : quoteAfter none before = none)
    (hcommand : scan [] false none (tidy isBlank (before ++ ' ' :: rest)) =
      scan [] false none before ++ words) : InOnePiece (written after) := by
  have hno : '\\' ∉ q :: (word ++ q :: rest) := fun hmem =>
    hafter ((List.dropWhile_sublist isBlank).subset (by rwa [hdrop]))
  simp only [List.mem_cons, List.mem_append, not_or] at hno
  obtain ⟨-, hinner, -, hrest⟩ := hno
  have hstandings : (standings none after).takeWhile isBlankAt ++
      (between q word ++ standings none rest) = standings none after := by
    rw [← standings_between hq hinner hword, ← hdrop, standings_dropWhile,
      List.takeWhile_append_dropWhile]
  have hline : '\\' ∉ before ++ ' ' :: rest := by simp [hbefore, hrest]
  have hsplit := scan_append_space hbefore hclosed rest
  -- What stands in words is counted with and without the operand.
  have hcount : (contents ((standings none after).takeWhile isBlankAt)).length +
      (contents (shed (standings none (before ++ ' ' :: rest)))).length = 0 := by
    have hwhole := congrArg (fun ws => ws.flatten.length) hwords
    have hleft := congrArg (fun ws => ws.flatten.length) hcommand
    have hboth := congrArg (fun ws => ws.flatten.length) hsplit
    have hshed := length_contents_tidy (standings none (before ++ ' ' :: rest))
    have hparts := congrArg (fun S => (contents S).length) hstandings
    simp only [List.flatten_append, List.flatten_cons, List.length_append, flatten_scan,
      standings_tidy hline, contents_append, contents_between] at hwhole hleft hboth hparts
    omega
  obtain ⟨hlead, hlost⟩ := Nat.add_eq_zero_iff.1 hcount
  rw [List.length_eq_zero_iff] at hlead hlost
  have hseparate : ∀ x ∈ (standings none after).takeWhile isBlankAt, separates x = true := fun x hx =>
    separates_of_isBlank ((List.takeWhile_sublist _).subset hx)
      (List.all_eq_true.1 List.all_takeWhile x hx) (stands_of_contents_eq_nil hlead x hx)
  have hothers : scan [] false none rest = words := by
    rwa [scan_tidy hline (separates_of_contents_eq_nil hlost), hsplit,
      List.append_cancel_left_eq] at hcommand
  rw [written_between hstandings.symm hseparate hwords hothers]
  exact .quoted hq hword

variable (hbefore : '\\' ∉ before) (hclosed : quoteAfter none before = none)

include hbefore hclosed

theorem inOnePiece_of_splitOperand {rest : List Char}
    (hfound : splitOperand after = some (String.ofList word, rest))
    (hcommand : scan [] false none (tidy isBlank (before ++ ' ' :: rest)) =
      scan [] false none before ++ words) : InOnePiece (written after) := by
  cases hdrop : after.dropWhile isBlank with
  | nil =>
      rw [splitOperand, hdrop] at hfound
      exact absurd hfound (by simp)
  | cons c cs =>
      by_cases hpair : (c = '"' ∨ c = '\'') ∧ c ∈ cs
      · obtain ⟨hq, hmem⟩ := hpair
        obtain ⟨inner, remainder, rfl, hinner⟩ := List.eq_append_cons_of_mem hmem
        have hno : '\\' ∉ inner := fun hmem =>
          hafter ((List.dropWhile_sublist isBlank).subset (by simp [hdrop, hmem]))
        rw [splitOperand_between hq hno hinner hdrop, Option.some_inj, Prod.mk.injEq,
          String.ofList_inj] at hfound
        obtain ⟨rfl, rfl⟩ := hfound
        exact inOnePiece_of_closed hafter hwords hq hinner hdrop hbefore hclosed hcommand
      · exact inOnePiece_of_open hafter hwords hdrop (fun hq hmem => hpair ⟨hq, hmem⟩) hfound

/-- The first word is the operand and all other words are left exactly if it is written in one piece
and no blank is trimmed away from the rest that does not separate words. -/
theorem splitOperand_iff : (∃ rest, splitOperand after = some (String.ofList word, rest) ∧
      scan [] false none (tidy isBlank (before ++ ' ' :: rest)) =
        scan [] false none before ++ words) ↔
    InOnePiece (written after) ∧
      ∀ x ∈ shed (standings none (before ++ ' ' :: unwritten after)), separates x = true := by
  have hunwritten : '\\' ∉ unwritten after := fun hmem =>
    hafter (by rw [← written_parts after]; simp [hmem])
  have hline : '\\' ∉ before ++ ' ' :: unwritten after := by simp [hbefore, hunwritten]
  have hsplit := scan_append_space hbefore hclosed (unwritten after)
  obtain ⟨-, -, hrest⟩ := of_scan_eq_cons hafter hwords
  rw [hrest] at hsplit
  rw [← scan_tidy_eq_iff hline, hsplit]
  constructor
  · rintro ⟨rest, hfound, hcommand⟩
    have hpiece := inOnePiece_of_splitOperand hafter hwords hbefore hclosed hfound hcommand
    rw [splitOperand_of_inOnePiece hafter hwords hpiece, Option.some_inj, Prod.mk.injEq] at hfound
    obtain ⟨-, rfl⟩ := hfound
    exact ⟨hpiece, hcommand⟩
  · rintro ⟨hpiece, hcommand⟩
    exact ⟨_, splitOperand_of_inOnePiece hafter hwords hpiece, hcommand⟩

end Operand

theorem Operator.effect_inj (o : Operator) {operand other : String} :
    o.effect operand = o.effect other ↔ operand = other := by
  cases o <;> simp [Operator.effect]

theorem split_ofList_eq_iff {cs : List Char} {ws : List String} :
    split (String.ofList cs) = ws ↔ scan [] false none cs = ws.map String.toList := by
  rw [split, String.toList_ofList]
  constructor
  · rintro rfl
    simp
  · intro h
    simp [h]

/-- In a line without backslashes that has one operator outside of quotes, with words after it, the
first of these words is the operand and all other words of the line are left to the command, exactly if
this word is written in one piece and no blank is trimmed away from the rest that does not separate
words. -/
theorem operand_is_first_word_iff {line : String} {place : Nat} {o : Operator} {target : String}
    {others : List String} (hline : '\\' ∉ line.toList) (ho : o ≠ .lines)
    (hone : bareOperators line.toList = [(place, o)])
    (hwords : split (String.ofList (line.toList.drop (place + o.length))) = target :: others) :
    (∃ command, parse line = .ok ⟨command, o.effect target⟩ ∧
        split command = split (String.ofList (line.toList.take place)) ++ others) ↔
      InOnePiece (written (line.toList.drop (place + o.length))) ∧
        ∀ x ∈ shed (standings none (line.toList.take place ++
          ' ' :: unwritten (line.toList.drop (place + o.length)))), separates x = true := by
  obtain ⟨before, after, hparts, hplace, hclosed⟩ : ∃ before after,
      line.toList = before ++ (o.symbol.toList ++ after) ∧ place = 0 + before.length ∧
        quoteAfter none before = none :=
    of_mem_bareFrom hline (by rw [← bareOperators, hone]; exact List.mem_singleton_self _)
  obtain rfl : place = before.length := by omega
  have hsingle := operators_eq_bareOperators (afterEscapedQuote?_of_not_mem hline)
  rw [hone, hparts] at hsingle
  have htake : line.toList.take before.length = before := by rw [hparts, List.take_left]
  have hdrop : line.toList.drop (before.length + o.length) = after := by
    rw [hparts, o.length_eq, List.drop_length_add_append, List.drop_left]
  have hparse : ∀ r, parse line = .ok r ↔ ∃ found, splitOperand after = some found ∧
      r = ⟨String.ofList (tidy isBlank (before ++ ' ' :: found.2)), o.effect found.1⟩ := by
    rw [← line.ofList_toList, hparts]
    exact parse_single ho hsingle
  rw [hparts] at hline
  simp only [List.mem_append, not_or] at hline
  rw [hdrop, split_ofList_eq_iff, List.map_cons] at hwords
  rw [htake, hdrop, ← splitOperand_iff hline.2.2 hwords hline.1 hclosed, String.ofList_toList]
  have hbefore : scan [] false none before = (split (String.ofList before)).map String.toList :=
    split_ofList_eq_iff.1 rfl
  rw [hbefore, ← List.map_append]
  constructor
  · rintro ⟨command, hok, hcommand⟩
    obtain ⟨⟨operand, rest⟩, hfound, heq⟩ := (hparse _).1 hok
    rw [Redirection.mk.injEq, o.effect_inj] at heq
    obtain ⟨rfl, rfl⟩ := heq
    exact ⟨rest, hfound, split_ofList_eq_iff.1 hcommand⟩
  · rintro ⟨rest, hfound, hcommand⟩
    exact ⟨_, (hparse _).2 ⟨_, hfound, rfl⟩, split_ofList_eq_iff.2 hcommand⟩

/-- A file name in quotes is the operand, and the words on both sides are left. -/
theorem quoted_operand_is_read :
    '\\' ∉ "echo hi there >> \"my file\" again".toList ∧
      bareOperators "echo hi there >> \"my file\" again".toList = [(14, .append)] ∧
      split " \"my file\" again" = ["my file", "again"] ∧
      ∃ command, parse "echo hi there >> \"my file\" again" =
          .ok ⟨command, .toFile ⟨"my file", true⟩⟩ ∧
        split command = ["echo", "hi", "there"] ++ ["again"] := by
  have hline : '\\' ∉ "echo hi there >> \"my file\" again".toList := by decide
  have hone : bareOperators "echo hi there >> \"my file\" again".toList = [(14, .append)] := by
    decide +kernel
  have hafter : "echo hi there >> \"my file\" again".toList.drop (14 + Operator.append.length) =
      " \"my file\" again".toList := by decide +kernel
  have hbefore : split (String.ofList ("echo hi there >> \"my file\" again".toList.take 14)) =
      ["echo", "hi", "there"] := by decide +kernel
  have hwords : split " \"my file\" again" = ["my file", "again"] := by decide +kernel
  have hread := (operand_is_first_word_iff hline (by decide) hone
    (by rw [hafter, String.ofList_toList, hwords])).2 ⟨by decide +kernel, by decide +kernel⟩
  rw [hbefore] at hread
  exact ⟨hline, hone, hwords, hread⟩

/-- Of a first word that goes on after a pair of quotes only what is between them is taken for the
operand, and the rest of the word is left to the command. -/
theorem start_in_quotes_is_cut_off :
    '\\' ∉ "echo x > \"a\"b".toList ∧
      bareOperators "echo x > \"a\"b".toList = [(7, .overwrite)] ∧
      split "echo x " = ["echo", "x"] ∧ split " \"a\"b" = ["ab"] ∧
      (parse "echo x > \"a\"b").toOption = some ⟨"echo x  b", .toFile ⟨"a", false⟩⟩ ∧
      split "echo x  b" = ["echo", "x", "b"] := by
  decide +kernel

end PracticeShell.Redirection
