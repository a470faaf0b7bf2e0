import PracticeShell.Proofs.Redirection.Targets
import PracticeShell.Proofs.Text.Trimming

/-!
# Lines that open a text

A line such as `cat << END > notes` opens a text that ends with a line that holds the marker. If the
command, the marker and the file are plain words, nothing is expanded in the line (`stays_opening`), and
all three are read off it (`parse_opening`).
-/

namespace PracticeShell.Redirection

open Words
open Text.Blank (isBlank trim runs)

/-- Whether a character is no blank and does not quote, escape or redirect. -/
def IsVerbatim (c : Char) : Prop := isBlank c = false ∧ c ∉ ['"', '\\', '\'', '<', '>']

/-- Whether a character is no blank and does not quote, escape, expand or redirect. -/
def IsBland (c : Char) : Prop := isBlank c = false ∧ c ∉ ['"', '\\', '\'', '$', '<', '>']

/-- Whether a text is a word that is read as it is written. -/
def IsPlain (word : String) : Prop := word ≠ "" ∧ ∀ c ∈ word.toList, IsBland c

/-- Whether a text is a marker: a word of letters, numbers and underscores. -/
def IsMarker (marker : String) : Prop :=
  marker ≠ "" ∧ ∀ c ∈ marker.toList, Text.Letter.isWord c = true

instance (c : Char) : Decidable (IsVerbatim c) := inferInstanceAs (Decidable (_ ∧ _))

instance (c : Char) : Decidable (IsBland c) := inferInstanceAs (Decidable (_ ∧ _))

-- The characters of the word are looked at one by one, and not all characters there are.
instance (word : String) : Decidable (IsPlain word) :=
  have : Decidable (∀ c ∈ word.toList, IsBland c) := List.decidableBAll _ word.toList
  inferInstanceAs (Decidable (_ ∧ _))

instance (marker : String) : Decidable (IsMarker marker) :=
  have : Decidable (∀ c ∈ marker.toList, Text.Letter.isWord c = true) :=
    List.decidableBAll _ marker.toList
  inferInstanceAs (Decidable (_ ∧ _))

theorem isBland_of_isWord {c : Char} (h : Text.Letter.isWord c = true) : IsBland c := by
  refine ⟨Text.Blank.isBlank_of_isWord h, fun hmem => ?_⟩
  simp only [List.mem_cons, List.not_mem_nil, or_false] at hmem
  rcases hmem with rfl | rfl | rfl | rfl | rfl | rfl <;> exact absurd h (by decide)

theorem IsBland.ne_lineEnd {c : Char} (h : IsBland c) : c ≠ '\r' ∧ c ≠ '\n' := by
  constructor <;> rintro rfl <;> exact absurd h.1 (by decide)

theorem IsBland.isVerbatim {c : Char} (h : IsBland c) : IsVerbatim c := by
  refine ⟨h.1, fun hmem => h.2 ?_⟩
  simp only [List.mem_cons, List.not_mem_nil, or_false] at hmem ⊢
  tauto

theorem IsMarker.isPlain {marker : String} (h : IsMarker marker) : IsPlain marker :=
  ⟨h.1, fun c hc => isBland_of_isWord (h.2 c hc)⟩

section Verbatim

variable {cs rest : List Char} (h : ∀ c ∈ cs, IsVerbatim c)

include h

theorem operatorsFrom_verbatim (place : Nat) :
    operatorsFrom place 0 none (cs ++ rest) = operatorsFrom (place + cs.length) 0 none rest := by
  induction cs generalizing place with
  | nil => rfl
  | cons c cs ih =>
      obtain ⟨hc, hcs⟩ := List.forall_mem_cons.1 h
      have hplain := hc.2
      simp only [List.mem_cons, List.not_mem_nil, or_false, not_or] at hplain
      have hnext := ih hcs (place + 1)
      rw [Nat.add_assoc, Nat.add_comm 1] at hnext
      simpa [operatorsFrom, hplain] using hnext

/-- A character that stands for itself is taken into the word that is being read, or begins one. -/
theorem scan_verbatim (current : List Char) {started : Bool} (hstarted : started = true ∨ cs ≠ []) :
    scan current started none (cs ++ rest) = scan (cs.reverse ++ current) true none rest := by
  induction cs generalizing current started with
  | nil =>
      obtain rfl := hstarted.resolve_right (by simp)
      rfl
  | cons c cs ih =>
      obtain ⟨⟨hblank, hplain⟩, hcs⟩ := List.forall_mem_cons.1 h
      have hspace : ¬ (c = ' ' ∨ c = '\t') := by
        rintro (rfl | rfl) <;> exact absurd hblank (by decide)
      simp only [List.mem_cons, List.not_mem_nil, or_false, not_or] at hplain
      have hnext := ih hcs (c :: current) (.inl rfl)
      rw [List.cons_append, scan.eq_def]
      simp only [hplain, hspace, or_self, if_false, hnext, List.reverse_cons, List.append_assoc,
        List.singleton_append]

end Verbatim

section Bland

variable {cs rest : List Char} (h : ∀ c ∈ cs, IsBland c)

include h

theorem stays_bland {env : Environment} (hrest : env.Stays rest) : env.Stays (cs ++ rest) := by
  induction cs with
  | nil => exact hrest
  | cons c cs ih =>
      obtain ⟨hc, hcs⟩ := List.forall_mem_cons.1 h
      exact (ih hcs).cons fun hmem => hc.2 (List.mem_append_left ['<', '>'] hmem)

theorem operatorsFrom_bland (place : Nat) :
    operatorsFrom place 0 none (cs ++ rest) = operatorsFrom (place + cs.length) 0 none rest :=
  operatorsFrom_verbatim (fun c hc => (h c hc).isVerbatim) place

theorem scan_bland (current : List Char) : scan current true none (cs ++ rest) =
    scan (cs.reverse ++ current) true none rest :=
  scan_verbatim (fun c hc => (h c hc).isVerbatim) current (.inl rfl)

theorem runs_bland (current : List Char) : runs current (cs ++ rest) =
    runs (cs.reverse ++ current) rest := by
  induction cs generalizing current with
  | nil => rfl
  | cons c cs ih =>
      obtain ⟨hc, hcs⟩ := List.forall_mem_cons.1 h
      rw [List.cons_append, runs, hc.1, if_neg (by simp), ih hcs, List.reverse_cons,
        List.append_assoc, List.singleton_append]

end Bland

theorem IsPlain.exists_cons {word : String} (h : IsPlain word) :
    ∃ c cs, word.toList = c :: cs ∧ IsBland c := by
  cases hword : word.toList with
  | nil => exact absurd (String.toList_eq_nil_iff.1 hword) h.1
  | cons c cs => exact ⟨c, cs, rfl, h.2 c (by simp [hword])⟩

/-- A plain word holds no operators. -/
theorem operatorsFrom_plain {cs : List Char} (h : ∀ c ∈ cs, IsBland c) (place : Nat) :
    operatorsFrom place 0 none cs = [] := by
  rw [← List.append_nil cs, operatorsFrom_bland h]
  rfl

/-- A plain word is one word. -/
theorem IsPlain.split_eq {word : String} (h : IsPlain word) : split word = [word] := by
  have hscan : scan [] false none (word.toList ++ []) = [word.toList] := by
    rw [scan_verbatim (fun c hc => (h.2 c hc).isVerbatim) []
      (.inr (mt String.toList_eq_nil_iff.1 h.1)), scan, if_pos rfl]
    simp
  rw [List.append_nil] at hscan
  rw [split, hscan, List.map_singleton, String.ofList_toList]

/-- A plain word after a space is the operand. -/
theorem IsPlain.splitOperand_eq {word : String} (h : IsPlain word) :
    splitOperand (' ' :: word.toList) = some (word, []) := by
  obtain ⟨c, cs, hword, hblank, hplain⟩ := h.exists_cons
  simp only [List.mem_cons, List.not_mem_nil, or_false, not_or] at hplain
  have hfirst : firstWord word.toList = word.toList := by
    have hall : ∀ d ∈ word.toList, (!isBlank d) = true := fun d hd => by simp [(h.2 d hd).1]
    rw [hword, firstWord_unquoted (by simp [hplain]), ← hword, List.takeWhile_eq_self_iff.2 hall]
  have hdrop : (' ' :: word.toList).dropWhile isBlank = word.toList := by
    rw [List.dropWhile_cons_of_pos (by decide), hword, List.dropWhile_cons_of_neg (by simp [hblank])]
  rw [splitOperand_of_dropWhile hdrop (by simp [hword]) (by rw [hfirst, List.append_nil]), hfirst,
    String.ofList_toList, h.split_eq]
  rfl

/-- Spaces after a plain word are no words. -/
theorem IsPlain.words_eq {word : String} (h : IsPlain word) (spaces : Nat) :
    Text.Blank.words (String.ofList (word.toList ++ List.replicate spaces ' ')) = [word] := by
  obtain ⟨c, cs, hword, -⟩ := h.exists_cons
  have hend : ∀ n, runs [] (List.replicate n ' ') = [] := fun n => by
    induction n with
    | zero => rfl
    | succ n ih => exact ih
  have hruns : runs word.toList.reverse (List.replicate spaces ' ') = [word.toList] := by
    cases spaces with
    | zero => simp [runs, hword]
    | succ n =>
        have hspace : isBlank ' ' = true := by decide
        rw [List.replicate_succ, runs, hspace, if_pos rfl, hend]
        simp [hword]
  rw [Text.Blank.words, String.toList_ofList, runs_bland h.2, List.append_nil, hruns,
    List.map_singleton, String.ofList_toList]

/-- A text without the quote that it starts with, if it starts with one. -/
def withoutQuote : List Char → List Char
  | [] => []
  | c :: rest => if c = '\'' ∨ c = '"' then rest else c :: rest

/-- The marker is the word after the blanks and perhaps a quote. -/
theorem splitMarker_eq (cs : List Char) :
    splitMarker cs =
      if (withoutQuote (cs.dropWhile isBlank)).takeWhile Text.Letter.isWord = [] then none
      else some
        (String.ofList ((withoutQuote (cs.dropWhile isBlank)).takeWhile Text.Letter.isWord),
          withoutQuote ((withoutQuote (cs.dropWhile isBlank)).dropWhile Text.Letter.isWord)) := by
  have hword : ∀ ds : List Char, (ds.takeWhile Text.Letter.isWord).isEmpty = true ↔
      ds.takeWhile Text.Letter.isWord = [] := fun ds => List.isEmpty_iff
  have hquote : ∀ c : Char, (c == '\'' || c == '"') = true ↔ c = '\'' ∨ c = '"' := by simp
  unfold splitMarker
  dsimp only
  cases cs.dropWhile isBlank with
  | nil => simp [withoutQuote]
  | cons c rest =>
      simp only [withoutQuote, hquote, hword]
      cases (if c = '\'' ∨ c = '"' then rest else c :: rest).dropWhile Text.Letter.isWord <;> simp

/-- A marker between spaces is read. -/
theorem IsMarker.splitMarker_eq {marker : String} (h : IsMarker marker) (rest : List Char) :
    splitMarker (' ' :: (marker.toList ++ ' ' :: rest)) = some (marker, ' ' :: rest) := by
  obtain ⟨c, cs, hword, hblank, hplain⟩ := h.isPlain.exists_cons
  simp only [List.mem_cons, List.not_mem_nil, or_false, not_or] at hplain
  have hstart : withoutQuote ((' ' :: (marker.toList ++ ' ' :: rest)).dropWhile isBlank) =
      marker.toList ++ ' ' :: rest := by
    rw [List.dropWhile_cons_of_pos (by decide), hword, List.cons_append,
      List.dropWhile_cons_of_neg (by simp [hblank]), withoutQuote, if_neg (by simp [hplain])]
  have hspace : Text.Letter.isWord ' ' = false := by decide
  have htake : (marker.toList ++ ' ' :: rest).takeWhile Text.Letter.isWord = marker.toList := by
    rw [List.takeWhile_append_of_pos h.2, List.takeWhile_cons_of_neg (by simp [hspace]),
      List.append_nil]
  have hafter : (marker.toList ++ ' ' :: rest).dropWhile Text.Letter.isWord = ' ' :: rest := by
    rw [List.dropWhile_append_of_pos h.2, List.dropWhile_cons_of_neg (by simp [hspace])]
  rw [Redirection.splitMarker_eq, hstart, htake, hafter, if_neg (by simp [hword]),
    String.ofList_toList]
  rfl

/-- What is read at the first operator that takes lines. -/
theorem parse_of_parseLines {text : String} {o : Nat × Operator} {r : Redirection}
    (hfirst : ((operators (trim text).toList).filter (·.2 == .lines)).head? = some o)
    (hread : parseLines (trim text).toList o.1 = some r) : parse text = .ok r := by
  unfold parse
  dsimp only
  simp only [hfirst, hread]

/-- The operator before the file that output goes to. -/
def Target.operator (t : Target) : Operator := if t.append then .append else .overwrite

/-- The line that opens a text for a command whose output goes to a file. -/
def opening (command marker : String) (t : Target) : String :=
  command ++ " << " ++ marker ++ " " ++ t.operator.symbol ++ " " ++ t.operand

section Opening

variable {command marker : String} {t : Target} (hcommand : IsPlain command)
  (hmarker : IsMarker marker) (ht : IsPlain t.operand)

theorem toList_opening (command marker : String) (t : Target) :
    (opening command marker t).toList = command.toList ++ ' ' :: (Operator.lines.symbol.toList ++
      ' ' :: (marker.toList ++ ' ' :: (t.operator.symbol.toList ++ ' ' :: t.operand.toList))) := by
  have hlines : " << ".toList = ' ' :: (Operator.lines.symbol.toList ++ [' ']) := by decide
  simp [opening, hlines]

include hcommand hmarker ht

theorem stays_opening (env : Environment) : env.Stays (opening command marker t).toList := by
  have hend : env.Stays t.operand.toList := by
    rw [← List.append_nil t.operand.toList]
    exact stays_bland ht.2 Environment.stays_nil
  rw [toList_opening]
  refine stays_bland hcommand.2 (.cons (Operator.stays _ (.cons ?_ (by decide))) (by decide))
  refine stays_bland hmarker.isPlain.2 (.cons (Operator.stays _ (.cons hend ?_)) ?_) <;> decide

omit hcommand hmarker in
theorem getLast?_opening :
    (opening command marker t).toList.getLast? = t.operand.toList.getLast? := by
  obtain ⟨d, ds, hoperand, -⟩ := ht.exists_cons
  rw [toList_opening, hoperand]
  simp [List.getLast?_append, List.getLast?_cons]

omit hmarker in
theorem trim_opening : trim (opening command marker t) = opening command marker t := by
  obtain ⟨c, cs, hword, hfirst, -⟩ := hcommand.exists_cons
  rw [← String.ofList_toList (s := opening command marker t)]
  refine Text.Blank.trim_of_ends ?_ ?_
  · rw [toList_opening, hword]
    simpa using hfirst
  · rw [getLast?_opening ht]
    exact fun d hd => (ht.2 d (List.mem_of_getLast? hd)).1

theorem operators_opening : operators (opening command marker t).toList =
    [(command.toList.length + 1, .lines),
      (command.toList.length + 1 + 2 + 1 + marker.toList.length + 1, t.operator)] := by
  rw [operators, toList_opening, operatorsFrom_bland hcommand.2, operatorsFrom_space,
    operatorsFrom_symbol, operatorsFrom_bland hmarker.isPlain.2, operatorsFrom_space,
    operatorsFrom_symbol, operatorsFrom_plain ht.2, Nat.zero_add]
  rfl

/-- What is left of the line without its marker. -/
theorem parseLines_opening : parseLines (opening command marker t).toList
    (command.toList.length + 1) = some ⟨command, .lines marker (some t)⟩ := by
  have hdrop : (opening command marker t).toList.drop (command.toList.length + 1 + 2) =
      ' ' :: (marker.toList ++ ' ' :: (t.operator.symbol.toList ++ ' ' :: t.operand.toList)) := by
    rw [toList_opening, Nat.add_assoc, List.drop_length_add_append]
    rfl
  have htake : (opening command marker t).toList.take (command.toList.length + 1) =
      command.toList ++ [' '] := by
    rw [toList_opening, List.take_length_add_append]
    rfl
  have hrest : command.toList ++ [' '] ++ ' ' :: ' ' :: (t.operator.symbol.toList ++
      ' ' :: t.operand.toList) = (command.toList ++ List.replicate 3 ' ') ++
        (t.operator.symbol.toList ++ ' ' :: t.operand.toList) := by simp
  have hoperators : operators ((command.toList ++ List.replicate 3 ' ') ++
      (t.operator.symbol.toList ++ ' ' :: t.operand.toList)) =
        [(command.toList.length + 3, t.operator)] := by
    rw [operators, List.append_assoc, operatorsFrom_bland hcommand.2, Nat.zero_add]
    simp only [List.replicate_succ, List.replicate_zero, List.cons_append, List.nil_append,
      operatorsFrom_space, operatorsFrom_symbol]
    rw [operatorsFrom_plain ht.2]
  have hlast : ∀ isOutput : Nat × Operator → Bool,
      isOutput (command.toList.length + 3, t.operator) = true →
        ([(command.toList.length + 3, t.operator)].filter isOutput).getLast? =
          some (command.toList.length + 3, t.operator) := by
    intro isOutput houtput
    simp [houtput]
  have houtput : (t.operator == .overwrite || t.operator == .append) = true := by
    cases t with | mk operand append => cases append <;> rfl
  have hplace : command.toList.length + 3 = (command.toList ++ List.replicate 3 ' ').length := by
    simp
  have hsymbol : t.operator.length = t.operator.symbol.toList.length := by
    cases t.operator <;> rfl
  have happend : (t.operator == .append) = t.append := by
    cases t with | mk operand append => cases append <;> rfl
  unfold parseLines
  simp only [hdrop, hmarker.splitMarker_eq, htake, hrest, hoperators, Option.bind_eq_bind,
    Option.bind_some]
  rw [hlast _ houtput]
  dsimp only
  rw [hplace, List.take_left, hsymbol, List.drop_length_add_append, List.drop_left,
    ht.splitOperand_eq]
  have hspaces : command.toList ++ List.replicate 3 ' ' ++ [' '] =
      command.toList ++ List.replicate 4 ' ' := by simp
  have hwords : " ".intercalate [command] = command := rfl
  simp only [Option.bind_some, hspaces, hcommand.words_eq, hwords, if_neg hcommand.1, happend]
  rfl

/-- The command, the marker and the file are read off the line. -/
theorem parse_opening : parse (opening command marker t) =
    .ok ⟨command, .lines marker (some t)⟩ := by
  have htrim : trim (opening command marker t) = opening command marker t :=
    trim_opening hcommand ht
  refine parse_of_parseLines (o := (command.toList.length + 1, .lines)) ?_ ?_
  · rw [htrim, operators_opening hcommand hmarker ht]
    cases t with | mk operand append => cases append <;> rfl
  · rw [htrim, parseLines_opening hcommand hmarker ht]

end Opening

end PracticeShell.Redirection
