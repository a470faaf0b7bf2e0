import Mathlib.Tactic.SplitIfs
import PracticeShell.Environment
import PracticeShell.Redirection

/-!
# Lines of quoted words

A line whose words all stand between apostrophes is read as it was meant: no variable is expanded in
it, its redirection is the one operator that stands between the words, and its words are the ones that
were quoted (`quoted_words_are_read`).

Between double quotes a backslash is put before what would not stand for itself (`Words.escape`). A line
of such words is cut into these words, whatever they hold, and no variable is expanded in it
(`double_quoted_words_are_read`).
-/

namespace PracticeShell

namespace Text.Blank

theorem trim_space_append (cs : List Char) :
    trim (String.ofList (' ' :: cs)) = trim (String.ofList cs) := by
  have hspace : isBlank ' ' = true := by decide
  rw [trim, trim, String.toList_ofList, String.toList_ofList, List.dropWhile_cons_of_pos hspace]

theorem trim_append_space (cs : List Char) :
    trim (String.ofList (cs ++ [' '])) = trim (String.ofList cs) := by
  have hspace : isBlank ' ' = true := by decide
  have hend (l : List Char) : dropWhileEnd isBlank (l ++ [' ']) = dropWhileEnd isBlank l := by
    rw [dropWhileEnd, dropWhileEnd, List.reverse_concat, List.dropWhile_cons_of_pos hspace]
  rw [trim, trim, String.toList_ofList, String.toList_ofList, List.dropWhile_append]
  split_ifs with h
  · rw [List.isEmpty_iff.1 h, List.dropWhile_cons_of_pos hspace]
    rfl
  · rw [hend]

theorem trim_of_ends {cs : List Char} (hhead : ∀ c ∈ cs.head?, isBlank c = false)
    (hlast : ∀ c ∈ cs.getLast?, isBlank c = false) :
    trim (String.ofList cs) = String.ofList cs := by
  have hid (l : List Char) (h : ∀ c ∈ l.head?, isBlank c = false) : l.dropWhile isBlank = l := by
    cases l with
    | nil => rfl
    | cons c l => exact List.dropWhile_cons_of_neg (by simpa using h c rfl)
  rw [trim, String.toList_ofList, hid cs hhead, dropWhileEnd, hid cs.reverse (by simpa using hlast),
    List.reverse_reverse]

end Text.Blank

namespace Words

/-- A word between apostrophes. -/
def quoted (word : String) : String := "'" ++ word ++ "'"

theorem toList_quoted (word : String) : (quoted word).toList = '\'' :: (word.toList ++ ['\'']) := by
  simp [quoted]

/-- Quoted words, each with a space after it. -/
def led (words : List String) : List Char := words.flatMap fun w => (quoted w).toList ++ [' ']

/-- Quoted words, each with a space before it. -/
def trailed (words : List String) : List Char := words.flatMap fun w => ' ' :: (quoted w).toList

theorem led_cons (w : String) (ws : List String) :
    led (w :: ws) = (quoted w).toList ++ ' ' :: led ws := by
  simp [led]

theorem trailed_cons (w : String) (ws : List String) :
    trailed (w :: ws) = ' ' :: ((quoted w).toList ++ trailed ws) := by
  simp [trailed]

/-- The spaces after the words are the spaces before the words, but for the first and the last. -/
theorem space_led (ws : List String) : ' ' :: led ws = trailed ws ++ [' '] := by
  induction ws with
  | nil => rfl
  | cons w ws ih => rw [led_cons, trailed_cons, ih]; simp

section Scan

variable {word : String} (h : '\'' ∉ word.toList) {current : List Char} {started : Bool}
  {rest : List Char}

/-- Up to its closing apostrophe every character of a quoted word is taken as it stands. -/
theorem scan_single {cs : List Char} (h : '\'' ∉ cs) :
    scan current true (some '\'') (cs ++ '\'' :: rest) =
      scan (cs.reverse ++ current) true none rest := by
  induction cs generalizing current with
  | nil =>
      rw [List.nil_append, scan.eq_def]
      simp
  | cons c cs ih =>
      rw [List.mem_cons, not_or] at h
      rw [List.cons_append, scan.eq_def]
      simp [Ne.symm h.1, ih h.2]

include h in
theorem scan_quoted :
    scan [] started none ((quoted word).toList ++ rest) =
      scan word.toList.reverse true none rest := by
  rw [toList_quoted, List.cons_append, scan.eq_def]
  simp [scan_single h]

end Scan

theorem scan_space (current : List Char) (started : Bool) (rest : List Char) :
    scan current started none (' ' :: rest) =
      (if started then [current.reverse] else []) ++ scan [] false none rest := by
  rw [scan.eq_def]
  cases started <;> simp

section Lists

variable {words : List String} (h : ∀ w ∈ words, '\'' ∉ w.toList)

include h

theorem scan_trailed (current : List Char) (started : Bool) :
    scan current started none (trailed words) =
      (if started then [current.reverse] else []) ++ words.map String.toList := by
  induction words generalizing current started with
  | nil => simp [trailed, scan]
  | cons w ws ih =>
      rw [List.forall_mem_cons] at h
      rw [trailed_cons, scan_space, scan_quoted h.1, ih h.2]
      simp

theorem scan_led (rest : List Char) :
    scan [] false none (led words ++ rest) = words.map String.toList ++ scan [] false none rest := by
  induction words with
  | nil => rfl
  | cons w ws ih =>
      rw [List.forall_mem_cons] at h
      rw [led_cons, List.append_assoc, scan_quoted h.1, List.cons_append, scan_space, ih h.2]
      simp

end Lists

theorem split_quoted_trailed {w : String} {ws : List String}
    (h : ∀ v ∈ w :: ws, '\'' ∉ v.toList) :
    split (String.ofList ((quoted w).toList ++ trailed ws)) = w :: ws := by
  rw [List.forall_mem_cons] at h
  rw [split, String.toList_ofList, scan_quoted h.1, scan_trailed h.2]
  simp

end Words

namespace Environment

variable {env : Environment}

theorem substitute_of_not_mem {cs : List Char} (h : '$' ∉ cs) : env.substitute 0 cs = cs := by
  induction cs with
  | nil => rfl
  | cons c cs ih =>
      rw [List.mem_cons, not_or] at h
      rw [substitute, if_neg (Ne.symm h.1), ih h.2]

/-- Whether a text stays as it is when it is expanded outside of quotes. -/
def Stays (env : Environment) (cs : List Char) : Prop :=
  ∀ part, '$' ∉ part → env.expandFrom (.open part false) cs = part.reverse ++ cs

theorem stays_nil : env.Stays [] := by
  intro part h
  rw [expandFrom, substitute_of_not_mem (by simpa using h), List.append_nil]

theorem Stays.cons {c : Char} {cs : List Char} (h : env.Stays cs)
    (hc : c ∉ ['"', '\\', '\'', '$']) : env.Stays (c :: cs) := by
  intro part hpart
  simp only [List.mem_cons, List.not_mem_nil, or_false, not_or] at hc
  rw [expandFrom.eq_def]
  simp [hc, h (c :: part) (by simp [hpart, Ne.symm hc.2.2.2])]

theorem expandFrom_single {cs : List Char} (h : '\'' ∉ cs) (rest : List Char) :
    env.expandFrom .single (cs ++ '\'' :: rest) =
      cs ++ '\'' :: env.expandFrom (.open [] false) rest := by
  induction cs with
  | nil => simp [expandFrom]
  | cons c cs ih =>
      rw [List.mem_cons, not_or] at h
      rw [List.cons_append, expandFrom, if_neg (Ne.symm h.1), ih h.2, List.cons_append]

theorem Stays.quoted {word : String} {rest : List Char} (h : env.Stays rest)
    (hword : '\'' ∉ word.toList) : env.Stays ((Words.quoted word).toList ++ rest) := by
  intro part hpart
  rw [Words.toList_quoted, List.cons_append, expandFrom.eq_def]
  have hreverse : '$' ∉ part.reverse := by simpa using hpart
  simp [substitute_of_not_mem hreverse, expandFrom_single hword, h [] (by simp)]

theorem stays_trailed {words : List String} (h : ∀ w ∈ words, '\'' ∉ w.toList) :
    env.Stays (Words.trailed words) := by
  induction words with
  | nil => exact stays_nil
  | cons w ws ih =>
      rw [List.forall_mem_cons] at h
      rw [Words.trailed_cons]
      exact ((ih h.2).quoted h.1).cons (by decide)

theorem Stays.led {words : List String} {rest : List Char} (h : env.Stays rest)
    (hwords : ∀ w ∈ words, '\'' ∉ w.toList) : env.Stays (Words.led words ++ rest) := by
  induction words with
  | nil => exact h
  | cons w ws ih =>
      rw [List.forall_mem_cons] at hwords
      rw [Words.led_cons, List.append_assoc]
      exact ((ih hwords.2).cons (by decide)).quoted hwords.1

theorem expand_of_stays {text : String} (h : env.Stays text.toList) : env.expand text = text := by
  rw [expand, h [] (by simp)]
  exact text.ofList_toList

end Environment

namespace Redirection

open Words

/-- How an operator is written. -/
def Operator.symbol : Operator → String
  | overwrite => ">"
  | append => ">>"
  | input => "<"
  | lines => "<<"

/-- What an operator does with its operand. -/
def Operator.effect : Operator → String → Effect
  | overwrite => fun operand => .toFile ⟨operand, false⟩
  | append => fun operand => .toFile ⟨operand, true⟩
  | input => .fromFile
  | lines => fun marker => .lines marker none

theorem Operator.length_eq (o : Operator) : o.length = o.symbol.toList.length := by
  cases o <;> rfl

theorem Operator.stays {env : Environment} {rest : List Char} (o : Operator) (h : env.Stays rest) :
    env.Stays (o.symbol.toList ++ rest) := by
  cases o with
  | overwrite | input => exact h.cons (by decide)
  | append | lines => exact (h.cons (by decide)).cons (by decide)

/-- The line of quoted words that may have an operator with a quoted operand between them. -/
def quotedLine (before : List String) (middle : Option (Operator × String)) (after : List String) :
    String :=
  " ".intercalate (before.map quoted ++
    (middle.elim [] fun (o, operand) => [o.symbol, quoted operand]) ++ after.map quoted)

section Operators

variable {place : Nat} {rest : List Char}

theorem operatorsFrom_closed {q : Char} {cs : List Char} (h : q ∉ cs) :
    operatorsFrom place 0 (some q) (cs ++ q :: rest) =
      operatorsFrom (place + cs.length + 1) 0 none rest := by
  induction cs generalizing place with
  | nil => simp [operatorsFrom]
  | cons c cs ih =>
      rw [List.mem_cons, not_or] at h
      rw [List.cons_append, operatorsFrom, if_neg (Ne.symm h.1), ih h.2, List.length_cons]
      congr 1
      omega

theorem operatorsFrom_quoted_word {word : String} (h : '\'' ∉ word.toList) :
    operatorsFrom place 0 none ((quoted word).toList ++ rest) =
      operatorsFrom (place + (quoted word).toList.length) 0 none rest := by
  rw [toList_quoted, List.cons_append, operatorsFrom, if_pos (.inl rfl), List.append_assoc,
    List.singleton_append, operatorsFrom_closed h]
  congr 1
  simp
  omega

theorem operatorsFrom_space : operatorsFrom place 0 none (' ' :: rest) =
    operatorsFrom (place + 1) 0 none rest := by
  simp [operatorsFrom]

theorem operatorsFrom_symbol (o : Operator) :
    operatorsFrom place 0 none (o.symbol.toList ++ ' ' :: rest) =
      (place, o) :: operatorsFrom (place + o.length + 1) 0 none rest := by
  cases o <;> simp [operatorsFrom, Operator.symbol, Operator.length]

variable {words : List String} (h : ∀ w ∈ words, '\'' ∉ w.toList)

include h

theorem operatorsFrom_trailed : operatorsFrom place 0 none (trailed words) = [] := by
  induction words generalizing place with
  | nil => rfl
  | cons w ws ih =>
      rw [List.forall_mem_cons] at h
      rw [trailed_cons, operatorsFrom_space, operatorsFrom_quoted_word h.1, ih h.2]

theorem operatorsFrom_led : operatorsFrom place 0 none (led words ++ rest) =
    operatorsFrom (place + (led words).length) 0 none rest := by
  induction words generalizing place with
  | nil => rfl
  | cons w ws ih =>
      rw [List.forall_mem_cons] at h
      rw [led_cons, List.append_assoc, operatorsFrom_quoted_word h.1, List.cons_append,
        operatorsFrom_space, ih h.2]
      congr 1
      simp only [List.length_append, List.length_cons]
      omega

end Operators

theorem intercalate_append_cons {separator : List Char} (xs : List (List Char)) (y : List Char)
    (ys : List (List Char)) : separator.intercalate (xs ++ y :: ys) =
      xs.flatMap (· ++ separator) ++ y ++ ys.flatMap (separator ++ ·) := by
  induction xs with
  | nil =>
      induction ys generalizing y with
      | nil => simp
      | cons z zs ih => simpa [List.intercalate_cons_cons] using ih z
  | cons x xs ih =>
      rw [List.cons_append, List.intercalate_cons_of_ne_nil (by simp), ih]
      simp

theorem toList_quotedLine_some (before : List String) (o : Operator) (operand : String)
    (after : List String) : (quotedLine before (some (o, operand)) after).toList =
      led before ++ (o.symbol.toList ++ ' ' :: ((quoted operand).toList ++ trailed after)) := by
  simp [quotedLine, List.append_assoc, intercalate_append_cons, led, trailed, List.flatMap_map]

theorem toList_quotedLine_none {before after : List String} {w : String} {ws : List String}
    (h : before ++ after = w :: ws) :
    (quotedLine before none after).toList = (quoted w).toList ++ trailed ws := by
  have hline : [' '].intercalate ((quoted w).toList :: ws.map fun w => (quoted w).toList) = _ :=
    intercalate_append_cons [] ..
  rw [quotedLine, Option.elim_none, List.append_nil, ← List.map_append, h]
  simpa [trailed, List.flatMap_map, Function.comp_def] using hline

/-- The operand after an operator is the word that is quoted there. -/
theorem splitOperand_quoted {operand : String} (h : '\'' ∉ operand.toList) (rest : List Char) :
    splitOperand (' ' :: ((quoted operand).toList ++ rest)) = some (operand, rest) := by
  have htake : (operand.toList ++ '\'' :: rest).takeWhile (· ≠ '\'') = operand.toList := by
    rw [List.takeWhile_append_of_pos (by grind)]
    simp
  have hfirst : firstWord ((quoted operand).toList ++ rest) = (quoted operand).toList := by
    rw [toList_quoted, List.cons_append, List.append_assoc, List.singleton_append, firstWord,
      htake, if_pos (by simp)]
    rfl
  have hblank : (' ' :: ((quoted operand).toList ++ rest)).dropWhile Text.Blank.isBlank =
      (quoted operand).toList ++ rest := by
    rw [toList_quoted]
    rfl
  have hwords : Words.split (String.ofList (quoted operand).toList) = [operand] := by
    have hsplit := split_quoted_trailed (List.forall_mem_singleton.2 h)
    rwa [trailed, List.flatMap_nil, List.append_nil] at hsplit
  rw [splitOperand, hblank, if_neg (by simp [toList_quoted]), hfirst]
  change (Words.split (String.ofList (quoted operand).toList)).head?.map _ = _
  rw [hwords, List.drop_left]
  rfl

/-- A line with a single operator is read at this operator. -/
theorem parse_of_operators {text : String} {place : Nat} {o : Operator} {r : Redirection}
    (ho : o ≠ .lines) (h : operators (Text.Blank.trim text).toList = [(place, o)])
    (hr : parseAt (Text.Blank.trim text).toList o.effect (place, o) = some r) :
    parse text = .ok r := by
  cases o with
  | lines => exact absurd rfl ho
  | _ =>
      rw [Operator.effect] at hr
      simp [parse, h, hr]

theorem parse_of_no_operators {text : String} (h : operators (Text.Blank.trim text).toList = []) :
    parse text = .ok ⟨Text.Blank.trim text, .none⟩ := by
  simp [parse, h]

theorem head?_quoted_append (w : String) (rest : List Char) :
    ((quoted w).toList ++ rest).head? = some '\'' := by
  rw [toList_quoted]
  rfl

theorem getLast?_append_quoted_trailed (cs : List Char) (w : String) (ws : List String) :
    (cs ++ ((quoted w).toList ++ trailed ws)).getLast? = some '\'' := by
  induction ws generalizing cs w with
  | nil => simp [toList_quoted, trailed, List.getLast?_cons]
  | cons v ws ih =>
      rw [trailed_cons, ← List.append_assoc, List.append_cons]
      exact ih _ v

theorem getLast?_quotedLine_some (before : List String) (o : Operator) (operand : String)
    (after : List String) :
    (quotedLine before (some (o, operand)) after).toList.getLast? = some '\'' := by
  have hstart := getLast?_append_quoted_trailed (led before ++ (o.symbol.toList ++ [' ']))
  rw [toList_quotedLine_some]
  simpa using hstart operand after

theorem trim_of_apostrophes {cs : List Char} {c : Char} (hhead : cs.head? = some c)
    (hc : Text.Blank.isBlank c = false) (hlast : cs.getLast? = some '\'') :
    Text.Blank.trim (String.ofList cs) = String.ofList cs := by
  have hapostrophe : Text.Blank.isBlank '\'' = false := by decide
  exact Text.Blank.trim_of_ends (by simpa [hhead] using hc) (by simpa [hlast] using hapostrophe)

theorem trim_quotedLine (before : List String) (middle : Option (Operator × String))
    (after : List String) :
    Text.Blank.trim (quotedLine before middle after) = quotedLine before middle after := by
  rw [← (quotedLine before middle after).ofList_toList]
  obtain _ | ⟨o, operand⟩ := middle
  · cases hwords : before ++ after with
    | nil => simp [quotedLine, List.append_eq_nil_iff.1 hwords]; rfl
    | cons w ws =>
        rw [toList_quotedLine_none hwords]
        exact trim_of_apostrophes (head?_quoted_append w _) (by decide)
          (getLast?_append_quoted_trailed [] w ws)
  · have hlast := getLast?_quotedLine_some before o operand after
    rw [toList_quotedLine_some] at hlast ⊢
    cases before with
    | nil => cases o <;> exact trim_of_apostrophes rfl (by decide) hlast
    | cons w ws =>
        have hhead := head?_quoted_append w
        exact trim_of_apostrophes (by rw [led_cons, List.append_assoc, hhead]) (by decide) hlast

theorem trim_quoted_trailed (w : String) (ws : List String) :
    Text.Blank.trim (String.ofList ((quoted w).toList ++ trailed ws)) =
      String.ofList ((quoted w).toList ++ trailed ws) :=
  trim_of_apostrophes (head?_quoted_append w _) (by decide) (getLast?_append_quoted_trailed [] w ws)

/-- What is left of a line when its operator is taken out has the words around it. -/
theorem split_trim_led_trailed {before after : List String}
    (hbefore : ∀ w ∈ before, '\'' ∉ w.toList) (hafter : ∀ w ∈ after, '\'' ∉ w.toList) :
    Words.split (Text.Blank.trim (String.ofList (led before ++ ' ' :: trailed after))) =
      before ++ after := by
  cases before with
  | nil =>
      rw [led, List.flatMap_nil, List.nil_append, List.nil_append, Text.Blank.trim_space_append]
      cases after with
      | nil => rfl
      | cons v vs =>
          rw [trailed_cons, Text.Blank.trim_space_append, trim_quoted_trailed,
            split_quoted_trailed hafter]
  | cons w ws =>
      cases after with
      | nil =>
          have hline : led (w :: ws) ++ ' ' :: trailed [] =
              (quoted w).toList ++ trailed ws ++ [' '] ++ [' '] := by
            rw [led_cons, space_led, ← List.append_assoc]
            rfl
          rw [hline, Text.Blank.trim_append_space, Text.Blank.trim_append_space, trim_quoted_trailed,
            split_quoted_trailed hbefore, List.append_nil]
      | cons v vs =>
          have hhead : (led (w :: ws) ++ ' ' :: trailed (v :: vs)).head? = some '\'' := by
            rw [led_cons, List.append_assoc, head?_quoted_append]
          have hlast : (led (w :: ws) ++ ' ' :: trailed (v :: vs)).getLast? = some '\'' := by
            rw [trailed_cons, List.append_cons, List.append_cons]
            exact getLast?_append_quoted_trailed _ v vs
          rw [trim_of_apostrophes hhead (by decide) hlast, Words.split, String.toList_ofList,
            scan_led hbefore, scan_space, scan_trailed hafter]
          simp

theorem quotedLine_none_of_nil {before after : List String} (h : before ++ after = []) :
    quotedLine before none after = "" := by
  obtain ⟨rfl, rfl⟩ := List.append_eq_nil_iff.1 h
  rfl

section Line

variable {before after : List String} (hbefore : ∀ w ∈ before, '\'' ∉ w.toList)
  (hafter : ∀ w ∈ after, '\'' ∉ w.toList)

include hbefore hafter

theorem read_quotedLine_none (env : Environment) :
    env.expand (quotedLine before none after) = quotedLine before none after ∧
      parse (quotedLine before none after) = .ok ⟨quotedLine before none after, .none⟩ ∧
      Words.split (quotedLine before none after) = before ++ after := by
  have hwords := List.forall_mem_append.2 ⟨hbefore, hafter⟩
  cases h : before ++ after with
  | nil =>
      rw [quotedLine_none_of_nil h]
      exact ⟨rfl, rfl, rfl⟩
  | cons w ws =>
      rw [h] at hwords
      obtain ⟨hw, hws⟩ := List.forall_mem_cons.1 hwords
      have hline := toList_quotedLine_none h
      refine ⟨Environment.expand_of_stays ?_, ?_, ?_⟩
      · rw [hline]
        exact (Environment.stays_trailed hws).quoted hw
      · rw [parse_of_no_operators, trim_quotedLine]
        rw [trim_quotedLine, hline, operators, operatorsFrom_quoted_word hw,
          operatorsFrom_trailed hws]
      · rw [← (quotedLine before none after).ofList_toList, hline, split_quoted_trailed hwords]

variable {o : Operator} {operand : String} (hoperand : '\'' ∉ operand.toList)

include hoperand

theorem expand_quotedLine_some (env : Environment) :
    env.expand (quotedLine before (some (o, operand)) after) =
      quotedLine before (some (o, operand)) after := by
  apply Environment.expand_of_stays
  rw [toList_quotedLine_some]
  have hrest : env.Stays (' ' :: ((quoted operand).toList ++ trailed after)) :=
    ((Environment.stays_trailed hafter).quoted hoperand).cons (by decide)
  exact (o.stays hrest).led hbefore

theorem operators_quotedLine_some :
    operators (quotedLine before (some (o, operand)) after).toList = [((led before).length, o)] := by
  rw [toList_quotedLine_some, operators, operatorsFrom_led hbefore, operatorsFrom_symbol,
    operatorsFrom_quoted_word hoperand, operatorsFrom_trailed hafter, Nat.zero_add]

theorem parse_quotedLine_some (ho : o ≠ .lines) :
    parse (quotedLine before (some (o, operand)) after) = .ok
      ⟨Text.Blank.trim (String.ofList (led before ++ ' ' :: trailed after)), o.effect operand⟩ := by
  have hoperators := operators_quotedLine_some hbefore hafter hoperand (o := o)
  rw [← trim_quotedLine] at hoperators
  refine parse_of_operators ho hoperators ?_
  rw [trim_quotedLine, toList_quotedLine_some, parseAt, o.length_eq, List.drop_length_add_append,
    List.drop_left, splitOperand_quoted hoperand, List.take_left]
  rfl

end Line

/-- A line of words between apostrophes, with at most one operator between them, is not changed when it
is expanded, has that operator with its operand for a redirection, and is cut into those words. -/
theorem quoted_words_are_read (env : Environment) {before after : List String}
    {middle : Option (Operator × String)} (hwords : ∀ w ∈ before ++ after, '\'' ∉ w.toList)
    (hmiddle : ∀ m ∈ middle, m.1 ≠ .lines ∧ '\'' ∉ m.2.toList) :
    env.expand (quotedLine before middle after) = quotedLine before middle after ∧
      ∃ command, parse (quotedLine before middle after) =
          .ok ⟨command, middle.elim .none fun m => m.1.effect m.2⟩ ∧
        Words.split command = before ++ after := by
  obtain ⟨hbefore, hafter⟩ := List.forall_mem_append.1 hwords
  obtain _ | ⟨o, operand⟩ := middle
  · obtain ⟨hexpand, hparse, hsplit⟩ := read_quotedLine_none hbefore hafter env
    exact ⟨hexpand, _, hparse, hsplit⟩
  · obtain ⟨ho, hoperand⟩ := hmiddle _ rfl
    exact ⟨expand_quotedLine_some hbefore hafter hoperand env, _,
      parse_quotedLine_some hbefore hafter hoperand ho, split_trim_led_trailed hbefore hafter⟩

/-- Words with a variable, quotes, a backslash, blanks and operators in them, and words without a
character. -/
theorem odd_words_are_read :
    let env := Environment.start "ada" "/home/ada" none []
    let before := ["echo", "$HOME", "", "a\"\\", " x < y "]
    let after := ["", "line\nline", "$(\"<<"]
    let line := quotedLine before (some (.append, "> $out")) after
    (∀ w ∈ before ++ after, '\'' ∉ w.toList) ∧ '\'' ∉ "> $out".toList ∧ env.expand line = line ∧
      ∃ command, parse line = .ok ⟨command, .toFile ⟨"> $out", true⟩⟩ ∧
        Words.split command = before ++ after := by
  intro env before after line
  have hwords : ∀ w ∈ before ++ after, '\'' ∉ w.toList := by decide
  have hoperand : '\'' ∉ "> $out".toList := by decide
  have hmiddle : ∀ m ∈ some (Operator.append, "> $out"), m.1 ≠ .lines ∧ '\'' ∉ m.2.toList := by
    rintro _ ⟨⟩
    exact ⟨by decide, hoperand⟩
  exact ⟨hwords, hoperand, quoted_words_are_read env hwords hmiddle⟩

end Redirection

namespace Words

/-- A character as it is written between double quotes. -/
def escape (c : Char) : List Char := if c = '"' ∨ c = '\\' ∨ c = '$' then ['\\', c] else [c]

/-- A word between double quotes. -/
def doubleQuoted (word : String) : String :=
  "\"" ++ String.ofList (word.toList.flatMap escape) ++ "\""

theorem toList_doubleQuoted (word : String) :
    (doubleQuoted word).toList = '"' :: (word.toList.flatMap escape ++ ['"']) := by
  simp [doubleQuoted]

/-- The line of words between double quotes. -/
def doubleQuotedLine (words : List String) : String := " ".intercalate (words.map doubleQuoted)

/-- Words between double quotes, each with a space before it. -/
def followed (words : List String) : List Char :=
  words.flatMap fun w => ' ' :: (doubleQuoted w).toList

theorem followed_cons (w : String) (ws : List String) :
    followed (w :: ws) = ' ' :: ((doubleQuoted w).toList ++ followed ws) := by
  simp [followed]

theorem toList_doubleQuotedLine_cons (w : String) (ws : List String) :
    (doubleQuotedLine (w :: ws)).toList = (doubleQuoted w).toList ++ followed ws := by
  have hline : [' '].intercalate
      ((doubleQuoted w).toList :: ws.map fun w => (doubleQuoted w).toList) = _ :=
    Redirection.intercalate_append_cons [] ..
  rw [doubleQuotedLine, String.toList_intercalate]
  simpa [followed, List.flatMap_map, Function.comp_def] using hline

/-- Up to its closing quote an escaped word is read as what was escaped. -/
theorem scan_escaped (cs current rest : List Char) :
    scan current true (some '"') (cs.flatMap escape ++ '"' :: rest) =
      scan (cs.reverse ++ current) true none rest := by
  induction cs generalizing current with
  | nil =>
      rw [List.flatMap_nil, List.nil_append, scan.eq_def]
      simp
  | cons c cs ih =>
      rw [List.flatMap_cons, List.append_assoc, List.reverse_cons, List.append_assoc,
        List.singleton_append, ← ih, escape]
      split
      · rename_i hc
        rw [List.cons_append, scan.eq_def]
        simp [hc]
      · rename_i hc
        obtain ⟨hquote, hrest⟩ := not_or.1 hc
        rw [List.singleton_append, scan.eq_def]
        simp [hquote, (not_or.1 hrest).1]

theorem scan_doubleQuoted (started : Bool) (word : String) (rest : List Char) :
    scan [] started none ((doubleQuoted word).toList ++ rest) =
      scan word.toList.reverse true none rest := by
  rw [toList_doubleQuoted, List.cons_append, List.append_assoc, List.singleton_append, scan.eq_def]
  simp [scan_escaped]

theorem scan_followed (words : List String) (current : List Char) :
    scan current true none (followed words) = current.reverse :: words.map String.toList := by
  induction words generalizing current with
  | nil => simp [followed, scan]
  | cons w ws ih =>
      rw [followed_cons, scan_space, scan_doubleQuoted, ih, if_pos rfl, List.reverse_reverse]
      rfl

end Words

namespace Environment

open Words

variable {env : Environment} {rest : List Char}

/-- An escaped word stays as it is up to its closing quote, and so does what follows. -/
theorem Stays.expandFrom_escaped (h : env.Stays rest) (cs : List Char) {part : List Char}
    (hpart : '$' ∉ part) : env.expandFrom (.open part true) (cs.flatMap escape ++ '"' :: rest) =
      part.reverse ++ (cs.flatMap escape ++ '"' :: rest) := by
  induction cs generalizing part with
  | nil =>
      have hquote : '$' ∉ '"' :: part := by simp [hpart]
      rw [List.flatMap_nil, List.nil_append, expandFrom.eq_def]
      simp [h ('"' :: part) hquote]
  | cons c cs ih =>
      rw [List.flatMap_cons, List.append_assoc, escape]
      split
      · have hreverse : '$' ∉ part.reverse := by simpa using hpart
        rw [List.cons_append, expandFrom.eq_def]
        simp [substitute_of_not_mem hreverse, ih List.not_mem_nil]
      · rename_i hc
        simp only [not_or] at hc
        have hnext : '$' ∉ c :: part := by simp [hpart, Ne.symm hc.2.2]
        rw [List.singleton_append, expandFrom.eq_def]
        simp [hc, ih hnext]

theorem Stays.doubleQuoted (h : env.Stays rest) (word : String) :
    env.Stays ((Words.doubleQuoted word).toList ++ rest) := by
  intro part hpart
  have hquote : '$' ∉ '"' :: part := by simp [hpart]
  rw [toList_doubleQuoted, List.cons_append, List.append_assoc, List.singleton_append,
    expandFrom.eq_def]
  simp [h.expandFrom_escaped _ hquote]

theorem stays_followed (words : List String) : env.Stays (followed words) := by
  induction words with
  | nil => exact stays_nil
  | cons w ws ih =>
      rw [followed_cons]
      exact (ih.doubleQuoted w).cons (by decide)

end Environment

namespace Words

/-- Words that are written between double quotes, with a backslash before what would not stand for
itself, are read as they are, the empty ones too, and in no environment is anything expanded in them. -/
theorem double_quoted_words_are_read (words : List String) :
    split (doubleQuotedLine words) = words ∧
      ∀ env : Environment, env.expand (doubleQuotedLine words) = doubleQuotedLine words := by
  cases words with
  | nil => exact ⟨rfl, fun env => rfl⟩
  | cons w ws =>
      have hline := toList_doubleQuotedLine_cons w ws
      refine ⟨?_, fun env => Environment.expand_of_stays ?_⟩
      · rw [split, hline, scan_doubleQuoted, scan_followed]
        simp
      · rw [hline]
        exact (Environment.stays_followed ws).doubleQuoted w

example : doubleQuotedLine ["say \"hi\"", "", "it's $5\\"] =
    "\"say \\\"hi\\\"\" \"\" \"it's \\$5\\\\\"" := by decide +kernel

end Words

end PracticeShell
