import PracticeShell.Proofs.Redirection.Squeezing

/-!
# Lines behind a word

`cut` takes the redirection out of a line and leaves the rest as it stands. Text before a line that opens
no quote and redirects nothing stays before what is left (`cut_append`). So a line behind a plain word
has the redirection that it has by itself (`effect?_behind`), and the words behind the plain word are
those of the line, with two exceptions: a blank that is neither a space nor a tab belongs to the first
word behind the plain word, while it is trimmed off at the start of the line, and only a line by itself
reads lines for want of a command (`lineWords_behind`).
-/

namespace PracticeShell.Redirection

open Words
open Text.Blank (isBlank tidy dropWhileEnd trim squeeze narrow runs)

/-- Takes the operator at a place out of a line, with its operand. -/
def cutAt (line : List Char) (effect : String → Effect) (o : Nat × Operator) :
    Option (List Char × Effect) := do
  let (operand, remainder) ← splitOperand (line.drop (o.1 + o.2.length))
  return (line.take o.1 ++ ' ' :: remainder, effect operand)

/-- Takes the operator for lines at a place out of a line, with its marker, and the operator for output
that goes with it. -/
def cutLines (line : List Char) (place : Nat) : Option (List Char × Effect) := do
  let (marker, after) ← splitMarker (line.drop (place + 2))
  let rest := line.take place ++ ' ' :: after
  match ((operators rest).filter fun (_, o) => o == .overwrite || o == .append).getLast? with
  | none => return (rest, .lines marker none)
  | some (here, o) =>
    let (operand, remainder) ← splitOperand (rest.drop (here + o.length))
    return (rest.take here ++ ' ' :: remainder, .lines marker (some ⟨operand, o == .append⟩))

/-- What is left of a line without its redirection, and the redirection. -/
def cut (line : List Char) : Option (List Char × Effect) :=
  let having := fun o => (operators line).filter (·.2 == o)
  match (having .lines).head?, (having .append).getLast?, (having .overwrite).getLast?,
    (having .input).head? with
  | some o, _, _, _ => cutLines line o.1
  | none, some o, _, _ => cutAt line (fun operand => .toFile ⟨operand, true⟩) o
  | none, none, some o, _ => cutAt line (fun operand => .toFile ⟨operand, false⟩) o
  | none, none, none, some o => cutAt line .fromFile o
  | none, none, none, none => some (line, .none)

/-- The command that is read from what is left of a line. -/
def Effect.command : Effect → List Char → String
  | .lines .., cs => reader cs
  | _, cs => trim (String.ofList cs)

theorem Effect.command_of_ne_lines {e : Effect} (h : ∀ marker output, e ≠ .lines marker output)
    (cs : List Char) : e.command cs = String.ofList (tidy isBlank cs) := by
  cases e with
  | lines marker output => exact absurd rfl (h marker output)
  | _ => exact Text.Blank.trim_ofList cs

theorem parseAt_eq {line : List Char} (effect : String → Effect)
    (heffect : ∀ operand cs, (effect operand).command cs = trim (String.ofList cs))
    (o : Nat × Operator) : parseAt line effect o =
      (cutAt line effect o).map fun (rest, e) => ⟨e.command rest, e⟩ := by
  unfold parseAt cutAt
  cases splitOperand (line.drop (o.1 + o.2.length)) with
  | none => rfl
  | some found => simp [heffect]

theorem parseLines_eq (line : List Char) (place : Nat) : parseLines line place =
    (cutLines line place).map fun (rest, e) => ⟨e.command rest, e⟩ := by
  unfold parseLines cutLines
  cases splitMarker (line.drop (place + 2)) with
  | none => rfl
  | some found =>
      have hempty : ∀ cs, (String.ofList (squeeze cs) = "") = (squeeze cs = []) := by simp
      simp only [Option.bind_eq_bind, Option.bind_some, intercalate_words, hempty]
      generalize line.take place ++ ' ' :: found.2 = rest
      cases ((operators rest).filter fun x => x.2 == .overwrite || x.2 == .append).getLast? with
      | none => rfl
      | some o =>
          dsimp only
          cases splitOperand (rest.drop (o.1 + o.2.length)) with
          | none => rfl
          | some found => rfl

theorem tidy_tidy {α : Type} (p : α → Bool) (l : List α) : tidy p (tidy p l) = tidy p l := by
  have hend := Text.Blank.tidy_append_dropWhileEnd (p := p) [] (l.dropWhile p)
  have hstart := Text.Blank.tidy_dropWhile_append (p := p) l []
  rw [List.append_nil, List.append_nil] at hstart
  rw [List.nil_append, List.nil_append, hstart] at hend
  exact hend

/-- What is left of a trimmed line, and its redirection; all of the line if the line cannot be read. -/
def kept (line : String) : List Char × Effect :=
  (cut (trim line).toList).getD ((trim line).toList, .none)

/-- The redirection of a line that can be read. -/
def effect? (line : String) : Option Effect := (parse line).toOption.map (·.effect)

/-- The words of a line without its redirection, or all of its words if the line cannot be read. -/
def lineWords (line : String) : List String :=
  match parse line with
  | .ok r => split r.command
  | .error text => split text

theorem parse_eq (text : String) : parse text = match cut (trim text).toList with
    | some (rest, e) => .ok ⟨e.command rest, e⟩
    | none => .error (trim text) := by
  have htrim : trim (trim text) = trim text := by
    rw [← String.ofList_toList (s := trim (trim text)), Text.Blank.toList_trim, Text.Blank.toList_trim,
      tidy_tidy, ← Text.Blank.toList_trim, String.ofList_toList]
  unfold parse cut
  dsimp only
  cases ((operators (trim text).toList).filter (·.2 == .lines)).head? with
  | some o =>
      simp only [parseLines_eq]
      cases cutLines (trim text).toList o.1 <;> rfl
  | none =>
  cases ((operators (trim text).toList).filter (·.2 == .append)).getLast? with
  | some o =>
      simp only [parseAt_eq (fun operand => .toFile ⟨operand, true⟩) fun _ _ => rfl]
      cases cutAt (trim text).toList (fun operand => .toFile ⟨operand, true⟩) o <;> rfl
  | none =>
  cases ((operators (trim text).toList).filter (·.2 == .overwrite)).getLast? with
  | some o =>
      simp only [parseAt_eq (fun operand => .toFile ⟨operand, false⟩) fun _ _ => rfl]
      cases cutAt (trim text).toList (fun operand => .toFile ⟨operand, false⟩) o <;> rfl
  | none =>
  cases ((operators (trim text).toList).filter (·.2 == .input)).head? with
  | some o =>
      simp only [parseAt_eq .fromFile fun _ _ => rfl]
      cases cutAt (trim text).toList .fromFile o <;> rfl
  | none => simp [Effect.command, htrim]

theorem effect?_eq (line : String) : effect? line = (cut (trim line).toList).map (·.2) := by
  rw [effect?, parse_eq]
  cases cut (trim line).toList <;> rfl

theorem lineWords_eq (line : String) : lineWords line = split ((kept line).2.command (kept line).1) := by
  rw [lineWords, parse_eq, kept]
  cases cut (trim line).toList with
  | some found => rfl
  | none =>
      rw [Option.getD_none, Effect.command_of_ne_lines (by simp), Text.Blank.toList_trim, tidy_tidy,
        ← Text.Blank.toList_trim, String.ofList_toList]

theorem effect?_of_kept {line : String} {marker : String} {output : Option Target}
    (h : (kept line).2 = .lines marker output) : effect? line = some (.lines marker output) := by
  rw [kept] at h
  rw [effect?_eq]
  cases hcut : cut (trim line).toList with
  | some found =>
      rw [hcut, Option.getD_some] at h
      rw [Option.map_some, h]
  | none => simp [hcut] at h

section Append

variable {before : List Char} (hbefore : ∀ cs,
  operators (before ++ cs) = (operators cs).map (Prod.map (before.length + ·) id))

theorem cutAt_append (before line : List Char) (effect : String → Effect) (o : Nat × Operator) :
    cutAt (before ++ line) effect (Prod.map (before.length + ·) id o) =
      (cutAt line effect o).map (Prod.map (before ++ ·) id) := by
  unfold cutAt
  rw [Prod.map_fst, Prod.map_snd, id_eq, Nat.add_assoc, List.drop_length_add_append,
    List.take_length_add_append]
  cases splitOperand (line.drop (o.1 + o.2.length)) with
  | none => rfl
  | some found => simp

include hbefore

theorem cutLines_append (line : List Char) (place : Nat) :
    cutLines (before ++ line) (before.length + place) =
      (cutLines line place).map (Prod.map (before ++ ·) id) := by
  unfold cutLines
  rw [Nat.add_assoc, List.drop_length_add_append, List.take_length_add_append]
  cases splitMarker (line.drop (place + 2)) with
  | none => rfl
  | some found =>
      simp only [Option.bind_eq_bind, Option.bind_some, List.append_assoc, hbefore]
      generalize line.take place ++ ' ' :: found.2 = rest
      rw [List.filter_map, List.getLast?_map]
      have hsame : ((fun (x : Nat × Operator) => x.2 == .overwrite || x.2 == .append) ∘
          Prod.map (before.length + ·) id) = fun x => x.2 == .overwrite || x.2 == .append := rfl
      rw [hsame]
      cases ((operators rest).filter fun x => x.2 == .overwrite || x.2 == .append).getLast? with
      | none => simp
      | some o =>
          simp only [Option.map_some, Prod.map, id_eq, Nat.add_assoc, List.drop_length_add_append,
            List.take_length_add_append]
          cases splitOperand (rest.drop (o.1 + o.2.length)) with
          | none => rfl
          | some found => simp

/-- Text that opens no quote and redirects nothing stays before what is left of a line. -/
theorem cut_append (line : List Char) :
    cut (before ++ line) = (cut line).map (Prod.map (before ++ ·) id) := by
  have hhaving : ∀ o, (operators (before ++ line)).filter (·.2 == o) =
      ((operators line).filter (·.2 == o)).map (Prod.map (before.length + ·) id) := by
    intro o
    rw [hbefore, List.filter_map]
    rfl
  unfold cut
  dsimp only
  simp only [hhaving, List.head?_map, List.getLast?_map]
  cases ((operators line).filter (·.2 == .lines)).head? with
  | some o => exact cutLines_append hbefore line o.1
  | none =>
  cases ((operators line).filter (·.2 == .append)).getLast? with
  | some o => exact cutAt_append before line _ o
  | none =>
  cases ((operators line).filter (·.2 == .overwrite)).getLast? with
  | some o => exact cutAt_append before line _ o
  | none =>
  cases ((operators line).filter (·.2 == .input)).head? with
  | some o => exact cutAt_append before line _ o
  | none => rfl

end Append

section Blanks

variable {α : Type} {p : α → Bool} {blanks cs rest : List Char}

theorem dropWhileEnd_append_eq (l r : List α) : dropWhileEnd p (l ++ r) =
    if dropWhileEnd p r = [] then dropWhileEnd p l else l ++ dropWhileEnd p r := by
  simp only [dropWhileEnd, List.reverse_append, List.dropWhile_append, List.reverse_eq_nil_iff,
    List.isEmpty_iff]
  split <;> simp

theorem dropWhileEnd_of_all {l : List α} (h : ∀ a ∈ l, p a = true) : dropWhileEnd p l = [] :=
  List.rdropWhile_eq_nil_iff.2 h

/-- Blanks before a text are only taken away at the end if the text is blank. -/
theorem dropWhileEnd_blanks (h : ∀ b ∈ blanks, isBlank b = true) (cs : List Char) :
    dropWhileEnd isBlank (blanks ++ cs) =
      if tidy isBlank cs = [] then [] else blanks ++ (cs.takeWhile isBlank ++ tidy isBlank cs) := by
  have hall : ∀ b ∈ blanks ++ cs.takeWhile isBlank, isBlank b = true :=
    fun b hb => (List.mem_append.1 hb).elim (h b) List.mem_takeWhile_imp
  have hline : blanks ++ cs = (blanks ++ cs.takeWhile isBlank) ++ cs.dropWhile isBlank := by
    rw [List.append_assoc, List.takeWhile_append_dropWhile]
  rw [hline, dropWhileEnd_append_eq, dropWhileEnd_of_all hall, List.append_assoc]
  rfl

/-- A word that has been begun goes on. -/
theorem scan_started (current : List Char) {started : Bool} (hstarted : started = true)
    (quote : Option Char) (cs : List Char) :
    ∃ word words, scan current started quote cs = word :: words ∧ current.reverse <+: word := by
  have hnext : ∀ (c : Char) (current word : List Char),
      (c :: current).reverse <+: word → current.reverse <+: word :=
    fun c current word h => (List.prefix_append _ [c]).trans (List.reverse_cons ▸ h)
  fun_induction scan current started quote cs <;> grind [List.prefix_refl]

/-- Whether the first of some words starts with a blank. -/
def StartsBlank (words : List String) : Prop :=
  ∃ first ∈ words.head?, ∃ c ∈ first.toList.head?, isBlank c = true

/-- Spaces and tabs before a text are passed over. Any other blank belongs to the first word. -/
theorem split_blanks (h : ∀ b ∈ blanks, isBlank b = true) (cs : List Char) :
    ((∀ b ∈ blanks, b = ' ' ∨ b = '\t') ∧
        split (String.ofList (blanks ++ cs)) = split (String.ofList cs)) ∨
      ((∃ b ∈ blanks, ¬ (b = ' ' ∨ b = '\t')) ∧
        StartsBlank (split (String.ofList (blanks ++ cs)))) := by
  induction blanks with
  | nil => exact .inl ⟨nofun, rfl⟩
  | cons b blanks ih =>
      obtain ⟨hb, hblanks⟩ := List.forall_mem_cons.1 h
      have hplain := not_mem_of_isBlank hb
      simp only [List.mem_cons, List.not_mem_nil, or_false, not_or] at hplain
      by_cases hgap : b = ' ' ∨ b = '\t'
      · have hskip : split (String.ofList (b :: blanks ++ cs)) =
            split (String.ofList (blanks ++ cs)) := by
          rw [split, split, String.toList_ofList, String.toList_ofList, List.cons_append, scan.eq_def]
          simp [hplain, hgap]
        rw [hskip, List.forall_mem_cons]
        rcases ih hblanks with ⟨hall, heq⟩ | ⟨hother, hstarts⟩
        · exact .inl ⟨⟨hgap, hall⟩, heq⟩
        · exact .inr ⟨hother.imp fun d hd => ⟨List.mem_cons_of_mem b hd.1, hd.2⟩, hstarts⟩
      · have hbegun : scan [] false none (b :: blanks ++ cs) = scan [b] true none (blanks ++ cs) := by
          rw [List.cons_append, scan.eq_def]
          simp [hplain, hgap]
        obtain ⟨word, words, hscan, more, rfl⟩ := scan_started [b] rfl none (blanks ++ cs)
        refine .inr ⟨⟨b, List.mem_cons_self, hgap⟩, String.ofList (b :: more), ?_, b, ?_, hb⟩
        · rw [split, String.toList_ofList, hbegun, hscan]
          rfl
        · rw [String.toList_ofList]
          rfl

end Blanks

section Behind

variable {word : String} (hword : IsPlain word) {line : String}

/-- The blanks between a word and a line behind it, of which the first is a space. -/
def gap (line : String) : List Char := ' ' :: line.toList.takeWhile isBlank

theorem isBlank_of_mem_gap {b : Char} (h : b ∈ gap line) : isBlank b = true := by
  rcases List.mem_cons.1 h with rfl | h
  · decide
  · exact List.mem_takeWhile_imp h

include hword

theorem tidy_behind (cs : List Char) :
    tidy isBlank (word.toList ++ cs) = word.toList ++ dropWhileEnd isBlank cs := by
  have hblank : ∀ c ∈ word.toList, isBlank c = false := fun c hc => (hword.2 c hc).1
  have hne : word.toList ≠ [] := by simpa using hword.1
  have hstart := Text.Blank.dropWhile_append_word hne hblank [] cs
  have hend := Text.Blank.dropWhileEnd_append_word hne hblank [] cs
  rw [List.nil_append, List.dropWhile_nil, List.nil_append] at hstart
  rw [List.nil_append, List.nil_append] at hend
  rw [tidy, hstart, hend]

theorem toList_trim_behind (line : String) : (trim (word ++ " " ++ line)).toList =
    word.toList ++ if (trim line).toList = [] then [] else gap line ++ (trim line).toList := by
  have hline : (word ++ " " ++ line).toList = word.toList ++ ([' '] ++ line.toList) := by simp
  rw [Text.Blank.toList_trim, Text.Blank.toList_trim, hline, tidy_behind hword,
    dropWhileEnd_blanks (List.forall_mem_singleton.2 (by decide))]
  rfl

theorem operators_behind (line : String) (cs : List Char) : operators (word.toList ++ gap line ++ cs) =
    (operators cs).map (Prod.map ((word.toList ++ gap line).length + ·) id) := by
  rw [operators, List.append_assoc, operatorsFrom_bland hword.2,
    operatorsFrom_blanks fun b hb => isBlank_of_mem_gap hb, Nat.zero_add, ← List.length_append,
    ← Nat.add_zero (List.length _), operatorsFrom_add]
  rfl

theorem kept_behind (h : (trim line).toList ≠ []) : kept (word ++ " " ++ line) =
    Prod.map (word.toList ++ gap line ++ ·) id (kept line) := by
  rw [kept, toList_trim_behind hword, if_neg h, ← List.append_assoc,
    cut_append (operators_behind hword line), kept]
  cases cut (trim line).toList <;> rfl

theorem kept_behind_of_blank (h : (trim line).toList = []) :
    kept (word ++ " " ++ line) = (word.toList, .none) := by
  have hnone : cut word.toList = some (word.toList, .none) := by
    rw [cut, operators, operatorsFrom_plain hword.2]
    rfl
  rw [kept, toList_trim_behind hword, if_pos h, List.append_nil, hnone]
  rfl

/-- A line behind a plain word has the redirection that it has by itself. -/
theorem effect?_behind (line : String) : effect? (word ++ " " ++ line) = effect? line := by
  rw [effect?_eq, effect?_eq, toList_trim_behind hword]
  split
  · rename_i h
    rw [h, List.append_nil, cut, operators, operatorsFrom_plain hword.2]
    rfl
  · rw [← List.append_assoc, cut_append (operators_behind hword line), Option.map_map]
    rfl

omit hword in
theorem split_space (cs : List Char) : split (String.ofList (' ' :: cs)) = split (String.ofList cs) := by
  rw [split, split, String.toList_ofList, String.toList_ofList, scan_space]
  rfl

/-- The words of a plain word and what follows a space after it. -/
theorem split_behind {cs : List Char} (hcs : cs = [] ∨ ∃ ds, cs = ' ' :: ds) :
    split (String.ofList (word.toList ++ cs)) = word :: split (String.ofList cs) := by
  obtain ⟨c, rest, hchars, hblank, hplain⟩ := hword.exists_cons
  have hrest : ∀ d ∈ rest, IsBland d := fun d hd => hword.2 d (by simp [hchars, hd])
  have hspace : ¬ (c = ' ' ∨ c = '\t') := by
    rintro (rfl | rfl) <;> exact absurd hblank (by decide)
  simp only [List.mem_cons, List.not_mem_nil, or_false, not_or] at hplain
  have hscan : scan [] false none (word.toList ++ cs) = scan word.toList.reverse true none cs := by
    rw [hchars, List.cons_append, scan.eq_def]
    simp only [hplain, hspace, or_self, if_false]
    rw [scan_bland hrest, List.reverse_cons]
  rw [split, split, String.toList_ofList, String.toList_ofList, hscan]
  rcases hcs with rfl | ⟨ds, rfl⟩
  · simp [scan]
  · simp [scan_space]

theorem squeeze_behind (cs : List Char) :
    squeeze (word.toList ++ cs) = word.toList ++ narrow cs := by
  have hne : word.toList.reverse ≠ [] := by simpa using hword.1
  rw [squeeze, runs_bland hword.2, List.append_nil, Text.Blank.intercalate_runs hne,
    List.reverse_reverse]

omit hword in
/-- The words of what is left of a line behind a gap. -/
theorem split_gap (rest : List Char) :
    split (String.ofList (dropWhileEnd isBlank (gap line ++ rest))) =
        split (String.ofList (tidy isBlank rest)) ∨
      ((∃ b ∈ gap line ++ rest.takeWhile isBlank, ¬ (b = ' ' ∨ b = '\t')) ∧
        StartsBlank (split (String.ofList (dropWhileEnd isBlank (gap line ++ rest))))) := by
  have hgap : ∀ b ∈ gap line, isBlank b = true := fun b hb => isBlank_of_mem_gap hb
  have hall : ∀ b ∈ gap line ++ rest.takeWhile isBlank, isBlank b = true :=
    fun b hb => (List.mem_append.1 hb).elim (hgap b) List.mem_takeWhile_imp
  rw [dropWhileEnd_blanks hgap]
  split
  · rename_i hnil
    exact .inl (by rw [hnil])
  · rw [← List.append_assoc]
    exact (split_blanks hall (tidy isBlank rest)).imp And.right id

/-- What is left of a line that reads lines, behind a word: the word alone if nothing else is left. -/
theorem reader_behind (rest : List Char) : reader (word.toList ++ gap line ++ rest) =
    String.ofList (word.toList ++ if squeeze rest = [] then [] else ' ' :: squeeze rest) := by
  have hdrop : (line.toList.takeWhile isBlank ++ rest).dropWhile isBlank = rest.dropWhile isBlank :=
    List.dropWhile_append_of_pos fun b hb => List.mem_takeWhile_imp hb
  have hempty : rest.dropWhile isBlank = [] ↔ squeeze rest = [] := by
    rw [List.dropWhile_eq_nil_iff, Text.Blank.squeeze_eq_nil_iff]
  have hnarrow : narrow (gap line ++ rest) = if squeeze rest = [] then [] else ' ' :: squeeze rest := by
    rw [gap, List.cons_append, Text.Blank.narrow_of_blank (by decide), hdrop,
      ← Text.Blank.squeeze_eq_narrow]
    simp only [hempty]
  rw [reader, List.append_assoc, squeeze_behind hword, hnarrow, if_neg (by simp [hword.1])]

/-- Behind a plain word there are the words of a line by itself, unless another blank than a space or a
tab comes before them, or the line reads lines and has no words. -/
theorem lineWords_behind (line : String) :
    ∃ behind, lineWords (word ++ " " ++ line) = word :: behind ∧
      (behind = lineWords line ∨
        ((∃ b ∈ gap line ++ (kept line).1.takeWhile isBlank, ¬ (b = ' ' ∨ b = '\t')) ∧
          StartsBlank behind) ∨
        behind = [] ∧ lineWords line = ["cat"] ∧
          ∃ marker output, effect? line = some (.lines marker output)) := by
  by_cases hblank : (trim line).toList = []
  · have hnone : lineWords line = [] := by
      rw [lineWords_eq, kept, hblank]
      decide
    refine ⟨[], ?_, .inl hnone.symm⟩
    rw [lineWords_eq, kept_behind_of_blank hword hblank, Effect.command_of_ne_lines (by simp),
      ← List.append_nil word.toList, tidy_behind hword, dropWhileEnd_of_all nofun,
      split_behind hword (.inl rfl)]
    rfl
  · rw [lineWords_eq, lineWords_eq, kept_behind hword hblank, Prod.map_fst, Prod.map_snd, id_eq]
    by_cases hlines : ∃ marker output, (kept line).2 = .lines marker output
    · obtain ⟨marker, output, heffect⟩ := hlines
      rw [heffect, Effect.command, Effect.command, reader_behind hword, reader]
      by_cases hempty : squeeze (kept line).1 = []
      · rw [if_pos hempty, if_pos hempty, split_behind hword (.inl rfl)]
        have hcat : split "cat" = ["cat"] := by decide +kernel
        exact ⟨[], rfl, .inr (.inr ⟨rfl, hcat, marker, output, effect?_of_kept heffect⟩)⟩
      · rw [if_neg hempty, if_neg hempty, split_behind hword (.inr ⟨_, rfl⟩)]
        exact ⟨_, rfl, .inl (split_space _)⟩
    · have hne : ∀ marker output, (kept line).2 ≠ .lines marker output :=
        fun marker output heq => hlines ⟨marker, output, heq⟩
      have hcs : dropWhileEnd isBlank (gap line ++ (kept line).1) = [] ∨
          ∃ ds, dropWhileEnd isBlank (gap line ++ (kept line).1) = ' ' :: ds := by
        rw [dropWhileEnd_blanks fun b hb => isBlank_of_mem_gap hb]
        split
        · exact .inl rfl
        · exact .inr ⟨_, rfl⟩
      rw [Effect.command_of_ne_lines hne, Effect.command_of_ne_lines hne, List.append_assoc,
        tidy_behind hword, split_behind hword hcs]
      exact ⟨_, rfl, (split_gap _).imp id .inl⟩

/-- Nothing blank comes before a line that starts with a plain word, but the space. -/
theorem gap_behind (line : String) : gap (word ++ " " ++ line) = [' '] ∧
    (kept (word ++ " " ++ line)).1.takeWhile isBlank = [] := by
  obtain ⟨c, cs, hchars, hblank, -⟩ := hword.exists_cons
  have hstart : ∀ ds, (word.toList ++ ds).takeWhile isBlank = [] := fun ds => by
    rw [hchars, List.cons_append, List.takeWhile_cons_of_neg (by simp [hblank])]
  refine ⟨?_, ?_⟩
  · rw [gap, String.toList_append, String.toList_append, List.append_assoc, hstart]
  · by_cases h : (trim line).toList = []
    · rw [kept_behind_of_blank hword h, ← List.append_nil word.toList, hstart]
    · rw [kept_behind hword h, Prod.map_fst, List.append_assoc, hstart]

/-- Behind two plain words there are all words of the line. -/
theorem lineWords_behind_plain {other : String} (hother : IsPlain other) (hcat : other ≠ "cat")
    (line : String) : lineWords (word ++ " " ++ (other ++ " " ++ line)) =
      word :: lineWords (other ++ " " ++ line) := by
  obtain ⟨behind, hwords, hbehind⟩ := lineWords_behind hword (other ++ " " ++ line)
  obtain ⟨others, hothers, -⟩ := lineWords_behind hother line
  rw [hwords]
  rcases hbehind with heq | ⟨⟨b, hb, hnot⟩, -⟩ | ⟨-, hnone, -⟩
  · rw [heq]
  · obtain ⟨hgap, hnone⟩ := gap_behind hother line
    rw [hgap, hnone, List.append_nil, List.mem_singleton] at hb
    exact absurd (.inl hb) hnot
  · rw [hothers, List.cons.injEq] at hnone
    exact absurd hnone.1 hcat

end Behind

end PracticeShell.Redirection
