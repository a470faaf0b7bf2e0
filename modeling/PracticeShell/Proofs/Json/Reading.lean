import PracticeShell.Proofs.Json.Scalars
import PracticeShell.Proofs.Run

/-!
# Values that are read back

What is written over several lines is read back (`Json.parse_indented`), as long as it holds no
double, no number of too many digits, no name twice in one object, and is not nested too deep
(`Json.IsExact`).
-/

namespace PracticeShell.Json

/-- Whether a value with at most so many containers around another is read back as it is. -/
inductive IsExact : Nat → Json → Prop
  | null {depth : Nat} : IsExact depth .null
  | bool {depth : Nat} (b : Bool) : IsExact depth (.bool b)
  | int {depth : Nat} {n : Int} (h : n.natAbs < 10 ^ Text.Digit.maxDigits) : IsExact depth (.int n)
  | string {depth : Nat} (s : String) : IsExact depth (.string s)
  | array {depth : Nat} {items : List Json} (h : ∀ v ∈ items, IsExact depth v) :
    IsExact (depth + 1) (.array items)
  | object {depth : Nat} {ms : Members} (hnames : (ms.map (·.1)).Nodup)
    (h : ∀ m ∈ ms, IsExact depth m.2) : IsExact (depth + 1) (.object ms)

theorem Members.put_of_not_mem {name : String} {ms : Members} (h : name ∉ ms.map (·.1)) (v : Json) :
    ms.put name v = ms ++ [(name, v)] := by
  induction ms with
  | nil => rfl
  | cons first rest ih =>
      obtain ⟨hfirst, hrest⟩ := not_or.1 (List.mem_cons.not.1 h)
      rw [Members.put, if_neg (Ne.symm hfirst), ih hrest]
      rfl

theorem Members.not_mem_of_nodup {m : String × Json} {done ms : Members}
    (h : ((done ++ m :: ms).map (·.1)).Nodup) : m.1 ∉ done.map (·.1) := by
  intro hthere
  rw [List.map_append, List.map_cons] at h
  exact (List.nodup_append.1 h).2.2 _ hthere _ List.mem_cons_self rfl

namespace Reader

open Run

/-- Whether a character is skipped between values. -/
def IsBlank (c : Char) : Prop := (c == ' ' || c == '\t' || c == '\n' || c == '\r') = true

instance (c : Char) : Decidable (IsBlank c) := inferInstanceAs (Decidable (_ = true))

/-- Whether a text begins with something that is neither skipped nor the end of a container. -/
def Opens (cs : List Char) : Prop :=
  ∃ c rest, cs = c :: rest ∧ ¬ IsBlank c ∧ c ≠ ']' ∧ c ≠ '\x7d'

theorem skipBlanks_append {blanks : List Char} (h : ∀ c ∈ blanks, IsBlank c) (rest : List Char) :
    skipBlanks (blanks ++ rest) = skipBlanks rest := List.dropWhile_append_of_pos h

theorem skipBlanks_of_not_blank {c : Char} (h : ¬ IsBlank c) (rest : List Char) :
    skipBlanks (c :: rest) = c :: rest := List.dropWhile_cons_of_neg h

theorem Opens.skipBlanks {cs : List Char} (h : Opens cs) (rest : List Char) :
    Reader.skipBlanks (cs ++ rest) = cs ++ rest := by
  obtain ⟨c, more, rfl, hc, -⟩ := h
  exact skipBlanks_of_not_blank hc _

/-- What comes after blanks and a mark does not go on with a number. -/
theorem closes_append {blanks rest : List Char} (h : ∀ c ∈ blanks, IsBlank c)
    (hrest : Closes rest) : Closes (blanks ++ rest) := by
  cases blanks with
  | nil => exact hrest
  | cons c blanks =>
      have hc : IsBlank c := h c List.mem_cons_self
      have hcases : ((c = ' ' ∨ c = '\t') ∨ c = '\n') ∨ c = '\r' := by simpa [IsBlank] using hc
      refine closes_cons ?_
      rcases hcases with ((rfl | rfl) | rfl) | rfl <;> decide

/-- A text that is neither a string nor a container. -/
theorem value_of_scalar {c : Char} (hstring : c ≠ '"') (harray : c ≠ '[') (hobject : c ≠ '\x7b')
    (depth fuel : Nat) (cs : List Char) : value depth (fuel + 1) (c :: cs) = scalar (c :: cs) := by
  unfold value
  split
  · exact absurd (List.cons.inj ‹_›).1 hstring
  · exact absurd (List.cons.inj ‹_›).1 harray
  · exact absurd (List.cons.inj ‹_›).1 hobject
  · rfl

section Steps

variable {depth fuel : Nat} {cs rest more last : List Char} {v : Json}

theorem items_last (hv : value depth fuel cs = .ok (v, rest))
    (hend : skipBlanks rest = ']' :: more) : items depth (fuel + 1) cs = .ok ([v], more) := by
  unfold items
  refine bind_eq_ok_iff.2 ⟨_, hv, ?_⟩
  dsimp only
  rw [hend]
  rfl

theorem items_more {vs : List Json} (hv : value depth fuel cs = .ok (v, rest))
    (hmark : skipBlanks rest = ',' :: more)
    (hmore : items depth fuel (skipBlanks more) = .ok (vs, last)) :
    items depth (fuel + 1) cs = .ok (v :: vs, last) := by
  unfold items
  refine bind_eq_ok_iff.2 ⟨_, hv, ?_⟩
  dsimp only
  rw [hmark]
  exact bind_eq_ok_iff.2 ⟨_, hmore, rfl⟩

variable {name : String} {done : Members} {others : List Char}

theorem members_step (hname : stringBody [] cs.length cs = .ok (name, others))
    (hmark : skipBlanks others = ':' :: rest)
    (hv : value depth fuel (skipBlanks rest) = .ok (v, more)) :
    members depth done (fuel + 1) ('"' :: cs) = match skipBlanks more with
      | ',' :: rest => members depth (done.put name v) fuel (skipBlanks rest)
      | '\x7d' :: rest => .ok (done.put name v, rest)
      | _ => .error .malformed := by
  change (stringBody [] cs.length cs >>= _) = _
  rw [hname]
  dsimp only [bind, Except.bind]
  rw [hmark]
  change (value depth fuel (skipBlanks rest) >>= _) = _
  rw [hv]
  rfl

end Steps

/-- A text of a value that is read back: it opens a value, and it is read as this value wherever a
number may end after it. -/
structure Reads (depth : Nat) (v : Json) (cs : List Char) : Prop where
  opens : Opens cs
  value_eq : ∀ {fuel : Nat} {rest : List Char}, cs.length ≤ fuel → Closes rest →
    value depth fuel (cs ++ rest) = .ok (v, rest)

/-- A text that opens a value takes at least one step to be read. -/
theorem Reads.of_succ {depth : Nat} {v : Json} {cs : List Char} (hopens : Opens cs)
    (h : ∀ {fuel : Nat} {rest : List Char}, cs.length ≤ fuel + 1 → Closes rest →
      value depth (fuel + 1) (cs ++ rest) = .ok (v, rest)) : Reads depth v cs := by
  refine ⟨hopens, fun {fuel rest} hfuel hrest => ?_⟩
  obtain ⟨c, more, rfl, -⟩ := hopens
  obtain ⟨fuel, rfl⟩ := Nat.exists_eq_add_one.2 (Nat.zero_lt_of_lt hfuel)
  exact h hfuel hrest

/-- A member of an object, given the text of its value. -/
def memberText (text : Json → List Char) (m : String × Json) : List Char :=
  '"' :: (m.1.toList.flatMap Writer.escape ++ '"' :: ':' :: ' ' :: text m.2)

section Containers

variable {depth : Nat} {text : Json → List Char} {line blanks : List Char}
  (hline : ∀ c ∈ line, IsBlank c) (hblanks : ∀ c ∈ blanks, IsBlank c)

theorem opens_intercalate {separator first : List Char} (h : Opens first)
    (others : List (List Char)) : Opens (separator.intercalate (first :: others)) := by
  obtain ⟨c, rest, rfl, hc⟩ := h
  exact ⟨c, _, List.intercalate_cons_cons_left, hc⟩

theorem opens_memberText (m : String × Json) : Opens (memberText text m) :=
  ⟨'"', _, rfl, by decide, by decide, by decide⟩

theorem members_memberText {m : String × Json} (h : Reads depth m.2 (text m.2)) (done : Members)
    {fuel : Nat} (hfuel : (text m.2).length ≤ fuel) {rest : List Char} (hrest : Closes rest) :
    members depth done (fuel + 1) (memberText text m ++ rest) = match skipBlanks rest with
      | ',' :: rest => members depth (done.put m.1 m.2) fuel (skipBlanks rest)
      | '\x7d' :: rest => .ok (done.put m.1 m.2, rest)
      | _ => .error .malformed := by
  have hblank : ∀ c ∈ [' '], IsBlank c := List.forall_mem_singleton.2 (by decide)
  have hopens : skipBlanks (' ' :: (text m.2 ++ rest)) = text m.2 ++ rest :=
    (skipBlanks_append hblank _).trans (h.opens.skipBlanks rest)
  unfold memberText
  rw [List.cons_append, List.append_assoc]
  refine members_step (stringBody_toList m.1 _) (skipBlanks_of_not_blank (by decide) _) ?_
  exact (congrArg _ hopens).trans (h.value_eq hfuel hrest)

include hline hblanks

theorem items_intercalate {v : Json} {vs : List Json}
    (h : ∀ w ∈ v :: vs, Reads depth w (text w)) {fuel : Nat} {rest : List Char}
    (hfuel : ((',' :: line).intercalate ((v :: vs).map text)).length < fuel) :
    items depth fuel ((',' :: line).intercalate ((v :: vs).map text) ++ (blanks ++ ']' :: rest)) =
      .ok (v :: vs, rest) := by
  induction vs generalizing v fuel with
  | nil =>
      obtain ⟨fuel, rfl⟩ := Nat.exists_eq_add_one.2 (Nat.zero_lt_of_lt hfuel)
      have hv := h v List.mem_cons_self
      rw [List.map_singleton, List.intercalate_singleton] at hfuel ⊢
      have hcloses : Closes (blanks ++ ']' :: rest) :=
        closes_append hblanks (closes_cons (by decide))
      have hend : skipBlanks (blanks ++ ']' :: rest) = ']' :: rest := by
        rw [skipBlanks_append hblanks, skipBlanks_of_not_blank (by decide)]
      exact items_last (hv.value_eq (Nat.le_of_lt_succ hfuel) hcloses) hend
  | cons w vs ih =>
      obtain ⟨fuel, rfl⟩ := Nat.exists_eq_add_one.2 (Nat.zero_lt_of_lt hfuel)
      have hv := h v List.mem_cons_self
      have hothers : ∀ u ∈ w :: vs, Reads depth u (text u) :=
        fun u hu => h u (List.mem_cons_of_mem _ hu)
      rw [List.map_cons, List.map_cons, List.intercalate_cons_cons, ← List.map_cons] at hfuel ⊢
      simp only [List.length_append, List.length_cons] at hfuel
      simp only [List.append_assoc, List.cons_append]
      have hopens : Opens ((',' :: line).intercalate ((w :: vs).map text)) :=
        opens_intercalate (hothers w List.mem_cons_self).opens _
      refine items_more (hv.value_eq (by omega) (closes_cons (by decide)))
        (skipBlanks_of_not_blank (by decide) _) ?_
      rw [skipBlanks_append hline, hopens.skipBlanks]
      exact ih hothers (by omega)

theorem members_intercalate {m : String × Json} {ms done : Members}
    (hnames : ((done ++ m :: ms).map (·.1)).Nodup)
    (h : ∀ n ∈ m :: ms, Reads depth n.2 (text n.2)) {fuel : Nat} {rest : List Char}
    (hfuel : ((',' :: line).intercalate ((m :: ms).map (memberText text))).length < fuel) :
    members depth done fuel ((',' :: line).intercalate ((m :: ms).map (memberText text)) ++
      (blanks ++ '\x7d' :: rest)) = .ok (done ++ m :: ms, rest) := by
  induction ms generalizing m done fuel with
  | nil =>
      obtain ⟨fuel, rfl⟩ := Nat.exists_eq_add_one.2 (Nat.zero_lt_of_lt hfuel)
      have hclosing : Closes (blanks ++ '\x7d' :: rest) :=
        closes_append hblanks (closes_cons (by decide))
      rw [List.map_singleton, List.intercalate_singleton] at hfuel ⊢
      simp only [memberText, List.length_cons, List.length_append] at hfuel
      rw [members_memberText (h m List.mem_cons_self) done (by omega) hclosing,
        skipBlanks_append hblanks, skipBlanks_of_not_blank (by decide),
        Members.put_of_not_mem (Members.not_mem_of_nodup hnames)]
      rfl
  | cons n ms ih =>
      obtain ⟨fuel, rfl⟩ := Nat.exists_eq_add_one.2 (Nat.zero_lt_of_lt hfuel)
      have hothers : ∀ o ∈ n :: ms, Reads depth o.2 (text o.2) :=
        fun o ho => h o (List.mem_cons_of_mem _ ho)
      rw [List.map_cons, List.map_cons, List.intercalate_cons_cons, ← List.map_cons] at hfuel ⊢
      simp only [memberText, List.length_append, List.length_cons] at hfuel
      simp only [List.append_assoc, List.cons_append]
      rw [members_memberText (h m List.mem_cons_self) done (by omega) (closes_cons (by decide)),
        skipBlanks_of_not_blank (by decide),
        Members.put_of_not_mem (Members.not_mem_of_nodup hnames)]
      change members depth (done ++ [m]) fuel (skipBlanks (line ++ _)) = _
      have hopens : Opens ((',' :: line).intercalate ((n :: ms).map (memberText text))) :=
        opens_intercalate (opens_memberText n) _
      have hsplit : done ++ m :: n :: ms = (done ++ [m]) ++ n :: ms := by simp
      rw [skipBlanks_append hline, hopens.skipBlanks, hsplit]
      exact ih (hsplit ▸ hnames) hothers (by omega)

end Containers

section Values

variable {depth fuel : Nat} {cs rest : List Char}

theorem value_array_eq (depth fuel : Nat) (cs : List Char) :
    value (depth + 1) (fuel + 1) ('[' :: cs) = match skipBlanks cs with
      | ']' :: rest => .ok (.array [], rest)
      | rest => do
        let (items, rest) ← items depth fuel rest
        return (.array items, rest) := rfl

theorem value_object_eq (depth fuel : Nat) (cs : List Char) :
    value (depth + 1) (fuel + 1) ('\x7b' :: cs) = match skipBlanks cs with
      | '\x7d' :: rest => .ok (.object [], rest)
      | rest => do
        let (members, rest) ← members depth [] fuel rest
        return (.object members, rest) := rfl

theorem value_array {vs : List Json} {c : Char} {more : List Char}
    (hopens : skipBlanks cs = c :: more) (hc : c ≠ ']')
    (hitems : items depth fuel (c :: more) = .ok (vs, rest)) :
    value (depth + 1) (fuel + 1) ('[' :: cs) = .ok (.array vs, rest) := by
  rw [value_array_eq, hopens]
  split
  · exact absurd (List.cons.inj ‹_›).1 hc
  · exact bind_eq_ok_iff.2 ⟨_, hitems, rfl⟩

theorem value_object {ms : Members} {c : Char} {more : List Char}
    (hopens : skipBlanks cs = c :: more) (hc : c ≠ '\x7d')
    (hmembers : members depth [] fuel (c :: more) = .ok (ms, rest)) :
    value (depth + 1) (fuel + 1) ('\x7b' :: cs) = .ok (.object ms, rest) := by
  rw [value_object_eq, hopens]
  split
  · exact absurd (List.cons.inj ‹_›).1 hc
  · exact bind_eq_ok_iff.2 ⟨_, hmembers, rfl⟩

theorem value_string (text : String) (depth fuel : Nat) (rest : List Char) :
    value depth (fuel + 1) ('"' :: (text.toList.flatMap Writer.escape ++ '"' :: rest)) =
      .ok (.string text, rest) := by
  unfold value
  exact bind_eq_ok_iff.2 ⟨_, stringBody_toList text rest, rfl⟩

end Values

end Reader

namespace Writer

theorem indentedItems_eq_map (step indent : Nat) (vs : List Json) :
    indentedItems step indent vs = vs.map (indentedValue step indent) := by
  induction vs with
  | nil => rfl
  | cons v vs ih => rw [indentedItems, ih, List.map_cons]

theorem indentedMembers_eq_map (step indent : Nat) (ms : Members) :
    indentedMembers step indent ms =
      ms.map fun m => quoted m.1 ++ ": " ++ indentedValue step indent m.2 := by
  induction ms with
  | nil => rfl
  | cons m ms ih => rw [indentedMembers, ih, List.map_cons]

/-- A line end and the blanks that the next line begins with. -/
def newLine (indent : Nat) : List Char := '\n' :: List.replicate indent ' '

theorem isBlank_of_mem_newLine (indent : Nat) : ∀ c ∈ newLine indent, Reader.IsBlank c := by
  intro c hc
  rcases List.mem_cons.1 hc with rfl | hblank
  · decide
  · rw [List.eq_of_mem_replicate hblank]
    decide

theorem toList_block {parts : List String} (h : parts ≠ []) (opening closing : String)
    (indent step : Nat) : (block opening closing indent step parts).toList =
      opening.toList ++ (newLine (indent + step) ++ ((',' :: newLine (indent + step)).intercalate
        (parts.map String.toList) ++ (newLine indent ++ closing.toList))) := by
  unfold block
  rw [if_neg (by simpa using h)]
  simp [newLine]

theorem toList_array {vs : List Json} (h : vs ≠ []) (step indent : Nat) :
    (indentedValue step indent (.array vs)).toList =
      '[' :: (newLine (indent + step) ++ ((',' :: newLine (indent + step)).intercalate
        (vs.map fun v => (indentedValue step (indent + step) v).toList) ++
          (newLine indent ++ [']']))) := by
  rw [indentedValue, indentedItems_eq_map, toList_block (by simpa using h), List.map_map]
  rfl

theorem toList_object {ms : Members} (h : ms ≠ []) (step indent : Nat) :
    (indentedValue step indent (.object ms)).toList =
      '\x7b' :: (newLine (indent + step) ++ ((',' :: newLine (indent + step)).intercalate
        (ms.map (Reader.memberText fun v => (indentedValue step (indent + step) v).toList)) ++
          (newLine indent ++ ['\x7d']))) := by
  have hmembers : (ms.map fun m => quoted m.1 ++ ": " ++
      indentedValue step (indent + step) m.2).map String.toList =
        ms.map (Reader.memberText fun v => (indentedValue step (indent + step) v).toList) := by
    rw [List.map_map]
    refine List.map_congr_left fun m _ => ?_
    simp [Reader.memberText, quoted]
  rw [indentedValue, indentedMembers_eq_map, toList_block (by simpa using h), hmembers]
  rfl

end Writer

namespace Reader

open Writer

section

variable {depth : Nat} {step indent : Nat}

theorem reads_scalar {v : Json} (c : Char) (more : List Char) (hopens : Opens (c :: more))
    (hstring : c ≠ '"') (harray : c ≠ '[') (hobject : c ≠ '\x7b')
    (h : ∀ rest, Closes rest → scalar (c :: more ++ rest) = .ok (v, rest)) :
    Reads depth v (c :: more) :=
  .of_succ hopens fun _ hrest =>
    (value_of_scalar hstring harray hobject _ _ _).trans (h _ hrest)

/-- The text of a whole number begins with a digit or a sign. -/
theorem exists_cons_toString (n : Int) : ∃ c more, (toString n).toList = c :: more ∧
    (c.isDigit = true ∨ c = '-') := by
  rw [Int.toString_eq_repr, Int.repr_eq_if]
  split
  · obtain ⟨c, more, hdigits⟩ := List.exists_cons_of_ne_nil
      (Nat.toDigits_ne_nil (n := n.toNat) (b := 10))
    refine ⟨c, more, by rw [Nat.toList_repr, hdigits], .inl ?_⟩
    refine Nat.isDigit_of_mem_toDigits (b := 10) (n := n.toNat) (by decide) (by decide) ?_
    rw [hdigits]
    exact List.mem_cons_self
  · exact ⟨'-', _, String.toList_append, .inr rfl⟩

theorem reads_int {n : Int} (h : n.natAbs < 10 ^ Text.Digit.maxDigits) :
    Reads depth (.int n) (toString n).toList := by
  obtain ⟨c, more, htext, hc⟩ := exists_cons_toString n
  have hscalar : ∀ rest, Closes rest →
      scalar ((toString n).toList ++ rest) = .ok (.int n, rest) := fun _ => scalar_int h
  have hne : ∀ d : Char, d.isDigit = false → d ≠ '-' → c ≠ d := by
    rintro d hd hminus rfl
    rcases hc with hc | hc
    · rw [hd] at hc
      cases hc
    · exact hminus hc
  have hblank : ¬ IsBlank c := by
    simp [IsBlank, hne ' ' rfl (by decide), hne '\t' rfl (by decide), hne '\n' rfl (by decide),
      hne '\r' rfl (by decide)]
  rw [htext] at hscalar ⊢
  have hopens : Opens (c :: more) :=
    ⟨c, more, rfl, hblank, hne _ rfl (by decide), hne _ rfl (by decide)⟩
  exact reads_scalar c more hopens (hne _ rfl (by decide)) (hne _ rfl (by decide))
    (hne _ rfl (by decide)) hscalar

theorem reads_string (text : String) : Reads depth (.string text) (quoted text).toList := by
  have htext : (quoted text).toList = '"' :: (text.toList.flatMap escape ++ ['"']) := by
    simp [quoted]
  rw [htext]
  refine .of_succ ⟨_, _, rfl, by decide, by decide, by decide⟩ fun {fuel rest} _ _ => ?_
  rw [List.cons_append, List.append_assoc]
  exact value_string text depth fuel rest

/-- Any blanks may stand before a text that opens a value. -/
theorem skipBlanks_opens {blanks cs : List Char} (hblanks : ∀ c ∈ blanks, IsBlank c)
    (h : Opens cs) (rest : List Char) : ∃ c more, skipBlanks (blanks ++ (cs ++ rest)) = c :: more ∧
      cs ++ rest = c :: more ∧ c ≠ ']' ∧ c ≠ '\x7d' := by
  have hskip := (skipBlanks_append hblanks _).trans (h.skipBlanks rest)
  obtain ⟨c, more, rfl, -, hend⟩ := h
  exact ⟨c, more ++ rest, hskip, rfl, hend⟩

theorem reads_array {vs : List Json}
    (h : ∀ v ∈ vs, Reads depth v (indentedValue step (indent + step) v).toList) :
    Reads (depth + 1) (.array vs) (indentedValue step indent (.array vs)).toList := by
  cases vs with
  | nil =>
      have htext : (indentedValue step indent (.array [])).toList = ['[', ']'] := by
        simp [indentedValue, indentedItems, block]
      rw [htext]
      exact .of_succ ⟨_, _, rfl, by decide, by decide, by decide⟩ fun _ _ => rfl
  | cons v vs =>
      rw [toList_array (List.cons_ne_nil v vs)]
      refine .of_succ ⟨_, _, rfl, by decide, by decide, by decide⟩ fun {fuel rest} hfuel _ => ?_
      simp only [List.length_cons, List.length_append] at hfuel
      simp only [List.cons_append, List.append_assoc]
      have hopens : Opens ((',' :: newLine (indent + step)).intercalate ((v :: vs).map fun w =>
          (indentedValue step (indent + step) w).toList)) :=
        opens_intercalate (h v List.mem_cons_self).opens _
      obtain ⟨c, more, hskip, hparts, hend, -⟩ := skipBlanks_opens
        (isBlank_of_mem_newLine (indent + step)) hopens (newLine indent ++ ']' :: rest)
      refine value_array hskip hend ?_
      rw [← hparts]
      exact items_intercalate (isBlank_of_mem_newLine _) (isBlank_of_mem_newLine _) h (by omega)

theorem reads_object {ms : Members} (hnames : (ms.map (·.1)).Nodup)
    (h : ∀ m ∈ ms, Reads depth m.2 (indentedValue step (indent + step) m.2).toList) :
    Reads (depth + 1) (.object ms) (indentedValue step indent (.object ms)).toList := by
  cases ms with
  | nil =>
      have htext : (indentedValue step indent (.object [])).toList = ['\x7b', '\x7d'] := by
        simp [indentedValue, indentedMembers, block]
      rw [htext]
      exact .of_succ ⟨_, _, rfl, by decide, by decide, by decide⟩ fun _ _ => rfl
  | cons m ms =>
      rw [toList_object (List.cons_ne_nil m ms)]
      refine .of_succ ⟨_, _, rfl, by decide, by decide, by decide⟩ fun {fuel rest} hfuel _ => ?_
      simp only [List.length_cons, List.length_append] at hfuel
      simp only [List.cons_append, List.append_assoc]
      have hopens : Opens ((',' :: newLine (indent + step)).intercalate ((m :: ms).map
          (memberText fun w => (indentedValue step (indent + step) w).toList))) :=
        opens_intercalate (opens_memberText m) _
      obtain ⟨c, more, hskip, hparts, -, hend⟩ := skipBlanks_opens
        (isBlank_of_mem_newLine (indent + step)) hopens (newLine indent ++ '\x7d' :: rest)
      refine value_object hskip hend ?_
      rw [← hparts]
      exact members_intercalate (isBlank_of_mem_newLine _) (isBlank_of_mem_newLine _) hnames h
        (by omega)

/-- What is written over several lines is read. -/
theorem reads_indented {v : Json} (h : IsExact depth v) (step indent : Nat) :
    Reads depth v (indentedValue step indent v).toList := by
  induction h generalizing indent with
  | null =>
      rw [indentedValue]
      exact reads_scalar 'n' "ull".toList
        ⟨_, _, rfl, by decide, by decide, by decide⟩ (by decide) (by decide) (by decide)
        fun _ _ => rfl
  | bool b =>
      cases b with
      | false =>
          rw [indentedValue]
          exact reads_scalar 'f' "alse".toList
            ⟨_, _, rfl, by decide, by decide, by decide⟩ (by decide) (by decide) (by decide)
            fun _ _ => rfl
      | true =>
          rw [indentedValue]
          exact reads_scalar 't' "rue".toList
            ⟨_, _, rfl, by decide, by decide, by decide⟩ (by decide) (by decide) (by decide)
            fun _ _ => rfl
  | int h =>
      rw [indentedValue]
      exact reads_int h
  | string s =>
      rw [indentedValue]
      exact reads_string s
  | array _ ih => exact reads_array fun v hv => ih v hv _
  | object hnames _ ih => exact reads_object hnames fun m hm => ih m hm _

end

end Reader

/-- A value is read back as it has been written. -/
theorem parse_indented {v : Json} (h : IsExact maxDepth v) (step : Nat) :
    parse (v.indented step) = .ok v := by
  have hreads := Reader.reads_indented h step 0
  have hskip := hreads.opens.skipBlanks []
  have hfuel : (Writer.indentedValue step 0 v).toList.length ≤
      2 * (v.indented step).toList.length + 2 := by
    change (v.indented step).toList.length ≤ _
    omega
  have hvalue := hreads.value_eq hfuel Reader.closes_nil
  rw [List.append_nil] at hskip hvalue
  unfold parse
  refine Run.bind_eq_ok_iff.2 ⟨(v, []), ?_, rfl⟩
  exact (congrArg _ hskip).trans hvalue

end PracticeShell.Json
