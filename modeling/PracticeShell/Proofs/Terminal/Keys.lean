import PracticeShell.Proofs.Text.Bytes
import PracticeShell.Terminal

/-!
# Keys that arrive in chunks

A terminal reads its chunks as if all their keys had arrived at once, with one difference: a line feed
right after a carriage return is dropped only if both are in one chunk. So a carriage return that ends
a chunk before a line feed counts as two (`Terminal.keysOf`), and with that any way of cutting is read
like keys that have arrived (`Terminal.readLines_eq`).

Characters that stand for themselves (`Editor.IsTyped`) and a carriage return are read as a line and
echoed. What a terminal still brings (`Terminal.Brings`) is what has been sent to it without the lines
that have been read (`Terminal.readLine_typed`).
-/

namespace PracticeShell

namespace Editor

/-- Where a key leads to, whether the line goes on or not. -/
def Place.next : Place → Char → Place
  | .line, c => if c = '\x1b' then .escape else .line
  | .escape, c => if c = '[' ∨ c = 'O' then .sequence else .line
  | .sequence, c => if Text.Letter.isLetter c ∨ c = '~' then .line else .sequence

/-- Where keys lead to. -/
def Place.after (p : Place) (keys : List Char) : Place := keys.foldl Place.next p

@[simp]
theorem Place.after_nil (p : Place) : p.after [] = p := rfl

@[simp]
theorem Place.after_cons (p : Place) (c : Char) (keys : List Char) :
    p.after (c :: keys) = (p.next c).after keys := rfl

variable {masked : Bool} {s t : State} {c : Char} {echo line : String}

theorem place_of_goOn (h : step masked s c = .goOn t echo) : t.place = s.place.next c := by
  obtain ⟨place, typed⟩ := s
  cases place with
  | line =>
      simp only [step, lineStep] at h
      split at h
      · cases h
      split at h
      · cases h
      split at h
      · split at h <;> cases h
        rename_i hc _
        subst hc
        rfl
      split at h
      · rename_i hrub
        have hc : c ≠ '\x1b' := by
          rintro rfl
          exact absurd hrub (by decide)
        cases typed <;> cases h <;> exact (if_neg hc).symm
      split at h
      · rename_i hc
        cases h
        subst hc
        rfl
      · rename_i hc
        split at h <;> cases h <;> exact (if_neg hc).symm
  | escape =>
      cases h
      rfl
  | sequence =>
      cases h
      rfl

/-- A key that ends a line or closes the terminal is one outside of escape sequences, and leads
nowhere else. -/
theorem place_of_not_goOn (h : ∀ t echo, step masked s c ≠ .goOn t echo) :
    s.place = .line ∧ s.place.next c = .line := by
  obtain ⟨place, typed⟩ := s
  cases place with
  | line =>
      refine ⟨rfl, if_neg ?_⟩
      rintro rfl
      exact h _ _ rfl
  | escape => exact absurd rfl (h _ _)
  | sequence => exact absurd rfl (h _ _)

/-- A carriage return ends the line, or goes on to a place at which no sequence begins. -/
theorem step_return (masked : Bool) (s : State) :
    s.place = .line ∧ step masked s '\r' = .endLine (String.ofList s.typed.reverse) "\n" ∨
      s.place ≠ .line ∧ ∃ t, t.place ≠ .escape ∧ step masked s '\r' = .goOn t "" := by
  obtain ⟨place, typed⟩ := s
  cases place with
  | line => exact .inl ⟨rfl, rfl⟩
  | escape => exact .inr ⟨by simp, ⟨.line, typed⟩, by simp, rfl⟩
  | sequence => exact .inr ⟨by simp, ⟨.sequence, typed⟩, by simp, rfl⟩

end Editor

namespace Terminal

open Editor

/-- What comes of reading lines one after the other, each after a prompt and masked or not: the line,
none where the terminal was closed, and what is sent. -/
def readLines : List (String × Bool) → Terminal → List (Option String × String)
  | [], _ => []
  | (prompt, masked) :: asks, t =>
    let r := t.readLine prompt masked
    (r.line, r.sent) :: readLines asks r.terminal

/-- A terminal at which some keys have arrived, and no more will. -/
def held (keys : List Char) : Terminal := ⟨.start, keys, []⟩

/-- Keys after which further keys arrive. A carriage return before a line feed counts as two, as the
line feed has not arrived in time to be dropped. -/
def joined (first second : List Char) : List Char :=
  if first.getLast? = some '\r' ∧ second.head? = some '\n' then first ++ '\r' :: second
  else first ++ second

/-- The keys of chunks. -/
def keysFrom (decoder : Text.Utf8.State) : List (List UInt8) → List Char
  | [] => []
  | chunk :: chunks =>
    joined (Text.Utf8.run decoder chunk).1 (keysFrom (Text.Utf8.run decoder chunk).2 chunks)

/-- The keys that have arrived and those that are still to come. -/
def keysOf (t : Terminal) : List Char := joined t.arrived (keysFrom t.decoder t.chunks)

/-- Whether what is still to come does not break off. -/
def Flows (t : Terminal) : Prop := ∀ chunk ∈ t.chunks, chunk ≠ []

@[simp]
theorem joined_nil (keys : List Char) : joined [] keys = keys := by simp [joined]

@[simp]
theorem joined_nil_right (keys : List Char) : joined keys [] = keys := by simp [joined]

theorem joined_cons {first : List Char} (h : first ≠ []) (c : Char) (second : List Char) :
    joined (c :: first) second = c :: joined first second := by
  obtain ⟨d, rest, rfl⟩ := List.exists_cons_of_ne_nil h
  unfold joined
  rw [List.getLast?_cons_cons, List.cons_append, List.cons_append]
  split <;> rfl

theorem head?_joined {first : List Char} (h : first ≠ []) (second : List Char) :
    (joined first second).head? = first.head? := by
  obtain ⟨d, rest, rfl⟩ := List.exists_cons_of_ne_nil h
  unfold joined
  split <;> rfl

theorem joined_singleton (c : Char) (second : List Char) : joined [c] second = c :: second ∨
    c = '\r' ∧ second.head? = some '\n' ∧ joined [c] second = '\r' :: '\r' :: second := by
  unfold joined
  split
  · rename_i h
    obtain ⟨hc, hsecond⟩ := h
    have hc : c = '\r' := by simpa using hc
    subst hc
    exact .inr ⟨rfl, hsecond, rfl⟩
  · exact .inl rfl

theorem afterLine_return_feed (rest : List Char) : afterLine '\r' ('\n' :: rest) = rest := rfl

theorem afterLine_of_head {c : Char} {rest : List Char} (h : c = '\r' → rest.head? ≠ some '\n') :
    afterLine c rest = rest := by
  unfold afterLine
  split
  · exact absurd rfl (h rfl)
  · rfl

/-- What is dropped after the end of a line does not depend on the keys that arrive later. -/
theorem afterLine_joined {first : List Char} (h : first ≠ []) (c : Char) (second : List Char) :
    afterLine c (joined first second) = joined (afterLine c first) second := by
  by_cases hdropped : c = '\r' ∧ first.head? = some '\n'
  · obtain ⟨rfl, hhead⟩ := hdropped
    obtain ⟨rest, rfl⟩ := List.head?_eq_some_iff.1 hhead
    by_cases hrest : rest = []
    · subst hrest
      rcases joined_singleton '\n' second with hjoined | ⟨hfeed, -⟩
      · rw [hjoined, afterLine_return_feed, afterLine_return_feed, joined_nil]
      · exact absurd hfeed (by decide)
    · rw [joined_cons hrest, afterLine_return_feed, afterLine_return_feed]
  · have hkept : c = '\r' → first.head? ≠ some '\n' := fun hc hhead => hdropped ⟨hc, hhead⟩
    rw [afterLine_of_head hkept, afterLine_of_head]
    rwa [head?_joined h]

theorem length_afterLine_le (c : Char) (rest : List Char) : (afterLine c rest).length ≤ rest.length := by
  unfold afterLine
  split <;> simp

section

variable {masked : Bool} {s t : State} {echo sent : String} {line : Option String} {keys : List Char}

/-- Where no sequence has begun, a carriage return before a line feed changes nothing. -/
theorem typeKeys_return_feed (h : s.place ≠ .escape) (echo : String) (rest : List Char) :
    typeKeys masked s echo ('\r' :: '\n' :: rest) = typeKeys masked s echo ('\n' :: rest) := by
  obtain ⟨place, typed⟩ := s
  cases place with
  | line => rfl
  | escape => exact absurd rfl h
  | sequence =>
      change typeKeys masked ⟨.sequence, typed⟩ (echo ++ wire "" ++ wire "") rest =
        typeKeys masked ⟨.sequence, typed⟩ (echo ++ wire "") rest
      rw [show wire "" = "" from rfl, String.append_empty, String.append_empty]

/-- Keys that do not end the line are typed before those that arrive after them. -/
theorem typeKeys_joined_of_typing {first : List Char}
    (h : typeKeys masked s echo first = .typing t sent) (second : List Char) :
    typeKeys masked s echo (joined first second) = typeKeys masked t sent second := by
  induction first generalizing s echo with
  | nil =>
      cases h
      rw [joined_nil]
  | cons c first ih =>
      unfold typeKeys at h
      split at h
      · rename_i u more hstep
        have hgoes : ∀ keys, typeKeys masked s echo (c :: keys) =
            typeKeys masked u (echo ++ wire more) keys := fun keys => by rw [typeKeys, hstep]
        by_cases hfirst : first = []
        · subst hfirst
          cases h
          rcases joined_singleton c second with hjoined | ⟨rfl, hsecond, hjoined⟩
          · rw [hjoined, hgoes]
          · obtain ⟨rest, rfl⟩ := List.head?_eq_some_iff.1 hsecond
            have hplace : t.place ≠ .escape := by
              rcases step_return masked s with ⟨-, hend⟩ | ⟨-, v, hv, hgo⟩
              · rw [hend] at hstep
                cases hstep
              · rw [hgo] at hstep
                cases hstep
                exact hv
            rw [hjoined, hgoes, typeKeys_return_feed hplace]
        · rw [joined_cons hfirst, hgoes]
          exact ih h
      · cases h
      · cases h

/-- Keys that are left when a line is ended stand before those that arrive after them. If none are
left, a carriage return that ended the line may have to be read once more. -/
theorem typeKeys_joined_of_ended {first rest : List Char}
    (h : typeKeys masked s echo first = .ended line sent rest) (second : List Char) :
    ∃ later, typeKeys masked s echo (joined first second) = .ended line sent later ∧
      (later = joined rest second ∨
        later = '\r' :: joined rest second ∧ (joined rest second).head? = some '\n') := by
  induction first generalizing s echo with
  | nil => cases h
  | cons c first ih =>
      unfold typeKeys at h
      split at h
      · rename_i u more hstep
        have hfirst : first ≠ [] := by
          rintro rfl
          cases h
        rw [joined_cons hfirst, typeKeys, hstep]
        exact ih h
      · rename_i ended more hstep
        cases h
        have hends : ∀ keys, typeKeys masked s echo (c :: keys) =
            .ended (some ended) (echo ++ wire more) (afterLine c keys) := fun keys => by
          rw [typeKeys, hstep]
        by_cases hfirst : first = []
        · subst hfirst
          have hnone : afterLine c [] = [] := afterLine_of_head nofun
          rw [hnone, joined_nil]
          rcases joined_singleton c second with hjoined | ⟨rfl, hsecond, hjoined⟩
          · refine ⟨_, by rw [hjoined, hends], .inl (afterLine_of_head ?_)⟩
            rintro rfl hsecond
            rw [joined, if_pos ⟨rfl, hsecond⟩] at hjoined
            obtain ⟨rest, rfl⟩ := List.head?_eq_some_iff.1 hsecond
            simp at hjoined
          · refine ⟨_, by rw [hjoined, hends], .inr ⟨afterLine_of_head ?_, hsecond⟩⟩
            simp
        · rw [joined_cons hfirst, hends]
          exact ⟨_, rfl, .inl (afterLine_joined hfirst c second)⟩
      · rename_i hstep
        cases h
        have hends : ∀ keys, typeKeys masked s sent (c :: keys) = .ended none sent keys := fun keys => by
          rw [typeKeys, hstep]
        by_cases hrest : rest = []
        · subst hrest
          rcases joined_singleton c second with hjoined | ⟨rfl, -, -⟩
          · rw [hjoined, hends, joined_nil]
            exact ⟨_, rfl, .inl rfl⟩
          · rcases step_return masked s with ⟨-, hend⟩ | ⟨-, v, -, hgo⟩
            · rw [hend] at hstep
              cases hstep
            · rw [hgo] at hstep
              cases hstep
        · rw [joined_cons hrest, hends]
          exact ⟨_, rfl, .inl rfl⟩

end

/-- Whether a line is read as if all keys had arrived, some of which have been typed. -/
inductive Matches : Reading → Progress → Prop
  | typing {s : State} {sent : String} {t : Terminal} (hflows : t.Flows) (hkeys : t.keysOf = []) :
      Matches ⟨none, sent, t⟩ (.typing s sent)
  | ended {line : Option String} {sent : String} {t : Terminal} {rest : List Char}
      (hflows : t.Flows)
      (hrest : rest = t.keysOf ∨ rest = '\r' :: t.keysOf ∧ t.keysOf.head? = some '\n') :
      Matches ⟨line, sent, t⟩ (.ended line sent rest)

theorem receive_matches {chunks : List (List UInt8)} (h : ∀ chunk ∈ chunks, chunk ≠ [])
    (masked : Bool) (decoder : Text.Utf8.State) (s : State) (sent : String) :
    Matches (receive masked decoder s sent chunks)
      (typeKeys masked s sent (keysFrom decoder chunks)) := by
  induction chunks generalizing decoder s sent with
  | nil => exact .typing nofun rfl
  | cons chunk chunks ih =>
      have hchunk : chunk.isEmpty = false := by simpa using h chunk (by simp)
      have hchunks : ∀ other ∈ chunks, other ≠ [] := fun other hother => h other (by simp [hother])
      rw [receive, hchunk, keysFrom]
      dsimp only [Bool.false_eq_true, if_false]
      generalize Text.Utf8.run decoder chunk = decoded
      cases htyped : typeKeys masked s sent decoded.1 with
      | typing t echoed =>
          rw [typeKeys_joined_of_typing htyped]
          exact ih hchunks _ _ _
      | ended line echoed rest =>
          obtain ⟨later, hlater, hrest⟩ :=
            typeKeys_joined_of_ended htyped (keysFrom decoded.2 chunks)
          rw [hlater]
          exact .ended hchunks hrest

theorem readLine_matches {t : Terminal} (h : t.Flows) (prompt : String) (masked : Bool) :
    Matches (t.readLine prompt masked) (typeKeys masked .empty (wire prompt) t.keysOf) := by
  unfold readLine keysOf
  cases htyped : typeKeys masked .empty (wire prompt) t.arrived with
  | typing s sent =>
      rw [typeKeys_joined_of_typing htyped]
      exact receive_matches h _ _ _ _
  | ended line sent rest =>
      obtain ⟨later, hlater, hrest⟩ :=
        typeKeys_joined_of_ended htyped (keysFrom t.decoder t.chunks)
      rw [hlater]
      exact .ended h hrest

theorem readLines_held_cons (prompt : String) (masked : Bool) (asks : List (String × Bool))
    (keys : List Char) : readLines ((prompt, masked) :: asks) (held keys) =
      match typeKeys masked .empty (wire prompt) keys with
        | .typing _ sent => (none, sent) :: readLines asks (held [])
        | .ended line sent rest => (line, sent) :: readLines asks (held rest) := by
  rw [readLines]
  unfold readLine
  dsimp only [held]
  cases typeKeys masked .empty (wire prompt) keys <;> rfl

/-- A carriage return before a line feed at which a line begins is not noticed. -/
theorem readLines_held_return {keys : List Char} (h : keys.head? = some '\n')
    (asks : List (String × Bool)) :
    readLines asks (held ('\r' :: keys)) = readLines asks (held keys) := by
  obtain ⟨rest, rfl⟩ := List.head?_eq_some_iff.1 h
  cases asks with
  | nil => rfl
  | cons ask asks =>
      rw [readLines_held_cons, readLines_held_cons,
        typeKeys_return_feed (s := State.empty) (nofun : Place.line ≠ .escape)]

/-- Lines are read as if all keys had arrived. -/
theorem readLines_eq {t : Terminal} (h : t.Flows) (asks : List (String × Bool)) :
    readLines asks t = readLines asks (held t.keysOf) := by
  induction asks generalizing t with
  | nil => rfl
  | cons ask asks ih =>
      obtain ⟨prompt, masked⟩ := ask
      have hmatches := readLine_matches h prompt masked
      rw [readLines_held_cons, readLines]
      generalize typeKeys masked .empty (wire prompt) t.keysOf = typed at hmatches
      generalize t.readLine prompt masked = r at hmatches
      cases hmatches with
      | typing hflows hkeys => rw [ih hflows, hkeys]
      | ended hflows hrest =>
          dsimp only
          rw [ih hflows]
          rcases hrest with rfl | ⟨rfl, hfeed⟩
          · rfl
          · rw [readLines_held_return hfeed]

end Terminal

/-- Whether a character is put into a line as it is: it is no control character but the tab. -/
def Editor.IsTyped (c : Char) : Prop := (' ' ≤ c ∨ c = '\t') ∧ c ≠ '\x7f'

instance (c : Char) : Decidable (Editor.IsTyped c) := by
  unfold Editor.IsTyped
  infer_instance

namespace Editor

variable {c : Char}

theorem isTyped_of_all {lines : List String}
    (h : (lines.all fun line => line.toList.all fun c => decide (IsTyped c)) = true) :
    ∀ line ∈ lines, ∀ c ∈ line.toList, IsTyped c := by
  simpa only [List.all_eq_true, decide_eq_true_eq] using h

theorem IsTyped.ne_of_lt (h : IsTyped c) {d : Char} (hd : d < ' ') (htab : d ≠ '\t') : c ≠ d := by
  rintro rfl
  exact h.1.elim (fun hle => absurd hd (Char.not_lt.2 hle)) htab

theorem lineStep_of_isTyped (h : IsTyped c) (typed : List Char) :
    lineStep false typed c = .goOn ⟨.line, c :: typed⟩ c.toString := by
  have hreturn : c ≠ '\r' := h.ne_of_lt (by decide) (by decide)
  have hfeed : c ≠ '\n' := h.ne_of_lt (by decide) (by decide)
  have hbreak : c ≠ '\x03' := h.ne_of_lt (by decide) (by decide)
  have hclose : c ≠ '\x04' := h.ne_of_lt (by decide) (by decide)
  have hback : c ≠ '\x08' := h.ne_of_lt (by decide) (by decide)
  have hescape : c ≠ '\x1b' := h.ne_of_lt (by decide) (by decide)
  have hrub : isRubOut c = false := by simp [isRubOut, h.2, hback]
  have hcontrol : ¬(c < ' ' ∧ c ≠ '\t') := fun hc =>
    h.1.elim (fun hle => absurd hc.1 (Char.not_lt.2 hle)) hc.2
  simp only [lineStep, hreturn, hfeed, hbreak, hclose, hrub, hescape, hcontrol, or_self,
    if_false, Bool.false_eq_true]

end Editor

namespace Terminal

open Editor

/-- A character that is no line end is sent as it is. -/
theorem wire_toString {c : Char} (h : c ≠ '\n') : wire c.toString = c.toString := by
  apply String.toList_injective
  simp [wire, Text.Replace.all, Text.Replace.go, h.symm]

/-- Keys that are put into the line, and a carriage return, end a line with these keys. -/
theorem typeKeys_typed {keys : List Char} (h : ∀ c ∈ keys, IsTyped c) (typed rest : List Char)
    (echo : String) : typeKeys false ⟨.line, typed⟩ echo (keys ++ '\r' :: rest) =
      .ended (some (String.ofList (typed.reverse ++ keys))) (echo ++ String.ofList keys ++ "\r\n")
        (afterLine '\r' rest) := by
  induction keys generalizing typed echo with
  | nil =>
      have hwire : wire "\n" = "\r\n" := by decide
      rw [List.nil_append, List.append_nil, typeKeys, step]
      change Progress.ended (some (String.ofList typed.reverse)) (echo ++ wire "\n") _ = _
      rw [hwire, String.ofList_nil, String.append_empty]
  | cons c keys ih =>
      obtain ⟨hc, hkeys⟩ := List.forall_mem_cons.1 h
      rw [List.cons_append, typeKeys, step]
      dsimp only
      rw [lineStep_of_isTyped hc]
      dsimp only
      rw [wire_toString (hc.ne_of_lt (by decide) (by decide)), ih hkeys]
      have hecho : echo ++ c.toString ++ String.ofList keys = echo ++ String.ofList (c :: keys) :=
        String.toList_injective (by simp)
      rw [hecho, List.reverse_cons, List.append_assoc, List.singleton_append]

/-- What has arrived at a terminal and will, without the lines that have been read, in one piece. -/
structure Brings (t : Terminal) (keys : List Char) : Prop where
  flows : t.Flows
  keys : t.keysOf = keys

variable {t : Terminal} {line prompt : String} {rest : List Char}

/-- A line that is typed is read and echoed. -/
theorem readLine_typed (h : t.Brings (line.toList ++ '\r' :: rest))
    (hline : ∀ c ∈ line.toList, IsTyped c) (hrest : '\n' ∉ rest) (prompt : String) :
    ∃ later : Terminal, t.readLine prompt false =
        ⟨some line, wire prompt ++ line ++ "\r\n", later⟩ ∧ later.Brings rest := by
  have hmatches := readLine_matches h.flows prompt false
  have hafter : afterLine '\r' rest = rest :=
    afterLine_of_head fun _ hhead => hrest (List.mem_of_head? hhead)
  rw [h.keys, State.empty, typeKeys_typed hline, hafter, List.reverse_nil, List.nil_append,
    String.ofList_toList] at hmatches
  generalize t.readLine prompt false = r at hmatches ⊢
  cases hmatches with
  | ended hflows hkeys =>
      rcases hkeys with hkeys | ⟨hkeys, hhead⟩
      · exact ⟨_, rfl, hflows, hkeys.symm⟩
      · rw [hkeys] at hrest
        exact absurd (List.mem_of_head? hhead) fun hmem => hrest (List.mem_cons_of_mem _ hmem)

/-- Where nothing comes any more, the prompt is shown and no line is read. -/
theorem readLine_of_brings_nil (h : t.Brings []) (prompt : String) (masked : Bool) :
    ∃ later, t.readLine prompt masked = ⟨none, wire prompt, later⟩ := by
  have hmatches := readLine_matches h.flows prompt masked
  rw [h.keys, typeKeys] at hmatches
  generalize t.readLine prompt masked = r at hmatches ⊢
  cases hmatches with
  | typing hflows hkeys => exact ⟨_, rfl⟩

/-- Where no line feed is sent, the keys are those that the bytes spell. -/
theorem keysFrom_of_no_feed {decoder : Text.Utf8.State} {chunks : List (List UInt8)}
    (h : '\n' ∉ (Text.Utf8.run decoder chunks.flatten).1) :
    keysFrom decoder chunks = (Text.Utf8.run decoder chunks.flatten).1 := by
  induction chunks generalizing decoder with
  | nil => rfl
  | cons chunk chunks ih =>
      rw [Text.Utf8.run_flatten_cons, List.mem_append, not_or] at h
      rw [keysFrom, ih h.2, Text.Utf8.run_flatten_cons, joined,
        if_neg fun hcut => h.2 (List.mem_of_head? hcut.2)]

/-- A terminal brings the text whose bytes are sent to it. -/
theorem brings_start {chunks : List (List UInt8)} {text : String}
    (hflows : ∀ chunk ∈ chunks, chunk ≠ [])
    (hbytes : chunks.flatten = (Text.Utf8.encode text).toList) (hfeed : '\n' ∉ text.toList) :
    (start chunks).Brings text.toList where
  flows := hflows
  keys := by
    have hrun : (Text.Utf8.run .start chunks.flatten).1 = text.toList := by
      rw [hbytes, Text.Utf8.run_encode]
    rw [keysOf, start, joined_nil, keysFrom_of_no_feed (hrun ▸ hfeed), hrun]

section Entering

variable {chunks : List (List UInt8)} {lines : List String}

/-- What is typed when lines are entered: each is ended by a carriage return. -/
def entered (lines : List String) : String := String.join (lines.map (· ++ "\r"))

/-- How lines that are entered are echoed. -/
def echoed (lines : List String) : String := String.join (lines.map (· ++ "\r\n"))

theorem toList_entered_cons (line : String) (lines : List String) :
    (entered (line :: lines)).toList = line.toList ++ '\r' :: (entered lines).toList := by
  simp [entered]

theorem toList_entered_append (lines more : List String) :
    (entered (lines ++ more)).toList = (entered lines).toList ++ (entered more).toList := by
  rw [entered, List.map_append, String.join_append, String.toList_append, entered, entered]

theorem echoed_cons (line : String) (lines : List String) :
    echoed (line :: lines) = line ++ "\r\n" ++ echoed lines := by
  rw [echoed, List.map_cons, String.join_cons, echoed]

theorem echoed_append (lines more : List String) :
    echoed (lines ++ more) = echoed lines ++ echoed more := by
  rw [echoed, List.map_append, String.join_append, echoed, echoed]

theorem not_mem_entered (h : ∀ line ∈ lines, ∀ c ∈ line.toList, IsTyped c) :
    '\n' ∉ (entered lines).toList := by
  induction lines with
  | nil => exact List.not_mem_nil
  | cons line lines ih =>
      obtain ⟨hline, hlines⟩ := List.forall_mem_cons.1 h
      rw [toList_entered_cons, List.mem_append, List.mem_cons, not_or, not_or]
      exact ⟨fun hmem => (hline _ hmem).ne_of_lt (by decide) (by decide) rfl, by decide, ih hlines⟩

theorem length_le_entered (lines : List String) :
    lines.length ≤ (entered lines).toList.length := by
  induction lines with
  | nil => exact Nat.zero_le _
  | cons line lines ih =>
      rw [toList_entered_cons, List.length_append, List.length_cons, List.length_cons]
      omega

/-- Whether lines are entered at a terminal: their bytes come, in whatever chunks. -/
structure Enters (chunks : List (List UInt8)) (lines : List String) : Prop where
  flows : ∀ chunk ∈ chunks, chunk ≠ []
  bytes : chunks.flatten = (Text.Utf8.encode (entered lines)).toList

theorem enters_singleton (h : lines ≠ []) :
    Enters [(Text.Utf8.encode (entered lines)).toList] lines where
  flows := by
    rw [List.forall_mem_singleton, ← List.length_pos_iff]
    have hlines := List.length_pos_iff.2 h
    have hkeys := length_le_entered lines
    have hbytes := Text.Utf8.length_le_length_encode (entered lines)
    omega
  bytes := List.flatten_singleton

theorem Enters.brings (h : Enters chunks lines)
    (hlines : ∀ line ∈ lines, ∀ c ∈ line.toList, IsTyped c) :
    (start chunks).Brings (entered lines).toList :=
  brings_start h.flows h.bytes (not_mem_entered hlines)

/-- There are not more lines than can be read. -/
theorem Enters.length_lt_bound (h : Enters chunks lines) : lines.length < (start chunks).bound := by
  have hbytes := Text.Utf8.length_le_length_encode (entered lines)
  have hlines := length_le_entered lines
  rw [← h.bytes] at hbytes
  change lines.length < 0 + 2 * chunks.flatten.length + 1
  omega

end Entering

end Terminal

end PracticeShell
