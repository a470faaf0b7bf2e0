import PracticeShell.Proofs.Terminal.Keys
import PracticeShell.Proofs.Text.Bytes

/-!
# Line ends cut in two

A carriage return and a line feed end one line, unless they end up in two chunks: then the line feed
ends a line of its own (`Terminal.SplitsLineEnd`). So a way of cutting is read like one that splits no
line end exactly if it splits none itself (`Terminal.reads_alike_iff`).
-/

namespace PracticeShell

namespace Terminal

open Editor

/-- Whether chunks end between a carriage return that ends a line and a line feed after it. -/
def SplitsLineEnd (chunks : List (List UInt8)) : Prop :=
  ∃ before after keys rest, chunks = before ++ after ∧
    (Text.Utf8.run .start before.flatten).1 = keys ++ ['\r'] ∧ Place.line.after keys = .line ∧
      (Text.Utf8.run (Text.Utf8.run .start before.flatten).2 after.flatten).1 = '\n' :: rest

/-- Whether chunks do so that come after some keys. -/
def SplitsFrom (typed : List Char) (decoder : Text.Utf8.State) (chunks : List (List UInt8)) : Prop :=
  ∃ before after keys rest, chunks = before ++ after ∧
    typed ++ (Text.Utf8.run decoder before.flatten).1 = keys ++ ['\r'] ∧
      Place.line.after keys = .line ∧
        (Text.Utf8.run (Text.Utf8.run decoder before.flatten).2 after.flatten).1 = '\n' :: rest

/-- Whether a key ends a line. -/
def endsLine (c : Char) : Bool := c == '\r' || c == '\n' || c == '\x03'

/-- The number of lines that keys end. A line feed right after a carriage return that ended a line
ends none. -/
def lineEnds : Place → (returned : Bool) → List Char → Nat
  | _, _, [] => 0
  | p, returned, c :: rest =>
    if returned ∧ c = '\n' then lineEnds p false rest
    else if p = .line ∧ endsLine c then lineEnds p (c == '\r') rest + 1
    else lineEnds (p.next c) false rest

section LineEnds

variable {masked : Bool} {s t : State} {c : Char} {line echo sent : String} {keys rest : List Char}

theorem endsLine_of_endLine (h : step masked s c = .endLine line echo) : endsLine c = true := by
  obtain ⟨place, typed⟩ := s
  cases place with
  | line =>
      simp only [step, lineStep] at h
      unfold endsLine
      split at h
      · rename_i hc
        rcases hc with rfl | rfl <;> rfl
      split at h
      · rename_i hc
        subst hc
        rfl
      split at h
      · split at h <;> cases h
      split at h
      · cases typed <;> cases h
      split at h
      · cases h
      split at h <;> cases h
  | escape => cases h
  | sequence => cases h

/-- Outside of escape sequences, a key that can end a line does so. -/
theorem endLine_of_endsLine (masked : Bool) (hplace : s.place = .line) (hc : endsLine c = true) :
    ∃ line echo, step masked s c = .endLine line echo := by
  obtain ⟨place, typed⟩ := s
  cases hplace
  unfold endsLine at hc
  rw [Bool.or_eq_true, Bool.or_eq_true, beq_iff_eq, beq_iff_eq, beq_iff_eq] at hc
  rcases hc with (rfl | rfl) | rfl <;> exact ⟨_, _, rfl⟩

theorem lineEnds_afterLine (c : Char) (rest : List Char) :
    lineEnds .line (c == '\r') rest = lineEnds .line false (afterLine c rest) := by
  by_cases hc : c = '\r'
  · subst hc
    cases rest with
    | nil => rfl
    | cons d rest =>
        by_cases hd : d = '\n'
        · subst hd
          rfl
        · rw [afterLine_of_head (by simpa using hd)]
          simp [lineEnds, hd]
  · rw [afterLine_of_head fun h => absurd h hc, beq_false_of_ne hc]

/-- Keys that are typed end no line; keys that end one, or close the terminal, leave fewer keys, which
end the other lines. -/
theorem lineEnds_of_typeKeys (masked : Bool) (s : State) (echo : String) (keys : List Char) :
    match typeKeys masked s echo keys with
      | .typing _ _ => lineEnds s.place false keys = 0
      | .ended line _ rest => rest.length < keys.length ∧
        lineEnds s.place false keys = lineEnds .line false rest + if line.isSome then 1 else 0 := by
  induction keys generalizing s echo with
  | nil => rfl
  | cons c keys ih =>
      rw [typeKeys]
      cases hstep : step masked s c with
      | goOn t more =>
          have hgoes : lineEnds s.place false (c :: keys) = lineEnds t.place false keys := by
            rw [lineEnds, if_neg (by simp), if_neg, place_of_goOn hstep]
            rintro ⟨hplace, hc⟩
            obtain ⟨line, echo, hend⟩ := endLine_of_endsLine masked hplace hc
            rw [hend] at hstep
            cases hstep
          have hrest := ih t (echo ++ wire more)
          dsimp only
          rw [hgoes]
          cases htyped : typeKeys masked t (echo ++ wire more) keys with
          | typing u sent =>
              rw [htyped] at hrest
              exact hrest
          | ended line sent rest =>
              rw [htyped] at hrest
              exact ⟨Nat.lt_succ_of_lt hrest.1, hrest.2⟩
      | endLine line more =>
          have hplace := (place_of_not_goOn fun t echo h => by rw [h] at hstep; cases hstep).1
          refine ⟨Nat.lt_succ_of_le (length_afterLine_le c keys), ?_⟩
          rw [lineEnds, if_neg (by simp), if_pos ⟨hplace, endsLine_of_endLine hstep⟩, hplace,
            lineEnds_afterLine]
          rfl
      | close =>
          obtain ⟨hplace, hnext⟩ :=
            place_of_not_goOn fun t echo h => by rw [h] at hstep; cases hstep
          refine ⟨Nat.lt_succ_self _, ?_⟩
          rw [lineEnds, if_neg (by simp), if_neg, hnext]
          · rfl
          · rintro ⟨-, hc⟩
            obtain ⟨line, echo, hend⟩ := endLine_of_endsLine masked hplace hc
            rw [hend] at hstep
            cases hstep

/-- Whoever asks often enough gets all lines. -/
theorem countP_readLines {asks : List (String × Bool)} {keys : List Char}
    (h : keys.length ≤ asks.length) :
    (readLines asks (held keys)).countP (·.1.isSome) = lineEnds .line false keys := by
  induction asks generalizing keys with
  | nil =>
      obtain rfl : keys = [] := List.length_eq_zero_iff.1 (Nat.le_zero.1 h)
      rfl
  | cons ask asks ih =>
      obtain ⟨prompt, masked⟩ := ask
      have hends := lineEnds_of_typeKeys masked .empty (wire prompt) keys
      rw [show State.empty.place = .line from rfl] at hends
      rw [readLines_held_cons]
      cases htyped : typeKeys masked .empty (wire prompt) keys with
      | typing s sent =>
          rw [htyped] at hends
          rw [hends]
          exact ih (Nat.zero_le _)
      | ended line sent rest =>
          rw [htyped] at hends
          obtain ⟨hshorter, hcount⟩ := hends
          have hrest : rest.length ≤ asks.length := by
            rw [List.length_cons] at h
            omega
          rw [hcount, ← ih hrest, List.countP_cons]

/-- Keys with which the same lines are read end as many lines. -/
theorem lineEnds_eq_of_readLines {keys other : List Char}
    (h : ∀ asks, readLines asks (held keys) = readLines asks (held other)) :
    lineEnds .line false keys = lineEnds .line false other := by
  let asks := List.replicate (keys.length + other.length) ("", false)
  have hlength : asks.length = keys.length + other.length := List.length_replicate
  have hkeys : keys.length ≤ asks.length := by omega
  have hother : other.length ≤ asks.length := by omega
  rw [← countP_readLines hkeys, ← countP_readLines hother, h]

end LineEnds

section Returns

/-- A carriage return that ends a line, read once more before a line feed, ends one line more. -/
theorem lineEnds_return_again {p : Place} {returned : Bool} (hreturned : returned = true → p = .line)
    {keys : List Char} (h : p.after keys = .line) (rest : List Char) :
    lineEnds p returned (keys ++ '\r' :: '\r' :: '\n' :: rest) =
      lineEnds p returned (keys ++ '\r' :: '\n' :: rest) + 1 := by
  induction keys generalizing p returned with
  | nil =>
      cases h
      simp [lineEnds, endsLine]
  | cons c keys ih =>
      have hnext : p = .line → c ≠ '\x1b' → p.next c = .line := by
        rintro rfl hc
        exact if_neg hc
      rw [Place.after_cons] at h
      rw [List.cons_append, List.cons_append, lineEnds, lineEnds]
      split
      · rename_i hfeed
        obtain ⟨hreturned', rfl⟩ := hfeed
        have hline := hreturned hreturned'
        rw [hnext hline (by decide)] at h
        exact ih nofun (hline ▸ h)
      split
      · rename_i hend
        obtain ⟨rfl, hc⟩ := hend
        rw [hnext rfl (by rintro rfl; exact absurd hc (by decide))] at h
        rw [ih (fun _ => rfl) h]
      · exact ih nofun h

/-- A carriage return inside an escape sequence, read once more before a line feed, changes nothing,
or the line is ended before it. -/
theorem typeKeys_return_again {masked : Bool} {s : State} {keys : List Char}
    (h : s.place.after keys ≠ .line) (echo : String) (rest : List Char) :
    typeKeys masked s echo (keys ++ '\r' :: '\r' :: '\n' :: rest) =
        typeKeys masked s echo (keys ++ '\r' :: '\n' :: rest) ∨
      ∃ line sent later, Place.line.after later ≠ .line ∧
        typeKeys masked s echo (keys ++ '\r' :: '\r' :: '\n' :: rest) =
          .ended line sent (later ++ '\r' :: '\r' :: '\n' :: rest) ∧
        typeKeys masked s echo (keys ++ '\r' :: '\n' :: rest) =
          .ended line sent (later ++ '\r' :: '\n' :: rest) := by
  induction keys generalizing s echo with
  | nil =>
      rcases step_return masked s with ⟨hline, -⟩ | ⟨-, t, ht, hgo⟩
      · exact absurd hline h
      · refine .inl ?_
        rw [List.nil_append, List.nil_append, typeKeys, hgo, typeKeys.eq_2 masked s, hgo]
        exact typeKeys_return_feed ht _ _
  | cons c keys ih =>
      rw [Place.after_cons] at h
      rw [List.cons_append, List.cons_append, typeKeys, typeKeys]
      cases hstep : step masked s c with
      | goOn t more =>
          rw [← place_of_goOn hstep] at h
          exact ih h _
      | endLine line more =>
          rw [(place_of_not_goOn fun t echo h => by rw [h] at hstep; cases hstep).2] at h
          have hkeys : keys ≠ [] := by
            rintro rfl
            exact h rfl
          obtain ⟨d, keys, rfl⟩ := List.exists_cons_of_ne_nil hkeys
          by_cases hdropped : c = '\r' ∧ d = '\n'
          · obtain ⟨rfl, rfl⟩ := hdropped
            exact .inr ⟨_, _, keys, h, rfl, rfl⟩
          · have hkept : ∀ later, afterLine c (d :: keys ++ later) = d :: keys ++ later := fun later =>
              afterLine_of_head fun hc hd => hdropped ⟨hc, by simpa using hd⟩
            dsimp only
            rw [hkept, hkept]
            exact .inr ⟨_, _, d :: keys, h, rfl, rfl⟩
      | close =>
          rw [(place_of_not_goOn fun t echo h => by rw [h] at hstep; cases hstep).2] at h
          exact .inr ⟨_, _, keys, h, rfl, rfl⟩

/-- A carriage return that ends no line may be read once more before a line feed. -/
theorem readLines_return_again {keys : List Char} (h : Place.line.after keys ≠ .line)
    (rest : List Char) (asks : List (String × Bool)) :
    readLines asks (held (keys ++ '\r' :: '\r' :: '\n' :: rest)) =
      readLines asks (held (keys ++ '\r' :: '\n' :: rest)) := by
  induction asks generalizing keys with
  | nil => rfl
  | cons ask asks ih =>
      obtain ⟨prompt, masked⟩ := ask
      rw [readLines_held_cons, readLines_held_cons]
      rcases typeKeys_return_again (s := .empty) h (wire prompt) rest with
        hsame | ⟨line, sent, later, hlater, hended, hended'⟩
      · rw [hsame]
      · rw [hended, hended']
        dsimp only
        rw [ih hlater]

end Returns

section Splits

variable {typed : List Char} {decoder : Text.Utf8.State} {chunk : List UInt8}
  {chunks : List (List UInt8)}

theorem splitsLineEnd_iff : SplitsLineEnd chunks ↔ SplitsFrom [] .start chunks := Iff.rfl

theorem not_splitsFrom_nil : ¬ SplitsFrom typed decoder [] := by
  rintro ⟨before, after, keys, rest, hchunks, -, -, hfeed⟩
  obtain ⟨rfl, rfl⟩ := List.append_eq_nil_iff.1 hchunks.symm
  cases hfeed

/-- A line end is split before the first chunk or after it. -/
theorem splitsFrom_cons_iff : SplitsFrom typed decoder (chunk :: chunks) ↔
    (∃ keys rest, typed = keys ++ ['\r'] ∧ Place.line.after keys = .line ∧
        (Text.Utf8.run decoder (chunk :: chunks).flatten).1 = '\n' :: rest) ∨
      SplitsFrom (typed ++ (Text.Utf8.run decoder chunk).1) (Text.Utf8.run decoder chunk).2 chunks := by
  constructor
  · rintro ⟨before, after, keys, rest, hchunks, hreturn, hplace, hfeed⟩
    cases before with
    | nil =>
        obtain rfl : chunk :: chunks = after := hchunks
        rw [List.flatten_nil, Text.Utf8.run, List.append_nil] at hreturn
        exact .inl ⟨keys, rest, hreturn, hplace, hfeed⟩
    | cons first before =>
        obtain ⟨rfl, rfl⟩ := List.cons.inj hchunks
        rw [List.flatten_cons, Text.Utf8.run_append] at hreturn hfeed
        exact .inr ⟨before, after, keys, rest, rfl, by rwa [List.append_assoc], hplace, hfeed⟩
  · rintro (⟨keys, rest, rfl, hplace, hfeed⟩ | ⟨before, after, keys, rest, rfl, hreturn, hplace, hfeed⟩)
    · exact ⟨[], _, keys, rest, rfl, List.append_nil _, hplace, hfeed⟩
    · refine ⟨chunk :: before, after, keys, rest, rfl, ?_, hplace, ?_⟩
      · rw [List.flatten_cons, Text.Utf8.run_append, ← List.append_assoc]
        exact hreturn
      · rw [List.flatten_cons, Text.Utf8.run_append]
        exact hfeed

theorem head?_keysFrom (decoder : Text.Utf8.State) (chunks : List (List UInt8)) :
    (keysFrom decoder chunks).head? = (Text.Utf8.run decoder chunks.flatten).1.head? := by
  induction chunks generalizing decoder with
  | nil => rfl
  | cons chunk chunks ih =>
      rw [keysFrom, List.flatten_cons, Text.Utf8.run_append]
      by_cases hkeys : (Text.Utf8.run decoder chunk).1 = []
      · rw [hkeys, joined_nil, ih]
        rfl
      · rw [head?_joined hkeys]
        obtain ⟨c, keys, hcons⟩ := List.exists_cons_of_ne_nil hkeys
        rw [hcons]
        rfl

theorem joined_append {second : List Char} (h : second ≠ []) (first third : List Char) :
    joined (first ++ second) third = first ++ joined second third := by
  unfold joined
  rw [List.getLast?_append, List.getLast?_eq_some_getLast h, Option.some_or]
  split <;> rw [List.append_assoc]

/-- The keys of a chunk come after those before it, but for a carriage return that counts twice. -/
theorem joined_keysFrom_cons (typed : List Char) (decoder : Text.Utf8.State) (chunk : List UInt8)
    (chunks : List (List UInt8)) :
    joined typed (keysFrom decoder (chunk :: chunks)) =
        joined (typed ++ (Text.Utf8.run decoder chunk).1)
          (keysFrom (Text.Utf8.run decoder chunk).2 chunks) ∧
        (SplitsFrom typed decoder (chunk :: chunks) →
          SplitsFrom (typed ++ (Text.Utf8.run decoder chunk).1) (Text.Utf8.run decoder chunk).2
            chunks) ∨
      ∃ keys rest, typed = keys ++ ['\r'] ∧
        (Text.Utf8.run decoder (chunk :: chunks).flatten).1.head? = some '\n' ∧
        joined typed (keysFrom decoder (chunk :: chunks)) = keys ++ '\r' :: '\r' :: '\n' :: rest ∧
        joined (typed ++ (Text.Utf8.run decoder chunk).1)
          (keysFrom (Text.Utf8.run decoder chunk).2 chunks) = keys ++ '\r' :: '\n' :: rest := by
  have hhead := head?_keysFrom decoder (chunk :: chunks)
  rw [splitsFrom_cons_iff, ← hhead]
  by_cases hnone : (Text.Utf8.run decoder chunk).1 = []
  · -- what is split before the chunk is still split after it
    refine .inl ⟨by rw [keysFrom, hnone, joined_nil, List.append_nil], ?_⟩
    rintro (⟨keys, rest, rfl, hplace, hfeed⟩ | hlater)
    · rw [List.flatten_cons, Text.Utf8.run_append, hnone] at hfeed
      exact ⟨[], chunks, keys, rest, rfl, by rw [hnone]; simp [Text.Utf8.run], hplace, hfeed⟩
    · exact hlater
  · rw [joined_append hnone]
    change _ = typed ++ keysFrom decoder (chunk :: chunks) ∧ _ ∨ ∃ keys rest, _ ∧ _ ∧ _ ∧
      typed ++ keysFrom decoder (chunk :: chunks) = _
    generalize keysFrom decoder (chunk :: chunks) = later at hhead ⊢
    unfold joined
    split
    · rename_i hsplit
      obtain ⟨hreturn, hfeed⟩ := hsplit
      obtain ⟨before, rfl⟩ := List.getLast?_eq_some_iff.1 hreturn
      obtain ⟨rest, rfl⟩ := List.head?_eq_some_iff.1 hfeed
      exact .inr ⟨before, rest, rfl, rfl, by simp, by simp⟩
    · rename_i hwhole
      refine .inl ⟨rfl, ?_⟩
      rintro (⟨keys, rest, rfl, -, hfeed⟩ | hlater)
      · rw [hfeed] at hhead
        exact absurd ⟨by simp, hhead⟩ hwhole
      · exact hlater

/-- Where no line end is split, chunks are read as if all had been one. -/
theorem readLines_of_not_splitsFrom (h : ¬ SplitsFrom typed decoder chunks)
    (asks : List (String × Bool)) :
    readLines asks (held (joined typed (keysFrom decoder chunks))) =
      readLines asks (held (typed ++ (Text.Utf8.run decoder chunks.flatten).1)) := by
  induction chunks generalizing typed decoder with
  | nil => rw [keysFrom, joined_nil_right, List.flatten_nil, Text.Utf8.run, List.append_nil]
  | cons chunk chunks ih =>
      rw [splitsFrom_cons_iff, not_or] at h
      obtain ⟨hhere, hlater⟩ := h
      have hrest := ih hlater
      rw [Text.Utf8.run_flatten_cons, ← List.append_assoc, ← hrest]
      rcases joined_keysFrom_cons typed decoder chunk chunks with
        ⟨hsame, -⟩ | ⟨keys, rest, rfl, hfeed, htwice, honce⟩
      · rw [hsame]
      · rw [htwice, honce]
        refine readLines_return_again (fun hplace => hhere ?_) rest asks
        obtain ⟨later, hlater⟩ := List.head?_eq_some_iff.1 hfeed
        exact ⟨keys, later, rfl, hplace, hlater⟩

/-- Chunks end at least as many lines as if all had been one, and more if a line end is split. -/
theorem lineEnds_of_splitsFrom (typed : List Char) (decoder : Text.Utf8.State)
    (chunks : List (List UInt8)) :
    lineEnds .line false (typed ++ (Text.Utf8.run decoder chunks.flatten).1) ≤
        lineEnds .line false (joined typed (keysFrom decoder chunks)) ∧
      (SplitsFrom typed decoder chunks →
        lineEnds .line false (typed ++ (Text.Utf8.run decoder chunks.flatten).1) <
          lineEnds .line false (joined typed (keysFrom decoder chunks))) := by
  induction chunks generalizing typed decoder with
  | nil =>
      rw [keysFrom, joined_nil_right, List.flatten_nil, Text.Utf8.run, List.append_nil]
      exact ⟨Nat.le_refl _, fun h => absurd h not_splitsFrom_nil⟩
  | cons chunk chunks ih =>
      obtain ⟨hle, hlt⟩ := ih (typed ++ (Text.Utf8.run decoder chunk).1) (Text.Utf8.run decoder chunk).2
      rw [Text.Utf8.run_flatten_cons, ← List.append_assoc]
      rcases joined_keysFrom_cons typed decoder chunk chunks with
        ⟨hsame, hlater⟩ | ⟨keys, rest, rfl, -, htwice, honce⟩
      · rw [hsame]
        exact ⟨hle, fun h => hlt (hlater h)⟩
      · rw [honce] at hle hlt
        rw [htwice]
        by_cases hplace : Place.line.after keys = .line
        · rw [lineEnds_return_again (fun _ => rfl) hplace]
          exact ⟨Nat.le_succ_of_le hle, fun _ => Nat.lt_succ_of_le hle⟩
        · rw [lineEnds_eq_of_readLines (readLines_return_again hplace rest), splitsFrom_cons_iff]
          refine ⟨hle, ?_⟩
          rintro (⟨others, later, heq, hothers, -⟩ | hlater)
          · obtain rfl := List.append_inj_left' heq rfl
            exact absurd hothers hplace
          · exact hlt hlater

end Splits

section

variable {whole cut : List (List UInt8)}

theorem keysOf_start (chunks : List (List UInt8)) : (start chunks).keysOf = keysFrom .start chunks :=
  joined_nil _

/-- Chunks that split no line end are read as keys that have arrived. -/
theorem readLines_of_not_splitsLineEnd (hflows : ∀ chunk ∈ whole, chunk ≠ [])
    (h : ¬ SplitsLineEnd whole) (asks : List (String × Bool)) : readLines asks (start whole) =
      readLines asks (held (Text.Utf8.run .start whole.flatten).1) := by
  rw [splitsLineEnd_iff] at h
  have hkeys := readLines_of_not_splitsFrom h asks
  rw [joined_nil, List.nil_append] at hkeys
  rw [readLines_eq (t := start whole) hflows, keysOf_start, hkeys]

/-- Bytes that come in one chunk split no line end. -/
theorem not_splitsLineEnd_singleton (bytes : List UInt8) : ¬ SplitsLineEnd [bytes] := by
  rw [splitsLineEnd_iff, splitsFrom_cons_iff]
  rintro (⟨keys, rest, hreturn, -⟩ | hlater)
  · simp at hreturn
  · exact not_splitsFrom_nil hlater

/-- The same bytes, cut into chunks in two ways of which one splits no line end, are read as the same
lines, with the same sent, exactly if the other way splits none either. -/
theorem reads_alike_iff (hwhole : ∀ chunk ∈ whole, chunk ≠ []) (hcut : ∀ chunk ∈ cut, chunk ≠ [])
    (hsame : cut.flatten = whole.flatten) (hkept : ¬ SplitsLineEnd whole) :
    (∀ asks, readLines asks (start cut) = readLines asks (start whole)) ↔ ¬ SplitsLineEnd cut := by
  constructor
  · intro halike hsplits
    have hheld : ∀ asks, readLines asks (held (keysFrom .start cut)) =
        readLines asks (held (Text.Utf8.run .start cut.flatten).1) := by
      intro asks
      rw [hsame, ← readLines_of_not_splitsLineEnd hwhole hkept, ← halike,
        readLines_eq (t := start cut) hcut, keysOf_start]
    have hmore := (lineEnds_of_splitsFrom [] .start cut).2 hsplits
    rw [joined_nil, List.nil_append, lineEnds_eq_of_readLines hheld] at hmore
    exact absurd hmore (Nat.lt_irrefl _)
  · intro hkept' asks
    rw [readLines_of_not_splitsLineEnd hwhole hkept, readLines_of_not_splitsLineEnd hcut hkept',
      hsame]

/-- A letter may be cut in two, and so may a line end inside of an escape sequence. -/
theorem cut_sequence_reads_alike :
    let whole : List (List UInt8) := [[0x1B, 0x5B, 0x0D, 0x0A, 0x41, 0xC3, 0xA9, 0x0D, 0x0A]]
    let cut : List (List UInt8) := [[0x1B, 0x5B, 0x0D], [0x0A, 0x41, 0xC3], [0xA9, 0x0D, 0x0A]]
    (∀ chunk ∈ whole, chunk ≠ []) ∧ (∀ chunk ∈ cut, chunk ≠ []) ∧ cut.flatten = whole.flatten ∧
      ¬ SplitsLineEnd whole ∧ ∀ asks, readLines asks (start cut) = readLines asks (start whole) := by
  intro whole cut
  have hwhole : ∀ chunk ∈ whole, chunk ≠ [] := by decide
  have hcut : ∀ chunk ∈ cut, chunk ≠ [] := by decide
  have hkept : ¬ SplitsLineEnd cut := by
    rw [splitsLineEnd_iff, splitsFrom_cons_iff, splitsFrom_cons_iff, splitsFrom_cons_iff]
    rintro (⟨keys, rest, hkeys, -⟩ | ⟨keys, rest, hkeys, hplace, -⟩ | ⟨keys, rest, hkeys, -⟩ | h)
    · simp at hkeys
    · obtain rfl : ['\x1b', '['] = keys := List.append_inj_left' hkeys rfl
      exact absurd hplace (by decide)
    · have hlast := congrArg List.getLast? hkeys
      rw [List.getLast?_concat] at hlast
      exact absurd hlast (by decide)
    · exact not_splitsFrom_nil h
  refine ⟨hwhole, hcut, rfl, not_splitsLineEnd_singleton _, ?_⟩
  exact (reads_alike_iff hwhole hcut rfl (not_splitsLineEnd_singleton _)).2 hkept

/-- A line end that is cut in two ends two lines. -/
theorem cut_line_end_is_read_twice :
    let whole : List (List UInt8) := [[0x61, 0x0D, 0x0A]]
    let cut : List (List UInt8) := [[0x61, 0x0D], [0x0A]]
    let asks := [("$ ", false), ("$ ", false)]
    (∀ chunk ∈ whole, chunk ≠ []) ∧ (∀ chunk ∈ cut, chunk ≠ []) ∧ cut.flatten = whole.flatten ∧
      readLines asks (start whole) = [(some "a", "$ a\r\n"), (none, "$ ")] ∧
      readLines asks (start cut) = [(some "a", "$ a\r\n"), (some "", "$ \r\n")] := by
  decide +kernel

end

end Terminal

end PracticeShell
