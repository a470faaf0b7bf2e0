import PracticeShell.Proofs.Terminal.Chunks

/-!
# What a masked line shows

Two streams of keys that differ only where each has a key that is put into the line
(`Terminal.Agree`) look the same when a masked line is read from them: the same is sent, and the line
ends in the same way after as many keys (`Terminal.masked_lines_look_alike`). Of what is typed, only the
length can be seen (`Editor.State.Alike`).
-/

namespace PracticeShell

namespace Editor

variable {s t u v : State} {c d : Char} {echo : String}

/-- Whether two lines that are being typed look the same when they are masked. -/
structure State.Alike (s t : State) : Prop where
  place : s.place = t.place
  length : s.typed.length = t.typed.length

/-- Whether two keys have effects that look the same. -/
inductive Effect.Alike : Effect → Effect → Prop
  | goOn {s t : State} (h : s.Alike t) (echo : String) : Effect.Alike (.goOn s echo) (.goOn t echo)
  | endLine (line other echo : String) : Effect.Alike (.endLine line echo) (.endLine other echo)
  | close : Effect.Alike .close .close

/-- Whether a key is put into the line. -/
def State.Puts (s : State) (c : Char) : Prop :=
  ∃ echo, step true s c = .goOn ⟨.line, c :: s.typed⟩ echo

/-- The line after some keys, if it is still being typed. -/
def State.after (s : State) : List Char → Option State
  | [] => some s
  | c :: rest =>
    match step true s c with
    | .goOn t _ => t.after rest
    | _ => none

theorem State.alike_refl (s : State) : s.Alike s := ⟨rfl, rfl⟩

/-- A key is put into the line, or the line gets no longer. -/
theorem step_puts_or (masked : Bool) (s : State) (c : Char) :
    step masked s c = .goOn ⟨.line, c :: s.typed⟩ (if masked then "*" else c.toString) ∨
      ∀ t echo, step masked s c = .goOn t echo → t.typed.length ≤ s.typed.length := by
  obtain ⟨place, typed⟩ := s
  cases place with
  | line =>
      simp only [step, lineStep]
      split
      · refine .inr fun t echo h => ?_
        cases h
      split
      · refine .inr fun t echo h => ?_
        cases h
      split
      · refine .inr fun t echo h => ?_
        split at h <;> cases h
        exact Nat.le_refl _
      split
      · refine .inr fun t echo h => ?_
        cases typed <;> cases h
        · exact Nat.le_refl _
        · exact Nat.le_succ _
      split
      · refine .inr fun t echo h => ?_
        cases h
        exact Nat.le_refl _
      split
      · refine .inr fun t echo h => ?_
        cases h
        exact Nat.le_refl _
      · exact .inl rfl
  | escape =>
      refine .inr fun t echo h => ?_
      cases h
      exact Nat.le_refl _
  | sequence =>
      refine .inr fun t echo h => ?_
      cases h
      exact Nat.le_refl _

/-- All keys that are put into a masked line are echoed alike. -/
theorem State.Puts.step_eq (h : s.Puts c) : step true s c = .goOn ⟨.line, c :: s.typed⟩ "*" := by
  obtain ⟨echo, h⟩ := h
  rcases step_puts_or true s c with hputs | hshorter
  · exact hputs
  · exact absurd (hshorter _ _ h) (Nat.not_succ_le_self _)

theorem State.Alike.put (h : s.Alike t) (c d : Char) :
    State.Alike ⟨.line, c :: s.typed⟩ ⟨.line, d :: t.typed⟩ := ⟨rfl, congrArg Nat.succ h.length⟩

theorem State.Puts.alike (hs : s.Puts c) (ht : t.Puts d) (h : s.Alike t) :
    (step true s c).Alike (step true t d) := by
  rw [hs.step_eq, ht.step_eq]
  exact .goOn (h.put c d) "*"

/-- A key has effects that look the same on lines that do. -/
theorem State.Alike.step (h : s.Alike t) (c : Char) : (step true s c).Alike (step true t c) := by
  have hput := h.put c c
  obtain ⟨place, typed⟩ := s
  obtain ⟨place', typed'⟩ := t
  obtain ⟨rfl, hlength⟩ := h
  dsimp only at hlength
  have hstays : ∀ place, State.Alike ⟨place, typed⟩ ⟨place, typed'⟩ := fun _ => ⟨rfl, hlength⟩
  have hempty : typed.isEmpty = typed'.isEmpty := by
    rw [Bool.eq_iff_iff, List.isEmpty_iff_length_eq_zero, hlength, List.isEmpty_iff_length_eq_zero]
  cases place with
  | line =>
      simp only [Editor.step, lineStep]
      rw [hempty]
      split
      · exact .endLine _ _ _
      split
      · exact .endLine _ _ _
      split
      · split
        · exact .close
        · exact .goOn (hstays _) _
      split
      · cases typed with
        | nil =>
            obtain rfl := List.length_eq_zero_iff.1 hlength.symm
            exact .goOn (hstays _) _
        | cons last rest =>
            obtain ⟨last', rest', rfl⟩ := List.exists_cons_of_length_eq_add_one hlength.symm
            have hrest : State.Alike ⟨.line, rest⟩ ⟨.line, rest'⟩ := ⟨rfl, Nat.succ.inj hlength⟩
            exact .goOn hrest _
      split
      · exact .goOn (hstays _) _
      split
      · exact .goOn (hstays _) _
      · exact .goOn hput _
  | escape => exact .goOn (hstays _) _
  | sequence => exact .goOn (hstays _) _

end Editor

namespace Terminal

open Editor

variable {s t u v : State} {keys other rest : List Char} {c d : Char} {echo sent : String}

/-- The keys that have arrived at a terminal and those that will. -/
def stream (t : Terminal) : List Char := t.arrived ++ (Text.Utf8.run t.decoder t.chunks.flatten).1

/-- The number of keys in each chunk. -/
def portions (decoder : Text.Utf8.State) : List (List UInt8) → List Nat
  | [] => []
  | chunk :: chunks =>
    (Text.Utf8.run decoder chunk).1.length :: portions (Text.Utf8.run decoder chunk).2 chunks

/-- Whether as many keys have arrived at two terminals, and as many will arrive with each chunk. -/
structure ArrivesLike (t u : Terminal) : Prop where
  arrived : t.arrived.length = u.arrived.length
  portions : portions t.decoder t.chunks = portions u.decoder u.chunks

/-- Whether a line ends after a number of keys. If the last of them is a line feed, it may be left. -/
def EndsAfter (t : Terminal) (r : Reading) (n : Nat) : Prop :=
  ∃ used, t.stream = used ++ r.terminal.stream ∧
    (used.length = n ∨ used.length + 1 = n ∧ r.terminal.stream.head? = some '\n')

/-- Whether the key at a position is put into the line that is being typed. -/
def IsPut (s : State) (keys : List Char) (k : Nat) : Prop :=
  ∃ t c, s.after (keys.take k) = some t ∧ keys[k]? = some c ∧ t.Puts c

/-- Whether two streams of keys are as long, and differ only where each has a key that is put into the
line. -/
structure Agree (s t : State) (keys other : List Char) : Prop where
  length : keys.length = other.length
  differ : ∀ k, keys[k]? ≠ other[k]? → IsPut s keys k ∧ IsPut t other k

/-- Whether two runs of keys look the same and leave the same keys. -/
inductive Progress.Alike : Progress → Progress → Prop
  | typing {s t : State} (h : s.Alike t) (sent : String) :
      Progress.Alike (.typing s sent) (.typing t sent)
  | ended {line other : Option String} (h : line.isSome = other.isSome) (sent : String)
      (rest : List Char) : Progress.Alike (.ended line sent rest) (.ended other sent rest)

section Runs

theorem isPut_zero (h : IsPut s (c :: keys) 0) : s.Puts c := by
  obtain ⟨t, d, hafter, hkey, hputs⟩ := h
  cases hafter
  cases hkey
  exact hputs

theorem isPut_succ (h : IsPut s (c :: keys) (k + 1)) :
    ∃ t echo, step true s c = .goOn t echo ∧ IsPut t keys k := by
  obtain ⟨u, d, hafter, hkey, hputs⟩ := h
  rw [List.take_succ_cons, State.after] at hafter
  cases hstep : step true s c with
  | goOn t echo =>
      rw [hstep] at hafter
      exact ⟨t, echo, rfl, u, d, hafter, hkey, hputs⟩
  | endLine line echo =>
      rw [hstep] at hafter
      cases hafter
  | close =>
      rw [hstep] at hafter
      cases hafter

theorem Agree.puts (h : Agree s t (c :: keys) (d :: other)) (hne : c ≠ d) : s.Puts c ∧ t.Puts d := by
  obtain ⟨hs, ht⟩ := h.differ 0 (by simpa using hne)
  exact ⟨isPut_zero hs, isPut_zero ht⟩

/-- What the first key does is either the same thing or looks the same. -/
theorem Agree.step (h : Agree s t (c :: keys) (d :: other)) (hst : s.Alike t) :
    (step true s c).Alike (step true t d) := by
  by_cases hsame : c = d
  · rw [hsame]
    exact hst.step d
  · obtain ⟨hc, hd⟩ := h.puts hsame
    exact hc.alike hd hst

theorem Agree.tail (h : Agree s t (c :: keys) (d :: other)) (hs : Editor.step true s c = .goOn u echo)
    (ht : Editor.step true t d = .goOn v sent) : Agree u v keys other where
  length := Nat.succ.inj h.length
  differ := fun k hk => by
    obtain ⟨hput, hput'⟩ := h.differ (k + 1) hk
    obtain ⟨u', echo', hs', hkeys⟩ := isPut_succ hput
    obtain ⟨v', sent', ht', hother⟩ := isPut_succ hput'
    cases hs.symm.trans hs'
    cases ht.symm.trans ht'
    exact ⟨hkeys, hother⟩

/-- Where the line ends, streams that agree are the same from then on. -/
theorem Agree.eq_of_ends (h : Agree s t (c :: keys) (d :: other))
    (hends : ∀ u echo, Editor.step true s c ≠ .goOn u echo) : c = d ∧ keys = other := by
  constructor
  · refine Decidable.byContradiction fun hne => ?_
    exact hends _ _ (h.puts hne).1.step_eq
  · refine List.ext_getElem? fun k => Decidable.byContradiction fun hk => ?_
    obtain ⟨u, echo, hgoes, -⟩ := isPut_succ (h.differ (k + 1) hk).1
    exact hends u echo hgoes

/-- Streams that agree are typed alike. -/
theorem typeKeys_alike (hst : s.Alike t) (h : Agree s t keys other) (echo : String) :
    (typeKeys true s echo keys).Alike (typeKeys true t echo other) := by
  -- the lines look the same after each key, and the streams agree on the keys that are left
  induction keys generalizing s t other echo with
  | nil =>
      obtain rfl := List.length_eq_zero_iff.1 h.length.symm
      exact .typing hst echo
  | cons c keys ih =>
      obtain ⟨d, other, rfl⟩ := List.exists_cons_of_length_eq_add_one h.length.symm
      have hstep := h.step hst
      rw [typeKeys, typeKeys]
      generalize hs : Editor.step true s c = effect at hstep
      generalize ht : Editor.step true t d = effect' at hstep
      cases hstep with
      | goOn huv more => exact ih huv (h.tail hs ht) _
      | endLine line line' more =>
          obtain ⟨rfl, rfl⟩ := h.eq_of_ends fun _ _ hgoes => by cases hs.symm.trans hgoes
          exact @Progress.Alike.ended (some line) (some line') rfl _ _
      | close =>
          obtain ⟨rfl, rfl⟩ := h.eq_of_ends fun _ _ hgoes => by cases hs.symm.trans hgoes
          exact @Progress.Alike.ended none none rfl _ _

end Runs

section Parts

variable {first first' second second' : List Char} {line : Option String}

theorem after_append (s : State) (first second : List Char) :
    s.after (first ++ second) = (s.after first).bind (·.after second) := by
  induction first generalizing s with
  | nil => rfl
  | cons c first ih =>
      rw [List.cons_append, State.after, State.after]
      cases Editor.step true s c with
      | goOn t echo => exact ih t
      | endLine line echo => rfl
      | close => rfl

theorem after_of_typeKeys (s : State) (echo : String) (keys : List Char) :
    match typeKeys true s echo keys with
      | .typing t _ => s.after keys = some t
      | .ended _ _ _ => s.after keys = none := by
  induction keys generalizing s echo with
  | nil => rfl
  | cons c keys ih =>
      rw [typeKeys, State.after]
      cases Editor.step true s c with
      | goOn t more => exact ih t _
      | endLine line more => rfl
      | close => rfl

theorem IsPut.of_append {k : Nat} (h : IsPut s (first ++ second) (first.length + k)) :
    ∃ t, s.after first = some t ∧ IsPut t second k := by
  obtain ⟨u, c, hafter, hkey, hputs⟩ := h
  rw [List.take_length_add_append, after_append] at hafter
  obtain ⟨t, ht, hu⟩ := Option.bind_eq_some_iff.1 hafter
  rw [List.getElem?_append_right (Nat.le_add_right _ _), Nat.add_sub_cancel_left] at hkey
  exact ⟨t, ht, u, c, hu, hkey, hputs⟩

theorem Agree.left (h : Agree s t (first ++ second) (first' ++ second'))
    (hlength : first.length = first'.length) : Agree s t first first' where
  length := hlength
  differ := fun k hk => by
    have hlt : k < first.length := Nat.lt_of_not_le fun hle => hk <| by
      rw [List.getElem?_eq_none hle, List.getElem?_eq_none (hlength ▸ hle)]
    have hlt' : k < first'.length := hlength ▸ hlt
    have hwhole := h.differ k
    rw [List.getElem?_append_left hlt, List.getElem?_append_left hlt'] at hwhole
    obtain ⟨⟨u, c, hu, hc, hputs⟩, v, d, hv, hd, hputs'⟩ := hwhole hk
    rw [List.take_append_of_le_length (Nat.le_of_lt hlt)] at hu
    rw [List.take_append_of_le_length (Nat.le_of_lt hlt')] at hv
    rw [List.getElem?_append_left hlt] at hc
    rw [List.getElem?_append_left hlt'] at hd
    exact ⟨⟨u, c, hu, hc, hputs⟩, v, d, hv, hd, hputs'⟩

theorem Agree.isPut_right (h : Agree s t (first ++ second) (first' ++ second'))
    (hlength : first.length = first'.length) {k : Nat} (hk : second[k]? ≠ second'[k]?) :
    (∃ u, s.after first = some u ∧ IsPut u second k) ∧
      ∃ v, t.after first' = some v ∧ IsPut v second' k := by
  have hwhole := h.differ (first.length + k)
  rw [List.getElem?_append_right (Nat.le_add_right _ _), Nat.add_sub_cancel_left, hlength,
    List.getElem?_append_right (Nat.le_add_right _ _), Nat.add_sub_cancel_left] at hwhole
  obtain ⟨hput, hput'⟩ := hwhole hk
  rw [← hlength] at hput
  exact ⟨hput.of_append, hput'.of_append⟩

theorem Agree.right (h : Agree s t (first ++ second) (first' ++ second'))
    (hlength : first.length = first'.length) (hs : s.after first = some u)
    (ht : t.after first' = some v) : Agree u v second second' where
  length := by
    have hwhole := h.length
    rw [List.length_append, List.length_append] at hwhole
    omega
  differ := fun k hk => by
    obtain ⟨⟨u', hu, hput⟩, v', hv, hput'⟩ := h.isPut_right hlength hk
    obtain rfl := Option.some.inj (hs.symm.trans hu)
    obtain rfl := Option.some.inj (ht.symm.trans hv)
    exact ⟨hput, hput'⟩

theorem Agree.right_eq (h : Agree s t (first ++ second) (first' ++ second'))
    (hlength : first.length = first'.length) (hs : s.after first = none) : second = second' := by
  refine List.ext_getElem? fun k => Decidable.byContradiction fun hk => ?_
  obtain ⟨⟨u, hu, -⟩, -⟩ := h.isPut_right hlength hk
  rw [hs] at hu
  cases hu

end Parts

section Arrivals

variable {masked : Bool} {first second : List Char} {line : Option String}
  {decoder decoder' : Text.Utf8.State} {chunks chunks' : List (List UInt8)}

/-- A line feed after the end of a line is dropped if it has arrived. -/
theorem afterLine_append (c : Char) (first second : List Char) :
    afterLine c first ++ second = afterLine c (first ++ second) ∨
      afterLine c first ++ second = '\n' :: afterLine c (first ++ second) := by
  cases first with
  | nil =>
      have hnone : afterLine c [] = [] := afterLine_of_head nofun
      rw [hnone, List.nil_append]
      unfold afterLine
      split
      · exact .inr rfl
      · exact .inl rfl
  | cons d first =>
      refine .inl ?_
      by_cases hdropped : c = '\r' ∧ d = '\n'
      · obtain ⟨rfl, rfl⟩ := hdropped
        rfl
      · have hkept : c = '\r' → (d :: first).head? ≠ some '\n' := fun hc hd =>
          hdropped ⟨hc, Option.some.inj hd⟩
        rw [afterLine_of_head hkept, @afterLine_of_head c (d :: first ++ second) hkept]

theorem typeKeys_append_of_typing (h : typeKeys masked s echo first = .typing t sent)
    (second : List Char) : typeKeys masked s echo (first ++ second) = typeKeys masked t sent second := by
  induction first generalizing s echo with
  | nil =>
      cases h
      rfl
  | cons c first ih =>
      rw [List.cons_append, typeKeys]
      rw [typeKeys] at h
      cases hstep : Editor.step masked s c with
      | goOn u more =>
          rw [hstep] at h
          exact ih h
      | endLine ended more =>
          rw [hstep] at h
          cases h
      | close =>
          rw [hstep] at h
          cases h

theorem typeKeys_append_of_ended (h : typeKeys masked s echo first = .ended line sent rest)
    (second : List Char) : ∃ later, typeKeys masked s echo (first ++ second) = .ended line sent later ∧
      (rest ++ second = later ∨ rest ++ second = '\n' :: later) := by
  induction first generalizing s echo with
  | nil => cases h
  | cons c first ih =>
      rw [List.cons_append, typeKeys]
      rw [typeKeys] at h
      cases hstep : Editor.step masked s c with
      | goOn u more =>
          rw [hstep] at h
          exact ih h
      | endLine ended more =>
          rw [hstep] at h
          cases h
          exact ⟨_, rfl, afterLine_append c first second⟩
      | close =>
          rw [hstep] at h
          cases h
          exact ⟨_, rfl, .inl rfl⟩

/-- The keys that are left when a line is ended are the last ones. -/
theorem suffix_of_ended (h : typeKeys masked s echo keys = .ended line sent rest) : rest <:+ keys := by
  induction keys generalizing s echo with
  | nil => cases h
  | cons c keys ih =>
      rw [typeKeys] at h
      cases hstep : Editor.step masked s c with
      | goOn u more =>
          rw [hstep] at h
          exact (ih h).trans (List.suffix_cons c keys)
      | endLine ended more =>
          rw [hstep] at h
          cases h
          refine List.IsSuffix.trans ?_ (List.suffix_cons c keys)
          unfold afterLine
          split
          · exact List.suffix_cons _ _
          · exact List.suffix_refl _
      | close =>
          rw [hstep] at h
          cases h
          exact List.suffix_cons c _

/-- Whether a reading is what comes of keys that have all arrived. A line feed after the end of the line
may be left. -/
inductive Fits (keys : List Char) : Progress → Reading → Prop
  | typing {s : State} {sent : String} {t : Terminal} (hnone : t.stream = []) :
      Fits keys (.typing s sent) ⟨none, sent, t⟩
  | ended {line : Option String} {sent : String} {rest : List Char} {t : Terminal}
      (hlast : t.stream <:+ keys) (hrest : t.stream = rest ∨ t.stream = '\n' :: rest) :
      Fits keys (.ended line sent rest) ⟨line, sent, t⟩

theorem Fits.append {before : List Char} {p : Progress} {r : Reading} (h : Fits keys p r) :
    Fits (before ++ keys) p r := by
  cases h with
  | typing hnone => exact .typing hnone
  | ended hlast hrest => exact .ended (hlast.trans (List.suffix_append _ _)) hrest

theorem receive_fits (h : ∀ chunk ∈ chunks, chunk ≠ []) (masked : Bool) (decoder : Text.Utf8.State)
    (s : State) (sent : String) : Fits (Text.Utf8.run decoder chunks.flatten).1
      (typeKeys masked s sent (Text.Utf8.run decoder chunks.flatten).1)
      (receive masked decoder s sent chunks) := by
  induction chunks generalizing decoder s sent with
  | nil => exact .typing rfl
  | cons chunk chunks ih =>
      have hchunk : chunk.isEmpty = false := by simpa using h chunk (by simp)
      have hchunks : ∀ other ∈ chunks, other ≠ [] := fun other hother => h other (by simp [hother])
      rw [Text.Utf8.run_flatten_cons, receive, hchunk]
      dsimp only [Bool.false_eq_true, if_false]
      generalize Text.Utf8.run decoder chunk = decoded
      cases htyped : typeKeys masked s sent decoded.1 with
      | typing t echoed =>
          rw [typeKeys_append_of_typing htyped]
          exact (ih hchunks _ _ _).append
      | ended line echoed rest =>
          obtain ⟨later, hlater, hrest⟩ := typeKeys_append_of_ended htyped
            (Text.Utf8.run decoded.2 chunks.flatten).1
          rw [hlater]
          refine .ended ?_ hrest
          obtain ⟨used, hused⟩ := suffix_of_ended htyped
          exact ⟨used, by rw [← hused, List.append_assoc]; rfl⟩

theorem readLine_fits {t : Terminal} (h : t.Flows) (prompt : String) (masked : Bool) :
    Fits t.stream (typeKeys masked .empty (wire prompt) t.stream) (t.readLine prompt masked) := by
  unfold readLine
  cases htyped : typeKeys masked .empty (wire prompt) t.arrived with
  | typing s sent =>
      rw [stream, typeKeys_append_of_typing htyped]
      exact (receive_fits h _ _ _ _).append
  | ended line sent rest =>
      obtain ⟨later, hlater, hrest⟩ := typeKeys_append_of_ended htyped
        (Text.Utf8.run t.decoder t.chunks.flatten).1
      rw [stream, hlater]
      refine .ended ?_ hrest
      obtain ⟨used, hused⟩ := suffix_of_ended htyped
      exact ⟨used, by rw [← hused, List.append_assoc]; rfl⟩

/-- Where as many keys arrive at a time, what is left is the same: a line feed behind the end of the line
has arrived in both, or in neither. -/
theorem receive_left (hchunks : ∀ chunk ∈ chunks, chunk ≠ []) (hchunks' : ∀ chunk ∈ chunks', chunk ≠ [])
    (hportions : portions decoder chunks = portions decoder' chunks') (hst : s.Alike t)
    (h : Agree s t (Text.Utf8.run decoder chunks.flatten).1 (Text.Utf8.run decoder' chunks'.flatten).1)
    (sent : String) : (receive true decoder s sent chunks).terminal.stream =
      (receive true decoder' t sent chunks').terminal.stream := by
  induction chunks generalizing decoder decoder' chunks' s t sent with
  | nil =>
      cases chunks' with
      | nil => rfl
      | cons chunk' chunks' => cases hportions
  | cons chunk chunks ih =>
      cases chunks' with
      | nil => cases hportions
      | cons chunk' chunks' =>
          obtain ⟨hchunk, hchunks⟩ := List.forall_mem_cons.1 hchunks
          obtain ⟨hchunk', hchunks'⟩ := List.forall_mem_cons.1 hchunks'
          obtain ⟨hlength, hportions⟩ := List.cons.inj hportions
          rw [Text.Utf8.run_flatten_cons, Text.Utf8.run_flatten_cons] at h
          have halike := typeKeys_alike hst (h.left hlength) sent
          have hafter := after_of_typeKeys s sent (Text.Utf8.run decoder chunk).1
          have hafter' := after_of_typeKeys t sent (Text.Utf8.run decoder' chunk').1
          rw [receive, receive, if_neg (by simpa using hchunk), if_neg (by simpa using hchunk')]
          dsimp only
          generalize typeKeys true s sent (Text.Utf8.run decoder chunk).1 = p at halike hafter ⊢
          generalize typeKeys true t sent (Text.Utf8.run decoder' chunk').1 = q at halike hafter' ⊢
          cases halike with
          | typing huv sent => exact ih hchunks hchunks' hportions huv (h.right hlength hafter hafter') _
          | ended hline sent rest =>
              change rest ++ _ = rest ++ _
              rw [h.right_eq hlength hafter]

theorem readLine_left {t u : Terminal} (ht : t.Flows) (hu : u.Flows) (harrives : t.ArrivesLike u)
    (h : Agree .empty .empty t.stream u.stream) (prompt : String) :
    (t.readLine prompt true).terminal.stream = (u.readLine prompt true).terminal.stream := by
  have halike := typeKeys_alike (State.alike_refl .empty) (h.left harrives.arrived) (wire prompt)
  have hafter := after_of_typeKeys .empty (wire prompt) t.arrived
  have hafter' := after_of_typeKeys .empty (wire prompt) u.arrived
  unfold readLine
  generalize typeKeys true .empty (wire prompt) t.arrived = p at halike hafter ⊢
  generalize typeKeys true .empty (wire prompt) u.arrived = q at halike hafter' ⊢
  cases halike with
  | typing huv sent =>
      exact receive_left ht hu harrives.portions huv (h.right harrives.arrived hafter hafter') sent
  | ended hline sent rest =>
      change rest ++ _ = rest ++ _
      rw [h.right_eq harrives.arrived hafter]

/-- A line ends after all keys but those that are left. -/
theorem endsAfter_of_left {t : Terminal} {r : Reading} (hlast : r.terminal.stream <:+ t.stream)
    (h : r.terminal.stream = rest ∨ r.terminal.stream = '\n' :: rest) :
    EndsAfter t r (t.stream.length - rest.length) := by
  obtain ⟨used, hused⟩ := hlast
  refine ⟨used, hused.symm, ?_⟩
  have hlength := congrArg List.length hused
  rw [List.length_append] at hlength
  rcases h with hrest | hrest
  · rw [hrest] at hlength
    exact .inl (by omega)
  · rw [hrest, List.length_cons] at hlength
    exact .inr ⟨by omega, by rw [hrest]; rfl⟩

theorem endsAfter_of_none {t : Terminal} {r : Reading} (h : r.terminal.stream = []) :
    EndsAfter t r t.stream.length :=
  ⟨t.stream, by rw [h, List.append_nil], .inl rfl⟩

end Arrivals

section

variable {t u : Terminal}

/-- When a masked line is read from two streams of keys that are as long and differ only where each has
a key that is put into the line, the same is sent, and the line ends, or is not ended, after as many
keys in both. A line feed behind a carriage return that ends the line may be left from one of them only
if the keys arrive otherwise; if as many arrive at a time, the same keys are left. -/
theorem masked_lines_look_alike (ht : t.Flows) (hu : u.Flows)
    (h : Agree .empty .empty t.stream u.stream) (prompt : String) :
    (t.readLine prompt true).sent = (u.readLine prompt true).sent ∧
      (t.readLine prompt true).line.isSome = (u.readLine prompt true).line.isSome ∧
      (∃ n, EndsAfter t (t.readLine prompt true) n ∧ EndsAfter u (u.readLine prompt true) n) ∧
      (t.ArrivesLike u →
        (t.readLine prompt true).terminal.stream = (u.readLine prompt true).terminal.stream) := by
  refine and_assoc.1 (and_assoc.1 ⟨?_, fun harrives => readLine_left ht hu harrives h prompt⟩)
  have hfits := readLine_fits ht prompt true
  have hfits' := readLine_fits hu prompt true
  have halike := typeKeys_alike (State.alike_refl .empty) h (wire prompt)
  have hlength := h.length
  generalize typeKeys true .empty (wire prompt) t.stream = p at halike hfits
  generalize typeKeys true .empty (wire prompt) u.stream = q at halike hfits'
  generalize t.readLine prompt true = r at hfits ⊢
  generalize u.readLine prompt true = r' at hfits' ⊢
  cases halike with
  | typing hst sent =>
      cases hfits with
      | typing hnone =>
          cases hfits' with
          | typing hnone' =>
              refine ⟨⟨rfl, rfl⟩, t.stream.length, endsAfter_of_none hnone, ?_⟩
              rw [hlength]
              exact endsAfter_of_none hnone'
  | ended hline sent rest =>
      cases hfits with
      | ended hlast hrest =>
          cases hfits' with
          | ended hlast' hrest' =>
              refine ⟨⟨rfl, hline⟩, _, endsAfter_of_left hlast hrest, ?_⟩
              rw [hlength]
              exact endsAfter_of_left hlast' hrest'

/-- Two passwords of two letters, of which the second is rubbed out, are not told apart, though they are
not of as many bytes. -/
theorem two_letters_look_alike :
    let t := start [[0x70, 0xC3], [0xA9, 0x7F, 0x0D]]
    let u := start [[0x61], [0x62, 0x7F, 0x0D]]
    t.Flows ∧ u.Flows ∧ t.ArrivesLike u ∧ Agree .empty .empty t.stream u.stream ∧
      (t.readLine "Password: " true).sent = (u.readLine "Password: " true).sent ∧
      (t.readLine "Password: " true).terminal.stream =
        (u.readLine "Password: " true).terminal.stream := by
  intro t u
  have ht : ∀ chunk ∈ t.chunks, chunk ≠ [] := by decide
  have hu : ∀ chunk ∈ u.chunks, chunk ≠ [] := by decide
  have harrives : t.ArrivesLike u := ⟨rfl, by decide⟩
  have hstream : t.stream = ['p', 'é', '\x7f', '\r'] := by decide
  have hstream' : u.stream = ['a', 'b', '\x7f', '\r'] := by decide
  have hagree : Agree .empty .empty t.stream u.stream := by
    rw [hstream, hstream']
    refine ⟨rfl, fun k hk => ?_⟩
    match k with
    | 0 => exact ⟨⟨.empty, 'p', rfl, rfl, "*", rfl⟩, .empty, 'a', rfl, rfl, "*", rfl⟩
    | 1 =>
        exact ⟨⟨⟨.line, ['p']⟩, 'é', rfl, rfl, "*", rfl⟩, ⟨.line, ['a']⟩, 'b', rfl, rfl, "*", rfl⟩
    | _ + 2 => exact absurd rfl hk
  obtain ⟨hsent, -, -, hleft⟩ := masked_lines_look_alike ht hu hagree "Password: "
  exact ⟨ht, hu, harrives, hagree, hsent, hleft harrives⟩

end

end Terminal

end PracticeShell
