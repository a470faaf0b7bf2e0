import PracticeShell.Proofs.Environment.Pieces
import PracticeShell.Proofs.Redirection.Quoted

/-!
# Expanding a text

A text is expanded piece by piece: references are replaced once, and all else is copied
(`expand_eq_told`). After an apostrophe that is never closed, though, a backslash protects nothing. So a
text is expanded as it is read in all environments exactly if no reference is escaped after such an
apostrophe (`expands_as_read_iff`).
-/

namespace PracticeShell.Environment

open Text.Letter (isAsciiWord)

variable {env : Environment} {p : Piece} {ps qs : List Piece} {inDouble : Bool} {cs rest : List Char}

theorem substitute_length (cs rest : List Char) :
    env.substitute cs.length (cs ++ rest) = env.substitute 0 rest := by
  induction cs with
  | nil => rfl
  | cons c cs ih => rw [List.length_cons, List.cons_append, substitute, ih]

theorem substitute_reference {r : Reference} (h : r.Fits rest) :
    env.substitute 0 ('$' :: (r.text ++ rest)) = r.value env ++ env.substitute 0 rest := by
  rw [substitute, if_pos rfl, reference?_text h]
  exact congrArg _ (substitute_length _ _)

theorem substitute_cons {c : Char} (h : c = '$' → ¬ Begins rest) :
    env.substitute 0 (c :: rest) = c :: env.substitute 0 rest := by
  rw [substitute]
  by_cases hc : c = '$'
  · rw [if_pos hc, reference?_eq_none (h hc)]
  · rw [if_neg hc]

/-- References are replaced, and all else is copied, wherever quotes and escapes do not matter. -/
theorem substitute_piece (h : p.Stands inDouble rest) (hquoted : ∀ part, p ≠ .quoted part)
    (hescaped : p = .escaped '$' → ¬ Begins rest) :
    env.substitute 0 (p.source ++ rest) = p.result env ++ env.substitute 0 rest := by
  cases p with
  | quoted part => exact absurd rfl (hquoted part)
  | reference r => exact substitute_reference h
  | unclosed => exact substitute_cons fun hc => absurd hc (by decide)
  | plain c => exact substitute_cons h.2.2
  | escaped c =>
      have hback : env.substitute 0 ('\\' :: c :: rest) = '\\' :: env.substitute 0 (c :: rest) :=
        substitute_cons fun hc => absurd hc (by decide)
      have hnext : env.substitute 0 (c :: rest) = c :: env.substitute 0 rest :=
        substitute_cons fun hc => hescaped (congrArg _ hc)
      rw [Piece.source, List.cons_append, List.cons_append, List.nil_append, hback, hnext]
      rfl

/-- Whether references in a piece are replaced together with those around it. -/
def Piece.IsOpen : Piece → Prop
  | .plain c => c ≠ '\\'
  | .reference _ => True
  | _ => False

theorem substitute_stretch (h : IsReading inDouble (qs ++ ps)) (hqs : ∀ q ∈ qs, q.IsOpen) :
    env.substitute 0 (sources (qs ++ ps)) = results env qs ++ env.substitute 0 (sources ps) := by
  induction qs generalizing inDouble with
  | nil => rfl
  | cons q qs ih =>
      obtain ⟨hq, hrest⟩ := List.forall_mem_cons.1 hqs
      rw [List.cons_append, IsReading] at h
      rw [List.cons_append, sources_cons, substitute_piece h.1, results_cons, List.append_assoc,
        ih h.2 hrest]
      · rintro part rfl
        exact hq
      · rintro rfl
        exact hq.elim

theorem stands_of_append {more : List Char} (h : p.Stands inDouble (cs ++ more)) :
    p.Stands inDouble cs := by
  cases p with
  | quoted part => exact h
  | escaped c => trivial
  | unclosed => exact ⟨h.1, fun hmem => h.2 (List.mem_append_left _ hmem)⟩
  | plain c =>
      refine ⟨h.1, fun hc => (List.append_eq_nil_iff.1 (h.2.1 hc)).1, fun hc hbegins => ?_⟩
      exact h.2.2 hc (hbegins.append more)
  | reference r =>
      cases r with
      | status => trivial
      | braced name => exact h
      | bare name =>
          refine ⟨h.1, fun c hc => h.2 c ?_⟩
          rw [List.head?_append, Option.mem_def.1 hc]
          rfl

/-- The first pieces of a text are read alike without the rest. -/
theorem IsReading.of_append (h : IsReading inDouble (qs ++ ps)) : IsReading inDouble qs := by
  induction qs generalizing inDouble with
  | nil => trivial
  | cons q qs ih =>
      rw [List.cons_append, IsReading, sources_append] at h
      exact ⟨stands_of_append h.1, ih h.2⟩

/-- Open pieces by themselves. -/
theorem substitute_open (h : IsReading inDouble (qs ++ ps)) (hqs : ∀ q ∈ qs, q.IsOpen) :
    env.substitute 0 (sources qs) = results env qs := by
  have halone : IsReading inDouble (qs ++ []) := by simpa using h.of_append
  have hstretch : env.substitute 0 (sources (qs ++ [])) = _ := substitute_stretch halone hqs
  simpa [substitute] using hstretch

theorem IsReading.after (h : IsReading inDouble (qs ++ ps)) :
    IsReading (qs.foldl Piece.next inDouble) ps := by
  induction qs generalizing inDouble with
  | nil => exact h
  | cons q qs ih => exact ih h.2

/-- What a text is expanded to: after an apostrophe that is never closed references are replaced whether
they are escaped or not. -/
def told (env : Environment) : List Piece → List Char
  | [] => []
  | .unclosed :: ps => '\'' :: env.substitute 0 (sources ps)
  | p :: ps => p.result env ++ told env ps

theorem told_cons (h : p ≠ .unclosed) : told env (p :: ps) = p.result env ++ told env ps := by
  cases p with
  | unclosed => exact absurd rfl h
  | _ => rfl

theorem expandFrom_rest (part : List Char) :
    env.expandFrom (.rest part) cs = env.substitute 0 (part.reverse ++ cs) := by
  induction cs generalizing part with
  | nil => rw [expandFrom, List.append_nil]
  | cons c cs ih => rw [expandFrom, ih, List.reverse_cons, List.append_assoc, List.singleton_append]

/-- Characters that neither quote nor escape are read on. -/
theorem expandFrom_stretch (h : ∀ c ∈ cs, c ∉ ['"', '\\', '\'']) (part : List Char) :
    env.expandFrom (.open part inDouble) (cs ++ rest) =
      env.expandFrom (.open (cs.reverse ++ part) inDouble) rest := by
  induction cs generalizing part with
  | nil => rfl
  | cons c cs ih =>
      obtain ⟨hc, hcs⟩ := List.forall_mem_cons.1 h
      simp only [List.mem_cons, List.not_mem_nil, or_false, not_or] at hc
      rw [List.cons_append, expandFrom.eq_def]
      simp [hc, ih hcs]

theorem not_mem_source_reference {r : Reference} (h : r.Fits rest) :
    ∀ c ∈ (Piece.reference r).source, c ∉ ['"', '\\', '\''] := by
  have hword {c : Char} (hc : isAsciiWord c = true) : c ∉ ['"', '\\', '\''] := fun hmem => by
    simp only [List.mem_cons, List.not_mem_nil, or_false] at hmem
    rcases hmem with rfl | rfl | rfl <;> exact absurd hc (by decide)
  rw [Piece.source, List.forall_mem_cons]
  refine ⟨by decide, ?_⟩
  cases r with
  | status => exact List.forall_mem_singleton.2 (by decide)
  | bare name => exact fun c hc => hword (h.1.isAsciiWord hc)
  | braced name =>
      rw [Reference.text, List.forall_mem_cons, List.forall_mem_append]
      exact ⟨by decide, fun c hc => hword (IsIdentifier.isAsciiWord h hc),
        List.forall_mem_singleton.2 (by decide)⟩

theorem expandFrom_plain {c : Char} (hquote : c = '\'' → inDouble = true) (hback : c ≠ '\\')
    (part : List Char) : env.expandFrom (.open part inDouble) (c :: cs) =
      env.expandFrom (.open (c :: part) ((Piece.plain c).next inDouble)) cs := by
  rw [expandFrom.eq_def, Piece.next]
  by_cases hdouble : c = '"'
  · simp [hdouble]
  · have hopen : (decide (c = '\'') && !inDouble) = false := by simpa using hquote
    simp [hdouble, hback, hopen]

/-- An open piece is read on. -/
theorem expandFrom_of_isOpen (h : p.Stands inDouble cs) (hp : p.IsOpen) (part : List Char) :
    env.expandFrom (.open part inDouble) (p.source ++ cs) =
      env.expandFrom (.open (p.source.reverse ++ part) (p.next inDouble)) cs := by
  cases p with
  | plain c => exact expandFrom_plain h.1 hp part
  | reference r => exact expandFrom_stretch (not_mem_source_reference h) part
  | quoted part => exact hp.elim
  | escaped c => exact hp.elim
  | unclosed => exact hp.elim

/-- Whether a piece protects what is in it. -/
def Piece.IsClosed : Piece → Prop
  | .quoted _ | .escaped _ => True
  | _ => False

/-- At a piece that protects what is in it, what has been read on is replaced. -/
theorem expandFrom_of_isClosed (h : p.Stands inDouble cs) (hp : p.IsClosed) (part : List Char) :
    env.expandFrom (.open part inDouble) (p.source ++ cs) =
      env.substitute 0 part.reverse ++
        (p.result env ++ env.expandFrom (.open [] (p.next inDouble)) cs) := by
  cases p with
  | escaped c =>
      rw [Piece.source, List.cons_append, List.cons_append, List.nil_append, expandFrom.eq_def]
      simp [Piece.result, Piece.source, Piece.next]
  | quoted quoted =>
      obtain ⟨rfl, hquoted⟩ := h
      rw [Piece.source, List.cons_append, List.append_assoc, List.singleton_append, expandFrom.eq_def]
      simp [expandFrom_single hquoted, Piece.result, Piece.source, Piece.next]
  | plain c => exact hp.elim
  | reference r => exact hp.elim
  | unclosed => exact hp.elim

theorem expandFrom_unclosed (part : List Char) (h : '\'' ∉ cs) :
    env.expandFrom (.open part false) ('\'' :: cs) =
      env.substitute 0 (part.reverse ++ '\'' :: cs) := by
  rw [expandFrom.eq_def]
  simp [h, expandFrom_rest]

/-- What a text is expanded to from between two pieces, while the pieces since the last quote or escape
wait to be replaced. -/
theorem expandFrom_open (h : IsReading inDouble (qs ++ ps)) (hqs : ∀ q ∈ qs, q.IsOpen) :
    env.expandFrom (.open (sources qs).reverse (qs.foldl Piece.next inDouble)) (sources ps) =
      results env qs ++ told env ps := by
  induction ps generalizing qs inDouble with
  | nil =>
      rw [sources_nil, expandFrom, List.reverse_reverse, substitute_open h hqs, told, List.append_nil]
  | cons p ps ih =>
      obtain ⟨hstands, hnext⟩ := h.after
      have hwaiting : env.substitute 0 (sources qs) = results env qs := substitute_open h hqs
      by_cases hp : p.IsOpen
      · have hwith : IsReading inDouble (qs ++ [p] ++ ps) := by simpa using h
        have hon := ih hwith (List.forall_mem_append.2 ⟨hqs, List.forall_mem_singleton.2 hp⟩)
        rw [sources_append, List.reverse_append, List.foldl_append, results_append,
          List.append_assoc] at hon
        have hp' : p ≠ .unclosed := by
          rintro rfl
          exact hp
        have hsource : sources [p] = p.source := List.append_nil _
        have hresult : results env [p] = p.result env := List.append_nil _
        rw [hsource, hresult] at hon
        rw [sources_cons, expandFrom_of_isOpen hstands hp, told_cons hp']
        exact hon
      by_cases hclosed : p.IsClosed
      · have hafresh : IsReading (p.next (qs.foldl Piece.next inDouble)) ([] ++ ps) := hnext
        have hon : env.expandFrom (.open [] _) (sources ps) = told env ps := ih hafresh (by simp)
        have hp' : p ≠ .unclosed := by
          rintro rfl
          exact hclosed
        rw [sources_cons, expandFrom_of_isClosed hstands hclosed, List.reverse_reverse, hwaiting,
          told_cons hp']
        exact congrArg (fun rest => results env qs ++ (p.result env ++ rest)) hon
      · cases p with
        | reference r => exact absurd trivial hp
        | escaped c => exact absurd trivial hclosed
        | quoted part => exact absurd trivial hclosed
        | unclosed =>
            obtain ⟨hdouble, hrest⟩ := hstands
            have hstretch : env.substitute 0 (sources (qs ++ .unclosed :: ps)) = _ :=
              substitute_stretch h hqs
            have happly : env.substitute 0 (sources (.unclosed :: ps)) = told env (.unclosed :: ps) :=
              substitute_cons fun hc => absurd hc (by decide)
            rw [← happly, ← hstretch, hdouble, sources_cons, Piece.source, List.singleton_append,
              expandFrom_unclosed _ hrest, List.reverse_reverse, sources_append]
            rfl
        | plain c =>
            obtain rfl : c = '\\' := Decidable.not_not.1 hp
            obtain rfl : ps = [] := sources_eq_nil_iff.1 (hstands.2.1 rfl)
            rw [sources_cons, Piece.source, sources_nil, List.append_nil, expandFrom.eq_def]
            simp [hwaiting, told, Piece.result, Piece.source]

/-- A text is expanded to what its pieces are told to. -/
theorem expand_eq_told {text : String} (h : IsReading false ps) (htext : sources ps = text.toList) :
    (env.expand text).toList = told env ps := by
  have hfirst : IsReading false ([] ++ ps) := h
  have hopen : env.expandFrom (.open [] false) (sources ps) = _ := expandFrom_open hfirst (by simp)
  rw [expand, String.toList_ofList, ← htext]
  exact hopen

/-- Whether a dollar sign is escaped that would begin a reference. -/
def Hides (ps : List Piece) : Prop :=
  ∃ before after, ps = before ++ .escaped '$' :: after ∧ Begins (sources after)

/-- Whether a dollar sign is escaped that would begin a reference, after an apostrophe that is never
closed. -/
def Exposes (ps : List Piece) : Prop := ∃ before after, ps = before ++ .unclosed :: after ∧ Hides after

/-- A piece that something follows is the first one, or one of the rest. -/
theorem exists_cons_split_iff {q : Piece} {P : List Piece → Prop} :
    (∃ before after, p :: ps = before ++ q :: after ∧ P after) ↔
      (p = q ∧ P ps) ∨ ∃ before after, ps = before ++ q :: after ∧ P after := by
  constructor
  · rintro ⟨before, after, heq, hafter⟩
    rcases List.cons_eq_append_iff.1 heq with ⟨rfl, hrest⟩ | ⟨rest, rfl, hrest⟩
    · obtain ⟨rfl, rfl⟩ := List.cons.inj hrest
      exact .inl ⟨rfl, hafter⟩
    · exact .inr ⟨rest, after, hrest, hafter⟩
  · rintro (⟨rfl, hafter⟩ | ⟨before, after, rfl, hafter⟩)
    · exact ⟨[], ps, rfl, hafter⟩
    · exact ⟨p :: before, after, rfl, hafter⟩

theorem hides_cons_iff :
    Hides (p :: ps) ↔ (p = .escaped '$' ∧ Begins (sources ps)) ∨ Hides ps :=
  exists_cons_split_iff

theorem exposes_cons_iff : Exposes (p :: ps) ↔ (p = .unclosed ∧ Hides ps) ∨ Exposes ps :=
  exists_cons_split_iff

theorem not_exposes_of_not_mem (h : '\'' ∉ sources ps) : ¬ Exposes ps := by
  rintro ⟨before, after, rfl, -⟩
  simp [Piece.source] at h

/-- In a text without apostrophes a piece that is no escaped reference is replaced as it is read. -/
theorem substitute_sources_cons (h : p.Stands inDouble (sources ps)) (hquote : '\'' ∉ sources (p :: ps))
    (hhides : ¬ (p = .escaped '$' ∧ Begins (sources ps))) :
    env.substitute 0 (sources (p :: ps)) = p.result env ++ env.substitute 0 (sources ps) := by
  refine substitute_piece h ?_ fun hp hbegins => hhides ⟨hp, hbegins⟩
  rintro part rfl
  simp [Piece.source] at hquote

/-- A text without apostrophes is replaced as it is read, unless a reference is escaped. -/
theorem substitute_sources (h : IsReading inDouble ps) (hquote : '\'' ∉ sources ps)
    (hhides : ¬ Hides ps) : env.substitute 0 (sources ps) = results env ps := by
  induction ps generalizing inDouble with
  | nil => rfl
  | cons p ps ih =>
      obtain ⟨hfirst, hrest⟩ := not_or.1 (hides_cons_iff.not.1 hhides)
      rw [substitute_sources_cons h.1 hquote hfirst, results_cons]
      rw [sources_cons, List.mem_append, not_or] at hquote
      rw [ih h.2 hquote.2 hrest]

/-- Whether an environment is one that a session starts with. -/
def IsNew (env : Environment) : Prop :=
  ∃ username home directory extra, start username home directory extra = env

theorem exists_value_of_isIdentifier {name : List Char} (h : IsIdentifier name) :
    ∃ env, IsNew env ∧ ∃ c v, ((env.get? (String.ofList name)).getD "").toList = c :: v ∧ c ≠ '$' := by
  by_cases hfixed : String.ofList name ∈ readOnlyNames
  · refine ⟨start "a" "a" none [], ⟨_, _, _, _, rfl⟩, ?_⟩
    simp only [readOnlyNames, List.mem_cons, List.not_mem_nil, or_false] at hfixed
    rcases hfixed with hname | hname | hname <;> rw [hname]
    · exact ⟨'a', [], by decide, by decide⟩
    · exact ⟨'a', [], by decide, by decide⟩
    · exact ⟨'/', "bin/sh".toList, by decide, by decide⟩
  · refine ⟨start "a" "a" none [(String.ofList name, "a")], ⟨_, _, _, _, rfl⟩, 'a', [], ?_, by decide⟩
    have hname : isName (String.ofList name) = true := isName_iff.2 (.inl (by simpa using h))
    have hvalid : (isName (String.ofList name) && !readOnlyNames.contains (String.ofList name)) = true := by
      simp [hname, hfixed]
    rw [← List.nil_append [_], start_concat, if_pos hvalid, get?_markExported, get?_put, if_pos rfl]
    exact (rfl : "a".toList = ['a'])

/-- A reference has a value in some new environment that does not begin like a reference. -/
theorem exists_value {r : Reference} (h : r.Fits rest) :
    ∃ env, IsNew env ∧ ∃ c v, r.value env = c :: v ∧ c ≠ '$' := by
  cases r with
  | status => exact ⟨start "a" "a" none [], ⟨_, _, _, _, rfl⟩, '0', [], rfl, by decide⟩
  | bare name => exact exists_value_of_isIdentifier h.1
  | braced name => exact exists_value_of_isIdentifier h

/-- An escaped reference in a text without apostrophes is replaced. -/
theorem exists_substitute_ne (h : IsReading inDouble ps) (hquote : '\'' ∉ sources ps)
    (hhides : Hides ps) : ∃ env, IsNew env ∧ env.substitute 0 (sources ps) ≠ results env ps := by
  induction ps generalizing inDouble with
  | nil =>
      obtain ⟨before, after, heq, -⟩ := hhides
      cases before <;> cases heq
  | cons p ps ih =>
      by_cases hfirst : p = .escaped '$' ∧ Begins (sources ps)
      · obtain ⟨rfl, r, rest, hrest, hfits⟩ := hfirst
        obtain ⟨env, hnew, c, v, hvalue, hc⟩ := exists_value hfits
        refine ⟨env, hnew, fun heq => hc ?_⟩
        have hback : env.substitute 0 ('\\' :: '$' :: sources ps) =
            '\\' :: env.substitute 0 ('$' :: sources ps) :=
          substitute_cons fun hc => absurd hc (by decide)
        rw [sources_cons, Piece.source, List.cons_append, List.cons_append, List.nil_append, hback,
          hrest, substitute_reference hfits, hvalue] at heq
        exact (List.cons.inj (List.cons.inj heq).2).1
      · have hlater := (hides_cons_iff.1 hhides).resolve_left hfirst
        have hsource := hquote
        rw [sources_cons, List.mem_append, not_or] at hquote
        obtain ⟨env, hnew, hne⟩ := ih h.2 hquote.2 hlater
        refine ⟨env, hnew, ?_⟩
        rw [substitute_sources_cons h.1 hsource hfirst, results_cons]
        exact fun heq => hne (List.append_cancel_left heq)

theorem told_eq_results (h : IsReading inDouble ps) (hexposes : ¬ Exposes ps) :
    told env ps = results env ps := by
  induction ps generalizing inDouble with
  | nil => rfl
  | cons p ps ih =>
      obtain ⟨hfirst, hrest⟩ := not_or.1 (exposes_cons_iff.not.1 hexposes)
      by_cases hp : p = .unclosed
      · subst hp
        rw [told, substitute_sources h.2 h.1.2 fun hhides => hfirst ⟨rfl, hhides⟩]
        rfl
      · rw [told_cons hp, results_cons, ih h.2 hrest]

theorem exists_told_ne (h : IsReading inDouble ps) (hexposes : Exposes ps) :
    ∃ env, IsNew env ∧ told env ps ≠ results env ps := by
  induction ps generalizing inDouble with
  | nil =>
      obtain ⟨before, after, heq, -⟩ := hexposes
      cases before <;> cases heq
  | cons p ps ih =>
      by_cases hp : p = .unclosed
      · subst hp
        have hhides : Hides ps := by
          rcases exposes_cons_iff.1 hexposes with ⟨-, hhides⟩ | hlater
          · exact hhides
          · exact absurd hlater (not_exposes_of_not_mem h.1.2)
        obtain ⟨env, hnew, hne⟩ := exists_substitute_ne h.2 h.1.2 hhides
        exact ⟨env, hnew, fun heq => hne (List.cons.inj heq).2⟩
      · have hlater := (exposes_cons_iff.1 hexposes).resolve_left fun hfirst => hp hfirst.1
        obtain ⟨env, hnew, hne⟩ := ih h.2 hlater
        refine ⟨env, hnew, ?_⟩
        rw [told_cons hp, results_cons]
        exact fun heq => hne (List.append_cancel_left heq)

/-- A text has one reading as pieces, from left to right. It is expanded by replacing the references
among them, each once, and copying the others, in all environments exactly if no reference is escaped
after an apostrophe that is never closed; if one is, this fails already in a new environment. -/
theorem expands_as_read_iff (text : String) : ∃ ps,
    (∀ qs, sources qs = text.toList ∧ IsReading false qs ↔ qs = ps) ∧
    (¬ Exposes ps → ∀ env : Environment, (env.expand text).toList = results env ps) ∧
    (Exposes ps → ∃ env, IsNew env ∧ (env.expand text).toList ≠ results env ps) := by
  obtain ⟨ps, hsource, hreading⟩ := exists_isReading false text.toList
  refine ⟨ps, fun qs => ⟨fun hqs => ?_, ?_⟩, fun hexposes env => ?_, fun hexposes => ?_⟩
  · exact hqs.2.unique hreading (hqs.1.trans hsource.symm)
  · rintro rfl
    exact ⟨hsource, hreading⟩
  · rw [expand_eq_told hreading hsource, told_eq_results hreading hexposes]
  · obtain ⟨env, hnew, hne⟩ := exists_told_ne hreading hexposes
    refine ⟨env, hnew, ?_⟩
    rwa [expand_eq_told hreading hsource]

/-- What is quoted or escaped is kept, and a value that looks like a reference is not expanded again. -/
theorem value_is_not_expanded_again :
    let ps := [.quoted ['$', 'A'], .plain ' ', .escaped '$', .plain 'A', .plain ' ',
      .reference (.braced ['A']), .reference .status]
    (sources ps = "'$A' \\$A $\x7bA\x7d$?".toList ∧ IsReading false ps) ∧ ¬ Exposes ps ∧
      (start "ada" "/home/ada" none [("A", "$USER")]).expand "'$A' \\$A $\x7bA\x7d$?" =
        "'$A' \\$A $USER0" := by
  intro ps
  have hreading : sources ps = "'$A' \\$A $\x7bA\x7d$?".toList ∧ IsReading false ps := by
    refine ⟨by decide +kernel, ?_⟩
    simp [ps, IsReading, Piece.Stands, Piece.next, Reference.Fits, IsIdentifier]
    decide
  have hnone : ¬ Exposes ps := by
    rintro ⟨before, after, heq, -⟩
    have hmem : Piece.unclosed ∈ ps := heq ▸ by simp
    exact absurd hmem (by decide +kernel)
  obtain ⟨qs, hunique, hkept, -⟩ := expands_as_read_iff "'$A' \\$A $\x7bA\x7d$?"
  obtain rfl := (hunique ps).1 hreading
  refine ⟨hreading, hnone, String.toList_injective ?_⟩
  rw [hkept hnone]
  decide +kernel

/-- A reference is escaped after an apostrophe that is never closed, and replaced nevertheless. -/
theorem escaped_reference_is_expanded :
    let ps := [.plain 'i', .plain 't', .unclosed, .plain 's', .plain ' ', .escaped '$', .plain 'A']
    (sources ps = "it's \\$A".toList ∧ IsReading false ps) ∧
      results (start "ada" "/home/ada" none [("A", "1")]) ps = "it's \\$A".toList ∧
      (start "ada" "/home/ada" none [("A", "1")]).expand "it's \\$A" = "it's \\1" := by
  refine ⟨⟨by decide +kernel, ?_⟩, by decide +kernel, by decide +kernel⟩
  simp [IsReading, Piece.Stands, Piece.next, Piece.source]

end PracticeShell.Environment
