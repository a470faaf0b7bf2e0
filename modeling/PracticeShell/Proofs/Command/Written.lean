import PracticeShell.Command.Words
import PracticeShell.Proofs.Text.Trimming

/-!
# Words as they are written

Where a line is cut into words, some of its characters stand for themselves because they are quoted
or escaped, some are dropped because they quote or escape others, and the rest are bare
(`Words.standings`). The words are put together from the standings alone (`scan_eq_gather`): bare spaces
and tabs separate and all else stands in words, if it is not dropped (`contents`).

`written` is the first word of a text with its quotes, `unwritten` what follows it (`of_scan_eq_cons`).
Trimming a text leaves its words as they are exactly if all that it takes away separates words
(`scan_tidy_eq_iff`).
-/

namespace PracticeShell.Words

/-- How a character of a line stands. -/
inductive Standing
  /-- Neither quoted nor escaped. -/
  | bare
  /-- Quoted or escaped, so that it stands for itself. -/
  | kept
  /-- A quote or a backslash that is dropped. -/
  | dropped
deriving DecidableEq, Repr

/-- The characters of a text with their standings, where `quote` is the quote that is open. -/
def standings (quote : Option Char) : List Char → List (Char × Standing)
  | [] => []
  | c :: rest =>
    match quote with
    | some q =>
      if c = q then (c, .dropped) :: standings none rest
      else if c = '\\' ∧ q = '"' then
        match rest with
        | d :: more =>
          if d = '"' ∨ d = '\\' ∨ d = '$' then
            (c, .dropped) :: (d, .kept) :: standings quote more
          else (c, .kept) :: standings quote (d :: more)
        | [] => [(c, .kept)]
      else (c, .kept) :: standings quote rest
    | none =>
      if c = '\'' ∨ c = '"' then (c, .dropped) :: standings (some c) rest
      else if c = '\\' then
        match rest with
        | d :: more => (c, .dropped) :: (d, .kept) :: standings none more
        | [] => [(c, .bare)]
      else (c, .bare) :: standings none rest

section

variable {q c d : Char}

theorem standings_close (q : Char) (rest : List Char) :
    standings (some q) (q :: rest) = (q, .dropped) :: standings none rest := by
  rw [standings.eq_def]
  exact if_pos rfl

theorem standings_escape (hd : d = '"' ∨ d = '\\' ∨ d = '$') (more : List Char) :
    standings (some '"') ('\\' :: d :: more) =
      ('\\', .dropped) :: (d, .kept) :: standings (some '"') more := by
  rw [standings.eq_def]
  simp [hd]

theorem standings_escape_not (hd : ¬ (d = '"' ∨ d = '\\' ∨ d = '$')) (more : List Char) :
    standings (some '"') ('\\' :: d :: more) =
      ('\\', .kept) :: standings (some '"') (d :: more) := by
  rw [standings.eq_def]
  simp [hd]

theorem standings_end : standings (some '"') ['\\'] = [('\\', .kept)] := by
  rw [standings.eq_def]
  simp

theorem standings_quoted (hq : c ≠ q) (hc : ¬ (c = '\\' ∧ q = '"')) (rest : List Char) :
    standings (some q) (c :: rest) = (c, .kept) :: standings (some q) rest := by
  rw [standings.eq_def]
  simp only [if_neg hq, if_neg hc]

theorem standings_open (hc : c = '\'' ∨ c = '"') (rest : List Char) :
    standings none (c :: rest) = (c, .dropped) :: standings (some c) rest := by
  rw [standings.eq_def]
  exact if_pos hc

theorem standings_protect (d : Char) (more : List Char) :
    standings none ('\\' :: d :: more) =
      ('\\', .dropped) :: (d, .kept) :: standings none more := by
  rw [standings.eq_def]
  simp

theorem standings_last : standings none ['\\'] = [('\\', .bare)] := by
  rw [standings.eq_def]
  simp

theorem standings_bare (hquote : ¬ (c = '\'' ∨ c = '"')) (hc : c ≠ '\\') (rest : List Char) :
    standings none (c :: rest) = (c, .bare) :: standings none rest := by
  rw [standings.eq_def]
  simp only [if_neg hquote, if_neg hc]

end

/-- The words that characters make as they stand. `current` holds, last character first, the word
being read, and `started` says whether there is one. -/
def gather (current : List Char) (started : Bool) : List (Char × Standing) → List (List Char)
  | [] => if started then [current.reverse] else []
  | (c, .bare) :: rest =>
    if c = ' ' ∨ c = '\t' then
      if started then current.reverse :: gather [] false rest else gather [] false rest
    else gather (c :: current) true rest
  | (c, .kept) :: rest => gather (c :: current) true rest
  | (_, .dropped) :: rest => gather current true rest

/-- What follows the first double quote that is escaped between double quotes, if there is one. -/
def afterEscapedQuote? (quote : Option Char) : List Char → Option (List Char)
  | [] => none
  | c :: rest =>
    match quote with
    | some q =>
      if c = q then afterEscapedQuote? none rest
      else if c = '\\' ∧ q = '"' then
        match rest with
        | d :: more =>
          if d = '"' then some more
          else if d = '\\' ∨ d = '$' then afterEscapedQuote? quote more
          else afterEscapedQuote? quote (d :: more)
        | [] => none
      else afterEscapedQuote? quote rest
    | none =>
      if c = '\'' ∨ c = '"' then afterEscapedQuote? (some c) rest
      else if c = '\\' then
        match rest with
        | _ :: more => afterEscapedQuote? none more
        | [] => none
      else afterEscapedQuote? none rest

/-- A line is cut into the words that its characters make as they stand. -/
theorem scan_eq_gather {current : List Char} {started : Bool} {quote : Option Char}
    {cs : List Char} (h : quote.isSome → started = true) :
    scan current started quote cs = gather current started (standings quote cs) := by
  fun_induction scan current started quote cs with
  | case1 => simp [standings, gather]
  | case2 => simp_all [standings, gather]
  | case3 current started rest q ih => rw [ih (by simp), standings_close, gather, h rfl]
  | case4 current started c q hq hc d more hd ih =>
      obtain ⟨rfl, rfl⟩ := hc
      rw [ih h, standings_escape hd, gather, gather, h rfl]
  | case5 current started c q hq hc d more hd ih =>
      obtain ⟨rfl, rfl⟩ := hc
      rw [ih h, standings_escape_not hd, gather, h rfl]
  | case6 current started c q hq hc ih =>
      obtain ⟨rfl, rfl⟩ := hc
      rw [ih h, standings_end, gather, h rfl]
      rfl
  | case7 current started c rest q hq hc ih =>
      rw [ih h, standings_quoted hq hc, gather, h rfl]
  | case8 current started c rest hc ih => rw [ih (by simp), standings_open hc, gather]
  | case9 current c rest hquote hblank ih =>
      rw [ih (by simp), standings_bare hquote (by rintro rfl; simp at hblank), gather, if_pos hblank,
        if_pos rfl]
  | case10 current started c rest hquote hblank hstarted ih =>
      rw [ih (by simp), standings_bare hquote (by rintro rfl; simp at hblank), gather, if_pos hblank,
        if_neg hstarted]
  | case11 current started hquote hblank d more ih =>
      rw [ih (by simp), standings_protect, gather, gather]
  | case12 current started hquote hblank ih =>
      rw [ih (by simp), standings_last, gather, if_neg hblank]
      rfl
  | case13 current started c rest hquote hblank hc ih =>
      rw [ih (by simp), standings_bare hquote hc, gather, if_neg hblank]

open Text.Blank (isBlank tidy dropWhileEnd)

/-- Whether a character separates words as it stands. -/
def separates (x : Char × Standing) : Bool := x.2 == .bare && (x.1 == ' ' || x.1 == '\t')

/-- Whether a character stands in a word. -/
def stands (x : Char × Standing) : Bool := x.2 != .dropped && !separates x

/-- The characters that stand in words. -/
def contents (S : List (Char × Standing)) : List Char := (S.filter stands).map (·.1)

@[simp] theorem contents_nil : contents [] = [] := rfl

@[simp]
theorem contents_append (S T : List (Char × Standing)) :
    contents (S ++ T) = contents S ++ contents T := by
  simp [contents]

theorem contents_cons (x : Char × Standing) (S : List (Char × Standing)) :
    contents (x :: S) = contents [x] ++ contents S := contents_append [x] S

theorem reverse_contents_singleton (x : Char × Standing) :
    (contents [x]).reverse = contents [x] := by
  cases hx : stands x <;> simp [contents, hx]

theorem bare_of_separates {x : Char × Standing} (h : separates x = true) : x.2 = .bare := by
  simp_all [separates]

theorem isBlank_of_separates {x : Char × Standing} (h : separates x = true) : isBlank x.1 = true := by
  have hx : x.1 = ' ' ∨ x.1 = '\t' := by simp_all [separates]
  rcases hx with hx | hx <;> rw [hx] <;> decide

theorem contents_of_stands {x : Char × Standing} (h : stands x = true) (S : List (Char × Standing)) :
    contents (x :: S) = x.1 :: contents S := by
  simp [contents, h]

theorem contents_of_separates {x : Char × Standing} (h : separates x = true) : contents [x] = [] := by
  simp [contents, stands, h]

theorem contents_of_all {S : List (Char × Standing)} (h : ∀ x ∈ S, separates x = true) :
    contents S = [] := by
  rw [contents, List.map_eq_nil_iff, List.filter_eq_nil_iff]
  exact fun x hx => by simp [stands, h x hx]

section Gather

variable {x : Char × Standing} {S T : List (Char × Standing)} {current : List Char} {started : Bool}

theorem gather_separates (h : separates x = true) : gather current started (x :: S) =
    (if started then [current.reverse] else []) ++ gather [] false S := by
  obtain ⟨c, standing⟩ := x
  simp only [separates, Bool.and_eq_true, beq_iff_eq, Bool.or_eq_true] at h
  obtain ⟨rfl, hc⟩ := h
  rw [gather, if_pos hc]
  cases started <;> rfl

theorem gather_not_separates (h : separates x = false) :
    gather current started (x :: S) = gather (contents [x] ++ current) true S := by
  obtain ⟨c, standing⟩ := x
  cases standing with
  | bare =>
      have hc : ¬ (c = ' ' ∨ c = '\t') := by simpa [separates] using h
      rw [gather, if_neg hc]
      simp [contents, stands, h]
  | kept => simp [gather, contents, stands, h]
  | dropped => simp [gather, contents, stands]

theorem gather_dropWhile (S : List (Char × Standing)) :
    gather [] false (S.dropWhile separates) = gather [] false S := by
  induction S with
  | nil => rfl
  | cons x S ih =>
      cases hx : separates x with
      | true => rw [List.dropWhile_cons_of_pos hx, ih, gather_separates hx]; rfl
      | false => rw [List.dropWhile_cons_of_neg (by simp [hx])]

/-- Characters without a separator among them go on with the word that is being read. -/
theorem gather_append_word (hS : ∀ x ∈ S, separates x = false) :
    gather current true (S ++ T) = gather ((contents S).reverse ++ current) true T := by
  induction S generalizing current with
  | nil => rfl
  | cons x S ih =>
      obtain ⟨hx, hrest⟩ := List.forall_mem_cons.1 hS
      rw [List.cons_append, gather_not_separates hx, ih hrest, contents_cons x S,
        List.reverse_append, reverse_contents_singleton, List.append_assoc]

/-- Characters without a separator among them are a word. -/
theorem gather_word (hS : ∀ x ∈ S, separates x = false) (hne : S ≠ []) :
    gather [] false (S ++ T) = gather (contents S).reverse true T := by
  cases S with
  | nil => exact absurd rfl hne
  | cons x S =>
      have hstarted : gather [] false (x :: S ++ T) = gather [] true (x :: S ++ T) := by
        obtain ⟨hx, -⟩ := List.forall_mem_cons.1 hS
        rw [List.cons_append, gather_not_separates hx, gather_not_separates hx]
      rw [hstarted, gather_append_word hS, List.append_nil]

/-- Separators before the first word make no difference. -/
theorem gather_all_append (h : ∀ x ∈ S, separates x = true) :
    gather [] false (S ++ T) = gather [] false T := by
  rw [← gather_dropWhile, List.dropWhile_append_of_pos h, gather_dropWhile]

theorem gather_append_separates (h : separates x = true) (S : List (Char × Standing)) :
    gather current started (S ++ x :: T) = gather current started S ++ gather [] false T := by
  induction S generalizing current started with
  | nil =>
      rw [List.nil_append, gather_separates h]
      cases started <;> rfl
  | cons y S ih =>
      rw [List.cons_append]
      cases hy : separates y with
      | true => rw [gather_separates hy, gather_separates hy, ih, List.append_assoc]
      | false => rw [gather_not_separates hy, gather_not_separates hy, ih]

theorem gather_of_all (h : ∀ x ∈ T, separates x = true) : gather [] false T = [] := by
  induction T with
  | nil => rfl
  | cons x T ih =>
      obtain ⟨hx, hrest⟩ := List.forall_mem_cons.1 h
      rw [gather_separates hx, ih hrest]
      rfl

theorem gather_started_ne_nil (current : List Char) (S : List (Char × Standing)) :
    gather current true S ≠ [] := by
  induction S generalizing current with
  | nil => simp [gather]
  | cons x S ih =>
      cases hx : separates x with
      | true => simp [gather_separates hx]
      | false =>
          rw [gather_not_separates hx]
          exact ih _

theorem separates_of_gather_eq_nil (h : gather [] false S = []) : ∀ x ∈ S, separates x = true := by
  induction S with
  | nil => simp
  | cons x S ih =>
      cases hx : separates x with
      | true =>
          rw [gather_separates hx] at h
          exact List.forall_mem_cons.2 ⟨hx, ih h⟩
      | false =>
          rw [gather_not_separates hx] at h
          exact absurd h (gather_started_ne_nil _ S)

/-- Separators after the last word make no difference. -/
theorem gather_append_of_all (h : ∀ x ∈ T, separates x = true) (S : List (Char × Standing)) :
    gather current started (S ++ T) = gather current started S := by
  cases T with
  | nil => rw [List.append_nil]
  | cons x T =>
      obtain ⟨hx, hrest⟩ := List.forall_mem_cons.1 h
      rw [gather_append_separates hx, gather_of_all hrest, List.append_nil]

theorem length_gather (current other : List Char) (S : List (Char × Standing)) :
    (gather current true S).length = (gather other true S).length := by
  induction S generalizing current other with
  | nil => rfl
  | cons x S ih =>
      cases hx : separates x with
      | true => rw [gather_separates hx, gather_separates hx]; rfl
      | false => rw [gather_not_separates hx, gather_not_separates hx, ih]

/-- A word that has been read is a word by itself if what follows it starts with a separator. -/
theorem separates_of_gather {word : List Char} {words : List (List Char)}
    (hwith : gather current true S = word :: words) (halone : gather [] false S = words) :
    ∀ x ∈ S.head?, separates x = true := by
  cases S with
  | nil => simp
  | cons x S =>
      by_contra hnot
      have hx : separates x = false := by simpa using hnot
      rw [gather_not_separates hx] at hwith halone
      have hlength := length_gather (contents [x] ++ current) (contents [x] ++ []) S
      rw [hwith, halone, List.length_cons] at hlength
      omega

/-- The words of a text hold what stands in them. -/
theorem flatten_gather (h : started = false → current = []) :
    (gather current started S).flatten = current.reverse ++ contents S := by
  induction S generalizing current started with
  | nil => cases started <;> simp_all [gather]
  | cons x S ih =>
      rw [contents_cons]
      cases hx : separates x with
      | true =>
          rw [gather_separates hx, List.flatten_append, ih (fun _ => rfl), contents_of_separates hx]
          cases started <;> simp_all
      | false =>
          rw [gather_not_separates hx, ih (fun h => absurd h (by simp)), List.reverse_append,
            reverse_contents_singleton, List.append_assoc]

end Gather

/-- The quote that is open after a text without backslashes. -/
def quoteAfter (quote : Option Char) : List Char → Option Char
  | [] => quote
  | c :: rest =>
    match quote with
    | some q => quoteAfter (if c = q then none else some q) rest
    | none => quoteAfter (if c = '\'' ∨ c = '"' then some c else none) rest

theorem quoteAfter_cons (quote : Option Char) (c : Char) (cs : List Char) :
    quoteAfter quote (c :: cs) = quoteAfter (quoteAfter quote [c]) cs := by
  cases quote <;> rfl

/-- How a character stands does not depend on what follows it, and no quote is open around a bare
one. -/
theorem standings_cons {c : Char} (hc : c ≠ '\\') (quote : Option Char) : ∃ standing,
    (standing = .bare → quote = none ∧ quoteAfter quote [c] = none) ∧ ∀ cs,
      standings quote (c :: cs) = (c, standing) :: standings (quoteAfter quote [c]) cs := by
  cases quote with
  | none =>
      by_cases hquote : c = '\'' ∨ c = '"'
      · refine ⟨.dropped, by simp, fun cs => ?_⟩
        rw [standings_open hquote, quoteAfter, if_pos hquote, quoteAfter]
      · have hafter : quoteAfter none [c] = none := by rw [quoteAfter, if_neg hquote, quoteAfter]
        refine ⟨.bare, fun _ => ⟨rfl, hafter⟩, fun cs => ?_⟩
        rw [standings_bare hquote hc, hafter]
  | some q =>
      by_cases hq : c = q
      · subst hq
        refine ⟨.dropped, by simp, fun cs => ?_⟩
        rw [standings_close, quoteAfter, if_pos rfl, quoteAfter]
      · refine ⟨.kept, by simp, fun cs => ?_⟩
        rw [standings_quoted hq (fun h => hc h.1), quoteAfter, if_neg hq, quoteAfter]

section Standings

variable {cs ds : List Char} {quote : Option Char}

/-- The characters after a text stand as they do after the quote that is open there. -/
theorem standings_append (h : '\\' ∉ cs) :
    standings quote (cs ++ ds) = standings quote cs ++ standings (quoteAfter quote cs) ds := by
  induction cs generalizing quote with
  | nil => rw [List.nil_append, standings, List.nil_append, quoteAfter]
  | cons c cs ih =>
      obtain ⟨hc, hrest⟩ := not_or.1 (List.mem_cons.not.1 h)
      obtain ⟨standing, -, hcons⟩ := standings_cons (Ne.symm hc) quote
      rw [List.cons_append, hcons, hcons, ih hrest, quoteAfter_cons quote c cs, List.cons_append]

@[simp]
theorem map_fst_standings (quote : Option Char) (cs : List Char) :
    (standings quote cs).map (·.1) = cs := by
  fun_induction standings quote cs <;> simp_all

/-- The two parts of a text stand as they do in it. -/
theorem standings_parts {S T : List (Char × Standing)} (h : '\\' ∉ cs)
    (hparts : standings quote cs = S ++ T) : standings quote (S.map (·.1)) = S ∧
      standings (quoteAfter quote (S.map (·.1))) (T.map (·.1)) = T := by
  have hcs : cs = S.map (·.1) ++ T.map (·.1) := by
    rw [← List.map_append, ← hparts, map_fst_standings]
  have hlength := congrArg List.length (map_fst_standings quote (S.map (·.1)))
  rw [List.length_map, List.length_map] at hlength
  rw [hcs, List.mem_append, not_or] at h
  rw [hcs, standings_append h.1] at hparts
  exact List.append_inj hparts hlength

theorem quoteAfter_of_bare (h : '\\' ∉ cs) (hbare : ∀ x ∈ standings none cs, x.2 = .bare) :
    quoteAfter none cs = none := by
  induction cs with
  | nil => rfl
  | cons c cs ih =>
      obtain ⟨hc, hrest⟩ := not_or.1 (List.mem_cons.not.1 h)
      obtain ⟨standing, hclosed, hcons⟩ := standings_cons (Ne.symm hc) none
      rw [hcons, List.forall_mem_cons] at hbare
      obtain ⟨-, hafter⟩ := hclosed hbare.1
      rw [hafter] at hbare
      rw [quoteAfter_cons, hafter, ih hrest hbare.2]

theorem quoteAfter_of_not_mem {q : Char} (h : q ∉ cs) : quoteAfter (some q) cs = some q := by
  induction cs with
  | nil => rfl
  | cons c cs ih =>
      obtain ⟨hc, hrest⟩ := not_or.1 (List.mem_cons.not.1 h)
      rw [quoteAfter, if_neg (Ne.symm hc), ih hrest]

theorem standings_inside {q : Char} (h : '\\' ∉ cs) (hq : q ∉ cs) :
    standings (some q) cs = cs.map fun c => (c, .kept) := by
  induction cs with
  | nil => rfl
  | cons c cs ih =>
      obtain ⟨hc, hrest⟩ := not_or.1 (List.mem_cons.not.1 h)
      obtain ⟨hne, hqs⟩ := not_or.1 (List.mem_cons.not.1 hq)
      rw [standings_quoted (Ne.symm hne) (fun hesc => hc hesc.1.symm), ih hrest hqs, List.map_cons]

/-- Only quotes and backslashes are dropped. -/
theorem mem_of_dropped {c : Char} (hquote : ∀ q, quote = some q → q = '\'' ∨ q = '"')
    (h : (c, Standing.dropped) ∈ standings quote cs) : c ∈ ['\'', '"', '\\'] := by
  fun_induction standings quote cs <;> grind

end Standings

/-- The words of a line hold what stands in them. -/
theorem flatten_scan (cs : List Char) :
    (scan [] false none cs).flatten = contents (standings none cs) := by
  rw [scan_eq_gather (by simp), flatten_gather (fun _ => rfl)]
  rfl

/-- The words of a line are made of its characters. -/
theorem mem_of_mem_scan {cs word : List Char} {words : List (List Char)} {c : Char}
    (hcs : scan [] false none cs = word :: words) (hc : c ∈ word) : c ∈ cs := by
  have hflat := flatten_scan cs
  rw [hcs, List.flatten_cons] at hflat
  have hmem : c ∈ contents (standings none cs) := by
    rw [← hflat]
    exact List.mem_append_left _ hc
  rw [← map_fst_standings none cs]
  exact ((List.filter_sublist (p := stands)).map _).subset hmem

/-- A space after which no quote is open has the words of both sides around it. -/
theorem scan_append_space {cs : List Char} (h : '\\' ∉ cs) (hclosed : quoteAfter none cs = none)
    (ds : List Char) :
    scan [] false none (cs ++ ' ' :: ds) = scan [] false none cs ++ scan [] false none ds := by
  have hspace : standings none (' ' :: ds) = (' ', .bare) :: standings none ds :=
    standings_bare (by decide) (by decide) ds
  rw [scan_eq_gather (by simp), standings_append h, hclosed, hspace,
    gather_append_separates (by decide), scan_eq_gather (by simp), scan_eq_gather (by simp)]

section Between

variable {q : Char} {cs : List Char}

/-- A pair of quotes and what is between them as they stand. -/
def between (q : Char) (cs : List Char) : List (Char × Standing) :=
  (q, .dropped) :: (cs.map (fun c => (c, .kept)) ++ [(q, .dropped)])

theorem standings_between (hq : q = '"' ∨ q = '\'') (h : '\\' ∉ cs) (hcs : q ∉ cs)
    (ds : List Char) :
    standings none (q :: (cs ++ q :: ds)) = between q cs ++ standings none ds := by
  rw [standings_open hq.symm, standings_append h, quoteAfter_of_not_mem hcs, standings_close,
    standings_inside h hcs]
  simp [between]

theorem separates_between : ∀ x ∈ between q cs, separates x = false := by
  grind [between, separates]

theorem contents_between (q : Char) (cs : List Char) : contents (between q cs) = cs := by
  simp [between, contents, stands, separates, List.filter_map, Function.comp_def]

theorem map_fst_between (q : Char) (cs : List Char) :
    (between q cs).map (·.1) = q :: (cs ++ [q]) := by
  simp [between, Function.comp_def]

/-- What is between a pair of quotes is in one word. -/
theorem gather_between (S : List (Char × Standing)) :
    gather [] false (between q cs ++ S) = gather cs.reverse true S := by
  rw [gather_word separates_between (List.cons_ne_nil _ _), contents_between]

end Between

section Trim

variable {S : List (Char × Standing)} {cs : List Char}

/-- Whether a character is blank, however it stands. -/
def isBlankAt (x : Char × Standing) : Bool := isBlank x.1

/-- What is taken away where blanks are trimmed. -/
def shed (S : List (Char × Standing)) : List (Char × Standing) :=
  S.takeWhile isBlankAt ++ (S.dropWhile isBlankAt).rtakeWhile isBlankAt

theorem shed_parts (S : List (Char × Standing)) : S.takeWhile isBlankAt ++
    (tidy isBlankAt S ++ (S.dropWhile isBlankAt).rtakeWhile isBlankAt) = S := by
  have hend : tidy isBlankAt S ++ (S.dropWhile isBlankAt).rtakeWhile isBlankAt =
      S.dropWhile isBlankAt := List.rdropWhile_append_rtakeWhile
  rw [hend, List.takeWhile_append_dropWhile]

theorem length_contents_tidy (S : List (Char × Standing)) :
    (contents (tidy isBlankAt S)).length + (contents (shed S)).length = (contents S).length := by
  have hparts := congrArg (fun T => (contents T).length) (shed_parts S)
  simp only [contents_append, List.length_append, shed] at hparts ⊢
  omega

/-- Where only separators are taken away the words stay. -/
theorem gather_tidy (h : ∀ x ∈ shed S, separates x = true) :
    gather [] false (tidy isBlankAt S) = gather [] false S := by
  obtain ⟨hstart, hend⟩ := List.forall_mem_append.1 h
  conv_rhs => rw [← shed_parts S]
  rw [gather_all_append hstart, gather_append_of_all hend]

/-- A blank that stands in no word separates words. -/
theorem separates_of_isBlank {x : Char × Standing} (hmem : x ∈ standings none cs)
    (hblank : isBlank x.1 = true) (hx : stands x = false) : separates x = true := by
  have hkept : x.2 ≠ .dropped := by
    intro hdropped
    have hdrop : (x.1, Standing.dropped) ∈ standings none cs := by rwa [← hdropped]
    have hquote : x.1 ∈ ['\'', '"', '\\'] := mem_of_dropped (by simp) hdrop
    simp only [List.mem_cons, List.not_mem_nil, or_false] at hquote
    rcases hquote with heq | heq | heq <;> rw [heq] at hblank <;> revert hblank <;> decide
  simpa [stands, hkept] using hx

theorem stands_of_contents_eq_nil (h : contents S = []) : ∀ x ∈ S, stands x = false := by
  simpa [contents, List.filter_eq_nil_iff] using h

theorem separates_of_contents_eq_nil (h : contents (shed (standings none cs)) = []) :
    ∀ x ∈ shed (standings none cs), separates x = true := by
  intro x hx
  have hmem : x ∈ standings none cs ∧ isBlank x.1 = true := by
    rw [← shed_parts (standings none cs)]
    rcases List.mem_append.1 hx with hstart | hend
    · exact ⟨List.mem_append_left _ hstart, List.all_eq_true.1 List.all_takeWhile x hstart⟩
    · exact ⟨List.mem_append_right _ (List.mem_append_right _ hend),
        List.mem_rtakeWhile_imp (p := isBlankAt) hend⟩
  exact separates_of_isBlank hmem.1 hmem.2 (stands_of_contents_eq_nil h x hx)

theorem standings_dropWhile (cs : List Char) :
    standings none (cs.dropWhile isBlank) = (standings none cs).dropWhile isBlankAt := by
  induction cs with
  | nil => rfl
  | cons c cs ih =>
      cases hc : isBlank c with
      | true =>
          have hquote : ¬ (c = '\'' ∨ c = '"') := by
            rintro (rfl | rfl) <;> exact absurd hc (by decide)
          have hne : c ≠ '\\' := by
            rintro rfl
            exact absurd hc (by decide)
          rw [List.dropWhile_cons_of_pos hc, standings_bare hquote hne,
            List.dropWhile_cons_of_pos (by exact hc), ih]
      | false =>
          have hfst := map_fst_standings none (c :: cs)
          rw [List.dropWhile_cons_of_neg (by simp [hc])]
          cases hS : standings none (c :: cs) with
          | nil => simp [hS] at hfst
          | cons x S =>
              rw [hS, List.map_cons] at hfst
              have hx : isBlankAt x = false := by rw [isBlankAt, (List.cons.inj hfst).1, hc]
              rw [List.dropWhile_cons_of_neg (by simp [hx])]

theorem standings_dropWhileEnd (h : '\\' ∉ cs) (quote : Option Char) :
    standings quote (dropWhileEnd isBlank cs) = dropWhileEnd isBlankAt (standings quote cs) := by
  induction cs using List.reverseRecOn with
  | nil => rfl
  | append_singleton cs c ih =>
      have hcs : '\\' ∉ cs := fun hmem => h (List.mem_append_left _ hmem)
      have hfst := map_fst_standings (quoteAfter quote cs) [c]
      obtain ⟨x, hx, hxc⟩ := List.map_eq_singleton_iff.1 hfst
      rw [standings_append hcs, hx]
      cases hc : isBlank c with
      | true =>
          rw [Text.Blank.dropWhileEnd_concat_pos hc, ih hcs,
            Text.Blank.dropWhileEnd_concat_pos (by rw [isBlankAt, hxc, hc])]
      | false =>
          rw [Text.Blank.dropWhileEnd_concat_neg hc, standings_append hcs, hx,
            Text.Blank.dropWhileEnd_concat_neg (by rw [isBlankAt, hxc, hc])]

/-- A text is trimmed as its characters stand. -/
theorem standings_tidy (h : '\\' ∉ cs) :
    standings none (tidy isBlank cs) = tidy isBlankAt (standings none cs) := by
  have hdrop : '\\' ∉ cs.dropWhile isBlank := fun hmem => h ((List.dropWhile_sublist _).subset hmem)
  rw [tidy, standings_dropWhileEnd hdrop, standings_dropWhile, tidy]

theorem scan_tidy (h : '\\' ∉ cs) (hshed : ∀ x ∈ shed (standings none cs), separates x = true) :
    scan [] false none (tidy isBlank cs) = scan [] false none cs := by
  rw [scan_eq_gather (by simp), scan_eq_gather (by simp), standings_tidy h, gather_tidy hshed]

/-- Trimming leaves the words of a text as they are exactly if all that it takes away separates
words. -/
theorem scan_tidy_eq_iff (h : '\\' ∉ cs) :
    scan [] false none (tidy isBlank cs) = scan [] false none cs ↔
      ∀ x ∈ shed (standings none cs), separates x = true := by
  refine ⟨fun heq => separates_of_contents_eq_nil ?_, scan_tidy h⟩
  have hflat := congrArg (fun ws => ws.flatten.length) heq
  simp only [flatten_scan, standings_tidy h] at hflat
  have hlength := length_contents_tidy (standings none cs)
  exact List.length_eq_zero_iff.1 (by omega)

end Trim

section First

/-- The first word of a text as it is written. -/
def written (cs : List Char) : List Char :=
  (((standings none cs).dropWhile separates).takeWhile (!separates ·)).map (·.1)

/-- What follows the first word of a text. -/
def unwritten (cs : List Char) : List Char :=
  (((standings none cs).dropWhile separates).dropWhile (!separates ·)).map (·.1)

theorem eq_false_of_dropWhile {α : Type} {p : α → Bool} {l rest : List α} {a : α}
    (h : l.dropWhile p = a :: rest) : p a = false := by
  have hhead := List.head?_dropWhile_not p l
  rwa [h] at hhead

/-- The first word is what stands up to the next separator, the other words are what follows it. -/
theorem of_gather_eq_cons {S : List (Char × Standing)} {word : List Char} {words : List (List Char)}
    (h : gather [] false S = word :: words) :
    (S.dropWhile separates).takeWhile (!separates ·) ≠ [] ∧
      contents ((S.dropWhile separates).takeWhile (!separates ·)) = word ∧
      gather [] false ((S.dropWhile separates).dropWhile (!separates ·)) = words := by
  rw [← gather_dropWhile] at h
  generalize hD : S.dropWhile separates = D at h ⊢
  have hword : ∀ x ∈ D.takeWhile (!separates ·), separates x = false := fun x hx => by
    simpa using List.all_eq_true.1 List.all_takeWhile x hx
  have hne : D.takeWhile (!separates ·) ≠ [] := by
    cases D with
    | nil => cases h
    | cons x D => simp [eq_false_of_dropWhile hD]
  rw [← List.takeWhile_append_dropWhile (p := (!separates ·)) (l := D), gather_word hword hne] at h
  refine ⟨hne, ?_⟩
  cases hrest : D.dropWhile (!separates ·) with
  | nil =>
      rw [hrest, gather, if_pos rfl, List.reverse_reverse] at h
      exact List.cons.inj h
  | cons x rest =>
      have hx : separates x = true := by simpa using eq_false_of_dropWhile hrest
      rw [hrest, gather_separates hx, if_pos rfl, List.reverse_reverse] at h
      rw [gather_separates hx]
      exact List.cons.inj h

variable {cs : List Char}

/-- A text is the separators before its first word, that word and what follows. -/
theorem written_parts (cs : List Char) : ((standings none cs).takeWhile separates).map (·.1) ++
    (written cs ++ unwritten cs) = cs := by
  rw [written, unwritten, ← List.map_append, List.takeWhile_append_dropWhile, ← List.map_append,
    List.takeWhile_append_dropWhile, map_fst_standings]

/-- A pair of quotes that is before all the other words is the first word. -/
theorem written_between {q : Char} {inner word rest : List Char} {lead : List (Char × Standing)}
    {words : List (List Char)}
    (hcs : standings none cs = lead ++ (between q inner ++ standings none rest))
    (hlead : ∀ x ∈ lead, separates x = true) (hwords : scan [] false none cs = word :: words)
    (hrest : scan [] false none rest = words) : written cs = q :: (inner ++ [q]) := by
  have hskip : (standings none cs).dropWhile separates = between q inner ++ standings none rest := by
    rw [hcs, List.dropWhile_append_of_pos hlead]
    rfl
  have hwith : gather inner.reverse true (standings none rest) = word :: words := by
    rw [← gather_between, ← hskip, gather_dropWhile, ← scan_eq_gather (by simp), hwords]
  rw [scan_eq_gather (by simp)] at hrest
  have hend : (standings none rest).takeWhile (!separates ·) = [] := by
    have hnext := separates_of_gather hwith hrest
    cases hS : standings none rest with
    | nil => rfl
    | cons x S => rw [List.takeWhile_cons_of_neg (by simp [hnext x (by simp [hS])])]
  rw [written, hskip, List.takeWhile_append_of_pos (fun x hx => by simp [separates_between x hx]),
    hend, List.append_nil, map_fst_between]

/-- Only blanks are before the first word. -/
theorem dropWhile_written (cs : List Char) :
    cs.dropWhile isBlank = (written cs ++ unwritten cs).dropWhile isBlank := by
  have hlead : ∀ b ∈ ((standings none cs).takeWhile separates).map (·.1), isBlank b = true := by
    intro b hb
    obtain ⟨x, hx, rfl⟩ := List.mem_map.1 hb
    exact isBlank_of_separates (List.all_eq_true.1 List.all_takeWhile x hx)
  conv_lhs => rw [← written_parts cs, List.dropWhile_append_of_pos hlead]

/-- What follows the first word starts with a blank. -/
theorem isBlank_of_unwritten {c : Char} {rest : List Char} (h : unwritten cs = c :: rest) :
    isBlank c = true := by
  obtain ⟨x, U, hU, rfl, -⟩ := List.map_eq_cons_iff.1 h
  exact isBlank_of_separates (by simpa using eq_false_of_dropWhile hU)

theorem closed_of_separates {quote : Option Char} {x : Char × Standing} {T : List (Char × Standing)}
    (h : '\\' ∉ cs) (hcs : standings quote cs = x :: T) (hx : separates x = true) :
    quote = none := by
  cases cs with
  | nil => simp [standings] at hcs
  | cons c cs =>
      obtain ⟨hc, -⟩ := not_or.1 (List.mem_cons.not.1 h)
      obtain ⟨standing, hclosed, hcons⟩ := standings_cons (Ne.symm hc) quote
      rw [hcons] at hcs
      obtain ⟨rfl, -⟩ := List.cons.inj hcs
      exact (hclosed (bare_of_separates hx)).1

section

variable (h : '\\' ∉ cs)

include h

theorem not_mem_of_sublist {S : List (Char × Standing)} (hS : S.Sublist (standings none cs)) :
    '\\' ∉ S.map (·.1) := fun hmem =>
  h (by rw [← map_fst_standings none cs]; exact (hS.map _).subset hmem)

theorem standings_dropWhile_separates :
    standings none (((standings none cs).dropWhile separates).map (·.1)) =
      (standings none cs).dropWhile separates := by
  obtain ⟨hlead, hrest⟩ := standings_parts h
    (List.takeWhile_append_dropWhile (p := separates) (l := standings none cs)).symm
  have hclosed := quoteAfter_of_bare (not_mem_of_sublist h (List.takeWhile_sublist _)) (by
    rw [hlead]
    exact fun x hx => bare_of_separates (List.all_eq_true.1 List.all_takeWhile x hx))
  rwa [hclosed] at hrest

/-- The first word of a text and what follows it stand by themselves as they do in the text. -/
theorem standings_written :
    standings none (written cs) = ((standings none cs).dropWhile separates).takeWhile (!separates ·) ∧
      standings none (unwritten cs) =
        ((standings none cs).dropWhile separates).dropWhile (!separates ·) ∧
      (unwritten cs ≠ [] → quoteAfter none (written cs) = none) := by
  have hdrop := List.dropWhile_sublist separates (l := standings none cs)
  obtain ⟨hword, hrest⟩ := standings_parts (not_mem_of_sublist h hdrop)
    ((standings_dropWhile_separates h).trans
      (List.takeWhile_append_dropWhile (p := (!separates ·))).symm)
  refine ⟨hword, ?_⟩
  rw [unwritten, written]
  cases hU : ((standings none cs).dropWhile separates).dropWhile (!separates ·) with
  | nil => exact ⟨rfl, by simp⟩
  | cons x U =>
      have hx : separates x = true := by simpa using eq_false_of_dropWhile hU
      have hnext := not_mem_of_sublist h ((List.dropWhile_sublist (!separates ·)).trans hdrop)
      rw [hU] at hrest hnext
      have hclosed := closed_of_separates hnext hrest hx
      rw [hclosed] at hrest
      exact ⟨hrest, fun _ => hclosed⟩

/-- The first word of a text is what is written first, its other words are what follows. -/
theorem of_scan_eq_cons {word : List Char} {words : List (List Char)}
    (hcs : scan [] false none cs = word :: words) : written cs ≠ [] ∧
      scan [] false none (written cs) = [word] ∧ scan [] false none (unwritten cs) = words := by
  rw [scan_eq_gather (by simp)] at hcs
  obtain ⟨hne, hword, hwords⟩ := of_gather_eq_cons hcs
  obtain ⟨hfirst, hrest, -⟩ := standings_written h
  refine ⟨by simpa [written] using hne, ?_, ?_⟩
  · rw [scan_eq_gather (by simp), hfirst, ← List.append_nil (List.takeWhile _ _),
      gather_word (fun x hx => by simpa using List.all_eq_true.1 List.all_takeWhile x hx) hne, hword,
      gather, if_pos rfl, List.reverse_reverse]
  · rw [scan_eq_gather (by simp), hrest, hwords]

/-- The blanks of the first word as it is written are in the word. -/
theorem mem_of_mem_written {word : List Char} {b : Char}
    (hword : scan [] false none (written cs) = [word]) (hb : isBlank b = true)
    (hmem : b ∈ written cs) : b ∈ word := by
  have hcontents := flatten_scan (written cs)
  rw [hword, List.flatten_singleton] at hcontents
  rw [← map_fst_standings none (written cs)] at hmem
  obtain ⟨x, hx, rfl⟩ := List.mem_map.1 hmem
  have hinside : separates x = false := by
    rw [(standings_written h).1] at hx
    simpa using List.all_eq_true.1 List.all_takeWhile x hx
  have hstands : stands x = true := by
    by_contra hnot
    rw [separates_of_isBlank hx hb (by simpa using hnot)] at hinside
    exact absurd hinside (by simp)
  rw [hcontents]
  exact List.mem_map_of_mem (List.mem_filter.2 ⟨hx, hstands⟩)

end

end First

end PracticeShell.Words
