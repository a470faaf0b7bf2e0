import PracticeShell.FileTree.Copy
import PracticeShell.Path

/-!
# Places of composed paths

The names that a path composed of others is read as: `segments_append_slash` for two texts with a
slash between them, `segments_entryPath` for an entry of a directory. Two paths are spellings of one if
they have the same place (`normalize_eq_iff`), and to lie within a path is to lie below its place
(`isWithin_iff`).
-/

namespace PracticeShell.Path

theorem parts_append_slash (first second : String) :
    parts (first ++ "/" ++ second) = parts first ++ parts second := by
  simp [parts, String.toList_append, List.splitOn_append_cons_self]

theorem walkDown_append (up first second : List String) :
    walkDown up (first ++ second) = walkDown (walkDown up first).reverse second := by
  induction first generalizing up with
  | nil => simp [walkDown]
  | cons name rest ih =>
      simp only [List.cons_append, walkDown]
      split
      · exact ih up
      · split
        · exact ih up.tail
        · exact ih (name :: up)

/-- A text after a slash is read from the place that the text before it leads to. -/
theorem segments_append_slash (first second : String) :
    segments (first ++ "/" ++ second) = walkDown (segments first).reverse (parts second) := by
  rw [segments, parts_append_slash, walkDown_append]
  rfl

theorem parts_of_isSegment {name : String} (h : IsSegment name) : parts name = [name] := by
  simp [parts, List.splitOn_eq_singleton h.2.2.2]

theorem parts_empty : parts "" = [""] := by simp [parts]

/-- Slashes at the end of a path do not change its place. -/
theorem segments_trimSlashes (path : String) : segments (trimSlashes path) = segments path := by
  have hend : ∀ cs : List Char,
      segments (String.ofList (cs.dropWhile (· == '/')).reverse) =
        segments (String.ofList cs.reverse) := by
    intro cs
    induction cs with
    | nil => rfl
    | cons c cs ih =>
        rw [List.dropWhile_cons]
        split
        · rename_i hc
          obtain rfl : c = '/' := by simpa using hc
          have hsplit : String.ofList ('/' :: cs).reverse =
              String.ofList cs.reverse ++ "/" ++ "" := by
            apply String.toList_injective
            simp
          rw [ih, hsplit, segments_append_slash, parts_empty]
          simp [walkDown]
        · rfl
  have h := hend path.toList.reverse
  rwa [List.reverse_reverse, String.ofList_toList] at h

theorem segments_append_name (path : String) {name : String} (h : IsSegment name) :
    segments (path ++ "/" ++ name) = segments path ++ [name] := by
  rw [segments_append_slash, parts_of_isSegment h, walkDown_of_isSegment (by simpa using h),
    List.reverse_reverse]

/-- The place of an entry is that of its directory and the name. -/
theorem segments_entryPath (directory : String) {name : String} (h : IsSegment name) :
    segments (Edit.entryPath directory name) = segments directory ++ [name] := by
  rw [Edit.entryPath, segments_append_name _ h, segments_trimSlashes]

theorem ofSegments_injective {names others : List String} (hnames : ∀ name ∈ names, IsSegment name)
    (hothers : ∀ name ∈ others, IsSegment name) (h : ofSegments names = ofSegments others) :
    names = others := by
  rw [← segments_ofSegments hnames, h, segments_ofSegments hothers]

/-- Two paths are spellings of one if they lead to the same place. -/
theorem normalize_eq_iff (path other : String) :
    normalize path = normalize other ↔ segments path = segments other :=
  ⟨fun h => ofSegments_injective (fun _ hn => isSegment_of_mem_segments hn)
    (fun _ hn => isSegment_of_mem_segments hn) h, fun h => by rw [normalize, h, normalize]⟩

theorem normalize_dirname (path : String) : normalize (dirname path) = dirname path := by
  rw [normalize, segments_dirname, dirname]

theorem trimSlashes_of_isSegment (start : String) {name : String} (h : IsSegment name) :
    trimSlashes (start ++ name) = start ++ name := by
  obtain ⟨hempty, -, -, hslash⟩ := h
  have hne : name.toList ≠ [] := by simpa using hempty
  obtain ⟨first, last, hlast⟩ := List.eq_nil_or_concat name.toList |>.resolve_left hne
  have hkept : last ≠ '/' := by
    rintro rfl
    simp [hlast] at hslash
  apply String.toList_injective
  simp [trimSlashes, hlast, hkept]

theorem intercalate_append {α : Type} (separator : List α) {first second : List (List α)}
    (hfirst : first ≠ []) (hsecond : second ≠ []) :
    separator.intercalate (first ++ second) =
      separator.intercalate first ++ separator ++ separator.intercalate second := by
  induction first with
  | nil => exact absurd rfl hfirst
  | cons l first ih =>
      rw [List.cons_append, List.intercalate_cons_of_ne_nil (by simp [hsecond])]
      cases first with
      | nil => simp
      | cons l' rest =>
          rw [ih (by simp), List.intercalate_cons_of_ne_nil (by simp : l' :: rest ≠ [])]
          simp

/-- A path that is written from names ends with the last of them. -/
theorem exists_ofSegments_append (names : List String) (name : String) :
    ∃ start, ofSegments (names ++ [name]) = start ++ name := by
  by_cases hnames : names = []
  · exact ⟨"/", by simp [hnames, ofSegments]⟩
  · refine ⟨ofSegments names ++ "/", String.toList_injective ?_⟩
    rw [toList_ofSegments, List.map_append, intercalate_append _ (by simpa using hnames) (by simp)]
    simp [toList_ofSegments]

/-- The base name of a path that is written from names is the last of them. -/
theorem basename_ofSegments {names : List String} {name : String}
    (h : ∀ n ∈ names ++ [name], IsSegment n) : basename (ofSegments (names ++ [name])) = name := by
  have hparts : parts (ofSegments (names ++ [name])) = "" :: (names ++ [name]) :=
    parts_ofSegments (by simp) fun n hn => (h n hn).2.2.2
  obtain ⟨start, hstart⟩ := exists_ofSegments_append names name
  have hname : IsSegment name := h name (by simp)
  have htrim : trimSlashes (ofSegments (names ++ [name])) = ofSegments (names ++ [name]) := by
    rw [hstart, trimSlashes_of_isSegment start hname]
  have hne : ofSegments (names ++ [name]) ≠ "" := by simp [ofSegments]
  rw [basename, htrim, if_neg hne, hparts, ← List.cons_append, List.getLast?_concat]
  rfl

theorem basename_normalize {path name : String} {parent : List String}
    (h : segments path = parent ++ [name]) : basename (normalize path) = name := by
  rw [normalize, h, basename_ofSegments]
  rw [← h]
  exact fun _ hn => isSegment_of_mem_segments hn

theorem segments_dirname_of_append {path name : String} {parent : List String}
    (h : segments path = parent ++ [name]) : segments (dirname path) = parent := by
  rw [segments_dirname, h, List.dropLast_concat]

theorem normalize_eq_dirname_iff (other path : String) :
    normalize other = dirname path ↔ segments other = segments (dirname path) := by
  rw [← normalize_eq_iff, normalize_dirname]

theorem dirname_eq_dirname_iff (path other : String) :
    dirname path = dirname other ↔ segments (dirname path) = segments (dirname other) := by
  rw [← normalize_eq_dirname_iff, normalize_dirname]

theorem startsWith_iff (text start : String) :
    startsWith text start = true ↔ start.toList <+: text.toList := by
  simp [startsWith]

/-- A path lies within another if its place is at or below that of the other. -/
theorem isWithin_iff (path ancestor : String) :
    isWithin path ancestor = true ↔ segments ancestor <+: segments path := by
  have hnames : ∀ p : String, ∀ name ∈ segments p, IsSegment name := fun p name hname =>
    isSegment_of_mem_segments hname
  have hroot : normalize ancestor = "/" ↔ segments ancestor = [] :=
    ⟨fun h => ofSegments_injective (hnames ancestor) (by simp) h, fun h => by
      rw [normalize, h]; rfl⟩
  have hsame := normalize_eq_iff path ancestor
  simp only [isWithin, Bool.or_eq_true, beq_iff_eq, hroot, hsame, startsWith_iff]
  constructor
  · rintro ((h | h) | ⟨rest, h⟩)
    · simp [h]
    · simp [h]
    · have hsplit : normalize path = normalize ancestor ++ "/" ++ String.ofList rest := by
        apply String.toList_injective
        simp [← h]
      have hparts := congrArg parts hsplit
      rw [parts_append_slash] at hparts
      by_cases hancestor : segments ancestor = []
      · simp [hancestor]
      · by_cases hpath : segments path = []
        · have hlength := congrArg List.length h
          simp [normalize, hpath, ofSegments] at hlength
        · rw [normalize, parts_ofSegments hpath fun n hn => (hnames path n hn).2.2.2, normalize,
            parts_ofSegments hancestor fun n hn => (hnames ancestor n hn).2.2.2,
            List.cons_append] at hparts
          exact ⟨_, (List.cons.inj hparts).2.symm⟩
  · rintro ⟨rest, h⟩
    by_cases hancestor : segments ancestor = []
    · exact .inl (.inl hancestor)
    · cases rest with
      | nil => exact .inl (.inr (by simpa using h.symm))
      | cons name rest =>
          refine .inr ⟨['/'].intercalate ((name :: rest).map String.toList), ?_⟩
          rw [normalize, normalize, ← h, String.toList_append, toList_ofSegments,
            toList_ofSegments, List.map_append,
            intercalate_append _ (by simpa using hancestor) (by simp)]
          simp

end PracticeShell.Path
