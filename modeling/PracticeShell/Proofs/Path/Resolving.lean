import PracticeShell.Proofs.Places

/-!
# Resolved paths

What a path means to a user is written in its normal form and means itself from everywhere
(`resolve_settles_iff`). The one exception is the home of a user whose name is not names with single
slashes between them: it is taken as it is written, `..` and all. A name that is joined to a path means
the entry of that name where the path leads to (`segments_resolve_join`).

Whether a path lies within another is decided on the texts of the normalized paths. It comes to the
same as a comparison of what stands between their slashes, name by name (`isWithin_iff_steps`), and so
it is an order on normalized paths under which every path lies within its directory
(`isWithin_orders`).
-/

namespace PracticeShell.Path

theorem startsWith_slash_ofSegments (names : List String) :
    startsWith (ofSegments names) "/" = true := by
  rw [startsWith_iff, toList_ofSegments]
  exact ⟨_, rfl⟩

theorem startsWith_slash_home (username : String) : startsWith (home username) "/" = true := by
  rw [startsWith_iff, home, String.toList_append]
  exact ⟨_, rfl⟩

/-- A path from the root is only normalized. -/
theorem resolve_of_startsWith_slash {target : String} (h : startsWith target "/" = true)
    (current username : String) : resolve current target username = normalize target := by
  obtain ⟨rest, hrest⟩ := (startsWith_iff target "/").1 h
  have hempty : target ≠ "" := by
    rintro rfl
    cases hrest
  have hhome : target ≠ "~" := by
    rintro rfl
    cases hrest
  have htilde : startsWith target "~/" = false := by
    rw [← Bool.not_eq_true, startsWith_iff, ← hrest]
    simp
  rw [resolve, if_neg hempty, if_neg hhome, htilde, h]
  rfl

theorem resolve_tilde (current username : String) :
    resolve current "~" username = home username := by
  rw [resolve, if_neg (by decide), if_pos rfl]

/-- A path from the home of the user. -/
theorem resolve_tilde_append {rest : String} (h : startsWith rest "/" = true)
    (current username : String) :
    resolve current ("~" ++ rest) username = normalize (home username ++ rest) := by
  obtain ⟨cs, hcs⟩ := (startsWith_iff rest "/").1 h
  have hhome : "~" ++ rest ≠ "~" := by
    intro heq
    have htoList := congrArg String.toList heq
    simp [← hcs] at htoList
  have hstart : startsWith ("~" ++ rest) "~/" = true := by
    rw [startsWith_iff, String.toList_append, ← hcs]
    exact ⟨cs, rfl⟩
  rw [resolve, if_neg (by simp), if_neg hhome, if_pos hstart, String.toList_append]
  congr 2
  exact String.ofList_toList

/-- A path from where the user stands. -/
theorem resolve_of_relative {target : String} (hempty : target ≠ "") (hhome : target ≠ "~")
    (htilde : startsWith target "~/" = false) (hroot : startsWith target "/" = false)
    (current username : String) : resolve current target username =
      normalize ((if current = "" then "/" else current) ++ "/" ++ target) := by
  rw [resolve, if_neg hempty, if_neg hhome, htilde, hroot]
  rfl

theorem startsWith_slash_resolve (current target username : String) :
    startsWith (resolve current target username) "/" = true := by
  unfold resolve
  split
  · exact startsWith_slash_ofSegments _
  · split
    · exact startsWith_slash_home username
    · split
      · exact startsWith_slash_ofSegments _
      · split <;> exact startsWith_slash_ofSegments _

theorem normalize_resolve {target : String} (h : target ≠ "~") (current username : String) :
    normalize (resolve current target username) = resolve current target username := by
  unfold resolve
  rw [if_neg h]
  split
  · exact normalize_normalize _
  · split
    · exact normalize_normalize _
    · split <;> exact normalize_normalize _

/-- A text is put together again from what is between its slashes. -/
theorem intercalate_parts (text : String) : "/".intercalate (parts text) = text := by
  apply String.toList_injective
  rw [String.toList_intercalate, parts, List.map_map]
  have hparts : (text.toList.splitOn '/').map (String.toList ∘ String.ofList) =
      text.toList.splitOn '/' := by simp [Function.comp_def]
  rw [hparts]
  exact List.intercalate_splitOn '/'

theorem parts_home (username : String) : parts (home username) = "" :: "home" :: parts username := by
  have hslash : "/home/" = "/home" ++ "/" := by decide
  have hhome : parts "/home" = ["", "home"] := by decide
  rw [home, hslash, parts_append_slash, hhome]
  rfl

theorem home_intercalate {names : List String} (h : names ≠ []) :
    home ("/".intercalate names) = ofSegments ("home" :: names) := by
  apply String.toList_injective
  rw [home, String.toList_append, String.toList_intercalate, toList_ofSegments, List.map_cons,
    List.intercalate_cons_of_ne_nil (by simpa using h)]
  rfl

/-- When the home of a user is written in its normal form. -/
theorem normalize_home_eq_iff (username : String) :
    normalize (home username) = home username ↔
      ∃ names, names ≠ [] ∧ (∀ name ∈ names, IsSegment name) ∧
        username = "/".intercalate names := by
  constructor
  · intro h
    have hsegments : ∀ name ∈ segments (home username), IsSegment name := fun _ hname =>
      isSegment_of_mem_segments hname
    have hparts := parts_home username
    rw [← h, normalize] at hparts
    have hne : segments (home username) ≠ [] := by
      intro hroot
      have hslash : parts (ofSegments []) = ["", ""] := by decide
      rw [hroot, hslash] at hparts
      simp at hparts
    rw [parts_ofSegments hne fun name hname => (hsegments name hname).2.2.2] at hparts
    have hnames : segments (home username) = "home" :: parts username := (List.cons.inj hparts).2
    rw [hnames] at hsegments
    exact ⟨parts username, by simp [parts], fun name hname => hsegments name (by simp [hname]),
      (intercalate_parts username).symm⟩
  · rintro ⟨names, hne, hnames, rfl⟩
    have hhome : IsSegment "home" := by decide
    rw [home_intercalate hne, normalize, segments_ofSegments (by simpa [hhome] using hnames)]

theorem normalize_home_of_isSegment {username : String} (h : IsSegment username) :
    normalize (home username) = home username :=
  (normalize_home_eq_iff username).2 ⟨[username], by simp, by simpa using h, by simp⟩

/-- What a path means to a user whose home is normal is normal. -/
theorem normalize_resolve_of_home {username : String}
    (h : normalize (home username) = home username) (current target : String) :
    normalize (resolve current target username) = resolve current target username := by
  by_cases htilde : target = "~"
  · rw [htilde, resolve_tilde, h]
  · exact normalize_resolve htilde current username

/-- A normal path means itself. -/
theorem resolve_of_normalize {path : String} (h : normalize path = path)
    (current username : String) : resolve current path username = path := by
  rw [resolve_of_startsWith_slash (h ▸ startsWith_slash_ofSegments _), h]

/-- A path means something from the root on. This is normal and means itself from everywhere, unless it
is the home of a user whose name is not names with single slashes between them. -/
theorem resolve_settles_iff (current target username : String) :
    startsWith (resolve current target username) "/" = true ∧
      ((normalize (resolve current target username) = resolve current target username ∧
          ∀ other, resolve other (resolve current target username) username =
            resolve current target username) ↔
        (target = "~" → ∃ names, names ≠ [] ∧ (∀ name ∈ names, IsSegment name) ∧
          username = "/".intercalate names)) := by
  have hroot := startsWith_slash_resolve current target username
  refine ⟨hroot, ?_⟩
  simp only [resolve_of_startsWith_slash hroot, ← normalize_home_eq_iff]
  constructor
  · rintro ⟨hnormal, -⟩ rfl
    exact hnormal
  · intro hhome
    have hnormal : normalize (resolve current target username) =
        resolve current target username := by
      by_cases htilde : target = "~"
      · subst htilde
        exact hhome rfl
      · exact normalize_resolve htilde current username
    exact ⟨hnormal, fun _ => hnormal⟩

/-- The home of `a/../b` is neither normal nor what it means. -/
theorem home_is_left_unsettled : ¬ ∀ current target username,
    normalize (resolve current target username) = resolve current target username ∧
      ∀ other, resolve other (resolve current target username) username =
        resolve current target username := by
  intro h
  have hnormal := (h "/tmp" "~" "a/../b").1
  revert hnormal
  decide

section

variable {directory name : String}

theorem join_append (first : String) (h : directory ≠ "") (name : String) :
    join (first ++ directory) name = first ++ join directory name := by
  have hlast : (first ++ directory).toList.getLast? = directory.toList.getLast? := by
    have hne : directory.toList ≠ [] := by simpa using h
    rw [String.toList_append, List.getLast?_append, List.getLast?_eq_some_getLast hne]
    rfl
  have hboth : first ++ directory ≠ "" := by
    intro heq
    have htoList := congrArg String.toList heq
    simp [h] at htoList
  rw [join, join, if_neg hboth, if_neg h, hlast]
  split <;> simp [String.append_assoc]

/-- A name is joined to a path behind it. -/
theorem exists_join (h : directory ≠ "") (name : String) :
    ∃ rest, join directory name = directory ++ rest := by
  rw [join, if_neg h]
  split
  · exact ⟨name, rfl⟩
  · exact ⟨"/" ++ name, String.append_assoc⟩

/-- A name that is joined to a path stands behind what the path has between its slashes, and takes the
place of the empty text behind the last slash, if there is one. -/
theorem parts_join (directory : String) (hname : IsSegment name) :
    ∃ names, parts (join directory name) = names ++ [name] ∧
      (parts directory = names ∨ parts directory = names ++ [""]) := by
  unfold join
  split
  · rename_i hempty
    rw [hempty]
    exact ⟨[], parts_of_isSegment hname, .inr parts_empty⟩
  split
  · rename_i hslash
    obtain ⟨start, hstart⟩ := List.getLast?_eq_some_iff.1 hslash
    have hdirectory : directory = String.ofList start ++ "/" := by
      apply String.toList_injective
      simp [hstart]
    have hend : directory = String.ofList start ++ "/" ++ "" := by simp [hdirectory]
    refine ⟨parts (String.ofList start), ?_, .inr ?_⟩
    · rw [hdirectory, parts_append_slash, parts_of_isSegment hname]
    · rw [hend, parts_append_slash, parts_empty]
  · exact ⟨parts directory, by rw [parts_append_slash, parts_of_isSegment hname], .inl rfl⟩

/-- A walk along a path with a name joined to it ends at the entry of that name. -/
theorem walkDown_parts_join (up : List String) (directory : String) (hname : IsSegment name) :
    walkDown up (parts (join directory name)) = walkDown up (parts directory) ++ [name] := by
  obtain ⟨names, hjoin, hparts⟩ := parts_join directory hname
  have hsame : walkDown up (parts directory) = walkDown up names := by
    rcases hparts with hparts | hparts
    · rw [hparts]
    · rw [hparts, walkDown_append]
      simp [walkDown]
  rw [hjoin, hsame, walkDown_append, walkDown_of_isSegment (by simpa using hname),
    List.reverse_reverse]

/-- The place of a name that is joined to a path. -/
theorem segments_join (directory : String) (hname : IsSegment name) :
    segments (join directory name) = segments directory ++ [name] :=
  walkDown_parts_join [] directory hname

theorem startsWith_join {start : String} (h : directory ≠ "")
    (hstart : startsWith directory start = true) (name : String) :
    startsWith (join directory name) start = true := by
  obtain ⟨rest, hrest⟩ := exists_join h name
  rw [startsWith_iff] at hstart ⊢
  rw [hrest, String.toList_append]
  exact hstart.trans (List.prefix_append _ _)

/-- A path that does not start at the root or in a home does not either with a name joined to it. -/
theorem resolve_join_of_relative (h : directory ≠ "") (hhome : directory ≠ "~")
    (htilde : startsWith directory "~/" = false) (hroot : startsWith directory "/" = false)
    (current name username : String) : resolve current (join directory name) username =
      normalize (join ((if current = "" then "/" else current) ++ "/" ++ directory) name) := by
  obtain ⟨rest, hrest⟩ := exists_join h name
  obtain ⟨c, cs, hcs⟩ := List.exists_cons_of_ne_nil (show directory.toList ≠ [] by simpa using h)
  rw [← Bool.not_eq_true, startsWith_iff, hcs] at htilde hroot
  have hjoin : (join directory name).toList = c :: (cs ++ rest.toList) := by
    rw [hrest, String.toList_append, hcs, List.cons_append]
  have halone : cs = [] → c ≠ '~' := by
    rintro rfl rfl
    exact hhome (String.toList_injective hcs)
  have hempty : join directory name ≠ "" := by
    intro heq
    rw [heq] at hjoin
    cases hjoin
  have hnotHome : join directory name ≠ "~" := by
    intro heq
    rw [heq] at hjoin
    obtain ⟨hc, hnil⟩ := List.cons.inj hjoin
    exact halone (List.append_eq_nil_iff.1 hnil.symm).1 hc.symm
  have hnotTilde : startsWith (join directory name) "~/" = false := by
    rw [← Bool.not_eq_true, startsWith_iff, hjoin]
    intro hbegins
    obtain ⟨hc, hslash⟩ := List.cons_prefix_cons.1 hbegins
    cases cs with
    | nil => exact halone rfl hc.symm
    | cons d ds =>
        obtain ⟨hd, -⟩ := List.cons_prefix_cons.1 hslash
        exact htilde (List.cons_prefix_cons.2 ⟨hc, List.cons_prefix_cons.2 ⟨hd, List.nil_prefix⟩⟩)
  have hnotRoot : startsWith (join directory name) "/" = false := by
    rw [← Bool.not_eq_true, startsWith_iff, hjoin]
    intro hbegins
    exact hroot (List.cons_prefix_cons.2 ⟨(List.cons_prefix_cons.1 hbegins).1, List.nil_prefix⟩)
  rw [resolve_of_relative hempty hnotHome hnotTilde hnotRoot, join_append _ h]

/-- A name that is joined to a path means the entry of that name where the path leads to. -/
theorem segments_resolve_join (h : directory ≠ "") (hname : IsSegment name)
    (current username : String) : segments (resolve current (join directory name) username) =
      segments (resolve current directory username) ++ [name] := by
  cases hroot : startsWith directory "/" with
  | true =>
      rw [resolve_of_startsWith_slash (startsWith_join h hroot name),
        resolve_of_startsWith_slash hroot, segments_normalize, segments_normalize,
        segments_join _ hname]
  | false =>
      by_cases hhome : directory = "~"
      · subst hhome
        have hslash : startsWith ("/" ++ name) "/" = true := by
          rw [startsWith_iff, String.toList_append]
          exact List.prefix_append _ _
        have hjoin : join "~" name = "~" ++ ("/" ++ name) := by
          rw [join, if_neg h, if_neg (by decide), String.append_assoc]
        rw [hjoin, resolve_tilde_append hslash, resolve_tilde, segments_normalize,
          ← String.append_assoc, segments_append_name _ hname]
      · cases htilde : startsWith directory "~/" with
        | true =>
            obtain ⟨cs, hcs⟩ := (startsWith_iff directory "~/").1 htilde
            obtain ⟨below, rfl, hbelow⟩ :
                ∃ below, directory = "~" ++ below ∧ startsWith below "/" = true := by
              refine ⟨String.ofList ('/' :: cs), String.toList_injective ?_, ?_⟩
              · simp [← hcs]
              · rw [startsWith_iff, String.toList_ofList]
                simp
            have hne : below ≠ "" := by
              rintro rfl
              exact absurd hbelow (by decide)
            rw [join_append _ hne, resolve_tilde_append (startsWith_join hne hbelow name),
              resolve_tilde_append hbelow, ← join_append _ hne, segments_normalize,
              segments_normalize, segments_join _ hname]
        | false =>
            rw [resolve_join_of_relative h hhome htilde hroot,
              resolve_of_relative h hhome htilde hroot, segments_normalize, segments_normalize,
              segments_join _ hname]

theorem join_ne_tilde (h : directory ≠ "") (hname : IsSegment name) : join directory name ≠ "~" := by
  intro heq
  have htoList := congrArg String.toList heq
  rw [join, if_neg h] at htoList
  split at htoList
  · simp [List.append_eq_singleton_iff, h, hname.1] at htoList
  · simp [List.append_eq_singleton_iff, h] at htoList

/-- A dot means where the user stands. -/
theorem segments_resolve_here (current username : String) :
    segments (resolve current "." username) = segments current := by
  have hparts : parts "." = ["."] := by decide
  have hhere : ∀ base : String, segments (base ++ "/" ++ ".") = segments base := by
    intro base
    rw [segments_append_slash, hparts]
    simp [walkDown]
  rw [resolve_of_relative (by decide) (by decide) (by decide) (by decide), segments_normalize, hhere]
  split
  · rename_i hempty
    rw [hempty]
    decide
  · rfl

/-- A name alone means the entry of that name where the user stands. -/
theorem segments_resolve_name (hname : IsSegment name) (h : name ≠ "~") (current username : String) :
    segments (resolve current name username) = segments current ++ [name] := by
  have hslash : ∀ start : String, '/' ∈ start.toList → startsWith name start = false := by
    intro start hstart
    rw [← Bool.not_eq_true, startsWith_iff]
    exact fun hbegins => hname.2.2.2 (hbegins.subset hstart)
  rw [resolve_of_relative hname.1 h (hslash "~/" (by decide)) (hslash "/" (by decide)),
    segments_normalize, segments_append_name _ hname]
  split
  · rename_i hempty
    rw [hempty]
    have hroot : segments "/" = segments "" := by decide
    rw [hroot]
  · rfl

end

/-- The texts between the slashes of a path, without the empty ones. -/
def steps (path : String) : List String := (parts path).filter (· ≠ "")

theorem steps_ofSegments {names : List String} (h : ∀ name ∈ names, IsSegment name) :
    steps (ofSegments names) = names := by
  by_cases hne : names = []
  · subst hne
    decide
  · rw [steps, parts_ofSegments hne fun name hname => (h name hname).2.2.2]
    simpa [List.filter_eq_self] using fun name hname => (h name hname).1

/-- What stands between the slashes of a normalized path are the names on the way to its place. -/
@[simp]
theorem steps_normalize (path : String) : steps (normalize path) = segments path :=
  steps_ofSegments fun _ hname => isSegment_of_mem_segments hname

theorem isWithin_iff_steps (path ancestor : String) :
    isWithin path ancestor = true ↔ steps (normalize ancestor) <+: steps (normalize path) := by
  rw [isWithin_iff, steps_normalize, steps_normalize]

theorem isWithin_refl (path : String) : isWithin path path = true :=
  (isWithin_iff path path).2 List.prefix_rfl

theorem isWithin_trans {path between ancestor : String} (h : isWithin path between = true)
    (hbetween : isWithin between ancestor = true) : isWithin path ancestor = true := by
  rw [isWithin_iff] at *
  exact hbetween.trans h

/-- Paths that lie within each other are spellings of one. -/
theorem normalize_eq_of_isWithin {path other : String} (h : isWithin path other = true)
    (hother : isWithin other path = true) : normalize path = normalize other := by
  rw [isWithin_iff] at h hother
  exact (normalize_eq_iff path other).2 (hother.eq_of_length_le h.length_le)

theorem segments_eq_nil_iff {path : String} (h : normalize path = path) :
    segments path = [] ↔ path = "/" := by
  constructor
  · intro hroot
    rw [← h, normalize, hroot]
    rfl
  · rintro rfl
    decide

/-- What the base name of a normalized path is: that of the root is a slash. -/
theorem basename_normalize_cases (path : String) :
    (segments path = [] ∧ basename (normalize path) = "/") ∨
      ∃ name, IsSegment name ∧ segments path = (segments path).dropLast ++ [name] ∧
        basename (normalize path) = name := by
  rcases List.eq_nil_or_concat (segments path) with hroot | ⟨parent, name, hname⟩
  · refine .inl ⟨hroot, ?_⟩
    rw [normalize, hroot]
    decide
  · rw [List.concat_eq_append] at hname
    have hmem : name ∈ segments path := by simp [hname]
    refine .inr ⟨name, isSegment_of_mem_segments hmem, ?_, basename_normalize hname⟩
    rw [hname, List.dropLast_concat]

/-- A path does not lie within another of the same directory if its name is that of the other with
more behind it. -/
theorem isWithin_eq_false_of_basename {path sibling more : String} (hmore : more ≠ "")
    (hdirectory : dirname path = dirname sibling)
    (hname : basename (normalize path) = basename (normalize sibling) ++ more) :
    isWithin path sibling = false := by
  have hparent : (segments path).dropLast = (segments sibling).dropLast := by
    rw [← segments_dirname, hdirectory, segments_dirname]
  have hlonger : ∀ name : String, name ≠ name ++ more := by
    intro name heq
    exact hmore (by simpa using congrArg String.toList heq)
  rw [← Bool.not_eq_true, isWithin_iff]
  intro hprefix
  rcases basename_normalize_cases path with ⟨hroot, hslash⟩ | ⟨name, hsegment, hpath, hbase⟩
  · -- nothing but the root is a beginning of the root
    have hsibling : normalize sibling = normalize path :=
      (normalize_eq_iff _ _).2 (by rw [hroot] at hprefix ⊢; exact List.prefix_nil.1 hprefix)
    exact hlonger _ (by rw [← hname, hsibling])
  · rcases basename_normalize_cases sibling with ⟨-, hslash⟩ | ⟨other, -, hsibling, hother⟩
    · rw [hbase, hslash] at hname
      exact hsegment.2.2.2 (by simp [hname])
    · rw [hpath, hsibling, hparent, List.prefix_append_right_inj] at hprefix
      obtain rfl : other = name := by simpa using hprefix
      exact hlonger other (by rw [← hother, ← hname, hbase, hother])

/-- A name is joined to a path that is written from names by writing it behind them. -/
theorem join_ofSegments {names : List String} (h : ∀ name ∈ names, IsSegment name) (name : String) :
    join (ofSegments names) name = ofSegments (names ++ [name]) := by
  have hne : ofSegments names ≠ "" := by simp [ofSegments]
  rw [join, if_neg hne]
  rcases List.eq_nil_or_concat names with rfl | ⟨parent, last, rfl⟩
  · rw [if_pos (by decide)]
    simp [ofSegments]
  · rw [List.concat_eq_append] at h ⊢
    obtain ⟨start, hstart⟩ := exists_ofSegments_append parent last
    have hlast : IsSegment last := h last (by simp)
    have hend : ¬(ofSegments (parent ++ [last])).toList.getLast? = some '/' := by
      have hlastNe : last.toList ≠ [] := by simpa using hlast.1
      rw [hstart, String.toList_append, List.getLast?_append, List.getLast?_eq_some_getLast hlastNe]
      intro heq
      exact hlast.2.2.2 (by simpa using Option.some.inj heq ▸ List.getLast_mem hlastNe)
    rw [if_neg hend]
    apply String.toList_injective
    rw [toList_ofSegments, List.map_append, intercalate_append _ (by simp) (by simp)]
    simp [toList_ofSegments]

/-- A path other than the root is put together again from its directory and its name. -/
theorem join_dirname_basename {path : String} (h : normalize path = path) (hroot : path ≠ "/") :
    join (dirname path) (basename path) = path := by
  rcases basename_normalize_cases path with ⟨hnil, -⟩ | ⟨name, -, hpath, hbase⟩
  · exact absurd ((segments_eq_nil_iff h).1 hnil) hroot
  · rw [h] at hbase
    have hparent : ∀ n ∈ (segments path).dropLast, IsSegment n := fun n hn =>
      isSegment_of_mem_segments (List.dropLast_subset _ hn)
    rw [hbase, dirname, join_ofSegments hparent, ← hpath]
    exact h

theorem isWithin_dirname (path : String) : isWithin path (dirname path) = true := by
  rw [isWithin_iff, segments_dirname]
  exact List.dropLast_prefix _

/-- To lie within a path is to have its names first. Hence it is an order on normalized paths, a name
that goes on where another ends is another name, and a path is put together again from the directory
that it lies within and its name. -/
theorem isWithin_orders :
    (∀ path ancestor, isWithin path ancestor = true ↔
      steps (normalize ancestor) <+: steps (normalize path)) ∧
    (∀ path, isWithin path path = true) ∧
    (∀ path between ancestor, isWithin path between = true → isWithin between ancestor = true →
      isWithin path ancestor = true) ∧
    (∀ path other, normalize path = path → normalize other = other →
      isWithin path other = true → isWithin other path = true → path = other) ∧
    (∀ path sibling more, more ≠ "" → dirname path = dirname sibling →
      basename (normalize path) = basename (normalize sibling) ++ more →
      isWithin path sibling = false) ∧
    ∀ path, normalize path = path → path ≠ "/" →
      join (dirname path) (basename path) = path ∧ isWithin path (dirname path) = true := by
  refine ⟨isWithin_iff_steps, isWithin_refl, fun _ _ _ => isWithin_trans, ?_, ?_, ?_⟩
  · intro path other hpath hother h hback
    rw [← hpath, ← hother]
    exact normalize_eq_of_isWithin h hback
  · exact fun _ _ _ => isWithin_eq_false_of_basename
  · exact fun path h hroot => ⟨join_dirname_basename h hroot, isWithin_dirname path⟩

/-- `adam` does not live with `ada`. -/
theorem homes_lie_apart : isWithin "/home//ada/../adam/" "/home/ada" = false ∧
    join (dirname "/home/ada") (basename "/home/ada") = "/home/ada" ∧
    isWithin "/home/ada" (dirname "/home/ada") = true :=
  have h := isWithin_orders
  ⟨h.2.2.2.2.1 "/home//ada/../adam/" "/home/ada" "m" (by decide) (by decide +kernel)
      (by decide +kernel),
    h.2.2.2.2.2 "/home/ada" (by decide) (by decide)⟩

end PracticeShell.Path
