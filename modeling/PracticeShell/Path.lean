/-!
# Paths

A path is written as text, with segments between slashes. `segments` reads it as the names met on
the way down from the root, where `.` and empty segments stay in place and `..` goes up, though
never above the root; `ofSegments` writes an absolute path. `normalize` reads and writes. All other
operations (`resolve`, `dirname`, `basename`, `join`, `isWithin`, `display`) work on the text alone
and never ask whether anything exists.

`IsSegment` says which names can be met on the way to a place. Reading an absolute path that is
written from such names gives them back (`segments_ofSegments`), every path is read as such names
(`isSegment_of_mem_segments`), and so a normalized path is normal (`normalize_normalize`).
-/

namespace PracticeShell.Path

/-- The home directory of a user. -/
def home (username : String) : String := "/home/" ++ username

/-- The texts between the slashes of a path. -/
def parts (path : String) : List String := (path.toList.splitOn '/').map String.ofList

/-- Walks along names from the directory that is reached by `up`, nearest name first. -/
def walkDown (up : List String) : List String → List String
  | [] => up.reverse
  | name :: rest =>
    if name = "" ∨ name = "." then walkDown up rest
    else if name = ".." then walkDown up.tail rest
    else walkDown (name :: up) rest

/-- The names met from the root to the place that a path leads to. -/
def segments (path : String) : List String := walkDown [] (parts path)

/-- The absolute path with the given names. -/
def ofSegments (names : List String) : String := "/" ++ "/".intercalate names

/-- The absolute path to the same place without `.`, `..` and repeated slashes. -/
def normalize (path : String) : String := ofSegments (segments path)

/-- Whether a text starts with another. -/
def startsWith (text start : String) : Bool := start.toList.isPrefixOf text.toList

/-- The place that `target` means to a user who stands at `current`: `~` is the user's home, and a
path that does not start at the root starts at `current`. -/
def resolve (current target username : String) : String :=
  if target = "" then normalize (if current = "" then "/" else current)
  else if target = "~" then home username
  else if startsWith target "~/" then
    normalize (home username ++ String.ofList (target.toList.drop 1))
  else if startsWith target "/" then normalize target
  else normalize ((if current = "" then "/" else current) ++ "/" ++ target)

/-- The normalized path one level up, which for the root is the root. -/
def dirname (path : String) : String := ofSegments (segments path).dropLast

/-- A path without the slashes it ends with. -/
def trimSlashes (path : String) : String :=
  String.ofList (path.toList.reverse.dropWhile (· == '/')).reverse

/-- What follows the last slash of a path that does not end with one. -/
def basename (path : String) : String :=
  if trimSlashes path = "" then "/" else ((parts (trimSlashes path)).getLast?).getD ""

/-- A path and the name of a child put together, with one slash between them. -/
def join (base name : String) : String :=
  if base = "" then name
  else if base.toList.getLast? = some '/' then base ++ name
  else base ++ "/" ++ name

/-- A path with one slash between its segments and without `.`; the empty path is `.`. A path from
the root stays one, and two slashes at its start stay two. -/
def tidy (path : String) : String :=
  let slashes := (path.toList.takeWhile (· == '/')).length
  let root := if slashes = 0 then "" else if slashes = 2 then "//" else "/"
  let text := root ++ "/".intercalate ((parts path).filter fun name => name ≠ "" && name ≠ ".")
  if text = "" then "." else text

/-- Whether `path` is `ancestor` or lies below it. -/
def isWithin (path ancestor : String) : Bool :=
  let p := normalize path
  let a := normalize ancestor
  a == "/" || p == a || startsWith p (a ++ "/")

/-- A path with the user's home shortened to `~`. -/
def display (path username : String) : String :=
  if path = home username then "~"
  else if startsWith path (home username ++ "/") then
    "~" ++ String.ofList (path.toList.drop (home username).length)
  else path

/-- Whether a name can be met on the way to a place: it is not empty, neither `.` nor `..`, and
holds no slash. -/
def IsSegment (name : String) : Prop :=
  name ≠ "" ∧ name ≠ "." ∧ name ≠ ".." ∧ '/' ∉ name.toList

instance (name : String) : Decidable (IsSegment name) := by
  unfold IsSegment
  infer_instance

theorem not_mem_of_mem_splitOn {a : Char} {text part : List Char} (h : part ∈ text.splitOn a) :
    a ∉ part := by
  induction text generalizing part with
  | nil => simp_all
  | cons c text ih =>
    rw [List.splitOn_cons_eq_if_modifyHead] at h
    split at h
    · rcases List.mem_cons.1 h with rfl | h
      · simp
      · exact ih h
    · rename_i hc
      cases hs : text.splitOn a with
      | nil => exact absurd hs (List.splitOn_ne_nil a text)
      | cons first rest =>
        rw [hs] at h
        rcases List.mem_cons.1 h with rfl | h
        · have hfirst : a ∉ first := ih (by simp [hs])
          have hne : a ≠ c := fun e => hc (by simp [e])
          simp [hfirst, hne]
        · exact ih (by simp [hs, h])

theorem slash_not_mem_of_mem_parts {path name : String} (h : name ∈ parts path) :
    '/' ∉ name.toList := by
  obtain ⟨part, hpart, rfl⟩ := List.mem_map.1 h
  rw [String.toList_ofList]
  exact not_mem_of_mem_splitOn hpart

theorem walkDown_of_isSegment {up names : List String} (h : ∀ name ∈ names, IsSegment name) :
    walkDown up names = up.reverse ++ names := by
  induction names generalizing up with
  | nil => simp [walkDown]
  | cons name rest ih =>
    obtain ⟨hempty, hdot, hup, -⟩ := h name (by simp)
    simp [walkDown, hempty, hdot, hup, ih fun n hn => h n (by simp [hn])]

theorem isSegment_of_mem_walkDown {up names : List String} (hup : ∀ name ∈ up, IsSegment name)
    (hnames : ∀ name ∈ names, '/' ∉ name.toList) : ∀ name ∈ walkDown up names, IsSegment name := by
  induction names generalizing up with
  | nil => simpa [walkDown] using hup
  | cons name rest ih =>
    have hrest : ∀ n ∈ rest, '/' ∉ n.toList := fun n hn => hnames n (by simp [hn])
    rw [walkDown]
    split
    · exact ih hup hrest
    · split
      · exact ih (fun n hn => hup n (List.mem_of_mem_tail hn)) hrest
      · rename_i hskip hparent
        refine ih ?_ hrest
        intro n hn
        rcases List.mem_cons.1 hn with rfl | hn
        · exact ⟨fun e => hskip (.inl e), fun e => hskip (.inr e), hparent, hnames n (by simp)⟩
        · exact hup n hn

/-- Every path is read as names that can be met. -/
theorem isSegment_of_mem_segments {path name : String} (h : name ∈ segments path) :
    IsSegment name :=
  isSegment_of_mem_walkDown (by simp) (fun _ hn => slash_not_mem_of_mem_parts hn) name h

theorem toList_ofSegments (names : List String) :
    (ofSegments names).toList = '/' :: ['/'].intercalate (names.map String.toList) := by
  simp [ofSegments, String.toList_intercalate]

theorem parts_ofSegments {names : List String} (hne : names ≠ [])
    (h : ∀ name ∈ names, '/' ∉ name.toList) : parts (ofSegments names) = "" :: names := by
  have hsplit : (['/'].intercalate (names.map String.toList)).splitOn '/' =
      names.map String.toList :=
    List.splitOn_intercalate '/' (by simpa using h) (by simpa using hne)
  rw [parts, toList_ofSegments, List.splitOn_cons_eq_if_modifyHead, hsplit]
  simp

/-- Reading an absolute path gives back the names that it is written from. -/
theorem segments_ofSegments {names : List String} (h : ∀ name ∈ names, IsSegment name) :
    segments (ofSegments names) = names := by
  cases names with
  | nil => decide
  | cons name rest =>
    rw [segments, parts_ofSegments (by simp) fun n hn => (h n hn).2.2.2, walkDown,
      if_pos (.inl rfl), walkDown_of_isSegment h]
    simp

@[simp]
theorem segments_normalize (path : String) : segments (normalize path) = segments path :=
  segments_ofSegments fun _ hn => isSegment_of_mem_segments hn

/-- A normalized path is normal. -/
@[simp]
theorem normalize_normalize (path : String) : normalize (normalize path) = normalize path := by
  rw [normalize, segments_normalize, normalize]

@[simp]
theorem segments_dirname (path : String) : segments (dirname path) = (segments path).dropLast :=
  segments_ofSegments fun _ hn => isSegment_of_mem_segments (List.dropLast_subset _ hn)

end PracticeShell.Path
