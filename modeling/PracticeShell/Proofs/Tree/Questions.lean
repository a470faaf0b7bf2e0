import PracticeShell.Proofs.Tree.Order
import PracticeShell.Proofs.Tree.Within

/-!
# Questions to a view

A `Question` is asked with a path, and answered or refused. What a view answers is what the whole
file system answers when the path is put under that of the directory, except that the paths in answers
and refusals are under it, too (`Question.answers`). Together with requests this says that a view and
the paths under its directory come to the same, and that `..` leads no higher than the directory
(`view_mirrors_whole`).
-/

namespace PracticeShell

open FileTree Run

/-- What is known of a node, with its path put under that of a base directory. -/
def Stat.under (base : String) (s : Stat) : Stat :=
  { s with path := Path.normalize (Path.under base s.path) }

namespace Edit

/-- A question about a file system. -/
inductive Question
  | stat (path : String)
  | contains (path : String)
  | isDirectory (path : String)
  | isFile (path : String)
  | names (path : String)
  | contents (path : String)
  | text (path : String)
  | walk (path : String)

/-- An answer to a question. -/
inductive Answer
  | stat (node : Option Stat)
  | flag (value : Bool)
  | names (names : List String)
  | contents (bytes : ByteArray)
  | text (text : String)
  | nodes (nodes : List Stat)

/-- An answer with its paths put under that of a base directory. -/
def Answer.under (base : String) : Answer → Answer
  | stat node => stat (node.map (Stat.under base))
  | nodes all => nodes (all.map (Stat.under base))
  | answer => answer

namespace Question

/-- The path that a question is asked with. -/
def path : Question → String
  | stat path | contains path | isDirectory path | isFile path => path
  | names path | contents path | text path | walk path => path

/-- A question with another path. -/
def mapPath (f : String → String) : Question → Question
  | stat path => stat (f path)
  | contains path => contains (f path)
  | isDirectory path => isDirectory (f path)
  | isFile path => isFile (f path)
  | names path => names (f path)
  | contents path => contents (f path)
  | text path => text (f path)
  | walk path => walk (f path)

/-- What a file system answers. -/
def answer (fs : FileSystem) : Question → Except FileTree.Error Answer
  | stat path => .ok (.stat (fs.stat? path))
  | contains path => .ok (.flag (fs.contains path))
  | isDirectory path => .ok (.flag (fs.isDirectory path))
  | isFile path => .ok (.flag (fs.isFile path))
  | names path => (fs.names path).map .names
  | contents path => (fs.contents path).map .contents
  | text path => (fs.text path).map .text
  | walk path => (fs.walk path).map .nodes

/-- Asks a question. -/
def edit (q : Question) : Edit Answer := ask q.answer

end Question

end Edit

namespace FileTree.Node

mutual

theorem walk_append (above place : List String) (node : Node) :
    walk (above ++ place) node = (walk place node).map fun met => (above ++ met.1, met.2) := by
  cases node with
  | file a contents => simp [walk]
  | directory a es => simp [walk, walkEntries_append above place es]

theorem walkEntries_append (above place : List String) (es : List (String × Node)) :
    walkEntries (above ++ place) es =
      (walkEntries place es).map fun met => (above ++ met.1, met.2) := by
  cases es with
  | nil => simp [walkEntries]
  | cons entry rest =>
      obtain ⟨name, node⟩ := entry
      rw [walkEntries, walkEntries, List.append_assoc, walk_append above _ node,
        walkEntries_append above place rest, List.map_append]

end

end FileTree.Node

namespace Edit

variable {fs inner whole : FileSystem} {base path full : String}

/-- What is known of a node of a view is known of it in the whole file system. -/
theorem statOf_append (inner whole : FileSystem) (base : String) {place : List String}
    (hne : place ≠ []) (hsegments : ∀ name ∈ place, Path.IsSegment name) (node : Node) :
    whole.statOf (Path.segments base ++ place) node = (inner.statOf place node).under base := by
  have hpath : Path.ofSegments (Path.segments base ++ place) =
      Path.normalize (Path.under base (Path.ofSegments place)) := by
    rw [Path.normalize, Path.segments_under, Path.segments_ofSegments hsegments]
  have hlast := List.getLast?_eq_some_getLast hne
  simp [FileSystem.statOf, Stat.under, hpath, hlast]

section

variable (hbase : fs.kindAt (Path.segments base) = some true) (h : fs.Embeds base inner whole)
  (hfull : Path.segments full = Path.segments base ++ Path.segments path)

include hbase h hfull

theorem contents_answers :
    Answers (Error.IsUnder base) Eq (inner.contents path) (whole.contents full) := by
  rw [FileSystem.contents, FileSystem.contents, find?_full hbase h hfull]
  cases inner.find? path with
  | none => exact .error (isUnder_of_cause hfull _)
  | some node =>
      cases node with
      | file => exact .ok rfl
      | directory => exact .error (isUnder_of_cause hfull _)

variable (hne : Path.segments path ≠ [])

include hne

theorem stat?_full : whole.stat? full = (inner.stat? path).map (Stat.under base) := by
  have hstat : whole.statOf (Path.segments base ++ Path.segments path) =
      Stat.under base ∘ inner.statOf (Path.segments path) :=
    funext (statOf_append inner whole base hne fun _ hname => Path.isSegment_of_mem_segments hname)
  rw [FileSystem.stat?, FileSystem.stat?, find?_full hbase h hfull, hfull, hstat, Option.map_map]

theorem walk_answers (hproper : inner.IsProper) :
    Answers (Error.IsUnder base) (fun nodes all => all = nodes.map (Stat.under base))
      (inner.walk path) (whole.walk full) := by
  rw [FileSystem.walk, FileSystem.walk, find?_full hbase h hfull, hfull]
  cases hnode : inner.find? path with
  | none => exact .error (isUnder_of_cause hfull _)
  | some node =>
      refine .ok ?_
      rw [Node.walk_append, List.map_map, List.map_map]
      refine List.map_congr_left fun met hmet => ?_
      obtain ⟨below, hplace, hbelow⟩ :=
        Node.find?_of_mem_walk (Node.IsProper.find? hproper hnode) hmet
      have hfind : inner.root.find? met.1 = some met.2 := by
        rw [hplace, Node.find?_append, ← FileSystem.find?, hnode]
        exact hbelow
      exact statOf_append inner whole base (by simp [hplace, hne])
        (Node.IsProper.isSegment_of_find? hproper hfind) met.2

end

/-- A question to a view has the answer of the same question with its path under the base
directory. -/
theorem Question.answers (hfs : fs.IsProper) (hview : fs.view base = .ok inner) (q : Question)
    (hne : Path.segments q.path ≠ []) :
    Answers (Error.IsUnder base) (fun a b => b = a.under base) (q.answer inner)
      ((q.mapPath (Path.under base)).answer fs) := by
  have hbase := FileSystem.view_eq_ok_iff.1 ⟨inner, hview⟩
  have h := FileSystem.embeds_of_view hview
  have hunder := Path.segments_under base
  have hfind : ∀ path, fs.find? (Path.under base path) = inner.find? path := fun path =>
    find?_full hbase h (hunder path)
  cases q with
  | stat path => exact .ok (congrArg Answer.stat (stat?_full hbase h (hunder path) hne))
  | contains path =>
      refine .ok (congrArg Answer.flag ?_)
      rw [FileSystem.contains, FileSystem.contains, hfind]
  | isDirectory path =>
      refine .ok (congrArg Answer.flag ?_)
      rw [FileSystem.isDirectory, FileSystem.isDirectory, hfind]
  | isFile path =>
      refine .ok (congrArg Answer.flag ?_)
      rw [FileSystem.isFile, FileSystem.isFile, hfind]
  | names path => exact (names_answers hbase h (hunder path)).map fun hsame => by rw [hsame]; rfl
  | contents path => exact (contents_answers hbase h (hunder path)).map fun hsame => by rw [hsame]; rfl
  | text path =>
      have htext := (contents_answers hbase h (hunder path)).map (f := Text.Utf8.decode)
        (g := Text.Utf8.decode) (W := Eq) fun hsame => by rw [hsame]
      exact htext.map fun hsame => by rw [hsame]; rfl
  | walk path =>
      exact (walk_answers hbase h (hunder path) hne (hfs.view hview)).map fun hsame => by
        rw [hsame]; rfl

/-- What is mirrored in the whole file system comes to the same as the operation in the directory. -/
theorem ends_within {α β : Type} {V : α → β → Prop} {operation : Edit α} {other : Edit β}
    (hview : fs.view base = .ok inner)
    (h : Mirrors (Error.IsUnder base) (fs.Embeds base) V operation other inner fs) :
    Ends (Error.IsUnder base) Eq V ((FileSystem.within base id operation).run fs)
      (other.run fs) := by
  rw [run_within, hview]
  dsimp only
  unfold Mirrors at h
  generalize operation.run inner = x at h
  generalize other.run fs = y at h
  cases h with
  | ok hresults hstates => exact .ok hresults hstates.eq_putBack.symm
  | error hfailures hstates => exact .error hfailures hstates.eq_putBack.symm

/-- Only what the view shows plays a part in an operation in the directory. -/
theorem ends_within_of_view_eq {α : Type} (operation : Edit α) {other : FileSystem}
    (hview : fs.view base = .ok inner) (hother : other.view base = .ok inner) :
    Ends Eq (fun s t => s.view base = t.view base) Eq
      ((FileSystem.within base id operation).run fs)
      ((FileSystem.within base id operation).run other) := by
  have hsame : ∀ later, (fs.putBack base later).view base = (other.putBack base later).view base :=
    fun later => by
      rw [FileSystem.view_putBack hview, FileSystem.view_putBack hother]
  rw [run_within, run_within, hview, hother]
  dsimp only
  cases operation.run inner with
  | ok a later => exact .ok rfl (hsame later)
  | error e later => exact .error rfl (hsame later)

/-- Requests and questions to the view of a directory come to the same as with their paths under that
of the directory. Whatever their paths are, requests to the view change nothing outside of the
directory, and nothing outside plays a part in them or in questions. -/
theorem view_mirrors_whole (hfs : fs.IsProper) (hbase : fs.isDirectory base = true) :
    (∀ r : Request, (∀ path ∈ r.paths, Path.normalize path ≠ "/") →
      Ends (Error.IsUnder base) Eq Eq ((FileSystem.within base id r.edit).run fs)
        ((r.mapPaths (Path.under base)).edit.run fs)) ∧
    (∀ q : Question, Path.normalize q.path ≠ "/" →
      Ends (Error.IsUnder base) Eq (fun a b => b = a.under base)
        ((FileSystem.within base id q.edit).run fs) ((q.mapPath (Path.under base)).edit.run fs)) ∧
    (∀ (r : Request) (place : List String), ¬ Path.segments base <+: place →
      (left ((FileSystem.within base id r.edit).run fs)).faceAt place = fs.faceAt place) ∧
    ∀ other : FileSystem, other.view base = fs.view base →
      (∀ r : Request, Ends Eq (fun s t => s.view base = t.view base) Eq
        ((FileSystem.within base id r.edit).run fs)
        ((FileSystem.within base id r.edit).run other)) ∧
      ∀ q : Question, Ends Eq (fun s t => s.view base = t.view base) Eq
        ((FileSystem.within base id q.edit).run fs)
        ((FileSystem.within base id q.edit).run other) := by
  obtain ⟨inner, hview⟩ : ∃ inner, fs.view base = .ok inner :=
    FileSystem.view_eq_ok_iff.2 (FileSystem.any_isDirectory_iff.1 hbase)
  refine ⟨fun r hpaths => ?_, fun q hpath => ?_, fun r place hplace => ?_, fun other hother => ?_⟩
  · exact ends_within hview (r.mirrors hfs hview fun path hmem hroot =>
      hpaths path hmem ((Path.normalize_eq_root_iff path).2 hroot))
  · exact ends_within hview (ask_mirrors (FileSystem.embeds_of_view hview)
      (q.answers hfs hview fun hroot => hpath ((Path.normalize_eq_root_iff q.path).2 hroot)))
  · rw [left_run_within hview, FileSystem.faceAt_putBack_beside hplace]
  · rw [hview] at hother
    exact ⟨fun r => ends_within_of_view_eq r.edit hview hother,
      fun q => ends_within_of_view_eq q.edit hview hother⟩

/-- In the box, the notes are moved by a path that tries to leave it. -/
theorem box_mirrors_rename :
    let r : Request := .rename "/../../notes" "/old"
    boxOfNotes.IsProper ∧ boxOfNotes.isDirectory "/box" = true ∧
      (∀ path ∈ r.paths, Path.normalize path ≠ "/") ∧
      Ends (Error.IsUnder "/box") Eq Eq ((FileSystem.within "/box" id r.edit).run boxOfNotes)
        ((Edit.rename "/box/notes" "/box/old").run boxOfNotes) := by
  intro r
  have hproper : boxOfNotes.IsProper := by decide
  have hbase : boxOfNotes.isDirectory "/box" = true := by decide +kernel
  have hpaths : ∀ path ∈ ["/../../notes", "/old"], Path.normalize path ≠ "/" := by decide
  exact ⟨hproper, hbase, hpaths, (view_mirrors_whole hproper hbase).1 r hpaths⟩

end Edit

end PracticeShell
