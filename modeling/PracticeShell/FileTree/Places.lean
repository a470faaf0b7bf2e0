import PracticeShell.FileTree.Node

/-!
# Places in a tree

What each operation on entries and nodes does to look-ups. Entries: `get?_put`, `get?_modify`,
`get?_erase`. Nodes: `find?_append` splits a way in two, `find?_modify` says what is found where a
node was changed, and `find?_modify_of_not_prefix` that nothing else is touched.
-/

namespace PracticeShell.FileTree

namespace Entries

@[simp]
theorem get?_nil (name : String) : get? [] name = none := rfl

theorem get?_cons (n name : String) (node : Node) (entries : Entries) :
    get? ((n, node) :: entries) name = if name = n then some node else get? entries name := by
  by_cases h : name = n
  · simp [get?, h]
  · have hbeq : (name == n) = false := by simpa using h
    simp [get?, List.lookup_cons, hbeq, h]

theorem get?_put (entries : Entries) (name other : String) (node : Node) :
    get? (put name node entries) other =
      if other = name then some node else get? entries other := by
  induction entries with
  | nil => simp [put, get?_cons]
  | cons entry rest ih => grind [put, get?_cons]

theorem get?_modify (entries : Entries) (name other : String) (f : Node → Node) :
    get? (modify name f entries) other =
      if other = name then (get? entries other).map f else get? entries other := by
  induction entries with
  | nil => simp [modify]
  | cons entry rest ih => grind [modify, get?_cons]

theorem get?_erase (entries : Entries) (name other : String) :
    get? (erase entries name) other = if other = name then none else get? entries other := by
  induction entries with
  | nil => simp [erase]
  | cons entry rest ih => grind [erase, get?_cons]

theorem names_put (entries : Entries) (name : String) (node : Node) :
    names (put name node entries) =
      if name ∈ names entries then names entries else names entries ++ [name] := by
  induction entries with
  | nil => simp [put, names]
  | cons entry rest ih => grind [put, names]

@[simp]
theorem names_modify (entries : Entries) (name : String) (f : Node → Node) :
    names (modify name f entries) = names entries := by
  induction entries with
  | nil => rfl
  | cons entry rest ih => grind [modify, names]

theorem names_erase (entries : Entries) (name : String) :
    names (erase entries name) = (names entries).filter (· ≠ name) := by
  simp [names, erase, List.filter_map, Function.comp_def]

theorem mem_names_iff (entries : Entries) (name : String) :
    name ∈ names entries ↔ (get? entries name).isSome := by
  induction entries with
  | nil => simp [names]
  | cons entry rest ih => grind [names, get?_cons]

theorem mem_of_get? {entries : Entries} {name : String} {node : Node}
    (h : get? entries name = some node) : (name, node) ∈ entries := by
  induction entries with
  | nil => simp at h
  | cons entry rest ih => grind [get?_cons]

theorem get?_of_mem {entries : Entries} (hnames : (names entries).Nodup) {name : String}
    {node : Node} (h : (name, node) ∈ entries) : get? entries name = some node := by
  induction entries with
  | nil => simp at h
  | cons entry rest ih => grind [get?_cons, names]

end Entries

namespace Node

theorem find?_cons_directory (name : String) (rest : List String) (a : Attributes) (es : Entries) :
    find? (name :: rest) (.directory a es) = (Entries.get? es name).bind (find? rest) := rfl

theorem find?_append (place below : List String) (node : Node) :
    find? (place ++ below) node = (find? place node).bind (find? below) := by
  induction place generalizing node with
  | nil => rfl
  | cons name rest ih =>
    cases node with
    | file => rfl
    | directory a es =>
      rw [List.cons_append, find?_cons_directory, find?_cons_directory, Option.bind_assoc]
      exact congrArg _ (funext fun node => ih node)

/-- What is found where a node was changed. -/
theorem find?_modify (f : Node → Node) (place below : List String) (node : Node) :
    find? (place ++ below) (modify f place node) =
      (find? place node).bind fun there => find? below (f there) := by
  induction place generalizing node with
  | nil => rfl
  | cons name rest ih =>
    cases node with
    | file => rfl
    | directory a es =>
      rw [List.cons_append, modify, find?_cons_directory, find?_cons_directory,
        Entries.get?_modify, if_pos rfl]
      cases Entries.get? es name with
      | none => rfl
      | some there => exact ih there

/-- A change of one node touches nothing beside it. -/
theorem find?_modify_of_not_prefix (f : Node → Node) {place other : List String}
    (hbelow : ¬ place <+: other) (habove : ¬ other <+: place) (node : Node) :
    find? other (modify f place node) = find? other node := by
  induction place generalizing node other with
  | nil => exact absurd (List.nil_prefix) hbelow
  | cons name rest ih =>
    cases other with
    | nil => exact absurd (List.nil_prefix) habove
    | cons n others =>
      cases node with
      | file => rfl
      | directory a es =>
        rw [modify, find?_cons_directory, find?_cons_directory, Entries.get?_modify]
        split
        · rename_i hn
          subst hn
          cases Entries.get? es n with
          | none => rfl
          | some there =>
            exact ih (fun h => hbelow (List.cons_prefix_cons.2 ⟨rfl, h⟩))
              (fun h => habove (List.cons_prefix_cons.2 ⟨rfl, h⟩)) there
        · rfl

end Node

end PracticeShell.FileTree
