import PracticeShell.Proofs.Tree.Structure

/-!
# Descriptions that give no file system

The nodes that a description mentions are made one after the other, and the first one that cannot be
made ends the building. Which one it is can be told from the description alone
(`FileSystem.misfit?`): a node fits behind others if these have made the directory that it lies in
and have left its place free (`Structure.Mention.Fits`).

The invariant is that the file system has exactly the kinds of nodes that the mentions so far have
made (`Structure.Reports`).
-/

namespace PracticeShell

open FileTree Run

namespace Structure

/-- What a description mentions: a node that is to be made, or something that makes no node. -/
inductive Mention
  | node (isDirectory : Bool) (path : String)
  | fault (cause : StructureError)

mutual

/-- What is mentioned by a node in the directory at `base` and by all below it, in order. -/
def mentions (base name : String) : Json → List Mention
  | .object members =>
    let path := Path.trimSlashes base ++ "/" ++ name
    match kindOf members with
    | .string "directory" =>
      match readPermissions Permissions.newDirectory (members.lookup "permissions") with
      | .error e => [.fault e]
      | .ok _ => .node true path :: mentionsBelow path members
    | .string "file" =>
      match readPermissions Permissions.newFile (members.lookup "permissions") with
      | .error e => [.fault e]
      | .ok _ => [.node false path]
    | kind => [.fault (.unknownKind kind path)]
  | _ => [.fault (.notANode name)]

/-- What is mentioned by the children that a directory names. -/
def mentionsBelow (path : String) : List (String × Json) → List Mention
  | [] => []
  | (name, value) :: rest =>
    if name = "children" then
      match value with
      | .object children => mentionsIn path children
      | other => if other.isTruthy then [.fault .illTyped] else []
    else mentionsBelow path rest

/-- What is mentioned by nodes in the directory at `base`. -/
def mentionsIn (base : String) : List (String × Json) → List Mention
  | [] => []
  | (name, value) :: rest => mentions base name value ++ mentionsIn base rest

end

/-- The kind of the node that a mention makes at a place, if it makes one there. -/
def Mention.kindAt? (place : List String) : Mention → Option Bool
  | node isDirectory path => if Path.segments path = place then some isDirectory else none
  | fault _ => none

/-- The kind of the node that is at a place when some mentions have made theirs. The root is always
there. -/
def kindIn (made : List Mention) (place : List String) : Option Bool :=
  if place = [] then some true else made.findSome? (Mention.kindAt? place)

/-- Whether a mention makes a node behind others: these have made the directory that it lies in, and
nothing at its place, or else a file that another one replaces. -/
def Mention.Fits (made : List Mention) : Mention → Prop
  | node isDirectory path =>
    let place := Path.segments path
    place ≠ [] ∧ kindIn made place.dropLast = some true ∧
      (kindIn made place = none ∨ isDirectory = false ∧ kindIn made place = some false)
  | fault _ => False

instance (made : List Mention) (m : Mention) : Decidable (m.Fits made) := by
  cases m <;> unfold Mention.Fits <;> infer_instance

/-- The first of some mentions that makes no node behind others. -/
def misfit? (made : List Mention) : List Mention → Option Mention
  | [] => none
  | m :: rest => if m.Fits made then misfit? (made ++ [m]) rest else some m

variable {made ms others : List Mention} {m : Mention} {place : List String}

theorem misfit?_append : misfit? made (ms ++ others) =
    (misfit? made ms).or (misfit? (made ++ ms) others) := by
  induction ms generalizing made with
  | nil => simp [misfit?]
  | cons m rest ih =>
      rw [List.cons_append, misfit?, misfit?]
      split
      · rw [ih, List.append_assoc, List.singleton_append]
      · rfl

/-- A node that fits is there afterwards, and nothing else changes. -/
theorem kindIn_concat {isDirectory : Bool} {path : String}
    (h : (Mention.node isDirectory path).Fits made) (place : List String) :
    kindIn (made ++ [.node isDirectory path]) place =
      if place = Path.segments path then some isDirectory else kindIn made place := by
  obtain ⟨hne, -, hfree⟩ := h
  unfold kindIn at hfree ⊢
  by_cases hroot : place = []
  · subst hroot
    rw [if_pos rfl, if_neg hne.symm, if_pos rfl]
  · rw [if_neg hroot, if_neg hroot, List.findSome?_append]
    by_cases hplace : place = Path.segments path
    · subst hplace
      rw [if_neg hne] at hfree
      rw [if_pos rfl]
      -- A file may take the place of a file.
      obtain hnone | ⟨rfl, hfile⟩ := hfree
      · simp [hnone, Mention.kindAt?]
      · simp [hfile]
    · have hother : (Mention.node isDirectory path).kindAt? place = none :=
        if_neg (Ne.symm hplace)
      rw [if_neg hplace]
      simp [hother]

end Structure

theorem FileSystem.canHold_iff_dropLast {fs : FileSystem} {path : String} : fs.CanHold path ↔
    Path.segments path ≠ [] ∧ fs.kindAt (Path.segments path).dropLast = some true := by
  unfold CanHold
  constructor
  · rintro ⟨parent, name, hpath, hkind⟩
    rw [hpath, List.dropLast_concat]
    exact ⟨by simp, hkind⟩
  · rintro ⟨hne, hkind⟩
    exact ⟨_, _, (List.dropLast_concat_getLast hne).symm, hkind⟩

namespace Structure

/-- Whether an error is what comes of a mention that makes no node. -/
def Mention.Causes : Mention → StructureError → Prop
  | node .., e => ∃ cause, e = .failed cause
  | fault cause, e => e = cause

/-- Whether building leaves the nodes that are mentioned, or else ends at the first misfit. -/
structure Reports (made ms : List Mention) (x : Build Unit) (fs : FileSystem) : Prop where
  makes : ∀ {a later}, x.run fs = .ok a later →
    misfit? made ms = none ∧ later.kindAt = kindIn (made ++ ms)
  fails : ∀ {e later}, x.run fs = .error e later → ∃ m, misfit? made ms = some m ∧ m.Causes e

section

variable {x : Build Unit} {fs : FileSystem} {isDirectory : Bool} {path : String}

theorem Reports.pure (h : fs.kindAt = kindIn made) : Reports made [] (pure ()) fs where
  makes hrun := by
    cases hrun
    exact ⟨rfl, by rw [List.append_nil, h]⟩
  fails hrun := by cases hrun

theorem Reports.throw (e : StructureError) : Reports made [.fault e] (throw e) fs where
  makes hrun := by cases hrun
  fails hrun := by
    cases hrun
    exact ⟨.fault e, if_neg id, rfl⟩

/-- The second part of a construction meets what the first has made. -/
theorem Reports.bind {f : Unit → Build Unit} (hx : Reports made ms x fs)
    (hf : ∀ {later}, later.kindAt = kindIn (made ++ ms) → Reports (made ++ ms) others (f ()) later) :
    Reports made (ms ++ others) (x >>= f) fs := by
  cases hrun : x.run fs with
  | ok a later =>
      obtain ⟨hnone, hkinds⟩ := hx.makes hrun
      have hlater := hf hkinds
      constructor
      · intro b last hlast
        rw [run_bind_of_ok hrun] at hlast
        rw [misfit?_append, hnone, Option.none_or, ← List.append_assoc]
        exact hlater.makes hlast
      · intro e last hlast
        rw [run_bind_of_ok hrun] at hlast
        rw [misfit?_append, hnone, Option.none_or]
        exact hlater.fails hlast
  | error e later =>
      obtain ⟨m, hm, hcauses⟩ := hx.fails hrun
      have herror : (x >>= f).run fs = .error e later := by rw [EStateM.run_bind, hrun]
      constructor
      · intro b last hlast
        rw [herror] at hlast
        cases hlast
      · intro e' last hlast
        rw [herror] at hlast
        cases hlast
        exact ⟨m, by rw [misfit?_append, hm, Option.some_or], hcauses⟩

theorem Reports.bind_cons {f : Unit → Build Unit} (hx : Reports made [m] x fs)
    (hf : ∀ {later}, later.kindAt = kindIn (made ++ [m]) →
      Reports (made ++ [m]) others (f ()) later) :
    Reports made (m :: others) (x >>= f) fs := hx.bind hf

/-- A file operation makes the node that is mentioned if it fits, and fails if it does not. -/
theorem Reports.edit {operation : Edit Unit}
    (hfails : Fails operation fs ↔ ¬ (Mention.node isDirectory path).Fits made)
    (hmakes : ∀ {later}, operation.run fs = .ok () later → ∀ place, later.kindAt place =
      if place = Path.segments path then some isDirectory else fs.kindAt place)
    (h : fs.kindAt = kindIn made) :
    Reports made [.node isDirectory path] (edit operation) fs := by
  constructor
  · intro a later hrun
    rw [run_edit_eq_ok_iff] at hrun
    have hfits := Classical.not_not.1 ((not_congr hfails).1 (not_fails_of_ok hrun))
    refine ⟨if_pos hfits, funext fun place => ?_⟩
    rw [hmakes hrun, kindIn_concat hfits, h]
  · intro e later hrun
    obtain ⟨cause, hfailed, rfl⟩ := run_edit_eq_error_iff.1 hrun
    exact ⟨_, if_neg (hfails.1 (fails_of_error hfailed)), cause, rfl⟩

theorem reports_makeDirectory (h : fs.kindAt = kindIn made) (path : String)
    (permissions : Permissions) (owner : Option String) :
    Reports made [.node true path] (edit (Edit.makeDirectory path permissions owner)) fs := by
  refine .edit ?_ Edit.kindAt_makeDirectory h
  rw [Edit.makeDirectory_fails_iff, FileSystem.canHold_iff_dropLast, h, Mention.Fits]
  simp [and_assoc]

theorem reports_write (h : fs.kindAt = kindIn made) (path : String) (bytes : ByteArray)
    (owner : Option String) (permissions : Permissions) :
    Reports made [.node false path] (edit (Edit.write path bytes owner permissions)) fs := by
  refine .edit ?_ Edit.kindAt_write h
  have hfree (kind : Option Bool) : kind ≠ some true ↔ kind = none ∨ kind = some false := by
    cases kind with
    | none => simp
    | some kind => simp
  rw [Edit.write_fails_iff, FileSystem.canHold_iff_dropLast, h, Mention.Fits, hfree]
  simp [and_assoc]

end

section

variable {members : Json.Members} (hdirectory : kindOf members ≠ .string "directory")
  (hfile : kindOf members ≠ .string "file") (base name : String)

include hdirectory hfile

theorem addNode_of_kind : addNode base name (.object members) =
    throw (.unknownKind (kindOf members) (Path.trimSlashes base ++ "/" ++ name)) := by
  rw [addNode]
  split
  · exact absurd ‹_› hdirectory
  · exact absurd ‹_› hfile
  · rfl

theorem mentions_of_kind : mentions base name (.object members) =
    [.fault (.unknownKind (kindOf members) (Path.trimSlashes base ++ "/" ++ name))] := by
  rw [mentions]
  split
  · exact absurd ‹_› hdirectory
  · exact absurd ‹_› hfile
  · rfl

end

mutual

theorem reports_addNode (base name : String) (value : Json) {made : List Mention} {fs : FileSystem}
    (h : fs.kindAt = kindIn made) :
    Reports made (mentions base name value) (addNode base name value) fs := by
  cases value with
  | object members =>
      by_cases hdirectory : kindOf members = .string "directory"
      · cases hpermissions : readPermissions Permissions.newDirectory
            (members.lookup "permissions") with
        | error e =>
            simp only [addNode, mentions, hdirectory, hpermissions]
            exact .throw e
        | ok permissions =>
            simp only [addNode, mentions, hdirectory, hpermissions]
            exact .bind_cons (reports_makeDirectory h _ permissions _) fun hlater =>
              reports_addChildren _ members hlater
      · by_cases hfile : kindOf members = .string "file"
        · cases hpermissions : readPermissions Permissions.newFile
              (members.lookup "permissions") with
          | error e =>
              simp only [addNode, mentions, hfile, hpermissions]
              exact .throw e
          | ok permissions =>
              simp only [addNode, mentions, hfile, hpermissions]
              exact reports_write h _ _ _ _
        · rw [addNode_of_kind hdirectory hfile, mentions_of_kind hdirectory hfile]
          exact .throw _
  | _ => exact .throw _

theorem reports_addChildren (path : String) (members : List (String × Json)) {made : List Mention}
    {fs : FileSystem} (h : fs.kindAt = kindIn made) :
    Reports made (mentionsBelow path members) (addChildren path members) fs := by
  cases members with
  | nil => exact .pure h
  | cons member rest =>
      obtain ⟨name, value⟩ := member
      cases value with
      | object children =>
          rw [addChildren, mentionsBelow]
          split
          · exact reports_addNodes path children h
          · exact reports_addChildren path rest h
      | _ =>
          rw [addChildren, mentionsBelow]
          · split
            · split
              · exact .throw _
              · exact .pure h
            · exact reports_addChildren path rest h
          all_goals simp

/-- Building nodes ends at the first misfit of what they mention. -/
theorem reports_addNodes (base : String) (nodes : List (String × Json)) {made : List Mention}
    {fs : FileSystem} (h : fs.kindAt = kindIn made) :
    Reports made (mentionsIn base nodes) (addNodes base nodes) fs := by
  cases nodes with
  | nil => exact .pure h
  | cons entry rest =>
      obtain ⟨name, value⟩ := entry
      rw [addNodes, mentionsIn]
      exact .bind (reports_addNode base name value h) fun hlater => reports_addNodes base rest hlater

end

/-- The first thing in a description that makes no node, if there is any. -/
def misfitOf? (description : Json) : Option Mention :=
  if !description.isTruthy then none
  else
    match description with
    | .object members =>
      match (members.lookup "root").getD description with
      | .object nodes => misfit? [] (mentionsIn "/" nodes)
      | _ => some (.fault .notAMapping)
    | _ => some (.fault .illTyped)

theorem kindAt_empty (defaultOwner : String) (now : Int) :
    (FileSystem.empty defaultOwner now).kindAt = kindIn [] := by
  funext place
  cases place <;> rfl

end Structure

namespace FileSystem

open Structure

variable {description : Json}

/-- A description in which something makes no node is refused on account of the first such thing.
Any other one gives a file system, or else is refused since contents are no texts. -/
theorem ofStructure_cases (description : Json) (defaultOwner : String) (now : Int) :
    (∃ m e, misfitOf? description = some m ∧
      ofStructure description defaultOwner now = .error e ∧ m.Causes e) ∨
    misfitOf? description = none ∧ ((∃ fs, ofStructure description defaultOwner now = .ok fs) ∨
      ofStructure description defaultOwner now = .error .contentNotText) := by
  unfold misfitOf? ofStructure
  dsimp only
  split
  · exact .inr ⟨rfl, .inl ⟨_, rfl⟩⟩
  · cases description with
    | object members =>
        dsimp only
        cases (members.lookup "root").getD (.object members) with
        | object nodes =>
            have hreports := reports_addNodes "/" nodes (kindAt_empty defaultOwner now)
            dsimp only
            cases hrun : addNodes "/" nodes (empty defaultOwner now) with
            | ok a later =>
                refine .inr ⟨(hreports.makes hrun).1, ?_⟩
                dsimp only
                split
                · exact .inl ⟨_, rfl⟩
                · exact .inr rfl
            | error e later =>
                obtain ⟨m, hm, hcauses⟩ := hreports.fails hrun
                exact .inl ⟨m, e, hm, rfl, hcauses⟩
        | _ => exact .inl ⟨_, _, rfl, rfl, rfl⟩
    | _ => exact .inl ⟨_, _, rfl, rfl, rfl⟩

end FileSystem

end PracticeShell
