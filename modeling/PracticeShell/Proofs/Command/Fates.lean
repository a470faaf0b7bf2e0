import PracticeShell.Proofs.Command.OffLimits
import PracticeShell.Proofs.Command.Patterns
import PracticeShell.Proofs.Command.Removing
import PracticeShell.Proofs.Tree.Attaching
import PracticeShell.Proofs.Tree.Writing

/-!
# What becomes of the operands of `rm`

The operands have their turns one after the other, and each turn changes what the next one meets.
`fates` pairs each operand with what becomes of it at its turn; what is there after all turns depends
only on the places that were removed (`faceAt_afterAll`). What is refused once is spared by all later
turns (`IsSpared`), and what was removed before its turn would not have been refused. So of what a
refused operand means only parts below it can go, by operands of their own (`rm_settles_operands`).
-/

namespace PracticeShell

open FileTree FileTree.Change Run

namespace Access

variable {ctx : Context} {fs : FileSystem} {path : String}

theorem denied_iff {node : Stat} :
    denied ctx node = true ↔ ctx.elevated = false ∧ node.owner = Context.rootUser := by
  simp [denied, and_comm]

/-- Where a path is off limits by the directory that it lies in, that directory is the root user's. -/
theorem exists_owned_of_parentDenied {kind : Bool}
    (hkind : fs.kindAt (Path.segments path) = some kind)
    (h : parentDenied ctx fs path = true) :
    ctx.elevated = false ∧ ∃ face, fs.faceAt (Path.segments path).dropLast = some face ∧
      face.attributes.owner = Context.rootUser := by
  obtain ⟨parent, hparent⟩ : ∃ parent, fs.root.find? (Path.segments path).dropLast = some parent := by
    rw [← Option.isSome_iff_exists, Option.isSome_iff_ne_none, Ne, ← FileSystem.kindAt_eq_none_iff]
    intro hnone
    obtain ⟨below, hbelow⟩ := List.dropLast_prefix (Path.segments path)
    rw [← hbelow, FileSystem.kindAt_append_of_none hnone] at hkind
    cases hkind
  have hdirname : Path.segments (Path.dirname path) = (Path.segments path).dropLast :=
    Path.segments_ofSegments fun _ hn => Path.isSegment_of_mem_segments (List.dropLast_subset _ hn)
  have hnearest := nearestAlong_eq hparent [] (by simp)
  rw [List.append_nil] at hnearest
  rw [parentDenied, nearestExisting, hdirname, hnearest, denied_iff] at h
  refine ⟨h.1, parent.face, ?_, ?_⟩
  · rw [FileSystem.faceAt, Node.faceAt, hparent]
    rfl
  · rw [Node.attributes_face]
    exact h.2

/-- Where a path is off limits by what lies below it, some node there is the root user's. -/
theorem exists_owned_of_treeDenied (hfs : fs.IsProper)
    (h : treeDenied ctx fs path = true) :
    ctx.elevated = false ∧ ∃ owned face, fs.faceAt owned = some face ∧
      face.attributes.owner = Context.rootUser ∧ Path.segments path <+: owned := by
  rw [treeDenied] at h
  split at h
  · cases h
  · rename_i hctx
    refine ⟨by simpa using hctx, ?_⟩
    cases htop : fs.find? path with
    | none => simp [FileSystem.walk, htop] at h
    | some top =>
        rw [FileSystem.walk_of_find? htop, List.any_eq_true] at h
        obtain ⟨met, hmet, howner⟩ := h
        obtain ⟨⟨place, node⟩, hmem, rfl⟩ := List.mem_map.1 hmet
        obtain ⟨below, rfl, hbelow⟩ := Node.find?_of_mem_walk (Node.IsProper.find? hfs htop) hmem
        refine ⟨_, node.face, ?_, ?_, List.prefix_append _ below⟩
        · rw [FileSystem.faceAt, Node.faceAt, Node.find?_append, ← FileSystem.find?, htop,
            Option.bind_some, hbelow]
          rfl
        · rw [Node.attributes_face]
          simpa [FileSystem.statOf] using howner

end Access

namespace Command

/-- What becomes of an operand of `rm`. -/
inductive Fate
  /-- What it means is removed. -/
  | removed
  /-- It means nothing that is there, which does not matter. -/
  | overlooked
  /-- It means nothing that is there. -/
  | missing
  /-- It means a directory, and directories are not to be removed. -/
  | directory
  /-- It means the root. -/
  | root
  /-- What it means, or the directory that holds it, is off limits. -/
  | denied
  /-- It means the root, although it is not written so. -/
  | busy
deriving DecidableEq, Repr

namespace Fate

/-- What is left of a file system when this has become of what is at a place. -/
def leaves (fs : FileSystem) (place : List String) : Fate → FileSystem
  | removed => fs.without place
  | _ => fs

/-- What is reported about an operand. -/
def messages (operand : String) : Fate → List String
  | removed => []
  | overlooked => []
  | missing => ["rm: cannot remove '" ++ operand ++ "': " ++ "No such file or directory"]
  | directory => ["rm: cannot remove '" ++ operand ++ "': " ++ "Is a directory"]
  | root => ["rm: it is dangerous to operate recursively on '/'"]
  | denied => ["rm: cannot remove '" ++ operand ++ "': " ++ "Permission denied"]
  | busy => ["rm: cannot remove '" ++ operand ++ "': " ++ "Device or resource busy"]

end Fate

section

variable (ctx : Context) (recursive force : Bool)

/-- What becomes of an operand when its turn comes. -/
def fateOf (fs : FileSystem) (operand : String) : Fate :=
  let full := ctx.resolve operand
  if full = "/" && recursive then .root
  else
    match fs.stat? full with
    | none => if force then .overlooked else .missing
    | some node =>
      if node.isDirectory && !recursive then .directory
      else if Access.parentDenied ctx fs full || Access.treeDenied ctx fs full then .denied
      else if Path.segments full = [] then .busy
      else .removed

/-- What an operand comes to its fate by. -/
def Finding (fs : FileSystem) (path : String) : Fate → Prop
  | .removed => Path.segments path ≠ [] ∧ Access.parentDenied ctx fs path = false ∧
      Access.treeDenied ctx fs path = false ∧
      ∃ kind, fs.kindAt (Path.segments path) = some kind ∧ (recursive = false → kind = false)
  | .overlooked => fs.faceAt (Path.segments path) = none ∧ force = true
  | .missing => fs.faceAt (Path.segments path) = none ∧ force = false
  | .directory => fs.kindAt (Path.segments path) = some true ∧ recursive = false
  | .root => Path.segments path = [] ∧ recursive = true
  | .denied => (∃ kind, fs.kindAt (Path.segments path) = some kind) ∧
      (Access.parentDenied ctx fs path = true ∨ Access.treeDenied ctx fs path = true)
  | .busy => Path.segments path = []

/-- What an operand leaves after its turn. -/
def afterTurn (fs : FileSystem) (operand : String) : FileSystem :=
  (fateOf ctx recursive force fs operand).leaves fs (Path.segments (ctx.resolve operand))

/-- The operands, each with what becomes of it. -/
def fates (fs : FileSystem) : List String → List (String × Fate)
  | [] => []
  | operand :: rest =>
    (operand, fateOf ctx recursive force fs operand) ::
      fates (afterTurn ctx recursive force fs operand) rest

/-- What all operands leave after their turns. -/
def afterAll (fs : FileSystem) (operands : List String) : FileSystem :=
  operands.foldl (afterTurn ctx recursive force) fs

/-- The places that are removed. -/
def removedPlaces (told : List (String × Fate)) : List (List String) :=
  (told.filter (·.2 = .removed)).map fun (operand, _) => Path.segments (ctx.resolve operand)

end

section

variable {ctx : Context} {recursive force : Bool} {operand : String} {fs : FileSystem}

/-- The fate of an operand says what was found at its place. -/
theorem finding_fateOf (ctx : Context) (recursive force : Bool) (fs : FileSystem) (operand : String) :
    Finding ctx recursive force fs (ctx.resolve operand)
      (fateOf ctx recursive force fs operand) := by
  unfold fateOf
  dsimp only
  split
  · rename_i hslash
    rw [Bool.and_eq_true, decide_eq_true_iff] at hslash
    exact ⟨by rw [hslash.1]; decide, hslash.2⟩
  · split
    · rename_i hnone
      have hface : fs.faceAt (Path.segments (ctx.resolve operand)) = none := by
        rw [FileSystem.faceAt, Node.faceAt, stat?_eq_none.1 hnone]
        rfl
      cases force
      · exact ⟨hface, rfl⟩
      · exact ⟨hface, rfl⟩
    · rename_i node hnode
      obtain ⟨there, hthere, rfl⟩ := Option.map_eq_some_iff.1 hnode
      have hkind : fs.kindAt (Path.segments (ctx.resolve operand)) = some there.isDirectory := by
        rw [FileSystem.kindAt, ← FileSystem.find?, hthere]
        rfl
      split
      · rename_i hdir
        rw [Bool.and_eq_true, Bool.not_eq_true'] at hdir
        exact ⟨hkind.trans (congrArg some hdir.1), hdir.2⟩
      · rename_i hdir
        split
        · rename_i hdenied
          rw [Bool.or_eq_true] at hdenied
          exact ⟨⟨_, hkind⟩, hdenied⟩
        · rename_i hallowed
          rw [Bool.not_eq_true, Bool.or_eq_false_iff] at hallowed
          split
          · rename_i hroot
            exact hroot
          · rename_i hroot
            refine ⟨hroot, hallowed.1, hallowed.2, _, hkind, fun hflat => ?_⟩
            simpa [hflat, FileSystem.statOf] using hdir

/-- What is there at a path other than the root is taken away by the operation for its kind. -/
theorem run_remove {path : String} {node : Stat} (hnode : fs.stat? path = some node)
    (hroot : Path.segments path ≠ []) :
    ((if node.isDirectory then Edit.removeTree else Edit.unlink) path).run fs =
      .ok () (fs.without (Path.segments path)) := by
  obtain ⟨there, hthere, rfl⟩ := Option.map_eq_some_iff.1 hnode
  have hpath : Path.segments path = (Path.segments path).dropLast ++
      [(Path.segments path).getLast?.getD ""] := (append_getLast?_getD hroot).symm
  have hfind := hthere
  rw [FileSystem.find?, hpath] at hfind
  have hfits : Fits fs (.remove (Path.segments path).dropLast
      ((Path.segments path).getLast?.getD "")) := by
    rw [Fits, hfind]
    rfl
  cases there with
  | directory a es => exact Edit.run_removeTree hpath hfits
  | file a bytes => exact Edit.run_unlink hpath hfind

/-- The root is never taken away. -/
theorem run_remove_root {path : String} {node : Stat} (hnode : fs.stat? path = some node)
    (hroot : Path.segments path = []) :
    ((if node.isDirectory then Edit.removeTree else Edit.unlink) path).run fs =
      .error ⟨.busy, "/"⟩ fs := by
  have hdir : node.isDirectory = true := by
    obtain ⟨there, hthere, rfl⟩ := Option.map_eq_some_iff.1 hnode
    rw [FileSystem.find?, hroot] at hthere
    obtain rfl := Option.some.inj hthere
    rfl
  have hparent : (Edit.parentOf path).run fs = .error ⟨.busy, "/"⟩ fs := by
    unfold Edit.parentOf
    rw [hroot]
    rfl
  rw [if_pos hdir, Edit.removeTree, EStateM.run_bind, hparent]

/-- The turn of one operand. -/
theorem run_removeOne (recursive force : Bool) (operand : String) (fs : FileSystem) :
    (removeOne ctx recursive force operand).run fs =
      .ok ((fateOf ctx recursive force fs operand).messages operand)
        (afterTurn ctx recursive force fs operand) := by
  unfold removeOne afterTurn fateOf
  dsimp only
  by_cases hslash : (decide (ctx.resolve operand = "/") && recursive) = true
  · simp only [hslash, if_true]
    rfl
  rw [if_neg hslash, if_neg hslash, run_get_bind]
  cases hnode : fs.stat? (ctx.resolve operand) with
  | none => cases force <;> rfl
  | some node =>
      dsimp only
      by_cases hdir : (node.isDirectory && !recursive) = true
      · simp only [hdir, if_true]
        rfl
      rw [if_neg hdir, if_neg hdir]
      by_cases hdenied : (Access.parentDenied ctx fs (ctx.resolve operand) ||
          Access.treeDenied ctx fs (ctx.resolve operand)) = true
      · simp only [hdenied, if_true]
        rfl
      rw [if_neg hdenied, if_neg hdenied]
      by_cases hroot : Path.segments (ctx.resolve operand) = []
      · have hbusy := run_remove_root hnode hroot
        rw [if_pos hroot]
        exact run_bind_of_ok (by rw [run_attempt, hbusy]) _
      · rw [if_neg hroot]
        exact run_bind_of_ok (by rw [run_attempt, run_remove hnode hroot]) _

end

/-- Whether what an operand means is left where it is although it is there. -/
def Fate.IsRefused : Fate → Prop
  | .directory | .root | .denied | .busy => True
  | _ => False

/-- Whether no turn takes away what is at a place, or a directory above it: it is the root, or a
directory where directories are not to be removed, or it is off limits by what the root user owns. -/
def IsSpared (ctx : Context) (recursive : Bool) (fs : FileSystem) (place : List String) : Prop :=
  place = [] ∨ (recursive = false ∧ fs.kindAt place = some true) ∨
    (ctx.elevated = false ∧ ∃ owned face, fs.faceAt owned = some face ∧
      face.attributes.owner = Context.rootUser ∧ (owned = place.dropLast ∨ place <+: owned))

section

variable {ctx : Context} {recursive force : Bool} {fs : FileSystem} {operand : String}
  {place : List String}

/-- What is removed holds nothing that the root user owns, and does not lie in what it owns. -/
theorem owner_ne_of_removed (hctx : ctx.elevated = false)
    (h : fateOf ctx recursive force fs operand = .removed) {owned : List String} {face : Face}
    (hface : fs.faceAt owned = some face)
    (howned : owned = (Path.segments (ctx.resolve operand)).dropLast ∨
      Path.segments (ctx.resolve operand) <+: owned) :
    face.attributes.owner ≠ Context.rootUser := by
  obtain ⟨hroot, hparent, htree, -⟩ := h ▸ finding_fateOf ctx recursive force fs operand
  rcases howned with rfl | ⟨below, rfl⟩
  · exact Access.owner_ne_of_not_parentDenied hctx hparent (append_getLast?_getD hroot).symm hface
      (by simp)
  · obtain ⟨node, hnode, rfl⟩ := FileSystem.faceAt_eq_some.1 hface
    rw [Node.attributes_face]
    exact Access.owner_ne_of_not_treeDenied hctx htree hnode

/-- Nothing at or above a spared place is removed. -/
theorem IsSpared.not_prefix (h : IsSpared ctx recursive fs place)
    (hremoved : fateOf ctx recursive force fs operand = .removed) :
    ¬ Path.segments (ctx.resolve operand) <+: place := by
  intro habove
  obtain ⟨hroot, -, -, kind, hkind, hflat⟩ := hremoved ▸ finding_fateOf ctx recursive force fs operand
  rcases h with rfl | ⟨hrecursive, hdir⟩ | ⟨hctx, owned, face, hface, howner, hat⟩
  · exact hroot (List.prefix_nil.1 habove)
  · have hfile := hflat hrecursive
    rw [FileSystem.kindAt_of_prefix habove hdir, hfile] at hkind
    cases hkind
  · refine owner_ne_of_removed hctx hremoved hface ?_ howner
    rcases hat with rfl | hbelow
    · rcases eq_or_prefix_dropLast habove hroot with heq | hprefix
      · exact .inl (by rw [heq])
      · exact .inr hprefix
    · exact .inr (habove.trans hbelow)

end

section

variable {ctx : Context} {recursive force : Bool} {fs : FileSystem} {operand : String}
  {place : List String}

/-- What is seen after the turn of an operand that is removed. -/
theorem faceAt_afterTurn_of_removed (h : fateOf ctx recursive force fs operand = .removed)
    (place : List String) :
    (afterTurn ctx recursive force fs operand).faceAt place =
      if Path.segments (ctx.resolve operand) <+: place then none
      else (fs.faceAt place).map
        (Face.shed fs.now fun name => place ++ [name] == Path.segments (ctx.resolve operand)) := by
  obtain ⟨hroot, -, -, kind, hkind, -⟩ := h ▸ finding_fateOf ctx recursive force fs operand
  have hthere : (fs.faceAt (Path.segments (ctx.resolve operand))).isSome := by
    rw [FileSystem.kindAt_eq] at hkind
    obtain ⟨face, hface, -⟩ := Option.map_eq_some_iff.1 hkind
    rw [hface]
    rfl
  rw [afterTurn, h]
  exact faceAt_without hthere hroot place

theorem afterTurn_of_not_removed (h : fateOf ctx recursive force fs operand ≠ .removed) :
    afterTurn ctx recursive force fs operand = fs := by
  unfold afterTurn
  cases hfate : fateOf ctx recursive force fs operand <;> first | rfl | exact absurd hfate h

/-- A spared place is spared later. -/
theorem IsSpared.afterTurn (h : IsSpared ctx recursive fs place) (force : Bool) (operand : String) :
    IsSpared ctx recursive (afterTurn ctx recursive force fs operand) place := by
  by_cases hremoved : fateOf ctx recursive force fs operand = .removed
  · have hfaces := faceAt_afterTurn_of_removed hremoved
    rcases h with hroot | ⟨hrecursive, hdir⟩ | ⟨hctx, owned, face, hface, howner, hat⟩
    · exact .inl hroot
    · refine .inr (.inl ⟨hrecursive, ?_⟩)
      have habove : ¬ Path.segments (ctx.resolve operand) <+: place :=
        IsSpared.not_prefix (.inr (.inl ⟨hrecursive, hdir⟩)) hremoved
      rw [FileSystem.kindAt_eq] at hdir ⊢
      rw [hfaces, if_neg habove, Option.map_map]
      simpa [Function.comp_def] using hdir
    · refine .inr (.inr ⟨hctx, owned, face.shed fs.now fun name =>
        owned ++ [name] == Path.segments (ctx.resolve operand), ?_, ?_, hat⟩)
      · rw [hfaces, if_neg, hface, Option.map_some]
        exact fun habove => owner_ne_of_removed hctx hremoved hface (.inr habove) howner
      · rwa [Face.owner_shed]
  · rwa [afterTurn_of_not_removed hremoved]

/-- Where there is nothing, there is nothing after a turn. -/
theorem faceAt_afterTurn_of_none (h : fs.faceAt place = none) (recursive force : Bool)
    (operand : String) : (afterTurn ctx recursive force fs operand).faceAt place = none := by
  by_cases hremoved : fateOf ctx recursive force fs operand = .removed
  · rw [faceAt_afterTurn_of_removed hremoved, h]
    simp
  · rwa [afterTurn_of_not_removed hremoved]

end

section

variable {ctx : Context} {operand : String}

theorem removedPlaces_cons_removed (told : List (String × Fate)) :
    removedPlaces ctx ((operand, .removed) :: told) =
      Path.segments (ctx.resolve operand) :: removedPlaces ctx told := rfl

theorem removedPlaces_cons_of_ne {fate : Fate} (h : fate ≠ .removed) (told : List (String × Fate)) :
    removedPlaces ctx ((operand, fate) :: told) = removedPlaces ctx told := by
  simp [removedPlaces, h]

theorem mem_removedPlaces_iff {told : List (String × Fate)} {place : List String} :
    place ∈ removedPlaces ctx told ↔
      ∃ operand, (operand, .removed) ∈ told ∧ Path.segments (ctx.resolve operand) = place := by
  simp [removedPlaces]

end

section

variable (ctx : Context) (recursive force : Bool) (fs : FileSystem)

@[simp]
theorem now_afterTurn (operand : String) :
    (afterTurn ctx recursive force fs operand).now = fs.now := by
  unfold afterTurn
  cases fateOf ctx recursive force fs operand <;> first | rfl | exact now_without fs _

theorem isProper_afterTurn (hfs : fs.IsProper) (operand : String) :
    (afterTurn ctx recursive force fs operand).IsProper := by
  have hreaches := leads_removeOne Edit.covers_reaches ctx fs recursive force operand
  rw [Leads, run_removeOne] at hreaches
  exact hfs.of_reaches hreaches

@[simp]
theorem map_fst_fates (operands : List String) :
    (fates ctx recursive force fs operands).map Prod.fst = operands := by
  induction operands generalizing fs with
  | nil => rfl
  | cons operand rest ih => rw [fates, List.map_cons, ih]

/-- The turns of all operands, one after the other. -/
theorem run_forEach_removeOne (operands : List String) :
    (Action.forEach operands (removeOne ctx recursive force)).run fs =
      .ok ((fates ctx recursive force fs operands).flatMap fun told => told.2.messages told.1)
        (afterAll ctx recursive force fs operands) := by
  induction operands generalizing fs with
  | nil => rfl
  | cons operand rest ih =>
      rw [run_forEach_cons (run_removeOne recursive force operand fs), ih]
      rfl

/-- All that is there after the turns: what lies at or below a removed place is gone, a directory
that held one has lost its name, and everything else is as it was. -/
theorem faceAt_afterAll (operands : List String) (place : List String) :
    (afterAll ctx recursive force fs operands).faceAt place =
      if ∃ removed ∈ removedPlaces ctx (fates ctx recursive force fs operands), removed <+: place
      then none
      else (fs.faceAt place).map (Face.shed fs.now fun name =>
        place ++ [name] ∈ removedPlaces ctx (fates ctx recursive force fs operands)) := by
  induction operands generalizing fs with
  | nil =>
      have hsame : Face.shed fs.now (fun name => decide (place ++ [name] ∈ removedPlaces ctx [])) =
          id := funext fun face => Face.shed_of_not_any (by simp [removedPlaces]) fs.now
      rw [fates, if_neg (by simp [removedPlaces]), hsame, Option.map_id]
      rfl
  | cons operand rest ih =>
      rw [afterAll, List.foldl_cons, ← afterAll, ih, now_afterTurn, fates]
      by_cases hremoved : fateOf ctx recursive force fs operand = .removed
      · rw [faceAt_afterTurn_of_removed hremoved, hremoved, removedPlaces_cons_removed]
        simp only [List.mem_cons, exists_eq_or_imp]
        by_cases hhere : Path.segments (ctx.resolve operand) <+: place
        · simp [hhere]
        · simp only [hhere, false_or, if_false, Option.map_map]
          congr 2
          funext face
          simp [Face.shed_shed, Bool.decide_or, Bool.beq_eq_decide_eq]
      · rw [afterTurn_of_not_removed hremoved, removedPlaces_cons_of_ne hremoved]

end

section

variable {ctx : Context} {recursive force : Bool} {fs : FileSystem} {operand : String} {fate : Fate}
  {place : List String}

/-- An operand that is refused means a place that no turn takes away. -/
theorem isSpared_of_isRefused (hfs : fs.IsProper)
    (h : (fateOf ctx recursive force fs operand).IsRefused) :
    IsSpared ctx recursive fs (Path.segments (ctx.resolve operand)) := by
  have hfinding := finding_fateOf ctx recursive force fs operand
  cases hfate : fateOf ctx recursive force fs operand <;> rw [hfate] at h hfinding
  case removed | overlooked | missing => exact h.elim
  case directory => exact .inr (.inl ⟨hfinding.2, hfinding.1⟩)
  case root => exact .inl hfinding.1
  case busy => exact .inl hfinding
  case denied =>
    obtain ⟨⟨kind, hkind⟩, hparent | htree⟩ := hfinding
    · obtain ⟨hctx, face, hface, howner⟩ := Access.exists_owned_of_parentDenied hkind hparent
      exact .inr (.inr ⟨hctx, _, face, hface, howner, .inl rfl⟩)
    · obtain ⟨hctx, owned, face, hface, howner, hbelow⟩ := Access.exists_owned_of_treeDenied hfs htree
      exact .inr (.inr ⟨hctx, owned, face, hface, howner, .inr hbelow⟩)

/-- Nothing is removed at or above a spared place. -/
theorem IsSpared.not_prefix_of_mem (h : IsSpared ctx recursive fs place) {operands : List String}
    {removed : List String}
    (hremoved : removed ∈ removedPlaces ctx (fates ctx recursive force fs operands)) :
    ¬ removed <+: place := by
  induction operands generalizing fs with
  | nil => simp [fates, removedPlaces] at hremoved
  | cons first rest ih =>
      rw [fates] at hremoved
      by_cases hfirst : fateOf ctx recursive force fs first = .removed
      · rw [hfirst, removedPlaces_cons_removed, List.mem_cons] at hremoved
        rcases hremoved with rfl | hlater
        · exact h.not_prefix hfirst
        · exact ih (h.afterTurn force first) hlater
      · rw [removedPlaces_cons_of_ne hfirst] at hremoved
        exact ih (h.afterTurn force first) hremoved

/-- An operand that is refused means what is there. -/
theorem kindAt_of_isRefused (h : (fateOf ctx recursive force fs operand).IsRefused) :
    ∃ kind, fs.kindAt (Path.segments (ctx.resolve operand)) = some kind := by
  have hfinding := finding_fateOf ctx recursive force fs operand
  cases hfate : fateOf ctx recursive force fs operand <;> rw [hfate] at h hfinding
  case removed | overlooked | missing => exact h.elim
  case directory => exact ⟨true, hfinding.1⟩
  case root => exact ⟨true, by rw [hfinding.1]; rfl⟩
  case busy => exact ⟨true, by rw [show Path.segments _ = [] from hfinding]; rfl⟩
  case denied => exact hfinding.1

/-- Where there is nothing at first, nothing that is there is refused. -/
theorem not_isRefused_of_none (hplace : fs.faceAt (Path.segments (ctx.resolve operand)) = none)
    {operands : List String} (htold : (operand, fate) ∈ fates ctx recursive force fs operands) :
    ¬ fate.IsRefused := by
  induction operands generalizing fs with
  | nil => simp [fates] at htold
  | cons first rest ih =>
      rw [fates, List.mem_cons] at htold
      rcases htold with hfirst | hlater
      · obtain ⟨rfl, rfl⟩ := Prod.mk.inj hfirst
        intro hrefused
        obtain ⟨kind, hkind⟩ := kindAt_of_isRefused hrefused
        rw [FileSystem.kindAt_eq, hplace] at hkind
        cases hkind
      · exact ih (faceAt_afterTurn_of_none hplace recursive force first) hlater

/-- Nothing is removed at or above what a refused operand means, neither before nor after it. -/
theorem not_prefix_of_isRefused (hfs : fs.IsProper) (hrefused : fate.IsRefused)
    {operands : List String} (htold : (operand, fate) ∈ fates ctx recursive force fs operands)
    {removed : List String}
    (hremoved : removed ∈ removedPlaces ctx (fates ctx recursive force fs operands)) :
    ¬ removed <+: Path.segments (ctx.resolve operand) := by
  induction operands generalizing fs with
  | nil => simp [fates] at htold
  | cons first rest ih =>
      have hproper := isProper_afterTurn ctx recursive force fs hfs first
      rw [fates] at hremoved
      rw [fates, List.mem_cons] at htold
      rcases htold with hfirst | hlater
      · -- its turn comes first, and it is spared from then on
        obtain ⟨rfl, rfl⟩ := Prod.mk.inj hfirst
        have hspared := isSpared_of_isRefused hfs hrefused
        rw [removedPlaces_cons_of_ne (by rintro heq; rw [heq] at hrefused; exact hrefused)] at hremoved
        exact (hspared.afterTurn force operand).not_prefix_of_mem hremoved
      · by_cases hfirst : fateOf ctx recursive force fs first = .removed
        · rw [hfirst, removedPlaces_cons_removed, List.mem_cons] at hremoved
          rcases hremoved with rfl | hrest
          · -- what was removed before its turn would not be there
            intro habove
            refine not_isRefused_of_none ?_ hlater hrefused
            rw [faceAt_afterTurn_of_removed hfirst, if_pos habove]
          · exact ih hproper hlater hrest
        · rw [removedPlaces_cons_of_ne hfirst] at hremoved
          exact ih hproper hlater hremoved

/-- Where there is nothing, there is nothing after all turns. -/
theorem faceAt_afterAll_of_none (h : fs.faceAt place = none) (recursive force : Bool)
    (operands : List String) : (afterAll ctx recursive force fs operands).faceAt place = none := by
  rw [faceAt_afterAll, h]
  simp

/-- An operand about which nothing is reported means nothing that is there after all turns. -/
theorem faceAt_afterAll_of_silent {operands : List String}
    (htold : (operand, fate) ∈ fates ctx recursive force fs operands)
    (hsilent : fate.messages operand = []) :
    (afterAll ctx recursive force fs operands).faceAt (Path.segments (ctx.resolve operand)) =
      none := by
  induction operands generalizing fs with
  | nil => simp [fates] at htold
  | cons first rest ih =>
      rw [fates, List.mem_cons] at htold
      rw [afterAll, List.foldl_cons, ← afterAll]
      rcases htold with hfirst | hlater
      · obtain ⟨rfl, rfl⟩ := Prod.mk.inj hfirst
        refine faceAt_afterAll_of_none ?_ recursive force rest
        have hfinding := finding_fateOf ctx recursive force fs operand
        cases hfate : fateOf ctx recursive force fs operand <;> rw [hfate] at hsilent hfinding
        case removed => rw [faceAt_afterTurn_of_removed hfate, if_pos List.prefix_rfl]
        case overlooked => exact faceAt_afterTurn_of_none hfinding.1 recursive force operand
        case missing | directory | root | denied | busy => cases hsilent
      · exact ih hlater

end

/-- What becomes of the operands of `rm`, and of all that they do not mean: what is there later, what
goes, and what stays. -/
structure Settles (ctx : Context) (operands : List String) (told : List (String × Fate))
    (fs : FileSystem) (outcome : Outcome) (later : FileSystem) : Prop where
  /-- Each operand has one fate. -/
  answers : told.map Prod.fst = operands
  /-- Nothing is made. -/
  makesNothing : ∀ place, fs.faceAt place = none → later.faceAt place = none
  /-- What lies at or below a removed place goes, a directory that held one loses its name and is
  stamped, and nothing else changes. -/
  faces : ∀ place, later.faceAt place =
    if ∃ removed ∈ removedPlaces ctx told, removed <+: place then none
    else (fs.faceAt place).map
      (Face.shed fs.now fun name => place ++ [name] ∈ removedPlaces ctx told)
  /-- What lies neither at nor below the place of an operand stays what it is: only a directory that
  held such a place can lose names. -/
  spares : ∀ place, (∀ operand ∈ operands, ¬ Path.segments (ctx.resolve operand) <+: place) →
    later.faceAt place = (fs.faceAt place).map
      (Face.shed fs.now fun name => place ++ [name] ∈ removedPlaces ctx told)
  /-- After a success nothing is left of what the operands mean. -/
  removes : outcome.exitCode = 0 → ∀ operand ∈ operands,
    later.contains (ctx.resolve operand) = false
  /-- What goes of what a refused operand means lies at or below the place of another operand, which
  lies below that of the refused one and was removed. -/
  refuses : ∀ operand fate, (operand, fate) ∈ told → fate.IsRefused → ∀ place,
    Path.segments (ctx.resolve operand) <+: place → fs.faceAt place ≠ none →
    later.faceAt place = none → ∃ other, (other, .removed) ∈ told ∧
      Path.segments (ctx.resolve operand) <+: Path.segments (ctx.resolve other) ∧
      Path.segments (ctx.resolve operand) ≠ Path.segments (ctx.resolve other) ∧
      Path.segments (ctx.resolve other) <+: place

/-- What `rm` tells about its operands. -/
def removalOutcome (force : Bool) (told : List (String × Fate)) : Outcome :=
  if told.isEmpty && !force then .fail "rm: missing operand" Outcome.failure
  else .ofLines [] (told.flatMap fun (operand, fate) => fate.messages operand)

/-- After a success there is nothing to tell about any operand. -/
theorem messages_of_exitCode {force : Bool} {told : List (String × Fate)}
    (h : (removalOutcome force told).exitCode = 0) {operand : String} {fate : Fate}
    (htold : (operand, fate) ∈ told) : fate.messages operand = [] := by
  unfold removalOutcome at h
  split at h
  · cases h
  · rw [Outcome.ofLines] at h
    dsimp only at h
    split at h
    · rename_i hsilent
      rw [List.isEmpty_iff, List.flatMap_eq_nil_iff] at hsilent
      exact hsilent _ htold
    · cases h

theorem settles (ctx : Context) (recursive force : Bool) {fs : FileSystem} (hfs : fs.IsProper)
    (operands : List String) :
    Settles ctx operands (fates ctx recursive force fs operands) fs
      (removalOutcome force (fates ctx recursive force fs operands))
      (afterAll ctx recursive force fs operands) where
  answers := map_fst_fates ctx recursive force fs operands
  makesNothing _ h := faceAt_afterAll_of_none h recursive force operands
  faces := faceAt_afterAll ctx recursive force fs operands
  spares := by
    intro place houtside
    rw [faceAt_afterAll, if_neg]
    rintro ⟨removed, hremoved, habove⟩
    obtain ⟨operand, htold, rfl⟩ := mem_removedPlaces_iff.1 hremoved
    refine houtside operand ?_ habove
    rw [← map_fst_fates ctx recursive force fs operands]
    exact List.mem_map_of_mem htold
  removes := by
    intro hexit operand hoperand
    rw [← map_fst_fates ctx recursive force fs operands] at hoperand
    obtain ⟨⟨_, fate⟩, htold, rfl⟩ := List.mem_map.1 hoperand
    have hnone := faceAt_afterAll_of_silent htold (messages_of_exitCode hexit htold)
    rw [Edit.contains_eq, hnone]
    rfl
  refuses := by
    intro operand fate htold hrefused place hbelow hthere hgone
    rw [faceAt_afterAll] at hgone
    split at hgone
    · rename_i hremoved
      obtain ⟨removed, hremoved, habove⟩ := hremoved
      have hnot := not_prefix_of_isRefused hfs hrefused htold hremoved
      obtain ⟨other, hother, rfl⟩ := mem_removedPlaces_iff.1 hremoved
      have hwithin := (List.prefix_or_prefix_of_prefix hbelow habove).resolve_right hnot
      exact ⟨other, hother, hwithin, fun heq => hnot (heq ▸ List.prefix_rfl), habove⟩
    · exact absurd (Option.map_eq_none_iff.1 hgone) hthere

/-- Each operand of `rm` comes to its fate, which is told, and nothing else is touched. -/
theorem rm_settles_operands (ctx : Context) {words : List String} {args : Arguments}
    {fs : FileSystem} (hfs : fs.IsProper)
    (hparse : Arguments.parse (.flagsOnly "rRf") words = .ok args) (input : Option String) :
    let operands := Operands.expand ctx fs args.operands
    let told := fates ctx (args.has ['r', 'R']) (args.has ['f']) fs operands
    let run := execute ctx input (name rm :: words) fs
    run.1 = removalOutcome (args.has ['f']) told ∧ Settles ctx operands told fs run.1 run.2 := by
  intro operands told run
  have hrun : (runRm ctx words).run fs = .ok (removalOutcome (args.has ['f']) told)
      (afterAll ctx (args.has ['r', 'R']) (args.has ['f']) fs operands) := by
    have hturns := run_forEach_removeOne ctx (args.has ['r', 'R']) (args.has ['f']) fs operands
    unfold runRm
    rw [run_bind_of_ok (Action.run_arguments hparse fs), run_get_bind]
    dsimp only
    split
    · rename_i hempty
      have hnil : operands = [] := List.isEmpty_iff.1 hempty
      rw [removalOutcome, show told = [] by simp only [told, hnil, fates], hnil]
      cases args.has ['f'] <;> rfl
    · rename_i hsome
      have htold : told.isEmpty = false := by
        rw [← List.isEmpty_map (f := Prod.fst), map_fst_fates]
        exact Bool.eq_false_iff.2 hsome
      rw [removalOutcome, htold, Bool.false_and, if_neg Bool.false_ne_true]
      exact run_bind_of_ok hturns _
  have hexecute : run = (removalOutcome (args.has ['f']) told, _) :=
    execute_of_run ctx words input fs (by decide : rm ≠ superuser) hrun
  rw [hexecute]
  exact ⟨rfl, settles ctx _ _ hfs operands⟩

/-- A draft, a tray with a note in it, and a box in which a seal of the root user lies beside scraps. -/
def bench : FileSystem :=
  { FileSystem.empty "ada" 5 with
    entries :=
      [("draft", .file ⟨"ada", Permissions.newFile, 0⟩ ⟨#[1]⟩),
        ("box", .directory ⟨"ada", Permissions.newDirectory, 0⟩
          [("scrap", .file ⟨"ada", Permissions.newFile, 0⟩ ⟨#[2]⟩),
            ("seal", .file ⟨"root", Permissions.newFile, 0⟩ ⟨#[3]⟩)]),
        ("tray", .directory ⟨"ada", Permissions.newDirectory, 0⟩
          [("note", .file ⟨"ada", Permissions.newFile, 0⟩ ⟨#[4]⟩)])] }

theorem scraps_are_found : Operands.expandOne ⟨"/", "ada", false⟩ bench "box/s*" =
    ["box/scrap", "box/seal"] := by
  have hsearch : Operands.Searches ("box" ++ "/" ++ "s*") "box" "s*" :=
    .inside (by decide) (by decide)
  have hfound : Operands.found ⟨"/", "ada", false⟩ bench "box" "s*" =
      Operands.sorted ["scrap", "seal"] := rfl
  rw [show "box/s*" = "box" ++ "/" ++ "s*" by decide, Operands.expandOne_eq (by decide) hsearch,
    hfound, Operands.sorted, List.mergeSort_of_pairwise (by decide)]
  decide

/-- All that is on the bench but the draft is to be removed. -/
def clearing : Outcome × FileSystem :=
  execute ⟨"/", "ada", false⟩ none ["rm", "-r", "box/s*", "box", "tray", "tray/note"] bench

/-- The scrap goes before its box is refused, and the note is missed because its tray is gone. -/
theorem bench_is_cleared :
    bench.IsProper ∧
      Arguments.parse (.flagsOnly "rRf") ["-r", "box/s*", "box", "tray", "tray/note"] =
        .ok ⟨['r'], [], ["box/s*", "box", "tray", "tray/note"], none⟩ ∧
      Settles ⟨"/", "ada", false⟩ ["box/scrap", "box/seal", "box", "tray", "tray/note"]
        [("box/scrap", .removed), ("box/seal", .denied), ("box", .denied), ("tray", .removed),
          ("tray/note", .missing)] bench clearing.1 clearing.2 := by
  have hproper : bench.IsProper := by decide
  have hparse : Arguments.parse (.flagsOnly "rRf") ["-r", "box/s*", "box", "tray", "tray/note"] =
      .ok ⟨['r'], [], ["box/s*", "box", "tray", "tray/note"], none⟩ := rfl
  have hexpand : Operands.expand ⟨"/", "ada", false⟩ bench ["box/s*", "box", "tray", "tray/note"] =
      ["box/scrap", "box/seal", "box", "tray", "tray/note"] := by
    rw [Operands.expand, List.flatMap_cons, scraps_are_found]
    decide +kernel
  have htold : fates ⟨"/", "ada", false⟩ true false bench
      ["box/scrap", "box/seal", "box", "tray", "tray/note"] =
      [("box/scrap", .removed), ("box/seal", .denied), ("box", .denied), ("tray", .removed),
        ("tray/note", .missing)] := by decide +kernel
  have hsettled := (rm_settles_operands ⟨"/", "ada", false⟩ hproper hparse none).2
  dsimp only at hsettled
  rw [hexpand] at hsettled
  change Settles _ _ (fates _ true false bench _) bench _ _ at hsettled
  rw [htold] at hsettled
  exact ⟨hproper, hparse, hsettled⟩

end Command

end PracticeShell
