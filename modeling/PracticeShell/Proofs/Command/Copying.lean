import PracticeShell.Proofs.Command.Steps
import PracticeShell.Proofs.Tree.Depth

/-!
# Copies that end

What `cp` does can be read as a program over whatever copies directories (`Command.Copier`); with
`Edit.copyTree` it is the command itself. It stays the same with every copier that goes down at least
as many levels as a directory has when it is copied to a place that is not within it, whatever the
copier does otherwise (`run_runCpBy`). So `cp` copies directories to such places only, and none of the
copies is deeper than its source was.
-/

namespace PracticeShell.Command

open FileTree Run

/-- What copies directories. -/
abbrev Copier := (source target : String) → (owner : Option String) → Edit Unit

variable (copy : Copier)

/-- `copyOne` with another copier. -/
def copyOneBy (ctx : Context) (t : Transfer) (recursive : Bool) (source : String) :
    Action (List String) := do
  let full := ctx.resolve source
  let fs ← get
  let create := "cp: cannot create regular file '" ++ t.destination ++ "': "
  match fs.stat? full with
  | none => return ["cp: cannot stat '" ++ source ++ "': No such file or directory"]
  | some node =>
    if node.isDirectory && !recursive then
      return ["cp: -r not specified; omitting directory '" ++ source ++ "'"]
    if Access.treeDenied ctx fs full then
      return ["cp: cannot open '" ++ source ++ "' for reading: Permission denied"]
    let target := t.target ctx full
    if node.isDirectory && Path.isWithin target full then
      return ["cp: cannot copy a directory, '" ++ source ++ "', into itself, '" ++ t.destination ++
        "'"]
    let there := fs.stat? target
    if Access.deniedIfAny ctx there || (there.isNone && Access.parentDenied ctx fs target) then
      return [create ++ "Permission denied"]
    if node.isDirectory && there.any (!·.isDirectory) then
      return ["cp: cannot overwrite non-directory '" ++ t.destination ++ "' with directory '" ++
        source ++ "'"]
    let copy := if node.isDirectory then copy else Edit.copyFile
    return messageOf create (← Action.attempt (copy full target (some ctx.user)))

/-- `runCp` with another copier. -/
def runCpBy (ctx : Context) (words : List String) : Action Outcome := do
  let args ← Action.arguments (.flagsOnly "rRf") words
  match Transfer.ofOperands "cp" ctx (← get) args.operands with
  | .error message => return .fail message Outcome.failure
  | .ok t =>
    return .ofLines [] (← Action.forEach t.sources (copyOneBy copy ctx t (args.has ['r', 'R'])))

theorem copyOneBy_copyTree : copyOneBy Edit.copyTree = copyOne := rfl

theorem runCpBy_copyTree : runCpBy Edit.copyTree = runCp := rfl

/-- Whether a directory is copied to a place that is not within it. -/
structure LeadsOut (fs : FileSystem) (source target : String) : Prop where
  proper : fs.IsProper
  directory : fs.isDirectory source = true
  outside : Path.isWithin target source = false

/-- Whether a copier goes down at least as many levels as a directory has that is copied to a place not
within it. -/
def Copier.IsDeep (copy : Copier) : Prop :=
  ∀ (fs : FileSystem) (source target : String) (owner : Option String), LeadsOut fs source target →
    ∃ levels, fs.height source ≤ levels ∧
      (copy source target owner).run fs = (Edit.copyNode owner levels source target).run fs

variable {copy} {ctx : Context} {fs : FileSystem}

theorem LeadsOut.contains {source target : String} (h : LeadsOut fs source target) :
    fs.contains source = true := by
  have hdir := h.directory
  rw [FileSystem.isDirectory, Option.any_eq_true] at hdir
  obtain ⟨node, hnode, -⟩ := hdir
  rw [FileSystem.contains, hnode]
  rfl

/-- A copier that is deep copies directories as they are copied. -/
theorem Copier.IsDeep.run_copyTree (hcopy : copy.IsDeep) {source target : String}
    (h : LeadsOut fs source target) (owner : Option String) :
    (copy source target owner).run fs = (Edit.copyTree source target owner).run fs := by
  obtain ⟨levels, hlevels, hrun⟩ := hcopy fs source target owner h
  rw [hrun, (Edit.copyNode_within_height h.proper h.contains h.outside hlevels).2]

theorem run_copyOneBy (hcopy : copy.IsDeep) (hfs : fs.IsProper) (t : Transfer) (recursive : Bool)
    (source : String) :
    (copyOneBy copy ctx t recursive source).run fs = (copyOne ctx t recursive source).run fs := by
  unfold copyOneBy copyOne
  rw [run_get_bind, run_get_bind]
  dsimp only
  cases hnode : fs.stat? (ctx.resolve source) with
  | none => rfl
  | some node =>
      dsimp only
      split
      · rfl
      split
      · rfl
      split
      · rfl
      rename_i hwithin
      split
      · rfl
      split
      · rfl
      rw [EStateM.run_bind, EStateM.run_bind, run_attempt, run_attempt]
      cases hkind : node.isDirectory with
      | false => rfl
      | true =>
          have hout : LeadsOut fs (ctx.resolve source) (t.target ctx (ctx.resolve source)) :=
            ⟨hfs, (FileSystem.isDirectory_of_stat? hnode).trans hkind, by simpa [hkind] using hwithin⟩
          rw [if_pos rfl, if_pos rfl, hcopy.run_copyTree hout]

/-- With a deep copier, `cp` does what it does. -/
theorem run_runCpBy (hcopy : copy.IsDeep) (hfs : fs.IsProper) (ctx : Context)
    (words : List String) : (runCpBy copy ctx words).run fs = (runCp ctx words).run fs := by
  unfold runCpBy runCp
  refine run_bind_congr fun args t hargs => ?_
  obtain ⟨-, rfl⟩ := Action.of_run_arguments hargs
  rw [run_get_bind, run_get_bind]
  cases Transfer.ofOperands "cp" ctx t args.operands with
  | error message => rfl
  | ok transfer =>
      have hsame : ∀ operand (u : FileSystem), u.IsProper →
          (copyOneBy copy ctx transfer (args.has ['r', 'R']) operand).run u =
            (copyOne ctx transfer (args.has ['r', 'R']) operand).run u := fun operand u hu =>
        run_copyOneBy hcopy hu transfer _ operand
      have hkeeps : ∀ operand (u : FileSystem), u.IsProper →
          (left ((copyOne ctx transfer (args.has ['r', 'R']) operand).run u)).IsProper :=
        fun operand u hu =>
          hu.of_growth (leads_copyOne Edit.coversGrowth_grows ctx u transfer _ operand)
      dsimp only
      rw [EStateM.run_bind, EStateM.run_bind, run_forEach_congr hsame hkeeps hfs]

/-- Directories are copied by `cp` only to places that are not within them, and each of these copies
goes down no more levels than the directory has at that time. -/
theorem cp_copies_end (hfs : fs.IsProper) (ctx : Context) (words : List String) :
    (∀ copy : Copier, copy.IsDeep → (runCpBy copy ctx words).run fs = (runCp ctx words).run fs) ∧
      ∀ (t : FileSystem) (source target : String) (owner : Option String) (levels : Nat),
        LeadsOut t source target → t.height source ≤ levels →
        Edit.Finishes (Edit.copyNode owner levels source target) t ∧
          (Edit.copyNode owner levels source target).run t =
            (Edit.copyTree source target owner).run t :=
  ⟨fun _ hcopy => run_runCpBy hcopy hfs ctx words, fun _ _ _ _ _ hout hlevels =>
    Edit.copyNode_within_height hout.proper hout.contains hout.outside hlevels⟩

/-- Directories of one name within each other, the last of which holds a file. -/
def nest : FileSystem :=
  { FileSystem.empty "ada" 2 with
    entries := [("a", .directory ⟨"ada", Permissions.newDirectory, 1⟩
      [("a", .directory ⟨"ada", Permissions.newDirectory, 1⟩
        [("a", .directory ⟨"ada", Permissions.newDirectory, 1⟩
          [("leaf", .file ⟨"ada", Permissions.newFile, 1⟩ ⟨#[1]⟩)])])])] }

/-- The second directory is copied over the first, which it lies in, so that the leaf comes into what is
copied: three levels are enough for it. -/
theorem nest_is_copied :
    let ctx : Context := ⟨"/", "ada", false⟩
    let copy : Copier := fun source target owner => do
      Edit.copyNode owner ((← get).height source) source target
    nest.IsProper ∧ copy.IsDeep ∧ LeadsOut nest "/a/a" "/a" ∧ nest.height "/a/a" ≤ 3 ∧
      (runCpBy copy ctx ["-r", "a/a", "/"]).run nest = (runCp ctx ["-r", "a/a", "/"]).run nest ∧
      Edit.Finishes (Edit.copyNode (some "ada") 3 "/a/a" "/a") nest ∧
      (left ((runCp ctx ["-r", "a/a", "/"]).run nest)).contains "/a/a/leaf" = true := by
  intro ctx copy
  have hproper : nest.IsProper := by decide
  have hdeep : copy.IsDeep := fun fs source target owner _ =>
    ⟨fs.height source, Nat.le_refl _, rfl⟩
  have hout : LeadsOut nest "/a/a" "/a" := by
    constructor <;> decide +kernel
  have hheight : nest.height "/a/a" ≤ 3 := by decide +kernel
  have hends := cp_copies_end hproper ctx ["-r", "a/a", "/"]
  exact ⟨hproper, hdeep, hout, hheight, hends.1 copy hdeep,
    (hends.2 _ _ _ _ _ hout hheight).1, by decide +kernel⟩

end PracticeShell.Command
