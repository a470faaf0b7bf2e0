import PracticeShell.Proofs.Command.Taking
import PracticeShell.Proofs.Guard.Operands
import PracticeShell.Proofs.Guard.Superuser
import PracticeShell.Proofs.Tree.Moving

/-!
# Moves that overwrite a file

The command `mv` moves its sources one after the other, each to its own target. A file is overwritten
when a source is moved to its path (`Command.Overwrites`). The guard looks for a file only at the last
operand as it stands, and only at whether it looks important. So it warns of a move that overwrites a
file exactly if the last operand is not a directory and the file looks important, or if one of the sources
is protected or critical (`overwriting_is_warned_of_iff`).
-/

namespace PracticeShell

open FileTree Run

namespace Command

/-- What the file system has become when some sources have been moved one after the other. -/
def movedInTurn (ctx : Context) (t : Transfer) (sources : List String) (fs : FileSystem) : FileSystem :=
  left ((Action.forEach sources (moveOne ctx t false)).run fs)

/-- Whether moving overwrites a file: in its turn, a source is moved to the path of the file. -/
def Overwrites (ctx : Context) (fs : FileSystem) (operands : List String) (path : String) : Prop :=
  ∃ t done source rest, Transfer.ofOperands "mv" ctx fs operands = .ok t ∧
    t.sources = done ++ source :: rest ∧ t.target ctx (ctx.resolve source) = path ∧
    (movedInTurn ctx t done fs).isFile path = true ∧
    (movedInTurn ctx t done fs).contains (ctx.resolve source) = true ∧
    (movedInTurn ctx t (done ++ [source]) fs).contains (ctx.resolve source) = false

section Turns

variable {ctx : Context} {t : Transfer} {source : String} {sources operands : List String}
  {fs : FileSystem}

/-- In its turn a source is moved to its target, or nothing changes. -/
theorem exists_run_moveOne (ctx : Context) (t : Transfer) (force : Bool) (source : String)
    (fs : FileSystem) : ∃ messages later, (moveOne ctx t force source).run fs = .ok messages later ∧
      (later = fs ∨
        Edit.IsMoved (ctx.resolve source) (t.target ctx (ctx.resolve source)) fs later) := by
  unfold moveOne
  dsimp only
  rw [run_get_bind]
  cases fs.stat? (ctx.resolve source) with
  | none => exact ⟨_, fs, rfl, .inl rfl⟩
  | some node =>
      dsimp only
      split
      · exact ⟨_, fs, rfl, .inl rfl⟩
      · split
        · exact ⟨_, fs, rfl, .inl rfl⟩
        · rw [EStateM.run_bind, run_attempt]
          rcases Edit.makes_rename (ctx.resolve source) (t.target ctx (ctx.resolve source)) fs with
            ⟨-, hrun⟩ | ⟨e, hrun⟩ | ⟨c, ⟨parent, name, newParent, newName, hsource, htarget, rfl⟩,
              hfits, hrun⟩
          · rw [hrun]
            exact ⟨_, fs, rfl, .inl rfl⟩
          · rw [hrun]
            exact ⟨_, fs, rfl, .inl rfl⟩
          · have hne : Path.normalize (ctx.resolve source) ≠
                Path.normalize (t.target ctx (ctx.resolve source)) := by
              rw [Ne, Path.normalize_eq_iff, hsource, htarget]
              intro hsame
              exact (Change.apart_of_fits_move hfits).1 (hsame ▸ List.prefix_refl _)
            have hmoved := (Edit.rename_moves_tree hne).2 _ hrun
            rw [hrun]
            exact ⟨_, _, rfl, .inr hmoved⟩

theorem movedInTurn_concat (ctx : Context) (t : Transfer) (sources : List String) (source : String)
    (fs : FileSystem) : movedInTurn ctx t (sources ++ [source]) fs =
      left ((moveOne ctx t false source).run (movedInTurn ctx t sources fs)) := by
  unfold movedInTurn
  induction sources generalizing fs with
  | nil =>
      obtain ⟨messages, later, hrun, -⟩ := exists_run_moveOne ctx t false source fs
      rw [List.nil_append, run_forEach_cons hrun, Action.forEach, EStateM.run_pure, EStateM.run_pure, left_ok,
        left_ok, hrun]
      rfl
  | cons first rest ih =>
      obtain ⟨messages, later, hrun, -⟩ := exists_run_moveOne ctx t false first fs
      have hleft : ∀ sources, left ((Action.forEach (first :: sources) (moveOne ctx t false)).run fs) =
          left ((Action.forEach sources (moveOne ctx t false)).run later) := by
        intro sources
        rw [run_forEach_cons hrun]
        cases (Action.forEach sources (moveOne ctx t false)).run later <;> rfl
      rw [List.cons_append, hleft, hleft, ih]

/-- Where a file is overwritten, the source takes its place. -/
theorem Overwrites.exists_isMoved {path : String} (h : Overwrites ctx fs operands path) :
    ∃ before source later, before.isFile path = true ∧ Edit.IsMoved source path before later := by
  obtain ⟨t, done, source, rest, -, -, rfl, hfile, hthere, hgone⟩ := h
  obtain ⟨messages, later, hrun, hcases⟩ :=
    exists_run_moveOne ctx t false source (movedInTurn ctx t done fs)
  rw [movedInTurn_concat, hrun, left_ok] at hgone
  rcases hcases with rfl | hmoved
  · rw [hthere] at hgone
    cases hgone
  · exact ⟨_, _, _, hfile, hmoved⟩

theorem expand_of_plain (ctx : Context) (fs : FileSystem)
    (h : ∀ operand ∈ operands, Text.Glob.isPattern operand = false) :
    Operands.expand ctx fs operands = operands := by
  induction operands with
  | nil => rfl
  | cons operand rest ih =>
      obtain ⟨hoperand, hrest⟩ := List.forall_mem_cons.1 h
      have hone : Operands.expandOne ctx fs operand = [operand] := by
        rw [Operands.expandOne, hoperand]
        rfl
      rw [Operands.expand, List.flatMap_cons, hone, ← Operands.expand, ih hrest]
      rfl

/-- What a move of operands without patterns is made of. -/
theorem of_ofOperands (hplain : ∀ operand ∈ operands, Text.Glob.isPattern operand = false)
    (h : Transfer.ofOperands "mv" ctx fs operands = .ok t) :
    ∃ first rest last, operands = first :: rest ++ [last] ∧ t.sources = first :: rest ∧
      t.destination = last ∧ t.intoDirectory = fs.isDirectory (ctx.resolve last) ∧
      (fs.isDirectory (ctx.resolve last) = false → rest = []) := by
  unfold Transfer.ofOperands at h
  rw [expand_of_plain ctx fs hplain] at h
  match operands, h with
  | first :: second :: more, h =>
      obtain hnil | ⟨rest, last, hrest⟩ := List.eq_nil_or_concat' (second :: more)
      · cases hnil
      · dsimp only at h
        rw [hrest, ← List.cons_append]
        rw [hrest, ← List.cons_append, List.dropLast_concat, List.getLast?_concat,
          Option.getD_some] at h
        split at h
        · cases h
        · rename_i hone
          obtain rfl := Except.ok.inj h
          refine ⟨first, rest, last, rfl, rfl, rfl, rfl, fun hdirectory => ?_⟩
          simpa [hdirectory, List.length_eq_zero_iff] using hone

/-- The sources are moved one after the other when `mv` is run with operands alone. -/
theorem execute_mv (input : Option String)
    (hplain : ∀ operand ∈ operands,
      Arguments.isOperand operand = true ∧ Text.Glob.isPattern operand = false)
    (h : Transfer.ofOperands "mv" ctx fs operands = .ok t) :
    (execute ctx input ("mv" :: operands) fs).2 = movedInTurn ctx t t.sources fs := by
  have hparse : Arguments.parse (.flagsOnly "f") operands = .ok { Arguments.none with operands } :=
    Arguments.parseFrom_operands fun operand hoperand => (hplain operand hoperand).1
  have hmv : (mv : Command) ≠ superuser := by decide
  have hname : ofName? "mv" = some mv := ofName?_name mv
  rw [execute_of_ne ctx operands input hname hmv, guarded_snd]
  change left ((runMv ctx operands).run fs) = _
  rw [runMv, run_bind_of_ok (Action.run_arguments hparse fs), run_get_bind, h]
  dsimp only
  rw [EStateM.run_bind, movedInTurn]
  have hforce : Arguments.has { Arguments.none with operands } ['f'] = false := rfl
  rw [hforce]
  cases (Action.forEach t.sources (moveOne ctx t false)).run fs <;> rfl

end Turns

end Command

namespace Guard

open Command
open Redirection (effect?)

section

variable {ctx : Context} {critical : List String} {fs : FileSystem} {line path first last : String}
  {rest operands : List String} {s : Situation}

theorem any_targets {p : String → Bool} (hfs : s.fs = some fs) :
    (s.targets operands).any p = true ↔
      ∃ operand ∈ operands, fs.contains (s.resolve operand) = true ∧ p (s.resolve operand) = true := by
  rw [List.any_eq_true, Situation.targets, hfs]
  simp only [List.mem_filter, List.mem_map, Option.all_some]
  grind

/-- When the guard warns of a move of operands that do not look like flags. -/
theorem isSome_inspectMv_iff (hfs : s.fs = some fs)
    (hplain : ∀ operand ∈ first :: rest ++ [last], Arguments.isOperand operand = true) :
    (inspectMv s line (first :: rest ++ [last])).isSome = true ↔
      (fs.isFile (s.resolve last) = true ∧ isImportant (s.resolve last) = true) ∨
        ∃ source ∈ first :: rest, fs.contains (s.resolve source) = true ∧
          (s.isProtected (s.resolve source) = true ∨ s.isCritical (s.resolve source) = true) := by
  have hlength : ¬ (first :: rest ++ [last]).length < 2 := by simp
  unfold inspectMv
  rw [operandsOf_eq_self_iff.2 hplain]
  simp only [List.getLast?_concat, List.dropLast_concat, if_neg hlength, hfs, Option.any_some]
  have hsources : ∀ p : String → Bool, (s.targets (first :: rest)).any p = true ↔
      ∃ source ∈ first :: rest, fs.contains (s.resolve source) = true ∧ p (s.resolve source) = true :=
    fun p => any_targets hfs
  have hdanger : (∃ source ∈ first :: rest, fs.contains (s.resolve source) = true ∧
        (s.isProtected (s.resolve source) = true ∨ s.isCritical (s.resolve source) = true)) ↔
      (s.targets (first :: rest)).any s.isProtected = true ∨
        (s.targets (first :: rest)).any s.isCritical = true := by
    rw [hsources, hsources]
    grind
  rw [hdanger]
  split
  · simp_all
  · split
    · simp_all
    · split <;> simp_all

/-- What the guard knows where a command is run. -/
def Situation.ofContext (ctx : Context) (critical : List String) (fs : FileSystem) : Situation :=
  ⟨ctx.directory, ctx.username, critical, some fs⟩

theorem isDirectory_of_isFile (h : fs.isFile path = true) : fs.isDirectory path = false := by
  unfold FileSystem.isFile at h
  unfold FileSystem.isDirectory
  cases hfind : fs.find? path with
  | none => rfl
  | some node => simpa [hfind] using h

/-- A file that is overwritten by a move to its own path is a file now. -/
theorem isFile_of_overwrites
    (hplain : ∀ operand ∈ first :: rest ++ [last], Text.Glob.isPattern operand = false)
    (hdirectory : fs.isDirectory (ctx.resolve last) = false)
    (h : Overwrites ctx fs (first :: rest ++ [last]) path) :
    path = ctx.resolve last ∧ fs.isFile path = true := by
  obtain ⟨t, done, source, others, hoperands, hsources, rfl, hfile, -⟩ := h
  obtain ⟨first', rest', last', heq, hfrom, hto, hinto, hone⟩ := of_ofOperands hplain hoperands
  obtain ⟨-, hlast⟩ := List.append_inj' heq rfl
  obtain rfl : last = last' := List.singleton_inj.1 hlast
  -- Only one source is moved, and nothing has been moved before.
  rw [hfrom, hone hdirectory] at hsources
  obtain ⟨rfl, -⟩ : done = [] ∧ first' :: [] = source :: others := by
    cases done with
    | nil => exact ⟨rfl, hsources⟩
    | cons head tail => simp at hsources
  have htarget : t.target ctx (ctx.resolve source) = ctx.resolve last := by
    rw [Transfer.target, hinto, hdirectory, hto]
    rfl
  exact ⟨htarget, hfile⟩

/-- When the guard warns of a line that moves operands and redirects nothing. -/
theorem isSome_inspect_iff (hwords : commandWords line = "mv" :: operands)
    (heffect : effect? line = some .none) :
    (inspect s line).isSome = true ↔ (inspectMv s line operands).isSome = true := by
  have hcommand : inspectCommand s line ("mv" :: operands) = some (inspectMv s line operands) := by
    unfold inspectCommand
    dsimp only
    rw [if_neg (by decide), if_neg (by decide), if_neg (by decide), if_pos rfl]
  unfold inspect
  rw [hwords, hcommand, inspectOutput_of_effect? s heffect (by simp)]
  cases inspectMv s line operands <;> simp

/-- The guard warns of a line that overwrites a file by moving operands, without patterns and flags,
exactly if the last operand is not a directory and the file looks important, or if one of the sources is
protected or critical. -/
theorem overwriting_is_warned_of_iff (hwords : commandWords line = "mv" :: operands)
    (heffect : effect? line = some .none)
    (hplain : ∀ operand ∈ operands,
      Arguments.isOperand operand = true ∧ Text.Glob.isPattern operand = false)
    (hoverwrites : Overwrites ctx fs operands path) :
    (inspect (.ofContext ctx critical fs) line).isSome = true ↔
      ((∀ last ∈ operands.getLast?, fs.isDirectory (ctx.resolve last) = false) ∧
          isImportant path = true) ∨
        ∃ source ∈ operands.dropLast, fs.contains (ctx.resolve source) = true ∧
          ((Situation.ofContext ctx critical fs).isProtected (ctx.resolve source) = true ∨
            (Situation.ofContext ctx critical fs).isCritical (ctx.resolve source) = true) := by
  have hpattern : ∀ operand ∈ operands, Text.Glob.isPattern operand = false :=
    fun operand hoperand => (hplain operand hoperand).2
  obtain ⟨t, done, source, others, hoperands, -⟩ := id hoverwrites
  obtain ⟨first, rest, last, rfl, -⟩ := of_ofOperands hpattern hoperands
  rw [isSome_inspect_iff hwords heffect,
    isSome_inspectMv_iff rfl fun operand hoperand => (hplain operand hoperand).1,
    List.getLast?_concat, List.dropLast_concat]
  refine or_congr ?_ Iff.rfl
  simp only [Option.mem_some_iff, forall_eq']
  constructor
  · rintro ⟨hfile, himportant⟩
    have hdirectory : fs.isDirectory (ctx.resolve last) = false := isDirectory_of_isFile hfile
    obtain ⟨rfl, -⟩ := isFile_of_overwrites hpattern hdirectory hoverwrites
    exact ⟨hdirectory, himportant⟩
  · rintro ⟨hdirectory, himportant⟩
    obtain ⟨rfl, hfile⟩ := isFile_of_overwrites hpattern hdirectory hoverwrites
    exact ⟨hfile, himportant⟩

/-- A draft and notes in the root, other notes in a directory, and a list of hosts beside the one that
every adventure depends on. -/
def cabinet : FileSystem :=
  { FileSystem.empty "ada" 2 with
    entries :=
      [("draft", .file ⟨"ada", Permissions.newFile, 1⟩ ⟨#[1]⟩),
        ("notes.txt", .file ⟨"ada", Permissions.newFile, 1⟩ ⟨#[2]⟩),
        ("docs", .directory ⟨"ada", Permissions.newDirectory, 1⟩
          [("notes.txt", .file ⟨"ada", Permissions.newFile, 1⟩ ⟨#[3]⟩)]),
        ("hosts", .file ⟨"ada", Permissions.newFile, 1⟩ ⟨#[4]⟩),
        ("etc", .directory ⟨"ada", Permissions.newDirectory, 1⟩
          [("hosts", .file ⟨"ada", Permissions.newFile, 1⟩ ⟨#[5]⟩)])] }

/-- The guard warns of a draft that is moved to the notes. -/
theorem draft_over_notes_is_warned_of :
    commandWords "mv draft notes.txt" = "mv" :: ["draft", "notes.txt"] ∧
      effect? "mv draft notes.txt" = some .none ∧
      (∀ operand ∈ ["draft", "notes.txt"],
        Arguments.isOperand operand = true ∧ Text.Glob.isPattern operand = false) ∧
      Overwrites ⟨"/", "ada", false⟩ cabinet ["draft", "notes.txt"] "/notes.txt" ∧
      (inspect (.ofContext ⟨"/", "ada", false⟩ [] cabinet) "mv draft notes.txt").isSome = true := by
  have hwords : commandWords "mv draft notes.txt" = "mv" :: ["draft", "notes.txt"] := by
    decide +kernel
  have heffect : effect? "mv draft notes.txt" = some .none := by decide +kernel
  have hplain : ∀ operand ∈ ["draft", "notes.txt"],
      Arguments.isOperand operand = true ∧ Text.Glob.isPattern operand = false := by decide +kernel
  have hoverwrites : Overwrites ⟨"/", "ada", false⟩ cabinet ["draft", "notes.txt"] "/notes.txt" :=
    ⟨⟨["draft"], "notes.txt", false⟩, [], "draft", [], rfl, rfl, by decide +kernel, by decide +kernel,
      by decide +kernel, by decide +kernel⟩
  exact ⟨hwords, heffect, hplain, hoverwrites,
    (overwriting_is_warned_of_iff hwords heffect hplain hoverwrites).2
      (.inl ⟨by decide +kernel, by decide +kernel⟩)⟩

/-- The guard lets notes overwrite other notes in a directory, and hosts a critical file. -/
theorem notes_and_hosts_are_lost :
    (isImportant "/docs/notes.txt" = true ∧
      Overwrites ⟨"/", "ada", false⟩ cabinet ["notes.txt", "docs"] "/docs/notes.txt" ∧
      inspect (.ofContext ⟨"/", "ada", false⟩ [] cabinet) "mv notes.txt docs" = none) ∧
    touchesCritical criticalPaths "/etc/hosts" = true ∧
      Overwrites ⟨"/", "ada", false⟩ cabinet ["hosts", "/etc/hosts"] "/etc/hosts" ∧
      inspect (.ofContext ⟨"/", "ada", false⟩ [] cabinet) "mv hosts /etc/hosts" = none := by
  refine ⟨⟨by decide, ?_, by decide +kernel⟩, by decide, ?_, by decide +kernel⟩
  · exact ⟨⟨["notes.txt"], "docs", true⟩, [], "notes.txt", [], rfl, rfl, by decide +kernel,
      by decide +kernel, by decide +kernel, by decide +kernel⟩
  · exact ⟨⟨["hosts"], "/etc/hosts", false⟩, [], "hosts", [], rfl, rfl, by decide +kernel,
      by decide +kernel, by decide +kernel, by decide +kernel⟩

end

end Guard

end PracticeShell
