import PracticeShell.Proofs.Command.Steps
import PracticeShell.Proofs.Tree.BlindCopy
import PracticeShell.Proofs.Tree.Structure

/-!
# Commands do not look under the veil

Without elevated rights no command reads what the root user owns: each is `Blind`, so what it prints
and what it leaves behind depend on such files by their lengths only. The questions that commands
ask come first, with one lemma each, then the commands. So two file systems that are the same but for the
contents of files of the root user, and these of the same lengths, cannot be told apart without elevated
rights: by no command line, and by no sequence of them (`unprivileged_commands_conceal`).
-/

namespace PracticeShell

open FileTree FileTree.Change Run

namespace Operands

@[simp]
theorem expandOne_veil (ctx : Context) (fs : FileSystem) (operand : String) :
    expandOne ctx fs.veil operand = expandOne ctx fs operand := by
  simp [expandOne]

@[simp]
theorem expand_veil (ctx : Context) (fs : FileSystem) (operands : List String) :
    expand ctx fs.veil operands = expand ctx fs operands := by
  have hone : expandOne ctx fs.veil = expandOne ctx fs := funext (expandOne_veil ctx fs)
  rw [expand, hone, expand]

end Operands

theorem Action.IsFixed.blind {α : Type} {x : Action α} (h : IsFixed x) : Blind x := by
  intro fs hfs
  rcases h with ⟨a, rfl⟩ | ⟨e, rfl⟩
  · exact .pure hfs a
  · exact .throw hfs e

theorem Action.arguments_blind (rules : Arguments.Rules) (words : List String) :
    Blind (Action.arguments rules words) := (isFixed_arguments rules words).blind

namespace Command

section Questions

variable (ctx : Context) (fs : FileSystem)

@[simp]
theorem runCd_veil (words : List String) : runCd ctx words fs.veil = runCd ctx words fs := by
  simp [runCd]

@[simp]
theorem listTarget_veil (style : ListingStyle) (titled : Bool) :
    listTarget ctx fs.veil style titled = listTarget ctx fs style titled := by
  funext target
  simp [listTarget, listed]

theorem readOperand_veil (hctx : ctx.elevated = false) (operand : String) :
    readOperand ctx fs.veil operand = readOperand ctx fs operand := by
  rw [readOperand, readOperand, FileSystem.find?_veil]
  cases fs.find? (ctx.resolve operand) with
  | none => rfl
  | some node =>
      cases node with
      | directory => simp
      | file a bytes =>
          by_cases howner : a.owner = Context.rootUser
          · simp [howner, hctx]
          · simp [howner, veilContents_of_ne howner]

theorem readOperands_veil (hctx : ctx.elevated = false) (command : String)
    (operands : List String) :
    readOperands ctx fs.veil command operands = readOperands ctx fs command operands := by
  have hread : readOperand ctx fs.veil = readOperand ctx fs :=
    funext (readOperand_veil ctx fs hctx)
  rw [readOperands, hread, readOperands]

theorem windowPart_veil (hctx : ctx.elevated = false) (command : String) (w : Window)
    (titled : Bool) :
    windowPart ctx fs.veil command w titled = windowPart ctx fs command w titled := by
  funext operand
  rw [windowPart, readOperand_veil ctx fs hctx, windowPart]

mutual

theorem findFrom_veil (c : Criteria) (depth : Nat) (display : String) (node : Node) :
    findFrom ctx c depth display node.veil = findFrom ctx c depth display node := by
  cases node with
  | file a bytes => simp [findFrom, Criteria.accept, Node.isDirectory]
  | directory a es =>
      simp [findFrom, Criteria.accept, Node.isDirectory,
        findAmong_veil c (depth + 1) display es]

theorem findAmong_veil (c : Criteria) (depth : Nat) (display : String)
    (es : List (String × Node)) :
    findAmong ctx c depth display (Node.veilEntries es) = findAmong ctx c depth display es := by
  cases es with
  | nil => simp
  | cons entry rest =>
      obtain ⟨name, node⟩ := entry
      simp only [Node.veilEntries, findAmong]
      rw [findFrom_veil c depth _ node, findAmong_veil c depth display rest]

end

@[simp]
theorem findAt_veil (c : Criteria) : findAt ctx c fs.veil = findAt ctx c fs := by
  funext start
  rw [findAt, findAt, FileSystem.find?_veil]
  cases fs.find? (ctx.resolve start) with
  | none => rfl
  | some node => exact findFrom_veil ctx c 0 start node

@[simp]
theorem ofOperands_veil (command : String) (operands : List String) :
    Transfer.ofOperands command ctx fs.veil operands =
      Transfer.ofOperands command ctx fs operands := by
  simp [Transfer.ofOperands]

/-- In a proper tree the files that a walk meets are read where they were met. -/
theorem sourceBelow_veil (hctx : ctx.elevated = false) (hfs : fs.IsProper) (operand full : String)
    {nodes : List Stat} (hwalk : fs.walk full = .ok nodes) {node : Stat} (hnode : node ∈ nodes) :
    sourceBelow ctx fs.veil operand full node = sourceBelow ctx fs operand full node := by
  obtain ⟨there, hfind, howner⟩ := hfs.of_mem_walk hwalk hnode
  unfold sourceBelow
  split
  · rfl
  · cases hdenied : Access.denied ctx node with
    | true => rfl
    | false =>
        have hne : there.attributes.owner ≠ Context.rootUser := by
          rw [← howner]
          simpa [Access.denied, hctx] using hdenied
        have htext : fs.veil.text node.path = fs.text node.path := fs.text_veil fun other hother => by
          obtain rfl := Option.some.inj (hfind.symm.trans hother)
          exact hne
        rw [htext]

theorem sourceOf_veil (hctx : ctx.elevated = false) (hfs : fs.IsProper) (recursive : Bool)
    (operand : String) :
    sourceOf ctx fs.veil recursive operand = sourceOf ctx fs recursive operand := by
  unfold sourceOf
  dsimp only
  rw [FileSystem.stat?_veil, FileSystem.walk_veil]
  cases hstat : fs.stat? (ctx.resolve operand) with
  | none => rfl
  | some node =>
      dsimp only
      split
      · split
        · cases hwalk : fs.walk (ctx.resolve operand) with
          | error e => rfl
          | ok nodes =>
              have hbelow : nodes.map (sourceBelow ctx fs.veil operand (ctx.resolve operand)) =
                  nodes.map (sourceBelow ctx fs operand (ctx.resolve operand)) :=
                List.map_congr_left fun there hthere =>
                  sourceBelow_veil ctx fs hctx hfs operand _ hwalk hthere
              dsimp only
              rw [hbelow]
        · rfl
      · cases hdenied : Access.denied ctx node with
        | true => rfl
        | false =>
            have hne : node.owner ≠ Context.rootUser := by
              simpa [Access.denied, hctx] using hdenied
            have htext := fs.text_veil fun there hthere => by
              rw [FileSystem.stat?, hthere] at hstat
              obtain rfl := Option.some.inj hstat
              exact hne
            rw [htext]

end Questions

section Reading

variable {ctx : Context} (hctx : ctx.elevated = false) (words : List String)
  (input : Option String)

theorem runLs_blind : Blind (runLs ctx words) := by
  intro fs hfs
  refine .bind (Action.arguments_blind _ words fs hfs) fun args _ _ t ht => ?_
  exact .get_bind (by simp) (.pure ht _)

theorem runStat_blind : Blind (runStat ctx words) := by
  intro fs hfs
  refine .bind (Action.arguments_blind _ words fs hfs) fun args _ _ t ht => ?_
  refine .ite (fun _ => .pure ht _) fun _ => ?_
  exact .get_bind (by simp) (.pure ht _)

theorem runFind_blind : Blind (runFind ctx words) := by
  intro fs hfs
  unfold runFind
  dsimp only
  split
  · exact .pure hfs _
  · split
    · exact .pure hfs _
    · refine .bind ((isFixed_depthOf _).blind fs hfs) fun depth _ _ t ht => ?_
      cases depth with
      | error text => exact .pure ht _
      | ok depth => exact .get_bind (by simp) (.pure ht _)

include hctx

theorem runCat_blind : Blind (runCat ctx words input) := by
  intro fs hfs
  refine .bind (Action.arguments_blind _ words fs hfs) fun args _ _ t ht => .get_bind ?_ ?_
  · simp [readOperands_veil ctx t hctx]
  · dsimp only
    split <;> exact .pure ht _

theorem runWindow_blind (fromEnd : Bool) : Blind (runWindow fromEnd ctx words input) := by
  intro fs hfs
  refine .bind (Action.arguments_blind _ words fs hfs) fun args _ _ t ht => ?_
  refine .bind ((isFixed_windowOf fromEnd args).blind t ht) fun window _ _ u hu => ?_
  cases window with
  | error raw => exact .pure hu _
  | ok w =>
      refine .get_bind ?_ ?_
      · simp [windowPart_veil ctx u hctx]
      · dsimp only
        split <;> exact .pure hu _

theorem runWc_blind : Blind (runWc ctx words input) := by
  intro fs hfs
  refine .bind (Action.arguments_blind _ words fs hfs) fun args _ _ t ht => .get_bind ?_ ?_
  · simp [readOperands_veil ctx t hctx]
  · dsimp only
    split <;> exact .pure ht _

theorem runGrep_blind : Blind (runGrep ctx words input) := by
  intro fs hfs
  refine .bind (Action.arguments_blind _ words fs hfs) fun args _ _ t ht => ?_
  split
  · exact .pure ht _
  · have hsource : ∀ recursive, sourceOf ctx t.veil recursive = sourceOf ctx t recursive :=
      fun recursive => funext (sourceOf_veil ctx t hctx ht recursive)
    refine .get_bind ?_ ?_
    · simp [hsource]
    · dsimp only
      split
      · exact .pure ht _
      · exact .throw ht _
      · split <;> exact .pure ht _

end Reading

section Writing

variable {ctx : Context} (hctx : ctx.elevated = false) (words : List String)

theorem makeOne_blind (parents : Bool) (operand : String) :
    Blind (makeOne ctx parents operand) := by
  intro fs hfs
  refine .get_bind (by simp) (.ite (fun _ => .pure hfs _) fun _ => ?_)
  dsimp only
  refine .bind (.attempt ?_) fun _ _ _ t ht => .pure ht _
  cases parents
  · exact Edit.makeDirectory_blind _ _ _ fs hfs
  · exact Edit.makeDirectories_blind _ _ _ fs hfs

theorem touchOne_blind (operand : String) : Blind (touchOne ctx operand) := by
  intro fs hfs
  refine .get_bind (by simp) ?_
  dsimp only
  refine .ite (fun _ => .pure hfs _) fun _ => ?_
  exact .bind (.attempt (Edit.touch_blind _ _ fs hfs)) fun _ _ _ t ht => .pure ht _

theorem removeOne_blind (recursive force : Bool) (operand : String) :
    Blind (removeOne ctx recursive force operand) := by
  intro fs hfs
  refine .ite (fun _ => .pure hfs _) fun _ => .get_bind (by simp) ?_
  split
  · exact .pure hfs _
  · rename_i node _
    refine .ite (fun _ => .pure hfs _) fun _ => ?_
    refine .ite (fun _ => .pure hfs _) fun _ => ?_
    refine .bind (.attempt ?_) fun _ _ _ t ht => .pure ht _
    cases node.isDirectory
    · exact Edit.unlink_blind _ fs hfs
    · exact Edit.removeTree_blind _ fs hfs

theorem removeDirectoryOne_blind (operand : String) :
    Blind (removeDirectoryOne ctx operand) := by
  intro fs hfs
  refine .get_bind (by simp) (.ite (fun _ => .pure hfs _) fun _ => ?_)
  exact .bind (.attempt (Edit.removeDirectory_blind _ fs hfs)) fun _ _ _ t ht => .pure ht _

theorem moveOne_blind (transfer : Transfer) (force : Bool) (source : String) :
    Blind (moveOne ctx transfer force source) := by
  intro fs hfs
  refine .get_bind (by simp) ?_
  dsimp only
  split
  · exact .pure hfs _
  · refine .ite (fun _ => .pure hfs _) fun _ => ?_
    refine .ite (fun _ => .pure hfs _) fun _ => ?_
    exact .bind (.attempt (Edit.rename_blind _ _ fs hfs)) fun _ _ _ t ht => .pure ht _

@[simp]
theorem affected_veil (fs : FileSystem) (recursive : Bool) (full : String) :
    affected fs.veil recursive full = affected fs recursive full := by
  simp [affected]

theorem changeEach_blind (change : String) (places : List String) :
    Blind (changeEach change places) := by
  refine blind_forM fun path _ fs hfs => .get_bind (by simp) ?_
  dsimp only
  exact .bind (.attempt (Edit.setPermissions_blind _ _ fs hfs)) fun _ _ _ t ht => .pure ht _

theorem chmodOne_blind (recursive : Bool) (change target : String) :
    Blind (chmodOne ctx recursive change target) := by
  intro fs hfs
  refine .get_bind (by simp) (.ite (fun _ => .pure hfs _) fun _ => ?_)
  dsimp only
  refine .ite (fun _ => .pure hfs _) fun _ => ?_
  exact .bind (changeEach_blind change _ fs hfs) fun _ _ _ t ht => .pure ht _

theorem runMkdir_blind : Blind (runMkdir ctx words) := by
  intro fs hfs
  refine .bind (Action.arguments_blind _ words fs hfs) fun args _ _ t ht => ?_
  refine .ite (fun _ => .pure ht _) fun _ => ?_
  refine .bind (blind_forEach (fun operand _ => makeOne_blind _ operand) t ht) ?_
  exact fun _ _ _ u hu => .pure hu _

theorem runTouch_blind : Blind (runTouch ctx words) := by
  intro fs hfs
  refine .bind (Action.arguments_blind _ words fs hfs) fun args _ _ t ht => ?_
  refine .ite (fun _ => .pure ht _) fun _ => ?_
  refine .bind (blind_forEach (fun operand _ => touchOne_blind operand) t ht) ?_
  exact fun _ _ _ u hu => .pure hu _

theorem runRm_blind : Blind (runRm ctx words) := by
  intro fs hfs
  refine .bind (Action.arguments_blind _ words fs hfs) fun args _ _ t ht => .get_bind (by simp) ?_
  dsimp only
  refine .ite (fun _ => .pure ht _) fun _ => ?_
  refine .bind (blind_forEach (fun operand _ => removeOne_blind _ _ operand) t ht) ?_
  exact fun _ _ _ u hu => .pure hu _

theorem runRmdir_blind : Blind (runRmdir ctx words) := by
  intro fs hfs
  refine .bind (Action.arguments_blind _ words fs hfs) fun args _ _ t ht => ?_
  refine .ite (fun _ => .pure ht _) fun _ => ?_
  refine .bind (blind_forEach (fun operand _ => removeDirectoryOne_blind operand) t ht) ?_
  exact fun _ _ _ u hu => .pure hu _

theorem runMv_blind : Blind (runMv ctx words) := by
  intro fs hfs
  refine .bind (Action.arguments_blind _ words fs hfs) fun args _ _ t ht => .get_bind (by simp) ?_
  cases Transfer.ofOperands "mv" ctx t args.operands with
  | error message => exact .pure ht _
  | ok transfer =>
      refine .bind (blind_forEach (fun source _ => moveOne_blind transfer _ source) t ht) ?_
      exact fun _ _ _ u hu => .pure hu _

theorem runChmod_blind : Blind (runChmod ctx words) := by
  intro fs hfs
  unfold runChmod
  dsimp only
  split
  · refine .get_bind (by simp) (.ite (fun _ => .pure hfs _) fun _ => ?_)
    refine .bind (blind_forEach (fun target _ => chmodOne_blind _ _ target) fs hfs) ?_
    exact fun _ _ _ u hu => .pure hu _
  · exact .pure hfs _

include hctx

/-- A copy is made only of what the user may read. -/
theorem copyOne_blind (transfer : Transfer) (recursive : Bool) (source : String) :
    Blind (copyOne ctx transfer recursive source) := by
  intro fs hfs
  refine .get_bind (by simp) ?_
  dsimp only
  split
  · exact .pure hfs _
  · rename_i node _
    refine .ite (fun _ => .pure hfs _) fun _ => ?_
    refine .ite (fun _ => .pure hfs _) fun hdenied => ?_
    have howner : ∀ below there,
        fs.root.find? (Path.segments (ctx.resolve source) ++ below) = some there →
          there.attributes.owner ≠ Context.rootUser := fun below there =>
      Access.owner_ne_of_not_treeDenied hctx (by simpa using hdenied)
    refine .ite (fun _ => .pure hfs _) fun _ => ?_
    refine .ite (fun _ => .pure hfs _) fun _ => ?_
    refine .ite (fun _ => .pure hfs _) fun _ => ?_
    refine .bind (.attempt ?_) fun _ _ _ t ht => .pure ht _
    cases node.isDirectory
    · exact Edit.copyFile_blindAt hfs fun there hthere => howner [] there (by rwa [List.append_nil])
    · exact Edit.copyTree_blindAt hfs howner

theorem runCp_blind : Blind (runCp ctx words) := by
  intro fs hfs
  refine .bind (Action.arguments_blind _ words fs hfs) fun args _ _ t ht => .get_bind (by simp) ?_
  cases Transfer.ofOperands "cp" ctx t args.operands with
  | error message => exact .pure ht _
  | ok transfer =>
      refine .bind (blind_forEach (fun source _ => copyOne_blind hctx transfer _ source) t ht) ?_
      exact fun _ _ _ u hu => .pure hu _

/-- Without elevated rights no owner is changed. -/
theorem chownOne_blind (recursive : Bool) (owner target : String) :
    Blind (chownOne ctx recursive owner target) := by
  intro fs hfs
  refine .get_bind (by simp) (.ite (fun _ => .pure hfs _) fun _ => ?_)
  exact .ite (fun _ => .pure hfs _) fun helevated => absurd hctx (by simpa using helevated)

theorem runChown_blind : Blind (runChown ctx words) := by
  intro fs hfs
  refine .bind (Action.arguments_blind _ words fs hfs) fun args _ _ t ht => ?_
  split
  · refine .get_bind (by simp) ?_
    dsimp only
    refine .ite (fun _ => .pure ht _) fun _ => ?_
    refine .bind (blind_forEach (fun target _ => chownOne_blind hctx _ _ target) t ht) ?_
    exact fun _ _ _ u hu => .pure hu _
  · exact .pure ht _

end Writing

/-- Without elevated rights no command looks under the veil. -/
theorem run_blind {ctx : Context} (hctx : ctx.elevated = false) (words : List String)
    (input : Option String) (c : Command) : Blind (c.run ctx words input) := by
  cases c with
  | cd => exact fun fs hfs => .get_bind (by simp) (.pure hfs _)
  | pwd => exact fun fs hfs => .pure hfs _
  | ls => exact runLs_blind words
  | cat => exact runCat_blind hctx words input
  | mkdir => exact runMkdir_blind words
  | touch => exact runTouch_blind words
  | rm => exact runRm_blind words
  | rmdir => exact runRmdir_blind words
  | cp => exact runCp_blind hctx words
  | mv => exact runMv_blind words
  | echo => exact fun fs hfs => .pure hfs _
  | grep => exact runGrep_blind hctx words input
  | find => exact runFind_blind words
  | head => exact runWindow_blind hctx words input false
  | tail => exact runWindow_blind hctx words input true
  | wc => exact runWc_blind hctx words input
  | clear => exact fun fs hfs => .pure hfs _
  | whoami => exact fun fs hfs => .pure hfs _
  | chmod => exact runChmod_blind words
  | chown => exact runChown_blind hctx words
  | stat => exact runStat_blind words
  | superuser => exact fun fs hfs => .pure hfs _

end Command

namespace Command

/-- A command line with all that it is run with. -/
structure Invocation where
  context : Context
  input : Option String
  words : List String
deriving DecidableEq, Repr

/-- Runs command lines one after the other. -/
def executeAll : List Invocation → StateM FileSystem (List Outcome)
  | [] => return []
  | i :: rest => do
    let outcome ← execute i.context i.input i.words
    return outcome :: (← executeAll rest)

@[simp]
theorem executeAll_nil (fs : FileSystem) : executeAll [] fs = ([], fs) := rfl

theorem executeAll_cons (i : Invocation) (rest : List Invocation) (fs : FileSystem) :
    executeAll (i :: rest) fs =
      let (outcome, fs) := execute i.context i.input i.words fs
      let (outcomes, fs) := executeAll rest fs
      (outcome :: outcomes, fs) := rfl

/-- Command lines keep a file system proper. -/
theorem isProper_execute (ctx : Context) (input : Option String) (words : List String)
    {fs : FileSystem} (hfs : fs.IsProper) : (execute ctx input words fs).2.IsProper :=
  hfs.of_reaches (execute_reaches ctx words input fs)

theorem guarded_veil {name : String} {action : Action Outcome} (h : Blind action)
    {fs other : FileSystem} (hfs : fs.IsProper) (hveil : fs.veil = other.veil) :
    (guarded name action fs).1 = (guarded name action other).1 ∧
      (guarded name action fs).2.veil = (guarded name action other).2.veil := by
  have hsame := h.hide_eq hfs hveil
  unfold EStateM.run at hsame
  unfold guarded
  cases hx : action fs <;> cases hy : action other <;> rw [hx, hy] at hsame <;>
    simp_all

/-- One command line without elevated rights, from two file systems that are the same under the
veil. -/
theorem execute_veil {ctx : Context} (hctx : ctx.elevated = false) (input : Option String)
    (words : List String) {fs other : FileSystem} (hfs : fs.IsProper)
    (hveil : fs.veil = other.veil) :
    (execute ctx input words fs).1 = (execute ctx input words other).1 ∧
      (execute ctx input words fs).2.veil = (execute ctx input words other).2.veil := by
  cases words with
  | nil => exact ⟨rfl, hveil⟩
  | cons name words =>
      cases hname : ofName? name with
      | none =>
          rw [execute_unknown ctx words input hname]
          exact ⟨rfl, hveil⟩
      | some c =>
          by_cases hc : c = superuser
          · subst hc
            rw [execute_superuser ctx words input hname, hctx]
            split <;> exact ⟨rfl, hveil⟩
          · rw [execute_of_ne ctx words input hname hc]
            exact guarded_veil (run_blind hctx words input c) hfs hveil

/-- Without elevated rights nobody learns the contents of what the root user owns: command lines
end in the same way on file systems that are the same but for such contents, of the same lengths,
and what they leave behind is again the same but for such contents. -/
theorem unprivileged_commands_conceal {fs other : FileSystem} (hfs : fs.IsProper)
    (hveil : fs.veil = other.veil) :
    (∀ ctx input words, ctx.elevated = false →
      (execute ctx input words fs).1 = (execute ctx input words other).1 ∧
        (execute ctx input words fs).2.veil = (execute ctx input words other).2.veil) ∧
      ∀ run : List Invocation, (∀ i ∈ run, i.context.elevated = false) →
        (executeAll run fs).1 = (executeAll run other).1 ∧
          (executeAll run fs).2.veil = (executeAll run other).2.veil := by
  refine ⟨fun ctx input words hctx => execute_veil hctx input words hfs hveil, ?_⟩
  intro run hrun
  induction run generalizing fs other with
  | nil => exact ⟨rfl, hveil⟩
  | cons i rest ih =>
      obtain ⟨houtcome, hnext⟩ :=
        execute_veil (hrun i (by simp)) i.input i.words hfs hveil
      have hproper := isProper_execute i.context i.input i.words hfs
      obtain ⟨houtcomes, hlast⟩ := ih hproper hnext fun j hj => hrun j (by simp [hj])
      rw [executeAll_cons, executeAll_cons]
      refine ⟨?_, hlast⟩
      change _ :: _ = _ :: _
      rw [houtcome, houtcomes]

/-- A file system whose root directory holds a file of the root user. -/
def withSecret (contents : ByteArray) : FileSystem where
  name := ""
  attributes := ⟨"ada", Permissions.newDirectory, 0⟩
  entries := [("secret", .file ⟨Context.rootUser, Permissions.newFile, 0⟩ contents)]
  defaultOwner := "ada"
  now := 0

/-- Two secrets of one length are not told apart by printing, searching and copying. -/
theorem commands_conceal_secret :
    let here : Context := ⟨"/", "ada", false⟩
    let run : List Invocation := [⟨here, none, ["cat", "secret"]⟩,
      ⟨here, none, ["grep", "-r", "a", "."]⟩, ⟨here, none, ["cp", "secret", "copy"]⟩]
    (withSecret ⟨#[1, 2, 3]⟩).IsProper ∧
      (withSecret ⟨#[1, 2, 3]⟩).veil = (withSecret ⟨#[4, 5, 6]⟩).veil ∧
      (executeAll run (withSecret ⟨#[1, 2, 3]⟩)).1 = (executeAll run (withSecret ⟨#[4, 5, 6]⟩)).1 := by
  intro here run
  have hveil : (withSecret ⟨#[1, 2, 3]⟩).veil = (withSecret ⟨#[4, 5, 6]⟩).veil := by rfl
  have hproper : (withSecret ⟨#[1, 2, 3]⟩).IsProper := by decide
  exact ⟨hproper, hveil, ((unprivileged_commands_conceal hproper hveil).2 run (by decide)).1⟩

end Command

end PracticeShell
