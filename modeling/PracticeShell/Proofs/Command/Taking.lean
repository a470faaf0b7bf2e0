import PracticeShell.Proofs.Command.Steps

/-!
# What commands take away

`taken` lists the operands that a command line can remove or move away, as they are after patterns
have been replaced. A place that lies neither at nor below one of them is there after the command
line if it was there before (`execute_stays`).
-/

namespace PracticeShell

open FileTree FileTree.Change Run

namespace FileTree.Change

/-- Whether a change takes what is at a place away. -/
def Takes : Change → List String → Prop
  | remove parent name, place => parent ++ [name] <+: place
  | move parent name _ _, place => parent ++ [name] <+: place
  | _, _ => False

/-- What is not taken away stays. -/
theorem isSome_faceAt_apply {fs : FileSystem} {c : Change} (hfits : c.Fits fs)
    {place : List String} (htakes : ¬ c.Takes place) (h : (fs.faceAt place).isSome) :
    ((c.apply fs).faceAt place).isSome := by
  cases c with
  | make parent name node =>
      rw [faceAt_make hfits]
      split
      · rename_i heq
        rw [heq] at h
        simpa using h
      · split <;> simp [h]
  | fill file contents =>
      rw [faceAt_fill hfits]
      split
      · rename_i heq
        rw [heq] at h
        simpa using h
      · exact h
  | mark marked f =>
      rw [faceAt_mark]
      split
      · rename_i heq
        rw [heq] at h
        simpa using h
      · exact h
  | remove parent name =>
      have hbelow : ¬ parent ++ [name] <+: place := htakes
      rw [faceAt_remove hfits, if_neg hbelow]
      split
      · rename_i heq
        rw [heq] at h
        simpa using h
      · exact h
  | move parent name newParent newName =>
      have hbelow : ¬ parent ++ [name] <+: place := htakes
      rw [faceAt_move hfits, if_neg hbelow]
      split
      · rename_i htarget
        obtain ⟨below, rfl⟩ := htarget
        obtain ⟨-, -, node, hnode, hreplace⟩ := hfits
        have hdrop : (newParent ++ [newName] ++ below).drop (newParent.length + 1) = below := by
          simp
        -- what is replaced has no entries, so only the target itself was there
        have hnil : below = [] := by
          rw [FileSystem.faceAt, Node.isSome_faceAt, Node.find?_append] at h
          cases hthere : fs.root.find? (newParent ++ [newName]) with
          | none => simp [hthere] at h
          | some there =>
              rw [hthere] at hreplace
              rw [hthere, Option.bind_some, Node.find?_of_entries_eq_nil hreplace.2] at h
              by_cases hbelow : below = []
              · exact hbelow
              · simp [hbelow] at h
        rw [hdrop, hnil, FileSystem.faceAt, Node.isSome_faceAt, hnode]
        rfl
      · simpa using h

end FileTree.Change

/-- Whether a place where there is something is one later too. -/
def Stays (place : List String) (fs later : FileSystem) : Prop :=
  (fs.faceAt place).isSome → (later.faceAt place).isSome

theorem lasting_stays (place : List String) : Lasting (Stays place) :=
  ⟨fun _ h => h, fun h h' hs => h' (h hs)⟩

theorem Stays.of_grows {fs later : FileSystem} (h : Reaches IsGrowth fs later)
    (place : List String) : Stays place fs later := by
  intro hthere
  obtain ⟨face, hface⟩ := Option.isSome_iff_exists.1 hthere
  obtain ⟨last, hlast, -⟩ := h.exists_faceAt hface
  rw [hlast]
  rfl

theorem Edit.Makes.stays {P : Change → Prop} {operation : Edit Unit} {fs : FileSystem}
    (h : Makes P operation fs) {place : List String} (hP : ∀ c, P c → ¬ c.Takes place) :
    Leads (Stays place) operation fs :=
  h.leads ((lasting_stays place).refl fs) fun c hc hfits => isSome_faceAt_apply hfits (hP c hc)

namespace Command

section

variable (ctx : Context) {place : List String} (fs : FileSystem)

theorem removeOne_stays (recursive force : Bool) {operand : String}
    (h : ¬ Path.segments (ctx.resolve operand) <+: place) :
    Leads (Stays place) (removeOne ctx recursive force operand) fs := by
  refine leads_removeOne_of ((lasting_stays place).refl fs) fun _ _ => ⟨?_, ?_⟩
  · refine (Edit.makes_unlink _ fs).stays ?_
    rintro c ⟨parent, name, hpath, rfl, -⟩
    rwa [hpath] at h
  · refine (Edit.makes_removeTree _ fs).stays ?_
    rintro c ⟨parent, name, hpath, rfl⟩
    rwa [hpath] at h

theorem removeDirectoryOne_stays {operand : String}
    (h : ¬ Path.segments (ctx.resolve operand) <+: place) :
    Leads (Stays place) (removeDirectoryOne ctx operand) fs := by
  refine leads_removeDirectoryOne_of ((lasting_stays place).refl fs) fun _ _ => ?_
  refine (Edit.makes_removeDirectory _ fs).stays ?_
  rintro c ⟨parent, name, a, hpath, rfl, -⟩
  rwa [hpath] at h

theorem moveOne_stays (transfer : Transfer) (force : Bool) {source : String}
    (h : ¬ Path.segments (ctx.resolve source) <+: place) :
    Leads (Stays place) (moveOne ctx transfer force source) fs := by
  have hrefl := (lasting_stays place).refl fs
  refine leads_moveOne_of hrefl fun _ _ => ?_
  rcases Edit.makes_rename (ctx.resolve source) (transfer.target ctx (ctx.resolve source)) fs with
    ⟨-, hrun⟩ | hmakes
  · rw [Leads, hrun]
    exact hrefl
  · refine hmakes.stays ?_
    rintro c ⟨parent, name, newParent, newName, hpath, -, rfl⟩
    rwa [hpath] at h

end

/-- The operands that a command can remove or move away. -/
def takenBy (c : Command) (ctx : Context) (fs : FileSystem) (arguments : List String) :
    List String :=
  match c with
  | rm =>
    match Arguments.parse (.flagsOnly "rRf") arguments with
    | .ok args => Operands.expand ctx fs args.operands
    | .error _ => []
  | rmdir =>
    match Arguments.parse (.flagsOnly "") arguments with
    | .ok args => args.operands
    | .error _ => []
  | mv =>
    match Arguments.parse (.flagsOnly "f") arguments with
    | .ok args =>
      match Transfer.ofOperands "mv" ctx fs args.operands with
      | .ok t => t.sources
      | .error _ => []
    | .error _ => []
  | _ => []

/-- The operands that a command line can remove or move away, now or after a password. -/
def taken (ctx : Context) (fs : FileSystem) : List String → List String
  | [] => []
  | name :: words =>
    match ofName? name with
    | none => []
    | some superuser => taken ctx fs words
    | some c => takenBy c ctx fs words

theorem resolve_elevate (ctx : Context) : ctx.elevate.resolve = ctx.resolve := rfl

theorem expand_elevate (ctx : Context) (fs : FileSystem) (operands : List String) :
    Operands.expand ctx.elevate fs operands = Operands.expand ctx fs operands := by
  have hone : Operands.expandOne ctx.elevate fs = Operands.expandOne ctx fs := by
    funext operand
    unfold Operands.expandOne
    rw [resolve_elevate]
  rw [Operands.expand, hone, Operands.expand]

theorem takenBy_elevate (c : Command) (ctx : Context) (fs : FileSystem) (words : List String) :
    takenBy c ctx.elevate fs words = takenBy c ctx fs words := by
  have htransfer : ∀ operands, Transfer.ofOperands "mv" ctx.elevate fs operands =
      Transfer.ofOperands "mv" ctx fs operands := by
    intro operands
    unfold Transfer.ofOperands
    rw [expand_elevate, resolve_elevate]
  unfold takenBy
  simp only [expand_elevate, htransfer]

/-- Who runs a line does not matter for what it takes. -/
theorem taken_elevate (ctx : Context) (fs : FileSystem) (words : List String) :
    taken ctx.elevate fs words = taken ctx fs words := by
  induction words with
  | nil => rfl
  | cons name words ih =>
      unfold taken
      simp only [ih, takenBy_elevate]

/-- When a line is run does not matter for what it takes. -/
theorem taken_at (ctx : Context) (fs : FileSystem) (now : Int) (words : List String) :
    taken ctx { fs with now } words = taken ctx fs words := by
  have hone : Operands.expandOne ctx { fs with now } = Operands.expandOne ctx fs := by
    funext operand
    unfold Operands.expandOne
    rw [show ({ fs with now } : FileSystem).names = fs.names from rfl]
  have hall : Operands.expand ctx { fs with now } = Operands.expand ctx fs := by
    funext operands
    rw [Operands.expand, hone, Operands.expand]
  have htransfer : Transfer.ofOperands "mv" ctx { fs with now } =
      Transfer.ofOperands "mv" ctx fs := by
    funext operands
    unfold Transfer.ofOperands
    rw [hall, show ({ fs with now } : FileSystem).isDirectory = fs.isDirectory from rfl]
  induction words with
  | nil => rfl
  | cons name words ih =>
      unfold taken takenBy
      rw [ih, hall, htransfer]

theorem taken_superuser (ctx : Context) (fs : FileSystem) (words : List String) :
    taken ctx fs ("sudo" :: words) = taken ctx fs words := by
  have hname : ofName? "sudo" = some superuser := by decide
  rw [taken, hname]

theorem taken_cd (ctx : Context) (fs : FileSystem) (words : List String) :
    taken ctx fs ("cd" :: words) = [] := by
  have hname : ofName? "cd" = some .cd := by decide
  rw [taken, hname]
  rfl

section

variable (ctx : Context) {place : List String} (words : List String) (input : Option String)
  (fs : FileSystem)

/-- What a command does not take stays. -/
theorem run_stays (c : Command)
    (h : ∀ operand ∈ takenBy c ctx fs words, ¬ Path.segments (ctx.resolve operand) <+: place) :
    Leads (Stays place) (c.run ctx words input) fs := by
  have hR := lasting_stays place
  cases hc : c.removes with
  | false => exact .of_grows (run_grows ctx words input fs hc) place
  | true =>
      cases c with
      | rm =>
          refine leads_runRm hR ctx words fs fun args hparse operand hoperand _ _ t =>
            removeOne_stays ctx t _ _ (h operand ?_)
          rw [takenBy, hparse]
          exact hoperand
      | rmdir =>
          refine leads_runRmdir hR ctx words fs fun args hparse operand hoperand t =>
            removeDirectoryOne_stays ctx t (h operand ?_)
          rw [takenBy, hparse]
          exact hoperand
      | mv =>
          refine leads_runMv hR ctx words fs fun args transfer hparse htransfer =>
            leads_forEach hR (fun source hsource t => moveOne_stays ctx t _ _ (h source ?_)) fs
          simp only [takenBy, hparse, htransfer]
          exact hsource
      | _ => simp [removes] at hc

/-- What a command line does not take stays. -/
theorem execute_stays
    (h : ∀ operand ∈ taken ctx fs words, ¬ Path.segments (ctx.resolve operand) <+: place) :
    Stays place fs (execute ctx input words fs).2 := by
  have hR := lasting_stays place
  induction words with
  | nil => exact hR.refl fs
  | cons text words ih =>
      cases hname : ofName? text with
      | none =>
          rw [execute_unknown ctx words input hname]
          exact hR.refl fs
      | some c =>
          by_cases hc : c = superuser
          · subst hc
            rw [execute_superuser ctx words input hname]
            simp only [taken, hname] at h
            split
            · exact hR.refl fs
            · split
              · exact ih h
              · exact hR.refl fs
          · rw [execute_of_ne ctx words input hname hc, guarded_snd]
            refine run_stays ctx words input fs c fun operand hoperand => h operand ?_
            rw [taken, hname]
            cases c <;> first | exact hoperand | exact absurd rfl hc

end

end Command

end PracticeShell
