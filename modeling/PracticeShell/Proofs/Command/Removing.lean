import PracticeShell.Proofs.Command.Taking

/-!
# What `rm` removes

With elevated rights and the flag for directories `rm` removes all that its operands mean, except the
root (`execute_rm_removes`).
-/

namespace PracticeShell

open FileTree FileTree.Change Run

/-- Whether a place where there is nothing is one later too. -/
def StaysGone (place : List String) (fs later : FileSystem) : Prop :=
  fs.faceAt place = none → later.faceAt place = none

theorem lasting_staysGone (place : List String) : Lasting (StaysGone place) :=
  ⟨fun _ h => h, fun h h' hs => h' (h hs)⟩

theorem staysGone_remove {fs : FileSystem} {parent : List String} {name : String}
    (hfits : Fits fs (remove parent name)) (place : List String) :
    StaysGone place fs (apply fs (remove parent name)) := by
  intro hgone
  rw [faceAt_remove hfits]
  split
  · rename_i hplace
    rw [← hplace, hgone]
    rfl
  · split
    · rfl
    · exact hgone

theorem faceAt_remove_below {fs : FileSystem} {parent place : List String} {name : String}
    (hfits : Fits fs (remove parent name)) (hbelow : parent ++ [name] <+: place) :
    (apply fs (remove parent name)).faceAt place = none := by
  rw [faceAt_remove hfits, if_neg, if_pos hbelow]
  rintro rfl
  exact not_append_prefix_self place name hbelow

namespace Edit

variable {fs : FileSystem} {path : String} {parent : List String} {name : String}

/-- What is there can be removed. -/
theorem run_removeTree (hpath : Path.segments path = parent ++ [name])
    (hthere : Fits fs (remove parent name)) :
    (removeTree path).run fs = .ok () (apply fs (remove parent name)) := by
  obtain ⟨a, es, hdir⟩ := FileSystem.exists_directory_of_any (any_isDirectory_of_isSome_append hthere)
  have hentry := find?_entry hdir name
  obtain ⟨node, hnode⟩ := Option.isSome_iff_exists.1 hthere
  simp [removeTree, run_parentOf hpath hdir, ← hentry, hnode, Change.apply]

/-- A file that is there can be removed. -/
theorem run_unlink (hpath : Path.segments path = parent ++ [name]) {a : Attributes}
    {contents : ByteArray} (hfile : fs.root.find? (parent ++ [name]) = some (.file a contents)) :
    (unlink path).run fs = .ok () (apply fs (remove parent name)) := by
  obtain ⟨b, es, hdir⟩ := FileSystem.exists_directory_of_any (any_isDirectory_of_isSome_append
    (by rw [hfile]; rfl : (fs.root.find? (parent ++ [name])).isSome))
  have hentry := find?_entry hdir name
  simp [unlink, run_parentOf hpath hdir, ← hentry, hfile, Change.apply]

end Edit

namespace Command

variable (ctx : Context) {place : List String} {operand : String}

theorem removeOne_staysGone (recursive force : Bool) (operand : String) (fs : FileSystem) :
    Leads (StaysGone place) (removeOne ctx recursive force operand) fs := by
  have hrefl := (lasting_staysGone place).refl fs
  refine leads_removeOne_of hrefl fun _ _ => ⟨?_, ?_⟩
  · refine (Edit.makes_unlink _ fs).leads hrefl ?_
    rintro c ⟨parent, name, -, rfl, -⟩ hfits
    exact staysGone_remove hfits place
  · refine (Edit.makes_removeTree _ fs).leads hrefl ?_
    rintro c ⟨parent, name, -, rfl⟩ hfits
    exact staysGone_remove hfits place

/-- With elevated rights nothing is left of what an operand means. -/
theorem removeOne_removes (hctx : ctx.elevated = true) (force : Bool)
    (habove : Path.segments (ctx.resolve operand) <+: place)
    (hroot : Path.segments (ctx.resolve operand) ≠ []) (fs : FileSystem) :
    (left ((removeOne ctx true force operand).run fs)).faceAt place = none := by
  have hne : ctx.resolve operand ≠ "/" := by
    intro heq
    exact hroot (by rw [heq]; decide)
  obtain ⟨parent, name, hpath⟩ : ∃ parent name,
      Path.segments (ctx.resolve operand) = parent ++ [name] :=
    ⟨_, _, (List.dropLast_concat_getLast hroot).symm⟩
  have hallowed : (Access.parentDenied ctx fs (ctx.resolve operand) ||
      Access.treeDenied ctx fs (ctx.resolve operand)) = false := by
    simp [Access.parentDenied, Access.treeDenied, Access.denied, hctx]
  unfold removeOne
  dsimp only
  rw [if_neg (by simp [hne]), run_get_bind, FileSystem.stat?, FileSystem.find?]
  rw [hpath] at habove ⊢
  cases hnode : fs.root.find? (parent ++ [name]) with
  | none =>
      obtain ⟨below, rfl⟩ := habove
      change fs.faceAt (parent ++ [name] ++ below) = none
      rw [FileSystem.faceAt, Node.faceAt_append, hnode]
      rfl
  | some node =>
      have hfits : Fits fs (remove parent name) := by simp [Fits, hnode]
      have hgone := faceAt_remove_below hfits habove
      rw [Option.map_some]
      dsimp only
      rw [if_neg (by simp), hallowed, if_neg Bool.false_ne_true]
      cases node with
      | directory a es =>
          have hrun := Edit.run_removeTree hpath hfits
          have hattempt := run_attempt (Edit.removeTree (ctx.resolve operand)) fs
          rw [hrun] at hattempt
          change (left (EStateM.run (Action.attempt (Edit.removeTree _) >>= _) fs)).faceAt place = none
          rwa [run_bind_of_ok hattempt]
      | file a contents =>
          have hrun := Edit.run_unlink hpath hnode
          have hattempt := run_attempt (Edit.unlink (ctx.resolve operand)) fs
          rw [hrun] at hattempt
          change (left (EStateM.run (Action.attempt (Edit.unlink _) >>= _) fs)).faceAt place = none
          rwa [run_bind_of_ok hattempt]

/-- Removing one node tells what is wrong and goes on. -/
theorem exists_run_removeOne (recursive force : Bool) (operand : String) (fs : FileSystem) :
    ∃ messages t, (removeOne ctx recursive force operand).run fs = .ok messages t := by
  have hremove : ∀ (operation : Edit Unit) (start : String), ∃ messages t,
      (do return messageOf start (← Action.attempt operation) : Action (List String)).run fs =
        .ok messages t := by
    intro operation start
    cases hrun : operation.run fs with
    | ok a t => exact ⟨_, t, run_bind_of_ok (by rw [run_attempt, hrun]) _⟩
    | error e t => exact ⟨_, t, run_bind_of_ok (by rw [run_attempt, hrun]) _⟩
  unfold removeOne
  dsimp only
  split
  · exact ⟨_, _, rfl⟩
  · rw [run_get_bind]
    cases fs.stat? (ctx.resolve operand) with
    | none => exact ⟨_, _, rfl⟩
    | some node =>
        dsimp only
        split
        · exact ⟨_, _, rfl⟩
        · split
          · exact ⟨_, _, rfl⟩
          · exact hremove _ _

/-- With elevated rights nothing is left of what one of the operands means. -/
theorem forEach_removes {operands : List String} (hctx : ctx.elevated = true) (force : Bool)
    (hoperand : operand ∈ operands) (habove : Path.segments (ctx.resolve operand) <+: place)
    (hroot : Path.segments (ctx.resolve operand) ≠ []) (fs : FileSystem) :
    (left ((Action.forEach operands (removeOne ctx true force)).run fs)).faceAt place = none := by
  have hrest : ∀ rest t, Leads (StaysGone place) (Action.forEach rest (removeOne ctx true force)) t :=
    fun rest => leads_forEach (lasting_staysGone place) fun o _ => removeOne_staysGone ctx true force o
  induction operands generalizing fs with
  | nil => simp at hoperand
  | cons first rest ih =>
      obtain ⟨messages, t, hrun⟩ := exists_run_removeOne ctx true force first fs
      rw [run_forEach_cons hrun]
      have hleft : (left ((Action.forEach rest (removeOne ctx true force)).run t)).faceAt place =
          none := by
        by_cases hlater : operand ∈ rest
        · exact ih hlater t
        · obtain rfl : operand = first := by simpa [hlater] using hoperand
          have hgone := removeOne_removes ctx hctx force habove hroot fs
          rw [hrun] at hgone
          exact hrest rest t hgone
      cases hothers : (Action.forEach rest (removeOne ctx true force)).run t <;>
        rwa [hothers] at hleft

/-- With elevated rights and the flag for directories nothing is left of what `rm` takes, except for
the root. -/
theorem execute_rm_removes {words : List String} {args : Arguments} {fs : FileSystem}
    (hctx : ctx.elevated = true) (hparse : Arguments.parse (.flagsOnly "rRf") words = .ok args)
    (hrecursive : args.has ['r', 'R'] = true)
    (hoperand : operand ∈ taken ctx fs (name rm :: words))
    (habove : Path.segments (ctx.resolve operand) <+: place)
    (hroot : Path.segments (ctx.resolve operand) ≠ []) (input : Option String) :
    (execute ctx input (name rm :: words) fs).2.faceAt place = none := by
  have hname : ofName? (name rm) = some rm := by decide
  rw [execute_of_ne ctx words input hname (by decide), guarded_snd]
  rw [taken, hname] at hoperand
  change operand ∈ takenBy rm ctx fs words at hoperand
  rw [takenBy, hparse] at hoperand
  change (left ((runRm ctx words).run fs)).faceAt place = none
  have hremoves := forEach_removes ctx hctx (args.has ['f']) hoperand habove hroot fs
  unfold runRm
  rw [run_bind_of_ok (Action.run_arguments hparse fs), run_get_bind]
  dsimp only
  rw [if_neg (by simpa using List.ne_nil_of_mem hoperand), hrecursive, EStateM.run_bind]
  split <;> rename_i hrun <;> rw [hrun] at hremoves <;> exact hremoves

end Command

end PracticeShell
