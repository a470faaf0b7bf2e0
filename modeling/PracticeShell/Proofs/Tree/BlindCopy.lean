import PracticeShell.Proofs.Places
import PracticeShell.Proofs.Tree.Blind
import PracticeShell.Proofs.Tree.Walk

/-!
# Copying without looking under the veil

A copy of a directory is blind if nothing in the directory is the root user's. What is copied can
come to lie in the directory while it is being copied, and may then be the root user's, so two runs
are compared in step: they `Agree` at each point on everything in the directory, and on the rest
under the veil.
-/

namespace PracticeShell

open FileTree FileTree.Change Run

/-- Whether two file systems are the same under the veil and, at a place and below it, without it. -/
structure Agree (place : List String) (fs other : FileSystem) : Prop where
  veil : fs.veil = other.veil
  face : ∀ below, fs.faceAt (place ++ below) = other.faceAt (place ++ below)

/-- Whether two runs end in the same way, with file systems that agree. -/
def Alike {ε α : Type} (place : List String) :
    EStateM.Result ε FileSystem α → EStateM.Result ε FileSystem α → Prop
  | .ok a s, .ok b t => a = b ∧ Agree place s t
  | .error e s, .error d t => e = d ∧ Agree place s t
  | _, _ => False

variable {place : List String} {s t : FileSystem}

theorem Agree.now (h : Agree place s t) : s.now = t.now := by
  rw [← FileSystem.now_veil, h.veil, FileSystem.now_veil]

theorem Agree.find?_veil (h : Agree place s t) (other : List String) :
    (s.root.find? other).map Node.veil = (t.root.find? other).map Node.veil := by
  rw [← Node.find?_veil, ← Node.find?_veil, ← FileSystem.root_veil, ← FileSystem.root_veil, h.veil]

theorem Agree.isDirectory (h : Agree place s t) (path : String) :
    s.isDirectory path = t.isDirectory path := by
  rw [← FileSystem.isDirectory_veil, h.veil, FileSystem.isDirectory_veil]

theorem Agree.names (h : Agree place s t) (path : String) : s.names path = t.names path := by
  rw [← FileSystem.names_veil, h.veil, FileSystem.names_veil]

/-- The same growth on both sides keeps file systems in agreement. -/
theorem Agree.apply (h : Agree place s t) {c : Change} (hc : c.KeepsOwners) (hgrowth : c.IsGrowth)
    (hs : c.Fits s) (ht : c.Fits t) : Agree place (c.apply s) (c.apply t) := by
  refine ⟨?_, fun below => ?_⟩
  · rw [← veil_apply s hc, h.veil, veil_apply t hc]
  · have hface := h.face below
    cases c with
    | make parent name node =>
        rw [faceAt_make hs, faceAt_make ht, h.now]
        split
        · rename_i hparent
          rw [← hparent, hface]
        · rw [hface]
    | fill file contents =>
        rw [faceAt_fill hs, faceAt_fill ht, h.now]
        split
        · rename_i hfile
          rw [← hfile, hface]
        · exact hface
    | mark marked f =>
        rw [faceAt_mark, faceAt_mark]
        split
        · rename_i hmarked
          rw [← hmarked, hface]
        · exact hface
    | remove => exact absurd hgrowth (by simp [IsGrowth])
    | move => exact absurd hgrowth (by simp [IsGrowth])

namespace Alike

variable {ε α β : Type}

theorem bind {x y : EStateM ε FileSystem α} {f g : α → EStateM ε FileSystem β}
    (hxy : Alike place (x.run s) (y.run t))
    (hfg : ∀ a s' t', Agree place s' t' → x.run s = .ok a s' →
      Alike place ((f a).run s') ((g a).run t')) :
    Alike place ((x >>= f).run s) ((y >>= g).run t) := by
  rw [EStateM.run_bind, EStateM.run_bind]
  cases hx : x.run s with
  | ok a s' =>
      cases hy : y.run t with
      | ok b t' =>
          rw [hx, hy] at hxy
          obtain ⟨rfl, hagree⟩ := hxy
          exact hfg a s' t' hagree hx
      | error e t' =>
          rw [hx, hy] at hxy
          exact hxy.elim
  | error e s' =>
      cases hy : y.run t with
      | ok b t' =>
          rw [hx, hy] at hxy
          exact hxy.elim
      | error d t' => rwa [hx, hy] at hxy

theorem forM {l : List β} {f : β → EStateM ε FileSystem PUnit}
    (h : ∀ b ∈ l, ∀ s t, Agree place s t → s.IsProper → Alike place ((f b).run s) ((f b).run t))
    (hproper : ∀ b ∈ l, ∀ s, s.IsProper → (left ((f b).run s)).IsProper)
    (hagree : Agree place s t) (hs : s.IsProper) :
    Alike place ((l.forM f).run s) ((l.forM f).run t) := by
  induction l generalizing s t with
  | nil => exact ⟨rfl, hagree⟩
  | cons b l ih =>
      change Alike place ((f b >>= fun _ => l.forM f).run s) ((f b >>= fun _ => l.forM f).run t)
      refine bind (h b (by simp) s t hagree hs) fun _ s' t' hagree' hrun => ?_
      have hs' := hproper b (by simp) s hs
      rw [hrun] at hs'
      exact ih (fun c hc => h c (by simp [hc])) (fun c hc => hproper c (by simp [hc])) hagree' hs'

/-- Runs that are the same under the veil and make the same growth. -/
theorem of_makes {operation : Edit Unit} {P Q : Change → Prop} (hagree : Agree place s t)
    (hsame : hide (operation.run s) = hide (operation.run t)) (hs : Edit.Makes P operation s)
    (ht : Edit.Makes Q operation t)
    (hchange : ∀ c d, P c → Q d → c.Fits s → d.Fits t → c = d ∧ c.KeepsOwners ∧ c.IsGrowth) :
    Alike place (operation.run s) (operation.run t) := by
  rcases hs with ⟨e, hs⟩ | ⟨c, hc, hfits, hs⟩ <;> rcases ht with ⟨d, ht⟩ | ⟨d, hd, hfits', ht⟩
  · rw [hs, ht] at hsame ⊢
    simp only [hide_error, EStateM.Result.error.injEq] at hsame
    exact ⟨hsame.1, hagree⟩
  · rw [hs, ht] at hsame
    simp at hsame
  · rw [hs, ht] at hsame
    simp at hsame
  · obtain ⟨rfl, howners, hgrowth⟩ := hchange c d hc hd hfits hfits'
    rw [hs, ht]
    exact ⟨rfl, hagree.apply howners hgrowth hfits hfits'⟩

end Alike

namespace Edit

theorem makeDirectory_alike (hagree : Agree place s t) (hs : s.IsProper) (path : String)
    (permissions : Permissions) (owner : Option String) :
    Alike place ((makeDirectory path permissions owner).run s)
      ((makeDirectory path permissions owner).run t) := by
  refine .of_makes hagree ((makeDirectory_blind path permissions owner).hide_eq hs hagree.veil)
    (makes_makeDirectory path permissions owner s) (makes_makeDirectory path permissions owner t) ?_
  rintro c d ⟨parent, name, hpath, rfl⟩ ⟨parent', name', hpath', rfl⟩ - -
  obtain ⟨rfl, rfl⟩ : parent = parent' ∧ name = name' := by simpa using hpath.symm.trans hpath'
  have howner : ownerOr owner s = ownerOr owner t := by
    rw [← ownerOr_veil, hagree.veil, ownerOr_veil]
  exact ⟨by rw [howner, hagree.now], trivial, isSegment_last hpath⟩

theorem write_alike (hagree : Agree place s t) (hs : s.IsProper) (path : String)
    (bytes : ByteArray) (owner : Option String) (permissions : Permissions) :
    Alike place ((write path bytes owner permissions).run s)
      ((write path bytes owner permissions).run t) := by
  refine .of_makes hagree ((write_blind path bytes owner permissions).hide_eq hs hagree.veil)
    (makes_write path bytes owner permissions s) (makes_write path bytes owner permissions t) ?_
  have hthere : (s.root.find? (Path.segments path)).isSome =
      (t.root.find? (Path.segments path)).isSome := by
    have h := congrArg Option.isSome (hagree.find?_veil (Path.segments path))
    simpa using h
  have howner : ownerOr owner s = ownerOr owner t := by
    rw [← ownerOr_veil, hagree.veil, ownerOr_veil]
  have hnot : ∀ {u : FileSystem} {parent name node}, Path.segments path = parent ++ [name] →
      Fits u (.make parent name node) → (u.root.find? (Path.segments path)).isSome = false := by
    intro u parent name node hpath hfits
    rw [hpath, hfits.2.1]
    rfl
  have hfile : ∀ {u : FileSystem}, Fits u (.fill (Path.segments path) bytes) →
      (u.root.find? (Path.segments path)).isSome = true := by
    intro u hfits
    obtain ⟨node, hnode, -⟩ := (Option.any_eq_true _ _).1 hfits
    rw [hnode]
    rfl
  rintro c d (⟨parent, name, hpath, rfl⟩ | rfl) (⟨parent', name', hpath', rfl⟩ | rfl) hc hd
  · obtain ⟨rfl, rfl⟩ : parent = parent' ∧ name = name' := by simpa using hpath.symm.trans hpath'
    exact ⟨by rw [howner, hagree.now], trivial, isSegment_last hpath⟩
  · rw [hnot hpath hc, hfile hd] at hthere
    exact absurd hthere (by simp)
  · rw [hfile hc, hnot hpath' hd] at hthere
    exact absurd hthere (by simp)
  · exact ⟨rfl, trivial, trivial⟩

/-- What is copied lies where the file systems agree without the veil. -/
theorem copyFile_alike (hagree : Agree place s t) (hs : s.IsProper) {source : String}
    (hsource : place <+: Path.segments source) (target : String) (owner : Option String) :
    Alike place ((copyFile source target owner).run s) ((copyFile source target owner).run t) := by
  obtain ⟨below, hbelow⟩ := hsource
  have hface := hagree.face below
  rw [hbelow, FileSystem.faceAt, FileSystem.faceAt, Node.faceAt, Node.faceAt, ← FileSystem.find?,
    ← FileSystem.find?] at hface
  cases hnode : s.find? source with
  | none =>
      have hother : t.find? source = none := by simpa [hnode] using hface.symm
      simp only [copyFile, EStateM.run_bind, EStateM.run_get, hnode, hother, run_throw]
      exact ⟨rfl, hagree⟩
  | some node =>
      rw [hnode] at hface
      obtain ⟨other, hother, hsame⟩ := Option.map_eq_some_iff.1 hface.symm
      cases node with
      | directory a es =>
          cases other with
          | file => simp at hsame
          | directory =>
              simp only [copyFile, EStateM.run_bind, EStateM.run_get, hnode, hother, run_throw]
              exact ⟨rfl, hagree⟩
      | file a bytes =>
          cases other with
          | directory => simp at hsame
          | file b contents =>
              obtain ⟨rfl, rfl⟩ : b = a ∧ contents = bytes := by simpa using hsame
              simp only [copyFile, EStateM.run_bind, EStateM.run_get, hnode, hother]
              exact write_alike hagree hs target _ owner _

theorem copyNode_proper (owner : Option String) (levels : Nat) (source target : String)
    (fs : FileSystem) (hfs : fs.IsProper) :
    (left ((copyNode owner levels source target).run fs)).IsProper :=
  hfs.of_grows (leads_copyNode (lasting_reaches IsGrowth)
    (fun path permissions fs => makeDirectory_grows fs path permissions owner)
    (fun source target fs => copyFile_grows fs source target owner) levels source target fs)

theorem copyEntries_alike {copy : String → String → Edit Unit}
    (hproper : ∀ source target fs, fs.IsProper → (left ((copy source target).run fs)).IsProper)
    (hcopy : ∀ {source target s t}, Agree place s t → s.IsProper →
      place <+: Path.segments source →
      Alike place ((copy source target).run s) ((copy source target).run t))
    {source : String} (target : String) (hagree : Agree place s t) (hs : s.IsProper)
    (hsource : place <+: Path.segments source) :
    Alike place ((copyEntries copy source target).run s)
      ((copyEntries copy source target).run t) := by
  refine .bind ?_ fun names s' t' hagree' hrun => ?_
  · rw [run_ask, run_ask, hagree.names source]
    cases t.names source <;> exact ⟨rfl, hagree⟩
  · rw [run_ask] at hrun
    cases hnames : s.names source with
    | error e => simp [hnames] at hrun
    | ok found =>
        obtain ⟨rfl, rfl⟩ : found = names ∧ s = s' := by simpa [hnames] using hrun
        refine .forM (fun name hname u v huv hu => ?_)
          (fun name _ u hu => hproper _ _ u hu) hagree' hs
        refine hcopy huv hu ?_
        rw [Path.segments_entryPath source ((hs.names hnames).2 name hname)]
        exact hsource.trans (List.prefix_append _ _)

theorem copyNode_alike (owner : Option String) (levels : Nat) {source target : String}
    (hagree : Agree place s t) (hs : s.IsProper) (hsource : place <+: Path.segments source) :
    Alike place ((copyNode owner levels source target).run s)
      ((copyNode owner levels source target).run t) := by
  induction levels generalizing source target s t with
  | zero => exact ⟨rfl, hagree⟩
  | succ levels ih =>
      have hentries : ∀ {u v}, Agree place u v → u.IsProper →
          Alike place ((copyEntries (copyNode owner levels) source target).run u)
            ((copyEntries (copyNode owner levels) source target).run v) := fun huv hu =>
        copyEntries_alike (copyNode_proper owner levels) ih target huv hu hsource
      obtain ⟨below, hbelow⟩ := id hsource
      have hface := hagree.face below
      rw [hbelow, FileSystem.faceAt, FileSystem.faceAt, Node.faceAt, Node.faceAt,
        ← FileSystem.find?, ← FileSystem.find?] at hface
      rw [run_copyNode_succ, run_copyNode_succ]
      cases hnode : s.find? source with
      | none =>
          have hother : t.find? source = none := by simpa [hnode] using hface.symm
          rw [hother]
          exact ⟨rfl, hagree⟩
      | some node =>
          rw [hnode] at hface
          obtain ⟨other, hother, hsame⟩ := Option.map_eq_some_iff.1 hface.symm
          rw [hother]
          cases node with
          | file a bytes =>
              cases other with
              | directory => simp at hsame
              | file => exact copyFile_alike hagree hs hsource target owner
          | directory a es =>
              cases other with
              | file => simp at hsame
              | directory b es' =>
                  obtain ⟨rfl, -⟩ : b = a ∧ _ := by simpa using hsame
                  dsimp only
                  rw [hagree.isDirectory target]
                  split
                  · exact hentries hagree hs
                  · refine .bind (makeDirectory_alike hagree hs target _ owner) ?_
                    intro _ s' t' hagree' hrun
                    have hs' := hs.of_grows (makeDirectory_grows s target b.permissions owner)
                    rw [hrun] at hs'
                    exact hentries hagree' hs'

/-- Copying a file or a directory is blind where nothing at or below it is the root user's. -/
theorem copyTree_blindAt {source target : String} {owner : Option String} {fs : FileSystem}
    (hfs : fs.IsProper)
    (h : ∀ below node, fs.root.find? (Path.segments source ++ below) = some node →
      node.attributes.owner ≠ Context.rootUser) :
    BlindAt fs (copyTree source target owner) := by
  refine ⟨?_, hfs.of_grows (copyTree_grows fs source target owner)⟩
  have hagree : Agree (Path.segments source) fs.veil fs := by
    refine ⟨FileSystem.veil_veil fs, fun below => ?_⟩
    rw [FileSystem.faceAt, FileSystem.faceAt, Node.faceAt, Node.faceAt, FileSystem.root_veil,
      Node.find?_veil]
    cases hnode : fs.root.find? (Path.segments source ++ below) with
    | none => rfl
    | some node =>
        cases node with
        | directory => simp
        | file a contents =>
            have hne : a.owner ≠ Context.rootUser := h below _ hnode
            simp [veilContents_of_ne hne]
  have hrun : ∀ u : FileSystem, (copyTree source target owner).run u =
      (copyNode owner (copyLevels u source) source target).run u := fun u => rfl
  have hlevels : copyLevels fs.veil source = copyLevels fs source := by
    rw [copyLevels, copyLevels, FileSystem.find?_veil, Option.map_map]
    congr 3
    funext node
    exact Node.height_veil node
  have halike : Alike (Path.segments source)
      ((copyNode owner (copyLevels fs source) source target).run fs.veil)
      ((copyNode owner (copyLevels fs source) source target).run fs) :=
    copyNode_alike owner _ hagree (FileSystem.isProper_veil_iff.2 hfs) List.prefix_rfl
  rw [hrun, hrun, hlevels]
  cases hveil : (copyNode owner (copyLevels fs source) source target).run fs.veil <;>
    cases hplain : (copyNode owner (copyLevels fs source) source target).run fs <;>
    rw [hveil, hplain] at halike
  · rw [hide_ok, hide_ok, halike.2.veil]
  · exact halike.elim
  · exact halike.elim
  · rw [hide_error, hide_error, halike.1, halike.2.veil]

end Edit

end PracticeShell
