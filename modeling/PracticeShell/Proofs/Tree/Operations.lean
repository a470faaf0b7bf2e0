import PracticeShell.FileTree.Copy
import PracticeShell.Proofs.Run
import PracticeShell.Proofs.Tree.Change

/-!
# What operations change

An operation either fails and leaves the file system as it is, or makes one `Change` that fits it;
`Makes` says this together with what is known of the change. There is one lemma for each operation, named
for it, and everything that is proved of operations goes through these.
-/

namespace PracticeShell.Edit

open FileTree Run

/-- Whether an operation, run on a file system, fails and leaves it as it is, or makes one change
that fits it and has `P`. -/
def Makes (P : Change → Prop) (operation : Edit Unit) (fs : FileSystem) : Prop :=
  (∃ e, operation.run fs = .error e fs) ∨
    ∃ c, P c ∧ c.Fits fs ∧ operation.run fs = .ok () (c.apply fs)

namespace Makes

variable {P Q : Change → Prop} {operation : Edit Unit} {fs : FileSystem}

theorem imp (h : Makes P operation fs) (hPQ : ∀ c, c.Fits fs → P c → Q c) :
    Makes Q operation fs :=
  h.imp_right fun ⟨c, hc, hfits, hrun⟩ => ⟨c, hPQ c hfits hc, hfits, hrun⟩

/-- What an operation leads to is decided by the change that it makes. -/
theorem leads {R : FileSystem → FileSystem → Prop} (h : Makes P operation fs) (hrefl : R fs fs)
    (hstep : ∀ c, P c → c.Fits fs → R fs (c.apply fs)) : Leads R operation fs := by
  unfold Leads
  rcases h with ⟨e, hrun⟩ | ⟨c, hc, hfits, hrun⟩
  · rwa [hrun]
  · rw [hrun]
    exact hstep c hc hfits

theorem eq_of_error {later : FileSystem} {e : FileTree.Error} (h : Makes P operation fs)
    (hrun : operation.run fs = .error e later) : later = fs := by
  rcases h with ⟨d, hfails⟩ | ⟨c, -, -, hok⟩
  · rw [hfails] at hrun
    exact (EStateM.Result.error.inj hrun).2.symm
  · rw [hok] at hrun
    cases hrun

/-- An operation that has succeeded has made its change. -/
theorem of_ok {later : FileSystem} (h : Makes P operation fs)
    (hrun : operation.run fs = .ok () later) : ∃ c, P c ∧ c.Fits fs ∧ later = c.apply fs := by
  rcases h with ⟨e, hfails⟩ | ⟨c, hc, hfits, hok⟩
  · rw [hfails] at hrun
    cases hrun
  · rw [hok] at hrun
    exact ⟨c, hc, hfits, (EStateM.Result.ok.inj hrun).2.symm⟩

end Makes

section

variable {fs : FileSystem}

/-- An entry is found below its directory. -/
theorem find?_entry {parent : List String} {a : Attributes} {es : Entries}
    (h : fs.root.find? parent = some (.directory a es)) (name : String) :
    fs.root.find? (parent ++ [name]) = Entries.get? es name := by
  rw [Node.find?_append, h, Option.bind_some, Node.find?_cons_directory]
  cases Entries.get? es name <;> rfl

theorem run_parentOf {path name : String} {parent : List String} {a : Attributes} {es : Entries}
    (hpath : Path.segments path = parent ++ [name])
    (hdir : fs.root.find? parent = some (.directory a es)) :
    (parentOf path).run fs = .ok (parent, es, name) fs := by
  simp [parentOf, hpath, hdir]

/-- The directory that holds the last name of a path is found, or there is a failure. -/
theorem parentOf_cases (path : String) (fs : FileSystem) :
    (∃ e, (parentOf path).run fs = .error e fs) ∨
      ∃ parent name a es, Path.segments path = parent ++ [name] ∧
        fs.root.find? parent = some (.directory a es) ∧
        (parentOf path).run fs = .ok (parent, es, name) fs := by
  rcases List.eq_nil_or_concat (Path.segments path) with hpath | ⟨parent, name, hpath⟩
  · exact .inl ⟨⟨.busy, "/"⟩, by simp [parentOf, hpath]⟩
  · rw [List.concat_eq_append] at hpath
    cases hdir : fs.root.find? parent with
    | none => exact .inl ⟨⟨.notFound, Path.ofSegments (Path.segments path)⟩, by
        simp [parentOf, hpath, hdir]⟩
    | some node =>
        cases node with
        | file => exact .inl ⟨⟨.notADirectory, Path.ofSegments (Path.segments path)⟩, by
            simp [parentOf, hpath, hdir]⟩
        | directory a es =>
            exact .inr ⟨parent, name, a, es, hpath, hdir, run_parentOf hpath hdir⟩

/-- `makeDirectory` makes an empty directory where there is nothing. -/
theorem makes_makeDirectory (path : String) (permissions : Permissions) (owner : Option String)
    (fs : FileSystem) :
    Makes (fun c => ∃ parent name, Path.segments path = parent ++ [name] ∧
        c = .make parent name (.directory ⟨ownerOr owner fs, permissions, fs.now⟩ []))
      (makeDirectory path permissions owner) fs := by
  unfold Makes
  rcases parentOf_cases path fs with ⟨e, hrun⟩ | ⟨parent, name, a, es, hpath, hdir, hrun⟩
  · by_cases hroot : (Path.segments path).isEmpty <;> simp [makeDirectory, hrun, hroot]
  · cases hentry : Entries.get? es name with
    | some node => simp [makeDirectory, hpath, hrun, hentry]
    | none =>
        refine .inr ⟨_, ⟨parent, name, hpath, rfl⟩, ⟨by simp [hdir, Node.isDirectory],
          (find?_entry hdir name).trans hentry, rfl⟩, ?_⟩
        simp [makeDirectory, hpath, hrun, hentry, Change.apply]

/-- `write` makes a file where there is nothing, or fills the file that is there. -/
theorem makes_write (path : String) (bytes : ByteArray) (owner : Option String)
    (permissions : Permissions) (fs : FileSystem) :
    Makes (fun c => (∃ parent name, Path.segments path = parent ++ [name] ∧
          c = .make parent name (.file ⟨ownerOr owner fs, permissions, fs.now⟩ bytes)) ∨
        c = .fill (Path.segments path) bytes)
      (write path bytes owner permissions) fs := by
  unfold Makes
  rcases parentOf_cases path fs with ⟨e, hrun⟩ | ⟨parent, name, a, es, hpath, hdir, hrun⟩
  · simp [write, hrun]
  · have hfound := find?_entry hdir name
    cases hentry : Entries.get? es name with
    | none =>
        refine .inr ⟨_, .inl ⟨parent, name, hpath, rfl⟩, ⟨by simp [hdir, Node.isDirectory],
          hfound.trans hentry, rfl⟩, ?_⟩
        simp [write, hrun, hentry, Change.apply]
    | some node =>
        cases node with
        | directory => simp [write, hrun, hentry]
        | file old contents =>
            refine .inr ⟨_, .inr rfl, ?_, ?_⟩
            · simp [Change.Fits, hpath, hfound, hentry, Node.isDirectory]
            · simp only [write, EStateM.run_bind, hrun, hentry, EStateM.run_modify, Change.apply,
                hpath]
              rfl

/-- `touch` makes an empty file where there is nothing, or stamps the node that is there. -/
theorem makes_touch (path : String) (owner : Option String) (fs : FileSystem) :
    Makes (fun c => (∃ parent name, Path.segments path = parent ++ [name] ∧
          c = .make parent name
            (.file ⟨ownerOr owner fs, Permissions.newFile, fs.now⟩ ByteArray.empty)) ∨
        c = .mark (Path.segments path) fun a => { a with modified := fs.now })
      (touch path owner) fs := by
  cases hnode : fs.find? path with
  | none =>
      have hrun : (touch path owner).run fs =
          (write path ByteArray.empty owner Permissions.newFile).run fs := by
        simp [touch, hnode]
      unfold Makes
      rw [hrun]
      refine (makes_write path ByteArray.empty owner Permissions.newFile fs).imp ?_
      rintro c hfits (hmake | rfl)
      · exact .inl hmake
      · rw [FileSystem.find?] at hnode
        simp [Change.Fits, hnode] at hfits
  | some node =>
      refine .inr ⟨_, .inr rfl, ?_, ?_⟩
      · rw [FileSystem.find?] at hnode
        simp [Change.Fits, hnode]
      · simp [touch, hnode, Change.apply]

/-- `unlink` removes a file. -/
theorem makes_unlink (path : String) (fs : FileSystem) :
    Makes (fun c => ∃ parent name, Path.segments path = parent ++ [name] ∧
        c = .remove parent name ∧
        (fs.root.find? (parent ++ [name])).any (!·.isDirectory))
      (unlink path) fs := by
  unfold Makes
  rcases parentOf_cases path fs with ⟨e, hrun⟩ | ⟨parent, name, a, es, hpath, hdir, hrun⟩
  · simp [unlink, hrun]
  · have hfound := find?_entry hdir name
    cases hentry : Entries.get? es name with
    | none => simp [unlink, hrun, hentry]
    | some node =>
        rw [hentry] at hfound
        cases node with
        | directory => simp [unlink, hrun, hentry]
        | file =>
            refine .inr ⟨_, ⟨parent, name, hpath, rfl, by simp [hfound, Node.isDirectory]⟩,
              by simp [Change.Fits, hfound], ?_⟩
            simp [unlink, hrun, hentry, Change.apply]

/-- `removeDirectory` removes an empty directory. -/
theorem makes_removeDirectory (path : String) (fs : FileSystem) :
    Makes (fun c => ∃ parent name a, Path.segments path = parent ++ [name] ∧
        c = .remove parent name ∧
        fs.root.find? (parent ++ [name]) = some (.directory a []))
      (removeDirectory path) fs := by
  unfold Makes
  rcases parentOf_cases path fs with ⟨e, hrun⟩ | ⟨parent, name, a, es, hpath, hdir, hrun⟩
  · simp [removeDirectory, hrun]
  · have hfound := find?_entry hdir name
    cases hentry : Entries.get? es name with
    | none => simp [removeDirectory, hrun, hentry]
    | some node =>
        rw [hentry] at hfound
        cases node with
        | file => simp [removeDirectory, hrun, hentry]
        | directory b inner =>
            cases inner with
            | cons entry rest => simp [removeDirectory, hrun, hentry]
            | nil =>
                refine .inr ⟨_, ⟨parent, name, b, hpath, rfl, hfound⟩,
                  by simp [Change.Fits, hfound], ?_⟩
                simp [removeDirectory, hrun, hentry, Change.apply]

/-- `removeTree` removes a node. -/
theorem makes_removeTree (path : String) (fs : FileSystem) :
    Makes (fun c => ∃ parent name, Path.segments path = parent ++ [name] ∧
        c = .remove parent name)
      (removeTree path) fs := by
  unfold Makes
  rcases parentOf_cases path fs with ⟨e, hrun⟩ | ⟨parent, name, a, es, hpath, hdir, hrun⟩
  · simp [removeTree, hrun]
  · have hfound := find?_entry hdir name
    cases hentry : Entries.get? es name with
    | none => simp [removeTree, hrun, hentry]
    | some node =>
        rw [hentry] at hfound
        refine .inr ⟨_, ⟨parent, name, hpath, rfl⟩, by simp [Change.Fits, hfound], ?_⟩
        simp [removeTree, hrun, hentry, Change.apply]

/-- A file is copied by writing its contents. -/
theorem run_copyFile {source : String} {fs : FileSystem} {a : Attributes} {bytes : ByteArray}
    (hsource : fs.find? source = some (.file a bytes)) (target : String) (owner : Option String) :
    (copyFile source target owner).run fs = (write target bytes owner a.permissions).run fs := by
  simp [copyFile, hsource]

/-- `copyFile` does what `write` does, with the contents of the source. -/
theorem makes_copyFile (source target : String) (owner : Option String) (fs : FileSystem) :
    Makes (fun c => ∃ a bytes, fs.find? source = some (.file a bytes) ∧
        ((∃ parent name, Path.segments target = parent ++ [name] ∧
            c = .make parent name (.file ⟨ownerOr owner fs, a.permissions, fs.now⟩ bytes)) ∨
          c = .fill (Path.segments target) bytes))
      (copyFile source target owner) fs := by
  cases hnode : fs.find? source with
  | none => exact .inl ⟨_, by simp [copyFile, hnode]; rfl⟩
  | some node =>
      cases node with
      | directory => exact .inl ⟨_, by simp [copyFile, hnode]; rfl⟩
      | file a bytes =>
          unfold Makes
          rw [run_copyFile hnode]
          exact (makes_write target bytes owner a.permissions fs).imp fun c _ hc =>
            ⟨a, bytes, rfl, hc⟩

/-- `setPermissions` marks a node. -/
theorem makes_setPermissions (path : String) (permissions : Permissions) (fs : FileSystem) :
    Makes (fun c => c = .mark (Path.segments path) fun a => { a with permissions := permissions })
      (setPermissions path permissions) fs := by
  cases hnode : fs.find? path with
  | none => exact .inl (by simp [setPermissions, hnode])
  | some node =>
      refine .inr ⟨_, rfl, ?_, by simp [setPermissions, hnode, Change.apply]⟩
      rw [FileSystem.find?] at hnode
      simp [Change.Fits, hnode]

/-- `setOwner` marks a node. -/
theorem makes_setOwner (path owner : String) (fs : FileSystem) :
    Makes (fun c => c = .mark (Path.segments path) fun a => { a with owner := owner })
      (setOwner path owner) fs := by
  cases hnode : fs.find? path with
  | none => exact .inl (by simp [setOwner, hnode])
  | some node =>
      refine .inr ⟨_, rfl, ?_, by simp [setOwner, hnode, Change.apply]⟩
      rw [FileSystem.find?] at hnode
      simp [Change.Fits, hnode]

/-- A move that fits is made. -/
theorem run_rename {source target : String} {fs : FileSystem} {parent newParent : List String}
    {name newName : String} (hsource : Path.segments source = parent ++ [name])
    (htarget : Path.segments target = newParent ++ [newName])
    (hfits : Change.Fits fs (.move parent name newParent newName)) :
    (rename source target).run fs =
      .ok () (Change.apply fs (.move parent name newParent newName)) := by
  obtain ⟨hdir, houtside, node, hnode, hreplace⟩ := hfits
  have hparent : (fs.root.find? parent).any (·.isDirectory) :=
    Change.any_isDirectory_of_isSome_append (by rw [hnode]; rfl)
  obtain ⟨a, es, hold⟩ := FileSystem.exists_directory_of_any hparent
  obtain ⟨b, others, hnew⟩ := FileSystem.exists_directory_of_any hdir
  have hentry : Entries.get? es name = some node := (find?_entry hold name).symm.trans hnode
  have hsame : newParent ++ [newName] ≠ parent ++ [name] := fun h => houtside (h ▸ List.prefix_rfl)
  rw [find?_entry hnew] at hreplace
  cases hthere : Entries.get? others newName with
  | none =>
      simp [rename, hsource, htarget, run_parentOf hsource hold, run_parentOf htarget hnew, hentry,
        hsame, houtside, hthere, Change.apply, hnode]
  | some there =>
      rw [hthere] at hreplace
      obtain ⟨hkind, hempty⟩ := hreplace
      simp [rename, hsource, htarget, run_parentOf hsource hold, run_parentOf htarget hnew, hentry,
        hsame, houtside, hthere, Change.apply, hnode, hkind, hempty]

/-- `rename` moves a node to a place outside of it, or does nothing if that is its own place. -/
theorem makes_rename (source target : String) (fs : FileSystem) :
    (Path.segments target = Path.segments source ∧ (rename source target).run fs = .ok () fs) ∨
      Makes (fun c => ∃ parent name newParent newName,
        Path.segments source = parent ++ [name] ∧ Path.segments target = newParent ++ [newName] ∧
        c = .move parent name newParent newName)
      (rename source target) fs := by
  unfold Makes
  rcases parentOf_cases source fs with ⟨e, hrun⟩ | ⟨parent, name, a, es, hpath, hdir, hrun⟩
  · simp [rename, hrun]
  · have hfound := find?_entry hdir name
    cases hentry : Entries.get? es name with
    | none => simp [rename, hrun, hentry]
    | some node =>
        rw [hentry] at hfound
        by_cases hsame : Path.segments target = Path.segments source
        · simp [rename, hrun, hentry, hsame]
        · by_cases hinside : Path.segments source <+: Path.segments target
          · simp [rename, hrun, hentry, hsame, hinside]
          · rcases parentOf_cases target fs with
              ⟨e, htrun⟩ | ⟨newParent, newName, b, fs', htpath, htdir, htrun⟩
            · simp [rename, hrun, hentry, hsame, hinside, htrun]
            · have hthere := find?_entry htdir newName
              have hmoves : Change.CanReplace node (Entries.get? fs' newName) →
                  ∃ c : Change, (∃ parent name newParent newName,
                    Path.segments source = parent ++ [name] ∧
                      Path.segments target = newParent ++ [newName] ∧
                      c = .move parent name newParent newName) ∧
                    c.Fits fs ∧ (rename source target).run fs = .ok () (c.apply fs) := by
                intro hreplace
                have hfits : Change.Fits fs (.move parent name newParent newName) :=
                  ⟨by simp [htdir, Node.isDirectory], hpath ▸ htpath ▸ hinside, node, hfound,
                    hthere ▸ hreplace⟩
                exact ⟨_, ⟨parent, name, newParent, newName, hpath, htpath, rfl⟩, hfits,
                  run_rename hpath htpath hfits⟩
              rw [hpath, htpath] at hinside hsame
              cases htarget : Entries.get? fs' newName with
              | none => exact .inr (.inr (hmoves (by rw [htarget]; trivial)))
              | some there =>
                  by_cases hkind : there.isDirectory = node.isDirectory
                  · by_cases hempty : there.entries = []
                    · exact .inr (.inr (hmoves (by rw [htarget]; exact ⟨hkind, hempty⟩)))
                    · simp [rename, hrun, hentry, hsame, hinside, htrun, hpath, htpath, htarget,
                        hkind, hempty]
                  · cases hd : there.isDirectory <;> cases hn : node.isDirectory <;>
                      simp [hd, hn] at hkind <;>
                      simp [rename, hrun, hentry, hsame, hinside, htrun, hpath, htpath, htarget,
                        hd, hn]

end

section

variable {R : FileSystem → FileSystem → Prop} {permissions : Permissions} {owner : Option String}

theorem run_ask {α : Type} (question : FileSystem → Except FileTree.Error α) (fs : FileSystem) :
    (ask question).run fs = match question fs with
      | .ok a => .ok a fs
      | .error e => .error e fs := by
  simp only [ask, EStateM.run_bind, EStateM.run_get]
  cases question fs <;> simp

theorem leads_ask {α : Type} (hR : Lasting R)
    (question : FileSystem → Except FileTree.Error α) (fs : FileSystem) :
    Leads R (ask question) fs := by
  refine .get_bind ?_
  cases question fs with
  | ok a => exact .pure hR a fs
  | error e => exact .throw hR e fs

/-- What each directory that is made leads to, making all along a way leads to. -/
theorem leads_makeAlong (hR : Lasting R)
    (hmake : ∀ path fs, Leads R (makeDirectory path permissions owner) fs)
    (done rest : List String) (fs : FileSystem) :
    Leads R (makeAlong permissions owner done rest) fs := by
  induction rest generalizing done fs with
  | nil => exact .pure hR () fs
  | cons name rest ih =>
      rw [makeAlong]
      refine .get_bind ?_
      cases fs.root.find? (done ++ [name]) with
      | none => exact .bind hR (hmake _ fs) fun _ t _ => ih (done ++ [name]) t
      | some node =>
          cases node with
          | file => exact .bind hR (.throw hR _ fs) fun _ t _ => ih (done ++ [name]) t
          | directory => exact ih (done ++ [name]) fs

/-- Copies the entries of a directory with `copy`, one after the other. -/
def copyEntries (copy : String → String → Edit Unit) (source target : String) : Edit Unit := do
  let names ← ask (·.names source)
  names.forM fun name => copy (entryPath source name) (entryPath target name)

/-- A directory is copied by making the copy, if it is not there, and copying the entries. -/
theorem run_copyNode_succ (owner : Option String) (levels : Nat) (source target : String)
    (fs : FileSystem) :
    (copyNode owner (levels + 1) source target).run fs = match fs.find? source with
      | none => .error ⟨.notFound, source⟩ fs
      | some (.file ..) => (copyFile source target owner).run fs
      | some (.directory a _) =>
        if fs.isDirectory target then
          (copyEntries (copyNode owner levels) source target).run fs
        else
          (makeDirectory target a.permissions owner >>= fun _ =>
            copyEntries (copyNode owner levels) source target).run fs := by
  rw [copyNode, EStateM.run_bind, EStateM.run_get]
  cases hnode : fs.find? source with
  | none => simp only [hnode, run_throw]
  | some node =>
      cases node with
      | file => simp only [hnode]
      | directory a es =>
          simp only [hnode, EStateM.run_bind, EStateM.run_get]
          cases hdir : fs.isDirectory target <;> simp [copyEntries]

theorem leads_copyEntries (hR : Lasting R) {copy : String → String → Edit Unit}
    (h : ∀ source target fs, Leads R (copy source target) fs) (source target : String)
    (fs : FileSystem) : Leads R (copyEntries copy source target) fs :=
  .bind hR (leads_ask hR _ fs) fun _ t _ => .forM hR (fun _ _ u => h _ _ u) t

/-- What each directory and each file that is copied leads to, copying all of them leads to. -/
theorem leads_copyNode (hR : Lasting R)
    (hmake : ∀ path permissions fs, Leads R (makeDirectory path permissions owner) fs)
    (hcopy : ∀ source target fs, Leads R (copyFile source target owner) fs)
    (levels : Nat) (source target : String) (fs : FileSystem) :
    Leads R (copyNode owner levels source target) fs := by
  induction levels generalizing source target fs with
  | zero => exact .throw hR _ fs
  | succ levels ih =>
      have hentries := leads_copyEntries hR ih source target
      rw [Leads, run_copyNode_succ]
      split
      · exact hR.refl fs
      · exact hcopy source target fs
      · split
        · exact hentries fs
        · exact Leads.bind hR (hmake target _ fs) fun _ t _ => hentries t

end

end PracticeShell.Edit
