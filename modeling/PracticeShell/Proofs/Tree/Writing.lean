import PracticeShell.Proofs.Places
import PracticeShell.Proofs.Tree.Making

/-!
# What writing a file changes

A file that is written is made at the end of its directory, or filled if it is there (`write_cases`).
So its bytes are read back under every spelling of its path, and of all other nodes only the directory
of a new file changes (`write_is_read_back`).
-/

namespace PracticeShell

open FileTree FileTree.Change

namespace Permissions

/-- The permissions in a mode are its lowest nine bits. -/
theorem val_ofInt (mode : Int) : (ofInt mode).val = (mode % 512).toNat := by
  have hlt : (mode % 512).toNat < 512 := by omega
  exact Nat.mod_eq_of_lt hlt

end Permissions

namespace FileSystem

variable {fs : FileSystem} {path : String} {a : Attributes}

theorem contents_of_faceAt {bytes : ByteArray}
    (h : fs.faceAt (Path.segments path) = some (.file a bytes)) : fs.contents path = .ok bytes := by
  obtain ⟨node, hnode, hface⟩ := faceAt_eq_some.1 h
  cases node with
  | directory => cases hface
  | file b contents =>
      obtain ⟨-, rfl⟩ := Face.file.inj hface
      rw [FileSystem.contents, FileSystem.find?, hnode]

/-- What is known of a node goes by its face. -/
theorem stat?_of_faceAt {face : Face} (h : fs.faceAt (Path.segments path) = some face) :
    ∃ s, fs.stat? path = some s ∧ s.isDirectory = face.isDirectory ∧
      s.owner = face.attributes.owner ∧ s.permissions = face.attributes.permissions := by
  obtain ⟨node, hnode, rfl⟩ := faceAt_eq_some.1 h
  refine ⟨fs.statOf (Path.segments path) node, ?_, ?_⟩
  · rw [stat?, FileSystem.find?, hnode]
    rfl
  · simp [statOf]

theorem stat?_eq_none_iff : fs.stat? path = none ↔ fs.faceAt (Path.segments path) = none := by
  rw [stat?, FileSystem.find?, faceAt, Node.faceAt, Option.map_eq_none_iff, Option.map_eq_none_iff]

end FileSystem

namespace Edit

open FileSystem

variable {fs later : FileSystem} {path : String} {bytes : ByteArray} {owner : Option String}
  {permissions : Permissions}

/-- A file that is written is new and listed last in its directory, or it was there and is filled. -/
theorem write_cases (h : (write path bytes owner permissions).run fs = .ok () later) :
    ∃ parent name b names, Path.segments path = parent ++ [name] ∧
      fs.faceAt parent = some (.directory b names) ∧
      ((fs.faceAt (parent ++ [name]) = none ∧ ∀ place, later.faceAt place =
          if place = parent then some (.directory { b with modified := fs.now } (names ++ [name]))
          else if place = parent ++ [name] then
            some (.file ⟨ownerOr owner fs, permissions, fs.now⟩ bytes)
          else fs.faceAt place) ∨
        ∃ a old, fs.faceAt (parent ++ [name]) = some (.file a old) ∧ ∀ place, later.faceAt place =
          if place = parent ++ [name] then some (.file { a with modified := fs.now } bytes)
          else fs.faceAt place) := by
  obtain ⟨_, ⟨parent, name, hpath, rfl⟩ | rfl, hfits, rfl⟩ :=
    (makes_write path bytes owner permissions fs).of_ok h
  · obtain ⟨b, es, hdir⟩ := exists_directory_of_any hfits.1
    have hparent : fs.faceAt parent = some (.directory b (Entries.names es)) :=
      faceAt_eq_some.2 ⟨_, hdir, rfl⟩
    have hnew : name ∉ Entries.names es := by
      rw [Entries.mem_names_iff, ← find?_entry hdir, hfits.2.1]
      simp
    refine ⟨parent, name, b, _, hpath, hparent, .inl ⟨?_, fun place => ?_⟩⟩
    · rw [FileSystem.faceAt, Node.faceAt, hfits.2.1]
      rfl
    · rw [faceAt_make hfits, hparent]
      simp [Face.mapNames, Face.addName, hnew]
  · obtain ⟨node, hnode, hfile⟩ := (Option.any_eq_true _ _).1 hfits
    cases node with
    | directory => cases hfile
    | file a old =>
        rcases List.eq_nil_or_concat (Path.segments path) with hroot | ⟨parent, name, hpath⟩
        · rw [hroot] at hnode
          cases hnode
        · rw [List.concat_eq_append] at hpath
          rw [hpath] at hnode hfits ⊢
          have hthere : fs.kindAt (parent ++ [name]) ≠ none := by simp [kindAt, hnode]
          obtain ⟨b, es, hdir⟩ := kindAt_eq_true_iff.1 (kindAt_of_append hthere)
          have hface : fs.faceAt (parent ++ [name]) = some (.file a old) :=
            faceAt_eq_some.2 ⟨_, hnode, rfl⟩
          refine ⟨parent, name, b, _, rfl, faceAt_eq_some.2 ⟨_, hdir, rfl⟩,
            .inr ⟨a, old, hface, fun place => ?_⟩⟩
          rw [faceAt_fill hfits, hface]
          rfl

/-- What a file system has become when bytes have been written to a path. -/
structure IsWritten (path : String) (bytes : ByteArray) (owner : Option String) (mode : Int)
    (fs later : FileSystem) : Prop where
  /-- The bytes are read back, however the path is spelled. -/
  contents : ∀ other, Path.normalize other = Path.normalize path → later.contents other = .ok bytes
  /-- What was there was a file, and it keeps its owner and its mode. -/
  kept : ∀ before, fs.stat? path = some before → before.isFile ∧
    ∃ after, later.stat? path = some after ∧ after.owner = before.owner ∧ after.mode = before.mode
  /-- A new file has the owner that is named, or else the default one, and the permissions in the
  mode. -/
  made : fs.stat? path = none → ∃ after, later.stat? path = some after ∧
    after.owner = (owner.filter (· ≠ "")).getD fs.defaultOwner ∧
    after.mode = 0o100000 + (mode % 512).toNat
  /-- The directory lists what it did, and a new file after that. -/
  listed : ∃ names, fs.names (Path.dirname path) = .ok names ∧
    later.names (Path.dirname path) = .ok
      (if fs.contains path then names else names ++ [Path.basename (Path.normalize path)])
  /-- The directory of a new file is stamped with the time, and keeps what else it has. -/
  stamped : fs.contains path = false → later.faceAt (Path.segments (Path.dirname path)) =
    (fs.faceAt (Path.segments (Path.dirname path))).map
      (Face.mapNames fs.now (· ++ [Path.basename (Path.normalize path)]))
  /-- All else is as it was. -/
  others : ∀ other, Path.normalize other ≠ Path.normalize path →
    (fs.contains path = true ∨ Path.normalize other ≠ Path.dirname path) →
    later.faceAt (Path.segments other) = fs.faceAt (Path.segments other)

theorem ownerOr_eq_getD (owner : Option String) (fs : FileSystem) :
    ownerOr owner fs = (owner.filter (· ≠ "")).getD fs.defaultOwner := by
  cases owner with
  | none => rfl
  | some name => by_cases h : name = "" <;> simp [ownerOr, Option.filter, h]

theorem contains_eq (fs : FileSystem) (path : String) :
    fs.contains path = (fs.faceAt (Path.segments path)).isSome :=
  (Node.isSome_faceAt (Path.segments path) fs.root).symm

section

variable {parent names : List String} {name : String} {b : Attributes} {mode : Int}

/-- A file that is made is read back, and its directory lists it last. -/
theorem isWritten_of_made (hpath : Path.segments path = parent ++ [name])
    (hdir : fs.faceAt parent = some (.directory b names))
    (hnone : fs.faceAt (parent ++ [name]) = none)
    (hlater : ∀ place, later.faceAt place =
      if place = parent then some (.directory { b with modified := fs.now } (names ++ [name]))
      else if place = parent ++ [name] then
        some (.file ⟨ownerOr owner fs, Permissions.ofInt mode, fs.now⟩ bytes)
      else fs.faceAt place) : IsWritten path bytes owner mode fs later := by
  have hname := Path.basename_normalize hpath
  have hparent := Path.segments_dirname_of_append hpath
  have hcontains : fs.contains path = false := by rw [contains_eq, hpath, hnone, Option.isSome_none]
  have hfile : later.faceAt (Path.segments path) =
      some (.file ⟨ownerOr owner fs, Permissions.ofInt mode, fs.now⟩ bytes) := by
    rw [hpath, hlater, if_neg (by simp), if_pos rfl]
  have hlisted : later.faceAt (Path.segments (Path.dirname path)) =
      some (.directory { b with modified := fs.now } (names ++ [name])) := by
    rw [hparent, hlater, if_pos rfl]
  constructor
  · intro other hother
    exact contents_of_faceAt ((Path.normalize_eq_iff other path).1 hother ▸ hfile)
  · intro before hbefore
    rw [stat?_eq_none_iff.2 (hpath ▸ hnone)] at hbefore
    cases hbefore
  · intro _
    obtain ⟨after, hafter, hkind, howner, hpermissions⟩ := stat?_of_faceAt hfile
    refine ⟨after, hafter, howner.trans (ownerOr_eq_getD owner fs), ?_⟩
    rw [Stat.mode, hkind, hpermissions]
    exact congrArg (0o100000 + ·) (Permissions.val_ofInt mode)
  · rw [hcontains, hname]
    exact ⟨names, names_eq_ok_iff.2 ⟨b, hparent ▸ hdir⟩, names_eq_ok_iff.2 ⟨_, hlisted⟩⟩
  · intro _
    rw [hlisted, hparent, hname, hdir]
    rfl
  · intro other hother hbeside
    rw [hcontains, Ne, Path.normalize_eq_dirname_iff, hparent] at hbeside
    rw [Ne, Path.normalize_eq_iff, hpath] at hother
    rw [hlater, if_neg (hbeside.resolve_left (by simp)), if_neg hother]

/-- A file that is filled is read back and keeps its rights, and its directory stays as it was. -/
theorem isWritten_of_filled {a : Attributes} {old : ByteArray}
    (hpath : Path.segments path = parent ++ [name])
    (hdir : fs.faceAt parent = some (.directory b names))
    (hold : fs.faceAt (parent ++ [name]) = some (.file a old))
    (hlater : ∀ place, later.faceAt place =
      if place = parent ++ [name] then some (.file { a with modified := fs.now } bytes)
      else fs.faceAt place) : IsWritten path bytes owner mode fs later := by
  have hparent := Path.segments_dirname_of_append hpath
  have hcontains : fs.contains path = true := by rw [contains_eq, hpath, hold, Option.isSome_some]
  have hfile : later.faceAt (Path.segments path) =
      some (.file { a with modified := fs.now } bytes) := by rw [hpath, hlater, if_pos rfl]
  have hlisted : later.faceAt (Path.segments (Path.dirname path)) =
      some (.directory b names) := by rw [hparent, hlater, if_neg (by simp), hdir]
  rw [← hpath] at hold
  constructor
  · intro other hother
    exact contents_of_faceAt ((Path.normalize_eq_iff other path).1 hother ▸ hfile)
  · intro before hbefore
    obtain ⟨s, hs, hkind, howner, hpermissions⟩ := stat?_of_faceAt hold
    obtain ⟨after, hafter, hkind', howner', hpermissions'⟩ := stat?_of_faceAt hfile
    obtain rfl : s = before := Option.some.inj (hs.symm.trans hbefore)
    refine ⟨by rw [Stat.isFile, hkind]; rfl, after, hafter, howner'.trans howner.symm, ?_⟩
    rw [Stat.mode, Stat.mode, hkind, hkind', hpermissions, hpermissions']
    rfl
  · intro hmissing
    rw [stat?_eq_none_iff, hold] at hmissing
    cases hmissing
  · rw [hcontains]
    exact ⟨names, names_eq_ok_iff.2 ⟨b, hparent ▸ hdir⟩, names_eq_ok_iff.2 ⟨_, hlisted⟩⟩
  · intro hmissing
    rw [hcontains] at hmissing
    cases hmissing
  · intro other hother _
    rw [Ne, Path.normalize_eq_iff, hpath] at hother
    rw [hlater, if_neg hother]

end

/-- What is written to a path is read back, and nothing else changes but the directory of a new
file. -/
theorem write_is_read_back {mode : Int}
    (hrun : (write path bytes owner (Permissions.ofInt mode)).run fs = .ok () later) :
    IsWritten path bytes owner mode fs later := by
  obtain ⟨parent, name, b, names, hpath, hdir, hcases⟩ := write_cases hrun
  rcases hcases with ⟨hnone, hlater⟩ | ⟨a, old, hold, hlater⟩
  · exact isWritten_of_made hpath hdir hnone hlater
  · exact isWritten_of_filled hpath hdir hold hlater

/-- A desk with a drawer for the letters and the memo of another user, a box with a memo and a key, and
an empty shelf. -/
def study : FileSystem :=
  { FileSystem.empty "ada" 2 with
    entries :=
      [("desk", .directory ⟨"ada", Permissions.newDirectory, 1⟩
          [("drawer", .directory ⟨"eve", .ofNat 0o700, 1⟩
            [("letters", .directory ⟨"eve", .ofNat 0o750, 1⟩ []),
              ("memo", .file ⟨"eve", .ofNat 0o600, 1⟩ ⟨#[1]⟩)])]),
        ("box", .directory ⟨"ada", Permissions.newDirectory, 1⟩
          [("memo", .file ⟨"ada", Permissions.newFile, 1⟩ ⟨#[2]⟩),
            ("key", .file ⟨"ada", .ofNat 0o400, 1⟩ ⟨#[3]⟩)]),
        ("shelf", .directory ⟨"ada", Permissions.newDirectory, 1⟩ [])] }

/-- The memo is replaced by a path through the box, and a note is put beside it. -/
theorem memo_is_read_back :
    (∃ later, (write "/box/../desk/drawer//memo" ⟨#[7]⟩ (some "ada") (Permissions.ofInt 0o644)).run
        study = .ok () later ∧
      IsWritten "/box/../desk/drawer//memo" ⟨#[7]⟩ (some "ada") 0o644 study later) ∧
    ∃ later, (write "desk/drawer/./note" ⟨#[8]⟩ (some "") (Permissions.ofInt (-1))).run study =
        .ok () later ∧
      IsWritten "desk/drawer/./note" ⟨#[8]⟩ (some "") (-1) study later :=
  ⟨⟨_, rfl, write_is_read_back rfl⟩, ⟨_, rfl, write_is_read_back rfl⟩⟩

end Edit

end PracticeShell
