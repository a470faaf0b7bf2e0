import PracticeShell.Guard
import PracticeShell.Proofs.Places
import PracticeShell.Proofs.Tree.Face

/-!
# What the guard sees

The guard heeds an operand if it is one that it looks at and means a path that is protected or
critical. A line with such an operand is not let through if there is something at the path
(`inspect_of_heeds`). The guard looks at the operands as they are typed (`seen`): patterns are not
replaced, no operand starts with a dash, and one `sudo` is passed over. The vital places are those of
the protected paths, of the home and of the critical paths; among the operands that mean such a place
or one above it, those that are looked at are heeded (`Situation.heeds_iff_mem_seen`).
-/

namespace PracticeShell

open FileTree

namespace Path

variable {username : String}

theorem home_eq (username : String) : home username = ofSegments ["home", username] := by
  apply String.toList_injective
  simp [home, ofSegments]

theorem segments_home (h : IsSegment username) : segments (home username) = ["home", username] := by
  have hname : IsSegment "home" := by decide
  rw [home_eq, segments_ofSegments]
  simpa [hname] using h

/-- What a user means by an operand is a normalized path. -/
theorem ofSegments_segments_resolve (current target : String) (h : IsSegment username) :
    ofSegments (segments (resolve current target username)) = resolve current target username := by
  have hnormalize : ∀ path, ofSegments (segments (normalize path)) = normalize path :=
    fun path => normalize_normalize path
  unfold resolve
  split
  · exact hnormalize _
  · split
    · rw [segments_home h, home_eq]
    · split
      · exact hnormalize _
      · split <;> exact hnormalize _

end Path

namespace Guard

/-- Words after a first `sudo`. -/
def withoutSudo : List String → List String
  | "sudo" :: words => words
  | words => words

/-- The operands that the guard takes for those that a command removes or moves away. -/
def seenBy (name : String) (arguments : List String) : List String :=
  if name = "rm" ∨ name = "rmdir" then operandsOf arguments
  else if name = "mv" then (operandsOf arguments).dropLast
  else []

/-- The operands that the guard takes for those that the words of a line remove or move away. -/
def seen (words : List String) : List String :=
  match withoutSudo words with
  | [] => []
  | name :: arguments => seenBy name arguments

namespace Situation

/-- The paths that no line may take away without asking. -/
def vital (s : Situation) : List String :=
  protectedPaths ++ [Path.home s.username] ++ s.allCritical

/-- Whether a place is that of a vital path. -/
def IsVital (s : Situation) (place : List String) : Prop :=
  ∃ path ∈ s.vital, place = Path.segments path

variable {s : Situation} {place : List String} {operand : String}

/-- A path to a vital place or to a place above it is protected or critical. -/
theorem isProtected_or_isCritical (huser : Path.IsSegment s.username) (hvital : s.IsVital place)
    (habove : Path.segments (s.resolve operand) <+: place) :
    s.isProtected (s.resolve operand) = true ∨ s.isCritical (s.resolve operand) = true := by
  have hnormal := Path.ofSegments_segments_resolve s.directory operand huser
  rw [← resolve] at hnormal
  have hprotected : ∀ path ∈ protectedPaths, s.resolve operand = path →
      s.isProtected (s.resolve operand) = true := by
    rintro path hpath heq
    rw [isProtected, heq]
    simp [hpath]
  by_cases htop : Path.segments (s.resolve operand) = []
  · left
    rw [htop] at hnormal
    exact hprotected "/" (by decide) hnormal.symm
  · have hpos : 0 < (Path.segments (s.resolve operand)).length := List.length_pos_iff.2 htop
    obtain ⟨path, hpath, rfl⟩ := hvital
    rw [vital, List.append_assoc, List.mem_append, List.mem_append, List.mem_singleton] at hpath
    rcases hpath with hpath | rfl | hpath
    · left
      have hshort : ∀ p ∈ protectedPaths, (Path.segments p).length ≤ 1 ∧
          Path.ofSegments (Path.segments p) = p := by decide
      obtain ⟨hlength, hpathNormal⟩ := hshort path hpath
      rw [habove.eq_of_length_le (by omega), hpathNormal] at hnormal
      exact hprotected path hpath hnormal.symm
    · left
      rw [Path.segments_home huser] at habove
      match hsegments : Path.segments (s.resolve operand), habove, htop with
      | [first], habove, _ =>
          obtain rfl : first = "home" := by simpa using habove
          rw [hsegments] at hnormal
          exact hprotected "/home" (by decide) hnormal.symm
      | [first, second], habove, _ =>
          obtain ⟨rfl, rfl⟩ : first = "home" ∧ second = s.username := by simpa using habove
          rw [hsegments, ← Path.home_eq] at hnormal
          rw [isProtected, ← hnormal]
          simp
      | first :: second :: third :: rest, habove, _ =>
          have hlength := habove.length_le
          simp at hlength
    · right
      have hwithin : Path.isWithin path (s.resolve operand) = true := (Path.isWithin_iff _ _).2 habove
      have hne : s.resolve operand ≠ "/" := by
        intro heq
        exact htop (by rw [heq]; decide)
      rw [isCritical, touchesCritical, List.any_eq_true]
      exact ⟨path, hpath, by simp [hwithin, hne]⟩

/-- Whether the guard heeds an operand: it looks at the operand, and the path that is meant is
protected or critical. -/
def Heeds (s : Situation) (words : List String) (operand : String) : Prop :=
  operand ∈ seen words ∧
    (s.isProtected (s.resolve operand) = true ∨ s.isCritical (s.resolve operand) = true)

/-- Of the operands that mean a vital place or one above it, those that are looked at are heeded. -/
theorem heeds_iff_mem_seen (huser : Path.IsSegment s.username) (hvital : s.IsVital place)
    (habove : Path.segments (s.resolve operand) <+: place) (words : List String) :
    s.Heeds words operand ↔ operand ∈ seen words :=
  ⟨fun h => h.1, fun h => ⟨h, isProtected_or_isCritical huser hvital habove⟩⟩

end Situation

variable {s : Situation} {fs : FileSystem} {place : List String} {operand line : String}

theorem commandWords_of_parse {r : Redirection} (h : Redirection.parse line = .ok r) :
    commandWords line = withoutSudo (Words.split r.command) := by
  unfold commandWords
  rw [h]
  dsimp only
  generalize Words.split r.command = words
  rfl

/-- What is at or above a place where there is something is a target, if an operand means it. -/
theorem mem_targets (hfs : s.fs = some fs) (hthere : (fs.faceAt place).isSome)
    (habove : Path.segments (s.resolve operand) <+: place) {operands : List String}
    (hoperand : operand ∈ operands) : s.resolve operand ∈ s.targets operands := by
  refine List.mem_filter.2 ⟨List.mem_map.2 ⟨operand, hoperand, rfl⟩, ?_⟩
  obtain ⟨below, rfl⟩ := habove
  rw [FileSystem.faceAt, Node.faceAt_append] at hthere
  rw [hfs]
  cases hfind : fs.root.find? (Path.segments (s.resolve operand)) with
  | none => simp [hfind] at hthere
  | some node => simp [FileSystem.contains, FileSystem.find?, hfind]

/-- What is warned of before anything else: that one of the targets is protected or critical. -/
theorem inspectRm_of_danger (line : String) {words : List String}
    (h : (s.targets (operandsOf words)).any s.isProtected = true ∨
      (s.targets (operandsOf words)).any s.isCritical = true) :
    (inspectRm s line words).isSome := by
  unfold inspectRm
  dsimp only
  split
  · rfl
  · rename_i hprotected
    rw [if_pos (h.resolve_left hprotected)]
    rfl

theorem inspectRmdir_of_danger (line : String) {words : List String}
    (h : (s.targets (operandsOf words)).any s.isProtected = true ∨
      (s.targets (operandsOf words)).any s.isCritical = true) :
    (inspectRmdir s line words).isSome := by
  unfold inspectRmdir
  dsimp only
  split
  · rfl
  · rename_i hprotected
    rw [if_pos (h.resolve_left hprotected)]
    rfl

theorem inspectMv_of_danger (line : String) {words : List String}
    (h : (s.targets (operandsOf words).dropLast).any s.isProtected = true ∨
      (s.targets (operandsOf words).dropLast).any s.isCritical = true)
    (hlength : 2 ≤ (operandsOf words).length) : (inspectMv s line words).isSome := by
  unfold inspectMv
  dsimp only
  cases hlast : (operandsOf words).getLast? with
  | none =>
      rw [List.getLast?_eq_none_iff] at hlast
      simp [hlast] at hlength
  | some last =>
      dsimp only
      rw [if_neg (by omega)]
      split
      · rfl
      · rename_i hprotected
        rw [if_pos (h.resolve_left hprotected)]
        rfl

/-- A command is not let through without a warning if an operand is heeded that means a place where
there is something, or a place above it. -/
theorem inspectCommand_of_danger (line : String) (hfs : s.fs = some fs) {name : String}
    {arguments : List String} (hoperand : operand ∈ seenBy name arguments)
    (hdanger : s.isProtected (s.resolve operand) = true ∨ s.isCritical (s.resolve operand) = true)
    (hthere : (fs.faceAt place).isSome) (habove : Path.segments (s.resolve operand) <+: place) :
    ∃ w, inspectCommand s line (name :: arguments) = some (some w) := by
  have htargets : ∀ operands, operand ∈ operands →
      (s.targets operands).any s.isProtected = true ∨
        (s.targets operands).any s.isCritical = true := by
    intro operands hmem
    have hmet := mem_targets hfs hthere habove hmem
    exact hdanger.imp (fun h => List.any_eq_true.2 ⟨_, hmet, h⟩)
      fun h => List.any_eq_true.2 ⟨_, hmet, h⟩
  unfold seenBy at hoperand
  split at hoperand
  · rename_i hname
    rcases hname with rfl | rfl
    · have hne : (s.targets (operandsOf arguments)).isEmpty = false := by
        rw [List.isEmpty_eq_false_iff]
        exact List.ne_nil_of_mem (mem_targets hfs hthere habove hoperand)
      obtain ⟨w, hw⟩ := Option.isSome_iff_exists.1
        (inspectRm_of_danger line (htargets _ hoperand))
      refine ⟨w, ?_⟩
      unfold inspectCommand
      dsimp only
      rw [if_neg (by decide), if_pos rfl, hne, hw]
      rfl
    · obtain ⟨w, hw⟩ := Option.isSome_iff_exists.1
        (inspectRmdir_of_danger line (htargets _ hoperand))
      refine ⟨w, ?_⟩
      unfold inspectCommand
      dsimp only
      rw [if_neg (by decide), if_neg (by decide), if_pos rfl, hw]
  · split at hoperand
    · rename_i hname
      subst hname
      have hlength := List.length_pos_of_mem hoperand
      rw [List.length_dropLast] at hlength
      obtain ⟨w, hw⟩ := Option.isSome_iff_exists.1
        (inspectMv_of_danger line (htargets _ hoperand) (by omega))
      refine ⟨w, ?_⟩
      unfold inspectCommand
      dsimp only
      rw [if_neg (by decide), if_neg (by decide), if_neg (by decide), if_pos rfl, hw]
    · simp at hoperand

/-- A line does not pass the guard without a warning if an operand is heeded that means a place where
there is something, or a place above it. -/
theorem inspect_of_heeds (hfs : s.fs = some fs) {words : List String}
    (hwords : commandWords line = withoutSudo words) (hheeds : s.Heeds words operand)
    (hthere : (fs.faceAt place).isSome) (habove : Path.segments (s.resolve operand) <+: place) :
    (inspect s line).isSome := by
  obtain ⟨hoperand, hdanger⟩ := hheeds
  unfold seen at hoperand
  cases hcommand : withoutSudo words with
  | nil => simp [hcommand] at hoperand
  | cons name arguments =>
      rw [hcommand] at hoperand hwords
      obtain ⟨w, hw⟩ := inspectCommand_of_danger line hfs hoperand hdanger hthere habove
      unfold inspect
      rw [hwords, hw]
      rfl

/-- A line that removes or moves and overwrites nothing passes the guard if there is nothing at the
paths that are typed. -/
theorem inspect_of_nothing {words : List String} (hwords : commandWords line = withoutSudo words)
    {name : String} {arguments : List String} (hcommand : withoutSudo words = name :: arguments)
    (hname : name = "rm" ∨ name = "rmdir" ∨ name = "mv") (houtput : inspectOutput s line = none)
    (hfs : s.fs = some fs)
    (hnothing : ∀ operand ∈ operandsOf arguments, fs.contains (s.resolve operand) = false) :
    inspect s line = none := by
  have htargets : ∀ operands, (∀ operand ∈ operands, operand ∈ operandsOf arguments) →
      s.targets operands = [] := by
    intro operands hmem
    refine List.filter_eq_nil_iff.2 fun target htarget => ?_
    obtain ⟨operand, hoperand, rfl⟩ := List.mem_map.1 htarget
    simp [hfs, hnothing operand (hmem operand hoperand)]
  unfold inspect
  rw [hwords, hcommand]
  unfold inspectCommand
  dsimp only
  rcases hname with rfl | rfl | rfl
  · rw [if_neg (by decide), if_pos rfl, htargets _ fun _ h => h]
    rfl
  · rw [if_neg (by decide), if_neg (by decide), if_pos rfl, inspectRmdir, htargets _ fun _ h => h]
    exact houtput
  · have hmv : inspectMv s line arguments = none := by
      unfold inspectMv
      dsimp only
      cases hlast : (operandsOf arguments).getLast? with
      | none => rfl
      | some last =>
          have hlast := hnothing last (List.mem_of_getLast? hlast)
          rw [FileSystem.contains, Option.isSome_eq_false_iff, Option.isNone_iff_eq_none] at hlast
          dsimp only
          split
          · rfl
          · rw [htargets _ fun _ h => (List.dropLast_sublist _).mem h]
            simp [hfs, FileSystem.isFile, hlast]
    rw [if_neg (by decide), if_neg (by decide), if_neg (by decide), if_pos rfl, hmv]
    exact houtput

/-- A line that does not overwrite a file gives no warning about its output. -/
theorem inspectOutput_of_parse {r : Redirection} (h : Redirection.parse line = .ok r)
    (heffect : ∀ operand, r.effect ≠ .toFile ⟨operand, false⟩) : inspectOutput s line = none := by
  unfold inspectOutput
  rw [h]
  split
  · rename_i operand hr
    cases hr
    exact absurd rfl (heffect operand)
  · rfl

end Guard

end PracticeShell
