import Mathlib.Data.List.Basic
import PracticeShell.Proofs.Command.Patterns
import PracticeShell.Proofs.Command.Sifting
import PracticeShell.Proofs.Tree.Refilling

/-!
# What is asked from outside of a directory

The questions that commands ask about an operand that does not lie below a directory, with one lemma
each: the answer does not depend on what the directory holds, if it is the root user's and rights are not
elevated. Patterns are no way around this, since what they stand for does not lie below the directory
either (`Operands.not_liesBelow_of_mem_expand`). A search that goes below directories is the one question
that is answered with what the directory holds, if it starts there or above
(`Command.errors_sourceOf_directory`).
-/

namespace PracticeShell

open FileTree Run

/-- A slash at the end of a path changes nothing. -/
theorem Path.segments_resolve_append_slash {directory : String} (h : directory ≠ "")
    (current username : String) : segments (resolve current (directory ++ "/") username) =
      segments (resolve current directory username) := by
  have hend : ∀ path : String, segments (path ++ "/") = segments path := by
    intro path
    have hempty : path ++ "/" = path ++ "/" ++ "" := by simp
    rw [hempty, segments_append_slash, parts_empty]
    simp [walkDown]
  have hlonger : ∀ {start : String}, startsWith directory start = true →
      startsWith (directory ++ "/") start = true := by
    intro start hstart
    rw [startsWith_iff] at hstart ⊢
    rw [String.toList_append]
    exact hstart.trans (List.prefix_append _ _)
  cases hroot : startsWith directory "/" with
  | true =>
      rw [resolve_of_startsWith_slash (hlonger hroot), resolve_of_startsWith_slash hroot,
        segments_normalize, segments_normalize, hend]
  | false =>
      by_cases hhome : directory = "~"
      · subst hhome
        rw [resolve_tilde_append (by decide), resolve_tilde, segments_normalize, hend]
      · cases htilde : startsWith directory "~/" with
        | true =>
            obtain ⟨cs, hcs⟩ := (startsWith_iff directory "~/").1 htilde
            obtain ⟨below, rfl⟩ : ∃ below, directory = "~" ++ ("/" ++ below) :=
              ⟨String.ofList cs, String.toList_injective (by simp [← hcs])⟩
            have hbelow : ∀ rest, startsWith ("/" ++ rest) "/" = true := by
              intro rest
              rw [startsWith_iff, String.toList_append]
              exact List.prefix_append _ _
            rw [String.append_assoc, String.append_assoc, resolve_tilde_append (hbelow _),
              resolve_tilde_append (hbelow _), segments_normalize, segments_normalize,
              ← String.append_assoc, ← String.append_assoc, hend, String.append_assoc]
        | false =>
            -- the slash is what is joined if nothing, or another slash, is joined
            obtain ⟨rest, hrest⟩ : ∃ rest, join directory rest = directory ++ "/" := by
              by_cases hlast : directory.toList.getLast? = some '/'
              · exact ⟨"/", by rw [join, if_neg h, if_pos hlast]⟩
              · exact ⟨"", by rw [join, if_neg h, if_neg hlast, String.append_empty]⟩
            rw [← hrest, resolve_join_of_relative h hhome htilde hroot,
              resolve_of_relative h hhome htilde hroot, segments_normalize, segments_normalize,
              join_append _ h, hrest, ← String.append_assoc, hend]

/-- Characters stand for themselves. -/
theorem Text.Glob.spells_chars_iff {cs name : List Char} : Spells (cs.map .char) name ↔ name = cs := by
  induction cs generalizing name with
  | nil => exact spells_nil_iff
  | cons c cs ih =>
      rw [List.map_cons, spells_cons_iff (by simp)]
      constructor
      · rintro ⟨d, rest, rfl, hholds, hrest⟩
        rw [eq_of_beq hholds, ih.1 hrest]
      · rintro rfl
        exact ⟨c, cs, rfl, beq_self_eq_true c, ih.2 rfl⟩

namespace Operands

variable {ctx : Context} {fs : FileSystem} {operand directory pattern : String}
  {place : List String}

/-- A pattern that could be a name stands where that name would. -/
theorem Searches.segments_resolve (h : Searches operand directory pattern)
    (hoperand : Text.Glob.isPattern operand = true) (hname : Path.IsSegment pattern) :
    Path.segments (ctx.resolve operand) = Path.segments (ctx.resolve directory) ++ [pattern] := by
  unfold Context.resolve
  cases h with
  | here =>
      have hne : operand ≠ "~" := by
        rintro rfl
        cases hoperand
      rw [Path.segments_resolve_here, Path.segments_resolve_name hname hne]
  | root =>
      have hjoin : "/" ++ pattern = Path.join "/" pattern := rfl
      rw [hjoin, Path.segments_resolve_join (by decide) hname]
  | inside hne =>
      have hjoin : directory ++ "/" ++ pattern = Path.join (directory ++ "/") pattern := by
        rw [Path.join, if_neg (by simp), if_pos (by simp)]
      rw [hjoin, Path.segments_resolve_join (by simp) hname, Path.segments_resolve_append_slash hne]

/-- No name in a proper tree matches a pattern that could be one only by its length. -/
theorem found_eq_nil (hfs : fs.IsProper) (hslash : '/' ∉ pattern.toList)
    (hname : ¬ Path.IsSegment pattern) : found ctx fs directory pattern = [] := by
  have hliteral : Text.Glob.parse pattern.length pattern.toList = pattern.toList.map .char := by
    by_cases hempty : pattern = ""
    · subst hempty
      rfl
    · by_cases hdot : pattern = "."
      · subst hdot
        rfl
      · by_cases hdots : pattern = ".."
        · subst hdots
          rfl
        · exact absurd ⟨hempty, hdot, hdots, hslash⟩ hname
  rw [List.eq_nil_iff_forall_not_mem]
  intro name hmem
  obtain ⟨⟨listed, hlisted, hin⟩, hspells, -⟩ :=
    ((standsFor_found ctx hfs directory pattern).mem_iff name).1 hmem
  rw [hliteral, Text.Glob.spells_chars_iff] at hspells
  obtain rfl := String.toList_injective hspells
  exact hname ((hfs.names hlisted).2 name hin)

/-- What a pattern finds is not in a directory below which the pattern itself would lie. -/
theorem Searches.not_prefix_or (h : Searches operand directory pattern)
    (hoperand : Text.Glob.isPattern operand = true)
    (hplace : ¬ LiesBelow place (Path.segments (ctx.resolve operand))) :
    ¬ place <+: Path.segments (ctx.resolve directory) ∨
      '/' ∉ pattern.toList ∧ ¬ Path.IsSegment pattern := by
  by_cases hname : Path.IsSegment pattern
  · refine .inl fun hbelow => hplace ?_
    rw [h.segments_resolve hoperand hname]
    refine ⟨hbelow.trans (List.prefix_append _ _), ?_⟩
    rintro rfl
    exact absurd hbelow.length_le (by simp)
  · refine .inr ⟨?_, hname⟩
    cases h <;> assumption

/-- A pattern stands for the same if a directory is refilled that it does not lie below. -/
theorem expandOne_refill (hfs : fs.IsProper) {a : Attributes} {new : Entries}
    (hnew : (Node.directory a new).IsProper)
    (hplace : ¬ LiesBelow place (Path.segments (ctx.resolve operand))) :
    expandOne ctx (fs.refill place new) operand = expandOne ctx fs operand := by
  cases hoperand : Text.Glob.isPattern operand with
  | false => simp [expandOne, hoperand]
  | true =>
      obtain ⟨directory, pattern, hsearch⟩ := exists_searches operand
      have hfound : found ctx (fs.refill place new) directory pattern =
          found ctx fs directory pattern := by
        rcases hsearch.not_prefix_or hoperand hplace with hapart | ⟨hslash, hname⟩
        · rw [found, FileSystem.names_refill new hapart, found]
        · rw [found_eq_nil (hfs.refill hnew place) hslash hname, found_eq_nil hfs hslash hname]
      rw [expandOne_eq hoperand hsearch, expandOne_eq hoperand hsearch, hfound]

theorem expand_refill (hfs : fs.IsProper) {a : Attributes} {new : Entries}
    (hnew : (Node.directory a new).IsProper) {operands : List String}
    (hplace : ∀ operand ∈ operands, ¬ LiesBelow place (Path.segments (ctx.resolve operand))) :
    expand ctx (fs.refill place new) operands = expand ctx fs operands := by
  exact List.flatMap_congr fun operand ho => expandOne_refill hfs hnew (hplace operand ho)

/-- What a pattern stands for does not lie below a directory that it does not lie below, except for a
bare `~`. -/
theorem not_liesBelow_of_mem_expand (hfs : fs.IsProper) {operands : List String}
    (hplace : ∀ operand ∈ operands, ¬ LiesBelow place (Path.segments (ctx.resolve operand)))
    (hhome : "~" ∈ expand ctx fs operands → ¬ LiesBelow place (Path.segments ctx.home))
    {meant : String} (hmeant : meant ∈ expand ctx fs operands) :
    ¬ LiesBelow place (Path.segments (ctx.resolve meant)) := by
  obtain ⟨operand, hmem, hone⟩ := List.mem_flatMap.1 hmeant
  have hoperand := hplace operand hmem
  cases hpattern : Text.Glob.isPattern operand with
  | false =>
      rw [expandOne, hpattern, if_neg Bool.false_ne_true, List.mem_singleton] at hone
      rwa [hone]
  | true =>
      obtain ⟨directory, pattern, hsearch⟩ := exists_searches operand
      rw [expandOne_eq hpattern hsearch] at hone
      by_cases hfound : found ctx fs directory pattern = []
      · rw [if_pos hfound, List.mem_singleton] at hone
        rwa [hone]
      · rw [if_neg hfound] at hone
        obtain ⟨name, hname, rfl⟩ := List.mem_map.1 hone
        by_cases hbare : '/' ∈ operand.toList ∨ name ≠ "~"
        · obtain ⟨⟨listed, hlisted, hin⟩, -⟩ :=
            ((standsFor_found ctx hfs directory pattern).mem_iff name).1 hname
          have hsegment := (hfs.names hlisted).2 name hin
          rcases hsearch.not_prefix_or hpattern hoperand with hapart | ⟨hslash, hnot⟩
          · rw [resolve_asOperand hsearch hsegment hbare, Path.segments_ofSegments]
            · exact not_liesBelow_append_singleton hapart name
            · intro n hn
              rcases List.mem_append.1 hn with hn | hn
              · exact Path.isSegment_of_mem_segments hn
              · rwa [List.mem_singleton.1 hn]
          · exact absurd (found_eq_nil hfs hslash hnot) hfound
        · obtain ⟨hslash, htilde⟩ := not_or.1 hbare
          obtain rfl := Decidable.not_not.1 htilde
          have hwritten : asOperand operand directory "~" = "~" := if_neg hslash
          rw [hwritten] at hmeant ⊢
          rw [Context.resolve, Path.resolve_tilde]
          exact hhome hmeant

end Operands

namespace Command

section Questions

variable {ctx : Context} {fs : FileSystem} {place : List String} (new : Entries)

theorem runCd_refill {words : List String}
    (h : ¬ LiesBelow place (Path.segments (ctx.resolve (words.headD "~")))) :
    runCd ctx words (fs.refill place new) = runCd ctx words fs := by
  unfold runCd
  dsimp only
  rw [FileSystem.stat?_refill new h]

theorem readOperand_refill {operand : String}
    (h : ¬ LiesBelow place (Path.segments (ctx.resolve operand))) :
    readOperand ctx (fs.refill place new) operand = readOperand ctx fs operand := by
  have hlooks := FileSystem.looksLike_refill fs new h
  unfold readOperand
  generalize fs.find? (ctx.resolve operand) = node?,
    (fs.refill place new).find? (ctx.resolve operand) = other? at hlooks
  cases hlooks <;> rfl

theorem readOperands_refill (command : String) {operands : List String}
    (h : ∀ operand ∈ operands, ¬ LiesBelow place (Path.segments (ctx.resolve operand))) :
    readOperands ctx (fs.refill place new) command operands =
      readOperands ctx fs command operands := by
  have hread : operands.map (fun operand => (operand, readOperand ctx (fs.refill place new) operand)) =
      operands.map fun operand => (operand, readOperand ctx fs operand) :=
    List.map_congr_left fun operand ho => by rw [readOperand_refill new (h operand ho)]
  rw [readOperands, hread, ← readOperands]

theorem windowPart_refill (command : String) (w : Window) (titled : Bool) {operand : String}
    (h : ¬ LiesBelow place (Path.segments (ctx.resolve operand))) :
    windowPart ctx (fs.refill place new) command w titled operand =
      windowPart ctx fs command w titled operand := by
  rw [windowPart, readOperand_refill new h, windowPart]

/-- The entries of another directory that does not lie below are the same. -/
theorem listed_refill (hfs : fs.IsProper) (all : Bool) {full : String}
    (h : ¬ place <+: Path.segments full) (node : Stat) :
    listed all (fs.refill place new) full node = listed all fs full node := by
  have hparent : ¬ LiesBelow place (Path.segments (Path.dirname full)) := by
    rintro ⟨hbelow, -⟩
    rw [Path.segments_dirname] at hbelow
    exact h (hbelow.trans (List.dropLast_prefix _))
  unfold listed
  dsimp only
  rw [FileSystem.stat?_refill new hparent, FileSystem.names_refill new h]
  refine congrArg₂ (· ++ ·) rfl ?_
  cases hnames : fs.names full with
  | error e => rfl
  | ok names =>
      refine List.filterMap_congr fun name hname => ?_
      have hsegment := (hfs.names hnames).2 name (List.mem_filter.1 hname).1
      rw [FileSystem.stat?_refill new]
      rw [Path.segments_join _ hsegment]
      exact not_liesBelow_append_singleton h name

/-- What is read for an operand does not tell what the directory holds, unless the search goes below
directories and starts there or above. -/
theorem sourceOf_refill (hfs : fs.IsProper) {recursive : Bool} {operand : String}
    (h : ¬ LiesBelow place (Path.segments (ctx.resolve operand)))
    (habove : recursive = true → ¬ Path.segments (ctx.resolve operand) <+: place) :
    sourceOf ctx (fs.refill place new) recursive operand = sourceOf ctx fs recursive operand := by
  unfold sourceOf
  dsimp only
  rw [FileSystem.stat?_refill new h, FileSystem.text_refill new h]
  cases recursive with
  | false => rfl
  | true =>
      have habove := habove rfl
      have hbelow := not_below_of_not_above h habove
      rw [FileSystem.walk_refill_apart new hbelow habove]
      cases hwalk : fs.walk (ctx.resolve operand) with
      | error e => rfl
      | ok walked =>
          have hmap : walked.map (sourceBelow ctx (fs.refill place new) operand (ctx.resolve operand)) =
              walked.map (sourceBelow ctx fs operand (ctx.resolve operand)) := by
            refine List.map_congr_left fun node hnode => ?_
            have hnot : ¬ LiesBelow place (Path.segments node.path) := by
              rintro ⟨hplace, -⟩
              exact (List.prefix_or_prefix_of_prefix hplace
                (hfs.stat?_of_mem_walk hwalk hnode).2).elim hbelow habove
            unfold sourceBelow
            rw [FileSystem.text_refill new hnot]
          dsimp only
          rw [hmap]

/-- Whether a node is a file that may not be read. -/
def isHidden (ctx : Context) (node : Stat) : Bool := node.isFile && Access.denied ctx node

/-- What a search that goes below directories says about a file that may not be read. -/
def complaint (ctx : Context) (operand : String) (node : Stat) : String :=
  "grep: " ++ labelBelow operand (ctx.resolve operand) node.path ++ ": " ++ "Permission denied"

/-- What is said about one node that a walk meets. -/
theorem errors_sourceBelow {node : Stat} (hnode : fs.stat? node.path = some node)
    (operand : String) : (sourceBelow ctx fs operand (ctx.resolve operand) node).errors =
      if isHidden ctx node then [complaint ctx operand node] else [] := by
  obtain ⟨there, hthere, hstat⟩ := Option.map_eq_some_iff.1 hnode
  have hkind : node.isDirectory = there.isDirectory := by
    rw [← hstat]
    rfl
  cases there with
  | directory => simp [sourceBelow, isHidden, Stat.isFile, hkind, Node.isDirectory, Sources.none]
  | file a contents =>
      have htext : fs.text node.path = .ok (Text.Utf8.decode contents) := by
        rw [FileSystem.text, FileSystem.contents, hthere]
        rfl
      simp only [sourceBelow, isHidden, Stat.isFile, hkind, Node.isDirectory, htext, Bool.not_false,
        Bool.true_and, Bool.false_eq_true, if_false]
      cases Access.denied ctx node <;> rfl

/-- A search that goes below directories complains about each file of the root user that a walk meets. -/
theorem errors_sourceOf_directory (hfs : fs.IsProper) {operand : String}
    (hdirectory : fs.isDirectory (ctx.resolve operand) = true) {walked : List Stat}
    (hwalk : fs.walk (ctx.resolve operand) = .ok walked) :
    (sourceOf ctx fs true operand).errors =
      (walked.filter (isHidden ctx)).map (complaint ctx operand) := by
  rw [FileSystem.isDirectory, Option.any_eq_true] at hdirectory
  obtain ⟨top, htop, hkind⟩ := hdirectory
  have hstat : fs.stat? (ctx.resolve operand) =
      some (fs.statOf (Path.segments (ctx.resolve operand)) top) := by
    rw [FileSystem.stat?, htop, Option.map_some]
  have hdir : (fs.statOf (Path.segments (ctx.resolve operand)) top).isDirectory = true := hkind
  have hfilter : ∀ nodes : List Stat, nodes ⊆ walked →
      nodes.flatMap (fun node => (sourceBelow ctx fs operand (ctx.resolve operand) node).errors) =
        (nodes.filter (isHidden ctx)).map (complaint ctx operand) := by
    intro nodes hnodes
    induction nodes with
    | nil => rfl
    | cons node rest ih =>
        obtain ⟨hnode, hrest⟩ := List.cons_subset.1 hnodes
        rw [List.flatMap_cons, ih hrest, List.filter_cons,
          errors_sourceBelow (hfs.stat?_of_mem_walk hwalk hnode).1]
        split <;> rfl
  unfold sourceOf
  dsimp only
  rw [hstat]
  simp only [hdir, if_true, hwalk, errors_foldl_append, List.flatMap_map, Sources.none, List.nil_append]
  exact hfilter walked (List.Subset.refl _)

theorem findAmong_append (ctx : Context) (c : Criteria) (depth : Nat) (display : String)
    (es others : List (String × Node)) : findAmong ctx c depth display (es ++ others) =
      (findAmong ctx c depth display es).append (findAmong ctx c depth display others) := by
  induction es with
  | nil => rfl
  | cons entry rest ih =>
      obtain ⟨name, node⟩ := entry
      rw [List.cons_append, findAmong, findAmong, ih]
      simp [Found.append]

variable {a : Attributes} {es : Entries} (hctx : ctx.elevated = false)
  (hclosed : fs.root.find? place = some (.directory a es)) (howner : a.owner = Context.rootUser)

include hctx hclosed howner

/-- The directory is not listed, and what is listed does not lie below it. -/
theorem listTarget_refill (hfs : fs.IsProper) (style : ListingStyle) (titled : Bool)
    {target : String} (h : ¬ LiesBelow place (Path.segments (ctx.resolve target))) :
    listTarget ctx (fs.refill place new) style titled target =
      listTarget ctx fs style titled target := by
  unfold listTarget
  dsimp only
  rw [FileSystem.stat?_refill new h]
  cases hstat : fs.stat? (ctx.resolve target) with
  | none => rfl
  | some node =>
      dsimp only
      by_cases hbelow : place <+: Path.segments (ctx.resolve target)
      · have hsame : Path.segments (ctx.resolve target) = place :=
          Decidable.not_not.1 fun hne => h ⟨hbelow, hne⟩
        have hdenied : Access.denied ctx node = true := by
          rw [FileSystem.stat?, FileSystem.find?, hsame, hclosed] at hstat
          obtain rfl := Option.some.inj hstat
          simp [Access.denied, FileSystem.statOf, Node.attributes, howner, hctx]
        simp only [hdenied, if_true]
      · rw [listed_refill new hfs style.all hbelow]

omit hclosed in
/-- A search that comes to the directory on its way does not look into it. -/
theorem findFrom_refill (c : Criteria) {below : List String} {top : Node}
    (htop : top.find? below = some (.directory a es)) (depth : Nat) (display : String) :
    findFrom ctx c depth display (top.modify (Node.refill new) below) =
      findFrom ctx c depth display top := by
  induction below generalizing top depth display with
  | nil =>
      obtain rfl := Option.some.inj htop
      have haccept : ∀ others, c.accept display (.directory a others) =
          c.accept display (.directory a es) := fun others => rfl
      rw [Node.modify, Node.refill, findFrom, findFrom, haccept]
      simp [howner, hctx]
  | cons name rest ih =>
      cases top with
      | file => cases htop
      | directory b entries =>
          rw [Node.find?_cons_directory] at htop
          obtain ⟨child, hchild, hrest⟩ := Option.bind_eq_some_iff.1 htop
          have hamong : findAmong ctx c (depth + 1) display
              (Entries.modify name (Node.modify (Node.refill new) rest) entries) =
              findAmong ctx c (depth + 1) display entries := by
            obtain ⟨before, after, hentries, hmodify⟩ := Entries.exists_modify_eq hchild
            rw [hmodify, hentries, findAmong_append, findAmong_append, findAmong, findAmong,
              ih hrest]
          have haccept : ∀ others, c.accept display (.directory b others) =
              c.accept display (.directory b entries) := fun others => rfl
          rw [Node.modify, findFrom, findFrom, haccept, hamong]

/-- What `find` tells about an operand does not tell what the directory holds. -/
theorem findAt_refill (c : Criteria) {start : String}
    (h : ¬ LiesBelow place (Path.segments (ctx.resolve start))) :
    findAt ctx c (fs.refill place new) start = findAt ctx c fs start := by
  unfold findAt
  by_cases habove : Path.segments (ctx.resolve start) <+: place
  · obtain ⟨below, rfl⟩ := habove
    rw [Node.find?_append] at hclosed
    obtain ⟨top, htop, hbelow⟩ := Option.bind_eq_some_iff.1 hclosed
    have hfind : fs.find? (ctx.resolve start) = some top := htop
    rw [FileSystem.find?_refill, Node.find?_modify_above, htop, hfind]
    exact findFrom_refill new hctx howner c hbelow 0 start
  · rw [FileSystem.find?_refill_apart new (not_below_of_not_above h habove) habove]

end Questions

end Command

end PracticeShell
