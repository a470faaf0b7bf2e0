import PracticeShell.Proofs.Command.Steps
import PracticeShell.Proofs.Guard
import PracticeShell.Proofs.Path.Resolving
import PracticeShell.Proofs.Tree.Order

/-!
# What `find` shows

A search carries along how a node is shown, and how deep it lies, but not its place; a walk carries
along the place. Both go through a tree in the same order, and what the search tells about a node
depends only on the names that lead to it from the start (`findFrom_eq_findings`). So `find` tells what
a walk of its start meets, less what lies too deep or behind a directory that is barred, and what it
shows leads back to what it means (`find_follows_walk`).
-/

namespace PracticeShell

open FileTree Run

/-- What is joined to a path is not empty. -/
theorem Path.join_ne {directory : String} (h : directory ≠ "") (name : String) :
    join directory name ≠ "" := by
  unfold join
  rw [if_neg h]
  split <;> simp [h]

namespace Command

/-- How a node is shown that is reached along names from where the search starts. -/
def shownAlong (start : String) (below : List String) : String := below.foldl Path.join start

/-- Whether there is a directory of the root user on the way along names from a node, the node itself
included but not what is reached, and the context is not elevated. -/
def barredAlong (ctx : Context) (top : Node) (below : List String) : Bool :=
  !ctx.elevated && (List.range below.length).any fun k =>
    (top.find? (below.take k)).any (·.attributes.owner == Context.rootUser)

/-- Whether a search from a node shows what it meets along names. -/
def shows (ctx : Context) (c : Criteria) (depth : Nat) (display : String) (top : Node)
    (below : List String) (node : Node) : Bool :=
  c.accept (shownAlong display below) node && c.depth.all (depth + below.length ≤ ·) &&
    !barredAlong ctx top below

/-- Whether a search from a node comes to a directory along names that it would look into, but may
not. -/
def stopsAt (ctx : Context) (c : Criteria) (depth : Nat) (top : Node) (below : List String)
    (node : Node) : Bool :=
  node.isDirectory && (node.attributes.owner == Context.rootUser && !ctx.elevated) &&
    c.depth.all (depth + below.length < ·) && !barredAlong ctx top below

/-- The message about a directory that is not looked into. -/
def refusal (display : String) : String := "find: '" ++ display ++ "': Permission denied"

/-- What is told about the nodes that a walk meets. -/
def findings (ctx : Context) (c : Criteria) (depth : Nat) (display : String) (top : Node)
    (place : List String) (walked : List (List String × Node)) : Found where
  paths := (walked.filter fun met =>
    shows ctx c depth display top (met.1.drop place.length) met.2).map fun met =>
      shownAlong display (met.1.drop place.length)
  errors := (walked.filter fun met =>
    stopsAt ctx c depth top (met.1.drop place.length) met.2).map fun met =>
      refusal (shownAlong display (met.1.drop place.length))

section

variable {ctx : Context} {c : Criteria} {depth : Nat} {display : String} {top : Node}
  {place : List String}

@[simp]
theorem barredAlong_nil (ctx : Context) (top : Node) : barredAlong ctx top [] = false := by
  simp [barredAlong]

/-- Nothing below a directory that may not be looked into is reached. -/
theorem barredAlong_of_denied (top : Node) (h : (top.attributes.owner == Context.rootUser && !ctx.elevated) = true)
    (name : String) (below : List String) : barredAlong ctx top (name :: below) = true := by
  rw [Bool.and_eq_true] at h
  rw [barredAlong, List.length_cons, List.range_succ_eq_map, List.any_cons, List.take_zero,
    Node.find?, Option.any_some, h.1, h.2]
  rfl

theorem barredAlong_cons (ctx : Context) (a : Attributes) {es : Entries} {name : String}
    {child : Node} (hchild : Entries.get? es name = some child) (below : List String) :
    barredAlong ctx (.directory a es) (name :: below) =
      ((a.owner == Context.rootUser && !ctx.elevated) || barredAlong ctx child below) := by
  have hnext : ∀ k, Node.find? ((name :: below).take (k + 1)) (.directory a es) =
      child.find? (below.take k) := by
    intro k
    rw [List.take_succ_cons, Node.find?_cons_directory, hchild, Option.bind_some]
  simp only [barredAlong, List.length_cons, List.range_succ_eq_map, List.any_cons, List.any_map,
    Function.comp_def, Nat.succ_eq_add_one, hnext, List.take_zero, Node.find?, Option.any_some,
    Node.attributes]
  cases ctx.elevated <;> simp

theorem findings_append (walked others : List (List String × Node)) :
    findings ctx c depth display top place (walked ++ others) =
      (findings ctx c depth display top place walked).append
        (findings ctx c depth display top place others) := by
  simp [findings, Found.append]

/-- Of what nothing is told, nothing is listed. -/
theorem findings_eq_nil {walked : List (List String × Node)}
    (h : ∀ met ∈ walked, shows ctx c depth display top (met.1.drop place.length) met.2 = false ∧
      stopsAt ctx c depth top (met.1.drop place.length) met.2 = false) :
    findings ctx c depth display top place walked = ⟨[], []⟩ := by
  have hshows := List.filter_eq_nil_iff.2 fun met hmet => Bool.eq_false_iff.1 (h met hmet).1
  have hstops := List.filter_eq_nil_iff.2 fun met hmet => Bool.eq_false_iff.1 (h met hmet).2
  rw [findings, hshows, hstops]
  rfl

/-- What is told about the node itself comes first. -/
theorem findings_cons (hdepth : c.depth.all (depth ≤ ·)) (others : List (List String × Node)) :
    findings ctx c depth display top place ((place, top) :: others) =
      Found.append ⟨if c.accept display top then [display] else [],
        if top.isDirectory && (top.attributes.owner == Context.rootUser && !ctx.elevated) &&
          c.depth.all (depth < ·) then [refusal display] else []⟩
        (findings ctx c depth display top place others) := by
  have hshows : shows ctx c depth display top [] top = c.accept display top := by
    rw [shows, barredAlong_nil, List.length_nil, Nat.add_zero, hdepth]
    simp [shownAlong]
  have hstops : stopsAt ctx c depth top [] top =
      (top.isDirectory && (top.attributes.owner == Context.rootUser && !ctx.elevated) &&
        c.depth.all (depth < ·)) := by
    rw [stopsAt, barredAlong_nil, List.length_nil, Nat.add_zero]
    simp
  simp only [findings, Found.append, List.filter_cons, List.drop_length, hshows, hstops]
  congr 1
  · split <;> simp [shownAlong]
  · split <;> simp [shownAlong]

/-- What lies below an entry is told in the same way from the entry and from its directory. -/
theorem findings_child {a : Attributes} {es : Entries} {name : String} {child : Node}
    (hchild : Entries.get? es name = some child)
    (hopen : (a.owner == Context.rootUser && !ctx.elevated) = false)
    {walked : List (List String × Node)} (hwalked : ∀ met ∈ walked, place ++ [name] <+: met.1) :
    findings ctx c (depth + 1) (Path.join display name) child (place ++ [name]) walked =
      findings ctx c depth display (.directory a es) place walked := by
  have hdrop : ∀ met ∈ walked, met.1.drop place.length =
      name :: met.1.drop (place ++ [name]).length := by
    intro met hmet
    obtain ⟨below, hbelow⟩ := hwalked met hmet
    rw [← hbelow]
    simp
  have hshown : ∀ met ∈ walked, shownAlong (Path.join display name)
      (met.1.drop (place ++ [name]).length) = shownAlong display (met.1.drop place.length) := by
    intro met hmet
    rw [hdrop met hmet]
    rfl
  have hlength : ∀ met ∈ walked, depth + 1 + (met.1.drop (place ++ [name]).length).length =
      depth + (met.1.drop place.length).length := by
    intro met hmet
    rw [hdrop met hmet, List.length_cons]
    omega
  have hbarred : ∀ met ∈ walked, barredAlong ctx child (met.1.drop (place ++ [name]).length) =
      barredAlong ctx (.directory a es) (met.1.drop place.length) := by
    intro met hmet
    rw [hdrop met hmet, barredAlong_cons ctx a hchild, hopen, Bool.false_or]
  unfold findings
  congr 1
  · rw [List.filter_congr fun met hmet => by
      rw [shows, hshown met hmet, hlength met hmet, hbarred met hmet, ← shows]]
    exact List.map_congr_left fun met hmet => hshown met (List.mem_filter.1 hmet).1
  · rw [List.filter_congr fun met hmet => by
      rw [stopsAt, hlength met hmet, hbarred met hmet, ← stopsAt]]
    exact List.map_congr_left fun met hmet => by rw [hshown met (List.mem_filter.1 hmet).1]

end

/-- A depth that is reached is not one that there is more below. -/
theorem any_le_eq_not_all_lt (limit : Option Nat) (depth : Nat) :
    limit.any (· ≤ depth) = !limit.all (depth < ·) := by
  cases limit with
  | none => rfl
  | some k =>
      rw [Option.any_some, Option.all_some, ← decide_not]
      simp

/-- Below a depth that there is nothing more below, all is too deep. -/
theorem all_lt_mono {limit : Option Nat} {depth other : Nat} (h : depth ≤ other)
    (hmore : limit.all (depth < ·) = false) : limit.all (other < ·) = false := by
  cases limit with
  | none => cases hmore
  | some k =>
      rw [Option.all_some, decide_eq_false_iff_not] at hmore ⊢
      omega

mutual

/-- A search from a node tells what it has to tell about a walk of it. -/
theorem findFrom_eq_findings (ctx : Context) (c : Criteria) (depth : Nat) (display : String)
    (place : List String) (node : Node) (hnode : node.IsProper) (hdepth : c.depth.all (depth ≤ ·)) :
    findFrom ctx c depth display node =
      findings ctx c depth display node place (node.walk place) := by
  cases node with
  | file a contents =>
      rw [findFrom, Node.walk, findings_cons hdepth]
      simp [Node.isDirectory, Found.append, findings]
  | directory a es =>
      rw [findFrom, Node.walk, findings_cons hdepth]
      dsimp only
      have hbelow : ∀ met ∈ Node.walkEntries place es, ∃ name rest,
          met.1.drop place.length = name :: rest := by
        intro met hmet
        obtain ⟨name, -, rest, hrest⟩ := Node.place_prefix_walkEntries hmet
        exact ⟨name, rest, by rw [← hrest]; simp⟩
      rw [any_le_eq_not_all_lt]
      by_cases hmore : c.depth.all (depth < ·) = true
      · rw [hmore, Bool.not_true, if_neg Bool.false_ne_true]
        by_cases hdenied : (a.owner == Context.rootUser && !ctx.elevated) = true
        · -- nothing that is below is reached
          rw [if_pos hdenied, findings_eq_nil]
          · simp [Found.append, Node.isDirectory, Node.attributes, hdenied, refusal]
          · intro met hmet
            obtain ⟨name, rest, hrest⟩ := hbelow met hmet
            have hbarred : barredAlong ctx (.directory a es) (name :: rest) = true :=
              barredAlong_of_denied (.directory a es) hdenied name rest
            rw [shows, stopsAt, hrest, hbarred]
            simp
        · rw [if_neg hdenied]
          have hopen := Bool.eq_false_iff.2 hdenied
          have hnames := (Node.IsProper.names_entries hnode).1
          rw [findAmong_eq_findings ctx c depth display place a es es ?_ hmore hopen]
          · simp [Found.append, Node.attributes, hopen]
          · intro name child hmem
            have hchild := Entries.get?_of_mem hnames hmem
            exact ⟨hchild, hnode.entry hchild⟩
      · -- all that is below lies too deep
        rw [Bool.not_eq_true] at hmore
        rw [hmore, Bool.not_false, if_pos rfl, findings_eq_nil]
        · simp [Found.append]
        · intro met hmet
          obtain ⟨name, rest, hrest⟩ := hbelow met hmet
          have htoo : ∀ n, c.depth.all (depth + (n + 1) ≤ ·) = false := fun n =>
            all_lt_mono (Nat.le_add_right depth n) hmore
          have hlt : c.depth.all (depth + (name :: rest).length < ·) = false :=
            all_lt_mono (Nat.le_add_right _ _) hmore
          rw [shows, stopsAt, hrest, hlt, List.length_cons, htoo]
          simp

/-- A search of entries tells what it has to tell about a walk of them. -/
theorem findAmong_eq_findings (ctx : Context) (c : Criteria) (depth : Nat) (display : String)
    (place : List String) (a : Attributes) (es : Entries) (rest : List (String × Node))
    (hrest : ∀ name child, (name, child) ∈ rest → Entries.get? es name = some child ∧ child.IsProper)
    (hdepth : c.depth.all (depth + 1 ≤ ·))
    (hopen : (a.owner == Context.rootUser && !ctx.elevated) = false) :
    findAmong ctx c (depth + 1) display rest =
      findings ctx c depth display (.directory a es) place (Node.walkEntries place rest) := by
  cases rest with
  | nil => rfl
  | cons entry rest =>
      obtain ⟨name, child⟩ := entry
      obtain ⟨hchild, hproper⟩ := hrest name child (by simp)
      rw [findAmong, Node.walkEntries, findings_append,
        findFrom_eq_findings ctx c (depth + 1) (Path.join display name) (place ++ [name]) child hproper
          hdepth,
        findings_child hchild hopen fun met hmet => Node.place_prefix_walk hmet,
        findAmong_eq_findings ctx c depth display place a es rest
          (fun n node hmem => hrest n node (List.mem_cons_of_mem _ hmem)) hdepth hopen]

end

/-- Whether words ask for a kind of node, directories or files, or none, and for a depth, or none, and
for nothing else. -/
def Asks (words : List String) (kind : Option Bool) (depth : Option Nat) : Prop :=
  ∃ predicates, readPredicates [] words = .ok predicates ∧
    predicates.lookup "-name" = none ∧ predicates.lookup "-iname" = none ∧
    predicates.lookup "-type" = kind.map (fun directory => if directory then "d" else "f") ∧
    match depth with
    | none => predicates.lookup "-maxdepth" = none
    | some k => ∃ text, predicates.lookup "-maxdepth" = some text ∧
        Text.Digit.isDigits text = true ∧ Text.Digit.readInt text = .ok k

/-- The words for a kind. -/
def kindWords : Option Bool → List String
  | none => []
  | some directory => ["-type", if directory then "d" else "f"]

/-- The words for a depth, which is written in some way. -/
def depthWords : Option (String × Nat) → List String
  | none => []
  | some (text, _) => ["-maxdepth", text]

/-- The words for a kind and for a depth ask for them, in either order. -/
theorem asks_of_words (kind : Option Bool) (limit : Option (String × Nat))
    (h : ∀ text k, limit = some (text, k) →
      Text.Digit.isDigits text = true ∧ Text.Digit.readInt text = .ok k) :
    Asks (kindWords kind ++ depthWords limit) kind (limit.map (·.2)) ∧
      Asks (depthWords limit ++ kindWords kind) kind (limit.map (·.2)) := by
  cases limit with
  | none => cases kind with
    | none => exact ⟨⟨_, rfl, rfl, rfl, rfl, rfl⟩, ⟨_, rfl, rfl, rfl, rfl, rfl⟩⟩
    | some directory =>
        cases directory <;> exact ⟨⟨_, rfl, rfl, rfl, rfl, rfl⟩, ⟨_, rfl, rfl, rfl, rfl, rfl⟩⟩
  | some limit =>
      obtain ⟨text, k⟩ := limit
      have hread := h text k rfl
      cases kind with
      | none =>
          exact ⟨⟨_, rfl, rfl, rfl, rfl, text, rfl, hread⟩, ⟨_, rfl, rfl, rfl, rfl, text, rfl, hread⟩⟩
      | some directory =>
          cases directory <;>
            exact ⟨⟨_, rfl, rfl, rfl, rfl, text, rfl, hread⟩, ⟨_, rfl, rfl, rfl, rfl, text, rfl, hread⟩⟩

/-- The names that lead from where a search starts to a node. -/
def namesBelow (ctx : Context) (start : String) (node : Stat) : List String :=
  (Path.segments node.path).drop (Path.segments (ctx.resolve start)).length

/-- How a node is shown by a search. -/
def shownAs (ctx : Context) (start : String) (node : Stat) : String :=
  shownAlong start (namesBelow ctx start node)

/-- What a search tells, as it follows from a walk of what the start means. -/
structure Follows (ctx : Context) (start : String) (kind : Option Bool) (depth : Option Nat)
    (top : Node) (walked : List Stat) (outcome : Outcome) : Prop where
  /-- The walk meets each node once. -/
  distinct : (walked.map (·.path)).Nodup
  /-- Shown are, in the order of the walk, the nodes of the kind, not too deep, on the way to which no
  directory is barred; refused are the directories of the root user among those that are reached and
  not at the greatest depth, each once. -/
  told : outcome = .ofLines
    ((walked.filter fun node => kind.all (· == node.isDirectory) &&
      depth.all ((namesBelow ctx start node).length ≤ ·) &&
      !barredAlong ctx top (namesBelow ctx start node)).map (shownAs ctx start))
    ((walked.filter fun node => node.isDirectory &&
      (node.owner == Context.rootUser && !ctx.elevated) &&
      depth.all ((namesBelow ctx start node).length < ·) &&
      !barredAlong ctx top (namesBelow ctx start node)).map fun node =>
        refusal (shownAs ctx start node))
  /-- What a node is shown as means that node. -/
  resolves : ∀ node ∈ walked, ctx.resolve (shownAs ctx start node) = node.path

/-- Names written after a start lead on from where it leads. -/
theorem segments_resolve_shownAlong (ctx : Context) {start : String} (hstart : start ≠ "")
    {below : List String} (hbelow : ∀ name ∈ below, Path.IsSegment name) :
    Path.segments (ctx.resolve (shownAlong start below)) =
      Path.segments (ctx.resolve start) ++ below := by
  induction below generalizing start with
  | nil => simp [shownAlong]
  | cons name rest ih =>
      have hname := hbelow name (by simp)
      have hjoin : Path.join start name ≠ "" := Path.join_ne hstart name
      rw [shownAlong, List.foldl_cons, ← shownAlong, ih hjoin fun n hn => hbelow n (by simp [hn]),
        Context.resolve, Path.segments_resolve_join hstart hname, List.append_assoc]
      rfl

theorem startsWith_of_readPredicates {done predicates : List (String × String)}
    {words : List String} (h : readPredicates done words = .ok predicates) :
    ∀ word ∈ words.head?, Path.startsWith word "-" = true := by
  cases words with
  | nil => simp
  | cons word rest =>
      unfold readPredicates at h
      split at h
      · cases h
      · rename_i hword
        have hmem : word ∈ Arguments.valueOptions := by
          rw [not_or] at hword
          simpa using hword.2
        have hall : ∀ option ∈ Arguments.valueOptions, Path.startsWith option "-" = true := by
          decide
        simpa using hall word hmem

/-- What a walk meets, as what is known of it. -/
theorem namesBelow_statOf (ctx : Context) {fs : FileSystem} (hfs : fs.IsProper) {start : String}
    {top : Node} (htop : fs.find? (ctx.resolve start) = some top) {met : List String × Node}
    (hmet : met ∈ top.walk (Path.segments (ctx.resolve start))) :
    namesBelow ctx start (fs.statOf met.1 met.2) =
      met.1.drop (Path.segments (ctx.resolve start)).length ∧
      ∀ name ∈ met.1.drop (Path.segments (ctx.resolve start)).length, Path.IsSegment name := by
  have hnames := Node.IsProper.isSegment_of_find? hfs (hfs.find?_of_mem_walk_at htop hmet)
  have hpath : Path.segments (fs.statOf met.1 met.2).path = met.1 := Path.segments_ofSegments hnames
  exact ⟨by rw [namesBelow, hpath], fun name hname => hnames name (List.mem_of_mem_drop hname)⟩

/-- The walk of a proper tree meets each node once. -/
theorem nodup_walk {fs : FileSystem} (hfs : fs.IsProper) {path : String} {top : Node}
    (htop : fs.find? path = some top) :
    ((top.walk (Path.segments path)).map fun met => Path.ofSegments met.1).Nodup := by
  have hnames : ∀ met ∈ top.walk (Path.segments path), ∀ name ∈ met.1, Path.IsSegment name :=
    fun met hmet => Node.IsProper.isSegment_of_find? hfs (hfs.find?_of_mem_walk_at htop hmet)
  rw [List.nodup_iff_pairwise_ne, List.pairwise_map]
  refine (Node.pairwise_walk (Node.IsProper.find? hfs htop) _).imp_of_mem
    fun {earlier later} hearlier hlater hapart heq => ?_
  have hsame := Path.ofSegments_injective (hnames earlier hearlier) (hnames later hlater) heq
  exact hapart (hsame ▸ List.prefix_rfl)

/-- Criteria that ask for a kind of node and for a depth, and for nothing else. -/
def criteriaOf (kind : Option Bool) (depth : Option Nat) : Criteria :=
  ⟨none, none, kind.map fun directory => if directory then "d" else "f", depth⟩

theorem accept_criteriaOf (kind : Option Bool) (depth : Option Nat) (display : String) (node : Node) :
    (criteriaOf kind depth).accept display node = kind.all (· == node.isDirectory) := by
  cases kind with
  | none => rfl
  | some directory => cases directory <;> cases node <;> rfl

/-- The search from one start, with words that ask for a kind and a depth. -/
theorem run_runFind_single (ctx : Context) {fs : FileSystem} {start : String}
    (hword : Path.startsWith start "-" = false) {rest : List String} {kind : Option Bool}
    {depth : Option Nat} (hasks : Asks rest kind depth) :
    (runFind ctx (start :: rest)).run fs =
      .ok (.ofLines (findAt ctx (criteriaOf kind depth) fs start).paths
        (findAt ctx (criteriaOf kind depth) fs start).errors) fs := by
  obtain ⟨predicates, hread, hname, hiname, hkind, hdepth⟩ := hasks
  have hhead := startsWith_of_readPredicates hread
  have hnone : rest.takeWhile (fun word => !Path.startsWith word "-") = [] ∧
      rest.dropWhile (fun word => !Path.startsWith word "-") = rest := by
    cases rest with
    | nil => exact ⟨rfl, rfl⟩
    | cons word others =>
        have hdash : Path.startsWith word "-" = true := hhead word (by simp)
        simp [hdash]
  have hstarts : (start :: rest).takeWhile (fun word => !Path.startsWith word "-") = [start] ∧
      (start :: rest).dropWhile (fun word => !Path.startsWith word "-") = rest := by
    simp [hword, hnone]
  have hunknown : unknownKind? predicates = none := by
    rw [unknownKind?, hkind]
    cases kind with
    | none => rfl
    | some directory => cases directory <;> rfl
  have hdepthOf : (depthOf predicates).run fs = .ok (.ok depth) fs := by
    unfold depthOf
    cases depth with
    | none => rw [hdepth]; rfl
    | some k =>
        obtain ⟨text, htext, hdigits, hint⟩ := hdepth
        rw [htext]
        simp [hdigits, hint]
  unfold runFind
  dsimp only
  rw [hstarts.1, hstarts.2, hread]
  dsimp only
  rw [hunknown]
  dsimp only
  rw [run_bind_of_ok hdepthOf]
  dsimp only
  rw [run_get_bind, hname, hiname, hkind]
  simp only [List.isEmpty_cons, Bool.false_eq_true, if_false, List.map_cons, List.map_nil,
    List.foldl_cons, List.foldl_nil, Found.append, List.nil_append]
  rfl

/-- What is chosen from a list and told can be chosen and told by what is known of it. -/
theorem map_filter_eq_known {α β γ : Type} {l : List α} {known : α → β} {chosen : α → Bool}
    {chosenBy : β → Bool} {told : α → γ} {toldBy : β → γ}
    (hchosen : ∀ x ∈ l, chosen x = chosenBy (known x)) (htold : ∀ x ∈ l, told x = toldBy (known x)) :
    (l.filter chosen).map told = ((l.map known).filter chosenBy).map toldBy := by
  rw [List.filter_map, List.map_map, List.filter_congr hchosen]
  exact List.map_congr_left fun x hx => htold x (List.mem_filter.1 hx).1

/-- What a search tells about a walk, as it follows from what is known of the nodes. -/
theorem findings_eq_told (ctx : Context) {fs : FileSystem} (hfs : fs.IsProper) {start : String}
    {top : Node} (htop : fs.find? (ctx.resolve start) = some top) (kind : Option Bool)
    (depth : Option Nat) : findings ctx (criteriaOf kind depth) 0 start top
        (Path.segments (ctx.resolve start)) (top.walk (Path.segments (ctx.resolve start))) =
      let walked := (top.walk (Path.segments (ctx.resolve start))).map fun met =>
        fs.statOf met.1 met.2
      ⟨(walked.filter fun node => kind.all (· == node.isDirectory) &&
          depth.all ((namesBelow ctx start node).length ≤ ·) &&
          !barredAlong ctx top (namesBelow ctx start node)).map (shownAs ctx start),
        (walked.filter fun node => node.isDirectory &&
          (node.owner == Context.rootUser && !ctx.elevated) &&
          depth.all ((namesBelow ctx start node).length < ·) &&
          !barredAlong ctx top (namesBelow ctx start node)).map fun node =>
            refusal (shownAs ctx start node)⟩ := by
  have hnames := fun met (hmet : met ∈ top.walk (Path.segments (ctx.resolve start))) =>
    (namesBelow_statOf ctx hfs htop hmet).1
  unfold findings
  congr 1
  · refine map_filter_eq_known (fun met hmet => ?_) fun met hmet => ?_
    · rw [shows, accept_criteriaOf, Nat.zero_add, ← hnames met hmet]
      rfl
    · rw [shownAs, hnames met hmet]
  · refine map_filter_eq_known (fun met hmet => ?_) fun met hmet => ?_
    · rw [stopsAt, Nat.zero_add, ← hnames met hmet]
      rfl
    · rw [shownAs, hnames met hmet]

/-- What a node is shown as means that node. -/
theorem resolve_shownAs (ctx : Context) (huser : Path.IsSegment ctx.username) {fs : FileSystem}
    (hfs : fs.IsProper) {start : String} (hstart : start ≠ "") {top : Node}
    (htop : fs.find? (ctx.resolve start) = some top) {met : List String × Node}
    (hmet : met ∈ top.walk (Path.segments (ctx.resolve start))) :
    ctx.resolve (shownAs ctx start (fs.statOf met.1 met.2)) = (fs.statOf met.1 met.2).path := by
  obtain ⟨hnames, hsegments⟩ := namesBelow_statOf ctx hfs htop hmet
  obtain ⟨below, hbelow⟩ := Node.place_prefix_walk hmet
  rw [shownAs, hnames, Context.resolve, ← Path.ofSegments_segments_resolve _ _ huser,
    ← Context.resolve, segments_resolve_shownAlong ctx hstart hsegments, ← hbelow, List.drop_left]
  rfl

/-- The search from one start follows a walk of it. -/
theorem find_follows_walk (ctx : Context) (huser : Path.IsSegment ctx.username) {fs : FileSystem}
    (hfs : fs.IsProper) {start : String} (hstart : start ≠ "")
    (hword : Path.startsWith start "-" = false) (hthere : fs.contains (ctx.resolve start) = true)
    {rest : List String} {kind : Option Bool} {depth : Option Nat} (hasks : Asks rest kind depth)
    (input : Option String) :
    ∃ top walked, fs.find? (ctx.resolve start) = some top ∧
      fs.walk (ctx.resolve start) = .ok walked ∧
      Follows ctx start kind depth top walked (execute ctx input (name find :: start :: rest) fs).1 ∧
      (execute ctx input (name find :: start :: rest) fs).2 = fs := by
  obtain ⟨top, htop⟩ : ∃ top, fs.find? (ctx.resolve start) = some top :=
    Option.isSome_iff_exists.1 hthere
  have hexecute := execute_of_run ctx (start :: rest) input fs (by decide : find ≠ superuser)
    (run_runFind_single ctx hword hasks)
  have hfloor : (criteriaOf kind depth).depth.all (0 ≤ ·) = true := by
    cases depth <;> simp [criteriaOf]
  have hfound : findAt ctx (criteriaOf kind depth) fs start =
      findings ctx (criteriaOf kind depth) 0 start top (Path.segments (ctx.resolve start))
        (top.walk (Path.segments (ctx.resolve start))) := by
    rw [findAt, htop]
    exact findFrom_eq_findings ctx _ 0 start _ top (Node.IsProper.find? hfs htop) hfloor
  refine ⟨top, _, htop, FileSystem.walk_of_find? htop, ⟨?_, ?_, ?_⟩, by rw [hexecute]⟩
  · rw [List.map_map]
    exact nodup_walk hfs htop
  · rw [hexecute, hfound, findings_eq_told ctx hfs htop]
  · intro node hnode
    obtain ⟨met, hmet, rfl⟩ := List.mem_map.1 hnode
    exact resolve_shownAs ctx huser hfs hstart htop hmet

/-- A home with a shelf and a vault of the root user in it. -/
def cottage : FileSystem :=
  { FileSystem.empty "ada" 0 with
    entries :=
      [("home", .directory ⟨"root", Permissions.newDirectory, 0⟩
          [("ada", .directory ⟨"ada", Permissions.newDirectory, 0⟩
            [("vault", .directory ⟨"root", Permissions.newDirectory, 0⟩
                [("gold", .file ⟨"ada", Permissions.newFile, 0⟩ ⟨#[1]⟩)]),
              ("shelf", .directory ⟨"ada", Permissions.newDirectory, 0⟩
                [("box", .directory ⟨"root", Permissions.newDirectory, 0⟩ []),
                  ("book", .file ⟨"root", Permissions.newFile, 0⟩ ⟨#[2]⟩)])])])] }

/-- From the home down the book is found, the vault is barred, and the box lies too deep to be looked
into. -/
theorem book_is_found :
    Path.IsSegment "ada" ∧ cottage.IsProper ∧ cottage.contains "/home/ada" = true ∧
      Asks ["-maxdepth", "2", "-type", "f"] (some false) (some 2) ∧
      (∃ top walked, cottage.find? "/home/ada" = some top ∧
        cottage.walk "/home/ada" = .ok walked ∧
        Follows ⟨"/", "ada", false⟩ "~/" (some false) (some 2) top walked
          (execute ⟨"/", "ada", false⟩ none ["find", "~/", "-maxdepth", "2", "-type", "f"] cottage).1) ∧
      (execute ⟨"/", "ada", false⟩ none ["find", "~/", "-maxdepth", "2", "-type", "f"] cottage).1 =
        .ofLines ["~/shelf/book"] ["find: '~/vault': Permission denied"] := by
  have huser : Path.IsSegment "ada" := by decide
  have hproper : cottage.IsProper := by decide
  have hasks : Asks ["-maxdepth", "2", "-type", "f"] (some false) (some 2) :=
    (asks_of_words (some false) (some ("2", 2)) fun text k heq => by
      obtain ⟨rfl, rfl⟩ := Prod.mk.inj (Option.some.inj heq)
      exact ⟨rfl, rfl⟩).2
  have hresolve : Context.resolve ⟨"/", "ada", false⟩ "~/" = "/home/ada" := by decide
  obtain ⟨top, walked, htop, hwalked, hfollows, -⟩ := find_follows_walk ⟨"/", "ada", false⟩ huser
    hproper (by decide : "~/" ≠ "") (by decide) (by decide) hasks none
  rw [hresolve] at htop hwalked
  refine ⟨huser, hproper, by decide, hasks, ⟨top, walked, htop, hwalked, hfollows⟩, ?_⟩
  decide +kernel

end Command

end PracticeShell
