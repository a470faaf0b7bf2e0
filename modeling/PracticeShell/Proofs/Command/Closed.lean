import PracticeShell.Proofs.Command.Outside

/-!
# Closed directories

Without elevated rights a directory of the root user is closed. No command that looks at files from
outside of it tells what it holds, except for one: `grep` that goes below directories and starts there or
above. This one always tells something (`closed_directory_is_concealed_iff`).
-/

namespace PracticeShell

open FileTree Run

namespace Run

variable {ε σ α β : Type}

/-- What a run ends with, whatever it leaves behind. -/
def ending : EStateM.Result ε σ α → Except ε α
  | .ok a _ => .ok a
  | .error e _ => .error e

/-- Whether the runs from two states end with the same. -/
def EndsAlike (x : EStateM ε σ α) (s t : σ) : Prop := ending (x.run s) = ending (x.run t)

namespace EndsAlike

variable {x : EStateM ε σ α} {s t : σ}

theorem pure (a : α) (s t : σ) : EndsAlike (pure a : EStateM ε σ α) s t := rfl

theorem throw (e : ε) (s t : σ) : EndsAlike (throw e : EStateM ε σ α) s t := rfl

/-- A run that leaves the state as it is, and then another. -/
theorem bind {f : α → EStateM ε σ β} (hx : EndsAlike x s t) (hs : Leads Eq x s) (ht : Leads Eq x t)
    (hf : ∀ a, x.run s = .ok a s → EndsAlike (f a) s t) : EndsAlike (x >>= f) s t := by
  unfold EndsAlike Leads at *
  cases hrun : x.run s with
  | error e s' =>
      cases hrun' : x.run t with
      | error d t' =>
          rw [hrun, hrun'] at hx
          rw [EStateM.run_bind, EStateM.run_bind, hrun, hrun']
          exact congrArg Except.error (Except.error.inj hx)
      | ok b t' => simp [hrun, hrun', ending] at hx
  | ok a s' =>
      cases hrun' : x.run t with
      | error d t' => simp [hrun, hrun', ending] at hx
      | ok b t' =>
          rw [hrun, hrun'] at hx
          obtain rfl := Except.ok.inj hx
          obtain rfl : s = s' := by rwa [hrun] at hs
          obtain rfl : t = t' := by rwa [hrun'] at ht
          rw [run_bind_of_ok hrun, run_bind_of_ok hrun']
          exact hf a hrun

/-- What follows a look at the state ends alike if it does, and is the same for both. -/
theorem get_bind {f : σ → EStateM ε σ β} (hsame : f s = f t) (h : EndsAlike (f s) s t) :
    EndsAlike (get >>= f) s t := by
  unfold EndsAlike
  rw [run_get_bind, run_get_bind, ← hsame]
  exact h

theorem ite {c : Prop} [Decidable c] {y : EStateM ε σ α} (hx : c → EndsAlike x s t)
    (hy : ¬ c → EndsAlike y s t) : EndsAlike (if c then x else y) s t := by
  split
  · exact hx ‹_›
  · exact hy ‹_›

end EndsAlike

theorem lasting_eq (σ : Type) : Lasting (Eq : σ → σ → Prop) := ⟨fun _ => rfl, Eq.trans⟩

end Run

/-- What is decided without a look at the files is the same for all, and another action follows. -/
theorem Action.IsFixed.endsAlike_bind {α β : Type} {x : Action α} (hx : IsFixed x) {f : α → Action β}
    {fs other : FileSystem} (h : ∀ a, x.run fs = .ok a fs → EndsAlike (f a) fs other) :
    EndsAlike (x >>= f) fs other := by
  refine .bind ?_ (hx.leads (lasting_eq _) fs) (hx.leads (lasting_eq _) other) h
  rcases hx with ⟨a, rfl⟩ | ⟨e, rfl⟩
  · exact .pure a _ _
  · exact .throw e _ _

/-- What follows the arguments ends alike if it does for the arguments that the rules give. -/
theorem Action.endsAlike_arguments_bind {α : Type} {rules : Arguments.Rules} {words : List String}
    {f : Arguments → Action α} {fs other : FileSystem}
    (h : ∀ args, Arguments.parse rules words = .ok args → EndsAlike (f args) fs other) :
    EndsAlike (Action.arguments rules words >>= f) fs other :=
  (isFixed_arguments rules words).endsAlike_bind fun args hrun => h args (of_run_arguments hrun).1

namespace Command

/-- Whether a command looks at files. -/
def looks : Command → Bool
  | cd | ls | stat | cat | head | tail | wc | grep | find => true
  | _ => false

/-- The operands among words, by the rules of a command. -/
def operandsBy (rules : Arguments.Rules) (words : List String) : List String :=
  match Arguments.parse rules words with
  | .ok args => args.operands
  | .error _ => []

/-- The operands by which a command looks at files, as they are typed; without any, `cd` goes home. -/
def looksAt : Command → (words : List String) → List String
  | cd, words => [words.headD "~"]
  | ls, words => operandsBy (.flagsOnly "lah1") words
  | stat, words => operandsBy (.flagsOnly "") words
  | cat, words => operandsBy (.flagsOnly "n") words
  | head, words | tail, words => operandsBy ⟨"", ["-n"], true⟩ words
  | wc, words => operandsBy (.flagsOnly "lwc") words
  | grep, words => (operandsBy (.flagsOnly "invclrRw") words).drop 1
  | find, words => words.takeWhile fun word => !Path.startsWith word "-"
  | _, _ => []

theorem operandsBy_of_parse {rules : Arguments.Rules} {words : List String} {args : Arguments}
    (h : Arguments.parse rules words = .ok args) : operandsBy rules words = args.operands := by
  rw [operandsBy, h]

/-- Whether a command replaces patterns among its operands by what they stand for. -/
def expands : Command → Bool
  | ls | stat | cat | head | tail | wc | grep => true
  | _ => false

/-- The operands by which a command looks at files in the end. -/
def means (c : Command) (ctx : Context) (fs : FileSystem) (words : List String) : List String :=
  if c.expands then Operands.expand ctx fs (c.looksAt words) else c.looksAt words

/-- Whether a command line looks at files from outside of a directory: neither the current directory nor
an operand as it is typed lies below it, and the home of the user does not if it is meant by a bare `~`
in the end. -/
structure FromOutside (ctx : Context) (fs : FileSystem) (c : Command) (words : List String)
    (place : List String) : Prop where
  here : ¬ LiesBelow place (Path.segments ctx.directory)
  typed : ∀ operand ∈ c.looksAt words, ¬ LiesBelow place (Path.segments (ctx.resolve operand))
  home : "~" ∈ c.means ctx fs words → ¬ LiesBelow place (Path.segments ctx.home)

/-- What is searched by `grep` that goes below directories: the current directory, unless there are
operands. -/
def searched (files : List String) : List String := if files = [] then ["."] else files

/-- Whether a search goes below directories and starts at or above a place. -/
def Delves (ctx : Context) (fs : FileSystem) (words : List String) (place : List String) : Prop :=
  ∃ args pattern operands selects,
    Arguments.parse (.flagsOnly "invclrRw") words = .ok args ∧ args.operands = pattern :: operands ∧
    args.has ['r', 'R'] = true ∧
    Matcher.regex (args.has ['i']) (wholePattern args pattern) = .ok selects ∧
    ∃ file ∈ searched (Operands.expand ctx fs operands), Path.segments (ctx.resolve file) <+: place

section Concealing

variable {ctx : Context} {fs : FileSystem} {words : List String} {place : List String} {new : Entries}
  {a : Attributes}

/-- What is searched does not lie below the directory if the operands do not. -/
theorem FromOutside.not_liesBelow_of_mem_searched {c : Command}
    (h : FromOutside ctx fs c words place) {files : List String}
    (hfiles : ∀ file ∈ files, ¬ LiesBelow place (Path.segments (ctx.resolve file))) {file : String}
    (hfile : file ∈ searched files) : ¬ LiesBelow place (Path.segments (ctx.resolve file)) := by
  unfold searched at hfile
  split at hfile
  · rw [List.mem_singleton.1 hfile, Context.resolve, Path.segments_resolve_here]
    exact h.here
  · exact hfiles file hfile

variable (hfs : fs.IsProper) (hnew : (Node.directory a new).IsProper)

include hfs hnew

/-- What operands stand for does not depend on what the directory holds, and does not lie below it. -/
theorem FromOutside.operands {c : Command} (hc : c.expands = true)
    (h : FromOutside ctx fs c words place) {operands : List String}
    (hoperands : c.looksAt words = operands) :
    Operands.expand ctx (fs.refill place new) operands = Operands.expand ctx fs operands ∧
      ∀ operand ∈ Operands.expand ctx fs operands,
        ¬ LiesBelow place (Path.segments (ctx.resolve operand)) := by
  obtain ⟨-, htyped, hhome⟩ := h
  rw [means, hc, if_pos rfl, hoperands] at hhome
  rw [hoperands] at htyped
  exact ⟨Operands.expand_refill hfs hnew htyped, fun _ hmem =>
    Operands.not_liesBelow_of_mem_expand hfs htyped hhome hmem⟩

variable (input : Option String)

theorem endsAlike_runCat (h : FromOutside ctx fs cat words place) :
    EndsAlike (runCat ctx words input) (fs.refill place new) fs := by
  refine Action.endsAlike_arguments_bind fun args hparse => ?_
  obtain ⟨hexpand, hmeant⟩ := h.operands hfs hnew rfl (operandsBy_of_parse hparse)
  refine .get_bind ?_ ?_
  · dsimp only
    rw [hexpand]
    cases hfiles : Operands.expand ctx fs args.operands with
    | nil => cases input <;> rfl
    | cons first rest =>
        rw [hfiles] at hmeant
        dsimp only
        rw [readOperands_refill new "cat" hmeant]
  · dsimp only
    split <;> exact .pure _ _ _

theorem endsAlike_runWc (h : FromOutside ctx fs wc words place) :
    EndsAlike (runWc ctx words input) (fs.refill place new) fs := by
  refine Action.endsAlike_arguments_bind fun args hparse => ?_
  obtain ⟨hexpand, hmeant⟩ := h.operands hfs hnew rfl (operandsBy_of_parse hparse)
  refine .get_bind ?_ ?_
  · dsimp only
    rw [hexpand]
    cases hfiles : Operands.expand ctx fs args.operands with
    | nil => cases input <;> rfl
    | cons first rest =>
        rw [hfiles] at hmeant
        dsimp only
        rw [readOperands_refill new "wc" hmeant]
  · dsimp only
    split <;> exact .pure _ _ _

theorem endsAlike_runWindow (fromEnd : Bool)
    (h : FromOutside ctx fs (if fromEnd then tail else head) words place) :
    EndsAlike (runWindow fromEnd ctx words input) (fs.refill place new) fs := by
  refine Action.endsAlike_arguments_bind fun args hparse => ?_
  obtain ⟨hexpand, hmeant⟩ := h.operands hfs hnew (by cases fromEnd <;> rfl)
    (show looksAt _ words = args.operands by cases fromEnd <;> exact operandsBy_of_parse hparse)
  refine (isFixed_windowOf fromEnd args).endsAlike_bind fun window _ => ?_
  cases window with
  | error raw => exact .pure _ _ _
  | ok w =>
      refine .get_bind ?_ ?_
      · dsimp only
        rw [hexpand]
        cases hfiles : Operands.expand ctx fs args.operands with
        | nil => cases input <;> rfl
        | cons first rest =>
            rw [hfiles] at hmeant
            dsimp only
            rw [List.map_congr_left fun operand ho =>
              windowPart_refill new _ w _ (hmeant operand ho)]
      · dsimp only
        split <;> exact .pure _ _ _

theorem endsAlike_runStat (h : FromOutside ctx fs stat words place) :
    EndsAlike (runStat ctx words) (fs.refill place new) fs := by
  refine Action.endsAlike_arguments_bind fun args hparse => ?_
  obtain ⟨hexpand, hmeant⟩ := h.operands hfs hnew rfl (operandsBy_of_parse hparse)
  refine .ite (fun _ => .pure _ _ _) fun _ => .get_bind ?_ (.pure _ _ _)
  dsimp only
  rw [hexpand, List.map_congr_left fun operand ho => by
    rw [FileSystem.stat?_refill new (hmeant operand ho)]]

omit hfs hnew in
/-- Searches of the same files in which they read the same. -/
theorem sourcesFor_congr {other : FileSystem} {recursive : Bool} {files : List String}
    (h : ∀ file ∈ searched files, sourceOf ctx other recursive file = sourceOf ctx fs recursive file) :
    sourcesFor ctx other recursive input files = sourcesFor ctx fs recursive input files := by
  cases files with
  | nil =>
      cases recursive with
      | true => exact congrArg some (h "." (by simp [searched]))
      | false => cases input <;> rfl
  | cons first rest =>
      have hmap : (first :: rest).map (sourceOf ctx other recursive) =
          (first :: rest).map (sourceOf ctx fs recursive) :=
        List.map_congr_left fun file hfile => h file (by simpa [searched] using hfile)
      exact congrArg (fun read => some (List.foldl Sources.append .none read)) hmap

/-- A search reads the same, unless it delves. -/
theorem endsAlike_runGrep (h : FromOutside ctx fs grep words place)
    (hdelves : ¬ Delves ctx fs words place) :
    EndsAlike (runGrep ctx words input) (fs.refill place new) fs := by
  rw [← runGrepBy_regex]
  refine Action.endsAlike_arguments_bind fun args hparse => ?_
  cases hoperands : args.operands with
  | nil => exact .pure _ _ _
  | cons pattern operands =>
      have hlooks : looksAt grep words = operands := by
        rw [looksAt, operandsBy_of_parse hparse, hoperands]
        rfl
      obtain ⟨hexpand, hmeant⟩ := h.operands hfs hnew rfl hlooks
      refine .get_bind ?_ ?_
      · rw [hexpand]
        cases hpattern : Matcher.regex (args.has ['i']) (wholePattern args pattern) with
        | error e => cases e <;> rfl
        | ok selects =>
            have hsources : sourcesFor ctx (fs.refill place new) (args.has ['r', 'R']) input
                (Operands.expand ctx fs operands) =
                sourcesFor ctx fs (args.has ['r', 'R']) input (Operands.expand ctx fs operands) :=
              sourcesFor_congr input fun file hfile =>
                sourceOf_refill new hfs (h.not_liesBelow_of_mem_searched hmeant hfile)
                  fun hrecursive habove => hdelves
                    ⟨args, pattern, operands, selects, hparse, hoperands, hrecursive, hpattern, file,
                      hfile, habove⟩
            dsimp only
            rw [hsources]
      · split
        · exact .pure _ _ _
        · exact .throw _ _ _
        · split <;> exact .pure _ _ _

variable (hctx : ctx.elevated = false) {es : Entries}
  (hclosed : fs.root.find? place = some (.directory a es)) (howner : a.owner = Context.rootUser)

include hctx hclosed howner

theorem endsAlike_runLs (h : FromOutside ctx fs ls words place) :
    EndsAlike (runLs ctx words) (fs.refill place new) fs := by
  refine Action.endsAlike_arguments_bind fun args hparse => ?_
  obtain ⟨hexpand, hmeant⟩ := h.operands hfs hnew rfl (operandsBy_of_parse hparse)
  have hlist : ∀ style titled,
      (searched (Operands.expand ctx fs args.operands)).map
          (listTarget ctx (fs.refill place new) style titled) =
        (searched (Operands.expand ctx fs args.operands)).map (listTarget ctx fs style titled) :=
    fun style titled => List.map_congr_left fun target htarget =>
      listTarget_refill new hctx hclosed howner hfs style titled
        (h.not_liesBelow_of_mem_searched hmeant htarget)
  refine .get_bind ?_ (.pure _ _ _)
  dsimp only
  rw [hexpand]
  cases hfiles : Operands.expand ctx fs args.operands with
  | nil =>
      rw [hfiles, searched, if_pos rfl] at hlist
      simp only [hlist]
  | cons first rest =>
      rw [hfiles, searched, if_neg (by simp)] at hlist
      simp only [hlist]

omit hfs hnew in
theorem endsAlike_runFind (h : FromOutside ctx fs find words place) :
    EndsAlike (runFind ctx words) (fs.refill place new) fs := by
  have hfind : ∀ c, (searched (looksAt find words)).map (findAt ctx c (fs.refill place new)) =
      (searched (looksAt find words)).map (findAt ctx c fs) :=
    fun c => List.map_congr_left fun start hstart =>
      findAt_refill new hctx hclosed howner c (h.not_liesBelow_of_mem_searched h.typed hstart)
  unfold runFind
  dsimp only
  split
  · exact .pure _ _ _
  · rename_i predicates _
    split
    · exact .pure _ _ _
    · refine (isFixed_depthOf predicates).endsAlike_bind fun depth _ => ?_
      cases depth with
      | error text => exact .pure _ _ _
      | ok depth =>
          refine .get_bind ?_ (.pure _ _ _)
          have hsearched : (if (words.takeWhile fun word => !Path.startsWith word "-").isEmpty then ["."]
              else words.takeWhile fun word => !Path.startsWith word "-") =
              searched (looksAt find words) := by
            rw [searched, looksAt]
            simp only [List.isEmpty_iff]
          rw [hsearched, hfind]

/-- The answer of a command that looks at files from outside of the directory does not depend on what it
holds, unless it is a search that delves. -/
theorem endsAlike_run {c : Command} (hc : c.looks = true) (h : FromOutside ctx fs c words place)
    (hdelves : c = grep → ¬ Delves ctx fs words place) :
    EndsAlike (c.run ctx words input) (fs.refill place new) fs := by
  cases c with
  | cd =>
      refine .get_bind ?_ (.pure _ _ _)
      rw [runCd_refill new (h.typed _ (by simp [looksAt]))]
  | ls => exact endsAlike_runLs hfs hnew hctx hclosed howner h
  | stat => exact endsAlike_runStat hfs hnew h
  | cat => exact endsAlike_runCat hfs hnew input h
  | head => exact endsAlike_runWindow hfs hnew input false h
  | tail => exact endsAlike_runWindow hfs hnew input true h
  | wc => exact endsAlike_runWc hfs hnew input h
  | grep => exact endsAlike_runGrep hfs hnew input h (hdelves rfl)
  | find => exact endsAlike_runFind hctx hclosed howner h
  | _ => cases hc

end Concealing

section Delving

/-- The number of characters in messages with one more for each. -/
def bulk : List String → Nat
  | [] => 0
  | message :: rest => message.length + 1 + bulk rest

@[simp]
theorem bulk_nil : bulk [] = 0 := rfl

theorem bulk_cons (message : String) (rest : List String) :
    bulk (message :: rest) = message.length + 1 + bulk rest := rfl

theorem bulk_append (messages others : List String) :
    bulk (messages ++ others) = bulk messages + bulk others := by
  induction messages with
  | nil => simp
  | cons message rest ih => rw [List.cons_append, bulk_cons, bulk_cons, ih, ← Nat.add_assoc]

theorem bulk_flatMap_le {f g : String → List String} {files : List String}
    (h : ∀ file ∈ files, bulk (f file) ≤ bulk (g file)) :
    bulk (files.flatMap f) ≤ bulk (files.flatMap g) := by
  induction files with
  | nil => exact Nat.le_refl _
  | cons file rest ih =>
      rw [List.flatMap_cons, List.flatMap_cons, bulk_append, bulk_append]
      exact Nat.add_le_add (h file (by simp)) (ih fun other hother => h other (by simp [hother]))

/-- If no file is complained about less, and one of them more, there is more to complain about. -/
theorem bulk_flatMap_lt {f g : String → List String} {files : List String}
    (h : ∀ file ∈ files, bulk (f file) ≤ bulk (g file))
    (hmore : ∃ file ∈ files, bulk (f file) < bulk (g file)) :
    bulk (files.flatMap f) < bulk (files.flatMap g) := by
  obtain ⟨file, hfile, hlt⟩ := hmore
  obtain ⟨before, after, rfl⟩ := List.append_of_mem hfile
  have hbefore := bulk_flatMap_le fun other (hother : other ∈ before) => h other (by simp [hother])
  have hafter := bulk_flatMap_le fun other (hother : other ∈ after) => h other (by simp [hother])
  simp only [List.flatMap_append, List.flatMap_cons, bulk_append]
  omega

theorem length_join (messages : List String) :
    (Text.Lines.join messages).length = bulk messages - 1 := by
  induction messages with
  | nil => rfl
  | cons message rest ih =>
      cases rest with
      | nil => simp [Text.Lines.join, bulk_cons]
      | cons second others =>
          have hjoin : Text.Lines.join (message :: second :: others) =
              message ++ "\n" ++ Text.Lines.join (second :: others) := by
            apply String.toList_injective
            rw [Text.Lines.join, String.toList_intercalate, List.map_cons,
              List.intercalate_cons_of_ne_nil (by simp)]
            simp [Text.Lines.join]
          rw [hjoin, String.length_append, String.length_append, ih]
          simp only [bulk_cons]
          have hfeed : ("\n" : String).length = 1 := by decide
          omega

/-- More to complain about can be seen when there was something to complain about before. -/
theorem join_ne_of_bulk_lt {messages others : List String} (hpos : 0 < bulk messages)
    (h : bulk messages < bulk others) : Text.Lines.join messages ≠ Text.Lines.join others := by
  intro heq
  have hlength := congrArg String.length heq
  rw [length_join, length_join] at hlength
  omega

/-- An empty file of the root user. -/
def lock : Node := .file ⟨Context.rootUser, Permissions.newFile, 0⟩ ByteArray.empty

/-- Files of the root user with some names. -/
def locked (names : List String) : Entries := names.map fun name => (name, lock)

theorem isProper_locked (a : Attributes) {names : List String} (h : ProperNames names) :
    (Node.directory a (locked names)).IsProper := by
  have hnames : Entries.names (locked names) = names := by
    simp [Entries.names, locked, Function.comp_def]
  refine Node.isProper_directory_iff.2 ⟨hnames.symm ▸ h, fun entry hentry => ?_⟩
  obtain ⟨name, -, rfl⟩ := List.mem_map.1 hentry
  exact Node.isProper_file _ _

theorem walkEntries_locked (place names : List String) :
    Node.walkEntries place (locked names) = names.map fun name => (place ++ [name], lock) := by
  induction names with
  | nil => rfl
  | cons name rest ih =>
      rw [locked, List.map_cons, Node.walkEntries, ← locked, ih, lock, Node.walk]
      rfl

variable {ctx : Context} {fs : FileSystem} {words : List String} {place : List String}
  {a : Attributes} {es : Entries} (hctx : ctx.elevated = false) (hfs : fs.IsProper)
  (hclosed : fs.root.find? place = some (.directory a es))

include hctx hfs hclosed

/-- A search that starts at the directory or above complains about each file of the root user that the
directory holds. -/
theorem exists_bulk_delved {file : String} (habove : Path.segments (ctx.resolve file) <+: place) :
    ∃ rest, ∀ names, ProperNames names →
      bulk (sourceOf ctx (fs.refill place (locked names)) true file).errors =
        rest + bulk (names.map fun name => complaint ctx file (fs.statOf (place ++ [name]) lock)) := by
  obtain ⟨before, after, hwalk⟩ := FileSystem.exists_walk_refill hclosed habove
  refine ⟨bulk ((before.filter (isHidden ctx)).map (complaint ctx file)) +
    bulk ((after.filter (isHidden ctx)).map (complaint ctx file)), fun names hnames => ?_⟩
  have hheld : (fs.known (Node.walkEntries place (locked names))).filter (isHidden ctx) =
      names.map fun name => fs.statOf (place ++ [name]) lock := by
    have hknown : fs.known (Node.walkEntries place (locked names)) =
        names.map fun name => fs.statOf (place ++ [name]) lock := by
      rw [walkEntries_locked, FileSystem.known, List.map_map]
      rfl
    rw [hknown, List.filter_eq_self]
    intro node hnode
    obtain ⟨name, -, rfl⟩ := List.mem_map.1 hnode
    simp [isHidden, Stat.isFile, Access.denied, FileSystem.statOf, lock, Node.isDirectory,
      Node.attributes, hctx]
  rw [errors_sourceOf_directory (hfs.refill (isProper_locked a hnames) place)
    (FileSystem.isDirectory_refill hclosed habove _) (hwalk (locked names)), List.filter_append,
    List.filter_append, hheld, List.map_append, List.map_append, bulk_append, bulk_append,
    List.map_map]
  simp only [Function.comp_def]
  omega

/-- With one more such file in the directory there is more to complain about. -/
theorem bulk_searched_lt {files : List String}
    (hfiles : ∀ file ∈ files, ¬ LiesBelow place (Path.segments (ctx.resolve file)))
    (hdelves : ∃ file ∈ files, Path.segments (ctx.resolve file) <+: place) {name : String}
    {names : List String} (hnames : ProperNames (name :: names)) :
    bulk (files.flatMap fun file =>
        (sourceOf ctx (fs.refill place (locked names)) true file).errors) <
      bulk (files.flatMap fun file =>
        (sourceOf ctx (fs.refill place (locked (name :: names))) true file).errors) := by
  have hfewer : ProperNames names :=
    ⟨(List.nodup_cons.1 hnames.1).2, fun n hn => hnames.2 n (List.mem_cons_of_mem _ hn)⟩
  have hmore : ∀ file, Path.segments (ctx.resolve file) <+: place →
      bulk (sourceOf ctx (fs.refill place (locked names)) true file).errors <
        bulk (sourceOf ctx (fs.refill place (locked (name :: names))) true file).errors := by
    intro file habove
    obtain ⟨rest, hbulk⟩ := exists_bulk_delved hctx hfs hclosed habove
    rw [hbulk names hfewer, hbulk (name :: names) hnames, List.map_cons, bulk_cons]
    omega
  refine bulk_flatMap_lt (fun file hfile => ?_) ?_
  · by_cases habove : Path.segments (ctx.resolve file) <+: place
    · exact Nat.le_of_lt (hmore file habove)
    · refine Nat.le_of_eq ?_
      rw [sourceOf_refill _ hfs (hfiles file hfile) fun _ => habove,
        sourceOf_refill _ hfs (hfiles file hfile) fun _ => habove]
  · obtain ⟨file, hfile, habove⟩ := hdelves
    exact ⟨file, hfile, hmore file habove⟩

omit hctx hfs hclosed in
theorem exists_sourcesFor (ctx : Context) (fs : FileSystem) (input : Option String)
    (files : List String) : ∃ sources, sourcesFor ctx fs true input files = some sources ∧
      sources.errors = (searched files).flatMap fun file => (sourceOf ctx fs true file).errors := by
  cases files with
  | nil => exact ⟨_, rfl, by simp [searched]⟩
  | cons first rest =>
      refine ⟨_, rfl, ?_⟩
      rw [errors_foldl_append, List.flatMap_map, searched, if_neg (by simp)]
      rfl

/-- A search that delves tells two things that the directory may hold from each other. -/
theorem delves_tells (input : Option String) (h : FromOutside ctx fs grep words place)
    (hdelves : Delves ctx fs words place) :
    (execute ctx input (name grep :: words) (fs.refill place (locked ["x"]))).1 ≠
      (execute ctx input (name grep :: words) (fs.refill place (locked ["y", "x"]))).1 := by
  obtain ⟨args, pattern, operands, selects, hparse, hoperands, hrecursive, hpattern, hstart⟩ := hdelves
  have hlooks : looksAt grep words = operands := by
    rw [looksAt, operandsBy_of_parse hparse, hoperands]
    rfl
  have hproper : ∀ names, ProperNames names → (Node.directory a (locked names)).IsProper :=
    fun names hnames => isProper_locked a hnames
  have hmeant := (h.operands hfs (hproper [] properNames_nil) rfl hlooks).2
  have hsearched := fun file (hfile : file ∈ searched (Operands.expand ctx fs operands)) =>
    h.not_liesBelow_of_mem_searched hmeant hfile
  have herrors : ∀ names, ProperNames names →
      (execute ctx input (name grep :: words) (fs.refill place (locked names))).1.errors =
        Text.Lines.join ((searched (Operands.expand ctx fs operands)).flatMap fun file =>
          (sourceOf ctx (fs.refill place (locked names)) true file).errors) := by
    intro names hnames
    have hexpand := (h.operands hfs (hproper names hnames) rfl hlooks).1
    obtain ⟨sources, hsources, hsaid⟩ := exists_sourcesFor ctx (fs.refill place (locked names)) input
      (Operands.expand ctx fs operands)
    have hrun := run_runGrepBy input hparse hoperands hpattern
      (by rw [hrecursive, hexpand, hsources])
    rw [runGrepBy_regex] at hrun
    rw [execute_of_run ctx words input _ (by decide : grep ≠ superuser) hrun, ← hsaid]
    rfl
  have hfirst : bulk _ < bulk _ := bulk_searched_lt hctx hfs hclosed hsearched hstart
    (by decide : ProperNames ["x"])
  have hsecond : bulk _ < bulk _ := bulk_searched_lt hctx hfs hclosed hsearched hstart
    (by decide : ProperNames ["y", "x"])
  intro heq
  have hsame := congrArg Outcome.errors heq
  rw [herrors ["x"] (by decide), herrors ["y", "x"] (by decide)] at hsame
  exact join_ne_of_bulk_lt (Nat.zero_lt_of_lt hfirst) hsecond hsame

end Delving

/-- A command whose runs end alike is answered alike. -/
theorem execute_of_endsAlike {c : Command} (hc : c ≠ superuser) {ctx : Context} {words : List String}
    {input : Option String} {fs other : FileSystem}
    (h : EndsAlike (c.run ctx words input) fs other) :
    (execute ctx input (c.name :: words) fs).1 = (execute ctx input (c.name :: words) other).1 := by
  have hanswer : ∀ t, (execute ctx input (c.name :: words) t).1 =
      match ending ((c.run ctx words input).run t) with
      | .ok outcome => outcome
      | .error fault => answerFault c.name fault := by
    intro t
    rw [execute_of_ne ctx words input (ofName?_name c) hc, guarded, EStateM.run]
    cases c.run ctx words input t <;> rfl
  rw [hanswer, hanswer, h]

/-- Without elevated rights no command that looks at files from outside of a directory of the root user
tells what it holds, except for a search that goes below directories and starts there or above. This one
always tells. -/
theorem closed_directory_is_concealed_iff {ctx : Context} (hctx : ctx.elevated = false)
    {fs : FileSystem} (hfs : fs.IsProper) {place : List String} {a : Attributes} {es : Entries}
    (hclosed : fs.root.find? place = some (.directory a es)) (howner : a.owner = Context.rootUser)
    {c : Command} (hc : c.looks = true) {words : List String} (h : FromOutside ctx fs c words place)
    (input : Option String) :
    (∀ new, (Node.directory a new).IsProper →
      (execute ctx input (name c :: words) (fs.refill place new)).1 =
        (execute ctx input (name c :: words) fs).1) ↔
      ¬ (c = grep ∧ Delves ctx fs words place) := by
  constructor
  · rintro hsame ⟨rfl, hdelves⟩
    refine delves_tells hctx hfs hclosed input h hdelves ?_
    rw [hsame _ (isProper_locked a (by decide)), hsame _ (isProper_locked a (by decide))]
  · intro hnot new hnew
    have hne : c ≠ superuser := by
      rintro rfl
      cases hc
    exact execute_of_endsAlike hne (endsAlike_run hfs hnew input hctx hclosed howner hc h
      fun hgrep hdelves => hnot ⟨hgrep, hdelves⟩)

/-- A cellar of the root user with a bottle that somebody else has left there. -/
def house : FileSystem :=
  { FileSystem.empty "ada" 0 with
    entries :=
      [("cellar", .directory ⟨"root", Permissions.newDirectory, 0⟩
          [("bottle", .file ⟨"ada", Permissions.newFile, 0⟩ "red".toUTF8)]),
        ("hall", .directory ⟨"ada", Permissions.newDirectory, 0⟩ [])] }

/-- Whatever the cellar holds, this is what is found in the house. -/
theorem cellar_stays_closed :
    house.IsProper ∧
      FromOutside ⟨"/hall", "ada", false⟩ house find [".."] ["cellar"] ∧
      (∀ new, (Node.directory ⟨"root", Permissions.newDirectory, 0⟩ new).IsProper →
        (execute ⟨"/hall", "ada", false⟩ none ["find", ".."] (house.refill ["cellar"] new)).1 =
          .ofLines ["..", "../cellar", "../hall"] ["find: '../cellar': Permission denied"]) := by
  have hproper : house.IsProper := by decide
  have houtside : FromOutside ⟨"/hall", "ada", false⟩ house find [".."] ["cellar"] :=
    ⟨by decide, by decide, by decide⟩
  have hclosed : house.root.find? ["cellar"] = some (.directory ⟨"root", Permissions.newDirectory, 0⟩
      [("bottle", .file ⟨"ada", Permissions.newFile, 0⟩ "red".toUTF8)]) := rfl
  have hconcealed := (closed_directory_is_concealed_iff rfl hproper hclosed rfl
    (by decide : find.looks = true) houtside none).2 fun h => absurd h.1 (by decide)
  refine ⟨hproper, houtside, fun new hnew => (hconcealed new hnew).trans ?_⟩
  decide +kernel

/-- A search of the cellar from outside finds the bottle. -/
theorem cellar_is_searched :
    house.IsProper ∧ FromOutside ⟨"/", "ada", false⟩ house grep ["-r", "red", "cellar"] ["cellar"] ∧
      (execute ⟨"/", "ada", false⟩ none ["grep", "-r", "red", "cellar"] house).1 =
        .print "cellar/bottle:red" ∧
      (execute ⟨"/", "ada", false⟩ none ["grep", "-r", "red", "cellar"]
        (house.refill ["cellar"] [])).1 = .fail "" Outcome.failure := by
  refine ⟨by decide, ⟨by decide, by decide, by decide⟩, ?_, ?_⟩
  · decide +kernel
  · decide +kernel

end Command

end PracticeShell
