import Mathlib.Data.List.Induction
import Mathlib.Logic.Relation
import PracticeShell.Environment

/-!
# How variables change

A `Call` is anything that can be asked of an environment. Each one changes a variable after the other
(`call_changes`): it sets one that is named well and free, exports one that has a value, or removes one
that is not read-only. So the read-only variables stay as they were at the start, what is exported has a
value, and a variable that a call is told not to touch is left alone (`read_only_variables_stay`). So is
a variable that a call does not name (`get?_call`).
-/

namespace PracticeShell.Environment

section Values

variable {name other value : String}

theorem lookup_cons_eq (p : String × String) (rest : List (String × String)) :
    (p :: rest).lookup other = if other = p.1 then some p.2 else rest.lookup other := by
  by_cases h : other = p.1
  · rw [if_pos h, List.lookup_cons, beq_iff_eq.2 h]
  · rw [if_neg h, List.lookup_cons, beq_eq_false_iff_ne.2 h]

theorem lookup_assign (values : List (String × String)) : (assign name value values).lookup other =
    if other = name then some value else values.lookup other := by
  induction values with
  | nil => exact lookup_cons_eq (name, value) []
  | cons p rest ih =>
      obtain ⟨n, v⟩ := p
      rw [assign, lookup_cons_eq]
      by_cases hn : n = name
      · rw [if_pos hn, lookup_cons_eq, hn]
        split <;> rfl
      · rw [if_neg hn, lookup_cons_eq, ih]
        by_cases h : other = name
        · rw [if_pos h, if_pos h, if_neg (h ▸ Ne.symm hn)]
        · rw [if_neg h, if_neg h]

theorem lookup_filter_ne (values : List (String × String)) :
    (values.filter (·.1 ≠ name)).lookup other =
      if other = name then none else values.lookup other := by
  induction values with
  | nil => simp
  | cons p rest ih =>
      rw [lookup_cons_eq]
      by_cases hp : p.1 = name
      · rw [List.filter_cons_of_neg (by simpa using hp), ih, hp]
        by_cases h : other = name
        · rw [if_pos h, if_pos h]
        · rw [if_neg h, if_neg h, if_neg h]
      · rw [List.filter_cons_of_pos (by simpa using hp), lookup_cons_eq, ih]
        by_cases h : other = name
        · rw [if_pos h, if_pos h, if_neg (h ▸ Ne.symm hp)]
        · rw [if_neg h, if_neg h]

theorem isSome_lookup_iff {values : List (String × String)} :
    (values.lookup name).isSome = true ↔ name ∈ values.map (·.1) := by
  induction values with
  | nil => simp
  | cons p rest ih =>
      rw [lookup_cons_eq, List.map_cons, List.mem_cons, ← ih]
      by_cases h : name = p.1 <;> simp [h]

end Values

/-- An environment without a variable. -/
def without (name : String) (env : Environment) : Environment :=
  { env with
    values := env.values.filter (·.1 ≠ name)
    exportedNames := env.exportedNames.filter (· ≠ name) }

section

variable {env later : Environment} {name other value : String} {exporting : Bool}

theorem get?_put : (env.put name value).get? other =
    if other = name then some value else env.get? other := lookup_assign env.values

@[simp]
theorem get?_markExported : (env.markExported name).get? other = env.get? other := by
  rw [markExported]
  split <;> rfl

theorem get?_without : (env.without name).get? other =
    if other = name then none else env.get? other := lookup_filter_ne env.values

theorem mem_exportedNames_markExported :
    other ∈ (env.markExported name).exportedNames ↔ other ∈ env.exportedNames ∨ other = name := by
  rw [markExported]
  split
  · rename_i hname
    rw [List.contains_iff_mem] at hname
    constructor
    · exact .inl
    · rintro (hother | rfl)
      · exact hother
      · exact hname
  · rw [List.mem_append, List.mem_singleton]

theorem mem_exportedNames_without :
    other ∈ (env.without name).exportedNames ↔ other ∈ env.exportedNames ∧ other ≠ name := by
  rw [without, List.mem_filter, decide_eq_true_eq]

theorem isExported_iff :
    env.isExported name = true ↔ name ∈ env.exportedNames ∧ (env.get? name).isSome = true := by
  rw [isExported, Bool.and_eq_true, List.contains_iff_mem]

theorem set_eq_ok_iff : env.set name value exporting = .ok later ↔
    isName name = true ∧ (name ∈ readOnlyNames → env.get? name = none) ∧
      (if exporting then (env.put name value).markExported name else env.put name value) = later := by
  rw [set]
  by_cases hname : isName name = true
  · by_cases hfixed : name ∈ readOnlyNames <;> cases env.get? name <;> simp [hname, hfixed]
  · simp [hname]

/-- A variable is not set because its name is no name, or because it is read-only. -/
theorem of_set_eq_error {e : Error} (h : env.set name value exporting = .error e) :
    isName name = false ∨ name ∈ readOnlyNames := by
  rw [set] at h
  split at h
  · rename_i hname
    exact .inl (by simpa using hname)
  · split at h
    · rename_i hfixed
      rw [Bool.and_eq_true, List.contains_iff_mem] at hfixed
      exact .inr hfixed.1
    · cases h

theorem unset_eq_ok_iff :
    env.unset name = .ok later ↔ name ∉ readOnlyNames ∧ env.without name = later := by
  rw [unset]
  by_cases h : name ∈ readOnlyNames <;> simp [h, without]

theorem of_unset_eq_error {e : Error} (h : env.unset name = .error e) : name ∈ readOnlyNames := by
  rw [unset] at h
  split at h
  · exact List.contains_iff_mem.1 ‹_›
  · cases h

end

/-- What can happen to one variable, where only some names are given to variables. -/
inductive Change (given : List String) (env : Environment) : Environment → Prop
  /-- A variable is set that has a valid name and is not a read-only one with a value. -/
  | put {name : String} (value : String) (hgiven : name ∈ given) (hname : isName name = true)
      (hfree : name ∈ readOnlyNames → env.get? name = none) : Change given env (env.put name value)
  /-- A variable with a value is exported. -/
  | mark {name : String} (hsome : (env.get? name).isSome = true) :
      Change given env (env.markExported name)
  /-- A variable is removed that is not read-only. -/
  | drop {name : String} (hfree : name ∉ readOnlyNames) : Change given env (env.without name)

/-- One change of a variable after the other. -/
def Changes (given : List String) : Environment → Environment → Prop :=
  Relation.ReflTransGen (Change given)

/-- What can be asked of an environment. -/
inductive Call
  | set (name value : String) (exporting : Bool)
  | unset (name : String)
  | changeDirectory (path : String)
  | runEnv (arguments : List String)
  | runExport (arguments : List String)
  | runUnset (arguments : List String)

/-- The name that an argument with an equals sign assigns to. -/
def assigned (argument : String) : Option String :=
  (splitAssignment argument).2.map fun _ => (splitAssignment argument).1

/-- The name that an argument begins with. -/
def named (argument : String) : String := (splitAssignment argument).1

/-- Whether `export` lists variables. -/
def Lists (arguments : List String) : Prop := arguments = [] ∨ arguments = ["-p"]

instance (arguments : List String) : Decidable (Lists arguments) :=
  inferInstanceAs (Decidable (_ ∨ _))

/-- The names that a call gives to variables, if they are valid. -/
def Call.given : Call → List String
  | .set name _ _ => [name]
  | .unset _ => []
  | .changeDirectory _ => ["OLDPWD", "PWD"]
  | .runEnv arguments => arguments.filterMap assigned
  | .runExport arguments => if Lists arguments then [] else arguments.map named
  | .runUnset _ => []

/-- The environment after a call. -/
def call (env : Environment) : Call → Environment
  | .set name value exporting => (env.set name value exporting).toOption.getD env
  | .unset name => (env.unset name).toOption.getD env
  | .changeDirectory path => env.changeDirectory path
  | .runEnv arguments => (env.runEnv arguments).2
  | .runExport arguments => (env.runExport arguments).2
  | .runUnset arguments => (env.runUnset arguments).2

/-- The environment after calls, one after the other. -/
def after (env : Environment) (calls : List Call) : Environment := calls.foldl call env

/-- The variables that arguments with a problem are about. -/
def refusedIn (about : String → Option String) (arguments : List String) (lines : List Line) :
    List String :=
  (arguments.zip lines).filterMap fun
    | (argument, .problem _) => about argument
    | _ => none

/-- The variables whose assignment or removal is an error that a call reports. -/
def refused (env : Environment) : Call → List String
  | .set name value exporting =>
    match env.set name value exporting with
    | .ok _ => []
    | .error _ => [name]
  | .unset name =>
    match env.unset name with
    | .ok _ => []
    | .error _ => [name]
  | .changeDirectory _ => []
  | .runEnv arguments => refusedIn assigned arguments (runEach envStep arguments env).1
  | .runExport arguments =>
    if Lists arguments then []
    else refusedIn (some ∘ named) arguments (runEach exportStep arguments env).1
  | .runUnset arguments => refusedIn some arguments (runEach unsetStep arguments env).1

section Calls

variable {env later : Environment} {given more : List String}

theorem Changes.mono (h : Changes given env later) (hsub : given ⊆ more) :
    Changes more env later := by
  refine Relation.ReflTransGen.mono (fun a b hchange => ?_) _ _ h
  cases hchange with
  | put value hgiven hname hfree => exact .put value (hsub hgiven) hname hfree
  | mark hsome => exact .mark hsome
  | drop hfree => exact .drop hfree

theorem Change.changes (h : Change given env later) : Changes given env later := .single h

theorem call_set_changes (name value : String) (exporting : Bool) :
    Changes [name] env (env.call (.set name value exporting)) := by
  rw [call]
  cases hset : env.set name value exporting with
  | error e => exact .refl
  | ok later =>
      obtain ⟨hname, hfree, rfl⟩ := set_eq_ok_iff.1 hset
      have hput : Changes [name] env (env.put name value) :=
        (Change.put value (List.mem_singleton_self name) hname hfree).changes
      cases exporting with
      | false => exact hput
      | true => exact hput.tail (.mark (by simp [get?_put]))

theorem call_unset_changes (name : String) : Changes [] env (env.call (.unset name)) := by
  rw [call]
  cases hunset : env.unset name with
  | error e => exact .refl
  | ok later =>
      obtain ⟨hfree, rfl⟩ := unset_eq_ok_iff.1 hunset
      exact (Change.drop hfree).changes

theorem changeDirectory_changes (path : String) :
    Changes ["OLDPWD", "PWD"] env (env.changeDirectory path) := by
  have hpath (env : Environment) : Change ["OLDPWD", "PWD"] env (env.put "PWD" path) :=
    .put path (by decide) (by decide) fun hfixed => absurd hfixed (by decide)
  have hold (current : String) : Change ["OLDPWD", "PWD"] env (env.put "OLDPWD" current) :=
    .put current (by decide) (by decide) fun hfixed => absurd hfixed (by decide)
  rw [changeDirectory]
  split
  · rename_i current _
    split
    · exact .refl
    · exact ((hold current).changes.tail (.mark (by simp [get?_put]))).tail (hpath _)
  · exact (hpath env).changes

theorem envStep_snd (argument : String) : (envStep argument env).2 =
    match splitAssignment argument with
    | (name, some value) => env.call (.set name value true)
    | (_, none) => env := by
  rw [envStep]
  obtain ⟨name, value | value⟩ := splitAssignment argument
  · dsimp only
    split <;> rfl
  · dsimp only
    rw [call]
    cases env.set name value true <;> rfl

/-- A variable that is exported without a value gets the empty one, if it has none yet. -/
theorem exportStep_snd (argument : String) : (exportStep argument env).2 =
    match splitAssignment argument with
    | (name, some value) => env.call (.set name value true)
    | (name, none) =>
      if (env.get? name).isSome && isName name then env.markExported name
      else env.call (.set name "" true) := by
  rw [exportStep]
  obtain ⟨name, value | value⟩ := splitAssignment argument
  · dsimp only
    cases hname : isName name with
    | false => simp [call, set, hname, Except.toOption]
    | true =>
        cases hvalue : env.get? name with
        | some value => simp
        | none =>
            rw [call]
            cases env.set name "" true <;> simp [Except.toOption]
  · dsimp only
    rw [call]
    cases env.set name value true <;> rfl

theorem unsetStep_snd (argument : String) :
    (unsetStep argument env).2 = env.call (.unset argument) := by
  rw [unsetStep, call]
  cases env.unset argument <;> rfl

theorem envStep_changes (argument : String) :
    Changes (assigned argument).toList env (envStep argument env).2 := by
  rw [envStep_snd, assigned]
  obtain ⟨name, value | value⟩ := splitAssignment argument
  · exact .refl
  · exact call_set_changes name value true

theorem exportStep_changes (argument : String) :
    Changes [named argument] env (exportStep argument env).2 := by
  rw [exportStep_snd, named]
  obtain ⟨name, value | value⟩ := splitAssignment argument
  · dsimp only
    split
    · rename_i hsome
      exact (Change.mark (Bool.and_eq_true_iff.1 hsome).1).changes
    · exact call_set_changes name "" true
  · exact call_set_changes name value true

section RunEach

variable {step : String → Environment → Line × Environment} {argument : String}
  {arguments : List String}

theorem runEach_cons_fst : (runEach step (argument :: arguments) env).1 =
    (step argument env).1 :: (runEach step arguments (step argument env).2).1 := rfl

theorem runEach_cons_snd : (runEach step (argument :: arguments) env).2 =
    (runEach step arguments (step argument env).2).2 := rfl

theorem runEach_changes (h : ∀ argument ∈ arguments, ∀ env, Changes given env (step argument env).2)
    (env : Environment) : Changes given env (runEach step arguments env).2 := by
  induction arguments generalizing env with
  | nil => exact .refl
  | cons argument rest ih =>
      obtain ⟨hfirst, hrest⟩ := List.forall_mem_cons.1 h
      rw [runEach_cons_snd]
      exact (hfirst env).trans (ih hrest _)

/-- A refused variable is what an argument with a problem is about. -/
theorem exists_of_mem_refusedIn {about : String → Option String} {name : String}
    (h : name ∈ refusedIn about arguments (runEach step arguments env).1) :
    ∃ argument env text, about argument = some name ∧ (step argument env).1 = .problem text := by
  induction arguments generalizing env with
  | nil => simp [refusedIn] at h
  | cons argument rest ih =>
      rw [refusedIn, runEach_cons_fst, List.zip_cons_cons, List.filterMap_cons] at h
      split at h
      · exact ih h
      · rename_i other hother
        rcases List.mem_cons.1 h with rfl | hrest
        · split at hother
          · rename_i text hline
            obtain ⟨rfl, hproblem⟩ := Prod.mk.inj hline
            exact ⟨_, env, text, hother, hproblem⟩
          · cases hother
        · exact ih hrest

end RunEach

theorem runEnv_snd (arguments : List String) :
    (env.runEnv arguments).2 = (runEach envStep arguments env).2 := by
  cases arguments <;> rfl

theorem runExport_snd (arguments : List String) : (env.runExport arguments).2 =
    if Lists arguments then env else (runEach exportStep arguments env).2 := by
  rw [runExport]
  by_cases h : Lists arguments
  · rw [if_pos h, if_pos (by simpa [Lists] using h)]
  · rw [if_neg h, if_neg (by simpa [Lists] using h)]

/-- A call changes one variable after the other, if any, and gives names only as it says. -/
theorem call_changes (env : Environment) (c : Call) : Changes c.given env (env.call c) := by
  cases c with
  | set name value exporting => exact call_set_changes name value exporting
  | unset name => exact call_unset_changes name
  | changeDirectory path => exact changeDirectory_changes path
  | runEnv arguments =>
      rw [call, runEnv_snd]
      refine runEach_changes (fun argument hargument env => ?_) env
      refine (envStep_changes argument).mono fun name hname => ?_
      exact List.mem_filterMap.2 ⟨argument, hargument, Option.mem_toList.1 hname⟩
  | runExport arguments =>
      rw [call, runExport_snd, Call.given]
      split
      · exact .refl
      · refine runEach_changes (fun argument hargument env => ?_) env
        exact (exportStep_changes argument).mono
          (List.cons_subset.2 ⟨List.mem_map_of_mem hargument, List.nil_subset _⟩)
  | runUnset arguments =>
      refine runEach_changes (fun argument _ env => ?_) env
      rw [unsetStep_snd]
      exact call_unset_changes argument

theorem of_problem_envStep {argument name text : String} (hname : assigned argument = some name)
    (h : (envStep argument env).1 = .problem text) : isName name = false ∨ name ∈ readOnlyNames := by
  rw [assigned] at hname
  rw [envStep] at h
  generalize splitAssignment argument = parts at hname h
  obtain ⟨other, value | value⟩ := parts
  · cases hname
  · obtain rfl : other = name := Option.some.inj hname
    dsimp only at h
    cases hset : env.set other value true with
    | ok later => simp [hset] at h
    | error e => exact of_set_eq_error hset

theorem of_problem_exportStep {argument text : String}
    (h : (exportStep argument env).1 = .problem text) :
    isName (named argument) = false ∨ named argument ∈ readOnlyNames := by
  rw [named]
  rw [exportStep] at h
  generalize splitAssignment argument = parts at h
  obtain ⟨name, value | value⟩ := parts
  · dsimp only at h
    by_cases hname : isName name = true
    · cases hset : env.set name "" true with
      | ok later => cases hsome : env.get? name <;> simp [hname, hsome, hset] at h
      | error e => exact of_set_eq_error hset
    · exact .inl (by simpa using hname)
  · dsimp only at h
    cases hset : env.set name value true with
    | ok later => simp [hset] at h
    | error e => exact of_set_eq_error hset

theorem of_problem_unsetStep {argument text : String}
    (h : (unsetStep argument env).1 = .problem text) : argument ∈ readOnlyNames := by
  rw [unsetStep] at h
  cases hunset : env.unset argument with
  | ok later => simp [hunset] at h
  | error e => exact of_unset_eq_error hunset

/-- What is refused is no name of a variable or read-only. -/
theorem of_mem_refused {c : Call} {name : String} (h : name ∈ env.refused c) :
    isName name = false ∨ name ∈ readOnlyNames := by
  cases c with
  | set other value exporting =>
      rw [refused] at h
      split at h
      · cases h
      · rename_i hset
        rw [List.mem_singleton.1 h]
        exact of_set_eq_error hset
  | unset other =>
      rw [refused] at h
      split at h
      · cases h
      · rename_i hunset
        rw [List.mem_singleton.1 h]
        exact .inr (of_unset_eq_error hunset)
  | changeDirectory path => cases h
  | runEnv arguments =>
      obtain ⟨argument, env, text, habout, hproblem⟩ := exists_of_mem_refusedIn h
      exact of_problem_envStep habout hproblem
  | runExport arguments =>
      rw [refused] at h
      split at h
      · cases h
      · obtain ⟨argument, env, text, habout, hproblem⟩ := exists_of_mem_refusedIn h
        obtain rfl : named argument = name := Option.some.inj habout
        exact of_problem_exportStep hproblem
  | runUnset arguments =>
      obtain ⟨argument, env, text, habout, hproblem⟩ := exists_of_mem_refusedIn h
      obtain rfl : argument = name := Option.some.inj habout
      exact .inr (of_problem_unsetStep hproblem)

end Calls

/-- What holds of an environment that belongs to a user at a home. -/
structure IsKept (username home : String) (env : Environment) : Prop where
  /-- The read-only variables have the values that they are given at the start. -/
  fixed : env.get? "USER" = some username ∧ env.get? "HOME" = some home ∧
    env.get? "SHELL" = some "/bin/sh"
  exported : ∀ name ∈ readOnlyNames, name ∈ env.exportedNames
  /-- What is exported has a value. -/
  valued : ∀ name ∈ env.exportedNames, (env.get? name).isSome = true
  /-- What has a value has a valid name. -/
  valid : ∀ name, (env.get? name).isSome = true → isName name = true

section Kept

variable {username home : String} {env later : Environment} {given : List String}

theorem IsKept.get?_ne_none (h : IsKept username home env) {name : String}
    (hname : name ∈ readOnlyNames) : env.get? name ≠ none := by
  have hsome := h.valued name (h.exported name hname)
  exact fun hnone => by simp [hnone] at hsome

theorem IsKept.get?_eq_none (h : IsKept username home env) {name : String}
    (hname : isName name = false) : env.get? name = none := by
  cases hvalue : env.get? name with
  | none => rfl
  | some value =>
      have hvalid := h.valid name (by rw [hvalue]; rfl)
      rw [hname] at hvalid
      cases hvalid

theorem IsKept.change (h : IsKept username home env) (hchange : Change given env later) :
    IsKept username home later := by
  cases hchange with
  | @put name value _ hname hfree =>
      have hother : ∀ other ∈ readOnlyNames, (env.put name value).get? other = env.get? other := by
        intro other hmem
        have hne : other ≠ name := by
          rintro rfl
          exact h.get?_ne_none hmem (hfree hmem)
        rw [get?_put, if_neg hne]
      refine ⟨?_, h.exported, fun other hmem => ?_, fun other hsome => ?_⟩
      · rw [hother "USER" (by decide), hother "HOME" (by decide), hother "SHELL" (by decide)]
        exact h.fixed
      · rw [get?_put]
        split
        · rfl
        · exact h.valued other hmem
      · rw [get?_put] at hsome
        split at hsome
        · rename_i heq
          exact heq ▸ hname
        · exact h.valid other hsome
  | @mark name hsome =>
      refine ⟨?_, fun other hmem => ?_, fun other hmem => ?_, fun other hother => ?_⟩
      · simpa using h.fixed
      · exact mem_exportedNames_markExported.2 (.inl (h.exported other hmem))
      · rw [get?_markExported]
        rcases mem_exportedNames_markExported.1 hmem with hbefore | rfl
        · exact h.valued other hbefore
        · exact hsome
      · exact h.valid other (by simpa using hother)
  | @drop name hfree =>
      have hne : ∀ other ∈ readOnlyNames, other ≠ name := by
        rintro other hmem rfl
        exact hfree hmem
      refine ⟨?_, fun other hmem => ?_, fun other hmem => ?_, fun other hsome => ?_⟩
      · rw [get?_without, get?_without, get?_without, if_neg (hne "USER" (by decide)),
          if_neg (hne "HOME" (by decide)), if_neg (hne "SHELL" (by decide))]
        exact h.fixed
      · exact mem_exportedNames_without.2 ⟨h.exported other hmem, hne other hmem⟩
      · obtain ⟨hbefore, hother⟩ := mem_exportedNames_without.1 hmem
        rw [get?_without, if_neg hother]
        exact h.valued other hbefore
      · rw [get?_without] at hsome
        split at hsome
        · cases hsome
        · exact h.valid other hsome

theorem IsKept.changes (h : IsKept username home env) (hchanges : Changes given env later) :
    IsKept username home later := by
  induction hchanges with
  | refl => exact h
  | tail _ hchange ih => exact ih.change hchange

theorem IsKept.after (h : IsKept username home env) (calls : List Call) :
    IsKept username home (env.after calls) := by
  induction calls generalizing env with
  | nil => exact h
  | cons c calls ih => exact ih (h.changes (env.call_changes c))

/-- A variable that cannot be set or removed stays as it is. -/
theorem IsKept.same_of_refused (h : IsKept username home env) (hlater : IsKept username home later)
    {name : String} (hname : isName name = false ∨ name ∈ readOnlyNames) :
    later.get? name = env.get? name ∧ later.isExported name = env.isExported name := by
  have hvalue : later.get? name = env.get? name := by
    rcases hname with hname | hname
    · rw [h.get?_eq_none hname, hlater.get?_eq_none hname]
    · simp only [readOnlyNames, List.mem_cons, List.not_mem_nil, or_false] at hname
      obtain ⟨huser, hhome, hshell⟩ := h.fixed
      obtain ⟨huser', hhome', hshell'⟩ := hlater.fixed
      rcases hname with rfl | rfl | rfl
      · rw [huser, huser']
      · rw [hhome, hhome']
      · rw [hshell, hshell']
  refine ⟨hvalue, ?_⟩
  rw [Bool.eq_iff_iff, isExported_iff, isExported_iff, hvalue]
  rcases hname with hname | hname
  · simp [h.get?_eq_none hname]
  · simp [h.exported name hname, hlater.exported name hname]

theorem start_concat (username home : String) (directory : Option String)
    (extra : List (String × String)) (p : String × String) :
    start username home directory (extra ++ [p]) =
      if isName p.1 && !readOnlyNames.contains p.1 then
        ((start username home directory extra).put p.1 p.2).markExported p.1
      else start username home directory extra := by
  simp [start, List.foldl_append]

theorem start_changes (username home : String) (directory : Option String)
    (extra : List (String × String)) :
    Changes (extra.map (·.1)) (start username home directory [])
      (start username home directory extra) := by
  induction extra using List.reverseRecOn with
  | nil => exact .refl
  | append_singleton extra p ih =>
      rw [start_concat]
      have hbefore : Changes ((extra ++ [p]).map (·.1)) _ _ := ih.mono (by simp)
      split
      · rename_i hvalid
        rw [Bool.and_eq_true, Bool.not_eq_true', List.contains_eq_mem, decide_eq_false_iff_not]
          at hvalid
        refine (hbefore.tail (.put p.2 ?_ hvalid.1 fun hfixed => absurd hfixed hvalid.2)).tail
          (.mark ?_)
        · simp
        · simp [get?_put]
      · exact hbefore

theorem isKept_start (username home : String) (directory : Option String)
    (extra : List (String × String)) :
    IsKept username home (start username home directory extra) := by
  refine IsKept.changes ⟨⟨rfl, rfl, rfl⟩, ?_, ?_, ?_⟩
    (start_changes username home directory extra)
  · have hnames : ∀ name ∈ readOnlyNames,
        name ∈ ["USER", "HOME", "SHELL", "PATH", "PWD", "TERM", "LANG"] := by decide
    exact hnames
  · exact fun name hname => isSome_lookup_iff.2 hname
  · intro name hsome
    have hmem := isSome_lookup_iff.1 hsome
    simp only [start, List.foldl_nil, List.map_cons, List.map_nil, List.mem_cons, List.not_mem_nil,
      or_false] at hmem
    rcases hmem with rfl | rfl | rfl | rfl | rfl | rfl | rfl <;> decide

end Kept

section Unnamed

/-- Whether a call names a variable. -/
def Call.names (name : String) : Call → Bool
  | .set other _ _ | .unset other => other == name
  | .changeDirectory _ => name == "PWD" || name == "OLDPWD"
  | .runEnv arguments | .runExport arguments => arguments.any (named · == name)
  | .runUnset arguments => arguments.contains name

variable {env : Environment} {name other : String}

theorem get?_call_set (h : name ≠ other) (value : String) (exporting : Bool) :
    (env.call (.set other value exporting)).get? name = env.get? name := by
  rw [call]
  cases hset : env.set other value exporting with
  | error e => rfl
  | ok later =>
      obtain ⟨-, -, rfl⟩ := set_eq_ok_iff.1 hset
      cases exporting <;> simp [Except.toOption, get?_put, h]

theorem get?_call_unset (h : name ≠ other) : (env.call (.unset other)).get? name = env.get? name := by
  rw [call]
  cases hunset : env.unset other with
  | error e => rfl
  | ok later =>
      obtain ⟨-, rfl⟩ := unset_eq_ok_iff.1 hunset
      simp [Except.toOption, get?_without, h]

theorem get?_envStep {argument : String} (h : named argument ≠ name) :
    (envStep argument env).2.get? name = env.get? name := by
  rw [envStep_snd]
  rw [named] at h
  generalize splitAssignment argument = parts at h
  obtain ⟨other, value | value⟩ := parts
  · rfl
  · exact get?_call_set h.symm value true

theorem get?_exportStep {argument : String} (h : named argument ≠ name) :
    (exportStep argument env).2.get? name = env.get? name := by
  rw [exportStep_snd]
  rw [named] at h
  generalize splitAssignment argument = parts at h
  obtain ⟨other, value | value⟩ := parts
  · dsimp only
    split
    · exact get?_markExported
    · exact get?_call_set h.symm "" true
  · exact get?_call_set h.symm value true

theorem get?_runEach {step : String → Environment → Line × Environment} {arguments : List String}
    (h : ∀ argument ∈ arguments, ∀ env, (step argument env).2.get? name = env.get? name)
    (env : Environment) : (runEach step arguments env).2.get? name = env.get? name := by
  induction arguments generalizing env with
  | nil => rfl
  | cons argument arguments ih =>
      obtain ⟨hfirst, hrest⟩ := List.forall_mem_cons.1 h
      rw [runEach_cons_snd, ih hrest, hfirst]

theorem get?_changeDirectory (h : name ≠ "PWD" ∧ name ≠ "OLDPWD") (path : String) :
    (env.changeDirectory path).get? name = env.get? name := by
  rw [changeDirectory]
  split
  · split
    · rfl
    · rw [get?_put, if_neg h.1, get?_markExported, get?_put, if_neg h.2]
  · rw [get?_put, if_neg h.1]

/-- A variable that a call does not name keeps its value. -/
theorem get?_call {c : Call} (h : c.names name = false) : (env.call c).get? name = env.get? name := by
  cases c with
  | set other value exporting => exact get?_call_set (fun heq => by simp [Call.names, heq] at h) _ _
  | unset other => exact get?_call_unset fun heq => by simp [Call.names, heq] at h
  | changeDirectory path => exact get?_changeDirectory (by simpa [Call.names] using h) path
  | runEnv arguments =>
      rw [call, runEnv_snd]
      exact get?_runEach (fun argument hargument _ => get?_envStep fun heq =>
        by simpa [heq] using List.any_eq_false.1 h argument hargument) env
  | runExport arguments =>
      rw [call, runExport_snd]
      split
      · rfl
      · exact get?_runEach (fun argument hargument _ => get?_exportStep fun heq =>
          by simpa [heq] using List.any_eq_false.1 h argument hargument) env
  | runUnset arguments =>
      rw [Call.names, List.contains_eq_mem, decide_eq_false_iff_not] at h
      refine get?_runEach (fun argument hargument env => ?_) env
      rw [unsetStep_snd]
      exact get?_call_unset fun heq => h (heq ▸ hargument)

/-- A variable that is not among the first ones of an adventure has the value that every session
starts with. -/
theorem get?_start_of_not_mem {extra : List (String × String)} (h : ∀ p ∈ extra, p.1 ≠ name)
    (username home : String) (directory : Option String) :
    (start username home directory extra).get? name =
      (start username home directory []).get? name := by
  induction extra using List.reverseRecOn with
  | nil => rfl
  | append_singleton extra p ih =>
      have hne : name ≠ p.1 := (h p (by simp)).symm
      rw [start_concat]
      split
      · rw [get?_markExported, get?_put, if_neg hne, ih fun q hq => h q (by simp [hq])]
      · exact ih fun q hq => h q (by simp [hq])

end Unnamed

/-- Whatever is asked of an environment, the read-only variables keep the values they have had from the
start and stay exported, every exported name has a value, and a variable whose assignment or removal is
reported as an error is left as it is. -/
theorem read_only_variables_stay (username home : String) (directory : Option String)
    (extra : List (String × String)) (calls : List Call) :
    let env := (start username home directory extra).after calls
    (env.get? "USER" = some username ∧ env.get? "HOME" = some home ∧
      env.get? "SHELL" = some "/bin/sh" ∧ ∀ name ∈ readOnlyNames, env.isExported name = true) ∧
    (∀ name ∈ env.exportedNames, (env.get? name).isSome = true) ∧
    ∀ c, ∀ name ∈ env.refused c, (env.call c).get? name = env.get? name ∧
      (env.call c).isExported name = env.isExported name := by
  intro env
  have henv : IsKept username home env := (isKept_start username home directory extra).after calls
  obtain ⟨huser, hhome, hshell⟩ := henv.fixed
  refine ⟨⟨huser, hhome, hshell, fun name hname => ?_⟩, henv.valued, fun c name hname => ?_⟩
  · have hexported := henv.exported name hname
    exact isExported_iff.2 ⟨hexported, henv.valued name hexported⟩
  · exact henv.same_of_refused (henv.changes (env.call_changes c)) (of_mem_refused hname)

/-- One call exports a variable and is told of two that it cannot set, of which one is read-only. -/
theorem shell_is_left_alone :
    let env := (start "ada" "/home/ada" none [("SHELL", "zsh"), ("A", "1")]).after [.runUnset ["HOME"]]
    env.refused (.runExport ["SHELL=zsh", "A=2", "9x=3"]) = ["SHELL", "9x"] ∧
      (env.call (.runExport ["SHELL=zsh", "A=2", "9x=3"])).get? "A" = some "2" ∧
      (env.call (.runExport ["SHELL=zsh", "A=2", "9x=3"])).get? "SHELL" = some "/bin/sh" := by
  intro env
  have hrefused : env.refused (.runExport ["SHELL=zsh", "A=2", "9x=3"]) = ["SHELL", "9x"] := by
    decide +kernel
  have hstays := read_only_variables_stay "ada" "/home/ada" none [("SHELL", "zsh"), ("A", "1")]
    [.runUnset ["HOME"]]
  obtain ⟨hvalue, -⟩ := hstays.2.2 (.runExport ["SHELL=zsh", "A=2", "9x=3"]) "SHELL" (by
    rw [hrefused]
    decide)
  refine ⟨hrefused, by decide +kernel, ?_⟩
  rw [hvalue]
  exact hstays.1.2.2.1

end PracticeShell.Environment
