import Mathlib.Data.List.Nodup
import PracticeShell.Adventure.Basic
import PracticeShell.Proofs.Run
import PracticeShell.Proofs.Tree.Refusing

/-!
# Documents that are refused

A document that gives no adventure is refused, and so is a description that gives no files. Most faults
tell that the document is wrong, but some escape (`Error.Escapes`): they say nothing of documents, and
nobody expects them. A document is at fault in this way if the first of its values that cannot be read
is of another type than it is taken for (`Adventure.IsFaulty`), and a description of files if its first
node that cannot be made is well-formed (`Adventure.endsIn_makeFiles_iff`).

Adventures, missions and tasks are read alike: an object with an id, and the elements of a member one
after the other (`Reader.Lists`).

A document gives an adventure only if all its tasks have names of their own
(`Adventure.nodup_taskIds_of_ofJson`). Nothing of the kind is asked of missions: they may share a name,
and a mission may have no task.
-/

namespace PracticeShell.Adventure

open Run

theorem mem_repeated {ids : List String} {id : String} :
    id ∈ repeated ids ↔ 1 < ids.count id := by
  unfold repeated
  rw [List.mem_mergeSort, List.mem_eraseDups, List.mem_filter]
  constructor
  · rintro ⟨-, hcount⟩
    exact of_decide_eq_true hcount
  · intro hcount
    exact ⟨List.count_pos_iff.1 (by omega), decide_eq_true hcount⟩

theorem repeated_eq_nil_iff {ids : List String} : repeated ids = [] ↔ ids.Nodup := by
  rw [List.eq_nil_iff_forall_not_mem, List.nodup_iff_count_le_one]
  simp only [mem_repeated, Nat.not_lt]

theorem nodup_taskIds_of_ofJson {v : Json} {a : Adventure} (h : ofJson v = .ok a) :
    (taskIds a.missions).Nodup := by
  cases v with
  | object ms =>
      unfold ofJson at h
      dsimp only at h
      by_cases hid : (ms.lookup "id").isNone = true
      · rw [if_pos hid] at h
        cases h
      rw [if_neg hid] at h
      by_cases hmissions : (ms.lookup "missions").isNone = true
      · rw [if_pos hmissions] at h
        cases h
      rw [if_neg hmissions] at h
      obtain ⟨items, -, h⟩ := bind_eq_ok_iff.1 h
      obtain ⟨missions, -, h⟩ := bind_eq_ok_iff.1 h
      by_cases hagain : repeated (taskIds missions) = []
      · rw [if_neg (by simp [hagain])] at h
        obtain ⟨environment, -, h⟩ := bind_eq_ok_iff.1 h
        obtain ⟨critical, -, h⟩ := bind_eq_ok_iff.1 h
        cases h
        exact repeated_eq_nil_iff.1 hagain
      · rw [if_pos (by simp [hagain])] at h
        cases h
  | _ => cases h

theorem taskIds_eq_map (a : Adventure) : taskIds a.missions = a.tasks.map (·.id) :=
  List.map_flatMap.symm

/-- The tasks of one mission have names of their own if those of all missions do. -/
theorem nodup_of_mem_missions {missions : List Mission} {m : Mission}
    (h : (taskIds missions).Nodup) (hm : m ∈ missions) : (m.tasks.map (·.id)).Nodup :=
  (List.nodup_flatMap.1 h).1 m hm

end PracticeShell.Adventure

namespace PracticeShell

open Run

/-- Whether a fault of a description of files is not expected. Contents that are no texts do not count:
the files are made, and they are at fault only when they are used. -/
def StructureError.Escapes : StructureError → Prop
  | illTyped | failed _ => True
  | _ => False

/-- Whether a fault of a document is not expected. -/
def Adventure.Error.Escapes : Error → Prop
  | files _ cause => cause.Escapes
  | e => e.isExpected = false

namespace Structure.Mention

variable {m : Mention} {e : StructureError}

/-- Whether the fault of something that makes no node is not expected: it is that of a node that
cannot be made, or of a value of a wrong type. -/
def Escapes : Mention → Prop
  | node .. => True
  | fault cause => cause.Escapes

theorem Causes.escapes_iff (h : m.Causes e) : e.Escapes ↔ m.Escapes := by
  cases m with
  | node isDirectory path =>
      obtain ⟨cause, rfl⟩ := h
      exact Iff.rfl
  | fault cause =>
      obtain rfl : e = cause := h
      exact Iff.rfl

end Structure.Mention

namespace Adventure.Reader

variable {α : Type} {read : Json → Except Error α} {sound faulty : Json → Prop} {l : List Json}
  {v : Json} {ms : Json.Members} {name : String}

theorem escapes_of_has {e : Error} (h : has name v = .error e) : e.Escapes := by
  cases v <;> simp [has] at h <;> simp [← h, Error.Escapes, Error.isExpected]

theorem members_of_not_object (h : ∀ ms, v ≠ .object ms) : members v = .error .noMembers := by
  cases v with
  | object ms => exact absurd rfl (h ms)
  | _ => rfl

/-- What has no elements is at fault, and otherwise what is done with them may be. -/
theorem endsIn_elements_bind_iff {f : List Json → Except Error α} :
    EndsIn Error.Escapes (elements v >>= f) ↔
      ∀ items, v.elements? = some items → EndsIn Error.Escapes (f items) := by
  unfold elements
  cases v.elements? with
  | none => simp [bind, Except.bind, Error.Escapes, Error.isExpected]
  | some items => simp [bind, Except.bind]

theorem all_ok_iff : (∃ as, all read l = .ok as) ↔ ∀ v ∈ l, ∃ a, read v = .ok a := by
  induction l with
  | nil => simp [all]
  | cons v rest ih =>
      rw [List.forall_mem_cons, ← ih]
      simp only [all, bind_eq_ok_iff, pure, Except.pure]
      constructor
      · rintro ⟨as, a, ha, rest, hrest, -⟩
        exact ⟨⟨a, ha⟩, rest, hrest⟩
      · rintro ⟨⟨a, ha⟩, rest, hrest⟩
        exact ⟨_, a, ha, rest, hrest, rfl⟩

/-- Whether the first of some values that is not sound is at fault. -/
def IsStopped (sound faulty : Json → Prop) (l : List Json) : Prop :=
  ∃ before v after, l = before ++ v :: after ∧ (∀ u ∈ before, sound u) ∧ faulty v

theorem isStopped_cons_iff : IsStopped sound faulty (v :: l) ↔
    faulty v ∨ sound v ∧ IsStopped sound faulty l := by
  constructor
  · rintro ⟨_ | ⟨u, before⟩, w, after, heq, hbefore, hw⟩
    · cases heq
      exact .inl hw
    · cases heq
      obtain ⟨hv, hbefore⟩ := List.forall_mem_cons.1 hbefore
      exact .inr ⟨hv, before, w, after, rfl, hbefore, hw⟩
  · rintro (hv | ⟨hv, before, w, after, rfl, hbefore, hw⟩)
    · exact ⟨[], v, l, rfl, nofun, hv⟩
    · exact ⟨v :: before, w, after, rfl, List.forall_mem_cons.2 ⟨hv, hbefore⟩, hw⟩

/-- Reading several values ends at the first one that cannot be read. -/
theorem endsIn_all_iff {p : Error → Prop} (hsound : ∀ v, (∃ a, read v = .ok a) ↔ sound v)
    (hfaulty : ∀ v, EndsIn p (read v) ↔ faulty v) :
    EndsIn p (all read l) ↔ IsStopped sound faulty l := by
  induction l with
  | nil => simp [all, IsStopped]
  | cons v rest ih =>
      rw [isStopped_cons_iff, ← hsound, ← hfaulty, ← ih, all, endsIn_bind_iff]
      simp only [endsIn_bind_iff, pure, Except.pure, endsIn_ok_iff, and_false, exists_false,
        or_false, exists_and_right]

/-- Everything that is not sound is at fault exactly if not everything is sound. -/
theorem isStopped_not_iff : IsStopped sound (fun v => ¬ sound v) l ↔ ¬ ∀ v ∈ l, sound v := by
  induction l with
  | nil => simp [IsStopped]
  | cons v rest ih =>
      rw [isStopped_cons_iff, ih, List.forall_mem_cons, Classical.not_and_iff_not_or_not]
      by_cases hv : sound v <;> simp [hv]

/-- Whether a value is an object with an id and with sound elements of a member, if it has that. -/
def Lists (name : String) (sound : Json → Prop) : Json → Prop
  | .object ms => (ms.lookup "id").isSome = true ∧
      ∃ items, ((ms.lookup name).getD (.array [])).elements? = some items ∧ ∀ u ∈ items, sound u
  | _ => False

section Listed

variable {β : Type} {finish : List α → β} (hsound : ∀ v, (∃ a, read v = .ok a) ↔ sound v)

include hsound

theorem listed_ok_iff :
    (∃ b, (elementsOf ms name >>= fun items => all read items >>= fun as => .ok (finish as)) =
      .ok b) ↔
    ∃ items, ((ms.lookup name).getD (.array [])).elements? = some items ∧ ∀ u ∈ items, sound u := by
  unfold elementsOf elements
  cases ((ms.lookup name).getD (.array [])).elements? with
  | none => simp [bind, Except.bind]
  | some items =>
      have hall : (∃ as, all read items = .ok as) ↔ ∀ u ∈ items, sound u := by
        rw [all_ok_iff]
        simp only [hsound]
      simp [bind_eq_ok_iff, ← hall]

/-- Reading the elements of a member ends at the first that cannot be read, and so it does if the
member has no elements. -/
theorem endsIn_listed_iff (hfaulty : ∀ v, EndsIn Error.Escapes (read v) ↔ faulty v) :
    EndsIn Error.Escapes
      (elementsOf ms name >>= fun items => all read items >>= fun as => .ok (finish as)) ↔
    ∀ items, ((ms.lookup name).getD (.array [])).elements? = some items →
      IsStopped sound faulty items := by
  unfold elementsOf
  rw [endsIn_elements_bind_iff]
  refine forall₂_congr fun items _ => ?_
  simp [endsIn_bind_iff, endsIn_all_iff hsound hfaulty]

/-- What is read from an object with an id and the elements of a member is read from nothing
else. -/
theorem ok_iff_lists {parse : Json → Except Error β}
    (hid : ∀ {ms : Json.Members}, (ms.lookup "id").isSome = true → ∃ finish : List α → β,
      parse (.object ms) =
        elementsOf ms name >>= fun items => all read items >>= fun as => .ok (finish as))
    (hobject : ∀ {v b}, parse v = .ok b →
      ∃ ms, v = .object ms ∧ (ms.lookup "id").isSome = true) :
    (∃ b, parse v = .ok b) ↔ Lists name sound v := by
  constructor
  · rintro ⟨b, hb⟩
    obtain ⟨ms, rfl, hms⟩ := hobject hb
    obtain ⟨finish, heq⟩ := hid hms
    exact ⟨hms, (listed_ok_iff hsound).1 ⟨b, heq ▸ hb⟩⟩
  · intro h
    cases v with
    | object ms =>
        obtain ⟨finish, heq⟩ := hid h.1
        rw [heq]
        exact (listed_ok_iff hsound).2 h.2
    | _ => exact h.elim

end Listed

end Adventure.Reader

open Adventure (Error Reader.IsStopped Reader.Lists)

namespace Task

/-- Whether a value is an object whose level, if it has one, is a whole number. -/
def IsHint : Json → Prop
  | .object ms => ∃ level, ((ms.lookup "level").getD (.int 1)).toInt = .ok level
  | _ => False

/-- Whether a value is an object with an id whose hints, if it has any, are hints. -/
def IsSound : Json → Prop := Reader.Lists "hints" IsHint

/-- Whether a value that is no task is at fault otherwise than by having no id. -/
def IsFaulty (v : Json) : Prop := Adventure.Reader.has "id" v ≠ .ok false ∧ ¬ IsSound v

variable {v : Json} {ms : Json.Members}

theorem readHint_object (ms : Json.Members) : readHint (.object ms) =
    match ((ms.lookup "level").getD (.int 1)).toInt with
    | .error e => .error (.number e)
    | .ok level => .ok ⟨level, Adventure.Reader.textOf ms "text" ""⟩ := by
  unfold readHint
  cases hlevel : ((ms.lookup "level").getD (.int 1)).toInt <;>
    simp [Adventure.Reader.members, bind, Except.bind, hlevel] <;> rfl

theorem readHint_ok_iff (v : Json) : (∃ h, readHint v = .ok h) ↔ IsHint v := by
  cases v with
  | object ms =>
      rw [readHint_object, IsHint]
      cases hlevel : ((ms.lookup "level").getD (.int 1)).toInt <;> simp
  | _ => simp [readHint, Adventure.Reader.members, bind, Except.bind, IsHint]

theorem endsIn_readHint_iff (v : Json) : EndsIn Error.Escapes (readHint v) ↔ ¬ IsHint v := by
  cases v with
  | object ms =>
      rw [readHint_object, IsHint]
      cases hlevel : ((ms.lookup "level").getD (.int 1)).toInt <;>
        simp [Error.Escapes, Error.isExpected]
  | _ =>
      simp [readHint, Adventure.Reader.members, bind, Except.bind, Error.Escapes,
        Error.isExpected, IsHint]

/-- An object with an id is a task as soon as its hints are read. -/
theorem ofJson_of_id (hid : (ms.lookup "id").isSome = true) :
    ∃ finish : List Hint → Task, ofJson (.object ms) =
      Adventure.Reader.elementsOf ms "hints" >>= fun items =>
        Adventure.Reader.all readHint items >>= fun hints => .ok (finish hints) := by
  unfold ofJson Adventure.Reader.has Adventure.Reader.members
  dsimp only
  rw [hid]
  exact ⟨_, rfl⟩

/-- What has no id is refused. -/
theorem ofJson_of_not_has (hid : Adventure.Reader.has "id" v = .ok false) :
    ofJson v = .error (.taskWithoutId v) := by
  unfold ofJson
  rw [hid]
  rfl

/-- What has no members is no task, and at fault unless it has no id. -/
theorem endsIn_ofJson_of_not_object (hobject : ∀ ms, v ≠ .object ms)
    (hid : Adventure.Reader.has "id" v ≠ .ok false) : EndsIn Error.Escapes (ofJson v) := by
  unfold ofJson
  rw [Adventure.Reader.members_of_not_object hobject]
  cases hhas : Adventure.Reader.has "id" v with
  | error e => exact ⟨e, rfl, Adventure.Reader.escapes_of_has hhas⟩
  | ok named =>
      cases named with
      | false => exact absurd hhas hid
      | true => exact ⟨_, rfl, rfl⟩

theorem has_object : Adventure.Reader.has "id" (.object ms) = .ok false ↔
    ¬ (ms.lookup "id").isSome = true := by
  simp only [Adventure.Reader.has, Except.ok.injEq, Bool.not_eq_true]

theorem object_of_ofJson {t : Task} (h : ofJson v = .ok t) :
    ∃ ms, v = .object ms ∧ (ms.lookup "id").isSome = true := by
  by_cases hhas : Adventure.Reader.has "id" v = .ok false
  · rw [ofJson_of_not_has hhas] at h
    cases h
  · by_cases hobject : ∃ ms, v = .object ms
    · obtain ⟨ms, rfl⟩ := hobject
      exact ⟨ms, rfl, Classical.not_not.1 ((not_congr has_object).1 hhas)⟩
    · obtain ⟨e, he, -⟩ := endsIn_ofJson_of_not_object (not_exists.1 hobject) hhas
      rw [he] at h
      cases h

theorem ofJson_ok_iff (v : Json) : (∃ t, ofJson v = .ok t) ↔ IsSound v :=
  Adventure.Reader.ok_iff_lists readHint_ok_iff ofJson_of_id object_of_ofJson

theorem endsIn_ofJson_iff (v : Json) : EndsIn Error.Escapes (ofJson v) ↔ IsFaulty v := by
  unfold IsFaulty
  by_cases hhas : Adventure.Reader.has "id" v = .ok false
  · rw [ofJson_of_not_has hhas]
    exact iff_of_false (by simp [Error.Escapes, Error.isExpected]) fun h => h.1 hhas
  · rw [and_iff_right hhas]
    cases v with
    | object ms =>
        rw [has_object, Classical.not_not] at hhas
        obtain ⟨finish, heq⟩ := ofJson_of_id hhas
        rw [heq, Adventure.Reader.endsIn_listed_iff readHint_ok_iff endsIn_readHint_iff, IsSound,
          Adventure.Reader.Lists, and_iff_right hhas]
        simp only [Adventure.Reader.isStopped_not_iff, not_exists, not_and]
    | _ => exact iff_of_true (endsIn_ofJson_of_not_object (by simp) hhas) not_false

end Task

namespace Mission

/-- Whether a value is an object with an id whose tasks, if it has any, are tasks. -/
def IsSound : Json → Prop := Reader.Lists "tasks" Task.IsSound

/-- Whether a value is at fault as a mission: it is no object, or else it has an id and its tasks
have no elements or are stopped by one that is at fault. -/
def IsFaulty : Json → Prop
  | .object ms => (ms.lookup "id").isSome = true ∧
      ∀ items, ((ms.lookup "tasks").getD (.array [])).elements? = some items →
        Reader.IsStopped Task.IsSound Task.IsFaulty items
  | _ => True

variable {v : Json} {ms : Json.Members}

/-- An object with an id is a mission as soon as its tasks are read. -/
theorem ofJson_of_id (hid : (ms.lookup "id").isSome = true) :
    ∃ finish : List Task → Mission, ofJson (.object ms) =
      Adventure.Reader.elementsOf ms "tasks" >>= fun items =>
        Adventure.Reader.all Task.ofJson items >>= fun tasks => .ok (finish tasks) := by
  unfold ofJson Adventure.Reader.has Adventure.Reader.members
  dsimp only
  rw [hid]
  exact ⟨_, rfl⟩

/-- An object without an id is refused. -/
theorem ofJson_of_not_id (hid : ¬ (ms.lookup "id").isSome = true) :
    ofJson (.object ms) = .error (.missionWithoutId ((ms.lookup "title").getD .null)) := by
  rw [Bool.not_eq_true] at hid
  unfold ofJson Adventure.Reader.has Adventure.Reader.members
  dsimp only
  rw [hid]
  rfl

/-- What has no members is at fault as a mission, whatever stands for its id. -/
theorem endsIn_ofJson_of_not_object (hobject : ∀ ms, v ≠ .object ms) :
    EndsIn Error.Escapes (ofJson v) := by
  unfold ofJson
  rw [Adventure.Reader.members_of_not_object hobject]
  cases hhas : Adventure.Reader.has "id" v with
  | error e => exact ⟨e, rfl, Adventure.Reader.escapes_of_has hhas⟩
  | ok named => exact ⟨_, rfl, rfl⟩

theorem object_of_ofJson {m : Mission} (h : ofJson v = .ok m) :
    ∃ ms, v = .object ms ∧ (ms.lookup "id").isSome = true := by
  by_cases hobject : ∃ ms, v = .object ms
  · obtain ⟨ms, rfl⟩ := hobject
    refine ⟨ms, rfl, Classical.byContradiction fun hid => ?_⟩
    rw [ofJson_of_not_id hid] at h
    cases h
  · obtain ⟨e, he, -⟩ := endsIn_ofJson_of_not_object (not_exists.1 hobject)
    rw [he] at h
    cases h

theorem ofJson_ok_iff (v : Json) : (∃ m, ofJson v = .ok m) ↔ IsSound v :=
  Adventure.Reader.ok_iff_lists Task.ofJson_ok_iff ofJson_of_id object_of_ofJson

theorem endsIn_ofJson_iff (v : Json) : EndsIn Error.Escapes (ofJson v) ↔ IsFaulty v := by
  cases v with
  | object ms =>
      by_cases hid : (ms.lookup "id").isSome = true
      · obtain ⟨finish, heq⟩ := ofJson_of_id hid
        rw [heq, Adventure.Reader.endsIn_listed_iff Task.ofJson_ok_iff Task.endsIn_ofJson_iff,
          IsFaulty, and_iff_right hid]
      · rw [ofJson_of_not_id hid]
        exact iff_of_false (by simp [Error.Escapes, Error.isExpected]) fun h => hid h.1
  | _ => exact iff_of_true (endsIn_ofJson_of_not_object (by simp)) trivial

end Mission

namespace Adventure

/-- Whether the variables of an adventure are at fault: they are neither nothing nor an object. -/
def IsFaultyEnvironment (v : Json) : Prop := v.isTruthy = true ∧ ∀ members, v ≠ .object members

/-- Whether a document is at fault otherwise than one expects of documents. Its parts are read one
after the other, so that a fault counts if what is read before it is in order. -/
def IsFaulty : Json → Prop
  | .object ms => (ms.lookup "id").isSome = true ∧ ∃ listed, ms.lookup "missions" = some listed ∧
      ∀ items, listed.elements? = some items →
        Reader.IsStopped Mission.IsSound Mission.IsFaulty items ∨
        ∃ missions, Reader.all Mission.ofJson items = .ok missions ∧ (taskIds missions).Nodup ∧
          (IsFaultyEnvironment ((ms.lookup "environment").getD .null) ∨
            ((ms.lookup "criticalPaths").getD (.array [])).elements? = none)
  | _ => False

variable {v : Json} {ms : Json.Members}

/-- Variables that are at fault have no members to read, and all others are read. -/
theorem readEnvironment_cases (v : Json) :
    (IsFaultyEnvironment v ∧ readEnvironment v = .error .noMembers) ∨
      (¬ IsFaultyEnvironment v ∧ ∃ environment, readEnvironment v = .ok environment) := by
  unfold readEnvironment IsFaultyEnvironment
  cases htruthy : v.isTruthy with
  | false => simp
  | true =>
      cases v with
      | object members => simp [Reader.members, bind, Except.bind, pure, Except.pure]
      | _ => simp [Reader.members, bind, Except.bind]

theorem endsIn_readEnvironment_iff (v : Json) :
    EndsIn Error.Escapes (readEnvironment v) ↔ IsFaultyEnvironment v := by
  rcases readEnvironment_cases v with ⟨hfaulty, hread⟩ | ⟨hsound, environment, hread⟩
  · simp [hread, hfaulty, Error.Escapes, Error.isExpected]
  · simp [hread, hsound]

theorem readEnvironment_ok_iff (v : Json) :
    (∃ environment, readEnvironment v = .ok environment) ↔ ¬ IsFaultyEnvironment v := by
  rcases readEnvironment_cases v with ⟨hfaulty, hread⟩ | ⟨hsound, environment, hread⟩
  · simp [hread, hfaulty]
  · simp [hread, hsound]

/-- What is read of an object with an id and missions. -/
theorem ofJson_of_members {listed : Json} (hid : (ms.lookup "id").isSome = true)
    (hlisted : ms.lookup "missions" = some listed) :
    ∃ finish : List Mission → List (String × String) → List Json → Adventure,
      ofJson (.object ms) =
        Reader.elements listed >>= fun items =>
          Reader.all Mission.ofJson items >>= fun missions =>
            if repeated (taskIds missions) = [] then
              readEnvironment ((ms.lookup "environment").getD .null) >>= fun environment =>
                Reader.elementsOf ms "criticalPaths" >>= fun paths =>
                  .ok (finish missions environment paths)
            else .error (.repeatedTasks (repeated (taskIds missions))) := by
  refine ⟨fun missions environment paths => {
    id := ((ms.lookup "id").getD .null).plainText
    title := Reader.textOf ms "title" ((ms.lookup "id").getD .null).plainText
    description := Reader.textOf ms "description" ""
    missions
    files := (ms.lookup "initialFileSystem").getD .null
    environment
    criticalPaths := paths.map Json.plainText }, ?_⟩
  have hthere : ¬ (ms.lookup "id").isNone = true := by
    rw [Option.isNone_iff_eq_none, ← Option.not_isSome_iff_eq_none]
    exact not_not_intro hid
  have hmissions : ¬ (ms.lookup "missions").isNone = true := by simp [hlisted]
  unfold ofJson
  dsimp only
  rw [if_neg hthere, if_neg hmissions, hlisted, Option.getD_some]
  refine congrArg _ (funext fun items => congrArg _ (funext fun missions => ?_))
  by_cases hagain : repeated (taskIds missions) = []
  · rw [if_pos hagain, if_neg (by simp [hagain])]
    rfl
  · rw [if_neg hagain, if_pos (by simp [hagain])]
    rfl

/-- What is no object with an id and missions is refused. -/
theorem not_endsIn_of_missing (h : (ms.lookup "id").isNone = true ∨
    (ms.lookup "missions").isNone = true) : ¬ EndsIn Error.Escapes (ofJson (.object ms)) := by
  have hmissing (name : String) : ¬ EndsIn Error.Escapes
      (.error (.missing name) : Except Error Adventure) := by
    simp [Error.Escapes, Error.isExpected]
  unfold ofJson
  dsimp only
  by_cases hid : (ms.lookup "id").isNone = true
  · rw [if_pos hid]
    exact hmissing "id"
  · rw [if_neg hid, if_pos (h.resolve_left hid)]
    exact hmissing "missions"

section Members

variable {finish : List Mission → List (String × String) → List Json → Adventure}
  (environment : Json) (ms : Json.Members)

/-- What follows the missions is at fault exactly if the variables are, or the critical paths have no
elements. -/
theorem endsIn_rest_iff (missions : List Mission) :
    EndsIn Error.Escapes (readEnvironment environment >>= fun environment =>
      Reader.elementsOf ms "criticalPaths" >>= fun paths =>
        .ok (finish missions environment paths)) ↔
    IsFaultyEnvironment environment ∨
      ((ms.lookup "criticalPaths").getD (.array [])).elements? = none := by
  unfold Reader.elementsOf
  rw [endsIn_bind_iff, endsIn_readEnvironment_iff]
  simp only [Reader.endsIn_elements_bind_iff, endsIn_ok_iff, ← Option.eq_none_iff_forall_ne_some,
    exists_and_right, readEnvironment_ok_iff, imp_false]
  -- The critical paths are looked at only if the variables have been read.
  by_cases hfaulty : IsFaultyEnvironment environment <;> simp [hfaulty]

theorem endsIn_missions_iff (items : List Json) :
    EndsIn Error.Escapes (Reader.all Mission.ofJson items >>= fun missions =>
      if repeated (taskIds missions) = [] then
        readEnvironment environment >>= fun environment =>
          Reader.elementsOf ms "criticalPaths" >>= fun paths =>
            .ok (finish missions environment paths)
      else .error (.repeatedTasks (repeated (taskIds missions)))) ↔
    Reader.IsStopped Mission.IsSound Mission.IsFaulty items ∨
      ∃ missions, Reader.all Mission.ofJson items = .ok missions ∧ (taskIds missions).Nodup ∧
        (IsFaultyEnvironment environment ∨
          ((ms.lookup "criticalPaths").getD (.array [])).elements? = none) := by
  rw [endsIn_bind_iff, Reader.endsIn_all_iff Mission.ofJson_ok_iff Mission.endsIn_ofJson_iff]
  refine or_congr_right (exists_congr fun missions => and_congr_right fun _ => ?_)
  rw [← repeated_eq_nil_iff]
  split
  · rename_i hnone
    rw [endsIn_rest_iff, and_iff_right hnone]
  · rename_i hagain
    exact iff_of_false (by simp [Error.Escapes, Error.isExpected]) fun h => hagain h.1

end Members

theorem endsIn_ofJson_iff (v : Json) : EndsIn Error.Escapes (ofJson v) ↔ IsFaulty v := by
  cases v with
  | object ms =>
      rw [IsFaulty]
      by_cases hid : (ms.lookup "id").isSome = true
      · rw [and_iff_right hid]
        cases hlisted : ms.lookup "missions" with
        | none => exact iff_of_false (not_endsIn_of_missing (.inr (by simp [hlisted]))) (by simp)
        | some listed =>
            obtain ⟨finish, heq⟩ := ofJson_of_members hid hlisted
            rw [heq, Reader.endsIn_elements_bind_iff]
            simp only [Option.some.injEq, exists_eq_left', endsIn_missions_iff]
      · have hmissing : (ms.lookup "id").isNone = true := by
          rw [Option.isNone_iff_eq_none, ← Option.not_isSome_iff_eq_none]
          exact hid
        exact iff_of_false (not_endsIn_of_missing (.inl hmissing)) fun h => hid h.1
  | _ => simp [ofJson, IsFaulty, Error.Escapes, Error.isExpected]

/-- The files of an adventure are refused with a fault that escapes exactly if the first thing in
their description that makes no node is one that cannot be made or is of a wrong type. -/
theorem endsIn_makeFiles_iff (a : Adventure) (defaultOwner : String) (now : Int) :
    EndsIn Error.Escapes (a.makeFiles defaultOwner now) ↔
      ∃ m, Structure.misfitOf? a.files = some m ∧ m.Escapes := by
  unfold makeFiles
  obtain ⟨m, e, hm, he, hcauses⟩ | ⟨hnone, ⟨fs, hfs⟩ | htexts⟩ :=
    FileSystem.ofStructure_cases a.files defaultOwner now
  · rw [he, hm]
    simp [Error.Escapes, hcauses.escapes_iff]
  · rw [hfs, hnone]
    simp
  · rw [htexts, hnone]
    simp [Error.Escapes, StructureError.Escapes]

/-- Reading a document and making its files end with the adventure and its file system, or else with
a fault of documents, unless the document is at fault otherwise, or the files. -/
theorem faults_escape_iff (v : Json) (a : Adventure) (defaultOwner : String) (now : Int) :
    (EndsIn Error.Escapes (ofJson v) ↔ IsFaulty v) ∧
    (EndsIn Error.Escapes (a.makeFiles defaultOwner now) ↔
      ∃ m, Structure.misfitOf? a.files = some m ∧ m.Escapes) :=
  ⟨endsIn_ofJson_iff v, endsIn_makeFiles_iff a defaultOwner now⟩

/-- The description of two directories at one place. -/
def twins : Json :=
  .object [("root", .object [("a", .object [("type", .string "directory")]),
    ("./a", .object [("type", .string "directory")])])]

/-- The document of an adventure with these files. -/
def twinsDocument : Json :=
  .object [("id", .string "x"), ("missions", .array []), ("initialFileSystem", twins)]

theorem ofJson_twinsDocument : ofJson twinsDocument = .ok ⟨"x", "x", "", [], twins, [], []⟩ := by
  have hnames : repeated (taskIds []) = [] := repeated_eq_nil_iff.2 List.nodup_nil
  unfold ofJson twinsDocument
  dsimp only
  refine bind_eq_ok_iff.2 ⟨[], rfl, ?_⟩
  refine bind_eq_ok_iff.2 ⟨[], rfl, ?_⟩
  rw [hnames]
  rfl

/-- An adventure is read whose files cannot be made, and missions that are a number are not read:
neither is told as a fault of documents. -/
theorem twins_escape : (∃ a, ofJson twinsDocument = .ok a ∧
      a.makeFiles "student" 0 = .error (.files "x" (.failed ⟨.alreadyExists, "/./a"⟩)) ∧
      EndsIn Error.Escapes (a.makeFiles "student" 0)) ∧
    EndsIn Error.Escapes (ofJson (.object [("id", .string "x"), ("missions", .int 5)])) := by
  have hfiles : (⟨"x", "x", "", [], twins, [], []⟩ : Adventure).makeFiles "student" 0 =
      .error (.files "x" (.failed ⟨.alreadyExists, "/./a"⟩)) := by
    rfl
  exact ⟨⟨_, ofJson_twinsDocument, hfiles, _, hfiles, trivial⟩, _, rfl, rfl⟩

end Adventure

end PracticeShell
