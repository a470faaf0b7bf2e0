import PracticeShell.Command.Making

/-!
# Permissions and owners

The commands `chmod` and `chown`. A change of permissions is three or four octal digits, or clauses
that add, remove or set permissions for the owner, the group and others.
-/

namespace PracticeShell.Command

/-- What a clause does with permissions. -/
inductive Change
  | add
  | remove
  | assign
deriving DecidableEq, Repr

/-- One clause of a change of permissions: the bits of all groups it is about, and the permissions
named, for these groups. -/
structure Clause where
  change : Change
  groups : Nat
  bits : Nat
deriving DecidableEq, Repr

namespace Clause

/-- The three bits of one group, at their place. -/
def groupBits (bits : Nat) : Char → Nat
  | 'u' => bits * 64
  | 'g' => bits * 8
  | 'o' => bits
  | _ => bits * 73

/-- The bits of all groups named, everyone if none is named. -/
def spread (who : List Char) (bits : Nat) : Nat :=
  if who.isEmpty then bits * 73 else who.foldl (fun all c => all ||| groupBits bits c) 0

/-- The value of a permission's letter. -/
def letterBit : Char → Nat
  | 'r' => 4
  | 'w' => 2
  | _ => 1

/-- Reads a clause such as `u+x`. -/
def read? (cs : List Char) : Option Clause :=
  let isWho := fun c => ['u', 'g', 'o', 'a'].contains c
  let who := cs.takeWhile isWho
  match cs.dropWhile isWho with
  | sign :: letters =>
    if letters.all (fun c => ['r', 'w', 'x'].contains c) then
      let bits := letters.foldl (fun bits c => bits ||| letterBit c) 0
      let change := match sign with
        | '+' => some Change.add
        | '-' => some Change.remove
        | '=' => some Change.assign
        | _ => none
      change.map fun change => ⟨change, spread who 7, spread who bits⟩
    else none
  | [] => none

/-- Permissions after a clause. -/
def apply (p : Nat) (c : Clause) : Nat :=
  match c.change with
  | .add => p ||| c.bits
  | .remove => p - (p &&& c.bits)
  | .assign => (p - (p &&& c.groups)) ||| c.bits

end Clause

/-- The permissions that a change makes of others, if it can be read. A line feed may end the change
and each of its clauses. -/
def changedPermissions? (change : String) (p : Permissions) : Option Permissions :=
  let digits := Text.Lines.withoutFinal change.toList
  let asOctal := if digits.length = 3 ∨ digits.length = 4 then Permissions.ofOctal? digits else none
  match asOctal with
  | some n => some (Permissions.ofNat n)
  | none =>
    let clauses := (change.toList.splitOn ',').mapM fun cs =>
      Clause.read? (Text.Lines.withoutFinal cs)
    clauses.map fun clauses => Permissions.ofNat (clauses.foldl Clause.apply p.val)

/-- Changes the permissions of the nodes at some paths. -/
def changeEach (change : String) (places : List String) : Action Unit :=
  places.forM fun path => do
    let current := (((← get).stat? path).map (·.permissions)).getD .withheld
    let changed := (changedPermissions? change current).getD .withheld
    let _ ← Action.attempt (Edit.setPermissions path changed)

/-- The paths of a node and, if asked for, of all nodes below it. -/
def affected (fs : FileSystem) (recursive : Bool) (full : String) : List String :=
  if recursive then
    match fs.walk full with
    | .ok nodes => nodes.map (·.path)
    | .error _ => []
  else [full]

/-- Changes the permissions of one target. -/
def chmodOne (ctx : Context) (recursive : Bool) (change target : String) :
    Action (List String) := do
  let full := ctx.resolve target
  let fs ← get
  if !fs.contains full then
    return ["chmod: cannot access '" ++ target ++ "': No such file or directory"]
  let places := affected fs recursive full
  if places.any fun path => Access.deniedIfAny ctx (fs.stat? path) then
    return ["chmod: changing permissions of '" ++ target ++ "': Operation not permitted"]
  changeEach change places
  return []

/-- Changes permissions. A change such as `-x` looks like a flag, so only a first word `-R` is taken
as one. -/
def runChmod (ctx : Context) (words : List String) : Action Outcome := do
  let recursive := words.head? = some "-R"
  match if recursive then words.drop 1 else words with
  | change :: target :: rest =>
    let targets := Operands.expand ctx (← get) (target :: rest)
    if (changedPermissions? change .withheld).isNone then
      return .fail ("chmod: invalid mode: '" ++ change ++ "'") Outcome.failure
    return .ofLines [] (← Action.forEach targets (chmodOne ctx recursive change))
  | _ => return .fail "chmod: missing operand" Outcome.failure

/-- Changes the owner of one target, which needs elevated rights. -/
def chownOne (ctx : Context) (recursive : Bool) (owner target : String) :
    Action (List String) := do
  let full := ctx.resolve target
  let fs ← get
  if !fs.contains full then
    return ["chown: cannot access '" ++ target ++ "': No such file or directory"]
  if !ctx.elevated then
    return ["chown: changing ownership of '" ++ target ++ "': Operation not permitted"]
  (affected fs recursive full).forM fun path => do
    let _ ← Action.attempt (Edit.setOwner path owner)
  return []

/-- Changes owners. A group named after a colon is passed over. -/
def runChown (ctx : Context) (words : List String) : Action Outcome := do
  let args ← Action.arguments (.flagsOnly "R") words
  match args.operands with
  | named :: target :: rest =>
    let owner := String.ofList (named.toList.takeWhile (· ≠ ':'))
    let targets := Operands.expand ctx (← get) (target :: rest)
    if owner = "" then return .fail ("chown: invalid user: '" ++ named ++ "'") Outcome.failure
    return .ofLines [] (← Action.forEach targets (chownOne ctx (args.has ['R']) owner))
  | _ => return .fail "chown: missing operand" Outcome.failure

end PracticeShell.Command
