import PracticeShell.Command.Outcome

/-!
# Who may do what

What the root user owns is off limits without elevated rights: reading, listing and changing it are
denied. Making or removing a node needs access to the directory that holds it; if that does not
exist yet, to the nearest node above it that does (`nearestExisting`).
-/

namespace PracticeShell.Access

open FileTree

/-- Whether a node is off limits. -/
def denied (ctx : Context) (node : Stat) : Bool :=
  node.owner == Context.rootUser && !ctx.elevated

/-- Whether there is a node and it is off limits. -/
def deniedIfAny (ctx : Context) (node : Option Stat) : Bool := node.any (denied ctx)

/-- The node reached along names or, if there is none, the nearest one above. -/
def nearestAlong (fs : FileSystem) (place : List String) : Stat :=
  match fs.root.find? place with
  | some node => fs.statOf place node
  | none =>
    if h : place = [] then fs.statOf [] fs.root
    else
      have : place.dropLast.length < place.length := by
        have := List.length_pos_iff.mpr h
        simp only [List.length_dropLast]
        omega
      nearestAlong fs place.dropLast
termination_by place.length

/-- The node at a path or, if there is none, the nearest one above. -/
def nearestExisting (fs : FileSystem) (path : String) : Stat :=
  nearestAlong fs (Path.segments path)

/-- Whether the directory that a node would be made in is off limits. -/
def parentDenied (ctx : Context) (fs : FileSystem) (path : String) : Bool :=
  denied ctx (nearestExisting fs (Path.dirname path))

/-- Whether a node or something below it is off limits. -/
def treeDenied (ctx : Context) (fs : FileSystem) (path : String) : Bool :=
  if ctx.elevated then false
  else
    match fs.walk path with
    | .ok nodes => nodes.any fun node => node.owner == Context.rootUser
    | .error _ => false

end PracticeShell.Access
