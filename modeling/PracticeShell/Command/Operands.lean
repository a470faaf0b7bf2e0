import PracticeShell.Command.Outcome
import PracticeShell.Text.Glob

/-!
# Patterns among operands

An operand whose last segment is a pattern stands for the names that match it, in alphabetical
order. Names that start with a dot match only patterns that do. A pattern that matches nothing
stands for itself.
-/

namespace PracticeShell.Operands

/-- An operand cut at its last slash: the directory to search, empty for the current one, and the
pattern. -/
def splitPattern (operand : String) : String × String :=
  let cs := operand.toList.reverse
  if cs.contains '/' then
    let directory := String.ofList ((cs.dropWhile (· ≠ '/')).drop 1).reverse
    (if directory = "" then "/" else directory, String.ofList (cs.takeWhile (· ≠ '/')).reverse)
  else ("", operand)

/-- Whether a name in a directory is one that a pattern stands for. -/
def isMatch (pattern name : String) : Bool :=
  Text.Glob.accepts pattern name && (Path.startsWith pattern "." || !Path.startsWith name ".")

/-- Names in alphabetical order. -/
def sorted (names : List String) : List String := names.mergeSort (fun a b => decide (a ≤ b))

/-- The operands that one operand stands for. -/
def expandOne (ctx : Context) (fs : FileSystem) (operand : String) : List String :=
  if Text.Glob.isPattern operand then
    let (directory, pattern) := splitPattern operand
    let found := match fs.names (ctx.resolve (if directory = "" then "." else directory)) with
      | .ok names => sorted (names.filter (isMatch pattern))
      | .error _ => []
    if found.isEmpty then [operand]
    else if directory = "" then found
    else found.map (Path.join directory)
  else [operand]

/-- The operands that some operands stand for. -/
def expand (ctx : Context) (fs : FileSystem) (operands : List String) : List String :=
  operands.flatMap (expandOne ctx fs)

end PracticeShell.Operands
