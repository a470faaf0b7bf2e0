import PracticeShell.FileTree.Basic
import PracticeShell.Json.Literal
import PracticeShell.Regex.Matcher
import PracticeShell.Regex.Reader

/-!
# Checks and observations

A task names a check that says when it is done. `Check` lists them: checks of what a command has
printed, of the file system, and of both together with the command line.

An `Observation` is what a check may look at after a command: what the command has printed, its exit
code, the command line, the file system, the exported variables and where the learner is. The
parameters of a check are values of the data format; a check whose parameters have no meaning has no
result.
-/

namespace PracticeShell

/-- A check that a task can name. -/
inductive Check
  | «contains» | notEmpty | isEmpty | hasError | noError | grepFound | validPath | validFlag
  | lineCount | wordCount | sudoExecuted | sudoPasswordPrompt | sshConnected | sshFailed
  | scpSuccess | scpToRemote | scpFromRemote | envVarSet | envVarExported | validEnvOutput
  | redirectionSuccess | heredocCaptured | pingSuccess | pingFailed | httpSuccess
  | netstatListening | digResolved | networkInterfaces | matchesPattern | matchesAllPatterns
  | matchesAnyPattern | containsIp | containsDomain | containsTimestamp | containsFilePath
  | commandSuccess | listingContainsFile | lessUsed
  | fileExists | dirExists | fileContains | fileSize | fileModified | dirHasFiles | fileCreated
  | fileDeleted | fileNotExists | pathNotExists | dirIsEmpty | remoteFileExists | fileCopied
  | fileReadable
  | sudoAndFileCheck | scpWithRemoteCheck | envVarSetAndExported | redirectionWithFileCheck
  | commandChainSuccess | criticalFileOperation
deriving DecidableEq, Repr

namespace Check

/-- All checks with their names. -/
def named : List (String × Check) :=
  [("contains", contains), ("notEmpty", notEmpty), ("isEmpty", isEmpty), ("hasError", hasError),
    ("noError", noError), ("grepFound", grepFound), ("validPath", validPath),
    ("validFlag", validFlag), ("lineCount", lineCount), ("wordCount", wordCount),
    ("sudoExecuted", sudoExecuted), ("sudoPasswordPrompt", sudoPasswordPrompt),
    ("sshConnected", sshConnected), ("sshFailed", sshFailed), ("scpSuccess", scpSuccess),
    ("scpToRemote", scpToRemote), ("scpFromRemote", scpFromRemote), ("envVarSet", envVarSet),
    ("envVarExported", envVarExported), ("validEnvOutput", validEnvOutput),
    ("redirectionSuccess", redirectionSuccess), ("heredocCaptured", heredocCaptured),
    ("pingSuccess", pingSuccess), ("pingFailed", pingFailed), ("httpSuccess", httpSuccess),
    ("netstatListening", netstatListening), ("digResolved", digResolved),
    ("networkInterfaces", networkInterfaces), ("matchesPattern", matchesPattern),
    ("matchesAllPatterns", matchesAllPatterns), ("matchesAnyPattern", matchesAnyPattern),
    ("containsIP", containsIp), ("containsDomain", containsDomain),
    ("containsTimestamp", containsTimestamp), ("containsFilePath", containsFilePath),
    ("commandSuccess", commandSuccess), ("listingContainsFile", listingContainsFile),
    ("lessUsed", lessUsed), ("fileExists", fileExists), ("dirExists", dirExists),
    ("fileContains", fileContains), ("fileSize", fileSize), ("fileModified", fileModified),
    ("dirHasFiles", dirHasFiles), ("fileCreated", fileCreated), ("fileDeleted", fileDeleted),
    ("fileNotExists", fileNotExists), ("pathNotExists", pathNotExists),
    ("dirIsEmpty", dirIsEmpty), ("remoteFileExists", remoteFileExists),
    ("fileCopied", fileCopied), ("fileReadable", fileReadable),
    ("sudoAndFileCheck", sudoAndFileCheck), ("scpWithRemoteCheck", scpWithRemoteCheck),
    ("envVarSetAndExported", envVarSetAndExported),
    ("redirectionWithFileCheck", redirectionWithFileCheck),
    ("commandChainSuccess", commandChainSuccess),
    ("criticalFileOperation", criticalFileOperation)]

/-- The check with a name. -/
def ofName? (name : String) : Option Check := named.lookup name

/-- The name of a check. -/
def name (c : Check) : String := ((named.find? (·.2 == c)).map (·.1)).getD ""

end Check

/-- What can be seen after a command. -/
structure Observation where
  output : String
  errors : String
  exitCode : Int
  fs : Option FileSystem
  command : String
  exported : List String
  directory : String
  username : String

namespace Observation

/-- All that has been printed: output and errors, each on lines of its own. -/
def printed (o : Observation) : String :=
  "\n".intercalate ([o.output, o.errors].filter (· ≠ ""))

end Observation

namespace Json

/-- A value as a list: null as the empty one, a value that is no array as the list of itself. -/
def asList : Json → List Json
  | .null => []
  | .array items => items
  | v => [v]

/-- Whether a value is a number equal to a natural number; truth values count as one and zero. -/
def equalsNat (n : Nat) : Json → Bool
  | .int m => m == n
  | .float x => x == Float.ofNat n
  | .bool b => n == (if b then 1 else 0)
  | _ => false

/-- Whether a natural number is less than a value, if that is a number. -/
def natLess? (n : Nat) : Json → Option Bool
  | .int m => some ((n : Int) < m)
  | .float x => some (Float.ofNat n < x)
  | .bool b => some (n < (if b then 1 else 0))
  | _ => none

/-- Whether a natural number is greater than a value, if that is a number. -/
def natGreater? (n : Nat) : Json → Option Bool
  | .int m => some ((n : Int) > m)
  | .float x => some (Float.ofNat n > x)
  | .bool b => some (n > (if b then 1 else 0))
  | _ => none

/-- The member of an object that must have it. -/
def require? (v : Json) (name : String) : Option Json := v.get? name

/-- Whether a number satisfies the bounds `exact`, `min` and `max` that an object gives; null bounds
count as not given. -/
def withinBounds? (n : Nat) (bounds : Json) : Option Bool :=
  if !bounds.isTruthy then some true
  else
    match bounds with
    | .object members =>
      let bound := fun (name : String) => match members.lookup name with
        | some .null => none
        | b => b
      match bound "exact" with
      | some v => some (v.equalsNat n)
      | none => do
        let tooSmall ← match bound "min" with
          | some v => v.natLess? n
          | none => some false
        if tooSmall then return false
        let tooLarge ← match bound "max" with
          | some v => v.natGreater? n
          | none => some false
        return !tooLarge
    | _ => none

end Json

namespace Check

/-- Whether a pattern matches somewhere in a text; nothing if it is no regular expression. -/
def matches? (pattern text : String) : Option Bool :=
  match Regex.parse {} pattern with
  | .ok r => some (r.occursIn text)
  | .error _ => none

/-- Whether a pattern that is known to be well formed matches somewhere in a text. -/
def hasMatch (pattern text : String) : Bool := (matches? pattern text).getD false

/-- The texts of the captures with some numbers in the first match of a pattern. A capture that
takes no part is empty. -/
def captures? (pattern text : String) (indices : List Nat) : Option (List String) :=
  match Regex.parse {} pattern with
  | .error _ => none
  | .ok r =>
    (r.search? text).map fun (_, st) => indices.map fun n =>
      match st.capture? n with
      | some (i, j) => String.ofList ((text.toList.drop i).take (j - i))
      | none => ""

/-- Whether every value of a list passes a test; values after one that fails are not looked at. -/
def all? (test : Json → Option Bool) : List Json → Option Bool
  | [] => some true
  | v :: rest => do if ← test v then all? test rest else return false

/-- Whether some value of a list passes a test; values after one that passes are not looked at. -/
def any? (test : Json → Option Bool) : List Json → Option Bool
  | [] => some false
  | v :: rest => do if ← test v then return true else any? test rest

end Check

end PracticeShell
