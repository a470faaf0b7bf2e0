import PracticeShell.Check.Observation
import PracticeShell.Check.Output
import PracticeShell.Text.Replace

/-!
# Running checks

`Check.run?` runs any check on an observation. Defined here are the checks that look at the file
system at the paths that their parameters name (`Check.runFiles?`), and those of several things at
once: what is printed, the file system and the command line. A check whose parameters have no
meaning is not satisfied (`Check.isSatisfied`).
-/

namespace PracticeShell.Check

/-- The text of the file at a path. -/
def fileText? (fs : FileSystem) (path : String) : Option String := (fs.text path).toOption

/-- The path that a member of the parameters names. -/
def pathOf? (params : Json) (name : String) : Option String := do
  (← params.require? name).string?

/-- Whether a file holds all values of a list. -/
def checkFileContains (fs : FileSystem) (params : Json) : Option Bool := do
  match fileText? fs (← pathOf? params "path") with
  | none => return false
  | some text =>
    return ((params.get? "text").getD .null).asList.all fun part =>
      Text.Replace.contains text part.plainText

/-- Whether the number of characters of a file is within bounds. -/
def checkFileSize (fs : FileSystem) (params : Json) : Option Bool := do
  match fileText? fs (← pathOf? params "path") with
  | none => return false
  | some text => Json.withinBounds? text.length params

/-- Whether a file holds something. -/
def isFilledFile (fs : FileSystem) (path : String) : Bool :=
  (fileText? fs path).any (· ≠ "")

/-- Whether a directory has as many entries as asked for, and the ones asked for; if neither is
asked for, any entry. -/
def checkDirectoryHas (fs : FileSystem) (params : Json) : Option Bool := do
  let path ← pathOf? params "path"
  if !fs.isDirectory path then return false
  let names ← (fs.names path).toOption
  match params.get? "count" with
  | none | some .null => pure ()
  | some count => if !count.equalsNat names.length then return false
  let files := (params.get? "files").getD .null
  if files.isTruthy then
    return (← files.elements?).all fun name => name.string?.any names.contains
  else return !names.isEmpty

/-- Whether there is a node on a remote machine, in the directory that holds its files. -/
def isOnRemote (fs : FileSystem) (user path : String) : Bool :=
  fs.contains ("/remotes/" ++ user ++ "/filesystem" ++ Path.normalize path)

/-- Whether two files are there and hold the same text. -/
def checkCopied (fs : FileSystem) (params : Json) : Option Bool := do
  let source := fileText? fs (← pathOf? params "source")
  let target := fileText? fs (← pathOf? params "dest")
  return source.isSome && source == target

/-- Whether there is a file that anyone may read. -/
def isReadable (fs : FileSystem) (path : String) : Bool :=
  (fs.stat? path).any fun node => node.isFile && node.owner ≠ "root"

/-- Runs a check of the file system; nothing if it is no such check. The inner nothing says that the
parameters have no meaning. -/
def runFiles? (c : Check) (fs : FileSystem) (params : Json) : Option (Option Bool) :=
  let on := fun (test : String → Bool) => some (params.string?.map test)
  match c with
  | .fileExists | .fileCreated => on fs.contains
  | .dirExists => on fs.isDirectory
  | .fileContains => some (checkFileContains fs params)
  | .fileSize => some (checkFileSize fs params)
  | .fileModified => on (isFilledFile fs)
  | .dirHasFiles => some (checkDirectoryHas fs params)
  | .fileDeleted | .fileNotExists | .pathNotExists => on fun path => !fs.contains path
  | .dirIsEmpty => on fun path =>
      fs.isDirectory path && (fs.names path).toOption.any (·.isEmpty)
  | .remoteFileExists => some (do
      let user ← params.require? "user"
      return isOnRemote fs user.plainText (← pathOf? params "path"))
  | .fileCopied => some (checkCopied fs params)
  | .fileReadable => on (isReadable fs)
  | _ => none

/-- Whether a check looks at the file system alone. -/
def isAboutFiles (c : Check) : Bool := (runFiles? c (.empty "" 0) .null).isSome

/-- The path that parameters name: the member `path` of an object, or the parameters themselves. -/
def pathParameter (params : Json) : Json :=
  match params with
  | .object members => (members.lookup "path").getD .null
  | v => v

/-- Whether there is a node at a path, if a path is given and there is a file system. The inner
nothing says that the path is no text. -/
def nodeAt? (o : Observation) (path : Json) : Option (Option Bool) :=
  match path.isTruthy, o.fs with
  | true, some fs => some (path.string?.map fs.contains)
  | _, _ => none

/-- Whether elevated rights have been granted, and a file is there. -/
def checkSudoAndFile (o : Observation) (params : Json) : Option Bool := do
  let text := o.printed
  let granted := !Text.Replace.contains (Text.Case.lower text) "permission denied" &&
    !holdsAny text ["not in the sudoers", "incorrect password"]
  let there ← match nodeAt? o (pathParameter params) with
    | some there => there
    | none => some (!tellsError text)
  return granted && there

/-- Whether a transfer has succeeded and, if the command line names a place on a remote machine, a
file is there. -/
def checkRemoteTransfer (o : Observation) : Bool :=
  checkTransferred o.printed &&
    match captures? "scp\\s+(\\S+)\\s+(\\w+)@([^:\\s]+):(\\S*)" o.command [1, 2, 4], o.fs with
    | some [source, user, remote], some fs =>
      let place := Path.resolve (Path.home user) (if remote = "" then "~" else remote) user
      isOnRemote fs user place || isOnRemote fs user (Path.join place (Path.basename source))
    | _, _ => true

/-- Whether the variable that the command line exports is set. -/
def checkSetAndExported (o : Observation) (params : Json) : Option Bool :=
  match captures? "export\\s+([A-Za-z_][A-Za-z0-9_]*)=" o.command [1] with
  | some [name] => some (o.exported.contains name)
  | _ => checkExported o.printed (if params.isTruthy then params else .string "")

/-- Whether the file that the command line sends output to holds something. -/
def checkRedirectedFile (o : Observation) : Bool :=
  match captures? ">\\s*(\\S+)" o.command [1], o.fs with
  | some [operand], some fs =>
    isFilledFile fs (Path.resolve o.directory operand o.username)
  | _, _ => holdsAny o.printed ["Output redirected", "redirected to"] || !isFilled o.printed

/-- Runs a check; nothing if its parameters have no meaning. Checks of the file system fail where
there is none. -/
def run? (c : Check) (o : Observation) (params : Json) : Option Bool :=
  match runOutput? c o.printed params with
  | some result => result
  | none =>
    match c with
    | .sudoAndFileCheck => checkSudoAndFile o params
    | .scpWithRemoteCheck => some (checkRemoteTransfer o)
    | .envVarSetAndExported => checkSetAndExported o params
    | .redirectionWithFileCheck => some (checkRedirectedFile o)
    | .commandChainSuccess =>
      some (o.exitCode == 0 && !tellsError o.printed && o.printed ≠ "")
    | .criticalFileOperation =>
      match nodeAt? o (pathParameter params) with
      | some there => there.map fun there => there && !tellsError o.printed
      | none => some (!tellsError o.printed)
    | c =>
      match o.fs with
      | none => some false
      | some fs => (runFiles? c fs params).getD (some false)

/-- Whether a check is satisfied. -/
def isSatisfied (c : Check) (o : Observation) (params : Json) : Bool :=
  (c.run? o params).getD false

end PracticeShell.Check
