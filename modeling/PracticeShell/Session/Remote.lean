import PracticeShell.Session.World

/-!
# Other machines

`ssh` opens a session on another machine, `exit` closes it, and `scp` copies a file from or to
another machine. A machine can be reached if it is among the known hosts; what a user has there is
kept in the directory `RemoteSession.baseOf` of the learner's own files.
-/

namespace PracticeShell.Remote

/-- The exit code of a failed connection. -/
def noConnection : Nat := 255

/-- The answer when a host cannot be reached. -/
def unreachable (host : String) : Outcome :=
  .fail ("ssh: connect to host " ++ host ++ " port 22: No route to host") noConnection

/-- The words that are neither options nor the values of options. -/
def operandsOf : List String → List String
  | [] => []
  | word :: rest =>
    if word = "-p" ∨ word = "-l" ∨ word = "-i" then
      match rest with
      | [] => []
      | _ :: rest => operandsOf rest
    else if Path.startsWith word "-" then operandsOf rest
    else word :: operandsOf rest

/-- What stands before and after the last at sign of a text; all of it stands after if there is
none. -/
def splitUser (text : String) : String × String :=
  let reversed := text.toList.reverse
  let host := reversed.takeWhile (· ≠ '@')
  let user := (reversed.drop (host.length + 1)).reverse
  (String.ofList user, String.ofList host.reverse)

/-- Opens a session on another machine. -/
def runSsh (hosts : List String) (ctx : Context) (words : List String) : Step Outcome := do
  match operandsOf words, (← get).remote with
  | [], _ => return .fail "usage: ssh [user@]host" Outcome.failure
  | _ :: _, some r =>
    return .fail ("Already connected to " ++ r.host ++ ". Disconnect first.") Outcome.failure
  | target :: _, none =>
    let (name, host) := splitUser target
    let user := if name = "" then ctx.username else name
    if !hosts.contains host then return unreachable host
    let home := Path.home user
    Step.edit (Edit.makeDirectories (RemoteSession.baseOf user ++ home) Permissions.newDirectory
      (some user))
    modify fun w => { w with remote := some ⟨host, user, home, w.now⟩ }
    return .print ("Connected to " ++ host ++ " as " ++ user)

/-- Closes the session on another machine, or else the learner's own. The flag tells the latter. -/
def runExit : Step (Outcome × Bool) := do
  match (← get).remote with
  | none => return (.print "logout", true)
  | some r =>
    modify fun w => { w with remote := none }
    let seconds := (← get).now - r.startedAt
    return (.print ("logout\nConnection to " ++ r.host ++ " closed (session duration: " ++
      toString seconds ++ "s)"), false)

/-- A place on another machine. -/
structure Place where
  user : Option String
  host : String
  path : String
deriving DecidableEq, Repr

/-- Reads a place on another machine: a host with a colon and a path after it, and perhaps a user
with an at sign before it. -/
def Place.read? (text : String) : Option Place := do
  let cs := text.toList
  let front := cs.takeWhile (· ≠ ':')
  if front.isEmpty || front.contains '/' then none
  let path ← match cs.drop front.length with
    | _ :: rest => some (Text.Lines.withoutFinal rest)
    | [] => none
  if path.contains '\n' then none
  let user := front.takeWhile (· ≠ '@')
  let host := front.drop (user.length + 1)
  if user.isEmpty || host.isEmpty then return ⟨none, String.ofList front, String.ofList path⟩
  return ⟨some (String.ofList user), String.ofList host, String.ofList path⟩

/-- One end of a transfer: the directory that is all that is seen there, and the path. -/
structure End where
  base : Option String
  path : String

/-- Copies a file between two ends. Uploads of what is off limits are denied. -/
def copy (ctx : Context) (source target : End) (label owner : String) (upload : Bool) :
    Step Outcome := do
  let fail := fun (reason : String) =>
    Outcome.fail ("scp: " ++ label ++ ": " ++ reason) Outcome.failure
  let sourceFs ← Step.look source.base
  match sourceFs.stat? source.path, sourceFs.contents source.path with
  | none, _ => return fail "No such file or directory"
  | some _, .error _ => return fail "not a regular file"
  | some node, .ok bytes =>
    if upload && Access.denied ctx node then return fail "Permission denied"
    let name := Path.basename source.path
    let path := if (← Step.look target.base).isDirectory target.path then Path.join target.path name
      else target.path
    let failure ← Step.attempt target.base do
      Edit.makeDirectories (Path.dirname path) Permissions.newDirectory (some owner)
      Edit.write path bytes (some owner) Permissions.newFile
    match failure with
    | some e => return .fail ("scp: " ++ e.path ++ ": " ++ e.cause.text) Outcome.failure
    | none =>
      return .print (name ++ "    100%  " ++ toString bytes.size ++ "B  " ++
        Decimal.oneDecimal bytes.size 1024 ++ "KB/s  00:00")

/-- Copies a file from or to another machine. `base` is the directory that is all that commands see
here. -/
def runScp (hosts : List String) (ctx : Context) (base : Option String) (words : List String) :
    Step Outcome := do
  match words.filter fun word => !Path.startsWith word "-" with
  | [source, target] =>
    let ends : Option (Place × Bool) := match Place.read? source, Place.read? target with
      | some place, none => some (place, false)
      | none, some place => some (place, true)
      | _, _ => none
    match ends with
    | none => return .fail "scp: only local<->remote transfers supported" Outcome.failure
    | some (place, upload) =>
      let user := place.user.getD ctx.username
      if !hosts.contains place.host then return unreachable place.host
      let home := Path.home user
      let there := Path.resolve home (if place.path = "" then "~" else place.path) user
      let root := RemoteSession.baseOf user
      let remote : End := ⟨none, root ++ (if there = "/" then "" else there)⟩
      Step.edit (Edit.makeDirectories (root ++ home) Permissions.newDirectory (some user))
      if upload then copy ctx ⟨base, ctx.resolve source⟩ remote source user true
      else copy ctx remote ⟨base, ctx.resolve target⟩ place.path ctx.user false
  | _ => return .fail "usage: scp source target" Outcome.failure

end PracticeShell.Remote
