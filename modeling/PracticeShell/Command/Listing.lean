import PracticeShell.Calendar
import PracticeShell.Command.Access
import PracticeShell.Command.Operands
import PracticeShell.Decimal.Shortest
import PracticeShell.Text.Lines

/-!
# Going to directories and listing them

The commands `cd`, `pwd`, `ls` and `stat`. A listing shows the entries of each directory in the
order in which they were made, in one line, one a line, or one a line with permissions, owner, size
and time.
-/

namespace PracticeShell.Command

/-- Goes to a directory, by default home. -/
def runCd (ctx : Context) (words : List String) (fs : FileSystem) : Outcome :=
  match words with
  | _ :: _ :: _ => .fail "cd: too many arguments" Outcome.failure
  | _ =>
    let target := words.headD "~"
    let path := ctx.resolve target
    match fs.stat? path with
    | none => .fail ("cd: " ++ target ++ ": No such file or directory") Outcome.failure
    | some node =>
      if !node.isDirectory then .fail ("cd: " ++ target ++ ": Not a directory") Outcome.failure
      else if Access.denied ctx node then
        .fail ("cd: " ++ target ++ ": Permission denied") Outcome.failure
      else { newDirectory := some path }

/-- A number with at most 53 significant binary digits, the nearest to the given one. -/
def toSignificant (n : Nat) : Nat :=
  let bits := if n = 0 then 0 else n.log2 + 1
  if bits ≤ 53 then n
  else
    let unit := Nat.pow 2 (bits - 53)
    Decimal.roundDiv n unit * unit

/-- A size in bytes as people read it: below 1024 as it is, above in units of 1024 bytes and their
powers up to the third, with one decimal place. -/
def humanSize (size : Int) : String :=
  let n := toSignificant size.natAbs
  let square := 1024 * 1024
  if size < 0 then "-" ++ toString n
  else if n < 1024 then toString n
  else if n < square then Decimal.oneDecimal n 1024 ++ "K"
  else if n < 1024 * square then Decimal.oneDecimal n square ++ "M"
  else Decimal.oneDecimal n (1024 * square) ++ "G"

/-- The line of a long listing. -/
def longLine (human : Bool) (name : String) (node : Stat) : String :=
  let size := if human then humanSize node.size else toString node.size
  " ".intercalate [node.modeText, "1", node.owner, node.owner, Text.Pad.left 8 size,
    Calendar.short node.modified, name]

/-- The entries of a directory that a listing shows, with the names it shows them by. -/
def listed (all : Bool) (fs : FileSystem) (full : String) (node : Stat) : List (String × Stat) :=
  let dots := if all then
      [(".", node), ("..", (fs.stat? (Path.dirname full)).getD node)]
    else []
  let names := match fs.names full with
    | .ok names => names.filter fun name => all || !Path.startsWith name "."
    | .error _ => []
  dots ++ names.filterMap fun name =>
    (fs.stat? (Path.join full name)).map fun child => (name, child)

/-- How a listing is laid out. -/
structure ListingStyle where
  long : Bool
  human : Bool
  all : Bool
  onePerLine : Bool

/-- The text of a listing of entries. -/
def listingText (style : ListingStyle) (entries : List (String × Stat)) : String :=
  if style.long then
    Text.Lines.join (("total " ++ toString (entries.length * 4)) ::
      entries.map fun (name, node) => longLine style.human name node)
  else (if style.onePerLine then "\n" else "  ").intercalate (entries.map (·.1))

/-- What a listing says about one target. -/
inductive Listed
  /-- Text to print. -/
  | block (text : String)
  /-- A message, and the exit code it asks for; a higher code asked for before stays. -/
  | problem (message : String) (exitCode : Nat)

/-- What a listing says about one target; `titled` says that the target's name stands above. -/
def listTarget (ctx : Context) (fs : FileSystem) (style : ListingStyle) (titled : Bool)
    (target : String) : Listed :=
  let full := ctx.resolve target
  match fs.stat? full with
  | none =>
    .problem ("ls: cannot access '" ++ target ++ "': No such file or directory") Outcome.misuse
  | some node =>
    if !node.isDirectory then
      if Access.denied ctx node then
        .problem ("ls: cannot access '" ++ target ++ "': Permission denied") Outcome.failure
      else .block (if style.long then longLine style.human target node else target)
    else if Access.denied ctx node then
      .problem ("ls: cannot open directory '" ++ target ++ "': Permission denied") Outcome.failure
    else
      let body := listingText style (listed style.all fs full node)
      .block (if titled then target ++ ":\n" ++ body else body)

/-- Lists directories and files. -/
def runLs (ctx : Context) (words : List String) : Action Outcome := do
  let args ← Action.arguments (.flagsOnly "lah1") words
  let fs ← get
  let targets := match Operands.expand ctx fs args.operands with
    | [] => ["."]
    | targets => targets
  let style := ⟨args.has ['l'], args.has ['h'], args.has ['a'], args.has ['1']⟩
  let several := targets.length > 1
  let parts := targets.map (listTarget ctx fs style several)
  let exitCode := parts.foldl (fun code part => match part with
    | .block _ => code
    | .problem _ asked =>
      if asked = Outcome.misuse then asked else if code = 0 then asked else code) 0
  return {
    output := (if several then "\n\n" else "\n").intercalate
      (parts.filterMap fun | .block text => some text | .problem .. => none)
    errors := Text.Lines.join
      (parts.filterMap fun | .problem message _ => some message | .block _ => none)
    exitCode }

/-- A number by octal digits, up to a width filled with zeros. -/
def octal (width n : Nat) : String :=
  let ds := Nat.toDigits 8 n
  String.ofList (List.replicate (width - ds.length) '0' ++ ds)

/-- What is known of a node, over four lines. -/
def statBlock (operand : String) (node : Stat) : String :=
  "  File: " ++ operand ++ "\n  Size: " ++ toString node.size ++ "\tType: " ++
    (if node.isDirectory then "directory" else "regular file") ++ "\nAccess: (" ++
    octal 4 node.permissions.val ++ "/" ++ node.modeText ++ ")  Owner: " ++ node.owner ++
    "\nModify: " ++ Calendar.long node.modified

/-- Tells what is known of nodes. -/
def runStat (ctx : Context) (words : List String) : Action Outcome := do
  let args ← Action.arguments (.flagsOnly "") words
  if args.operands.isEmpty then return .fail "stat: missing operand" Outcome.failure
  let fs ← get
  let parts := (Operands.expand ctx fs args.operands).map fun operand =>
    match fs.stat? (ctx.resolve operand) with
    | some node => Listed.block (statBlock operand node)
    | none => .problem
        ("stat: cannot statx '" ++ operand ++ "': No such file or directory") Outcome.failure
  return .ofLines
    (parts.filterMap fun | .block text => some text | .problem .. => none)
    (parts.filterMap fun | .problem message _ => some message | .block _ => none)

end PracticeShell.Command
