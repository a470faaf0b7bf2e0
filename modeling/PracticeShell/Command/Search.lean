import PracticeShell.Command.Access
import PracticeShell.Command.Operands
import PracticeShell.Regex.Matcher
import PracticeShell.Regex.Reader
import PracticeShell.Text.Case

/-!
# Searching

The commands `grep`, which shows the lines of texts that match a regular expression, and `find`,
which shows the paths of nodes that satisfy predicates.
-/

namespace PracticeShell.Command

open FileTree

/-- What a search reads from one operand: texts under the names they are shown by, and messages. -/
structure Sources where
  texts : List (String × String)
  errors : List String

namespace Sources

/-- Nothing. -/
def none : Sources := ⟨[], []⟩

/-- One text. -/
def text (label content : String) : Sources := ⟨[(label, content)], []⟩

/-- One message. -/
def error (label reason : String) : Sources := ⟨[], ["grep: " ++ label ++ ": " ++ reason]⟩

/-- Two sources, one after the other. -/
def append (a b : Sources) : Sources := ⟨a.texts ++ b.texts, a.errors ++ b.errors⟩

end Sources

/-- The name by which a file below a directory operand is shown. -/
def labelBelow (operand full path : String) : String :=
  let base := Path.trimSlashes operand
  let below := (path.toList.drop full.length).dropWhile (· == '/')
  Path.join (if base = "" then "/" else base) (String.ofList below)

/-- What a search reads from one of the nodes below a directory operand. -/
def sourceBelow (ctx : Context) (fs : FileSystem) (operand full : String) (node : Stat) :
    Sources :=
  if node.isDirectory then .none
  else
    let label := labelBelow operand full node.path
    if Access.denied ctx node then .error label "Permission denied"
    else
      match fs.text node.path with
      | .ok text => .text label text
      | .error e => .error label e.cause.text

/-- What a search reads from one operand. -/
def sourceOf (ctx : Context) (fs : FileSystem) (recursive : Bool) (operand : String) : Sources :=
  let full := ctx.resolve operand
  match fs.stat? full with
  | none => .error operand "No such file or directory"
  | some node =>
    if node.isDirectory then
      if recursive then
        match fs.walk full with
        | .ok nodes => (nodes.map (sourceBelow ctx fs operand full)).foldl Sources.append .none
        | .error e => .error operand e.cause.text
      else .error operand "Is a directory"
    else if Access.denied ctx node then .error operand "Permission denied"
    else
      match fs.text full with
      | .ok text => .text operand text
      | .error e => .error operand e.cause.text

/-- The lines of a text that match, or that do not, with their numbers. -/
def matchingLines (r : Regex) (invert : Bool) (text : String) : List (Nat × String) :=
  ((Text.Lines.logical text).zipIdx.map fun (line, k) => (k + 1, line)).filter fun (_, line) =>
    r.occursIn line != invert

/-- The output about one text. -/
def searchOutput (args : Arguments) (named : Bool) (label : String)
    (found : List (Nat × String)) : List String :=
  let start := if named then label ++ ":" else ""
  if args.has ['l'] then if found.isEmpty then [] else [label]
  else if args.has ['c'] then [start ++ toString found.length]
  else found.map fun (number, line) =>
    start ++ (if args.has ['n'] then toString number ++ ":" else "") ++ line

/-- Shows lines that match a regular expression. -/
def runGrep (ctx : Context) (words : List String) (input : Option String) : Action Outcome := do
  let args ← Action.arguments (.flagsOnly "invclrRw") words
  match args.operands with
  | [] => return .fail "grep: missing pattern or file" Outcome.misuse
  | pattern :: operands =>
    let fs ← get
    let files := Operands.expand ctx fs operands
    let whole := if args.has ['w'] then "\\b(?:" ++ pattern ++ ")\\b" else pattern
    match Regex.parse { ignoreCase := args.has ['i'] } whole with
    | .error .malformed =>
      return .fail ("grep: invalid regular expression: " ++ pattern) Outcome.misuse
    | .error _ => throw .internal
    | .ok r =>
      let recursive := args.has ['r', 'R']
      let sources? : Option Sources := match files, recursive, input with
        | [], true, _ => some (sourceOf ctx fs recursive ".")
        | [], false, some text => some (.text "(standard input)" text)
        | [], false, none => none
        | files, _, _ =>
          some ((files.map (sourceOf ctx fs recursive)).foldl Sources.append .none)
      match sources? with
      | none => return .fail "grep: missing pattern or file" Outcome.misuse
      | some sources =>
        let named := sources.texts.length > 1 || recursive
        let found := sources.texts.map fun (label, text) =>
          (label, matchingLines r (args.has ['v']) text)
        return {
          output := Text.Lines.join
            (found.flatMap fun (label, lines) => searchOutput args named label lines)
          errors := Text.Lines.join sources.errors
          exitCode :=
            if !sources.errors.isEmpty then Outcome.misuse
            else if found.any fun (_, lines) => !lines.isEmpty then 0
            else Outcome.failure }

/-- What a node must satisfy to be found. -/
structure Criteria where
  name : Option String
  nameAnyCase : Option String
  kind : Option String
  depth : Option Nat
deriving Repr

/-- Whether a node that is shown as `display` satisfies the criteria. -/
def Criteria.accept (c : Criteria) (display : String) (node : Node) : Bool :=
  let name := Path.basename display
  c.name.all (Text.Glob.accepts · name) &&
    c.nameAnyCase.all (fun pattern =>
      Text.Glob.accepts (Text.Case.lower pattern) (Text.Case.lower name)) &&
    (c.kind != some "f" || !node.isDirectory) && (c.kind != some "d" || node.isDirectory)

/-- What is found, and messages. -/
structure Found where
  paths : List String
  errors : List String

/-- Two findings, one after the other. -/
def Found.append (a b : Found) : Found := ⟨a.paths ++ b.paths, a.errors ++ b.errors⟩

mutual

/-- What is found at a node and below it. -/
def findFrom (ctx : Context) (c : Criteria) (depth : Nat) (display : String) :
    Node → Found
  | .file a bytes => ⟨if c.accept display (.file a bytes) then [display] else [], []⟩
  | .directory a es =>
    let here := if c.accept display (.directory a es) then [display] else []
    if c.depth.any (· ≤ depth) then ⟨here, []⟩
    else if a.owner == Context.rootUser && !ctx.elevated then
      ⟨here, ["find: '" ++ display ++ "': Permission denied"]⟩
    else
      let below := findAmong ctx c (depth + 1) display es
      ⟨here ++ below.paths, below.errors⟩

/-- What is found at the entries of a directory and below them. -/
def findAmong (ctx : Context) (c : Criteria) (depth : Nat) (display : String) :
    List (String × Node) → Found
  | [] => ⟨[], []⟩
  | (name, node) :: rest =>
    (findFrom ctx c depth (Path.join display name) node).append
      (findAmong ctx c depth display rest)

end

/-- Predicates with their values, the last value of each first. -/
def readPredicates (done : List (String × String)) :
    List String → Except String (List (String × String))
  | [] => .ok done
  | word :: rest =>
    if word = "-n" ∨ !Arguments.valueOptions.contains word then
      .error ("find: unknown predicate '" ++ word ++ "'")
    else
      match rest with
      | [] => .error ("find: missing argument to '" ++ word ++ "'")
      | value :: rest => readPredicates ((word, value) :: done) rest

/-- The kind of node that predicates ask for, if there is no such kind. -/
def unknownKind? (predicates : List (String × String)) : Option String :=
  (predicates.lookup "-type").filter fun kind => kind ≠ "f" && kind ≠ "d"

/-- The depth that predicates ask for, or the text that is no depth. -/
def depthOf (predicates : List (String × String)) : Action (Except String (Option Nat)) :=
  match predicates.lookup "-maxdepth" with
  | none => return .ok none
  | some text =>
    if !Text.Digit.isDigits text then return .error text
    else
      match Text.Digit.readInt text with
      | .ok n => return .ok (some n.toNat)
      | .error _ => throw .internal

/-- What is found at the place that an operand means and below it. -/
def findAt (ctx : Context) (c : Criteria) (fs : FileSystem) (start : String) : Found :=
  match fs.find? (ctx.resolve start) with
  | none => ⟨[], ["find: '" ++ start ++ "': No such file or directory"]⟩
  | some node => findFrom ctx c 0 start node

/-- Shows the paths of nodes that satisfy predicates. -/
def runFind (ctx : Context) (words : List String) : Action Outcome := do
  let isStart := fun (word : String) => !Path.startsWith word "-"
  let starts := words.takeWhile isStart
  match readPredicates [] (words.dropWhile isStart) with
  | .error message => return .fail message Outcome.failure
  | .ok predicates =>
    match unknownKind? predicates with
    | some kind => return .fail ("find: Unknown argument to -type: " ++ kind) Outcome.failure
    | none =>
      match ← depthOf predicates with
      | .error text =>
        return .fail ("find: invalid argument '" ++ text ++ "' to '-maxdepth'") Outcome.failure
      | .ok depth =>
        let c : Criteria := ⟨predicates.lookup "-name", predicates.lookup "-iname",
          predicates.lookup "-type", depth⟩
        let fs ← get
        let found := (if starts.isEmpty then ["."] else starts).map (findAt ctx c fs)
        let all := found.foldl Found.append ⟨[], []⟩
        return .ofLines all.paths all.errors

end PracticeShell.Command
