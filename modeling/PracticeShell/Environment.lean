import PracticeShell.Command.Operands
import PracticeShell.Command.Outcome
import PracticeShell.Text.Letter

/-!
# Environment variables

The environment holds the variables of a session, which of them are exported, and the exit code of
the last command. `Environment.expand` puts their values in the place of references outside of
single quotes. The commands `env`, `export` and `unset` list and change variables; the user, the
home directory and the shell are read-only.
-/

namespace PracticeShell

/-- Variables with their values, oldest first, the names of the exported ones, and the exit code of
the last command. -/
structure Environment where
  values : List (String × String)
  exportedNames : List String
  lastStatus : Int
deriving DecidableEq, Repr

namespace Environment

/-- Why a variable is not set or removed. -/
inductive Error
  /-- The text is no name of a variable. -/
  | invalidName (text : String)
  /-- The variable is read-only. -/
  | readOnly (name : String)
  /-- The variable is read-only and so cannot be removed. -/
  | cannotUnset (name : String)
deriving DecidableEq, Repr

/-- The message that tells what is wrong. -/
def Error.message : Error → String
  | invalidName text => "`" ++ text ++ "': not a valid identifier"
  | readOnly name => name ++ ": readonly variable"
  | cannotUnset name => name ++ ": cannot unset: readonly variable"

/-- The variables that never change. -/
def readOnlyNames : List String := ["USER", "HOME", "SHELL"]

/-- Where programs are looked for. -/
def defaultPath : String := "/usr/local/bin:/usr/bin:/bin"

/-- Whether a character can start the name of a variable. -/
def isNameStart (c : Char) : Bool := Text.Letter.isAsciiLetter c || c == '_'

/-- Whether a text is the name of a variable. A line feed may end it. -/
def isName (name : String) : Bool :=
  match Text.Lines.withoutFinal name.toList with
  | [] => false
  | c :: rest => isNameStart c && rest.all Text.Letter.isAsciiWord

/-- Sets the value that belongs to a name; a name that is there keeps its place. -/
def assign (name value : String) : List (String × String) → List (String × String)
  | [] => [(name, value)]
  | (n, v) :: rest => if n = name then (n, value) :: rest else (n, v) :: assign name value rest

/-- The value of a variable. -/
def get? (env : Environment) (name : String) : Option String := env.values.lookup name

/-- Marks a variable as exported. -/
def markExported (name : String) (env : Environment) : Environment :=
  if env.exportedNames.contains name then env
  else { env with exportedNames := env.exportedNames ++ [name] }

/-- Sets a variable whatever its name. -/
def put (name value : String) (env : Environment) : Environment :=
  { env with values := assign name value env.values }

/-- The environment of a new session. Variables in `extra` are exported too, unless their names are
invalid or read-only. -/
def start (username home : String) (directory : Option String) (extra : List (String × String)) :
    Environment :=
  let directory := match directory with
    | some d => if d = "" then home else d
    | none => home
  let values := [("USER", username), ("HOME", home), ("SHELL", "/bin/sh"), ("PATH", defaultPath),
    ("PWD", directory), ("TERM", "xterm-256color"), ("LANG", "en_US.UTF-8")]
  extra.foldl (fun env (name, value) =>
    if isName name && !readOnlyNames.contains name then (env.put name value).markExported name
    else env) ⟨values, values.map (·.1), 0⟩

/-- Sets a variable and exports it if asked for. -/
def set (name value : String) (exporting : Bool) (env : Environment) :
    Except Error Environment :=
  if !isName name then .error (.invalidName name)
  else if readOnlyNames.contains name && (env.get? name).isSome then .error (.readOnly name)
  else
    let env := env.put name value
    .ok (if exporting then env.markExported name else env)

/-- Removes a variable, which need not exist. -/
def unset (name : String) (env : Environment) : Except Error Environment :=
  if readOnlyNames.contains name then .error (.cannotUnset name)
  else .ok { env with
    values := env.values.filter (·.1 ≠ name)
    exportedNames := env.exportedNames.filter (· ≠ name) }

/-- Whether a variable is exported. -/
def isExported (env : Environment) (name : String) : Bool :=
  env.exportedNames.contains name && (env.get? name).isSome

/-- The exported variables. -/
def exported (env : Environment) : List (String × String) :=
  env.values.filter fun (name, _) => env.exportedNames.contains name

/-- The exported variables in the order of their names. -/
def exportedSorted (env : Environment) : List (String × String) :=
  env.exported.mergeSort fun a b => decide (a.1 ≤ b.1)

/-- Takes over a new current directory; the one before it is kept in a variable of its own. -/
def changeDirectory (path : String) (env : Environment) : Environment :=
  match env.get? "PWD" with
  | some current =>
    if current = path then env
    else ((env.put "OLDPWD" current).markExported "OLDPWD").put "PWD" path
  | none => env.put "PWD" path

/-- A reference after its dollar sign: the value it stands for and the number of its characters. An
unknown variable has an empty value. -/
def reference? (env : Environment) (cs : List Char) : Option (List Char × Nat) :=
  let valueOf := fun name => ((env.get? (String.ofList name)).getD "").toList
  match cs with
  | '?' :: _ => some ((toString env.lastStatus).toList, 1)
  | '\x7b' :: rest =>
    let name := rest.takeWhile Text.Letter.isAsciiWord
    if name.head?.any isNameStart && (rest.drop name.length).head? == some '\x7d' then
      some (valueOf name, name.length + 2)
    else none
  | cs =>
    let name := cs.takeWhile Text.Letter.isAsciiWord
    if name.head?.any isNameStart then some (valueOf name, name.length) else none

/-- Puts values in the place of references; `skip` characters belong to a reference already
replaced. -/
def substitute (env : Environment) : (skip : Nat) → List Char → List Char
  | _, [] => []
  | skip + 1, _ :: rest => substitute env skip rest
  | 0, c :: rest =>
    if c = '$' then
      match env.reference? rest with
      | some (value, length) => value ++ substitute env length rest
      | none => c :: substitute env 0 rest
    else c :: substitute env 0 rest

/-- What is being read of a text that is expanded. -/
inductive Reading
  /-- A part with references, read so far, last character first. Inside double quotes an apostrophe
  stands for itself. -/
  | open (part : List Char) (inDouble : Bool)
  /-- A part between apostrophes. -/
  | single
  /-- The rest of the text after an apostrophe that is never closed. -/
  | rest (part : List Char)

/-- Expands a text from a state of reading. -/
def expandFrom (env : Environment) : Reading → List Char → List Char
  | .open part _, [] => env.substitute 0 part.reverse
  | .rest part, [] => env.substitute 0 part.reverse
  | .single, [] => []
  | .rest part, c :: cs => expandFrom env (.rest (c :: part)) cs
  | .single, c :: cs => c :: expandFrom env (if c = '\'' then .open [] false else .single) cs
  | .open part inDouble, c :: cs =>
    if c = '"' then expandFrom env (.open (c :: part) (!inDouble)) cs
    else if c = '\\' then
      match cs with
      | d :: more =>
        env.substitute 0 part.reverse ++ c :: d :: expandFrom env (.open [] inDouble) more
      | [] => env.substitute 0 part.reverse ++ [c]
    else if c = '\'' && !inDouble then
      if cs.contains '\'' then env.substitute 0 part.reverse ++ c :: expandFrom env .single cs
      else expandFrom env (.rest (c :: part)) cs
    else expandFrom env (.open (c :: part) inDouble) cs

/-- Puts the values of variables in the place of references outside of single quotes. A backslash
protects the character after it. -/
def expand (env : Environment) (text : String) : String :=
  String.ofList (expandFrom env (.open [] false) text.toList)

/-- An argument cut at its first equals sign, if it has one. -/
def splitAssignment (argument : String) : String × Option String :=
  let cs := argument.toList
  let name := cs.takeWhile (· ≠ '=')
  match cs.drop name.length with
  | [] => (argument, none)
  | _ :: value => (String.ofList name, some (String.ofList value))

/-- What an argument of one of the commands gives: a line to print, a message, or nothing. -/
inductive Line
  | output (text : String)
  | problem (text : String)
  | nothing

/-- Runs a command on one argument after the other. -/
def runEach (step : String → Environment → Line × Environment) :
    List String → Environment → List Line × Environment
  | [], env => ([], env)
  | argument :: rest, env =>
    let (line, env) := step argument env
    let (lines, env) := runEach step rest env
    (line :: lines, env)

/-- The outcome of lines, with an exit code if some tell of problems. -/
def outcome (lines : List Line) (exitCode : Nat) : Outcome :=
  let problems := lines.filterMap fun | .problem text => some text | _ => none
  { output := Text.Lines.join (lines.filterMap fun | .output text => some text | _ => none)
    errors := Text.Lines.join problems
    exitCode := if problems.isEmpty then 0 else exitCode }

/-- What `env` does with one argument: sets and exports a variable, or shows an exported one. -/
def envStep (argument : String) (env : Environment) : Line × Environment :=
  match splitAssignment argument with
  | (name, some value) =>
    match env.set name value true with
    | .ok env => (.output (name ++ "=" ++ value), env)
    | .error e => (.problem ("env: " ++ e.message), env)
  | (name, none) =>
    if env.isExported name then
      (.output (name ++ "=" ++ (env.get? name).getD ""), env)
    else (.problem ("env: '" ++ name ++ "': No such file or directory"), env)

/-- Lists exported variables, or sets and shows those that the arguments name. -/
def runEnv (arguments : List String) (env : Environment) : Outcome × Environment :=
  if arguments.isEmpty then
    (.print (Text.Lines.join (env.exportedSorted.map fun (name, value) => name ++ "=" ++ value)),
      env)
  else
    let (lines, env) := runEach envStep arguments env
    (outcome lines Outcome.unknown, env)

/-- What `export` does with one argument: exports a variable, with a new value if one is given. -/
def exportStep (argument : String) (env : Environment) : Line × Environment :=
  let result := match splitAssignment argument with
    | (name, some value) => env.set name value true
    | (name, none) =>
      if !isName name then .error (.invalidName argument)
      else if (env.get? name).isSome then .ok (env.markExported name)
      else env.set name "" true
  match result with
  | .ok env => (.nothing, env)
  | .error e => (.problem ("export: " ++ e.message), env)

/-- Exports variables, or lists the exported ones as declarations. -/
def runExport (arguments : List String) (env : Environment) : Outcome × Environment :=
  if arguments.isEmpty || arguments = ["-p"] then
    (.print (Text.Lines.join (env.exportedSorted.map fun (name, value) =>
      "declare -x " ++ name ++ "=\"" ++ value ++ "\"")), env)
  else
    let (lines, env) := runEach exportStep arguments env
    (outcome lines Outcome.failure, env)

/-- What `unset` does with one argument. -/
def unsetStep (argument : String) (env : Environment) : Line × Environment :=
  match env.unset argument with
  | .ok env => (.nothing, env)
  | .error e => (.problem ("unset: " ++ e.message), env)

/-- Removes variables. -/
def runUnset (arguments : List String) (env : Environment) : Outcome × Environment :=
  let (lines, env) := runEach unsetStep arguments env
  (outcome lines Outcome.failure, env)

end Environment

end PracticeShell
