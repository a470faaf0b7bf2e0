import PracticeShell.Path
import PracticeShell.Text.Digit
import PracticeShell.Text.Lines
import PracticeShell.Usage.Basic

/-!
# Reading words

`Usage.read` reads the words that a program or a command is started with. First each word is marked
as a flag or as an argument by its form alone (`Usage.marks`): a long name can be cut short as long
as it fits one flag, a value can follow its flag after an equals sign or, for a short name,
directly, and after a word of two dashes all words are arguments. Then the words are taken in order
(`Usage.walk`): flags act, the first argument that is no value is the operand, and words that are of
no use are kept to be refused.
-/

namespace PracticeShell.Usage

variable {σ : Type}

/-- A value that is written in one word with its flag. -/
structure Attached where
  /-- Whether an equals sign stands before it. -/
  isMarked : Bool
  text : List Char
deriving DecidableEq, Repr

/-- What a word is. -/
inductive Mark (σ : Type)
  | argument
  /-- Two dashes. -/
  | divider
  /-- A flag by one of its names. -/
  | flag (flag : Flag σ) (name : String) (value : Option Attached)
  /-- A word that looks like a flag, but there is none of that name. -/
  | unknown

/-- The word after which all words are arguments. -/
def dividerWord : String := "--"

/-- Whether what follows a dash is a number with digits at its end, and perhaps with a point. -/
def isNumber (cs : List Char) : Bool :=
  let cs := Text.Lines.withoutFinal cs
  let isDigits := fun (ds : List Char) => !ds.isEmpty && ds.all Text.Digit.isDecimal
  isDigits cs ||
    match cs.dropWhile Text.Digit.isDecimal with
    | '.' :: fraction => isDigits fraction
    | _ => false

/-- A word cut at its first equals sign. -/
def cut (word : String) : String × Option Attached :=
  let cs := word.toList
  (String.ofList (cs.takeWhile (· ≠ '=')),
    match cs.dropWhile (· ≠ '=') with
    | _ :: value => some ⟨true, value⟩
    | [] => none)

/-- The flags that a word can stand for if its name is no full name: those with a long name that
starts with it, or the one with a short name that the word starts with. -/
def candidates (u : Usage σ) (word : String) : List (Flag σ × String × Option Attached) :=
  match word.toList with
  | '-' :: '-' :: _ =>
    let (start, value) := cut word
    u.names.filterMap fun name =>
      if Path.startsWith name start then (u.flag? name).map fun f => (f, name, value) else none
  | '-' :: c :: rest =>
    let name := String.ofList ['-', c]
    ((u.flag? name).map fun f => (f, name, some ⟨false, rest⟩)).toList
  | _ => []

/-- Marks a word that is no divider. -/
def mark (u : Usage σ) (word : String) : Except Ending (Mark σ) :=
  match word.toList with
  | '-' :: c :: rest =>
    match u.flag? word with
    | some f => .ok (.flag f word none)
    | none =>
      match cut word with
      | (name, some value) =>
        match u.flag? name with
        | some f => .ok (.flag f name (some value))
        | none => guess (c :: rest)
      | (_, none) => guess (c :: rest)
  | _ => .ok .argument
where
  /-- Marks a word whose name is no full name. -/
  guess (afterDash : List Char) : Except Ending (Mark σ) :=
    match u.candidates word with
    | [(f, name, value)] => .ok (.flag f name value)
    | [] => .ok (if isNumber afterDash || afterDash.contains ' ' then .argument else .unknown)
    | several => u.refuse (.ambiguous word (several.map (·.2.1)))

/-- Marks words. -/
def marks (u : Usage σ) : List String → Except Ending (List (String × Mark σ))
  | [] => .ok []
  | word :: rest =>
    if word = dividerWord then .ok ((word, .divider) :: rest.map fun w => (w, .argument))
    else do
      let m ← u.mark word
      return (word, m) :: (← marks u rest)

/-- What one word asks for: flags with their values, perhaps the next word as a value, and perhaps a
part that nothing is known of. -/
structure Request (σ : Type) where
  acts : List (Flag σ × Option String)
  takesNext : Bool
  unknown : Option String

/-- What a flag without a value in its word asks for. -/
def alone (u : Usage σ) (f : Flag σ) (next : Option String) : Except Ending (Request σ) :=
  if !f.effect.takesValue then .ok ⟨[(f, none)], false, none⟩
  else
    match next with
    | some value => .ok ⟨[(f, some value)], true, none⟩
    | none => u.refuse (.noValue f.title)

/-- What a flag with something after its name asks for. Short names of flags without values can be
written together after one dash. -/
def together (u : Usage σ) (f : Flag σ) (name : String) (next : Option String) (isMarked : Bool) :
    List Char → Except Ending (Request σ)
  | [] =>
    if f.effect.takesValue then .ok ⟨[(f, some "")], false, none⟩
    else u.refuse (.unexpectedValue f.title "")
  | c :: rest =>
    if f.effect.takesValue then .ok ⟨[(f, some (String.ofList (c :: rest)))], false, none⟩
    else if isMarked || c == '-' || Path.startsWith name "--" then
      u.refuse (.unexpectedValue f.title (String.ofList (c :: rest)))
    else do
      let name := String.ofList ['-', c]
      match u.flag? name with
      | none => return ⟨[(f, none)], false, some (String.ofList ('-' :: c :: rest))⟩
      | some g =>
        let r ← match rest with
          | [] => u.alone g next
          | '=' :: value => together u g name next true value
          | c :: value => together u g name next false (c :: value)
        return { r with acts := (f, none) :: r.acts }

/-- What has been read. -/
structure Reading (σ : Type) where
  settings : σ
  operand : Option String
  /-- The words for the command that is the operand. -/
  rest : List String
  /-- Words that nothing is known of. -/
  unknown : List String

/-- Lets a flag act. -/
def act (u : Usage σ) (r : Reading σ) (f : Flag σ) (value : String) : Except Ending (Reading σ) :=
  let changed := fun (s : σ) => Except.ok { r with settings := s }
  match f.effect with
  | .shows text => .error (.shows text)
  | .switch set => changed (set r.settings)
  | .word set => changed (set value r.settings)
  | .choice among set =>
    if among.contains value then changed (set value r.settings)
    else u.refuse (.notAmong f.title value among)
  | .number set =>
    match Text.Digit.readInt value with
    | .ok n => changed (set n r.settings)
    | .error _ => u.refuse (.notANumber f.title value)

/-- Keeps a word that nothing is known of. -/
def Reading.leave (r : Reading σ) (word : String) : Reading σ :=
  { r with unknown := r.unknown ++ [word] }

/-- The next word, if it is an argument. -/
def nextArgument? : List (String × Mark σ) → Option String
  | (word, .argument) :: _ => some word
  | _ => none

/-- Takes marked words in order. -/
def walk (u : Usage σ) (r : Reading σ) : List (String × Mark σ) → Except Ending (Reading σ)
  | [] => .ok r
  | (_, .flag f name value) :: rest => do
    let next := nextArgument? rest
    let request ← match value with
      | none => u.alone f next
      | some v => u.together f name next v.isMarked v.text
    let r ← request.acts.foldlM (fun r (f, value) => u.act r f (value.getD "")) r
    let r := match request.unknown with
      | some word => r.leave word
      | none => r
    match request.takesNext, rest with
    | true, _ :: rest => walk u r rest
    | _, rest => walk u r rest
  | (word, .unknown) :: rest => walk u (r.leave word) rest
  | (word, .argument) :: rest =>
    match u.operand, r.operand with
    | .command name among, none =>
      if among.contains word then .ok { r with operand := some word, rest := rest.map (·.1) }
      else u.refuse (.notAmong name word among)
    | .word _, none =>
      match rest with
      | (_, .divider) :: rest => walk u { r with operand := some word } rest
      | rest => walk u { r with operand := some word } rest
    | _, _ => walk u (r.leave word) rest
  | (word, .divider) :: rest =>
    match u.operand, r.operand, rest with
    | .command name among, none, _ :: _ => u.refuse (.notAmong name word among)
    | .word _, none, (word, _) :: rest => walk u { r with operand := some word } rest
    | _, _, rest => walk u (r.leave word) rest

/-- Reads words. -/
def read (u : Usage σ) (settings : σ) (words : List String) : Except Ending (Reading σ) := do
  let r ← u.walk ⟨settings, none, [], []⟩ (← u.marks words)
  match u.operand, r.operand with
  | .word name, none => u.refuse (.missing name)
  | _, _ => return r

end PracticeShell.Usage
