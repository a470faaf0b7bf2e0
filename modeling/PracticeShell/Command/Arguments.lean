import PracticeShell.Path
import PracticeShell.Text.Digit

/-!
# Arguments of a command

The words after a command's name are flags, options with values, a count, and operands. Flags are
single letters that can be bundled after one dash; `--` ends them; a dash alone is an operand.
`Rules` says which of them a command takes.
-/

namespace PracticeShell

/-- What a command takes besides operands: the letters of its flags, the options that have a value,
and whether a dash with a number is a count. -/
structure Arguments.Rules where
  flags : String
  options : List String
  hasCount : Bool

/-- The arguments of a command. An option that is given twice keeps its last value. -/
structure Arguments where
  flags : List Char
  options : List (String × String)
  operands : List String
  count : Option Nat
deriving Repr

namespace Arguments

/-- Why arguments are refused. -/
inductive Error
  /-- The command has no such flag. -/
  | invalidFlag (letter : Char)
  /-- The value of an option is missing. -/
  | missingValue (option : String)
  /-- A count has too many digits. -/
  | countTooLong (digits : Nat)
deriving DecidableEq, Repr

/-- A word without the dashes it starts with. -/
def trimDashes (word : String) : String := String.ofList (word.toList.dropWhile (· == '-'))

/-- The message that tells what is wrong with arguments. -/
def Error.message : Error → String
  | invalidFlag letter => "invalid option -- '" ++ letter.toString ++ "'"
  | missingValue option => "option requires an argument -- '" ++ trimDashes option ++ "'"
  | countTooLong digits => Text.Digit.tooLongMessage digits

/-- All options that have a value, for any command. -/
def valueOptions : List String := ["-n", "-name", "-iname", "-type", "-maxdepth"]

namespace Rules

/-- Flags only. -/
def flagsOnly (flags : String) : Rules := ⟨flags, [], false⟩

/-- Whether a word is an option with a value. -/
def isOption (rules : Rules) (word : String) : Bool :=
  valueOptions.contains word && rules.options.contains word

end Rules

/-- No arguments. -/
def none : Arguments := ⟨[], [], [], Option.none⟩

/-- Whether one of the flags is set. -/
def has (a : Arguments) (letters : List Char) : Bool := letters.any a.flags.contains

/-- The value of an option. -/
def option? (a : Arguments) (name : String) : Option String := a.options.lookup name

/-- Whether a word is an operand although `--` has not been met. -/
def isOperand (word : String) : Bool := word = "-" || !Path.startsWith word "-"

/-- The digits of a count: decimal digits of any script after a dash; a line feed may end them. -/
def countDigits? (word : String) : Option (List Char) :=
  match word.toList with
  | '-' :: rest =>
    let ds := rest.takeWhile Text.Digit.isDecimal
    let after := rest.dropWhile Text.Digit.isDecimal
    if !ds.isEmpty && (after.isEmpty || after = ['\n']) then some ds else Option.none
  | _ => Option.none

/-- Sets flags from letters, all of which must be known. -/
def addFlags (rules : Rules) (a : Arguments) : List Char → Except Error Arguments
  | [] => .ok a
  | letter :: rest =>
    if rules.flags.toList.contains letter then
      addFlags rules
        (if a.flags.contains letter then a else { a with flags := a.flags ++ [letter] }) rest
    else .error (.invalidFlag letter)

/-- Reads words after the arguments in `a`. -/
def parseFrom (rules : Rules) (a : Arguments) : List String → Except Error Arguments
  | [] => .ok a
  | word :: rest =>
    if isOperand word then parseFrom rules { a with operands := a.operands ++ [word] } rest
    else if word = "--" then .ok { a with operands := a.operands ++ rest }
    else if rules.isOption word then
      match rest with
      | [] => .error (.missingValue word)
      | value :: rest => parseFrom rules { a with options := (word, value) :: a.options } rest
    else
      let start := String.ofList (word.toList.take 2)
      if word.length > 2 && rules.isOption start then
        let value := String.ofList (word.toList.drop 2)
        parseFrom rules { a with options := (start, value) :: a.options } rest
      else
        match rules.hasCount, countDigits? word with
        | true, some ds =>
          match Text.Digit.readNat ds with
          | .ok n => parseFrom rules { a with count := some n } rest
          | .error _ => .error (.countTooLong ds.length)
        | _, _ =>
          match addFlags rules a (word.toList.drop 1) with
          | .ok a => parseFrom rules a rest
          | .error e => .error e

/-- Reads the arguments of a command. -/
def parse (rules : Rules) (words : List String) : Except Error Arguments :=
  parseFrom rules none words

end Arguments

end PracticeShell
