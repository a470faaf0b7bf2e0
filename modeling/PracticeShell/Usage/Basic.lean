import PracticeShell.Help
import PracticeShell.Text.Quoted

/-!
# Words that a program is started with

A program is started with words. Some are flags, which start with dashes and can take a value; the
others are operands. A `Usage` tells which flags there are, what they do to the settings, and
whether an operand is expected. `Usage.Ending` tells how reading words can end early.
-/

namespace PracticeShell

namespace Usage

/-- What a flag does. -/
inductive Effect (σ : Type)
  /-- It has a text shown, and nothing else is done. -/
  | shows (text : String)
  /-- It is set or not. -/
  | switch (set : σ → σ)
  /-- It takes a word. -/
  | word (set : String → σ → σ)
  /-- It takes one of some words. -/
  | choice (among : List String) (set : String → σ → σ)
  /-- It takes a whole number. -/
  | number (set : Int → σ → σ)

/-- Whether a flag with this effect takes a value. -/
def Effect.takesValue {σ : Type} : Effect σ → Bool
  | shows _ | switch _ => false
  | word _ | choice .. | number _ => true

/-- A flag. A long name starts with two dashes, a short one is a dash and a character. -/
structure Flag (σ : Type) where
  names : List String
  effect : Effect σ

/-- The name of a flag in messages. -/
def Flag.title {σ : Type} (f : Flag σ) : String := "/".intercalate f.names

/-- The operand that is expected. -/
inductive Operand
  | none
  /-- A word has to be given. -/
  | word (name : String)
  /-- A command can be given, and all words after it are for the command. -/
  | command (name : String) (among : List String)

/-- Why words are refused. -/
inductive Refusal
  /-- A long name is cut short so that it could be one of several names. -/
  | ambiguous (word : String) (names : List String)
  /-- A flag takes a value and none is given. -/
  | noValue (title : String)
  /-- A flag takes no value and one is given. -/
  | unexpectedValue (title value : String)
  /-- A value has to be a whole number. -/
  | notANumber (title value : String)
  /-- A value has to be one of some words. -/
  | notAmong (title value : String) (among : List String)
  /-- The operand is missing. -/
  | missing (name : String)
  /-- Words are left that nothing is known of. -/
  | unknown (words : List String)
deriving DecidableEq, Repr

/-- A message about a flag or an operand. -/
def Refusal.about (title text : String) : String := "argument " ++ title ++ ": " ++ text

/-- The message that tells why words are refused. -/
def Refusal.message : Refusal → String
  | ambiguous word names =>
    "ambiguous option: " ++ word ++ " could match " ++ ", ".intercalate names
  | noValue title => about title "expected one argument"
  | unexpectedValue title value =>
    about title ("ignored explicit argument " ++ Text.Quoted.quote value)
  | notANumber title value => about title ("invalid int value: " ++ Text.Quoted.quote value)
  | notAmong title value among =>
    about title ("invalid choice: " ++ Text.Quoted.quote value ++ " (choose from " ++
      ", ".intercalate (among.map Text.Quoted.quote) ++ ")")
  | missing name => "the following arguments are required: " ++ name
  | unknown words => "unrecognized arguments: " ++ " ".intercalate words

/-- Why reading words ends early. -/
inductive Ending
  /-- A text was asked for. -/
  | shows (text : String)
  /-- The words are refused; the page is the one about what was read. -/
  | refused (page : HelpPage) (cause : Refusal)

/-- The exit code of a program whose words are refused. -/
def refusedCode : Nat := 2

/-- What is said about words that are refused. -/
def refusedText (page : HelpPage) (cause : Refusal) : String :=
  Text.Lines.join (page.synopsis ++ [page.title ++ ": error: " ++ cause.message])

end Usage

/-- The flags and the operand of a program or a command, and the page about it. -/
structure Usage (σ : Type) where
  page : HelpPage
  flags : List (Usage.Flag σ)
  operand : Usage.Operand

namespace Usage

variable {σ : Type}

/-- The names of all flags. -/
def names (u : Usage σ) : List String := u.flags.flatMap (·.names)

/-- The flag with a name. -/
def flag? (u : Usage σ) (name : String) : Option (Flag σ) := u.flags.find? (·.names.contains name)

/-- The flag that shows the page. -/
def help (page : HelpPage) : Flag σ := ⟨["-h", "--help"], .shows page.text⟩

/-- Ends reading with a refusal. -/
def refuse {α : Type} (u : Usage σ) (cause : Refusal) : Except Ending α :=
  .error (.refused u.page cause)

end Usage

end PracticeShell
