import PracticeShell.Text.Blank

/-!
# Digits and whole numbers

Two classes are told apart. `Digit.isDigit` holds of every character that stands for a digit,
superscripts and circled digits included. `Digit.value?` gives the value of the decimal digits of
any script, which are the ones a number can be written with: so a text of digits need not be a
number. `Digit.readInt` reads a whole number with an optional sign, single underscores between
digits and blanks around it, and refuses numbers of more than `maxDigits` digits.
-/

namespace PracticeShell.Text.Digit

/-- Where the class of digits starts and stops. -/
def digits : Intervals := ⟨#[
    48, 58, 178, 180, 185, 186, 1632, 1642, 1776, 1786, 1984, 1994, 2406, 2416, 2534, 2544, 2662,
    2672, 2790, 2800, 2918, 2928, 3046, 3056, 3174, 3184, 3302, 3312, 3430, 3440, 3558, 3568,
    3664, 3674, 3792, 3802, 3872, 3882, 4160, 4170, 4240, 4250, 4969, 4978, 6112, 6122, 6160,
    6170, 6470, 6480, 6608, 6619, 6784, 6794, 6800, 6810, 6992, 7002, 7088, 7098, 7232, 7242,
    7248, 7258, 8304, 8305, 8308, 8314, 8320, 8330, 9312, 9321, 9332, 9341, 9352, 9361, 9450,
    9451, 9461, 9470, 9471, 9472, 10102, 10111, 10112, 10121, 10122, 10131, 42528, 42538, 43216,
    43226, 43264, 43274, 43472, 43482, 43504, 43514, 43600, 43610, 44016, 44026, 65296, 65306,
    66720, 66730, 68160, 68164, 68912, 68922, 69216, 69225, 69714, 69723, 69734, 69744, 69872,
    69882, 69942, 69952, 70096, 70106, 70384, 70394, 70736, 70746, 70864, 70874, 71248, 71258,
    71360, 71370, 71472, 71482, 71904, 71914, 72016, 72026, 72784, 72794, 73040, 73050, 73120,
    73130, 92768, 92778, 92864, 92874, 93008, 93018, 120782, 120832, 123200, 123210, 123632,
    123642, 125264, 125274, 127232, 127243, 130032, 130042]⟩

/-- Where the class of decimal digits starts and stops. Each interval starts with a zero and holds
whole runs of ten. -/
def decimals : Intervals := ⟨#[
    48, 58, 1632, 1642, 1776, 1786, 1984, 1994, 2406, 2416, 2534, 2544, 2662, 2672, 2790, 2800,
    2918, 2928, 3046, 3056, 3174, 3184, 3302, 3312, 3430, 3440, 3558, 3568, 3664, 3674, 3792,
    3802, 3872, 3882, 4160, 4170, 4240, 4250, 6112, 6122, 6160, 6170, 6470, 6480, 6608, 6618,
    6784, 6794, 6800, 6810, 6992, 7002, 7088, 7098, 7232, 7242, 7248, 7258, 42528, 42538, 43216,
    43226, 43264, 43274, 43472, 43482, 43504, 43514, 43600, 43610, 44016, 44026, 65296, 65306,
    66720, 66730, 68912, 68922, 69734, 69744, 69872, 69882, 69942, 69952, 70096, 70106, 70384,
    70394, 70736, 70746, 70864, 70874, 71248, 71258, 71360, 71370, 71472, 71482, 71904, 71914,
    72016, 72026, 72784, 72794, 73040, 73050, 73120, 73130, 92768, 92778, 92864, 92874, 93008,
    93018, 120782, 120832, 123200, 123210, 123632, 123642, 125264, 125274, 130032, 130042]⟩

/-- Whether a character stands for a digit. -/
def isDigit (c : Char) : Bool :=
  if c.toNat < 128 then '0' ≤ c && c ≤ '9' else digits.contains c.toNat

/-- The value of a decimal digit of any script. -/
def value? (c : Char) : Option Nat :=
  if c.toNat < 128 then
    if '0' ≤ c && c ≤ '9' then some (c.toNat - 48) else none
  else if decimals.contains c.toNat then
    (decimals.start? c.toNat).map fun first => (c.toNat - first) % 10
  else none

/-- Whether a character is a decimal digit of some script. -/
def isDecimal (c : Char) : Bool := (value? c).isSome

/-- Whether a text is a non-empty run of characters that stand for digits. -/
def isDigits (text : String) : Bool := !text.isEmpty && text.toList.all isDigit

/-- The number written by decimal digits, the first being the most significant. -/
def ofDigits (values : List Nat) : Nat := values.foldl (fun n d => 10 * n + d) 0

/-- The most digits a number may be written with. -/
def maxDigits : Nat := 4300

/-- Why a text is not read as a whole number. -/
inductive IntError
  /-- The text does not have the form of a number. -/
  | malformed
  /-- The text has the form of a number with the given number of digits, which is above
  `maxDigits`. -/
  | tooLong (count : Nat)
deriving DecidableEq, Repr

/-- The message about a number of too many digits. -/
def tooLongMessage (count : Nat) : String :=
  "Exceeds the limit (" ++ toString maxDigits ++
    " digits) for integer string conversion: value has " ++ toString count ++
    " digits; use sys.set_int_max_str_digits() to increase the limit"

/-- The values of digits separated by single underscores. The flag says whether a digit has just
been read, so that an underscore may follow. -/
def readDigits? (afterDigit : Bool) : List Char → Option (List Nat)
  | [] => if afterDigit then some [] else none
  | c :: rest =>
    if c = '_' then if afterDigit then readDigits? false rest else none
    else do
      let d ← value? c
      let ds ← readDigits? true rest
      return d :: ds

/-- Reads digits as a number, unless there are too many. -/
def readNat (cs : List Char) : Except IntError Nat :=
  match readDigits? false cs with
  | none => .error .malformed
  | some ds => if ds.length > maxDigits then .error (.tooLong ds.length) else .ok (ofDigits ds)

/-- Reads a whole number: an optional sign and digits, with blanks around them. -/
def readInt (text : String) : Except IntError Int :=
  match (Blank.trim text).toList with
  | '+' :: rest => (readNat rest).map Int.ofNat
  | '-' :: rest => (readNat rest).map fun n => -Int.ofNat n
  | cs => (readNat cs).map Int.ofNat

end PracticeShell.Text.Digit
