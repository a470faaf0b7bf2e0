/-!
# Shortest decimals

A double stands for every real number that rounds to it. `Shortest.digits` gives the shortest
decimal in that interval: it tries decimal grids of one digit more at a time and takes, on the first
grid with a point in the interval, the point nearest to the double. `Layout.render` writes digits
and an exponent, positionally where the layout says so and with an exponent elsewhere.
-/

namespace PracticeShell.Decimal

/-- A positive double as `mantissa * 2 ^ exponent`, and whether the doubles below lie half as far
apart as those above. -/
structure Binary where
  mantissa : Nat
  exponent : Int
  narrowBelow : Bool
deriving Repr, DecidableEq

/-- The parts of a positive finite double, from its bits without the sign. -/
def Binary.ofBits (bits : Nat) : Binary :=
  let fraction := bits % Nat.pow 2 52
  let e : Nat := bits / Nat.pow 2 52 % Nat.pow 2 11
  if e = 0 then ⟨fraction, -1074, false⟩
  else ⟨Nat.pow 2 52 + fraction, (e : Int) - 1075, fraction = 0 && e > 1⟩

/-- A decimal: `digits * 10 ^ exponent`. -/
structure Scaled where
  digits : Nat
  exponent : Int
deriving Repr, DecidableEq

namespace Shortest

/-- The interval of reals that round to a double, and the double itself, as multiples of a quarter
of the double's unit in the last place: lower end, value, upper end. Both ends belong to it when the
mantissa is even. -/
def quarters (b : Binary) : Nat × Nat × Nat :=
  (4 * b.mantissa - (if b.narrowBelow then 1 else 2), 4 * b.mantissa, 4 * b.mantissa + 2)

/-- A rational `n * 2 ^ e * 10 ^ k` as a numerator and a denominator. -/
def ratio (n : Nat) (e k : Int) : Nat × Nat :=
  (n * Nat.pow 2 e.toNat * Nat.pow 10 k.toNat, Nat.pow 2 (-e).toNat * Nat.pow 10 (-k).toNat)

/-- The exponent of the first decimal digit of `n * 2 ^ e`, for positive `n` and `e` not below
`-1076`. -/
def leading (n : Nat) (e : Int) : Int :=
  let (num, den) := ratio n e 400
  ((Nat.toDigits 10 (num / den)).length : Int) - 401

/-- Whether a multiple of `10 ^ p` lies in the interval of a double. -/
def hits (b : Binary) (p : Int) (c : Nat) : Bool :=
  let (lo, _, hi) := quarters b
  let (num, den) := ratio c (2 - b.exponent) p
  if b.mantissa % 2 = 0 then lo * den ≤ num && num ≤ hi * den
  else lo * den < num && num < hi * den

/-- The point nearest to the double among the two neighbours on the grid of multiples of `10 ^ p`
that lie in its interval; of two equally near the even one. -/
def onGrid? (b : Binary) (p : Int) : Option Nat :=
  let (num, den) := ratio b.mantissa b.exponent (-p)
  let c := num / den
  let r := num % den
  let below := hits b p c
  let above := hits b p (c + 1)
  if below && above then
    some (if 2 * r < den || (2 * r = den && c % 2 = 0) then c else c + 1)
  else if below then some c
  else if above then some (c + 1)
  else none

/-- Tries grids of `n`, `n + 1`, … digits, at most `fuel` of them. -/
def search (b : Binary) (first : Int) : (fuel n : Nat) → Scaled
  | 0, n => ⟨(onGrid? b (first - n)).getD 0, first - n⟩
  | fuel + 1, n =>
    match onGrid? b (first - n) with
    | some c => if c = 0 then search b first fuel (n + 1) else ⟨c, first - n⟩
    | none => search b first fuel (n + 1)

/-- The shortest decimal that rounds to a positive finite double. Seventeen digits always do. -/
def digits (b : Binary) : Scaled := search b (leading b.mantissa b.exponent) 17 0

end Shortest

/-- How decimals are laid out: the exponents of the first digit for which the number is written
positionally lie from `least` up to, not including, `bound`. -/
structure Layout where
  least : Int
  bound : Int
deriving Repr

namespace Layout

/-- Digits without the zeros at the end, and the exponent that makes up for them. -/
def significant (d : Scaled) : List Char × Int :=
  let ds := Nat.toDigits 10 d.digits
  let zeros := (ds.reverse.takeWhile (· == '0')).length
  (ds.take (ds.length - zeros), d.exponent + zeros)

/-- The exponent with a sign and at least two digits. -/
def exponentText (e : Int) : List Char :=
  let ds := Nat.toDigits 10 e.natAbs
  (if e < 0 then '-' else '+') :: (if ds.length < 2 then '0' :: ds else ds)

/-- A positive decimal. Positional notation always shows a point and a digit after it. -/
def render (layout : Layout) (d : Scaled) : List Char :=
  let (ds, e) := significant d
  let first : Int := e + ds.length - 1
  if layout.least ≤ first ∧ first < layout.bound then
    if 0 ≤ e then ds ++ List.replicate e.toNat '0' ++ ['.', '0']
    else if 0 ≤ first then
      ds.take (first.toNat + 1) ++ '.' :: ds.drop (first.toNat + 1)
    else ['0', '.'] ++ List.replicate (-first - 1).toNat '0' ++ ds
  else
    let head := match ds with
      | [d] => [d]
      | d :: rest => d :: '.' :: rest
      | [] => []
    head ++ 'e' :: exponentText first

end Layout

/-- Numbers are positional from a ten thousandth up to, not including, ten to the sixteenth. -/
def plain : Layout := ⟨-4, 16⟩

/-- The text of a double: the shortest decimal that reads back as the same double. -/
def floatText (x : Float) : String :=
  let bits := x.toBits.toNat
  let sign := if bits / Nat.pow 2 63 = 1 then ['-'] else []
  let size := bits % Nat.pow 2 63
  if x.isNaN then "nan"
  else if x.isInf then String.ofList (sign ++ ['i', 'n', 'f'])
  else if size = 0 then String.ofList (sign ++ ['0', '.', '0'])
  else String.ofList (sign ++ plain.render (Shortest.digits (Binary.ofBits size)))

/-- Divides and rounds to the nearest integer, a half going to the even neighbour. -/
def roundDiv (num den : Nat) : Nat :=
  let q := num / den
  let r := num % den
  if 2 * r < den ∨ (2 * r = den ∧ q % 2 = 0) then q else q + 1

/-- A quotient with one decimal place, rounded to nearest with halves going to the even
neighbour. -/
def oneDecimal (num den : Nat) : String :=
  let tenths := roundDiv (10 * num) den
  toString (tenths / 10) ++ "." ++ toString (tenths % 10)

end PracticeShell.Decimal
