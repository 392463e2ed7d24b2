import NameRegistry.Decimal.Text

/-! # Double-precision numbers

A double is a mantissa of 53 bits times a power of two, infinite, or not a number. A decimal number
is rounded to the nearest double, a tie to the even mantissa. A double is written without a power of
ten, in the fewest digits that are read back as the same double.

A numeral in a record is not always read as the nearest double: the digits that fit 64 bits are
rounded, and the result is multiplied or divided by a power of ten and rounded again.
-/
namespace NameRegistry

/-- A double. A finite one is `± mantissa · 2 ^ exponent`. -/
inductive Binary64
  | finite (negative : Bool) (mantissa : Nat) (exponent : Int)
  | infinite (negative : Bool)
  | nan
  deriving DecidableEq

namespace Binary64

/-- The position of the leading bit of a positive quotient. -/
def leadingBit (num den : Nat) : Int :=
  let guess : Int := num.log2 - den.log2
  if num * 2 ^ (-guess).toNat < den * 2 ^ guess.toNat then guess - 1 else guess

/-- The mantissa and exponent nearest to a quotient, with no bound on the exponent from above. -/
def nearest (num den : Nat) : Nat × Int :=
  if num = 0 then (0, -1074)
  else
    let exponent := max (leadingBit num den - 52) (-1074)
    let mantissa := roundDiv (num * 2 ^ (-exponent).toNat) (den * 2 ^ exponent.toNat)
    if mantissa = 2 ^ 53 then (2 ^ 52, exponent + 1) else (mantissa, exponent)

def ofRatio (negative : Bool) (num den : Nat) : Binary64 :=
  let (mantissa, exponent) := nearest num den
  if 971 < exponent then infinite negative else finite negative mantissa exponent

/-- Numerator and denominator of a magnitude. -/
def ratio (mantissa : Nat) (exponent : Int) : Nat × Nat :=
  (mantissa * 2 ^ exponent.toNat, 2 ^ (-exponent).toNat)

/-- The double nearest to `± digits · 10 ^ power`. Powers far outside the range need no
arithmetic. -/
def ofDecimal (negative : Bool) (digits : Nat) (power : Int) : Binary64 :=
  let size : Int := (Nat.toDigits 10 digits).length
  if digits = 0 ∨ size + power < -330 then finite negative 0 (-1074)
  else if 330 < size + power then infinite negative
  else ofRatio negative (digits * 10 ^ power.toNat) (10 ^ (-power).toNat)

/-- The double nearest to a whole number, as a quotient. -/
def nearestRatio (n : Nat) : Nat × Nat := ratio (nearest n 1).1 (nearest n 1).2

/-- Puts digits behind a number as long as it fits 64 bits. Gives the count of digits left over. -/
def appendDigits (n : Nat) : List Char → Nat × Nat
  | [] => (n, 0)
  | c :: cs =>
    let m := n * 10 + (c.toNat - '0'.toNat)
    if m < 2 ^ 64 then appendDigits m cs else (n, cs.length + 1)

/-- A magnitude over a power of ten that is a double itself. -/
def overTens (mantissa : Nat) (exponent : Int) (power : Nat) : Nat × Int :=
  let (a, b) := ratio mantissa exponent
  let (c, d) := nearestRatio (10 ^ power)
  nearest (a * d) (b * c)

/-- A magnitude over any power of ten, `10 ^ 308` at a time. -/
def divideByTens (mantissa : Nat) (exponent : Int) (power : Nat) : Nat × Int :=
  if mantissa = 0 then (0, -1074)
  else if power ≤ 308 then overTens mantissa exponent power
  else
    let quotient := overTens mantissa exponent 308
    divideByTens quotient.1 quotient.2 (power - 308)
termination_by power

/-- Multiplies or divides a magnitude by a power of ten. -/
def scale (negative : Bool) (mantissa : Nat) (exponent power : Int) : Binary64 :=
  if mantissa = 0 then finite negative 0 (-1074)
  else if power < 0 then
    let (mantissa, exponent) := divideByTens mantissa exponent power.natAbs
    finite negative mantissa exponent
  else if 308 < power then infinite negative
  else
    let (a, b) := ratio mantissa exponent
    let (c, d) := nearestRatio (10 ^ power.natAbs)
    ofRatio negative (a * c) (b * d)

/-- The double of a numeral with these digits before and after the point. Whole digits that do not
fit count as powers of ten; digits after the point that do not fit are left out. -/
def ofNumeral (negative : Bool) (whole fraction : List Char) (power : Int) : Binary64 :=
  let (n, dropped) := appendDigits 0 whole
  let (n, unread) := appendDigits n fraction
  let (mantissa, exponent) := nearest n 1
  scale negative mantissa exponent (power + dropped - (fraction.length - unread))

/-- Whether `n / 10 ^ places` is read as the double. -/
def readsBack (mantissa : Nat) (exponent : Int) (n : Nat) (places : Int) : Bool :=
  nearest (n * 10 ^ (-places).toNat) (10 ^ places.toNat) = (mantissa, exponent)

/-- Of the two multiples of `10 ^ -places` next to the magnitude, the nearer one that reads back. -/
def gridPoint? (mantissa : Nat) (exponent : Int) (places : Int) : Option Nat :=
  let (num, den) := ratio mantissa exponent
  let num := num * 10 ^ places.toNat
  let den := den * 10 ^ (-places).toNat
  let below := num / den
  let candidates := if 2 * (num % den) < den then [below, below + 1] else [below + 1, below]
  candidates.find? fun n => readsBack mantissa exponent n places

/-- The first grid, from coarse to fine, with a point that reads back, and that point. -/
def shortest (mantissa : Nat) (exponent : Int) : (fuel : Nat) → (places : Int) → Nat × Int
  | 0, places => (0, places)
  | fuel + 1, places =>
    match gridPoint? mantissa exponent places with
    | some n => (n, places)
    | none => shortest mantissa exponent fuel (places + 1)

/-- All digits in front of the point that a double can have, and all grids after it. -/
def grids : Nat := 800

def magnitudeChars (mantissa : Nat) (exponent : Int) : List Char :=
  if mantissa = 0 then ['0']
  else
    let (num, den) := ratio mantissa exponent
    let (n, places) := shortest mantissa exponent grids (-(Nat.toDigits 10 (num / den)).length)
    if places ≤ 0 then Nat.toDigits 10 (n * 10 ^ (-places).toNat)
    else
      Nat.toDigits 10 (n / 10 ^ places.toNat) ++
        '.' :: Decimal.paddedDigits places.toNat (n % 10 ^ places.toNat)

def signed (negative : Bool) (cs : List Char) : String :=
  String.ofList (if negative then '-' :: cs else cs)

/-- Without a power of ten, in as few digits as tell the double from all others. -/
def toText : Binary64 → String
  | finite negative mantissa exponent => signed negative (magnitudeChars mantissa exponent)
  | infinite negative => signed negative ['i', 'n', 'f']
  | nan => "NaN"

/-- The nearest whole number, a half going up; nothing for what is infinite. Negative numbers and
what is not a number count as zero. -/
def toNat? : Binary64 → Option Nat
  | finite true .. => some 0
  | finite false mantissa exponent =>
    let (num, den) := ratio mantissa exponent
    some ((2 * num + den) / (2 * den))
  | infinite true => some 0
  | infinite false => none
  | nan => some 0

end Binary64
end NameRegistry
