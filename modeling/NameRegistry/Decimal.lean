/-! # Decimal amounts

An amount is a sign, a mantissa of 96 bits and a scale of at most 28 places. The scale belongs to
the value: `8.0` and `8.00` are the same number, written differently. So does the sign of zero.
Sums are exact while they fit; a sum that does not fit gives up places, rounding a half to the even
neighbour, and one that does not fit without any places has no value here.
-/
namespace NameRegistry

-- Powers of numbers are those of the core library, whatever else defines powers where they are
-- read.
attribute [instance (high)] instPowNat
attribute [default_instance 20000] instPowNat

/-- The number `± mantissa / 10 ^ scale`. -/
structure Decimal where
  negative : Bool
  mantissa : Nat
  scale : Nat
  mantissa_lt : mantissa < 2 ^ 96
  scale_le : scale ≤ 28
  deriving DecidableEq

/-- The quotient rounded to the nearest whole number, a half to the even one. -/
def roundDiv (num den : Nat) : Nat :=
  if den < 2 * (num % den) ∨ 2 * (num % den) = den ∧ num / den % 2 = 1 then num / den + 1
  else num / den

theorem roundDiv_one (num : Nat) : roundDiv num 1 = num := by simp [roundDiv, Nat.mod_one]

theorem roundDiv_le (num den : Nat) : roundDiv num den ≤ num := by
  have hr : num / den * den + num % den = num := Nat.div_add_mod' num den
  by_cases hden : den ≤ 1
  · rcases Nat.le_one_iff_eq_zero_or_eq_one.1 hden with rfl | rfl
    · simp only [roundDiv, Nat.mod_zero, Nat.div_zero]
      split <;> omega
    · exact Nat.le_of_eq (roundDiv_one num)
  · have h2 : num / den * 2 ≤ num / den * den := Nat.mul_le_mul_left _ (by omega)
    rw [roundDiv]
    split <;> omega

namespace Decimal

def zero : Decimal := ⟨false, 0, 0, by decide, by decide⟩

def isZero (d : Decimal) : Bool := d.mantissa = 0

/-- The number in units of its last place. -/
def units (d : Decimal) : Int := if d.negative then -d.mantissa else d.mantissa

/-- Whether two decimals are the same number, whatever their scales and signs of zero. -/
def Same (a b : Decimal) : Prop := a.units * 10 ^ b.scale = b.units * 10 ^ a.scale

instance (a b : Decimal) : Decidable (Same a b) := inferInstanceAs (Decidable (_ = _))

/-- Flips the sign, also of zero. -/
def neg (d : Decimal) : Decimal := { d with negative := !d.negative }

/-- Drops the places after the given one, rounding a half to the even neighbour. Never adds places.
What rounds to zero loses its sign; a zero keeps it. -/
def roundTo (places : Nat) (d : Decimal) : Decimal :=
  if h : d.scale ≤ places then d
  else
    let m := roundDiv d.mantissa (10 ^ (d.scale - places))
    { negative := d.negative && (m ≠ 0 || d.mantissa = 0)
      mantissa := m
      scale := places
      mantissa_lt := Nat.lt_of_le_of_lt (roundDiv_le ..) d.mantissa_lt
      scale_le := by have := d.scale_le; omega }

/-- The decimal with these parts, unless the mantissa or the scale is out of bounds. -/
def ofParts? (negative : Bool) (mantissa scale : Nat) : Option Decimal :=
  if h : mantissa < 2 ^ 96 ∧ scale ≤ 28 then some ⟨negative, mantissa, scale, h.1, h.2⟩ else none

/-- An exact number `m / 10 ^ scale` at the largest scale, from `places` down, at which it fits. -/
def fit (negative : Bool) (m scale : Nat) : (places : Nat) → Option Decimal
  | 0 => ofParts? negative (roundDiv m (10 ^ scale)) 0
  | places + 1 =>
    (ofParts? negative (roundDiv m (10 ^ (scale - (places + 1)))) (places + 1)).or
      (fit negative m scale places)

/-- The exact sum in units of the finer of the two last places. -/
def sumUnits (a b : Decimal) : Int :=
  let scale := max a.scale b.scale
  a.units * 10 ^ (scale - a.scale) + b.units * 10 ^ (scale - b.scale)

/-- The sum. A zero leaves the other operand exactly as it is, also its scale and sign. -/
def add? (a b : Decimal) : Option Decimal :=
  if a.isZero then some b
  else if b.isZero then some a
  else
    let sum := sumUnits a b
    let scale := max a.scale b.scale
    fit (sum < 0) sum.natAbs scale scale

theorem ofParts?_eq_some {negative : Bool} {m scale : Nat} (hm : m < 2 ^ 96) (hs : scale ≤ 28) :
    ofParts? negative m scale = some ⟨negative, m, scale, hm, hs⟩ := dif_pos ⟨hm, hs⟩

/-- A number that fits at its scale is kept exactly. -/
theorem fit_of_lt {negative : Bool} {m scale : Nat} (hs : scale ≤ 28) (hm : m < 2 ^ 96) :
    fit negative m scale scale = some ⟨negative, m, scale, hm, hs⟩ := by
  cases scale with
  | zero => simp only [fit, Nat.pow_zero, roundDiv_one, ofParts?_eq_some hm hs]
  | succ scale =>
    simp only [fit, Nat.sub_self, Nat.pow_zero, roundDiv_one, ofParts?_eq_some hm hs, Option.or]

theorem roundTo_of_le {places : Nat} {d : Decimal} (h : d.scale ≤ places) :
    d.roundTo places = d := by
  simp [roundTo, h]

theorem scale_roundTo_le (places : Nat) (d : Decimal) : (d.roundTo places).scale ≤ places := by
  rw [roundTo]
  split
  · assumption
  · exact Nat.le_refl _

end Decimal
end NameRegistry
