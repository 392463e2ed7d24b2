import NameRegistry.Proofs.Money

/-! # What rounding leaves

An amount that was written down elsewhere may have more places than its currency. To round it
changes it by at most half a unit of the last place that is kept. What is left over then rounds to
nothing itself: less than half a unit is rounded off, and half a unit goes to its even neighbour,
which is zero. So an amount less itself is zero, although it is rounded before it is taken away and
the difference is rounded again.
-/
namespace NameRegistry

variable {num den : Nat}

/-- A half already goes down to zero. -/
theorem roundDiv_eq_zero_iff (hden : 0 < den) : roundDiv num den = 0 ↔ 2 * num ≤ den := by
  by_cases hlt : num < den
  · rw [roundDiv, Nat.div_eq_of_lt hlt, Nat.mod_eq_of_lt hlt]
    split <;> omega
  · have hdiv : 0 < num / den := Nat.div_pos (Nat.not_lt.1 hlt) hden
    rw [roundDiv]
    split <;> omega

/-- Rounding is off by at most half the divisor. -/
theorem two_mul_distance_roundDiv_le (num : Nat) (hden : 0 < den) :
    2 * ((num : Int) - roundDiv num den * den).natAbs ≤ den := by
  have hnum : num / den * den + num % den = num := Nat.div_add_mod' num den
  have hmod : num % den < den := Nat.mod_lt num hden
  rw [roundDiv]
  split
  · next hup =>
    have hhalf : den ≤ 2 * (num % den) := by omega
    rw [Int.natCast_succ, Int.add_mul, Int.one_mul, ← Int.natCast_mul]
    omega
  · rw [← Int.natCast_mul]
    omega

namespace Decimal

variable {d : Decimal} {places : Nat}

theorem scale_roundTo (places : Nat) (d : Decimal) :
    (d.roundTo places).scale = min d.scale places := by
  rw [roundTo]
  split
  · next h => exact (Nat.min_eq_left h).symm
  · next h => exact (Nat.min_eq_right (Nat.le_of_not_le h)).symm

/-- The mantissa is rounded as a whole number of the units that are kept, those of the last place if
all are kept. -/
theorem mantissa_roundTo (places : Nat) (d : Decimal) :
    (d.roundTo places).mantissa = roundDiv d.mantissa (10 ^ (d.scale - places)) := by
  rw [roundTo]
  split
  · next h => rw [Nat.sub_eq_zero_of_le h, Nat.pow_zero, roundDiv_one]
  · rfl

/-- What is not zero after rounding has kept its sign. -/
theorem units_roundTo (places : Nat) (d : Decimal) : (d.roundTo places).units =
    if d.negative then -((d.roundTo places).mantissa : Int) else (d.roundTo places).mantissa := by
  rw [roundTo]
  split
  · rfl
  · by_cases hm : roundDiv d.mantissa (10 ^ (d.scale - places)) = 0
    · simp [units, hm]
    · simp [units, hm]

theorem isZero_roundTo_iff :
    (d.roundTo places).isZero = true ↔ 2 * d.mantissa ≤ 10 ^ (d.scale - places) := by
  rw [isZero, decide_eq_true_eq, mantissa_roundTo, roundDiv_eq_zero_iff (Nat.pow_pos (by decide))]

/-- What a decimal and the rounded decimal of the other sign come to, in units of the last place. -/
theorem two_mul_sumUnits_neg_le (places : Nat) (d : Decimal) :
    2 * (sumUnits d (d.neg.roundTo places)).natAbs ≤ 10 ^ (d.scale - places) := by
  have hscale : (d.neg.roundTo places).scale = min d.scale places := scale_roundTo places d.neg
  have hmax : max d.scale (min d.scale places) = d.scale := Nat.max_eq_left (Nat.min_le_left _ _)
  have hkept : d.scale - min d.scale places = d.scale - places := by omega
  have hpow : 0 < 10 ^ (d.scale - places) := Nat.pow_pos (by decide)
  have hdistance := two_mul_distance_roundDiv_le d.mantissa hpow
  have hmantissa : (d.neg.roundTo places).mantissa =
      roundDiv d.mantissa (10 ^ (d.scale - places)) :=
    mantissa_roundTo places d.neg
  have hunits : d.units = if d.negative then -(d.mantissa : Int) else d.mantissa := rfl
  have hsign : d.neg.negative = !d.negative := rfl
  rw [sumUnits, hscale, hmax, hkept, units_roundTo, hmantissa, hunits, hsign, Nat.sub_self,
    Int.pow_zero, Int.mul_one]
  generalize roundDiv d.mantissa (10 ^ (d.scale - places)) = m at hdistance ⊢
  push_cast at hdistance
  cases d.negative with
  | false =>
    simp only [Bool.not_false, if_true, Bool.false_eq_true, if_false, Int.neg_mul]
    omega
  | true =>
    simp only [Bool.not_true, if_true, Bool.false_eq_true, if_false]
    omega

/-- A decimal and its rounded negation add up to something that rounds to zero. -/
theorem exists_add?_neg_roundTo (places : Nat) (d : Decimal) :
    ∃ sum, d.add? (d.neg.roundTo places) = some sum ∧ (sum.roundTo places).isZero = true := by
  have hrounded : (d.neg.roundTo places).isZero = true ↔ 2 * d.mantissa ≤ 10 ^ (d.scale - places) :=
    isZero_roundTo_iff (d := d.neg)
  -- a zero on either side is not added, the other amount stands as it is
  by_cases hd : d.isZero
  · refine ⟨d.neg.roundTo places, if_pos hd, ?_⟩
    rw [roundTo_of_le (scale_roundTo_le places d.neg), hrounded,
      show d.mantissa = 0 from of_decide_eq_true hd]
    exact Nat.zero_le _
  by_cases hneg : (d.neg.roundTo places).isZero
  · refine ⟨d, ?_, isZero_roundTo_iff.2 (hrounded.1 hneg)⟩
    rw [add?, if_neg hd, if_pos hneg]
  · have hresidue := two_mul_sumUnits_neg_le places d
    have hmax : max d.scale (d.neg.roundTo places).scale = d.scale := by
      rw [scale_roundTo]
      exact Nat.max_eq_left (Nat.min_le_left _ _)
    -- half a unit of the place that is kept has at most 28 digits
    have hlt : (sumUnits d (d.neg.roundTo places)).natAbs < 2 ^ 96 := by
      have hpow : 10 ^ (d.scale - places) ≤ 10 ^ 28 :=
        Nat.pow_le_pow_right (by decide) (Nat.le_trans (Nat.sub_le _ _) d.scale_le)
      omega
    refine ⟨⟨decide (sumUnits d (d.neg.roundTo places) < 0), _, d.scale, hlt, d.scale_le⟩, ?_,
      isZero_roundTo_iff.2 hresidue⟩
    rw [add?, if_neg hd, if_neg hneg]
    simp only [hmax]
    exact fit_of_lt d.scale_le hlt

end Decimal

namespace Money

theorem isNegative_of_isZero {m : Money} (h : m.isZero = true) : m.isNegative = false := by
  rw [isNegative, show m.amount.isZero = true from h, Bool.not_true, Bool.and_false]

/-- An amount less itself is zero, however great it is and however many places it has. -/
theorem exists_sub_self (m : Money) :
    ∃ rest, m.sub m = .ok rest ∧ rest.currency = m.currency ∧ rest.isZero = true := by
  obtain ⟨sum, hsum, hzero⟩ := Decimal.exists_add?_neg_roundTo m.currency.places m.amount
  refine ⟨round sum m.currency, ?_, rfl, hzero⟩
  have hadd : m.amount.add? m.neg.amount = some sum := hsum
  rw [sub, add, currency_neg, if_neg (not_not_intro rfl), hadd]

end Money
end NameRegistry
