import NameRegistry.Money

/-! # Exact sums

Amounts that have no more places than asked for are whole numbers of a common unit. A sum of two
that still fits as such a number is exact: no place is given up, and nothing is rounded. So amounts
of a currency that were rounded when they were made add up like whole numbers of its smallest
unit.
-/
namespace NameRegistry

namespace Decimal

variable {a b : Decimal} {places : Nat}

/-- The number in units of the given place. -/
def unitsAt (places : Nat) (d : Decimal) : Int := d.units * 10 ^ (places - d.scale)

theorem ten_pow_ne_zero (k : Nat) : (10 : Int) ^ k ≠ 0 := Int.pow_ne_zero (by decide)

theorem unitsAt_mul {d : Decimal} (h : d.scale ≤ places) :
    d.unitsAt places * 10 ^ d.scale = d.units * 10 ^ places := by
  rw [unitsAt, Int.mul_assoc, ← Int.pow_add, Nat.sub_add_cancel h]

theorem units_of_isZero {d : Decimal} (h : d.isZero = true) : d.units = 0 := by
  simp [units, show d.mantissa = 0 from of_decide_eq_true h]

theorem unitsAt_of_isZero {d : Decimal} (h : d.isZero = true) : d.unitsAt places = 0 := by
  rw [unitsAt, units_of_isZero h, Int.zero_mul]

/-- Decimals without further places are the same number if they are the same number of units. -/
theorem same_iff (ha : a.scale ≤ places) (hb : b.scale ≤ places) :
    a.Same b ↔ a.unitsAt places = b.unitsAt places := by
  have hscale : ∀ {d : Decimal} (k : Nat), d.scale ≤ places →
      d.unitsAt places * 10 ^ (d.scale + k) = d.units * 10 ^ k * 10 ^ places := by
    intro d k hd
    rw [Int.pow_add, ← Int.mul_assoc, unitsAt_mul hd, Int.mul_right_comm]
  have hb' := hscale a.scale hb
  rw [Nat.add_comm] at hb'
  rw [Same, ← Int.mul_eq_mul_right_iff (ten_pow_ne_zero places), ← hscale b.scale ha, ← hb']
  exact Int.mul_eq_mul_right_iff (ten_pow_ne_zero _)

theorem sumUnits_mul (ha : a.scale ≤ places) (hb : b.scale ≤ places) :
    sumUnits a b * 10 ^ (places - max a.scale b.scale) = a.unitsAt places + b.unitsAt places := by
  have hpart : ∀ {d : Decimal} {s : Nat}, d.scale ≤ s → s ≤ places →
      d.units * 10 ^ (s - d.scale) * 10 ^ (places - s) = d.unitsAt places := by
    intro d s hd hs
    rw [unitsAt, Int.mul_assoc, ← Int.pow_add]
    congr 2
    omega
  have hmax : max a.scale b.scale ≤ places := Nat.max_le.2 ⟨ha, hb⟩
  rw [sumUnits, Int.add_mul, hpart (Nat.le_max_left ..) hmax, hpart (Nat.le_max_right ..) hmax]

/-- A whole number that fits is kept with its sign. -/
theorem units_mk (n : Int) {scale : Nat} (hn : n.natAbs < 2 ^ 96) (hs : scale ≤ 28) :
    units ⟨decide (n < 0), n.natAbs, scale, hn, hs⟩ = n := by
  show (if decide (n < 0) = true then -(n.natAbs : Int) else n.natAbs) = n
  split
  · next h =>
    have hneg := of_decide_eq_true h
    omega
  · next h =>
    have hpos := Int.not_lt.1 (mt decide_eq_true h)
    omega

/-- A zero adds nothing. -/
theorem exists_add?_of_isZero (ha : a.scale ≤ places) (hb : b.scale ≤ places)
    (hzero : a.isZero = true ∨ b.isZero = true) : ∃ sum, a.add? b = some sum ∧
      sum.scale ≤ places ∧ sum.unitsAt places = a.unitsAt places + b.unitsAt places := by
  rw [add?]
  by_cases hza : a.isZero
  · refine ⟨b, if_pos hza, hb, ?_⟩
    rw [unitsAt_of_isZero hza, Int.zero_add]
  · have hzb := hzero.resolve_left hza
    refine ⟨a, ?_, ha, ?_⟩
    · rw [if_neg hza, if_pos hzb]
    · rw [unitsAt_of_isZero hzb, Int.add_zero]

/-- A sum that fits at these places is exact, and needs no more of them. -/
theorem exists_add? (ha : a.scale ≤ places) (hb : b.scale ≤ places)
    (hfits : (a.unitsAt places + b.unitsAt places).natAbs < 2 ^ 96) : ∃ sum, a.add? b = some sum ∧
      sum.scale ≤ places ∧ sum.unitsAt places = a.unitsAt places + b.unitsAt places := by
  by_cases hza : a.isZero
  · exact exists_add?_of_isZero ha hb (.inl hza)
  by_cases hzb : b.isZero
  · exact exists_add?_of_isZero ha hb (.inr hzb)
  have hsum := sumUnits_mul ha hb
  have hscale : max a.scale b.scale ≤ 28 := Nat.max_le.2 ⟨a.scale_le, b.scale_le⟩
  have hlt : (sumUnits a b).natAbs < 2 ^ 96 := by
    rw [← hsum, Int.natAbs_mul, Int.natAbs_pow] at hfits
    exact Nat.lt_of_le_of_lt (Nat.le_mul_of_pos_right _ (Nat.pow_pos (by decide))) hfits
  refine ⟨⟨decide (sumUnits a b < 0), (sumUnits a b).natAbs, max a.scale b.scale, hlt, hscale⟩, ?_,
    Nat.max_le.2 ⟨ha, hb⟩, ?_⟩
  · rw [add?, if_neg hza, if_neg hzb]
    exact fit_of_lt hscale hlt
  · rw [unitsAt, units_mk _ hlt hscale]
    exact hsum

end Decimal

namespace Money

variable {a b : Money}

/-- The amount has no more places than its currency, as every amount that was rounded when it was
made. -/
def IsRounded (m : Money) : Prop := m.amount.scale ≤ m.currency.places

instance (m : Money) : Decidable m.IsRounded := inferInstanceAs (Decidable (_ ≤ _))

theorem isRounded_round (d : Decimal) (c : Currency) : (round d c).IsRounded := scale_round_le d c

/-- The amount in the smallest unit of its currency. -/
def minorUnits (m : Money) : Int := m.amount.unitsAt m.currency.places

theorem same_iff (ha : a.IsRounded) (hb : b.IsRounded) (hcurrency : a.currency = b.currency) :
    a.Same b ↔ a.minorUnits = b.minorUnits := by
  rw [IsRounded, ← hcurrency] at hb
  rw [Same, and_iff_left hcurrency, minorUnits, minorUnits, ← hcurrency]
  exact Decimal.same_iff ha hb

/-- The amount is a whole number of the smallest units of the currency. -/
structure AmountsTo (a : Money) (cur : Currency) (n : Int) : Prop where
  currency : a.currency = cur
  isRounded : a.IsRounded
  minorUnits : a.minorUnits = n

theorem IsRounded.amountsTo {cur : Currency} (h : a.IsRounded) (hcurrency : a.currency = cur) :
    a.AmountsTo cur a.minorUnits :=
  ⟨hcurrency, h, rfl⟩

/-- The exact sum of the decimals, if it has no more places than the currency, is the sum of the
amounts. -/
theorem exists_add_of_add? (hcurrency : b.currency = a.currency)
    (h : ∃ sum, a.amount.add? b.amount = some sum ∧
      sum.scale ≤ a.currency.places ∧ sum.unitsAt a.currency.places =
        a.amount.unitsAt a.currency.places + b.amount.unitsAt a.currency.places) :
    ∃ sum, a.add b = .ok sum ∧ sum.AmountsTo a.currency (a.minorUnits + b.minorUnits) := by
  obtain ⟨sum, hsum, hscale, hunits⟩ := h
  have hround : round sum a.currency = ⟨sum, a.currency⟩ := by
    rw [round, Decimal.roundTo_of_le hscale]
  refine ⟨⟨sum, a.currency⟩, ?_, rfl, hscale, ?_⟩
  · rw [add, if_neg (not_not_intro hcurrency.symm), hsum, ← hround]
  · rw [minorUnits, minorUnits, minorUnits, hcurrency]
    exact hunits

/-- Amounts of one currency add up exactly while the sum fits. -/
theorem exists_add (ha : a.IsRounded) (hb : b.IsRounded) (hcurrency : b.currency = a.currency)
    (hfits : (a.minorUnits + b.minorUnits).natAbs < 2 ^ 96) : ∃ sum, a.add b = .ok sum ∧
      sum.AmountsTo a.currency (a.minorUnits + b.minorUnits) := by
  rw [IsRounded, hcurrency] at hb
  rw [minorUnits, minorUnits, hcurrency] at hfits
  exact exists_add_of_add? hcurrency (Decimal.exists_add? ha hb hfits)

/-- To add a zero never fails, however great the other amount. -/
theorem exists_add_of_isZero (ha : a.IsRounded) (hb : b.IsRounded)
    (hcurrency : b.currency = a.currency) (hzero : a.isZero = true ∨ b.isZero = true) :
    ∃ sum, a.add b = .ok sum ∧
      sum.AmountsTo a.currency (a.minorUnits + b.minorUnits) := by
  rw [IsRounded, hcurrency] at hb
  exact exists_add_of_add? hcurrency (Decimal.exists_add?_of_isZero ha hb hzero)

end Money
end NameRegistry
