import NameRegistry.Proofs.Money

/-! # Amounts as whole numbers

Whatever makes an amount rounds it to the places of its currency, so that it is a whole number of
the currency's smallest unit, though it may be written with fewer places. While the results fit the
mantissa, amounts are added, subtracted and negated as these whole numbers are, and so by the same
laws, up to the way a number is written.
-/
namespace NameRegistry

theorem Decimal.units_neg (d : Decimal) : d.neg.units = -d.units := by
  obtain ⟨negative, mantissa, scale, hlt, hscale⟩ := d
  cases negative <;> simp [neg, units]

namespace Money

variable {a b c : Money} {cur : Currency} {m n k : Int}

/-- A number that the mantissa holds at the scale of the currency. -/
def Fits (n : Int) : Prop := n.natAbs < 2 ^ 96

instance (n : Int) : Decidable (Fits n) := inferInstanceAs (Decidable (_ < _))

theorem amountsTo_zero (cur : Currency) : (zero cur).AmountsTo cur 0 :=
  ⟨rfl, Nat.zero_le _, Decimal.unitsAt_of_isZero rfl⟩

/-- A decimal without further places keeps its value. -/
theorem amountsTo_round {d : Decimal} (h : d.scale ≤ cur.places)
    (hunits : d.unitsAt cur.places = n) : (round d cur).AmountsTo cur n := by
  refine ⟨rfl, isRounded_round d cur, ?_⟩
  rw [round, Decimal.roundTo_of_le h]
  exact hunits

theorem amountsTo_ofMinor (units : Int64) (cur : Currency) :
    (ofMinor units cur).AmountsTo cur units.toInt := by
  rw [ofMinor]
  split
  · next hwhole =>
    apply amountsTo_round (Nat.zero_le _)
    -- the quotient is exact, so its multiple is the number of units again
    have hmul : (units.toInt.natAbs / 10 ^ cur.places : Nat) * (10 : Int) ^ cur.places =
        units.toInt.natAbs := by
      exact_mod_cast Nat.div_mul_cancel (Nat.dvd_of_mod_eq_zero hwhole)
    rw [Decimal.unitsAt, Decimal.units, Nat.sub_zero]
    split
    · next hneg =>
      have := of_decide_eq_true hneg
      rw [Int.neg_mul, hmul]
      omega
    · next hpos =>
      have := of_decide_eq_false (Bool.eq_false_iff.2 hpos)
      rw [hmul]
      omega
  · apply amountsTo_round (Nat.le_refl _)
    rw [Decimal.unitsAt, Decimal.units_mk, Nat.sub_self, Int.pow_zero, Int.mul_one]

namespace AmountsTo

/-- Amounts are the same if they are the same whole number. -/
theorem same_iff (ha : a.AmountsTo cur m) (hb : b.AmountsTo cur n) : a.Same b ↔ m = n := by
  rw [Money.same_iff ha.isRounded hb.isRounded (ha.currency.trans hb.currency.symm), ha.minorUnits,
    hb.minorUnits]

theorem neg (ha : a.AmountsTo cur n) : a.neg.AmountsTo cur (-n) := by
  have hscale : a.amount.neg.scale ≤ a.currency.places := ha.isRounded
  have hround : a.neg = ⟨a.amount.neg, a.currency⟩ := by
    rw [Money.neg, round, Decimal.roundTo_of_le hscale]
  refine ⟨ha.currency, isRounded_round _ _, ?_⟩
  rw [hround, Money.minorUnits, Decimal.unitsAt, Decimal.units_neg, Int.neg_mul, ← ha.minorUnits]
  rfl

theorem exists_add (ha : a.AmountsTo cur m) (hb : b.AmountsTo cur n) (hfits : Fits (m + n)) :
    ∃ sum, a.add b = .ok sum ∧ sum.AmountsTo cur (m + n) := by
  obtain ⟨rfl, harounded, rfl⟩ := ha
  obtain ⟨hcurrency, hbrounded, rfl⟩ := hb
  exact Money.exists_add harounded hbrounded hcurrency hfits

theorem exists_sub (ha : a.AmountsTo cur m) (hb : b.AmountsTo cur n) (hfits : Fits (m - n)) :
    ∃ difference, a.sub b = .ok difference ∧ difference.AmountsTo cur (m - n) :=
  ha.exists_add hb.neg hfits

theorem exists_add_of_isZero (ha : a.AmountsTo cur m) (hb : b.AmountsTo cur n)
    (hzero : a.isZero = true ∨ b.isZero = true) :
    ∃ sum, a.add b = .ok sum ∧ sum.AmountsTo cur (m + n) := by
  obtain ⟨rfl, harounded, rfl⟩ := ha
  obtain ⟨hcurrency, hbrounded, rfl⟩ := hb
  exact Money.exists_add_of_isZero harounded hbrounded hcurrency hzero

end AmountsTo

/-- What the operations on amounts make, whatever amounts they are given. -/
inductive Produced : Money → Prop
  | round (d : Decimal) (cur : Currency) : Produced (round d cur)
  | ofMinor (units : Int64) (cur : Currency) : Produced (ofMinor units cur)
  | zero (cur : Currency) : Produced (zero cur)
  | neg (a : Money) : Produced a.neg
  | add {a b sum : Money} (h : a.add b = .ok sum) : Produced sum
  | sub {a b difference : Money} (h : a.sub b = .ok difference) : Produced difference

theorem isRounded_of_add {sum : Money} (h : a.add b = .ok sum) : sum.IsRounded := by
  rw [add] at h
  split at h
  · cases h
  · split at h
    · cases h
      exact isRounded_round _ _
    · cases h

theorem Produced.isRounded (h : Produced a) : a.IsRounded := by
  cases h with
  | round d cur => exact isRounded_round d cur
  | ofMinor units cur => exact isRounded_round _ cur
  | zero cur => exact Nat.zero_le _
  | neg a => exact isRounded_round _ _
  | add h => exact isRounded_of_add h
  | sub h => exact isRounded_of_add h

theorem exists_add_comm (ha : a.AmountsTo cur m) (hb : b.AmountsTo cur n) (hfits : Fits (m + n)) :
    ∃ sum sum', a.add b = .ok sum ∧ b.add a = .ok sum' ∧ sum.Same sum' := by
  obtain ⟨sum, hsum, hm⟩ := ha.exists_add hb hfits
  obtain ⟨sum', hsum', hm'⟩ := hb.exists_add ha (Int.add_comm m n ▸ hfits)
  exact ⟨sum, sum', hsum, hsum', (hm.same_iff hm').2 (Int.add_comm m n)⟩

theorem exists_add_assoc (ha : a.AmountsTo cur m) (hb : b.AmountsTo cur n) (hc : c.AmountsTo cur k)
    (hmn : Fits (m + n)) (hnk : Fits (n + k)) (hfits : Fits (m + n + k)) :
    ∃ ab bc sum sum', a.add b = .ok ab ∧ ab.add c = .ok sum ∧ b.add c = .ok bc ∧
      a.add bc = .ok sum' ∧
      sum.Same sum' := by
  obtain ⟨ab, hab, hm⟩ := ha.exists_add hb hmn
  obtain ⟨bc, hbc, hm'⟩ := hb.exists_add hc hnk
  obtain ⟨sum, hsum, htotal⟩ := hm.exists_add hc hfits
  obtain ⟨sum', hsum', htotal'⟩ := ha.exists_add hm' (Int.add_assoc m n k ▸ hfits)
  exact ⟨ab, bc, sum, sum', hab, hsum, hbc, hsum',
    (htotal.same_iff htotal').2 (Int.add_assoc m n k)⟩

/-- Zero is neutral for all amounts, also those so great that they do not fit at the scale of the
currency. -/
theorem exists_add_zero (ha : a.AmountsTo cur n) :
    ∃ sum sum', a.add (zero cur) = .ok sum ∧ sum.Same a ∧ (zero cur).add a = .ok sum' ∧
      sum'.Same a := by
  obtain ⟨sum, hsum, hm⟩ := ha.exists_add_of_isZero (amountsTo_zero cur) (.inr rfl)
  obtain ⟨sum', hsum', hm'⟩ := (amountsTo_zero cur).exists_add_of_isZero ha (.inl rfl)
  exact ⟨sum, sum', hsum, (hm.same_iff ha).2 (Int.add_zero n), hsum',
    (hm'.same_iff ha).2 (Int.zero_add n)⟩

theorem exists_add_neg (ha : a.AmountsTo cur n) :
    ∃ sum sum', a.add a.neg = .ok sum ∧ sum.Same (zero cur) ∧ a.neg.add a = .ok sum' ∧
      sum'.Same (zero cur) := by
  have hleft := Int.add_left_neg n
  have hright := Int.add_right_neg n
  obtain ⟨sum, hsum, hm⟩ := ha.exists_add ha.neg (hright ▸ by decide)
  obtain ⟨sum', hsum', hm'⟩ := ha.neg.exists_add ha (hleft ▸ by decide)
  exact ⟨sum, sum', hsum, (hm.same_iff (amountsTo_zero cur)).2 hright, hsum',
    (hm'.same_iff (amountsTo_zero cur)).2 hleft⟩

theorem ofMinor_same_iff {m n : Int64} : (ofMinor m cur).Same (ofMinor n cur) ↔ m = n := by
  rw [(amountsTo_ofMinor m cur).same_iff (amountsTo_ofMinor n cur), Int64.toInt_inj]

theorem exists_ofMinor_add {m n : Int64} (hfirst : -2 ^ 63 ≤ m.toInt + n.toInt)
    (hlast : m.toInt + n.toInt < 2 ^ 63) :
    ∃ sum, (ofMinor m cur).add (ofMinor n cur) = .ok sum ∧ sum.Same (ofMinor (m + n) cur) := by
  have hfits : Fits (m.toInt + n.toInt) := by
    rw [Fits]
    omega
  have hno_wrap : (m + n).toInt = m.toInt + n.toInt := by
    rw [Int64.toInt_add]
    exact Int.bmod_eq_of_le hfirst hlast
  obtain ⟨sum, hsum, hamounts⟩ :=
    (amountsTo_ofMinor m cur).exists_add (amountsTo_ofMinor n cur) hfits
  exact ⟨sum, hsum, (hamounts.same_iff (amountsTo_ofMinor (m + n) cur)).2 hno_wrap.symm⟩

/-- Amounts that the operations have made have no more places than their currency. Those of one
currency are added and subtracted without rounding while the results fit, and by the laws of whole
numbers: addition is commutative and associative, zero is neutral and the negated amount inverse, up
to the way a number is written. Amounts of whole minor units are as different as those, and add up
as they do. Amounts of different currencies are not added up. -/
theorem arithmetic_is_exact :
    (∀ a, Produced a → a.IsRounded) ∧
    (∀ a b, Produced a → Produced b → b.currency = a.currency →
      (Fits (a.minorUnits + b.minorUnits) →
        (∃ sum, a.add b = .ok sum ∧ sum.AmountsTo a.currency (a.minorUnits + b.minorUnits)) ∧
        ∃ sum sum', a.add b = .ok sum ∧ b.add a = .ok sum' ∧ sum.Same sum') ∧
      (Fits (a.minorUnits - b.minorUnits) →
        ∃ difference, a.sub b = .ok difference ∧
          difference.AmountsTo a.currency (a.minorUnits - b.minorUnits))) ∧
    (∀ a b c, Produced a → Produced b → Produced c → b.currency = a.currency →
      c.currency = a.currency →
      Fits (a.minorUnits + b.minorUnits) → Fits (b.minorUnits + c.minorUnits) →
      Fits (a.minorUnits + b.minorUnits + c.minorUnits) →
      ∃ ab bc sum sum', a.add b = .ok ab ∧ ab.add c = .ok sum ∧ b.add c = .ok bc ∧
        a.add bc = .ok sum' ∧
        sum.Same sum') ∧
    (∀ a, Produced a →
      (∃ sum sum', a.add (zero a.currency) = .ok sum ∧ sum.Same a ∧
        (zero a.currency).add a = .ok sum' ∧ sum'.Same a) ∧
      ∃ sum sum', a.add a.neg = .ok sum ∧ sum.Same (zero a.currency) ∧
        a.neg.add a = .ok sum' ∧ sum'.Same (zero a.currency)) ∧
    (∀ (cur : Currency) (m n : Int64), ((ofMinor m cur).Same (ofMinor n cur) ↔ m = n) ∧
      (-2 ^ 63 ≤ m.toInt + n.toInt → m.toInt + n.toInt < 2 ^ 63 →
        ∃ sum, (ofMinor m cur).add (ofMinor n cur) = .ok sum ∧ sum.Same (ofMinor (m + n) cur))) ∧
    ∀ a b : Money, a.currency ≠ b.currency →
      a.add b = .error (.currencyMismatch a.currency b.currency) ∧
      a.sub b = .error (.currencyMismatch a.currency b.currency) := by
  refine ⟨fun a ha => ha.isRounded, fun a b ha hb hcurrency => ⟨fun hfits => ?sum,
    fun hfits => ?difference⟩,
    fun a b c ha hb hc hb_currency hc_currency hab hbc habc => ?assoc, fun a ha => ?inverse,
    fun cur m n => ⟨ofMinor_same_iff, exists_ofMinor_add⟩,
      fun a b hne => ⟨add_of_currency_ne hne, ?mismatch⟩⟩
  case sum =>
    have hm := ha.isRounded.amountsTo rfl
    have hn := hb.isRounded.amountsTo hcurrency
    exact ⟨hm.exists_add hn hfits, exists_add_comm hm hn hfits⟩
  case difference =>
    exact (ha.isRounded.amountsTo rfl).exists_sub (hb.isRounded.amountsTo hcurrency) hfits
  case assoc =>
    exact exists_add_assoc (ha.isRounded.amountsTo rfl) (hb.isRounded.amountsTo hb_currency)
      (hc.isRounded.amountsTo hc_currency) hab hbc habc
  case inverse =>
    have hm := ha.isRounded.amountsTo rfl
    exact ⟨exists_add_zero hm, exists_add_neg hm⟩
  case mismatch => exact add_of_currency_ne (b := b.neg) hne

namespace Sample

/-- Almost half a cent more than eight dollars, which is rounded off. -/
def price : Money := round ⟨false, 80049, 4, by decide, by decide⟩ .usd

def discount : Money := ofMinor (-250) .usd

def cent : Money := ofMinor 1 .usd

end Sample

/-- A price of 8.00, less 2.50, and a cent more; the greatest number of minor units, less one. -/
theorem arithmetic_is_exact_sample : ∃ sum difference : Money,
    Fits (Sample.price.minorUnits + Sample.discount.minorUnits) ∧
    Sample.price.add Sample.discount = .ok sum ∧
    sum.minorUnits = 550 ∧ Sample.price.sub Sample.discount = .ok difference ∧
    difference.minorUnits = 1050 ∧
    (∃ left right total total', Sample.price.add Sample.discount = .ok left ∧
      left.add Sample.cent = .ok total ∧
      Sample.discount.add Sample.cent = .ok right ∧ Sample.price.add right = .ok total' ∧
      total.Same total') ∧
    (∃ zero', Sample.price.add Sample.price.neg = .ok zero' ∧ zero'.Same (zero .usd)) ∧
    (∃ less, (ofMinor 9223372036854775807 .jpy).add (ofMinor (-1) .jpy) = .ok less ∧
      less.Same (ofMinor (9223372036854775807 + -1) .jpy)) ∧
    Sample.price.sub (zero .eur) = .error (.currencyMismatch .usd .eur) := by
  obtain ⟨-, hpairs, hassoc, hunits, hminor, hmismatch⟩ := arithmetic_is_exact
  have hprice : Produced Sample.price := .round _ _
  have hdiscount : Produced Sample.discount := .ofMinor _ _
  have hcent : Produced Sample.cent := .ofMinor _ _
  obtain ⟨hadd, hsub⟩ := hpairs _ _ hprice hdiscount rfl
  obtain ⟨⟨sum, hsum, hamount⟩, -⟩ := hadd (by decide)
  obtain ⟨difference, hdifference, hamount'⟩ := hsub (by decide)
  obtain ⟨zero', -, hzero', hsame, -⟩ := (hunits _ hprice).2
  have hgroups := hassoc _ _ _ hprice hdiscount hcent rfl rfl (by decide) (by decide) (by decide)
  exact ⟨sum, difference, by decide, hsum, hamount.minorUnits.trans (by decide), hdifference,
    hamount'.minorUnits.trans (by decide), hgroups, ⟨zero', hzero', hsame⟩,
    (hminor .jpy _ _).2 (by decide) (by decide), (hmismatch _ _ (by decide)).2⟩

end Money
end NameRegistry
