import Mathlib.Data.Set.Card
import NameRegistry.Proofs.Calendar.Periods

/-! # Years one by one and at once

Renewing year by year leads as far as renewing for all the years at once, and to the same day, but
for a leap day: the first step from it leads to the 28th of February, and no later step leads back.
The instants that are passed on the way fall in a calendar year each, so the years between two
instants bound their number.
-/
namespace NameRegistry

/-- The 29th of February. -/
def Date.IsLeapDay (d : Date) : Prop := d.month = 1 ∧ d.day = 29

instance (d : Date) : Decidable d.IsLeapDay := inferInstanceAs (Decidable (_ ∧ _))

namespace Instant

variable {t u v : Instant} {k : Nat}

theorem eq_of_date (hdate : t.date = u.date) (htime : t.timeOfDay = u.timeOfDay) : t = u := by
  have h := ofDate?_date t
  rw [hdate, htime, ofDate?_date] at h
  exact (Option.some.inj h).symm

namespace YearsLater

variable {years : Int}

/-- But for a leap day, the day stays the same. -/
theorem day_eq (h : YearsLater t u years) (hleap : ¬t.date.IsLeapDay) :
    u.date.day = t.date.day := by
  rcases h.day with hday | ⟨hfeb, hlast, -⟩
  · exact hday
  · exact absurd ⟨hfeb, hlast⟩ hleap

theorem date_eq (h : YearsLater t u years) :
    u.date = ⟨t.date.year + years, t.date.month, u.date.day⟩ := by
  rw [← h.year_eq, ← h.month_eq]

end YearsLater

theorem addYears_iff {n : UInt32} : t.addYears n = .ok u ↔ t.addMonths? (12 * n.toNat) = some u :=
  Period.addTo_iff (p := ⟨n, .years⟩)

theorem exists_addYears_iff {n : UInt32} :
    (∃ u, t.addYears n = .ok u) ↔ t.date.year + n.toNat ≤ 262142 := by
  have hfirst := t.year_bounds.1
  have hmonth := t.date_valid.month_lt
  simp only [addYears_iff]
  rw [exists_addMonths?_iff, HasMonth, Date.months]
  omega

theorem exists_addYears_one_iff : (∃ u, t.addYears 1 = .ok u) ↔ t.date.year + 1 ≤ 262142 :=
  exists_addYears_iff

theorem yearsLater_of_addYears {n : UInt32} (h : t.addYears n = .ok u) : YearsLater t u n.toNat :=
  yearsLater_of_addMonths? (addYears_iff.1 h)

/-- Years that are added at once lead from a leap day to the end of February. -/
theorem day_of_addYears {n : UInt32} (h : t.addYears n = .ok u) (hleap : t.date.IsLeapDay) :
    u.date.day = Date.monthLength (Date.isLeap (t.date.year + n.toNat)) 1 := by
  have hlater := yearsLater_of_addYears h
  obtain ⟨hdate, -⟩ := addMonths?_eq_some.1 (addYears_iff.1 h)
  obtain ⟨-, hday⟩ := (Date.eq_addMonths_iff u.date_valid).1 hdate
  rw [hday, hlater.year_eq, hlater.month_eq, hleap.1, hleap.2]
  cases Date.isLeap (t.date.year + n.toNat) <;> rfl

theorem exists_anniversary?_iff : (∃ u, t.anniversary? k = some u) ↔ t.date.year + k ≤ 262142 := by
  constructor
  · rintro ⟨u, hu⟩
    rw [← (yearsLater_of_anniversary? hu).year_eq]
    exact u.year_bounds.2
  · induction k with
    | zero => exact fun _ => ⟨t, rfl⟩
    | succ k ih =>
      intro hle
      obtain ⟨u, hu⟩ := ih (by omega)
      have hyear := (yearsLater_of_anniversary? hu).year_eq
      obtain ⟨v, hv⟩ := exists_addYears_one_iff.2 (show u.date.year + 1 ≤ 262142 by omega)
      refine ⟨v, ?_⟩
      rw [anniversary?_succ, hu, Option.bind_some, hv]
      rfl

/-- The first year leads from a leap day to the 28th, and there the later ones stay. -/
theorem day_of_anniversary?_succ (h : t.anniversary? (k + 1) = some u) (hleap : t.date.IsLeapDay) :
    u.date.day = 28 := by
  have hyear := (yearsLater_of_anniversary? h).year_eq
  have hbound := u.year_bounds.2
  obtain ⟨v, hv⟩ := exists_addYears_one_iff.2 (show t.date.year + 1 ≤ 262142 by omega)
  have hlong : 29 ≤ Date.monthLength (Date.isLeap t.date.year) 1 := by
    have hday := t.date_valid.day_le
    rwa [hleap.1, hleap.2] at hday
  have hday : v.date.day = 28 :=
    (day_of_addYears hv hleap).trans (Date.monthLength_february_succ hlong)
  -- on the 28th no later step has a leap day to lose
  have hno_leap : ¬v.date.IsLeapDay := fun hlast => absurd (hday.symm.trans hlast.2) (by decide)
  rw [anniversary?_next hv] at h
  rw [(yearsLater_of_anniversary? h).day_eq hno_leap, hday]

theorem exists_anniversary?_iff_addYears {n : UInt32} :
    (∃ v, t.anniversary? n.toNat = some v) ↔ ∃ u, t.addYears n = .ok u := by
  rw [exists_anniversary?_iff, exists_addYears_iff]

/-- From no leap day, or to a year that has none, the years lead to the same instant either way. -/
theorem anniversary?_eq_addYears {n : UInt32} (hn : 1 ≤ n) (hv : t.anniversary? n.toNat = some v)
    (hu : t.addYears n = .ok u)
    (h : ¬(t.date.IsLeapDay ∧ Date.isLeap (t.date.year + n.toNat) = true)) : v = u := by
  have hlater := yearsLater_of_anniversary? hv
  have hlater' := yearsLater_of_addYears hu
  apply eq_of_date ?_ (hlater.timeOfDay.trans hlater'.timeOfDay.symm)
  have hday : v.date.day = u.date.day := by
    by_cases hleap : t.date.IsLeapDay
    · have hcommon : Date.isLeap (t.date.year + n.toNat) = false :=
        Bool.eq_false_iff.2 fun hyear => h ⟨hleap, hyear⟩
      obtain ⟨k, hk⟩ := Nat.exists_eq_add_of_le' (show 1 ≤ n.toNat from hn)
      rw [hk] at hv
      rw [day_of_anniversary?_succ hv hleap, day_of_addYears hu hleap, hcommon]
      rfl
    · rw [hlater.day_eq hleap, hlater'.day_eq hleap]
  rw [hlater.date_eq, hlater'.date_eq, hday]

/-- From a leap day to a leap year, the years lead to the 28th one by one and to the 29th at
once. -/
theorem dates_of_isLeapDay {n : UInt32} (hn : 1 ≤ n) (hv : t.anniversary? n.toNat = some v)
    (hu : t.addYears n = .ok u) (hleap : t.date.IsLeapDay)
    (hyear : Date.isLeap (t.date.year + n.toNat) = true) :
    v.date = ⟨t.date.year + n.toNat, 1, 28⟩ ∧ u.date = ⟨t.date.year + n.toNat, 1, 29⟩ := by
  obtain ⟨k, hk⟩ := Nat.exists_eq_add_of_le' (show 1 ≤ n.toNat from hn)
  have hday := day_of_addYears hu hleap
  rw [hyear] at hday
  rw [(yearsLater_of_anniversary? hv).date_eq, (yearsLater_of_addYears hu).date_eq, hleap.1, hday]
  rw [hk] at hv
  rw [day_of_anniversary?_succ hv hleap]
  exact ⟨rfl, rfl⟩

theorem year_le_year (h : t ≤ u) : t.date.year ≤ u.date.year := by
  apply Int.not_lt.1
  intro hlt
  have hmonth := u.date_valid.month_lt
  have hlater : u < t := lt_of_months_lt (by simp only [Date.months]; omega)
  exact Int.not_le.2 hlater h

/-- The instant itself and its anniversaries that are not after another instant. -/
def anniversariesTo (t u : Instant) : Set Instant := {v | (∃ k, t.anniversary? k = some v) ∧ v ≤ u}

/-- No two of them fall in one year. -/
theorem anniversariesTo_subset (t u : Instant) : anniversariesTo t u ⊆
    (fun k => (t.anniversary? k).getD t) ''
      (Finset.range (u.date.year - t.date.year + 1).toNat : Set Nat) := by
  rintro v ⟨⟨k, hk⟩, hle⟩
  have hyear := (yearsLater_of_anniversary? hk).year_eq
  have hbound := year_le_year hle
  refine ⟨k, ?_, by simp [hk]⟩
  rw [Finset.mem_coe, Finset.mem_range]
  omega

theorem finite_anniversariesTo (t u : Instant) : (anniversariesTo t u).Finite :=
  ((Finset.finite_toSet _).image _).subset (anniversariesTo_subset t u)

theorem ncard_anniversariesTo_le (h : t ≤ u) :
    ((anniversariesTo t u).ncard : Int) ≤ u.date.year - t.date.year + 1 := by
  have hfinite := (Finset.finite_toSet (Finset.range (u.date.year - t.date.year + 1).toNat)).image
    fun k => (t.anniversary? k).getD t
  have hle := (Set.ncard_le_ncard (anniversariesTo_subset t u) hfinite).trans
    (Set.ncard_image_le (Finset.finite_toSet _))
  rw [Set.ncard_coe_finset, Finset.card_range] at hle
  have hyear := year_le_year h
  omega

/-- Years can be added one by one exactly if they can be added at once, and lead to the same
instant, but from a leap day to a leap year: there the years one by one lead to 28 February, and at
once to the 29th, at the same time of day. One by one, each instant is later than those before it.
So of the instant itself and those that follow it, there are not more up to another instant than
calendar years. -/
theorem years_one_by_one (t : Instant) (n : UInt32) (hn : 1 ≤ n) :
    ((∃ v, t.anniversary? n.toNat = some v) ↔ ∃ u, t.addYears n = .ok u) ∧
    (∀ v u, t.anniversary? n.toNat = some v → t.addYears n = .ok u →
      (¬(t.date.IsLeapDay ∧ Date.isLeap (t.date.year + n.toNat) = true) → v = u) ∧
      (t.date.IsLeapDay ∧ Date.isLeap (t.date.year + n.toNat) = true →
        v.date = ⟨t.date.year + n.toNat, 1, 28⟩ ∧ u.date = ⟨t.date.year + n.toNat, 1, 29⟩ ∧
          v.timeOfDay = t.timeOfDay ∧ u.timeOfDay = t.timeOfDay)) ∧
    (∀ j k v w, j < k → t.anniversary? j = some v → t.anniversary? k = some w → v < w) ∧
    ∀ u, t ≤ u → (anniversariesTo t u).Finite ∧
      ((anniversariesTo t u).ncard : Int) ≤ u.date.year - t.date.year + 1 := by
  refine ⟨exists_anniversary?_iff_addYears,
    fun v u hv hu => ⟨anniversary?_eq_addYears hn hv hu, ?_⟩,
    fun _ _ _ _ => lt_of_anniversary?,
      fun u hle => ⟨finite_anniversariesTo t u, ncard_anniversariesTo_le hle⟩⟩
  rintro ⟨hleap, hyear⟩
  obtain ⟨hv_date, hu_date⟩ := dates_of_isLeapDay hn hv hu hleap hyear
  exact ⟨hv_date, hu_date, (yearsLater_of_anniversary? hv).timeOfDay,
    (yearsLater_of_addYears hu).timeOfDay⟩

namespace Sample

/-- Midnight of 29 February 2000. -/
def leapDay : Instant := ⟨11016 * 172800000000000, by decide, by decide, by decide⟩

/-- Midnight of 1 January 2002. -/
def newYear : Instant := ⟨11688 * 172800000000000, by decide, by decide, by decide⟩

end Sample

/-- Four years after the leap day of 2000 it is 28 February 2004 if they are added one by one, and
the 29th if at once. After the first year it is the same day either way. -/
theorem years_one_by_one_sample :
    ∃ first v u, (1 : UInt32) ≤ 1 ∧ Sample.leapDay.anniversary? 1 = some first ∧
    Sample.leapDay.addYears 1 = .ok first ∧ (1 : UInt32) ≤ 4 ∧
    Sample.leapDay.anniversary? 4 = some v ∧
    Sample.leapDay.addYears 4 = .ok u ∧ v.date = ⟨2004, 1, 28⟩ ∧
    u.date = ⟨2004, 1, 29⟩ ∧ first < v ∧
    Sample.leapDay ≤ Sample.newYear ∧
    (anniversariesTo Sample.leapDay Sample.newYear).ncard ≤ 3 := by
  have hle : Sample.leapDay ≤ Sample.newYear := by decide
  obtain ⟨hstep, hone, -, -⟩ := years_one_by_one Sample.leapDay 1 (by decide)
  obtain ⟨hiff, hfour, hincreasing, hcount⟩ := years_one_by_one Sample.leapDay 4 (by decide)
  obtain ⟨first, hfirst⟩ :=
    exists_addYears_one_iff.2 (show Sample.leapDay.date.year + 1 ≤ 262142 by decide +kernel)
  obtain ⟨u, hu⟩ : ∃ u, Sample.leapDay.addYears 4 = .ok u :=
    exists_addYears_iff.2 (by decide +kernel)
  obtain ⟨first', hfirst'⟩ := hstep.2 ⟨first, hfirst⟩
  obtain ⟨v, hv⟩ := hiff.2 ⟨u, hu⟩
  obtain rfl := (hone _ _ hfirst' hfirst).1 (by decide +kernel)
  obtain ⟨hv_date, hu_date, -⟩ := (hfour _ _ hv hu).2 (by decide +kernel)
  have hyear : Sample.leapDay.date.year = 2000 := by decide +kernel
  rw [hyear] at hv_date hu_date
  obtain ⟨-, hbound⟩ := hcount _ hle
  rw [hyear, show Sample.newYear.date.year = 2002 by decide +kernel] at hbound
  exact ⟨_, v, u, by decide, hfirst', hfirst, by decide, hv, hu, hv_date, hu_date,
    hincreasing 1 4 _ _ (by decide) hfirst' hv, hle, by omega⟩

end Instant

end NameRegistry
