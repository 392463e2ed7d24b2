import NameRegistry.Proofs.Calendar

/-! # Adding a period

Adding a period leads to the month that many months later, on the same day or the last of a shorter
month, at the same time of day. It fails exactly where the calendar does not have that month: a
count of years that 32 bits do not hold as months is cut off, but what is left of it is still more
than the calendar has.
-/
namespace NameRegistry

/-- The months of a period, however many they are. -/
def Period.months (p : Period) : Nat :=
  match p.unit with
  | .years => 12 * p.value.toNat
  | .months => p.value.toNat

/-- The months that are added are those of the period, if 32 bits hold them. -/
theorem Period.inMonths_eq (p : Period) : p.inMonths = min p.months (2 ^ 32 - 1) := by
  obtain ⟨value, unit⟩ := p
  cases unit with
  | years => rw [inMonths, months, monthsOfYears, Nat.mul_comm]
  | months =>
    have hvalue := value.toNat_lt
    show value.toNat = min value.toNat (2 ^ 32 - 1)
    omega

namespace Date

variable {a b : Date}

/-- Days are in the order of their months, and within a month in that of their numbers. -/
theorem toDays_le_iff (ha : a.Valid) (hb : b.Valid) :
    a.toDays ≤ b.toDays ↔ a.months < b.months ∨ a.months = b.months ∧ a.day ≤ b.day := by
  rcases Int.lt_trichotomy a.months b.months with h | h | h
  · exact iff_of_true (Int.le_of_lt (toDays_lt_of_months_lt ha hb h)) (.inl h)
  · obtain ⟨hyear, hmonth⟩ := eq_of_months_eq ha hb h
    rw [toDays, toDays, hyear, hmonth]
    omega
  · have hlt := toDays_lt_of_months_lt hb ha h
    omega

/-- The date some months later is settled by its month and its day. -/
theorem eq_addMonths_iff (hb : b.Valid) {n : Nat} : b = a.addMonths n ↔
    b.months = a.months + n ∧ b.day = min a.day (monthLength (isLeap b.year) b.month) := by
  constructor
  · rintro rfl
    exact ⟨months_addMonths a n, rfl⟩
  · rintro ⟨hmonths, hday⟩
    have hlt := hb.month_lt
    have hyear : (a.months + n) / 12 = b.year := by
      rw [← hmonths, months]
      omega
    have hmonth : ((a.months + n) % 12).toNat = b.month := by
      rw [← hmonths, months]
      omega
    rw [addMonths, hyear, hmonth, ← hday]

/-- Later dates stay later, or come to the same day, when months are added. -/
theorem toDays_addMonths_le (ha : a.Valid) (hb : b.Valid) (h : a.toDays ≤ b.toDays) (n : Nat) :
    (a.addMonths n).toDays ≤ (b.addMonths n).toDays := by
  rw [toDays_le_iff (addMonths_valid ha n) (addMonths_valid hb n), months_addMonths,
    months_addMonths]
  rcases (toDays_le_iff ha hb).1 h with hlt | ⟨heq, hday⟩
  · exact .inl (by omega)
  · refine .inr ⟨by rw [heq], ?_⟩
    simp only [addMonths, heq]
    omega

end Date

namespace Instant

variable {t u : Instant}

/-- A month, counted from January of year zero, in one of the years of the calendar. -/
def HasMonth (months : Int) : Prop := -262143 ≤ months / 12 ∧ months / 12 ≤ 262142

instance (months : Int) : Decidable (HasMonth months) := inferInstanceAs (Decidable (_ ∧ _))

theorem hasMonth_date (t : Instant) : HasMonth t.date.months := by
  have hyear := t.year_bounds
  have hmonth := t.date_valid.month_lt
  rw [HasMonth, Date.months]
  omega

theorem exists_addMonths?_iff {n : Nat} :
    (∃ u, t.addMonths? n = some u) ↔ HasMonth (t.date.months + n) := by
  constructor
  · rintro ⟨u, hu⟩
    have hmonths := Date.months_addMonths t.date n
    rw [← (addMonths?_eq_some.1 hu).1] at hmonths
    rw [← hmonths]
    exact u.hasMonth_date
  · rintro ⟨hfirst, hlast⟩
    exact exists_ofDate? t (Date.addMonths_valid t.date_valid n) hfirst hlast

/-- A count of months that is cut off is more than the calendar has, before and after. -/
theorem exists_addMonths?_inMonths_iff {p : Period} :
    (∃ u, t.addMonths? p.inMonths = some u) ↔ HasMonth (t.date.months + p.months) := by
  obtain ⟨hfirst, hlast⟩ := t.hasMonth_date
  rw [exists_addMonths?_iff, p.inMonths_eq, HasMonth, HasMonth]
  omega

theorem inMonths_eq_months {p : Period} (h : HasMonth (t.date.months + p.months)) :
    p.inMonths = p.months := by
  obtain ⟨hfirst, hlast⟩ := t.hasMonth_date
  obtain ⟨-, hle⟩ := h
  rw [p.inMonths_eq]
  omega

end Instant

namespace Period

open Instant (HasMonth)

variable {p : Period} {t u : Instant}

/-- A period is added as the months that it has. -/
theorem addTo_iff : p.addTo t = .ok u ↔ t.addMonths? p.months = some u := by
  have hadd : p.addTo t = .ok u ↔ t.addMonths? p.inMonths = some u := Instant.shift_eq_ok
  rw [hadd]
  constructor
  · intro h
    rwa [Instant.inMonths_eq_months (Instant.exists_addMonths?_inMonths_iff.1 ⟨u, h⟩)] at h
  · intro h
    rwa [Instant.inMonths_eq_months (Instant.exists_addMonths?_iff.1 ⟨u, h⟩)]

theorem exists_addTo_iff : (∃ u, p.addTo t = .ok u) ↔ HasMonth (t.date.months + p.months) :=
  (exists_congr fun _ => addTo_iff).trans Instant.exists_addMonths?_iff

theorem addTo_eq_error (h : ¬HasMonth (t.date.months + p.months)) :
    p.addTo t = .error (.outOfRange t (.months p.inMonths)) := by
  have hnone : t.shift? (.months p.inMonths) = none := by
    rw [Option.eq_none_iff_forall_ne_some]
    exact fun u hu => h (exists_addTo_iff.1 ⟨u, Instant.shift_eq_ok.2 hu⟩)
  rw [addTo, Instant.shift, hnone]

theorem addTo_eq_ok : p.addTo t = .ok u ↔ u.date.months = t.date.months + p.months ∧
    u.date.day = min t.date.day (Date.monthLength (Date.isLeap u.date.year) u.date.month) ∧
      u.timeOfDay = t.timeOfDay := by
  rw [addTo_iff, Instant.addMonths?_eq_some, Date.eq_addMonths_iff u.date_valid, and_assoc]

/-- Of two instants the later one has no earlier date after a period. -/
theorem toDays_addTo_le {t' u' : Instant} (hle : t ≤ t') (h : p.addTo t = .ok u)
    (h' : p.addTo t' = .ok u') : u.date.toDays ≤ u'.date.toDays := by
  obtain ⟨hdate, -⟩ := Instant.addMonths?_eq_some.1 (addTo_iff.1 h)
  obtain ⟨hdate', -⟩ := Instant.addMonths?_eq_some.1 (addTo_iff.1 h')
  rw [hdate, hdate']
  apply Date.toDays_addMonths_le t.date_valid t'.date_valid
  rw [Instant.toDays_date, Instant.toDays_date]
  rw [Instant.le_iff] at hle
  omega

/-- A longer period leads to a later instant. -/
theorem addTo_lt {p' : Period} {u' : Instant} (hlt : p.months < p'.months) (h : p.addTo t = .ok u)
    (h' : p'.addTo t = .ok u') : u < u' := by
  obtain ⟨hmonths, -⟩ := addTo_eq_ok.1 h
  obtain ⟨hmonths', -⟩ := addTo_eq_ok.1 h'
  apply Instant.lt_of_months_lt
  omega

/-- A period can be added to an instant exactly if the calendar has the month that many months
later, however many they are. The result is the instant of that month on the same day, or on the
last of a shorter month, at the same time of day. Where a count of years is cut off before it is
added, nothing is found. Later instants do not come to earlier dates, and longer periods come to
later instants. -/
theorem addTo_is_exact (p : Period) (t : Instant) :
    ((∃ u, p.addTo t = .ok u) ↔ HasMonth (t.date.months + p.months)) ∧
    (¬HasMonth (t.date.months + p.months) →
      p.addTo t = .error (.outOfRange t (.months p.inMonths))) ∧
    (∀ u, p.addTo t = .ok u ↔ u.date.months = t.date.months + p.months ∧
      u.date.day = min t.date.day (Date.monthLength (Date.isLeap u.date.year) u.date.month) ∧
        u.timeOfDay = t.timeOfDay) ∧
    (p.inMonths ≠ p.months → ¬HasMonth (t.date.months + p.months)) ∧
    (∀ t' u u', t ≤ t' → p.addTo t = .ok u → p.addTo t' = .ok u' → u.date.toDays ≤ u'.date.toDays) ∧
    ∀ (p' : Period) (u u' : Instant), p.months < p'.months → p.addTo t = .ok u →
      p'.addTo t = .ok u' → u < u' :=
  ⟨exists_addTo_iff, addTo_eq_error, fun _ => addTo_eq_ok,
    fun hcut hmonth => hcut (Instant.inMonths_eq_months hmonth),
    fun _ _ _ => toDays_addTo_le, fun _ _ _ => addTo_lt⟩

namespace Sample

/-- Noon of 30 January 2024. -/
def eve : Instant := ⟨19752 * 172800000000000 + 86400000000000, by decide, by decide, by decide⟩

/-- Noon of 31 January 2024. -/
def january : Instant := ⟨19753 * 172800000000000 + 86400000000000, by decide, by decide, by decide⟩

/-- Noon of the leap day of that year. -/
def february : Instant :=
  ⟨19782 * 172800000000000 + 86400000000000, by decide, by decide, by decide⟩

/-- Noon of 31 January 2025. -/
def nextJanuary : Instant :=
  ⟨20119 * 172800000000000 + 86400000000000, by decide, by decide, by decide⟩

end Sample

/-- A month after the end of January is the leap day, no earlier than a month after the day before,
and before a year after the end of January. As many years as there can be lead out of the
calendar. -/
theorem addTo_is_exact_sample :
    ∃ result, Sample.eve ≤ Sample.january ∧ addTo ⟨1, .months⟩ Sample.eve = .ok result ∧
    addTo ⟨1, .months⟩ Sample.january = .ok Sample.february ∧
    result.date.toDays ≤ Sample.february.date.toDays ∧
    addTo ⟨1, .years⟩ Sample.january = .ok Sample.nextJanuary ∧
    months ⟨1, .months⟩ < months ⟨1, .years⟩ ∧
    Sample.february < Sample.nextJanuary ∧
    inMonths ⟨4294967295, .years⟩ ≠ months ⟨4294967295, .years⟩ ∧
    addTo ⟨4294967295, .years⟩ Sample.january =
      .error (.outOfRange Sample.january (.months 4294967295)) := by
  obtain ⟨-, -, hok, -, -, hlonger⟩ := addTo_is_exact ⟨1, .months⟩ Sample.january
  obtain ⟨-, -, hok_year, -⟩ := addTo_is_exact ⟨1, .years⟩ Sample.january
  obtain ⟨-, hfails, -, hcut, -⟩ := addTo_is_exact ⟨4294967295, .years⟩ Sample.january
  obtain ⟨hexists, -, -, -, hlater, -⟩ := addTo_is_exact ⟨1, .months⟩ Sample.eve
  obtain ⟨result, hresult⟩ := hexists.2 (by decide +kernel)
  have hmonth := (hok Sample.february).2 (by decide +kernel)
  have hyear := (hok_year Sample.nextJanuary).2 (by decide +kernel)
  have hle : Sample.eve ≤ Sample.january := by decide
  have hlt : months ⟨1, .months⟩ < months ⟨1, .years⟩ := by decide
  have hne : inMonths ⟨4294967295, .years⟩ ≠ months ⟨4294967295, .years⟩ := by decide
  exact ⟨result, hle, hresult, hmonth, hlater _ _ _ hle hresult hmonth, hyear, hlt,
    hlonger _ _ _ hlt hmonth hyear, hne, hfails (hcut hne)⟩

end Period
end NameRegistry
