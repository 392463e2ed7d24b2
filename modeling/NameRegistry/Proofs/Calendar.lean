import NameRegistry.Period

/-! # Years of the calendar

A step of one year leads to the next year of the calendar. The calendar has 524286 years, so the
steps that lead on from an instant are numbered by the years that are left.

Whole years keep the month and, but for the leap day, the day: it may become the 28th of February on
the way, and then stays so. So years can be counted over any number of steps, and a period that is
counted on by way of the next year leads to the same day as when it is counted at once, but that it
leads from a leap day to the 28th where there is a 29th. For the same reason a year after the
earlier of two instants can come after a year after the later one: if that falls on a leap day, and
the earlier one on its eve.
-/
namespace NameRegistry

/-- Months have one length each, but for February. -/
theorem Date.monthLength_le_or (leap leap' : Bool) {month : Nat} (h : month < 12) :
    monthLength leap month ≤ monthLength leap' month ∨
      month = 1 ∧ monthLength leap month = 29 ∧ monthLength leap' month = 28 := by
  have key : ∀ leap leap' : Bool, ∀ month < 12, monthLength leap month ≤ monthLength leap' month ∨
      month = 1 ∧ monthLength leap month = 29 ∧ monthLength leap' month = 28 := by decide
  exact key leap leap' month h

theorem Date.le_monthLength (leap : Bool) {month : Nat} (h : month < 12) :
    28 ≤ monthLength leap month := by
  have key : ∀ leap : Bool, ∀ month < 12, 28 ≤ monthLength leap month := by decide
  exact key leap month h

/-- The year after a leap year has no leap day. -/
theorem Date.monthLength_february_succ {year : Int} (h : 29 ≤ monthLength (isLeap year) 1) :
    monthLength (isLeap (year + 1)) 1 = 28 := by
  have hleap : isLeap year = true := by
    cases hy : isLeap year with
    | true => rfl
    | false =>
      rw [hy] at h
      exact absurd h (by decide)
  have hnext : isLeap (year + 1) = false := by
    simp only [isLeap, Bool.and_eq_true, decide_eq_true_eq, Bool.and_eq_false_iff,
      decide_eq_false_iff_not] at hleap ⊢
    omega
  rw [hnext]
  rfl

/-- The day a year later is the same, or the last of a shorter month. -/
theorem Date.Valid.day_addMonths_year {d : Date} (h : d.Valid) :
    (d.addMonths 12).day = min d.day (monthLength (isLeap (d.year + 1)) d.month) := by
  have hyear : (d.months + ((12 : Nat) : Int)) / 12 = d.year + 1 := by
    have := h.month_lt
    rw [months]
    omega
  have hmonth : ((d.months + ((12 : Nat) : Int)) % 12).toNat = d.month := by
    have := h.month_lt
    rw [months]
    omega
  rw [addMonths, hyear, hmonth]

/-- The day that is meant where a leap day is counted on by way of the next year, which has none: a
29th is the 28th then. -/
def Date.pastLeapDay (start d : Date) : Date :=
  if start.month = 1 ∧ start.day = 29 ∧ d.day = 29 then { d with day := 28 } else d

/-- To add a year first makes a difference on the leap day only. -/
theorem Date.addMonths_addMonths_year {d : Date} (h : d.Valid) (n : Nat) :
    (d.addMonths 12).addMonths n = d.pastLeapDay (d.addMonths (12 + n)) := by
  have hmonths : d.months + ((12 : Nat) : Int) + n = d.months + ((12 + n : Nat) : Int) := by omega
  rw [addMonths, months_addMonths, hmonths, h.day_addMonths_year]
  generalize hlength : monthLength (isLeap ((d.months + ((12 + n : Nat) : Int)) / 12))
    ((d.months + ((12 + n : Nat) : Int)) % 12).toNat = length
  have hshort : 28 ≤ length := by
    rw [← hlength]
    exact le_monthLength _ (by omega)
  rw [pastLeapDay, addMonths, hlength]
  have hle := h.day_le
  by_cases hleap : d.month = 1 ∧ d.day = 29
  · obtain ⟨hfeb, hlast⟩ := hleap
    rw [hfeb, hlast] at hle
    rw [hfeb, hlast, monthLength_february_succ hle, Nat.min_eq_right (by decide : 28 ≤ 29),
      Nat.min_eq_left hshort]
    split
    · rfl
    · next hcond =>
      have hnot : min 29 length ≠ 29 := fun heq => hcond ⟨rfl, rfl, heq⟩
      rw [mk.injEq]
      exact ⟨rfl, rfl, by omega⟩
  · rw [if_neg fun hcond => hleap ⟨hcond.1, hcond.2.1⟩, mk.injEq]
    refine ⟨rfl, rfl, ?_⟩
    rcases monthLength_le_or (isLeap d.year) (isLeap (d.year + 1)) h.month_lt
      with hlen | ⟨hfeb, hlong, hlen⟩
    · rw [Nat.min_eq_left (Nat.le_trans hle hlen)]
    · have : d.day ≠ 29 := fun hlast => hleap ⟨hfeb, hlast⟩
      omega

theorem Date.addMonths_zero {d : Date} (h : d.Valid) : d.addMonths 0 = d := by
  have hyear : (d.months + (0 : Nat)) / 12 = d.year := by
    have := h.month_lt
    rw [months]
    omega
  have hmonth : ((d.months + (0 : Nat)) % 12).toNat = d.month := by
    have := h.month_lt
    rw [months]
    omega
  rw [addMonths, hyear, hmonth, Nat.min_eq_left h.day_le]

theorem Date.eq_of_months_eq {a b : Date} (ha : a.Valid) (hb : b.Valid) (h : a.months = b.months) :
    a.year = b.year ∧ a.month = b.month := by
  have := ha.month_lt
  have := hb.month_lt
  rw [months, months] at h
  omega

namespace Instant

theorem yearStart_le_yearStart {a b : Int} (h : a ≤ b) : Date.yearStart a ≤ Date.yearStart b := by
  rcases Int.lt_or_eq_of_le h with h | rfl
  · have := Date.yearStart_lt_yearStart h
    omega
  · exact Int.le_refl _

/-- The years after that of the instant. -/
def yearsLeft (t : Instant) : Nat := (262142 - t.date.year).toNat

theorem year_bounds (t : Instant) : -262143 ≤ t.date.year ∧ t.date.year ≤ 262142 := by
  have h1 := Date.yearStart_yearOf_le (t.ticks / 172800000000000 + epochDay)
  have h2 := Date.lt_yearStart_yearOf_succ (t.ticks / 172800000000000 + epochDay)
  change Date.yearStart t.date.year ≤ _ at h1
  change _ < Date.yearStart (t.date.year + 1) at h2
  have hfirst : Date.yearStart (-262143) = -95745764 := by decide
  have hend : Date.yearStart 262143 = 95745765 := by decide
  have hlo := t.first_le
  have hhi := t.lt_end
  rw [epochDay] at h1 h2
  constructor
  · apply Int.not_lt.1
    intro hlt
    have := yearStart_le_yearStart (show t.date.year + 1 ≤ -262143 by omega)
    omega
  · apply Int.not_lt.1
    intro hlt
    have := yearStart_le_yearStart (show 262143 ≤ t.date.year by omega)
    omega

theorem yearsLeft_le (t : Instant) : t.yearsLeft ≤ 524285 := by
  have := t.year_bounds
  rw [yearsLeft]
  omega

theorem year_of_addYears_one {t u : Instant} (h : t.addYears 1 = .ok u) :
    u.date.year = t.date.year + 1 := by
  obtain ⟨hd, -⟩ := addMonths?_eq_some.1 (shift_eq_ok.1 h)
  have hm : u.date.months = t.date.months + (12 : Nat) := hd ▸ Date.months_addMonths _ _
  have h1 := t.date_valid.month_lt
  have h2 := u.date_valid.month_lt
  simp only [Date.months] at hm
  omega

/-- A step of one year takes one of the years that are left. -/
theorem yearsLeft_of_addYears_one {t u : Instant} (h : t.addYears 1 = .ok u) :
    u.yearsLeft + 1 = t.yearsLeft := by
  have := year_of_addYears_one h
  have := u.year_bounds
  rw [yearsLeft, yearsLeft]
  omega

theorem addMonths?_zero (t : Instant) : t.addMonths? 0 = some t := by
  rw [addMonths?, Date.addMonths_zero t.date_valid, ofDate?_date]

theorem le_of_addMonths? {t u : Instant} {n : Nat} (h : t.addMonths? n = some u) : t ≤ u := by
  rcases Nat.eq_zero_or_pos n with rfl | hn
  · cases (addMonths?_zero t).symm.trans h
    exact Int.le_refl _
  · exact Int.le_of_lt (lt_of_addMonths? hn h)

/-- In a later month the same time of day is at least a day later. -/
theorem add_day_le_of_months_lt {t u : Instant} (h : t.date.months < u.date.months)
    (htime : u.timeOfDay = t.timeOfDay) : t.ticks + 172800000000000 ≤ u.ticks := by
  have hd := Date.toDays_lt_of_months_lt t.date_valid u.date_valid h
  rw [toDays_date, toDays_date] at hd
  rw [timeOfDay, timeOfDay] at htime
  omega

theorem add_day_le_of_addMonths? {t u : Instant} {n : Nat} (hn : 0 < n)
    (h : t.addMonths? n = some u) : t.ticks + 172800000000000 ≤ u.ticks := by
  obtain ⟨hdate, htime⟩ := addMonths?_eq_some.1 h
  apply add_day_le_of_months_lt ?_ htime
  rw [hdate, Date.months_addMonths]
  omega

/-- A millisecond back is back by no more than that and a leap second. -/
theorem subMillis?_one {t u : Instant} (h : t.subMillis? 1 = some u) :
    u < t ∧ t.ticks ≤ u.ticks + 1001000000 := by
  rw [lt_iff]
  rw [subMillis?, place] at h
  split at h
  · rw [ofTicks?_eq_some] at h
    omega
  · rw [ofNanos?, ofTicks?_eq_some, second] at h
    omega

/-- A day of one of the calendar's years and a time of day of the calendar are an instant. -/
theorem exists_ofDate? (t : Instant) {d : Date} (h : d.Valid) (hfirst : -262143 ≤ d.year)
    (hlast : d.year ≤ 262142) : ∃ u, ofDate? d t.timeOfDay = some u := by
  have hfrom : Date.yearStart (-262143) ≤ Date.yearStart d.year := yearStart_le_yearStart hfirst
  have hto : Date.yearStart (d.year + 1) ≤ Date.yearStart 262143 :=
    yearStart_le_yearStart (by omega)
  have hlen := Date.monthStart_add_monthLength_le (Date.isLeap d.year) h.month_lt
  have hone := h.one_le_day
  have hday := h.day_le
  rw [Date.yearStart_succ, show Date.yearStart 262143 = 95745765 by decide] at hto
  rw [show Date.yearStart (-262143) = -95745764 by decide] at hfrom
  have hleap := t.leap_at
  have hlow : -95745764 ≤ d.toDays := by
    rw [Date.toDays]
    omega
  have hhigh : d.toDays < 95745765 := by
    rw [Date.toDays]
    omega
  have hticks : -16669202457600000000000 ≤ (d.toDays - epochDay) * 172800000000000 + t.timeOfDay ∧
      (d.toDays - epochDay) * 172800000000000 + t.timeOfDay < 16420533753600000000000 ∧
      (1000000000 ≤ ((d.toDays - epochDay) * 172800000000000 + t.timeOfDay) % 2000000000 →
        ((d.toDays - epochDay) * 172800000000000 + t.timeOfDay) / 2000000000 % 60 = 59) := by
    rw [epochDay, timeOfDay]
    omega
  exact ⟨⟨_, hticks.1, hticks.2.1, hticks.2.2⟩, ofTicks?_eq_some.2 rfl⟩

/-- Where a year and then a number of months can be added, so can both at once. -/
theorem addMonths?_year {t u v : Instant} {n : Nat} (h : t.addMonths? 12 = some u)
    (h' : u.addMonths? n = some v) :
    ∃ w, t.addMonths? (12 + n) = some w ∧ v.date = t.date.pastLeapDay w.date ∧
      v.timeOfDay = w.timeOfDay := by
  obtain ⟨hdate, htime⟩ := addMonths?_eq_some.1 h
  obtain ⟨hdate', htime'⟩ := addMonths?_eq_some.1 h'
  rw [hdate, Date.addMonths_addMonths_year t.date_valid] at hdate'
  have hyear : (t.date.addMonths (12 + n)).year = v.date.year := by
    rw [hdate', Date.pastLeapDay]
    split <;> rfl
  have hbounds := v.year_bounds
  obtain ⟨w, hw⟩ :=
    exists_ofDate? t (Date.addMonths_valid t.date_valid (12 + n)) (by omega) (by omega)
  obtain ⟨hdate'', htime''⟩ := addMonths?_eq_some.1 (show t.addMonths? (12 + n) = some w from hw)
  refine ⟨w, hw, ?_, ?_⟩
  · rw [hdate', hdate'']
  · rw [htime', htime, htime'']

/-- Of two instants at one time of day the later one stays later, after any number of seconds. -/
theorem lt_of_addSeconds? {t u t' u' : Instant} {n : Nat} (hlt : t < u)
    (htime : u.timeOfDay = t.timeOfDay) (ht : t.addSeconds? n = some t')
    (hu : u.addSeconds? n = some u') : t' < u' := by
  rw [addSeconds?] at ht hu
  rw [timeOfDay, timeOfDay] at htime
  rw [lt_iff] at hlt ⊢
  split at ht
  · next hn =>
    rw [if_pos hn] at hu
    cases ht
    cases hu
    exact hlt
  · next hn =>
    rw [if_neg hn] at hu
    rw [ofNanos?, ofTicks?_eq_some, second, place] at ht hu
    omega

/-- Instants of one month are ordered by the day and the time of day. -/
theorem lt_iff_of_months_eq {t u : Instant} (h : t.date.months = u.date.months) :
    t < u ↔ t.date.day < u.date.day ∨ t.date.day = u.date.day ∧ t.timeOfDay < u.timeOfDay := by
  obtain ⟨hyear, hmonth⟩ := Date.eq_of_months_eq t.date_valid u.date_valid h
  have ht := toDays_date t
  have hu := toDays_date u
  rw [Date.toDays, hyear, hmonth] at ht
  rw [Date.toDays] at hu
  rw [lt_iff, timeOfDay, timeOfDay]
  omega

/-- The second instant falls on a leap day, and the first on the day before it, at a later time of
day. -/
structure BeforeLeapDay (t u : Instant) : Prop where
  months : t.date.months = u.date.months
  february : u.date.month = 1
  eve : t.date.day = 28
  leap_day : u.date.day = 29
  time : u.timeOfDay < t.timeOfDay

/-- What is a year or more after the later of two instants comes before what is a year after the
earlier one only across a leap day: a year after it is the 28th again, but at an earlier time of
day. -/
theorem lt_addYear_iff {t u t' u' : Instant} {n : Nat} (hlt : t < u) (hn : 12 ≤ n)
    (ht : t.addMonths? 12 = some t') (hu : u.addMonths? n = some u') :
    u' < t' ↔ n = 12 ∧ BeforeLeapDay t u := by
  obtain ⟨htdate, httime⟩ := addMonths?_eq_some.1 ht
  obtain ⟨hudate, hutime⟩ := addMonths?_eq_some.1 hu
  have htmonths : t'.date.months = t.date.months + 12 := htdate ▸ Date.months_addMonths t.date 12
  have humonths : u'.date.months = u.date.months + n := hudate ▸ Date.months_addMonths u.date n
  have hle : t.date.months ≤ u.date.months :=
    Int.not_lt.1 fun hmonths => Int.not_lt.2 (Int.le_of_lt hlt) (lt_of_months_lt hmonths)
  by_cases hsame : t.date.months = u.date.months ∧ n = 12
  case neg =>
    have hlater : t' < u' := by
      apply lt_of_months_lt
      omega
    refine iff_of_false (Int.not_lt.2 (Int.le_of_lt hlater)) ?_
    rintro ⟨hyear, hleap⟩
    exact hsame ⟨hleap.months, hyear⟩
  case pos =>
    obtain ⟨hmonths, rfl⟩ := hsame
    obtain ⟨hyear, hmonth⟩ := Date.eq_of_months_eq t.date_valid u.date_valid hmonths
    have htday : t'.date.day = _ := htdate ▸ t.date_valid.day_addMonths_year
    have huday : u'.date.day = _ := hudate ▸ u.date_valid.day_addMonths_year
    rw [hyear, hmonth] at htday
    rw [lt_iff_of_months_eq (by omega), htday, huday, httime, hutime]
    rw [lt_iff_of_months_eq hmonths] at hlt
    have hday := u.date_valid.day_le
    rcases Date.monthLength_le_or (Date.isLeap u.date.year) (Date.isLeap (u.date.year + 1))
      u.date_valid.month_lt with hlen | ⟨hfeb, hlong, hshort⟩
    · -- Both days are there a year later, so neither was a leap day.
      refine iff_of_false (by omega) ?_
      rintro ⟨-, h⟩
      rw [h.february, h.leap_day] at hday
      rw [h.february, Date.monthLength_february_succ hday] at hlen
      omega
    · rw [hshort]
      constructor
      · intro h
        refine ⟨rfl, hmonths, hfeb, ?_, ?_, ?_⟩ <;> omega
      · rintro ⟨-, h⟩
        have := h.eve
        have := h.leap_day
        have := h.time
        omega

/-- A number of years later, at the same time of day and on the same day, but that the 29th of
February may have become the 28th. -/
structure YearsLater (t u : Instant) (years : Int) : Prop where
  months : u.date.months = t.date.months + 12 * years
  timeOfDay : u.timeOfDay = t.timeOfDay
  day : u.date.day = t.date.day ∨ t.date.month = 1 ∧ t.date.day = 29 ∧ u.date.day = 28

theorem YearsLater.refl (t : Instant) : YearsLater t t 0 := ⟨by omega, rfl, .inl rfl⟩

theorem YearsLater.year_eq {t u : Instant} {years : Int} (h : YearsLater t u years) :
    u.date.year = t.date.year + years := by
  have hmonths := h.months
  have := t.date_valid.month_lt
  have := u.date_valid.month_lt
  simp only [Date.months] at hmonths
  omega

theorem YearsLater.month_eq {t u : Instant} {years : Int} (h : YearsLater t u years) :
    u.date.month = t.date.month := by
  have hmonths := h.months
  have hyear := h.year_eq
  simp only [Date.months] at hmonths
  omega

theorem YearsLater.trans {t u v : Instant} {m n : Int} (h : YearsLater t u m)
    (h' : YearsLater u v n) : YearsLater t v (m + n) := by
  have hmonth := h.month_eq
  refine ⟨?_, h'.timeOfDay.trans h.timeOfDay, ?_⟩
  · rw [h'.months, h.months]
    omega
  · have hday := h.day
    have hday' := h'.day
    omega

theorem YearsLater.lt {t u : Instant} {years : Int} (h : YearsLater t u years)
    (hpos : 0 < years) : t < u := by
  apply lt_of_months_lt
  rw [h.months]
  omega

theorem yearsLater_of_addMonths? {t u : Instant} {years : Nat}
    (h : t.addMonths? (12 * years) = some u) : YearsLater t u years := by
  obtain ⟨hdate, htime⟩ := addMonths?_eq_some.1 h
  refine ⟨?_, htime, ?_⟩
  · rw [hdate, Date.months_addMonths]
    omega
  · have hvalid := t.date_valid
    have hmonth : ((t.date.months + (12 * years : Nat)) % 12).toNat = t.date.month := by
      have := hvalid.month_lt
      rw [Date.months]
      omega
    rw [hdate, Date.addMonths, hmonth]
    have hle := hvalid.day_le
    rcases Date.monthLength_le_or (Date.isLeap t.date.year)
      (Date.isLeap ((t.date.months + (12 * years : Nat)) / 12)) hvalid.month_lt
        with hlen | ⟨hfeb, hlong, hshort⟩
    · exact .inl (Nat.min_eq_left (Nat.le_trans hle hlen))
    · show min _ _ = _ ∨ _ ∧ _ ∧ min _ _ = 28
      omega

/-- No more months can be added than the calendar has. -/
theorem months_lt_of_addMonths? {t u : Instant} {n : Nat} (h : t.addMonths? n = some u) :
    n < 12 * 524286 := by
  obtain ⟨hdate, -⟩ := addMonths?_eq_some.1 h
  have hm : u.date.months = t.date.months + n := hdate ▸ Date.months_addMonths _ _
  have := t.year_bounds
  have := u.year_bounds
  have := t.date_valid.month_lt
  have := u.date_valid.month_lt
  simp only [Date.months] at hm
  omega

/-- The instant a number of single years later, each step keeping the day where it exists. -/
def anniversary? (t : Instant) : Nat → Option Instant
  | 0 => some t
  | k + 1 => (t.anniversary? k).bind fun u => (u.addYears 1).toOption

theorem anniversary?_succ {t : Instant} {k : Nat} :
    t.anniversary? (k + 1) = (t.anniversary? k).bind fun u => (u.addYears 1).toOption := rfl

/-- The anniversaries after the first step are those of the next year's instant. -/
theorem anniversary?_next {t u : Instant} (h : t.addYears 1 = .ok u) (k : Nat) :
    t.anniversary? (k + 1) = u.anniversary? k := by
  induction k with
  | zero => simp [anniversary?, h, Except.toOption]
  | succ k ih => rw [anniversary?_succ, ih, anniversary?_succ]

theorem yearsLater_of_anniversary? {t u : Instant} {k : Nat} (h : t.anniversary? k = some u) :
    YearsLater t u k := by
  induction k generalizing u with
  | zero =>
    cases h
    exact .refl t
  | succ k ih =>
    rw [anniversary?_succ, Option.bind_eq_some_iff] at h
    obtain ⟨v, hv, h⟩ := h
    have hyear : v.addYears 1 = .ok u := by
      cases hv' : v.addYears 1 with
      | error err => simp [hv', Except.toOption] at h
      | ok w =>
        rw [hv'] at h
        exact congrArg Except.ok (Option.some.inj h)
    exact (ih hv).trans (yearsLater_of_addMonths? (shift_eq_ok.1 hyear) : YearsLater v u (1 : Nat))

/-- Later anniversaries are at least a day later. -/
theorem add_day_le_of_anniversary? {t u v : Instant} {m n : Nat} (hlt : m < n)
    (hu : t.anniversary? m = some u) (hv : t.anniversary? n = some v) :
    u.ticks + 172800000000000 ≤ v.ticks := by
  have hm := yearsLater_of_anniversary? hu
  have hn := yearsLater_of_anniversary? hv
  apply add_day_le_of_months_lt
  · rw [hm.months, hn.months]
    omega
  · rw [hm.timeOfDay, hn.timeOfDay]

theorem lt_of_anniversary? {t u v : Instant} {m n : Nat} (hlt : m < n)
    (hu : t.anniversary? m = some u) (hv : t.anniversary? n = some v) : u < v := by
  have hday := add_day_le_of_anniversary? hlt hu hv
  rw [lt_iff]
  omega

theorem le_of_anniversary? {t u v : Instant} {m n : Nat} (hle : m ≤ n)
    (hu : t.anniversary? m = some u) (hv : t.anniversary? n = some v) : u ≤ v := by
  rcases Nat.lt_or_eq_of_le hle with hlt | rfl
  · exact Int.le_of_lt (lt_of_anniversary? hlt hu hv)
  · cases hu.symm.trans hv
    exact Int.le_refl _

end Instant
end NameRegistry
