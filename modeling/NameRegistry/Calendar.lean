/-! # The proleptic Gregorian calendar

Days are numbered from 0000-01-01, which is day zero. A year begins after 365 days for each year
before it and a leap day for each leap year among those; the date of a day is found by an estimate
of its year that is off by one at most. Adding months keeps the day of the month where the month
has it, and takes the month's last day where it does not.

The main statements: `ofDays` and `toDays` are inverse on days and on valid dates.
-/
namespace NameRegistry

/-- A day of the calendar. The month counts from zero, the day from one. -/
structure Date where
  year : Int
  month : Nat
  day : Nat
  deriving DecidableEq, Repr

namespace Date

def isLeap (year : Int) : Bool := year % 4 = 0 && (year % 100 ≠ 0 || year % 400 = 0)

def monthLength (leap : Bool) : Nat → Nat
  | 1 => if leap then 29 else 28
  | 3 | 5 | 8 | 10 => 30
  | _ => 31

/-- Days before a month in its year. -/
def monthStart (leap : Bool) : Nat → Nat
  | 0 => 0
  | month + 1 => monthStart leap month + monthLength leap month

/-- Days before a year. -/
def yearStart (year : Int) : Int :=
  365 * year + (year + 3) / 4 - (year + 99) / 100 + (year + 399) / 400

def yearLength (leap : Bool) : Nat := if leap then 366 else 365

/-- The months other than January that have begun by the given day of the year. -/
def monthOf (leap : Bool) (day : Nat) : Nat :=
  ((List.range 11).filter fun month => monthStart leap (month + 1) ≤ day).length

/-- The year of a day. Years are 146097 / 400 days long on average. -/
def yearOf (days : Int) : Int :=
  let year := 400 * days / 146097
  if days < yearStart year then year - 1
  else if yearStart (year + 1) ≤ days then year + 1
  else year

def ofDays (days : Int) : Date :=
  let year := yearOf days
  let day := (days - yearStart year).toNat
  let month := monthOf (isLeap year) day
  ⟨year, month, day - monthStart (isLeap year) month + 1⟩

def toDays (d : Date) : Int := yearStart d.year + monthStart (isLeap d.year) d.month + d.day - 1

/-- A day that the calendar has. -/
structure Valid (d : Date) : Prop where
  month_lt : d.month < 12
  one_le_day : 1 ≤ d.day
  day_le : d.day ≤ monthLength (isLeap d.year) d.month

instance (d : Date) : Decidable d.Valid :=
  decidable_of_iff (d.month < 12 ∧ 1 ≤ d.day ∧ d.day ≤ monthLength (isLeap d.year) d.month)
    ⟨fun h => ⟨h.1, h.2.1, h.2.2⟩, fun h => ⟨h.1, h.2, h.3⟩⟩

/-- The months since January of year zero. -/
def months (d : Date) : Int := 12 * d.year + d.month

/-- The date a number of months later, on the last day of the month if the day does not exist. -/
def addMonths (d : Date) (n : Nat) : Date :=
  let months := d.months + n
  let year := months / 12
  let month := (months % 12).toNat
  ⟨year, month, min d.day (monthLength (isLeap year) month)⟩

theorem yearStart_succ (year : Int) :
    yearStart (year + 1) = yearStart year + yearLength (isLeap year) := by
  have h : isLeap year = true ↔ year % 4 = 0 ∧ (year % 100 ≠ 0 ∨ year % 400 = 0) := by simp [isLeap]
  rw [yearLength]
  split
  · have := h.1 ‹_›
    simp only [yearStart]
    omega
  · have : ¬(year % 4 = 0 ∧ (year % 100 ≠ 0 ∨ year % 400 = 0)) := fun e => ‹¬_› (h.2 e)
    simp only [yearStart]
    omega

theorem yearStart_yearOf_le (days : Int) : yearStart (yearOf days) ≤ days := by
  simp only [yearOf]
  split
  · simp only [yearStart] at *
    omega
  · split <;> omega

theorem lt_yearStart_yearOf_succ (days : Int) : days < yearStart (yearOf days + 1) := by
  simp only [yearOf]
  split
  · simpa using ‹_›
  · split
    · simp only [yearStart] at *
      omega
    · omega

theorem yearStart_lt_yearStart {a b : Int} (h : a < b) : yearStart a + 365 ≤ yearStart b := by
  simp only [yearStart]
  omega

theorem yearOf_unique {days year : Int} (h1 : yearStart year ≤ days)
    (h2 : days < yearStart (year + 1)) : yearOf days = year := by
  have h3 := yearStart_yearOf_le days
  have h4 := lt_yearStart_yearOf_succ days
  rcases Int.lt_trichotomy (yearOf days) year with h | h | h
  · have : yearStart (yearOf days + 1) ≤ yearStart year := by
      rcases Int.lt_or_eq_of_le (Int.add_one_le_of_lt h) with h | h
      · have := yearStart_lt_yearStart h
        omega
      · exact Int.le_of_eq (congrArg yearStart h)
    omega
  · exact h
  · have : yearStart (year + 1) ≤ yearStart (yearOf days) := by
      rcases Int.lt_or_eq_of_le (Int.add_one_le_of_lt h) with h | h
      · have := yearStart_lt_yearStart h
        omega
      · exact Int.le_of_eq (congrArg yearStart h)
    omega

theorem monthStart_monthOf (leap : Bool) (day : Nat) (h : day < yearLength leap) :
    monthOf leap day < 12 ∧ monthStart leap (monthOf leap day) ≤ day ∧
      day < monthStart leap (monthOf leap day) + monthLength leap (monthOf leap day) := by
  have key : ∀ leap : Bool, ∀ day < 366, day < yearLength leap →
      monthOf leap day < 12 ∧ monthStart leap (monthOf leap day) ≤ day ∧
        day < monthStart leap (monthOf leap day) + monthLength leap (monthOf leap day) := by
    decide +kernel
  exact key leap day (by cases leap <;> simp [yearLength] at h <;> omega) h

theorem monthOf_add (leap : Bool) {month day : Nat} (hm : month < 12)
    (hd : day < monthLength leap month) : monthOf leap (monthStart leap month + day) = month := by
  have key : ∀ leap : Bool, ∀ month < 12, ∀ day < 31, day < monthLength leap month →
      monthOf leap (monthStart leap month + day) = month := by
    decide +kernel
  refine key leap month hm day (Nat.lt_of_lt_of_le hd ?_) hd
  have : ∀ leap : Bool, ∀ month < 12, monthLength leap month ≤ 31 := by decide
  exact this leap month hm

theorem monthStart_add_monthLength_le (leap : Bool) {month : Nat} (hm : month < 12) :
    monthStart leap month + monthLength leap month ≤ yearLength leap := by
  have : ∀ leap : Bool, ∀ month < 12,
      monthStart leap month + monthLength leap month ≤ yearLength leap := by decide
  exact this leap month hm

theorem ofDays_valid (days : Int) : (ofDays days).Valid := by
  have h1 := yearStart_yearOf_le days
  have h2 := lt_yearStart_yearOf_succ days
  rw [yearStart_succ] at h2
  have h :=
    monthStart_monthOf (isLeap (yearOf days)) (days - yearStart (yearOf days)).toNat (by omega)
  refine ⟨h.1, ?_, ?_⟩
  · simp only [ofDays]
    omega
  · simp only [ofDays]
    omega

theorem toDays_ofDays (days : Int) : (ofDays days).toDays = days := by
  have h1 := yearStart_yearOf_le days
  have h2 := lt_yearStart_yearOf_succ days
  rw [yearStart_succ] at h2
  have h :=
    monthStart_monthOf (isLeap (yearOf days)) (days - yearStart (yearOf days)).toNat (by omega)
  simp only [ofDays, toDays]
  omega

theorem ofDays_toDays {d : Date} (h : d.Valid) : ofDays d.toDays = d := by
  obtain ⟨hm, hd1, hd2⟩ := h
  have hlen := monthStart_add_monthLength_le (isLeap d.year) hm
  have hy : yearOf d.toDays = d.year := by
    apply yearOf_unique
    · simp only [toDays]
      omega
    · rw [yearStart_succ]
      simp only [toDays]
      omega
  have hday : (d.toDays - yearStart d.year).toNat =
      monthStart (isLeap d.year) d.month + (d.day - 1) := by
    simp only [toDays]
    omega
  have hmonth : monthOf (isLeap d.year) (monthStart (isLeap d.year) d.month + (d.day - 1)) =
      d.month :=
    monthOf_add _ hm (by omega)
  cases d with
  | mk year month day =>
    simp only [ofDays, hy, hday, hmonth, mk.injEq, true_and] at *
    omega

theorem addMonths_valid {d : Date} (h : d.Valid) (n : Nat) : (d.addMonths n).Valid := by
  have hpos : ∀ leap : Bool, ∀ month < 12, 1 ≤ monthLength leap month := by decide
  have hm : ((d.months + n) % 12).toNat < 12 := by omega
  refine ⟨hm, ?_, Nat.min_le_right _ _⟩
  exact Nat.le_min.2 ⟨h.one_le_day, hpos _ _ hm⟩

theorem months_addMonths (d : Date) (n : Nat) : (d.addMonths n).months = d.months + n := by
  simp only [addMonths, months]
  omega

/-- In a later month a day has a greater number. -/
theorem toDays_lt_of_months_lt {a b : Date} (ha : a.Valid) (hb : b.Valid)
    (h : a.months < b.months) : a.toDays < b.toDays := by
  obtain ⟨ha1, _, ha3⟩ := ha
  obtain ⟨hb1, hb2, _⟩ := hb
  rw [months, months] at h
  have la := monthStart_add_monthLength_le (isLeap a.year) ha1
  rcases Int.lt_or_eq_of_le (show a.year ≤ b.year by omega) with hy | hy
  · have h1 : yearStart (a.year + 1) ≤ yearStart b.year := by
      rcases Int.lt_or_eq_of_le (Int.add_one_le_of_lt hy) with h | h
      · have := yearStart_lt_yearStart h
        omega
      · exact Int.le_of_eq (congrArg yearStart h)
    rw [yearStart_succ] at h1
    simp only [toDays]
    omega
  · have hmono : ∀ leap : Bool, ∀ m < 12, ∀ m' < 12, m < m' →
        monthStart leap m + monthLength leap m ≤ monthStart leap m' := by decide
    have := hmono (isLeap a.year) a.month ha1 b.month hb1 (by omega)
    simp only [toDays, ← hy]
    omega

end Date
end NameRegistry
