import NameRegistry.Calendar

/-! # Instants

An instant is a second of universal time and a place within it, in the years -262143 to 262142 of
the proleptic Gregorian calendar. The last second of any minute may go on as a leap second. Places
are counted in ticks: a second has two billion of them, one for each of its nanoseconds and then one
for each nanosecond of the leap second after it, so that instants are in the order of their ticks.

Arithmetic that leaves the calendar has no result. Adding months keeps the time of day to the tick.
Seconds are added as if no second were longer than others, and lead out of a leap second.
-/
namespace NameRegistry

/-- A moment in coordinated universal time. -/
structure Instant where
  ticks : Int
  first_le : -16669202457600000000000 ≤ ticks
  lt_end : ticks < 16420533753600000000000
  /-- Only the last second of a minute goes on as a leap second. -/
  leap_at : 1000000000 ≤ ticks % 2000000000 → ticks / 2000000000 % 60 = 59
  deriving DecidableEq

namespace Instant

instance : LT Instant := ⟨fun s t => s.ticks < t.ticks⟩
instance : LE Instant := ⟨fun s t => s.ticks ≤ t.ticks⟩
instance (s t : Instant) : Decidable (s < t) := inferInstanceAs (Decidable (s.ticks < t.ticks))
instance (s t : Instant) : Decidable (s ≤ t) := inferInstanceAs (Decidable (s.ticks ≤ t.ticks))

theorem lt_iff {s t : Instant} : s < t ↔ s.ticks < t.ticks := Iff.rfl
theorem le_iff {s t : Instant} : s ≤ t ↔ s.ticks ≤ t.ticks := Iff.rfl

@[ext] theorem ext {s t : Instant} (h : s.ticks = t.ticks) : s = t := by
  cases s; cases t; cases h; rfl

@[simp] theorem le_refl (t : Instant) : t ≤ t := Int.le_refl _
@[simp] theorem lt_irrefl (t : Instant) : ¬t < t := Int.lt_irrefl _

theorem ne_of_lt {s t : Instant} (h : s < t) : s ≠ t := fun heq => lt_irrefl t (heq ▸ h)

theorem eq_of_le_of_not_lt {s t : Instant} (hle : s ≤ t) (hlt : ¬s < t) : s = t :=
  ext (Int.le_antisymm hle (Int.not_lt.1 hlt))

/-- The start of time for price tables: 1970-01-01. -/
def epoch : Instant := ⟨0, by decide, by decide, by decide⟩

/-- The last nanosecond of the last day, which stands for "never ends". Only the leap second that
may follow it is later. -/
def endOfTime : Instant := ⟨16420533753598999999999, by decide, by decide, by decide⟩

def ofTicks? (n : Int) : Option Instant :=
  if h : -16669202457600000000000 ≤ n ∧ n < 16420533753600000000000 ∧
      (1000000000 ≤ n % 2000000000 → n / 2000000000 % 60 = 59) then
    some ⟨n, h.1, h.2.1, h.2.2⟩
  else none

theorem ofTicks?_eq_some {n : Int} {t : Instant} : ofTicks? n = some t ↔ t.ticks = n := by
  rw [ofTicks?]
  constructor
  · intro h
    split at h
    · cases h
      rfl
    · simp at h
  · rintro rfl
    rw [dif_pos ⟨t.first_le, t.lt_end, t.leap_at⟩]

/-- The number of 1970-01-01 among the days of the calendar. -/
def epochDay : Int := 719528

def date (t : Instant) : Date := .ofDays (t.ticks / 172800000000000 + epochDay)

/-- Ticks since midnight. -/
def timeOfDay (t : Instant) : Int := t.ticks % 172800000000000

/-- Seconds since the epoch. A leap second counts with the second before it. -/
def second (t : Instant) : Int := t.ticks / 2000000000

/-- Nanoseconds since the second began, a billion or more in a leap second. -/
def place (t : Instant) : Int := t.ticks % 2000000000

def ofDate? (d : Date) (timeOfDay : Int) : Option Instant :=
  ofTicks? ((d.toDays - epochDay) * 172800000000000 + timeOfDay)

/-- The instant a number of nanoseconds after the epoch, no second being longer than others. -/
def ofNanos? (n : Int) : Option Instant := ofTicks? (n / 1000000000 * 2000000000 + n % 1000000000)

def addMonths? (t : Instant) (n : Nat) : Option Instant := ofDate? (t.date.addMonths n) t.timeOfDay

/-- A number of seconds later. From within a leap second the count starts as far into the second
before it. -/
def addSeconds? (t : Instant) (n : Nat) : Option Instant :=
  if n = 0 then some t
  else ofNanos? ((t.second + n) * 1000000000 + t.place % 1000000000)

/-- A number of milliseconds earlier. The way back leads through a leap second from within it, but
not from after it. -/
def subMillis? (t : Instant) (n : Nat) : Option Instant :=
  if n * 1000000 ≤ t.place then ofTicks? (t.ticks - n * 1000000)
  else ofNanos? (t.second * 1000000000 + t.place - n * 1000000)

theorem toDays_date (t : Instant) : t.date.toDays = t.ticks / 172800000000000 + epochDay :=
  Date.toDays_ofDays _

theorem date_valid (t : Instant) : t.date.Valid := Date.ofDays_valid _

/-- An instant is its date and its time of day. -/
theorem ofDate?_date (t : Instant) : ofDate? t.date t.timeOfDay = some t := by
  rw [ofDate?, ofTicks?_eq_some, toDays_date, timeOfDay]
  omega

theorem addMonths?_eq_some {t u : Instant} {n : Nat} :
    t.addMonths? n = some u ↔ u.date = t.date.addMonths n ∧ u.timeOfDay = t.timeOfDay := by
  have hv := Date.addMonths_valid t.date_valid n
  have ht : 0 ≤ t.timeOfDay ∧ t.timeOfDay < 172800000000000 := by
    simp only [timeOfDay]
    omega
  rw [addMonths?, ofDate?, ofTicks?_eq_some]
  constructor
  · intro h
    constructor
    · rw [date, h, show ((t.date.addMonths n).toDays - epochDay) * 172800000000000 + t.timeOfDay =
        t.timeOfDay + ((t.date.addMonths n).toDays - epochDay) * 172800000000000 by omega,
        Int.add_mul_ediv_right _ _ (by decide), Int.ediv_eq_zero_of_lt ht.1 ht.2]
      simpa using Date.ofDays_toDays hv
    · rw [timeOfDay, h]
      omega
  · rintro ⟨h1, h2⟩
    rw [← h1, ← h2, toDays_date, timeOfDay]
    omega

/-- An instant in a later month is later. -/
theorem lt_of_months_lt {t u : Instant} (h : t.date.months < u.date.months) : t < u := by
  have hd := Date.toDays_lt_of_months_lt t.date_valid u.date_valid h
  rw [toDays_date, toDays_date] at hd
  rw [lt_iff]
  omega

theorem lt_of_addMonths? {t u : Instant} {n : Nat} (hn : 0 < n)
    (h : t.addMonths? n = some u) : t < u := by
  apply lt_of_months_lt
  rw [(addMonths?_eq_some.1 h).1, Date.months_addMonths]
  omega

end Instant
end NameRegistry
