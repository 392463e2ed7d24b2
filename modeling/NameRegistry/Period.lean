import NameRegistry.Instant.Text

/-! # Registration periods

A period is a count of years or months, as renewals and transfers carry it. Adding one to an
instant is calendar arithmetic: the day of the month is kept, or is the last day of a shorter month,
so a registration made on 29 February falls on 28 February in other years.
-/
namespace NameRegistry

/-- A step along the time line that may leave the calendar. -/
inductive TimeShift
  | months (n : Nat)
  | seconds (n : Nat)
  | millisBack (n : Nat)
  deriving DecidableEq

def TimeShift.text : TimeShift → String
  | months n => "+ " ++ toString n ++ " months"
  | seconds n => "+ PT" ++ toString n ++ "S"
  | millisBack n => "- " ++ toString n ++ "ms"

inductive TemporalError
  | negativePeriod (value : Int)
  | periodTooLarge (value : Int)
  | missingStartOfTime
  | outOfRange (start : Instant) (shift : TimeShift)
  deriving DecidableEq

def TemporalError.message : TemporalError → String
  | negativePeriod value => "Period value must be non-negative, got " ++ toString value
  | periodTooLarge value => "Period value " ++ toString value ++ " is too large"
  | missingStartOfTime => "Timed transitions must begin at START_OF_TIME"
  | outOfRange start shift => "Date arithmetic out of range: " ++ start.toText ++ " " ++ shift.text

namespace Instant

/-- The instant after a shift, if the calendar has it. -/
def shift? (t : Instant) : TimeShift → Option Instant
  | .months n => t.addMonths? n
  | .seconds n => t.addSeconds? n
  | .millisBack n => t.subMillis? n

def shift (t : Instant) (s : TimeShift) : Except TemporalError Instant :=
  match t.shift? s with
  | some u => .ok u
  | none => .error (.outOfRange t s)

theorem shift_eq_ok {t u : Instant} {s : TimeShift} : t.shift s = .ok u ↔ t.shift? s = some u := by
  rw [shift]
  split <;> simp_all

end Instant

inductive PeriodUnit
  | years | months
  deriving DecidableEq, Repr

structure Period where
  value : UInt32
  unit : PeriodUnit
  deriving DecidableEq

/-- The months of a number of years, at most as many as 32 bits hold. -/
def monthsOfYears (years : UInt32) : Nat := min (years.toNat * 12) (2 ^ 32 - 1)

namespace Period

def of (value : Int) (unit : PeriodUnit) : Except TemporalError Period :=
  if value < 0 then .error (.negativePeriod value)
  else if 2 ^ 32 ≤ value then .error (.periodTooLarge value)
  else .ok ⟨.ofNat value.toNat, unit⟩

def isZero (p : Period) : Bool := p.value = 0

def inMonths (p : Period) : Nat :=
  match p.unit with
  | .years => monthsOfYears p.value
  | .months => p.value.toNat

def addTo (p : Period) (t : Instant) : Except TemporalError Instant := t.shift (.months p.inMonths)

def toText (p : Period) : String :=
  toString p.value.toNat ++ match p.unit with
    | .years => "Y"
    | .months => "M"

end Period

def Instant.addYears (t : Instant) (years : UInt32) : Except TemporalError Instant :=
  t.shift (.months (monthsOfYears years))

theorem Instant.lt_of_addYears_one {t u : Instant} (h : t.addYears 1 = .ok u) : t < u :=
  lt_of_addMonths? (by decide) (shift_eq_ok.1 h)

end NameRegistry
