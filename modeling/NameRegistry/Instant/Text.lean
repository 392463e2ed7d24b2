import NameRegistry.Instant
import NameRegistry.Decimal.Text
import NameRegistry.Text.Blank

/-! # Written instants

An instant is written in universal time with the fewest of 0, 3, 6 or 9 fraction digits that are
exact, and a year outside 0000 to 9999 with its sign. A leap second is the second numbered 60.
Records separate date and time by `T` and end in `Z`; messages use a blank and ` UTC`. It is read
from RFC 3339 text in a relaxed form: with any offset, one-digit fields, blanks around the
separators, and fraction digits past the ninth ignored. Each step of reading takes its part off the
front of the text.
-/
namespace NameRegistry.Instant

open Decimal (paddedDigits digit?)

def yearText (year : Int) : List Char :=
  if 0 ≤ year ∧ year ≤ 9999 then paddedDigits 4 year.toNat
  else (if year < 0 then '-' else '+') :: paddedDigits 4 year.natAbs

def fractionText (nanos : Nat) : List Char :=
  if nanos = 0 then []
  else if nanos % 1000000 = 0 then '.' :: paddedDigits 3 (nanos / 1000000)
  else if nanos % 1000 = 0 then '.' :: paddedDigits 6 (nanos / 1000)
  else '.' :: paddedDigits 9 nanos

def dateText (d : Date) : List Char :=
  yearText d.year ++ '-' :: paddedDigits 2 (d.month + 1) ++ '-' :: paddedDigits 2 d.day

def timeText (timeOfDay : Int) : List Char :=
  let ticks := timeOfDay.toNat
  let seconds := ticks / 2000000000
  let nanos := ticks % 2000000000
  paddedDigits 2 (seconds / 3600) ++ ':' :: paddedDigits 2 (seconds / 60 % 60) ++
    ':' :: paddedDigits 2 (seconds % 60 + nanos / 1000000000) ++ fractionText (nanos % 1000000000)

/-- As records hold it, such as `2020-01-01T00:00:00Z`. -/
def toRecord (t : Instant) : String :=
  String.ofList (dateText t.date ++ 'T' :: timeText t.timeOfDay ++ ['Z'])

/-- As messages show it, such as `2020-01-01 00:00:00 UTC`. -/
def toText (t : Instant) : String :=
  String.ofList (dateText t.date ++ ' ' :: timeText t.timeOfDay) ++ " UTC"

instance : ToString Instant := ⟨toText⟩

def skipBlanks (cs : List Char) : List Char := cs.dropWhile Text.isBlankChar

/-- A number of at least one and at most the given count of digits. -/
def readNumber (most : Nat) (cs : List Char) : Option (Nat × List Char) :=
  let ds := (cs.take most).takeWhile Char.isDigit
  if ds.isEmpty then none else some (Nat.ofDigitChars 10 ds 0, cs.drop ds.length)

def readChar (c : Char) : List Char → Option (List Char)
  | d :: r => if d = c then some r else none
  | [] => none

/-- A year with a sign may have any number of digits, one without has at most four. -/
def readYear : List Char → Option (Int × List Char)
  | '-' :: r => (readNumber r.length r).map fun (n, r) => (-n, r)
  | '+' :: r => (readNumber r.length r).map fun (n, r) => (n, r)
  | r => (readNumber 4 r).map fun (n, r) => (n, r)

/-- A two-digit field after an optional run of blanks and the given separator. -/
def readField (separator : Char) (cs : List Char) : Option (Nat × List Char) :=
  (readChar separator (skipBlanks cs)).bind fun r => readNumber 2 (skipBlanks r)

/-- Nanoseconds of a fraction, if there is one. -/
def readFraction : List Char → Option (Nat × List Char)
  | '.' :: r =>
    let ds := r.takeWhile Char.isDigit
    if ds.isEmpty then none
    else
      let nine := ds.take 9
      some (Nat.ofDigitChars 10 nine 0 * 10 ^ (9 - nine.length), r.drop ds.length)
  | r => some (0, r)

def twoDigits : List Char → Option (Nat × List Char)
  | a :: b :: r =>
    match digit? a, digit? b with
    | some a, some b => some (10 * a + b, r)
    | _, _ => none
  | _ => none

/-- Hours and minutes of an offset, in seconds; a colon or blanks may stand between them. -/
def readOffset (cs : List Char) : Option (Nat × List Char) := do
  let (hours, r) ← twoDigits cs
  let (minutes, r) ← twoDigits (r.dropWhile fun c => c = ':' || Text.isBlankChar c)
  if hours < 24 ∧ minutes < 60 then some (hours * 3600 + minutes * 60, r) else none

/-- What stands after the time: `Z`, `UTC` or an offset, as seconds east. West is written with a
hyphen or a minus sign. -/
def readZone : List Char → Option (Int × List Char)
  | 'Z' :: r | 'z' :: r => some (0, r)
  | '+' :: r => (readOffset r).map fun (n, r) => (n, r)
  | '-' :: r | '\u2212' :: r => (readOffset r).map fun (n, r) => (-n, r)
  | u :: t :: c :: r => if [u, t, c].map Char.toUpper = ['U', 'T', 'C'] then some (0, r) else none
  | _ => none

def readDate (cs : List Char) : Option (Date × List Char) := do
  let (year, r) ← readYear (skipBlanks cs)
  let (month, r) ← readField '-' r
  let (day, r) ← readField '-' r
  let date : Date := ⟨year, month - 1, day⟩
  if 1 ≤ month ∧ date.Valid then some (date, r) else none

/-- Ticks since midnight. Any minute may have a leap second. -/
def readTime (cs : List Char) : Option (Int × List Char) := do
  let (hour, r) ← readNumber 2 (skipBlanks cs)
  let (minute, r) ← readField ':' r
  let (second, r) ← readField ':' r
  let (nanos, r) ← readFraction r
  let ticks (second : Nat) : Int := ((hour * 60 + minute) * 60 + second) * 2000000000 + nanos
  if hour < 24 ∧ minute < 60 ∧ second < 60 then some (ticks second, r)
  else if hour < 24 ∧ minute < 60 ∧ second = 60 then some (ticks 59 + 1000000000, r)
  else none

/-- The date and time have to be in the calendar both where they are given and in universal time. -/
def ofText? (s : String) : Option Instant := do
  let (date, r) ← readDate s.toList
  let r ← match r with
    | 'T' :: r | 't' :: r | ' ' :: r => some r
    | _ => none
  let (time, r) ← readTime r
  let (offset, r) ← readZone (skipBlanks r)
  if (skipBlanks r).isEmpty then
    let there ← ofDate? date time
    ofTicks? (there.ticks - offset * 2000000000)
  else none

end NameRegistry.Instant
