import NameRegistry.Calendar
import NameRegistry.Datum
import NameRegistry.Toml.Text

/-! # Numbers and times of settings files

Whole numbers of 64 bits, doubles, truth values and the four kinds of date and time of TOML. A date
or time becomes its text, with an upper-case `T` and `Z` and without zeros at the end of a fraction.
-/
namespace NameRegistry.Toml

open Decimal (paddedDigits)

/-- A number of exactly the given count of digits. -/
def fixedDigits (count : Nat) (cs : List Char) : Option (Nat × List Char) :=
  let ds := (cs.take count).takeWhile Char.isDigit
  if ds.length = count then some (Nat.ofDigitChars 10 ds 0, cs.drop count) else none

def expect (c : Char) : List Char → Option (List Char)
  | d :: r => if d = c then some r else none
  | [] => none

def dateText (cs : List Char) : Option (List Char × List Char) := do
  let (year, r) ← fixedDigits 4 cs
  let (month, r) ← fixedDigits 2 (← expect '-' r)
  let (day, r) ← fixedDigits 2 (← expect '-' r)
  let date : Date := ⟨year, month - 1, day⟩
  if 1 ≤ month ∧ date.Valid then
    some (paddedDigits 4 year ++ '-' :: paddedDigits 2 month ++ '-' :: paddedDigits 2 day, r)
  else none

/-- The first nine digits of a fraction, without zeros at their end. -/
def fractionText : List Char → Option (List Char × List Char)
  | '.' :: r =>
    let ds := r.takeWhile Char.isDigit
    if ds.isEmpty then none
    else
      let kept := ((ds.take 9).reverse.dropWhile (· = '0')).reverse
      some (if kept.isEmpty then [] else '.' :: kept, r.drop ds.length)
  | r => some ([], r)

/-- Any minute may have a second more. -/
def timeText (cs : List Char) : Option (List Char × List Char) := do
  let (hour, r) ← fixedDigits 2 cs
  let (minute, r) ← fixedDigits 2 (← expect ':' r)
  let (second, r) ← fixedDigits 2 (← expect ':' r)
  let (fraction, r) ← fractionText r
  if hour < 24 ∧ minute < 60 ∧ second ≤ 60 then
    some (paddedDigits 2 hour ++ ':' :: paddedDigits 2 minute ++ ':' ::
      paddedDigits 2 second ++ fraction, r)
  else none

def offsetText : List Char → Option (List Char × List Char)
  | 'Z' :: r | 'z' :: r => some (['Z'], r)
  | c :: r =>
    if c = '+' || c = '-' then do
      let (hours, r) ← fixedDigits 2 r
      let (minutes, r) ← fixedDigits 2 (← expect ':' r)
      if hours < 24 ∧ minutes < 60 then
        let sign := if c = '-' && (hours ≠ 0 || minutes ≠ 0) then '-' else '+'
        some (sign :: paddedDigits 2 hours ++ ':' :: paddedDigits 2 minutes, r)
      else none
    else some ([], c :: r)
  | [] => some ([], [])

/-- What stands between a date and a time. -/
def timeAfter? : List Char → Option (List Char)
  | 'T' :: r | 't' :: r | ' ' :: r => some r
  | _ => none

/-- A date with or without a time and an offset, or a time. -/
def dateTimeText (cs : List Char) : Option (List Char × List Char) :=
  match dateText cs with
  | none => timeText cs
  | some (date, r) =>
    match (timeAfter? r).bind timeText with
    | none => some (date, r)
    | some (time, r) => (offsetText r).map fun (offset, r) => (date ++ 'T' :: time ++ offset, r)

/-- Digits with single underscores between them; what is kept are the digits. -/
def moreDigits (isDigit : Char → Bool) : List Char → List Char × List Char
  | '_' :: c :: r =>
    if isDigit c then
      let (ds, r) := moreDigits isDigit r
      (c :: ds, r)
    else ([], '_' :: c :: r)
  | c :: r =>
    if isDigit c then
      let (ds, r) := moreDigits isDigit r
      (c :: ds, r)
    else ([], c :: r)
  | [] => ([], [])

def digitRun (isDigit : Char → Bool) : List Char → Option (List Char × List Char)
  | c :: r =>
    if isDigit c then
      let (ds, r) := moreDigits isDigit r
      some (c :: ds, r)
    else none
  | [] => none

/-- The digits of a number without zeros in front. -/
def wholeDigits : List Char → Option (List Char × List Char)
  | '0' :: r => some (['0'], r)
  | r => digitRun Char.isDigit r

def wholeWithin? (n : Int) : Option Datum :=
  if -2 ^ 63 ≤ n ∧ n < 2 ^ 63 then some (.whole n) else none

/-- A number in base 16, 8 or 2. -/
def baseNumber : List Char → Option (Datum × List Char)
  | '0' :: b :: r => do
    let base ← match b with
      | 'x' => some 16
      | 'o' => some 8
      | 'b' => some 2
      | _ => none
    let (ds, r) ← digitRun (fun c => (Uuid.hexValue? c).any (· < base)) r
    let ds ← ds.mapM Uuid.hexValue?
    let number ← wholeWithin? (ds.foldl (fun n d => base * n + d) 0 : Nat)
    some (number, r)
  | _ => none

/-- The power of ten of a number: its sign and digits. -/
def powerOf : List Char → Option (Int × List Char)
  | e :: r =>
    if e = 'e' || e = 'E' then do
      let (negative, r) := Decimal.readSign r
      let (ds, r) ← digitRun Char.isDigit r
      let n : Int := Nat.ofDigitChars 10 ds 0
      some (if negative then -n else n, r)
    else none
  | [] => none

/-- A double that is too large is refused; one that is too far below zero is not. -/
def doubleOf (negative : Bool) (digits : List Char) (power : Int) : Option Datum :=
  match Binary64.ofDecimal negative (Nat.ofDigitChars 10 digits 0) power with
  | .infinite false => none
  | x => some (.double x)

/-- What follows the whole digits of a number: a fraction, a power of ten, both or neither. -/
def numberRest (negative : Bool) (whole : List Char) : List Char → Option (Datum × List Char)
  | '.' :: r => do
    let (fraction, r) ← digitRun Char.isDigit r
    let (power, r) := (powerOf r).getD (0, r)
    let x ← doubleOf negative (whole ++ fraction) (power - fraction.length)
    some (x, r)
  | r =>
    match powerOf r with
    | some (power, r) => (doubleOf negative whole power).map fun x => (x, r)
    | none =>
      let n : Int := Nat.ofDigitChars 10 whole 0
      (wholeWithin? (if negative then -n else n)).map fun d => (d, r)

/-- A decimal number, `inf` or `nan`, with a sign or without. -/
def decimalNumber (cs : List Char) : Option (Datum × List Char) :=
  let (negative, r) := Decimal.readSign cs
  match r with
  | 'i' :: 'n' :: 'f' :: r => some (.double (.infinite negative), r)
  | 'n' :: 'a' :: 'n' :: r => some (.double .nan, r)
  | r => do
    let (whole, r) ← wholeDigits r
    numberRest negative whole r

/-- A value that is neither text nor made of values. -/
def scalar (cs : List Char) : Option (Datum × List Char) :=
  match cs with
  | 't' :: 'r' :: 'u' :: 'e' :: r => some (.truth true, r)
  | 'f' :: 'a' :: 'l' :: 's' :: 'e' :: r => some (.truth false, r)
  | _ =>
    match dateTimeText cs with
    | some (time, r) => some (.text (String.ofList time), r)
    | none => (baseNumber cs).or (decimalNumber cs)

end NameRegistry.Toml
