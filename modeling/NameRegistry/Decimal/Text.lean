import NameRegistry.Decimal

/-! # Written decimals

A decimal is written with exactly the places of its scale. It is read from digits with an optional
sign, point and power of ten. Places past the 28th, and places that would take the mantissa past 96
bits, are rounded off, a five going up; what stands after the digit that decides does not count.
Whole digits that do not fit are refused.
-/
namespace NameRegistry.Decimal

def signText (d : Decimal) : List Char := if d.negative then ['-'] else []

/-- The digits of a number, with zeros in front up to a width. -/
def paddedDigits (width n : Nat) : List Char :=
  let ds := Nat.toDigits 10 n
  List.replicate (width - ds.length) '0' ++ ds

def wholeDigits (d : Decimal) : List Char := Nat.toDigits 10 (d.mantissa / 10 ^ d.scale)

def fractionDigits (d : Decimal) : List Char :=
  if d.scale = 0 then [] else paddedDigits d.scale (d.mantissa % 10 ^ d.scale)

def joinPoint (whole fraction : List Char) : List Char :=
  if fraction.isEmpty then whole else whole ++ '.' :: fraction

def toText (d : Decimal) : String :=
  String.ofList (d.signText ++ joinPoint d.wholeDigits d.fractionDigits)

/-- With exactly the given places: further digits are cut off, missing ones are zeros. The sign
stays even where no digit other than zero does. -/
def toFixed (places : Nat) (d : Decimal) : String :=
  let fraction := (d.fractionDigits ++ List.replicate places '0').take places
  String.ofList (d.signText ++ joinPoint d.wholeDigits fraction)

instance : ToString Decimal := ⟨toText⟩

def digit? (c : Char) : Option Nat := if c.isDigit then some (c.toNat - '0'.toNat) else none

/-- What has been read so far: the mantissa, the places and whether there was a digit. -/
structure Partial where
  mantissa : Nat
  places : Nat
  started : Bool

/-- Whether an underscore after the last place counts as a digit there, and so ends the number. It
does as long as all digits but the last fit one machine word with some room to spare. -/
def Partial.endsAtUnderscore (p : Partial) : Bool :=
  p.places = 28 && p.mantissa / 10 < 1844674407370954906

/-- Ends reading at a digit for which there is no room. Only digits and underscores may follow. -/
def Partial.roundOff (p : Partial) (digit : Nat) (rest : List Char) : Option (Nat × Nat) :=
  if !rest.all (fun c => c.isDigit || c = '_') then none
  else if digit < 5 then some (p.mantissa, p.places)
  else if p.mantissa + 1 < 2 ^ 96 then some (p.mantissa + 1, p.places)
  else if p.places = 0 then none
  else some ((p.mantissa + 5) / 10, p.places - 1)

/-- Reads digits and at most one point; underscores may stand between digits. -/
def readDigits (point : Bool) (p : Partial) : List Char → Option (Nat × Nat)
  | [] => if p.started then some (p.mantissa, p.places) else none
  | '.' :: r => if point then none else readDigits true p r
  | '_' :: r =>
    if !p.started then none
    else if p.endsAtUnderscore then p.roundOff 0 r
    else readDigits point p r
  | c :: r =>
    match digit? c with
    | none => none
    | some digit =>
      let m := p.mantissa * 10 + digit
      if point then
        if p.places < 28 ∧ m < 2 ^ 96 then readDigits point ⟨m, p.places + 1, true⟩ r
        else p.roundOff digit r
      else if m < 2 ^ 96 then readDigits point ⟨m, p.places, true⟩ r
      else none

def readSign : List Char → Bool × List Char
  | '-' :: r => (true, r)
  | '+' :: r => (false, r)
  | r => (false, r)

/-- A number without a power of ten. What is read as zero has no sign. -/
def readPlain (cs : List Char) : Option Decimal :=
  let (negative, r) := readSign cs
  (readDigits false ⟨0, 0, false⟩ r).bind fun (m, s) => ofParts? (negative && m ≠ 0) m s

/-- A count of places to move the point by, at most 28. -/
def readCount (cs : List Char) : Option Nat :=
  let ds := match cs with
    | '+' :: r => r
    | r => r
  if ds.isEmpty || !ds.all Char.isDigit then none
  else
    let n := Nat.ofDigitChars 10 ds 0
    if n ≤ 28 then some n else none

/-- A power of ten, and whether it is a negative one. -/
def readPower : List Char → Option (Bool × Nat)
  | '-' :: r => (readCount r).map (true, ·)
  | r => (readCount r).map (false, ·)

/-- Moves the point to the left. Places past the 28th are rounded off, a half going up; the sign
stays even if nothing else does. -/
def shiftLeft (d : Decimal) (n : Nat) : Option Decimal :=
  let unit := 10 ^ (d.scale + n - 28)
  ofParts? d.negative ((2 * d.mantissa + unit) / (2 * unit)) (min (d.scale + n) 28)

/-- Moves the point to the right, past the last place by zeros. -/
def shiftRight (d : Decimal) (n : Nat) : Option Decimal :=
  ofParts? d.negative (d.mantissa * 10 ^ (n - d.scale)) (d.scale - n)

def ofText? (s : String) : Option Decimal :=
  let cs := s.toList
  let number := cs.takeWhile fun c => c ≠ 'e' && c ≠ 'E'
  match cs.drop number.length with
  | [] => readPlain number
  | _ :: power =>
    match readPlain number, readPower power with
    | some d, some (true, n) => d.shiftLeft n
    | some d, some (false, n) => d.shiftRight n
    | _, _ => none

end NameRegistry.Decimal
