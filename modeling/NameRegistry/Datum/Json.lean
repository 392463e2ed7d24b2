import NameRegistry.Datum
import NameRegistry.Identifier
import NameRegistry.Keyed

/-! # JSON text

A JSON text is read as the data tree it stands for. The entries of an object are put in the order of
their names, and of several with one name the last counts. A number written without fraction and
power of ten is whole if it fits 64 bits. Any other number is a double, and so is zero with a minus
sign.

Each reader takes its part off the front of the text and gives the rest back.
-/
namespace NameRegistry.Datum.Json

def skipBlanks (cs : List Char) : List Char :=
  cs.dropWhile fun c => c = ' ' || c = '\t' || c = '\n' || c = '\r'

/-- The text after a word that it has to begin with. -/
def afterWord? : List Char → List Char → Option (List Char)
  | [], cs => some cs
  | a :: word, c :: cs => if a = c then afterWord? word cs else none
  | _ :: _, [] => none

/-- The number that four hexadecimal digits stand for. -/
def codeUnit? (digits : List Char) : Option Nat :=
  (digits.mapM Uuid.hexValue?).map fun ds => ds.foldl (fun n d => 16 * n + d) 0

/-- The character that a high and a low surrogate stand for together. -/
def pair? (high low : Nat) : Option Char :=
  if 0xd800 ≤ high ∧ high < 0xdc00 ∧ 0xdc00 ≤ low ∧ low < 0xe000 then
    some (Char.ofNat (0x10000 + (high - 0xd800) * 0x400 + (low - 0xdc00)))
  else none

def single? (unit : Nat) : Option Char :=
  if unit.isValidChar then some (Char.ofNat unit) else none

def escape? : Char → Option Char
  | '"' => some '"'
  | '\\' => some '\\'
  | '/' => some '/'
  | 'b' => some '\x08'
  | 'f' => some '\x0c'
  | 'n' => some '\n'
  | 'r' => some '\r'
  | 't' => some '\t'
  | _ => none

/-- Puts a character in front of what else is read. -/
def prepend (c : Char) (r : Option (List Char × List Char)) : Option (List Char × List Char) :=
  r.map fun p => (c :: p.1, p.2)

/-- The rest of a text in quotes. -/
def quoted : List Char → Option (List Char × List Char)
  | [] => none
  | '"' :: r => some ([], r)
  | '\\' :: 'u' :: a :: b :: c :: d :: r =>
    (codeUnit? [a, b, c, d]).bind fun unit =>
      match single? unit, r with
      | some x, r => prepend x (quoted r)
      | none, '\\' :: 'u' :: e :: f :: g :: h :: r =>
        (codeUnit? [e, f, g, h]).bind fun low => (pair? unit low).bind fun x => prepend x (quoted r)
      | none, _ => none
  | '\\' :: e :: r => (escape? e).bind fun x => prepend x (quoted r)
  | c :: r => if 0x20 ≤ c.toNat then prepend c (quoted r) else none

/-- At least one digit. -/
def digits (cs : List Char) : Option (List Char × List Char) :=
  let ds := cs.takeWhile Char.isDigit
  if ds.isEmpty then none else some (ds, cs.drop ds.length)

/-- The digits in front of the point: one zero alone, or none in front. -/
def whole : List Char → Option (List Char × List Char)
  | '0' :: r => some (['0'], r)
  | r => digits r

def fraction : List Char → Option (List Char × List Char)
  | '.' :: r => digits r
  | r => some ([], r)

def power : List Char → Option (Option Int × List Char)
  | 'e' :: r | 'E' :: r =>
    let (negative, r) := Decimal.readSign r
    (digits r).map fun (ds, r) =>
      let n : Int := Nat.ofDigitChars 10 ds 0
      (some (if negative then -n else n), r)
  | r => some (none, r)

/-- A whole number as it is written, if it has no other form. -/
def wholeNumber? (negative : Bool) (digits : List Char) : Option Datum :=
  let n : Int := Nat.ofDigitChars 10 digits 0
  if negative then if 0 < n ∧ n ≤ 2 ^ 63 then some (.whole (-n)) else none
  else if n < 2 ^ 64 then some (.whole n) else none

def number (cs : List Char) : Option (Datum × List Char) := do
  let (negative, r) := match cs with
    | '-' :: r => (true, r)
    | r => (false, r)
  let (whole, r) ← whole r
  let (fraction, r) ← fraction r
  let (power, r) ← power r
  let double : Datum := .double (.ofNumeral negative whole fraction (power.getD 0))
  if fraction.isEmpty ∧ power.isNone then some ((wholeNumber? negative whole).getD double, r)
  else some (double, r)

def inOrder (entries : List (String × Datum)) : List (String × Datum) :=
  entries.mergeSort fun a b => a.1 ≤ b.1

-- The readers of values call each other. Each call has one step of fuel less; a value takes at most
-- two calls for each of its characters.
mutual

def value (fuel : Nat) (cs : List Char) : Option (Datum × List Char) :=
  match fuel with
  | 0 => none
  | fuel + 1 =>
    match skipBlanks cs with
    | '"' :: r => (quoted r).map fun (s, r) => (.text (String.ofList s), r)
    | '[' :: r =>
      let r := skipBlanks r
      if r.head? = some ']' then some (.list [], r.tail)
      else (items fuel r).map fun (ds, r) => (.list ds, r)
    | '\x7b' :: r =>
      let r := skipBlanks r
      if r.head? = some '\x7d' then some (.object [], r.tail)
      else (entries fuel [] r).map fun (es, r) => (.object (inOrder es), r)
    | 't' :: r => (afterWord? ['r', 'u', 'e'] r).map fun r => (.truth true, r)
    | 'f' :: r => (afterWord? ['a', 'l', 's', 'e'] r).map fun r => (.truth false, r)
    | 'n' :: r => (afterWord? ['u', 'l', 'l'] r).map fun r => (.null, r)
    | r => number r

/-- The items of a list that is not empty, and its closing bracket. -/
def items (fuel : Nat) (cs : List Char) : Option (List Datum × List Char) :=
  match fuel with
  | 0 => none
  | fuel + 1 => do
    let (d, r) ← value fuel cs
    match skipBlanks r with
    | ',' :: r => (items fuel r).map fun (ds, r) => (d :: ds, r)
    | ']' :: r => some ([d], r)
    | _ => none

/-- The entries of an object that is not empty, after those already read, and its closing brace. -/
def entries (fuel : Nat) (es : List (String × Datum)) (cs : List Char) :
    Option (List (String × Datum) × List Char) :=
  match fuel with
  | 0 => none
  | fuel + 1 =>
    match skipBlanks cs with
    | '"' :: r => do
      let (name, r) ← quoted r
      let r ← afterWord? [':'] (skipBlanks r)
      let (d, r) ← value fuel r
      let es := Keyed.set es (String.ofList name) d
      match skipBlanks r with
      | ',' :: r => entries fuel es r
      | '\x7d' :: r => some (es, r)
      | _ => none
    | _ => none

end

/-- The data tree of a text that holds nothing else. -/
def ofText? (s : String) : Option Datum :=
  match value (2 * s.length + 2) s.toList with
  | some (d, r) => if (skipBlanks r).isEmpty then some d else none
  | none => none

end NameRegistry.Datum.Json
