import NameRegistry.Datum
import NameRegistry.Keyed

/-! # Paths into data trees

A path such as `a.b[0].c` leads from the entry of an object down into its entries and items. A value
can be put at any path: what stands in the way is replaced by objects and lists, and lists are
filled up with null. An object that is put where one stands already is merged into it.
-/
namespace NameRegistry

namespace Datum

/-- The way from a value to a part of it. -/
inductive Step
  | entry (name : String)
  /-- An item by its number, from the end where that is negative. -/
  | item (number : Int)
  deriving DecidableEq

namespace Step

/-- What names in paths are made of. Blanks belong to the name. -/
def isNameChar (c : Char) : Bool := c.isAlphanum || c = '_' || c = '-' || c = ' '

def readName (cs : List Char) : Option (String × List Char) :=
  let name := cs.takeWhile isNameChar
  if name.isEmpty then none else some (String.ofList name, cs.drop name.length)

def skipBlanks (cs : List Char) : List Char := cs.dropWhile fun c => c = ' ' || c = '\t'

/-- The number of an item and the bracket after it. -/
def readNumber (cs : List Char) : Option (Int × List Char) :=
  let (negative, r) := match skipBlanks cs with
    | '-' :: r => (true, r)
    | r => (false, r)
  let ds := r.takeWhile Char.isDigit
  let n : Int := Nat.ofDigitChars 10 ds 0
  let n := if negative then -n else n
  match skipBlanks (r.drop ds.length) with
  | ']' :: r => if ds.isEmpty ∨ n < -2 ^ 63 ∨ 2 ^ 63 ≤ n then none else some (n, r)
  | _ => none

/-- The steps after the first of a path. Each takes at least one character. -/
def readAll : (fuel : Nat) → List Char → Option (List Step)
  | _, [] => some []
  | 0, _ => none
  | fuel + 1, '.' :: r => do
    let (name, r) ← readName r
    return entry name :: (← readAll fuel r)
  | fuel + 1, '[' :: r => do
    let (number, r) ← readNumber r
    return item number :: (← readAll fuel r)
  | _, _ => none

end Step

/-- The steps of a written path, which begins with a name. -/
def path? (s : String) : Option (List Step) := do
  let (name, r) ← Step.readName s.toList
  return .entry name :: (← Step.readAll r.length r)

/-- The entries of an object; anything else has none. -/
def entries : Datum → List (String × Datum)
  | object es => es
  | _ => []

/-- The items of a list; anything else has none. -/
def items : Datum → List Datum
  | list ds => ds
  | _ => []

mutual

/-- Puts a value under a name. An object is merged into the one that is there. -/
def put (name : String) : (value d : Datum) → Datum
  | object es, d =>
    object (Keyed.set d.entries name (putAll es ((Keyed.get? d.entries name).getD (object []))))
  | value, d => object (Keyed.set d.entries name value)

def putAll : List (String × Datum) → Datum → Datum
  | [], d => d
  | (name, value) :: rest, d => putAll rest (put name value d)

end

/-- Changes an item of a list that is filled up to have it: behind its end, or in front of its start
for a number that is too far from the end. -/
def changeItem (number : Int) (change : Datum → Datum) (ds : List Datum) : List Datum :=
  let n := if number < 0 then number + ds.length else number
  let ds := List.replicate (-n).toNat null ++ ds
  let ds := ds ++ List.replicate (n.toNat + 1 - ds.length) null
  ds.modify n.toNat change

/-- Puts a value at the end of a path. -/
def putAt (d value : Datum) : List Step → Datum
  | [] => value
  | [.entry name] => put name value d
  | .entry name :: path =>
    object (Keyed.set d.entries name (((Keyed.get? d.entries name).getD null).putAt value path))
  | .item number :: path => list (changeItem number (fun item => item.putAt value path) d.items)

end Datum
end NameRegistry
