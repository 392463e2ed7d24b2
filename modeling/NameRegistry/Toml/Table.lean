import NameRegistry.Datum
import NameRegistry.Keyed

/-! # Tables of settings files

The tables of a TOML document while it is read. A table is made by its own header, by the header of
a table below it, or by a dotted key; only the second kind may still get a header, and only the
other two may get keys. No name is given twice.
-/
namespace NameRegistry.Toml

/-- How a table came to be. -/
inductive TableKind
  | header
  | implied
  | dotted
  deriving DecidableEq

inductive Node
  | value (d : Datum)
  | table (kind : TableKind) (entries : List (String × Node))
  /-- The elements of an array of tables. -/
  | tables (elements : List (List (String × Node)))

abbrev Entries := List (String × Node)

namespace Entries

/-- Enters something under a name that is new. -/
def addNew (es : Entries) (name : String) (n : Node) : Option Entries :=
  if (Keyed.get? es name).isSome then none else some (Keyed.set es name n)

/-- Changes the table at the path of a header. Tables on the way that are not there are implied, and
of an array of tables the last one is meant. -/
def atHeader (change : Entries → Option Entries) : List String → Entries → Option Entries
  | [], es => change es
  | name :: path, es =>
    match Keyed.get? es name with
    | none => (atHeader change path []).map fun sub => Keyed.set es name (.table .implied sub)
    | some (.value _) => none
    | some (.table kind sub) =>
      (atHeader change path sub).map fun sub => Keyed.set es name (.table kind sub)
    | some (.tables elements) =>
      match elements.getLast? with
      | none => none
      | some last => (atHeader change path last).map fun last =>
          Keyed.set es name (.tables (elements.dropLast ++ [last]))

/-- The table of a header begins. -/
def openTable (parents : List String) (name : String) (es : Entries) : Option Entries :=
  atHeader (fun es => match Keyed.get? es name with
    | none => some (Keyed.set es name (.table .header []))
    | some (.table .implied sub) => some (Keyed.set es name (.table .header sub))
    | _ => none) parents es

/-- A further element of an array of tables begins. -/
def openElement (parents : List String) (name : String) (es : Entries) : Option Entries :=
  atHeader (fun es => match Keyed.get? es name with
    | none => some (Keyed.set es name (.tables [[]]))
    | some (.tables elements) => some (Keyed.set es name (.tables (elements ++ [[]])))
    | _ => none) parents es

/-- Enters a value under a dotted key. The table that holds it has to be made by dotted keys too. -/
def assign (name : String) (d : Datum) : List String → Entries → Option Entries
  | [], es => es.addNew name (.value d)
  | parent :: path, es =>
    match Keyed.get? es parent with
    | none => (assign name d path []).map fun sub => Keyed.set es parent (.table .dotted sub)
    | some (.table .dotted sub) =>
      (assign name d path sub).map fun sub => Keyed.set es parent (.table .dotted sub)
    | some (.table .implied sub) =>
      if path.isEmpty then none
      else (assign name d path sub).map fun sub => Keyed.set es parent (.table .implied sub)
    | some (.tables elements) =>
      match path.isEmpty, elements.getLast? with
      | false, some last => (assign name d path last).map fun last =>
          Keyed.set es parent (.tables (elements.dropLast ++ [last]))
      | _, _ => none
    | _ => none

end Entries

mutual

def Node.toDatum : Node → Datum
  | .value d => d
  | .table _ entries => .object (entriesToData entries)
  | .tables elements => .list (elementsToData elements)

/-- The entries of a finished table. -/
def entriesToData : List (String × Node) → List (String × Datum)
  | [] => []
  | (name, n) :: rest => (name, n.toDatum) :: entriesToData rest

def elementsToData : List (List (String × Node)) → List Datum
  | [] => []
  | entries :: rest => .object (entriesToData entries) :: elementsToData rest

end

namespace Entries

/-- A name that is taken is refused. -/
theorem addNew_eq_none {es : Entries} {name : String} {n : Node} :
    es.addNew name n = none ↔ (Keyed.get? es name).isSome = true := by
  rw [addNew]
  split <;> simp_all

end Entries
end NameRegistry.Toml
