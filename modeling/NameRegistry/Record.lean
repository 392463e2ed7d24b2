import NameRegistry.Datum
import NameRegistry.EnumSet
import NameRegistry.Keyed
import NameRegistry.Registration.Error
import NameRegistry.SortedSet

/-! # Records

How values are stored as data trees and loaded again. A record is an object whose entries may be in
any order and among others, or the list of its values. Loading fails where the tree has the wrong
shape, and where a value of the right shape breaks a rule; the rule is then reported. Of several
wrong values the one that stands first in the tree counts, and one that is missing only if no other
is wrong.
-/
namespace NameRegistry

open Billing (BillingError)
open Registration (RegistrationError)

inductive LoadError
  | malformed
  | billing (cause : BillingError)
  | registration (cause : RegistrationError)
  deriving DecidableEq

/-- What is reported of a rule that is broken. -/
def LoadError.message? : LoadError → Option String
  | malformed => none
  | billing cause => some cause.message
  | registration cause => some cause.message

class Storable (α : Type) where
  store : α → Datum

class Loadable (α : Type) where
  load : Datum → Except LoadError α

export Storable (store)
export Loadable (load)

/-- What is read from a part of a record: a value, or the fault that stands first and its place. -/
inductive Reading (α : Type)
  | value (a : α)
  | fault (place : Nat) (cause : LoadError)

namespace Reading

variable {α β : Type}

def map (f : α → β) : Reading α → Reading β
  | value a => value (f a)
  | fault place cause => fault place cause

/-- Joins two readings. Of two faults the one that stands first is kept. -/
def seq : Reading (α → β) → Reading α → Reading β
  | value f, r => r.map f
  | fault place cause, value _ => fault place cause
  | fault place cause, fault place' cause' =>
    if place' < place then fault place' cause' else fault place cause

instance : Applicative Reading where
  pure := value
  map := map
  seq f a := f.seq (a ())

def toExcept : Reading α → Except LoadError α
  | value a => .ok a
  | fault _ cause => .error cause

@[simp] theorem map_value (f : α → β) (a : α) : f <$> value a = value (f a) := rfl

@[simp] theorem seq_value (f : α → β) (a : α) : value f <*> value a = value (f a) := rfl

/-- Nothing is read where anything cannot be. -/
theorem seq_eq_value {f : Reading (α → β)} {r : Reading α} {b : β} :
    f.seq r = value b ↔ ∃ g a, f = value g ∧ r = value a ∧ g a = b := by
  cases f with
  | value g => cases r <;> simp [seq, map]
  | fault place cause =>
    cases r with
    | value a => simp [seq]
    | fault place' cause' =>
      rw [seq]
      split <;> simp

end Reading

namespace Record

section

variable {α : Type}

def ofOption : Option α → Except LoadError α
  | some a => .ok a
  | none => .error .malformed

/-- The entry under a name, if it is there, as the given function reads it. -/
def entryBy (read : Datum → Except LoadError α) (entries : List (String × Datum)) (name : String) :
    Reading (Option α) :=
  match Keyed.get? entries name with
  | none => .value none
  | some d =>
    match read d with
    | .ok a => .value (some a)
    | .error cause => .fault (entries.findIdx fun e => e.1 = name) cause

/-- An entry that has to be there. -/
def neededBy (read : Datum → Except LoadError α) (entries : List (String × Datum)) (name : String) :
    Reading α :=
  match entryBy read entries name with
  | .value (some a) => .value a
  | .value none => .fault entries.length .malformed
  | .fault place cause => .fault place cause

/-- An entry that stands for a default where it is missing. -/
def givenBy (read : Datum → Except LoadError α) (entries : List (String × Datum)) (name : String)
    (default : α) : Reading α :=
  (entryBy read entries name).map (·.getD default)

variable [Loadable α]

def needed (entries : List (String × Datum)) (name : String) : Reading α :=
  neededBy load entries name

/-- A value that may be null. -/
def loadOption : Datum → Except LoadError (Option α)
  | .null => .ok none
  | d => (load d).map some

/-- An entry that may be null or missing. -/
def optional (entries : List (String × Datum)) (name : String) : Reading (Option α) :=
  (entryBy loadOption entries name).map Option.join

def given (entries : List (String × Datum)) (name : String) (default : α) : Reading α :=
  givenBy load entries name default

end

/-- The values of a record in their order as a list. -/
structure Layout where
  names : List String
  /-- How many values there have to be; those after them may be left out. -/
  least : Nat := names.length
  /-- Whether more values than there are names may follow. -/
  extensible : Bool := false

/-- Loads a record by a reading of its entries. The length of a list counts only if all values that
are there can be read. -/
def Layout.load {α : Type} (l : Layout) (read : List (String × Datum) → Reading α) :
    Datum → Except LoadError α
  | .object entries => (read entries).toExcept
  | .list values => do
    let a ← (read (l.names.zip values)).toExcept
    if l.least ≤ values.length ∧ (l.extensible ∨ values.length ≤ l.names.length) then return a
    else throw .malformed
  | _ => .error .malformed

/-- One of the given values, by its name as a text. -/
def ofWord {α : Type} (all : List α) (name : α → String) : Datum → Except LoadError α
  | .text s => ofOption (all.find? fun a => name a == s)
  | _ => .error .malformed

/-- One of the given values, by its name alone or by its name before null. -/
def ofName {α : Type} (all : List α) (name : α → String) : Datum → Except LoadError α
  | .object [(s, .null)] => ofWord all name (.text s)
  | d => ofWord all name d

theorem ofName_name {α : Type} {all : List α} {name : α → String}
    (hinj : ∀ a ∈ all, ∀ b ∈ all, name a = name b → a = b) {a : α} (ha : a ∈ all) :
    ofName all name (.text (name a)) = .ok a := by
  change ofWord all name (.text (name a)) = .ok a
  rw [ofWord]
  cases h : all.find? fun b => name b == name a with
  | none =>
    have := List.find?_eq_none.1 h a ha
    simp at this
  | some b =>
    have hb := List.find?_some h
    have : b = a := hinj b (List.mem_of_find?_eq_some h) a ha (by simpa using hb)
    simp [ofOption, this]

end Record

open Record

instance : Storable String := ⟨.text⟩

instance : Loadable String where
  load
    | .text s => .ok s
    | _ => .error .malformed

/-- A whole number within bounds. -/
def Record.wholeWithin (first last : Int) : Datum → Except LoadError Int
  | .whole n => if first ≤ n ∧ n ≤ last then .ok n else .error .malformed
  | _ => .error .malformed

instance : Storable UInt32 := ⟨fun n => .whole n.toNat⟩
instance : Loadable UInt32 := ⟨fun d => (wholeWithin 0 (2 ^ 32 - 1) d).map fun n => .ofNat n.toNat⟩
instance : Loadable UInt64 := ⟨fun d => (wholeWithin 0 (2 ^ 64 - 1) d).map fun n => .ofNat n.toNat⟩
instance : Storable Int64 := ⟨fun n => .whole n.toInt⟩
instance : Loadable Int64 := ⟨fun d => (wholeWithin (-2 ^ 63) (2 ^ 63 - 1) d).map .ofInt⟩

section

variable {α : Type}

instance [Storable α] : Storable (Option α) where
  store
    | some a => store a
    | none => .null

instance [Loadable α] : Loadable (Option α) := ⟨loadOption⟩

instance [Storable α] : Storable (List α) := ⟨fun as => .list (as.map store)⟩

instance [Loadable α] : Loadable (List α) where
  load
    | .list items => items.mapM load
    | _ => .error .malformed

instance [DecidableEq α] [Enumerated α] [Storable α] : Storable (EnumSet α) :=
  ⟨fun s => store s.toList⟩

instance [DecidableEq α] [Enumerated α] [Loadable α] : Loadable (EnumSet α) :=
  ⟨fun d => (load d).map EnumSet.ofList⟩

instance [Ord α] [Storable α] : Storable (SortedSet α) := ⟨fun s => store s.toList⟩

instance [Ord α] [Std.TransOrd α] [Std.LawfulEqOrd α] [Loadable α] : Loadable (SortedSet α) :=
  ⟨fun d => (load d).map SortedSet.ofList⟩

end

theorem load_store_text (s : String) : load (store s) = .ok s := rfl

theorem load_store_uint32 (n : UInt32) : load (store n) = .ok n := by
  have h := n.toNat_lt
  have hle : (0 : Int) ≤ n.toNat ∧ (n.toNat : Int) ≤ 2 ^ 32 - 1 := by omega
  show (wholeWithin 0 (2 ^ 32 - 1) (.whole n.toNat)).map _ = _
  rw [wholeWithin, if_pos hle]
  simp [Except.map]

/-- A list is loaded as it was stored, if its items are. -/
theorem load_store_list {α : Type} [Storable α] [Loadable α] {as : List α}
    (h : ∀ a ∈ as, load (store a) = .ok a) : load (store as) = .ok as := by
  show (as.map store).mapM load = .ok as
  induction as with
  | nil => rfl
  | cons a as ih =>
    rw [List.map_cons, List.mapM_cons, h a (by simp), ih fun b hb => h b (by simp [hb])]
    rfl

end NameRegistry
