/-! # Sets over an enumerated type

A set of flags or statuses is the sublist of the type's own listing that it holds, so two sets with
the same members are equal and a set always prints in the order of the type.
-/
namespace NameRegistry

/-- A type whose values are listed, in their order. -/
class Enumerated (α : Type) where
  all : List α
  mem_all : ∀ a, a ∈ all

/-- A set of values of an enumerated type. -/
structure EnumSet (α : Type) [DecidableEq α] [Enumerated α] where
  toList : List α
  canonical : Enumerated.all.filter (· ∈ toList) = toList

namespace EnumSet

variable {α : Type} [DecidableEq α] [Enumerated α]

instance : DecidableEq (EnumSet α) := fun s t =>
  if h : s.toList = t.toList then .isTrue (by cases s; cases t; cases h; rfl)
  else .isFalse fun e => h (congrArg toList e)

instance : Membership α (EnumSet α) where
  mem s a := a ∈ s.toList

instance (a : α) (s : EnumSet α) : Decidable (a ∈ s) := inferInstanceAs (Decidable (a ∈ s.toList))

/-- The members are the values that satisfy the test. -/
def ofPred (p : α → Bool) : EnumSet α where
  toList := Enumerated.all.filter p
  canonical := by
    apply List.filter_congr
    intro a ha
    simp [List.mem_filter, ha]

@[simp] theorem mem_ofPred {p : α → Bool} {a : α} : a ∈ ofPred p ↔ p a = true := by
  show a ∈ Enumerated.all.filter p ↔ _
  simp [List.mem_filter, Enumerated.mem_all]

theorem mem_toList {s : EnumSet α} {a : α} : a ∈ s.toList ↔ a ∈ s := Iff.rfl

@[ext] theorem ext {s t : EnumSet α} (h : ∀ a, a ∈ s ↔ a ∈ t) : s = t := by
  have key : s.toList = t.toList := by
    rw [← s.canonical, ← t.canonical]
    apply List.filter_congr
    intro a _
    simpa [mem_toList] using h a
  cases s; cases t; cases key; rfl

def empty : EnumSet α := ofPred fun _ => false

def ofList (xs : List α) : EnumSet α := ofPred fun a => a ∈ xs

def insert (a : α) (s : EnumSet α) : EnumSet α := ofPred fun b => b = a ∨ b ∈ s

def erase (a : α) (s : EnumSet α) : EnumSet α := ofPred fun b => b ≠ a ∧ b ∈ s

def filter (p : α → Bool) (s : EnumSet α) : EnumSet α := ofPred fun b => p b ∧ b ∈ s

def isEmpty (s : EnumSet α) : Bool := s.toList.isEmpty

@[simp] theorem not_mem_empty {a : α} : ¬ a ∈ (empty : EnumSet α) := by simp [empty]

@[simp] theorem mem_ofList {xs : List α} {a : α} : a ∈ ofList xs ↔ a ∈ xs := by simp [ofList]

@[simp] theorem mem_insert {a b : α} {s : EnumSet α} : b ∈ s.insert a ↔ b = a ∨ b ∈ s := by
  simp [insert]

@[simp] theorem mem_erase {a b : α} {s : EnumSet α} : b ∈ s.erase a ↔ b ≠ a ∧ b ∈ s := by
  simp [erase]

@[simp] theorem mem_filter {p : α → Bool} {a : α} {s : EnumSet α} :
    a ∈ s.filter p ↔ p a = true ∧ a ∈ s := by simp [filter]

theorem isEmpty_iff {s : EnumSet α} : s.isEmpty = true ↔ ∀ a, ¬ a ∈ s := by
  rw [isEmpty, List.isEmpty_iff, List.eq_nil_iff_forall_not_mem]
  rfl

@[simp] theorem ofList_toList (s : EnumSet α) : ofList s.toList = s := by
  ext a
  simp [mem_toList]

end EnumSet
end NameRegistry
