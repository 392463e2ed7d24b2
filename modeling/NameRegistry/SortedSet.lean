/-! # Finite sets kept in order

A set is the strictly increasing list of its members. That list is determined by the members, so
equality of sets is equality of the lists, and a set lists its members in order.
-/
namespace NameRegistry

/-- A finite set of values of an ordered type. -/
structure SortedSet (α : Type) [Ord α] where
  toList : List α
  sorted : toList.Pairwise fun a b => compare a b = .lt

namespace SortedSet

open Std

variable {α : Type} [Ord α]

instance [DecidableEq α] : DecidableEq (SortedSet α) := fun s t =>
  if h : s.toList = t.toList then .isTrue (by cases s; cases t; cases h; rfl)
  else .isFalse fun e => h (congrArg toList e)

instance : Membership α (SortedSet α) where
  mem s a := a ∈ s.toList

instance [DecidableEq α] (a : α) (s : SortedSet α) : Decidable (a ∈ s) :=
  inferInstanceAs (Decidable (a ∈ s.toList))

theorem mem_toList {s : SortedSet α} {a : α} : a ∈ s.toList ↔ a ∈ s := Iff.rfl

theorem ext_toList {s t : SortedSet α} (h : s.toList = t.toList) : s = t := by
  cases s; cases t; cases h; rfl

def empty : SortedSet α := ⟨[], .nil⟩

@[simp] theorem not_mem_empty {a : α} : ¬ a ∈ (empty : SortedSet α) := List.not_mem_nil

/-- Puts a value before the first greater one, and nowhere if it is there already. -/
def place (a : α) : List α → List α
  | [] => [a]
  | b :: r =>
    match compare a b with
    | .lt => a :: b :: r
    | .eq => b :: r
    | .gt => b :: place a r

theorem mem_place [LawfulEqOrd α] {a x : α} {l : List α} : x ∈ place a l ↔ x = a ∨ x ∈ l := by
  induction l with
  | nil => simp [place]
  | cons b r ih =>
    rw [place]
    split
    · simp
    · next h =>
      cases LawfulEqOrd.eq_of_compare h
      simp
    · simp only [List.mem_cons, ih]
      grind

theorem place_sorted [TransOrd α] [LawfulEqOrd α] (a : α) {l : List α}
    (h : l.Pairwise fun a b => compare a b = .lt) :
    (place a l).Pairwise fun a b => compare a b = .lt := by
  induction l with
  | nil => simp [place]
  | cons b r ih =>
    obtain ⟨hb, hr⟩ := List.pairwise_cons.1 h
    rw [place]
    split
    · next hab =>
      refine List.pairwise_cons.2 ⟨fun x hx => ?_, h⟩
      rcases List.mem_cons.1 hx with rfl | hx
      · exact hab
      · exact TransCmp.lt_trans hab (hb x hx)
    · exact h
    · next hab =>
      refine List.pairwise_cons.2 ⟨fun x hx => ?_, ih hr⟩
      rcases mem_place.1 hx with rfl | hx
      · exact OrientedCmp.lt_of_gt hab
      · exact hb x hx

variable [TransOrd α] [LawfulEqOrd α]

def insert (a : α) (s : SortedSet α) : SortedSet α := ⟨place a s.toList, place_sorted a s.sorted⟩

@[simp] theorem mem_insert {a x : α} {s : SortedSet α} : x ∈ s.insert a ↔ x = a ∨ x ∈ s := mem_place

def ofList (xs : List α) : SortedSet α := xs.foldr insert empty

@[simp] theorem mem_ofList {xs : List α} {x : α} : x ∈ ofList xs ↔ x ∈ xs := by
  induction xs with
  | nil => simp [ofList]
  | cons a r ih => simp [ofList, ← ih]

def union (s t : SortedSet α) : SortedSet α := s.toList.foldr insert t

@[simp] theorem mem_union {s t : SortedSet α} {x : α} : x ∈ s.union t ↔ x ∈ s ∨ x ∈ t := by
  have key : ∀ xs : List α, x ∈ xs.foldr insert t ↔ x ∈ xs ∨ x ∈ t := by
    intro xs
    induction xs with
    | nil => simp
    | cons a r ih => simp [ih, or_assoc]
  exact key s.toList

def isEmpty (s : SortedSet α) : Bool := s.toList.isEmpty

omit [TransOrd α] [LawfulEqOrd α] in
theorem place_of_forall_lt {a : α} {l : List α} (h : ∀ x ∈ l, compare a x = .lt) :
    place a l = a :: l := by
  cases l with
  | nil => rfl
  | cons b r => rw [place, h b (by simp)]

/-- Listing a set and collecting the list gives the set back. -/
@[simp] theorem ofList_toList (s : SortedSet α) : ofList s.toList = s := by
  have key : ∀ l : List α, (l.Pairwise fun a b => compare a b = .lt) → (ofList l).toList = l := by
    intro l
    induction l with
    | nil => intro _; rfl
    | cons a r ih =>
      intro h
      obtain ⟨ha, hr⟩ := List.pairwise_cons.1 h
      show place a (ofList r).toList = a :: r
      rw [ih hr, place_of_forall_lt ha]
  exact ext_toList (key s.toList s.sorted)

end SortedSet
end NameRegistry
