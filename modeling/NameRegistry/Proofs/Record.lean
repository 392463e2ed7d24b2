import NameRegistry.Proofs.Text.Identifier
import NameRegistry.Proofs.Text.Instant
import NameRegistry.Record.Value

/-! # Records loaded again

A value is lawful if it is loaded as it was stored. An entry is found under its name whatever other
entries there are, so a record of lawful values is lawful, and so are lists and sets of them.
Amounts are lawful but for the sign of a zero, which their texts do not keep.
-/
namespace NameRegistry

open Record

/-- A type whose values are loaded as they were stored. None is stored as null, which stands for no
value. -/
class LawfulStorable (α : Type) [Storable α] [Loadable α] : Prop where
  load_store : ∀ a : α, load (store a) = .ok a
  store_ne_null : ∀ a : α, store a ≠ .null

export LawfulStorable (load_store store_ne_null)

attribute [simp] load_store

/-- What is read at a place, and why it cannot be. -/
def Reading.ofExcept {α : Type} (place : Nat) : Except LoadError α → Reading α
  | .ok a => .value a
  | .error cause => .fault place cause

@[simp] theorem Reading.ofExcept_ok {α : Type} (place : Nat) (a : α) :
    ofExcept place (.ok a) = .value a := rfl

theorem Reading.map_eq_value {α β : Type} {f : α → β} {r : Reading α} {b : β} :
    f <$> r = .value b ↔ ∃ a, r = .value a ∧ f a = b := by
  change r.map f = .value b ↔ _
  cases r <;> simp [map]

theorem Reading.ap_eq_value {α β : Type} {f : Reading (α → β)} {r : Reading α} {b : β} :
    f <*> r = .value b ↔ ∃ g a, f = .value g ∧ r = .value a ∧ g a = b := seq_eq_value

namespace Record

variable {α : Type}

/-- What is loaded by a layout has been read from some entries, whether these were named or not. -/
theorem Layout.exists_of_load {l : Layout} {read : List (String × Datum) → Reading α}
    {d : Datum} {a : α} (h : l.load read d = .ok a) : ∃ entries, read entries = .value a := by
  have hread : ∀ {entries}, (read entries).toExcept = .ok a → read entries = .value a := by
    intro entries hentries
    cases hr : read entries <;> simp_all [Reading.toExcept]
  cases d with
  | object entries => exact ⟨entries, hread h⟩
  | list values =>
    obtain ⟨b, hb, h⟩ := bind_eq_ok.1 h
    split at h
    · cases h
      exact ⟨_, hread hb⟩
    · cases h
  | _ => cases h

theorem Layout.load_object {l : Layout} {read : List (String × Datum) → Reading α}
    {entries : List (String × Datum)} {a : α} (h : read entries = .value a) :
    l.load read (.object entries) = .ok a := by
  rw [Layout.load, h]
  rfl

variable [Loadable α] (entries : List (String × Datum)) (name : String)

/-- The place of an entry. -/
def placeOf : Nat := entries.findIdx fun e => e.1 = name

@[simp] theorem needed_eq : (needed entries name : Reading α) = (Keyed.get? entries name).elim
    (.fault entries.length .malformed) fun d => .ofExcept (placeOf entries name) (load d) := by
  rw [needed, neededBy, entryBy]
  cases Keyed.get? entries name with
  | none => rfl
  | some d =>
    dsimp only [Option.elim]
    cases (load d : Except LoadError α) <;> rfl

@[simp] theorem optional_eq :
    (optional entries name : Reading (Option α)) =
      (Keyed.get? entries name).elim (.value none) fun d =>
        .ofExcept (placeOf entries name) (loadOption d) := by
  rw [optional, entryBy]
  cases Keyed.get? entries name with
  | none => rfl
  | some d =>
    dsimp only [Option.elim]
    cases (loadOption d : Except LoadError (Option α)) <;> rfl

@[simp] theorem given_eq (default : α) : given entries name default = (Keyed.get? entries name).elim
    (.value default) fun d => .ofExcept (placeOf entries name) (load d) := by
  rw [given, givenBy, entryBy]
  cases Keyed.get? entries name with
  | none => rfl
  | some d =>
    dsimp only [Option.elim]
    cases (load d : Except LoadError α) <;> rfl

@[simp] theorem loadOption_store_some [Storable α] [LawfulStorable α] (a : α) :
    loadOption (store a) = .ok (some a) := by
  rw [loadOption, load_store]
  · rfl
  · exact store_ne_null a

@[simp] theorem loadOption_store [Storable α] [LawfulStorable α] (a : Option α) :
    loadOption (store a) = .ok a := by
  cases a with
  | none => rfl
  | some a => exact loadOption_store_some a

end Record

instance : LawfulStorable String := ⟨load_store_text, nofun⟩

instance : LawfulStorable UInt32 := ⟨load_store_uint32, nofun⟩

instance {kind : IdKind} : LawfulStorable (Id kind) where
  load_store id := by
    change (ofOption (Uuid.ofText? id.uuid.toText)).map Id.mk = .ok id
    rw [Uuid.ofText?_toText]
    rfl
  store_ne_null _ := nofun

instance {kind : CodeKind} : LawfulStorable (Code kind) := ⟨fun _ => rfl, nofun⟩

instance : LawfulStorable Instant where
  load_store t := by
    change ofOption (Instant.ofText? t.toRecord) = .ok t
    rw [Instant.ofText?_toRecord]
    rfl
  store_ne_null _ := nofun

instance : LawfulStorable Currency where
  load_store c := ofName_name (by decide) (by cases c <;> decide)
  store_ne_null _ := nofun

instance : LawfulStorable PeriodUnit where
  load_store u := ofName_name (by decide) (by cases u <;> decide)
  store_ne_null _ := nofun

instance : LawfulStorable Period where
  load_store p := Layout.load_object (by simp)
  store_ne_null _ := nofun

section

variable {α : Type} [Storable α] [Loadable α] [LawfulStorable α]

instance : LawfulStorable (List α) where
  load_store _ := load_store_list fun a _ => load_store a
  store_ne_null _ := nofun

instance [DecidableEq α] [Enumerated α] : LawfulStorable (EnumSet α) where
  load_store s := by
    change (load (store s.toList)).map EnumSet.ofList = .ok s
    rw [load_store]
    exact congrArg Except.ok s.ofList_toList
  store_ne_null _ := nofun

instance [Ord α] [Std.TransOrd α] [Std.LawfulEqOrd α] : LawfulStorable (SortedSet α) where
  load_store s := by
    change (load (store s.toList)).map SortedSet.ofList = .ok s
    rw [load_store]
    exact congrArg Except.ok s.ofList_toList
  store_ne_null _ := nofun

end

theorem load_store_decimal (d : Decimal) : load (store d) = .ok d.unsignedZero := by
  change ofOption (Decimal.ofText? d.toText) = .ok d.unsignedZero
  rw [Decimal.ofText?_toText]
  rfl

/-- The amount without the sign of a zero. -/
def Money.unsignedZero (m : Money) : Money := { m with amount := m.amount.unsignedZero }

theorem Money.same_unsignedZero (m : Money) : m.unsignedZero.Same m :=
  ⟨m.amount.same_unsignedZero, rfl⟩

theorem Money.isNegative_unsignedZero (m : Money) : m.unsignedZero.isNegative = m.isNegative := by
  simp only [isNegative, unsignedZero, Decimal.unsignedZero, Decimal.isZero]
  by_cases h : m.amount.mantissa = 0 <;> simp [h]

theorem load_store_money (m : Money) : load (store m) = .ok m.unsignedZero :=
  Layout.load_object (by simp [load_store_decimal, Money.unsignedZero])

end NameRegistry
