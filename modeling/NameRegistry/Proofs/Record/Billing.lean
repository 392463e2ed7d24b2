import NameRegistry.Proofs.Record
import NameRegistry.Record.Billing

/-! # Billing records loaded again

Whatever an event says, its record is loaded as the event it was stored from, but that a zero amount
loses its sign. The entry that tells its kind stands before the others and hides none of them. A
grace period is checked when it is loaded, by rules that every grace period keeps.
-/
namespace NameRegistry.Billing

open Record

instance : LawfulStorable Reason where
  load_store r := ofName_name (by decide) (by cases r <;> decide)
  store_ne_null _ := nofun

instance : LawfulStorable Flag where
  load_store f := ofName_name (by decide) (Enumerated.mem_all f)
  store_ne_null _ := nofun

instance : LawfulStorable GraceStatus where
  load_store s := ofName_name (by decide) (Enumerated.mem_all s)
  store_ne_null _ := nofun

instance : LawfulStorable HistoryRef where
  load_store h := Layout.load_object (by simp)
  store_ne_null _ := nofun

instance : LawfulStorable EventCommon where
  load_store c := Layout.load_object (by simp)
  store_ne_null _ := nofun

instance : LawfulStorable SyntheticOrigin where
  load_store o := Layout.load_object (by simp)
  store_ne_null _ := nofun

instance : LawfulStorable CancelledEvent where
  load_store e := by
    cases e with
    | oneTime id =>
      change (load (store id)).map CancelledEvent.oneTime = _
      rw [load_store]
      rfl
    | recurring id =>
      change (load (store id)).map CancelledEvent.recurring = _
      rw [load_store]
      rfl
  store_ne_null e := by cases e <;> nofun

theorem emptyAsNull_text (s : String) : emptyAsNull (.text s) = .text s := by simp [emptyAsNull]

theorem emptyAsNull_list {items : List Datum} (h : ∀ d ∈ items, emptyAsNull d = d) :
    emptyAsNull (.list items) = .list items := by
  have hitems : emptyItemsAsNull items = items := by
    induction items with
    | nil => rfl
    | cons d items ih =>
      rw [emptyItemsAsNull, h d List.mem_cons_self,
        ih fun d' hd => h d' (List.mem_cons_of_mem d hd)]
  rw [emptyAsNull, hitems]

/-- An object with more than one entry is none that names a value. -/
theorem emptyAsNull_object {p q : String × Datum} {entries : List (String × Datum)}
    (h : ∀ r ∈ p :: q :: entries, emptyAsNull r.2 = r.2) :
    emptyAsNull (.object (p :: q :: entries)) = .object (p :: q :: entries) := by
  have hentries : ∀ es : List (String × Datum), (∀ r ∈ es, emptyAsNull r.2 = r.2) →
      emptyEntriesAsNull es = es := by
    intro es hes
    induction es with
    | nil => rfl
    | cons r es ih =>
      rw [emptyEntriesAsNull, hes r List.mem_cons_self,
        ih fun r' hr => hes r' (List.mem_cons_of_mem r hr)]
  rw [emptyAsNull, hentries _ h]
  exact nofun

/-- A type whose values are stored without any empty object that could be taken for null. -/
class PlainlyStored (α : Type) [Storable α] : Prop where
  emptyAsNull_store : ∀ a : α, emptyAsNull (store a) = store a

export PlainlyStored (emptyAsNull_store)

attribute [simp] emptyAsNull_store

instance : PlainlyStored String := ⟨emptyAsNull_text⟩
instance : PlainlyStored UInt32 := ⟨fun _ => by simp [store, emptyAsNull]⟩
instance : PlainlyStored Decimal := ⟨fun d => emptyAsNull_text d.toText⟩
instance : PlainlyStored Currency := ⟨fun c => emptyAsNull_text c.code⟩
instance : PlainlyStored Instant := ⟨fun t => emptyAsNull_text t.toRecord⟩
instance {kind : IdKind} : PlainlyStored (Id kind) := ⟨fun id => emptyAsNull_text id.uuid.toText⟩
instance {kind : CodeKind} : PlainlyStored (Code kind) := ⟨fun c => emptyAsNull_text c.text⟩
instance : PlainlyStored Reason := ⟨fun r => emptyAsNull_text r.code⟩
instance : PlainlyStored Flag := ⟨fun f => emptyAsNull_text f.code⟩

section

variable {α : Type} [Storable α] [PlainlyStored α]

instance : PlainlyStored (Option α) where
  emptyAsNull_store
    | some a => emptyAsNull_store a
    | none => by simp [store, emptyAsNull]

instance [DecidableEq α] [Enumerated α] : PlainlyStored (EnumSet α) where
  emptyAsNull_store s := emptyAsNull_list fun d hd => by
    obtain ⟨a, -, rfl⟩ := List.mem_map.1 hd
    exact emptyAsNull_store a

end

instance : PlainlyStored Money := ⟨fun _ => emptyAsNull_object (by simp)⟩
instance : PlainlyStored HistoryRef := ⟨fun _ => emptyAsNull_object (by simp)⟩
instance : PlainlyStored EventCommon := ⟨fun _ => emptyAsNull_object (by simp)⟩
instance : PlainlyStored SyntheticOrigin := ⟨fun _ => emptyAsNull_object (by simp)⟩

instance : PlainlyStored CancelledEvent where
  emptyAsNull_store e := by cases e <;> simp [store, emptyAsNull, emptyEntriesAsNull]

/-- The record of an event is read as it stands. -/
theorem emptyAsNull_event (e : Event) : emptyAsNull (store e) = store e := by
  cases e <;> exact emptyAsNull_object (by simp [emptyAsNull_text])

/-- The charge without the sign of a zero amount. -/
def OneTime.unsignedZero (e : OneTime) : OneTime := { e with cost := e.cost.unsignedZero }

def Modification.unsignedZero (e : Modification) : Modification :=
  { e with cost := e.cost.unsignedZero }

def Event.unsignedZero : Event → Event
  | oneTime e => oneTime e.unsignedZero
  | recurring e => recurring e
  | cancellation e => cancellation e
  | modification e => modification e.unsignedZero

theorem load_store_oneTime (e : OneTime) : load (store e) = .ok e.unsignedZero :=
  Layout.load_object (by simp [load_store_money, OneTime.unsignedZero])

instance : LawfulStorable Recurring where
  load_store e := Layout.load_object (by simp)
  store_ne_null _ := nofun

instance : LawfulStorable Cancellation where
  load_store e := Layout.load_object (by simp)
  store_ne_null _ := nofun

theorem load_store_modification (e : Modification) : load (store e) = .ok e.unsignedZero :=
  Layout.load_object (by simp [load_store_money, Modification.unsignedZero])

theorem load_label_oneTime (kind : EventKind) (e : OneTime) :
    load (kind.label (store e)) = .ok e.unsignedZero :=
  Layout.load_object (by simp [load_store_money, OneTime.unsignedZero])

theorem load_label_recurring (kind : EventKind) (e : Recurring) :
    load (kind.label (store e)) = .ok e :=
  Layout.load_object (by simp)

theorem load_label_cancellation (kind : EventKind) (e : Cancellation) :
    load (kind.label (store e)) = .ok e :=
  Layout.load_object (by simp)

theorem load_label_modification (kind : EventKind) (e : Modification) :
    load (kind.label (store e)) = .ok e.unsignedZero :=
  Layout.load_object (by simp [load_store_money, Modification.unsignedZero])

/-- Whether two charges are one, their costs being compared as numbers. -/
def OneTime.Same (a b : OneTime) : Prop := a.cost.Same b.cost ∧ { a with cost := b.cost } = b

def Modification.Same (a b : Modification) : Prop :=
  a.cost.Same b.cost ∧ { a with cost := b.cost } = b

def Event.Same : Event → Event → Prop
  | oneTime a, oneTime b => a.Same b
  | modification a, modification b => a.Same b
  | a, b => a = b

theorem OneTime.same_unsignedZero (e : OneTime) : e.unsignedZero.Same e :=
  ⟨e.cost.same_unsignedZero, rfl⟩

theorem Modification.same_unsignedZero (e : Modification) : e.unsignedZero.Same e :=
  ⟨e.cost.same_unsignedZero, rfl⟩

theorem Event.same_unsignedZero (e : Event) : e.unsignedZero.Same e := by
  cases e with
  | oneTime e => exact e.same_unsignedZero
  | recurring e => rfl
  | cancellation e => rfl
  | modification e => exact e.same_unsignedZero

theorem load_code (kind : EventKind) : load (.text kind.code) = .ok kind := by
  cases kind <;> decide

theorem ofLabelled_label (kind : EventKind) (entries : List (String × Datum)) :
    EventKind.ofLabelled (kind.label (.object entries)) =
      .ok (kind, emptyAsNull (kind.label (.object entries))) := by
  rw [EventKind.label, EventKind.ofLabelled, needed_eq, Keyed.get?_cons, if_pos rfl,
    Option.elim, load_code]
  rfl

theorem ofLabelled_store (e : Event) : EventKind.ofLabelled (store e) = .ok (e.kind, store e) := by
  obtain ⟨entries, hentries⟩ : ∃ entries, store e = e.kind.label (.object entries) := by
    cases e <;> exact ⟨_, rfl⟩
  have hplain := emptyAsNull_event e
  rw [hentries] at hplain ⊢
  rw [ofLabelled_label, hplain]

/-- An event is loaded as it was stored, but that a zero amount loses its sign. -/
theorem load_store_event (e : Event) : load (store e) = .ok e.unsignedZero := by
  refine (bind_of_ok (ofLabelled_store e) _).trans ?_
  cases e with
  | oneTime e => exact (bind_of_ok (load_label_oneTime .oneTime e) _).trans rfl
  | recurring e => exact (bind_of_ok (load_label_recurring .recurring e) _).trans rfl
  | cancellation e => exact (bind_of_ok (load_label_cancellation .cancellation e) _).trans rfl
  | modification e => exact (bind_of_ok (load_label_modification .modification e) _).trans rfl

instance : LawfulStorable GracePeriod where
  load_store g := by
    have hparts :=
      GracePeriod.ofParts_eq_ok.2 (show g.id = g.id ∧ _ from ⟨rfl, rfl, rfl, rfl, rfl, rfl, rfl⟩)
    refine (bind_of_ok (Layout.load_object (by simp; rfl)) _).trans ?_
    rw [hparts]
    rfl
  store_ne_null _ := nofun

end NameRegistry.Billing
