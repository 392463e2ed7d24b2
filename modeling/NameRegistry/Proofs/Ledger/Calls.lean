import NameRegistry.Proofs.Ledger

/-! # Any calls on a ledger

Events are recorded one by one or in lists, and any of them can be refused. A refused event leaves
the ledger as it is; of a list, what stands before the refused event has been recorded. So a ledger
goes through successful recordings only, whatever is called, and what each of these keeps holds
after any calls.
-/
namespace NameRegistry.Billing.Ledger

variable {l l' : Ledger} {e : Event} {es : List Event} {id : BillingEventId}

/-- What changes a ledger. -/
inductive Call
  | record (e : Event)
  | recordAll (es : List Event)

/-- The ledger after a call, whether that succeeds or fails. -/
def perform (l : Ledger) : Call → Ledger
  | .record e => l.tryRecord e
  | .recordAll es => (l.recordAll es).2

def performAll (l : Ledger) (calls : List Call) : Ledger := calls.foldl perform l

theorem performAll_append (l : Ledger) (calls later : List Call) :
    l.performAll (calls ++ later) = (l.performAll calls).performAll later := List.foldl_append

/-- What is kept by every event that is recorded is kept by all calls. -/
theorem performAll_induction {P : Ledger → Prop}
    (hstep : ∀ {l l' e}, P l → l.record e = .ok l' → P l') (h : P l) (calls : List Call) :
    P (l.performAll calls) := by
  have hall : ∀ {l} es, P l → P (l.recordAll es).2 := by
    intro l es h
    induction es generalizing l with
    | nil => exact h
    | cons e es ih =>
      rw [recordAll]
      cases hrecord : l.record e with
      | error err => exact h
      | ok l' => exact ih (hstep h hrecord)
  induction calls generalizing l with
  | nil => exact h
  | cons call calls ih =>
    apply ih
    cases call with
    | record e =>
      rcases l.tryRecord_cases e with ⟨hrecord, heq⟩ | ⟨-, heq⟩
      · rw [perform, heq]
        exact hstep h hrecord
      · rwa [perform, heq]
    | recordAll es => exact hall es h

/-- No call changes what has been recorded, or its place. -/
theorem journal_prefix (l : Ledger) (calls : List Call) :
    l.journal <+: (l.performAll calls).journal := by
  apply performAll_induction (P := fun l' => l.journal <+: l'.journal)
  · intro l₁ l₂ e h hrecord
    obtain ⟨-, -, -, rfl⟩ := record_eq_ok.1 hrecord
    exact h.trans (List.prefix_append _ _)
  · exact List.prefix_rfl

/-- What an event refers to comes before it, and is of the kind it has to be. -/
def RefersBack (es : List Event) : Prop :=
  ∀ front e back, es = front ++ e :: back → ∀ ref ∈ e.reference?, ∃ e' ∈ front,
    e'.id = ref.1 ∧ e'.kind = ref.2

theorem refersBack_nil : RefersBack [] := by
  intro front e back h
  cases front <;> cases h

theorem refersBack_concat : RefersBack (es ++ [e]) ↔
    RefersBack es ∧ ∀ ref ∈ e.reference?, ∃ e' ∈ es, e'.id = ref.1 ∧ e'.kind = ref.2 := by
  constructor
  · intro h
    constructor
    · rintro front e₁ back rfl
      exact h front e₁ (back ++ [e]) (by simp)
    · exact h es e [] rfl
  · rintro ⟨h, he⟩ front e₁ back hsplit
    rcases List.eq_nil_or_concat back with rfl | ⟨back, e₂, rfl⟩
    · obtain ⟨rfl, hlast⟩ := List.append_inj' hsplit rfl
      cases hlast
      exact he
    · have hsplit : es ++ [e] = (front ++ e₁ :: back) ++ [e₂] := by simpa using hsplit
      exact h front e₁ back (List.append_inj' hsplit rfl).1

theorem mem_of_get?_eq_some (h : l.get? id = some e) : e ∈ l.journal ∧ e.id = id :=
  ⟨List.mem_of_find?_eq_some h, by simpa using List.find?_some h⟩

theorem checkReference_eq_ok : l.checkReference e = .ok () ↔
    ∀ ref ∈ e.reference?, ∃ e', l.get? ref.1 = some e' ∧ e'.kind = ref.2 := by
  rw [checkReference]
  cases e.reference? with
  | none => simp
  | some ref =>
    simp only [Option.mem_def, Option.some.injEq, forall_eq', requireKind]
    cases l.get? ref.1 with
    | none => simp
    | some e' => simp

/-- A ledger that is consistent and in which every reference goes back to a recorded event. -/
structure Coherent (l : Ledger) : Prop extends l.Consistent where
  references : RefersBack l.journal

theorem coherent_empty : empty.Coherent := ⟨consistent_empty, refersBack_nil⟩

theorem Coherent.record (h : l.Coherent) (hrecord : l.record e = .ok l') : l'.Coherent := by
  refine ⟨h.toConsistent.record hrecord, ?_⟩
  obtain ⟨-, hreference, -, rfl⟩ := record_eq_ok.1 hrecord
  rw [checkReference_eq_ok] at hreference
  rw [journal_append, refersBack_concat]
  refine ⟨h.references, fun ref href => ?_⟩
  obtain ⟨e', hget, hkind⟩ := hreference ref href
  obtain ⟨hmem, hid⟩ := mem_of_get?_eq_some hget
  exact ⟨e', hmem, hid, hkind⟩

theorem Coherent.performAll (h : l.Coherent) (calls : List Call) : (l.performAll calls).Coherent :=
  performAll_induction Coherent.record h calls

theorem Consistent.get?_eq_some_iff (h : l.Consistent) :
    l.get? id = some e ↔ e ∈ l.journal ∧ e.id = id := by
  constructor
  · exact mem_of_get?_eq_some
  · rintro ⟨he, rfl⟩
    exact h.get?_eq_some he

/-- What a recorded event refers to had been recorded, and is of the kind it has to be. -/
theorem Consistent.exists_referred (h : l.Consistent) (hrecord : l.record e = .ok l')
    {ref : BillingEventId × EventKind} (href : e.reference? = some ref) :
    ∃ e' ∈ l.journal, e'.id = ref.1 ∧ e'.kind = ref.2 := by
  obtain ⟨-, hreference, -, -⟩ := record_eq_ok.1 hrecord
  obtain ⟨e', hget, hkind⟩ := checkReference_eq_ok.1 hreference ref href
  obtain ⟨he', hid⟩ := h.get?_eq_some_iff.1 hget
  exact ⟨e', he', hid, hkind⟩

/-- Nothing else is asked of an event with a reference and a new identifier: it charges no
occurrence. -/
theorem Consistent.exists_record_iff (h : l.Consistent) (hnew : ∀ e' ∈ l.journal, e'.id ≠ e.id)
    {ref : BillingEventId × EventKind} (href : e.reference? = some ref) :
    (∃ l', l.record e = .ok l') ↔ ∃ e' ∈ l.journal, e'.id = ref.1 ∧ e'.kind = ref.2 := by
  constructor
  · rintro ⟨l', hrecord⟩
    exact h.exists_referred hrecord href
  · rintro ⟨e', he', hid, hkind⟩
    have hoccurrence : e.occurrence? = none := by
      cases e with
      | cancellation | modification => rfl
      | oneTime | recurring => cases href
    refine ⟨_, record_eq_ok.2 ⟨get?_eq_none.2 hnew, checkReference_eq_ok.2 ?_, ?_, rfl⟩⟩
    · rw [href]
      rintro _ ⟨⟩
      exact ⟨e', h.get?_eq_some_iff.2 ⟨he', hid⟩, hkind⟩
    · rw [checkOccurrence, hoccurrence]

theorem Consistent.mem_charged (h : l.Consistent) {key : BillingEventId × Instant} :
    key ∈ l.charged ↔ ∃ c r, .oneTime c ∈ l.journal ∧ c.matchingEvent = some r ∧
      key = (r, c.common.eventTime) := by
  rw [h.charged_eq, List.mem_filterMap]
  constructor
  · rintro ⟨e, he, hkey⟩
    cases e with
    | oneTime c =>
      obtain ⟨r, hr, rfl⟩ := Option.map_eq_some_iff.1 hkey
      exact ⟨c, r, he, hr, rfl⟩
    | recurring | cancellation | modification => cases hkey
  · rintro ⟨c, r, hc, hr, rfl⟩
    exact ⟨.oneTime c, hc, by rw [Event.occurrence?, hr]; rfl⟩

/-- Two recorded charges of one occurrence are one. -/
theorem Consistent.eq_of_occurrence (h : l.Consistent) {c c' : OneTime}
    {key : BillingEventId × Instant} (hc : .oneTime c ∈ l.journal) (hc' : .oneTime c' ∈ l.journal)
    (hkey : (Event.oneTime c).occurrence? = some key)
    (hkey' : (Event.oneTime c').occurrence? = some key) : c = c' := by
  have hcharged : key ∈ l.charged := by
    rw [h.charged_eq]
    exact List.mem_filterMap.2 ⟨_, hc, hkey⟩
  obtain ⟨c₀, -, -, hone⟩ := h.charge_of_occurrence hcharged
  have hmem : ∀ {c₁ : OneTime}, .oneTime c₁ ∈ l.journal →
      (Event.oneTime c₁).occurrence? = some key → c₁ = c₀ := by
    intro c₁ hc₁ hkey₁
    have hsynthetic : c₁.isSynthetic = true := by
      obtain ⟨r, hr, -⟩ := Option.map_eq_some_iff.1 hkey₁
      obtain ⟨origin, horigin, -⟩ := Option.map_eq_some_iff.1 hr
      rw [OneTime.isSynthetic, horigin]
      rfl
    rw [← List.mem_singleton, ← hone, List.mem_filter, syntheticCharges,
      List.mem_filter, mem_charges]
    exact ⟨⟨hc₁, hsynthetic⟩, decide_eq_true hkey₁⟩
  rw [hmem hc hkey, hmem hc' hkey']

/-- A ledger kept in three tables, each written at its own place: the events under their
identifiers, the identifiers in the order of recording, and the occurrences that have been
charged. -/
structure Tables where
  events : BillingEventId → Option Event
  journal : List BillingEventId
  charged : List (BillingEventId × Instant)

namespace Tables

def empty : Tables := ⟨fun _ => none, [], []⟩

def requireKind (t : Tables) (id : BillingEventId) (kind : EventKind) : Except BillingError Unit :=
  match t.events id with
  | none => .error (.eventNotFound id)
  | some e => if e.kind = kind then .ok () else .error (.wrongEventKind id kind)

/-- Notes that an occurrence is charged, unless it has been. -/
def charge (t : Tables) (recurring : BillingEventId) (time : Instant) :
    Except BillingError Tables :=
  if t.charged.contains (recurring, time) then .error (.duplicateSyntheticCharge recurring time)
  else .ok { t with charged := t.charged ++ [(recurring, time)] }

/-- What is checked and noted before an event is stored. -/
def check (t : Tables) : Event → Except BillingError Tables
  | .cancellation k => (t.requireKind k.cancelled.id k.cancelled.kind).map fun _ => t
  | .modification m => (t.requireKind m.event .oneTime).map fun _ => t
  | .oneTime c =>
    match c.matchingEvent with
    | none => .ok t
    | some recurring => t.charge recurring c.common.eventTime
  | .recurring _ => .ok t

def store (t : Tables) (e : Event) : Tables :=
  { t with
    events := fun id => if id = e.id then some e else t.events id
    journal := t.journal ++ [e.id] }

/-- The result of a call, and what it leaves behind. -/
def record (t : Tables) (e : Event) : Except BillingError BillingEventId × Tables :=
  if (t.events e.id).isSome then (.error (.duplicateEvent e.id), t)
  else
    match t.check e with
    | .error err => (.error err, t)
    | .ok t' => (.ok e.id, t'.store e)

/-- Records one event after another, up to the first that is refused. -/
def recordAll (t : Tables) : List Event → Except BillingError (List BillingEventId) × Tables
  | [] => (.ok [], t)
  | e :: es =>
    match t.record e with
    | (.error err, t') => (.error err, t')
    | (.ok id, t') =>
      let (ids, t'') := t'.recordAll es
      (ids.map (id :: ·), t'')

def perform (t : Tables) : Call → Tables
  | .record e => (t.record e).2
  | .recordAll es => (t.recordAll es).2

def performAll (t : Tables) (calls : List Call) : Tables := calls.foldl perform t

end Tables

/-- The tables that a ledger is kept in. -/
def tables (l : Ledger) : Tables := ⟨l.get?, l.journal.map Event.id, l.charged⟩

theorem tables_append (hnew : l.get? e.id = none) : (l.append e).tables =
    { l.tables.store e with charged := l.charged ++ e.occurrence?.toList } := by
  rw [tables, Tables.store]
  congr 1
  · funext id
    rw [get?_append]
    by_cases hid : id = e.id
    · simp [hid, hnew]
    · simp [hid, Ne.symm hid, tables]
  · simp [journal_append, tables]

/-- The tables check what the ledger checks. -/
theorem tables_check (l : Ledger) (e : Event) :
    l.tables.check e = (l.checkReference e).bind fun _ => (l.checkOccurrence e).map fun _ =>
      { l.tables with charged := l.charged ++ e.occurrence?.toList } := by
  have hrefers : ∀ id kind, ((l.tables.requireKind id kind).map fun _ => l.tables) =
      (l.requireKind id kind).bind fun _ => .ok { l.tables with charged := l.charged ++ [] } := by
    intro id kind
    rw [List.append_nil]
    show Except.map _ (l.requireKind id kind) = _
    cases l.requireKind id kind <;> rfl
  cases e with
  | oneTime c =>
    show _ = (l.checkOccurrence (.oneTime c)).map _
    rw [Tables.check, checkOccurrence, Event.occurrence?]
    cases c.matchingEvent with
    | none =>
      rw [Option.map_none, Option.toList_none, List.append_nil]
      rfl
    | some recurring =>
      show ite (l.charged.contains _ = true) _ _ = Except.map _ (ite (_ ∈ l.charged) _ _)
      simp only [List.contains_iff_mem]
      split <;> rfl
  | recurring r =>
    show _ = Except.ok { l.tables with charged := l.charged ++ [] }
    rw [List.append_nil]
    rfl
  | cancellation k => exact hrefers k.cancelled.id k.cancelled.kind
  | modification m => exact hrefers m.event .oneTime

/-- Recorded in tables, an event is accepted or refused as by the ledger, for the same reason and to
the same end. -/
theorem tables_record (l : Ledger) (e : Event) :
    l.tables.record e = ((l.record e).map fun _ => e.id, (l.tryRecord e).tables) := by
  rw [tryRecord, Ledger.record]
  show ite ((l.get? e.id).isSome = true) _ _ = _
  rw [tables_check]
  split
  · rfl
  · next hnew =>
    have happend := tables_append (Option.not_isSome_iff_eq_none.1 hnew)
    cases l.checkReference e with
    | error err => rfl
    | ok _ =>
      cases l.checkOccurrence e with
      | error err => rfl
      | ok _ => exact congrArg (Prod.mk _) happend.symm

theorem tables_recordAll (l : Ledger) (es : List Event) :
    l.tables.recordAll es = ((l.recordAll es).1, (l.recordAll es).2.tables) := by
  induction es generalizing l with
  | nil => rfl
  | cons e es ih =>
    rw [Tables.recordAll, tables_record, Ledger.recordAll]
    cases hrecord : l.record e with
    | error err =>
      rw [tryRecord, hrecord]
      rfl
    | ok l' =>
      rw [tryRecord_of_ok hrecord]
      show (let (ids, t) := l'.tables.recordAll es; (ids.map (e.id :: ·), t)) = _
      rw [ih]

/-- Whatever is called, the tables are those of the ledger. -/
theorem tables_performAll (l : Ledger) (calls : List Call) :
    l.tables.performAll calls = (l.performAll calls).tables := by
  induction calls generalizing l with
  | nil => rfl
  | cons call calls ih =>
    have hcall : l.tables.perform call = (l.perform call).tables := by
      cases call with
      | record e => exact congrArg Prod.snd (l.tables_record e)
      | recordAll es => exact congrArg Prod.snd (l.tables_recordAll es)
    show (l.tables.perform call).performAll calls = _
    rw [hcall]
    exact ih (l.perform call)

/-- Whatever is called on an empty ledger, no identifier is recorded twice, and the events that are
found are those in the journal, each under its identifier. What an event refers to has been recorded
before it, as the kind it has to be. The occurrences that count as charged are those that recorded
charges name, and no two of these name the same. What is recorded stays as it is, in its place,
whatever is called later. And a ledger in tables, each written on its own, holds the same: the
events that are found, the identifiers of the journal and the occurrences. -/
theorem kept_by_calls (calls later : List Call) :
    ((empty.performAll calls).journal.map Event.id).Nodup ∧
    (∀ id, id ∈ (empty.performAll calls).journal.map Event.id ↔
      ((empty.performAll calls).get? id).isSome) ∧
    (∀ id e, (empty.performAll calls).get? id = some e ↔
      e ∈ (empty.performAll calls).journal ∧ e.id = id) ∧
    RefersBack (empty.performAll calls).journal ∧
    (∀ key, key ∈ (empty.performAll calls).charged ↔ ∃ c r,
      .oneTime c ∈ (empty.performAll calls).journal ∧ c.matchingEvent = some r ∧
      key = (r, c.common.eventTime)) ∧
    (∀ c c' key, .oneTime c ∈ (empty.performAll calls).journal →
      .oneTime c' ∈ (empty.performAll calls).journal →
      (Event.oneTime c).occurrence? = some key →
      (Event.oneTime c').occurrence? = some key → c = c') ∧
    (empty.performAll calls).journal <+: (empty.performAll (calls ++ later)).journal ∧
    Tables.empty.performAll calls = (empty.performAll calls).tables := by
  have h := coherent_empty.performAll calls
  generalize hl : empty.performAll calls = l at h
  refine ⟨h.ids, fun id => ?_, fun id e => h.get?_eq_some_iff, h.references,
    fun key => h.mem_charged,
    fun c c' key hc hc' => h.eq_of_occurrence hc hc', ?_, ?_⟩
  · rw [Option.isSome_iff_exists, List.mem_map]
    exact exists_congr fun e => h.get?_eq_some_iff.symm
  · rw [performAll_append, hl]
    exact journal_prefix l later
  · rw [← hl]
    exact tables_performAll empty calls

end NameRegistry.Billing.Ledger
