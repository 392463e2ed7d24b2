import Mathlib.Data.List.Basic
import NameRegistry.Proofs.Ledger.Calls

/-! # A refused event leaves nothing behind

Recording writes to three tables, one after another, with checks in between, and a write is not
undone when a check fails after it. The occurrence that an event charges is noted before the event
is stored. It is the last thing that can be refused, though, so whatever is refused has not written
anything, and what is asked or recorded later goes as if it had never come. Of a list the events
before the first refused one are recorded, and no more.
-/
namespace NameRegistry.Billing.Ledger

/-- A program that reads and writes tables and can fail. What it has written by then stays. -/
abbrev Writing := ExceptT BillingError (StateM Tables)

namespace Writing

section

variable {α β : Type} {t : Tables}

/-- The result of a program, and the tables it leaves. -/
def on (x : Writing α) (t : Tables) : Except BillingError α × Tables := x.run.run t

theorem on_get_bind (f : Tables → Writing α) : (get >>= f).on t = (f t).on t := rfl

theorem on_bind (x : Writing α) (f : α → Writing β) : (x >>= f).on t = match x.on t with
    | (.ok a, t') => (f a).on t'
    | (.error err, t') => (.error err, t') := by
  show StateT.run (ExceptT.run (x >>= f)) t = _
  rw [ExceptT.run_bind, StateT.run_bind, on]
  cases x.run.run t with | mk result t' =>
  cases result <;> rfl

end

def requireKind (id : BillingEventId) (kind : EventKind) : Writing Unit := do
  match (← get).events id with
  | none => throw (.eventNotFound id)
  | some e => if e.kind ≠ kind then throw (.wrongEventKind id kind)

def charge (recurring : BillingEventId) (time : Instant) : Writing Unit := do
  if (← get).charged.contains (recurring, time) then
    throw (.duplicateSyntheticCharge recurring time)
  modify fun t => { t with charged := t.charged ++ [(recurring, time)] }

def check : Event → Writing Unit
  | .cancellation k => requireKind k.cancelled.id k.cancelled.kind
  | .modification m => requireKind m.event .oneTime
  | .oneTime c =>
    match c.matchingEvent with
    | none => pure ()
    | some recurring => charge recurring c.common.eventTime
  | .recurring _ => pure ()

def record (e : Event) : Writing BillingEventId := do
  if ((← get).events e.id).isSome then throw (.duplicateEvent e.id)
  check e
  modify fun t => { t with events := fun id => if id = e.id then some e else t.events id }
  modify fun t => { t with journal := t.journal ++ [e.id] }
  return e.id

/-- Stops at the first event that is refused. -/
def recordAll (es : List Event) : Writing (List BillingEventId) := es.mapM record

variable {t : Tables} {e : Event} {es : List Event}

theorem on_requireKind (id : BillingEventId) (kind : EventKind) :
    (requireKind id kind).on t = (t.requireKind id kind, t) := by
  rw [Tables.requireKind, requireKind, on_get_bind]
  cases t.events id with
  | none => rfl
  | some e =>
    dsimp only
    by_cases hkind : e.kind = kind
    · rw [if_pos hkind, if_neg (not_not_intro hkind)]
      rfl
    · rw [if_neg hkind, if_pos hkind]
      rfl

theorem on_charge (recurring : BillingEventId) (time : Instant) :
    (charge recurring time).on t = match t.charge recurring time with
      | .error err => (.error err, t)
      | .ok t' => (.ok (), t') := by
  rw [Tables.charge, charge, on_get_bind]
  split <;> rfl

/-- A check that fails has not written anything. -/
theorem on_check : (check e).on t = match t.check e with
    | .error err => (.error err, t)
    | .ok t' => (.ok (), t') := by
  have hrequires : ∀ id kind, (requireKind id kind).on t =
      match (t.requireKind id kind).map fun _ => t with
      | .error err => (.error err, t)
      | .ok t' => (.ok (), t') := by
    intro id kind
    rw [on_requireKind]
    cases t.requireKind id kind <;> rfl
  cases e with
  | oneTime c =>
    rw [check, Tables.check]
    cases c.matchingEvent with
    | none => rfl
    | some recurring => exact on_charge recurring c.common.eventTime
  | recurring r => rfl
  | cancellation k => exact hrequires k.cancelled.id k.cancelled.kind
  | modification m => exact hrequires m.event .oneTime

/-- On any tables, recording write by write comes to recording at one stroke. -/
theorem on_record : (record e).on t = t.record e := by
  rw [Tables.record, record, on_get_bind]
  split
  · rfl
  · refine (on_bind _ _).trans ?_
    rw [on_check]
    cases t.check e <;> rfl

theorem on_recordAll : (recordAll es).on t = t.recordAll es := by
  induction es generalizing t with
  | nil => rfl
  | cons e es ih =>
    rw [recordAll, List.mapM_cons, on_bind, on_record, Tables.recordAll]
    cases t.record e with | mk result t' =>
    cases result with
    | error err => rfl
    | ok id =>
      show (recordAll es >>= fun ids => pure (id :: ids)).on t' =
        ((t'.recordAll es).1.map (id :: ·), (t'.recordAll es).2)
      rw [on_bind, ih]
      cases t'.recordAll es with | mk result t'' =>
      cases result <;> rfl

end Writing

variable {l l' : Ledger} {e : Event} {es : List Event} {err : BillingError}

inductive Request
  | get (id : BillingEventId)
  | size
  | events
  | isCancelled (id : BillingEventId)
  | recurrenceCancelledAt (recurring : BillingEventId) (billingTime : Instant)
  | effectiveCost (id : BillingEventId)
  | chargesFor (targetId : String)
  | record (e : Event)
  | recordAll (es : List Event)

inductive Answer
  | event (found : Option Event)
  | number (n : Nat)
  | events (es : List Event)
  | truth (b : Bool)
  | cost (c : Except BillingError Money)
  | charges (cs : Except BillingError (List (OneTime × Money)))
  | recorded (id : Except BillingError BillingEventId)
  | allRecorded (ids : Except BillingError (List BillingEventId))

/-- The answer to a request, and the ledger after it. -/
def answer (l : Ledger) : Request → Answer × Ledger
  | .get id => (.event (l.get? id), l)
  | .size => (.number l.size, l)
  | .events => (.events l.journal, l)
  | .isCancelled id => (.truth (l.isCancelled id), l)
  | .recurrenceCancelledAt recurring billingTime =>
    (.truth (l.recurrenceCancelledAt recurring billingTime), l)
  | .effectiveCost id => (.cost (l.effectiveCost id), l)
  | .chargesFor targetId => (.charges (l.chargesFor targetId), l)
  | .record e => (.recorded ((l.record e).map fun _ => e.id), l.tryRecord e)
  | .recordAll es => (.allRecorded (l.recordAll es).1, (l.recordAll es).2)

/-- The answers to one request after another. -/
def session (l : Ledger) : List Request → List Answer
  | [] => []
  | request :: requests => (l.answer request).1 :: (l.answer request).2.session requests

/-- The ledger that is kept in tables. -/
def Tables.ledger (t : Tables) : Ledger := ⟨t.journal.filterMap t.events, t.charged⟩

theorem Consistent.ledger_tables (h : l.Consistent) : l.tables.ledger = l := by
  have hjournal : (l.journal.map Event.id).filterMap l.get? = l.journal := by
    rw [List.filterMap_map]
    exact (List.filterMap_eq_map_iff_forall_eq_some.2 fun e he => h.get?_eq_some he).trans
      (List.map_id _)
  exact congrArg (Ledger.mk · l.charged) hjournal

theorem on_record_of_error (h : l.record e = .error err) :
    (Writing.record e).on l.tables = (.error err, l.tables) := by
  rw [Writing.on_record, tables_record, tryRecord, h]
  rfl

theorem recordAll_cons_of_ok (h : l.record e = .ok l') (es : List Event) :
    l.recordAll (e :: es) = ((l'.recordAll es).1.map (e.id :: ·), (l'.recordAll es).2) := by
  rw [recordAll, h]

/-- A list is recorded up to an event that is refused, or to its end. -/
theorem exists_recordAll (l : Ledger) (es : List Event) :
    ∃ accepted rest l', es = accepted ++ rest ∧ accepted.foldlM record l = .ok l' ∧
    (rest = [] ∧ l.recordAll es = (.ok (accepted.map Event.id), l') ∨
      ∃ e back err, rest = e :: back ∧ l'.record e = .error err ∧
        l.recordAll es = (.error err, l')) := by
  induction es generalizing l with
  | nil => exact ⟨[], [], l, rfl, rfl, .inl ⟨rfl, rfl⟩⟩
  | cons e es ih =>
    cases hrecord : l.record e with
    | error err =>
      refine ⟨[], e :: es, l, rfl, rfl, .inr ⟨e, es, err, rfl, hrecord, ?_⟩⟩
      rw [recordAll, hrecord]
    | ok l₁ =>
      obtain ⟨accepted, rest, l', rfl, hfold, h⟩ := ih l₁
      refine ⟨e :: accepted, rest, l', rfl, (bind_of_ok hrecord _).trans hfold, ?_⟩
      rcases h with ⟨rfl, hall⟩ | ⟨e', back, err, rfl, hrefused, hall⟩
      · refine .inl ⟨rfl, ?_⟩
        rw [recordAll_cons_of_ok hrecord, hall]
        rfl
      · refine .inr ⟨e', back, err, rfl, hrefused, ?_⟩
        rw [recordAll_cons_of_ok hrecord, hall]
        rfl

/-- No events that can all be recorded go past one that is refused. -/
theorem prefix_of_foldlM {accepted back ps : List Event} {l'' : Ledger}
    (hfold : accepted.foldlM record l = .ok l') (hrefused : l'.record e = .error err)
    (hps : ps <+: accepted ++ e :: back) (hrecorded : ps.foldlM record l = .ok l'') :
    ps <+: accepted := by
  rcases List.prefix_or_prefix_of_prefix hps (List.prefix_append accepted (e :: back))
    with h | ⟨more, rfl⟩
  · exact h
  · cases more with
    | nil => exact (List.append_nil accepted).symm ▸ List.prefix_rfl
    | cons e' more =>
      obtain ⟨rfl, -⟩ := List.cons_prefix_cons.1 ((List.prefix_append_right_inj accepted).1 hps)
      rw [List.foldlM_append, bind_of_ok hfold, List.foldlM_cons,
        bind_of_error hrefused] at hrecorded
      cases hrecorded

/-- After any calls on an empty ledger, an event that is refused has left the tables as they were,
although it is recorded write by write, and every later request is answered as if it had not come. A
list of events is recorded up to the end of the longest part in front that can be recorded one by
one: the result is the identifiers of that part if it is the whole list, and otherwise what is wrong
with the event after it. -/
theorem recorded_or_unchanged (calls : List Call) :
    (∀ e err, (empty.performAll calls).record e = .error err →
      (Writing.record e).on (empty.performAll calls).tables =
        (.error err, (empty.performAll calls).tables) ∧
      ∀ requests,
        ((Writing.record e).on (empty.performAll calls).tables).2.ledger.session requests =
          (empty.performAll calls).session requests) ∧
    ∀ es, ∃ accepted rest l', es = accepted ++ rest ∧
      accepted.foldlM record (empty.performAll calls) = .ok l' ∧
      (∀ ps l'', ps <+: es → ps.foldlM record (empty.performAll calls) = .ok l'' →
        ps <+: accepted) ∧
      (Writing.recordAll es).on (empty.performAll calls).tables =
        (((empty.performAll calls).recordAll es).1, l'.tables) ∧
      (rest = [] ∧ (empty.performAll calls).recordAll es = (.ok (accepted.map Event.id), l') ∨
        ∃ e back err, rest = e :: back ∧ l'.record e = .error err ∧
          (empty.performAll calls).recordAll es = (.error err, l')) := by
  have hconsistent := (coherent_empty.performAll calls).toConsistent
  generalize empty.performAll calls = l at hconsistent
  constructor
  · intro e err herr
    have hon := on_record_of_error herr
    refine ⟨hon, fun requests => ?_⟩
    rw [hon, hconsistent.ledger_tables]
  · intro es
    obtain ⟨accepted, rest, l', rfl, hfold, hall⟩ := exists_recordAll l es
    refine ⟨accepted, rest, l', rfl, hfold, ?longest, ?written, hall⟩
    case longest =>
      intro ps l'' hps hrecorded
      rcases hall with ⟨rfl, -⟩ | ⟨e, back, err, rfl, hrefused, -⟩
      · rwa [List.append_nil] at hps
      · exact prefix_of_foldlM hfold hrefused hps hrecorded
    case written =>
      rw [Writing.on_recordAll, tables_recordAll]
      rcases hall with ⟨-, hall⟩ | ⟨e, back, err, -, -, hall⟩ <;> rw [hall]

end NameRegistry.Billing.Ledger
