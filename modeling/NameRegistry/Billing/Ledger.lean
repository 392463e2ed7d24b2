import NameRegistry.Billing.GracePeriod

/-! # The billing ledger

A ledger keeps events in the order they were recorded and never changes or drops one. It accepts an
event whose identifier is new, whose reference is to a recorded event of the right kind, and which
does not charge an occurrence of a recurring event twice. What a charge finally costs is computed
from the cancellations and modifications that were recorded for it.
-/
namespace NameRegistry.Billing

/-- Whether a cancellation takes a charge back: by its identifier, or, for a charge made up for a
recurring event, by that event and the time it is billed. -/
def Cancellation.cancels (k : Cancellation) (charge : OneTime) : Bool :=
  match k.cancelled with
  | .oneTime id => id = charge.id
  | .recurring id => charge.matchingEvent = some id && charge.billingTime = k.billingTime

/-- The occurrence of a recurring event that an event charges, if it charges one. -/
def Event.occurrence? : Event → Option (BillingEventId × Instant)
  | .oneTime e => e.matchingEvent.map fun recurring => (recurring, e.common.eventTime)
  | _ => none

/-- The event that an event refers to, and the kind it has to be of. -/
def Event.reference? : Event → Option (BillingEventId × EventKind)
  | .cancellation k => some (k.cancelled.id, k.cancelled.kind)
  | .modification m => some (m.event, .oneTime)
  | _ => none

/-- The recorded events, oldest first, and the occurrences that have been charged. -/
structure Ledger where
  journal : List Event
  charged : List (BillingEventId × Instant)
  deriving DecidableEq

namespace Ledger

def empty : Ledger := ⟨[], []⟩

def size (l : Ledger) : Nat := l.journal.length

def get? (l : Ledger) (id : BillingEventId) : Option Event := l.journal.find? fun e => e.id = id

def requireKind (l : Ledger) (id : BillingEventId) (kind : EventKind) : Except BillingError Unit :=
  match l.get? id with
  | none => .error (.eventNotFound id)
  | some e => if e.kind = kind then .ok () else .error (.wrongEventKind id kind)

def checkReference (l : Ledger) (e : Event) : Except BillingError Unit :=
  match e.reference? with
  | none => .ok ()
  | some (id, kind) => l.requireKind id kind

def checkOccurrence (l : Ledger) (e : Event) : Except BillingError Unit :=
  match e.occurrence? with
  | none => .ok ()
  | some (recurring, time) =>
    if (recurring, time) ∈ l.charged then
      .error (.duplicateSyntheticCharge recurring time) else .ok ()

/-- Adds an event that has been checked. -/
def append (l : Ledger) (e : Event) : Ledger where
  journal := l.journal ++ [e]
  charged := l.charged ++ e.occurrence?.toList

def record (l : Ledger) (e : Event) : Except BillingError Ledger :=
  if (l.get? e.id).isSome then .error (.duplicateEvent e.id)
  else do
    l.checkReference e
    l.checkOccurrence e
    return l.append e

/-- Records events up to the first that is refused. The ones before it stay recorded. -/
def recordAll (l : Ledger) : List Event → Except BillingError (List BillingEventId) × Ledger
  | [] => (.ok [], l)
  | e :: es =>
    match l.record e with
    | .error err => (.error err, l)
    | .ok l' =>
      let (ids, l'') := l'.recordAll es
      (ids.map (e.id :: ·), l'')

def cancellations (l : Ledger) : List Cancellation := l.journal.filterMap Event.cancellation?

def charges (l : Ledger) : List OneTime := l.journal.filterMap Event.oneTime?

/-- The adjustments of a charge, oldest first. -/
def modificationsOf (l : Ledger) (id : BillingEventId) : List Modification :=
  (l.journal.filterMap Event.modification?).filter fun m => m.event = id

def charge? (l : Ledger) (id : BillingEventId) : Option OneTime := (l.get? id).bind Event.oneTime?

def isCancelled (l : Ledger) (id : BillingEventId) : Bool :=
  match l.charge? id with
  | none => false
  | some charge => l.cancellations.any fun k => k.cancels charge

/-- Whether the occurrence of a recurring event that is billed at a time has been cancelled. -/
def recurrenceCancelledAt (l : Ledger) (recurring : BillingEventId)
    (billingTime : Instant) : Bool :=
  l.cancellations.any fun k => k.cancelled.recurring? = some recurring &&
    k.billingTime = billingTime

/-- The single charge with an identifier. -/
def charge (l : Ledger) (id : BillingEventId) : Except BillingError OneTime :=
  match l.get? id with
  | none => .error (.eventNotFound id)
  | some (.oneTime e) => .ok e
  | some _ => .error (.wrongEventKind id .oneTime)

def addCost (cost : Money) (m : Modification) : Except BillingError Money :=
  (cost.add m.cost).mapError .money

/-- Nothing for a cancelled charge, else its cost with all adjustments, oldest first. -/
def effectiveCost (l : Ledger) (id : BillingEventId) : Except BillingError Money := do
  let charge ← l.charge id
  if l.isCancelled id then return .zero charge.cost.currency
  else (l.modificationsOf id).foldlM addCost charge.cost

/-- The charges on a target that have not been cancelled, oldest first, with what they cost. -/
def chargesFor (l : Ledger) (targetId : String) : Except BillingError (List (OneTime × Money)) :=
  (l.charges.filter fun c => c.common.targetId = targetId && !l.isCancelled c.id).mapM fun c =>
    (l.effectiveCost c.id).map fun cost => (c, cost)

@[simp] theorem get?_empty (id : BillingEventId) : empty.get? id = none := rfl

/-- The journal only grows at its end. -/
theorem journal_append (l : Ledger) (e : Event) : (l.append e).journal = l.journal ++ [e] := rfl

theorem get?_append (l : Ledger) (e : Event) (id : BillingEventId) :
    (l.append e).get? id = (l.get? id).or (if e.id = id then some e else none) := by
  rw [get?, journal_append, List.find?_append, get?]
  congr 1
  by_cases h : e.id = id <;> simp [h]

end Ledger
end NameRegistry.Billing
