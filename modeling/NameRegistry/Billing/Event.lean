import NameRegistry.Billing.Error
import NameRegistry.Text.Blank

/-! # Billing events

An event is an entry of a ledger and never changes: a single charge, an annually repeating one, the
cancellation of one of these, or an adjustment of a single charge. What the constructors here accept
keeps the billing rules. An event read from a record is taken as it is.
-/
namespace NameRegistry.Billing

/-- The history entry that caused a record. -/
structure HistoryRef where
  repoId : RepoId
  historyId : HistoryEntryId
  deriving DecidableEq

/-- Who changed what, and when. -/
structure HistoryContext where
  history : HistoryRef
  modificationTime : Instant
  registrarId : RegistrarId
  deriving DecidableEq

structure EventCommon where
  id : BillingEventId
  reason : Reason
  targetId : String
  registrarId : RegistrarId
  eventTime : Instant
  history : HistoryRef
  deriving DecidableEq

/-- An event is about something and made by somebody. -/
def EventCommon.check (c : EventCommon) : Except BillingError Unit := do
  requireField (!c.targetId.isEmpty) "target_id"
  requireField (!c.registrarId.isEmpty) "registrar_id"

/-- Where a charge made up by a projection comes from. -/
structure SyntheticOrigin where
  creationTime : Instant
  cancellationMatchingEvent : BillingEventId
  deriving DecidableEq

structure OneTime where
  common : EventCommon
  flags : EnumSet Flag
  cost : Money
  periodYears : Option UInt32
  billingTime : Instant
  synthetic : Option SyntheticOrigin
  allocationToken : Option String
  deriving DecidableEq

namespace OneTime

def id (e : OneTime) : BillingEventId := e.common.id

def isSynthetic (e : OneTime) : Bool := e.synthetic.isSome

def matchingEvent (e : OneTime) : Option BillingEventId :=
  e.synthetic.map (·.cancellationMatchingEvent)

/-- A charge in the making. -/
structure Draft where
  common : EventCommon
  flags : EnumSet Flag := .empty
  cost : Option Money := none
  periodYears : Option UInt32 := none
  billingTime : Option Instant := none
  syntheticCreationTime : Option Instant := none
  cancellationMatchingEvent : Option BillingEventId := none
  allocationToken : Option String := none
  deriving DecidableEq

namespace Draft

def checkPeriodYears (d : Draft) : Except BillingError Unit :=
  if d.common.reason.paysForYears then
    require (d.periodYears.any (0 < ·)) (.periodYearsRequired d.common.reason)
  else require d.periodYears.isNone (.periodYearsForbidden d.common.reason)

/-- The flag, the time and the matching event make up a synthetic origin together. -/
def origin (d : Draft) : Except BillingError (Option SyntheticOrigin) :=
  match decide (Flag.synthetic ∈ d.flags), d.syntheticCreationTime, d.cancellationMatchingEvent with
  | true, some time, some event => .ok (some ⟨time, event⟩)
  | false, none, none => .ok none
  | _, _, _ => .error (.invariantViolation .syntheticTogether)

def build (d : Draft) : Except BillingError OneTime := do
  d.common.check
  let cost ← field d.cost "cost"
  let billingTime ← field d.billingTime "billing_time"
  require (!cost.isNegative) .costNotNegative
  d.checkPeriodYears
  let synthetic ← d.origin
  return {
    common := d.common
    flags := d.flags
    cost := cost
    periodYears := d.periodYears
    billingTime := billingTime
    synthetic := synthetic
    allocationToken := d.allocationToken }

end Draft

/-- The draft that the charge could have been built from. -/
def toDraft (e : OneTime) : Draft where
  common := e.common
  flags := e.flags
  cost := some e.cost
  periodYears := e.periodYears
  billingTime := some e.billingTime
  syntheticCreationTime := e.synthetic.map (·.creationTime)
  cancellationMatchingEvent := e.matchingEvent
  allocationToken := e.allocationToken

end OneTime

structure Recurring where
  common : EventCommon
  flags : EnumSet Flag
  recurrenceEndTime : Instant
  deriving DecidableEq

namespace Recurring

def endingAt (common : EventCommon) (flags : EnumSet Flag) (endTime : Instant) :
    Except BillingError Recurring := do
  common.check
  require (common.eventTime ≤ endTime) .recurrenceEndsAfterEvent
  require (Flag.synthetic ∉ flags) .recurringNotSynthetic
  return ⟨common, flags, endTime⟩

/-- A recurrence without an end. -/
def of (common : EventCommon) (flags : EnumSet Flag) : Except BillingError Recurring :=
  endingAt common flags .endOfTime

def withEnd (r : Recurring) (endTime : Instant) : Except BillingError Recurring :=
  endingAt r.common r.flags endTime

def recursAt (r : Recurring) (t : Instant) : Bool :=
  r.common.eventTime ≤ t && t < r.recurrenceEndTime

end Recurring

inductive CancelledEvent
  | oneTime (id : BillingEventId)
  | recurring (id : BillingEventId)
  deriving DecidableEq

namespace CancelledEvent

def id : CancelledEvent → BillingEventId
  | oneTime id | recurring id => id

def kind : CancelledEvent → EventKind
  | oneTime _ => .oneTime
  | recurring _ => .recurring

def oneTime? : CancelledEvent → Option BillingEventId
  | oneTime id => some id
  | recurring _ => none

def recurring? : CancelledEvent → Option BillingEventId
  | oneTime _ => none
  | recurring id => some id

end CancelledEvent

/-- Takes back one charge: the one that is named, or the one of a recurrence billed at a time. -/
structure Cancellation where
  common : EventCommon
  billingTime : Instant
  cancelled : CancelledEvent
  deriving DecidableEq

def Cancellation.ofParts (common : EventCommon) (billingTime : Instant)
    (oneTimeEvent recurringEvent : Option BillingEventId) : Except BillingError Cancellation := do
  common.check
  match oneTimeEvent, recurringEvent with
  | some id, none => return ⟨common, billingTime, .oneTime id⟩
  | none, some id => return ⟨common, billingTime, .recurring id⟩
  | _, _ => throw (.invariantViolation .cancelsOneEvent)

/-- Adds to the cost of a single charge. -/
structure Modification where
  common : EventCommon
  cost : Money
  description : String
  event : BillingEventId
  deriving DecidableEq

namespace Modification

def of (common : EventCommon) (cost : Money) (description : String) (event : BillingEventId) :
    Except BillingError Modification := do
  common.check
  requireField (!Text.isBlank description) "description"
  return ⟨common, cost, description, event⟩

/-- Takes the whole cost of a charge back. -/
def refund (id : BillingEventId) (charge : OneTime) (context : HistoryContext)
    (description : String) : Except BillingError Modification :=
  of { charge.common with
      id := id
      eventTime := context.modificationTime
      history := context.history }
    charge.cost.neg description charge.id

end Modification

inductive Event
  | oneTime (e : OneTime)
  | recurring (e : Recurring)
  | cancellation (e : Cancellation)
  | modification (e : Modification)
  deriving DecidableEq

namespace Event

def common : Event → EventCommon
  | oneTime e => e.common
  | recurring e => e.common
  | cancellation e => e.common
  | modification e => e.common

def kind : Event → EventKind
  | oneTime _ => .oneTime
  | recurring _ => .recurring
  | cancellation _ => .cancellation
  | modification _ => .modification

def id (e : Event) : BillingEventId := e.common.id

def oneTime? : Event → Option OneTime
  | oneTime e => some e
  | _ => none

def cancellation? : Event → Option Cancellation
  | cancellation e => some e
  | _ => none

def modification? : Event → Option Modification
  | modification e => some e
  | _ => none

/-- Such as `one_time BE-… Renew example.tld @ 2025-03-15 12:00:00 UTC`. -/
def toText (e : Event) : String :=
  e.kind.code ++ " " ++ e.id.toText ++ " " ++ e.common.reason.label ++ " " ++ e.common.targetId ++
    " @ " ++ e.common.eventTime.toText

theorem oneTime?_eq_some {e : Event} {o : OneTime} : e.oneTime? = some o ↔ e = .oneTime o := by
  cases e <;> simp [oneTime?]

theorem cancellation?_eq_some {e : Event} {k : Cancellation} :
    e.cancellation? = some k ↔ e = .cancellation k := by
  cases e <;> simp [cancellation?]

end Event
end NameRegistry.Billing
