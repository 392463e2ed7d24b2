import NameRegistry.Billing.Reason
import NameRegistry.Identifier
import NameRegistry.Money
import NameRegistry.Instant.Text

/-! # What billing refuses

Each rule of the billing records that can be broken, each way a ledger can refuse an event, and the
sentences that report them.
-/
namespace NameRegistry.Billing

/-- A rule of billing records. -/
inductive BillingRule
  | costNotNegative
  | periodYearsRequired (reason : Reason)
  | periodYearsForbidden (reason : Reason)
  | syntheticTogether
  | recurrenceEndsAfterEvent
  | recurringNotSynthetic
  | cancelsOneEvent
  | graceHasEvent
  | graceIsBillable (status : GraceStatus)
  | graceHasOneEvent
  | recurringIffAutoRenew
  deriving DecidableEq

def BillingRule.message : BillingRule → String
  | costNotNegative => "costs should be non-negative"
  | periodYearsRequired reason => "period years must be positive for reason " ++ reason.label
  | periodYearsForbidden reason => "period years must not be set for reason " ++ reason.label
  | syntheticTogether =>
    "synthetic flag, synthetic creation time and cancellation matching event must be set together"
  | recurrenceEndsAfterEvent => "recurrence end time must not precede the event time"
  | recurringNotSynthetic => "recurring events cannot be synthetic"
  | cancelsOneEvent => "a cancellation must have exactly one billing event"
  | graceHasEvent => "cannot create cancellation for grace period without billing event"
  | graceIsBillable status => "grace period type " ++ status.label ++ " has no billable reason"
  | graceHasOneEvent => "a grace period can have at most one billing event"
  | recurringIffAutoRenew =>
    "recurring billing events must be present on (and only on) autorenew grace periods"

inductive EventKind
  | oneTime | recurring | cancellation | modification
  deriving DecidableEq

namespace EventKind

def all : List EventKind := [oneTime, recurring, cancellation, modification]

def code : EventKind → String
  | oneTime => "one_time"
  | recurring => "recurring"
  | cancellation => "cancellation"
  | modification => "modification"

end EventKind

inductive BillingError
  | invariantViolation (rule : BillingRule)
  | missingField (name : String)
  | duplicateEvent (id : BillingEventId)
  | eventNotFound (id : BillingEventId)
  | wrongEventKind (id : BillingEventId) (expected : EventKind)
  | duplicateSyntheticCharge (recurring : BillingEventId) (eventTime : Instant)
  | money (cause : MoneyError)
  deriving DecidableEq

def BillingError.message : BillingError → String
  | invariantViolation rule => "Invariant violation: " ++ rule.message
  | missingField name => "Missing required field: " ++ name
  | duplicateEvent id => "Billing event already recorded: " ++ id.toText
  | eventNotFound id => "Billing event not found: " ++ id.toText
  | wrongEventKind id expected =>
    "Billing event " ++ id.toText ++ " is not a " ++ expected.code ++ " event"
  | duplicateSyntheticCharge recurring eventTime =>
    "Synthetic charge for recurring event " ++ recurring.toText ++ " at " ++ eventTime.toText ++
      " already recorded"
  | money cause => "Calculation error: " ++ cause.message

/-- Refuses unless the rule is kept. -/
def require (kept : Bool) (rule : BillingRule) : Except BillingError Unit :=
  if kept then .ok () else .error (.invariantViolation rule)

/-- Refuses unless the field is there. -/
def requireField (there : Bool) (name : String) : Except BillingError Unit :=
  if there then .ok () else .error (.missingField name)

/-- The value of a field that has to be there. -/
def field {α : Type} (value : Option α) (name : String) : Except BillingError α :=
  match value with
  | some a => .ok a
  | none => .error (.missingField name)

@[simp] theorem require_eq_ok {kept : Bool} {rule : BillingRule} {u : Unit} :
    require kept rule = .ok u ↔ kept = true := by
  cases kept <;> simp [require]

@[simp] theorem requireField_eq_ok {there : Bool} {name : String} {u : Unit} :
    requireField there name = .ok u ↔ there = true := by
  cases there <;> simp [requireField]

@[simp] theorem field_eq_ok {α : Type} {value : Option α} {name : String} {a : α} :
    field value name = .ok a ↔ value = some a := by
  cases value <;> simp [field]

end NameRegistry.Billing
