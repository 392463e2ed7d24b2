import NameRegistry.Billing.Error
import NameRegistry.Failure

/-! # What registration refuses

The rules of domains and their transfers, what can go wrong when a domain is projected, and the
sentences that report it.
-/
namespace NameRegistry.Registration

open Billing (BillingError)

/-- How a transfer was decided. -/
inductive Resolution
  | clientApproved | clientCancelled | clientRejected | serverApproved | serverCancelled
  deriving DecidableEq

inductive TransferStatus
  | none
  | pending
  | resolved (how : Resolution)
  deriving DecidableEq

namespace TransferStatus

def all : List TransferStatus :=
  [none, pending, resolved .clientApproved, resolved .clientCancelled, resolved .clientRejected,
    resolved .serverApproved, resolved .serverCancelled]

def label : TransferStatus → String
  | none => "None"
  | pending => "Pending"
  | resolved .clientApproved => "ClientApproved"
  | resolved .clientCancelled => "ClientCancelled"
  | resolved .clientRejected => "ClientRejected"
  | resolved .serverApproved => "ServerApproved"
  | resolved .serverCancelled => "ServerCancelled"

def code : TransferStatus → String
  | none => "NONE"
  | pending => "PENDING"
  | resolved .clientApproved => "CLIENT_APPROVED"
  | resolved .clientCancelled => "CLIENT_CANCELLED"
  | resolved .clientRejected => "CLIENT_REJECTED"
  | resolved .serverApproved => "SERVER_APPROVED"
  | resolved .serverCancelled => "SERVER_CANCELLED"

end TransferStatus

/-- A rule of registration records. -/
inductive RegistrationRule
  | gainingIsNotSponsor
  | expiresAfterRequest
  | chargeIffPeriod
  | detailsNeedTransfer
  | nameUnderTld (name : String) (tld : Tld)
  | labelNotEmpty
  | expiresAfterCreation
  | gracePeriodBelongs (id : GracePeriodId) (owner : RepoId)
  | gracePeriodsDistinct
  deriving DecidableEq

def RegistrationRule.message : RegistrationRule → String
  | gainingIsNotSponsor => "gaining registrar already sponsors the domain"
  | expiresAfterRequest => "pending transfer cannot expire before it was requested"
  | chargeIffPeriod => "a transfer charge must exist exactly when the transfer period is non-zero"
  | detailsNeedTransfer => "transfer details present without a transfer"
  | nameUnderTld name tld => "domain name " ++ name ++ " is not under TLD " ++ tld.text
  | labelNotEmpty => "domain name has an empty label"
  | expiresAfterCreation => "registration cannot expire before the domain was created"
  | gracePeriodBelongs id owner => "grace period " ++ id.toText ++ " belongs to " ++ owner.text
  | gracePeriodsDistinct => "duplicate grace period id"

inductive RegistrationError
  | invariantViolation (rule : RegistrationRule)
  | missingField (name : String)
  | invalidTransferTransition (was wanted : TransferStatus)
  deriving DecidableEq

def RegistrationError.message : RegistrationError → String
  | invariantViolation rule => "Invariant violation: " ++ rule.message
  | missingField name => "Missing required field: " ++ name
  | invalidTransferTransition was wanted =>
    "Invalid transfer transition from " ++ was.label ++ " to " ++ wanted.label

/-- What can keep a projection from an answer. -/
inductive ProjectionError
  | tldMismatch (domain : String) (tld : Tld)
  | pricing (cause : LookupError)
  | temporal (cause : TemporalError)
  | registration (cause : RegistrationError)
  | billing (cause : BillingError)
  deriving DecidableEq

def ProjectionError.message : ProjectionError → String
  | tldMismatch domain tld => "Domain " ++ domain ++ " is not under TLD " ++ tld.text
  | pricing cause => "Pricing error: " ++ cause.message
  | temporal cause => "Temporal error: " ++ cause.message
  | registration cause => "Registration error: " ++ cause.message
  | billing cause => "Billing error: " ++ cause.message

/-- Goes on with a proof of the condition, or refuses. -/
def ensure (p : Prop) [Decidable p] (refusal : RegistrationError) :
    Except RegistrationError (PLift p) :=
  if h : p then .ok ⟨h⟩ else .error refusal

/-- The value of a field that has to be there. -/
def field {α : Type} (value : Option α) (name : String) : Except RegistrationError α :=
  match value with
  | some a => .ok a
  | none => .error (.missingField name)

theorem ensure_of {p : Prop} [Decidable p] (h : p) (refusal : RegistrationError) :
    ensure p refusal = .ok ⟨h⟩ := dif_pos h

theorem ensure_of_not {p : Prop} [Decidable p] (h : ¬p) (refusal : RegistrationError) :
    ensure p refusal = .error refusal := dif_neg h

@[simp] theorem field_eq_ok {α : Type} {value : Option α} {name : String} {a : α} :
    field value name = .ok a ↔ value = some a := by
  cases value <;> simp [field]

end NameRegistry.Registration
