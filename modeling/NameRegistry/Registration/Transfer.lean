import NameRegistry.Registration.Error
import NameRegistry.SortedSet

/-! # Transfers

A transfer moves a domain to another registrar. While it is pending, everything that the server's
approval would create exists already and is only referred to: the charge, the new autorenew
recurrence and its poll message. A decision keeps the request and puts the time of the decision in
place of the deadline; it is never taken back.
-/
namespace NameRegistry.Registration

open Std

/-- A record that a transfer created ahead of its approval. -/
inductive EntityRef
  | billingEvent (id : BillingEventId)
  | pollMessage (id : PollMessageId)
  deriving DecidableEq

namespace EntityRef

def rank : EntityRef → Nat
  | billingEvent _ => 0
  | pollMessage _ => 1

def key : EntityRef → Nat
  | billingEvent id => id.key
  | pollMessage id => id.key

/-- Billing events come first; references of one kind go by their identifiers. -/
instance : Ord EntityRef := ⟨compareLex (compareOn rank) (compareOn key)⟩

instance : TransOrd EntityRef :=
  inferInstanceAs (TransCmp (compareLex (compareOn rank) (compareOn key)))

instance : LawfulEqOrd EntityRef where
  eq_of_compare := by
    intro a b h
    obtain ⟨h1, h2⟩ := compareLex_eq_eq.1 h
    have h1 : a.rank = b.rank := LawfulEqOrd.eq_of_compare h1
    have h2 : a.key = b.key := LawfulEqOrd.eq_of_compare h2
    cases a <;> cases b <;> simp_all [rank, key, Id.key_inj]

end EntityRef

/-- What the server's approval of a transfer will put in force. -/
structure ServerApproval where
  billingEvent : Option BillingEventId
  autorenewEvent : BillingEventId
  autorenewPollMessage : PollMessageId
  entities : SortedSet EntityRef
  billing_mem : ∀ id ∈ billingEvent, EntityRef.billingEvent id ∈ entities
  autorenew_mem : EntityRef.billingEvent autorenewEvent ∈ entities
  poll_mem : EntityRef.pollMessage autorenewPollMessage ∈ entities
  deriving DecidableEq

/-- The named references are among the entities, whatever else is. -/
def ServerApproval.of (billingEvent : Option BillingEventId) (autorenewEvent : BillingEventId)
    (autorenewPollMessage : PollMessageId) (others : SortedSet EntityRef) : ServerApproval where
  billingEvent := billingEvent
  autorenewEvent := autorenewEvent
  autorenewPollMessage := autorenewPollMessage
  entities :=
    let charged := match billingEvent with
      | some id => others.insert (EntityRef.billingEvent id)
      | none => others
    (charged.insert (EntityRef.billingEvent autorenewEvent)).insert
      (.pollMessage autorenewPollMessage)
  billing_mem id h := by
    cases h
    simp
  autorenew_mem := by simp
  poll_mem := by simp

structure TransferRequest where
  gainingRegistrarId : RegistrarId
  losingRegistrarId : RegistrarId
  requestTime : Instant
  /-- The deadline of a pending transfer; once it is decided, the time of the decision. -/
  expirationTime : Instant
  period : Period
  /-- The expiration the domain gets, where it does not follow from the period. -/
  fixedExpiration : Option Instant
  deriving DecidableEq

/-- A transfer that waits for a decision. -/
structure PendingTransfer where
  request : TransferRequest
  approval : ServerApproval
  gaining_ne : request.gainingRegistrarId.isEmpty = false
  losing_ne : request.losingRegistrarId.isEmpty = false
  registrars_ne : request.gainingRegistrarId ≠ request.losingRegistrarId
  requested_le : request.requestTime ≤ request.expirationTime
  charge_iff : approval.billingEvent.isSome ↔ request.period.isZero = false
  deriving DecidableEq

inductive TransferData
  | empty
  | pending (transfer : PendingTransfer)
  | resolved (how : Resolution) (request : TransferRequest) (approval : Option ServerApproval)
  deriving DecidableEq

namespace PendingTransfer

def of (request : TransferRequest) (approval : ServerApproval) :
    Except RegistrationError PendingTransfer := do
  let ⟨h1⟩ ← ensure (request.gainingRegistrarId.isEmpty = false)
    (.missingField "gaining_registrar_id")
  let ⟨h2⟩ ← ensure (request.losingRegistrarId.isEmpty = false)
    (.missingField "losing_registrar_id")
  let ⟨h3⟩ ← ensure (request.gainingRegistrarId ≠ request.losingRegistrarId)
    (.invariantViolation .gainingIsNotSponsor)
  let ⟨h4⟩ ← ensure (request.requestTime ≤ request.expirationTime)
    (.invariantViolation .expiresAfterRequest)
  let ⟨h5⟩ ← ensure (approval.billingEvent.isSome ↔ request.period.isZero = false)
    (.invariantViolation .chargeIffPeriod)
  return ⟨request, approval, h1, h2, h3, h4, h5⟩

/-- A pending transfer meets what it is checked for. -/
theorem of_parts (p : PendingTransfer) : of p.request p.approval = .ok p := by
  refine (bind_of_ok (ensure_of p.gaining_ne _) _).trans ?_
  refine (bind_of_ok (ensure_of p.losing_ne _) _).trans ?_
  refine (bind_of_ok (ensure_of p.registrars_ne _) _).trans ?_
  refine (bind_of_ok (ensure_of p.requested_le _) _).trans ?_
  exact bind_of_ok (ensure_of p.charge_iff _) _

def deadline (p : PendingTransfer) : Instant := p.request.expirationTime

/-- The instant an approval starts from, just before the deadline. -/
def basis (p : PendingTransfer) : Except TemporalError Instant := p.deadline.shift (.millisBack 1)

/-- The decided transfer. The request is kept but for its expiration time. -/
def resolve (p : PendingTransfer) (how : Resolution) (time : Instant) : TransferData :=
  .resolved how { p.request with expirationTime := time } (some p.approval)

end PendingTransfer

namespace TransferData

def status : TransferData → TransferStatus
  | empty => .none
  | pending _ => .pending
  | resolved how _ _ => .resolved how

def request? : TransferData → Option TransferRequest
  | empty => none
  | pending p => some p.request
  | resolved _ request _ => some request

def approval? : TransferData → Option ServerApproval
  | empty => none
  | pending p => some p.approval
  | resolved _ _ approval => approval

def pending? : TransferData → Option PendingTransfer
  | pending p => some p
  | _ => none

def isPending (t : TransferData) : Bool := t.pending?.isSome

def isEmpty (t : TransferData) : Bool := t.status = .none

/-- Decides a pending transfer. -/
def resolveAs (t : TransferData) (status : TransferStatus) (time : Instant) :
    Except RegistrationError TransferData :=
  match t, status with
  | pending p, .resolved how => .ok (p.resolve how time)
  | _, _ => .error (.invalidTransferTransition t.status status)

/-- Puts a transfer together from what was stored of it. -/
def ofParts (status : TransferStatus) (request : Option TransferRequest)
    (approval : Option ServerApproval) : Except RegistrationError TransferData :=
  match status, request, approval with
  | .none, none, none => .ok empty
  | .none, _, _ => .error (.invariantViolation .detailsNeedTransfer)
  | .pending, some request, some approval => (PendingTransfer.of request approval).map pending
  | .pending, some _, none => .error (.missingField "server_approve")
  | _, none, _ => .error (.missingField "request")
  | .resolved how, some request, approval => .ok (resolved how request approval)

/-- A transfer is put together again from its own parts. -/
theorem ofParts_parts (t : TransferData) : ofParts t.status t.request? t.approval? = .ok t := by
  cases t with
  | empty => rfl
  | resolved how request approval => rfl
  | pending p => exact congrArg (Except.map pending) p.of_parts

end TransferData
end NameRegistry.Registration
