import NameRegistry.Registration.Domain.Draft

/-! # What a projection reports

A projection gives the domain as it stands later, and an account of what happened on the way: the
transitions in the order of time, the grace periods that began and still last, and the billing
events to record.
-/
namespace NameRegistry.Registration

open Billing (Cancellation GracePeriod GraceStatus HistoryRef OneTime)

inductive Transition
  | transferServerApproved (time : Instant) (gaining losing : RegistrarId)
      (expirationTime : Instant) (subsumedAutorenew : Bool) (history : HistoryRef)
  | autoRenewed (time expirationTime : Instant) (registrar : RegistrarId) (history : HistoryRef)
  | gracePeriodExpired (time : Instant) (id : GracePeriodId) (status : GraceStatus)
  deriving DecidableEq

namespace Transition

/-- When the transition took effect. -/
def time : Transition → Instant
  | transferServerApproved time .. | autoRenewed time .. | gracePeriodExpired time .. => time

/-- Puts transitions in the order of time; those of one instant keep their order. -/
def inOrder (ts : List Transition) : List Transition := ts.mergeSort fun a b => a.time ≤ b.time

theorem inOrder_perm (ts : List Transition) : (inOrder ts).Perm ts := List.mergeSort_perm ..

end Transition

/-- One autorenewal: the registration ran out and was renewed for a year. -/
structure Renewal where
  time : Instant
  expirationTime : Instant
  registrar : RegistrarId
  history : HistoryRef
  gracePeriod : GracePeriod
  charge : OneTime
  deriving DecidableEq

/-- The server's approval of a transfer at its deadline. -/
structure Approval where
  time : Instant
  gaining : RegistrarId
  losing : RegistrarId
  expirationTime : Instant
  subsumed : Bool
  history : HistoryRef
  /-- What takes an absorbed autorenewal back. -/
  cancellation : Option Cancellation
  /-- In which a transfer that was charged can be undone. -/
  gracePeriod : Option GracePeriod
  deriving DecidableEq

/-- An implicit event that took effect. -/
inductive Step
  | renewal (r : Renewal)
  | approval (a : Approval)
  deriving DecidableEq

namespace Step

def gracePeriods : Step → List GracePeriod
  | renewal r => [r.gracePeriod]
  | approval a => a.gracePeriod.toList

def billingEvents : Step → List Billing.Event
  | renewal r => [.oneTime r.charge]
  | approval a => a.cancellation.toList.map .cancellation

def transition : Step → Transition
  | renewal r => .autoRenewed r.time r.expirationTime r.registrar r.history
  | approval a =>
    .transferServerApproved a.time a.gaining a.losing a.expirationTime a.subsumed a.history

end Step

/-- The expiry of a grace period, as a transition. -/
def Transition.ofExpired (g : GracePeriod) : Transition :=
  .gracePeriodExpired g.expirationTime g.id g.status

structure Outcome where
  domain : Domain
  /-- The grace periods that began on the way and still last. -/
  newGracePeriods : List GracePeriod
  newBillingEvents : List Billing.Event
  transitions : List Transition
  deriving DecidableEq

namespace Outcome

/-- Whether the record was up to date already. -/
def isUnchanged (o : Outcome) : Bool := o.transitions.isEmpty && o.newBillingEvents.isEmpty

/-- Drops the grace periods that are over, and gives an account of the steps that led to the
domain. -/
def of (d : Domain) (steps : List Step) (observed : Instant) :
    Except RegistrationError Outcome := do
  let active := d.gracePeriods.filter (·.activeAt observed)
  let expired := d.gracePeriods.filter (!·.activeAt observed)
  let current ← if expired.isEmpty then pure d
    else Domain.Draft.build { d.toDraft with gracePeriods := active }
  return {
    domain := current
    newGracePeriods := (steps.flatMap Step.gracePeriods).filter fun g => active.any (·.id = g.id)
    newBillingEvents := steps.flatMap Step.billingEvents
    transitions := Transition.inOrder (steps.map Step.transition ++ expired.map .ofExpired) }

end Outcome
end NameRegistry.Registration
