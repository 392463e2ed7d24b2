import NameRegistry.Billing.Event

/-! # Grace periods

For a while after an add, a renewal or a transfer the action can be undone and its charge taken
back. A grace period refers to that charge: to a recurring event if the registry renewed by itself,
to a single charge or to nothing otherwise. It ends without any write; an observer later than its
end just no longer sees it.
-/
namespace NameRegistry.Billing

structure GracePeriod where
  id : GracePeriodId
  status : GraceStatus
  domainRepoId : RepoId
  expirationTime : Instant
  registrarId : RegistrarId
  oneTimeEvent : Option BillingEventId
  recurringEvent : Option BillingEventId
  one_event : ¬(oneTimeEvent.isSome ∧ recurringEvent.isSome)
  recurring_iff : recurringEvent.isSome ↔ status = .autoRenew
  repoId_ne : ¬domainRepoId.isEmpty
  deriving DecidableEq

namespace GracePeriod

def ofParts (id : GracePeriodId) (status : GraceStatus) (domainRepoId : RepoId)
    (expirationTime : Instant) (registrarId : RegistrarId)
    (oneTimeEvent recurringEvent : Option BillingEventId) : Except BillingError GracePeriod :=
  if h1 : oneTimeEvent.isSome ∧ recurringEvent.isSome then
    .error (.invariantViolation .graceHasOneEvent)
  else if h2 : recurringEvent.isSome ↔ status = .autoRenew then
    if h3 : ¬domainRepoId.isEmpty then
      .ok ⟨id, status, domainRepoId, expirationTime, registrarId, oneTimeEvent,
        recurringEvent, h1, h2, h3⟩
    else .error (.missingField "domain_repo_id")
  else .error (.invariantViolation .recurringIffAutoRenew)

/-- A grace period that is put together has the given parts. -/
theorem ofParts_eq_ok {id : GracePeriodId} {status : GraceStatus} {repoId : RepoId}
    {time : Instant} {registrar : RegistrarId} {oneTime recurring : Option BillingEventId}
    {g : GracePeriod} :
    ofParts id status repoId time registrar oneTime recurring = .ok g ↔
      g.id = id ∧ g.status = status ∧ g.domainRepoId = repoId ∧ g.expirationTime = time ∧
        g.registrarId = registrar ∧ g.oneTimeEvent = oneTime ∧ g.recurringEvent = recurring := by
  rw [ofParts]
  constructor
  · intro h
    split at h
    · cases h
    · split at h
      · split at h
        · cases h
          exact ⟨rfl, rfl, rfl, rfl, rfl, rfl, rfl⟩
        · cases h
      · cases h
  · rintro ⟨rfl, rfl, rfl, rfl, rfl, rfl, rfl⟩
    rw [dif_neg g.one_event, dif_pos g.recurring_iff, dif_pos g.repoId_ne]

/-- A grace period that can refer to a single charge. -/
def create (id : GracePeriodId) (status : GraceStatus) (domainRepoId : RepoId)
    (expirationTime : Instant) (registrarId : RegistrarId) (oneTimeEvent : Option BillingEventId) :
    Except BillingError GracePeriod :=
  ofParts id status domainRepoId expirationTime registrarId oneTimeEvent none

def createForRecurring (id : GracePeriodId) (status : GraceStatus) (domainRepoId : RepoId)
    (expirationTime : Instant) (registrarId : RegistrarId) (recurringEvent : BillingEventId) :
    Except BillingError GracePeriod :=
  ofParts id status domainRepoId expirationTime registrarId none (some recurringEvent)

/-- The grace period of a charge lasts until the charge is billed. -/
def forCharge (id : GracePeriodId) (status : GraceStatus) (domainRepoId : RepoId)
    (charge : OneTime) : Except BillingError GracePeriod :=
  create id status domainRepoId charge.billingTime charge.common.registrarId (some charge.id)

def hasBillingEvent (g : GracePeriod) : Bool := g.oneTimeEvent.isSome || g.recurringEvent.isSome

/-- A grace period is over at its end. -/
def activeAt (g : GracePeriod) (t : Instant) : Bool := t < g.expirationTime

def withId (g : GracePeriod) (id : GracePeriodId) : GracePeriod := { g with id := id }

/-- The cancellation of the charge that the grace period refers to, billed when the charge would
have become final. -/
def cancellation (g : GracePeriod) (id : BillingEventId) (context : HistoryContext)
    (targetId : String) : Except BillingError Cancellation := do
  require g.hasBillingEvent .graceHasEvent
  let reason ← match g.status.reason? with
    | some reason => pure reason
    | none => throw (.invariantViolation (.graceIsBillable g.status))
  Cancellation.ofParts
    ⟨id, reason, targetId, g.registrarId, context.modificationTime, context.history⟩
    g.expirationTime g.oneTimeEvent g.recurringEvent

end GracePeriod

/-- A grace period as it was at a point of the history. -/
structure GracePeriodHistory where
  history : HistoryRef
  gracePeriod : GracePeriod
  deriving DecidableEq

end NameRegistry.Billing
