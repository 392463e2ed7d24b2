import NameRegistry.Registration.Configuration
import NameRegistry.Registration.Projection.Outcome

/-! # Projecting a domain to a later time

First a pending transfer whose deadline has passed is approved, from the domain as it stands just
before the deadline. Then the registration is renewed once a year for each expiration up to the time
of observation. Last, grace periods that are over by then are dropped.

Nothing is written: a projection is a function of the domain, the time, the configuration, the price
schedule and the source of identifiers. Identifiers are drawn in the order of the records that need
them, and a projection that fails has used up those it drew.
-/
namespace NameRegistry.Registration

open Billing (BillingError Cancellation EventCommon GracePeriod HistoryContext HistoryRef OneTime)

/-- The collaborators of a projection. -/
structure Engine (σ : Type) where
  config : TldConfig
  prices : PriceSchedule
  ids : IdSource σ

/-- A step of a projection, which draws identifiers and may fail. -/
abbrev Projecting (σ α : Type) := ExceptT ProjectionError (StateM σ) α

/-- A part that draws nothing, its errors told apart by where they come from. -/
def Projecting.ofExcept {σ ε α : Type} (wrap : ε → ProjectionError) (x : Except ε α) :
    Projecting σ α :=
  ExceptT.mk (pure (x.mapError wrap))

/-- The expirations that have come by the given time, each a year after the one before it. They end
where autorenewal does, and where the calendar does. -/
def elapsed (expiration observed : Instant) (stop : Option Instant) : List Instant :=
  if expiration ≤ observed ∧ ∀ s ∈ stop, expiration < s then
    match _h : expiration.addYears 1 with
    | .ok next => expiration :: elapsed next observed stop
    | .error _ => [expiration]
  else []
termination_by (observed.ticks + 1 - expiration.ticks).toNat
decreasing_by
  have h1 := Instant.lt_iff.1 (Instant.lt_of_addYears_one _h)
  have h2 : expiration.ticks ≤ observed.ticks := by
    rename_i hc
    exact hc.1
  omega

/-- The domain after its renewals, the last of which settles the expiration. -/
def Domain.renewedBy (d : Domain) (rs : List Renewal) : Except RegistrationError Domain :=
  match rs.getLast? with
  | none => .ok d
  | some r => Draft.build { d.toDraft.updatedBy r.time (some d.sponsor) with
      expirationTime := some r.expirationTime
      gracePeriods := d.gracePeriods ++ rs.map (·.gracePeriod) }

/-- The transfer that the server has approved by the given time. -/
def Domain.dueTransfer? (d : Domain) (observed : Instant) : Option PendingTransfer :=
  d.transfer.pending?.filter fun p => p.deadline ≤ observed

/-- The expiration after a transfer. It adds the transfer's period, less the year that an absorbed
autorenewal added already, and stays within the longest registration from the deadline on. -/
def Domain.transferredExpiration (d : Domain) (p : PendingTransfer) (maxYears : UInt32) :
    Except TemporalError Instant :=
  match p.request.fixedExpiration with
  | some fixed => .ok fixed
  | none => do
    let added := p.request.period.inMonths - if d.absorbs p then 12 else 0
    let extended ← d.expirationTime.shift (.months added)
    let limit ← p.deadline.addYears maxYears
    return if extended ≤ limit then extended else limit

/-- The domain in the hands of its new registrar. Of its grace periods none is left. -/
def Domain.transferred (d : Domain) (p : PendingTransfer) (expirationTime : Instant)
    (grace : Option GracePeriod) : Except RegistrationError Domain :=
  Draft.build { d.toDraft.updatedBy p.deadline (some p.request.gainingRegistrarId) with
    expirationTime := some expirationTime
    autorenewEvent := some p.approval.autorenewEvent
    autorenewPollMessage := some p.approval.autorenewPollMessage
    gracePeriods := grace.toList
    sponsor := some p.request.gainingRegistrarId
    transfer := p.resolve .serverApproved p.deadline
    statuses := d.statuses.erase .pendingTransfer
    lastTransferTime := some p.deadline }

namespace Engine

variable {σ : Type} (engine : Engine σ)

/-- Takes the next identifier from the source. -/
def drawId (kind : IdKind) : Projecting σ (Id kind) := do
  let (uuid, rest) := engine.ids.draw kind (← get)
  set rest
  return ⟨uuid⟩

/-- Renews a domain that runs out at the given time, as observed later. -/
def renew (d : Domain) (observed time : Instant) : Projecting σ Renewal := do
  let next ← .ofExcept .temporal (time.addYears 1)
  let cost ← .ofExcept .pricing (engine.prices engine.config.tld time)
  let history : HistoryRef := ⟨d.repoId, ← engine.drawId .historyEntry⟩
  let graceId ← engine.drawId .gracePeriod
  let graceEnd ← .ofExcept .temporal (next.shift (.seconds (engine.config.graceSeconds .autoRenew)))
  let grace ← .ofExcept .billing
    (GracePeriod.createForRecurring graceId .autoRenew d.repoId graceEnd d.sponsor d.autorenewEvent)
  let chargeId ← engine.drawId .billingEvent
  let common : EventCommon := ⟨chargeId, .renew, d.name, d.sponsor, time, history⟩
  let draft : OneTime.Draft := {
    common := common
    flags := .ofList [.autoRenew, .synthetic]
    cost := some cost
    periodYears := some 1
    billingTime := some grace.expirationTime
    syntheticCreationTime := some observed
    cancellationMatchingEvent := some d.autorenewEvent }
  let charge ← .ofExcept .billing draft.build
  return ⟨time, next, d.sponsor, history, grace, charge⟩

/-- Renews a domain at each of the given times. -/
def renewAll (d : Domain) (observed : Instant) : List Instant → Projecting σ (List Renewal)
  | [] => return []
  | time :: times => do
    let r ← renew engine d observed time
    let rs ← renewAll d observed times
    return r :: rs

/-- Brings the renewals of a domain up to a time, which the observation may be later than. -/
def autorenew (suppressed : Bool) (d : Domain) (observed time : Instant) :
    Projecting σ (Domain × List Renewal) := do
  if suppressed then return (d, [])
  let rs ← engine.renewAll d observed (elapsed d.expirationTime time d.autorenewEndTime)
  let renewed ← .ofExcept .registration (d.renewedBy rs)
  return (renewed, rs)

/-- The cancellation of the autorenewal that a transfer absorbs: of several the latest. -/
def absorbRenewal (d : Domain) (p : PendingTransfer) (basis : Instant) (history : HistoryRef) :
    Projecting σ (Option Cancellation) := do
  if !d.absorbs p then return none
  match d.latestAutorenewGrace? basis with
  | none => return none
  | some g =>
    let id ← engine.drawId .billingEvent
    let context : HistoryContext := ⟨history, p.deadline, p.request.gainingRegistrarId⟩
    let cancellation ← .ofExcept .billing (g.cancellation id context d.name)
    return some cancellation

/-- The grace period of a transfer that is charged. -/
def transferGrace (d : Domain) (p : PendingTransfer) : Projecting σ (Option GracePeriod) := do
  match p.approval.billingEvent with
  | none => return none
  | some charge =>
    let id ← engine.drawId .gracePeriod
    let graceEnd ← .ofExcept .temporal
      (p.deadline.shift (.seconds (engine.config.graceSeconds .transfer)))
    let grace ← .ofExcept .billing
      (GracePeriod.create id .transfer d.repoId graceEnd p.request.gainingRegistrarId (some charge))
    return some grace

/-- Approves the transfer of a domain that has been brought up to just before the deadline. -/
def approve (d : Domain) (p : PendingTransfer) (basis : Instant) :
    Projecting σ (Domain × Approval) := do
  let expiration ← .ofExcept .temporal
    (d.transferredExpiration p engine.config.maxRegistrationYears)
  let history : HistoryRef := ⟨d.repoId, ← engine.drawId .historyEntry⟩
  let cancellation ← engine.absorbRenewal d p basis history
  let grace ← engine.transferGrace d p
  let transferred ← .ofExcept .registration (d.transferred p expiration grace)
  return (transferred, {
    time := p.deadline
    gaining := p.request.gainingRegistrarId
    losing := p.request.losingRegistrarId
    expirationTime := expiration
    subsumed := d.absorbs p
    history := history
    cancellation := cancellation
    gracePeriod := grace })

/-- Settles the transfer that is due, if one is: first the renewals up to just before its deadline,
then the approval. -/
def settle (suppressed : Bool) (d : Domain) (observed : Instant) :
    Projecting σ (Domain × List Step) := do
  match d.dueTransfer? observed with
  | none => return (d, [])
  | some p =>
    let basis ← .ofExcept .temporal p.basis
    let (renewed, rs) ← engine.autorenew suppressed d observed basis
    let (transferred, approval) ← engine.approve renewed p basis
    return (transferred, rs.map .renewal ++ [.approval approval])

/-- The domain as it stands at the given time, and what happened to it until then. -/
def project (d : Domain) (observed : Instant) : Projecting σ Outcome := do
  if d.tld ≠ engine.config.tld then throw (.tldMismatch d.name engine.config.tld)
  let suppressed := d.isAutorenewSuppressed
  let (settled, steps) ← engine.settle suppressed d observed
  let (renewed, rs) ← engine.autorenew suppressed settled observed observed
  .ofExcept .registration (Outcome.of renewed (steps ++ rs.map .renewal) observed)

end Engine

/-- The engine of one of the top-level domains that are configured. -/
def Engine.ofRegistry {σ : Type} (r : RegistryConfig) (name : String) (prices : PriceSchedule)
    (ids : IdSource σ) : Except ConfigError (Engine σ) := do
  return ⟨← r.tld name, prices, ids⟩

end NameRegistry.Registration
