import Mathlib.Data.List.Nodup
import NameRegistry.Proofs.Ledger
import NameRegistry.Proofs.Projection.Conservation
import NameRegistry.Proofs.Projection.Handover
import NameRegistry.Proofs.Projection.Subsumption

/-! # The charge that a transfer cancels

A cancellation does not name the charge that it takes back. It names a recurring event and a time of
billing, both taken from a grace period, while the charge got them when it was made up. The two come
together because a renewal gives its charge and its grace period the same recurring event and the
same end, and the ends of later renewals are later: no second charge for the recurring event is
billed at that time. The renewals after the transfer are for another recurring event.

The main statement: a transfer cancels the charge of the autorenewal that it absorbs, and no other.
-/
namespace NameRegistry.Billing

/-- The charge is for the recurring event of the grace period, and is billed when that ends. -/
def GracePeriod.covers (g : GracePeriod) (c : OneTime) : Bool :=
  c.matchingEvent = g.recurringEvent && c.billingTime = g.expirationTime

theorem GracePeriod.covers_iff {g : GracePeriod} {c : OneTime} :
    g.covers c = true ↔ c.matchingEvent = g.recurringEvent ∧ c.billingTime = g.expirationTime := by
  rw [covers, Bool.and_eq_true, decide_eq_true_eq, decide_eq_true_eq]

end NameRegistry.Billing

namespace NameRegistry.Registration

open Billing (Event GracePeriod Ledger OneTime)

variable {σ : Type} {engine : Engine σ} {observed t : Instant}

/-- A transfer for some time absorbs the latest autorenewal in effect, if there is one. -/
theorem Domain.absorbedGrace?_eq_some {d : Domain} {p : PendingTransfer} {basis : Instant}
    {g : GracePeriod} (hbasis : p.basis = .ok basis) : d.absorbedGrace? p basis = some g ↔
      p.request.period.isZero = false ∧ IsLatestAutorenew d.gracePeriods basis g := by
  rw [← latestAutorenewGrace?_eq_some]
  constructor
  · intro h
    rw [absorbedGrace?] at h
    split at h
    · next habsorbs =>
      simp only [absorbs, hbasis, Bool.and_eq_true, Bool.not_eq_true'] at habsorbs
      exact ⟨habsorbs.1, h⟩
    · cases h
  · rintro ⟨hperiod, hlatest⟩
    obtain ⟨hmem, hstatus, hactive⟩ := mem_of_latestAutorenewGrace? hlatest
    have hgrace : d.inAutorenewGrace basis = true := by
      apply List.any_eq_true.2
      exact ⟨g, hmem, by simp [hstatus, hactive]⟩
    have habsorbs : d.absorbs p = true := by simp [absorbs, hbasis, hperiod, hgrace]
    rw [absorbedGrace?, if_pos habsorbs, hlatest]

/-- Whether a grace period covers the charge of a renewal shows in that renewal's own grace
period. -/
theorem Engine.IsRenewal.covers_charge {d : Domain} {e : Instant} {r : Renewal}
    (h : engine.IsRenewal d observed e r) (g : GracePeriod) : g.covers r.charge =
      decide (g.recurringEvent = some d.autorenewEvent ∧
        r.gracePeriod.expirationTime = g.expirationTime) := by
  rw [Bool.eq_iff_iff, GracePeriod.covers_iff, decide_eq_true_eq, h.charge]
  exact and_congr_left' eq_comm

theorem Engine.IsRenewal.covers_own {d : Domain} {e : Instant} {r : Renewal}
    (h : engine.IsRenewal d observed e r) : r.gracePeriod.covers r.charge = true := by
  rw [h.covers_charge, decide_eq_true_eq]
  exact ⟨h.grace_recurring, rfl⟩

/-- Of the charges of renewals a grace period covers those that are billed at its end, if it is for
the recurring event that they are for. -/
theorem countP_covers_of_renewals {d d' : Domain} {time : Instant} {rs : List Renewal} {s s' : σ}
    (h : engine.Renewals observed time d s rs d' s') (g : GracePeriod) :
    (rs.map (·.charge)).countP g.covers = if g.recurringEvent = some d.autorenewEvent then
      (rs.map (·.gracePeriod.expirationTime)).count g.expirationTime else 0 := by
  have hcovers : ∀ r ∈ rs, g.covers r.charge = decide (g.recurringEvent = some d.autorenewEvent ∧
      r.gracePeriod.expirationTime = g.expirationTime) := by
    intro r hr
    obtain ⟨_, hir⟩ := isRenewal_of_mem h hr
    exact hir.covers_charge g
  rw [List.countP_map]
  split
  · next hevent =>
    rw [List.count, List.countP_map]
    apply List.countP_congr
    intro r hr
    simp [hcovers r hr, hevent]
  · next hevent =>
    rw [List.countP_eq_zero]
    intro r hr
    simp [hcovers r hr, hevent]

/-- The ends of the grace periods of renewals are distinct. -/
theorem nodup_graceEnds {d d' : Domain} {time : Instant} {rs : List Renewal} {s s' : σ}
    (h : engine.Renewals observed time d s rs d' s') :
    (rs.map (·.gracePeriod.expirationTime)).Nodup := by
  rw [List.nodup_iff_pairwise_ne, List.pairwise_map]
  apply (graceEnds_of_renewals h).imp
  intro r r' hlt heq
  rw [heq] at hlt
  exact Int.lt_irrefl _ hlt

namespace Engine.Handover

variable {d : Domain} {p : PendingTransfer} {o : Outcome} {s : σ} (w : engine.Handover d t s p o)

theorem cancellations_eq :
    o.newBillingEvents.filterMap Event.cancellation? = w.approval.cancellation.toList := by
  have hcharges : ∀ rs : List Renewal,
      (rs.map fun r => Event.oneTime r.charge).filterMap Event.cancellation? = [] := by
    intro rs
    rw [List.filterMap_map]
    exact List.filterMap_eq_nil_iff.2 fun _ _ => rfl
  rw [w.newBillingEvents_eq, List.filterMap_append, List.filterMap_append, hcharges, hcharges,
    List.nil_append, List.append_nil, List.filterMap_map]
  exact List.filterMap_some

/-- The charges on both sides of the approval that a grace period covers. -/
theorem countP_covers (g : GracePeriod) : o.newCharges.countP g.covers =
    (if g.recurringEvent = some d.autorenewEvent then
      (w.before.map (·.gracePeriod.expirationTime)).count g.expirationTime else 0) +
    if g.recurringEvent = some p.approval.autorenewEvent then
      (w.after.map (·.gracePeriod.expirationTime)).count g.expirationTime else 0 := by
  rw [w.newCharges_eq, List.countP_append, countP_covers_of_renewals w.renewals_before,
    countP_covers_of_renewals w.renewals_after, w.handedOver.autorenewEvent]

include w in
/-- No two of the charges are for one recurring event and billed at one time. -/
theorem countP_covers_le_one (hother : p.approval.autorenewEvent ≠ d.autorenewEvent)
    (g : GracePeriod) : o.newCharges.countP g.covers ≤ 1 := by
  have hbefore := List.nodup_iff_count_le_one.1 (nodup_graceEnds w.renewals_before) g.expirationTime
  have hafter := List.nodup_iff_count_le_one.1 (nodup_graceEnds w.renewals_after) g.expirationTime
  rw [w.countP_covers]
  by_cases hevent : g.recurringEvent = some d.autorenewEvent
  · have hne : g.recurringEvent ≠ some p.approval.autorenewEvent := by
      rw [hevent, Ne, Option.some.injEq]
      exact fun heq => hother heq.symm
    rw [if_pos hevent, if_neg hne]
    exact hbefore
  · rw [if_neg hevent, Nat.zero_add]
    split
    · exact hafter
    · exact Nat.zero_le _

/-- The autorenew grace periods that begin on the way are those of the renewals. -/
theorem exists_renewal {g : GracePeriod} (hg : g ∈ w.steps.flatMap Step.gracePeriods)
    (hstatus : g.status = .autoRenew) :
    ∃ r ∈ w.before ++ w.after, r.gracePeriod = g ∧ g.covers r.charge = true := by
  obtain ⟨step, hstep, hg⟩ := List.mem_flatMap.1 hg
  simp only [steps, List.mem_append, List.mem_cons, List.mem_map] at hstep
  rcases hstep with ⟨r, hr, rfl⟩ | rfl | ⟨r, hr, rfl⟩
  · cases List.mem_singleton.1 hg
    obtain ⟨_, hir⟩ := isRenewal_of_mem w.renewals_before hr
    exact ⟨r, List.mem_append_left _ hr, rfl, hir.covers_own⟩
  · have hgrace := w.isTransferGrace g (Option.mem_toList.1 hg)
    cases hstatus.symm.trans hgrace.status
  · cases List.mem_singleton.1 hg
    obtain ⟨_, hir⟩ := isRenewal_of_mem w.renewals_after hr
    exact ⟨r, List.mem_append_right _ hr, rfl, hir.covers_own⟩

/-- Each autorenew grace period that begins on the way covers exactly one of the charges. -/
theorem countP_covers_eq_one (hother : p.approval.autorenewEvent ≠ d.autorenewEvent)
    {g : GracePeriod} (hg : g ∈ w.steps.flatMap Step.gracePeriods)
    (hstatus : g.status = .autoRenew) :
    o.newCharges.countP g.covers = 1 := by
  obtain ⟨r, hr, -, hcovers⟩ := w.exists_renewal hg hstatus
  apply Nat.le_antisymm (w.countP_covers_le_one hother g)
  apply List.countP_pos_iff.2
  rw [w.newCharges_eq, ← List.map_append]
  exact ⟨r.charge, List.mem_map_of_mem hr, hcovers⟩

/-- The latest autorenewal in effect just before the deadline, of those that the domain had and
those that were made on the way. -/
theorem isLatestAutorenew_iff {g : GracePeriod} :
    IsLatestAutorenew w.renewed.gracePeriods w.basis g ↔
    IsLatestAutorenew (d.gracePeriods ++ w.before.map (·.gracePeriod)) w.basis g := by
  have hmem : ∀ g, g ∈ w.renewed.gracePeriods ↔
      g ∈ d.gracePeriods ++ w.before.map (·.gracePeriod) := by
    intro g
    rw [mem_gracePeriods_of_renewals w.renewals_before, List.mem_append, List.mem_map]
  constructor
  · intro h
    exact h.congr hmem
  · intro h
    exact h.congr fun g => (hmem g).symm

/-- The transfer cancels what the grace period that it absorbs covers. -/
theorem cancels_eq_covers {k : Billing.Cancellation} (hk : w.approval.cancellation = some k) :
    ∃ g, w.renewed.absorbedGrace? p w.basis = some g ∧ ∀ c, k.cancels c = g.covers c := by
  obtain ⟨habsorbs, g, hg, event, hevent, hcancelled, hbilled⟩ :=
    w.isApproval.absorbed_of_cancellation hk
  refine ⟨g, ?_, fun c => ?_⟩
  · rw [Domain.absorbedGrace?, if_pos habsorbs]
    exact hg
  · have hevent : g.recurringEvent = some event := hevent
    rw [Billing.Cancellation.cancels, hcancelled, hbilled, GracePeriod.covers, hevent]

/-- A charge is cancelled if the transfer is for some time, and the charge is that of the latest
autorenewal in effect just before the deadline. -/
theorem any_cancels_iff {c : OneTime} : w.approval.cancellation.toList.any (·.cancels c) = true ↔
    p.request.period.isZero = false ∧
      ∃ g, IsLatestAutorenew (d.gracePeriods ++ w.before.map (·.gracePeriod)) w.basis g ∧
        g.covers c = true := by
  constructor
  · intro h
    obtain ⟨k, hk, hcancels⟩ := List.any_eq_true.1 h
    obtain ⟨g, hg, hcovers⟩ := w.cancels_eq_covers (Option.mem_toList.1 hk)
    obtain ⟨hperiod, hlatest⟩ := (Domain.absorbedGrace?_eq_some w.basis_eq).1 hg
    exact ⟨hperiod, g, w.isLatestAutorenew_iff.1 hlatest, hcovers c ▸ hcancels⟩
  · rintro ⟨hperiod, g, hlatest, hcovers⟩
    have hg :=
      (Domain.absorbedGrace?_eq_some w.basis_eq).2 ⟨hperiod, w.isLatestAutorenew_iff.2 hlatest⟩
    obtain ⟨k, hk, -⟩ := w.isApproval.cancelled g hg
    obtain ⟨g', hg', hcancels⟩ := w.cancels_eq_covers hk
    cases hg.symm.trans hg'
    exact List.any_eq_true.2 ⟨k, Option.mem_toList.2 hk, (hcancels c).trans hcovers⟩

include w in
/-- The charges are what the schedule of prices says for the times of the renewals. -/
theorem price_of_newCharge {c : OneTime} (hc : c ∈ o.newCharges) :
    engine.prices engine.config.tld c.common.eventTime = .ok c.cost := by
  have hprice : ∀ {d d' : Domain} {time : Instant} {rs : List Renewal} {s s' : σ},
      engine.Renewals t time d s rs d' s' → c ∈ rs.map (·.charge) →
      engine.prices engine.config.tld c.common.eventTime = .ok c.cost := by
    intro d d' time rs s s' hrs hc
    obtain ⟨r, hr, rfl⟩ := List.mem_map.1 hc
    obtain ⟨_, hir⟩ := isRenewal_of_mem hrs hr
    rw [hir.isCharge.eventTime]
    exact hir.price
  rw [w.newCharges_eq] at hc
  rcases List.mem_append.1 hc with hc | hc
  · exact hprice w.renewals_before hc
  · exact hprice w.renewals_after hc

include w in
theorem modifications_eq : o.newBillingEvents.filterMap Event.modification? = [] := by
  rw [w.newBillingEvents_eq, List.filterMap_eq_nil_iff]
  intro e he
  simp only [List.mem_append, List.mem_map] at he
  rcases he with ⟨r, -, rfl⟩ | ⟨k, -, rfl⟩ | ⟨r, -, rfl⟩ <;> rfl

variable {l l' : Ledger} (hl : l.Consistent)
  (hheld : ∀ e ∈ l.journal, e.kind = .recurring ∨ e.isSyntheticCharge = true)
  (hl' : l.Accepts o.newBillingEvents l')

include hl' in
theorem mem_charges_of_new {c : OneTime} (hc : c ∈ o.newCharges) : c ∈ l'.charges := by
  rw [Ledger.charges, (Ledger.eq_of_accepts hl').1, List.filterMap_append]
  exact List.mem_append_right _ hc

include hheld hl'

/-- Where nothing but recurring events and charges made up for them is recorded, the transfer
cancels all that is cancelled. -/
theorem cancellations_recorded : l'.cancellations = w.approval.cancellation.toList := by
  have hnone : l.journal.filterMap Event.cancellation? = [] := by
    rw [List.filterMap_eq_nil_iff]
    intro e he
    cases e with
    | cancellation k => rcases hheld _ he with hkind | hsynthetic <;> contradiction
    | _ => rfl
  rw [Ledger.cancellations, (Ledger.eq_of_accepts hl').1, List.filterMap_append, hnone,
    w.cancellations_eq, List.nil_append]

include w in
theorem modificationsOf_recorded (id : BillingEventId) : l'.modificationsOf id = [] := by
  have hnone : l.journal.filterMap Event.modification? = [] := by
    rw [List.filterMap_eq_nil_iff]
    intro e he
    cases e with
    | modification m => rcases hheld _ he with hkind | hsynthetic <;> contradiction
    | _ => rfl
  rw [Ledger.modificationsOf, (Ledger.eq_of_accepts hl').1, List.filterMap_append, hnone,
    w.modifications_eq]
  rfl

include hl

theorem isCancelled_eq {c : OneTime} (hc : c ∈ l'.charges) :
    l'.isCancelled c.id = w.approval.cancellation.toList.any (·.cancels c) := by
  rw [← w.cancellations_recorded hheld hl']
  exact (hl.accepts hl').isCancelled_eq (Ledger.mem_charges.1 hc)

include w in
theorem countP_isCancelled_le_one (hother : p.approval.autorenewEvent ≠ d.autorenewEvent) :
    o.newCharges.countP (fun c => l'.isCancelled c.id) ≤ 1 := by
  have hcancelled : ∀ c ∈ o.newCharges,
      l'.isCancelled c.id = w.approval.cancellation.toList.any (·.cancels c) := by
    intro c hc
    exact w.isCancelled_eq hl hheld hl' (mem_charges_of_new hl' hc)
  cases hk : w.approval.cancellation with
  | none =>
    have hzero : o.newCharges.countP (fun c => l'.isCancelled c.id) = 0 := by
      rw [List.countP_eq_zero]
      intro c hc
      simp [hcancelled c hc, hk]
    omega
  | some k =>
    obtain ⟨g, -, hcovers⟩ := w.cancels_eq_covers hk
    have hsame : o.newCharges.countP (fun c => l'.isCancelled c.id) =
        o.newCharges.countP g.covers := by
      apply List.countP_congr
      intro c hc
      simp [hcancelled c hc, hk, hcovers c]
    rw [hsame]
    exact w.countP_covers_le_one hother g

include w in
theorem effectiveCost_eq {c : OneTime} (hc : c ∈ l'.charges)
    (huncancelled : l'.isCancelled c.id = false) : l'.effectiveCost c.id = .ok c.cost := by
  rw [(hl.accepts hl').effectiveCost_eq (Ledger.mem_charges.1 hc)
    (w.modificationsOf_recorded hheld hl' c.id), huncancelled]
  rfl

end Engine.Handover

/-- Each autorenew grace period that begins with a projection past the deadline of a transfer covers
exactly one of the charges that are made up. Recorded with nothing but recurring events and charges
made up for them, the projection cancels the charges that the latest autorenew grace period in
effect just before the deadline covers, if there is one and the transfer is for some time, and no
others. Of its own charges that is one at most, and the rest cost what they were made out for. -/
theorem absorbed_charge_cancelled {d : Domain} {p : PendingTransfer} {o : Outcome} {s s' : σ}
    (hdue : d.dueTransfer? t = some p) (hother : p.approval.autorenewEvent ≠ d.autorenewEvent)
    (h : (engine.project d t).Gives s o s') : ∃ w : engine.Handover d t s p o,
      (∀ g ∈ w.steps.flatMap Step.gracePeriods,
        g.status = .autoRenew → o.newCharges.countP g.covers = 1) ∧
      ∀ {es : List Event} {ids ids' : List BillingEventId} {l l' : Ledger},
        Ledger.empty.recordAll es = (.ok ids, l) →
        (∀ e ∈ l.journal, e.kind = .recurring ∨ e.isSyntheticCharge = true) →
        l.recordAll o.newBillingEvents = (.ok ids', l') →
          (∀ c ∈ l'.charges, l'.isCancelled c.id = true ↔ p.request.period.isZero = false ∧
            ∃ g, IsLatestAutorenew (d.gracePeriods ++ w.before.map (·.gracePeriod)) w.basis g ∧
              g.covers c = true) ∧
          o.newCharges.countP (fun c => l'.isCancelled c.id) ≤ 1 ∧
          ∀ c ∈ o.newCharges, l'.isCancelled c.id = false →
            engine.prices engine.config.tld c.common.eventTime = .ok c.cost ∧
            l'.effectiveCost c.id = .ok c.cost := by
  obtain ⟨w⟩ := exists_handover hdue h
  refine ⟨w, fun g => w.countP_covers_eq_one hother, ?_⟩
  intro es ids ids' l l' hstart hheld hrecorded
  have hl : l.Consistent := Ledger.consistent_empty.accepts ⟨ids, hstart⟩
  have hl' : l.Accepts o.newBillingEvents l' := ⟨ids', hrecorded⟩
  refine ⟨?_, w.countP_isCancelled_le_one hl hheld hl' hother, ?_⟩
  · intro c hc
    rw [w.isCancelled_eq hl hheld hl' hc]
    exact w.any_cancels_iff
  · intro c hc huncancelled
    exact ⟨w.price_of_newCharge hc,
      w.effectiveCost_eq hl hheld hl' (Engine.Handover.mem_charges_of_new hl' hc) huncancelled⟩

/-- The recurring events that bill the sample domain, before the transfer and after it. -/
def Sample.recurring : List Billing.Recurring :=
  [domain.autorenewEvent, transfer.approval.autorenewEvent].map fun id =>
    { common := ⟨id, .renew, domain.name, domain.sponsor, domain.creationTime,
        ⟨domain.repoId, ⟨.ofNat (UInt64.size + 5)⟩⟩⟩
      flags := .ofList [.autoRenew]
      recurrenceEndTime := .endOfTime }

/-- The transfer of the sample domain cancels the charge of the renewal just before. -/
theorem absorbed_charge_cancelled_sample :
    ∃ (o : Outcome) (s' : UInt64) (ids ids' : List BillingEventId) (l l' : Ledger),
      Sample.domain.dueTransfer? Sample.settled = some Sample.transfer ∧
      Sample.transfer.approval.autorenewEvent ≠ Sample.domain.autorenewEvent ∧
      (Sample.registry.project Sample.domain Sample.settled).Gives 0 o s' ∧
      Ledger.empty.recordAll (Sample.recurring.map .recurring) = (.ok ids, l) ∧
      (∀ e ∈ l.journal, e.kind = .recurring ∨ e.isSyntheticCharge = true) ∧
      l.recordAll o.newBillingEvents = (.ok ids', l') ∧
      o.newCharges.countP (fun c => l'.isCancelled c.id) = 1 ∧
      ∃ w : Sample.registry.Handover Sample.domain Sample.settled 0 Sample.transfer o,
        ∀ c ∈ l'.charges, l'.isCancelled c.id = true ↔
          Sample.transfer.request.period.isZero = false ∧
          ∃ g, IsLatestAutorenew
            (Sample.domain.gracePeriods ++ w.before.map (·.gracePeriod)) w.basis g ∧
              g.covers c = true := by
  have hdue : Sample.domain.dueTransfer? Sample.settled = some Sample.transfer := by decide
  have hother : Sample.transfer.approval.autorenewEvent ≠ Sample.domain.autorenewEvent := by decide
  let l := (Ledger.empty.recordAll (Sample.recurring.map .recurring)).2
  have hstart : Ledger.empty.recordAll (Sample.recurring.map .recurring) = (.ok _, l) := rfl
  have hheld : ∀ e ∈ l.journal, e.kind = .recurring ∨ e.isSyntheticCharge = true := by decide
  obtain ⟨o, ho, ids', hids', hone⟩ :
      ∃ o ∈ ((Sample.registry.project Sample.domain Sample.settled).run.run 0).1.toOption,
        ∃ ids' ∈ (l.recordAll o.newBillingEvents).1.toOption,
          o.newCharges.countP (fun c => (l.recordAll o.newBillingEvents).2.isCancelled c.id) =
            1 := by
    decide +kernel
  obtain ⟨s', h⟩ := Projecting.gives_of_toOption ho
  obtain ⟨w, -, hledger⟩ := absorbed_charge_cancelled hdue hother h
  cases hrecorded : l.recordAll o.newBillingEvents with | mk result l' =>
  rw [hrecorded] at hids' hone
  cases result with
  | error e => cases hids'
  | ok ids' =>
    obtain ⟨hiff, -, -⟩ := hledger hstart hheld hrecorded
    exact ⟨o, s', _, ids', l, l', hdue, hother, h, hstart, hheld, hrecorded, hone, w, hiff⟩

end NameRegistry.Registration
