import NameRegistry.Proofs.Projection.Cancellation
import NameRegistry.Proofs.Projection.Deadline
import NameRegistry.Proofs.Projection.PathIndependence
import NameRegistry.Proofs.Projection.Readers

/-! # What is known of a transfer before its deadline

Whether a transfer will absorb an autorenewal can be asked of a domain that is projected to the
moment just before the deadline. What is asked then is a domain as somebody wrote it down: the grace
periods that are over by then are gone, and those of renewals have identifiers that were drawn for
it. The approval asks a domain that still has the former and for which others were drawn. The main
statement: the two answers are the same.

Renewals go by the registration, the expiration and the price, not by identifiers. So they take
domains that are alike but for the identifiers of their grace periods to domains that are alike
again.
-/
namespace NameRegistry.Registration

open Billing (Event HistoryRef)

/-- Whether a transfer was reported to absorb an autorenewal. -/
def Transition.subsumedAutorenew? : Transition → Option Bool
  | transferServerApproved _ _ _ _ subsumedAutorenew _ => some subsumedAutorenew
  | _ => none

variable {σ τ : Type} {engine : Engine σ} {ids : IdSource τ} {observed observed' time : Instant}

/-- The renewal under other identifiers. -/
def Renewal.renamed (r : Renewal) (history : HistoryEntryId) (grace : GracePeriodId)
    (charge : BillingEventId) : Renewal :=
  let history : HistoryRef := { r.history with historyId := history }
  { r with
    history := history
    gracePeriod := r.gracePeriod.withId grace
    charge := { r.charge with
      common := { r.charge.common with id := charge, history := history } } }

theorem Engine.IsRenewal.renamed {d : Domain} {r : Renewal} (h : engine.IsRenewal d observed time r)
    (history : HistoryEntryId) (grace : GracePeriodId) (charge : BillingEventId) :
    (engine.withIds ids).IsRenewal d observed time (r.renamed history grace charge) where
  time_eq := h.time_eq
  year := h.year
  registrar := h.registrar
  history := h.history
  grace_status := h.grace_status
  grace_owner := h.grace_owner
  grace_end := h.grace_end
  grace_registrar := h.grace_registrar
  grace_oneTime := h.grace_oneTime
  grace_recurring := h.grace_recurring
  price := h.price
  price_nonneg := h.price_nonneg
  charge := congrArg (fun c : Billing.OneTime => { c with common := { c.common with
    id := charge, history := { r.history with historyId := history } } }) h.charge

/-- A renewal that one reader makes any other can make, whatever identifiers it draws. -/
theorem exists_renew_withIds {d : Domain} {r : Renewal} (h : engine.IsRenewal d observed time r)
    (ids : IdSource τ) (observed' : Instant) (u : τ) : ∃ history grace charge u',
      ((engine.withIds ids).renew d observed' time).Gives u
        ({ r with charge := r.charge.createdAt observed' }.renamed history grace charge) u' := by
  obtain ⟨history, u₁, hhistory⟩ : ∃ id u₁, ids.draw .historyEntry u = (id, u₁) := ⟨_, _, rfl⟩
  obtain ⟨grace, u₂, hgrace⟩ : ∃ id u₂, ids.draw .gracePeriod u₁ = (id, u₂) := ⟨_, _, rfl⟩
  obtain ⟨charge, u₃, hcharge⟩ : ∃ id u₃, ids.draw .billingEvent u₂ = (id, u₃) := ⟨_, _, rfl⟩
  refine ⟨⟨history⟩, ⟨grace⟩, ⟨charge⟩, u₃, renew_gives.2 ⟨h.seenAt.renamed _ _ _, ?_⟩⟩
  have hids : (engine.withIds ids).ids = ids := rfl
  simp only [hids, Renewal.kinds, IdSource.drawIds, hhistory, hgrace, hcharge]
  rfl

namespace Domain

/-- The domains have one registration and one expiration, and are in autorenew grace at the same
times. -/
structure Alike (d e : Domain) : Prop where
  same : d.SameRegistration e
  expirationTime : e.expirationTime = d.expirationTime
  inAutorenewGrace : ∀ t, e.inAutorenewGrace t = d.inAutorenewGrace t

/-- A renewal puts the domain in autorenew grace until its grace period ends. -/
theorem inAutorenewGrace_of_renewedBy {d d' : Domain} {r : Renewal}
    (hr : engine.IsRenewal d observed time r) (hd : d.renewedBy [r] = .ok d') (t : Instant) :
    d'.inAutorenewGrace t = (d.inAutorenewGrace t || r.gracePeriod.activeAt t) := by
  rw [inAutorenewGrace, gracePeriods_of_renewedBy hd, (GraceOrder.sort_perm _).any_eq,
    List.any_append]
  simp [inAutorenewGrace, hr.grace_status]

namespace Alike

variable {d d' e e' : Domain}

theorem refl (d : Domain) : d.Alike d := ⟨.refl d, rfl, fun _ => rfl⟩

theorem symm (h : d.Alike e) : e.Alike d :=
  ⟨h.same.symm, h.expirationTime.symm, fun t => (h.inAutorenewGrace t).symm⟩

theorem renews (h : d.Alike e) (hd : d.Renews time) : e.Renews time :=
  h.same.renews h.expirationTime hd

theorem absorbs (h : d.Alike e) (p : PendingTransfer) : e.absorbs p = d.absorbs p := by
  simp only [Domain.absorbs, h.inAutorenewGrace]

/-- Renewals to one expiration, with grace periods that end together, keep domains alike. -/
theorem renewedBy {r r' : Renewal} (h : d.Alike e) (hr : engine.IsRenewal d observed time r)
    (hr' : (engine.withIds ids).IsRenewal e observed' time r') (hd : d.renewedBy [r] = .ok d')
    (he : e.renewedBy [r'] = .ok e') : d'.Alike e' where
  same := (sameRegistration_of_renewedBy hd).symm.trans
    (h.same.trans (sameRegistration_of_renewedBy he))
  expirationTime := by
    rw [expirationTime_of_renewedBy he, expirationTime_of_renewedBy hd]
    exact Except.ok.inj (hr'.year.symm.trans hr.year)
  inAutorenewGrace t := by
    have hexp : r'.expirationTime = r.expirationTime := Except.ok.inj (hr'.year.symm.trans hr.year)
    have hend : r'.gracePeriod.expirationTime = r.gracePeriod.expirationTime := by
      have hend' := hr'.grace_end
      rw [hexp] at hend'
      exact Except.ok.inj (hend'.symm.trans hr.grace_end)
    rw [inAutorenewGrace_of_renewedBy hr' he, inAutorenewGrace_of_renewedBy hr hd,
      h.inAutorenewGrace, Billing.GracePeriod.activeAt, hend]
    rfl

end Alike
end Domain

/-- The renewals that one reader makes any other with fresh identifiers can make, on a domain that
is alike. -/
theorem exists_renewals_withIds {d d' e : Domain} {rs : List Renewal} {s s' : σ}
    {used : List AnyId} {u : τ} (h : engine.Renewals observed time d s rs d' s')
    (halike : d.Alike e) (hs : (engine.withIds ids).Supplied e used u) (observed' : Instant) :
    ∃ rs' e' u', (engine.withIds ids).Renewals observed' time e u rs' e' u' ∧ d'.Alike e' := by
  -- the renewals differ in their identifiers from the first one on; that the domains stay alike
  -- carries the rest
  induction h generalizing e used u with
  | stop hstop => exact ⟨[], e, u, .stop fun hrenews => hstop (halike.symm.renews hrenews), halike⟩
  | next hrenews hr hd₁ _ ih =>
    have hr := (renew_gives.1 hr).1
    obtain ⟨_, _, _, u₁, hr'⟩ :=
      exists_renew_withIds (halike.same.symm.isRenewal hr) ids observed' u
    rw [← halike.expirationTime] at hr hr'
    obtain ⟨e₁, he₁⟩ := hs.exists_renewedBy hr'
    have halike₁ := halike.renewedBy hr (renew_gives.1 hr').1 hd₁ he₁
    obtain ⟨rs', e', u', hrest, halike'⟩ := ih halike₁ (hs.renewed hr' he₁)
    exact ⟨_, e', u', .next (halike.renews hrenews) hr' he₁ hrest, halike'⟩

/-- A projection to the moment before the deadline of a transfer makes the renewals up to there. -/
theorem project_basis_gives {d d' : Domain} {p : PendingTransfer} {basis : Instant}
    {rs : List Renewal} {s s' : σ} (htld : d.tld = engine.config.tld)
    (hpending : d.transfer.pending? = some p) (hbasis : p.basis = .ok basis)
    (h : engine.Renewals basis basis d s rs d' s') :
    (engine.project d basis).Gives s (.account d' (rs.map .renewal) basis) s' := by
  have hundue : d.dueTransfer? basis = none := by
    rw [Domain.dueTransfer?_eq_none]
    rintro p' hp'
    cases hpending.symm.trans hp'
    exact (PendingTransfer.basis_lt hbasis).1
  exact project_gives.2 ⟨htld, d', _, (course_of_none hundue).2 ⟨rs, h, rfl⟩, rfl⟩

/-- The domain that the query is made on answers as the one that the approval starts from. -/
theorem isTransferSubsumed_of_alike {d e : Domain} {p : PendingTransfer} {basis : Instant}
    (h : d.Alike e) (hpending : d.transfer.pending? = some p) (hbasis : p.basis = .ok basis) :
    (e.lapse basis).transfer.pending? = some p ∧
    (e.lapse basis).isTransferSubsumed = d.absorbs p := by
  have hpending' : (e.lapse basis).transfer.pending? = some p := by
    rw [← hpending, ← h.same.transfer]
    rfl
  refine ⟨hpending', ?_⟩
  rw [Domain.isTransferSubsumed, hpending', Option.any_some,
    e.absorbs_lapse hbasis (Int.le_refl _), h.absorbs]

theorem Engine.Handover.exists_cancellation_iff {d : Domain} {p : PendingTransfer} {o : Outcome}
    {t : Instant} {s : σ} (w : engine.Handover d t s p o) :
    (∃ k, .cancellation k ∈ o.newBillingEvents) ↔ w.renewed.absorbs p = true := by
  have hlength := w.isApproval.length_cancellation w.basis_eq
  have hmem : ∀ k, .cancellation k ∈ o.newBillingEvents ↔ k ∈ w.approval.cancellation.toList := by
    intro k
    rw [← w.cancellations_eq, List.mem_filterMap]
    simp [Event.cancellation?_eq_some]
  simp only [hmem]
  rw [← List.length_pos_iff_exists_mem, hlength, w.isApproval.subsumed]
  cases w.renewed.absorbs p <;> simp

/-- Suppose a domain with a pending transfer is projected to its deadline or past it. Then any
reader with fresh identifiers can project it to the moment just before the deadline. The transfer is
still pending there, and whether the domain then says that the transfer will absorb an autorenewal
is what the one approval that is reported says of it, and decides whether anything is cancelled. -/
theorem subsumption_foretold {d : Domain} {p : PendingTransfer} {basis t : Instant} {o : Outcome}
    {s s' : σ} {u : τ} (hpending : d.transfer.pending? = some p) (hbasis : p.basis = .ok basis)
    (hdue : p.deadline ≤ t) (hfresh : ids.FreshFor drawLimit (d.gracePeriods.map (·.id.any)) u)
    (h : (engine.project d t).Gives s o s') :
    ∃ before u', ((engine.withIds ids).project d basis).Gives u before u' ∧
      before.domain.transfer.pending? = some p ∧
      o.transitions.filterMap Transition.subsumedAutorenew? = [before.domain.isTransferSubsumed] ∧
      ((∃ k, .cancellation k ∈ o.newBillingEvents) ↔ before.domain.isTransferSubsumed = true) := by
  obtain ⟨w⟩ := exists_handover (Domain.dueTransfer?_eq_some.2 ⟨hpending, hdue⟩) h
  obtain rfl : w.basis = basis := Except.ok.inj (w.basis_eq.symm.trans hbasis)
  have hsupplied : (engine.withIds ids).Supplied d (d.gracePeriods.map (·.id.any)) u :=
    Engine.supplied_of_freshFor hfresh fun g hg => List.mem_map_of_mem hg
  obtain ⟨rs, e, u', hrs, halike⟩ :=
    exists_renewals_withIds w.renewals_before (.refl d) hsupplied w.basis
  have hrenewed : w.renewed.transfer.pending? = some p := by
    rw [(renewals_end w.renewals_before).2.transfer, hpending]
  obtain ⟨hstill, hanswer⟩ := isTransferSubsumed_of_alike halike hrenewed hbasis
  have htld : d.tld = (engine.withIds ids).config.tld := (project_gives.1 h).1
  refine ⟨_, u', project_basis_gives htld hpending hbasis hrs, hstill, ?_, ?_⟩
  · rw [congrArg Outcome.transitions w.account_eq,
      Outcome.filterMap_transitions_of_approval (fun _ => rfl) (fun _ => rfl)]
    show [w.approval.subsumed] = [(e.lapse w.basis).isTransferSubsumed]
    rw [w.isApproval.subsumed, hanswer]
  · show _ ↔ (e.lapse w.basis).isTransferSubsumed = true
    rw [hanswer, w.exists_cancellation_iff]

/-- Another reader is told in advance that the transfer of the sample domain absorbs the renewal
just before it. -/
theorem subsumption_foretold_sample : ∃ (basis : Instant) (o before : Outcome) (s' u' : UInt64),
    Sample.domain.transfer.pending? = some Sample.transfer ∧ Sample.transfer.basis = .ok basis ∧
      Sample.transfer.deadline ≤ Sample.settled ∧
      IdSource.sequential.FreshFor drawLimit (Sample.domain.gracePeriods.map (·.id.any)) 4000000 ∧
      (Sample.registry.project Sample.domain Sample.settled).Gives 0 o s' ∧
      ((Sample.registry.withIds .sequential).project Sample.domain basis).Gives 4000000 before u' ∧
      before.domain.isTransferSubsumed = true ∧
      o.transitions.filterMap Transition.subsumedAutorenew? = [true] := by
  have hpending : Sample.domain.transfer.pending? = some Sample.transfer := rfl
  have hdue : Sample.transfer.deadline ≤ Sample.settled := by decide
  have hfresh : IdSource.sequential.FreshFor drawLimit
      (Sample.domain.gracePeriods.map (·.id.any)) 4000000 :=
    IdSource.sequential_freshFor (by decide) (by decide)
  obtain ⟨basis, hshift⟩ : ∃ basis, Sample.transfer.deadline.shift? (.millisBack 1) = some basis :=
    Option.isSome_iff_exists.1 (by decide +kernel)
  have hbasis : Sample.transfer.basis = .ok basis := Instant.shift_eq_ok.2 hshift
  obtain ⟨o, ho, hcancels⟩ :
      ∃ o ∈ ((Sample.registry.project Sample.domain Sample.settled).run.run 0).1.toOption,
        o.newBillingEvents.any (·.cancellation?.isSome) = true := by
    decide +kernel
  obtain ⟨s', h⟩ := Projecting.gives_of_toOption ho
  obtain ⟨before, u', hbefore, -, hreported, hcancelled⟩ :=
    subsumption_foretold hpending hbasis hdue hfresh h
  have htrue : before.domain.isTransferSubsumed = true := by
    obtain ⟨e, he, hsome⟩ := List.any_eq_true.1 hcancels
    obtain ⟨k, hk⟩ := Option.isSome_iff_exists.1 hsome
    obtain rfl := Event.cancellation?_eq_some.1 hk
    exact hcancelled.1 ⟨k, he⟩
  rw [htrue] at hreported
  exact ⟨basis, o, before, s', u', hpending, hbasis, hdue, hfresh, h, hbefore, htrue, hreported⟩

end NameRegistry.Registration
