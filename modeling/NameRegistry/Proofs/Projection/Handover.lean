import NameRegistry.Proofs.Projection.Autorenewal

/-! # Past the deadline of a transfer

A projection past the deadline of a transfer has three parts: the renewals up to just before the
deadline, the approval of the domain as they leave it, and the renewals that follow. Here the parts
get names. Neither the first nor the last of them changes anything but the expiration, the grace
periods and the last update, so what the approval hands over stays handed over. The main statement:
what a projection leaves as it was, and what a domain is after a transfer.
-/
namespace NameRegistry.Registration

open Billing (Event GracePeriod OneTime)

variable {σ : Type} {engine : Engine σ} {observed t : Instant}

/-- The parts of a projection past the deadline of a transfer, with the domain and the state of the
source that each of them leaves. -/
structure Engine.Handover (engine : Engine σ) (d : Domain) (t : Instant) (s : σ)
    (p : PendingTransfer) (o : Outcome) where
  /-- The moment just before the deadline. -/
  basis : Instant
  before : List Renewal
  renewed : Domain
  atApproval : σ
  approval : Approval
  transferred : Domain
  afterApproval : σ
  after : List Renewal
  final : Domain
  atEnd : σ
  basis_eq : p.basis = .ok basis
  renewals_before : engine.Renewals t basis d s before renewed atApproval
  approves : (engine.approve renewed p basis).Gives atApproval (transferred, approval) afterApproval
  renewals_after : engine.Renewals t t transferred afterApproval after final atEnd
  account_eq : o = .account final (before.map .renewal ++ .approval approval ::
    after.map .renewal) t

theorem exists_handover {d : Domain} {p : PendingTransfer} {o : Outcome} {s s' : σ}
    (hdue : d.dueTransfer? t = some p) (h : (engine.project d t).Gives s o s') :
    Nonempty (engine.Handover d t s p o) := by
  obtain ⟨-, d', steps, hcourse, ho⟩ := project_gives.1 h
  obtain ⟨basis, rs, d₁, s₁, d₂, a, s₂, rs', hbasis, hrs, ha, hrs', rfl⟩ :=
    (course_of_some hdue).1 hcourse
  exact ⟨⟨basis, rs, d₁, s₁, a, d₂, s₂, rs', d', s', hbasis, hrs, ha, hrs', ho⟩⟩

namespace Domain

/-- The draft with what renewals set, and with its grace periods, taken from another domain. -/
def Draft.renewedAs (x : Draft) (d : Domain) : Draft :=
  { x with
    expirationTime := some d.expirationTime
    gracePeriods := d.gracePeriods
    lastUpdateTime := d.lastUpdateTime
    lastUpdateRegistrar := d.lastUpdateRegistrar }

/-- The draft in the hands of the gaining registrar. -/
def Draft.handedOver (x : Draft) (p : PendingTransfer) : Draft :=
  { x with
    statuses := StatusSet.withImplicit (x.statuses.erase .pendingTransfer) (!x.nameservers.isEmpty)
    sponsor := some p.request.gainingRegistrarId
    autorenewEvent := some p.approval.autorenewEvent
    autorenewPollMessage := some p.approval.autorenewPollMessage
    transfer := .resolved .serverApproved p.request (some p.approval)
    lastTransferTime := some p.deadline }

theorem toDraft_of_renewals {d d' : Domain} {time : Instant} {rs : List Renewal} {s s' : σ}
    (h : engine.Renewals observed time d s rs d' s') : d'.toDraft = d.toDraft.renewedAs d' := by
  induction h with
  | stop _ => rfl
  | next _ _ hd₁ _ ih =>
    rw [ih, renewedBy_one.1 hd₁]
    rfl

theorem toDraft_of_transferred {d d' : Domain} {p : PendingTransfer} {expiration : Instant}
    {grace : Option GracePeriod} (h : d.transferred p expiration grace = .ok d') :
    d'.toDraft = (d.toDraft.handedOver p).renewedAs d' := by
  have hd := transferred_eq_ok.1 h
  have hover := handedOver_of_transferred h
  have htime : d'.lastUpdateTime = some p.deadline := congrArg Draft.lastUpdateTime hd
  have hregistrar : d'.lastUpdateRegistrar = some p.request.gainingRegistrarId :=
    congrArg Draft.lastUpdateRegistrar hd
  rw [hd, Draft.renewedAs, hover.expirationTime, hover.gracePeriods, htime, hregistrar]
  rfl

end Domain

namespace Engine.Handover

variable {d : Domain} {p : PendingTransfer} {o : Outcome} {s : σ} (w : engine.Handover d t s p o)

def steps : List Step := w.before.map .renewal ++ .approval w.approval :: w.after.map .renewal

theorem isApproval : engine.IsApproval w.renewed p w.basis w.approval :=
  (isApproval_of_gives w.approves).1

theorem handedOver :
    w.renewed.HandedOver p w.approval.expirationTime w.approval.gracePeriod w.transferred :=
  Domain.handedOver_of_transferred (isApproval_of_gives w.approves).2.1

theorem domain_eq : o.domain = w.final.lapse t := congrArg Outcome.domain w.account_eq

include w in
/-- Whatever is renewed before and after, the approval is what hands the domain over. -/
theorem toDraft_eq : o.domain.toDraft = (d.toDraft.handedOver p).renewedAs o.domain := by
  have hbefore := Domain.toDraft_of_renewals w.renewals_before
  have happroval := Domain.toDraft_of_transferred (isApproval_of_gives w.approves).2.1
  have hafter := Domain.toDraft_of_renewals w.renewals_after
  rw [w.domain_eq, Domain.toDraft_lapse, hafter, happroval, hbefore]
  rfl

/-- Of the grace periods at the end none was there before the approval. -/
theorem mem_gracePeriods {g : GracePeriod} : g ∈ o.domain.gracePeriods ↔
    (g ∈ w.approval.gracePeriod ∨ ∃ r ∈ w.after, r.gracePeriod = g) ∧ g.activeAt t = true := by
  rw [w.domain_eq, Domain.gracePeriods_lapse, List.mem_filter,
    mem_gracePeriods_of_renewals w.renewals_after, w.handedOver.gracePeriods, Option.mem_toList]
  rfl

end Engine.Handover

/-- A grace period that a step began and that the domain still has is reported as a new one. -/
theorem Outcome.mem_newGracePeriods_account {d : Domain} {steps : List Step} {step : Step}
    {g : GracePeriod} (hstep : step ∈ steps) (hg : g ∈ step.gracePeriods)
    (hmem : g ∈ (d.lapse t).gracePeriods) : g ∈ (account d steps t).newGracePeriods := by
  apply List.mem_filter.2
  constructor
  · exact List.mem_flatMap.2 ⟨step, hstep, hg⟩
  · exact List.any_eq_true.2 ⟨g, hmem, decide_eq_true rfl⟩

namespace Engine.Handover

variable {d : Domain} {p : PendingTransfer} {o : Outcome} {s : σ} (w : engine.Handover d t s p o)

theorem isTransferGrace : ∀ g ∈ w.approval.gracePeriod, engine.IsTransferGrace d p g := by
  intro g hg
  have h := w.isApproval.isTransferGrace g hg
  exact { h with owner := h.owner.trans (renewals_end w.renewals_before).2.repoId }

/-- The domain has the grace period of the transfer for as long as that lasts. -/
theorem mem_gracePeriods_of_approval {g : GracePeriod} (hg : g ∈ w.approval.gracePeriod)
    (hactive : g.activeAt t = true) : g ∈ o.domain.gracePeriods ∧ g ∈ o.newGracePeriods := by
  have hmem : g ∈ o.domain.gracePeriods := w.mem_gracePeriods.2 ⟨.inl hg, hactive⟩
  refine ⟨hmem, ?_⟩
  rw [w.domain_eq] at hmem
  rw [w.account_eq]
  have hstep : .approval w.approval ∈ w.steps := List.mem_append_right _ List.mem_cons_self
  exact Outcome.mem_newGracePeriods_account hstep (Option.mem_toList.2 hg) hmem

/-- No other grace period of the domain is for a transfer: the renewals that follow begin their
own. -/
theorem mem_approval_of_status {g : GracePeriod} (hg : g ∈ o.domain.gracePeriods)
    (hstatus : g.status = .transfer) : g ∈ w.approval.gracePeriod ∧ g.activeAt t = true := by
  obtain ⟨hmem, hactive⟩ := w.mem_gracePeriods.1 hg
  refine ⟨hmem.resolve_right ?_, hactive⟩
  rintro ⟨r, hr, rfl⟩
  obtain ⟨_, hir⟩ := isRenewal_of_mem w.renewals_after hr
  cases hir.grace_status.symm.trans hstatus

end Engine.Handover

/-- The single charges that a projection makes up. -/
def Outcome.newCharges (o : Outcome) : List OneTime := o.newBillingEvents.filterMap Event.oneTime?

theorem billingEvents_of_map_renewal (rs : List Renewal) :
    (rs.map Step.renewal).flatMap Step.billingEvents = rs.map fun r => .oneTime r.charge := by
  rw [List.flatMap_map, List.map_eq_flatMap]
  rfl

namespace Engine.Handover

variable {d : Domain} {p : PendingTransfer} {o : Outcome} {s : σ} (w : engine.Handover d t s p o)

theorem newBillingEvents_eq : o.newBillingEvents = w.before.map (fun r => .oneTime r.charge) ++
    (w.approval.cancellation.toList.map .cancellation ++
      w.after.map fun r => .oneTime r.charge) := by
  rw [← billingEvents_of_map_renewal, ← billingEvents_of_map_renewal]
  have hevents : o.newBillingEvents = w.steps.flatMap Step.billingEvents :=
    congrArg Outcome.newBillingEvents w.account_eq
  rw [hevents, steps, List.flatMap_append, List.flatMap_cons]
  rfl

theorem newCharges_eq : o.newCharges = w.before.map (·.charge) ++ w.after.map (·.charge) := by
  rw [Outcome.newCharges, w.newBillingEvents_eq]
  simp [Event.oneTime?, Function.comp_def]

end Engine.Handover

/-- A projection sets the expiration, the grace periods and the last update; if no transfer is due,
nothing else. A transfer that is due puts the domain in the hands of the gaining registrar, however
often it is renewed before and after. Its grace period is there, and new, exactly if the transfer is
for some time and the grace period has not ended. -/
theorem project_changes {d : Domain} {o : Outcome} {s s' : σ}
    (h : (engine.project d t).Gives s o s') :
    (d.dueTransfer? t = none → o.domain.toDraft = d.toDraft.renewedAs o.domain) ∧
    ∀ p ∈ d.dueTransfer? t, o.domain.toDraft = (d.toDraft.handedOver p).renewedAs o.domain ∧
      (∀ g ∈ o.domain.gracePeriods, g.status = .transfer →
        engine.IsTransferGrace d p g ∧ g ∈ o.newGracePeriods) ∧
      ((∃ g ∈ o.domain.gracePeriods, engine.IsTransferGrace d p g ∧ g ∈ o.newGracePeriods) ↔
        p.request.period.isZero = false ∧
          ∃ graceEnd, p.deadline.shift (.seconds (engine.config.graceSeconds .transfer)) =
            .ok graceEnd ∧ t < graceEnd) := by
  constructor
  · intro hdue
    obtain ⟨-, d', steps, hcourse, rfl⟩ := project_gives.1 h
    obtain ⟨rs, hrs, rfl⟩ := (course_of_none hdue).1 hcourse
    show (d'.lapse t).toDraft = _
    rw [Domain.toDraft_lapse, Domain.toDraft_of_renewals hrs]
    rfl
  · intro p hdue
    obtain ⟨w⟩ := exists_handover hdue h
    refine ⟨w.toDraft_eq, ?_, ?_, ?_⟩
    · intro g hg hstatus
      obtain ⟨happroval, hactive⟩ := w.mem_approval_of_status hg hstatus
      exact ⟨w.isTransferGrace g happroval, (w.mem_gracePeriods_of_approval happroval hactive).2⟩
    · rintro ⟨g, hg, hgrace, -⟩
      obtain ⟨happroval, hactive⟩ := w.mem_approval_of_status hg hgrace.status
      have hsome : w.approval.gracePeriod.isSome := Option.isSome_iff_exists.2 ⟨g, happroval⟩
      exact ⟨w.isApproval.isSome_gracePeriod.1 hsome, g.expirationTime, hgrace.graceEnd,
        of_decide_eq_true hactive⟩
    · rintro ⟨hperiod, graceEnd, hend, hlt⟩
      obtain ⟨g, hg⟩ := Option.isSome_iff_exists.1 (w.isApproval.isSome_gracePeriod.2 hperiod)
      have hgrace := w.isTransferGrace g hg
      cases hend.symm.trans hgrace.graceEnd
      obtain ⟨hmem, hnew⟩ := w.mem_gracePeriods_of_approval hg (decide_eq_true hlt)
      exact ⟨g, hmem, hgrace, hnew⟩

/-- The day after the deadline the sample domain is with its new registrar, and its transfer can be
undone. -/
theorem project_changes_sample : ∃ o s',
    (Sample.registry.project Sample.domain Sample.settled).Gives 0 o s' ∧
      Sample.domain.dueTransfer? Sample.settled = some Sample.transfer ∧
      o.domain.toDraft = (Sample.domain.toDraft.handedOver Sample.transfer).renewedAs o.domain ∧
      ∃ g ∈ o.domain.gracePeriods,
        Sample.registry.IsTransferGrace Sample.domain Sample.transfer g := by
  obtain ⟨o, s', h⟩ := Projecting.exists_gives
    (x := Sample.registry.project Sample.domain Sample.settled) (s := 0) (by decide +kernel)
  have hdue : Sample.domain.dueTransfer? Sample.settled = some Sample.transfer := by decide
  obtain ⟨hdraft, -, hgrace⟩ := (project_changes h).2 Sample.transfer hdue
  have hlasts : Sample.transfer.request.period.isZero = false ∧ ∃ graceEnd,
      Sample.transfer.deadline.shift (.seconds (Sample.registry.config.graceSeconds .transfer)) =
        .ok graceEnd ∧ Sample.settled < graceEnd := by
    have hend : ∃ graceEnd ∈
        Sample.transfer.deadline.shift? (.seconds (Sample.registry.config.graceSeconds .transfer)),
        Sample.settled < graceEnd := by decide +kernel
    obtain ⟨graceEnd, hshift, hlt⟩ := hend
    exact ⟨by decide, graceEnd, Instant.shift_eq_ok.2 hshift, hlt⟩
  obtain ⟨g, hg, hisGrace, -⟩ := hgrace.2 hlasts
  exact ⟨o, s', h, hdue, hdraft, g, hg, hisGrace⟩

end NameRegistry.Registration
