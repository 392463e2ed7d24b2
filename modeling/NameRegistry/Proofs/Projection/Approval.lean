import NameRegistry.Proofs.Event
import NameRegistry.Proofs.Identifier
import NameRegistry.Proofs.Projection.Drawing

/-! # The approval of a transfer

An approval is settled by the domain just before the deadline and the identifiers it draws. Of the
domain's grace periods it looks at those in effect at that moment only, and none is left after it.
-/
namespace NameRegistry.Registration

open Billing (Cancellation GracePeriod HistoryContext)

variable {σ : Type} {engine : Engine σ}

namespace Approval

/-- The records that an approval draws identifiers for. -/
def kinds (a : Approval) : List IdKind :=
  .historyEntry :: (a.cancellation.toList.map fun _ => .billingEvent) ++
    a.gracePeriod.toList.map fun _ => .gracePeriod

def drawn (a : Approval) : List AnyId :=
  a.history.historyId.any :: a.cancellation.toList.map (·.common.id.any) ++
    a.gracePeriod.toList.map (·.id.any)

theorem length_kinds_le (a : Approval) : a.kinds.length ≤ 3 := by
  obtain ⟨_, _, _, _, _, _, c, g⟩ := a
  cases c <;> cases g <;> simp [kinds]

end Approval

/-- The grace period whose renewal an approval takes back. -/
def Domain.absorbedGrace? (d : Domain) (p : PendingTransfer) (basis : Instant) :
    Option GracePeriod :=
  if d.absorbs p then d.latestAutorenewGrace? basis else none

/-- An approval of a transfer of the domain: all that does not come from the source. -/
structure Engine.IsApproval (engine : Engine σ) (d : Domain) (p : PendingTransfer) (basis : Instant)
    (a : Approval) : Prop where
  time_eq : a.time = p.deadline
  gaining : a.gaining = p.request.gainingRegistrarId
  losing : a.losing = p.request.losingRegistrarId
  expiration : d.transferredExpiration p engine.config.maxRegistrationYears = .ok a.expirationTime
  subsumed : a.subsumed = d.absorbs p
  history : a.history.repoId = d.repoId
  uncancelled : d.absorbedGrace? p basis = none → a.cancellation = none
  cancelled : ∀ g ∈ d.absorbedGrace? p basis, ∃ k, a.cancellation = some k ∧
    g.cancellation k.common.id ⟨a.history, p.deadline, p.request.gainingRegistrarId⟩ d.name = .ok k
  uncharged : p.approval.billingEvent = none → a.gracePeriod = none
  charged : ∀ charge ∈ p.approval.billingEvent, ∃ g, a.gracePeriod = some g ∧
    p.deadline.shift (.seconds (engine.config.graceSeconds .transfer)) = .ok g.expirationTime ∧
    GracePeriod.create g.id .transfer d.repoId g.expirationTime p.request.gainingRegistrarId
      (some charge) = .ok g

/-- The cancellation of an autorenewal names the recurring event, at the end of its grace period. -/
theorem cancellation_of_recurring {g : GracePeriod} {id event : BillingEventId}
    {context : HistoryContext} {target : String} {k : Cancellation}
    (h : g.cancellation id context target = .ok k) (hevent : g.recurringEvent = some event) :
    k.common.id = id ∧ k.cancelled = .recurring event ∧ k.billingTime = g.expirationTime := by
  obtain ⟨_, -, hcommon, htime, -, hrecurring, -⟩ := GracePeriod.cancellation_eq_ok.1 h
  rw [hevent, Billing.CancelledEvent.recurring?_eq_some] at hrecurring
  exact ⟨congrArg Billing.EventCommon.id hcommon, hrecurring, htime⟩

theorem mem_of_latestAutorenewGrace? {d : Domain} {t : Instant} {g : GracePeriod}
    (h : d.latestAutorenewGrace? t = some g) :
    g ∈ d.gracePeriods ∧ g.status = .autoRenew ∧ g.activeAt t = true := by
  have hmem := List.mem_of_getLast? h
  rw [Domain.gracePeriodsOf, List.mem_filter, List.mem_filter, decide_eq_true_eq] at hmem
  exact ⟨hmem.1.1, hmem.1.2, hmem.2⟩

theorem absorbRenewal_gives {d : Domain} {p : PendingTransfer} {basis : Instant}
    {history : Billing.HistoryRef} {c : Option Cancellation} {s s' : σ}
    (h : (engine.absorbRenewal d p basis history).Gives s c s') :
    (d.absorbedGrace? p basis = none → c = none) ∧
      (∀ g ∈ d.absorbedGrace? p basis, ∃ k, c = some k ∧
        g.cancellation k.common.id
          ⟨history, p.deadline, p.request.gainingRegistrarId⟩ d.name = .ok k) ∧
      engine.ids.drawIds (c.toList.map fun _ => .billingEvent) s =
        (c.toList.map (·.common.id.any), s') := by
  rw [Engine.absorbRenewal] at h
  rw [Domain.absorbedGrace?]
  cases habs : d.absorbs p with
  | false =>
    simp only [habs, Bool.not_false, if_true, Projecting.gives_pure] at h
    obtain ⟨rfl, rfl⟩ := h
    simp [IdSource.drawIds]
  | true =>
    simp only [habs, Bool.not_true, Bool.false_eq_true, if_false] at h
    rw [if_pos rfl]
    cases hg : d.latestAutorenewGrace? basis with
    | none =>
      simp only [hg, Projecting.gives_pure] at h
      obtain ⟨rfl, rfl⟩ := h
      simp [IdSource.drawIds]
    | some g =>
      simp only [hg, Projecting.gives_bind, Projecting.gives_drawId, Projecting.gives_ofExcept,
        Projecting.gives_pure] at h
      obtain ⟨id, s₁, hdraw, k, s₂, ⟨hk, rfl⟩, rfl, rfl⟩ := h
      obtain ⟨event, hevent⟩ := Option.isSome_iff_exists.1
        (g.recurring_iff.2 (mem_of_latestAutorenewGrace? hg).2.1)
      obtain ⟨rfl, -, -⟩ := cancellation_of_recurring hk hevent
      refine ⟨fun h => absurd h (by simp), ?_, by simp [IdSource.drawIds, hdraw]⟩
      intro g' hg'
      cases Option.mem_some_iff.1 hg'
      exact ⟨k, rfl, hk⟩

theorem transferGrace_gives {d : Domain} {p : PendingTransfer} {g? : Option GracePeriod} {s s' : σ}
    (h : (engine.transferGrace d p).Gives s g? s') :
    (p.approval.billingEvent = none → g? = none) ∧
      (∀ charge ∈ p.approval.billingEvent, ∃ g, g? = some g ∧
        p.deadline.shift (.seconds (engine.config.graceSeconds .transfer)) = .ok g.expirationTime ∧
        GracePeriod.create g.id .transfer d.repoId g.expirationTime p.request.gainingRegistrarId
          (some charge) = .ok g) ∧
      engine.ids.drawIds (g?.toList.map fun _ => .gracePeriod) s =
        (g?.toList.map (·.id.any), s') := by
  rw [Engine.transferGrace] at h
  cases hcharge : p.approval.billingEvent with
  | none =>
    simp only [hcharge, Projecting.gives_pure] at h
    obtain ⟨rfl, rfl⟩ := h
    simp [IdSource.drawIds]
  | some charge =>
    simp only [hcharge, Projecting.gives_bind, Projecting.gives_drawId, Projecting.gives_ofExcept,
      Projecting.gives_pure] at h
    obtain ⟨id, s₁, hdraw, graceEnd, _, ⟨hend, rfl⟩, g, _, ⟨hg, rfl⟩, rfl, rfl⟩ := h
    obtain ⟨rfl, -, -, rfl, -⟩ := GracePeriod.ofParts_eq_ok.1 hg
    refine ⟨fun h => absurd h (by simp), ?_, by simp [IdSource.drawIds, hdraw]⟩
    intro charge' hmem
    cases Option.mem_some_iff.1 hmem
    exact ⟨g, rfl, hend, hg⟩

/-- An approval draws its identifiers in order and is otherwise determined. -/
theorem isApproval_of_gives {d d' : Domain} {p : PendingTransfer} {basis : Instant} {a : Approval}
    {s s' : σ} (h : (engine.approve d p basis).Gives s (d', a) s') :
    engine.IsApproval d p basis a ∧ d.transferred p a.expirationTime a.gracePeriod = .ok d' ∧
      engine.ids.drawIds a.kinds s = (a.drawn, s') := by
  simp only [Engine.approve, Projecting.gives_bind, Projecting.gives_drawId,
    Projecting.gives_ofExcept, Projecting.gives_pure, Prod.mk.injEq] at h
  obtain ⟨expiration, _, ⟨hexp, rfl⟩, hid, s₁, hdraw, c, s₂, hc, g?, s₃, hg, transferred, _,
    ⟨htransferred, rfl⟩, ⟨rfl, rfl⟩, rfl⟩ := h
  obtain ⟨hc1, hc2, hc3⟩ := absorbRenewal_gives hc
  obtain ⟨hg1, hg2, hg3⟩ := transferGrace_gives hg
  refine ⟨⟨rfl, rfl, rfl, hexp, rfl, rfl, hc1, hc2, hg1, hg2⟩, htransferred, ?_⟩
  simp only [Approval.kinds, Approval.drawn, List.cons_append, IdSource.drawIds_cons,
    IdSource.drawIds_append, hdraw, hc3, hg3]
  rfl

/-- What an approval cancels is the latest autorenewal in effect: its recurring event, at the end of
its grace period. -/
theorem Engine.IsApproval.absorbed_of_cancellation {d : Domain} {p : PendingTransfer}
    {basis : Instant} {a : Approval} {k : Cancellation} (h : engine.IsApproval d p basis a)
    (hk : a.cancellation = some k) :
    d.absorbs p = true ∧ ∃ g ∈ d.latestAutorenewGrace? basis, ∃ event ∈ g.recurringEvent,
      k.cancelled = .recurring event ∧ k.billingTime = g.expirationTime := by
  cases hg : d.absorbedGrace? p basis with
  | none => cases hk.symm.trans (h.uncancelled hg)
  | some g =>
    obtain ⟨k', hk', hcancel⟩ := h.cancelled g hg
    cases hk.symm.trans hk'
    rw [Domain.absorbedGrace?] at hg
    split at hg
    · next habs =>
      have hstatus := (mem_of_latestAutorenewGrace? hg).2.1
      obtain ⟨event, hevent⟩ := Option.isSome_iff_exists.1 (g.recurring_iff.2 hstatus)
      exact ⟨habs, g, hg, event, hevent, (cancellation_of_recurring hcancel hevent).2⟩
    · cases hg

/-- A grace period in which a transfer can be undone and its charge taken back. -/
structure Engine.IsTransferGrace (engine : Engine σ) (d : Domain) (p : PendingTransfer)
    (g : GracePeriod) : Prop where
  status : g.status = .transfer
  owner : g.domainRepoId = d.repoId
  registrar : g.registrarId = p.request.gainingRegistrarId
  graceEnd : p.deadline.shift (.seconds (engine.config.graceSeconds .transfer)) =
    .ok g.expirationTime
  charge : ∃ charge ∈ p.approval.billingEvent, g.oneTimeEvent = some charge
  recurring : g.recurringEvent = none

theorem Engine.IsApproval.isTransferGrace {d : Domain} {p : PendingTransfer} {basis : Instant}
    {a : Approval} (h : engine.IsApproval d p basis a) :
    ∀ g ∈ a.gracePeriod, engine.IsTransferGrace d p g := by
  intro g hg
  cases hcharge : p.approval.billingEvent with
  | none => cases hg.symm.trans (h.uncharged hcharge)
  | some charge =>
    obtain ⟨g', hg', hend, hcreate⟩ := h.charged charge hcharge
    cases hg.symm.trans hg'
    obtain ⟨-, hstatus, howner, -, hregistrar, honeTime, hrecurring⟩ :=
      GracePeriod.ofParts_eq_ok.1 hcreate
    exact ⟨hstatus, howner, hregistrar, hend, ⟨charge, hcharge, honeTime⟩, hrecurring⟩

/-- A transfer has a grace period exactly if it is for some time. -/
theorem Engine.IsApproval.isSome_gracePeriod {d : Domain} {p : PendingTransfer} {basis : Instant}
    {a : Approval} (h : engine.IsApproval d p basis a) :
    a.gracePeriod.isSome ↔ p.request.period.isZero = false := by
  rw [← p.charge_iff]
  cases hcharge : p.approval.billingEvent with
  | none => simp [h.uncharged hcharge]
  | some charge =>
    obtain ⟨g, hg, -⟩ := h.charged charge hcharge
    simp [hg]

/-- The grace period of a transfer is for its own charge. -/
theorem Engine.IsApproval.grace_recurring {d : Domain} {p : PendingTransfer} {basis : Instant}
    {a : Approval} (h : engine.IsApproval d p basis a) :
    ∀ g ∈ a.gracePeriod, g.recurringEvent = none :=
  fun g hg => (h.isTransferGrace g hg).recurring

namespace Domain

theorem transferred_eq_ok {d d' : Domain} {p : PendingTransfer} {expiration : Instant}
    {grace : Option GracePeriod} : d.transferred p expiration grace = .ok d' ↔
    d'.toDraft = { d.toDraft with
      expirationTime := some expiration
      autorenewEvent := some p.approval.autorenewEvent
      autorenewPollMessage := some p.approval.autorenewPollMessage
      gracePeriods := grace.toList
      sponsor := some p.request.gainingRegistrarId
      transfer := p.resolve .serverApproved p.deadline
      statuses :=
        StatusSet.withImplicit (d.statuses.erase .pendingTransfer) (!d.nameservers.isEmpty)
      lastUpdateTime := some p.deadline
      lastUpdateRegistrar := some p.request.gainingRegistrarId
      lastTransferTime := some p.deadline } := by
  have hsort : GraceOrder.sort grace.toList = grace.toList := by
    apply GraceOrder.sort_eq_self
    cases grace <;> simp
  simp only [transferred, Draft.build_eq_ok, Draft.normal, Draft.updatedBy, hsort, toDraft]

/-- A domain in other hands: what the steps that follow look at. -/
structure HandedOver (d : Domain) (p : PendingTransfer) (expiration : Instant)
    (grace : Option GracePeriod) (d' : Domain) : Prop where
  tld : d'.tld = d.tld
  suppressed : d'.isAutorenewSuppressed = d.isAutorenewSuppressed
  expirationTime : d'.expirationTime = expiration
  autorenewEvent : d'.autorenewEvent = p.approval.autorenewEvent
  gracePeriods : d'.gracePeriods = grace.toList
  decided : d'.transfer.pending? = none

theorem handedOver_of_transferred {d d' : Domain} {p : PendingTransfer} {expiration : Instant}
    {grace : Option GracePeriod} (h : d.transferred p expiration grace = .ok d') :
    d.HandedOver p expiration grace d' := by
  have hd := transferred_eq_ok.1 h
  have hstatuses : d'.statuses =
      StatusSet.withImplicit (d.statuses.erase .pendingTransfer) (!d.nameservers.isEmpty) :=
    congrArg Draft.statuses hd
  have hdeletion : d'.deletionTime = d.deletionTime := congrArg Draft.deletionTime hd
  have htransfer : d'.transfer = p.resolve .serverApproved p.deadline := congrArg Draft.transfer hd
  have hpending : StatusValue.pendingDelete ∈ d'.statuses ↔
      StatusValue.pendingDelete ∈ d.statuses := by
    rw [hstatuses, StatusSet.mem_withImplicit_of_explicit rfl, EnumSet.mem_erase]
    simp
  refine ⟨Option.some.inj (congrArg Draft.tld hd), ?_,
    Option.some.inj (congrArg Draft.expirationTime hd),
    Option.some.inj (congrArg Draft.autorenewEvent hd), congrArg Draft.gracePeriods hd, ?_⟩
  · rw [isAutorenewSuppressed, isAutorenewSuppressed, hdeletion, decide_eq_decide.2 hpending]
  · rw [htransfer]
    rfl

theorem inAutorenewGrace_lapse (d : Domain) {t u : Instant} (h : t ≤ u) :
    (d.lapse t).inAutorenewGrace u = d.inAutorenewGrace u := by
  rw [inAutorenewGrace, inAutorenewGrace, gracePeriods_lapse, List.any_filter]
  congr 1
  funext g
  cases hg : g.activeAt u with
  | false => simp
  | true => simp [activeAt_of_le hg h]

theorem latestAutorenewGrace?_lapse (d : Domain) {t u : Instant} (h : t ≤ u) :
    (d.lapse t).latestAutorenewGrace? u = d.latestAutorenewGrace? u := by
  rw [latestAutorenewGrace?, latestAutorenewGrace?, gracePeriodsOf, gracePeriodsOf,
    gracePeriods_lapse, List.filter_filter, List.filter_filter, List.filter_filter]
  congr 1
  apply List.filter_congr
  intro g _
  cases hg : g.activeAt u with
  | false => simp
  | true => simp [activeAt_of_le hg h]

theorem absorbs_lapse (d : Domain) {p : PendingTransfer} {t basis : Instant}
    (hbasis : p.basis = .ok basis) (h : t ≤ basis) : (d.lapse t).absorbs p = d.absorbs p := by
  simp only [absorbs, hbasis, inAutorenewGrace_lapse d h]

end Domain

/-- An approval sees no difference between domains that agree just before its deadline. -/
theorem approve_lapse (d : Domain) {p : PendingTransfer} {t basis : Instant}
    (hbasis : p.basis = .ok basis) (h : t ≤ basis) :
    engine.approve (d.lapse t) p basis = engine.approve d p basis := by
  have hexp : (d.lapse t).transferredExpiration p = d.transferredExpiration p := by
    funext years
    simp only [Domain.transferredExpiration, Domain.absorbs_lapse d hbasis h,
      Domain.expirationTime_lapse]
  have habsorb : engine.absorbRenewal (d.lapse t) p basis = engine.absorbRenewal d p basis := by
    funext history
    rw [Engine.absorbRenewal, Engine.absorbRenewal, Domain.absorbs_lapse d hbasis h,
      Domain.latestAutorenewGrace?_lapse d h]
    rfl
  simp only [Engine.approve, hexp, habsorb, Domain.absorbs_lapse d hbasis h]
  rfl

end NameRegistry.Registration
