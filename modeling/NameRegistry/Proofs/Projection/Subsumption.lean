import NameRegistry.Billing.Ledger
import NameRegistry.Proofs.Projection.Autorenewal

/-! # Transfers that take a renewal back

A transfer that takes a renewal back is to run from where that renewal began, as if it had not been
made. The projection never goes back there: it counts on from where the renewal led to, with a year
less to add. The main statement: for periods of a year and more the two come to the same, but that a
renewal of the leap day leaves it for the 28th, where the transfer stays.

Which renewal is taken back shows in the end of its grace period. Of the renewals before the
deadline the last has the last end, and so the one that is taken back is the one that led to the
expiration.
-/
namespace NameRegistry.Registration

open Billing (Cancellation Event GracePeriod OneTime)

/-- The expiration that a transfer was reported to set. -/
def Transition.approvedExpiration? : Transition → Option Instant
  | transferServerApproved _ _ _ expirationTime _ _ => some expirationTime
  | _ => none

variable {σ : Type} {engine : Engine σ} {observed t : Instant}

/-- By the time of observation a transfer without a fixed expiration is approved, and takes back a
renewal that was made before: its charge comes before the cancellation among the events. -/
structure Engine.TakesBack (engine : Engine σ) (d : Domain) (t : Instant) (s : σ)
    (p : PendingTransfer) (c : OneTime) (k : Cancellation) (o : Outcome) : Prop where
  due : d.dueTransfer? t = some p
  unfixed : p.request.fixedExpiration = none
  gives : ∃ s', (engine.project d t).Gives s o s'
  before : [.oneTime c, .cancellation k].Sublist o.newBillingEvents
  cancels : k.cancels c = true

/-- The expiration after renewals is the one that the last of them has set. -/
theorem expirationTime_of_getLast? {d d' : Domain} {time : Instant} {rs : List Renewal}
    {r : Renewal} {s s' : σ} (h : engine.Renewals observed time d s rs d' s')
    (hr : rs.getLast? = some r) : r.expirationTime = d'.expirationTime := by
  have hk : rs[rs.length - 1]? = some r := by rw [← List.getLast?_eq_getElem?, hr]
  obtain ⟨e, -, hnext, -⟩ := renewal_of_renewals h hk
  have hlength : rs.length - 1 + 1 = rs.length := by
    have hne : rs ≠ [] := by
      rintro rfl
      cases hr
    have := List.length_pos_iff.2 hne
    omega
  rw [hlength, expirationTime_of_renewals h] at hnext
  exact (Option.some.inj hnext).symm

/-- Grace periods of later renewals end later. -/
theorem graceEnds_of_renewals {d d' : Domain} {time : Instant} {rs : List Renewal} {s s' : σ}
    (h : engine.Renewals observed time d s rs d' s') :
    rs.Pairwise fun a b => a.gracePeriod.expirationTime < b.gracePeriod.expirationTime := by
  induction h with
  | stop _ => exact .nil
  | @next d d₁ d₂ s s₁ s₂ r rs _ hr hd₁ hrest ih =>
    have hr := (renew_gives.1 hr).1
    refine List.pairwise_cons.2 ⟨fun r' hr' => ?_, ih⟩
    obtain ⟨_, e, -, hnext, -, hir⟩ := renewal_of_mem hrest hr'
    rw [Domain.expirationTime_of_renewedBy hd₁] at hnext
    have hlater := Instant.yearsLater_of_anniversary? hnext
    refine Instant.lt_of_addSeconds? ?_ hlater.timeOfDay (Instant.shift_eq_ok.1 hr.grace_end)
      (Instant.shift_eq_ok.1 hir.grace_end)
    exact hlater.lt (by omega)

/-- Of the autorenew grace periods in effect the last, in the order of their ends and their
identifiers. -/
structure IsLatestAutorenew (gs : List GracePeriod) (u : Instant) (g : GracePeriod) : Prop where
  mem : g ∈ gs
  status : g.status = .autoRenew
  active : g.activeAt u = true
  latest : ∀ g' ∈ gs, g'.status = .autoRenew → g'.activeAt u = true → g' = g ∨ endsBefore g' g

theorem IsLatestAutorenew.congr {gs gs' : List GracePeriod} {u : Instant} {g : GracePeriod}
    (h : IsLatestAutorenew gs u g) (hmem : ∀ g, g ∈ gs ↔ g ∈ gs') : IsLatestAutorenew gs' u g where
  mem := (hmem g).1 h.mem
  status := h.status
  active := h.active
  latest g' hg' := h.latest g' ((hmem g').2 hg')

theorem IsLatestAutorenew.unique {gs : List GracePeriod} {u : Instant} {g g' : GracePeriod}
    (h : IsLatestAutorenew gs u g) (h' : IsLatestAutorenew gs u g') : g = g' := by
  rcases h'.latest g h.mem h.status h.active with heq | hbefore
  · exact heq
  · rcases h.latest g' h'.mem h'.status h'.active with heq | hafter
    · exact heq.symm
    · exact GraceOrder.endsBefore_asymm hbefore hafter

namespace Domain

variable {d : Domain} {u : Instant} {g : GracePeriod}

theorem isLatestAutorenew_of_latest (h : d.latestAutorenewGrace? u = some g) :
    IsLatestAutorenew d.gracePeriods u g := by
  obtain ⟨hmem, hstatus, hactive⟩ := mem_of_latestAutorenewGrace? h
  rw [latestAutorenewGrace?, gracePeriodsOf, List.filter_filter] at h
  obtain ⟨front, hfront⟩ := List.getLast?_eq_some_iff.1 h
  have hsorted := d.grace_sorted.sublist
    (List.filter_sublist (p := fun g => g.activeAt u && decide (g.status = .autoRenew)))
  rw [hfront] at hsorted
  refine ⟨hmem, hstatus, hactive, ?_⟩
  intro g' hg' hstatus' hactive'
  have hmem' : g' ∈ front ++ [g] := by
    rw [← hfront]
    simp [hg', hactive', hstatus']
  rcases List.mem_append.1 hmem' with hmem' | hmem'
  · exact .inr ((List.pairwise_append.1 hsorted).2.2 g' hmem' g (List.mem_singleton_self g))
  · exact .inl (List.mem_singleton.1 hmem')

theorem latestAutorenewGrace?_eq_some :
    d.latestAutorenewGrace? u = some g ↔ IsLatestAutorenew d.gracePeriods u g := by
  constructor
  · exact isLatestAutorenew_of_latest
  · intro h
    have hmem : g ∈ (d.gracePeriodsOf .autoRenew).filter (·.activeAt u) := by
      rw [gracePeriodsOf, List.mem_filter, List.mem_filter, decide_eq_true_eq]
      exact ⟨⟨h.mem, h.status⟩, h.active⟩
    obtain ⟨g', hlast⟩ : ∃ g', d.latestAutorenewGrace? u = some g' :=
      ⟨_, List.getLast?_eq_some_getLast (List.ne_nil_of_mem hmem)⟩
    rw [hlast, h.unique (isLatestAutorenew_of_latest hlast)]

/-- Of the autorenew grace periods in effect the latest ends last. -/
theorem le_of_latestAutorenewGrace? {g' : GracePeriod} (h : d.latestAutorenewGrace? u = some g)
    (hmem : g' ∈ d.gracePeriods) (hstatus : g'.status = .autoRenew) :
    g'.expirationTime ≤ g.expirationTime := by
  have hlatest := isLatestAutorenew_of_latest h
  by_cases hactive : g'.activeAt u = true
  · rcases hlatest.latest g' hmem hstatus hactive with rfl | hlt | ⟨heq, -⟩
    · exact Int.le_refl _
    · exact Int.le_of_lt hlt
    · exact Int.le_of_eq (congrArg Instant.ticks heq)
  · have hactive' := hlatest.active
    simp only [GracePeriod.activeAt, decide_eq_true_eq] at hactive hactive'
    exact Int.le_trans (Int.not_lt.1 hactive) (Int.le_of_lt hactive')

end Domain

/-- The renewal that a transfer takes back is the last before the deadline, and it led to the
expiration. -/
theorem expirationTime_of_absorbed {d d₁ : Domain} {basis : Instant}
    {rs : List Renewal} {r : Renewal} {g : GracePeriod} {s s₁ : σ}
    (h : engine.Renewals observed basis d s rs d₁ s₁) (hr : r ∈ rs)
    (hg : d₁.latestAutorenewGrace? basis = some g)
    (hend : r.gracePeriod.expirationTime = g.expirationTime) :
    r.expirationTime = d₁.expirationTime := by
  obtain ⟨front, last, rfl⟩ := (List.eq_nil_or_concat rs).resolve_left (List.ne_nil_of_mem hr)
  rw [List.concat_eq_append] at h hr
  have hlast : (front ++ [last]).getLast? = some last := List.getLast?_concat
  rcases List.mem_append.1 hr with hfront | hr
  · -- An earlier one ends before the last, which then is in effect as well and ends later.
    have hlt := (List.pairwise_append.1 (graceEnds_of_renewals h)).2.2 r hfront last
      (List.mem_singleton_self _)
    have hmem : last.gracePeriod ∈ d₁.gracePeriods :=
      (mem_gracePeriods_of_renewals h).2 (.inr ⟨last, by simp, rfl⟩)
    obtain ⟨_, hir⟩ :=
      isRenewal_of_mem h (List.mem_append_right front (List.mem_singleton_self last))
    have hle := Domain.le_of_latestAutorenewGrace? hg hmem hir.grace_status
    rw [hend] at hlt
    exact absurd hle (Int.not_le.2 hlt)
  · cases List.mem_singleton.1 hr
    exact expirationTime_of_getLast? h hlast

/-- Of a charge and a later cancellation the charge is of a renewal before the deadline. -/
theorem mem_renewals_of_before {rs rs' : List Renewal} {a : Approval} {c : OneTime}
    {k : Cancellation} (h : [.oneTime c, .cancellation k].Sublist
      ((rs.map Step.renewal ++ .approval a :: rs'.map Step.renewal).flatMap Step.billingEvents)) :
    (∃ r ∈ rs, r.charge = c) ∧ a.cancellation = some k := by
  have hcharges : ∀ rs : List Renewal, .cancellation k ∉
      (rs.map Step.renewal).flatMap Step.billingEvents := by
    intro rs hmem
    obtain ⟨_, hstep, hmem⟩ := List.mem_flatMap.1 hmem
    obtain ⟨r, -, rfl⟩ := List.mem_map.1 hstep
    cases List.mem_singleton.1 hmem
  rw [List.flatMap_append, List.flatMap_cons] at h
  obtain ⟨front, back, hsplit, hfront, hback⟩ := List.sublist_append_iff.1 h
  have hk : .cancellation k ∉ front := fun hmem => hcharges rs (hfront.subset hmem)
  match front, hsplit with
  | [], hsplit =>
    -- Then the charge would come after the approval, and the cancellation after the charge.
    cases hsplit
    cases hc : a.cancellation with
    | none =>
      rw [Step.billingEvents, hc] at hback
      exact absurd (hback.subset (by simp)) (hcharges rs')
    | some k' =>
      rw [Step.billingEvents, hc] at hback
      cases hback with
      | cons _ hback => exact absurd (hback.subset (by simp)) (hcharges rs')
  | [_], hsplit =>
    cases hsplit
    obtain ⟨_, hstep, hmem⟩ := List.mem_flatMap.1 (hfront.subset (List.mem_singleton_self _))
    obtain ⟨r, hr, rfl⟩ := List.mem_map.1 hstep
    cases List.mem_singleton.1 hmem
    refine ⟨⟨r, hr, rfl⟩, ?_⟩
    rcases List.mem_append.1 (hback.subset (List.mem_singleton_self _)) with hmem | hmem
    · obtain ⟨k', hk', heq⟩ := List.mem_map.1 hmem
      cases heq
      exact Option.mem_toList.1 hk'
    · exact absurd hmem (hcharges rs')
  | _ :: _ :: _, hsplit =>
    simp only [List.cons_append, List.cons.injEq] at hsplit
    obtain ⟨-, rfl, -⟩ := hsplit
    simp at hk

/-- The transfer reports the expiration that it has set, and nothing else reports one. -/
theorem filterMap_approvedExpiration? (d : Domain) (rs rs' : List Renewal) (a : Approval)
    (t : Instant) :
    (Outcome.account d (rs.map Step.renewal ++ .approval a ::
      rs'.map Step.renewal) t).transitions.filterMap Transition.approvedExpiration? =
        [a.expirationTime] :=
  Outcome.filterMap_transitions_of_approval (fun _ => rfl) (fun _ => rfl) d rs rs' a t

/-- The transfer counts on from the renewal that it takes back, with a year less to add. -/
theorem expiration_by_way {d : Domain} {p : PendingTransfer} {c : OneTime}
    {k : Cancellation} {o : Outcome} {s : σ} (h : engine.TakesBack d t s p c k o) :
    ∃ renewed extended limit,
      c.common.eventTime.addYears 1 = .ok renewed ∧
      renewed.shift (.months (p.request.period.inMonths - 12)) = .ok extended ∧
      p.deadline.addYears engine.config.maxRegistrationYears = .ok limit ∧
      o.transitions.filterMap Transition.approvedExpiration? =
        [if extended ≤ limit then extended else limit] := by
  obtain ⟨s', hgives⟩ := h.gives
  obtain ⟨-, d', steps, hcourse, rfl⟩ := project_gives.1 hgives
  obtain ⟨basis, rs, d₁, s₁, d₂, a, s₂, rs', -, hrs, ha, -, rfl⟩ := (course_of_some h.due).1 hcourse
  have hia := (isApproval_of_gives ha).1
  obtain ⟨⟨r, hr, rfl⟩, hk⟩ := mem_renewals_of_before h.before
  obtain ⟨e, hir⟩ := isRenewal_of_mem hrs hr
  obtain ⟨habs, g, hg, event, hevent, hcancelled, hbilled⟩ := hia.absorbed_of_cancellation hk
  have hend : r.gracePeriod.expirationTime = g.expirationTime := by
    have hcancels := h.cancels
    rw [Cancellation.cancels, hcancelled, hir.charge, hbilled] at hcancels
    simp only [Bool.and_eq_true, decide_eq_true_eq] at hcancels
    exact hcancels.2
  have hexpiration := hia.expiration
  rw [Domain.transferredExpiration, h.unfixed, habs, if_pos rfl] at hexpiration
  simp only [bind_eq_ok] at hexpiration
  obtain ⟨extended, hextended, limit, hlimit, hmin⟩ := hexpiration
  rw [← expirationTime_of_absorbed hrs hr hg hend] at hextended
  have hyear : r.charge.common.eventTime.addYears 1 = .ok r.expirationTime := by
    rw [hir.charge]
    exact hir.year
  rw [filterMap_approvedExpiration?, ← Except.ok.inj hmin]
  exact ⟨r.expirationTime, extended, limit, hyear, hextended, hlimit, rfl⟩

/-- A transfer for a year or more that takes a renewal back sets the earlier of two expirations: the
limit on registrations, which counts from the deadline on, and its period counted at once from where
that renewal began, but that the day is the 28th if the renewal began on a leap day and the period
leads to a 29th. -/
theorem expiration_of_takesBack {d : Domain} {p : PendingTransfer} {c : OneTime}
    {k : Cancellation} {o : Outcome} {s : σ} (h : engine.TakesBack d t s p c k o)
    (hyear : 12 ≤ p.request.period.inMonths) :
    ∃ once extended limit, p.request.period.addTo c.common.eventTime = .ok once ∧
      extended.date = c.common.eventTime.date.pastLeapDay once.date ∧
      extended.timeOfDay = once.timeOfDay ∧
      p.deadline.addYears engine.config.maxRegistrationYears = .ok limit ∧
      o.transitions.filterMap Transition.approvedExpiration? =
        [if extended ≤ limit then extended else limit] := by
  obtain ⟨renewed, extended, limit, hrenewed, hextended, hlimit, hreported⟩ := expiration_by_way h
  obtain ⟨once, honce, hdate, htime⟩ :=
    Instant.addMonths?_year (Instant.shift_eq_ok.1 hrenewed) (Instant.shift_eq_ok.1 hextended)
  refine ⟨once, extended, limit, ?_, hdate, htime, hlimit, hreported⟩
  rw [show 12 + (p.request.period.inMonths - 12) = p.request.period.inMonths by omega] at honce
  exact Instant.shift_eq_ok.2 honce

namespace Sample

/-- The transfer, for another period. -/
def transferFor (period : Period) (h : period.isZero = false) : PendingTransfer :=
  { transfer with
    request := { transfer.request with period := period }
    charge_iff := ⟨fun _ => h, fun _ => rfl⟩ }

def domainFor (period : Period) (h : period.isZero = false) : Domain :=
  { domain with transfer := .pending (transferFor period h) }

/-- The renewal of the leap day is charged, and the charge is cancelled later. -/
def TakesLeapDayBack (o : Outcome) : Prop :=
  ∃ c ∈ o.newBillingEvents.filterMap Event.oneTime?,
    ∃ k ∈ o.newBillingEvents.filterMap Event.cancellation?,
      [.oneTime c, .cancellation k].Sublist o.newBillingEvents ∧ k.cancels c = true ∧
      c.common.eventTime = domain.expirationTime

instance (o : Outcome) : Decidable (TakesLeapDayBack o) :=
  inferInstanceAs (Decidable (∃ _ ∈ _, ∃ _ ∈ _, _ ∧ _ ∧ _))

theorem exists_takesBack {period : Period} {h : period.isZero = false}
    (hcheck : ∃ o ∈ ((registry.project (domainFor period h) settled).run.run 0).1.toOption,
      TakesLeapDayBack o) :
    ∃ c k o, registry.TakesBack (domainFor period h) settled 0 (transferFor period h) c k o ∧
      c.common.eventTime = domain.expirationTime := by
  obtain ⟨o, ho, c, -, k, -, hbefore, hcancels, htime⟩ := hcheck
  exact ⟨c, k, o, ⟨rfl, rfl, Projecting.gives_of_toOption ho, hbefore, hcancels⟩, htime⟩

/-- The transfer takes the renewal of the leap day back and is reported to lead elsewhere than its
period would, counted at once. -/
def LeadsElsewhere (period : Period) : Prop :=
  ∃ (h : period.isZero = false) (c : OneTime) (k : Cancellation) (o : Outcome)
    (once limit : Instant),
    registry.TakesBack (domainFor period h) settled 0 (transferFor period h) c k o ∧
    period.addTo c.common.eventTime = .ok once ∧
    transfer.deadline.addYears registry.config.maxRegistrationYears = .ok limit ∧
    o.transitions.filterMap Transition.approvedExpiration? ≠ [if once ≤ limit then once else limit]

theorem leadsElsewhere {period : Period} {h : period.isZero = false}
    (hback : ∃ o ∈ ((registry.project (domainFor period h) settled).run.run 0).1.toOption,
      TakesLeapDayBack o)
    (hdiffers : ∃ once ∈ domain.expirationTime.shift? (.months period.inMonths),
      ∃ limit ∈ transfer.deadline.shift? (.months 120),
      ∀ renewed ∈ domain.expirationTime.shift? (.months 12),
      ∀ extended ∈ renewed.shift? (.months (period.inMonths - 12)),
        (if extended ≤ limit then extended else limit) ≠ if once ≤ limit then once else limit) :
    LeadsElsewhere period := by
  obtain ⟨c, k, o, htakes, htime⟩ := exists_takesBack hback
  obtain ⟨once, honce, limit, hlimit, hdiffer⟩ := hdiffers
  obtain ⟨renewed, extended, limit', hrenewed, hextended, hlimit', hreported⟩ :=
    expiration_by_way htakes
  obtain rfl : limit' = limit := Except.ok.inj (hlimit'.symm.trans (Instant.shift_eq_ok.2 hlimit))
  rw [htime] at hrenewed
  refine ⟨h, c, k, o, once, limit', htakes, ?_, hlimit', ?_⟩
  · rw [htime]
    exact Instant.shift_eq_ok.2 honce
  · rw [hreported]
    intro heq
    exact hdiffer renewed (Instant.shift_eq_ok.1 hrenewed) extended
      (Instant.shift_eq_ok.1 hextended) (List.singleton_inj.1 heq)

end Sample

/-- The period counted at once from the leap day leads elsewhere: for four years to the next leap
day, which the renewal has left, and for six months back before the end of the year that the renewal
has added. -/
theorem expiration_not_counted_at_once :
    Sample.LeadsElsewhere ⟨4, .years⟩ ∧ Sample.LeadsElsewhere ⟨6, .months⟩ :=
  ⟨@Sample.leadsElsewhere _ (by decide) (by decide +kernel) (by decide +kernel),
    @Sample.leadsElsewhere _ (by decide) (by decide +kernel) (by decide +kernel)⟩

theorem expiration_of_takesBack_sample : ∃ (h : (⟨4, .years⟩ : Period).isZero = false) (c : OneTime)
    (k : Cancellation) (o : Outcome) (once extended limit : Instant),
      Sample.registry.TakesBack (Sample.domainFor ⟨4, .years⟩ h) Sample.settled 0
        (Sample.transferFor ⟨4, .years⟩ h) c k o ∧
      12 ≤ (⟨4, .years⟩ : Period).inMonths ∧ once.date.day = 29 ∧ extended.date.day = 28 ∧
      o.transitions.filterMap Transition.approvedExpiration? =
        [if extended ≤ limit then extended else limit] := by
  obtain ⟨c, k, o, htakes, htime⟩ :=
    @Sample.exists_takesBack ⟨4, .years⟩ (by decide) (by decide +kernel)
  have hyear : 12 ≤ (⟨4, .years⟩ : Period).inMonths := by decide
  obtain ⟨once, extended, limit, honce, hdate, -, -, hreported⟩ :=
    expiration_of_takesBack htakes hyear
  have hleap : ∀ once ∈ Sample.domain.expirationTime.shift? (.months 48), once.date.day = 29 ∧
      (Sample.domain.expirationTime.date.pastLeapDay once.date).day = 28 := by decide +kernel
  rw [htime] at honce hdate
  obtain ⟨hlast, hleft⟩ := hleap once (Instant.shift_eq_ok.1 honce)
  exact ⟨by decide, c, k, o, once, extended, limit, htakes, hyear, hlast, hdate ▸ hleft, hreported⟩

end NameRegistry.Registration
