import NameRegistry.Proofs.Projection.Autorenewal

/-! # Years granted and years billed

A projection grants a registration no year that it does not bill, and bills none that it does not
grant. A renewal adds one year and makes up one charge. A transfer adds the years that it is for,
less one if it takes a renewal back, and then cancels the charge of one. The main statement: the new
expiration is as many years after the old one as there are charges made up, less cancellations, and
years of the transfer.

Each of these steps may turn the 29th of February into the 28th, and none turns it back.
-/
namespace NameRegistry

open Registration Billing

/-- The period is a whole number of years, in either unit. -/
def Period.IsYears (p : Period) (years : Nat) : Prop :=
  match p.unit with
  | .years => p.value.toNat = years
  | .months => p.value.toNat = 12 * years

instance (p : Period) (years : Nat) : Decidable (p.IsYears years) :=
  match p with
  | ⟨value, .years⟩ => inferInstanceAs (Decidable (value.toNat = years))
  | ⟨value, .months⟩ => inferInstanceAs (Decidable (value.toNat = 12 * years))

/-- The months of a number of years are all there if they have not been cut to 32 bits. -/
theorem Period.inMonths_of_isYears {p : Period} {years : Nat} (h : p.IsYears years)
    (hlt : p.inMonths < 2 ^ 32 - 1) : p.inMonths = 12 * years := by
  obtain ⟨value, unit⟩ := p
  cases unit with
  | years =>
    simp only [IsYears, inMonths, monthsOfYears] at h hlt ⊢
    omega
  | months => exact h

namespace Billing.Event

def isSyntheticCharge (e : Event) : Bool := e.oneTime?.any (·.isSynthetic)

def isCancellation (e : Event) : Bool := e.cancellation?.isSome

end Billing.Event

namespace Registration

/-- The transition is a transfer that took an autorenewal back. -/
def Transition.subsumes : Transition → Bool
  | transferServerApproved _ _ _ _ subsumed _ => subsumed
  | _ => false

/-- Full years of a transfer, with the year that it takes back counted off, do not go beyond the
limit on registrations. -/
def Domain.FitsLimit (d : Domain) (p : PendingTransfer) (maxYears : UInt32) : Prop :=
  ∀ extended limit, d.expirationTime.shift
    (.months (p.request.period.inMonths - if d.absorbs p then 12 else 0)) = .ok extended →
    p.deadline.addYears maxYears = .ok limit → extended ≤ limit

variable {σ : Type} {engine : Engine σ} {observed t : Instant}

/-- The years that the transfer due by a time adds, if one is due: it is for a whole number of
years, fixes no expiration, and from the domain as it stands just before the deadline it keeps
within the limit. -/
inductive Engine.TransferYears (engine : Engine σ) (d : Domain) (t : Instant) (s : σ) : Nat → Prop
  | none : d.dueTransfer? t = .none → TransferYears engine d t s 0
  | due {p : PendingTransfer} {years : Nat} :
      d.dueTransfer? t = some p → p.request.period.IsYears years →
      p.request.fixedExpiration = .none →
      (∀ basis d₁ rs s₁, p.basis = .ok basis →
        (engine.autorenew d.isAutorenewSuppressed d t basis).Gives s (d₁, rs) s₁ →
        d₁.FitsLimit p engine.config.maxRegistrationYears) →
      TransferYears engine d t s years

/-- A renewal bills one year. -/
theorem Engine.IsRenewal.isSyntheticCharge {d : Domain} {e : Instant} {r : Renewal}
    (h : engine.IsRenewal d observed e r) :
    (Billing.Event.oneTime r.charge).isSyntheticCharge = true := by
  rw [h.charge]
  rfl

/-- A domain that absorbs an autorenewal has one to take back. -/
theorem Domain.exists_absorbedGrace {d : Domain} {p : PendingTransfer} {basis : Instant}
    (hbasis : p.basis = .ok basis) (h : d.absorbs p = true) :
    ∃ g, d.absorbedGrace? p basis = some g := by
  rw [absorbedGrace?, if_pos h]
  rw [absorbs, hbasis] at h
  simp only [Bool.and_eq_true, inAutorenewGrace, List.any_eq_true, decide_eq_true_eq] at h
  obtain ⟨-, g, hg, hstatus, hactive⟩ := h
  have hmem : g ∈ (d.gracePeriodsOf .autoRenew).filter fun g => g.activeAt basis := by
    rw [gracePeriodsOf, List.mem_filter, List.mem_filter, decide_eq_true_eq]
    exact ⟨⟨hg, hstatus⟩, hactive⟩
  exact ⟨_, List.getLast?_eq_some_getLast (List.ne_nil_of_mem hmem)⟩

/-- An approval cancels one charge if it absorbs an autorenewal, and none otherwise. -/
theorem Engine.IsApproval.length_cancellation {d : Domain} {p : PendingTransfer} {basis : Instant}
    {a : Approval} (h : engine.IsApproval d p basis a) (hbasis : p.basis = .ok basis) :
    a.cancellation.toList.length = if a.subsumed then 1 else 0 := by
  rw [h.subsumed]
  cases habs : d.absorbs p with
  | true =>
    obtain ⟨g, hg⟩ := Domain.exists_absorbedGrace hbasis habs
    obtain ⟨k, hk, -⟩ := h.cancelled g hg
    rw [hk]
    rfl
  | false =>
    have hnone : d.absorbedGrace? p basis = none := by
      rw [Domain.absorbedGrace?, habs]
      rfl
    rw [h.uncancelled hnone]
    rfl

/-- An approval without a fixed expiration, and within the limit, adds the years of the transfer and
takes off those that it cancels. -/
theorem Engine.IsApproval.yearsLater {d : Domain} {p : PendingTransfer} {basis : Instant}
    {a : Approval} {years : Nat} (h : engine.IsApproval d p basis a) (hbasis : p.basis = .ok basis)
    (hyears : p.request.period.IsYears years) (hunfixed : p.request.fixedExpiration = none)
    (hfits : d.FitsLimit p engine.config.maxRegistrationYears) :
    d.expirationTime.YearsLater a.expirationTime (years - a.cancellation.toList.length) := by
  have hexpiration := h.expiration
  rw [Domain.transferredExpiration, hunfixed] at hexpiration
  simp only [bind_eq_ok] at hexpiration
  obtain ⟨extended, hextended, limit, hlimit, hmin⟩ := hexpiration
  rw [if_pos (hfits _ _ hextended hlimit)] at hmin
  cases hmin
  have hadded := Instant.shift_eq_ok.1 hextended
  have hbound := Instant.months_lt_of_addMonths? hadded
  have hmonths : p.request.period.inMonths = 12 * years := by
    refine Period.inMonths_of_isYears hyears ?_
    split at hbound <;> omega
  rw [h.length_cancellation hbasis, h.subsumed]
  rw [hmonths] at hadded
  cases habs : d.absorbs p with
  | false =>
    rw [habs] at hadded
    simpa using Instant.yearsLater_of_addMonths? hadded
  | true =>
    -- A transfer for nothing absorbs no renewal, so there is a year to take off.
    have hpos : 0 < years := by
      apply Nat.pos_of_ne_zero
      rintro rfl
      have hzero : p.request.period.value.toNat = 0 := by
        rw [Period.IsYears] at hyears
        split at hyears <;> exact hyears
      have hfree : p.request.period.isZero = true := decide_eq_true (UInt32.toNat_inj.1 hzero)
      rw [Domain.absorbs, hbasis, hfree] at habs
      simp at habs
    rw [habs, if_pos rfl, show 12 * years - 12 = 12 * (years - 1) by omega] at hadded
    have hlater := Instant.yearsLater_of_addMonths? hadded
    rwa [Int.natCast_sub hpos] at hlater

theorem countP_billingEvents_of_renewals {d d' : Domain} {time : Instant}
    {rs : List Renewal} {s s' : σ} (h : engine.Renewals observed time d s rs d' s') :
    ((rs.map Step.renewal).flatMap Step.billingEvents).countP Billing.Event.isSyntheticCharge =
      rs.length ∧
      ((rs.map Step.renewal).flatMap Step.billingEvents).countP Billing.Event.isCancellation =
        0 := by
  induction h with
  | stop _ => exact ⟨rfl, rfl⟩
  | @next _ _ _ _ _ _ r rs _ hr _ _ ih =>
    obtain ⟨hcharges, hcancellations⟩ := ih
    have hcharge := (renew_gives.1 hr).1.isSyntheticCharge
    rw [List.map_cons, List.flatMap_cons, List.countP_append, List.countP_append, hcharges,
      hcancellations]
    constructor
    · rw [Step.billingEvents, List.countP_singleton, if_pos hcharge, List.length_cons]
      omega
    · rfl

theorem countP_billingEvents_approval (a : Approval) :
    (Step.approval a).billingEvents.countP Billing.Event.isSyntheticCharge = 0 ∧
      (Step.approval a).billingEvents.countP Billing.Event.isCancellation =
        a.cancellation.toList.length := by
  rw [Step.billingEvents, List.countP_map, List.countP_map]
  exact ⟨List.countP_eq_zero.2 fun _ _ => Bool.false_ne_true,
    List.countP_eq_length.2 fun _ _ => rfl⟩

/-- With an approval between renewals, each renewal bills a year, and the approval cancels what it
does. -/
theorem countP_billingEvents_of_approval {d d₁ d₂ d' : Domain} {time time' : Instant}
    {rs rs' : List Renewal} {s s₁ s₂ s' : σ} (h : engine.Renewals observed time d s rs d₁ s₁)
    (a : Approval) (h' : engine.Renewals observed time' d₂ s₂ rs' d' s') :
    ((rs.map Step.renewal ++ .approval a :: rs'.map Step.renewal).flatMap Step.billingEvents).countP
        Billing.Event.isSyntheticCharge = rs.length + rs'.length ∧
      ((rs.map Step.renewal ++ .approval a ::
        rs'.map Step.renewal).flatMap Step.billingEvents).countP Billing.Event.isCancellation =
          a.cancellation.toList.length := by
  obtain ⟨hcharges, hcancellations⟩ := countP_billingEvents_of_renewals h
  obtain ⟨hcharges', hcancellations'⟩ := countP_billingEvents_of_renewals h'
  obtain ⟨hcharges₁, hcancellations₁⟩ := countP_billingEvents_approval a
  simp only [List.flatMap_append, List.flatMap_cons, List.countP_append, hcharges,
    hcharges', hcharges₁, hcancellations, hcancellations', hcancellations₁, Nat.zero_add,
    Nat.add_zero, and_self]

theorem any_subsumes_renewals (rs : List Renewal) :
    ((rs.map Step.renewal).map Step.transition).any Transition.subsumes = false := by
  rw [List.map_map, List.any_eq_false]
  intro transition hmem
  obtain ⟨r, -, rfl⟩ := List.mem_map.1 hmem
  exact Bool.false_ne_true

theorem any_subsumes_approval (rs rs' : List Renewal) (a : Approval) :
    ((rs.map Step.renewal ++ .approval a :: rs'.map Step.renewal).map Step.transition).any
      Transition.subsumes = a.subsumed := by
  rw [List.map_append, List.map_cons, List.any_append, List.any_cons, any_subsumes_renewals,
    any_subsumes_renewals, Bool.or_false, Bool.false_or]
  rfl

/-- Grace periods that end take nothing back. -/
theorem any_subsumes_account (d : Domain) (steps : List Step) (t : Instant) :
    (Outcome.account d steps t).transitions.any Transition.subsumes =
      (steps.map Step.transition).any Transition.subsumes := by
  have hexpired : ((d.gracePeriods.filter (!·.activeAt t)).map Transition.ofExpired).any
      Transition.subsumes = false := by
    rw [List.any_eq_false]
    intro transition hmem
    obtain ⟨g, -, rfl⟩ := List.mem_map.1 hmem
    exact Bool.false_ne_true
  refine (Transition.inOrder_perm _).any_eq.trans ?_
  rw [List.any_append, hexpired, Bool.or_false]

/-- Renewals before and after an approval add a year each to what it adds. -/
theorem Engine.IsApproval.yearsLater_of_renewals {d d₁ d₂ d' : Domain} {p : PendingTransfer}
    {basis : Instant} {a : Approval} {rs rs' : List Renewal} {grace : Option GracePeriod}
    {years : Nat} {s s₁ s₂ s' : σ} (h : engine.IsApproval d₁ p basis a)
    (htransferred : d₁.transferred p a.expirationTime grace = .ok d₂)
    (hrs : engine.Renewals observed basis d s rs d₁ s₁)
    (hrs' : engine.Renewals observed t d₂ s₂ rs' d' s') (hbasis : p.basis = .ok basis)
    (hyears : p.request.period.IsYears years) (hunfixed : p.request.fixedExpiration = none)
    (hfits : d₁.FitsLimit p engine.config.maxRegistrationYears) :
    d.expirationTime.YearsLater d'.expirationTime
      (rs.length + (years - a.cancellation.toList.length) + rs'.length) := by
  have hbefore := Instant.yearsLater_of_anniversary? (expirationTime_of_renewals hrs)
  have hafter := Instant.yearsLater_of_anniversary? (expirationTime_of_renewals hrs')
  rw [(Domain.handedOver_of_transferred htransferred).expirationTime] at hafter
  exact (hbefore.trans (h.yearsLater hbasis hyears hunfixed hfits)).trans hafter

/-- Whatever a projection cancels it reports with the transfer, once. Where the transfer that is due
adds whole years, the registration runs out as many years later as charges were made up, less those
that are cancelled, and as the transfer adds: at the same time of day and on the same day, but that
the 29th of February may have become the 28th. -/
theorem years_granted_are_billed {d : Domain} {o : Outcome} {s s' : σ}
    (h : (engine.project d t).Gives s o s') :
    (o.newBillingEvents.countP Billing.Event.isCancellation =
      if o.transitions.any Transition.subsumes then 1 else 0) ∧
    ∀ years, engine.TransferYears d t s years → d.expirationTime.YearsLater o.domain.expirationTime
      (o.newBillingEvents.countP Billing.Event.isSyntheticCharge -
        o.newBillingEvents.countP Billing.Event.isCancellation + years) := by
  obtain ⟨-, d', steps, hcourse, rfl⟩ := project_gives.1 h
  rw [any_subsumes_account, Outcome.account]
  simp only [Domain.expirationTime_lapse]
  cases hdue : d.dueTransfer? t with
  | none =>
    obtain ⟨rs, hrs, rfl⟩ := (course_of_none hdue).1 hcourse
    obtain ⟨hcharges, hcancellations⟩ := countP_billingEvents_of_renewals hrs
    rw [any_subsumes_renewals, hcharges, hcancellations]
    refine ⟨rfl, ?_⟩
    intro years hyears
    cases hyears with
    | due hdue' => cases hdue.symm.trans hdue'
    | none _ => simpa using Instant.yearsLater_of_anniversary? (expirationTime_of_renewals hrs)
  | some p =>
    obtain ⟨basis, rs, d₁, s₁, d₂, a, s₂, rs', hbasis, hrs, ha, hrs', rfl⟩ :=
      (course_of_some hdue).1 hcourse
    obtain ⟨hia, htransferred, -⟩ := isApproval_of_gives ha
    obtain ⟨hcharges, hcancellations⟩ := countP_billingEvents_of_approval hrs a hrs'
    rw [any_subsumes_approval, hcharges, hcancellations]
    refine ⟨hia.length_cancellation hbasis, ?_⟩
    intro years hyears
    cases hyears with
    | none hdue' => cases hdue.symm.trans hdue'
    | due hdue' hperiod hunfixed hfits =>
      cases hdue.symm.trans hdue'
      have hlater := hia.yearsLater_of_renewals htransferred hrs hrs' hbasis hperiod hunfixed
        (hfits _ _ _ _ hbasis (autorenew_gives.2 hrs))
      have hcount : ((rs.length + rs'.length : Nat) : Int) - a.cancellation.toList.length + years =
          rs.length + (years - a.cancellation.toList.length) + rs'.length := by omega
      rwa [hcount]

theorem Sample.transferYears : registry.TransferYears domain settled 0 1 := by
  have hfits : ∀ basis ∈ transfer.deadline.shift? (.millisBack 1),
      ∀ r ∈ ((registry.autorenew false domain settled basis).run.run 0).1.toOption,
      ∀ extended ∈ r.1.expirationTime.shift?
      (.months (12 - if r.1.absorbs transfer then 12 else 0)),
      ∀ limit ∈ transfer.deadline.shift? (.months 120), extended ≤ limit := by decide +kernel
  refine .due (p := transfer) (by decide) (by decide) rfl ?_
  intro basis d₁ rs s₁ hbasis hrs extended limit hextended hlimit
  exact hfits basis (Instant.shift_eq_ok.1 hbasis) (d₁, rs) (Projecting.toOption_of_gives hrs)
    extended (Instant.shift_eq_ok.1 hextended) limit (Instant.shift_eq_ok.1 hlimit)

/-- A registration that ran out on a leap day is renewed and then transferred for one year, which is
the same. -/
theorem years_granted_are_billed_sample : ∃ o s',
    (Sample.registry.project Sample.domain Sample.settled).Gives 0 o s' ∧
      Sample.registry.TransferYears Sample.domain Sample.settled 0 1 ∧
      o.newBillingEvents.countP Billing.Event.isSyntheticCharge = 1 ∧
      o.transitions.any Transition.subsumes = true ∧
      Sample.domain.expirationTime.YearsLater o.domain.expirationTime 1 := by
  obtain ⟨o, s', ho⟩ := Projecting.exists_gives (s := 0)
    (x := Sample.registry.project Sample.domain Sample.settled) (by decide +kernel)
  have hcounts :
      ∀ o ∈ ((Sample.registry.project Sample.domain Sample.settled).run.run 0).1.toOption,
        o.newBillingEvents.countP Billing.Event.isSyntheticCharge = 1 ∧
        o.newBillingEvents.countP Billing.Event.isCancellation = 1 := by decide +kernel
  obtain ⟨hcharges, hcancelled⟩ := hcounts o (Projecting.toOption_of_gives ho)
  obtain ⟨hreported, hyears⟩ := years_granted_are_billed ho
  have hlater := hyears 1 Sample.transferYears
  rw [hcharges, hcancelled] at hlater
  refine ⟨o, s', ho, Sample.transferYears, hcharges, ?_, hlater⟩
  cases hsubsumes : o.transitions.any Transition.subsumes with
  | true => rfl
  | false =>
    rw [hcancelled, hsubsumes] at hreported
    cases hreported

end Registration
end NameRegistry
