import NameRegistry.Proofs.Projection.Deadline
import NameRegistry.Proofs.Projection.Subsumption

/-! # The limit on registrations

A renewal adds a year, and a transfer adds its period but cuts what is beyond the limit, which
counts from the deadline. So a registration that is within the limit is never cut short of where it
was, whatever is projected. What the renewals before the deadline have added is cut in one case
only: if one year is the limit, the deadline falls on a leap day, and the last renewal was on the
day before, at a later time of day. A year later the two are on one day, and the limit comes
first.
-/
namespace NameRegistry

theorem le_monthsOfYears {years : UInt32} (h : years ≠ 0) : 12 ≤ monthsOfYears years := by
  have hpos : 0 < years.toNat := Nat.pos_of_ne_zero fun hzero => h (UInt32.toNat_inj.1 hzero)
  rw [monthsOfYears]
  omega

theorem monthsOfYears_eq_year {years : UInt32} : monthsOfYears years = 12 ↔ years = 1 := by
  rw [← UInt32.toNat_inj, monthsOfYears]
  show _ ↔ years.toNat = 1
  omega

theorem Period.inMonths_of_isZero {p : Period} (h : p.isZero = true) : p.inMonths = 0 := by
  obtain ⟨value, unit⟩ := p
  obtain rfl : value = 0 := of_decide_eq_true h
  cases unit <;> rfl

namespace Registration

variable {σ : Type} {engine : Engine σ} {observed t : Instant}

theorem TldConfig.maxRegistrationYears_ne {c : TldConfig} (h : c.validate = .ok ()) :
    c.maxRegistrationYears ≠ 0 := by
  intro hzero
  rw [validate, if_pos hzero] at h
  split at h <;> cases h

/-- A transfer sets an expiration within the limit. It stays at or above all that both the
expiration before it and the limit are above of, and a transfer for no time adds nothing. -/
theorem Domain.transferredExpiration_bounds {d : Domain} {p : PendingTransfer}
    {maxYears : UInt32} {e : Instant} (hunfixed : p.request.fixedExpiration = none)
    (h : d.transferredExpiration p maxYears = .ok e) :
    ∃ limit, p.deadline.addYears maxYears = .ok limit ∧ e ≤ limit ∧
      (∀ u, u ≤ d.expirationTime → u ≤ limit → u ≤ e) ∧
      (p.request.period.isZero = true → e ≤ d.expirationTime) := by
  rw [transferredExpiration, hunfixed] at h
  simp only [bind_eq_ok] at h
  obtain ⟨extended, hextended, limit, hlimit, hmin⟩ := h
  cases hmin
  have hextended := Instant.shift_eq_ok.1 hextended
  have hle := Instant.le_of_addMonths? hextended
  refine ⟨limit, hlimit, ?_, fun u hu hu_limit => ?_, fun hzero => ?_⟩
  · split
    · assumption
    · exact Int.le_refl _
  · split
    · exact Int.le_trans hu hle
    · exact hu_limit
  · rw [Period.inMonths_of_isZero hzero, Nat.zero_sub] at hextended
    cases (Instant.addMonths?_zero _).symm.trans hextended
    split
    · exact Int.le_refl _
    · next hover => exact Int.le_of_lt (Int.not_le.1 hover)

/-- One year is the longest registration, and from the deadline it ends before the last renewal
does. -/
def CutsRenewal (rs : List Renewal) (deadline : Instant) (maxYears : UInt32) : Prop :=
  maxYears = 1 ∧ ∃ r ∈ rs.getLast?, r.time.BeforeLeapDay deadline

theorem le_of_renewals {d d' : Domain} {time : Instant} {rs : List Renewal} {s s' : σ}
    (h : engine.Renewals observed time d s rs d' s') : d.expirationTime ≤ d'.expirationTime :=
  Instant.le_of_anniversary? (Nat.zero_le _) rfl (expirationTime_of_renewals h)

/-- Renewals before a deadline lead beyond the limit that counts from it only across a leap day. -/
theorem limit_lt_iff {d d' : Domain} {basis deadline limit : Instant} {rs : List Renewal}
    {maxYears : UInt32} {s s' : σ} (h : engine.Renewals observed basis d s rs d' s')
    (hbasis : basis < deadline) (hmax : maxYears ≠ 0)
    (hlimit : deadline.addYears maxYears = .ok limit) (hwithin : d.expirationTime ≤ limit) :
    limit < d'.expirationTime ↔ CutsRenewal rs deadline maxYears := by
  rw [CutsRenewal]
  cases hlast : rs.getLast? with
  | none =>
    obtain rfl := List.getLast?_eq_none_iff.1 hlast
    have hsame : d.expirationTime = d'.expirationTime :=
      Option.some.inj (expirationTime_of_renewals h)
    rw [← hsame]
    refine iff_of_false (Int.not_lt.2 hwithin) ?_
    rintro ⟨-, r, hr, -⟩
    cases hr
  | some r =>
    have hr : r ∈ rs := List.mem_of_getLast? hlast
    obtain ⟨_, e, -, -, hruns, hir⟩ := renewal_of_mem h hr
    obtain rfl := hir.time_eq
    have hbefore : r.time < deadline := Int.lt_of_le_of_lt (not_endsBy.1 hruns).1 hbasis
    rw [← expirationTime_of_getLast? h hlast, Instant.lt_addYear_iff hbefore (le_monthsOfYears hmax)
      (Instant.shift_eq_ok.1 hir.year) (Instant.shift_eq_ok.1 hlimit), monthsOfYears_eq_year]
    simp

/-- A registration that a pending transfer leaves to its period, and that is within the limit for
that transfer, is never shorter after a projection. A transfer sets an expiration within the limit,
and none before the one that the renewals have led to, which a transfer for no time leaves as it is;
but that across a leap day one year from the deadline is less than the year of the last renewal, and
cuts it. -/
theorem projection_keeps_registration {d : Domain} {o : Outcome} {s s' : σ}
    (hvalid : engine.config.validate = .ok ())
    (hunfixed : ∀ p ∈ d.transfer.pending?, p.request.fixedExpiration = none)
    (hwithin : ∀ p ∈ d.transfer.pending?, ∀ limit,
      p.deadline.addYears engine.config.maxRegistrationYears = .ok limit → d.expirationTime ≤ limit)
    (h : (engine.project d t).Gives s o s') :
    d.expirationTime ≤ o.domain.expirationTime ∧
    ∀ p, d.dueTransfer? t = some p → ∃ basis d₁ rs s₁ limit e, p.basis = .ok basis ∧
      (engine.autorenew d.isAutorenewSuppressed d t basis).Gives s (d₁, rs) s₁ ∧
      p.deadline.addYears engine.config.maxRegistrationYears = .ok limit ∧
      o.transitions.filterMap Transition.approvedExpiration? = [e] ∧ e ≤ limit ∧
      (¬CutsRenewal rs p.deadline engine.config.maxRegistrationYears →
        d₁.expirationTime ≤ e ∧ (p.request.period.isZero = true → e = d₁.expirationTime)) ∧
      (CutsRenewal rs p.deadline engine.config.maxRegistrationYears →
        e = limit ∧ limit < d₁.expirationTime) := by
  have hmax := TldConfig.maxRegistrationYears_ne hvalid
  cases hdue : d.dueTransfer? t with
  | none =>
    obtain ⟨-, d', steps, hcourse, rfl⟩ := project_gives.1 h
    obtain ⟨rs, hrs, rfl⟩ := (course_of_none hdue).1 hcourse
    refine ⟨?_, fun p hp => absurd hp (Option.some_ne_none p).symm⟩
    show d.expirationTime ≤ (d'.lapse t).expirationTime
    rw [Domain.expirationTime_lapse]
    exact le_of_renewals hrs
  | some p =>
    obtain ⟨hpending, -⟩ := Domain.dueTransfer?_eq_some.1 hdue
    obtain ⟨w⟩ := exists_handover hdue h
    obtain ⟨limit, hlimit, hle, hkeeps, hzero⟩ :=
      Domain.transferredExpiration_bounds (hunfixed p hpending) w.isApproval.expiration
    have hfrom : d.expirationTime ≤ limit := hwithin p hpending limit hlimit
    have hbasis := (PendingTransfer.basis_lt w.basis_eq).1
    have hcut := limit_lt_iff w.renewals_before hbasis hmax hlimit hfrom
    have hbefore := le_of_renewals w.renewals_before
    have hafter := le_of_renewals w.renewals_after
    rw [w.handedOver.expirationTime] at hafter
    constructor
    · rw [w.domain_eq, Domain.expirationTime_lapse]
      exact Int.le_trans (hkeeps _ hbefore hfrom) hafter
    · rintro _ ⟨⟩
      refine ⟨w.basis, w.renewed, w.before, w.atApproval, limit,
        w.approval.expirationTime, w.basis_eq, autorenew_gives.2 w.renewals_before, hlimit,
        ?_, hle, ?_, ?_⟩
      · rw [congrArg Outcome.transitions w.account_eq]
        exact filterMap_approvedExpiration? _ _ _ _ _
      · intro hcuts
        have hkept := hkeeps _ (Int.le_refl _) (Int.not_lt.1 (mt hcut.1 hcuts))
        exact ⟨hkept, fun hz => Instant.ext (Int.le_antisymm (hzero hz) hkept)⟩
      · intro hcuts
        have hlt := hcut.2 hcuts
        exact ⟨Instant.ext (Int.le_antisymm hle (hkeeps _ (Int.le_of_lt hlt) (Int.le_refl _))), hlt⟩

/-- The sample domain is renewed before the deadline of its transfer, which takes nothing of that
year away. -/
theorem projection_keeps_registration_sample :
    ∃ (o : Outcome) (s' : UInt64) (d₁ : Domain) (limit e : Instant),
      Sample.registry.config.validate = .ok () ∧ Sample.transfer.request.fixedExpiration = none ∧
      Sample.transfer.deadline.addYears Sample.registry.config.maxRegistrationYears = .ok limit ∧
      (Sample.registry.project Sample.domain Sample.settled).Gives 0 o s' ∧
      Sample.domain.expirationTime ≤ o.domain.expirationTime ∧
      o.transitions.filterMap Transition.approvedExpiration? = [e] ∧ d₁.expirationTime ≤ e ∧
      e ≤ limit := by
  have hvalid : Sample.registry.config.validate = .ok () := rfl
  have hwithin : ∀ p ∈ Sample.domain.transfer.pending?, ∀ limit,
      p.deadline.addYears Sample.registry.config.maxRegistrationYears = .ok limit →
        Sample.domain.expirationTime ≤ limit := by
    rintro _ ⟨⟩ limit hlimit
    have hdeadline : Sample.domain.expirationTime ≤ Sample.transfer.deadline := by decide
    exact Int.le_trans hdeadline (Instant.le_of_addMonths? (Instant.shift_eq_ok.1 hlimit))
  have hunfixed : ∀ p ∈ Sample.domain.transfer.pending?, p.request.fixedExpiration = none := by
    rintro _ ⟨⟩
    rfl
  obtain ⟨o, s', h⟩ := Projecting.exists_gives
    (x := Sample.registry.project Sample.domain Sample.settled) (s := 0) (by decide +kernel)
  obtain ⟨hkept, hdue⟩ := projection_keeps_registration hvalid hunfixed hwithin h
  obtain ⟨_, d₁, _, _, limit, e, -, -, hlimit, he, hle, hgrows, -⟩ :=
    hdue Sample.transfer (by decide)
  have hyears : Sample.registry.config.maxRegistrationYears ≠ 1 := by decide
  exact ⟨o, s', d₁, limit, e, hvalid, rfl, hlimit, h, hkept, he,
    (hgrows fun hcuts => hyears hcuts.1).1, hle⟩

namespace Sample

/-- The registry, with one year as the longest registration. -/
def yearly : Engine UInt64 :=
  { registry with config := { registry.config with maxRegistrationYears := 1 } }

/-- A transfer for a year or for no time, with a deadline at one o'clock on a leap day. -/
def leapDayTransfer (paid : Bool) : PendingTransfer where
  request := { transfer.request with
    requestTime := ⟨12472 * 172800000000000, by decide, by decide, by decide⟩
    expirationTime := ⟨12477 * 172800000000000 + 7200000000000, by decide, by decide, by decide⟩
    period := ⟨if paid then 1 else 0, .years⟩ }
  approval :=
    .of (if paid then some ⟨.ofNat (UInt64.size + 2)⟩ else none) ⟨.ofNat (UInt64.size + 3)⟩
      ⟨.ofNat (UInt64.size + 4)⟩ .empty
  gaining_ne := transfer.gaining_ne
  losing_ne := transfer.losing_ne
  registrars_ne := transfer.registrars_ne
  requested_le := by cases paid <;> decide
  charge_iff := by cases paid <;> decide

/-- A domain that runs out on the eve of the leap day, an hour before midnight. -/
def eve (paid : Bool) : Domain :=
  { domain with
    expirationTime := ⟨12476 * 172800000000000 + 165600000000000, by decide, by decide, by decide⟩
    transfer := .pending (leapDayTransfer paid)
    created_le := by decide }

/-- The domain is within the limit, and its transfer sets an expiration before the one that the
renewal on the eve has led to. -/
def CutShort (paid : Bool) : Prop :=
  (leapDayTransfer paid).request.fixedExpiration = none ∧
  ∃ (o : Outcome) (s' : UInt64) (basis limit e : Instant) (d₁ : Domain) (rs : List Renewal)
    (s₁ : UInt64), (yearly.project (eve paid) settled).Gives 0 o s' ∧
    (leapDayTransfer paid).deadline.addYears yearly.config.maxRegistrationYears = .ok limit ∧
    (eve paid).expirationTime ≤ limit ∧
    (eve paid).dueTransfer? settled = some (leapDayTransfer paid) ∧
    (leapDayTransfer paid).basis = .ok basis ∧
    (yearly.autorenew (eve paid).isAutorenewSuppressed (eve paid) settled basis).Gives 0
      (d₁, rs) s₁ ∧
    o.transitions.filterMap Transition.approvedExpiration? = [e] ∧ e < d₁.expirationTime

theorem cutShort {paid : Bool}
    (hdue : (eve paid).dueTransfer? settled = some (leapDayTransfer paid))
    (hproject : ((yearly.project (eve paid) settled).run.run 0).1.toBool = true)
    (hrenews : ∃ limit ∈ (leapDayTransfer paid).deadline.shift? (.months 12),
      (eve paid).expirationTime ≤ limit ∧
      ∃ basis ∈ (leapDayTransfer paid).deadline.shift? (.millisBack 1),
      ∃ renewed ∈ ((yearly.autorenew (eve paid).isAutorenewSuppressed
        (eve paid) settled basis).run.run 0).1.toOption, limit < renewed.1.expirationTime) :
          CutShort paid := by
  obtain ⟨limit, hlimit, hwithin, basis, hbasis, ⟨d₁, rs⟩, hrenewed, hbeyond⟩ := hrenews
  obtain ⟨o, s', h⟩ := Projecting.exists_gives hproject
  obtain ⟨s₁, hrs⟩ := Projecting.gives_of_toOption hrenewed
  obtain ⟨w⟩ := exists_handover hdue h
  have hlimit : (leapDayTransfer paid).deadline.addYears yearly.config.maxRegistrationYears =
      .ok limit :=
    Instant.shift_eq_ok.2 hlimit
  obtain ⟨limit', hlimit', hle, -⟩ :=
    Domain.transferredExpiration_bounds rfl w.isApproval.expiration
  cases hlimit.symm.trans hlimit'
  refine ⟨rfl, o, s', basis, limit, w.approval.expirationTime, d₁, rs, s₁, h, hlimit, hwithin, hdue,
    Instant.shift_eq_ok.2 hbasis, hrs, ?_, Int.lt_of_le_of_lt hle hbeyond⟩
  rw [congrArg Outcome.transitions w.account_eq]
  exact filterMap_approvedExpiration? _ _ _ _ _

end Sample

/-- A transfer on a leap day cuts the year that the renewal on its eve has added, even if it is for
no time. -/
theorem renewal_cut_across_leap_day :
    Sample.yearly.config.validate = .ok () ∧ Sample.CutShort false ∧ Sample.CutShort true :=
  ⟨rfl, Sample.cutShort (by decide) (by decide +kernel) (by decide +kernel),
    Sample.cutShort (by decide) (by decide +kernel) (by decide +kernel)⟩

end Registration
end NameRegistry
