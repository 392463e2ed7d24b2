import NameRegistry.Proofs.Projection.Handover

/-! # Renewals on both sides of a deadline

The registrar that loses a domain is charged for the expirations up to a millisecond before the
deadline, the one that gains it for those that follow. The first of these comes from the last
expiration before the approval, with the period of the transfer added and cut by the limit on
registrations, which counts from the deadline. So it lies past the deadline, but for one case:
nothing is added and the expiration falls within the last millisecond. Then the gaining registrar is
charged for it, at a time before the deadline. The renewal after that is a year later, and no
millisecond is that long, not even across a leap second.
-/
namespace NameRegistry.Billing

/-- The charge is made out to the registrar, for the recurring event. -/
def OneTime.isBilledTo (c : OneTime) (registrar : RegistrarId) (event : BillingEventId) : Bool :=
  c.common.registrarId = registrar && c.matchingEvent = some event

theorem OneTime.isBilledTo_iff {c : OneTime} {registrar : RegistrarId} {event : BillingEventId} :
    c.isBilledTo registrar event = true ↔ c.common.registrarId = registrar ∧
      c.matchingEvent = some event := by
  rw [isBilledTo, Bool.and_eq_true, decide_eq_true_eq, decide_eq_true_eq]

end NameRegistry.Billing

namespace NameRegistry.Registration

variable {σ : Type} {engine : Engine σ} {observed t : Instant}

theorem EndsBy.mono {stop : Option Instant} {e e' : Instant} (h : EndsBy t stop e) (hle : e ≤ e') :
    EndsBy t stop e' := by
  rcases h with hlt | ⟨s, hs, hstop⟩
  · exact .inl (Int.lt_of_lt_of_le hlt hle)
  · exact .inr ⟨s, hs, Int.le_trans hstop hle⟩

/-- The expirations that are renewed are those at which renewals do not end. -/
theorem Domain.IsRenewalCount.lt_iff {d : Domain} {n k : Nat} {e : Instant}
    (h : d.IsRenewalCount t n) (hrunning : d.isAutorenewSuppressed = false)
    (he : d.expirationTime.anniversary? k = some e) : k < n ↔ ¬EndsBy t d.autorenewEndTime e := by
  constructor
  · intro hk
    obtain ⟨e', he', hruns⟩ := h.least hrunning k hk
    cases he.symm.trans he'
    exact hruns
  · intro hruns
    apply Nat.lt_of_not_le
    intro hle
    obtain ⟨e', he', hends⟩ := h.ends hrunning
    exact hruns (hends.mono (Instant.le_of_anniversary? hle he' he))

/-- Renewals are charged at the anniversaries of the expiration, one after another. -/
theorem eventTimes_of_renewals {d d' : Domain} {time : Instant} {rs : List Renewal} {s s' : σ}
    (h : engine.Renewals observed time d s rs d' s') :
    rs.map (fun r => some r.charge.common.eventTime) =
      (List.range rs.length).map d.expirationTime.anniversary? := by
  apply List.ext_getElem
  · simp
  · intro k hk _
    rw [List.length_map] at hk
    obtain ⟨e, he, -, -, hir⟩ := renewal_of_renewals h (List.getElem?_eq_getElem hk)
    simp [he, hir.isCharge.eventTime]

theorem Engine.IsRenewal.isBilledTo {d : Domain} {e : Instant} {r : Renewal}
    (h : engine.IsRenewal d observed e r) :
    r.charge.isBilledTo d.sponsor d.autorenewEvent = true := by
  rw [Billing.OneTime.isBilledTo_iff]
  exact ⟨h.isCharge.registrar, h.isCharge.matching⟩

theorem PendingTransfer.basis_lt {p : PendingTransfer} {basis : Instant} (h : p.basis = .ok basis) :
    basis < p.deadline ∧ p.deadline.ticks ≤ basis.ticks + 1001000000 :=
  Instant.subMillis?_one (Instant.shift_eq_ok.1 h)

/-- A transfer leaves the expiration, or adds a month or more, or cuts it to one past the
deadline. -/
theorem Domain.transferredExpiration_cases {d : Domain} {p : PendingTransfer}
    {maxYears : UInt32} {e : Instant} (hunfixed : p.request.fixedExpiration = none)
    (h : d.transferredExpiration p maxYears = .ok e) :
    e = d.expirationTime ∨ d.expirationTime.ticks + 172800000000000 ≤ e.ticks ∨ p.deadline ≤ e := by
  rw [transferredExpiration, hunfixed] at h
  simp only [bind_eq_ok] at h
  obtain ⟨extended, hextended, limit, hlimit, hmin⟩ := h
  have hextended := Instant.shift_eq_ok.1 hextended
  have hlimit : p.deadline ≤ limit := Instant.le_of_addMonths? (Instant.shift_eq_ok.1 hlimit)
  generalize hadded : (p.request.period.inMonths - if d.absorbs p then 12 else 0) =
    added at hextended
  cases hmin
  split
  · rcases Nat.eq_zero_or_pos added with rfl | hpos
    · cases (Instant.addMonths?_zero _).symm.trans hextended
      exact .inl rfl
    · exact .inr (.inl (Instant.add_day_le_of_addMonths? hpos hextended))
  · exact .inr (.inr hlimit)

namespace Engine.Handover

variable {d : Domain} {p : PendingTransfer} {o : Outcome} {s : σ} (w : engine.Handover d t s p o)

theorem autorenewEndTime_eq : w.transferred.autorenewEndTime = d.autorenewEndTime := by
  have htransferred := Domain.transferred_eq_ok.1 (isApproval_of_gives w.approves).2.1
  have hkept : w.transferred.autorenewEndTime = w.renewed.autorenewEndTime :=
    congrArg Domain.Draft.autorenewEndTime htransferred
  exact hkept.trans (renewals_end w.renewals_before).2.autorenewEndTime

/-- What is renewed after the approval runs out past the deadline, unless it is the expiration that
was next, and that comes after the basis. -/
theorem deadline_le_of_after (hrunning : d.isAutorenewSuppressed = false)
    (hunfixed : p.request.fixedExpiration = none) {k : Nat} {e : Instant}
    (he : w.transferred.expirationTime.anniversary? k = some e)
    (hruns : ¬EndsBy t d.autorenewEndTime e) :
    p.deadline ≤ e ∨ w.basis < e ∧ d.expirationTime.anniversary? w.before.length = some e := by
  have hnext := expirationTime_of_renewals w.renewals_before
  obtain ⟨-, hclose⟩ := PendingTransfer.basis_lt w.basis_eq
  have hfirst : w.transferred.expirationTime ≤ e :=
    Instant.le_of_anniversary? (Nat.zero_le k) rfl he
  -- Where autorenewal was over before the approval, it would be over for this one too.
  have hopen : w.renewed.expirationTime ≤ e → w.basis < w.renewed.expirationTime := by
    intro hle
    obtain ⟨e', he', hends⟩ := (isRenewalCount_of_renewals w.renewals_before).ends hrunning
    cases hnext.symm.trans he'
    rcases hends with hlt | ⟨stop, hstop, hover⟩
    · exact hlt
    · exact absurd (.inr ⟨stop, hstop, Int.le_trans hover hle⟩) hruns
  have hcases := Domain.transferredExpiration_cases hunfixed w.isApproval.expiration
  rw [← w.handedOver.expirationTime] at hcases
  rcases hcases with hkept | hlater | hlimit
  · rw [hkept] at he hfirst
    have hbasis := hopen hfirst
    cases k with
    | zero =>
      cases he
      exact .inr ⟨hbasis, hnext⟩
    | succ k =>
      have hyear := Instant.add_day_le_of_anniversary? (Nat.succ_pos k) rfl he
      rw [Instant.lt_iff] at hbasis
      rw [Instant.le_iff]
      omega
  · rw [Instant.le_iff] at hfirst
    have hbasis := hopen (Instant.le_iff.2 (by omega))
    rw [Instant.lt_iff] at hbasis
    rw [Instant.le_iff]
    omega
  · exact .inl (Int.le_trans hlimit hfirst)

/-- The old sponsor is charged for the renewals before the approval, under its own recurring
event. -/
theorem filter_isBilledTo_before (hother : p.approval.autorenewEvent ≠ d.autorenewEvent) :
    o.newCharges.filter (·.isBilledTo d.sponsor d.autorenewEvent) = w.before.map (·.charge) := by
  rw [w.newCharges_eq, List.filter_append, List.filter_eq_self.2, List.filter_eq_nil_iff.2,
    List.append_nil]
  · intro c hc hbilled
    obtain ⟨r, hr, rfl⟩ := List.mem_map.1 hc
    obtain ⟨_, hir⟩ := isRenewal_of_mem w.renewals_after hr
    have hmatching := hir.isCharge.matching
    rw [(Billing.OneTime.isBilledTo_iff.1 hbilled).2, w.handedOver.autorenewEvent] at hmatching
    exact hother (Option.some.inj hmatching).symm
  · intro c hc
    obtain ⟨r, hr, rfl⟩ := List.mem_map.1 hc
    obtain ⟨_, hir⟩ := isRenewal_of_mem w.renewals_before hr
    exact hir.isBilledTo

/-- Charges under the new recurring event are those of renewals after the approval. -/
theorem exists_after_of_isBilledTo (hother : p.approval.autorenewEvent ≠ d.autorenewEvent)
    {c : Billing.OneTime} {registrar : RegistrarId} (hc : c ∈ o.newCharges)
    (hbilled : c.isBilledTo registrar p.approval.autorenewEvent = true) :
    ∃ r ∈ w.after, r.charge = c := by
  rw [w.newCharges_eq] at hc
  rcases List.mem_append.1 hc with hc | hc
  · obtain ⟨r, hr, rfl⟩ := List.mem_map.1 hc
    obtain ⟨_, hir⟩ := isRenewal_of_mem w.renewals_before hr
    have hmatching := hir.isCharge.matching
    rw [(Billing.OneTime.isBilledTo_iff.1 hbilled).2] at hmatching
    exact absurd (Option.some.inj hmatching) hother
  · exact List.mem_map.1 hc

end Engine.Handover

/-- Past the deadline of a transfer that fixes no expiration, the old sponsor is charged for exactly
the expirations up to a millisecond before the deadline, while autorenewal goes on, and so never for
one that falls on the deadline. What the gaining registrar is charged for under the new recurring
event does not come before the deadline, unless it is the first expiration that the old sponsor is
not charged for, and that falls between. -/
theorem autorenewals_part_at_deadline {d : Domain} {p : PendingTransfer} {o : Outcome} {s s' : σ}
    (hdue : d.dueTransfer? t = some p) (hrunning : d.isAutorenewSuppressed = false)
    (hunfixed : p.request.fixedExpiration = none)
    (hother : p.approval.autorenewEvent ≠ d.autorenewEvent)
    (h : (engine.project d t).Gives s o s') : ∃ basis n, p.basis = .ok basis ∧
      (∀ k e, d.expirationTime.anniversary? k = some e →
        (k < n ↔ e ≤ basis ∧ ∀ stop ∈ d.autorenewEndTime, e < stop)) ∧
      (o.newCharges.filter (·.isBilledTo d.sponsor d.autorenewEvent)).map
        (fun c => some c.common.eventTime) = (List.range n).map d.expirationTime.anniversary? ∧
      (∀ c ∈ o.newCharges, c.isBilledTo d.sponsor d.autorenewEvent = true →
        c.common.eventTime < p.deadline) ∧
      ∀ c ∈ o.newCharges,
        c.isBilledTo p.request.gainingRegistrarId p.approval.autorenewEvent = true →
        p.deadline ≤ c.common.eventTime ∨
          basis < c.common.eventTime ∧
          d.expirationTime.anniversary? n = some c.common.eventTime := by
  obtain ⟨w⟩ := exists_handover hdue h
  have hfilter := w.filter_isBilledTo_before hother
  refine ⟨w.basis, w.before.length, w.basis_eq, ?_, ?_, ?_, ?_⟩
  · intro k e he
    rw [(isRenewalCount_of_renewals w.renewals_before).lt_iff hrunning he, not_endsBy]
  · rw [hfilter, List.map_map]
    exact eventTimes_of_renewals w.renewals_before
  · intro c hc hbilled
    have hbefore : c ∈ w.before.map (·.charge) := by
      rw [← hfilter, List.mem_filter]
      exact ⟨hc, hbilled⟩
    obtain ⟨r, hr, rfl⟩ := List.mem_map.1 hbefore
    obtain ⟨_, e, -, -, hruns, hir⟩ := renewal_of_mem w.renewals_before hr
    rw [hir.isCharge.eventTime]
    exact Int.lt_of_le_of_lt (not_endsBy.1 hruns).1 (PendingTransfer.basis_lt w.basis_eq).1
  · intro c hc hbilled
    obtain ⟨r, hr, rfl⟩ := w.exists_after_of_isBilledTo hother hc hbilled
    obtain ⟨_, e, he, -, hruns, hir⟩ := renewal_of_mem w.renewals_after hr
    rw [w.autorenewEndTime_eq] at hruns
    rw [hir.isCharge.eventTime]
    exact w.deadline_le_of_after hrunning hunfixed he hruns

/-- The old sponsor of the sample domain is charged for the leap day, which comes before the
deadline. -/
theorem autorenewals_part_at_deadline_sample : ∃ (o : Outcome) (s' : UInt64),
    Sample.domain.dueTransfer? Sample.settled = some Sample.transfer ∧
      Sample.domain.isAutorenewSuppressed = false ∧ Sample.transfer.request.fixedExpiration = none ∧
      Sample.transfer.approval.autorenewEvent ≠ Sample.domain.autorenewEvent ∧
      (Sample.registry.project Sample.domain Sample.settled).Gives 0 o s' ∧
      ∃ basis n, Sample.transfer.basis = .ok basis ∧ 0 < n ∧
        (o.newCharges.filter (·.isBilledTo Sample.domain.sponsor Sample.domain.autorenewEvent)).map
          (fun c => some c.common.eventTime) =
            (List.range n).map Sample.domain.expirationTime.anniversary? := by
  have hdue : Sample.domain.dueTransfer? Sample.settled = some Sample.transfer := by decide
  have hrunning : Sample.domain.isAutorenewSuppressed = false := by decide
  have hunfixed : Sample.transfer.request.fixedExpiration = none := rfl
  have hother : Sample.transfer.approval.autorenewEvent ≠ Sample.domain.autorenewEvent := by decide
  obtain ⟨o, s', h⟩ := Projecting.exists_gives
    (x := Sample.registry.project Sample.domain Sample.settled) (s := 0) (by decide +kernel)
  obtain ⟨basis, n, hbasis, hcount, htimes, -⟩ :=
    autorenewals_part_at_deadline hdue hrunning hunfixed hother h
  have hbefore : ∀ basis ∈ Sample.transfer.deadline.shift? (.millisBack 1),
      Sample.domain.expirationTime ≤ basis := by decide +kernel
  have hfirst : 0 < n := by
    apply (hcount 0 Sample.domain.expirationTime rfl).2
    exact ⟨hbefore basis (Instant.shift_eq_ok.1 hbasis),
      fun _ hstop => absurd hstop (Option.not_mem_none _)⟩
  exact ⟨o, s', hdue, hrunning, hunfixed, hother, h, basis, n, hbasis, hfirst, htimes⟩

namespace Sample

/-- The transfer of the sample domain, for no time and so without a charge. -/
def freeTransfer : PendingTransfer where
  request := { transfer.request with period := ⟨0, .years⟩ }
  approval := .of none ⟨.ofNat (UInt64.size + 3)⟩ ⟨.ofNat (UInt64.size + 4)⟩ .empty
  gaining_ne := by decide
  losing_ne := by decide
  registrars_ne := by decide
  requested_le := by decide
  charge_iff := by decide

/-- The sample domain, running out half a millisecond before the deadline of its transfer. -/
def lastMoment : Domain :=
  { domain with
    expirationTime := ⟨12488 * 172800000000000 - 1000500000, by decide, by decide, by decide⟩
    transfer := .pending freeTransfer
    created_le := by decide }

end Sample

/-- A transfer for no time leaves an expiration in the last millisecond before its deadline to the
gaining registrar: the old sponsor is not charged for it, though it comes before the deadline. -/
theorem last_moment_charged_to_gaining : ∃ (o : Outcome) (s' : UInt64),
    Sample.lastMoment.dueTransfer? Sample.settled = some Sample.freeTransfer ∧
      Sample.lastMoment.isAutorenewSuppressed = false ∧
      Sample.freeTransfer.request.fixedExpiration = none ∧
      Sample.freeTransfer.request.losingRegistrarId = Sample.lastMoment.sponsor ∧
      Sample.freeTransfer.approval.autorenewEvent ≠ Sample.lastMoment.autorenewEvent ∧
      (Sample.registry.project Sample.lastMoment Sample.settled).Gives 0 o s' ∧
      Sample.lastMoment.expirationTime < Sample.freeTransfer.deadline ∧
      Sample.lastMoment.autorenewEndTime = none ∧
      o.newCharges.filter
        (·.isBilledTo Sample.lastMoment.sponsor Sample.lastMoment.autorenewEvent) = [] ∧
      ∃ c ∈ o.newCharges, c.isBilledTo Sample.freeTransfer.request.gainingRegistrarId
          Sample.freeTransfer.approval.autorenewEvent = true ∧
        c.common.eventTime < Sample.freeTransfer.deadline := by
  obtain ⟨o, ho, hcharges⟩ :
      ∃ o ∈ ((Sample.registry.project Sample.lastMoment Sample.settled).run.run 0).1.toOption,
        o.newCharges.filter
          (·.isBilledTo Sample.lastMoment.sponsor Sample.lastMoment.autorenewEvent) = [] ∧
        ∃ c ∈ o.newCharges, c.isBilledTo Sample.freeTransfer.request.gainingRegistrarId
            Sample.freeTransfer.approval.autorenewEvent = true ∧
          c.common.eventTime < Sample.freeTransfer.deadline := by decide +kernel
  obtain ⟨s', h⟩ := Projecting.gives_of_toOption ho
  exact ⟨o, s', by decide, by decide, rfl, rfl, by decide, h, by decide, rfl, hcharges⟩

end NameRegistry.Registration
