import NameRegistry.Proofs.Projection.Autorenewal

/-! # What a projection fails on

A projection is to fail on bad input only: a domain of another registry, a schedule that knows no
price, a date that the calendar does not have. It puts records together on its way, and all but two
of their rules are kept by whatever domain it starts from, as long as prices are not negative and
identifiers are fresh.

The two are not checked when a domain is accepted. A pending transfer can set an expiration before
the domain was created: as its request fixes it, or where the limit on registrations, which counts
from the deadline on, ends that early. And the grace period that a transfer takes back can lack a
registrar, which a cancellation has to name.
-/
namespace NameRegistry.Registration

open Billing (Cancellation GracePeriod HistoryContext HistoryRef OneTime)

theorem Instant.shift_eq_error {t : Instant} {shift : TimeShift} {err : TemporalError} :
    t.shift shift = .error err ↔ t.shift? shift = none ∧ err = .outOfRange t shift := by
  rw [Instant.shift]
  split
  · next u h => simp [h]
  · next h => simp [h, eq_comm]

variable {σ : Type} {engine : Engine σ} {observed t : Instant} {e : ProjectionError}

/-- What a projection of the domain may fail on: its top-level domain is another, the schedule has
no answer, or a date is outside the calendar. -/
inductive Engine.BadInput (engine : Engine σ) (d : Domain) : ProjectionError → Prop
  | otherTld : d.tld ≠ engine.config.tld → BadInput engine d (.tldMismatch d.name engine.config.tld)
  | noPrice {time : Instant} {cause : LookupError} :
      engine.prices engine.config.tld time = .error cause → BadInput engine d (.pricing cause)
  | outOfRange {start : Instant} {shift : TimeShift} : start.shift? shift = none →
      BadInput engine d (.temporal (.outOfRange start shift))

theorem Engine.BadInput.of_shift {d : Domain} {start : Instant} {shift : TimeShift}
    {err : TemporalError} (h : start.shift shift = .error err) :
    engine.BadInput d (.temporal err) := by
  obtain ⟨hnone, rfl⟩ := Instant.shift_eq_error.1 h
  exact .outOfRange hnone

/-- No price of the engine's schedule is negative. -/
def Engine.ChargesNothingBack (engine : Engine σ) : Prop :=
  ∀ tld time, ∀ cost, engine.prices tld time = .ok cost → cost.isNegative = false

theorem ofParts_ne_error {id : GracePeriodId} {status : Billing.GraceStatus} {d : Domain}
    {time : Instant} {registrar : RegistrarId} {oneTime recurring : Option BillingEventId}
    {err : Billing.BillingError} (hone : ¬(oneTime.isSome ∧ recurring.isSome))
    (hrecurring : recurring.isSome ↔ status = .autoRenew) :
    GracePeriod.ofParts id status d.repoId time registrar oneTime recurring ≠ .error err := by
  have howner : ¬d.repoId.isEmpty := by
    rw [d.repoId_ne]
    exact Bool.false_ne_true
  rw [GracePeriod.ofParts, dif_neg hone, dif_pos hrecurring, dif_pos howner]
  exact fun h => by cases h

/-- A renewal fails on its dates or on its price: a charge that is not negative is in order. -/
theorem badInput_of_renew_fails {d d₀ : Domain} {time : Instant} {s : σ}
    (hprices : engine.ChargesNothingBack) (h : (engine.renew d observed time).Fails s e) :
    engine.BadInput d₀ e := by
  simp only [Engine.renew, Projecting.fails_bind, Projecting.fails_ofExcept,
    Projecting.gives_ofExcept, Projecting.not_fails_drawId, Projecting.not_fails_pure, false_or,
    or_false, and_false, exists_false] at h
  rcases h with ⟨err, herr, rfl⟩ | ⟨next, _, -, h⟩
  · exact .of_shift herr
  rcases h with ⟨cause, hcause, rfl⟩ | ⟨cost, _, ⟨hcost, rfl⟩, h⟩
  · exact .noPrice hcause
  obtain ⟨hid, _, -, gid, _, -, h⟩ := h
  rcases h with ⟨err, herr, rfl⟩ | ⟨graceEnd, _, -, h⟩
  · exact .of_shift herr
  rcases h with ⟨err, herr, -⟩ | ⟨g, _, -, cid, s₁, -, h⟩
  · exact absurd herr (ofParts_ne_error (by simp) (by simp))
  obtain ⟨err, herr, -⟩ := h
  have hbuilt := (@charge_build_eq_ok d cid time g.expirationTime observed ⟨d.repoId, hid⟩ cost _).2
    ⟨hprices _ _ _ hcost, rfl⟩
  cases herr.symm.trans hbuilt

theorem badInput_of_renewAll_fails {d d₀ : Domain} {times : List Instant} {s : σ}
    (hprices : engine.ChargesNothingBack) (h : (engine.renewAll d observed times).Fails s e) :
    engine.BadInput d₀ e := by
  induction times generalizing s with
  | nil => exact absurd h Projecting.not_fails_pure
  | cons time times ih =>
    simp only [Engine.renewAll, Projecting.fails_bind, Projecting.not_fails_pure,
      and_false, exists_false, or_false] at h
    rcases h with h | ⟨r, s₁, -, h⟩
    · exact badInput_of_renew_fails hprices h
    · exact ih h

/-- Renewals that were all made are put together into the domain that they lead to. -/
theorem exists_renewals {d : Domain} {time : Instant} {rs : List Renewal}
    {used : List AnyId} {s s' : σ} (hsup : d.isAutorenewSuppressed = false)
    (hs : engine.Supplied d used s)
    (h : (engine.renewAll d observed
      (elapsed d.expirationTime time d.autorenewEndTime)).Gives s rs s') :
    ∃ d', engine.Renewals observed time d s rs d' s' := by
  generalize hexp : d.expirationTime = expiration at h
  generalize hend : d.autorenewEndTime = stop at h
  induction expiration using elapsed.induct time stop generalizing d used rs s with
  | case1 expiration hcond next hyear ih =>
    rw [elapsed_cons hcond hyear, renewAll_cons_gives] at h
    obtain ⟨r, s₁, rs, hr, hrs, rfl⟩ := h
    rw [← hexp] at hr hyear
    obtain ⟨d₁, hd₁⟩ := hs.exists_renewedBy hr
    have hsame := Domain.sameRegistration_of_renewedBy hd₁
    have hnext : d₁.expirationTime = next :=
      (Domain.expirationTime_of_renewedBy hd₁).trans
        (Except.ok.inj ((renew_gives.1 hr).1.year.symm.trans hyear))
    rw [← hsame.renewAll] at hrs
    obtain ⟨d', hrs⟩ := ih (hsame.suppressed.trans hsup) (hs.renewed hr hd₁) hnext
      (hsame.autorenewEndTime.trans hend) hrs
    rw [← hexp, ← hend] at hcond
    exact ⟨d', .next ⟨hsup, hcond.1, hcond.2⟩ hr hd₁ hrs⟩
  | case2 expiration hcond err hyear =>
    rw [elapsed_last hcond hyear, renewAll_cons_gives] at h
    obtain ⟨r, _, _, hr, -⟩ := h
    cases (renew_gives.1 hr).1.year.symm.trans hyear
  | case3 expiration hcond =>
    rw [elapsed_nil hcond] at h
    obtain ⟨rfl, rfl⟩ := Projecting.gives_pure.1 h
    refine ⟨d, .stop fun hrenews => hcond ?_⟩
    rw [← hexp, ← hend]
    exact ⟨hrenews.elapsed, hrenews.running⟩

/-- Bringing the renewals of a domain up to a time fails as one of them does. -/
theorem badInput_of_autorenew_fails {d d₀ : Domain} {time : Instant} {used : List AnyId} {s : σ}
    (hprices : engine.ChargesNothingBack) (hs : engine.Supplied d used s)
    (h : (engine.autorenew d.isAutorenewSuppressed d observed time).Fails s e) :
    engine.BadInput d₀ e := by
  rw [Engine.autorenew] at h
  cases hsup : d.isAutorenewSuppressed with
  | true =>
    rw [hsup] at h
    exact absurd h Projecting.not_fails_pure
  | false =>
    simp only [hsup, Bool.false_eq_true, if_false, Projecting.fails_bind, Projecting.fails_ofExcept,
      Projecting.not_fails_pure, and_false, exists_false, or_false] at h
    rcases h with h | ⟨rs, s₁, hrs, err, herr, -⟩
    · exact badInput_of_renewAll_fails hprices h
    · obtain ⟨d', hd'⟩ := exists_renewals hsup hs hrs
      cases herr.symm.trans ((renewAll_elapsed_gives hsup).2 hd').2

/-- The transfer sets an expiration before the domain was created: the one that its request fixes,
or else the limit on registrations, which counts from the deadline on. -/
def Domain.BackdatedBy (d : Domain) (p : PendingTransfer) (maxYears : UInt32) : Prop :=
  match p.request.fixedExpiration with
  | some fixed => fixed < d.creationTime
  | none => ∃ limit, p.deadline.addYears maxYears = .ok limit ∧ limit < d.creationTime

theorem badInput_of_transferredExpiration {d d₀ : Domain} {p : PendingTransfer} {maxYears : UInt32}
    {err : TemporalError} (h : d.transferredExpiration p maxYears = .error err) :
    engine.BadInput d₀ (.temporal err) := by
  rw [Domain.transferredExpiration] at h
  split at h
  · cases h
  · simp only [bind_eq_error] at h
    rcases h with h | ⟨extended, -, h | ⟨limit, -, h⟩⟩
    · exact .of_shift h
    · exact .of_shift h
    · cases h

theorem Domain.transferredExpiration_lt_iff {d : Domain} {p : PendingTransfer} {maxYears : UInt32}
    {expiration : Instant} (h : d.transferredExpiration p maxYears = .ok expiration) :
    expiration < d.creationTime ↔ d.BackdatedBy p maxYears := by
  rw [transferredExpiration] at h
  rw [BackdatedBy]
  cases hfixed : p.request.fixedExpiration with
  | some fixed =>
    rw [hfixed] at h
    cases h
    exact Iff.rfl
  | none =>
    rw [hfixed] at h
    simp only [bind_eq_ok] at h
    obtain ⟨extended, hextended, limit, hlimit, h⟩ := h
    cases h
    have hcreated : d.creationTime ≤ extended :=
      Int.le_trans d.created_le (Instant.le_of_addMonths? (Instant.shift_eq_ok.1 hextended))
    constructor
    · intro hlt
      refine ⟨limit, hlimit, ?_⟩
      split at hlt
      · exact absurd hlt (Int.not_lt.2 hcreated)
      · exact hlt
    · rintro ⟨limit', hlimit', hlt⟩
      cases hlimit.symm.trans hlimit'
      split
      · next hle => exact absurd (Int.le_trans hcreated hle) (Int.not_le.2 hlt)
      · exact hlt

theorem Domain.exists_transferred {d : Domain} {p : PendingTransfer} {expiration : Instant}
    {grace : Option GracePeriod} (hcreated : d.creationTime ≤ expiration)
    (howned : ∀ g ∈ grace, g.domainRepoId = d.repoId) :
    ∃ d', d.transferred p expiration grace = .ok d' := by
  refine ⟨{ d with
    expirationTime := expiration
    autorenewEvent := p.approval.autorenewEvent
    autorenewPollMessage := some p.approval.autorenewPollMessage
    gracePeriods := grace.toList
    sponsor := p.request.gainingRegistrarId
    transfer := p.resolve .serverApproved p.deadline
    statuses := StatusSet.withImplicit (d.statuses.erase .pendingTransfer) (!d.nameservers.isEmpty)
    lastUpdateTime := some p.deadline
    lastUpdateRegistrar := some p.request.gainingRegistrarId
    lastTransferTime := some p.deadline
    sponsor_ne := p.gaining_ne
    created_le := hcreated
    grace_owned := fun g hg => howned g (Option.mem_toList.1 hg)
    grace_sorted := ?_
    grace_distinct := ?_
    statuses_implicit := StatusSet.withImplicit_withImplicit .. }, transferred_eq_ok.2 rfl⟩
  · cases grace <;> simp
  · cases grace <;> simp

/-- The new record breaks one rule at most: that no registration ends before the domain was
created. -/
theorem Domain.transferred_eq_error {d : Domain} {p : PendingTransfer} {expiration : Instant}
    {grace : Option GracePeriod} {err : RegistrationError}
    (howned : ∀ g ∈ grace, g.domainRepoId = d.repoId)
    (h : d.transferred p expiration grace = .error err) :
    expiration < d.creationTime ∧ err = .invariantViolation .expiresAfterCreation := by
  by_cases hcreated : d.creationTime ≤ expiration
  · obtain ⟨d', hd'⟩ := exists_transferred (p := p) hcreated howned
    cases h.symm.trans hd'
  · have herr : d.transferred p expiration grace =
        .error (.invariantViolation .expiresAfterCreation) := by
      refine (bind_of_ok (ensure_of d.repoId_ne _) _).trans ?_
      refine (bind_of_ok (ensure_of p.gaining_ne _) _).trans ?_
      refine (bind_of_ok (ensure_of d.under_tld _) _).trans ?_
      refine (bind_of_ok (ensure_of d.label_ne _) _).trans ?_
      exact bind_of_error (ensure_of_not hcreated _) _
    cases h.symm.trans herr
    exact ⟨Int.not_le.1 hcreated, rfl⟩

/-- The cancellation of an autorenewal is in order but for the registrar that it may lack. -/
theorem cancellation_eq_error {d : Domain} {g : GracePeriod} {id : BillingEventId}
    {context : HistoryContext} {err : Billing.BillingError} (hstatus : g.status = .autoRenew)
    (h : g.cancellation id context d.name = .error err) :
    g.registrarId.isEmpty = true ∧ err = .missingField "registrar_id" := by
  obtain ⟨event, hevent⟩ := Option.isSome_iff_exists.1 (g.recurring_iff.2 hstatus)
  have hone : g.oneTimeEvent = none := by
    have := g.one_event
    rw [hevent] at this
    simpa using this
  cases hregistrar : g.registrarId.isEmpty with
  | true =>
    refine ⟨rfl, ?_⟩
    simp [GracePeriod.cancellation, GracePeriod.hasBillingEvent, hevent, hstatus,
      Billing.GraceStatus.reason?, Cancellation.ofParts, Billing.EventCommon.check, Billing.require,
      Billing.requireField, isEmpty_name, hregistrar, bind, Except.bind, pure, Except.pure] at h
    exact h.symm
  | false =>
    simp [GracePeriod.cancellation, GracePeriod.hasBillingEvent, hevent, hone, hstatus,
      Billing.GraceStatus.reason?, Cancellation.ofParts, Billing.EventCommon.check, Billing.require,
      Billing.requireField, isEmpty_name, hregistrar, bind, Except.bind, pure, Except.pure] at h

/-- To take an autorenewal back fails where its grace period names no registrar. -/
theorem absorbRenewal_fails {d : Domain} {p : PendingTransfer} {basis : Instant}
    {history : HistoryRef} {s : σ} (h : (engine.absorbRenewal d p basis history).Fails s e) :
    ∃ g ∈ d.absorbedGrace? p basis,
      g.registrarId.isEmpty = true ∧ e = .billing (.missingField "registrar_id") := by
  rw [Engine.absorbRenewal] at h
  rw [Domain.absorbedGrace?]
  cases habs : d.absorbs p with
  | false => simp [habs] at h
  | true =>
    rw [if_pos rfl]
    cases hg : d.latestAutorenewGrace? basis with
    | none => simp [habs, hg] at h
    | some g =>
      simp only [habs, hg, Bool.not_true, Bool.false_eq_true, if_false, Projecting.fails_bind,
        Projecting.fails_ofExcept, Projecting.not_fails_drawId, Projecting.not_fails_pure,
        false_or, and_false, exists_false, or_false] at h
      obtain ⟨id, s₁, -, err, herr, rfl⟩ := h
      obtain ⟨hregistrar, rfl⟩ := cancellation_eq_error (mem_of_latestAutorenewGrace? hg).2.1 herr
      exact ⟨g, rfl, hregistrar, rfl⟩

theorem badInput_of_transferGrace_fails {d d₀ : Domain} {p : PendingTransfer} {s : σ}
    (h : (engine.transferGrace d p).Fails s e) : engine.BadInput d₀ e := by
  rw [Engine.transferGrace] at h
  cases hcharge : p.approval.billingEvent with
  | none => simp [hcharge] at h
  | some charge =>
    simp only [hcharge, Projecting.fails_bind, Projecting.fails_ofExcept, Projecting.gives_ofExcept,
      Projecting.not_fails_drawId, Projecting.not_fails_pure, false_or, and_false, exists_false,
      or_false] at h
    obtain ⟨id, s₁, -, ⟨err, herr, rfl⟩ | ⟨graceEnd, _, -, err, herr, -⟩⟩ := h
    · exact .of_shift herr
    · exact absurd herr (ofParts_ne_error (by simp) (by simp))

/-- An approval fails on its dates, or breaks one of the two rules that accepted domains need not
keep. -/
theorem approve_fails {d d₀ : Domain} {p : PendingTransfer} {basis : Instant} {s : σ}
    (h : (engine.approve d p basis).Fails s e) : engine.BadInput d₀ e ∨
      (d.BackdatedBy p engine.config.maxRegistrationYears ∧
        e = .registration (.invariantViolation .expiresAfterCreation)) ∨
      ∃ g ∈ d.absorbedGrace? p basis, g.registrarId.isEmpty = true ∧
        e = .billing (.missingField "registrar_id") := by
  simp only [Engine.approve, Projecting.fails_bind, Projecting.fails_ofExcept,
    Projecting.gives_ofExcept, Projecting.not_fails_drawId, Projecting.not_fails_pure, false_or,
    and_false, exists_false, or_false] at h
  rcases h with ⟨err, herr, rfl⟩ | ⟨expiration, _, ⟨hexpiration, rfl⟩, hid, s₁, -, h⟩
  · exact .inl (badInput_of_transferredExpiration herr)
  rcases h with h | ⟨c, s₂, -, h⟩
  · exact .inr (.inr (absorbRenewal_fails h))
  rcases h with h | ⟨grace, s₃, hgrace, err, herr, rfl⟩
  · exact .inl (badInput_of_transferGrace_fails h)
  obtain ⟨huncharged, hcharged, -⟩ := transferGrace_gives hgrace
  have howned : ∀ g ∈ grace, g.domainRepoId = d.repoId := by
    intro g hg
    cases hcharge : p.approval.billingEvent with
    | none =>
      rw [huncharged hcharge] at hg
      cases hg
    | some charge =>
      obtain ⟨g', rfl, -, hcreate⟩ := hcharged charge hcharge
      cases hg
      exact (GracePeriod.ofParts_eq_ok.1 hcreate).2.2.1
  obtain ⟨hlt, rfl⟩ := Domain.transferred_eq_error howned herr
  exact .inr (.inl ⟨(Domain.transferredExpiration_lt_iff hexpiration).1 hlt, rfl⟩)

theorem supplied_of_renewals {d d' : Domain} {time : Instant} {rs : List Renewal}
    {used : List AnyId} {s s' : σ} (h : engine.Renewals observed time d s rs d' s')
    (hs : engine.Supplied d used s) : ∃ used', engine.Supplied d' used' s' := by
  induction h generalizing used with
  | stop _ => exact ⟨used, hs⟩
  | next _ hr hd₁ _ ih => exact ih (hs.renewed hr hd₁)

/-- An autorenew grace period of the record, in effect just before the deadline of a transfer that
is not for nothing, names no registrar. -/
def Domain.LacksGraceRegistrar (d : Domain) (p : PendingTransfer) : Prop :=
  p.request.period.isZero = false ∧ ∃ basis, p.basis = .ok basis ∧ ∃ g ∈ d.gracePeriods,
    g.status = .autoRenew ∧ g.activeAt basis = true ∧ g.registrarId.isEmpty = true

/-- Renewals name the sponsor, so a grace period without a registrar was in the record before
them. -/
theorem lacksGraceRegistrar_of_renewals {d d₁ : Domain} {p : PendingTransfer} {basis : Instant}
    {rs : List Renewal} {s s₁ : σ} (hrs : engine.Renewals observed basis d s rs d₁ s₁)
    (hbasis : p.basis = .ok basis) {g : GracePeriod} (hg : d₁.absorbedGrace? p basis = some g)
    (hregistrar : g.registrarId.isEmpty = true) : d.LacksGraceRegistrar p := by
  rw [Domain.absorbedGrace?] at hg
  split at hg
  · next habs =>
    obtain ⟨hmem, hstatus, hactive⟩ := mem_of_latestAutorenewGrace? hg
    have hperiod : p.request.period.isZero = false := by
      simp only [Domain.absorbs, hbasis, Bool.and_eq_true, Bool.not_eq_true'] at habs
      exact habs.1
    rcases (mem_gracePeriods_of_renewals hrs).1 hmem with hmem | ⟨r, hr, rfl⟩
    · exact ⟨hperiod, basis, hbasis, g, hmem, hstatus, hactive, hregistrar⟩
    · obtain ⟨_, hir⟩ := isRenewal_of_mem hrs hr
      rw [hir.grace_registrar, d.sponsor_ne] at hregistrar
      cases hregistrar
  · cases hg

/-- A rule that an accepted domain need not keep, and that its due transfer breaks. -/
inductive Domain.BreaksRule (d : Domain) (p : PendingTransfer) (maxYears : UInt32) :
    ProjectionError → Prop
  | created : d.BackdatedBy p maxYears →
      BreaksRule d p maxYears (.registration (.invariantViolation .expiresAfterCreation))
  | registrar : d.LacksGraceRegistrar p →
      BreaksRule d p maxYears (.billing (.missingField "registrar_id"))

theorem settle_fails {d : Domain} {used : List AnyId} {s : σ} (hprices : engine.ChargesNothingBack)
    (hs : engine.Supplied d used s) (h : (engine.settle d.isAutorenewSuppressed d t).Fails s e) :
    engine.BadInput d e ∨ ∃ p ∈ d.dueTransfer? t,
      d.BreaksRule p engine.config.maxRegistrationYears e := by
  rw [Engine.settle] at h
  cases hdue : d.dueTransfer? t with
  | none => simp [hdue] at h
  | some p =>
    simp only [hdue, Projecting.fails_bind, Projecting.fails_ofExcept, Projecting.gives_ofExcept,
      Projecting.not_fails_pure, and_false, exists_false, or_false] at h
    rcases h with ⟨err, herr, rfl⟩ | ⟨basis, _, ⟨hbasis, rfl⟩, h⟩
    · exact .inl (.of_shift herr)
    rcases h with h | ⟨⟨d₁, rs⟩, s₁, hrs, h⟩
    · exact .inl (badInput_of_autorenew_fails hprices hs h)
    have hrs := autorenew_gives.1 hrs
    have hsame := (renewals_end hrs).2
    rcases approve_fails h with h | ⟨hback, rfl⟩ | ⟨g, hg, hregistrar, rfl⟩
    · exact .inl h
    · rw [Domain.BackdatedBy, hsame.creationTime] at hback
      exact .inr ⟨p, rfl, .created hback⟩
    · exact .inr ⟨p, rfl, .registrar (lacksGraceRegistrar_of_renewals hrs hbasis hg hregistrar)⟩

theorem supplied_of_settle {d settled : Domain} {front : List Step} {used : List AnyId} {s s₁ : σ}
    (hs : engine.Supplied d used s)
    (h : (engine.settle d.isAutorenewSuppressed d t).Gives s (settled, front) s₁) :
    settled.isAutorenewSuppressed = d.isAutorenewSuppressed ∧
    ∃ used', engine.Supplied settled used' s₁ := by
  rw [Engine.settle] at h
  cases hdue : d.dueTransfer? t with
  | none =>
    simp only [hdue, Projecting.gives_pure, Prod.mk.injEq] at h
    obtain ⟨⟨rfl, -⟩, rfl⟩ := h
    exact ⟨rfl, used, hs⟩
  | some p =>
    simp only [hdue, Projecting.gives_bind, Projecting.gives_ofExcept, Projecting.gives_pure,
      Prod.mk.injEq] at h
    obtain ⟨basis, _, ⟨hbasis, rfl⟩, ⟨d₁, rs⟩, s₂, hrs, ⟨d₂, a⟩, s₃, ha, ⟨rfl, -⟩, rfl⟩ := h
    have hrs := autorenew_gives.1 hrs
    obtain ⟨hstop, hsame⟩ := renewals_end hrs
    obtain ⟨used₁, hs₁⟩ := supplied_of_renewals hrs hs
    have hmove : engine.Moves t t d₁ s₂ (.approval a) d₂ s₃ :=
      .approval ((hsame.dueTransfer? t).trans hdue) hbasis hstop ha
    have hover := Domain.handedOver_of_transferred (isApproval_of_gives ha).2.1
    exact ⟨hover.suppressed.trans hsame.suppressed, _, (hmove.supplied hs₁).2.2⟩

/-- A registration that its transfer would end before the domain was created is not projected past
it. -/
theorem not_backdatedBy_of_project {d : Domain} {p : PendingTransfer} {o : Outcome} {s s' : σ}
    (hdue : d.dueTransfer? t = some p) (h : (engine.project d t).Gives s o s') :
    ¬d.BackdatedBy p engine.config.maxRegistrationYears := by
  intro hback
  obtain ⟨-, d', steps, hcourse, -⟩ := project_gives.1 h
  obtain ⟨basis, rs, d₁, s₁, d₂, a, s₂, rs', hbasis, hrs, ha, -⟩ := (course_of_some hdue).1 hcourse
  obtain ⟨hia, htransferred, -⟩ := isApproval_of_gives ha
  have hsame := (renewals_end hrs).2
  rw [Domain.BackdatedBy, ← hsame.creationTime] at hback
  have hlt := (Domain.transferredExpiration_lt_iff hia.expiration).2 hback
  have hcreation : d₂.creationTime = d₁.creationTime :=
    Option.some.inj (congrArg Domain.Draft.creationTime (Domain.transferred_eq_ok.1 htransferred))
  have hcreated := d₂.created_le
  rw [hcreation, (Domain.handedOver_of_transferred htransferred).expirationTime] at hcreated
  exact Int.not_lt.2 hcreated hlt

/-- With prices that are not negative and fresh identifiers, a projection fails on bad input only,
but for two rules that an accepted domain need not keep and its due transfer can break. Where the
transfer ends the registration before the domain was created, no projection past the deadline
succeeds. -/
theorem project_fails_only {d : Domain} {s : σ} (hprices : engine.ChargesNothingBack)
    (hfresh : engine.ids.FreshFor drawLimit (d.gracePeriods.map (·.id.any)) s) :
    (∀ e, (engine.project d t).Fails s e → engine.BadInput d e ∨
      ∃ p ∈ d.dueTransfer? t, d.BreaksRule p engine.config.maxRegistrationYears e) ∧
    ∀ p ∈ d.dueTransfer? t, d.BackdatedBy p engine.config.maxRegistrationYears →
      ∃ e, (engine.project d t).Fails s e := by
  have hs := Engine.supplied_of_freshFor hfresh fun g hg => List.mem_map_of_mem hg
  constructor
  · intro e h
    by_cases htld : d.tld = engine.config.tld
    case neg =>
      simp only [Engine.project, ne_eq, htld, not_false_eq_true, if_true,
        Projecting.fails_bind] at h
      rcases h with h | ⟨u, s₁, hthrow, -⟩
      · cases Projecting.fails_throw.1 h
        exact .inl (.otherTld htld)
      · exact absurd hthrow Projecting.gives_throw
    simp only [Engine.project, htld, ne_eq, not_true_eq_false, if_false, Projecting.fails_bind,
      Projecting.fails_ofExcept, Outcome.of_eq_ok] at h
    rcases h with h | ⟨⟨settled, front⟩, s₁, hsettle, h | ⟨last, s₂, -, err, herr, -⟩⟩
    · exact settle_fails hprices hs h
    · obtain ⟨hsame, used, hs₁⟩ := supplied_of_settle hs hsettle
      rw [← hsame] at h
      exact .inl (badInput_of_autorenew_fails hprices hs₁ h)
    · cases herr
  · intro p hdue hback
    exact Projecting.exists_fails fun o s' h => not_backdatedBy_of_project hdue h hback

namespace Sample

/-- The request fixes an expiration in the year before the domain was created. -/
def backdatedTransfer : PendingTransfer :=
  { transfer with
    request := { transfer.request with
      fixedExpiration := some ⟨12000 * 172800000000000, by decide, by decide, by decide⟩ } }

def backdated : Domain := { domain with transfer := .pending backdatedTransfer }

/-- In the autorenew grace period of a registrar whose name was not kept. -/
def nameless : Domain :=
  { domain with
    expirationTime := renewedAgain
    gracePeriods := [{
      id := ⟨.ofNat (UInt64.size + 6)⟩
      status := .autoRenew
      domainRepoId := ⟨"1-TEST"⟩
      expirationTime := ⟨12888 * 172800000000000, by decide, by decide, by decide⟩
      registrarId := ⟨""⟩
      oneTimeEvent := none
      recurringEvent := some ⟨.ofNat (UInt64.size + 1)⟩
      one_event := by decide
      recurring_iff := by decide
      repoId_ne := by decide }]
    created_le := by decide
    grace_owned := List.forall_mem_singleton.2 rfl
    grace_sorted := List.pairwise_singleton _ _
    grace_distinct := List.pairwise_singleton _ _ }

end Sample

theorem Sample.chargesNothingBack : registry.ChargesNothingBack := by
  rintro tld time cost h
  cases h
  decide

/-- Both rules can be broken: two accepted domains on which a projection past the deadline fails
with prices that are not negative and fresh identifiers, and not on bad input. -/
theorem accepted_domains_refused : Sample.registry.ChargesNothingBack ∧
    Sample.registry.ids.FreshFor drawLimit (Sample.backdated.gracePeriods.map (·.id.any)) 0 ∧
    Sample.registry.ids.FreshFor drawLimit (Sample.nameless.gracePeriods.map (·.id.any)) 0 ∧
    (∃ e, (Sample.registry.project Sample.backdated Sample.settled).Fails 0 e ∧
      ¬Sample.registry.BadInput Sample.backdated e) ∧
    ∃ e, (Sample.registry.project Sample.nameless Sample.settled).Fails 0 e ∧
      ¬Sample.registry.BadInput Sample.nameless e := by
  refine ⟨Sample.chargesNothingBack, IdSource.sequential_freshFor (by decide) (by decide),
    IdSource.sequential_freshFor (by decide) (by decide), ?_, ?_⟩
  · exact ⟨.registration (.invariantViolation .expiresAfterCreation), by decide +kernel, nofun⟩
  · exact ⟨.billing (.missingField "registrar_id"), by decide +kernel, nofun⟩

theorem project_fails_only_sample : ∃ e, Sample.registry.ChargesNothingBack ∧
    Sample.registry.ids.FreshFor drawLimit (Sample.backdated.gracePeriods.map (·.id.any)) 0 ∧
    (Sample.registry.project Sample.backdated Sample.settled).Fails 0 e ∧
    (Sample.registry.BadInput Sample.backdated e ∨
      ∃ p ∈ Sample.backdated.dueTransfer? Sample.settled,
        Sample.backdated.BreaksRule p Sample.registry.config.maxRegistrationYears e) := by
  have hfresh : Sample.registry.ids.FreshFor drawLimit
      (Sample.backdated.gracePeriods.map (·.id.any)) 0 :=
    IdSource.sequential_freshFor (by decide) (by decide)
  obtain ⟨hfails, hback⟩ :=
    project_fails_only (t := Sample.settled) Sample.chargesNothingBack hfresh
  obtain ⟨e, he⟩ := hback Sample.backdatedTransfer (by decide) (by show _ < _; decide)
  exact ⟨e, Sample.chargesNothingBack, hfresh, he, hfails e he⟩

end NameRegistry.Registration
