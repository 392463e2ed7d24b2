import NameRegistry.Proofs.Calendar
import NameRegistry.Proofs.Identifier
import NameRegistry.Proofs.Projection.Drawing

/-! # One renewal after another

A renewal is settled by the domain, the time and the identifiers it draws. The renewals that bring a
domain up to a time are then a chain, each made on the domain as the one before has left it, which
goes on for as long as the domain renews. The main statement: the loop, which works its list of
times off before it rebuilds the domain once, makes these chains and no others.
-/
namespace NameRegistry.Registration

open Billing (EventCommon GracePeriod OneTime)

theorem isEmpty_name (d : Domain) : d.name.isEmpty = false := by
  obtain ⟨start, h⟩ := d.under_tld
  cases hn : d.name.isEmpty with
  | false => rfl
  | true =>
    rw [String.isEmpty_iff.1 hn] at h
    simp at h

namespace Renewal

/-- The records that a renewal draws identifiers for. -/
def kinds (_ : Renewal) : List IdKind := [.historyEntry, .gracePeriod, .billingEvent]

def drawn (r : Renewal) : List AnyId :=
  [r.history.historyId.any, r.gracePeriod.id.any, r.charge.id.any]

end Renewal

variable {σ : Type} {engine : Engine σ}

/-- A renewal of the domain at a time, as observed later: all that does not come from the source. -/
structure Engine.IsRenewal (engine : Engine σ) (d : Domain) (observed time : Instant)
    (r : Renewal) : Prop where
  time_eq : r.time = time
  year : time.addYears 1 = .ok r.expirationTime
  registrar : r.registrar = d.sponsor
  history : r.history.repoId = d.repoId
  grace_status : r.gracePeriod.status = .autoRenew
  grace_owner : r.gracePeriod.domainRepoId = d.repoId
  grace_end : r.expirationTime.shift (.seconds (engine.config.graceSeconds .autoRenew)) =
    .ok r.gracePeriod.expirationTime
  grace_registrar : r.gracePeriod.registrarId = d.sponsor
  grace_oneTime : r.gracePeriod.oneTimeEvent = none
  grace_recurring : r.gracePeriod.recurringEvent = some d.autorenewEvent
  price : engine.prices engine.config.tld time = .ok r.charge.cost
  price_nonneg : r.charge.cost.isNegative = false
  charge : r.charge = {
    common := ⟨r.charge.id, .renew, d.name, d.sponsor, time, r.history⟩
    flags := .ofList [.autoRenew, .synthetic]
    cost := r.charge.cost
    periodYears := some 1
    billingTime := r.gracePeriod.expirationTime
    synthetic := some ⟨observed, d.autorenewEvent⟩
    allocationToken := none }

theorem charge_build_eq_ok {d : Domain} {id : BillingEventId} {time billed observed : Instant}
    {history : Billing.HistoryRef} {cost : Money} {c : OneTime} :
    OneTime.Draft.build {
      common := ⟨id, .renew, d.name, d.sponsor, time, history⟩
      flags := .ofList [.autoRenew, .synthetic]
      cost := some cost
      periodYears := some 1
      billingTime := some billed
      syntheticCreationTime := some observed
      cancellationMatchingEvent := some d.autorenewEvent } = .ok c ↔
    cost.isNegative = false ∧ c = {
      common := ⟨id, .renew, d.name, d.sponsor, time, history⟩
      flags := .ofList [.autoRenew, .synthetic]
      cost := cost
      periodYears := some 1
      billingTime := billed
      synthetic := some ⟨observed, d.autorenewEvent⟩
      allocationToken := none } := by
  have hflag : Billing.Flag.synthetic ∈ EnumSet.ofList [Billing.Flag.autoRenew, .synthetic] := by
    simp
  have hcheck : EventCommon.check ⟨id, .renew, d.name, d.sponsor, time, history⟩ = .ok () := by
    simp [EventCommon.check, isEmpty_name, d.sponsor_ne, bind_eq_ok]
  have hyears : Billing.require ((some (1 : UInt32)).any (0 < ·)) (.periodYearsRequired .renew) =
      .ok () := by
    simp
  simp only [OneTime.Draft.build, OneTime.Draft.checkPeriodYears, OneTime.Draft.origin,
    hcheck, hflag, Billing.field, Billing.Reason.paysForYears, decide_true, bind, Except.bind,
    if_true, hyears]
  cases hcost : cost.isNegative
  · simp [Billing.require, pure, Except.pure, eq_comm]
  · simp [Billing.require]

/-- A renewal draws its three identifiers in order and is otherwise determined. -/
theorem renew_gives {d : Domain} {observed time : Instant} {r : Renewal} {s s' : σ} :
    (engine.renew d observed time).Gives s r s' ↔
      engine.IsRenewal d observed time r ∧ engine.ids.drawIds r.kinds s = (r.drawn, s') := by
  simp only [Engine.renew, Projecting.gives_bind, Projecting.gives_ofExcept,
    Projecting.gives_drawId, Projecting.gives_pure, GracePeriod.createForRecurring,
    GracePeriod.ofParts_eq_ok, charge_build_eq_ok]
  constructor
  · rintro ⟨next, _, ⟨hyear, rfl⟩, cost, _, ⟨hcost, rfl⟩, hid, s₁, h1, gid, s₂, h2, graceEnd, _,
      ⟨hend, rfl⟩, g, _, ⟨⟨rfl, hg⟩, rfl⟩, cid, s₃, h3, c, _, ⟨⟨hneg, rfl⟩, rfl⟩, rfl, rfl⟩
    obtain ⟨hg1, hg2, rfl, hg3, hg4, hg5⟩ := hg
    refine ⟨⟨rfl, hyear, rfl, rfl, hg1, hg2, hend, hg3, hg4, hg5, hcost, hneg, rfl⟩, ?_⟩
    simp [Renewal.kinds, Renewal.drawn, IdSource.drawIds, h1, h2, h3, OneTime.id]
  · rintro ⟨h, hdraw⟩
    simp only [Renewal.kinds, Renewal.drawn, IdSource.drawIds_cons, IdSource.drawIds, Prod.mk.injEq,
      List.cons.injEq, Id.mk_eq_any, and_true] at hdraw
    obtain ⟨⟨h1, h2, h3⟩, rfl⟩ := hdraw
    have hhistory : r.history = ⟨d.repoId, r.history.historyId⟩ := by rw [← h.history]
    refine ⟨r.expirationTime, s, ⟨h.year, rfl⟩, r.charge.cost, s, ⟨h.price, rfl⟩,
      r.history.historyId, _, Prod.ext h1 rfl, r.gracePeriod.id, _, Prod.ext h2 rfl,
      r.gracePeriod.expirationTime, _, ⟨h.grace_end, rfl⟩, r.gracePeriod, _,
      ⟨⟨rfl, h.grace_status, h.grace_owner, rfl, h.grace_registrar,
        h.grace_oneTime, h.grace_recurring⟩, rfl⟩, r.charge.id, _, Prod.ext h3 rfl, r.charge, _,
      ⟨⟨h.price_nonneg, hhistory ▸ h.charge⟩, rfl⟩, ?_, rfl⟩
    rw [← hhistory, ← h.registrar, ← h.time_eq]

namespace Domain

theorem renewedBy_eq_ok {d d' : Domain} {rs : List Renewal} {r : Renewal}
    (hlast : rs.getLast? = some r) :
    d.renewedBy rs = .ok d' ↔ d'.toDraft = { d.toDraft with
      expirationTime := some r.expirationTime
      lastUpdateTime := some r.time
      lastUpdateRegistrar := some d.sponsor
      gracePeriods := GraceOrder.sort (d.gracePeriods ++ rs.map (·.gracePeriod)) } := by
  simp only [renewedBy, hlast, Draft.build_eq_ok, Draft.normal, Draft.updatedBy, toDraft,
    d.statuses_implicit]

theorem renewedBy_one {d d' : Domain} {r : Renewal} : d.renewedBy [r] = .ok d' ↔
    d'.toDraft = { d.toDraft with
      expirationTime := some r.expirationTime
      lastUpdateTime := some r.time
      lastUpdateRegistrar := some d.sponsor
      gracePeriods := GraceOrder.sort (d.gracePeriods ++ [r.gracePeriod]) } :=
  renewedBy_eq_ok rfl

/-- A later expiration and a grace period of its own with a new identifier keep the domain's
rules. -/
theorem exists_renewedBy {d : Domain} {r : Renewal} (hcreated : d.creationTime ≤ r.expirationTime)
    (howned : r.gracePeriod.domainRepoId = d.repoId)
    (hnew : ∀ g ∈ d.gracePeriods, g.id ≠ r.gracePeriod.id) : ∃ d', d.renewedBy [r] = .ok d' := by
  have hdistinct : ((d.gracePeriods ++ [r.gracePeriod]).map (·.id)).Nodup := by
    rw [List.map_append, List.nodup_append]
    refine ⟨d.grace_distinct, by simp, ?_⟩
    simpa using hnew
  exact ⟨{ d with
    expirationTime := r.expirationTime
    lastUpdateTime := some r.time
    lastUpdateRegistrar := some d.sponsor
    gracePeriods := GraceOrder.sort (d.gracePeriods ++ [r.gracePeriod])
    created_le := hcreated
    grace_owned := by
      intro g hg
      rcases List.mem_append.1 (GraceOrder.mem_sort.1 hg) with hg | hg
      · exact d.grace_owned g hg
      · cases List.mem_singleton.1 hg
        exact howned
    grace_sorted := GraceOrder.sort_sorted hdistinct
    grace_distinct := GraceOrder.nodup_sort hdistinct }, renewedBy_one.2 rfl⟩

/-- What a renewal leaves as it was. -/
structure SameRegistration (d d' : Domain) : Prop where
  repoId : d'.repoId = d.repoId
  name : d'.name = d.name
  tld : d'.tld = d.tld
  creationTime : d'.creationTime = d.creationTime
  statuses : d'.statuses = d.statuses
  sponsor : d'.sponsor = d.sponsor
  autorenewEvent : d'.autorenewEvent = d.autorenewEvent
  autorenewEndTime : d'.autorenewEndTime = d.autorenewEndTime
  transfer : d'.transfer = d.transfer
  deletionTime : d'.deletionTime = d.deletionTime

theorem sameRegistration_of_renewedBy {d d' : Domain} {r : Renewal} (h : d.renewedBy [r] = .ok d') :
    SameRegistration d d' := by
  have hd := renewedBy_one.1 h
  exact ⟨Option.some.inj (congrArg Draft.repoId hd), Option.some.inj (congrArg Draft.name hd),
    Option.some.inj (congrArg Draft.tld hd), Option.some.inj (congrArg Draft.creationTime hd),
    congrArg Draft.statuses hd, Option.some.inj (congrArg Draft.sponsor hd),
    Option.some.inj (congrArg Draft.autorenewEvent hd), congrArg Draft.autorenewEndTime hd,
    congrArg Draft.transfer hd, congrArg Draft.deletionTime hd⟩

theorem expirationTime_of_renewedBy {d d' : Domain} {r : Renewal} (h : d.renewedBy [r] = .ok d') :
    d'.expirationTime = r.expirationTime :=
  Option.some.inj (congrArg Draft.expirationTime (renewedBy_one.1 h))

theorem gracePeriods_of_renewedBy {d d' : Domain} {r : Renewal} (h : d.renewedBy [r] = .ok d') :
    d'.gracePeriods = GraceOrder.sort (d.gracePeriods ++ [r.gracePeriod]) :=
  congrArg Draft.gracePeriods (renewedBy_one.1 h)

/-- To rebuild the domain once after all renewals is to rebuild it after each. -/
theorem renewedBy_cons {d d' : Domain} {r : Renewal} {rs : List Renewal}
    (hcreated : d.creationTime ≤ r.expirationTime)
    (howned : r.gracePeriod.domainRepoId = d.repoId) :
    d.renewedBy (r :: rs) = .ok d' ↔ ∃ d₁, d.renewedBy [r] = .ok d₁ ∧ d₁.renewedBy rs = .ok d' := by
  rcases List.eq_nil_or_concat rs with rfl | ⟨front, last, rfl⟩
  · exact ⟨fun h => ⟨d', h, rfl⟩, fun ⟨_, h, h'⟩ => h.trans h'⟩
  rw [List.concat_eq_append]
  have hlast : (r :: (front ++ [last])).getLast? = some last := by
    rw [← List.cons_append, List.getLast?_concat]
  have hlast' : (front ++ [last]).getLast? = some last := List.getLast?_concat
  rw [renewedBy_eq_ok hlast]
  constructor
  · intro h
    have hg : d'.gracePeriods = GraceOrder.sort
        (d.gracePeriods ++ (r :: (front ++ [last])).map (·.gracePeriod)) :=
      congrArg Draft.gracePeriods h
    have hdistinct := GraceOrder.nodup_of_sort (hg ▸ d'.grace_distinct)
    have hnew : ∀ g ∈ d.gracePeriods, g.id ≠ r.gracePeriod.id := by
      rw [List.map_append, List.nodup_append] at hdistinct
      intro g hmem
      exact hdistinct.2.2 _ (List.mem_map_of_mem hmem) _ (by simp)
    obtain ⟨d₁, h₁⟩ := exists_renewedBy hcreated howned hnew
    refine ⟨d₁, h₁, (renewedBy_eq_ok hlast').2 ?_⟩
    rw [h, gracePeriods_of_renewedBy h₁, GraceOrder.sort_sort_append (by simpa using hdistinct),
      renewedBy_one.1 h₁, (sameRegistration_of_renewedBy h₁).sponsor, List.append_assoc]
    rfl
  · rintro ⟨d₁, h₁, h⟩
    rw [renewedBy_eq_ok hlast'] at h
    have hg : d'.gracePeriods = GraceOrder.sort
        (d₁.gracePeriods ++ (front ++ [last]).map (·.gracePeriod)) :=
      congrArg Draft.gracePeriods h
    have hdistinct := GraceOrder.nodup_of_sort (hg ▸ d'.grace_distinct)
    rw [gracePeriods_of_renewedBy h₁] at hdistinct
    have hdistinct' := ((((GraceOrder.sort_perm _).append_right _).map _).nodup_iff).1 hdistinct
    rw [h, gracePeriods_of_renewedBy h₁, GraceOrder.sort_sort_append hdistinct',
      renewedBy_one.1 h₁, (sameRegistration_of_renewedBy h₁).sponsor, List.append_assoc]
    rfl

end Domain

/-- The registration runs out by the given time and is renewed then. -/
structure Domain.Renews (d : Domain) (time : Instant) : Prop where
  unsuppressed : d.isAutorenewSuppressed = false
  elapsed : d.expirationTime ≤ time
  running : ∀ stop ∈ d.autorenewEndTime, d.expirationTime < stop

/-- The renewals that bring a domain up to a time, each made where the one before has led. -/
inductive Engine.Renewals (engine : Engine σ) (observed time : Instant) :
    Domain → σ → List Renewal → Domain → σ → Prop
  | stop {d : Domain} {s : σ} : ¬d.Renews time → Renewals engine observed time d s [] d s
  | next {d d₁ d₂ : Domain} {s s₁ s₂ : σ} {r : Renewal} {rs : List Renewal} : d.Renews time →
      (engine.renew d observed d.expirationTime).Gives s r s₁ → d.renewedBy [r] = .ok d₁ →
      Renewals engine observed time d₁ s₁ rs d₂ s₂ →
      Renewals engine observed time d s (r :: rs) d₂ s₂

namespace Domain.SameRegistration

variable {d d' d'' : Domain}

theorem refl (d : Domain) : d.SameRegistration d :=
  ⟨rfl, rfl, rfl, rfl, rfl, rfl, rfl, rfl, rfl, rfl⟩

theorem symm (h : d.SameRegistration d') : d'.SameRegistration d where
  repoId := h.repoId.symm
  name := h.name.symm
  tld := h.tld.symm
  creationTime := h.creationTime.symm
  statuses := h.statuses.symm
  sponsor := h.sponsor.symm
  autorenewEvent := h.autorenewEvent.symm
  autorenewEndTime := h.autorenewEndTime.symm
  transfer := h.transfer.symm
  deletionTime := h.deletionTime.symm

theorem trans (h : d.SameRegistration d') (h' : d'.SameRegistration d'') :
    d.SameRegistration d'' where
  repoId := h'.repoId.trans h.repoId
  name := h'.name.trans h.name
  tld := h'.tld.trans h.tld
  creationTime := h'.creationTime.trans h.creationTime
  statuses := h'.statuses.trans h.statuses
  sponsor := h'.sponsor.trans h.sponsor
  autorenewEvent := h'.autorenewEvent.trans h.autorenewEvent
  autorenewEndTime := h'.autorenewEndTime.trans h.autorenewEndTime
  transfer := h'.transfer.trans h.transfer
  deletionTime := h'.deletionTime.trans h.deletionTime

theorem suppressed (h : d.SameRegistration d') :
    d'.isAutorenewSuppressed = d.isAutorenewSuppressed := by
  rw [isAutorenewSuppressed, isAutorenewSuppressed, h.deletionTime, h.statuses]

theorem renew (h : d.SameRegistration d') : engine.renew d' = engine.renew d := by
  funext observed time
  rw [Engine.renew, Engine.renew, h.repoId, h.name, h.sponsor, h.autorenewEvent]

theorem renewAll (h : d.SameRegistration d') (observed : Instant) (times : List Instant) :
    engine.renewAll d' observed times = engine.renewAll d observed times := by
  induction times with
  | nil => rfl
  | cons time times ih => rw [Engine.renewAll, Engine.renewAll, h.renew, ih]

end Domain.SameRegistration

theorem creationTime_le_of_year {d : Domain} {next : Instant}
    (h : d.expirationTime.addYears 1 = .ok next) : d.creationTime ≤ next :=
  Int.le_of_lt (Int.lt_of_le_of_lt d.created_le (Instant.lt_of_addYears_one h))

/-- The times that the loop works off begin with the expiration if the domain renews, and end where
the calendar does. -/
theorem elapsed_cons {e t next : Instant} {stop : Option Instant} (h : e ≤ t ∧ ∀ s ∈ stop, e < s)
    (hyear : e.addYears 1 = .ok next) : elapsed e t stop = e :: elapsed next t stop := by
  rw [elapsed, if_pos h]
  split
  · next next' hyear' =>
    cases hyear.symm.trans hyear'
    rfl
  · next err herr => cases hyear.symm.trans herr

theorem elapsed_last {e t : Instant} {stop : Option Instant} {err : TemporalError}
    (h : e ≤ t ∧ ∀ s ∈ stop, e < s) (hyear : e.addYears 1 = .error err) :
    elapsed e t stop = [e] := by
  rw [elapsed, if_pos h]
  split
  · next next hyear' => cases hyear.symm.trans hyear'
  · rfl

theorem elapsed_nil {e t : Instant} {stop : Option Instant} (h : ¬(e ≤ t ∧ ∀ s ∈ stop, e < s)) :
    elapsed e t stop = [] := by
  rw [elapsed, if_neg h]

theorem renewAll_cons_gives {d : Domain} {observed time : Instant} {times : List Instant}
    {rs : List Renewal} {s s' : σ} :
    (engine.renewAll d observed (time :: times)).Gives s rs s' ↔ ∃ r s₁ rs',
      (engine.renew d observed time).Gives s r s₁ ∧
      (engine.renewAll d observed times).Gives s₁ rs' s' ∧
        rs = r :: rs' := by
  simp only [Engine.renewAll, Projecting.gives_bind, Projecting.gives_pure]
  constructor
  · rintro ⟨r, s₁, hr, rs', s₂, hrs, rfl, rfl⟩
    exact ⟨r, s₁, rs', hr, hrs, rfl⟩
  · rintro ⟨r, s₁, rs', hr, hrs, rfl⟩
    exact ⟨r, s₁, hr, rs', s', hrs, rfl, rfl⟩

/-- The list of times that the loop works off makes the chain of renewals. The years that are left
bound both. -/
theorem renewAll_elapsed_gives {d d' : Domain} {observed time : Instant}
    {rs : List Renewal} {s s' : σ} (hsup : d.isAutorenewSuppressed = false) :
    ((engine.renewAll d observed (elapsed d.expirationTime time d.autorenewEndTime)).Gives s rs s' ∧
      d.renewedBy rs = .ok d') ↔ engine.Renewals observed time d s rs d' s' := by
  induction hn : d.expirationTime.yearsLeft using Nat.strongRecOn generalizing d s rs with
  | ind n ih =>
  by_cases hrenews : d.Renews time
  · cases hyear : d.expirationTime.addYears 1 with
    | error e =>
      have hfail : ∀ {r : Renewal} {s₁ : σ},
          ¬(engine.renew d observed d.expirationTime).Gives s r s₁ := by
        intro r s₁ hr
        have hy := (renew_gives.1 hr).1.year
        rw [hyear] at hy
        cases hy
      rw [elapsed_last ⟨hrenews.elapsed, hrenews.running⟩ hyear, renewAll_cons_gives]
      constructor
      · rintro ⟨⟨r, s₁, rs', hr, -⟩, -⟩
        exact absurd hr hfail
      · intro h
        cases h with
        | stop hstop => exact absurd hrenews hstop
        | next _ hr _ _ => exact absurd hr hfail
    | ok next =>
      have hyears := Instant.yearsLeft_of_addYears_one hyear
      -- The domain after the first renewal differs in nothing that the further ones look at.
      have hrest : ∀ {r : Renewal} {s₁ : σ} {d₁ : Domain} {rs : List Renewal},
          (engine.renew d observed d.expirationTime).Gives s r s₁ → d.renewedBy [r] = .ok d₁ →
          (((engine.renewAll d observed (elapsed next time d.autorenewEndTime)).Gives s₁ rs s' ∧
            d₁.renewedBy rs = .ok d') ↔ engine.Renewals observed time d₁ s₁ rs d' s') := by
        intro r s₁ d₁ rs hr hd₁
        have hsame := Domain.sameRegistration_of_renewedBy hd₁
        have hexp : d₁.expirationTime = next := by
          have hy := (renew_gives.1 hr).1.year
          rw [hyear] at hy
          exact (Domain.expirationTime_of_renewedBy hd₁).trans (Except.ok.inj hy).symm
        have hih : ((engine.renewAll d₁ observed
            (elapsed d₁.expirationTime time d₁.autorenewEndTime)).Gives s₁ rs s' ∧
              d₁.renewedBy rs = .ok d') ↔
            engine.Renewals observed time d₁ s₁ rs d' s' :=
          ih d₁.expirationTime.yearsLeft (by rw [hexp]; omega) (hsame.suppressed.trans hsup) rfl
        rwa [hexp, hsame.autorenewEndTime, hsame.renewAll] at hih
      rw [elapsed_cons ⟨hrenews.elapsed, hrenews.running⟩ hyear, renewAll_cons_gives]
      constructor
      · rintro ⟨⟨r, s₁, rs', hr, hrs, rfl⟩, hd'⟩
        have hir := (renew_gives.1 hr).1
        obtain ⟨d₁, hd₁, hd'⟩ :=
          (Domain.renewedBy_cons (creationTime_le_of_year hir.year) hir.grace_owner).1 hd'
        exact .next hrenews hr hd₁ ((hrest hr hd₁).1 ⟨hrs, hd'⟩)
      · intro h
        cases h with
        | stop hstop => exact absurd hrenews hstop
        | next _ hr hd₁ h =>
          have hir := (renew_gives.1 hr).1
          obtain ⟨hrs, hd'⟩ := (hrest hr hd₁).2 h
          exact ⟨⟨_, _, _, hr, hrs, rfl⟩,
            (Domain.renewedBy_cons (creationTime_le_of_year hir.year) hir.grace_owner).2
              ⟨_, hd₁, hd'⟩⟩
  · rw [elapsed_nil fun h => hrenews ⟨hsup, h.1, h.2⟩, Engine.renewAll, Projecting.gives_pure]
    constructor
    · rintro ⟨⟨rfl, rfl⟩, h⟩
      cases h
      exact .stop hrenews
    · intro h
      cases h with
      | stop => exact ⟨⟨rfl, rfl⟩, rfl⟩
      | next h' _ _ _ => exact absurd h' hrenews

/-- What renews a domain up to a time succeeds as its chain of renewals does, with the same
result. -/
theorem autorenew_gives {d d' : Domain} {observed time : Instant} {rs : List Renewal} {s s' : σ} :
    (engine.autorenew d.isAutorenewSuppressed d observed time).Gives s (d', rs) s' ↔
      engine.Renewals observed time d s rs d' s' := by
  rw [Engine.autorenew]
  cases hsup : d.isAutorenewSuppressed with
  | true =>
    have hstop : ¬d.Renews time := fun h => absurd (h.unsuppressed.symm.trans hsup) (by decide)
    simp only [if_true, Projecting.gives_pure, Prod.mk.injEq]
    constructor
    · rintro ⟨⟨rfl, rfl⟩, rfl⟩
      exact .stop hstop
    · intro h
      cases h with
      | stop => exact ⟨⟨rfl, rfl⟩, rfl⟩
      | next hrenews _ _ _ => exact absurd hrenews hstop
  | false =>
    simp only [Bool.false_eq_true, if_false, Projecting.gives_bind, Projecting.gives_ofExcept,
      Projecting.gives_pure, Prod.mk.injEq]
    rw [← renewAll_elapsed_gives hsup]
    constructor
    · rintro ⟨rs', s₁, h, renewed, s₂, ⟨h', rfl⟩, ⟨rfl, rfl⟩, rfl⟩
      exact ⟨h, h'⟩
    · rintro ⟨h, h'⟩
      exact ⟨rs, s', h, d', s', ⟨h', rfl⟩, ⟨rfl, rfl⟩, rfl⟩

end NameRegistry.Registration
