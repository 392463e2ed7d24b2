import NameRegistry.Proofs.Projection.Course

/-! # Autorenewal, year by year

Where no transfer is due, a projection renews a domain at its expiration and at the anniversaries of
it, up to the first that is still to come or at which autorenewal has ended. Each renewal is charged
by itself, at the price of its own time.
-/
namespace NameRegistry.Registration

open Billing (OneTime)

/-- At this expiration a registration is not renewed: it is still to come, or autorenewal is
over. -/
def EndsBy (t : Instant) (stop : Option Instant) (e : Instant) : Prop := t < e ∨ ∃ s ∈ stop, s ≤ e

theorem not_endsBy {t e : Instant} {stop : Option Instant} :
    ¬EndsBy t stop e ↔ e ≤ t ∧ ∀ s ∈ stop, e < s := by
  rw [EndsBy, not_or, not_exists]
  refine and_congr Int.not_lt (forall_congr' fun s => ?_)
  rw [not_and]
  exact imp_congr Iff.rfl Int.not_le

/-- The loop stops for every time. It visits the anniversaries of the expiration one after another,
up to the first at which the registration is not renewed, or to the last that the calendar has. -/
theorem elapsed_eq_anniversaries (e t : Instant) (stop : Option Instant) : ∃ m,
    (elapsed e t stop).map some = (List.range m).map e.anniversary? ∧
      (∀ u ∈ elapsed e t stop, ¬EndsBy t stop u) ∧ ∀ u ∈ e.anniversary? m, EndsBy t stop u := by
  induction e using elapsed.induct t stop with
  | case1 e hcond next hyear ih =>
    obtain ⟨m, hvisits, hruns, hends⟩ := ih
    have hstep := elapsed_cons hcond hyear
    refine ⟨m + 1, ?_, ?_, ?_⟩
    · rw [hstep, List.map_cons, hvisits, List.range_succ_eq_map, List.map_cons, List.map_map]
      congr 1
      apply List.map_congr_left
      intro k _
      exact (Instant.anniversary?_next hyear k).symm
    · rw [hstep]
      intro u hu
      rcases List.mem_cons.1 hu with rfl | hu
      · exact not_endsBy.2 hcond
      · exact hruns u hu
    · rwa [Instant.anniversary?_next hyear]
  | case2 e hcond err hyear =>
    -- The calendar ends before the registration does: there is no next anniversary to ask about.
    have hlast := elapsed_last hcond hyear
    refine ⟨1, ?_, ?_, ?_⟩
    · rw [hlast]
      rfl
    · rw [hlast]
      intro u hu
      cases List.mem_singleton.1 hu
      exact not_endsBy.2 hcond
    · intro u hu
      simp [Instant.anniversary?, hyear, Except.toOption] at hu
  | case3 e hcond =>
    have hnil := elapsed_nil hcond
    refine ⟨0, ?_, ?_, ?_⟩
    · rw [hnil]
      rfl
    · rw [hnil]
      exact fun u hu => absurd hu List.not_mem_nil
    · intro u hu
      obtain rfl : e = u := Option.some.inj hu
      by_cases h : EndsBy t stop e
      · exact h
      · exact absurd (not_endsBy.1 h) hcond

namespace Domain

/-- How often a domain is renewed by the given time: never if renewals are suppressed, and otherwise
as often as its expiration has anniversaries before the first at which it is not renewed. -/
structure IsRenewalCount (d : Domain) (t : Instant) (n : Nat) : Prop where
  never : d.isAutorenewSuppressed = true → n = 0
  ends : d.isAutorenewSuppressed = false →
    ∃ e, d.expirationTime.anniversary? n = some e ∧ EndsBy t d.autorenewEndTime e
  least : d.isAutorenewSuppressed = false → ∀ k < n,
    ∃ e, d.expirationTime.anniversary? k = some e ∧ ¬EndsBy t d.autorenewEndTime e

theorem renews_iff {d : Domain} {t : Instant} : d.Renews t ↔
    d.isAutorenewSuppressed = false ∧ ¬EndsBy t d.autorenewEndTime d.expirationTime := by
  rw [not_endsBy]
  constructor
  · intro h
    exact ⟨h.unsuppressed, h.elapsed, h.running⟩
  · rintro ⟨h1, h2, h3⟩
    exact ⟨h1, h2, h3⟩

end Domain

variable {σ : Type} {engine : Engine σ} {observed t : Instant}

/-- The charge of a domain's renewal from one expiration to the next. -/
structure Engine.IsCharge (engine : Engine σ) (d : Domain) (e next : Instant)
    (c : OneTime) : Prop where
  eventTime : c.common.eventTime = e
  cost : engine.prices engine.config.tld e = .ok c.cost
  billingTime : next.shift (.seconds (engine.config.graceSeconds .autoRenew)) = .ok c.billingTime
  reason : c.common.reason = .renew
  targetId : c.common.targetId = d.name
  periodYears : c.periodYears = some 1
  flags : c.flags = .ofList [.autoRenew, .synthetic]
  registrar : c.common.registrarId = d.sponsor
  matching : c.matchingEvent = some d.autorenewEvent

theorem Engine.IsRenewal.isCharge {d : Domain} {e : Instant} {r : Renewal}
    (h : engine.IsRenewal d observed e r) : engine.IsCharge d e r.expirationTime r.charge := by
  have hprice := h.price
  have hend := h.grace_end
  rw [h.charge]
  exact ⟨rfl, hprice, hend, rfl, rfl, rfl, rfl, rfl, rfl⟩

theorem Engine.IsRenewal.history_eq {d : Domain} {e : Instant} {r : Renewal}
    (h : engine.IsRenewal d observed e r) : r.charge.common.history = r.history := by
  rw [h.charge]

theorem Domain.SameRegistration.isRenewal {d d' : Domain} {e : Instant} {r : Renewal}
    (hsame : d.SameRegistration d') (h : engine.IsRenewal d' observed e r) :
    engine.IsRenewal d observed e r where
  time_eq := h.time_eq
  year := h.year
  registrar := h.registrar.trans hsame.sponsor
  history := h.history.trans hsame.repoId
  grace_status := h.grace_status
  grace_owner := h.grace_owner.trans hsame.repoId
  grace_end := h.grace_end
  grace_registrar := h.grace_registrar.trans hsame.sponsor
  grace_oneTime := h.grace_oneTime
  grace_recurring := h.grace_recurring.trans (congrArg some hsame.autorenewEvent)
  price := h.price
  price_nonneg := h.price_nonneg
  charge := by
    have hcharge := h.charge
    rwa [hsame.name, hsame.sponsor, hsame.autorenewEvent] at hcharge

/-- The renewals of a chain are made at the anniversaries of the expiration. -/
theorem renewal_of_renewals {d d' : Domain} {rs : List Renewal} {s s' : σ}
    (h : engine.Renewals observed t d s rs d' s') {k : Nat} {r : Renewal} (hk : rs[k]? = some r) :
    ∃ e, d.expirationTime.anniversary? k = some e ∧
      d.expirationTime.anniversary? (k + 1) = some r.expirationTime ∧
      ¬EndsBy t d.autorenewEndTime e ∧ engine.IsRenewal d observed e r := by
  induction h generalizing k with
  | stop _ => cases hk
  | @next d d₁ d₂ s s₁ s₂ r₀ rs hrenews hr₀ hd₁ _ ih =>
    have hr₀ := (renew_gives.1 hr₀).1
    have hsame := Domain.sameRegistration_of_renewedBy hd₁
    cases k with
    | zero =>
      cases hk
      refine ⟨d.expirationTime, rfl, ?_, (Domain.renews_iff.1 hrenews).2, hr₀⟩
      rw [Instant.anniversary?_next hr₀.year]
      rfl
    | succ k =>
      obtain ⟨e, he, hnext, hruns, hr⟩ := ih hk
      rw [Domain.expirationTime_of_renewedBy hd₁] at he hnext
      rw [hsame.autorenewEndTime] at hruns
      exact ⟨e, (Instant.anniversary?_next hr₀.year k).trans he,
        (Instant.anniversary?_next hr₀.year (k + 1)).trans hnext, hruns, hsame.isRenewal hr⟩

theorem renewal_of_mem {d d' : Domain} {rs : List Renewal} {r : Renewal} {s s' : σ}
    (h : engine.Renewals observed t d s rs d' s') (hr : r ∈ rs) :
    ∃ k e, d.expirationTime.anniversary? k = some e ∧
      d.expirationTime.anniversary? (k + 1) = some r.expirationTime ∧
      ¬EndsBy t d.autorenewEndTime e ∧ engine.IsRenewal d observed e r := by
  obtain ⟨k, hk⟩ := List.mem_iff_getElem?.1 hr
  exact ⟨k, renewal_of_renewals h hk⟩

theorem isRenewal_of_mem {d d' : Domain} {rs : List Renewal} {r : Renewal} {s s' : σ}
    (h : engine.Renewals observed t d s rs d' s') (hr : r ∈ rs) :
    ∃ e, engine.IsRenewal d observed e r := by
  obtain ⟨_, e, -, -, -, hir⟩ := renewal_of_mem h hr
  exact ⟨e, hir⟩

theorem expirationTime_of_renewals {d d' : Domain} {rs : List Renewal} {s s' : σ}
    (h : engine.Renewals observed t d s rs d' s') :
    d.expirationTime.anniversary? rs.length = some d'.expirationTime := by
  induction h with
  | stop _ => rfl
  | next _ hr hd₁ _ ih =>
    rw [Domain.expirationTime_of_renewedBy hd₁] at ih
    rw [List.length_cons, Instant.anniversary?_next (renew_gives.1 hr).1.year, ih]

theorem isRenewalCount_of_renewals {d d' : Domain} {rs : List Renewal} {s s' : σ}
    (h : engine.Renewals observed t d s rs d' s') : d.IsRenewalCount t rs.length where
  never hsup := by
    cases h with
    | stop _ => rfl
    | next hrenews _ _ _ => exact absurd (hrenews.unsuppressed.symm.trans hsup) (by decide)
  ends hsup := by
    obtain ⟨hstop, hsame⟩ := renewals_end h
    rw [Domain.renews_iff, hsame.suppressed, hsame.autorenewEndTime] at hstop
    refine ⟨d'.expirationTime, expirationTime_of_renewals h, ?_⟩
    by_cases hends : EndsBy t d.autorenewEndTime d'.expirationTime
    · exact hends
    · exact absurd ⟨hsup, hends⟩ hstop
  least _ k hk := by
    obtain ⟨e, he, -, hruns, -⟩ := renewal_of_renewals h (List.getElem?_eq_getElem hk)
    exact ⟨e, he, hruns⟩

/-- The last renewal is the last update. -/
theorem lastUpdate_of_renewals {d d' : Domain} {rs : List Renewal} {s s' : σ}
    (h : engine.Renewals observed t d s rs d' s') :
    d'.lastUpdateTime = (rs.getLast?.map (·.time)).or d.lastUpdateTime ∧
      d'.lastUpdateRegistrar = (rs.getLast?.map fun _ => d.sponsor).or d.lastUpdateRegistrar := by
  induction h with
  | stop _ => exact ⟨rfl, rfl⟩
  | @next d d₁ d₂ s s₁ s₂ r rs _ _ hd₁ _ ih =>
    have hd := Domain.renewedBy_one.1 hd₁
    have htime : d₁.lastUpdateTime = some r.time := congrArg Domain.Draft.lastUpdateTime hd
    have hregistrar : d₁.lastUpdateRegistrar = some d.sponsor :=
      congrArg Domain.Draft.lastUpdateRegistrar hd
    rw [htime, hregistrar, (Domain.sameRegistration_of_renewedBy hd₁).sponsor] at ih
    rw [ih.1, ih.2, List.getLast?_cons]
    cases rs.getLast? <;> exact ⟨rfl, rfl⟩

namespace Transition

def isAutoRenewed : Transition → Bool
  | autoRenewed .. => true
  | _ => false

/-- Transitions that are in the order of time already are picked out in the order they had. -/
theorem filter_inOrder (p : Transition → Bool) {ts : List Transition}
    (h : (ts.filter p).Pairwise fun a b => a.time ≤ b.time) :
    (inOrder ts).filter p = ts.filter p := by
  have hsub : (ts.filter p).Sublist (inOrder ts) := by
    apply List.sublist_mergeSort
    · intro a b c hab hbc
      rw [decide_eq_true_eq] at hab hbc ⊢
      exact Int.le_trans hab hbc
    · intro a b
      rw [Bool.or_eq_true, decide_eq_true_eq, decide_eq_true_eq]
      exact Int.le_total _ _
    · exact h.imp fun hab => decide_eq_true hab
    · exact List.filter_sublist
  have hsub := hsub.filter p
  rw [List.filter_filter] at hsub
  simp only [Bool.and_self] at hsub
  exact (hsub.eq_of_length (((inOrder_perm ts).filter p).length_eq).symm).symm

end Transition

theorem le_time_of_renewals {d d' : Domain} {rs : List Renewal} {s s' : σ}
    (h : engine.Renewals observed t d s rs d' s') :
    (∀ r ∈ rs, d.expirationTime ≤ r.time) ∧ rs.Pairwise fun a b => a.time ≤ b.time := by
  induction h with
  | stop _ => exact ⟨by simp, .nil⟩
  | @next d d₁ d₂ s s₁ s₂ r rs _ hr hd₁ _ ih =>
    have hr := (renew_gives.1 hr).1
    have hlt := Instant.lt_of_addYears_one hr.year
    rw [Domain.expirationTime_of_renewedBy hd₁] at ih
    have hlater : ∀ r' ∈ rs, d.expirationTime ≤ r'.time :=
      fun r' hr' => Int.le_trans (Int.le_of_lt hlt) (ih.1 r' hr')
    constructor
    · intro r' hr'
      rcases List.mem_cons.1 hr' with rfl | hr'
      · rw [hr.time_eq]
        exact Int.le_refl _
      · exact hlater r' hr'
    · refine List.pairwise_cons.2 ⟨fun r' hr' => ?_, ih.2⟩
      rw [hr.time_eq]
      exact hlater r' hr'

/-- The renewals are the transitions of their kind, in order. -/
theorem filter_isAutoRenewed_account {d d' : Domain} {rs : List Renewal} {s s' : σ}
    (h : engine.Renewals observed t d s rs d' s') :
    (Outcome.account d' (rs.map .renewal) t).transitions.filter Transition.isAutoRenewed =
      rs.map fun r => .autoRenewed r.time r.expirationTime r.registrar r.history := by
  have hpick : ((rs.map Step.renewal).map Step.transition ++
      (d'.gracePeriods.filter (!·.activeAt t)).map Transition.ofExpired).filter
        Transition.isAutoRenewed =
      rs.map fun r => .autoRenewed r.time r.expirationTime r.registrar r.history := by
    rw [List.filter_append, List.map_map, List.filter_eq_self.2, List.filter_eq_nil_iff.2,
      List.append_nil]
    · rfl
    · intro transition hmem
      obtain ⟨g, -, rfl⟩ := List.mem_map.1 hmem
      exact Bool.false_ne_true
    · intro transition hmem
      obtain ⟨r, -, rfl⟩ := List.mem_map.1 hmem
      rfl
  rw [Outcome.account, Transition.filter_inOrder, hpick]
  rw [hpick, List.pairwise_map]
  exact (le_time_of_renewals h).2

/-- Where no transfer is due, the loop stops for every time, and a projection that succeeds has
renewed the domain exactly as often as it was due: once at each expiration that has come, with one
charge and one transition each, both in order. The last of them is the last update. -/
theorem autorenewal_exact {d : Domain} (hdue : d.dueTransfer? t = none) :
    (∃ m, (elapsed d.expirationTime t d.autorenewEndTime).map some =
        (List.range m).map d.expirationTime.anniversary? ∧
      (∀ e ∈ elapsed d.expirationTime t d.autorenewEndTime, ¬EndsBy t d.autorenewEndTime e) ∧
      ∀ e ∈ d.expirationTime.anniversary? m, EndsBy t d.autorenewEndTime e) ∧
    ∀ {o : Outcome} {s s' : σ}, (engine.project d t).Gives s o s' → ∃ n, d.IsRenewalCount t n ∧
      d.expirationTime.anniversary? n = some o.domain.expirationTime ∧
      o.newBillingEvents.length = n ∧ (o.transitions.filter Transition.isAutoRenewed).length = n ∧
      (∀ k < n, ∃ e next c, d.expirationTime.anniversary? k = some e ∧
        d.expirationTime.anniversary? (k + 1) = some next ∧
        o.newBillingEvents[k]? = some (.oneTime c) ∧ engine.IsCharge d e next c ∧
        (o.transitions.filter Transition.isAutoRenewed)[k]? =
          some (.autoRenewed e next d.sponsor c.common.history)) ∧
      (n = 0 → o.domain.lastUpdateTime = d.lastUpdateTime ∧
        o.domain.lastUpdateRegistrar = d.lastUpdateRegistrar) ∧
      ∀ k, n = k + 1 → ∃ e, d.expirationTime.anniversary? k = some e ∧
        o.domain.lastUpdateTime = some e ∧ o.domain.lastUpdateRegistrar = some d.sponsor := by
  refine ⟨elapsed_eq_anniversaries _ _ _, ?_⟩
  intro o s s' ho
  obtain ⟨-, d', steps, hcourse, rfl⟩ := project_gives.1 ho
  obtain ⟨rs, hrs, rfl⟩ := (course_of_none hdue).1 hcourse
  have hevents : (Outcome.account d' (rs.map .renewal) t).newBillingEvents =
      rs.map fun r => .oneTime r.charge := by
    show (rs.map Step.renewal).flatMap Step.billingEvents = _
    rw [List.flatMap_map, List.map_eq_flatMap]
    rfl
  have htransitions := filter_isAutoRenewed_account hrs
  have hexp := expirationTime_of_renewals hrs
  obtain ⟨htime, hregistrar⟩ := lastUpdate_of_renewals hrs
  refine ⟨rs.length, isRenewalCount_of_renewals hrs, hexp, ?_, ?_, ?_, ?_, ?_⟩
  · rw [hevents, List.length_map]
  · rw [htransitions, List.length_map]
  · intro k hk
    have hget := List.getElem?_eq_getElem hk
    obtain ⟨e, he, hnext, -, hr⟩ := renewal_of_renewals hrs hget
    refine ⟨e, _, rs[k].charge, he, hnext, ?_, hr.isCharge, ?_⟩
    · rw [hevents, List.getElem?_map, hget]
      rfl
    · rw [htransitions, List.getElem?_map, hget, hr.history_eq]
      simp [hr.time_eq, hr.registrar]
  · intro hn
    cases List.eq_nil_of_length_eq_zero hn
    exact ⟨htime, hregistrar⟩
  · intro k hk
    have hlt : k < rs.length := by omega
    have hlast : rs.getLast? = some rs[k] := by
      rw [List.getLast?_eq_getElem?, hk]
      exact List.getElem?_eq_getElem hlt
    obtain ⟨e, he, -, -, hr⟩ := renewal_of_renewals hrs (List.getElem?_eq_getElem hlt)
    rw [hlast] at htime hregistrar
    exact ⟨e, he, htime.trans (congrArg some hr.time_eq), hregistrar⟩

theorem autorenewal_exact_sample : ∃ o s', Sample.domain.dueTransfer? Sample.renewed = none ∧
    (Sample.registry.project Sample.domain Sample.renewed).Gives 0 o s' ∧
      o.newBillingEvents.length = 1 ∧ o.domain.lastUpdateTime =
        some Sample.domain.expirationTime := by
  have hdue : Sample.domain.dueTransfer? Sample.renewed = none := by decide
  obtain ⟨o, s', ho⟩ := Projecting.exists_gives
    (x := Sample.registry.project Sample.domain Sample.renewed) (s := 0) (by decide +kernel)
  obtain ⟨n, hn, -, hlength, -, -, -, hlast⟩ := (autorenewal_exact hdue).2 ho
  have hsup : Sample.domain.isAutorenewSuppressed = false := by decide
  have hfirst : ¬EndsBy Sample.renewed none Sample.domain.expirationTime := by
    rw [not_endsBy]
    decide
  have hone : n = 1 := by
    match n, hn with
    | 0, hn =>
      obtain ⟨e, he, hends⟩ := hn.ends hsup
      cases he
      exact absurd hends hfirst
    | 1, _ => rfl
    | n + 2, hn =>
      obtain ⟨e, he, hruns⟩ := hn.least hsup 1 (by omega)
      have hlater : ∀ e ∈ Sample.domain.expirationTime.anniversary? 1, Sample.renewed < e := by
        decide +kernel
      exact absurd (.inl (hlater e he)) hruns
  obtain ⟨e, he, htime, -⟩ := hlast 0 hone
  cases he
  exact ⟨o, s', hdue, ho, hlength.trans hone, htime⟩

end NameRegistry.Registration
