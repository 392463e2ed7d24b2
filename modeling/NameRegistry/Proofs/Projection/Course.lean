import NameRegistry.Proofs.Projection.Approval
import NameRegistry.Proofs.Projection.Renewal

/-! # The course of a projection

A projection takes a domain through steps: renewals, up to the deadline of a transfer that is due,
its approval, and renewals again. Which step comes next depends on the domain alone, not on the
steps that led to it. So a course can be cut anywhere, and continued from any domain that the next
steps cannot tell apart. The main statement: a projection succeeds as its course does, with the
account of that course.

A course is finite by a measure that each step lowers: the years left, and all years of the calendar
once more while a transfer is pending, because an approval can set an earlier expiration.
-/
namespace NameRegistry.Registration

open Billing (GracePeriod)

namespace Step

def kinds : Step → List IdKind
  | renewal r => r.kinds
  | approval a => a.kinds

def drawn : Step → List AnyId
  | renewal r => r.drawn
  | approval a => a.drawn

theorem length_kinds_le (step : Step) : step.kinds.length ≤ 3 := by
  cases step with
  | renewal r => exact Nat.le_refl _
  | approval a => exact a.length_kinds_le

theorem id_mem_drawn {step : Step} {g : GracePeriod} (h : g ∈ step.gracePeriods) :
    g.id.any ∈ step.drawn := by
  cases step with
  | renewal r =>
    cases List.mem_singleton.1 h
    simp [drawn, Renewal.drawn]
  | approval a => exact List.mem_append_right _ (List.mem_map_of_mem h)

end Step

namespace Domain

theorem dueTransfer?_eq_some {d : Domain} {t : Instant} {p : PendingTransfer} :
    d.dueTransfer? t = some p ↔ d.transfer.pending? = some p ∧ p.deadline ≤ t := by
  rw [dueTransfer?, Option.filter_eq_some_iff, decide_eq_true_eq]

theorem dueTransfer?_eq_none {d : Domain} {t : Instant} :
    d.dueTransfer? t = none ↔ ∀ p ∈ d.transfer.pending?, t < p.deadline := by
  rw [dueTransfer?, Option.filter_eq_none_iff]
  refine forall_congr' fun p => imp_congr Iff.rfl ?_
  rw [decide_eq_true_eq]
  exact Int.not_le

theorem dueTransfer?_of_le {d : Domain} {t t' : Instant} (h : d.dueTransfer? t = none)
    (hle : t' ≤ t) : d.dueTransfer? t' = none := by
  rw [dueTransfer?_eq_none] at h ⊢
  exact fun p hp => Int.lt_of_le_of_lt hle (h p hp)

/-- The time up to which a domain is renewed before anything else happens to it. -/
def horizon (d : Domain) (t : Instant) : Except TemporalError Instant :=
  match d.dueTransfer? t with
  | none => .ok t
  | some p => p.basis

theorem horizon_of_none {d : Domain} {t : Instant} (h : d.dueTransfer? t = none) :
    d.horizon t = .ok t := by
  rw [horizon, h]

theorem horizon_of_some {d : Domain} {t : Instant} {p : PendingTransfer}
    (h : d.dueTransfer? t = some p) : d.horizon t = p.basis := by
  rw [horizon, h]

theorem SameRegistration.dueTransfer? {d d' : Domain} (h : d.SameRegistration d') (t : Instant) :
    d'.dueTransfer? t = d.dueTransfer? t := by
  rw [Domain.dueTransfer?, Domain.dueTransfer?, h.transfer]

theorem SameRegistration.horizon {d d' : Domain} (h : d.SameRegistration d') (t : Instant) :
    d'.horizon t = d.horizon t := by
  rw [Domain.horizon, Domain.horizon, h.dueTransfer?]

/-- Renewals go by the registration and the expiration. -/
theorem SameRegistration.renews {d e : Domain} {time : Instant} (h : d.SameRegistration e)
    (hexp : e.expirationTime = d.expirationTime) (hd : d.Renews time) : e.Renews time := by
  refine ⟨h.suppressed.trans hd.unsuppressed, hexp ▸ hd.elapsed, ?_⟩
  rw [h.autorenewEndTime, hexp]
  exact hd.running

theorem Renews.mono {d : Domain} {t t' : Instant} (h : d.Renews t') (hle : t' ≤ t) : d.Renews t :=
  ⟨h.unsuppressed, Int.le_trans h.elapsed hle, h.running⟩

end Domain

variable {σ : Type} {engine : Engine σ} {observed t : Instant}

/-- The next step of a domain that is brought up to a time. -/
inductive Engine.Moves (engine : Engine σ) (observed t : Instant) :
    Domain → σ → Step → Domain → σ → Prop
  | renewal {d d' : Domain} {s s' : σ} {r : Renewal} {time : Instant} : d.horizon t = .ok time →
      d.Renews time → (engine.renew d observed d.expirationTime).Gives s r s' →
      d.renewedBy [r] = .ok d' →
      Moves engine observed t d s (.renewal r) d' s'
  | approval {d d' : Domain} {s s' : σ} {a : Approval} {p : PendingTransfer} {basis : Instant} :
      d.dueTransfer? t = some p → p.basis = .ok basis → ¬d.Renews basis →
      (engine.approve d p basis).Gives s (d', a) s' →
      Moves engine observed t d s (.approval a) d' s'

/-- All steps of a domain up to a time, until none is due. -/
inductive Engine.Course (engine : Engine σ) (observed t : Instant) :
    Domain → σ → List Step → Domain → σ → Prop
  | rest {d : Domain} {s : σ} :
      d.dueTransfer? t = none → ¬d.Renews t → Course engine observed t d s [] d s
  | step {d d₁ d₂ : Domain} {s s₁ s₂ : σ} {step : Step} {steps : List Step} :
      engine.Moves observed t d s step d₁ s₁ → Course engine observed t d₁ s₁ steps d₂ s₂ →
      Course engine observed t d s (step :: steps) d₂ s₂

/-- Renewals go on until there is none to make, and leave the rest of the domain as it was. -/
theorem renewals_end {d d' : Domain} {time : Instant} {rs : List Renewal} {s s' : σ}
    (h : engine.Renewals observed time d s rs d' s') : ¬d'.Renews time ∧ d.SameRegistration d' := by
  induction h with
  | stop h => exact ⟨h, .refl _⟩
  | next _ _ hd₁ _ ih => exact ⟨ih.1, (Domain.sameRegistration_of_renewedBy hd₁).trans ih.2⟩

/-- Renewals add their grace periods to those that there were. -/
theorem mem_gracePeriods_of_renewals {d d' : Domain} {time : Instant} {rs : List Renewal} {s s' : σ}
    (h : engine.Renewals observed time d s rs d' s') {g : GracePeriod} :
    g ∈ d'.gracePeriods ↔ g ∈ d.gracePeriods ∨ ∃ r ∈ rs, r.gracePeriod = g := by
  induction h with
  | stop _ => simp
  | next _ _ hd₁ _ ih =>
    rw [ih, Domain.gracePeriods_of_renewedBy hd₁, GraceOrder.mem_sort]
    simp [or_assoc, eq_comm]

theorem course_of_renewals {d d₁ d' : Domain} {time : Instant} {rs : List Renewal}
    {steps : List Step} {s s₁ s' : σ} (h : engine.Renewals observed time d s rs d₁ s₁)
    (hhorizon : d.horizon t = .ok time) (hrest : engine.Course observed t d₁ s₁ steps d' s') :
    engine.Course observed t d s (rs.map .renewal ++ steps) d' s' := by
  induction h with
  | stop _ => exact hrest
  | next hrenews hr hd₁ _ ih =>
    have hsame := Domain.sameRegistration_of_renewedBy hd₁
    exact .step (.renewal hhorizon hrenews hr hd₁) (ih ((hsame.horizon t).trans hhorizon) hrest)

theorem Engine.Course.exists_horizon {d d' : Domain} {steps : List Step} {s s' : σ}
    (h : engine.Course observed t d s steps d' s') : ∃ time, d.horizon t = .ok time := by
  cases h with
  | rest hdue _ => exact ⟨t, Domain.horizon_of_none hdue⟩
  | step hmove _ =>
    cases hmove with
    | renewal hhorizon _ _ _ => exact ⟨_, hhorizon⟩
    | approval hdue hbasis _ _ => exact ⟨_, (Domain.horizon_of_some hdue).trans hbasis⟩

/-- A course begins with renewals up to its horizon. -/
theorem renewals_of_course {d d' : Domain} {time : Instant} {steps : List Step} {s s' : σ}
    (h : engine.Course observed t d s steps d' s') (hhorizon : d.horizon t = .ok time) :
    ∃ rs d₁ s₁ rest, engine.Renewals observed time d s rs d₁ s₁ ∧
      engine.Course observed t d₁ s₁ rest d' s' ∧ steps = rs.map .renewal ++ rest := by
  induction h with
  | rest hdue hstop =>
    rw [Domain.horizon_of_none hdue] at hhorizon
    cases hhorizon
    exact ⟨[], _, _, [], .stop hstop, .rest hdue hstop, rfl⟩
  | step hmove hcourse ih =>
    cases hmove with
    | renewal hhorizon' hrenews hr hd₁ =>
      cases hhorizon'.symm.trans hhorizon
      have hsame := Domain.sameRegistration_of_renewedBy hd₁
      obtain ⟨rs, d₁, s₁, rest, hrs, hrest, rfl⟩ := ih ((hsame.horizon t).trans hhorizon)
      exact ⟨_ :: rs, d₁, s₁, rest, .next hrenews hr hd₁ hrs, hrest, rfl⟩
    | approval hdue hbasis hstop ha =>
      rw [Domain.horizon_of_some hdue] at hhorizon
      cases hbasis.symm.trans hhorizon
      exact ⟨[], _, _, _, .stop hstop, .step (.approval hdue hbasis hstop ha) hcourse, rfl⟩

/-- At rest a domain makes no step. -/
theorem eq_of_course_of_rest {d d' : Domain} {steps : List Step} {s s' : σ}
    (h : engine.Course observed t d s steps d' s') (hdue : d.dueTransfer? t = none)
    (hstop : ¬d.Renews t) : steps = [] ∧ d' = d ∧ s' = s := by
  cases h with
  | rest _ _ => exact ⟨rfl, rfl, rfl⟩
  | step hmove _ =>
    cases hmove with
    | renewal hhorizon hrenews _ _ =>
      cases (Domain.horizon_of_none hdue).symm.trans hhorizon
      exact absurd hrenews hstop
    | approval hdue' _ _ _ => cases hdue.symm.trans hdue'

/-- Renewed up to a transfer that is due, a domain makes the approval its next step. -/
theorem approval_of_course {d d' : Domain} {steps : List Step} {s s' : σ} {p : PendingTransfer}
    {basis : Instant} (h : engine.Course observed t d s steps d' s')
    (hdue : d.dueTransfer? t = some p) (hbasis : p.basis = .ok basis) (hstop : ¬d.Renews basis) :
    ∃ d₁ a s₁ rest,
      (engine.approve d p basis).Gives s (d₁, a) s₁ ∧ engine.Course observed t d₁ s₁ rest d' s' ∧
        steps = .approval a :: rest := by
  cases h with
  | rest hdue' _ => cases hdue.symm.trans hdue'
  | step hmove hcourse =>
    cases hmove with
    | renewal hhorizon hrenews _ _ =>
      cases ((Domain.horizon_of_some hdue).trans hbasis).symm.trans hhorizon
      exact absurd hrenews hstop
    | approval hdue' hbasis' _ ha =>
      cases hdue.symm.trans hdue'
      cases hbasis.symm.trans hbasis'
      exact ⟨_, _, _, _, ha, hcourse, rfl⟩

/-- Without a transfer that is due a course is a chain of renewals. -/
theorem course_of_none {d d' : Domain} {steps : List Step} {s s' : σ}
    (hdue : d.dueTransfer? t = none) :
    engine.Course observed t d s steps d' s' ↔
      ∃ rs, engine.Renewals observed t d s rs d' s' ∧ steps = rs.map .renewal := by
  constructor
  · intro h
    obtain ⟨rs, d₁, s₁, rest, hrs, hrest, rfl⟩ := renewals_of_course h (Domain.horizon_of_none hdue)
    obtain ⟨hstop, hsame⟩ := renewals_end hrs
    obtain ⟨rfl, rfl, rfl⟩ := eq_of_course_of_rest hrest ((hsame.dueTransfer? t).trans hdue) hstop
    exact ⟨rs, hrs, List.append_nil _⟩
  · rintro ⟨rs, hrs, rfl⟩
    obtain ⟨hstop, hsame⟩ := renewals_end hrs
    have hdue₁ : d'.dueTransfer? t = none := (hsame.dueTransfer? t).trans hdue
    have h := course_of_renewals hrs (Domain.horizon_of_none hdue) (.rest hdue₁ hstop)
    rwa [List.append_nil] at h

/-- Up to a transfer that is due a course is a chain of renewals, then the approval follows, and
then renewals again. -/
theorem course_of_some {d d' : Domain} {steps : List Step} {s s' : σ} {p : PendingTransfer}
    (hdue : d.dueTransfer? t = some p) : engine.Course observed t d s steps d' s' ↔
      ∃ basis rs d₁ s₁ d₂ a s₂ rs', p.basis = .ok basis ∧
        engine.Renewals observed basis d s rs d₁ s₁ ∧
        (engine.approve d₁ p basis).Gives s₁ (d₂, a) s₂ ∧
        engine.Renewals observed t d₂ s₂ rs' d' s' ∧
        steps = rs.map .renewal ++ .approval a :: rs'.map .renewal := by
  have hnone : ∀ {d₁ d₂ : Domain} {basis : Instant} {a : Approval} {s₁ s₂ : σ},
      (engine.approve d₁ p basis).Gives s₁ (d₂, a) s₂ → d₂.dueTransfer? t = none := by
    intro d₁ d₂ basis a s₁ s₂ ha
    rw [Domain.dueTransfer?,
      (Domain.handedOver_of_transferred (isApproval_of_gives ha).2.1).decided]
    rfl
  constructor
  · intro h
    obtain ⟨basis, hhorizon⟩ := h.exists_horizon
    have hbasis : p.basis = .ok basis := (Domain.horizon_of_some hdue).symm.trans hhorizon
    obtain ⟨rs, d₁, s₁, rest, hrs, hrest, rfl⟩ := renewals_of_course h hhorizon
    obtain ⟨hstop, hsame⟩ := renewals_end hrs
    obtain ⟨d₂, a, s₂, last, ha, hlast, rfl⟩ :=
      approval_of_course hrest ((hsame.dueTransfer? t).trans hdue) hbasis hstop
    obtain ⟨rs', hrs', rfl⟩ := (course_of_none (hnone ha)).1 hlast
    exact ⟨basis, rs, d₁, s₁, d₂, a, s₂, rs', hbasis, hrs, ha, hrs', rfl⟩
  · rintro ⟨basis, rs, d₁, s₁, d₂, a, s₂, rs', hbasis, hrs, ha, hrs', rfl⟩
    obtain ⟨hstop, hsame⟩ := renewals_end hrs
    have hdue₁ : d₁.dueTransfer? t = some p := (hsame.dueTransfer? t).trans hdue
    exact course_of_renewals hrs ((Domain.horizon_of_some hdue).trans hbasis)
      (.step (.approval hdue₁ hbasis hstop ha) ((course_of_none (hnone ha)).2 ⟨rs', hrs', rfl⟩))

/-- To settle the transfer that is due, and to renew what is left, is to go through the course. -/
theorem settle_autorenew_gives {d d' : Domain} {steps : List Step} {s s' : σ} :
    (∃ settled front s₁ rs,
      (engine.settle d.isAutorenewSuppressed d t).Gives s (settled, front) s₁ ∧
      (engine.autorenew d.isAutorenewSuppressed settled t t).Gives s₁ (d', rs) s' ∧
        steps = front ++ rs.map .renewal) ↔ engine.Course t t d s steps d' s' := by
  rw [Engine.settle]
  cases hdue : d.dueTransfer? t with
  | none =>
    simp only [Projecting.gives_pure, Prod.mk.injEq]
    rw [course_of_none hdue]
    constructor
    · rintro ⟨settled, front, s₁, rs, ⟨⟨rfl, rfl⟩, rfl⟩, hrs, rfl⟩
      exact ⟨rs, autorenew_gives.1 hrs, rfl⟩
    · rintro ⟨rs, hrs, rfl⟩
      exact ⟨d, [], s, rs, ⟨⟨rfl, rfl⟩, rfl⟩, autorenew_gives.2 hrs, rfl⟩
  | some p =>
    simp only [Projecting.gives_bind, Projecting.gives_ofExcept, Projecting.gives_pure,
      Prod.mk.injEq]
    rw [course_of_some hdue]
    constructor
    · rintro ⟨settled, front, s₃, rs', ⟨basis, _, ⟨hbasis, rfl⟩, ⟨d₁, rs⟩, s₁, hrs, ⟨d₂, a⟩, s₂, ha,
        ⟨rfl, rfl⟩, rfl⟩, hrs', rfl⟩
      have hrs := autorenew_gives.1 hrs
      have hsame := (Domain.handedOver_of_transferred (isApproval_of_gives ha).2.1).suppressed
      rw [← (renewals_end hrs).2.suppressed, ← hsame] at hrs'
      exact ⟨basis, rs, d₁, s₁, d₂, a, s₂, rs', hbasis, hrs, ha, autorenew_gives.1 hrs', by simp⟩
    · rintro ⟨basis, rs, d₁, s₁, d₂, a, s₂, rs', hbasis, hrs, ha, hrs', rfl⟩
      have hsame := (Domain.handedOver_of_transferred (isApproval_of_gives ha).2.1).suppressed
      have hrs' := autorenew_gives.2 hrs'
      rw [hsame, (renewals_end hrs).2.suppressed] at hrs'
      exact ⟨d₂, rs.map .renewal ++ [.approval a], s₂, rs', ⟨basis, s, ⟨hbasis, rfl⟩, (d₁, rs), s₁,
        autorenew_gives.2 hrs, (d₂, a), s₂, ha, ⟨rfl, rfl⟩, rfl⟩, hrs', by simp⟩

/-- The account of the steps that led to a domain. -/
def Outcome.account (d : Domain) (steps : List Step) (observed : Instant) : Outcome where
  domain := d.lapse observed
  newGracePeriods := (steps.flatMap Step.gracePeriods).filter fun g =>
    (d.lapse observed).gracePeriods.any (·.id = g.id)
  newBillingEvents := steps.flatMap Step.billingEvents
  transitions := Transition.inOrder (steps.map Step.transition ++
    (d.gracePeriods.filter (!·.activeAt observed)).map .ofExpired)

/-- What is picked out of the transitions of steps is all there, in some order, and nothing else
unless it is picked out of grace periods that end. -/
theorem Outcome.filterMap_transitions_account {α : Type} {f : Transition → Option α}
    (hf : ∀ g, f (.ofExpired g) = none) (d : Domain) (steps : List Step) (observed : Instant) :
    ((account d steps observed).transitions.filterMap f).Perm
      ((steps.map Step.transition).filterMap f) := by
  refine ((Transition.inOrder_perm _).filterMap _).trans ?_
  have hnone : ((d.gracePeriods.filter (!·.activeAt observed)).map Transition.ofExpired).filterMap
      f = [] := by
    rw [List.filterMap_eq_nil_iff]
    intro transition hmem
    obtain ⟨g, -, rfl⟩ := List.mem_map.1 hmem
    exact hf g
  rw [List.filterMap_append, hnone, List.append_nil]

/-- What is picked out of an approval's transition, and of no other, is all that is picked out. -/
theorem Outcome.filterMap_transitions_of_approval {α : Type} {f : Transition → Option α}
    (hrenewal : ∀ r, f (Step.renewal r).transition = none) (hexpired : ∀ g, f (.ofExpired g) = none)
    (d : Domain) (rs rs' : List Renewal) (a : Approval) (observed : Instant) :
    (account d (rs.map .renewal ++ .approval a ::
      rs'.map .renewal) observed).transitions.filterMap f =
        (f (Step.approval a).transition).toList := by
  have hnone : ∀ rs : List Renewal,
      ((rs.map Step.renewal).map Step.transition).filterMap f = [] := by
    intro rs
    rw [List.map_map, List.filterMap_map, List.filterMap_eq_nil_iff]
    exact fun r _ => hrenewal r
  have hpicked := filterMap_transitions_account hexpired d
    (rs.map Step.renewal ++ .approval a :: rs'.map Step.renewal) observed
  rw [List.map_append, List.map_cons, List.filterMap_append, hnone, List.filterMap_cons, hnone,
    List.nil_append] at hpicked
  cases ha : f (Step.approval a).transition with
  | none =>
    rw [ha] at hpicked
    exact hpicked.eq_nil
  | some b =>
    rw [ha] at hpicked
    exact List.perm_singleton.1 hpicked

/-- An account never fails: what is left of a domain's grace periods keeps its rules. -/
theorem Outcome.of_eq_ok (d : Domain) (steps : List Step) (observed : Instant) :
    Outcome.of d steps observed = .ok (.account d steps observed) := by
  rw [Outcome.of]
  split
  · next hempty =>
    rw [List.isEmpty_iff, List.filter_eq_nil_iff] at hempty
    have hself := Domain.lapse_eq_self (t := observed) fun g hg => by simpa using hempty g hg
    refine bind_eq_ok.2 ⟨d.lapse observed, ?_, rfl⟩
    rw [hself]
    rfl
  · refine bind_eq_ok.2 ⟨d.lapse observed, ?_, rfl⟩
    rw [Domain.Draft.build_eq_ok, Domain.toDraft_lapse]
    simp only [Domain.Draft.normal, Domain.toDraft, d.statuses_implicit,
      GraceOrder.sort_eq_self (d.grace_sorted.sublist List.filter_sublist)]

/-- A projection succeeds as its course does, with the account of that course. -/
theorem project_gives {d : Domain} {o : Outcome} {s s' : σ} :
    (engine.project d t).Gives s o s' ↔ d.tld = engine.config.tld ∧
      ∃ d' steps, engine.Course t t d s steps d' s' ∧ o = .account d' steps t := by
  by_cases htld : d.tld = engine.config.tld
  case neg => simp [Engine.project, htld]
  simp only [Engine.project, htld, ne_eq, not_true_eq_false, if_false, true_and,
    Projecting.gives_bind, Projecting.gives_ofExcept, Outcome.of_eq_ok, ← settle_autorenew_gives]
  constructor
  · rintro ⟨⟨settled, front⟩, s₁, hsettle, ⟨d', rs⟩, s₂, hrs, ho, rfl⟩
    cases ho
    exact ⟨d', _, ⟨settled, front, s₁, rs, hsettle, hrs, rfl⟩, rfl⟩
  · rintro ⟨d', _, ⟨settled, front, s₁, rs, hsettle, hrs, rfl⟩, rfl⟩
    exact ⟨(settled, front), s₁, hsettle, (d', rs), s', hrs, rfl, rfl⟩

/-- A bound on the steps that are still ahead. -/
def Domain.stepsLeft (d : Domain) : Nat :=
  d.expirationTime.yearsLeft + if d.transfer.pending?.isSome then 524286 else 0

/-- No course of a domain draws more identifiers. -/
def drawLimit : Nat := 3 * (2 * 524286)

theorem Domain.stepsLeft_le (d : Domain) : 3 * d.stepsLeft ≤ drawLimit := by
  have := d.expirationTime.yearsLeft_le
  rw [stepsLeft, drawLimit]
  split <;> omega

/-- A renewal takes one of the years that are left. -/
theorem Domain.stepsLeft_of_renewedBy {d d' : Domain} {r : Renewal}
    (hr : engine.IsRenewal d observed d.expirationTime r) (hd : d.renewedBy [r] = .ok d') :
    d'.stepsLeft + 1 = d.stepsLeft := by
  have hyears := Instant.yearsLeft_of_addYears_one hr.year
  rw [stepsLeft, stepsLeft, (sameRegistration_of_renewedBy hd).transfer,
    expirationTime_of_renewedBy hd]
  omega

namespace Engine.Moves

variable {d d' : Domain} {step : Step} {s s' : σ}

/-- A step draws its identifiers in order. -/
theorem drawIds_eq (h : engine.Moves observed t d s step d' s') :
    engine.ids.drawIds step.kinds s = (step.drawn, s') := by
  cases h with
  | renewal _ _ hr _ => exact (renew_gives.1 hr).2
  | approval _ _ _ ha => exact (isApproval_of_gives ha).2.2

theorem tld_eq (h : engine.Moves observed t d s step d' s') : d'.tld = d.tld := by
  cases h with
  | renewal _ _ _ hd => exact (Domain.sameRegistration_of_renewedBy hd).tld
  | approval _ _ _ ha => exact (Domain.handedOver_of_transferred (isApproval_of_gives ha).2.1).tld

theorem stepsLeft_lt (h : engine.Moves observed t d s step d' s') : d'.stepsLeft < d.stepsLeft := by
  cases h with
  | renewal _ _ hr hd =>
    have := Domain.stepsLeft_of_renewedBy (renew_gives.1 hr).1 hd
    omega
  | approval hdue _ _ ha =>
    -- The expiration can move back by any number of years, so the pending transfer pays for them
    -- all.
    have hbound := d'.expirationTime.yearsLeft_le
    have hpending := (Domain.dueTransfer?_eq_some.1 hdue).1
    rw [Domain.stepsLeft, Domain.stepsLeft, hpending,
      (Domain.handedOver_of_transferred (isApproval_of_gives ha).2.1).decided]
    simp only [Option.isSome_none, Option.isSome_some, if_true, Bool.false_eq_true, if_false]
    omega

/-- A grace period after the step was there before it or began with it. -/
theorem mem_gracePeriods (h : engine.Moves observed t d s step d' s') {g : GracePeriod}
    (hg : g ∈ d'.gracePeriods) : g ∈ d.gracePeriods ∨ g ∈ step.gracePeriods := by
  cases h with
  | renewal _ _ _ hd =>
    rw [Domain.gracePeriods_of_renewedBy hd, GraceOrder.mem_sort] at hg
    exact List.mem_append.1 hg
  | approval _ _ _ ha =>
    obtain ⟨hia, htransferred, -⟩ := isApproval_of_gives ha
    rw [(Domain.handedOver_of_transferred htransferred).gracePeriods] at hg
    exact .inr hg

end Engine.Moves

/-- Enough identifiers ahead of a domain: none of them in use, nor that of one of its grace
periods. -/
structure Engine.Supplied (engine : Engine σ) (d : Domain) (used : List AnyId) (s : σ) : Prop where
  fresh : engine.ids.FreshFor (3 * d.stepsLeft) used s
  noted : ∀ g ∈ d.gracePeriods, g.id.any ∈ used

theorem Engine.supplied_of_freshFor {d : Domain} {used : List AnyId} {s : σ}
    (h : engine.ids.FreshFor drawLimit used s) (hnoted : ∀ g ∈ d.gracePeriods, g.id.any ∈ used) :
    engine.Supplied d used s :=
  ⟨h.mono d.stepsLeft_le fun _ hu => hu, hnoted⟩

theorem Engine.Supplied.lapse {d : Domain} {used : List AnyId} {s : σ}
    (h : engine.Supplied d used s) : engine.Supplied (d.lapse t) used s :=
  ⟨h.fresh, fun g hg => h.noted g (List.mem_filter.1 hg).1⟩

/-- What a renewal draws is new, so the domain can be rebuilt with its grace period. -/
theorem Engine.Supplied.exists_renewedBy {d : Domain} {r : Renewal} {used : List AnyId} {s s' : σ}
    (hs : engine.Supplied d used s) (h : (engine.renew d observed d.expirationTime).Gives s r s') :
    ∃ d', d.renewedBy [r] = .ok d' := by
  obtain ⟨hr, hdraw⟩ := renew_gives.1 h
  have hlimit : r.kinds.length ≤ 3 * d.stepsLeft := by
    have hyears := Instant.yearsLeft_of_addYears_one hr.year
    rw [Domain.stepsLeft]
    show 3 ≤ _
    omega
  obtain ⟨-, hnew, -⟩ := hs.fresh.drawIds hdraw hlimit
  -- Grace periods that are over count as well: the builder would refuse a repeated name.
  have hother : ∀ g ∈ d.gracePeriods, g.id ≠ r.gracePeriod.id := by
    intro g hg heq
    exact hnew r.gracePeriod.id.any (by simp [Renewal.drawn]) (heq ▸ hs.noted g hg)
  exact Domain.exists_renewedBy (creationTime_le_of_year hr.year) hr.grace_owner hother

theorem Engine.Supplied.renewed {d d' : Domain} {r : Renewal} {used : List AnyId} {s s' : σ}
    (hs : engine.Supplied d used s) (h : (engine.renew d observed d.expirationTime).Gives s r s')
    (hd : d.renewedBy [r] = .ok d') : engine.Supplied d' (used ++ r.drawn) s' := by
  obtain ⟨hr, hdraw⟩ := renew_gives.1 h
  have hsteps : 3 * d'.stepsLeft + r.kinds.length ≤ 3 * d.stepsLeft := by
    have := Domain.stepsLeft_of_renewedBy hr hd
    show _ + 3 ≤ _
    omega
  obtain ⟨-, -, hfresh⟩ := hs.fresh.drawIds hdraw (by omega)
  refine ⟨hfresh.mono (by omega) fun _ hu => hu, fun g hg => ?_⟩
  rw [Domain.gracePeriods_of_renewedBy hd, GraceOrder.mem_sort, List.mem_append] at hg
  rcases hg with hg | hg
  · exact List.mem_append_left _ (hs.noted g hg)
  · cases List.mem_singleton.1 hg
    exact List.mem_append_right _ (by simp [Renewal.drawn])

theorem Engine.Moves.supplied {d d' : Domain} {step : Step} {s s' : σ} {used : List AnyId}
    (h : engine.Moves observed t d s step d' s') (hs : engine.Supplied d used s) :
    step.drawn.Nodup ∧ (∀ u ∈ step.drawn, u ∉ used) ∧
    engine.Supplied d' (used ++ step.drawn) s' := by
  have hlt := h.stepsLeft_lt
  have hlen := step.length_kinds_le
  obtain ⟨hnodup, hnew, hfresh⟩ := hs.fresh.drawIds h.drawIds_eq (by omega)
  refine ⟨hnodup, hnew, hfresh.mono (by omega) fun u hu => hu, fun g hg => ?_⟩
  rcases h.mem_gracePeriods hg with hg | hg
  · exact List.mem_append_left _ (hs.noted g hg)
  · exact List.mem_append_right _ (Step.id_mem_drawn hg)

namespace Engine.Course

variable {d d' : Domain} {steps : List Step} {s s' : σ}

theorem end_at_rest (h : engine.Course observed t d s steps d' s') :
    d'.dueTransfer? t = none ∧ ¬d'.Renews t := by
  induction h with
  | rest hdue hstop => exact ⟨hdue, hstop⟩
  | step _ _ ih => exact ih

theorem tld_eq (h : engine.Course observed t d s steps d' s') : d'.tld = d.tld := by
  induction h with
  | rest _ _ => rfl
  | step hmove _ ih => exact ih.trans hmove.tld_eq

/-- A course draws the identifiers of its steps, in order. -/
theorem drawIds_eq (h : engine.Course observed t d s steps d' s') :
    engine.ids.drawIds (steps.flatMap Step.kinds) s = (steps.flatMap Step.drawn, s') := by
  induction h with
  | rest _ _ => rfl
  | step hmove _ ih =>
    rw [List.flatMap_cons, List.flatMap_cons, IdSource.drawIds_append, hmove.drawIds_eq, ih]

theorem length_kinds_le (h : engine.Course observed t d s steps d' s') :
    (steps.flatMap Step.kinds).length ≤ drawLimit := by
  refine Nat.le_trans ?_ d.stepsLeft_le
  induction h with
  | rest _ _ => exact Nat.zero_le _
  | @step d d₁ d₂ s s₁ s₂ step steps hmove _ ih =>
    have hlt := hmove.stepsLeft_lt
    have hlen := step.length_kinds_le
    rw [List.flatMap_cons, List.length_append]
    omega

theorem supplied {used : List AnyId} (h : engine.Course observed t d s steps d' s')
    (hs : engine.Supplied d used s) : engine.Supplied d' (used ++ steps.flatMap Step.drawn) s' := by
  induction h generalizing used with
  | rest _ _ => simpa using hs
  | step hmove _ ih =>
    have hs := ih (hmove.supplied hs).2.2
    rwa [List.append_assoc, ← List.flatMap_cons] at hs

end Engine.Course

namespace Sample

def transfer : PendingTransfer where
  request := {
    gainingRegistrarId := ⟨"gaining"⟩
    losingRegistrarId := ⟨"losing"⟩
    requestTime := ⟨12479 * 172800000000000, by decide, by decide, by decide⟩
    expirationTime := ⟨12488 * 172800000000000, by decide, by decide, by decide⟩
    period := ⟨1, .years⟩
    fixedExpiration := none }
  approval := .of (some ⟨.ofNat (UInt64.size + 2)⟩) ⟨.ofNat (UInt64.size + 3)⟩
    ⟨.ofNat (UInt64.size + 4)⟩ .empty
  gaining_ne := by decide
  losing_ne := by decide
  registrars_ne := by decide
  requested_le := by decide
  charge_iff := by decide

/-- It runs out on a leap day, which the next years lack, and a transfer is requested two days
later. -/
def domain : Domain where
  repoId := ⟨"1-TEST"⟩
  name := "example.test"
  tld := ⟨"test"⟩
  creationTime := ⟨12111 * 172800000000000, by decide, by decide, by decide⟩
  expirationTime := ⟨12477 * 172800000000000, by decide, by decide, by decide⟩
  statuses := .ofList [.inactive, .pendingTransfer]
  nameservers := .empty
  sponsor := ⟨"losing"⟩
  autorenewEvent := ⟨.ofNat (UInt64.size + 1)⟩
  autorenewPollMessage := none
  autorenewEndTime := none
  gracePeriods := []
  transfer := .pending transfer
  lastUpdateTime := none
  lastUpdateRegistrar := none
  lastTransferTime := none
  deletionTime := none
  repoId_ne := by decide
  sponsor_ne := by decide
  under_tld := by decide
  label_ne := by decide
  created_le := by decide
  grace_owned := by simp
  grace_sorted := .nil
  grace_distinct := .nil
  statuses_implicit := by decide

def registry : Engine UInt64 where
  config := .ofPrice ⟨"test"⟩ (.ofMinor 800 .usd)
  prices := fun _ _ => .ok (.ofMinor 800 .usd)
  ids := .sequential

/-- Five days after the registration ran out, before the deadline of the transfer. -/
def renewed : Instant := ⟨12482 * 172800000000000, by decide, by decide, by decide⟩

/-- The day after the deadline of the transfer. -/
def settled : Instant := ⟨12489 * 172800000000000, by decide, by decide, by decide⟩

/-- Nine days after the deadline, when the transfer cannot be undone any more. -/
def confirmed : Instant := ⟨12497 * 172800000000000, by decide, by decide, by decide⟩

/-- A year later, after the first renewal by the new registrar. -/
def renewedAgain : Instant := ⟨12843 * 172800000000000, by decide, by decide, by decide⟩

end Sample

end NameRegistry.Registration
