import NameRegistry.Proofs.Projection.Course

/-! # Projecting in two steps

A domain that is projected and then projected again is where a single projection would have taken
it, with the same charges and cancellations, if the stop in between does not fall into the moment
before a deadline from which the approval is worked out. What is written down in between has lost
the grace periods that were over. No later step looks at these, so courses from domains that agree
up to them go on in parallel, as long as identifiers are fresh: a new grace period must not bear the
name of an old one on either side.

Charges note when they were made up. This is the one thing in which the two ways differ.
-/
namespace NameRegistry

namespace Billing

/-- The charge as made up at another time. A charge that was not made up has no such time. -/
def OneTime.createdAt (c : OneTime) (t : Instant) : OneTime :=
  { c with synthetic := c.synthetic.map fun origin => { origin with creationTime := t } }

def Event.createdAt (t : Instant) : Event → Event
  | .oneTime c => .oneTime (c.createdAt t)
  | e => e

end Billing

namespace Registration

namespace Step

/-- The step as observed at another time. -/
def seenAt (t : Instant) : Step → Step
  | renewal r => renewal { r with charge := r.charge.createdAt t }
  | approval a => approval a

theorem billingEvents_seenAt (t : Instant) (step : Step) :
    (step.seenAt t).billingEvents = step.billingEvents.map (Billing.Event.createdAt t) := by
  cases step with
  | renewal r => rfl
  | approval a =>
    show a.cancellation.toList.map _ = (a.cancellation.toList.map _).map _
    rw [List.map_map]
    rfl

end Step

variable {σ : Type} {engine : Engine σ} {observed t t₁ t₂ : Instant}

theorem Engine.IsRenewal.seenAt {d : Domain} {time : Instant} {r : Renewal}
    (h : engine.IsRenewal d observed time r) :
    engine.IsRenewal d t time { r with charge := r.charge.createdAt t } where
  time_eq := h.time_eq
  year := h.year
  registrar := h.registrar
  history := h.history
  grace_status := h.grace_status
  grace_owner := h.grace_owner
  grace_end := h.grace_end
  grace_registrar := h.grace_registrar
  grace_oneTime := h.grace_oneTime
  grace_recurring := h.grace_recurring
  price := h.price
  price_nonneg := h.price_nonneg
  charge := congrArg (Billing.OneTime.createdAt · t) h.charge

theorem Engine.Moves.seenAt {d d' : Domain} {step : Step} {s s' : σ}
    (h : engine.Moves observed t₁ d s step d' s') :
    engine.Moves t t₁ d s (step.seenAt t) d' s' := by
  cases h with
  | renewal hhorizon hrenews hr hd =>
    obtain ⟨hr, hdraw⟩ := renew_gives.1 hr
    exact .renewal hhorizon hrenews (renew_gives.2 ⟨hr.seenAt, hdraw⟩) hd
  | approval hdue hbasis hstop ha => exact .approval hdue hbasis hstop ha

/-- When a course is observed shows in its charges only. -/
theorem Engine.Course.seenAt {d d' : Domain} {steps : List Step} {s s' : σ}
    (h : engine.Course observed t₁ d s steps d' s') :
    engine.Course t t₁ d s (steps.map (·.seenAt t)) d' s' := by
  induction h with
  | rest hdue hstop => exact .rest hdue hstop
  | step hmove _ ih => exact .step hmove.seenAt ih

/-- The time does not fall between the deadline of a pending transfer and the moment just before
it. -/
def Domain.OffDeadline (d : Domain) (t : Instant) : Prop :=
  ∀ p ∈ d.transfer.pending?, ∀ basis, p.basis = .ok basis → t ≤ basis ∨ p.deadline ≤ t

theorem Domain.OffDeadline.le_basis {d : Domain} {p : PendingTransfer} {basis : Instant}
    (h : d.OffDeadline t) (hnone : d.dueTransfer? t = none)
    (hpending : d.transfer.pending? = some p) (hbasis : p.basis = .ok basis) : t ≤ basis := by
  rcases h p hpending basis hbasis with hle | hle
  · exact hle
  · exact absurd hle (Int.not_le.2 (Domain.dueTransfer?_eq_none.1 hnone p hpending))

theorem Domain.dueTransfer?_of_ge {d : Domain} {p : PendingTransfer} (hle : t₁ ≤ t₂)
    (h : d.dueTransfer? t₁ = some p) : d.dueTransfer? t₂ = some p := by
  obtain ⟨hpending, hdeadline⟩ := Domain.dueTransfer?_eq_some.1 h
  exact Domain.dueTransfer?_eq_some.2 ⟨hpending, Int.le_trans hdeadline hle⟩

namespace Engine.Moves

variable {d d' : Domain} {step : Step} {s s' : σ}

/-- A step starts no transfer. -/
theorem pending_of_pending (h : engine.Moves observed t d s step d' s') {p : PendingTransfer}
    (hp : d'.transfer.pending? = some p) : d.transfer.pending? = some p := by
  cases h with
  | renewal _ _ _ hd =>
    rwa [(Domain.sameRegistration_of_renewedBy hd).transfer] at hp
  | approval _ _ _ ha =>
    rw [(Domain.handedOver_of_transferred (isApproval_of_gives ha).2.1).decided] at hp
    cases hp

theorem offDeadline (h : engine.Moves observed t d s step d' s') (hoff : d.OffDeadline t₁) :
    d'.OffDeadline t₁ :=
  fun p hp => hoff p (h.pending_of_pending hp)

/-- The next step on the way to a later time is the next on the way to an earlier one, if there is
one. -/
theorem earlier (h : engine.Moves observed t₂ d s step d' s') (hle : t₁ ≤ t₂)
    (hoff : d.OffDeadline t₁) (hgoes : ¬(d.dueTransfer? t₁ = none ∧ ¬d.Renews t₁)) :
    engine.Moves observed t₁ d s step d' s' := by
  cases hdue₁ : d.dueTransfer? t₁ with
  | some p =>
    have hdue₂ := Domain.dueTransfer?_of_ge hle hdue₁
    cases h with
    | renewal hhorizon hrenews hr hd =>
      rw [Domain.horizon_of_some hdue₂, ← Domain.horizon_of_some hdue₁] at hhorizon
      exact .renewal hhorizon hrenews hr hd
    | approval hdue hbasis hstop ha =>
      cases hdue₂.symm.trans hdue
      exact .approval hdue₁ hbasis hstop ha
  | none =>
    have hrenews₁ : d.Renews t₁ := by
      by_cases hrenews : d.Renews t₁
      · exact hrenews
      · exact absurd ⟨hdue₁, hrenews⟩ hgoes
    cases h with
    | renewal _ _ hr hd => exact .renewal (Domain.horizon_of_none hdue₁) hrenews₁ hr hd
    | approval hdue hbasis hstop _ =>
      -- A renewal that has come by now comes before the deadline as well.
      have hle := hoff.le_basis hdue₁ (Domain.dueTransfer?_eq_some.1 hdue).1 hbasis
      exact absurd (hrenews₁.mono hle) hstop

theorem later (h : engine.Moves observed t₁ d s step d' s') (hle : t₁ ≤ t₂)
    (hoff : d.OffDeadline t₁) {time : Instant} (hgoes : d'.horizon t₂ = .ok time) :
    engine.Moves observed t₂ d s step d' s' := by
  cases h with
  | renewal hhorizon hrenews hr hd =>
    rw [(Domain.sameRegistration_of_renewedBy hd).horizon] at hgoes
    refine .renewal hgoes ?_ hr hd
    cases hdue₁ : d.dueTransfer? t₁ with
    | some p =>
      rw [Domain.horizon_of_some hdue₁] at hhorizon
      rw [Domain.horizon_of_some (Domain.dueTransfer?_of_ge hle hdue₁)] at hgoes
      cases hhorizon.symm.trans hgoes
      exact hrenews
    | none =>
      rw [Domain.horizon_of_none hdue₁] at hhorizon
      cases hhorizon
      cases hdue₂ : d.dueTransfer? t₂ with
      | none =>
        rw [Domain.horizon_of_none hdue₂] at hgoes
        cases hgoes
        exact hrenews.mono hle
      | some p =>
        rw [Domain.horizon_of_some hdue₂] at hgoes
        exact hrenews.mono (hoff.le_basis hdue₁ (Domain.dueTransfer?_eq_some.1 hdue₂).1 hgoes)
  | approval hdue hbasis hstop ha =>
    exact .approval (Domain.dueTransfer?_of_ge hle hdue) hbasis hstop ha

end Engine.Moves

namespace Engine.Course

variable {d d₁ d' : Domain} {steps steps₁ steps₂ : List Step} {s s₁ s' : σ}

theorem offDeadline (h : engine.Course observed t d s steps d' s') (hoff : d.OffDeadline t₁) :
    d'.OffDeadline t₁ := by
  induction h with
  | rest _ _ => exact hoff
  | step hmove _ ih => exact ih (hmove.offDeadline hoff)

/-- On its way to a later time a course passes where it would have come to rest earlier. -/
theorem split (h : engine.Course observed t₂ d s steps d' s') (hle : t₁ ≤ t₂)
    (hoff : d.OffDeadline t₁) :
    ∃ steps₁ d₁ s₁ steps₂, engine.Course observed t₁ d s steps₁ d₁ s₁ ∧
      engine.Course observed t₂ d₁ s₁ steps₂ d' s' ∧ steps = steps₁ ++ steps₂ := by
  induction h with
  | @rest d s hdue hstop =>
    exact ⟨[], d, s, [], .rest (Domain.dueTransfer?_of_le hdue hle) fun hrenews =>
      hstop (hrenews.mono hle), .rest hdue hstop, rfl⟩
  | @step d d₁ d₂ s s₁ s₂ step steps hmove hcourse ih =>
    by_cases hrest : d.dueTransfer? t₁ = none ∧ ¬d.Renews t₁
    · exact ⟨[], d, s, step :: steps, .rest hrest.1 hrest.2, .step hmove hcourse, rfl⟩
    · obtain ⟨front, d₃, s₃, back, hfront, hback, rfl⟩ := ih (hmove.offDeadline hoff)
      exact ⟨step :: front, d₃, s₃, back, .step (hmove.earlier hle hoff hrest) hfront, hback, rfl⟩

theorem join (h : engine.Course observed t₁ d s steps₁ d₁ s₁)
    (h' : engine.Course observed t₂ d₁ s₁ steps₂ d' s') (hle : t₁ ≤ t₂) (hoff : d.OffDeadline t₁) :
    engine.Course observed t₂ d s (steps₁ ++ steps₂) d' s' := by
  induction h with
  | rest _ _ => exact h'
  | step hmove _ ih =>
    have hrest := ih h' (hmove.offDeadline hoff)
    obtain ⟨time, hgoes⟩ := hrest.exists_horizon
    exact .step (hmove.later hle hoff hgoes) hrest

end Engine.Course

/-- Domains that agree up to the grace periods that are over agree in the rest. -/
theorem Domain.sameRegistration_of_lapse {d e : Domain} (h : d.lapse t = e.lapse t) :
    d.SameRegistration e where
  repoId := (congrArg Domain.repoId h).symm
  name := (congrArg Domain.name h).symm
  tld := (congrArg Domain.tld h).symm
  creationTime := (congrArg Domain.creationTime h).symm
  statuses := (congrArg Domain.statuses h).symm
  sponsor := (congrArg Domain.sponsor h).symm
  autorenewEvent := (congrArg Domain.autorenewEvent h).symm
  autorenewEndTime := (congrArg Domain.autorenewEndTime h).symm
  transfer := (congrArg Domain.transfer h).symm
  deletionTime := (congrArg Domain.deletionTime h).symm

theorem Domain.expirationTime_of_lapse {d e : Domain} (h : d.lapse t = e.lapse t) :
    d.expirationTime = e.expirationTime := by
  simpa using congrArg Domain.expirationTime h

theorem Domain.renews_of_lapse {d e : Domain} {time : Instant} (h : d.lapse t = e.lapse t)
    (hrenews : d.Renews time) : e.Renews time :=
  (Domain.sameRegistration_of_lapse h).renews (Domain.expirationTime_of_lapse h).symm hrenews

/-- A renewal adds the same to both. -/
theorem Domain.lapse_renewedBy {d d' e e' : Domain} {r : Renewal} (h : d.lapse t = e.lapse t)
    (hd : d.renewedBy [r] = .ok d') (he : e.renewedBy [r] = .ok e') : d'.lapse t = e'.lapse t := by
  obtain ⟨hrest, hactive⟩ := Domain.lapse_eq_iff.1 h
  have hfilter : ∀ {f f' : Domain}, f.renewedBy [r] = .ok f' →
      f'.gracePeriods.filter (·.activeAt t) =
        GraceOrder.sort (f.gracePeriods.filter (·.activeAt t) ++
          [r.gracePeriod].filter (·.activeAt t)) := by
    intro f f' hf
    have hgrace := Domain.gracePeriods_of_renewedBy hf
    have hdistinct := GraceOrder.nodup_of_sort (hgrace ▸ f'.grace_distinct)
    rw [hgrace, GraceOrder.filter_sort _ hdistinct, List.filter_append]
  refine Domain.lapse_eq_iff.2 ⟨?_, ?_⟩
  · rw [Domain.renewedBy_one.1 hd, Domain.renewedBy_one.1 he,
      (Domain.sameRegistration_of_lapse h).sponsor]
    exact congrArg (fun x : Domain.Draft => { x with
      expirationTime := some r.expirationTime
      lastUpdateTime := some r.time
      lastUpdateRegistrar := some d.sponsor }) hrest
  · rw [hfilter hd, hfilter he, hactive]

/-- A domain makes the steps of one that it agrees with, from the same state of the source. -/
theorem Engine.Moves.of_lapse {d d' e : Domain} {step : Step} {s s' : σ} {used : List AnyId}
    (h : engine.Moves observed t₂ d s step d' s') (hagree : d.lapse t₁ = e.lapse t₁)
    (hlater : ∀ p ∈ d.transfer.pending?, ∀ basis, p.basis = .ok basis → t₁ ≤ basis)
    (hs : engine.Supplied e used s) :
    ∃ e', engine.Moves observed t₂ e s step e' s' ∧ d'.lapse t₁ = e'.lapse t₁ := by
  have hsame := Domain.sameRegistration_of_lapse hagree
  have hexp := Domain.expirationTime_of_lapse hagree
  cases h with
  | renewal hhorizon hrenews hr hd =>
    rw [← hsame.renew, hexp] at hr
    obtain ⟨e', he⟩ := hs.exists_renewedBy hr
    exact ⟨e', .renewal ((hsame.horizon t₂).trans hhorizon)
      (Domain.renews_of_lapse hagree hrenews) hr he, Domain.lapse_renewedBy hagree hd he⟩
  | @approval _ _ _ a p basis hdue hbasis hstop ha =>
    have hle := hlater p (Domain.dueTransfer?_eq_some.1 hdue).1 basis hbasis
    rw [← approve_lapse d hbasis hle, hagree, approve_lapse e hbasis hle] at ha
    exact ⟨d', .approval ((hsame.dueTransfer? t₂).trans hdue) hbasis
      (fun hrenews => hstop (Domain.renews_of_lapse hagree.symm hrenews)) ha, rfl⟩

theorem Engine.Course.of_lapse {d d' e : Domain} {steps : List Step} {s s' : σ} {used : List AnyId}
    (h : engine.Course observed t₂ d s steps d' s') (hagree : d.lapse t₁ = e.lapse t₁)
    (hlater : ∀ p ∈ d.transfer.pending?, ∀ basis, p.basis = .ok basis → t₁ ≤ basis)
    (hs : engine.Supplied e used s) :
    ∃ e', engine.Course observed t₂ e s steps e' s' ∧ d'.lapse t₁ = e'.lapse t₁ := by
  induction h generalizing e used with
  | rest hdue hstop =>
    have hsame := Domain.sameRegistration_of_lapse hagree
    exact ⟨e, .rest ((hsame.dueTransfer? t₂).trans hdue)
      (fun hrenews => hstop (Domain.renews_of_lapse hagree.symm hrenews)), hagree⟩
  | step hmove _ ih =>
    obtain ⟨e₁, hmove', hagree₁⟩ := hmove.of_lapse hagree hlater hs
    obtain ⟨e', hcourse, hagree'⟩ := ih hagree₁ (fun p hp => hlater p (hmove.pending_of_pending hp))
      (hmove'.supplied hs).2.2
    exact ⟨e', .step hmove' hcourse, hagree'⟩

/-- At rest at a time off the deadline, a domain is approved from a moment that is not earlier. -/
theorem le_basis_of_course {d d' : Domain} {steps : List Step} {s s' : σ}
    (h : engine.Course observed t₁ d s steps d' s') (hoff : d.OffDeadline t₁) :
    ∀ p ∈ d'.transfer.pending?, ∀ basis, p.basis = .ok basis → t₁ ≤ basis :=
  fun _ hp _ hbasis => (h.offDeadline hoff).le_basis h.end_at_rest.1 hp hbasis

/-- A course that is interrupted, observed and gone on with from what was written down then. -/
theorem course_by_way {d d' : Domain} {steps : List Step} {s s' : σ} {used : List AnyId}
    (h : engine.Course t₂ t₂ d s steps d' s') (hle : t₁ ≤ t₂) (hoff : d.OffDeadline t₁)
    (hs : engine.Supplied d used s) :
    ∃ steps₁ d₁ s₁ steps₂ d₂, engine.Course t₁ t₁ d s steps₁ d₁ s₁ ∧
      engine.Course t₂ t₂ (d₁.lapse t₁) s₁ steps₂ d₂ s' := by
  obtain ⟨steps₁, d₁, s₁, steps₂, h₁, h₂, rfl⟩ := h.split hle hoff
  have hagree : d₁.lapse t₁ = (d₁.lapse t₁).lapse t₁ := (d₁.lapse_lapse (Int.le_refl _)).symm
  obtain ⟨d₂, h₂, -⟩ := h₂.of_lapse hagree (le_basis_of_course h₁ hoff) (h₁.supplied hs).lapse
  exact ⟨steps₁.map (·.seenAt t₁), d₁, s₁, steps₂, d₂, h₁.seenAt, h₂⟩

/-- A course that was interrupted leads where it would have led without. -/
theorem course_straight {d d₁ d₂ : Domain} {steps₁ steps₂ : List Step} {s s₁ s₂ : σ}
    {used : List AnyId} (h₁ : engine.Course t₁ t₁ d s steps₁ d₁ s₁)
    (h₂ : engine.Course t₂ t₂ (d₁.lapse t₁) s₁ steps₂ d₂ s₂) (hle : t₁ ≤ t₂)
    (hoff : d.OffDeadline t₁) (hs : engine.Supplied d used s) :
    ∃ d', engine.Course t₂ t₂ d s (steps₁.map (·.seenAt t₂) ++ steps₂) d' s₂ ∧
      d'.lapse t₂ = d₂.lapse t₂ := by
  have hagree : (d₁.lapse t₁).lapse t₁ = d₁.lapse t₁ := d₁.lapse_lapse (Int.le_refl _)
  have hlater := le_basis_of_course h₁ hoff
  obtain ⟨d', h₂, hd'⟩ := h₂.of_lapse hagree hlater (h₁.supplied hs)
  refine ⟨d', (h₁.seenAt.join h₂ hle hoff), ?_⟩
  rw [← d'.lapse_lapse hle, ← hd', d₂.lapse_lapse hle]

/-- With fresh identifiers, and unless the stop falls between a deadline and the moment before it, a
projection succeeds if and only if it does so with a stop on the way. Both ways lead to the same
domain and the same state of the source, and their billing events are equal but for when charges
were made up. -/
theorem project_by_way {d : Domain} {s : σ} (hle : t₁ ≤ t₂) (hoff : d.OffDeadline t₁)
    (hfresh : engine.ids.FreshFor drawLimit (d.gracePeriods.map (·.id.any)) s) :
    ((∃ o s', (engine.project d t₂).Gives s o s') ↔ ∃ o₁ s₁ o₂ s₂,
      (engine.project d t₁).Gives s o₁ s₁ ∧ (engine.project o₁.domain t₂).Gives s₁ o₂ s₂) ∧
    ∀ {o o₁ o₂ : Outcome} {s' s₁ s₂ : σ}, (engine.project d t₂).Gives s o s' →
      (engine.project d t₁).Gives s o₁ s₁ → (engine.project o₁.domain t₂).Gives s₁ o₂ s₂ →
      o.domain = o₂.domain ∧ s' = s₂ ∧
        o.newBillingEvents = o₁.newBillingEvents.map (.createdAt t₂) ++ o₂.newBillingEvents := by
  have hs := Engine.supplied_of_freshFor hfresh fun g hg => List.mem_map_of_mem hg
  have hstraight : ∀ {o₁ o₂ : Outcome} {s₁ s₂ : σ}, (engine.project d t₁).Gives s o₁ s₁ →
      (engine.project o₁.domain t₂).Gives s₁ o₂ s₂ → ∃ o, (engine.project d t₂).Gives s o s₂ ∧
        o.domain = o₂.domain ∧
        o.newBillingEvents = o₁.newBillingEvents.map (.createdAt t₂) ++ o₂.newBillingEvents := by
    intro o₁ o₂ s₁ s₂ h₁ h₂
    obtain ⟨htld, d₁, steps₁, hcourse₁, rfl⟩ := project_gives.1 h₁
    obtain ⟨-, d₂, steps₂, hcourse₂, rfl⟩ := project_gives.1 h₂
    obtain ⟨d', hcourse, hd'⟩ := course_straight hcourse₁ hcourse₂ hle hoff hs
    refine ⟨_, project_gives.2 ⟨htld, d', _, hcourse, rfl⟩, hd', ?_⟩
    show (steps₁.map (·.seenAt t₂) ++ steps₂).flatMap Step.billingEvents = _
    rw [List.flatMap_append, List.flatMap_map]
    simp only [Step.billingEvents_seenAt, Outcome.account, List.map_flatMap]
  constructor
  · constructor
    · rintro ⟨o, s', h⟩
      obtain ⟨htld, d', steps, hcourse, rfl⟩ := project_gives.1 h
      obtain ⟨steps₁, d₁, s₁, steps₂, d₂, hcourse₁, hcourse₂⟩ := course_by_way hcourse hle hoff hs
      exact ⟨_, s₁, _, s', project_gives.2 ⟨htld, d₁, steps₁, hcourse₁, rfl⟩,
        project_gives.2 ⟨hcourse₁.tld_eq.trans htld, d₂, steps₂, hcourse₂, rfl⟩⟩
    · rintro ⟨o₁, s₁, o₂, s₂, h₁, h₂⟩
      obtain ⟨o, h, -⟩ := hstraight h₁ h₂
      exact ⟨o, s₂, h⟩
  · intro o o₁ o₂ s' s₁ s₂ h h₁ h₂
    obtain ⟨o', h', hdomain, hevents⟩ := hstraight h₁ h₂
    obtain ⟨rfl, rfl⟩ := Projecting.gives_unique h h'
    exact ⟨hdomain, rfl, hevents⟩

theorem project_by_way_sample :
    Sample.renewed ≤ Sample.settled ∧ Sample.domain.OffDeadline Sample.renewed ∧
    Sample.registry.ids.FreshFor drawLimit [] 0 ∧ ∃ o₁ s₁ o₂ s₂,
      (Sample.registry.project Sample.domain Sample.renewed).Gives 0 o₁ s₁ ∧
        (Sample.registry.project o₁.domain Sample.settled).Gives s₁ o₂ s₂ := by
  have hle : Sample.renewed ≤ Sample.settled := by decide
  have hoff : Sample.domain.OffDeadline Sample.renewed := by
    intro p hp basis hbasis
    obtain rfl : Sample.transfer = p := Option.some.inj hp
    have hbefore : ∀ basis ∈ Sample.transfer.deadline.shift? (.millisBack 1),
        Sample.renewed ≤ basis := by
      decide +kernel
    exact .inl (hbefore basis (Instant.shift_eq_ok.1 hbasis))
  have hfresh : Sample.registry.ids.FreshFor drawLimit [] 0 :=
    IdSource.sequential_freshFor (by decide) (by simp)
  obtain ⟨o, s', h⟩ := Projecting.exists_gives
    (x := Sample.registry.project Sample.domain Sample.settled) (s := 0) (by decide +kernel)
  exact ⟨hle, hoff, hfresh, (project_by_way hle hoff hfresh).1.1 ⟨o, s', h⟩⟩

end Registration
end NameRegistry
