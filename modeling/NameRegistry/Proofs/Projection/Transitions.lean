import NameRegistry.Proofs.Projection.Deadline
import NameRegistry.Proofs.Projection.GracePeriods

/-! # What the log tells

The log of a projection lists its transitions in the order of time. The domain is as the step made
last leaves it. So the log tells what has become of the registration if the step made last is the
latest, too. It is, but for one case: the approval of a transfer leads back to an expiration before
the deadline, and all the renewals that follow are due before it. They are listed before the
approval then, although the domain is as the last of them leaves it.
-/
namespace NameRegistry.Registration

theorem exists_getLast?_of_mem {α : Type} {xs : List α} {x : α} (hx : x ∈ xs) :
    ∃ y, xs.getLast? = some y :=
  ⟨_, List.getLast?_eq_some_getLast (List.ne_nil_of_mem hx)⟩

/-- Of a list in the order of time the last is the latest. -/
theorem time_le_of_getLast? {α : Type} (time : α → Instant) {xs : List α} {x y : α}
    (hsorted : xs.Pairwise fun a b => time a ≤ time b) (hlast : xs.getLast? = some x)
    (hy : y ∈ xs) : time y ≤ time x := by
  obtain ⟨front, rfl⟩ := List.getLast?_eq_some_iff.1 hlast
  rcases List.mem_append.1 hy with hy | hy
  · exact (List.pairwise_append.1 hsorted).2.2 y hy x (List.mem_singleton_self x)
  · rw [List.mem_singleton.1 hy]
    exact Int.le_refl _

namespace Transition

/-- Renewals and approvals change the registration; the end of a grace period does not. -/
def changesRegistration : Transition → Bool
  | transferServerApproved .. | autoRenewed .. => true
  | gracePeriodExpired .. => false

/-- The expiration that a change of the registration sets. -/
def expirationTime? : Transition → Option Instant
  | transferServerApproved _ _ _ expirationTime _ _ | autoRenewed _ expirationTime _ _ =>
    some expirationTime
  | gracePeriodExpired .. => none

/-- The registrar whose domain it is after a change of the registration. -/
def registrar? : Transition → Option RegistrarId
  | transferServerApproved _ registrar .. | autoRenewed _ _ registrar _ => some registrar
  | gracePeriodExpired .. => none

theorem inOrder_sorted (ts : List Transition) :
    (inOrder ts).Pairwise fun a b => a.time ≤ b.time := by
  have h : (inOrder ts).Pairwise fun a b => decide (a.time ≤ b.time) = true := by
    apply List.pairwise_mergeSort
    · intro a b c hab hbc
      rw [decide_eq_true_eq] at hab hbc ⊢
      exact Int.le_trans hab hbc
    · intro a b
      rw [Bool.or_eq_true, decide_eq_true_eq, decide_eq_true_eq]
      exact Int.le_total _ _
  exact h.imp of_decide_eq_true

/-- The last of a list is the last of those that are picked out, if it is one of them. -/
theorem getLast?_filter_of_pos {ts : List Transition} {p : Transition → Bool} {x : Transition}
    (hlast : ts.getLast? = some x) (hx : p x = true) : (ts.filter p).getLast? = some x := by
  obtain ⟨front, rfl⟩ := List.getLast?_eq_some_iff.1 hlast
  have hkept : [x].filter p = [x] := List.filter_cons_of_pos hx
  rw [List.filter_append, hkept, List.getLast?_concat]

/-- Of the transitions that are picked out, the last in order is the one that was made last of the
latest. -/
theorem getLast?_filter_inOrder {p : Transition → Bool} {ts : List Transition} {x : Transition}
    (hlast : ((ts.filter p).filter (·.time = x.time)).getLast? = some x)
    (hlatest : ∀ y ∈ ts.filter p, y.time ≤ x.time) : ((inOrder ts).filter p).getLast? = some x := by
  have hsame : ((inOrder ts).filter p).filter (·.time = x.time) =
      (ts.filter p).filter (·.time = x.time) := by
    rw [List.filter_filter, List.filter_filter]
    apply filter_inOrder
    -- They are all of one time, so their order is that in which they were made.
    apply List.Pairwise.imp_of_mem (R := fun _ _ => True)
    · intro a b ha hb _
      rw [List.mem_filter, Bool.and_eq_true, decide_eq_true_eq] at ha hb
      rw [ha.2.1, hb.2.1]
      exact Int.le_refl _
    · exact List.pairwise_of_forall fun _ _ => trivial
  have hx : x ∈ (inOrder ts).filter p := by
    have hmem := List.mem_of_getLast? hlast
    rw [← hsame] at hmem
    exact (List.mem_filter.1 hmem).1
  obtain ⟨z, hz⟩ := exists_getLast?_of_mem hx
  have hle : z.time ≤ x.time :=
    hlatest z ((((inOrder_perm ts).filter p).mem_iff).1 (List.mem_of_getLast? hz))
  have hge : x.time ≤ z.time :=
    time_le_of_getLast? time ((inOrder_sorted ts).sublist List.filter_sublist) hz hx
  have htime : z.time = x.time := Instant.ext (Int.le_antisymm hle hge)
  rw [← hlast, ← hsame, hz]
  exact (getLast?_filter_of_pos hz (decide_eq_true htime)).symm

end Transition

/-- The domain is as this change of its registration has left it. -/
structure Domain.IsLeftBy (d : Domain) (x : Transition) : Prop where
  expirationTime : x.expirationTime? = some d.expirationTime
  sponsor : x.registrar? = some d.sponsor
  lastUpdateTime : d.lastUpdateTime = some x.time
  lastUpdateRegistrar : d.lastUpdateRegistrar = x.registrar?

variable {σ : Type} {engine : Engine σ} {observed t : Instant}

theorem Domain.horizon_le {d : Domain} {time : Instant} (h : d.horizon t = .ok time) :
    time ≤ t := by
  cases hdue : d.dueTransfer? t with
  | none =>
    cases (horizon_of_none hdue).symm.trans h
    exact Int.le_refl _
  | some p =>
    have hbasis : p.basis = .ok time := (horizon_of_some hdue).symm.trans h
    exact Int.le_trans (Int.le_of_lt (PendingTransfer.basis_lt hbasis).1)
      (dueTransfer?_eq_some.1 hdue).2

theorem Step.changesRegistration_transition (step : Step) :
    step.transition.changesRegistration = true := by
  cases step <;> rfl

namespace Engine.Moves

variable {d d' : Domain} {step : Step} {s s' : σ}

theorem isLeftBy (h : engine.Moves observed t d s step d' s') : d'.IsLeftBy step.transition := by
  cases h with
  | renewal _ _ hr hd =>
    have hir := (renew_gives.1 hr).1
    have hdraft := Domain.renewedBy_one.1 hd
    have hsponsor := (Domain.sameRegistration_of_renewedBy hd).sponsor
    have htime : d'.lastUpdateTime = some _ := congrArg Domain.Draft.lastUpdateTime hdraft
    have hregistrar : d'.lastUpdateRegistrar = some d.sponsor :=
      congrArg Domain.Draft.lastUpdateRegistrar hdraft
    refine ⟨?_, ?_, htime, ?_⟩
    · exact congrArg some (Domain.expirationTime_of_renewedBy hd).symm
    · exact congrArg some (hir.registrar.trans hsponsor.symm)
    · exact hregistrar.trans (congrArg some hir.registrar.symm)
  | approval _ _ _ ha =>
    obtain ⟨hia, htransferred, -⟩ := isApproval_of_gives ha
    have hdraft := Domain.transferred_eq_ok.1 htransferred
    have hsponsor : some d'.sponsor = some _ := congrArg Domain.Draft.sponsor hdraft
    have htime : d'.lastUpdateTime = some _ := congrArg Domain.Draft.lastUpdateTime hdraft
    have hregistrar : d'.lastUpdateRegistrar = some _ :=
      congrArg Domain.Draft.lastUpdateRegistrar hdraft
    refine ⟨?_, ?_, ?_, ?_⟩
    · exact congrArg some (Domain.handedOver_of_transferred htransferred).expirationTime.symm
    · exact (congrArg some hia.gaining).trans hsponsor.symm
    · exact htime.trans (congrArg some hia.time_eq.symm)
    · exact hregistrar.trans (congrArg some hia.gaining.symm)

theorem time_le (h : engine.Moves observed t d s step d' s') : step.transition.time ≤ t := by
  cases h with
  | renewal hhorizon hrenews hr _ =>
    have htime := (renew_gives.1 hr).1.time_eq
    show Renewal.time _ ≤ t
    rw [htime]
    exact Int.le_trans hrenews.elapsed (Domain.horizon_le hhorizon)
  | approval hdue _ _ ha =>
    have htime := (isApproval_of_gives ha).1.time_eq
    show Approval.time _ ≤ t
    rw [htime]
    exact (Domain.dueTransfer?_eq_some.1 hdue).2

end Engine.Moves

namespace Engine.Course

variable {d d' : Domain} {steps : List Step} {s s' : σ}

theorem eq_of_nil (h : engine.Course observed t d s [] d' s') : d' = d := by
  cases h
  rfl

/-- The domain at the end is as the last step leaves it. -/
theorem isLeftBy (h : engine.Course observed t d s steps d' s') {last : Step}
    (hlast : steps.getLast? = some last) : d'.IsLeftBy last.transition := by
  induction h with
  | rest _ _ => cases hlast
  | @step d d₁ d₂ s s₁ s₂ step steps hmove hcourse ih =>
    rw [List.getLast?_cons] at hlast
    cases hsteps : steps.getLast? with
    | none =>
      rw [hsteps] at hlast
      cases hlast
      cases List.getLast?_eq_none_iff.1 hsteps
      rw [hcourse.eq_of_nil]
      exact hmove.isLeftBy
    | some last' =>
      rw [hsteps] at hlast
      cases hlast
      exact ih hsteps

theorem time_le (h : engine.Course observed t d s steps d' s') :
    ∀ step ∈ steps, step.transition.time ≤ t := by
  induction h with
  | rest _ _ => exact fun _ hstep => absurd hstep List.not_mem_nil
  | step hmove _ ih => exact List.forall_mem_cons.2 ⟨hmove.time_le, ih⟩

end Engine.Course

namespace Outcome

/-- The changes of the registration in the log. -/
def changes (o : Outcome) : List Transition := o.transitions.filter Transition.changesRegistration

/-- The log tells what has become of the registration: if it lists no change, there was none; the
last change names the expiration and the sponsor, and the latest, whichever of several that is, the
last update. -/
structure LogTells (o : Outcome) (d : Domain) : Prop where
  unchanged : o.changes = [] →
    o.domain.expirationTime = d.expirationTime ∧ o.domain.sponsor = d.sponsor ∧
      o.domain.lastUpdateTime = d.lastUpdateTime ∧
      o.domain.lastUpdateRegistrar = d.lastUpdateRegistrar
  last : ∀ x ∈ o.changes.getLast?,
    x.expirationTime? = some o.domain.expirationTime ∧ x.registrar? = some o.domain.sponsor
  latest : ∀ x ∈ o.changes, (∀ y ∈ o.changes, y.time ≤ x.time) →
    o.domain.lastUpdateTime = some x.time ∧ o.domain.lastUpdateRegistrar = x.registrar?

variable {d : Domain} {steps : List Step} {x : Transition}

/-- The steps are the changes that are listed. -/
theorem filter_changesRegistration (gs : List Billing.GracePeriod) :
    (steps.map Step.transition ++
      gs.map Transition.ofExpired).filter Transition.changesRegistration =
        steps.map Step.transition := by
  rw [List.filter_append, List.filter_eq_self.2, List.filter_eq_nil_iff.2, List.append_nil]
  · intro y hy
    obtain ⟨g, -, rfl⟩ := List.mem_map.1 hy
    exact Bool.false_ne_true
  · intro y hy
    obtain ⟨step, -, rfl⟩ := List.mem_map.1 hy
    exact step.changesRegistration_transition

theorem mem_changes_account :
    x ∈ (account d steps t).changes ↔ ∃ step ∈ steps, step.transition = x := by
  rw [changes, account, ((Transition.inOrder_perm _).filter _).mem_iff,
    filter_changesRegistration, List.mem_map]

theorem getLast?_changes_account
    (hlast : ((steps.map Step.transition).filter (·.time = x.time)).getLast? = some x)
    (hlatest : ∀ step ∈ steps, step.transition.time ≤ x.time) :
    (account d steps t).changes.getLast? = some x := by
  apply Transition.getLast?_filter_inOrder
  · rwa [filter_changesRegistration]
  · rw [filter_changesRegistration]
    exact List.forall_mem_map.2 hlatest

theorem sorted_account (d : Domain) (steps : List Step) (t : Instant) :
    (account d steps t).transitions.Pairwise fun a b => a.time ≤ b.time :=
  Transition.inOrder_sorted _

/-- Nothing is listed that comes after the time of observation. -/
theorem time_le_of_mem_account (hsteps : ∀ step ∈ steps, step.transition.time ≤ t)
    (hx : x ∈ (account d steps t).transitions) : x.time ≤ t := by
  rcases List.mem_append.1 ((Transition.inOrder_perm _).mem_iff.1 hx) with hx | hx
  · obtain ⟨step, hstep, rfl⟩ := List.mem_map.1 hx
    exact hsteps step hstep
  · obtain ⟨g, hg, rfl⟩ := List.mem_map.1 hx
    have hover := (List.mem_filter.1 hg).2
    simp only [Billing.GracePeriod.activeAt, Bool.not_eq_true', decide_eq_false_iff_not] at hover
    exact Int.not_lt.1 hover

end Outcome

/-- If the last step is the latest, and what is as late is for the same registrar, the log tells
what has become of the registration. -/
theorem logTells_of_course {d d' : Domain} {steps : List Step} {s s' : σ}
    (h : engine.Course observed t d s steps d' s')
    (hlatest : ∀ last ∈ steps.getLast?, ∀ step ∈ steps,
      step.transition.time ≤ last.transition.time ∧
      (step.transition.time = last.transition.time →
        step.transition.registrar? = last.transition.registrar?)) :
    (Outcome.account d' steps t).LogTells d := by
  cases hlast : steps.getLast? with
  | none =>
    cases List.getLast?_eq_none_iff.1 hlast
    have hnone : ∀ x, x ∉ (Outcome.account d' [] t).changes := by
      intro x hx
      obtain ⟨_, hstep, -⟩ := Outcome.mem_changes_account.1 hx
      cases hstep
    cases h.eq_of_nil
    exact ⟨fun _ => ⟨rfl, rfl, rfl, rfl⟩, fun x hx => absurd (List.mem_of_getLast? hx) (hnone x),
      fun x hx => absurd hx (hnone x)⟩
  | some last =>
    have hleft := h.isLeftBy hlast
    have hmem : last.transition ∈ (Outcome.account d' steps t).changes :=
      Outcome.mem_changes_account.2 ⟨last, List.mem_of_getLast? hlast, rfl⟩
    have hnamed : (Outcome.account d' steps t).changes.getLast? = some last.transition := by
      apply Outcome.getLast?_changes_account
      · apply Transition.getLast?_filter_of_pos
        · rw [List.getLast?_map, hlast]
          rfl
        · exact decide_eq_true rfl
      · exact fun step hstep => (hlatest last hlast step hstep).1
    refine ⟨fun hnone => ?_, ?_, ?_⟩
    · rw [hnone] at hmem
      cases hmem
    · intro x hx
      cases hnamed.symm.trans hx
      exact ⟨hleft.expirationTime, hleft.sponsor⟩
    · intro x hx hmax
      obtain ⟨step, hstep, rfl⟩ := Outcome.mem_changes_account.1 hx
      obtain ⟨hle, hregistrar⟩ := hlatest last hlast step hstep
      have htime : step.transition.time = last.transition.time :=
        Instant.ext (Int.le_antisymm hle (hmax _ hmem))
      rw [htime, hregistrar htime]
      exact ⟨hleft.lastUpdateTime, hleft.lastUpdateRegistrar⟩

/-- What is renewed is not suppressed. -/
theorem unsuppressed_of_mem {d d' : Domain} {time : Instant} {rs : List Renewal}
    {r : Renewal} {s s' : σ} (h : engine.Renewals observed time d s rs d' s') (hr : r ∈ rs) :
    d.isAutorenewSuppressed = false := by
  cases h with
  | stop _ => cases hr
  | next hrenews _ _ _ => exact hrenews.unsuppressed

/-- Of a chain of renewals the last is the latest, and all are for one registrar. -/
theorem latest_of_renewals {d d' : Domain} {time : Instant} {rs : List Renewal}
    {last : Renewal} {s s' : σ} (h : engine.Renewals observed time d s rs d' s')
    (hlast : rs.getLast? = some last) :
    ∀ r ∈ rs, r.time ≤ last.time ∧ r.registrar = last.registrar := by
  intro r hr
  obtain ⟨_, hir⟩ := isRenewal_of_mem h hr
  obtain ⟨_, hir'⟩ := isRenewal_of_mem h (List.mem_of_getLast? hlast)
  refine ⟨time_le_of_getLast? Renewal.time (le_time_of_renewals h).2 hlast hr, ?_⟩
  rw [hir.registrar, hir'.registrar]

/-- Without an approval the log tells what has become of the registration. -/
theorem logTells_of_renewals {d d' : Domain} {rs : List Renewal} {s s' : σ}
    (h : engine.Renewals t t d s rs d' s')
    (hcourse : engine.Course t t d s (rs.map .renewal) d' s') :
    (Outcome.account d' (rs.map .renewal) t).LogTells d := by
  apply logTells_of_course hcourse
  rintro last hlast _ hstep
  obtain ⟨r, hr, rfl⟩ := List.mem_map.1 hstep
  rw [List.getLast?_map] at hlast
  obtain ⟨r', hr', rfl⟩ := Option.map_eq_some_iff.1 hlast
  obtain ⟨hle, hregistrar⟩ := latest_of_renewals h hr' r hr
  exact ⟨hle, fun _ => congrArg some hregistrar⟩

namespace Engine.Handover

variable {d : Domain} {p : PendingTransfer} {o : Outcome} {s : σ} (w : engine.Handover d t s p o)

theorem mem_steps {step : Step} : step ∈ w.steps ↔ (∃ r ∈ w.before, .renewal r = step) ∨
    step = .approval w.approval ∨ ∃ r ∈ w.after, .renewal r = step := by
  rw [steps, List.mem_append, List.mem_cons, List.mem_map, List.mem_map]

theorem changes_eq : o.changes = (Outcome.account w.final w.steps t).changes :=
  congrArg Outcome.changes w.account_eq

theorem transition_mem_changes {step : Step} (hstep : step ∈ w.steps) :
    step.transition ∈ o.changes := by
  rw [w.changes_eq]
  exact Outcome.mem_changes_account.2 ⟨step, hstep, rfl⟩

theorem time_before : ∀ r ∈ w.before, r.time < p.deadline := by
  intro r hr
  obtain ⟨_, e, -, -, hruns, hir⟩ := renewal_of_mem w.renewals_before hr
  rw [hir.time_eq]
  exact Int.lt_of_le_of_lt (not_endsBy.1 hruns).1 (PendingTransfer.basis_lt w.basis_eq).1

theorem registrar_after : ∀ r ∈ w.after, r.registrar = p.request.gainingRegistrarId := by
  intro r hr
  obtain ⟨_, hir⟩ := isRenewal_of_mem w.renewals_after hr
  have hdraft := Domain.transferred_eq_ok.1 (isApproval_of_gives w.approves).2.1
  have hsponsor : some w.transferred.sponsor = some p.request.gainingRegistrarId :=
    congrArg Domain.Draft.sponsor hdraft
  exact hir.registrar.trans (Option.some.inj hsponsor)

/-- From the deadline on, everything is for the registrar that gains the domain. -/
theorem registrar_of_deadline_le {step : Step} (hstep : step ∈ w.steps)
    (hlate : p.deadline ≤ step.transition.time) :
    step.transition.registrar? = some p.request.gainingRegistrarId := by
  rcases w.mem_steps.1 hstep with ⟨r, hr, rfl⟩ | rfl | ⟨r, hr, rfl⟩
  · exact absurd (w.time_before r hr) (Int.not_lt.2 hlate)
  · exact congrArg some w.isApproval.gaining
  · exact congrArg some (w.registrar_after r hr)

theorem unsuppressed_of_after {r : Renewal} (hr : r ∈ w.after) :
    d.isAutorenewSuppressed = false := by
  rw [← (renewals_end w.renewals_before).2.suppressed, ← w.handedOver.suppressed]
  exact unsuppressed_of_mem w.renewals_after hr

theorem getLast?_steps :
    w.steps.getLast? = some ((w.after.getLast?.map .renewal).getD (.approval w.approval)) := by
  rw [steps, List.getLast?_append, List.getLast?_cons, List.getLast?_map]
  rfl

/-- The last step is the latest, unless it comes before the deadline. -/
theorem time_le_getLast {last step : Step} (hlast : w.steps.getLast? = some last)
    (hlate : p.deadline ≤ last.transition.time) (hstep : step ∈ w.steps) :
    step.transition.time ≤ last.transition.time := by
  rcases w.mem_steps.1 hstep with ⟨r, hr, rfl⟩ | rfl | ⟨r, hr, rfl⟩
  · exact Int.le_trans (Int.le_of_lt (w.time_before r hr)) hlate
  · exact Int.le_trans (Int.le_of_eq (congrArg Instant.ticks w.isApproval.time_eq)) hlate
  · obtain ⟨r', hr'⟩ := exists_getLast?_of_mem hr
    rw [w.getLast?_steps, hr'] at hlast
    cases hlast
    exact (latest_of_renewals w.renewals_after hr' r hr).1

theorem lastUpdateTime_eq (hdue : d.dueTransfer? t = some p) {last : Step}
    (hlast : w.steps.getLast? = some last) :
    o.domain.lastUpdateTime = some last.transition.time := by
  rw [w.domain_eq]
  exact ((w.course hdue).isLeftBy hlast).lastUpdateTime

/-- The last change that is listed is the latest, and from the deadline on. -/
theorem exists_getLast?_changes : ∃ step ∈ w.steps, o.changes.getLast? = some step.transition ∧
    p.deadline ≤ step.transition.time ∧ ∀ x ∈ o.changes, x.time ≤ step.transition.time := by
  have happroval := w.transition_mem_changes (w.mem_steps.2 (.inr (.inl rfl)))
  obtain ⟨y, hy⟩ := exists_getLast?_of_mem happroval
  have hsorted : o.changes.Pairwise fun a b => a.time ≤ b.time := by
    rw [w.changes_eq]
    exact (Outcome.sorted_account w.final w.steps t).sublist List.filter_sublist
  have hlatest : ∀ x ∈ o.changes, x.time ≤ y.time :=
    fun x hx => time_le_of_getLast? Transition.time hsorted hy hx
  have hmem := List.mem_of_getLast? hy
  rw [w.changes_eq] at hmem
  obtain ⟨step, hstep, rfl⟩ := Outcome.mem_changes_account.1 hmem
  refine ⟨step, hstep, hy, ?_, hlatest⟩
  rw [← w.isApproval.time_eq]
  exact hlatest _ happroval

include w in
/-- The log tells what has become of the registration exactly if the last update is not from before
the deadline. -/
theorem logTells_iff (hdue : d.dueTransfer? t = some p) :
    o.LogTells d ↔ ∀ time ∈ o.domain.lastUpdateTime, p.deadline ≤ time := by
  constructor
  · intro htells time htime
    obtain ⟨step, -, hlast, hdeadline, hlatest⟩ := w.exists_getLast?_changes
    cases (htells.latest _ (List.mem_of_getLast? hlast) hlatest).1.symm.trans htime
    exact hdeadline
  · intro hlate
    rw [w.account_eq]
    apply logTells_of_course (w.course hdue)
    intro last hlast step hstep
    have hdeadline := hlate _ (w.lastUpdateTime_eq hdue hlast)
    refine ⟨w.time_le_getLast hlast hdeadline hstep, fun htime => ?_⟩
    rw [w.registrar_of_deadline_le (List.mem_of_getLast? hlast) hdeadline]
    apply w.registrar_of_deadline_le hstep
    rwa [htime]

/-- A last update from before the deadline is that of a renewal after the approval. -/
theorem exists_after_of_lt (hdue : d.dueTransfer? t = some p) {time : Instant}
    (htime : o.domain.lastUpdateTime = some time) (hearly : time < p.deadline) :
    ∃ r, w.after.getLast? = some r ∧ r.time = time := by
  have hlast := w.getLast?_steps
  rw [w.lastUpdateTime_eq hdue hlast] at htime
  cases hafter : w.after.getLast? with
  | none =>
    rw [hafter] at htime
    cases htime
    have hdeadline : w.approval.time = p.deadline := w.isApproval.time_eq
    exact absurd hearly (Int.not_lt.2 (Int.le_of_eq (congrArg Instant.ticks hdeadline.symm)))
  | some r =>
    rw [hafter] at htime
    cases htime
    exact ⟨r, rfl, rfl⟩

/-- The approval is listed last then, although renewals were made after it. -/
theorem getLast?_changes_of_lt (hdue : d.dueTransfer? t = some p) {time : Instant}
    (htime : o.domain.lastUpdateTime = some time) (hearly : time < p.deadline) :
    o.changes.getLast? = some (Step.approval w.approval).transition := by
  obtain ⟨r, hlast, rfl⟩ := w.exists_after_of_lt hdue htime hearly
  obtain ⟨step, hstep, hlisted, hdeadline, -⟩ := w.exists_getLast?_changes
  rcases w.mem_steps.1 hstep with ⟨r', hr', rfl⟩ | rfl | ⟨r', hr', rfl⟩
  · exact absurd (w.time_before r' hr') (Int.not_lt.2 hdeadline)
  · exact hlisted
  · have hle := (latest_of_renewals w.renewals_after hlast r' hr').1
    exact absurd (Int.lt_of_le_of_lt hle hearly) (Int.not_lt.2 hdeadline)

include w in
/-- Such a renewal is of an expiration that the transfer fixes or, without one, leaves between the
basis and the deadline. -/
theorem lastUpdateTime_lt (hdue : d.dueTransfer? t = some p) {time : Instant}
    (htime : o.domain.lastUpdateTime = some time) (hearly : time < p.deadline) :
    (∃ fixed ∈ p.request.fixedExpiration, fixed ≤ time) ∨ p.request.fixedExpiration = none ∧
      ∃ basis k, p.basis = .ok basis ∧ basis < time ∧
        d.expirationTime.anniversary? k = some time := by
  obtain ⟨r, hlast, rfl⟩ := w.exists_after_of_lt hdue htime hearly
  have hr := List.mem_of_getLast? hlast
  cases hfixed : p.request.fixedExpiration with
  | some fixed =>
    have hexpiration := w.isApproval.expiration
    rw [Domain.transferredExpiration, hfixed] at hexpiration
    cases hexpiration
    refine .inl ⟨_, rfl, ?_⟩
    rw [← w.handedOver.expirationTime]
    exact (le_time_of_renewals w.renewals_after).1 r hr
  | none =>
    obtain ⟨k, e, he, -, hruns, hir⟩ := renewal_of_mem w.renewals_after hr
    have hrunning := w.unsuppressed_of_after hr
    rw [w.autorenewEndTime_eq] at hruns
    rw [hir.time_eq] at hearly ⊢
    refine .inr ⟨rfl, w.basis, w.before.length, w.basis_eq, ?_⟩
    exact (w.deadline_le_of_after hrunning hfixed he hruns).resolve_left (Int.not_le.2 hearly)

end Engine.Handover

/-- The log lists everything in the order of time, nothing of it later than the time of observation,
and the last change names the sponsor. It tells in full what has become of the registration, unless
a transfer is due and the last update is from before its deadline. That takes a transfer that fixes
the expiration so early, or one that leaves an expiration between the basis and the deadline as it
is. -/
theorem log_tells_registration {d : Domain} {o : Outcome} {s s' : σ}
    (h : (engine.project d t).Gives s o s') :
    (o.transitions.Pairwise fun a b => a.time ≤ b.time) ∧ (∀ x ∈ o.transitions, x.time ≤ t) ∧
    (∀ x ∈ o.changes.getLast?, x.registrar? = some o.domain.sponsor) ∧
    (o.LogTells d ↔ ∀ p ∈ d.dueTransfer? t, ∀ time ∈ o.domain.lastUpdateTime, p.deadline ≤ time) ∧
    ∀ p ∈ d.dueTransfer? t, ∀ time ∈ o.domain.lastUpdateTime, time < p.deadline →
      (∃ fixed ∈ p.request.fixedExpiration, fixed ≤ time) ∨ p.request.fixedExpiration = none ∧
        ∃ basis k, p.basis = .ok basis ∧ basis < time ∧
          d.expirationTime.anniversary? k = some time := by
  obtain ⟨-, d', steps, hcourse, ho⟩ := project_gives.1 h
  have hsorted : o.transitions.Pairwise fun a b => a.time ≤ b.time := by
    rw [ho]
    exact Outcome.sorted_account d' steps t
  have hnone_later : ∀ x ∈ o.transitions, x.time ≤ t := by
    rw [ho]
    exact fun x hx => Outcome.time_le_of_mem_account hcourse.time_le hx
  cases hdue : d.dueTransfer? t with
  | none =>
    obtain ⟨rs, hrs, rfl⟩ := (course_of_none hdue).1 hcourse
    have htells : o.LogTells d := by
      rw [ho]
      exact logTells_of_renewals hrs hcourse
    refine ⟨hsorted, hnone_later, fun x hx => (htells.last x hx).2, ?_, ?_⟩
    · exact iff_of_true htells fun _ hp => absurd hp (Option.not_mem_none _)
    · exact fun _ hp => absurd hp (Option.not_mem_none _)
  | some p =>
    obtain ⟨w⟩ := exists_handover hdue h
    refine ⟨hsorted, hnone_later, ?_, ?_, ?_⟩
    · intro x hx
      obtain ⟨step, hstep, hlast, hdeadline, -⟩ := w.exists_getLast?_changes
      cases hlast.symm.trans hx
      have hsponsor : some o.domain.sponsor = some p.request.gainingRegistrarId :=
        congrArg Domain.Draft.sponsor w.toDraft_eq
      exact (w.registrar_of_deadline_le hstep hdeadline).trans hsponsor.symm
    · rw [w.logTells_iff hdue]
      constructor
      · rintro hlate _ ⟨⟩
        exact hlate
      · exact fun hlate => hlate p rfl
    · rintro _ ⟨⟩ time htime hearly
      exact w.lastUpdateTime_lt hdue htime hearly

/-- After the transfer of the sample domain the last update is the approval, and the log says so. -/
theorem log_tells_registration_sample : ∃ o s',
    (Sample.registry.project Sample.domain Sample.settled).Gives 0 o s' ∧
      Sample.domain.dueTransfer? Sample.settled = some Sample.transfer ∧
      o.domain.lastUpdateTime = some Sample.transfer.deadline ∧ o.LogTells Sample.domain := by
  have hdue : Sample.domain.dueTransfer? Sample.settled = some Sample.transfer := by decide
  obtain ⟨o, ho, hupdate⟩ :
      ∃ o ∈ ((Sample.registry.project Sample.domain Sample.settled).run.run 0).1.toOption,
        o.domain.lastUpdateTime = some Sample.transfer.deadline := by decide +kernel
  obtain ⟨s', h⟩ := Projecting.gives_of_toOption ho
  obtain ⟨-, -, -, htells, -⟩ := log_tells_registration h
  refine ⟨o, s', h, hdue, hupdate, htells.2 ?_⟩
  intro p hp time htime
  cases hdue.symm.trans hp
  cases hupdate.symm.trans htime
  exact Int.le_refl _

namespace Sample

/-- The transfer for no time, with an expiration five days before its deadline. -/
def shortTransfer : PendingTransfer where
  request := { freeTransfer.request with
    fixedExpiration := some ⟨12483 * 172800000000000, by decide, by decide, by decide⟩ }
  approval := freeTransfer.approval
  gaining_ne := by decide
  losing_ne := by decide
  registrars_ne := by decide
  requested_le := by decide
  charge_iff := by decide

def shortDomain : Domain := { domain with transfer := .pending shortTransfer }

end Sample

/-- A transfer can fix an expiration before its deadline. The renewal that follows is dated before
the approval: the log ends with the approval, although the domain is as the renewal leaves it. -/
theorem early_expiration_renewed : ∃ (o : Outcome) (s' : UInt64) (x : Transition),
    Sample.shortDomain.dueTransfer? Sample.settled = some Sample.shortTransfer ∧
      (Sample.registry.project Sample.shortDomain Sample.settled).Gives 0 o s' ∧
      o.changes.getLast? = some x ∧ (∀ y ∈ o.changes, y.time ≤ x.time) ∧
      x.expirationTime? ≠ some o.domain.expirationTime ∧ o.domain.lastUpdateTime ≠ some x.time ∧
      o.domain.lastUpdateTime = Sample.shortTransfer.request.fixedExpiration := by
  have hdue : Sample.shortDomain.dueTransfer? Sample.settled = some Sample.shortTransfer := by
    decide
  obtain ⟨o, ho, hrenewed, hupdate⟩ :
      ∃ o ∈ ((Sample.registry.project Sample.shortDomain Sample.settled).run.run 0).1.toOption,
        some o.domain.expirationTime ≠ Sample.shortTransfer.request.fixedExpiration ∧
          o.domain.lastUpdateTime = Sample.shortTransfer.request.fixedExpiration := by
            decide +kernel
  obtain ⟨s', h⟩ := Projecting.gives_of_toOption ho
  obtain ⟨w⟩ := exists_handover hdue h
  have hlast := w.getLast?_changes_of_lt hdue hupdate (by decide)
  obtain ⟨step, -, hlisted, -, hlatest⟩ := w.exists_getLast?_changes
  rw [← Option.some.inj (hlast.symm.trans hlisted)] at hlatest
  have htime : w.approval.time = Sample.shortTransfer.deadline := w.isApproval.time_eq
  have hexpiration : Sample.shortTransfer.request.fixedExpiration =
      some w.approval.expirationTime := by
    have hexpiration := w.isApproval.expiration
    rw [Domain.transferredExpiration] at hexpiration
    exact congrArg some (Except.ok.inj hexpiration)
  refine ⟨o, s', _, hdue, h, hlast, hlatest, ?_, ?_, hupdate⟩
  · rw [hexpiration] at hrenewed
    exact hrenewed.symm
  · rw [hupdate]
    show _ ≠ some w.approval.time
    rw [htime]
    decide

end NameRegistry.Registration
