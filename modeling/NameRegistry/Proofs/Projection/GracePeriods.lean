import Mathlib.Data.List.Flatten
import Mathlib.Data.List.Nodup
import NameRegistry.Proofs.Projection.Handover

/-! # What becomes of grace periods

Grace periods are kept twice: with the domain, from which a transfer drops them all and the
projection those that are over, and with the steps that begin them. The outcome matches the two by
identifier. Identifiers are fresh, so the grace periods there were and those that begin have
distinct ones, and a match is the same grace period. The main statement: none is lost or listed
twice, and what a transfer has dropped does not come back.
-/
namespace NameRegistry.Registration

open Billing (GracePeriod)

variable {σ : Type} {engine : Engine σ} {observed t : Instant}

/-- The grace periods of a step bear identifiers that were drawn for them. -/
theorem Step.graceIds_sublist (step : Step) :
    (step.gracePeriods.map (·.id.any)).Sublist step.drawn := by
  cases step with
  | renewal r => exact ((List.Sublist.refl [_]).cons _).trans (List.sublist_append_left [_, _] [_])
  | approval a => exact List.sublist_append_right _ _

namespace Engine.Course

variable {d d' : Domain} {steps : List Step} {s s' : σ}

/-- A grace period at the end was there before or began on the way. -/
theorem mem_gracePeriods (h : engine.Course observed t d s steps d' s') {g : GracePeriod}
    (hg : g ∈ d'.gracePeriods) : g ∈ d.gracePeriods ++ steps.flatMap Step.gracePeriods := by
  induction h with
  | rest _ _ => exact List.mem_append_left _ hg
  | step hmove _ ih =>
    rw [List.flatMap_cons, List.mem_append, List.mem_append]
    rcases List.mem_append.1 (ih hg) with hg | hg
    · exact (hmove.mem_gracePeriods hg).imp id .inl
    · exact .inr (.inr hg)

/-- With fresh identifiers no two grace periods share one, whether they were there or began on the
way. -/
theorem distinct_gracePeriods (h : engine.Course observed t d s steps d' s')
    (hfresh : engine.ids.FreshFor drawLimit (d.gracePeriods.map (·.id.any)) s) :
    ((d.gracePeriods ++ steps.flatMap Step.gracePeriods).map (·.id)).Nodup := by
  obtain ⟨hdrawn, hnew, -⟩ := hfresh.drawIds h.drawIds_eq h.length_kinds_le
  have hsub : ((steps.flatMap Step.gracePeriods).map (·.id.any)).Sublist
      (steps.flatMap Step.drawn) := by
    rw [List.map_flatMap]
    exact List.Sublist.flatMap_right _ fun step _ => step.graceIds_sublist
  have hcreated : ((steps.flatMap Step.gracePeriods).map (·.id)).Nodup := by
    apply List.Nodup.of_map (·.any)
    rw [List.map_map]
    exact hsub.nodup hdrawn
  rw [List.map_append, List.nodup_append]
  refine ⟨d.grace_distinct, hcreated, ?_⟩
  rintro _ hid _ hid' rfl
  obtain ⟨g, hg, rfl⟩ := List.mem_map.1 hid
  obtain ⟨g', hg', heq⟩ := List.mem_map.1 hid'
  apply hnew g.id.any
  · exact hsub.subset (List.mem_map.2 ⟨g', hg', congrArg (·.any) heq⟩)
  · exact List.mem_map_of_mem hg

variable (h : engine.Course t t d s steps d' s')
  (hfresh : engine.ids.FreshFor drawLimit (d.gracePeriods.map (·.id.any)) s)

include h hfresh

/-- What the outcome matches by identifier is what the domain has of the grace periods that
began. -/
theorem newGracePeriods_eq : (Outcome.account d' steps t).newGracePeriods =
    (steps.flatMap Step.gracePeriods).filter (· ∈ (d'.lapse t).gracePeriods) := by
  have hdistinct := h.distinct_gracePeriods hfresh
  apply List.filter_congr
  intro g hg
  rw [List.any_eq, decide_eq_decide]
  constructor
  · rintro ⟨g', hg', heq⟩
    have hg'' := h.mem_gracePeriods (List.mem_filter.1 hg').1
    cases List.inj_on_of_nodup_map hdistinct hg'' (List.mem_append_right _ hg)
      (of_decide_eq_true heq)
    exact hg'
  · intro hg
    exact ⟨g, hg, decide_eq_true rfl⟩

/-- New are the grace periods whose identifier was not there before, each once. -/
theorem newGracePeriods_perm : (Outcome.account d' steps t).newGracePeriods.Perm
    ((d'.lapse t).gracePeriods.filter fun g => g.id ∉ d.gracePeriods.map (·.id)) := by
  have hdistinct := h.distinct_gracePeriods hfresh
  rw [List.map_append, List.nodup_append] at hdistinct
  obtain ⟨-, hcreated, hapart⟩ := hdistinct
  rw [h.newGracePeriods_eq hfresh]
  apply (List.perm_ext_iff_of_nodup ?_ ?_).2
  · intro g
    rw [List.mem_filter, List.mem_filter, decide_eq_true_eq, decide_eq_true_eq, and_comm]
    apply and_congr_right
    intro hg
    constructor
    · intro hnew hold
      exact hapart _ hold _ (List.mem_map_of_mem hnew) rfl
    · intro hnew
      have hmem := List.mem_append.1 (h.mem_gracePeriods (List.mem_filter.1 hg).1)
      exact hmem.resolve_left fun hold => hnew (List.mem_map_of_mem hold)
  · exact (List.Nodup.of_map _ hcreated).filter _
  · exact (List.Nodup.of_map _ (d'.lapse t).grace_distinct).filter _

end Engine.Course

theorem gracePeriods_of_map_renewal (rs : List Renewal) :
    (rs.map Step.renewal).flatMap Step.gracePeriods = rs.map (·.gracePeriod) := by
  rw [List.flatMap_map, List.map_eq_flatMap]
  rfl

/-- Without a transfer no grace period is dropped before it is over. -/
theorem gracePeriods_of_renewals {d d' : Domain} {rs : List Renewal} {s s' : σ}
    (h : engine.Renewals t t d s rs d' s') (hcourse : engine.Course t t d s (rs.map .renewal) d' s')
    (hfresh : engine.ids.FreshFor drawLimit (d.gracePeriods.map (·.id.any)) s) :
    (Outcome.account d' (rs.map .renewal) t).newGracePeriods =
        (rs.map (·.gracePeriod)).filter (·.activeAt t) ∧
      (d'.lapse t).gracePeriods.Perm (d.gracePeriods.filter (·.activeAt t) ++
        (rs.map (·.gracePeriod)).filter (·.activeAt t)) := by
  have hdistinct := hcourse.distinct_gracePeriods hfresh
  have hmem : ∀ {g : GracePeriod}, g ∈ (d'.lapse t).gracePeriods ↔
      (g ∈ d.gracePeriods ∨ g ∈ rs.map (·.gracePeriod)) ∧ g.activeAt t = true := by
    intro g
    rw [Domain.gracePeriods_lapse, List.mem_filter, mem_gracePeriods_of_renewals h, List.mem_map]
  rw [gracePeriods_of_map_renewal] at hdistinct
  constructor
  · rw [hcourse.newGracePeriods_eq hfresh, gracePeriods_of_map_renewal]
    apply List.filter_congr
    intro g hg
    rw [Bool.eq_iff_iff, decide_eq_true_eq, hmem]
    exact and_iff_right (.inr hg)
  · rw [← List.filter_append]
    apply (List.perm_ext_iff_of_nodup ?_ ?_).2
    · intro g
      rw [hmem, List.mem_filter, List.mem_append]
    · exact List.Nodup.of_map _ (d'.lapse t).grace_distinct
    · exact (List.Nodup.of_map _ hdistinct).filter _

namespace Engine.Handover

variable {d : Domain} {p : PendingTransfer} {o : Outcome} {s : σ} (w : engine.Handover d t s p o)

theorem course (hdue : d.dueTransfer? t = some p) : engine.Course t t d s w.steps w.final w.atEnd :=
  (course_of_some hdue).2 ⟨w.basis, w.before, w.renewed, w.atApproval, w.transferred, w.approval,
    w.afterApproval, w.after, w.basis_eq, w.renewals_before, w.approves, w.renewals_after, rfl⟩

/-- The grace periods that begin with the approval or after it. -/
def laterGracePeriods : List GracePeriod :=
  w.approval.gracePeriod.toList ++ w.after.map (·.gracePeriod)

theorem gracePeriods_steps : w.steps.flatMap Step.gracePeriods =
    w.before.map (·.gracePeriod) ++ w.laterGracePeriods := by
  rw [steps, List.flatMap_append, List.flatMap_cons, gracePeriods_of_map_renewal,
    gracePeriods_of_map_renewal]
  rfl

theorem mem_gracePeriods_iff {g : GracePeriod} :
    g ∈ o.domain.gracePeriods ↔ g ∈ w.laterGracePeriods ∧ g.activeAt t = true := by
  rw [w.mem_gracePeriods, laterGracePeriods, List.mem_append, Option.mem_toList, List.mem_map]
  rfl

/-- Nothing that was there before the approval shares its identifier with what begins with it or
after it. -/
theorem disjoint_laterGracePeriods (hdue : d.dueTransfer? t = some p)
    (hfresh : engine.ids.FreshFor drawLimit (d.gracePeriods.map (·.id.any)) s) :
    ((d.gracePeriods ++ w.before.map (·.gracePeriod)).map (·.id)).Disjoint
      (w.laterGracePeriods.map (·.id)) := by
  have hdistinct := (w.course hdue).distinct_gracePeriods hfresh
  rw [w.gracePeriods_steps, ← List.append_assoc, List.map_append] at hdistinct
  exact List.disjoint_of_nodup_append hdistinct

/-- Nor with what is there in the end. -/
theorem disjoint_gracePeriods (hdue : d.dueTransfer? t = some p)
    (hfresh : engine.ids.FreshFor drawLimit (d.gracePeriods.map (·.id.any)) s) :
    ((d.gracePeriods ++ w.before.map (·.gracePeriod)).map (·.id)).Disjoint
      (o.domain.gracePeriods.map (·.id)) := by
  apply List.disjoint_of_subset_right ?_ (w.disjoint_laterGracePeriods hdue hfresh)
  apply List.map_subset
  intro g hg
  exact (w.mem_gracePeriods_iff.1 hg).1

theorem newGracePeriods_eq (hdue : d.dueTransfer? t = some p)
    (hfresh : engine.ids.FreshFor drawLimit (d.gracePeriods.map (·.id.any)) s) :
    o.newGracePeriods = w.laterGracePeriods.filter (·.activeAt t) := by
  have hnew : o.newGracePeriods = (w.steps.flatMap Step.gracePeriods).filter
      (· ∈ o.domain.gracePeriods) := by
    rw [w.domain_eq, ← (w.course hdue).newGracePeriods_eq hfresh]
    exact congrArg Outcome.newGracePeriods w.account_eq
  have hbefore : (w.before.map (·.gracePeriod)).filter (· ∈ o.domain.gracePeriods) = [] := by
    rw [List.filter_eq_nil_iff]
    intro g hg
    rw [decide_eq_true_eq]
    intro hmem
    exact w.disjoint_gracePeriods hdue hfresh (List.mem_map_of_mem (List.mem_append_right _ hg))
      (List.mem_map_of_mem hmem)
  rw [hnew, w.gracePeriods_steps, List.filter_append, hbefore, List.nil_append]
  apply List.filter_congr
  intro g hg
  rw [Bool.eq_iff_iff, decide_eq_true_eq, w.mem_gracePeriods_iff]
  exact and_iff_right hg

end Engine.Handover

/-- With fresh identifiers, all grace periods of the outcome are in effect, and new are those, each
once, whose identifiers the domain did not have. If no transfer is due, the outcome has them besides
what is left of the domain's own; one began with each autorenewal, to last as long as the
configuration says after the expiration that the renewal led to. If one is due, nothing is left of
what there was before the deadline, when it is approved: neither the domain's own grace periods nor
those that began with the renewals up to then. -/
theorem gracePeriods_accounted {d : Domain} {o : Outcome} {s s' : σ}
    (hfresh : engine.ids.FreshFor drawLimit (d.gracePeriods.map (·.id.any)) s)
    (h : (engine.project d t).Gives s o s') :
    (∀ g ∈ o.domain.gracePeriods, g.activeAt t = true) ∧
    o.newGracePeriods.Perm (o.domain.gracePeriods.filter fun g => g.id ∉
      d.gracePeriods.map (·.id)) ∧
    (o.newGracePeriods.map (·.id)).Nodup ∧
    (d.dueTransfer? t = none →
      o.domain.gracePeriods.Perm (d.gracePeriods.filter (·.activeAt t) ++ o.newGracePeriods) ∧
      ∃ d' rs, (engine.autorenew d.isAutorenewSuppressed d t t).Gives s (d', rs) s' ∧
        o.transitions.filter Transition.isAutoRenewed =
          rs.map (fun r => (Step.renewal r).transition) ∧
        o.newGracePeriods = (rs.map (·.gracePeriod)).filter (·.activeAt t) ∧
        ∀ r ∈ rs, r.gracePeriod.status = .autoRenew ∧
          r.expirationTime.shift (.seconds (engine.config.graceSeconds .autoRenew)) =
            .ok r.gracePeriod.expirationTime) ∧
    ∀ p ∈ d.dueTransfer? t, o.domain.gracePeriods.Perm o.newGracePeriods ∧
      ∃ w : engine.Handover d t s p o, o.newGracePeriods =
        w.laterGracePeriods.filter (·.activeAt t) ∧
        ((d.gracePeriods ++ w.before.map (·.gracePeriod)).map (·.id)).Disjoint
          (o.domain.gracePeriods.map (·.id)) := by
  obtain ⟨-, d', steps, hcourse, ho⟩ := project_gives.1 h
  have hdomain : o.domain = d'.lapse t := congrArg Outcome.domain ho
  have hperm : o.newGracePeriods.Perm
      (o.domain.gracePeriods.filter fun g => g.id ∉ d.gracePeriods.map (·.id)) := by
    rw [ho]
    exact hcourse.newGracePeriods_perm hfresh
  refine ⟨?_, hperm, ?_, ?_, ?_⟩
  · intro g hg
    rw [hdomain] at hg
    exact (List.mem_filter.1 hg).2
  · apply ((hperm.map _).nodup_iff).2
    exact (List.filter_sublist.map _).nodup o.domain.grace_distinct
  · intro hdue
    obtain ⟨rs, hrs, rfl⟩ := (course_of_none hdue).1 hcourse
    obtain ⟨hnew, hall⟩ := gracePeriods_of_renewals hrs hcourse hfresh
    rw [ho, hnew]
    refine ⟨hall, d', rs, autorenew_gives.2 hrs, filter_isAutoRenewed_account hrs, rfl, ?_⟩
    intro r hr
    obtain ⟨_, hir⟩ := isRenewal_of_mem hrs hr
    exact ⟨hir.grace_status, hir.grace_end⟩
  · intro p hdue
    obtain ⟨w⟩ := exists_handover hdue h
    have hdisjoint := w.disjoint_gracePeriods hdue hfresh
    have hall : (o.domain.gracePeriods.filter fun g => g.id ∉ d.gracePeriods.map (·.id)) =
        o.domain.gracePeriods := by
      rw [List.filter_eq_self]
      intro g hg
      rw [decide_eq_true_eq]
      intro hold
      rw [List.map_append] at hdisjoint
      exact hdisjoint (List.mem_append_left _ hold) (List.mem_map_of_mem hg)
    rw [hall] at hperm
    exact ⟨hperm.symm, w, w.newGracePeriods_eq hdue hfresh, hdisjoint⟩

/-- The transfer of the sample domain takes the renewal before it along with its grace period. -/
theorem gracePeriods_accounted_sample :
    Sample.registry.ids.FreshFor drawLimit (Sample.domain.gracePeriods.map (·.id.any)) 0 ∧
      ∃ o s', (Sample.registry.project Sample.domain Sample.settled).Gives 0 o s' ∧
        o.newGracePeriods.length = 1 ∧ o.domain.gracePeriods.Perm o.newGracePeriods ∧
        ∃ w : Sample.registry.Handover Sample.domain Sample.settled 0 Sample.transfer o,
          (w.before.map (·.gracePeriod.id)).Disjoint (o.domain.gracePeriods.map (·.id)) := by
  have hfresh : Sample.registry.ids.FreshFor drawLimit
      (Sample.domain.gracePeriods.map (·.id.any)) 0 :=
    IdSource.sequential_freshFor (by decide) (by decide)
  have hdue : Sample.domain.dueTransfer? Sample.settled = some Sample.transfer := by decide
  obtain ⟨o, ho, hone⟩ :
      ∃ o ∈ ((Sample.registry.project Sample.domain Sample.settled).run.run 0).1.toOption,
        o.newGracePeriods.length = 1 := by decide +kernel
  obtain ⟨s', h⟩ := Projecting.gives_of_toOption ho
  obtain ⟨hperm, w, -, hdisjoint⟩ := (gracePeriods_accounted hfresh h).2.2.2.2 Sample.transfer hdue
  rw [List.map_append, List.disjoint_append_left, List.map_map] at hdisjoint
  exact ⟨hfresh, o, s', h, hone, hperm, w, hdisjoint.2⟩

end NameRegistry.Registration
