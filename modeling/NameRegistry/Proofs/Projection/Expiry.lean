import NameRegistry.Proofs.Projection.GracePeriods

/-! # Ends of grace periods in the log

A projection reports the grace periods that are over when it looks at them, and it looks once, in
the end. What has ended in between is still there, unless a transfer was approved: the approval
drops the grace periods of the domain, those that ended before it along with the others, and they
are not reported at all.
-/
namespace NameRegistry.Registration

open Billing (GracePeriod)

/-- The grace period whose end this is. -/
def Transition.expiredId? : Transition → Option GracePeriodId
  | transferServerApproved .. | autoRenewed .. => none
  | gracePeriodExpired _ id _ => some id

variable {σ : Type} {engine : Engine σ} {observed t : Instant}

namespace Outcome

/-- What the log reports on the end of a grace period. -/
def expiriesOf (o : Outcome) (id : GracePeriodId) : List Transition :=
  o.transitions.filter (·.expiredId? = some id)

/-- Of these grace periods, those that are over are each reported once, at its end and with its
status; the others are not, and nothing else is. -/
structure Reports (o : Outcome) (t : Instant) (gs : List GracePeriod) : Prop where
  ended : ∀ g ∈ gs, g.activeAt t = false → o.expiriesOf g.id = [.ofExpired g]
  lasting : ∀ g ∈ gs, g.activeAt t = true → o.expiriesOf g.id = []
  others : ∀ id, id ∉ gs.map (·.id) → o.expiriesOf id = []

/-- The reports on an identifier are those of the grace periods under it that are over. -/
theorem expiriesOf_account (d : Domain) (steps : List Step) (id : GracePeriodId) :
    ((account d steps t).expiriesOf id).Perm
      ((d.gracePeriods.filter fun g => g.id = id ∧ g.activeAt t = false).map .ofExpired) := by
  have hsteps : (steps.map Step.transition).filter (·.expiredId? = some id) = [] := by
    rw [List.filter_eq_nil_iff]
    intro x hx
    obtain ⟨step, -, rfl⟩ := List.mem_map.1 hx
    cases step <;> simp [Step.transition, Transition.expiredId?]
  refine ((Transition.inOrder_perm _).filter _).trans ?_
  rw [List.filter_append, hsteps, List.nil_append, List.filter_map, List.filter_filter]
  simp [Transition.ofExpired, Transition.expiredId?]

/-- A grace period that the domain has at the end and that is over is the only one under its
identifier. -/
theorem filter_ended_perm (d : Domain) {g : GracePeriod} (hg : g ∈ d.gracePeriods)
    (hover : g.activeAt t = false) :
    (d.gracePeriods.filter fun g' => g'.id = g.id ∧ g'.activeAt t = false).Perm [g] := by
  apply (List.perm_ext_iff_of_nodup ?_ (List.nodup_singleton g)).2
  · intro g'
    rw [List.mem_filter, decide_eq_true_eq, List.mem_singleton]
    constructor
    · rintro ⟨hg', hid, -⟩
      exact List.inj_on_of_nodup_map d.grace_distinct hg' hg hid
    · rintro rfl
      exact ⟨hg, rfl, hover⟩
  · exact (List.Nodup.of_map _ d.grace_distinct).filter _

/-- The log reports on the grace periods that the domain has at the end. -/
theorem reports_account (d : Domain) (steps : List Step) :
    (account d steps t).Reports t d.gracePeriods := by
  have hnone : ∀ {id : GracePeriodId}, (∀ g ∈ d.gracePeriods, g.id = id → g.activeAt t = true) →
      (account d steps t).expiriesOf id = [] := by
    intro id hlasting
    apply List.Perm.eq_nil
    refine (expiriesOf_account d steps id).trans (List.Perm.of_eq ?_)
    rw [List.map_eq_nil_iff, List.filter_eq_nil_iff]
    intro g hg
    simp +contextual [hlasting g hg]
  constructor
  · intro g hg hover
    apply List.perm_singleton.1
    exact (expiriesOf_account d steps g.id).trans ((filter_ended_perm d hg hover).map _)
  · intro g hg hactive
    apply hnone
    intro g' hg' hid
    rwa [List.inj_on_of_nodup_map d.grace_distinct hg' hg hid]
  · intro id hid
    apply hnone
    rintro g hg rfl
    exact absurd (List.mem_map_of_mem hg) hid

theorem Reports.of_mem_iff {o : Outcome} {gs gs' : List GracePeriod} (h : o.Reports t gs)
    (hmem : ∀ g, g ∈ gs' ↔ g ∈ gs) : o.Reports t gs' where
  ended g hg := h.ended g ((hmem g).1 hg)
  lasting g hg := h.lasting g ((hmem g).1 hg)
  others id hid := h.others id fun hold => by
    obtain ⟨g, hg, rfl⟩ := List.mem_map.1 hold
    exact hid (List.mem_map_of_mem ((hmem g).2 hg))

end Outcome

theorem reports_of_renewals {d d' : Domain} {time : Instant} {rs : List Renewal} {s s' : σ}
    (h : engine.Renewals observed time d s rs d' s') (steps : List Step) :
    (Outcome.account d' steps t).Reports t (d.gracePeriods ++ rs.map (·.gracePeriod)) := by
  apply (Outcome.reports_account d' steps).of_mem_iff
  intro g
  rw [mem_gracePeriods_of_renewals h, List.mem_append, List.mem_map]

namespace Engine.Handover

variable {d : Domain} {p : PendingTransfer} {o : Outcome} {s : σ} (w : engine.Handover d t s p o)

theorem reports : o.Reports t w.laterGracePeriods := by
  have ho : Outcome.account w.final w.steps t = o := w.account_eq.symm
  have h := reports_of_renewals (t := t) w.renewals_after w.steps
  rw [w.handedOver.gracePeriods, ho] at h
  exact h

/-- What the approval has dropped is not reported. -/
theorem expiriesOf_before (hdue : d.dueTransfer? t = some p)
    (hfresh : engine.ids.FreshFor drawLimit (d.gracePeriods.map (·.id.any)) s) :
    ∀ g ∈ d.gracePeriods ++ w.before.map (·.gracePeriod), o.expiriesOf g.id = [] := by
  intro g hg
  apply w.reports.others
  exact w.disjoint_laterGracePeriods hdue hfresh (List.mem_map_of_mem hg)

end Engine.Handover

/-- Without a transfer that is due, the log reports the end of each grace period that is over, once,
and of no other, whether the domain had it or it began with an autorenewal. If a transfer is due, it
does so for the grace periods that begin with the approval or after it; what there was before is
never reported. -/
theorem expiries_reported {d : Domain} {o : Outcome} {s s' : σ}
    (hfresh : engine.ids.FreshFor drawLimit (d.gracePeriods.map (·.id.any)) s)
    (h : (engine.project d t).Gives s o s') :
    (d.dueTransfer? t = none → ∃ d' rs,
      (engine.autorenew d.isAutorenewSuppressed d t t).Gives s (d', rs) s' ∧
        o.Reports t (d.gracePeriods ++ rs.map (·.gracePeriod))) ∧
    ∀ p ∈ d.dueTransfer? t, ∃ w : engine.Handover d t s p o, o.Reports t w.laterGracePeriods ∧
      ∀ g ∈ d.gracePeriods ++ w.before.map (·.gracePeriod), o.expiriesOf g.id = [] := by
  constructor
  · intro hdue
    obtain ⟨-, d', steps, hcourse, rfl⟩ := project_gives.1 h
    obtain ⟨rs, hrs, rfl⟩ := (course_of_none hdue).1 hcourse
    exact ⟨d', rs, autorenew_gives.2 hrs, reports_of_renewals hrs _⟩
  · intro p hdue
    obtain ⟨w⟩ := exists_handover hdue h
    exact ⟨w, w.reports, w.expiriesOf_before hdue hfresh⟩

/-- Nine days after the deadline the grace period of the sample domain's transfer is over, and
reported. -/
theorem expiries_reported_sample :
    Sample.registry.ids.FreshFor drawLimit (Sample.domain.gracePeriods.map (·.id.any)) 0 ∧
      ∃ o s', (Sample.registry.project Sample.domain Sample.confirmed).Gives 0 o s' ∧
        ∃ g, g.status = .transfer ∧ o.expiriesOf g.id = [.ofExpired g] := by
  have hfresh : Sample.registry.ids.FreshFor drawLimit
      (Sample.domain.gracePeriods.map (·.id.any)) 0 :=
    IdSource.sequential_freshFor (by decide) (by decide)
  have hdue : Sample.domain.dueTransfer? Sample.confirmed = some Sample.transfer := by decide
  obtain ⟨o, s', h⟩ := Projecting.exists_gives
    (x := Sample.registry.project Sample.domain Sample.confirmed) (s := 0) (by decide +kernel)
  obtain ⟨w, hreports, -⟩ := (expiries_reported hfresh h).2 Sample.transfer hdue
  obtain ⟨g, hg⟩ := Option.isSome_iff_exists.1 (w.isApproval.isSome_gracePeriod.2 (by decide))
  have hgrace := w.isTransferGrace g hg
  have hends : ∀ graceEnd ∈
      Sample.transfer.deadline.shift? (.seconds (Sample.registry.config.graceSeconds .transfer)),
      ¬Sample.confirmed < graceEnd := by decide +kernel
  have hover : g.activeAt Sample.confirmed = false :=
    decide_eq_false (hends g.expirationTime (Instant.shift_eq_ok.1 hgrace.graceEnd))
  have hlater : g ∈ w.laterGracePeriods := List.mem_append_left _ (Option.mem_toList.2 hg)
  exact ⟨hfresh, o, s', h, g, hgrace.status, hreports.ended g hlater hover⟩

namespace Sample

/-- The grace period of a renewal, which ends eight days before the deadline of the transfer. -/
def renewGrace : GracePeriod where
  id := ⟨.ofNat (UInt64.size + 5)⟩
  status := .renew
  domainRepoId := domain.repoId
  expirationTime := ⟨12480 * 172800000000000, by decide, by decide, by decide⟩
  registrarId := domain.sponsor
  oneTimeEvent := some ⟨.ofNat (UInt64.size + 6)⟩
  recurringEvent := none
  one_event := by decide
  recurring_iff := by decide
  repoId_ne := by decide

/-- The sample domain, renewed for a year. -/
def renewedDomain : Domain :=
  { domain with
    expirationTime := ⟨12844 * 172800000000000, by decide, by decide, by decide⟩
    gracePeriods := [renewGrace]
    created_le := by decide
    grace_owned := by decide
    grace_sorted := List.pairwise_singleton ..
    grace_distinct := List.nodup_singleton _ }

end Sample

/-- A grace period that ends before the deadline of a transfer is reported to an observer between
the two, but not to one who looks past the deadline right away. -/
theorem expiry_lost_in_transfer : ∃ (o o' : Outcome) (s s' : UInt64),
    Sample.registry.ids.FreshFor drawLimit (Sample.renewedDomain.gracePeriods.map (·.id.any)) 0 ∧
      Sample.renewedDomain.dueTransfer? Sample.settled = some Sample.transfer ∧
      Sample.renewGrace ∈ Sample.renewedDomain.gracePeriods ∧
      Sample.renewGrace.expirationTime < Sample.transfer.deadline ∧
      (Sample.registry.project Sample.renewedDomain Sample.settled).Gives 0 o s ∧
      o.expiriesOf Sample.renewGrace.id = [] ∧
      (Sample.registry.project Sample.renewedDomain Sample.renewed).Gives 0 o' s' ∧
      o'.expiriesOf Sample.renewGrace.id = [.ofExpired Sample.renewGrace] := by
  have hfresh : Sample.registry.ids.FreshFor drawLimit
      (Sample.renewedDomain.gracePeriods.map (·.id.any)) 0 :=
    IdSource.sequential_freshFor (by decide) (by decide)
  have hdue : Sample.renewedDomain.dueTransfer? Sample.settled = some Sample.transfer := by decide
  have hmem : Sample.renewGrace ∈ Sample.renewedDomain.gracePeriods := List.mem_singleton_self _
  obtain ⟨o, s, h⟩ := Projecting.exists_gives
    (x := Sample.registry.project Sample.renewedDomain Sample.settled) (s := 0) (by decide +kernel)
  obtain ⟨o', s', h'⟩ := Projecting.exists_gives
    (x := Sample.registry.project Sample.renewedDomain Sample.renewed) (s := 0) (by decide +kernel)
  obtain ⟨w⟩ := exists_handover hdue h
  have hlost := w.expiriesOf_before hdue hfresh _ (List.mem_append_left _ hmem)
  refine ⟨o, o', s, s', hfresh, hdue, hmem, by decide, h, hlost, h', ?_⟩
  obtain ⟨-, d', steps, hcourse, rfl⟩ := project_gives.1 h'
  obtain ⟨rs, hrs, -⟩ := (course_of_none (by decide)).1 hcourse
  exact (reports_of_renewals hrs steps).ended _ (List.mem_append_left _ hmem) (by decide)

end NameRegistry.Registration
