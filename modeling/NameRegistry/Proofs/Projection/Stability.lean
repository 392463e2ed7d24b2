import NameRegistry.Proofs.Projection.Course

/-! # Looking at a domain again

What a projection gives is up to date: no transfer is due, the registration runs on, and every grace
period lasts. All this was so at earlier times too. A domain that is up to date is projected to
itself, whatever the prices are and wherever identifiers come from, because neither is asked for. So
an outcome has the domain that was projected exactly if that was up to date, and it says so.
-/
namespace NameRegistry.Registration

namespace Domain

/-- Nothing has happened to the domain by the given time that its record does not show. -/
structure UpToDate (d : Domain) (t : Instant) : Prop where
  undue : d.dueTransfer? t = none
  unexpired : ¬d.Renews t
  lasting : ∀ g ∈ d.gracePeriods, g.activeAt t = true

namespace UpToDate

variable {d : Domain} {t t' : Instant}

theorem of_le (h : d.UpToDate t) (hle : t' ≤ t) : d.UpToDate t' where
  undue := dueTransfer?_of_le h.undue hle
  unexpired := fun hrenews => h.unexpired (hrenews.mono hle)
  lasting := fun g hg => activeAt_of_le (h.lasting g hg) hle

/-- The account of no steps. -/
theorem account_nil (h : d.UpToDate t) : Outcome.account d [] t = ⟨d, [], [], []⟩ := by
  have hnone : d.gracePeriods.filter (!·.activeAt t) = [] := by
    rw [List.filter_eq_nil_iff]
    intro g hg
    simp [h.lasting g hg]
  rw [Outcome.account, hnone, lapse_eq_self h.lasting]
  simp [Transition.inOrder]

theorem project_gives_self {σ : Type} {engine : Engine σ} (h : d.UpToDate t)
    (htld : d.tld = engine.config.tld) (s : σ) : (engine.project d t).Gives s ⟨d, [], [], []⟩ s :=
  project_gives.2 ⟨htld, d, [], .rest h.undue h.unexpired, h.account_nil.symm⟩

theorem eq_of_project_gives {σ : Type} {engine : Engine σ} {o : Outcome} {s s' : σ}
    (h : d.UpToDate t) (hgives : (engine.project d t).Gives s o s') :
    o = ⟨d, [], [], []⟩ ∧ s' = s :=
  Projecting.gives_unique hgives (h.project_gives_self (project_gives.1 hgives).1 s)

end UpToDate
end Domain

variable {σ : Type} {engine : Engine σ}

theorem upToDate_of_course {d d' : Domain} {steps : List Step} {observed t : Instant} {s s' : σ}
    (h : engine.Course observed t d s steps d' s') : (d'.lapse t).UpToDate t where
  undue := h.end_at_rest.1
  unexpired :=
    fun hrenews => h.end_at_rest.2 ⟨hrenews.unsuppressed, hrenews.elapsed, hrenews.running⟩
  lasting := fun _ hg => (List.mem_filter.1 hg).2

theorem upToDate_of_project {d : Domain} {o : Outcome} {t : Instant} {s s' : σ}
    (h : (engine.project d t).Gives s o s') : o.domain.UpToDate t := by
  obtain ⟨-, d', steps, hcourse, rfl⟩ := project_gives.1 h
  exact upToDate_of_course hcourse

theorem tld_of_project {d : Domain} {o : Outcome} {t : Instant} {s s' : σ}
    (h : (engine.project d t).Gives s o s') : o.domain.tld = engine.config.tld := by
  obtain ⟨htld, d', steps, hcourse, rfl⟩ := project_gives.1 h
  exact hcourse.tld_eq.trans htld

/-- Projected again, to the same time or an earlier one, a domain stays as it is, and there is
nothing to report. No price is looked up and no identifier is drawn: any schedule does, one that
knows no price included, and any source, which stays in whatever state it is. -/
theorem project_again {d : Domain} {o : Outcome} {t t' : Instant} {s s' : σ}
    (h : (engine.project d t).Gives s o s') (hle : t' ≤ t) {τ : Type} (prices : PriceSchedule)
    (ids : IdSource τ) (u : τ) :
    ((⟨engine.config, prices, ids⟩ : Engine τ).project o.domain t').Gives u
      ⟨o.domain, [], [], []⟩ u := by
  have htld : o.domain.tld = engine.config.tld := tld_of_project h
  apply ((upToDate_of_project h).of_le hle).project_gives_self
  exact htld

theorem project_again_sample : ∃ o s',
    (Sample.registry.project Sample.domain Sample.settled).Gives 0 o s' ∧
    Sample.renewed ≤ Sample.settled ∧
      ((⟨Sample.registry.config, fun tld _ => .error (TldConfig.noTable tld), .sequential⟩ :
        Engine UInt64).project o.domain Sample.renewed).Gives 7 ⟨o.domain, [], [], []⟩ 7 := by
  obtain ⟨o, s', h⟩ := Projecting.exists_gives
    (x := Sample.registry.project Sample.domain Sample.settled) (s := 0) (by decide +kernel)
  exact ⟨o, s', h, by decide, project_again h (by decide) _ _ 7⟩

/-- An account without transitions is of no steps, and no grace period is over. -/
theorem eq_nil_of_transitions_account {d : Domain} {steps : List Step} {t : Instant}
    (h : (Outcome.account d steps t).transitions = []) :
    steps = [] ∧ ∀ g ∈ d.gracePeriods, g.activeAt t = true := by
  have hnone : steps.map Step.transition ++
      (d.gracePeriods.filter (!·.activeAt t)).map Transition.ofExpired = [] := by
    apply List.Perm.eq_nil
    exact (Transition.inOrder_perm _).symm.trans (List.Perm.of_eq h)
  obtain ⟨hsteps, hexpired⟩ := List.append_eq_nil_iff.1 hnone
  refine ⟨List.map_eq_nil_iff.1 hsteps, fun g hg => ?_⟩
  have hlasts := List.filter_eq_nil_iff.1 (List.map_eq_nil_iff.1 hexpired) g hg
  simpa using hlasts

/-- A projection gives the domain that it was given exactly if that was up to date. -/
theorem domain_eq_iff_upToDate {d : Domain} {o : Outcome} {t : Instant} {s s' : σ}
    (h : (engine.project d t).Gives s o s') : o.domain = d ↔ d.UpToDate t := by
  constructor
  · intro heq
    exact heq ▸ upToDate_of_project h
  · intro hcurrent
    rw [(hcurrent.eq_of_project_gives h).1]

theorem domain_eq_of_transitions {d : Domain} {o : Outcome} {t : Instant} {s s' : σ}
    (h : (engine.project d t).Gives s o s') (hnone : o.transitions = []) : o.domain = d := by
  obtain ⟨-, d', steps, hcourse, rfl⟩ := project_gives.1 h
  obtain ⟨rfl, hlasting⟩ := eq_nil_of_transitions_account hnone
  cases hcourse with
  | rest _ _ => exact Domain.lapse_eq_self hlasting

/-- An outcome says that it is unchanged exactly if its domain is the one that was projected, and
then it has nothing to report: no grace period is new, nothing is billed, and no identifier was
drawn. A domain that is changed in any way comes with a transition. -/
theorem isUnchanged_iff {d : Domain} {o : Outcome} {t : Instant} {s s' : σ}
    (h : (engine.project d t).Gives s o s') :
    (o.isUnchanged = true ↔ o.domain = d) ∧ (o.transitions = [] ↔ o.domain = d) ∧
      (o.domain = d → o = ⟨d, [], [], []⟩ ∧ s' = s) := by
  have hsame : o.domain = d → o = ⟨d, [], [], []⟩ ∧ s' = s := by
    intro heq
    exact ((domain_eq_iff_upToDate h).1 heq).eq_of_project_gives h
  refine ⟨⟨?_, ?_⟩, ⟨domain_eq_of_transitions h, ?_⟩, hsame⟩
  · intro hunchanged
    rw [Outcome.isUnchanged, Bool.and_eq_true, List.isEmpty_iff] at hunchanged
    exact domain_eq_of_transitions h hunchanged.1
  · intro heq
    rw [(hsame heq).1]
    rfl
  · intro heq
    rw [(hsame heq).1]

/-- The sample domain is as it was on the day of its creation, and another the day after the
deadline. -/
theorem isUnchanged_iff_sample : ∃ o o' s',
    (Sample.registry.project Sample.domain Sample.domain.creationTime).Gives 0 o 0 ∧
    o.isUnchanged = true ∧
      o.domain = Sample.domain ∧
      (Sample.registry.project Sample.domain Sample.settled).Gives 0 o' s' ∧
      o'.isUnchanged = false ∧ o'.domain ≠ Sample.domain := by
  obtain ⟨o, ho, hunchanged⟩ : ∃ o ∈
      ((Sample.registry.project Sample.domain Sample.domain.creationTime).run.run 0).1.toOption,
      o.isUnchanged = true := by decide +kernel
  obtain ⟨o', ho', hother⟩ :
      ∃ o ∈ ((Sample.registry.project Sample.domain Sample.settled).run.run 0).1.toOption,
        o.domain.sponsor ≠ Sample.domain.sponsor := by decide +kernel
  obtain ⟨s, h⟩ := Projecting.gives_of_toOption ho
  obtain ⟨s', h'⟩ := Projecting.gives_of_toOption ho'
  have heq := (isUnchanged_iff h).1.1 hunchanged
  obtain rfl : s = 0 := ((isUnchanged_iff h).2.2 heq).2
  have hne : o'.domain ≠ Sample.domain := fun heq' => hother (congrArg Domain.sponsor heq')
  have hchanged : o'.isUnchanged = false :=
    Bool.eq_false_iff.2 fun htrue => hne ((isUnchanged_iff h').1.1 htrue)
  exact ⟨o, o', s', h, hunchanged, heq, h', hchanged, hne⟩

end NameRegistry.Registration
