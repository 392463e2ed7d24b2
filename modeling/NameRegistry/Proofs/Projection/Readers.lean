import NameRegistry.Proofs.Projection.Autorenewal
import NameRegistry.Proofs.Projection.Recording

/-! # Readers at the same time

Nothing keeps two readers from projecting one domain at once and from both recording what they are
told. They are told of the same renewals up to the earlier of their times, in charges with
identifiers of their own. The ledger takes one charge for each renewal and refuses the other, and
which of the two it takes does not matter: what a charge costs and when it is billed follows from
the instant of the renewal, and a cancellation names the recurring event and the time of billing,
not the charge.

The main statement says so for whatever order the events of the two are recorded in.
-/
namespace NameRegistry.Registration

open Billing (Cancellation Event Ledger OneTime Recurring)

variable {σ τ : Type} {engine : Engine σ} {observed t : Instant} {recurring : List BillingEventId}

/-- An event that a projection reports: the charge of a renewal, for a year from its instant, or the
cancellation of one of the recurring events. -/
inductive Engine.Reports (engine : Engine σ) (recurring : List BillingEventId) : Event → Prop
  | charge {d : Domain} {time next : Instant} {c : OneTime} : time.addYears 1 = .ok next →
      engine.IsCharge d time next c → Reports engine recurring (.oneTime c)
  | cancellation {k : Cancellation} {id : BillingEventId} :
      id ∈ recurring → k.cancelled = .recurring id → Reports engine recurring (.cancellation k)

theorem Engine.Reports.mono {recurring' : List BillingEventId} {e : Event}
    (h : engine.Reports recurring e) (hsub : recurring ⊆ recurring') :
    engine.Reports recurring' e := by
  cases h with
  | charge hyear hc => exact .charge hyear hc
  | cancellation hid hk => exact .cancellation (hsub hid) hk

/-- The occurrence that a charge is for settles all that the ledger goes by. -/
theorem Engine.Reports.agree {c c' : OneTime} (h : engine.Reports recurring (.oneTime c))
    (h' : engine.Reports recurring (.oneTime c'))
    (hkey : (Event.oneTime c).occurrence? = (Event.oneTime c').occurrence?) :
    c.matchingEvent = c'.matchingEvent ∧ c.billingTime = c'.billingTime ∧ c.cost = c'.cost := by
  cases h with | charge hyear hc =>
  cases h' with | charge hyear' hc' =>
  simp only [Event.occurrence?, hc.matching, hc'.matching, Option.map_some, hc.eventTime,
    hc'.eventTime, Option.some.injEq, Prod.mk.injEq] at hkey
  obtain ⟨hevent, rfl⟩ := hkey
  cases hyear.symm.trans hyear'
  refine ⟨?_, Except.ok.inj (hc.billingTime.symm.trans hc'.billingTime),
    Except.ok.inj (hc.cost.symm.trans hc'.cost)⟩
  rw [hc.matching, hc'.matching, hevent]

namespace Engine.Moves

variable {d d' : Domain} {step : Step} {s s' : σ}

/-- A step names no recurring event that was not named before. -/
theorem recurringEvents_subset (h : engine.Moves observed t d s step d' s') :
    d'.recurringEvents ⊆ d.recurringEvents := by
  intro id hid
  simp only [Domain.recurringEvents, List.cons_append, List.mem_cons, List.mem_append,
    List.mem_filterMap, List.mem_map, Option.mem_toList] at hid ⊢
  cases h with
  | renewal _ _ hr hd =>
    have hsame := Domain.sameRegistration_of_renewedBy hd
    rw [hsame.autorenewEvent, hsame.transfer, Domain.gracePeriods_of_renewedBy hd] at hid
    rcases hid with hid | ⟨g, hg, hid⟩ | hid
    · exact .inl hid
    · rw [GraceOrder.mem_sort, List.mem_append] at hg
      rcases hg with hg | hg
      · exact .inr (.inl ⟨g, hg, hid⟩)
      · cases List.mem_singleton.1 hg
        rw [(renew_gives.1 hr).1.grace_recurring] at hid
        exact .inl (Option.some.inj hid).symm
    · exact .inr (.inr hid)
  | @approval _ _ _ a p basis hdue _ _ ha =>
    obtain ⟨hia, htransferred, -⟩ := isApproval_of_gives ha
    have hover := Domain.handedOver_of_transferred htransferred
    rw [hover.autorenewEvent, hover.gracePeriods, hover.decided] at hid
    rcases hid with hid | ⟨g, hg, hid⟩ | ⟨p', hp', -⟩
    · exact .inr (.inr ⟨p, (Domain.dueTransfer?_eq_some.1 hdue).1, hid.symm⟩)
    · rw [Option.mem_toList] at hg
      cases hid.symm.trans (hia.grace_recurring g hg)
    · cases hp'

theorem reports (h : engine.Moves observed t d s step d' s') :
    ∀ e ∈ step.billingEvents, engine.Reports d.recurringEvents e := by
  intro e he
  cases h with
  | renewal _ _ hr _ =>
    cases List.mem_singleton.1 he
    have hir := (renew_gives.1 hr).1
    exact .charge hir.year hir.isCharge
  | approval _ _ _ ha =>
    obtain ⟨k, hk, rfl⟩ := List.mem_map.1 he
    obtain ⟨-, g, hg, id, hid, hcancelled, -⟩ :=
      (isApproval_of_gives ha).1.absorbed_of_cancellation (Option.mem_toList.1 hk)
    have hnamed : id ∈ d.gracePeriods.filterMap (·.recurringEvent) :=
      List.mem_filterMap.2 ⟨g, (mem_of_latestAutorenewGrace? hg).1, hid⟩
    exact .cancellation (List.mem_append_left _ (List.mem_cons_of_mem _ hnamed)) hcancelled

end Engine.Moves

theorem Engine.Course.reports {d d' : Domain} {steps : List Step} {s s' : σ}
    (h : engine.Course observed t d s steps d' s') :
    ∀ e ∈ steps.flatMap Step.billingEvents, engine.Reports d.recurringEvents e := by
  induction h with
  | rest _ _ => simp
  | step hmove _ ih =>
    intro e he
    rw [List.flatMap_cons, List.mem_append] at he
    rcases he with he | he
    · exact hmove.reports e he
    · exact (ih e he).mono hmove.recurringEvents_subset

theorem eventIds_sublist_drawn (steps : List Step) :
    ((steps.flatMap Step.billingEvents).map (·.id.any)).Sublist (steps.flatMap Step.drawn) := by
  induction steps with
  | nil => exact List.Sublist.refl _
  | cons step steps ih =>
    rw [List.flatMap_cons, List.map_append, List.flatMap_cons]
    exact step.eventIds_sublist.append ih

/-- A projection reports events with identifiers that it has drawn, in the same order. -/
theorem eventIds_of_project {d : Domain} {o : Outcome} {s s' : σ}
    (h : (engine.project d t).Gives s o s') :
    ∃ ks : List IdKind, ks.length ≤ drawLimit ∧
      (o.newBillingEvents.map (·.id.any)).Sublist (engine.ids.drawIds ks s).1 := by
  obtain ⟨-, d', steps, hcourse, rfl⟩ := project_gives.1 h
  refine ⟨_, hcourse.length_kinds_le, ?_⟩
  rw [hcourse.drawIds_eq]
  exact eventIds_sublist_drawn steps

section

variable {l : Ledger} {es : List Event} {rs : List Recurring}

/-- All cancellations are recorded, whatever comes before them. -/
theorem mem_cancellations_recordEach (hl : Ledger.empty.Accepts (rs.map .recurring) l)
    (hnamed : ∀ id ∈ recurring, l.HasRecurring id) (hnew : l.HasNew es)
    (hreports : ∀ e ∈ es, engine.Reports recurring e) {k : Cancellation} :
    k ∈ (l.recordEach es).cancellations ↔ k ∈ es.filterMap Event.cancellation? := by
  rw [Ledger.cancellations, List.mem_filterMap, List.mem_filterMap]
  constructor
  · rintro ⟨e, he, hk⟩
    rcases Ledger.mem_of_mem_recordEach he with he | he
    · rw [(Ledger.eq_of_accepts hl).1] at he
      obtain ⟨r, -, rfl⟩ := List.mem_map.1 he
      cases hk
    · exact ⟨e, he, hk⟩
  · rintro ⟨e, he, hk⟩
    cases hreports e he with
    | charge _ _ => cases hk
    | cancellation hid hnames =>
      exact ⟨_, Ledger.mem_recordEach_of_recurring hnew he hnames (hnamed _ hid), hk⟩

/-- Nothing that is reported adjusts a charge. -/
theorem modificationsOf_recordEach (hl : Ledger.empty.Accepts (rs.map .recurring) l)
    (hreports : ∀ e ∈ es, engine.Reports recurring e) (id : BillingEventId) :
    (l.recordEach es).modificationsOf id = [] := by
  rw [Ledger.modificationsOf, List.filterMap_eq_nil_iff.2, List.filter_nil]
  intro e he
  rcases Ledger.mem_of_mem_recordEach he with he | he
  · rw [(Ledger.eq_of_accepts hl).1] at he
    obtain ⟨r, -, rfl⟩ := List.mem_map.1 he
    rfl
  · cases hreports e he <;> rfl

/-- For each occurrence one charge is recorded. It costs nothing if one of the cancellations is for
it, whether that comes earlier or later. -/
theorem recordEach_reported {key : BillingEventId × Instant}
    (hl : Ledger.empty.Accepts (rs.map .recurring) l) (hnamed : ∀ id ∈ recurring, l.HasRecurring id)
    (hnew : l.HasNew es) (hreports : ∀ e ∈ es, engine.Reports recurring e)
    (hkey : key ∈ es.filterMap Event.occurrence?) :
    ∃ c, .oneTime c ∈ es ∧ (Event.oneTime c).occurrence? = some key ∧
      (l.recordEach es).syntheticCharges.filter
        (fun c => (Event.oneTime c).occurrence? = some key) = [c] ∧
      (l.recordEach es).isCancelled c.id = (es.filterMap Event.cancellation?).any (·.cancels c) ∧
      (l.recordEach es).effectiveCost c.id = .ok
        (if (es.filterMap Event.cancellation?).any (·.cancels c) then .zero c.cost.currency
          else c.cost) := by
  have hconsistent := (Ledger.consistent_empty.accepts hl).recordEach es
  have hcharged : key ∈ (l.recordEach es).charged := by
    obtain ⟨e, he, hoccurrence⟩ := List.mem_filterMap.1 hkey
    cases e with
    | oneTime c => exact Ledger.charged_recordEach hnew he hoccurrence
    | _ => cases hoccurrence
  obtain ⟨c, hrecorded, hoccurrence, hc⟩ := hconsistent.charge_of_occurrence hcharged
  have hcharge : .oneTime c ∈ es := by
    rcases Ledger.mem_of_mem_recordEach hrecorded with he | he
    · rw [(Ledger.eq_of_accepts hl).1] at he
      obtain ⟨r, -, hr⟩ := List.mem_map.1 he
      cases hr
    · exact he
  have hcancelled : (l.recordEach es).isCancelled c.id =
      (es.filterMap Event.cancellation?).any (·.cancels c) := by
    rw [hconsistent.isCancelled_eq hrecorded, Bool.eq_iff_iff, List.any_eq_true, List.any_eq_true]
    exact exists_congr fun k => and_congr_left fun _ =>
      mem_cancellations_recordEach hl hnamed hnew hreports
  refine ⟨c, hcharge, hoccurrence, hc, hcancelled, ?_⟩
  rw [hconsistent.effectiveCost_eq hrecorded (modificationsOf_recordEach hl hreports c.id),
    hcancelled]

end

/-- The engine of another reader, which draws its identifiers from elsewhere. -/
def Engine.withIds (engine : Engine σ) (ids : IdSource τ) : Engine τ :=
  ⟨engine.config, engine.prices, ids⟩

theorem Engine.Reports.of_withIds {ids : IdSource τ} {e : Event}
    (h : (engine.withIds ids).Reports recurring e) : engine.Reports recurring e := by
  cases h with
  | charge hyear hc =>
    exact .charge hyear ⟨hc.eventTime, hc.cost, hc.billingTime, hc.reason, hc.targetId,
      hc.periodYears, hc.flags, hc.registrar, hc.matching⟩
  | cancellation hid hk => exact .cancellation hid hk

theorem reports_of_project {d : Domain} {o : Outcome} {s s' : σ}
    (h : (engine.project d t).Gives s o s') :
    ∀ e ∈ o.newBillingEvents, engine.Reports d.recurringEvents e := by
  obtain ⟨-, d', steps, hcourse, rfl⟩ := project_gives.1 h
  exact hcourse.reports

/-- Cancellations do not tell charges of one occurrence apart. -/
theorem any_cancels_eq {es : List Event} {c c' : OneTime}
    (hreports : ∀ e ∈ es, engine.Reports recurring e) (hevent : c.matchingEvent = c'.matchingEvent)
    (hbilled : c.billingTime = c'.billingTime) :
    (es.filterMap Event.cancellation?).any (·.cancels c) =
      (es.filterMap Event.cancellation?).any (·.cancels c') := by
  rw [Bool.eq_iff_iff, List.any_eq_true, List.any_eq_true]
  refine exists_congr fun k => and_congr_right fun hk => ?_
  obtain ⟨e, he, heq⟩ := List.mem_filterMap.1 hk
  have hreported := hreports e he
  rw [Event.cancellation?_eq_some.1 heq] at hreported
  cases hreported with
  | cancellation _ hcancelled => simp only [Cancellation.cancels, hcancelled, hevent, hbilled]

/-- What two readers report bears new identifiers, if their sources are fresh and apart. -/
theorem hasNew_of_projects {d : Domain} {ids : IdSource τ} {l : Ledger} {t₁ t₂ : Instant}
    {o₁ o₂ : Outcome} {s₁ s₁' : σ} {s₂ s₂' : τ} (hl : l.Consistent)
    (hfresh₁ : engine.ids.FreshFor drawLimit (l.journal.map (·.id.any)) s₁)
    (hfresh₂ : ids.FreshFor drawLimit (l.journal.map (·.id.any)) s₂)
    (hapart : engine.ids.Apart s₁ ids s₂ drawLimit) (h₁ : (engine.project d t₁).Gives s₁ o₁ s₁')
    (h₂ : ((engine.withIds ids).project d t₂).Gives s₂ o₂ s₂') :
    l.HasNew (o₁.newBillingEvents ++ o₂.newBillingEvents) := by
  obtain ⟨ks₁, hks₁, hdrawn₁⟩ := eventIds_of_project h₁
  obtain ⟨ks₂, hks₂, hdrawn₂⟩ := eventIds_of_project h₂
  obtain ⟨hnodup₁, hnew₁⟩ := hfresh₁ ks₁ hks₁
  obtain ⟨hnodup₂, hnew₂⟩ := hfresh₂ ks₂ hks₂
  have hany : ∀ {es : List Event} {e : Event} {us : List AnyId},
      (es.map (·.id.any)).Sublist us → e ∈ es → e.id.any ∈ us :=
        fun hsub he => hsub.subset (List.mem_map_of_mem he)
  have hids : ∀ {es : List Event} {us : List AnyId}, (es.map (·.id.any)).Sublist us → us.Nodup →
      (es.map Event.id).Nodup := by
    intro es us hsub hnodup
    have hes := hsub.nodup hnodup
    rw [show es.map (·.id.any) = (es.map Event.id).map Id.any by rw [List.map_map]; rfl] at hes
    exact List.Pairwise.of_map _ (fun id id' hne heq => hne (congrArg Id.any heq)) hes
  rw [Ledger.HasNew, List.map_append, List.map_append, List.nodup_append, List.nodup_append]
  refine ⟨hl.ids, ⟨hids hdrawn₁ hnodup₁, hids hdrawn₂ hnodup₂, ?_⟩, ?_⟩
  · intro id hid id' hid' heq
    obtain ⟨e, he, rfl⟩ := List.mem_map.1 hid
    obtain ⟨e', he', rfl⟩ := List.mem_map.1 hid'
    exact hapart ks₁ ks₂ hks₁ hks₂ _ (hany hdrawn₁ he) (heq ▸ hany hdrawn₂ he')
  · intro id hid id' hid' heq
    obtain ⟨e, he, rfl⟩ := List.mem_map.1 hid
    have hused : e.id.any ∈ l.journal.map (·.id.any) := List.mem_map_of_mem he
    rcases List.mem_append.1 hid' with hid' | hid'
    · obtain ⟨e', he', rfl⟩ := List.mem_map.1 hid'
      exact hnew₁ _ (hany hdrawn₁ he') (heq ▸ hused)
    · obtain ⟨e', he', rfl⟩ := List.mem_map.1 hid'
      exact hnew₂ _ (hany hdrawn₂ he') (heq ▸ hused)

/-- Two readers project a domain, each with identifiers of its own, and the events of both are
recorded one by one, but for those that are refused. In whatever order they come, so in each way
that the two lists can be interleaved, the ledger ends with one charge for each occurrence that
either of them charges, and whether that charge is cancelled and what it costs is the same for all
orders. -/
theorem concurrent_readers_charge_once {d : Domain} {ids : IdSource τ} {rs : List Recurring}
    {recorded : List BillingEventId} {l : Ledger} {t₁ t₂ : Instant} {o₁ o₂ : Outcome}
    {s₁ s₁' : σ} {s₂ s₂' : τ}
    (hstart : Ledger.empty.recordAll (rs.map .recurring) = (.ok recorded, l))
    (hnamed : ∀ id ∈ d.recurringEvents, ∃ r ∈ rs, r.common.id = id)
    (hfresh₁ : engine.ids.FreshFor drawLimit (l.journal.map (·.id.any)) s₁)
    (hfresh₂ : ids.FreshFor drawLimit (l.journal.map (·.id.any)) s₂)
    (hapart : engine.ids.Apart s₁ ids s₂ drawLimit) (h₁ : (engine.project d t₁).Gives s₁ o₁ s₁')
    (h₂ : ((engine.withIds ids).project d t₂).Gives s₂ o₂ s₂') :
    ∀ key ∈ (o₁.newBillingEvents ++ o₂.newBillingEvents).filterMap Event.occurrence?,
      ∃ cancelled cost, ∀ es, es.Perm (o₁.newBillingEvents ++ o₂.newBillingEvents) →
        ∃ c, (l.recordEach es).syntheticCharges.filter
            (fun c => (Event.oneTime c).occurrence? = some key) = [c] ∧
          (l.recordEach es).isCancelled c.id = cancelled ∧
          (l.recordEach es).effectiveCost c.id = .ok cost := by
  intro key hkey
  have hl : Ledger.empty.Accepts (rs.map .recurring) l := ⟨recorded, hstart⟩
  have hrecurring : ∀ id ∈ d.recurringEvents, l.HasRecurring id := by
    intro id hid
    obtain ⟨r, hr, rfl⟩ := hnamed id hid
    exact Ledger.hasRecurring_of_accepts hl hr
  have hreports : ∀ e ∈ o₁.newBillingEvents ++ o₂.newBillingEvents,
      engine.Reports d.recurringEvents e := by
    intro e he
    rcases List.mem_append.1 he with he | he
    · exact reports_of_project h₁ e he
    · exact (reports_of_project h₂ e he).of_withIds
  have hnew := hasNew_of_projects (Ledger.consistent_empty.accepts hl) hfresh₁ hfresh₂ hapart h₁ h₂
  -- Any charge of the occurrence says what the recorded one costs.
  obtain ⟨c₀, hc₀, hoccurrence₀, -⟩ := recordEach_reported hl hrecurring hnew hreports hkey
  let cancelled := ((o₁.newBillingEvents ++ o₂.newBillingEvents).filterMap Event.cancellation?).any
    (·.cancels c₀)
  refine ⟨cancelled, if cancelled then .zero c₀.cost.currency else c₀.cost, ?_⟩
  intro es hperm
  have hreports' : ∀ e ∈ es, engine.Reports d.recurringEvents e :=
    fun e he => hreports e (hperm.mem_iff.1 he)
  have hnew' : l.HasNew es := (((hperm.append_left l.journal).map Event.id).nodup_iff).2 hnew
  have hkey' : key ∈ es.filterMap Event.occurrence? := (hperm.filterMap _).mem_iff.2 hkey
  obtain ⟨c, hc, hoccurrence, hfilter, hcancelled, hcost⟩ :=
    recordEach_reported hl hrecurring hnew' hreports' hkey'
  obtain ⟨hevent, hbilled, hsame⟩ :=
    (hreports' _ hc).agree (hreports _ hc₀) (hoccurrence.trans hoccurrence₀.symm)
  have hall : (es.filterMap Event.cancellation?).any (·.cancels c) = cancelled := by
    rw [(hperm.filterMap _).any_eq]
    exact any_cancels_eq hreports hevent hbilled
  rw [hall] at hcancelled hcost
  rw [hsame] at hcost
  exact ⟨c, hfilter, hcancelled, hcost⟩

/-- One reader comes before the deadline of the transfer and sees the renewal, the other comes after
it and sees it cancelled as well. -/
theorem concurrent_readers_charge_once_sample :
    ∃ (rs : List Recurring) (recorded : List BillingEventId) (l : Ledger) (o₁ o₂ : Outcome)
      (s₁' s₂' : UInt64), Ledger.empty.recordAll (rs.map .recurring) = (.ok recorded, l) ∧
      (∀ id ∈ Sample.domain.recurringEvents, ∃ r ∈ rs, r.common.id = id) ∧
      IdSource.sequential.FreshFor drawLimit (l.journal.map (·.id.any)) 0 ∧
      IdSource.sequential.FreshFor drawLimit (l.journal.map (·.id.any)) 4000000 ∧
      IdSource.sequential.Apart 0 IdSource.sequential 4000000 drawLimit ∧
      (Sample.registry.project Sample.domain Sample.renewed).Gives 0 o₁ s₁' ∧
      ((Sample.registry.withIds .sequential).project Sample.domain Sample.settled).Gives
        4000000 o₂ s₂' ∧
      (Sample.domain.autorenewEvent, Sample.domain.expirationTime) ∈
        o₁.newBillingEvents.filterMap Event.occurrence? ∧
      (Sample.domain.autorenewEvent, Sample.domain.expirationTime) ∈
        o₂.newBillingEvents.filterMap Event.occurrence? ∧
      ∃ cancelled cost, ∀ es, es.Perm (o₁.newBillingEvents ++ o₂.newBillingEvents) →
        ∃ c, (l.recordEach es).syntheticCharges.filter (fun c => (Event.oneTime c).occurrence? =
            some (Sample.domain.autorenewEvent, Sample.domain.expirationTime)) = [c] ∧
          (l.recordEach es).isCancelled c.id = cancelled ∧
          (l.recordEach es).effectiveCost c.id = .ok cost := by
  let recurring (id : BillingEventId) : Recurring :=
    ⟨⟨id, .renew, Sample.domain.name, Sample.domain.sponsor, Sample.domain.creationTime,
      ⟨Sample.domain.repoId, ⟨.ofNat (UInt64.size + 5)⟩⟩⟩, .ofList [.autoRenew], .endOfTime⟩
  let rs :=
    [recurring Sample.domain.autorenewEvent, recurring Sample.transfer.approval.autorenewEvent]
  have hnamed : ∀ id ∈ Sample.domain.recurringEvents, ∃ r ∈ rs, r.common.id = id := by decide
  have hfresh₁ : IdSource.sequential.FreshFor drawLimit (rs.map fun r => r.common.id.any) 0 :=
    IdSource.sequential_freshFor (by decide) (by decide)
  have hfresh₂ : IdSource.sequential.FreshFor drawLimit (rs.map fun r => r.common.id.any) 4000000 :=
    IdSource.sequential_freshFor (by decide) (by decide)
  have hapart : IdSource.sequential.Apart 0 IdSource.sequential 4000000 drawLimit :=
    IdSource.sequential_apart (by decide) (by decide)
  have hstart : Ledger.empty.recordAll (rs.map .recurring) = (.ok _, _) := rfl
  obtain ⟨o₁, s₁', h₁⟩ := Projecting.exists_gives (s := 0)
    (x := Sample.registry.project Sample.domain Sample.renewed) (by decide +kernel)
  obtain ⟨o₂, s₂', h₂⟩ := Projecting.exists_gives (s := 4000000)
    (x := (Sample.registry.withIds .sequential).project Sample.domain Sample.settled)
    (by decide +kernel)
  have hcharged₁ :
      ∀ o ∈ ((Sample.registry.project Sample.domain Sample.renewed).run.run 0).1.toOption,
        (Sample.domain.autorenewEvent, Sample.domain.expirationTime) ∈
          o.newBillingEvents.filterMap Event.occurrence? := by decide +kernel
  have hcharged₂ : ∀ o ∈ (((Sample.registry.withIds .sequential).project Sample.domain
      Sample.settled).run.run 4000000).1.toOption,
      (Sample.domain.autorenewEvent, Sample.domain.expirationTime) ∈
        o.newBillingEvents.filterMap Event.occurrence? := by decide +kernel
  have hkey₁ := hcharged₁ o₁ (Projecting.toOption_of_gives h₁)
  have hkey : (Sample.domain.autorenewEvent, Sample.domain.expirationTime) ∈
      (o₁.newBillingEvents ++ o₂.newBillingEvents).filterMap Event.occurrence? := by
    rw [List.filterMap_append]
    exact List.mem_append_left _ hkey₁
  exact ⟨rs, _, _, o₁, o₂, s₁', s₂', hstart, hnamed, hfresh₁, hfresh₂, hapart, h₁, h₂, hkey₁,
    hcharged₂ o₂ (Projecting.toOption_of_gives h₂),
    concurrent_readers_charge_once hstart hnamed hfresh₁ hfresh₂ hapart h₁ h₂ _ hkey⟩

end NameRegistry.Registration
