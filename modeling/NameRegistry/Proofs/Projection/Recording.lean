import NameRegistry.Proofs.Ledger
import NameRegistry.Proofs.Projection.Course

/-! # Recording what projections report

A domain is observed at several times, in any order, each time from what was written down the time
before, and the events of each outcome are recorded. No event is ever refused: identifiers are
fresh, a cancellation refers to the recurring event of a grace period, and no occurrence of a
recurring event is charged twice.

The last point is what the invariant is about. The occurrences of the current recurring event that
have been charged lie before the expiration, and of the one that a pending transfer will put in
force none has been charged. An approval can set an earlier expiration, but then it changes the
recurring event as well.
-/
namespace NameRegistry.Registration

open Billing (Event GracePeriod HistoryRef Ledger OneTime Recurring)

/-- When, by whom and by which entry of the history a registration was renewed. -/
structure RenewalKey where
  time : Instant
  registrar : RegistrarId
  history : HistoryRef
  deriving DecidableEq

def RenewalKey.ofCharge (c : OneTime) : RenewalKey :=
  ⟨c.common.eventTime, c.common.registrarId, c.common.history⟩

def Transition.renewalKey? : Transition → Option RenewalKey
  | autoRenewed time _ registrar history => some ⟨time, registrar, history⟩
  | _ => none

/-- The charges that a step makes up. -/
def Step.charges : Step → List OneTime
  | renewal r => [r.charge]
  | approval _ => []

/-- The events of a step bear identifiers that were drawn for them, in the same order. -/
theorem Step.eventIds_sublist (step : Step) :
    (step.billingEvents.map (·.id.any)).Sublist step.drawn := by
  cases step with
  | renewal r => exact ((List.Sublist.refl [_]).cons _).cons _
  | approval a =>
    rw [billingEvents, List.map_map]
    exact (List.sublist_append_left _ _).cons _

theorem Step.event_id_mem_drawn {step : Step} {e : Event} (h : e ∈ step.billingEvents) :
    e.id.any ∈ step.drawn :=
  step.eventIds_sublist.subset (List.mem_map_of_mem h)

variable {σ : Type} {engine : Engine σ} {observed t : Instant}

namespace Engine.Moves

variable {d d' : Domain} {step : Step} {s s' : σ}

theorem synthetic_eq (h : engine.Moves observed t d s step d' s') :
    (step.billingEvents.filterMap Event.oneTime?).filter (·.isSynthetic) = step.charges := by
  cases h with
  | renewal _ _ hr _ =>
    have hcharge := (renew_gives.1 hr).1.charge
    rw [Step.billingEvents, Step.charges, hcharge]
    rfl
  | approval _ _ _ _ =>
    rw [Step.billingEvents, Step.charges, List.filterMap_map, List.filter_eq_nil_iff]
    intro c hc
    obtain ⟨k, -, hk⟩ := List.mem_filterMap.1 hc
    cases hk

/-- A step makes up one charge for a renewal, with its key, and none otherwise. -/
theorem keys_eq (h : engine.Moves observed t d s step d' s') :
    step.charges.map .ofCharge = step.transition.renewalKey?.toList := by
  cases h with
  | renewal _ _ hr _ =>
    have hir := (renew_gives.1 hr).1
    show [RenewalKey.ofCharge _] = [_]
    rw [hir.charge, hir.time_eq, hir.registrar]
    rfl
  | approval _ _ _ _ => rfl

theorem history_mem_drawn (h : engine.Moves observed t d s step d' s') :
    ∀ c ∈ step.charges, c.common.history.historyId.any ∈ step.drawn := by
  intro c hc
  cases h with
  | renewal _ _ hr _ =>
    cases List.mem_singleton.1 hc
    rw [(renew_gives.1 hr).1.charge]
    simp [Step.drawn, Renewal.drawn]
  | approval _ _ _ _ => cases hc

end Engine.Moves

/-- The ledger bears identifiers in use only, and no two charges were made up for one history
entry. -/
structure Noted (l : Ledger) (used : List AnyId) : Prop where
  events : ∀ e ∈ l.journal, e.id.any ∈ used
  histories : ∀ c ∈ l.syntheticCharges, c.common.history.historyId.any ∈ used
  separate : (l.syntheticCharges.map RenewalKey.ofCharge).Nodup

theorem Noted.get?_eq_none {l : Ledger} {used : List AnyId} {id : BillingEventId} (h : Noted l used)
    (hid : id.any ∉ used) : l.get? id = none := by
  rw [Ledger.get?_eq_none]
  rintro e he rfl
  exact hid (h.events e he)

theorem Noted.record {d d' : Domain} {step : Step} {s s' : σ} {l l' : Ledger} {used : List AnyId}
    (h : Noted l used) (hmove : engine.Moves observed t d s step d' s')
    (hnew : ∀ u ∈ step.drawn, u ∉ used) (hl : l.Accepts step.billingEvents l') :
    Noted l' (used ++ step.drawn) := by
  have hcharges := Ledger.syntheticCharges_of_accepts hl
  rw [hmove.synthetic_eq] at hcharges
  refine ⟨?_, ?_, ?_⟩
  · intro e he
    rw [(Ledger.eq_of_accepts hl).1] at he
    rcases List.mem_append.1 he with he | he
    · exact List.mem_append_left _ (h.events e he)
    · exact List.mem_append_right _ (Step.event_id_mem_drawn he)
  · intro c hc
    rw [hcharges] at hc
    rcases List.mem_append.1 hc with hc | hc
    · exact List.mem_append_left _ (h.histories c hc)
    · exact List.mem_append_right _ (hmove.history_mem_drawn c hc)
  · rw [hcharges, List.map_append, List.nodup_append]
    refine ⟨h.separate, ?_, ?_⟩
    · cases step with
      | renewal r => exact List.pairwise_singleton _ _
      | approval a => exact .nil
    · intro key hkey key' hkey' heq
      obtain ⟨c, hc, rfl⟩ := List.mem_map.1 hkey
      obtain ⟨c', hc', rfl⟩ := List.mem_map.1 hkey'
      have hhistory : c.common.history = c'.common.history := congrArg RenewalKey.history heq
      exact hnew _ (hmove.history_mem_drawn c' hc') (hhistory ▸ h.histories c hc)

/-- The recurring events that a domain names: its own, those of its grace periods, and the one that
a pending transfer will put in force. -/
def Domain.recurringEvents (d : Domain) : List BillingEventId :=
  d.autorenewEvent :: d.gracePeriods.filterMap (·.recurringEvent) ++
    d.transfer.pending?.toList.map (·.approval.autorenewEvent)

/-- What the next steps of a domain refer to is recorded, and what they will charge is not. -/
structure Domain.Billable (d : Domain) (l : Ledger) : Prop where
  current : l.HasRecurring d.autorenewEvent
  graced : ∀ g ∈ d.gracePeriods, ∀ id ∈ g.recurringEvent, l.HasRecurring id
  next : ∀ p ∈ d.transfer.pending?, l.HasRecurring p.approval.autorenewEvent
  other : ∀ p ∈ d.transfer.pending?, p.approval.autorenewEvent ≠ d.autorenewEvent
  charged : ∀ time, (d.autorenewEvent, time) ∈ l.charged → time < d.expirationTime
  uncharged : ∀ p ∈ d.transfer.pending?, ∀ time, (p.approval.autorenewEvent, time) ∉ l.charged

namespace Domain.Billable

variable {d d' : Domain} {l : Ledger} {s s' : σ}

theorem renewal {r : Renewal} (h : d.Billable l)
    (hr : engine.IsRenewal d observed d.expirationTime r) (hd : d.renewedBy [r] = .ok d')
    (hnew : l.get? r.charge.id = none) :
    ∃ l', l.Accepts [.oneTime r.charge] l' ∧ d'.Billable l' := by
  have hsame := sameRegistration_of_renewedBy hd
  have hoccurrence : (Event.oneTime r.charge).occurrence? =
      some (d.autorenewEvent, d.expirationTime) := by
    rw [hr.charge]
    rfl
  have hcheck : l.checkOccurrence (.oneTime r.charge) = .ok () := by
    have hfree : (d.autorenewEvent, d.expirationTime) ∉ l.charged :=
      fun hmem => Int.lt_irrefl _ (h.charged _ hmem)
    rw [Ledger.checkOccurrence, hoccurrence]
    exact if_neg hfree
  have hcharged : (l.append (.oneTime r.charge)).charged =
      l.charged ++ [(d.autorenewEvent, d.expirationTime)] := by
    rw [Ledger.append, hoccurrence]
    rfl
  refine ⟨l.append (.oneTime r.charge),
    Ledger.accepts_cons.2 ⟨_, Ledger.record_eq_ok.2 ⟨hnew, rfl, hcheck, rfl⟩,
      Ledger.accepts_nil.2 rfl⟩, ?_⟩
  refine ⟨?_, ?_, ?_, ?_, ?_, ?_⟩
  · rw [hsame.autorenewEvent]
    exact h.current.append _
  · intro g hg id hid
    rw [gracePeriods_of_renewedBy hd, GraceOrder.mem_sort, List.mem_append] at hg
    rcases hg with hg | hg
    · exact (h.graced g hg id hid).append _
    · cases List.mem_singleton.1 hg
      rw [hr.grace_recurring] at hid
      cases hid
      exact h.current.append _
  · rw [hsame.transfer]
    exact fun p hp => (h.next p hp).append _
  · rw [hsame.transfer, hsame.autorenewEvent]
    exact h.other
  · have hlater := Instant.lt_of_addYears_one hr.year
    intro time htime
    rw [expirationTime_of_renewedBy hd]
    rw [hsame.autorenewEvent, hcharged, List.mem_append] at htime
    rcases htime with htime | htime
    · exact Int.lt_trans (h.charged time htime) hlater
    · cases List.mem_singleton.1 htime
      exact hlater
  · rw [hsame.transfer]
    intro p hp time htime
    rw [hcharged, List.mem_append] at htime
    rcases htime with htime | htime
    · exact h.uncharged p hp time htime
    · have hpair := List.mem_singleton.1 htime
      exact h.other p hp (congrArg Prod.fst hpair)

theorem approval {a : Approval} {p : PendingTransfer} {basis : Instant} (h : d.Billable l)
    (hpending : d.transfer.pending? = some p) (ha : engine.IsApproval d p basis a)
    (hd : d.transferred p a.expirationTime a.gracePeriod = .ok d')
    (hnew : ∀ k ∈ a.cancellation, l.get? k.common.id = none) :
    ∃ l', l.Accepts (a.cancellation.toList.map .cancellation) l' ∧ d'.Billable l' := by
  have hover := handedOver_of_transferred hd
  -- No occurrence is charged, so the ledger only matters for the recurring events that it has.
  have hbillable : ∀ {l' : Ledger}, l'.charged = l.charged →
      (∀ {id}, l.HasRecurring id → l'.HasRecurring id) →
      d'.Billable l' := by
    intro l' hcharged hkeeps
    refine ⟨?_, ?_, ?_, ?_, ?_, ?_⟩
    · rw [hover.autorenewEvent]
      exact hkeeps (h.next p hpending)
    · intro g hg id hid
      rw [hover.gracePeriods, Option.mem_toList] at hg
      cases hid.symm.trans (ha.grace_recurring g hg)
    · rw [hover.decided]
      exact fun _ hp => by cases hp
    · rw [hover.decided]
      exact fun _ hp => by cases hp
    · intro time htime
      rw [hover.autorenewEvent, hcharged] at htime
      exact absurd htime (h.uncharged p hpending time)
    · rw [hover.decided]
      exact fun _ hp => by cases hp
  cases hk : a.cancellation with
  | none => exact ⟨l, Ledger.accepts_nil.2 rfl, hbillable rfl id⟩
  | some k =>
    obtain ⟨-, g, hg, event, hevent, hcancelled, -⟩ := ha.absorbed_of_cancellation hk
    have hreference : l.checkReference (.cancellation k) = .ok () := by
      rw [Ledger.checkReference, Event.reference?, hcancelled]
      exact (h.graced g (mem_of_latestAutorenewGrace? hg).1 event hevent).requireKind
    refine ⟨l.append (.cancellation k), Ledger.accepts_cons.2 ⟨_,
      Ledger.record_eq_ok.2 ⟨hnew k hk, hreference, rfl, rfl⟩, Ledger.accepts_nil.2 rfl⟩, ?_⟩
    exact hbillable (List.append_nil _) fun hid => hid.append _

/-- Grace periods that are over need not be billed any more. -/
theorem lapse (h : d.Billable l) : (d.lapse t).Billable l :=
  ⟨h.current, fun g hg => h.graced g (List.mem_filter.1 hg).1, h.next, h.other,
    h.charged, h.uncharged⟩

end Domain.Billable

/-- A domain whose further events can all be recorded. -/
structure Engine.Recordable (engine : Engine σ) (d : Domain) (l : Ledger)
    (used : List AnyId) (s : σ) : Prop where
  fresh : engine.ids.FreshFor (3 * d.stepsLeft) used s
  noted : Noted l used
  billable : d.Billable l

theorem Engine.Moves.recordable {d d' : Domain} {step : Step} {s s' : σ} {l : Ledger}
    {used : List AnyId} (h : engine.Moves observed t d s step d' s')
    (hr : engine.Recordable d l used s) :
    ∃ l', l.Accepts step.billingEvents l' ∧ engine.Recordable d' l' (used ++ step.drawn) s' := by
  have hlt := h.stepsLeft_lt
  have hlen := step.length_kinds_le
  obtain ⟨-, hnew, hfresh⟩ := hr.fresh.drawIds h.drawIds_eq (by omega)
  have habsent : ∀ e ∈ step.billingEvents, l.get? e.id = none :=
    fun e he => hr.noted.get?_eq_none (hnew _ (Step.event_id_mem_drawn he))
  have hbilled : ∃ l', l.Accepts step.billingEvents l' ∧ d'.Billable l' := by
    cases h with
    | renewal _ _ hrenew hd =>
      exact hr.billable.renewal (renew_gives.1 hrenew).1 hd (habsent _ List.mem_cons_self)
    | approval hdue _ _ ha =>
      obtain ⟨hia, hd, -⟩ := isApproval_of_gives ha
      refine hr.billable.approval (Domain.dueTransfer?_eq_some.1 hdue).1 hia hd fun k hk => ?_
      exact habsent (.cancellation k) (List.mem_map_of_mem (Option.mem_toList.2 hk))
  obtain ⟨l', hl', hbillable⟩ := hbilled
  exact ⟨l', hl', hfresh.mono (by omega) fun _ hu => hu, hr.noted.record h hnew hl', hbillable⟩

/-- All events of a course are recorded, with one charge for each renewal. -/
theorem Engine.Course.recordable {d d' : Domain} {steps : List Step} {s s' : σ} {l : Ledger}
    {used : List AnyId} (h : engine.Course observed t d s steps d' s')
    (hr : engine.Recordable d l used s) :
    ∃ l' used', l.Accepts (steps.flatMap Step.billingEvents) l' ∧ engine.Recordable d' l' used' s' ∧
      l'.syntheticCharges.map .ofCharge =
        l.syntheticCharges.map .ofCharge ++
          (steps.map Step.transition).filterMap Transition.renewalKey? := by
  induction h generalizing l used with
  | rest _ _ => exact ⟨l, used, Ledger.accepts_nil.2 rfl, hr, (List.append_nil _).symm⟩
  | @step d d₁ d₂ s s₁ s₂ step steps hmove _ ih =>
    obtain ⟨l₁, hl₁, hr₁⟩ := hmove.recordable hr
    obtain ⟨l', used', hl', hr', hkeys⟩ := ih hr₁
    refine ⟨l', used', hl₁.append hl', hr', ?_⟩
    rw [hkeys, Ledger.syntheticCharges_of_accepts hl₁, hmove.synthetic_eq, List.map_append,
      hmove.keys_eq, List.append_assoc, List.map_cons, List.filterMap_cons]
    cases step.transition.renewalKey? <;> rfl

theorem recordable_of_project {d : Domain} {o : Outcome} {s s' : σ} {l : Ledger} {used : List AnyId}
    (h : (engine.project d t).Gives s o s') (hr : engine.Recordable d l used s) :
    ∃ l' used', l.Accepts o.newBillingEvents l' ∧ engine.Recordable o.domain l' used' s' ∧
      (l'.syntheticCharges.map RenewalKey.ofCharge).Perm
        (l.syntheticCharges.map .ofCharge ++ o.transitions.filterMap Transition.renewalKey?) := by
  obtain ⟨-, d', steps, hcourse, rfl⟩ := project_gives.1 h
  obtain ⟨l', used', hl', hr', hkeys⟩ := hcourse.recordable hr
  refine ⟨l', used', hl', ⟨hr'.fresh, hr'.noted, hr'.billable.lapse⟩, ?_⟩
  rw [hkeys]
  exact (Outcome.filterMap_transitions_account (fun _ => rfl) d' steps t).symm.append_left _

/-- A domain as it is observed at one time after another, in any order. What is written down each
time is what is observed next. -/
def Engine.observe (engine : Engine σ) (d : Domain) : List Instant → Projecting σ (List Outcome)
  | [] => return []
  | t :: ts => do
    let o ← engine.project d t
    let os ← observe engine o.domain ts
    return o :: os

theorem recordable_of_observe {d : Domain} {ts : List Instant} {os : List Outcome}
    {s s' : σ} {l : Ledger} {used : List AnyId} (h : (engine.observe d ts).Gives s os s')
    (hr : engine.Recordable d l used s) :
    ∃ l' used', l.recordLists (os.map (·.newBillingEvents)) = .ok l' ∧ Noted l' used' ∧
      (l'.syntheticCharges.map RenewalKey.ofCharge).Perm (l.syntheticCharges.map .ofCharge ++
        (os.flatMap (·.transitions)).filterMap Transition.renewalKey?) := by
  induction ts generalizing d os s l used with
  | nil =>
    obtain ⟨rfl, -⟩ := Projecting.gives_pure.1 h
    exact ⟨l, used, rfl, hr.noted, by simp⟩
  | cons t ts ih =>
    simp only [Engine.observe, Projecting.gives_bind, Projecting.gives_pure] at h
    obtain ⟨o, s₁, ho, rest, s₂, hrest, rfl, rfl⟩ := h
    obtain ⟨l₁, used₁, hl₁, hr₁, hkeys₁⟩ := recordable_of_project ho hr
    obtain ⟨l', used', hl', hnoted, hkeys⟩ := ih hrest hr₁
    refine ⟨l', used', ?_, hnoted, ?_⟩
    · rw [List.map_cons, Ledger.recordLists_cons hl₁, hl']
    · rw [List.flatMap_cons, List.filterMap_append, ← List.append_assoc]
      exact hkeys.trans (hkeys₁.append_right _)

/-- A ledger in which the recurring events of the domain were recorded, and no others but recurring
ones. -/
theorem recordable_of_start {d : Domain} {rs : List Recurring} {l : Ledger} {s : σ}
    (hstart : Ledger.empty.Accepts (rs.map .recurring) l)
    (hnamed : ∀ id ∈ d.recurringEvents, ∃ r ∈ rs, r.common.id = id)
    (hother : ∀ p ∈ d.transfer.pending?, p.approval.autorenewEvent ≠ d.autorenewEvent)
    (hfresh : engine.ids.FreshFor drawLimit (l.journal.map (·.id.any)) s) :
    engine.Recordable d l (l.journal.map (·.id.any)) s := by
  have hcharged := Ledger.charged_of_accepts_recurring hstart
  have hnone := Ledger.syntheticCharges_of_accepts_recurring hstart
  have hrecorded : ∀ id ∈ d.recurringEvents, l.HasRecurring id := by
    intro id hid
    obtain ⟨r, hr, rfl⟩ := hnamed id hid
    exact Ledger.hasRecurring_of_accepts hstart hr
  refine ⟨hfresh.mono d.stepsLeft_le fun _ hu => hu, ⟨fun e he => List.mem_map_of_mem he, ?_, ?_⟩,
    ⟨?_, ?_, ?_, hother, ?_, ?_⟩⟩
  · rw [hnone]
    exact fun c hc => absurd hc List.not_mem_nil
  · rw [hnone]
    exact .nil
  · exact hrecorded _ List.mem_cons_self
  · intro g hg id hid
    refine hrecorded id (List.mem_append_left _ (List.mem_cons_of_mem _ ?_))
    exact List.mem_filterMap.2 ⟨g, hg, hid⟩
  · intro p hp
    exact hrecorded _ (List.mem_append_right _ (List.mem_map_of_mem (Option.mem_toList.2 hp)))
  · rw [hcharged]
    exact fun time htime => absurd htime List.not_mem_nil
  · rw [hcharged]
    exact fun p _ time => List.not_mem_nil

/-- However a domain is observed, all events reported can be recorded, list by list, and in the end
there is one charge made up for each renewal reported, and none besides: they have the same keys,
each once. -/
theorem observed_events_recorded {d : Domain} {rs : List Recurring}
    {ids : List BillingEventId} {l : Ledger} {ts : List Instant} {os : List Outcome} {s s' : σ}
    (hstart : Ledger.empty.recordAll (rs.map .recurring) = (.ok ids, l))
    (hnamed : ∀ id ∈ d.recurringEvents, ∃ r ∈ rs, r.common.id = id)
    (hother : ∀ p ∈ d.transfer.pending?, p.approval.autorenewEvent ≠ d.autorenewEvent)
    (hfresh : engine.ids.FreshFor drawLimit (l.journal.map (·.id.any)) s)
    (hrun : (engine.observe d ts).Gives s os s') :
    ∃ l', l.recordLists (os.map (·.newBillingEvents)) = .ok l' ∧
      (l'.syntheticCharges.map RenewalKey.ofCharge).Perm
        ((os.flatMap (·.transitions)).filterMap Transition.renewalKey?) ∧
      (l'.syntheticCharges.map RenewalKey.ofCharge).Nodup := by
  obtain ⟨l', used', hl', hnoted, hkeys⟩ :=
    recordable_of_observe hrun (recordable_of_start ⟨ids, hstart⟩ hnamed hother hfresh)
  rw [Ledger.syntheticCharges_of_accepts_recurring ⟨ids, hstart⟩] at hkeys
  exact ⟨l', hl', hkeys, hnoted.separate⟩

theorem observed_events_recorded_sample :
    ∃ (rs : List Recurring) (ids : List BillingEventId) (l : Ledger) (os : List Outcome)
      (s' : UInt64), Ledger.empty.recordAll (rs.map .recurring) = (.ok ids, l) ∧
      (∀ id ∈ Sample.domain.recurringEvents, ∃ r ∈ rs, r.common.id = id) ∧
      Sample.registry.ids.FreshFor drawLimit (l.journal.map (·.id.any)) 0 ∧
      (Sample.registry.observe Sample.domain
        [Sample.settled, Sample.renewed, Sample.confirmed, Sample.renewedAgain]).Gives 0 os s' ∧
      ∃ l', l.recordLists (os.map (·.newBillingEvents)) = .ok l' ∧
        (l'.syntheticCharges.map RenewalKey.ofCharge).Perm
          ((os.flatMap (·.transitions)).filterMap Transition.renewalKey?) := by
  let recurring (id : BillingEventId) : Recurring :=
    ⟨⟨id, .renew, Sample.domain.name, Sample.domain.sponsor, Sample.domain.creationTime,
      ⟨Sample.domain.repoId, ⟨.ofNat (UInt64.size + 5)⟩⟩⟩, .ofList [.autoRenew], .endOfTime⟩
  let rs :=
    [recurring Sample.domain.autorenewEvent, recurring Sample.transfer.approval.autorenewEvent]
  have hnamed : ∀ id ∈ Sample.domain.recurringEvents, ∃ r ∈ rs, r.common.id = id := by decide
  have hother : ∀ p ∈ Sample.domain.transfer.pending?,
      p.approval.autorenewEvent ≠ Sample.domain.autorenewEvent := by decide
  have hfresh : Sample.registry.ids.FreshFor drawLimit (rs.map fun r => r.common.id.any) 0 :=
    IdSource.sequential_freshFor (by decide) (by decide)
  obtain ⟨os, s', hrun⟩ := Projecting.exists_gives (s := 0)
    (x := Sample.registry.observe Sample.domain
      [Sample.settled, Sample.renewed, Sample.confirmed, Sample.renewedAgain]) (by decide +kernel)
  have hstart : Ledger.empty.recordAll (rs.map .recurring) = (.ok _, _) := rfl
  obtain ⟨l', hl', hkeys, -⟩ := observed_events_recorded hstart hnamed hother hfresh hrun
  exact ⟨rs, _, _, os, s', hstart, hnamed, hfresh, hrun, l', hl', hkeys⟩

end NameRegistry.Registration
