import NameRegistry.Proofs.Ledger.Cost

/-! # What recording changes

A recorded event touches the charge that it is for and no other. A cancellation takes back the
charge that it names, or those that were made up for the recurring event it names and are billed
when it is; an adjustment changes the cost of its charge, as long as that has not been cancelled. A
charge that has been cancelled stays so for good.
-/
namespace NameRegistry.Billing

/-- The event takes the charge back. -/
def Event.Cancels (e : Event) (c : OneTime) : Prop := ∃ k, e = .cancellation k ∧ k.IsFor c

/-- The event adjusts what is charged under the identifier. -/
def Event.Adjusts (e : Event) (id : BillingEventId) : Prop :=
  ∃ m, e = .modification m ∧ m.event = id

namespace Ledger

variable {l l' : Ledger} {e : Event} {id : BillingEventId} {c : OneTime}

theorem cancelled_append : (l.append e).Cancelled c ↔ l.Cancelled c ∨ e.Cancels c := by
  simp only [Cancelled, Event.Cancels, journal_append, List.mem_append, List.mem_singleton,
    or_and_right, exists_or, eq_comm (a := e)]

/-- An adjustment takes nothing back. -/
theorem cancelled_append_modification {m : Modification} :
    (l.append (.modification m)).Cancelled c ↔ l.Cancelled c := by
  rw [cancelled_append, or_iff_left]
  rintro ⟨k, hk, -⟩
  cases hk

theorem Cancelled.of_prefix (h : l.Cancelled c) (hjournal : l.journal <+: l'.journal) :
    l'.Cancelled c := by
  obtain ⟨k, hk, hfor⟩ := h
  exact ⟨k, hjournal.subset hk, hfor⟩

/-- Whatever is called later, a charge that has been cancelled costs nothing. -/
theorem Reachable.cancelled_for_good (h : l.Reachable) (hc : .oneTime c ∈ l.journal)
    (hcancelled : l.Cancelled c) (later : List Call) :
    (l.performAll later).isCancelled c.id = true ∧
      (l.performAll later).effectiveCost c.id = .ok (.zero c.cost.currency) := by
  have hlater := (h.performAll later).coherent.toConsistent
  have hjournal := l.journal_prefix later
  have hcancelled := hcancelled.of_prefix hjournal
  have hc := hjournal.subset hc
  exact ⟨(hlater.isCancelled_iff hc).2 hcancelled, hlater.effectiveCost_of_cancelled hc hcancelled⟩

theorem adjustments_append_of_not_adjusts (h : ¬e.Adjusts id) :
    (l.append e).adjustments id = l.adjustments id := by
  have hnew : ([e].filterMap Event.modification?).filter (fun m => m.event = id) = [] := by
    rw [List.filter_eq_nil_iff]
    intro m hm
    obtain ⟨e', he, hm⟩ := List.mem_filterMap.1 hm
    cases List.mem_singleton.1 he
    cases e <;> cases hm
    simpa using fun hid => h ⟨_, rfl, hid⟩
  rw [adjustments, modificationsOf, journal_append, List.filterMap_append, List.filter_append, hnew,
    List.append_nil]
  rfl

theorem adjustments_append {m : Modification} (h : m.event = id) :
    (l.append (.modification m)).adjustments id = l.adjustments id ++ [m.cost] := by
  have hnew : ([Event.modification m].filterMap Event.modification?).filter
      (fun m => m.event = id) = [m] := by
    simp [Event.modification?, h]
  rw [adjustments, modificationsOf, journal_append, List.filterMap_append, List.filter_append, hnew,
    List.map_append]
  rfl

/-- The cost of a charge that stays uncancelled changes only by an adjustment. -/
theorem Consistent.effectiveCost_append (h : l.Consistent) (h' : (l.append e).Consistent)
    (hc : .oneTime c ∈ l.journal) (hcancels : ¬e.Cancels c) (hadjusts : ¬e.Adjusts c.id) :
    (l.append e).effectiveCost c.id = l.effectiveCost c.id := by
  have hc' : .oneTime c ∈ (l.append e).journal := List.mem_append_left _ hc
  have hiff : (l.append e).Cancelled c ↔ l.Cancelled c :=
    cancelled_append.trans (or_iff_left hcancels)
  by_cases hcancelled : l.Cancelled c
  · rw [h.effectiveCost_of_cancelled hc hcancelled,
      h'.effectiveCost_of_cancelled hc' (hiff.2 hcancelled)]
  · rw [h.effectiveCost_of_not_cancelled hc hcancelled,
      h'.effectiveCost_of_not_cancelled hc' (mt hiff.1 hcancelled),
      adjustments_append_of_not_adjusts hadjusts]

/-- An adjustment is added to what the charge has cost so far. -/
theorem Consistent.effectiveCost_append_modification {m : Modification} (h : l.Consistent)
    (h' : (l.append (.modification m)).Consistent) (hc : .oneTime c ∈ l.journal)
    (hcancelled : ¬l.Cancelled c) (hm : m.event = c.id) :
    (l.append (.modification m)).effectiveCost c.id =
      (l.effectiveCost c.id).bind (addCost · m) := by
  have hc' : .oneTime c ∈ (l.append (.modification m)).journal := List.mem_append_left _ hc
  rw [h.effectiveCost_of_not_cancelled hc hcancelled,
    h'.effectiveCost_of_not_cancelled hc' (mt cancelled_append_modification.1 hcancelled),
    adjustments_append hm, Money.addAll, List.foldlM_append, ← Money.addAll]
  cases hadd : c.cost.addAll (l.adjustments c.id) with
  | error err => rfl
  | ok sum =>
    show ((sum.add m.cost).bind pure).mapError _ = (sum.add m.cost).mapError _
    cases sum.add m.cost <;> rfl

/-- In every reachable ledger a recorded charge becomes cancelled by a cancellation that is for it
and by no other event. What it costs changes only in that way, and then to nothing, or by an
adjustment of it while it is not cancelled, which is added. Once it has been cancelled it stays so
and costs nothing, whatever is called later. -/
theorem recording_touches (h : l.Reachable) (hc : .oneTime c ∈ l.journal) :
    (∀ e l', l.record e = .ok l' →
      (l'.isCancelled c.id = true ↔ l.isCancelled c.id = true ∨ e.Cancels c) ∧
      (l'.effectiveCost c.id ≠ l.effectiveCost c.id →
        l.isCancelled c.id = false ∧ (e.Cancels c ∨ e.Adjusts c.id)) ∧
      (e.Cancels c → l'.effectiveCost c.id = .ok (.zero c.cost.currency)) ∧
      (l.isCancelled c.id = false → ∀ m, e = .modification m → m.event = c.id →
        l'.effectiveCost c.id = (l.effectiveCost c.id).bind (addCost · m))) ∧
    (l.isCancelled c.id = true → ∀ later, (l.performAll later).isCancelled c.id = true ∧
      (l.performAll later).effectiveCost c.id = .ok (.zero c.cost.currency)) := by
  have hl := h.coherent.toConsistent
  refine ⟨fun e l' hrecord => ?recorded, fun hcancelled => ?stays⟩
  case stays => exact h.cancelled_for_good hc ((hl.isCancelled_iff hc).1 hcancelled)
  case recorded =>
    have hl' := (h.record hrecord).coherent.toConsistent
    obtain ⟨-, -, -, rfl⟩ := record_eq_ok.1 hrecord
    have hc' : .oneTime c ∈ (l.append e).journal := List.mem_append_left _ hc
    have hzero : (l.append e).Cancelled c →
        (l.append e).effectiveCost c.id = .ok (.zero c.cost.currency) :=
      hl'.effectiveCost_of_cancelled hc'
    rw [hl'.isCancelled_iff hc', ← Bool.not_eq_true, hl.isCancelled_iff hc]
    refine ⟨cancelled_append, fun hne => ⟨fun hcancelled => hne ?_, ?_⟩, fun hcancels => ?_, ?_⟩
    · rw [hzero (cancelled_append.2 (.inl hcancelled)), hl.effectiveCost_of_cancelled hc hcancelled]
    · by_contra hnot
      rw [not_or] at hnot
      exact hne (hl.effectiveCost_append hl' hc hnot.1 hnot.2)
    · exact hzero (cancelled_append.2 (.inr hcancels))
    · rintro hcancelled m rfl hm
      exact hl.effectiveCost_append_modification hl' hc hcancelled hm

end Ledger

namespace Sample

/-- A charge that was made up for a recurring event, and one that was not. -/
def charged : Ledger := (Ledger.empty.recordAll [recurring, madeUp, charge]).2

/-- An adjustment of the charge that was made up. -/
def lateAdjustment : Event := .modification ⟨common 7 .renew, .ofMinor 100 .usd, "late", id 2⟩

end Sample

/-- The charge that was made up is cancelled with its recurring event where it is billed, and costs
nothing even after an adjustment by 1.00. The other charge costs what it did. -/
theorem Ledger.recording_touches_sample : ∃ l' c c', Sample.charged.Reachable ∧
    .oneTime c ∈ Sample.charged.journal ∧ .oneTime c' ∈ Sample.charged.journal ∧
    Sample.charged.record Sample.cancellation = .ok l' ∧
    Sample.charged.isCancelled c.id = false ∧ l'.isCancelled c.id = true ∧
    (l'.performAll [.record Sample.lateAdjustment]).effectiveCost c.id = .ok (.zero .usd) ∧
    l'.isCancelled c'.id = false ∧ l'.effectiveCost c'.id = Sample.charged.effectiveCost c'.id := by
  have h : Sample.charged.Reachable := ⟨[.recordAll _], rfl⟩
  obtain ⟨l', hrecord⟩ : ∃ l', Sample.charged.record Sample.cancellation = .ok l' := ⟨_, rfl⟩
  obtain ⟨c, hmadeUp⟩ : ∃ c, Sample.madeUp = .oneTime c := ⟨_, rfl⟩
  obtain ⟨c', hcharge⟩ : ∃ c', Sample.charge = .oneTime c' := ⟨_, rfl⟩
  cases hmadeUp
  cases hcharge
  have hc : Sample.madeUp ∈ Sample.charged.journal := by decide
  have hc' : Sample.charge ∈ Sample.charged.journal := by decide
  have hjournal : Sample.charged.journal <+: l'.journal := by
    cases hrecord
    exact List.prefix_append _ _
  have hopen : l'.isCancelled Sample.charge.id = false := by
    cases hrecord
    decide
  have hcancelled :=
    ((Ledger.recording_touches h hc).1 _ _ hrecord).1.2 (.inr ⟨_, rfl, .inr ⟨_, rfl, rfl, rfl⟩⟩)
  obtain ⟨-, hlater⟩ :=
    (Ledger.recording_touches (h.record hrecord) (hjournal.subset hc)).2 hcancelled
      [.record Sample.lateAdjustment]
  obtain ⟨hiff, hcost, -⟩ := (Ledger.recording_touches h hc').1 _ _ hrecord
  refine ⟨l', _, _, h, hc, hc', hrecord, by decide, hcancelled, hlater, hopen, ?_⟩
  by_contra hne
  obtain ⟨-, hcancels | ⟨m, hm, -⟩⟩ := hcost hne
  · exact Bool.false_ne_true (hopen.symm.trans (hiff.2 (.inr hcancels)))
  · cases hm

end NameRegistry.Billing
