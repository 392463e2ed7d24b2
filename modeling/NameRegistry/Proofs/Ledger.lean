import NameRegistry.Billing.Ledger
import NameRegistry.Proofs.Domain

/-! # Recording into a ledger

An event is recorded if its identifier is new, what it refers to is recorded as the right kind, and
it charges no occurrence again. What is recorded stays so.

Every ledger keeps its identifiers distinct and charges no occurrence twice. So of several charges
of one occurrence exactly one is recorded if the others are refused, whichever comes first.
-/
namespace NameRegistry.Billing.Ledger

variable {l l' l'' : Ledger} {e : Event} {es fs : List Event} {id : BillingEventId}

theorem record_eq_ok : l.record e = .ok l' ↔ l.get? e.id = none ∧ l.checkReference e = .ok () ∧
    l.checkOccurrence e = .ok () ∧ l' = l.append e := by
  rw [record]
  cases hget : l.get? e.id with
  | some e' => simp
  | none =>
    simp only [Option.isSome_none, Bool.false_eq_true, if_false, bind_eq_ok, true_and]
    constructor
    · rintro ⟨⟨⟩, hreference, ⟨⟩, hoccurrence, h⟩
      cases h
      exact ⟨hreference, hoccurrence, rfl⟩
    · rintro ⟨hreference, hoccurrence, rfl⟩
      exact ⟨(), hreference, (), hoccurrence, rfl⟩

theorem get?_eq_none : l.get? id = none ↔ ∀ e ∈ l.journal, e.id ≠ id := by
  rw [get?, List.find?_eq_none]
  simp

/-- All of the events are recorded, one after another. -/
def Accepts (l : Ledger) (es : List Event) (l' : Ledger) : Prop :=
  ∃ ids, l.recordAll es = (.ok ids, l')

theorem accepts_nil : l.Accepts [] l' ↔ l = l' := by
  simp [Accepts, recordAll]

theorem accepts_cons : l.Accepts (e :: es) l'' ↔ ∃ l', l.record e = .ok l' ∧ l'.Accepts es l'' := by
  rw [Accepts, recordAll]
  cases hrecord : l.record e with
  | error err => simp
  | ok l' =>
    simp only [Except.ok.injEq, exists_eq_left']
    constructor
    · rintro ⟨ids, h⟩
      cases hrest : l'.recordAll es with | mk result l₂ =>
      rw [hrest] at h
      cases result with
      | error err => cases h
      | ok ids' =>
        cases h
        exact ⟨ids', hrest⟩
    · rintro ⟨ids, h⟩
      exact ⟨e.id :: ids, by rw [h]; rfl⟩

theorem Accepts.append (h : l.Accepts es l') (h' : l'.Accepts fs l'') :
    l.Accepts (es ++ fs) l'' := by
  induction es generalizing l with
  | nil =>
    rw [accepts_nil] at h
    subst h
    exact h'
  | cons e es ih =>
    obtain ⟨l₁, hrecord, h⟩ := accepts_cons.1 h
    exact accepts_cons.2 ⟨l₁, hrecord, ih h⟩

/-- Events that have been recorded stand at the end of the journal, and so do their occurrences. -/
theorem eq_of_accepts (h : l.Accepts es l') :
    l'.journal = l.journal ++ es ∧ l'.charged = l.charged ++ es.flatMap (·.occurrence?.toList) := by
  induction es generalizing l with
  | nil =>
    rw [accepts_nil] at h
    subst h
    simp
  | cons e es ih =>
    obtain ⟨l₁, hrecord, h⟩ := accepts_cons.1 h
    obtain ⟨-, -, -, rfl⟩ := record_eq_ok.1 hrecord
    obtain ⟨hjournal, hcharged⟩ := ih h
    rw [hjournal, hcharged]
    simp [append]

theorem mem_charges {c : OneTime} : c ∈ l.charges ↔ .oneTime c ∈ l.journal := by
  rw [charges, List.mem_filterMap]
  simp [Event.oneTime?_eq_some]

/-- The identifier is that of a recorded recurring event. -/
def HasRecurring (l : Ledger) (id : BillingEventId) : Prop :=
  ∃ e, l.get? id = some e ∧ e.kind = .recurring

theorem HasRecurring.append (h : l.HasRecurring id) (e : Event) : (l.append e).HasRecurring id := by
  obtain ⟨r, hget, hkind⟩ := h
  exact ⟨r, by rw [get?_append, hget]; rfl, hkind⟩

theorem HasRecurring.requireKind (h : l.HasRecurring id) :
    l.requireKind id .recurring = .ok () := by
  obtain ⟨e, hget, hkind⟩ := h
  rw [Ledger.requireKind, hget]
  exact if_pos hkind

/-- A ledger of recurring events only. -/
theorem hasRecurring_of_accepts {rs : List Recurring} (h : empty.Accepts (rs.map .recurring) l)
    {r : Recurring} (hr : r ∈ rs) : l.HasRecurring r.common.id := by
  have hjournal := (eq_of_accepts h).1
  have hsome : l.get? r.common.id ≠ none := by
    rw [Ne, get?_eq_none, hjournal]
    intro hnone
    exact hnone (.recurring r) (by simp [hr]) rfl
  obtain ⟨e, hget⟩ := Option.ne_none_iff_exists'.1 hsome
  have hmem : e ∈ l.journal := List.mem_of_find?_eq_some hget
  rw [hjournal] at hmem
  have hkind : e.kind = .recurring := by
    rcases List.mem_append.1 hmem with hmem | hmem
    · cases hmem
    · obtain ⟨r', -, rfl⟩ := List.mem_map.1 hmem
      rfl
  exact ⟨e, hget, hkind⟩

theorem charged_of_accepts_recurring {rs : List Recurring}
    (h : empty.Accepts (rs.map .recurring) l) : l.charged = [] := by
  rw [(eq_of_accepts h).2, List.flatMap_map]
  simp [empty, Event.occurrence?]

def syntheticCharges (l : Ledger) : List OneTime := l.charges.filter (·.isSynthetic)

theorem syntheticCharges_of_accepts (h : l.Accepts es l') : l'.syntheticCharges =
    l.syntheticCharges ++ (es.filterMap Event.oneTime?).filter (·.isSynthetic) := by
  rw [syntheticCharges, syntheticCharges, charges, charges, (eq_of_accepts h).1,
    List.filterMap_append, List.filter_append]

theorem syntheticCharges_of_accepts_recurring {rs : List Recurring}
    (h : empty.Accepts (rs.map .recurring) l) : l.syntheticCharges = [] := by
  rw [syntheticCharges_of_accepts h, List.filterMap_map, List.filter_eq_nil_iff.2]
  · rfl
  · intro c hc
    obtain ⟨r, -, hr⟩ := List.mem_filterMap.1 hc
    cases hr

/-- Records one list of events after another, up to the first event that is refused. -/
def recordLists (l : Ledger) : List (List Event) → Except BillingError Ledger
  | [] => .ok l
  | es :: rest =>
    match l.recordAll es with
    | (.ok _, l') => l'.recordLists rest
    | (.error err, _) => .error err

theorem recordLists_cons {rest : List (List Event)} (h : l.Accepts es l') :
    l.recordLists (es :: rest) = l'.recordLists rest := by
  obtain ⟨ids, h⟩ := h
  rw [recordLists, h]

/-- No identifier is recorded twice, the occurrences that count as charged are those of the events
in the journal, and none of them is charged twice. -/
structure Consistent (l : Ledger) : Prop where
  ids : (l.journal.map Event.id).Nodup
  charged_eq : l.charged = l.journal.filterMap Event.occurrence?
  once : l.charged.Nodup

theorem consistent_empty : empty.Consistent := ⟨.nil, rfl, .nil⟩

theorem checkOccurrence_eq_ok :
    l.checkOccurrence e = .ok () ↔ ∀ key ∈ e.occurrence?, key ∉ l.charged := by
  rw [checkOccurrence]
  cases e.occurrence? with
  | none => simp
  | some key => simp

theorem Consistent.record (h : l.Consistent) (hrecord : l.record e = .ok l') : l'.Consistent := by
  obtain ⟨hnew, -, hoccurrence, rfl⟩ := record_eq_ok.1 hrecord
  rw [get?_eq_none] at hnew
  rw [checkOccurrence_eq_ok] at hoccurrence
  refine ⟨?_, ?_, ?_⟩
  · rw [journal_append, List.map_append, List.nodup_append]
    refine ⟨h.ids, List.pairwise_singleton _ _, fun id hid id' hid' => ?_⟩
    obtain ⟨e', he', rfl⟩ := List.mem_map.1 hid
    cases List.mem_singleton.1 hid'
    exact hnew e' he'
  · rw [Ledger.append, List.filterMap_append, ← h.charged_eq]
    cases he : e.occurrence? <;> simp [he]
  · rw [Ledger.append, List.nodup_append]
    refine ⟨h.once, ?_, fun key hkey key' hkey' heq => ?_⟩
    · cases e.occurrence? <;> simp
    · exact hoccurrence key' (Option.mem_toList.1 hkey') (heq ▸ hkey)

theorem Consistent.accepts (h : l.Consistent) (hes : l.Accepts es l') : l'.Consistent := by
  induction es generalizing l with
  | nil =>
    rw [accepts_nil] at hes
    exact hes ▸ h
  | cons e es ih =>
    obtain ⟨l₁, hrecord, hes⟩ := accepts_cons.1 hes
    exact ih (h.record hrecord) hes

/-- What is recorded is found under its identifier. -/
theorem Consistent.get?_eq_some (h : l.Consistent) (he : e ∈ l.journal) : l.get? e.id = some e := by
  obtain ⟨front, back, hsplit⟩ := List.append_of_mem he
  have hids := h.ids
  rw [hsplit, List.map_append, List.nodup_append] at hids
  have hfront : ∀ e' ∈ front, e'.id ≠ e.id :=
    fun e' he' => hids.2.2 _ (List.mem_map_of_mem he') _ (by simp)
  rw [get?, hsplit, List.find?_append, List.find?_eq_none.2 (by simpa using hfront)]
  simp

/-- Events with an occurrence are the charges that were made up. -/
theorem count_occurrence (journal : List Event) (key : BillingEventId × Instant) :
    (journal.filterMap Event.occurrence?).count key =
      (((journal.filterMap Event.oneTime?).filter (·.isSynthetic)).filter
        fun c => (Event.oneTime c).occurrence? = some key).length := by
  induction journal with
  | nil => rfl
  | cons e journal ih =>
    cases e with
    | oneTime c =>
      cases hsynthetic : c.synthetic with
      | none =>
        simpa [Event.occurrence?, Event.oneTime?, OneTime.matchingEvent,
          OneTime.isSynthetic, hsynthetic] using ih
      | some origin =>
        simp only [List.filterMap_cons, Event.occurrence?, Event.oneTime?,
          OneTime.matchingEvent, hsynthetic, Option.map_some, List.count_cons, ih,
          OneTime.isSynthetic, Option.isSome_some, List.filter_cons, if_true, Option.some.injEq,
          beq_iff_eq, decide_eq_true_eq]
        split <;> rfl
    | recurring r => exact ih
    | cancellation k => exact ih
    | modification m => exact ih

/-- An occurrence that is charged is charged by one recorded charge. -/
theorem Consistent.charge_of_occurrence (h : l.Consistent) {key : BillingEventId × Instant}
    (hkey : key ∈ l.charged) :
    ∃ c, .oneTime c ∈ l.journal ∧ (Event.oneTime c).occurrence? = some key ∧
      l.syntheticCharges.filter (fun c => (Event.oneTime c).occurrence? = some key) = [c] := by
  obtain ⟨c, hc⟩ : ∃ c, l.syntheticCharges.filter
      (fun c => (Event.oneTime c).occurrence? = some key) = [c] := by
    apply List.length_eq_one_iff.1
    rw [syntheticCharges, charges, ← count_occurrence, ← h.charged_eq, h.once.count, if_pos hkey]
  have hmem : c ∈ [c] := List.mem_singleton_self c
  rw [← hc, List.mem_filter, decide_eq_true_eq] at hmem
  obtain ⟨e, he, heq⟩ := List.mem_filterMap.1 (List.mem_filter.1 hmem.1).1
  rw [Event.oneTime?_eq_some.1 heq] at he
  exact ⟨c, he, hmem.2, hc⟩

theorem Consistent.isCancelled_eq (h : l.Consistent) {c : OneTime} (hc : .oneTime c ∈ l.journal) :
    l.isCancelled c.id = l.cancellations.any (·.cancels c) := by
  have hget : l.get? c.id = some (.oneTime c) := h.get?_eq_some hc
  rw [isCancelled, charge?, hget]
  rfl

/-- A charge that has not been adjusted costs what it says, or nothing if it has been cancelled. -/
theorem Consistent.effectiveCost_eq (h : l.Consistent) {c : OneTime} (hc : .oneTime c ∈ l.journal)
    (hunmodified : l.modificationsOf c.id = []) :
    l.effectiveCost c.id = .ok (if l.isCancelled c.id then .zero c.cost.currency else c.cost) := by
  have hget : l.get? c.id = some (.oneTime c) := h.get?_eq_some hc
  rw [effectiveCost, charge, hget, hunmodified]
  show (if _ then _ else _) = _
  split <;> rfl

/-- Records the event unless it is refused. -/
def tryRecord (l : Ledger) (e : Event) : Ledger := (l.record e).toOption.getD l

/-- Records one event after another, but for those that are refused. -/
def recordEach (l : Ledger) (es : List Event) : Ledger := es.foldl tryRecord l

theorem tryRecord_of_ok (h : l.record e = .ok l') : l.tryRecord e = l' := by
  rw [tryRecord, h]
  rfl

/-- The event is recorded, or the ledger stays as it is. -/
theorem tryRecord_cases (l : Ledger) (e : Event) :
    l.record e = .ok (l.append e) ∧ l.tryRecord e = l.append e ∨
      (∀ l', l.record e ≠ .ok l') ∧ l.tryRecord e = l := by
  cases h : l.record e with
  | ok l' =>
    obtain ⟨-, -, -, rfl⟩ := record_eq_ok.1 h
    exact .inl ⟨rfl, tryRecord_of_ok h⟩
  | error err =>
    refine .inr ⟨nofun, ?_⟩
    rw [tryRecord, h]
    rfl

theorem Consistent.tryRecord (h : l.Consistent) (e : Event) : (l.tryRecord e).Consistent := by
  rcases l.tryRecord_cases e with ⟨hrecord, heq⟩ | ⟨-, heq⟩
  · rw [heq]
    exact h.record hrecord
  · rwa [heq]

theorem Consistent.recordEach (h : l.Consistent) (es : List Event) :
    (l.recordEach es).Consistent := by
  induction es generalizing l with
  | nil => exact h
  | cons e es ih => exact ih (h.tryRecord e)

/-- What is recorded stays recorded, and what is charged stays charged. -/
theorem subset_tryRecord (l : Ledger) (e : Event) :
    l.journal ⊆ (l.tryRecord e).journal ∧ l.charged ⊆ (l.tryRecord e).charged := by
  rcases l.tryRecord_cases e with ⟨-, heq⟩ | ⟨-, heq⟩
  · rw [heq]
    exact ⟨List.subset_append_left _ _, List.subset_append_left _ _⟩
  · rw [heq]
    exact ⟨List.Subset.refl _, List.Subset.refl _⟩

theorem subset_recordEach (l : Ledger) (es : List Event) :
    l.journal ⊆ (l.recordEach es).journal ∧ l.charged ⊆ (l.recordEach es).charged := by
  induction es generalizing l with
  | nil => exact ⟨List.Subset.refl _, List.Subset.refl _⟩
  | cons e es ih =>
    obtain ⟨hjournal, hcharged⟩ := l.subset_tryRecord e
    obtain ⟨hjournal', hcharged'⟩ := ih (l.tryRecord e)
    exact ⟨List.Subset.trans hjournal hjournal', List.Subset.trans hcharged hcharged'⟩

theorem mem_of_mem_recordEach (h : e ∈ (l.recordEach es).journal) : e ∈ l.journal ∨ e ∈ es := by
  induction es generalizing l with
  | nil => exact .inl h
  | cons e' es ih =>
    rcases ih h with h | h
    · rcases l.tryRecord_cases e' with ⟨-, heq⟩ | ⟨-, heq⟩
      · rw [heq, journal_append, List.mem_append] at h
        rcases h with h | h
        · exact .inl h
        · cases List.mem_singleton.1 h
          exact .inr List.mem_cons_self
      · exact .inl (heq ▸ h)
    · exact .inr (List.mem_cons_of_mem _ h)

/-- The events bear new identifiers, each its own. -/
def HasNew (l : Ledger) (es : List Event) : Prop := ((l.journal ++ es).map Event.id).Nodup

theorem HasNew.get?_eq_none (h : l.HasNew (e :: es)) : l.get? e.id = none := by
  rw [HasNew, List.map_append, List.nodup_append] at h
  rw [Ledger.get?_eq_none]
  exact fun e' he' => h.2.2 _ (List.mem_map_of_mem he') _ (by simp)

theorem HasNew.tryRecord (h : l.HasNew (e :: es)) : (l.tryRecord e).HasNew es := by
  rcases l.tryRecord_cases e with ⟨-, heq⟩ | ⟨-, heq⟩
  · rw [heq, HasNew, journal_append, List.append_assoc]
    exact h
  · rw [heq]
    exact ((List.Sublist.refl l.journal).append
      (List.sublist_cons_self e es) |>.map Event.id).nodup h

theorem HasRecurring.tryRecord (h : l.HasRecurring id) (e : Event) :
    (l.tryRecord e).HasRecurring id := by
  rcases l.tryRecord_cases e with ⟨-, heq⟩ | ⟨-, heq⟩
  · rw [heq]
    exact h.append e
  · rwa [heq]

/-- The cancellation of a recorded recurring event is never refused for anything but its
identifier. -/
theorem mem_recordEach_of_recurring {k : Cancellation} (hnew : l.HasNew es)
    (hmem : .cancellation k ∈ es) (hcancelled : k.cancelled = .recurring id)
    (hrecurring : l.HasRecurring id) : .cancellation k ∈ (l.recordEach es).journal := by
  induction es generalizing l with
  | nil => cases hmem
  | cons e es ih =>
    rcases List.mem_cons.1 hmem with rfl | hmem
    · have hreference : l.checkReference (.cancellation k) = .ok () := by
        rw [checkReference, Event.reference?, hcancelled]
        exact hrecurring.requireKind
      have hrecord := record_eq_ok.2 ⟨hnew.get?_eq_none, hreference, rfl, rfl⟩
      apply (subset_recordEach _ es).1
      rw [tryRecord_of_ok hrecord]
      exact List.mem_append_right _ (List.mem_singleton_self _)
    · exact ih hnew.tryRecord hmem (hrecurring.tryRecord e)

/-- A charge is refused only if its occurrence has been charged. -/
theorem charged_recordEach {c : OneTime} {key : BillingEventId × Instant} (hnew : l.HasNew es)
    (hmem : .oneTime c ∈ es) (hkey : (Event.oneTime c).occurrence? = some key) :
    key ∈ (l.recordEach es).charged := by
  induction es generalizing l with
  | nil => cases hmem
  | cons e es ih =>
    rcases List.mem_cons.1 hmem with rfl | hmem
    · apply (subset_recordEach _ es).2
      by_cases hcharged : key ∈ l.charged
      · exact (l.subset_tryRecord _).2 hcharged
      · have hfree : ∀ key' ∈ (Event.oneTime c).occurrence?, key' ∉ l.charged := by
          rw [hkey]
          rintro key' hkey'
          cases hkey'
          exact hcharged
        have hrecord := record_eq_ok.2 ⟨hnew.get?_eq_none, rfl, checkOccurrence_eq_ok.2 hfree, rfl⟩
        rw [tryRecord_of_ok hrecord, Ledger.append, hkey]
        exact List.mem_append_right _ (List.mem_singleton_self _)
    · exact ih hnew.tryRecord hmem

end NameRegistry.Billing.Ledger
