import NameRegistry.Proofs.Event
import NameRegistry.Proofs.Ledger.Effect

/-! # Undoing a grace period

What a grace period refers to is taken back by its cancellation: the charge that it names, or the
occurrences of the recurring event that are billed when it ends. There is a cancellation of every
grace period that names an event, but for those in which nothing is billed, and a ledger records it
as soon as that event is recorded.
-/
namespace NameRegistry.Billing

variable {g : GracePeriod} {id event : BillingEventId} {context : HistoryContext} {target : String}
  {k : Cancellation}

theorem GraceStatus.exists_reason_iff {status : GraceStatus} :
    (∃ reason, status.reason? = some reason) ↔ status ≠ .redemption ∧ status ≠ .pendingDelete := by
  cases status <;> simp [reason?]

theorem GracePeriod.exists_cancellation_iff (htarget : target.isEmpty = false)
    (hregistrar : g.registrarId.isEmpty = false) : (∃ k, g.cancellation id context target = .ok k) ↔
      g.hasBillingEvent = true ∧ g.status ≠ .redemption ∧ g.status ≠ .pendingDelete := by
  rw [← GraceStatus.exists_reason_iff, hasBillingEvent_iff]
  constructor
  · rintro ⟨k, hk⟩
    obtain ⟨reason, hreason, -, -, hcharge, hrecurring, -⟩ := cancellation_eq_ok.1 hk
    exact ⟨⟨_, hcharge, hrecurring⟩, reason, hreason⟩
  · rintro ⟨⟨x, hcharge, hrecurring⟩, reason, hreason⟩
    refine ⟨⟨⟨id, reason, target, g.registrarId, context.modificationTime, context.history⟩,
      g.expirationTime, x⟩, ?_⟩
    exact cancellation_eq_ok.2 ⟨reason, hreason, rfl, rfl, hcharge, hrecurring, htarget, hregistrar⟩

theorem Event.cancels_cancellation {c : OneTime} :
    (Event.cancellation k).Cancels c ↔ k.IsFor c := by
  simp [Cancels]

theorem Cancellation.isFor_of_oneTime {c : OneTime} (h : k.cancelled = .oneTime event) :
    k.IsFor c ↔ c.id = event := by
  simp [IsFor, h, eq_comm]

theorem Cancellation.isFor_of_recurring {c : OneTime} (h : k.cancelled = .recurring event) :
    k.IsFor c ↔ c.matchingEvent = some event ∧ c.billingTime = k.billingTime := by
  simp [IsFor, h, eq_comm (a := k.billingTime)]

namespace Ledger

variable {l l' : Ledger} {c : OneTime}

theorem Consistent.exists_record_cancellation_iff (h : l.Consistent)
    (hnew : ∀ e ∈ l.journal, e.id ≠ k.common.id) :
    (∃ l', l.record (.cancellation k) = .ok l') ↔
      ∃ e ∈ l.journal, e.id = k.cancelled.id ∧ e.kind = k.cancelled.kind :=
  h.exists_record_iff (e := .cancellation k) hnew rfl

theorem recurrenceCancelledAt_iff {time : Instant} : l.recurrenceCancelledAt event time = true ↔
    ∃ k, .cancellation k ∈ l.journal ∧ k.cancelled = .recurring event ∧ k.billingTime = time := by
  rw [recurrenceCancelledAt, List.any_eq_true]
  simp only [mem_cancellations, Bool.and_eq_true, decide_eq_true_eq,
    CancelledEvent.recurring?_eq_some]

/-- A recorded cancellation takes back what it is for, besides what had been taken back before. -/
theorem Reachable.isCancelled_of_cancellation (h : l.Reachable)
    (hrecord : l.record (.cancellation k) = .ok l') (hc : .oneTime c ∈ l.journal) :
    l'.isCancelled c.id = true ↔ l.isCancelled c.id = true ∨ k.IsFor c := by
  have hl' := (h.record hrecord).coherent
  obtain ⟨-, -, -, rfl⟩ := record_eq_ok.1 hrecord
  rw [hl'.isCancelled_iff (List.mem_append_left _ hc), h.coherent.isCancelled_iff hc,
    cancelled_append, Event.cancels_cancellation]

/-- The charge that a recorded cancellation names is there, costs nothing and is on no list. -/
theorem Reachable.charge_undone (h : l.Reachable) (hrecord : l.record (.cancellation k) = .ok l')
    (hk : k.cancelled = .oneTime event) :
    (∃ c, .oneTime c ∈ l.journal ∧ c.id = event ∧
      l'.effectiveCost event = .ok (.zero c.cost.currency)) ∧
      ∀ target listed, l'.chargesFor target = .ok listed → ∀ p ∈ listed, p.1.id ≠ event := by
  have hl' := (h.record hrecord).coherent.toConsistent
  obtain ⟨e, he, hid, hkind⟩ := h.coherent.exists_referred hrecord rfl
  rw [hk] at hid hkind
  cases e with
  | recurring | cancellation | modification => cases hkind
  | oneTime c =>
    obtain rfl : c.id = event := hid
    have hcancelled : l'.isCancelled c.id = true :=
      (h.isCancelled_of_cancellation hrecord he).2 (.inr ((Cancellation.isFor_of_oneTime hk).2 rfl))
    have hc : .oneTime c ∈ l'.journal := by
      obtain ⟨-, -, -, rfl⟩ := record_eq_ok.1 hrecord
      exact List.mem_append_left _ he
    refine ⟨⟨c, he, rfl, ?_⟩, fun target listed hlisted p hp hid => ?_⟩
    · exact hl'.effectiveCost_of_cancelled hc ((hl'.isCancelled_iff hc).1 hcancelled)
    · have hlisted : p.1 ∈ l'.openCharges target :=
        (chargesFor_eq_ok.1 hlisted).1 ▸ List.mem_map_of_mem hp
      obtain ⟨hmem, -, hopen⟩ := hl'.mem_openCharges.1 hlisted
      exact hopen ((hl'.isCancelled_iff hmem).1 (hid ▸ hcancelled))

end Ledger

/-- Every grace period with an event has a cancellation, unless it is one in which nothing is
billed. The cancellation names that event, as a recurring one exactly after an autorenewal, and is
billed when the grace period ends. Under a new identifier every reachable ledger records it if and
only if the event is recorded as what it is named. A charge that it names then costs nothing and is
no longer listed. Of a recurring event that it names the occurrence billed at the end of the grace
period is cancelled: the charges made up for that occurrence, and no others that were not. -/
theorem GracePeriod.cancellation_undoes (htarget : target.isEmpty = false)
    (hregistrar : g.registrarId.isEmpty = false) :
    ((∃ k, g.cancellation id context target = .ok k) ↔
      g.hasBillingEvent = true ∧ g.status ≠ .redemption ∧ g.status ≠ .pendingDelete) ∧
    ∀ k, g.cancellation id context target = .ok k →
      k.common.id = id ∧ k.billingTime = g.expirationTime ∧
      (∀ event, k.cancelled = .oneTime event ↔ g.oneTimeEvent = some event) ∧
      (∀ event, k.cancelled = .recurring event ↔ g.recurringEvent = some event) ∧
      (k.cancelled.kind = .recurring ↔ g.status = .autoRenew) ∧
      ∀ l : Ledger, l.Reachable → (∀ e ∈ l.journal, e.id ≠ id) →
        ((∃ l', l.record (.cancellation k) = .ok l') ↔
          ∃ e ∈ l.journal, e.id = k.cancelled.id ∧ e.kind = k.cancelled.kind) ∧
        ∀ l', l.record (.cancellation k) = .ok l' →
          (∀ event, g.oneTimeEvent = some event →
            (∃ c, .oneTime c ∈ l.journal ∧ c.id = event ∧
              l'.effectiveCost event = .ok (.zero c.cost.currency)) ∧
            (∀ target listed, l'.chargesFor target = .ok listed → ∀ p ∈ listed, p.1.id ≠ event) ∧
            ∀ c, .oneTime c ∈ l.journal →
              (l'.isCancelled c.id = true ↔ l.isCancelled c.id = true ∨ c.id = event)) ∧
          ∀ event, g.recurringEvent = some event →
            l'.recurrenceCancelledAt event g.expirationTime = true ∧
            ∀ c, .oneTime c ∈ l.journal →
              (l'.isCancelled c.id = true ↔ l.isCancelled c.id = true ∨
                c.matchingEvent = some event ∧ c.billingTime = g.expirationTime) := by
  refine ⟨exists_cancellation_iff htarget hregistrar, fun k hk => ?_⟩
  obtain ⟨_, -, hcommon, htime, hcharge, hrecurring, -⟩ := cancellation_eq_ok.1 hk
  obtain rfl : k.common.id = id := congrArg EventCommon.id hcommon
  have hnames : ∀ event, k.cancelled = .oneTime event ↔ g.oneTimeEvent = some event := by
    intro event
    rw [← hcharge, CancelledEvent.oneTime?_eq_some]
  have hrecurs : ∀ event, k.cancelled = .recurring event ↔ g.recurringEvent = some event := by
    intro event
    rw [← hrecurring, CancelledEvent.recurring?_eq_some]
  refine ⟨rfl, htime, hnames, hrecurs, ?_,
    fun l hl hnew => ⟨?_, fun l' hrecord => ⟨?charge, ?occurrence⟩⟩⟩
  · rw [CancelledEvent.kind_eq_recurring, hrecurring, g.recurring_iff]
  · exact hl.coherent.exists_record_cancellation_iff hnew
  case charge =>
    intro event hevent
    have hk := (hnames event).2 hevent
    obtain ⟨hzero, hlisted⟩ := hl.charge_undone hrecord hk
    refine ⟨hzero, hlisted, fun c hc => ?_⟩
    rw [hl.isCancelled_of_cancellation hrecord hc, Cancellation.isFor_of_oneTime hk]
  case occurrence =>
    intro event hevent
    have hk := (hrecurs event).2 hevent
    refine ⟨?_, fun c hc => ?_⟩
    · obtain ⟨-, -, -, rfl⟩ := Ledger.record_eq_ok.1 hrecord
      exact Ledger.recurrenceCancelledAt_iff.2 ⟨k,
        List.mem_append_right _ (List.mem_singleton_self _), hk, htime⟩
    · rw [hl.isCancelled_of_cancellation hrecord hc, Cancellation.isFor_of_recurring hk, htime]

namespace Sample

/-- The grace period of the autorenewal that is charged in `charged`. -/
def autorenewGrace : GracePeriod where
  id := ⟨.ofNat 8⟩
  status := .autoRenew
  domainRepoId := ⟨"2-TEST"⟩
  expirationTime := time
  registrarId := ⟨"registrar"⟩
  oneTimeEvent := none
  recurringEvent := some (Sample.id 1)
  one_event := by decide
  recurring_iff := by decide
  repoId_ne := by decide

def undoing : HistoryContext := ⟨⟨⟨"2-TEST"⟩, ⟨.ofNat 10⟩⟩, time, ⟨"registrar"⟩⟩

end Sample

/-- An autorenewal is undone while its grace period lasts: its charge is taken back, and no
other. -/
theorem GracePeriod.cancellation_undoes_sample : ∃ k l' c c',
    Sample.autorenewGrace.cancellation (Sample.id 3) Sample.undoing "example.test" = .ok k ∧
    Sample.charged.record (.cancellation k) = .ok l' ∧
    l'.recurrenceCancelledAt (Sample.id 1) Sample.time = true ∧
    .oneTime c ∈ Sample.charged.journal ∧ Sample.charged.isCancelled c.id = false ∧
    l'.isCancelled c.id = true ∧
    .oneTime c' ∈ Sample.charged.journal ∧ l'.isCancelled c'.id = false := by
  have hl : Sample.charged.Reachable := ⟨[.recordAll _], rfl⟩
  obtain ⟨c, hmadeUp⟩ : ∃ c, Sample.madeUp = .oneTime c := ⟨_, rfl⟩
  obtain ⟨c', hcharge⟩ : ∃ c', Sample.charge = .oneTime c' := ⟨_, rfl⟩
  cases hmadeUp
  cases hcharge
  have hc : Sample.madeUp ∈ Sample.charged.journal := by decide
  have hc' : Sample.charge ∈ Sample.charged.journal := by decide
  have hnew : ∀ e ∈ Sample.charged.journal, e.id ≠ Sample.id 3 := by decide
  obtain ⟨hexists, hundone⟩ :=
    @GracePeriod.cancellation_undoes Sample.autorenewGrace
      (Sample.id 3) Sample.undoing "example.test" (by decide) (by decide)
  obtain ⟨k, hk⟩ := hexists.2 (by decide)
  obtain ⟨-, -, -, hrecurs, -, hrecorded⟩ := hundone k hk
  have hcancelled : k.cancelled = .recurring (Sample.id 1) := (hrecurs _).2 rfl
  obtain ⟨hrecord_iff, hafter⟩ := hrecorded _ hl hnew
  obtain ⟨l', hrecord⟩ :=
    hrecord_iff.2 ⟨Sample.recurring, by decide, by rw [hcancelled]; rfl, by rw [hcancelled]; rfl⟩
  obtain ⟨hat, hcharges⟩ := (hafter l' hrecord).2 _ rfl
  refine ⟨k, l', _, _, hk, hrecord, hat,
    hc, by decide, (hcharges _ hc).2 (.inr ⟨rfl, rfl⟩), hc', ?_⟩
  rw [Bool.eq_false_iff, Ne, hcharges _ hc']
  decide

end NameRegistry.Billing
