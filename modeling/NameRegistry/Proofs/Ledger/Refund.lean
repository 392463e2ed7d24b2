import NameRegistry.Proofs.Event
import NameRegistry.Proofs.Ledger.Effect
import NameRegistry.Proofs.Money.Residue

/-! # Full refunds

A refund adjusts a charge by its negated cost. Costs are taken from records as they are, so a cost
may have more places than its currency; its negation is rounded, and so is the sum of both. What is
left of the charge is zero all the same, since the rounding of the sum drops whatever the rounding
of the refund has left over.
-/
namespace NameRegistry.Billing

open Record

variable {c : OneTime} {id : BillingEventId} {context : HistoryContext} {description : String}
  {m : Modification}

namespace Modification

/-- A refund is about the same as its charge, which it names, under an identifier, a time and a
history of its own. -/
theorem refund_eq_ok : refund id c context description = .ok m ↔
    m = ⟨⟨id, c.common.reason, c.common.targetId, c.common.registrarId, context.modificationTime,
      context.history⟩, c.cost.neg, description, c.id⟩ ∧
    c.common.Sound ∧ Text.isBlank description = false := by
  rw [refund, of_eq_ok]
  refine and_congr_right ?_
  rintro rfl
  exact ⟨fun h => ⟨⟨h.common.target_ne, h.common.registrar_ne⟩, h.description_ne⟩,
    fun h => ⟨⟨h.1.target_ne, h.1.registrar_ne⟩, h.2⟩⟩

theorem exists_refund_iff : (∃ m, refund id c context description = .ok m) ↔
    c.common.Sound ∧ Text.isBlank description = false := by
  simp only [refund_eq_ok, exists_eq_left]

end Modification

namespace Ledger

variable {l l' : Ledger}

theorem Consistent.exists_record_modification_iff (h : l.Consistent)
    (hnew : ∀ e ∈ l.journal, e.id ≠ m.common.id) :
    (∃ l', l.record (.modification m) = .ok l') ↔ ∃ c, .oneTime c ∈ l.journal ∧ c.id = m.event := by
  rw [h.exists_record_iff (e := .modification m) hnew rfl]
  constructor
  · rintro ⟨e, he, hid, hkind⟩
    cases e with
    | oneTime c => exact ⟨c, he, hid⟩
    | recurring | cancellation | modification => cases hkind
  · rintro ⟨c, hc, hid⟩
    exact ⟨.oneTime c, hc, hid, rfl⟩

/-- A charge that had neither been cancelled nor adjusted before costs nothing once it is
refunded. -/
theorem Reachable.effectiveCost_of_refund (h : l.Reachable) (hc : .oneTime c ∈ l.journal)
    (hopen : l.isCancelled c.id = false) (hunmodified : l.modificationsOf c.id = [])
    (hm : Modification.refund id c context description = .ok m)
    (hrecord : l.record (.modification m) = .ok l') :
    ∃ rest, l'.effectiveCost c.id = .ok rest ∧ rest.currency = c.cost.currency ∧
      rest.isZero = true := by
  have hl := h.coherent.toConsistent
  have hl' := (h.record hrecord).coherent.toConsistent
  have hnot : ¬l.Cancelled c := mt (hl.isCancelled_iff hc).2 (Bool.eq_false_iff.1 hopen)
  have hbefore : l.effectiveCost c.id = .ok c.cost := by
    rw [hl.effectiveCost_eq hc hunmodified, hopen]
    rfl
  obtain ⟨rfl, -⟩ := Modification.refund_eq_ok.1 hm
  obtain ⟨-, -, -, rfl⟩ := record_eq_ok.1 hrecord
  obtain ⟨rest, hrest, hcurrency, hzero⟩ := c.cost.exists_sub_self
  refine ⟨rest, ?_, hcurrency, hzero⟩
  have hadd : c.cost.add c.cost.neg = .ok rest := hrest
  rw [hl.effectiveCost_append_modification hl' hc hnot rfl, hbefore]
  show (c.cost.add c.cost.neg).mapError _ = _
  rw [hadd]
  rfl

theorem Reachable.isCancelled_of_modification (h : l.Reachable)
    (hrecord : l.record (.modification m) = .ok l') (hc : .oneTime c ∈ l.journal) :
    l'.isCancelled c.id = l.isCancelled c.id := by
  have hl := h.coherent.toConsistent
  have hl' := (h.record hrecord).coherent.toConsistent
  obtain ⟨-, -, -, rfl⟩ := record_eq_ok.1 hrecord
  rw [Bool.eq_iff_iff, hl'.isCancelled_iff (List.mem_append_left _ hc), hl.isCancelled_iff hc,
    cancelled_append_modification]

end Ledger

/-- A cost less itself is zero, however it is written and rounded. So a charge is refunded in full:
in every reachable ledger in which it is recorded, and has neither been cancelled nor adjusted, its
refund can be made and recorded if the charge is about something and made by somebody, the refund
has a new identifier and its description is not blank. The charge then costs nothing, without having
been cancelled. -/
theorem OneTime.refunded_in_full (c : OneTime) :
    (∃ rest, c.cost.sub c.cost = .ok rest ∧ rest.currency = c.cost.currency ∧ rest.isZero = true) ∧
    ∀ l : Ledger, l.Reachable → .oneTime c ∈ l.journal → l.isCancelled c.id = false →
      l.modificationsOf c.id = [] → c.common.targetId.isEmpty = false →
      c.common.registrarId.isEmpty = false →
      ∀ (id : BillingEventId) (context : HistoryContext) (description : String),
        (∀ e ∈ l.journal, e.id ≠ id) → Text.isBlank description = false →
        ∃ m l' rest, Modification.refund id c context description = .ok m ∧
          l.record (.modification m) = .ok l' ∧ l'.effectiveCost c.id = .ok rest ∧
          rest.currency = c.cost.currency ∧ rest.isZero = true ∧ rest.isNegative = false ∧
          l'.isCancelled c.id = false := by
  refine ⟨c.cost.exists_sub_self, ?_⟩
  intro l hl hc hopen hunmodified htarget hregistrar id context description hnew hdescription
  obtain ⟨m, hm⟩ : ∃ m, Modification.refund id c context description = .ok m :=
    Modification.exists_refund_iff.2 ⟨⟨htarget, hregistrar⟩, hdescription⟩
  obtain ⟨l', hrecord⟩ : ∃ l', l.record (.modification m) = .ok l' := by
    obtain ⟨rfl, -⟩ := Modification.refund_eq_ok.1 hm
    exact (hl.coherent.exists_record_modification_iff hnew).2 ⟨c, hc, rfl⟩
  obtain ⟨rest, hcost, hcurrency, hzero⟩ :=
    hl.effectiveCost_of_refund hc hopen hunmodified hm hrecord
  refine ⟨m, l', rest, hm, hrecord, hcost, hcurrency, hzero, Money.isNegative_of_isZero hzero, ?_⟩
  rw [hl.isCancelled_of_modification hrecord hc, hopen]

namespace Sample

/-- A charge of half a yen more than there are whole yen, with as great a mantissa as there is. -/
def halfYen : OneTime :=
  ⟨common 11 .restore, .empty, ⟨{ greatest with scale := 1, scale_le := by decide }, .jpy⟩, none,
    time, none, none⟩

def halfYenCharged : Ledger := (Ledger.empty.recordAll [.oneTime halfYen]).2

def refunding : HistoryContext := ⟨⟨⟨"1-TEST"⟩, ⟨.ofNat 10⟩⟩, time, ⟨"registrar"⟩⟩

end Sample

/-- The half yen of a loaded charge is rounded up when the charge is refunded. Half a yen too much
is then taken back, which goes to the even zero. -/
theorem OneTime.refunded_in_full_sample : ∃ m l' rest,
    load (store (Event.oneTime Sample.halfYen)) = .ok (Event.oneTime Sample.halfYen) ∧
    Sample.halfYenCharged.Reachable ∧ .oneTime Sample.halfYen ∈ Sample.halfYenCharged.journal ∧
    Modification.refund (Sample.id 12) Sample.halfYen Sample.refunding "refund" = .ok m ∧
    m.cost.minorUnits = -7922816251426433759354395034 ∧
    Sample.halfYenCharged.record (.modification m) = .ok l' ∧
    l'.effectiveCost Sample.halfYen.id = .ok rest ∧ rest.isZero = true ∧
    l'.isCancelled Sample.halfYen.id = false := by
  have hload : load (store (Event.oneTime Sample.halfYen)) = .ok (Event.oneTime Sample.halfYen) :=
    (load_store_event _).trans (congrArg Except.ok (by decide))
  have hl : Sample.halfYenCharged.Reachable := ⟨[.recordAll _], rfl⟩
  have hc : .oneTime Sample.halfYen ∈ Sample.halfYenCharged.journal := by decide
  have hnew : ∀ e ∈ Sample.halfYenCharged.journal, e.id ≠ Sample.id 12 := by decide
  obtain ⟨m, l', rest, hm, hrecord, hcost, -, hzero, -, hopen⟩ :=
    (OneTime.refunded_in_full Sample.halfYen).2 Sample.halfYenCharged hl hc (by decide)
      (by decide) (by decide) (by decide) (Sample.id 12) Sample.refunding "refund" hnew (by decide)
  refine ⟨m, l', rest, hload, hl, hc, hm, ?_, hrecord, hcost, hzero, hopen⟩
  obtain ⟨rfl, -⟩ := Modification.refund_eq_ok.1 hm
  decide

end NameRegistry.Billing
