import NameRegistry.Proofs.Ledger.Order

/-! # What a charge costs

A charge that a recorded cancellation is for costs nothing, whatever its adjustments. Any other
costs what it says with its adjustments, which are added in the order in which they were recorded:
up to the first in another currency, which is refused, or to the first sum that leaves the range of
decimals. The list of the charges on a target is there if each of them that has not been cancelled
has a cost.
-/
namespace NameRegistry

namespace Money

variable {cost sum m : Money} {ms : List Money}

/-- Adds amounts one after another. -/
def addAll (cost : Money) (ms : List Money) : Except MoneyError Money := ms.foldlM add cost

/-- After some of the amounts have been added, the sum with the next one leaves the range of
decimals. -/
def Overflows (cost : Money) (ms : List Money) : Prop :=
  ∃ front m back sum, ms = front ++ m :: back ∧ cost.addAll front = .ok sum ∧
    sum.add m = .error .overflow

theorem addAll_cons_of_ok (h : cost.add m = .ok sum) (ms : List Money) :
    cost.addAll (m :: ms) = sum.addAll ms :=
  bind_of_ok h _

theorem addAll_cons_of_error {err : MoneyError} (h : cost.add m = .error err) (ms : List Money) :
    cost.addAll (m :: ms) = .error err :=
  bind_of_error h _

/-- An amount in another currency is refused; one in the same is added, unless the sum does not
fit. -/
theorem add_cases (a b : Money) :
    b.currency ≠ a.currency ∧ a.add b = .error (.currencyMismatch a.currency b.currency) ∨
      b.currency = a.currency ∧
        (a.add b = .error .overflow ∨ ∃ sum, a.add b = .ok sum ∧ sum.currency = a.currency) := by
  by_cases h : a.currency = b.currency
  · refine .inr ⟨h.symm, ?_⟩
    rw [add, if_neg (not_not_intro h)]
    cases a.amount.add? b.amount with
    | none => exact .inl rfl
    | some sum => exact .inr ⟨_, rfl, rfl⟩
  · exact .inl ⟨Ne.symm h, add_of_currency_ne h⟩

theorem overflows_cons : cost.Overflows (m :: ms) ↔
    cost.add m = .error .overflow ∨ ∃ sum, cost.add m = .ok sum ∧ sum.Overflows ms := by
  constructor
  · rintro ⟨front, m', back, sum, hsplit, hfront, hover⟩
    cases front with
    | nil =>
      obtain ⟨rfl, rfl⟩ := List.cons.inj hsplit
      cases hfront
      exact .inl hover
    | cons m₁ front =>
      obtain ⟨rfl, rfl⟩ := List.cons.inj hsplit
      obtain ⟨sum₁, hadd, hrest⟩ := bind_eq_ok.1 hfront
      exact .inr ⟨sum₁, hadd, front, m', back, sum, rfl, hrest, hover⟩
  · rintro (hover | ⟨sum, hadd, front, m', back, sum', rfl, hfront, hover⟩)
    · exact ⟨[], m, ms, cost, rfl, rfl, hover⟩
    · exact ⟨m :: front, m', back, sum', rfl, (addAll_cons_of_ok hadd front).trans hfront, hover⟩

/-- Amounts do not add up for one of two reasons, whichever comes first. -/
theorem addAll_cases (cost : Money) (ms : List Money) :
    cost.Overflows ms ∧ cost.addAll ms = .error .overflow ∨
      ¬cost.Overflows ms ∧
        ((∃ m ∈ ms, m.currency ≠ cost.currency ∧
            cost.addAll ms = .error (.currencyMismatch cost.currency m.currency)) ∨
          (∀ m ∈ ms, m.currency = cost.currency) ∧ ∃ sum, cost.addAll ms = .ok sum) := by
  induction ms generalizing cost with
  | nil =>
    refine .inr ⟨?_, .inr ⟨List.forall_mem_nil _, cost, rfl⟩⟩
    rintro ⟨front, m, back, sum, hsplit, -⟩
    cases front <;> cases hsplit
  | cons m ms ih =>
    rcases cost.add_cases m with ⟨hother, hadd⟩ | ⟨hsame, hadd | ⟨sum, hadd, hcurrency⟩⟩
    · refine .inr ⟨?_, .inl ⟨m, List.mem_cons_self, hother, addAll_cons_of_error hadd ms⟩⟩
      rw [overflows_cons, hadd]
      rintro (⟨⟨⟩⟩ | ⟨_, ⟨⟩, -⟩)
    · exact .inl ⟨overflows_cons.2 (.inl hadd), addAll_cons_of_error hadd ms⟩
    · have hover : cost.Overflows (m :: ms) ↔ sum.Overflows ms := by
        rw [overflows_cons, hadd]
        simp
      rw [hover, addAll_cons_of_ok hadd, ← hcurrency]
      rw [← hcurrency] at hsame
      rcases ih sum with hrest | ⟨hnot, ⟨m', hm', hrest⟩ | ⟨hall, hrest⟩⟩
      · exact .inl hrest
      · exact .inr ⟨hnot, .inl ⟨m', List.mem_cons_of_mem m hm', hrest⟩⟩
      · exact .inr ⟨hnot, .inr ⟨List.forall_mem_cons.2 ⟨hsame, hall⟩, hrest⟩⟩

theorem overflows_iff : cost.Overflows ms ↔ cost.addAll ms = .error .overflow := by
  rcases cost.addAll_cases ms with ⟨hover, herr⟩ | ⟨hnot, ⟨m, -, -, herr⟩ | ⟨-, sum, hsum⟩⟩
  · exact iff_of_true hover herr
  · rw [herr]
    exact iff_of_false hnot nofun
  · rw [hsum]
    exact iff_of_false hnot nofun

end Money

namespace Billing

/-- The cancellation names the charge, or the recurring event that the charge was made up for, with
the time at which it is billed. -/
def Cancellation.IsFor (k : Cancellation) (c : OneTime) : Prop :=
  k.cancelled = .oneTime c.id ∨
    ∃ recurring, k.cancelled = .recurring recurring ∧ c.matchingEvent = some recurring ∧
      k.billingTime = c.billingTime

theorem Cancellation.cancels_iff {k : Cancellation} {c : OneTime} :
    k.cancels c = true ↔ k.IsFor c := by
  rw [cancels, IsFor]
  cases k.cancelled with
  | oneTime id => simp
  | recurring id => simp [eq_comm (a := k.billingTime)]

namespace Ledger

variable {l l' : Ledger} {e : Event} {id : BillingEventId} {c : OneTime}

/-- A cancellation that is for the charge has been recorded. -/
def Cancelled (l : Ledger) (c : OneTime) : Prop := ∃ k, .cancellation k ∈ l.journal ∧ k.IsFor c

theorem mem_cancellations {k : Cancellation} :
    k ∈ l.cancellations ↔ .cancellation k ∈ l.journal := by
  rw [cancellations, List.mem_filterMap]
  simp [Event.cancellation?_eq_some]

theorem Consistent.isCancelled_iff (h : l.Consistent) (hc : .oneTime c ∈ l.journal) :
    l.isCancelled c.id = true ↔ l.Cancelled c := by
  rw [h.isCancelled_eq hc, List.any_eq_true]
  simp only [mem_cancellations, Cancellation.cancels_iff, Cancelled]

/-- The ledger has come from an empty one by recording. -/
def Reachable (l : Ledger) : Prop := ∃ calls, empty.performAll calls = l

theorem Reachable.coherent (h : l.Reachable) : l.Coherent := by
  obtain ⟨calls, rfl⟩ := h
  exact coherent_empty.performAll calls

theorem Reachable.performAll (h : l.Reachable) (calls : List Call) :
    (l.performAll calls).Reachable := by
  obtain ⟨before, rfl⟩ := h
  exact ⟨before ++ calls, performAll_append empty before calls⟩

theorem Reachable.record (h : l.Reachable) (hrecord : l.record e = .ok l') : l'.Reachable := by
  have hcall : l.performAll [.record e] = l' := tryRecord_of_ok hrecord
  exact hcall ▸ h.performAll _

/-- The amounts of the adjustments of a charge, oldest first. -/
def adjustments (l : Ledger) (id : BillingEventId) : List Money :=
  (l.modificationsOf id).map (·.cost)

theorem foldlM_addCost_eq (ms : List Modification) (cost : Money) :
    ms.foldlM addCost cost = (cost.addAll (ms.map (·.cost))).mapError .money := by
  induction ms generalizing cost with
  | nil => rfl
  | cons m ms ih =>
    rw [List.foldlM_cons, addCost, List.map_cons]
    cases hadd : cost.add m.cost with
    | error err => exact (congrArg (Except.mapError _) (Money.addAll_cons_of_error hadd _)).symm
    | ok sum =>
      exact (ih sum).trans (congrArg (Except.mapError _) (Money.addAll_cons_of_ok hadd _)).symm

theorem Consistent.charge_eq (h : l.Consistent) (hc : .oneTime c ∈ l.journal) :
    l.charge c.id = .ok c := by
  have hget : l.get? c.id = some (.oneTime c) := h.get?_eq_some hc
  rw [charge, hget]

theorem Consistent.effectiveCost_of_cancelled (h : l.Consistent) (hc : .oneTime c ∈ l.journal)
    (hcancelled : l.Cancelled c) : l.effectiveCost c.id = .ok (.zero c.cost.currency) := by
  rw [effectiveCost, h.charge_eq hc, (h.isCancelled_iff hc).2 hcancelled]
  rfl

theorem Consistent.effectiveCost_of_not_cancelled (h : l.Consistent) (hc : .oneTime c ∈ l.journal)
    (hcancelled : ¬l.Cancelled c) :
    l.effectiveCost c.id = (c.cost.addAll (l.adjustments c.id)).mapError .money := by
  rw [effectiveCost, h.charge_eq hc]
  show (if l.isCancelled c.id = true then _ else _) = _
  rw [if_neg (mt (h.isCancelled_iff hc).1 hcancelled), foldlM_addCost_eq]
  rfl

/-- A charge has a cost, or its amounts do not add up. -/
theorem Consistent.effectiveCost_cases (h : l.Consistent) (hc : .oneTime c ∈ l.journal) :
    (∃ cost, l.effectiveCost c.id = .ok cost) ∨
    ∃ err, l.effectiveCost c.id = .error (.money err) := by
  by_cases hcancelled : l.Cancelled c
  · exact .inl ⟨_, h.effectiveCost_of_cancelled hc hcancelled⟩
  · rw [h.effectiveCost_of_not_cancelled hc hcancelled]
    cases c.cost.addAll (l.adjustments c.id) with
    | ok sum => exact .inl ⟨sum, rfl⟩
    | error err => exact .inr ⟨err, rfl⟩

theorem effectiveCost_of_not_charge (hid : ∀ c, l.get? id ≠ some (.oneTime c)) :
    l.effectiveCost id = .error (if (l.get? id).isSome then
      .wrongEventKind id .oneTime else .eventNotFound id) := by
  rw [effectiveCost, charge]
  cases hget : l.get? id with
  | none => rfl
  | some e =>
    cases e with
    | oneTime c => exact absurd hget (hid c)
    | recurring | cancellation | modification => rfl

/-- Amounts that were rounded when they were made, and that fit together, are summed up exactly. -/
theorem addAll_of_sumsFit {ms : List Modification} {cost : Money} (hcost : cost.IsRounded)
    (hms : ∀ m ∈ ms, m.cost.IsRounded) (hfits : SumsFit cost ms) :
    ¬cost.Overflows (ms.map (·.cost)) ∧
      ∀ total, cost.addAll (ms.map (·.cost)) = .ok total →
        total.currency = cost.currency ∧ total.IsRounded ∧
        total.minorUnits = unitsWith cost.minorUnits ms := by
  rw [Money.overflows_iff]
  by_cases hall : ∀ m ∈ ms, m.cost.currency = cost.currency
  · obtain ⟨total, htotal, hexact⟩ := foldlM_addCost hcost hms hfits hall
    rw [foldlM_addCost_eq, mapError_eq_ok] at htotal
    rw [htotal]
    refine ⟨nofun, ?_⟩
    rintro _ ⟨⟩
    exact hexact
  · simp only [not_forall, exists_prop] at hall
    obtain ⟨other, herr⟩ := foldlM_addCost_mismatch hcost hms hfits hall
    rw [foldlM_addCost_eq, mapError_eq_error] at herr
    obtain ⟨_, herr, ⟨⟩⟩ := herr
    rw [herr]
    exact ⟨nofun, nofun⟩

/-- Charges are listed with their costs if each of them has one. -/
theorem mapM_cost_eq_ok {cost : OneTime → Except BillingError Money} {cs : List OneTime}
    {listed : List (OneTime × Money)} :
    cs.mapM (fun c => (cost c).map fun amount => (c, amount)) = .ok listed ↔
      listed.map Prod.fst = cs ∧ ∀ p ∈ listed, cost p.1 = .ok p.2 := by
  induction cs generalizing listed with
  | nil =>
    rw [List.mapM_nil]
    constructor
    · rintro ⟨⟩
      exact ⟨rfl, List.forall_mem_nil _⟩
    · rintro ⟨hmap, -⟩
      rw [List.map_eq_nil_iff.1 hmap]
      rfl
  | cons c cs ih =>
    rw [List.mapM_cons, bind_eq_ok]
    simp only [bind_eq_ok, ih]
    constructor
    · rintro ⟨p, hp, rest, ⟨rfl, hrest⟩, ⟨⟩⟩
      cases hcost : cost c with
      | error err => simp [hcost, Except.map] at hp
      | ok amount =>
        rw [hcost] at hp
        cases hp
        exact ⟨rfl, List.forall_mem_cons.2 ⟨hcost, hrest⟩⟩
    · rintro ⟨hmap, hlisted⟩
      cases listed with
      | nil => cases hmap
      | cons p rest =>
        obtain ⟨rfl, rfl⟩ := List.cons.inj hmap
        obtain ⟨hcost, hrest⟩ := List.forall_mem_cons.1 hlisted
        exact ⟨p, by rw [hcost]; rfl, rest, ⟨rfl, hrest⟩, rfl⟩

/-- The charges on a target that have not been cancelled, oldest first. -/
def openCharges (l : Ledger) (target : String) : List OneTime :=
  l.charges.filter fun c => c.common.targetId = target && !l.isCancelled c.id

theorem Consistent.mem_openCharges (h : l.Consistent) {target : String} :
    c ∈ l.openCharges target ↔ .oneTime c ∈ l.journal ∧ c.common.targetId = target ∧
      ¬l.Cancelled c := by
  rw [openCharges, List.mem_filter, mem_charges]
  refine and_congr_right fun hc => ?_
  rw [Bool.and_eq_true, decide_eq_true_eq, Bool.not_eq_true', ← h.isCancelled_iff hc,
    Bool.not_eq_true]

theorem openCharges_sublist (l : Ledger) (target : String) :
    ((l.openCharges target).map Event.oneTime).Sublist l.journal := by
  have hcharges : (l.charges.map Event.oneTime).Sublist l.journal := by
    rw [charges]
    induction l.journal with
    | nil => exact .slnil
    | cons e es ih =>
      cases e with
      | oneTime c => exact ih.cons_cons _
      | recurring | cancellation | modification => exact ih.cons _
  exact (List.filter_sublist.map _).trans hcharges

theorem Consistent.nodup_openCharges (h : l.Consistent) (target : String) :
    ((l.openCharges target).map OneTime.id).Nodup := by
  have hids := ((l.openCharges_sublist target).map Event.id).nodup h.ids
  rwa [List.map_map] at hids

theorem chargesFor_eq_ok {target : String} {listed : List (OneTime × Money)} :
    l.chargesFor target = .ok listed ↔ listed.map Prod.fst = l.openCharges target ∧
      ∀ p ∈ listed, l.effectiveCost p.1.id = .ok p.2 :=
  @mapM_cost_eq_ok (fun c => l.effectiveCost c.id) _ _

theorem exists_chargesFor_iff {target : String} : (∃ listed, l.chargesFor target = .ok listed) ↔
    ∀ c ∈ l.openCharges target, ∃ cost, l.effectiveCost c.id = .ok cost := by
  simp only [chargesFor_eq_ok]
  constructor
  · rintro ⟨listed, hmap, hlisted⟩ c hc
    rw [← hmap] at hc
    obtain ⟨p, hp, rfl⟩ := List.mem_map.1 hc
    exact ⟨p.2, hlisted p hp⟩
  · intro h
    have : Nonempty Money := ⟨.zero .usd⟩
    choose! cost hcost using h
    refine ⟨(l.openCharges target).map fun c => (c, cost c), ?_, ?_⟩
    · rw [List.map_map]
      exact List.map_id _
    · rintro _ hp
      obtain ⟨c, hc, rfl⟩ := List.mem_map.1 hp
      exact hcost c hc

/-- A charge that a cancellation is for costs nothing. Any other has a cost if no adjustment is in
another currency and no sum overflows; of these two the one that comes first is why it has none.
Amounts that were rounded when they were made, and fit together, do not overflow and are summed up
exactly. -/
theorem Consistent.effectiveCost_iff (h : l.Consistent) (hc : .oneTime c ∈ l.journal) :
    (l.Cancelled c → l.effectiveCost c.id = .ok (.zero c.cost.currency)) ∧
    (¬l.Cancelled c →
      ((∃ a b, l.effectiveCost c.id = .error (.money (.currencyMismatch a b))) ↔
        (∃ amount ∈ l.adjustments c.id, amount.currency ≠ c.cost.currency) ∧
          ¬c.cost.Overflows (l.adjustments c.id)) ∧
      (l.effectiveCost c.id = .error (.money .overflow) ↔ c.cost.Overflows (l.adjustments c.id)) ∧
      ((∃ total, l.effectiveCost c.id = .ok total) ↔
        (∀ amount ∈ l.adjustments c.id, amount.currency = c.cost.currency) ∧
          ¬c.cost.Overflows (l.adjustments c.id))) := by
  refine ⟨h.effectiveCost_of_cancelled hc, fun hcancelled => ?_⟩
  rw [h.effectiveCost_of_not_cancelled hc hcancelled]
  rcases c.cost.addAll_cases (l.adjustments c.id) with
    ⟨hover, herr⟩ | ⟨hnot, ⟨amount, hmem, hother, herr⟩ | ⟨hall, sum, hsum⟩⟩
  · simp [herr, hover, Except.mapError]
  · rw [herr]
    refine ⟨iff_of_true ⟨_, _, rfl⟩ ⟨⟨amount, hmem, hother⟩, hnot⟩, iff_of_false nofun hnot,
      iff_of_false nofun ?_⟩
    exact fun hall => hother (hall.1 amount hmem)
  · rw [hsum]
    refine ⟨iff_of_false nofun ?_, iff_of_false nofun hnot, iff_of_true ⟨sum, rfl⟩ ⟨hall, hnot⟩⟩
    rintro ⟨⟨amount, hmem, hother⟩, -⟩
    exact hother (hall amount hmem)

theorem Consistent.effectiveCost_eq_not_found (h : l.Consistent) :
    l.effectiveCost id = .error (.eventNotFound id) ↔ ∀ e ∈ l.journal, e.id ≠ id := by
  rw [← get?_eq_none]
  constructor
  · intro herr
    by_contra hget
    obtain ⟨e, hget⟩ := Option.ne_none_iff_exists'.1 hget
    obtain ⟨he, rfl⟩ := h.get?_eq_some_iff.1 hget
    cases e with
    | oneTime c =>
      rcases h.effectiveCost_cases he with ⟨_, heq⟩ | ⟨_, heq⟩ <;> cases heq.symm.trans herr
    | recurring | cancellation | modification =>
      rw [effectiveCost_of_not_charge (by simp [hget]), hget] at herr
      cases herr
  · intro hget
    rw [effectiveCost_of_not_charge (by simp [hget]), hget]
    rfl

theorem Consistent.effectiveCost_eq_wrong_kind (h : l.Consistent) :
    l.effectiveCost id = .error (.wrongEventKind id .oneTime) ↔
    ∃ e ∈ l.journal, e.id = id ∧ e.kind ≠ .oneTime := by
  constructor
  · intro herr
    cases hget : l.get? id with
    | none =>
      rw [effectiveCost_of_not_charge (by simp [hget]), hget] at herr
      cases herr
    | some e =>
      obtain ⟨he, rfl⟩ := h.get?_eq_some_iff.1 hget
      refine ⟨e, he, rfl, fun hkind => ?_⟩
      cases e with
      | oneTime c =>
        rcases h.effectiveCost_cases he with ⟨_, heq⟩ | ⟨_, heq⟩ <;> cases heq.symm.trans herr
      | recurring | cancellation | modification => cases hkind
  · rintro ⟨e, he, rfl, hkind⟩
    have hget := h.get?_eq_some he
    have hcharge : ∀ c, l.get? e.id ≠ some (.oneTime c) := by
      rw [hget]
      rintro c ⟨⟩
      exact hkind rfl
    rw [effectiveCost_of_not_charge hcharge, hget]
    rfl

/-- What a charge costs, and which charges are listed with what they cost, in every reachable
ledger.

There is no cost for an identifier that is not recorded, or not as a charge. A charge that a
cancellation is for costs nothing, whatever its adjustments. Of any other the cost is refused if an
adjustment is in another currency, unless a sum overflows before that; otherwise it is a total, and
the exact one if the amounts were rounded when they were made and the sums fit. The charges on a
target are listed if all that have not been cancelled have a cost: each of them once, in the order
of recording, with that cost. -/
theorem costs_of_reachable (h : l.Reachable) :
    (∀ id, (l.effectiveCost id = .error (.eventNotFound id) ↔ ∀ e ∈ l.journal, e.id ≠ id) ∧
      (l.effectiveCost id = .error (.wrongEventKind id .oneTime) ↔
        ∃ e ∈ l.journal, e.id = id ∧ e.kind ≠ .oneTime)) ∧
    (∀ c, .oneTime c ∈ l.journal →
      (l.Cancelled c → l.effectiveCost c.id = .ok (.zero c.cost.currency)) ∧
      (¬l.Cancelled c →
        ((∃ a b, l.effectiveCost c.id = .error (.money (.currencyMismatch a b))) ↔
          (∃ amount ∈ l.adjustments c.id, amount.currency ≠ c.cost.currency) ∧
            ¬c.cost.Overflows (l.adjustments c.id)) ∧
        (l.effectiveCost c.id = .error (.money .overflow) ↔ c.cost.Overflows (l.adjustments c.id)) ∧
        ((∃ total, l.effectiveCost c.id = .ok total) ↔
          (∀ amount ∈ l.adjustments c.id, amount.currency = c.cost.currency) ∧
            ¬c.cost.Overflows (l.adjustments c.id)) ∧
        (c.cost.IsRounded → (∀ m ∈ l.modificationsOf c.id, m.cost.IsRounded) →
          SumsFit c.cost (l.modificationsOf c.id) → ¬c.cost.Overflows (l.adjustments c.id) ∧
            ∀ total, l.effectiveCost c.id = .ok total →
              total.currency = c.cost.currency ∧ total.IsRounded ∧
              total.minorUnits = unitsWith c.cost.minorUnits (l.modificationsOf c.id)))) ∧
    ∀ target,
      ((∃ listed, l.chargesFor target = .ok listed) ↔
        ∀ c, .oneTime c ∈ l.journal → c.common.targetId = target → ¬l.Cancelled c →
          ∃ cost, l.effectiveCost c.id = .ok cost) ∧
      ∀ listed, l.chargesFor target = .ok listed →
        ((listed.map Prod.fst).map Event.oneTime).Sublist l.journal ∧
        ((listed.map Prod.fst).map OneTime.id).Nodup ∧
        (∀ c, c ∈ listed.map Prod.fst ↔ .oneTime c ∈ l.journal ∧ c.common.targetId = target ∧
          ¬l.Cancelled c) ∧
        ∀ p ∈ listed, l.effectiveCost p.1.id = .ok p.2 := by
  have h := h.coherent.toConsistent
  refine ⟨fun id => ⟨h.effectiveCost_eq_not_found, h.effectiveCost_eq_wrong_kind⟩,
    fun c hc => ?charge,
    fun target => ⟨?answered, fun listed hlisted => ?listed⟩⟩
  case charge =>
    obtain ⟨hcancelled, hopen⟩ := h.effectiveCost_iff hc
    refine ⟨hcancelled, fun hnot => ?_⟩
    obtain ⟨hmismatch, hoverflow, htotal⟩ := hopen hnot
    refine ⟨hmismatch, hoverflow, htotal, fun hcost hms hfits => ?_⟩
    obtain ⟨hover, hsum⟩ := addAll_of_sumsFit hcost hms hfits
    refine ⟨hover, fun total heq => hsum total ?_⟩
    rwa [h.effectiveCost_of_not_cancelled hc hnot, mapError_eq_ok] at heq
  case answered =>
    rw [exists_chargesFor_iff]
    simp only [h.mem_openCharges, and_imp]
  case listed =>
    obtain ⟨hmap, hcosts⟩ := chargesFor_eq_ok.1 hlisted
    rw [hmap]
    exact ⟨l.openCharges_sublist target, h.nodup_openCharges target,
      fun c => h.mem_openCharges, hcosts⟩

end Ledger

namespace Sample

/-- The greatest decimal. -/
def greatest : Decimal := { Decimal.zero with mantissa := 2 ^ 96 - 1, mantissa_lt := by decide }

def extreme : OneTime := ⟨common 1 .restore, .empty, ⟨greatest, .jpy⟩, none, time, none, none⟩

def surcharge (n : Nat) (currency : Currency) : Event :=
  .modification ⟨common n .error, .ofMinor 1 currency, "surcharge", extreme.id⟩

/-- The surcharge in another currency is recorded after one that makes the sum overflow. -/
def overflowing : Ledger :=
  (Ledger.empty.recordAll [.oneTime extreme, surcharge 2 .jpy, surcharge 3 .usd]).2

end Sample

/-- An adjustment in another currency is not what is refused if a sum overflows before it. -/
theorem Ledger.mismatch_behind_overflow : Sample.overflowing.Reachable ∧
    .oneTime Sample.extreme ∈ Sample.overflowing.journal ∧
    ¬Sample.overflowing.Cancelled Sample.extreme ∧
    ¬((∃ a b, Sample.overflowing.effectiveCost Sample.extreme.id =
      .error (.money (.currencyMismatch a b))) ↔
        ∃ amount ∈ Sample.overflowing.adjustments Sample.extreme.id,
          amount.currency ≠ Sample.extreme.cost.currency) := by
  have h : Sample.overflowing.Reachable := ⟨[.recordAll _], rfl⟩
  have hc : .oneTime Sample.extreme ∈ Sample.overflowing.journal := by decide
  have hopen : Sample.overflowing.isCancelled Sample.extreme.id = false := by decide
  have hcost : Sample.overflowing.effectiveCost Sample.extreme.id = .error (.money .overflow) := by
    decide +kernel
  refine ⟨h, hc, ?_, fun hiff => ?_⟩
  · rw [← h.coherent.isCancelled_iff hc, hopen]
    exact Bool.false_ne_true
  · obtain ⟨a, b, hmismatch⟩ := hiff.2 (by decide)
    cases hcost.symm.trans hmismatch

/-- A charge of 11.00 with adjustments by -2.50 and 1.00 costs 9.50, and one that has been cancelled
costs nothing. -/
theorem Ledger.costs_of_reachable_sample :
    ∃ (l : Ledger) (c c' : OneTime) (total : Money),
    l.Reachable ∧ .oneTime c ∈ l.journal ∧ ¬l.Cancelled c ∧ l.effectiveCost c.id = .ok total ∧
    total.minorUnits = 950 ∧ .oneTime c' ∈ l.journal ∧ l.Cancelled c' ∧
    l.effectiveCost c'.id = .ok (.zero .usd) := by
  have h : (Ledger.empty.recordAll Sample.events).2.Reachable := ⟨[.recordAll _], rfl⟩
  obtain ⟨c, hcharge⟩ : ∃ c, Sample.charge = .oneTime c := ⟨_, rfl⟩
  obtain ⟨c', hcharge'⟩ : ∃ c', Sample.madeUp = .oneTime c' := ⟨_, rfl⟩
  have hc : Sample.charge ∈ (Ledger.empty.recordAll Sample.events).2.journal := by decide
  have hc' : Sample.madeUp ∈ (Ledger.empty.recordAll Sample.events).2.journal := by decide
  have hopen : (Ledger.empty.recordAll Sample.events).2.isCancelled Sample.charge.id = false := by
    decide
  have hcancelled : (Ledger.empty.recordAll Sample.events).2.isCancelled Sample.madeUp.id =
      true := by decide
  cases hcharge
  cases hcharge'
  have hnot := mt (h.coherent.isCancelled_iff hc).2 (Bool.eq_false_iff.1 hopen)
  have hmadeUp := (h.coherent.isCancelled_iff hc').1 hcancelled
  obtain ⟨-, hcharges, -⟩ := Ledger.costs_of_reachable h
  obtain ⟨-, -, htotal, hexact⟩ := (hcharges _ hc).2 hnot
  obtain ⟨hover, hsum⟩ := hexact (by decide) (by decide) (by decide)
  obtain ⟨total, hcost⟩ := htotal.2 ⟨by decide, hover⟩
  refine ⟨_, _, _, total, h, hc, hnot, hcost, ?_, hc', hmadeUp, (hcharges _ hc').1 hmadeUp⟩
  exact (hsum total hcost).2.2.trans (by decide)

end Billing
end NameRegistry
