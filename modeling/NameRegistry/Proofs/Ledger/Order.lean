import Mathlib.Data.List.Induction
import Mathlib.Data.List.Infix
import Mathlib.Data.List.Nodup
import NameRegistry.Proofs.Ledger.Calls
import NameRegistry.Proofs.Money

/-! # The order of recording

An empty ledger takes a list of events in any order in which each cancellation and each modification
comes after what it refers to: the other rules do not look at the order. Nor do the answers. A
cancellation takes back what it matches wherever it stands, and adjustments are sums, which are
exact as long as they fit.
-/
namespace NameRegistry.Billing.Ledger

variable {l l' : Ledger} {e : Event} {es es' : List Event} {id : BillingEventId}

theorem Coherent.accepts (h : l.Coherent) (hes : l.Accepts es l') : l'.Coherent := by
  obtain ⟨ids, hes⟩ := hes
  have hcall : l.performAll [.recordAll es] = l' := congrArg Prod.snd hes
  rw [← hcall]
  exact h.performAll _

/-- A ledger that has recorded a list takes one more event if that has a new identifier, refers back
and charges nothing again. -/
theorem Coherent.accepts_concat (h : l.Coherent) (hnew : e.id ∉ l.journal.map Event.id)
    (href : ∀ ref ∈ e.reference?, ∃ e' ∈ l.journal, e'.id = ref.1 ∧ e'.kind = ref.2)
    (honce : ∀ key ∈ e.occurrence?, key ∉ l.charged) : l.Accepts [e] (l.append e) := by
  apply accepts_cons.2
  refine ⟨l.append e, record_eq_ok.2 ⟨?_, ?_, checkOccurrence_eq_ok.2 honce, rfl⟩,
    accepts_nil.2 rfl⟩
  · rw [get?_eq_none]
    intro e' he' hid
    exact hnew (hid ▸ List.mem_map_of_mem he')
  · rw [checkReference_eq_ok]
    intro ref hr
    obtain ⟨e', he', hid, hkind⟩ := href ref hr
    exact ⟨e', h.get?_eq_some_iff.2 ⟨he', hid⟩, hkind⟩

/-- An empty ledger takes a list of events exactly if no identifier is repeated, everything that is
referred to comes before, as the right kind, and no occurrence is charged twice. -/
theorem exists_accepts_iff : (∃ l, empty.Accepts es l) ↔
    (es.map Event.id).Nodup ∧ RefersBack es ∧ (es.filterMap Event.occurrence?).Nodup := by
  constructor
  · rintro ⟨l, hes⟩
    have h := coherent_empty.accepts hes
    have hjournal : l.journal = es := (eq_of_accepts hes).1
    rw [← hjournal, ← h.charged_eq]
    exact ⟨h.ids, h.references, h.once⟩
  · induction es using List.reverseRecOn with
    | nil => exact fun _ => ⟨empty, accepts_nil.2 rfl⟩
    | append_singleton es e ih =>
      rintro ⟨hids, hrefs, honce⟩
      rw [List.map_append, List.nodup_append] at hids
      rw [refersBack_concat] at hrefs
      rw [List.filterMap_append, List.nodup_append] at honce
      obtain ⟨l, hes⟩ := ih ⟨hids.1, hrefs.1, honce.1⟩
      have h := coherent_empty.accepts hes
      have hjournal : l.journal = es := (eq_of_accepts hes).1
      subst hjournal
      refine ⟨_, hes.append (h.accepts_concat ?_ hrefs.2 ?_)⟩
      · exact fun hid => hids.2.2 _ hid _ (List.mem_singleton_self _) rfl
      · intro key hkey hcharged
        rw [h.charged_eq] at hcharged
        exact honce.2.2 _ hcharged _ (List.mem_filterMap.2 ⟨e, List.mem_singleton_self e, hkey⟩) rfl

/-- Every cancellation and every modification comes after the event it refers to. -/
def ReferencesFirst (es : List Event) : Prop :=
  ∀ front e back, es = front ++ e :: back → ∀ ref ∈ e.reference?, ref.1 ∈ front.map Event.id

theorem RefersBack.referencesFirst (h : RefersBack es) : ReferencesFirst es := by
  intro front e back hsplit ref href
  obtain ⟨e', he', hid, -⟩ := h front e back hsplit ref href
  exact hid ▸ List.mem_map_of_mem he'

/-- In another order what comes before is still what is referred to, and so of the right kind. -/
theorem RefersBack.of_perm (h : RefersBack es) (hids : (es.map Event.id).Nodup)
    (hperm : es'.Perm es) (hfirst : ReferencesFirst es') : RefersBack es' := by
  rintro front e back rfl ref href
  obtain ⟨e', he', hid⟩ := List.mem_map.1 (hfirst front e back rfl ref href)
  refine ⟨e', he', hid, ?_⟩
  have he : e ∈ es := hperm.mem_iff.1 (List.mem_append_right _ List.mem_cons_self)
  obtain ⟨front₀, back₀, hsplit⟩ := List.append_of_mem he
  obtain ⟨e₀, he₀, hid₀, hkind⟩ := h front₀ e back₀ hsplit ref href
  have hmem : e' ∈ es := hperm.mem_iff.1 (List.mem_append_left _ he')
  have hmem₀ : e₀ ∈ es := hsplit ▸ List.mem_append_left _ he₀
  rwa [List.inj_on_of_nodup_map hids hmem hmem₀ (hid.trans hid₀.symm)]

theorem exists_accepts_perm (h : empty.Accepts es l) (hperm : es'.Perm es) :
    (∃ l', empty.Accepts es' l') ↔ ReferencesFirst es' := by
  obtain ⟨hids, hrefs, honce⟩ := exists_accepts_iff.1 ⟨l, h⟩
  rw [exists_accepts_iff, (hperm.map _).nodup_iff, (hperm.filterMap _).nodup_iff]
  constructor
  · exact fun h => h.2.1.referencesFirst
  · exact fun hfirst => ⟨hids, hrefs.of_perm hids hperm hfirst, honce⟩

section Answers

variable (h : l.Consistent) (h' : l'.Consistent) (hperm : l'.journal.Perm l.journal)

include h h' hperm

theorem get?_of_perm : l'.get? id = l.get? id := by
  apply Option.ext
  intro e
  rw [h.get?_eq_some_iff, h'.get?_eq_some_iff, hperm.mem_iff]

theorem isCancelled_of_perm : l'.isCancelled id = l.isCancelled id := by
  rw [isCancelled, isCancelled, charge?, charge?, get?_of_perm h h' hperm]
  cases (l.get? id).bind Event.oneTime? with
  | none => rfl
  | some c => exact (hperm.filterMap _).any_eq

theorem charge_of_perm : l'.charge id = l.charge id := by
  rw [charge, charge, get?_of_perm h h' hperm]

end Answers

/-- What an amount comes to with adjustments, in the smallest unit of the currency. -/
def unitsWith (units : Int) (ms : List Modification) : Int :=
  ms.foldl (fun units m => units + m.cost.minorUnits) units

theorem unitsWith_perm {ms ms' : List Modification} (hperm : ms'.Perm ms) (units : Int) :
    unitsWith units ms' = unitsWith units ms :=
  hperm.foldl_eq' (fun _ _ _ _ units => Int.add_right_comm units _ _) units

/-- An amount fits the 96 bits of a decimal after every adjustment, up to the first in another
currency. -/
def SumsFit (cost : Money) (ms : List Modification) : Prop :=
  ∀ front, front <+: ms → front ≠ [] → (∀ m ∈ front, m.cost.currency = cost.currency) →
    (unitsWith cost.minorUnits front).natAbs < 2 ^ 96

instance (cost : Money) (ms : List Modification) : Decidable (SumsFit cost ms) :=
  decidable_of_iff (∀ front ∈ ms.inits, front ≠ [] →
    (∀ m ∈ front, m.cost.currency = cost.currency) →
      (unitsWith cost.minorUnits front).natAbs < 2 ^ 96)
    (forall_congr' fun _ => imp_congr (List.mem_inits _ _) Iff.rfl)

theorem SumsFit.head {cost : Money} {m : Modification} {ms : List Modification}
    (h : SumsFit cost (m :: ms)) (hcurrency : m.cost.currency = cost.currency) :
    (cost.minorUnits + m.cost.minorUnits).natAbs < 2 ^ 96 :=
  h [m] ((List.prefix_cons_inj m).2 List.nil_prefix) (List.cons_ne_nil _ _)
    (List.forall_mem_singleton.2 hcurrency)

theorem SumsFit.tail {cost sum : Money} {m : Modification} {ms : List Modification}
    (h : SumsFit cost (m :: ms)) (hcurrency : m.cost.currency = cost.currency)
    (hsum : sum.currency = cost.currency)
    (hunits : sum.minorUnits = cost.minorUnits + m.cost.minorUnits) : SumsFit sum ms := by
  intro front hfront _ hall
  rw [hsum] at hall
  rw [hunits]
  exact h (m :: front) ((List.prefix_cons_inj m).2 hfront) (List.cons_ne_nil _ _)
    (List.forall_mem_cons.2 ⟨hcurrency, hall⟩)

/-- Adjustments in the currency of the charge are summed up. -/
theorem foldlM_addCost {ms : List Modification} {cost : Money} (hcost : cost.IsRounded)
    (hms : ∀ m ∈ ms, m.cost.IsRounded) (hfits : SumsFit cost ms)
    (hall : ∀ m ∈ ms, m.cost.currency = cost.currency) :
    ∃ total, ms.foldlM addCost cost = .ok total ∧
      total.currency = cost.currency ∧ total.IsRounded ∧
      total.minorUnits = unitsWith cost.minorUnits ms := by
  induction ms generalizing cost with
  | nil => exact ⟨cost, rfl, rfl, hcost, rfl⟩
  | cons m ms ih =>
    obtain ⟨hm, hms⟩ := List.forall_mem_cons.1 hms
    obtain ⟨hcurrency, hall⟩ := List.forall_mem_cons.1 hall
    obtain ⟨sum, hsum, hsame, hrounded, hunits⟩ :=
      Money.exists_add hcost hm hcurrency (hfits.head hcurrency)
    rw [← hsame] at hall
    obtain ⟨total, htotal, htotal_same, htotal_rounded, htotal_units⟩ :=
      ih hrounded hms (hfits.tail hcurrency hsame hunits) hall
    refine ⟨total, ?_, htotal_same.trans hsame, htotal_rounded, ?_⟩
    · rw [List.foldlM_cons, addCost, hsum]
      exact htotal
    · rw [htotal_units, hunits]
      rfl

/-- The first adjustment in another currency is refused. -/
theorem foldlM_addCost_mismatch {ms : List Modification} {cost : Money} (hcost : cost.IsRounded)
    (hms : ∀ m ∈ ms, m.cost.IsRounded) (hfits : SumsFit cost ms)
    (hother : ∃ m ∈ ms, m.cost.currency ≠ cost.currency) :
    ∃ c, ms.foldlM addCost cost = .error (.money (.currencyMismatch cost.currency c)) := by
  induction ms generalizing cost with
  | nil =>
    obtain ⟨_, hm, -⟩ := hother
    cases hm
  | cons m ms ih =>
    obtain ⟨hm, hms⟩ := List.forall_mem_cons.1 hms
    by_cases hcurrency : m.cost.currency = cost.currency
    · obtain ⟨sum, hsum, hsame, hrounded, hunits⟩ :=
        Money.exists_add hcost hm hcurrency (hfits.head hcurrency)
      have hother : ∃ m ∈ ms, m.cost.currency ≠ sum.currency := by
        obtain ⟨m', hm', hne⟩ := hother
        rw [hsame]
        rcases List.mem_cons.1 hm' with rfl | hm'
        · exact absurd hcurrency hne
        · exact ⟨m', hm', hne⟩
      obtain ⟨c, hc⟩ := ih hrounded hms (hfits.tail hcurrency hsame hunits) hother
      refine ⟨c, ?_⟩
      rw [List.foldlM_cons, addCost, hsum, ← hsame]
      exact hc
    · refine ⟨m.cost.currency, ?_⟩
      rw [List.foldlM_cons, addCost, Money.add_of_currency_ne (Ne.symm hcurrency)]
      rfl

/-- The same amount as a number, or the same failure. If there are several other currencies, which
of them is refused does not matter. -/
inductive SameCost : Except BillingError Money → Except BillingError Money → Prop
  | ok {a b : Money} : a.Same b → SameCost (.ok a) (.ok b)
  | error {err : BillingError} : SameCost (.error err) (.error err)
  | mismatch {currency other other' : Currency} :
      SameCost (.error (.money (.currencyMismatch currency other)))
        (.error (.money (.currencyMismatch currency other')))

theorem sameCost_foldlM {ms ms' : List Modification} {cost : Money} (hperm : ms'.Perm ms)
    (hcost : cost.IsRounded) (hms : ∀ m ∈ ms, m.cost.IsRounded) (hfits : SumsFit cost ms)
    (hfits' : SumsFit cost ms') : SameCost (ms'.foldlM addCost cost) (ms.foldlM addCost cost) := by
  have hms' : ∀ m ∈ ms', m.cost.IsRounded := fun m hm => hms m (hperm.mem_iff.1 hm)
  by_cases hall : ∀ m ∈ ms, m.cost.currency = cost.currency
  · have hall' : ∀ m ∈ ms', m.cost.currency = cost.currency :=
      fun m hm => hall m (hperm.mem_iff.1 hm)
    obtain ⟨total, htotal, hsame, hrounded, hunits⟩ := foldlM_addCost hcost hms hfits hall
    obtain ⟨total', htotal', hsame', hrounded', hunits'⟩ := foldlM_addCost hcost hms' hfits' hall'
    rw [htotal, htotal']
    apply SameCost.ok
    rw [Money.same_iff hrounded' hrounded (hsame'.trans hsame.symm), hunits, hunits',
      unitsWith_perm hperm]
  · simp only [not_forall, exists_prop] at hall
    obtain ⟨m, hm, hne⟩ := hall
    obtain ⟨c, hc⟩ := foldlM_addCost_mismatch hcost hms hfits ⟨m, hm, hne⟩
    obtain ⟨c', hc'⟩ := foldlM_addCost_mismatch hcost hms' hfits' ⟨m, hperm.mem_iff.2 hm, hne⟩
    rw [hc, hc']
    exact .mismatch

/-- The amounts of a charge and its adjustments were rounded when they were made, and add up without
an overflow. -/
def AddsUp (l : Ledger) (id : BillingEventId) : Prop := ∀ c ∈ (l.charge id).toOption,
  c.cost.IsRounded ∧ (∀ m ∈ l.modificationsOf id, m.cost.IsRounded) ∧
    SumsFit c.cost (l.modificationsOf id)

instance (l : Ledger) (id : BillingEventId) : Decidable (l.AddsUp id) :=
  inferInstanceAs (Decidable (∀ _ ∈ _, _))

theorem effectiveCost_of_perm (h : l.Consistent) (h' : l'.Consistent)
    (hperm : l'.journal.Perm l.journal) (hadds : l.AddsUp id) (hadds' : l'.AddsUp id) :
    SameCost (l'.effectiveCost id) (l.effectiveCost id) := by
  have hcharge : l'.charge id = l.charge id := charge_of_perm h h' hperm
  rw [effectiveCost, effectiveCost, hcharge, isCancelled_of_perm h h' hperm]
  cases hc : l.charge id with
  | error err => exact .error
  | ok c =>
    show SameCost (if l.isCancelled id then _ else _) (if l.isCancelled id then _ else _)
    obtain ⟨hcost, hms, hfits⟩ := hadds c (by rw [hc]; rfl)
    obtain ⟨-, -, hfits'⟩ := hadds' c (by rw [hcharge, hc]; rfl)
    split
    · exact .ok ⟨rfl, rfl⟩
    · exact sameCost_foldlM ((hperm.filterMap _).filter _) hcost hms hfits hfits'

/-- A list of events that an empty ledger takes is taken in another order exactly if every
cancellation and every modification still comes after what it refers to. Then the ledger answers the
same: whether a charge has been cancelled, whether an occurrence has, and what a charge costs, as
long as its amounts were rounded when they were made and add up without an overflow in both
orders. -/
theorem answers_of_perm (h : empty.Accepts es l) (hperm : es'.Perm es) :
    ((∃ l', empty.Accepts es' l') ↔ ReferencesFirst es') ∧
    ∀ l', empty.Accepts es' l' →
      (∀ id, l'.isCancelled id = l.isCancelled id) ∧
      (∀ id time, l'.recurrenceCancelledAt id time = l.recurrenceCancelledAt id time) ∧
      ∀ id, l.AddsUp id → l'.AddsUp id → SameCost (l'.effectiveCost id) (l.effectiveCost id) := by
  refine ⟨exists_accepts_perm h hperm, fun l' h' => ?_⟩
  have hl := (coherent_empty.accepts h).toConsistent
  have hl' := (coherent_empty.accepts h').toConsistent
  have hjournal : l'.journal.Perm l.journal := by
    rw [(eq_of_accepts h).1, (eq_of_accepts h').1]
    exact hperm
  refine ⟨?_, ?_, ?_⟩
  · exact fun id => isCancelled_of_perm hl hl' hjournal
  · exact fun id time => (hjournal.filterMap _).any_eq
  · exact fun id => effectiveCost_of_perm hl hl' hjournal

end NameRegistry.Billing.Ledger

namespace NameRegistry.Billing

namespace Sample

def time : Instant := ⟨12500 * 172800000000000, by decide, by decide, by decide⟩

def id (n : Nat) : BillingEventId := ⟨.ofNat n⟩

def common (n : Nat) (reason : Reason) : EventCommon :=
  ⟨id n, reason, "example.test", ⟨"registrar"⟩, time, ⟨⟨"1-TEST"⟩, ⟨.ofNat 9⟩⟩⟩

def recurring : Event := .recurring ⟨common 1 .renew, .ofList [.autoRenew], .endOfTime⟩

/-- A charge that was made up for the recurring event. -/
def madeUp : Event :=
  .oneTime ⟨common 2 .renew, .ofList [.autoRenew, .synthetic], .ofMinor 800 .usd, some 1, time,
    some ⟨time, id 1⟩, none⟩

/-- What takes that charge back, by the recurring event and the time it is billed. -/
def cancellation : Event := .cancellation ⟨common 3 .renew, time, .recurring (id 1)⟩

def charge : Event :=
  .oneTime ⟨common 4 .create, .empty, .ofMinor 1100 .usd, some 1, time, none, none⟩

def adjustment (n : Nat) (units : Int64) : Event :=
  .modification ⟨common n .create, .ofMinor units .usd, "adjustment", id 4⟩

def events : List Event :=
  [recurring, madeUp, cancellation, charge, adjustment 5 (-250), adjustment 6 100]

/-- The cancellation comes before the charge that it matches, and the adjustments the other way
round. -/
def reordered : List Event :=
  [recurring, cancellation, charge, adjustment 6 100, adjustment 5 (-250), madeUp]

end Sample

/-- Recorded before the charge that it matches, a cancellation takes it back all the same. -/
theorem Ledger.answers_of_perm_sample : ∃ l l', Ledger.empty.Accepts Sample.events l ∧
    Sample.reordered.Perm Sample.events ∧ Ledger.empty.Accepts Sample.reordered l' ∧
    l.isCancelled (Sample.id 2) = true ∧ l'.isCancelled (Sample.id 2) = true ∧
    l.AddsUp (Sample.id 4) ∧ l'.AddsUp (Sample.id 4) ∧
    Ledger.SameCost (l'.effectiveCost (Sample.id 4)) (l.effectiveCost (Sample.id 4)) := by
  have h : Ledger.empty.Accepts Sample.events (Ledger.empty.recordAll Sample.events).2 := ⟨_, rfl⟩
  have h' : Ledger.empty.Accepts Sample.reordered (Ledger.empty.recordAll Sample.reordered).2 :=
    ⟨_, rfl⟩
  have hperm : Sample.reordered.Perm Sample.events := by decide
  have hcancelled : (Ledger.empty.recordAll Sample.events).2.isCancelled (Sample.id 2) = true := by
    decide
  have hadds : (Ledger.empty.recordAll Sample.events).2.AddsUp (Sample.id 4) := by decide
  have hadds' : (Ledger.empty.recordAll Sample.reordered).2.AddsUp (Sample.id 4) := by decide
  obtain ⟨hsame, -, hcost⟩ := (Ledger.answers_of_perm h hperm).2 _ h'
  exact ⟨_, _, h, hperm, h', hcancelled, (hsame _).trans hcancelled, hadds, hadds',
    hcost _ hadds hadds'⟩

end NameRegistry.Billing
