import Mathlib.Data.List.Nodup
import NameRegistry.Proofs.Timeline
import NameRegistry.Registration.Configuration

/-! # The prices of a configuration

A price is looked up in the table of one top-level domain or in the tables of all of them. The one
search takes the first configuration for a top-level domain, the other the last. In a valid
configuration there is only one, its table is in order, and so both give one price, which is not
below zero and in the right currency.
-/
namespace NameRegistry

theorem Decimal.negative_roundTo {d : Decimal} (places : Nat) (h : d.negative = false) :
    (d.roundTo places).negative = false := by
  rw [roundTo]
  split
  · exact h
  · simp [h]

theorem Money.isNegative_round {amount : Decimal} (currency : Currency)
    (h : amount.negative = false) : (round amount currency).isNegative = false := by
  rw [isNegative, round, Decimal.negative_roundTo _ h, Bool.false_and]

namespace Registration

namespace TldConfig

/-- The price changes in whole units of the currency. -/
def pricePairs (c : TldConfig) : List (Instant × Money) :=
  c.renewPrices.map fun p => (p.effective, Money.round p.amount c.currency)

variable {c : TldConfig} {prices : Timeline Money} {t : Instant}

/-- A price table is one without minus signs that begins at the start of time. -/
theorem renewPriceSchedule_eq_ok : c.renewPriceSchedule = .ok prices ↔
    (∀ p ∈ c.renewPrices, p.amount.negative = false) ∧
    Timeline.ofPairs c.pricePairs = .ok prices := by
  rw [renewPriceSchedule]
  split
  · next change h =>
    have hmem := List.mem_of_find?_eq_some h
    have hnegative := List.find?_some h
    constructor
    · intro hc
      cases hc
    · rintro ⟨hunsigned, -⟩
      rw [hunsigned change hmem] at hnegative
      cases hnegative
  · next h =>
    have hunsigned : ∀ p ∈ c.renewPrices, p.amount.negative = false := by simpa using h
    rw [mapError_eq_ok]
    exact (and_iff_right hunsigned).symm

/-- Every price of the table is a price that was given, rounded. -/
theorem valueAt_bounds (h : c.renewPriceSchedule = .ok prices) (t : Instant) :
    (prices.valueAt t).isNegative = false ∧ (prices.valueAt t).currency = c.currency := by
  obtain ⟨hunsigned, hpairs⟩ := renewPriceSchedule_eq_ok.1 h
  obtain ⟨u, hu⟩ := prices.exists_lookup?_eq_valueAt t
  rw [Timeline.lookup?_of_ofPairs hpairs] at hu
  split at hu
  · have hmem := List.mem_reverse.1 (Keyed.mem_of_get? hu)
    obtain ⟨p, hp, heq⟩ := List.mem_map.1 hmem
    obtain ⟨-, hprice⟩ := Prod.mk.inj heq
    rw [← hprice]
    exact ⟨Money.isNegative_round _ (hunsigned p hp), rfl⟩
  · cases hu

theorem priceAt_eq_ok (h : c.renewPriceSchedule = .ok prices) (t : Instant) :
    c.priceAt c.tld t = .ok (prices.valueAt t) := by
  rw [priceAt, if_neg (not_not_intro rfl), h]

/-- A changed price is a transition of the table. -/
theorem renewPriceSchedule_withRenewPrice (h : c.renewPriceSchedule = .ok prices) (ht : .epoch ≤ t)
    {amount : Decimal} (hamount : amount.negative = false) :
    (c.withRenewPrice t amount).renewPriceSchedule =
      .ok (prices.withTransition t (Money.round amount c.currency)) := by
  obtain ⟨hunsigned, hpairs⟩ := renewPriceSchedule_eq_ok.1 h
  rw [renewPriceSchedule_eq_ok]
  constructor
  · intro p hp
    rcases List.mem_append.1 hp with hp | hp
    · exact hunsigned p (List.mem_filter.1 hp).1
    · rw [List.mem_singleton.1 hp]
      exact hamount
  · rw [← Timeline.ofPairs_concat hpairs ht]
    simp [pricePairs, withRenewPrice, List.filter_map, Function.comp_def]

theorem exists_renewPriceSchedule (h : c.validate = .ok ()) :
    ∃ prices, c.renewPriceSchedule = .ok prices := by
  cases hprices : c.renewPriceSchedule with
  | ok prices => exact ⟨prices, rfl⟩
  | error e =>
    rw [validate, hprices] at h
    repeat' split at h
    all_goals cases h

end TldConfig

namespace RegistryConfig

variable {cs : List TldConfig} {r : RegistryConfig}

/-- A list of configurations is valid if each is, and they are for different top-level domains, none
seen before. -/
theorem validateFrom_eq_ok {seen : List Tld} : validateFrom seen cs = .ok () ↔
    (∀ c ∈ cs, c.validate = .ok () ∧ c.tld ∉ seen) ∧ (cs.map (·.tld)).Nodup := by
  induction cs generalizing seen with
  | nil => simp [validateFrom]
  | cons c cs ih =>
    rw [validateFrom]
    by_cases hseen : c.tld ∈ seen
    · rw [if_pos hseen]
      refine iff_of_false nofun ?_
      rintro ⟨hall, -⟩
      exact (hall c List.mem_cons_self).2 hseen
    · simp only [if_neg hseen, bind_eq_ok, List.forall_mem_cons, List.map_cons, List.nodup_cons]
      constructor
      · rintro ⟨_, hc, hcs⟩
        obtain ⟨hall, hdistinct⟩ := ih.1 hcs
        refine ⟨⟨⟨hc, hseen⟩, fun c' hc' => ?_⟩, ?_, hdistinct⟩
        · exact ⟨(hall c' hc').1, fun hmem => (hall c' hc').2 (List.mem_cons_of_mem _ hmem)⟩
        · intro hmem
          obtain ⟨c', hc', heq⟩ := List.mem_map.1 hmem
          exact (hall c' hc').2 (heq ▸ List.mem_cons_self)
      · rintro ⟨⟨⟨hc, -⟩, hall⟩, hfree, hdistinct⟩
        refine ⟨(), hc, ih.2 ⟨fun c' hc' => ⟨(hall c' hc').1, ?_⟩, hdistinct⟩⟩
        intro hmem
        rcases List.mem_cons.1 hmem with heq | hmem
        · exact hfree (heq ▸ List.mem_map_of_mem hc')
        · exact (hall c' hc').2 hmem

theorem validate_eq_ok :
    r.validate = .ok () ↔ (∀ c ∈ r.tlds, c.validate = .ok ()) ∧ (r.tlds.map (·.tld)).Nodup := by
  rw [validate, validateFrom_eq_ok]
  simp

/-- The first configuration for a top-level domain is the only one. -/
theorem tld_eq_ok (h : (r.tlds.map (·.tld)).Nodup) {c : TldConfig} (hc : c ∈ r.tlds) :
    r.tld c.tld.text = .ok c := by
  rw [tld]
  cases hfind : r.tlds.find? fun c' => c'.tld.text = c.tld.text with
  | none => exact absurd (decide_eq_true rfl) (List.find?_eq_none.1 hfind c hc)
  | some c' =>
    have htext := List.find?_some hfind
    have htld : c'.tld = c.tld := congrArg Code.mk (of_decide_eq_true htext)
    rw [List.inj_on_of_nodup_map h (List.mem_of_find?_eq_some hfind) hc htld]

theorem tld_eq_error {name : String} (h : ∀ c ∈ r.tlds, c.tld ≠ ⟨name⟩) :
    r.tld name = .error (.unknownTld name) := by
  have hfind : (r.tlds.find? fun c => c.tld.text = name) = none := by
    rw [List.find?_eq_none]
    intro c hc htext
    exact h c hc (congrArg Code.mk (of_decide_eq_true htext))
  rw [tld, hfind]

/-- The tables of different top-level domains are all set, one after another, and no other is. -/
theorem exists_tables (h : ∀ c ∈ cs, ∃ prices, c.renewPriceSchedule = .ok prices)
    (hdistinct : (cs.map (·.tld)).Nodup) (s : PriceTables) :
    ∃ s', cs.foldlM (fun s c => c.renewPriceSchedule.map (s.set c.tld)) s = .ok s' ∧
      (∀ c ∈ cs, ∀ prices, c.renewPriceSchedule = .ok prices → s'.get? c.tld = some prices) ∧
      ∀ tld, tld ∉ cs.map (·.tld) → s'.get? tld = s.get? tld := by
  induction cs generalizing s with
  | nil => exact ⟨s, rfl, by simp, fun _ _ => rfl⟩
  | cons c cs ih =>
    obtain ⟨⟨prices, hprices⟩, hrest⟩ := List.forall_mem_cons.1 h
    obtain ⟨hfree, hdistinct⟩ := List.nodup_cons.1 hdistinct
    obtain ⟨s', hfold, hset, hkept⟩ := ih hrest hdistinct (s.set c.tld prices)
    refine ⟨s', ?_, ?_, ?_⟩
    · rw [List.foldlM_cons, hprices]
      exact hfold
    · rw [List.forall_mem_cons]
      -- the tables that follow are for other top-level domains and leave the first one alone
      refine ⟨fun prices' hprices' => ?_, hset⟩
      cases hprices.symm.trans hprices'
      rw [hkept c.tld hfree, PriceTables.get?_set, if_pos rfl]
    · intro tld htld
      rw [List.map_cons, List.mem_cons, not_or] at htld
      rw [hkept tld htld.2, PriceTables.get?_set, if_neg htld.1]

end RegistryConfig

/-- A valid registry has a table for each of its top-level domains, and the price that all tables
together give is the one that the configuration gives: its table's, not below zero, and in its
currency. No other name is known to either. A price that is added to a configuration, or replaced,
is a transition of its table. -/
theorem prices_agree :
    (∀ r : RegistryConfig, r.validate = .ok () → ∃ tables, r.priceTables = .ok tables ∧
      (∀ c ∈ r.tlds, r.tld c.tld.text = .ok c ∧ ∃ prices, c.renewPriceSchedule = .ok prices ∧
        ∀ t, tables.priceAt c.tld t = .ok (prices.valueAt t) ∧
          c.priceAt c.tld t = .ok (prices.valueAt t) ∧
          (prices.valueAt t).isNegative = false ∧ (prices.valueAt t).currency = c.currency) ∧
      ∀ name, (∀ c ∈ r.tlds, c.tld ≠ ⟨name⟩) → r.tld name = .error (.unknownTld name) ∧
        ∀ t, tables.priceAt ⟨name⟩ t = .error (.notFound "price table" name)) ∧
    ∀ (c : TldConfig) (prices : Timeline Money) (t : Instant) (amount : Decimal),
      c.renewPriceSchedule = .ok prices → .epoch ≤ t → amount.negative = false →
      (c.withRenewPrice t amount).renewPriceSchedule =
        .ok (prices.withTransition t (Money.round amount c.currency)) := by
  refine ⟨fun r hvalid => ?_, fun c prices t amount h ht hamount =>
    TldConfig.renewPriceSchedule_withRenewPrice h ht hamount⟩
  obtain ⟨hall, hdistinct⟩ := RegistryConfig.validate_eq_ok.1 hvalid
  have hprices : ∀ c ∈ r.tlds, ∃ prices, c.renewPriceSchedule = .ok prices := fun c hc =>
    TldConfig.exists_renewPriceSchedule (hall c hc)
  obtain ⟨tables, htables, hset, hkept⟩ := RegistryConfig.exists_tables hprices hdistinct .empty
  refine ⟨tables, htables, fun c hc => ⟨RegistryConfig.tld_eq_ok hdistinct hc, ?_⟩,
    fun name hname => ?_⟩
  · obtain ⟨prices, hc_prices⟩ := hprices c hc
    refine ⟨prices, hc_prices, fun t => ⟨?_, TldConfig.priceAt_eq_ok hc_prices t,
      TldConfig.valueAt_bounds hc_prices t⟩⟩
    rw [PriceTables.priceAt, hset c hc prices hc_prices]
  · refine ⟨RegistryConfig.tld_eq_error hname, fun t => ?_⟩
    have hfree : ⟨name⟩ ∉ r.tlds.map (·.tld) := by
      intro hmem
      obtain ⟨c, hc, heq⟩ := List.mem_map.1 hmem
      exact hname c hc heq
    have hnone : tables.get? ⟨name⟩ = none := hkept ⟨name⟩ hfree
    rw [PriceTables.priceAt, hnone]
    rfl

namespace Sample

/-- Renewals cost eight dollars at first. -/
def pricedTld : TldConfig := .ofPrice ⟨"test"⟩ (.ofMinor 800 .usd)

/-- Half a cent more than a whole number of cents. -/
def halfCent : Decimal := ⟨false, 9345, 3, by decide, by decide⟩

/-- A registry of two top-level domains, one of which has a second price. -/
def pricedRegistry (change : Instant) : RegistryConfig :=
  ⟨[pricedTld.withRenewPrice change halfCent, .ofPrice ⟨"other"⟩ (.ofMinor 900 .jpy)]⟩

end Sample

/-- The price after a change is rounded to cents in both tables, and in a timeline that is changed
at once. -/
theorem prices_agree_sample : ∃ (change : Instant) (prices : Timeline Money) (tables : PriceTables),
    .epoch ≤ change ∧ Sample.halfCent.negative = false ∧
    Sample.pricedTld.renewPriceSchedule = .ok prices ∧
      (Sample.pricedTld.withRenewPrice change Sample.halfCent).renewPriceSchedule =
        .ok (prices.withTransition change (Money.round Sample.halfCent .usd)) ∧
      (Sample.pricedRegistry change).validate = .ok () ∧
      (Sample.pricedRegistry change).priceTables = .ok tables ∧
      tables.priceAt ⟨"test"⟩ change = .ok ⟨⟨false, 934, 2, by decide, by decide⟩, .usd⟩ ∧
      (Sample.pricedRegistry change).tld "com" = .error (.unknownTld "com") ∧
      ∀ t, tables.priceAt ⟨"com"⟩ t = .error (.notFound "price table" "com") := by
  let change : Instant := ⟨12601 * 172800000000000, by decide, by decide, by decide⟩
  obtain ⟨hagree, hchange⟩ := prices_agree
  have hle : Instant.epoch ≤ change := by decide
  have hvalid : (Sample.pricedRegistry change).validate = .ok () := by decide +kernel
  obtain ⟨prices, hprices⟩ : ∃ prices, Sample.pricedTld.renewPriceSchedule = .ok prices := ⟨_, rfl⟩
  obtain ⟨tables, htables, hknown, hunknown⟩ := hagree _ hvalid
  obtain ⟨-, changed, -, hlookups⟩ :=
    hknown (Sample.pricedTld.withRenewPrice change Sample.halfCent) List.mem_cons_self
  obtain ⟨htable, hconfigured, -, -⟩ := hlookups change
  obtain ⟨hno_tld, hno_table⟩ := hunknown "com" (by decide)
  have hprice : tables.priceAt ⟨"test"⟩ change =
      .ok ⟨⟨false, 934, 2, by decide, by decide⟩, .usd⟩ := by
    refine htable.trans (hconfigured.symm.trans ?_)
    decide +kernel
  exact ⟨change, prices, tables, hle, rfl, hprices, hchange _ _ _ _ hprices hle rfl, hvalid,
    htables, hprice, hno_tld, hno_table⟩

end Registration
end NameRegistry
