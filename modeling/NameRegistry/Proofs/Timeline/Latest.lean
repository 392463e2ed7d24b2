import NameRegistry.Proofs.Timeline

/-! # The latest of what was given

A timeline answers with what was given last of the greatest time that is not after the instant asked
for. It does not matter whether that was one of its pairs, in whatever order, or a transition put in
later. Pairs before the start of time never count, and an instant before it has the value that the
start of time has.
-/
namespace NameRegistry.Timeline

variable {V : Type} {l : Timeline V} {t u : Instant} {v : V}

/-- The transition at `u` is in effect at `t`: no later one has come up by then. -/
structure InEffect (l : Timeline V) (t u : Instant) (v : V) : Prop where
  entry : l.lookup? u = some v
  le : u ≤ t
  greatest : ∀ w x, l.lookup? w = some x → w ≤ t → w ≤ u

theorem epoch_le_of_lookup? (h : l.lookup? u = some v) : .epoch ≤ u := by
  rcases List.mem_cons.1 (mem_transitions_iff.2 h) with heq | hlater
  · rw [(Prod.mk.inj heq).1]
    exact Instant.le_refl _
  · exact Int.le_of_lt (l.epoch_lt _ hlater)

/-- In a list in order the last of the pairs up to a time has the greatest of their times. -/
theorem le_of_getLast?_filter {ps : List (Instant × V)} (hsorted : ps.Pairwise fun p q => p.1 < q.1)
    {p : Instant × V} (hlast : (ps.filter (·.1 ≤ t)).getLast? = some p) :
    ∀ q ∈ ps, q.1 ≤ t → q.1 ≤ p.1 := by
  intro q hq hle
  obtain ⟨init, hinit⟩ := List.getLast?_eq_some_iff.1 hlast
  have hmem : q ∈ init ++ [p] := hinit ▸ List.mem_filter.2 ⟨hq, decide_eq_true hle⟩
  rcases List.mem_append.1 hmem with hq | hq
  · have hpairs := hsorted.filter fun q : Instant × V => decide (q.1 ≤ t)
    rw [hinit] at hpairs
    exact Int.le_of_lt ((List.pairwise_append.1 hpairs).2.2 q hq p List.mem_cons_self)
  · rw [List.mem_singleton.1 hq]
    exact Instant.le_refl _

/-- From the start of time on, the value is that of the last transition so far. -/
theorem getLast?_filter_transitions (h : .epoch ≤ t) :
    ∃ u, (l.transitions.filter (·.1 ≤ t)).getLast? = some (u, l.valueAt t) := by
  rw [transitions, List.filter_cons, if_pos (decide_eq_true h), List.getLast?_cons, valueAt]
  cases (l.later.filter (·.1 ≤ t)).getLast? with
  | none => exact ⟨.epoch, rfl⟩
  | some p => exact ⟨p.1, rfl⟩

theorem exists_inEffect (l : Timeline V) (h : .epoch ≤ t) : ∃ u, l.InEffect t u (l.valueAt t) := by
  obtain ⟨u, hlast⟩ := l.getLast?_filter_transitions h
  obtain ⟨hmem, hle⟩ := List.mem_filter.1 (List.mem_of_getLast? hlast)
  refine ⟨u, mem_transitions_iff.1 hmem, of_decide_eq_true hle, fun w x hw hwt => ?_⟩
  exact le_of_getLast?_filter l.sorted_transitions hlast _ (mem_transitions_iff.2 hw) hwt

theorem InEffect.unique {u' : Instant} {v' : V} (h : l.InEffect t u v)
    (h' : l.InEffect t u' v') : v = v' := by
  have heq : u = u' :=
    Instant.ext (Int.le_antisymm (h'.greatest u v h.entry h.le) (h.greatest u' v' h'.entry h'.le))
  exact Option.some.inj (h.entry.symm.trans (heq ▸ h'.entry))

theorem valueAt_eq_iff (h : .epoch ≤ t) : l.valueAt t = v ↔ ∃ u, l.InEffect t u v := by
  constructor
  · rintro rfl
    exact l.exists_inEffect h
  · rintro ⟨u, hu⟩
    obtain ⟨u', hu'⟩ := l.exists_inEffect h
    exact hu'.unique hu

/-- A transition is in effect at its own instant. -/
theorem valueAt_of_lookup? (h : l.lookup? u = some v) : l.valueAt u = v :=
  (valueAt_eq_iff (epoch_le_of_lookup? h)).2 ⟨u, h, Instant.le_refl u, fun _ _ _ hle => hle⟩

theorem valueAt_of_lt_epoch (h : t < .epoch) : l.valueAt t = l.initial := by
  have hnone : l.later.filter (·.1 ≤ t) = [] := by
    rw [List.filter_eq_nil_iff]
    intro p hp hle
    have hlt : t < p.1 := Int.lt_trans h (l.epoch_lt p hp)
    exact Int.not_le.2 hlt (of_decide_eq_true hle)
  rw [valueAt, hnone]
  rfl

/-- What was given for an instant: the last for the greatest time, from the start of time on, that
is not after it. -/
def Given (ps : List (Instant × V)) (t : Instant) (v : V) : Prop :=
  ∃ before u after, ps = before ++ (u, v) :: after ∧ .epoch ≤ u ∧ u ≤ t ∧
    (∀ p ∈ before, p.1 ≤ t → p.1 ≤ u) ∧ ∀ p ∈ after, p.1 ≤ t → p.1 < u

theorem given_iff {ps : List (Instant × V)} : Given ps t v ↔ ∃ u, .epoch ≤ u ∧ u ≤ t ∧
    Keyed.get? ps.reverse u = some v ∧ ∀ w x, Keyed.get? ps.reverse w = some x → w ≤ t → w ≤ u := by
  constructor
  · rintro ⟨before, u, after, rfl, hepoch, hle, hbefore, hafter⟩
    have hother : ∀ p ∈ after, p.1 ≠ u := by
      rintro p hp rfl
      exact Instant.lt_irrefl _ (hafter p hp hle)
    refine ⟨u, hepoch, hle, Keyed.get?_reverse_eq_some.2 ⟨before, after, rfl, hother⟩,
      fun w x hw hwt => ?_⟩
    rcases List.mem_append.1 (List.mem_reverse.1 (Keyed.mem_of_get? hw)) with hp | hp
    · exact hbefore _ hp hwt
    · rcases List.mem_cons.1 hp with heq | hp
      · rw [(Prod.mk.inj heq).1]
        exact Instant.le_refl u
      · exact Int.le_of_lt (hafter _ hp hwt)
  · rintro ⟨u, hepoch, hle, hget, hgreatest⟩
    obtain ⟨before, after, rfl, hother⟩ := Keyed.get?_reverse_eq_some.1 hget
    have hbound : ∀ p ∈ before ++ (u, v) :: after, p.1 ≤ t → p.1 ≤ u := fun p hp => by
      obtain ⟨x, hx⟩ := Keyed.exists_get? (List.mem_reverse.2 hp)
      exact hgreatest p.1 x hx
    refine ⟨before, u, after, rfl, hepoch, hle,
      fun p hp => hbound p (List.mem_append_left _ hp), ?_⟩
    intro p hp hpt
    have hpu := hbound p (List.mem_append_right _ (List.mem_cons_of_mem _ hp)) hpt
    exact Classical.byContradiction fun hlt => hother p hp (Instant.eq_of_le_of_not_lt hpu hlt)

/-- A timeline that has the entries that were given has in effect what was given. -/
theorem given_iff_inEffect {ps : List (Instant × V)}
    (hlookup : ∀ u, l.lookup? u = if .epoch ≤ u then Keyed.get? ps.reverse u else none) :
    Given ps t v ↔ ∃ u, l.InEffect t u v := by
  rw [given_iff]
  constructor
  · rintro ⟨u, hepoch, hle, hget, hgreatest⟩
    refine ⟨u, ?_, hle, fun w x hw hwt => ?_⟩
    · rw [hlookup, if_pos hepoch, hget]
    · have hwepoch := epoch_le_of_lookup? hw
      rw [hlookup, if_pos hwepoch] at hw
      exact hgreatest w x hw hwt
  · rintro ⟨u, hu⟩
    have hepoch := epoch_le_of_lookup? hu.entry
    refine ⟨u, hepoch, hu.le, ?_, fun w x hw hwt => ?_⟩
    · rw [← hu.entry, hlookup, if_pos hepoch]
    · by_cases hwepoch : .epoch ≤ w
      · exact hu.greatest w x (by rw [hlookup, if_pos hwepoch, hw]) hwt
      · -- a pair that comes too early has no entry, and is not after the one in effect anyway
        exact Int.le_trans (Int.le_of_lt (Int.not_le.1 hwepoch)) hepoch

/-- A timeline with the transitions put in, one after another. -/
def putAll (l : Timeline V) (ps : List (Instant × V)) : Timeline V :=
  ps.foldl (fun l p => l.withTransition p.1 p.2) l

/-- Transitions that are put in count as if they had been given after the pairs. -/
theorem lookup?_putAll {pairs changes : List (Instant × V)} (h : ofPairs pairs = .ok l)
    (hchanges : ∀ p ∈ changes, .epoch ≤ p.1) (u : Instant) :
    (l.putAll changes).lookup? u = if .epoch ≤ u then Keyed.get? (pairs ++ changes).reverse u
      else none := by
  rw [putAll, lookup?_foldl hchanges, lookup?_of_ofPairs h, List.reverse_append, Keyed.get?_append]
  split
  · rfl
  · next hu =>
    rw [Option.or_none, Option.eq_none_iff_forall_ne_some]
    intro v hv
    exact hu (hchanges _ (List.mem_reverse.1 (Keyed.mem_of_get? hv)))

theorem ofPairs_eq_error {pairs : List (Instant × V)} {e : TemporalError} :
    ofPairs pairs = .error e ↔ e = .missingStartOfTime ∧ ∀ p ∈ pairs, p.1 ≠ .epoch := by
  rw [ofPairs]
  split
  · next hnone =>
    have hfree : ∀ p ∈ pairs, p.1 ≠ .epoch := by
      simpa [List.getLast?_eq_none_iff, List.filter_eq_nil_iff] using hnone
    rw [and_iff_left hfree, Except.error.injEq, eq_comm]
  · next first hfirst =>
    obtain ⟨hmem, hepoch⟩ := List.mem_filter.1 (List.mem_of_getLast? hfirst)
    constructor
    · intro h
      cases h
    · rintro ⟨-, hfree⟩
      exact absurd (of_decide_eq_true hepoch) (hfree first hmem)

/-- A timeline can be made of pairs that have one for the start of time, and of no others. From the
start of time on its value is what was given for the instant, by a pair or by a transition put in
later; before that it is the value at the start of time. Its transitions are in strictly increasing
order from the start of time on. They are what was given last for each time, and each is the value
at its time. -/
theorem valueAt_eq_given (pairs : List (Instant × V)) :
    (∀ e, ofPairs pairs = .error e ↔ e = .missingStartOfTime ∧ ∀ p ∈ pairs, p.1 ≠ .epoch) ∧
    ∀ l changes, ofPairs pairs = .ok l → (∀ p ∈ changes, .epoch ≤ p.1) →
      (∀ t, .epoch ≤ t → ∀ v, (l.putAll changes).valueAt t = v ↔ Given (pairs ++ changes) t v) ∧
      (∀ t, t < .epoch → (l.putAll changes).valueAt t = (l.putAll changes).valueAt .epoch) ∧
      ((l.putAll changes).transitions.Pairwise fun p q => p.1 < q.1) ∧
      ((l.putAll changes).transitions.map (·.1)).head? = some .epoch ∧
      (∀ p ∈ (l.putAll changes).transitions, (l.putAll changes).valueAt p.1 = p.2) ∧
      ∀ t v, (t, v) ∈ (l.putAll changes).transitions ↔ .epoch ≤ t ∧
        ∃ before after, pairs ++ changes = before ++ (t, v) :: after ∧ ∀ p ∈ after, p.1 ≠ t := by
  refine ⟨fun e => ofPairs_eq_error, fun l changes hl hchanges => ?_⟩
  have hlookup := lookup?_putAll hl hchanges
  refine ⟨fun t ht v => ?value, fun t ht => ?early, sorted_transitions _, rfl,
    fun p hp => valueAt_of_lookup? (mem_transitions_iff.1 hp), fun t v => ?listed⟩
  case value => rw [valueAt_eq_iff ht, given_iff_inEffect hlookup]
  case early => rw [valueAt_of_lt_epoch ht, valueAt_of_lookup? (lookup?_epoch _)]
  case listed =>
    rw [mem_transitions_iff, hlookup, ← Keyed.get?_reverse_eq_some]
    split <;> simp [*]

namespace Sample

/-- Midnight, some days after the start of time. -/
def day (n : Fin 10) : Instant := ⟨n * 172800000000000, by omega, by omega, by omega⟩

/-- The last nanosecond before the start of time. -/
def eve : Instant := ⟨-1000000001, by decide, by decide, by decide⟩

/-- Out of order, with two pairs for the start of time and for the second day, and one that comes
too early. -/
def pairs : List (Instant × Nat) :=
  [(day 3, 30), (.epoch, 1), (eve, 9), (day 2, 20), (day 2, 21), (.epoch, 2)]

def changes : List (Instant × Nat) := [(day 3, 31), (.epoch, 3)]

end Sample

/-- The last pair for the second day counts until the third, for which a transition has replaced the
pair; the value at the start of time has been replaced too. -/
theorem valueAt_eq_given_sample : (∀ p ∈ Sample.changes, .epoch ≤ p.1) ∧
    ofPairs [(Sample.eve, 9)] = .error .missingStartOfTime ∧ ∃ l, ofPairs Sample.pairs = .ok l ∧
      (l.putAll Sample.changes).valueAt (Sample.day 2) = 21 ∧
      (l.putAll Sample.changes).valueAt (Sample.day 7) = 31 ∧
      (l.putAll Sample.changes).valueAt Sample.eve = 3 ∧
      (.epoch, 3) ∈ (l.putAll Sample.changes).transitions := by
  have hchanges : ∀ p ∈ Sample.changes, .epoch ≤ p.1 := by decide
  obtain ⟨hfails, -⟩ := valueAt_eq_given [(Sample.eve, 9)]
  obtain ⟨-, hvalues⟩ := valueAt_eq_given Sample.pairs
  obtain ⟨l, hl⟩ : ∃ l, ofPairs Sample.pairs = .ok l := exists_ofPairs (v := 2) (by decide)
  obtain ⟨hvalue, hearly, -, -, hlisted, hmem⟩ := hvalues l Sample.changes hl hchanges
  have hsecond : Given (Sample.pairs ++ Sample.changes) (Sample.day 2) 21 :=
    ⟨Sample.pairs.take 4, Sample.day 2, (.epoch, 2) :: Sample.changes,
      rfl, by decide, by decide, by decide, by decide⟩
  have hthird : Given (Sample.pairs ++ Sample.changes) (Sample.day 7) 31 :=
    ⟨Sample.pairs, Sample.day 3, [(.epoch, 3)], rfl, by decide, by decide, by decide, by decide⟩
  have hstart : (.epoch, 3) ∈ (l.putAll Sample.changes).transitions :=
    (hmem .epoch 3).2 ⟨Instant.le_refl _, Sample.pairs ++ [(Sample.day 3, 31)], [], rfl, by decide⟩
  refine ⟨hchanges, (hfails _).2 ⟨rfl, by decide⟩, l, hl, (hvalue _ (by decide) _).2 hsecond,
    (hvalue _ (by decide) _).2 hthird, ?_, hstart⟩
  rw [hearly _ (by decide)]
  exact hlisted _ hstart

end NameRegistry.Timeline
