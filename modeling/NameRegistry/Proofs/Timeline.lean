import NameRegistry.Keyed
import NameRegistry.Timeline

/-! # Timelines as tables

A timeline is determined by the values that are entered in it, each at its instant. A transition
sets one entry and leaves the others, and a timeline of pairs has at each instant what the last of
the pairs for it gives. So the last of the pairs may as well be put in as a transition when the
others have been.
-/
namespace NameRegistry.Timeline

variable {V : Type} {l l' : Timeline V} {t u : Instant}

/-- The value of the transition at an instant, if there is one. -/
def lookup? (l : Timeline V) (u : Instant) : Option V := Keyed.get? l.transitions u

theorem lookup?_eq (l : Timeline V) (u : Instant) :
    l.lookup? u = if .epoch = u then some l.initial else Keyed.get? l.later u := Keyed.get?_cons ..

@[simp] theorem lookup?_epoch (l : Timeline V) : l.lookup? .epoch = some l.initial := by
  simp [lookup?_eq]

theorem lookup?_constant (v : V) (u : Instant) :
    (constant v).lookup? u = if .epoch = u then some v else none := by
  simp [lookup?_eq, constant, Keyed.get?]

theorem sorted_transitions (l : Timeline V) : l.transitions.Pairwise fun p q => p.1 < q.1 :=
  List.pairwise_cons.2 ⟨l.epoch_lt, l.sorted⟩

theorem nodup_times (l : Timeline V) : (l.transitions.map (·.1)).Nodup := by
  rw [List.nodup_iff_pairwise_ne, List.pairwise_map]
  exact l.sorted_transitions.imp Instant.ne_of_lt

theorem nodup_transitions (l : Timeline V) : l.transitions.Nodup :=
  l.sorted_transitions.imp fun h heq => Instant.ne_of_lt h (congrArg Prod.fst heq)

/-- Every transition counts: no two are at one instant. -/
theorem mem_transitions_iff {v : V} : (t, v) ∈ l.transitions ↔ l.lookup? t = some v :=
  Keyed.mem_iff_get? l.nodup_times

/-- Timelines with the same entries are the same. -/
theorem ext_lookup? (h : ∀ u, l.lookup? u = l'.lookup? u) : l = l' := by
  have hmem : ∀ p, p ∈ l.transitions ↔ p ∈ l'.transitions := by
    rintro ⟨t, v⟩
    rw [mem_transitions_iff, mem_transitions_iff, h]
  have hperm : l.transitions.Perm l'.transitions :=
    (List.perm_ext_iff_of_nodup l.nodup_transitions l'.nodup_transitions).2 hmem
  have heq :=
    hperm.eq_of_pairwise (fun p q _ _ hpq hqp =>
      absurd (Int.lt_trans hpq hqp) (Int.lt_irrefl _)) l.sorted_transitions l'.sorted_transitions
  obtain ⟨hinitial, hlater⟩ := List.cons.inj heq
  cases l
  cases l'
  cases congrArg Prod.snd hinitial
  cases hlater
  rfl

/-- The order of the pairs does not matter for what is read, though it does for where the new one
goes. -/
theorem get?_put (t u : Instant) (v : V) (ps : List (Instant × V)) :
    Keyed.get? (put t v ps) u = if t = u then some v else Keyed.get? ps u := by
  induction ps with
  | nil => simp [put, Keyed.get?]
  | cons p ps ih =>
    obtain ⟨s, w⟩ := p
    rw [put]
    split
    · rw [Keyed.get?_cons]
    · split
      · next heq =>
        cases (show t = s from heq)
        simp only [Keyed.get?_cons]
        split <;> simp [*]
      · next hne =>
        rw [Keyed.get?_cons, ih, Keyed.get?_cons]
        split <;> split <;> simp_all

/-- A transition sets the entry at its instant and leaves the others. -/
theorem lookup?_withTransition (h : .epoch ≤ t) (v : V) (u : Instant) :
    (l.withTransition t v).lookup? u = if t = u then some v else l.lookup? u := by
  rw [withTransition]
  split
  · next hlt =>
    rw [lookup?_eq, lookup?_eq, get?_put]
    by_cases hu : t = u
    · rw [if_pos hu, if_pos hu, if_neg (hu ▸ Instant.ne_of_lt hlt)]
    · rw [if_neg hu, if_neg hu]
  · next hle =>
    obtain rfl := Instant.eq_of_le_of_not_lt h hle
    simp only [lookup?_eq]
    split <;> rfl

/-- Of the transitions put in for one instant the last counts. -/
theorem lookup?_foldl {ps : List (Instant × V)} (h : ∀ p ∈ ps, Instant.epoch ≤ p.1) (l : Timeline V)
    (u : Instant) :
    (ps.foldl (fun l p => l.withTransition p.1 p.2) l).lookup? u =
      (Keyed.get? ps.reverse u).or (l.lookup? u) := by
  induction ps generalizing l with
  | nil => simp [Keyed.get?]
  | cons p ps ih =>
    obtain ⟨s, v⟩ := p
    obtain ⟨hs, hps⟩ := List.forall_mem_cons.1 h
    rw [List.foldl_cons, ih hps, lookup?_withTransition hs, List.reverse_cons, Keyed.get?_append,
      Option.or_assoc, Keyed.get?_cons]
    congr 1
    split <;> rfl

/-- There is a timeline of pairs if one of them is for the start of time. -/
theorem exists_ofPairs {pairs : List (Instant × V)} {v : V}
    (h : Keyed.get? pairs.reverse .epoch = some v) : ∃ l, ofPairs pairs = .ok l := by
  rw [← Keyed.getLast?_filter, Option.map_eq_some_iff] at h
  obtain ⟨first, hfirst, -⟩ := h
  rw [ofPairs, hfirst]
  exact ⟨_, rfl⟩

theorem lookup?_of_ofPairs {pairs : List (Instant × V)} (h : ofPairs pairs = .ok l) (u : Instant) :
    l.lookup? u = if .epoch ≤ u then Keyed.get? pairs.reverse u else none := by
  rw [ofPairs] at h
  split at h
  · cases h
  · next first hfirst =>
    cases h
    have hepoch : Keyed.get? pairs.reverse .epoch = some first.2 := by
      rw [← Keyed.getLast?_filter, hfirst]
      rfl
    have hlate : ∀ p ∈ pairs.filter (Instant.epoch < ·.1), Instant.epoch ≤ p.1 := fun p hp =>
      Int.le_of_lt (of_decide_eq_true (List.mem_filter.1 hp).2)
    rw [lookup?_foldl hlate, ← List.filter_reverse, Keyed.get?_filter (Instant.epoch < ·),
      lookup?_constant]
    -- only at the start of time does the first value count, and there none of those put in does
    by_cases heq : .epoch = u
    · subst heq
      simp [hepoch]
    · have hle : Instant.epoch ≤ u ↔ .epoch < u :=
        ⟨fun hle => Classical.byContradiction fun hlt => heq (Instant.eq_of_le_of_not_lt hle hlt),
          Int.le_of_lt⟩
      simp [heq, hle]

/-- A timeline of pairs has the entries that the last of the pairs give from the start of time
on. -/
theorem ofPairs_eq_ok {pairs : List (Instant × V)} : ofPairs pairs = .ok l ↔
    ∀ u, l.lookup? u = if .epoch ≤ u then Keyed.get? pairs.reverse u else none := by
  refine ⟨lookup?_of_ofPairs, fun h => ?_⟩
  have hepoch := (h .epoch).symm
  rw [if_pos (Instant.le_refl _), lookup?_epoch] at hepoch
  obtain ⟨l', hl'⟩ := exists_ofPairs hepoch
  rw [hl', ext_lookup? fun u => (lookup?_of_ofPairs hl' u).trans (h u).symm]

/-- The last pair may as well be put in as a transition. -/
theorem ofPairs_concat {pairs : List (Instant × V)} (h : ofPairs pairs = .ok l)
    (ht : .epoch ≤ t) (v : V) :
    ofPairs (pairs.filter (·.1 ≠ t) ++ [(t, v)]) = .ok (l.withTransition t v) := by
  rw [ofPairs_eq_ok] at h ⊢
  intro u
  rw [lookup?_withTransition ht, h, List.reverse_append, List.reverse_singleton,
    List.singleton_append, Keyed.get?_cons, ← List.filter_reverse, Keyed.get?_filter (· ≠ t)]
  by_cases heq : t = u
  · subst heq
    simp [ht]
  · simp [heq, Ne.symm heq]

/-- The value at an instant is one that is entered. -/
theorem exists_lookup?_eq_valueAt (l : Timeline V) (t : Instant) :
    ∃ u, l.lookup? u = some (l.valueAt t) := by
  rw [valueAt]
  split
  · next p hp =>
    have hmem := (List.mem_filter.1 (List.mem_of_getLast? hp)).1
    exact ⟨p.1, mem_transitions_iff.1 (List.mem_cons_of_mem _ hmem)⟩
  · exact ⟨.epoch, l.lookup?_epoch⟩

end NameRegistry.Timeline
