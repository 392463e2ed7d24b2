import NameRegistry.Period

/-! # Values that change at known instants

A timeline has a value from the start of time on and later transitions, kept in strictly increasing
order after it. Its value at an instant is that of the latest transition not after the instant; an
instant before the start of time has the first value.
-/
namespace NameRegistry

structure Timeline (V : Type) where
  initial : V
  later : List (Instant × V)
  sorted : later.Pairwise fun p q => p.1 < q.1
  epoch_lt : ∀ p ∈ later, Instant.epoch < p.1

namespace Timeline

variable {V : Type}

def constant (value : V) : Timeline V := ⟨value, [], .nil, by simp⟩

/-- Puts a transition in its place, instead of one at the same instant. -/
def put (time : Instant) (value : V) : List (Instant × V) → List (Instant × V)
  | [] => [(time, value)]
  | p :: r =>
    if time < p.1 then (time, value) :: p :: r
    else if time = p.1 then (time, value) :: r
    else p :: put time value r

theorem mem_put {time : Instant} {value : V} {l : List (Instant × V)} {p : Instant × V}
    (h : p ∈ put time value l) : p = (time, value) ∨ p ∈ l := by
  induction l with
  | nil => simpa [put] using h
  | cons q r ih =>
    rw [put] at h
    split at h
    · simpa using h
    · split at h
      · rcases List.mem_cons.1 h with h | h
        · exact .inl h
        · exact .inr (List.mem_cons_of_mem _ h)
      · rcases List.mem_cons.1 h with h | h
        · exact .inr (h ▸ List.mem_cons_self)
        · exact (ih h).imp_right (List.mem_cons_of_mem _)

theorem put_sorted (time : Instant) (value : V) {l : List (Instant × V)}
    (h : l.Pairwise fun p q => p.1 < q.1) : (put time value l).Pairwise fun p q => p.1 < q.1 := by
  induction l with
  | nil => simp [put]
  | cons q r ih =>
    obtain ⟨hq, hr⟩ := List.pairwise_cons.1 h
    rw [put]
    split
    · next hlt =>
      refine List.pairwise_cons.2 ⟨fun p hp => ?_, h⟩
      rcases List.mem_cons.1 hp with rfl | hp
      · exact hlt
      · exact Int.lt_trans hlt (hq p hp)
    · split
      · next heq => exact List.pairwise_cons.2 ⟨fun p hp => heq ▸ hq p hp, hr⟩
      · next hlt hne =>
        refine List.pairwise_cons.2 ⟨fun p hp => ?_, ih hr⟩
        rcases mem_put hp with rfl | hp
        · have : time.ticks ≠ q.1.ticks := fun e => hne (Instant.ext e)
          rw [Instant.lt_iff] at hlt
          show q.1.ticks < time.ticks
          omega
        · exact hq p hp

/-- The value from the given instant on, up to the next transition. At or before the start of time
it replaces the first value. -/
def withTransition (l : Timeline V) (time : Instant) (value : V) : Timeline V :=
  if h : Instant.epoch < time then
    { initial := l.initial
      later := put time value l.later
      sorted := put_sorted time value l.sorted
      epoch_lt := fun p hp => by
        rcases mem_put hp with rfl | hp
        · exact h
        · exact l.epoch_lt p hp }
  else { l with initial := value }

/-- A timeline of pairs in any order, of which the last one given for an instant counts. There has
to be one for the start of time; those before it are left out. -/
def ofPairs (pairs : List (Instant × V)) : Except TemporalError (Timeline V) :=
  match (pairs.filter (·.1 = Instant.epoch)).getLast? with
  | none => .error .missingStartOfTime
  | some first =>
    .ok ((pairs.filter (Instant.epoch < ·.1)).foldl (fun l p => l.withTransition p.1 p.2)
      (constant first.2))

def valueAt (l : Timeline V) (time : Instant) : V :=
  match (l.later.filter (·.1 ≤ time)).getLast? with
  | some p => p.2
  | none => l.initial

/-- All transitions, the one at the start of time included. -/
def transitions (l : Timeline V) : List (Instant × V) := (.epoch, l.initial) :: l.later

theorem valueAt_constant (value : V) (time : Instant) : (constant value).valueAt time = value := rfl

end Timeline
end NameRegistry
