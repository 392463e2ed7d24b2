/-! # Entries under keys

A list of pairs, read as a table: the first pair with a key is the entry under it. Setting an entry
takes the place of all pairs with the key.
-/
namespace NameRegistry.Keyed

variable {K A : Type} [DecidableEq K]

/-- What is entered under a key. -/
def get? (l : List (K × A)) (key : K) : Option A := (l.find? (·.1 = key)).map (·.2)

def set (l : List (K × A)) (key : K) (a : A) : List (K × A) := l.filter (·.1 ≠ key) ++ [(key, a)]

@[simp] theorem get?_cons (key other : K) (a : A) (l : List (K × A)) :
    get? ((key, a) :: l) other = if key = other then some a else get? l other := by
  by_cases h : key = other <;> simp [get?, h]

theorem get?_set (l : List (K × A)) (key other : K) (a : A) :
    get? (set l key a) other = if other = key then some a else get? l other := by
  have others : (l.filter (·.1 ≠ key)).find? (·.1 = other) =
      if other = key then none else l.find? (·.1 = other) := by
    induction l with
    | nil => simp
    | cons p l ih =>
      by_cases hp : p.1 = key <;> by_cases ho : p.1 = other <;> simp_all
  rw [get?, get?, set, List.find?_append, others]
  by_cases h : other = key
  · simp [h]
  · simp [h, Ne.symm h]

theorem get?_append (l m : List (K × A)) (key : K) :
    get? (l ++ m) key = (get? l key).or (get? m key) := by
  rw [get?, get?, get?, List.find?_append, Option.map_or]

/-- Entries under some of the keys. -/
theorem get?_filter (p : K → Bool) (l : List (K × A)) (key : K) :
    get? (l.filter (p ·.1)) key = if p key then get? l key else none := by
  induction l with
  | nil => simp [get?]
  | cons e l ih =>
    obtain ⟨other, a⟩ := e
    rw [List.filter_cons, get?_cons]
    by_cases h : other = key
    · cases h
      cases hp : p key <;> simp [ih, hp]
    · split <;> simp [ih, h]

/-- Of the pairs with a key the last one is the first from the end. -/
theorem getLast?_filter (l : List (K × A)) (key : K) :
    (l.filter (·.1 = key)).getLast?.map (·.2) = get? l.reverse key := by
  rw [List.getLast?_eq_head?_reverse, ← List.filter_reverse, List.head?_filter, get?]

/-- Read from the end, a list has under a key what its last pair with the key says. -/
theorem get?_reverse_eq_some {l : List (K × A)} {key : K} {a : A} : get? l.reverse key = some a ↔
    ∃ before after, l = before ++ (key, a) :: after ∧ ∀ p ∈ after, p.1 ≠ key := by
  rw [get?, Option.map_eq_some_iff]
  constructor
  · rintro ⟨p, hp, rfl⟩
    obtain ⟨hkey, after, before, hl, hafter⟩ := List.find?_eq_some_iff_append.1 hp
    obtain rfl := of_decide_eq_true hkey
    refine ⟨before.reverse, after.reverse, ?_, fun q hq => ?_⟩
    · simpa using congrArg List.reverse hl
    · simpa using hafter q (List.mem_reverse.1 hq)
  · rintro ⟨before, after, rfl, hafter⟩
    refine ⟨(key, a),
      List.find?_eq_some_iff_append.2 ⟨by simp, after.reverse, before.reverse, by simp, ?_⟩, rfl⟩
    intro q hq
    simpa using hafter q (List.mem_reverse.1 hq)

theorem mem_of_get? {l : List (K × A)} {key : K} {a : A} (h : get? l key = some a) :
    (key, a) ∈ l := by
  obtain ⟨p, hp, rfl⟩ := Option.map_eq_some_iff.1 h
  have hkey := List.find?_some hp
  rw [← of_decide_eq_true hkey]
  exact List.mem_of_find?_eq_some hp

theorem exists_get? {l : List (K × A)} {p : K × A} (h : p ∈ l) : ∃ a, get? l p.1 = some a := by
  rw [← Option.isSome_iff_exists, get?, Option.isSome_map, List.find?_isSome]
  exact ⟨p, h, decide_eq_true rfl⟩

/-- Where no two pairs have one key, every pair is an entry. -/
theorem mem_iff_get? {l : List (K × A)} (h : (l.map (·.1)).Nodup) {key : K} {a : A} :
    (key, a) ∈ l ↔ get? l key = some a := by
  induction l with
  | nil => simp [get?]
  | cons e l ih =>
    obtain ⟨other, b⟩ := e
    obtain ⟨hother, hl⟩ := List.nodup_cons.1 h
    rw [List.mem_cons, get?_cons, Prod.mk.injEq]
    split
    · next heq =>
      cases heq
      have hfree : (key, a) ∉ l := fun hmem => hother (List.mem_map.2 ⟨_, hmem, rfl⟩)
      simp [hfree, eq_comm]
    · next hne =>
      rw [← ih hl]
      simp [Ne.symm hne]

end NameRegistry.Keyed
