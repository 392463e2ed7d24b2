import Mathlib.Data.List.Nodup
import NameRegistry.Identifier

/-! # Fresh identifiers

There are finitely many identifiers, so no source can go on giving new ones for ever. What a
projection needs is that the next draws give identifiers that differ from each other and from those
in use. The number of these draws is kept in view: a draw takes one from it and puts its identifier
in use. Each kind of record has identifiers of its own, so a source may number every kind by itself.

The main statement: the sequential source is fresh until its counter wraps.
-/
namespace NameRegistry

theorem Uuid.toNat_ofNat {n : Nat} (h : n ≤ UInt64.size) : (Uuid.ofNat n).bits.toNat = n := by
  rw [Uuid.ofNat, BitVec.toNat_ofNat, Nat.mod_eq_of_lt (Nat.lt_of_le_of_lt h (by decide))]

namespace IdSource

variable {σ : Type} (source : IdSource σ)

theorem drawIds_cons (k : IdKind) (ks : List IdKind) (s : σ) :
    source.drawIds (k :: ks) s =
      (⟨k, (source.draw k s).1⟩ :: (source.drawIds ks (source.draw k s).2).1,
        (source.drawIds ks (source.draw k s).2).2) := rfl

theorem drawIds_append (ks ks' : List IdKind) (s : σ) :
    source.drawIds (ks ++ ks') s =
      ((source.drawIds ks s).1 ++ (source.drawIds ks' (source.drawIds ks s).2).1,
        (source.drawIds ks' (source.drawIds ks s).2).2) := by
  induction ks generalizing s with
  | nil => rfl
  | cons k ks ih => rw [List.cons_append, drawIds_cons, ih, drawIds_cons, List.cons_append]

/-- The next draws, up to a number of them, repeat no identifier and give none that is in use. -/
def FreshFor (n : Nat) (used : List AnyId) (s : σ) : Prop :=
  ∀ ks : List IdKind, ks.length ≤ n →
    (source.drawIds ks s).1.Nodup ∧ ∀ id ∈ (source.drawIds ks s).1, id ∉ used

variable {source}

theorem FreshFor.mono {n m : Nat} {used used' : List AnyId} {s : σ} (h : source.FreshFor n used s)
    (hn : m ≤ n) (hused : ∀ id ∈ used', id ∈ used) : source.FreshFor m used' s := by
  intro ks hks
  obtain ⟨h1, h2⟩ := h ks (Nat.le_trans hks hn)
  exact ⟨h1, fun id hid hmem => h2 id hid (hused id hmem)⟩

/-- What has been drawn is in use from then on. -/
theorem FreshFor.drawIds {n : Nat} {used : List AnyId} {s s' : σ} {ks : List IdKind}
    {ids : List AnyId} (h : source.FreshFor n used s) (hd : source.drawIds ks s = (ids, s'))
    (hn : ks.length ≤ n) :
    ids.Nodup ∧ (∀ id ∈ ids, id ∉ used) ∧ source.FreshFor (n - ks.length) (used ++ ids) s' := by
  have h0 := h ks hn
  rw [hd] at h0
  refine ⟨h0.1, h0.2, fun ks' hks' => ?_⟩
  obtain ⟨h1, h2⟩ := h (ks ++ ks') (by rw [List.length_append]; omega)
  rw [drawIds_append, hd] at h1 h2
  obtain ⟨-, h3, h4⟩ := List.nodup_append.1 h1
  refine ⟨h3, fun id hid hmem => ?_⟩
  rcases List.mem_append.1 hmem with hmem | hmem
  · exact h2 id (List.mem_append_right _ hid) hmem
  · exact h4 id hmem id hid rfl

/-- No identifier is given by the next draws of both sources, up to a number of them from each. -/
def Apart {τ : Type} (source : IdSource σ) (s : σ) (source' : IdSource τ) (s' : τ)
    (n : Nat) : Prop :=
  ∀ ks ks' : List IdKind, ks.length ≤ n → ks'.length ≤ n →
    ∀ id ∈ (source.drawIds ks s).1, id ∉ (source'.drawIds ks' s').1

/-- Until the counter wraps, draws give numbers one after another. -/
theorem sequential_drawAll (ks : List IdKind) (c : UInt64) (h : c.toNat + ks.length ≤ UInt64.size) :
    (sequential.drawAll ks c).1 =
      (List.range ks.length).map fun i => Uuid.ofNat (c.toNat + i + 1) := by
  induction ks generalizing c with
  | nil => rfl
  | cons k ks ih =>
    rw [List.length_cons, List.range_succ_eq_map, List.map_cons, List.map_map]
    show Uuid.ofNat (c.toNat + 1) :: (sequential.drawAll ks (c + 1)).1 = _
    congr 1
    cases ks with
    | nil => rfl
    | cons k' ks =>
      rw [List.length_cons, List.length_cons] at h
      have hc : (c + 1).toNat = c.toNat + 1 := by
        rw [UInt64.toNat_add]
        exact Nat.mod_eq_of_lt (show c.toNat + 1 < UInt64.size by omega)
      rw [ih (c + 1) (by rw [hc, List.length_cons]; omega), hc]
      apply List.map_congr_left
      intro i _
      simp only [Function.comp, Nat.succ_eq_add_one]
      congr 1
      omega

/-- The numbers drawn lie above the counter, by no more than the number of draws. -/
theorem toNat_of_mem_sequential {ks : List IdKind} {c : UInt64} {id : AnyId}
    (h : c.toNat + ks.length ≤ UInt64.size) (hid : id ∈ (sequential.drawIds ks c).1) :
    c.toNat < id.uuid.bits.toNat ∧ id.uuid.bits.toNat ≤ c.toNat + ks.length := by
  have hmem : id.uuid ∈ (sequential.drawAll ks c).1 := List.mem_map_of_mem hid
  rw [sequential_drawAll ks c h] at hmem
  obtain ⟨i, hi, hnum⟩ := List.mem_map.1 hmem
  rw [List.mem_range] at hi
  rw [← hnum, Uuid.toNat_ofNat (by omega)]
  omega

/-- Counting on from its counter, the source is fresh as long as none of the numbers is in use. -/
theorem sequential_freshFor {n : Nat} {used : List AnyId} {c : UInt64}
    (h : c.toNat + n ≤ UInt64.size)
    (hused : ∀ id ∈ used, id.uuid.bits.toNat ≤ c.toNat ∨ c.toNat + n < id.uuid.bits.toNat) :
    sequential.FreshFor n used c := by
  intro ks hks
  constructor
  · apply List.Nodup.of_map AnyId.uuid
    show (sequential.drawAll ks c).1.Nodup
    rw [sequential_drawAll ks c (by omega), List.nodup_iff_pairwise_ne, List.pairwise_map]
    refine List.nodup_range.imp_of_mem fun {i j} hi hj hne heq => hne ?_
    rw [List.mem_range] at hi hj
    have hval := congrArg (fun u : Uuid => u.bits.toNat) heq
    simp only [Uuid.toNat_ofNat (show c.toNat + i + 1 ≤ UInt64.size by omega),
      Uuid.toNat_ofNat (show c.toNat + j + 1 ≤ UInt64.size by omega)] at hval
    omega
  · intro id hid hmem
    have hdrawn := toNat_of_mem_sequential (by omega) hid
    have hother := hused id hmem
    omega

/-- Two counters are apart if the first does not come to where the second began. -/
theorem sequential_apart {n : Nat} {c c' : UInt64} (h : c.toNat + n ≤ c'.toNat)
    (h' : c'.toNat + n ≤ UInt64.size) : sequential.Apart c sequential c' n := by
  intro ks ks' hks hks' id hid hid'
  have hdrawn := toNat_of_mem_sequential (by omega) hid
  have hdrawn' := toNat_of_mem_sequential (by omega) hid'
  omega

end IdSource
end NameRegistry
