import NameRegistry.Registration.Domain.Draft

/-! # The grace periods of a domain

Two domains are compared as drafts, which carry no proofs. Grace periods with distinct identifiers
have one order only, so it does not matter whether they are put in order once or after each of
several additions, nor whether those that are over are dropped before or after.
-/
namespace NameRegistry.Registration

open Billing (GracePeriod)

namespace GraceOrder

theorem endsBefore_asymm {a b : GracePeriod} (h : endsBefore a b)
    (h' : endsBefore b a) : a = b := by
  rcases h with h | ⟨h1, h2⟩ <;> rcases h' with h' | ⟨h3, h4⟩
  · exact absurd (Int.lt_trans h h') (Int.lt_irrefl _)
  · exact absurd (h3 ▸ h) (Int.lt_irrefl _)
  · exact absurd (h1 ▸ h') (Int.lt_irrefl _)
  · exact absurd (BitVec.lt_trans h2 h4) (BitVec.lt_irrefl _)

/-- There is only one way to put grace periods in order. -/
theorem eq_of_perm {l m : List GracePeriod} (hp : l.Perm m) (hl : l.Pairwise endsBefore)
    (hm : m.Pairwise endsBefore) : l = m :=
  hp.eq_of_pairwise (fun _ _ _ _ => endsBefore_asymm) hl hm

theorem sort_congr {l m : List GracePeriod} (hp : l.Perm m) (h : (l.map (·.id)).Nodup) :
    sort l = sort m := by
  have hm : (m.map (·.id)).Nodup := ((hp.map _).nodup_iff).1 h
  exact eq_of_perm ((sort_perm l).trans (hp.trans (sort_perm m).symm)) (sort_sorted h)
    (sort_sorted hm)

/-- Putting some in order first does not matter. -/
theorem sort_sort_append {l m : List GracePeriod} (h : ((l ++ m).map (·.id)).Nodup) :
    sort (sort l ++ m) = sort (l ++ m) :=
  (sort_congr ((sort_perm l).symm.append_right m) h).symm

theorem filter_sort (p : GracePeriod → Bool) {l : List GracePeriod} (h : (l.map (·.id)).Nodup) :
    (sort l).filter p = sort (l.filter p) := by
  have hf : ((l.filter p).map (·.id)).Nodup := (List.filter_sublist.map _).nodup h
  exact eq_of_perm (((sort_perm l).filter p).trans (sort_perm _).symm)
    ((sort_sorted h).sublist List.filter_sublist) (sort_sorted hf)

end GraceOrder

namespace Domain

theorem toDraft_inj {d d' : Domain} (h : d.toDraft = d'.toDraft) : d = d' := by
  have hb := build_toDraft d
  rw [h, build_toDraft] at hb
  exact (Except.ok.inj hb).symm

/-- The domain with other grace periods, which are its own and in order. -/
def withGracePeriods (d : Domain) (gs : List GracePeriod)
    (howned : ∀ g ∈ gs, g.domainRepoId = d.repoId) (hsorted : gs.Pairwise endsBefore)
    (hdistinct : (gs.map (·.id)).Nodup) : Domain :=
  { d with
    gracePeriods := gs
    grace_owned := howned
    grace_sorted := hsorted
    grace_distinct := hdistinct }

/-- The domain less the grace periods that are over by the given time. -/
def lapse (d : Domain) (t : Instant) : Domain :=
  d.withGracePeriods (d.gracePeriods.filter (·.activeAt t))
    (fun g hg => d.grace_owned g (List.mem_filter.1 hg).1)
    (d.grace_sorted.sublist List.filter_sublist)
    ((List.filter_sublist.map _).nodup d.grace_distinct)

@[simp] theorem gracePeriods_lapse (d : Domain) (t : Instant) :
    (d.lapse t).gracePeriods = d.gracePeriods.filter (·.activeAt t) := rfl

@[simp] theorem expirationTime_lapse (d : Domain) (t : Instant) :
    (d.lapse t).expirationTime = d.expirationTime := rfl

theorem toDraft_lapse (d : Domain) (t : Instant) :
    (d.lapse t).toDraft = { d.toDraft with gracePeriods := d.gracePeriods.filter (·.activeAt t) } :=
  rfl

/-- Domains that differ in their grace periods only, and agree on those in effect. -/
theorem lapse_eq_iff {d d' : Domain} {t : Instant} : d.lapse t = d'.lapse t ↔
    { d.toDraft with gracePeriods := [] } = { d'.toDraft with gracePeriods := [] } ∧
      d.gracePeriods.filter (·.activeAt t) = d'.gracePeriods.filter (·.activeAt t) := by
  constructor
  · intro h
    have ht : (d.lapse t).toDraft = (d'.lapse t).toDraft := congrArg toDraft h
    exact ⟨congrArg (fun x : Draft => { x with gracePeriods := [] }) ht,
      congrArg Draft.gracePeriods ht⟩
  · rintro ⟨h1, h2⟩
    apply toDraft_inj
    rw [toDraft_lapse, toDraft_lapse, h2]
    exact congrArg (fun x : Draft =>
      { x with gracePeriods := d'.gracePeriods.filter (·.activeAt t) }) h1

/-- What is all in effect stays as it is. -/
theorem lapse_eq_self {d : Domain} {t : Instant} (h : ∀ g ∈ d.gracePeriods, g.activeAt t = true) :
    d.lapse t = d := by
  apply toDraft_inj
  rw [toDraft_lapse, List.filter_eq_self.2 h]
  rfl

theorem activeAt_of_le {g : GracePeriod} {t t' : Instant} (h : g.activeAt t' = true)
    (hle : t ≤ t') : g.activeAt t = true := by
  simp only [GracePeriod.activeAt, decide_eq_true_eq] at h ⊢
  exact Int.lt_of_le_of_lt hle h

/-- Dropping at one time and then at a later one is dropping at the later one. -/
theorem lapse_lapse (d : Domain) {t t' : Instant} (h : t ≤ t') :
    (d.lapse t).lapse t' = d.lapse t' := by
  rw [lapse_eq_iff, gracePeriods_lapse, List.filter_filter]
  refine ⟨rfl, List.filter_congr fun g _ => ?_⟩
  cases hg : g.activeAt t' with
  | false => rfl
  | true => simp [activeAt_of_le hg h]

end Domain
end NameRegistry.Registration
