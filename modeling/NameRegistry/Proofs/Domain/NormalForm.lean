import NameRegistry.Proofs.Domain

/-! # The normal form of a domain

A domain is built exactly if what it needs is there and fits together. It keeps what the draft says,
but for the order of the grace periods and the implicit statuses, which have one right value each.
So of the drafts that differ in these only, all give the same domain or none gives any, and a
domain's own draft is one of them.
-/
namespace NameRegistry.Registration

open Billing (GracePeriod)

/-- A name with a label under a top-level domain, as a text. -/
theorem isUnder_labeled_iff {name : String} {tld : Tld} : IsUnder name tld ∧ ¬LabelEmpty name tld ↔
    ∃ label, label ≠ "" ∧ name = label ++ "." ++ tld.text := by
  have hdot : ".".toList = ['.'] := rfl
  constructor
  · rintro ⟨⟨label, hname⟩, hlabeled⟩
    refine ⟨String.ofList label, fun hempty => hlabeled ?_, String.toList_inj.1 ?_⟩
    · obtain rfl : label = [] := by simpa using hempty
      exact hname.symm
    · simp [hdot, ← hname]
  · rintro ⟨label, hne, rfl⟩
    have htext : (label ++ "." ++ tld.text).toList = label.toList ++ '.' :: tld.text.toList := by
      simp [hdot]
    refine ⟨⟨label.toList, htext.symm⟩, fun hempty => hne ?_⟩
    rw [LabelEmpty, htext] at hempty
    exact String.toList_inj.1 (List.append_left_eq_self.1 hempty)

/-- Only the explicit statuses matter. -/
theorem StatusSet.withImplicit_congr {statuses statuses' : StatusSet} (hasNameservers : Bool)
    (h : ∀ s, s.isImplicit = false → (s ∈ statuses ↔ s ∈ statuses')) :
    statuses.withImplicit hasNameservers = statuses'.withImplicit hasNameservers := by
  have hall : (∀ s ∈ statuses, s.isImplicit = true) ↔ ∀ s ∈ statuses', s.isImplicit = true := by
    apply forall_congr'
    intro s
    cases hs : s.isImplicit with
    | false => rw [h s hs]
    | true => simp
  ext s
  rw [mem_withImplicit, mem_withImplicit, hall]
  exact or_congr_left (and_congr_left (h s))

namespace Domain

theorem isEmpty_nameservers_iff (d : Domain) :
    d.nameservers.isEmpty = true ↔ ¬∃ host, host ∈ d.nameservers := by
  rw [SortedSet.isEmpty, List.isEmpty_iff, List.eq_nil_iff_forall_not_mem, not_exists]
  rfl

theorem mem_statuses_iff (d : Domain) (s : StatusValue) : s ∈ d.statuses ↔
    (s ∈ d.statuses ∧ s.isImplicit = false) ∨ (s = .inactive ∧ ¬∃ host, host ∈ d.nameservers) ∨
      (s = .ok ∧ (∃ host, host ∈ d.nameservers) ∧ ∀ t ∈ d.statuses, t.isImplicit = true) := by
  have hdelegated : d.nameservers.isEmpty = false ↔ ∃ host, host ∈ d.nameservers := by
    rw [← Bool.not_eq_true, isEmpty_nameservers_iff, Classical.not_not]
  have h := @StatusSet.mem_withImplicit d.statuses (!d.nameservers.isEmpty) s
  rw [d.statuses_implicit, Bool.not_eq_false', Bool.not_eq_true', isEmpty_nameservers_iff,
    hdelegated] at h
  exact h

/-- A domain is inactive exactly if it has no nameserver. -/
theorem inactive_mem_iff (d : Domain) : .inactive ∈ d.statuses ↔ ¬∃ host, host ∈ d.nameservers := by
  rw [mem_statuses_iff]
  simp [StatusValue.isImplicit]

/-- A domain is ok exactly if it has a nameserver and no other status. -/
theorem ok_mem_iff (d : Domain) :
    .ok ∈ d.statuses ↔ (∃ host, host ∈ d.nameservers) ∧ ∀ s ∈ d.statuses, s = .ok := by
  have hok : .ok ∈ d.statuses ↔
      (∃ host, host ∈ d.nameservers) ∧ ∀ s ∈ d.statuses, s.isImplicit = true := by
    rw [mem_statuses_iff]
    simp [StatusValue.isImplicit]
  rw [hok]
  refine and_congr_right fun hdelegated => forall₂_congr fun s hs => ?_
  constructor
  · intro himplicit
    rcases (mem_statuses_iff d s).1 hs with ⟨-, hexplicit⟩ | ⟨-, hundelegated⟩ | ⟨hs, -⟩
    · rw [himplicit] at hexplicit
      cases hexplicit
    · exact absurd hdelegated hundelegated
    · exact hs
  · rintro rfl
    rfl

namespace Draft

/-- What a draft has to give, and what has to hold of it. -/
structure WellFormed (x : Draft) : Prop where
  repoId : ∃ r ∈ x.repoId, r.text ≠ "" ∧ ∀ g ∈ x.gracePeriods, g.domainRepoId = r
  sponsor : ∃ r ∈ x.sponsor, r.text ≠ ""
  name : ∃ name ∈ x.name, ∃ tld ∈ x.tld, ∃ label, label ≠ "" ∧ name = label ++ "." ++ tld.text
  times : ∃ created ∈ x.creationTime, ∃ expiration ∈ x.expirationTime, created ≤ expiration
  autorenewEvent : x.autorenewEvent.isSome
  transfer : x.transfer.isPending = true → x.transfer.request?.isSome ∧ x.transfer.approval?.isSome
  distinct : (x.gracePeriods.map (·.id)).Nodup

/-- The drafts differ in the order of their grace periods and in implicit statuses at most. -/
structure Resembles (x y : Draft) : Prop where
  rest : y = { x with statuses := y.statuses, gracePeriods := y.gracePeriods }
  statuses : ∀ s, s.isImplicit = false → (s ∈ x.statuses ↔ s ∈ y.statuses)
  gracePeriods : x.gracePeriods.Perm y.gracePeriods

variable {x y : Draft}

theorem resembles_normal (x : Draft) : x.Resembles x.normal where
  rest := rfl
  statuses _ h := (StatusSet.mem_withImplicit_of_explicit h).symm
  gracePeriods := (GraceOrder.sort_perm _).symm

namespace Resembles

theorem symm (h : x.Resembles y) : y.Resembles x where
  rest := by rw [h.rest]
  statuses s hs := (h.statuses s hs).symm
  gracePeriods := h.gracePeriods.symm

theorem nameservers (h : x.Resembles y) : y.nameservers = x.nameservers := by rw [h.rest]

theorem distinct_iff (h : x.Resembles y) :
    (x.gracePeriods.map (·.id)).Nodup ↔ (y.gracePeriods.map (·.id)).Nodup :=
  (h.gracePeriods.map _).nodup_iff

theorem normal_eq (h : x.Resembles y) (hdistinct : (x.gracePeriods.map (·.id)).Nodup) :
    x.normal = y.normal := by
  rw [h.rest, normal, normal, StatusSet.withImplicit_congr _ h.statuses,
    GraceOrder.sort_congr h.gracePeriods hdistinct]

theorem wellFormed (h : x.Resembles y) (hx : x.WellFormed) : y.WellFormed := by
  have hdistinct := h.distinct_iff.1 hx.distinct
  obtain ⟨r, hr, hne, howned⟩ := hx.repoId
  have howned : ∀ g ∈ y.gracePeriods, g.domainRepoId = r :=
    fun g hg => howned g (h.gracePeriods.mem_iff.2 hg)
  rw [h.rest]
  exact { hx with
    repoId := ⟨r, hr, hne, howned⟩
    distinct := hdistinct }

end Resembles

/-- A pending transfer holds its request and what its approval puts in force. -/
theorem parts_of_isPending {t : TransferData} (h : t.isPending = true) :
    t.request?.isSome ∧ t.approval?.isSome := by
  cases t with
  | pending p => exact ⟨rfl, rfl⟩
  | empty => cases h
  | resolved how request approval => cases h

theorem wellFormed_toDraft (d : Domain) : d.toDraft.WellFormed where
  repoId := ⟨d.repoId, rfl, by simpa [Code.isEmpty] using d.repoId_ne, d.grace_owned⟩
  sponsor := ⟨d.sponsor, rfl, by simpa [Code.isEmpty] using d.sponsor_ne⟩
  name := ⟨d.name, rfl, d.tld, rfl, isUnder_labeled_iff.1 ⟨d.under_tld, d.label_ne⟩⟩
  times := ⟨d.creationTime, rfl, d.expirationTime, rfl, d.created_le⟩
  autorenewEvent := rfl
  transfer := parts_of_isPending
  distinct := d.grace_distinct

theorem WellFormed.exists_build (h : x.WellFormed) : ∃ d, x.build = .ok d := by
  obtain ⟨r, hr, hr_ne, howned⟩ := h.repoId
  obtain ⟨sponsor, hsponsor, hsponsor_ne⟩ := h.sponsor
  obtain ⟨name, hname, tld, htld, hlabel⟩ := h.name
  obtain ⟨hunder, hlabel_ne⟩ := isUnder_labeled_iff.2 hlabel
  obtain ⟨created, hcreated, expiration, hexpiration, hle⟩ := h.times
  obtain ⟨event, hevent⟩ := Option.isSome_iff_exists.1 h.autorenewEvent
  have hr_ne : r.isEmpty = false := by simpa [Code.isEmpty] using hr_ne
  have hsponsor_ne : sponsor.isEmpty = false := by simpa [Code.isEmpty] using hsponsor_ne
  simp only [build, bind_eq_ok, field_eq_ok]
  exact ⟨_, r, hr, name, hname, tld, htld, created, hcreated, expiration, hexpiration,
    sponsor, hsponsor, event, hevent, ⟨hr_ne⟩, ensure_of hr_ne _, ⟨hsponsor_ne⟩,
    ensure_of hsponsor_ne _, ⟨hunder⟩, ensure_of hunder _, ⟨hlabel_ne⟩, ensure_of hlabel_ne _,
    ⟨hle⟩, ensure_of hle _, ⟨howned⟩, checkOwner_of howned, ⟨h.distinct⟩,
    checkDistinct_of h.distinct, rfl⟩

/-- A domain's own draft says what the draft says that it was built from. -/
theorem resembles_of_build {d : Domain} (h : x.build = .ok d) : d.toDraft.Resembles x := by
  rw [build_eq_ok.1 h]
  exact (resembles_normal x).symm

theorem exists_build_iff : (∃ d, x.build = .ok d) ↔ x.WellFormed := by
  constructor
  · rintro ⟨d, h⟩
    exact (resembles_of_build h).wellFormed (wellFormed_toDraft d)
  · exact WellFormed.exists_build

/-- Drafts that resemble one another are built into the same domain, or none is. -/
theorem Resembles.build (h : x.Resembles y) {d : Domain} (hd : x.build = .ok d) :
    y.build = .ok d := by
  have hdistinct := (exists_build_iff.1 ⟨d, hd⟩).distinct
  rw [build_eq_ok] at hd ⊢
  rw [hd, h.normal_eq hdistinct]

theorem Resembles.toOption_build (h : x.Resembles y) : x.build.toOption = y.build.toOption := by
  cases hx : x.build with
  | ok d => rw [h.build hx]
  | error e =>
    cases hy : y.build with
    | ok d => exact absurd (hx.symm.trans (h.symm.build hy)) (by simp)
    | error e' => rfl

/-- A domain is built exactly if its draft is well-formed. It then is in normal form: its own draft
says what the other said, its grace periods are in order and its implicit statuses are right, and
its own draft is built into it again. Drafts that differ in the order of the grace periods and in
implicit statuses give one domain or none. -/
theorem build_normal_form (x : Draft) :
    ((∃ d, x.build = .ok d) ↔ x.WellFormed) ∧
      (∀ d, x.build = .ok d →
        d.toDraft.Resembles x ∧ d.gracePeriods.Pairwise endsBefore ∧
          (.inactive ∈ d.statuses ↔ ¬∃ host, host ∈ d.nameservers) ∧
          (.ok ∈ d.statuses ↔ (∃ host, host ∈ d.nameservers) ∧ ∀ s ∈ d.statuses, s = .ok) ∧
          d.toDraft.build = .ok d) ∧
      ∀ y, x.Resembles y → x.build.toOption = y.build.toOption := by
  refine ⟨exists_build_iff, fun d h => ?_, fun y h => h.toOption_build⟩
  exact ⟨resembles_of_build h, d.grace_sorted, d.inactive_mem_iff, d.ok_mem_iff, build_toDraft d⟩

end Draft
end Domain

namespace Sample

/-- A grace period that is over from the start of time on. -/
def addGrace (id : Nat) : GracePeriod where
  id := ⟨.ofNat id⟩
  status := .add
  domainRepoId := ⟨"3-TEST"⟩
  expirationTime := .epoch
  registrarId := ⟨"losing"⟩
  oneTimeEvent := none
  recurringEvent := none
  one_event := by decide
  recurring_iff := by decide
  repoId_ne := by decide

/-- A draft without nameservers, with the given grace periods and statuses. -/
def draft (gracePeriods : List GracePeriod) (statuses : StatusSet) : Domain.Draft where
  repoId := some ⟨"3-TEST"⟩
  name := some "example.test"
  tld := some ⟨"test"⟩
  creationTime := some .epoch
  expirationTime := some .epoch
  statuses := statuses
  sponsor := some ⟨"losing"⟩
  autorenewEvent := some ⟨.ofNat 3⟩
  gracePeriods := gracePeriods

end Sample

/-- Two grace periods that end together and an outdated status are put right, whichever comes
first. -/
theorem Domain.Draft.build_normal_form_sample :
    let x := Sample.draft [Sample.addGrace 2, Sample.addGrace 1] (.ofList [.ok])
    let y := Sample.draft [Sample.addGrace 1, Sample.addGrace 2] .empty
    ∃ d, x.WellFormed ∧ x.Resembles y ∧ x.build = .ok d ∧ y.build.toOption = some d ∧
      d.gracePeriods = y.gracePeriods ∧ .inactive ∈ d.statuses ∧ .ok ∉ d.statuses := by
  intro x y
  obtain ⟨hbuilds, hbuilt, hsame⟩ := build_normal_form x
  have hx : x.WellFormed :=
    ⟨⟨_, rfl, by decide, by decide⟩, ⟨_, rfl, by decide⟩,
      ⟨_, rfl, _, rfl, "example", by decide, by decide⟩, ⟨_, rfl, _, rfl, by decide⟩, rfl,
      nofun, by decide⟩
  have hxy : x.Resembles y := ⟨rfl, fun s => by cases s <;> decide, .swap ..⟩
  obtain ⟨d, hd⟩ := hbuilds.2 hx
  obtain ⟨hresembles, hsorted, hinactive, hok, -⟩ := hbuilt d hd
  have hundelegated : ¬∃ host, host ∈ d.nameservers := by
    rintro ⟨host, hhost⟩
    have hnone : host ∈ x.nameservers := by rwa [hresembles.nameservers]
    exact SortedSet.not_mem_empty hnone
  have horder : y.gracePeriods.Pairwise endsBefore := List.pairwise_pair.2 (.inr ⟨rfl, by decide⟩)
  have hgraces :=
    GraceOrder.eq_of_perm (hresembles.gracePeriods.trans hxy.gracePeriods) hsorted horder
  exact ⟨d, hx, hxy, hd, (hsame y hxy).symm.trans (congrArg _ hd), hgraces,
    hinactive.2 hundelegated,
    fun h => hundelegated (hok.1 h).1⟩

end NameRegistry.Registration
