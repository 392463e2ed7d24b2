import NameRegistry.Registration.Domain

/-! # Putting a domain together

A draft holds the values of a domain before they are checked. Building it puts the grace periods in
order and derives the implicit statuses, or names the first rule that is broken.
-/
namespace NameRegistry.Registration

open Billing (GracePeriod)

namespace GraceOrder

/-- The order of grace periods as a test. -/
def le (a b : GracePeriod) : Bool :=
  a.expirationTime < b.expirationTime ||
    (a.expirationTime = b.expirationTime && a.id.key ≤ b.id.key)

theorem le_iff {a b : GracePeriod} : le a b = true ↔
    a.expirationTime.ticks < b.expirationTime.ticks ∨
      a.expirationTime.ticks = b.expirationTime.ticks ∧ a.id.key ≤ b.id.key := by
  simp only [le, Bool.or_eq_true, Bool.and_eq_true, decide_eq_true_eq, Instant.lt_iff]
  constructor
  · rintro (h | ⟨h, h'⟩)
    · exact .inl h
    · exact .inr ⟨congrArg _ h, h'⟩
  · rintro (h | ⟨h, h'⟩)
    · exact .inl h
    · exact .inr ⟨Instant.ext h, h'⟩

theorem le_trans (a b c : GracePeriod) (h1 : le a b = true) (h2 : le b c = true) :
    le a c = true := by
  rw [le_iff] at *
  omega

theorem le_total (a b : GracePeriod) : (le a b || le b a) = true := by
  rw [Bool.or_eq_true, le_iff, le_iff]
  omega

def sort (gs : List GracePeriod) : List GracePeriod := gs.mergeSort le

theorem sort_perm (gs : List GracePeriod) : (sort gs).Perm gs := List.mergeSort_perm ..

theorem mem_sort {gs : List GracePeriod} {g : GracePeriod} : g ∈ sort gs ↔ g ∈ gs :=
  (sort_perm gs).mem_iff

theorem nodup_sort {gs : List GracePeriod} (h : (gs.map (·.id)).Nodup) :
    ((sort gs).map (·.id)).Nodup :=
  (((sort_perm gs).map _).nodup_iff).2 h

theorem nodup_of_sort {gs : List GracePeriod} (h : ((sort gs).map (·.id)).Nodup) :
    (gs.map (·.id)).Nodup :=
  (((sort_perm gs).map _).nodup_iff).1 h

theorem endsBefore_of_le {a b : GracePeriod} (h : le a b = true) (hne : a.id ≠ b.id) :
    endsBefore a b := by
  rcases le_iff.1 h with h | ⟨h1, h2⟩
  · exact .inl h
  · refine .inr ⟨Instant.ext h1, ?_⟩
    have : a.id.key ≠ b.id.key := fun e => hne (Id.key_inj.1 e)
    show a.id.uuid.bits < b.id.uuid.bits
    rw [BitVec.lt_def]
    exact Nat.lt_of_le_of_ne h2 this

theorem le_of_endsBefore {a b : GracePeriod} (h : endsBefore a b) : le a b = true := by
  rw [le_iff]
  rcases h with h | ⟨h1, h2⟩
  · exact .inl h
  · exact .inr ⟨congrArg _ h1, Nat.le_of_lt (BitVec.lt_def.1 h2)⟩

theorem sort_sorted {gs : List GracePeriod} (h : (gs.map (·.id)).Nodup) :
    (sort gs).Pairwise endsBefore := by
  have h1 : (sort gs).Pairwise fun a b => le a b = true :=
    List.pairwise_mergeSort le_trans le_total gs
  have h2 : (sort gs).Pairwise fun a b => a.id ≠ b.id := List.pairwise_map.1 (nodup_sort h)
  exact (h1.and h2).imp fun ⟨h, hne⟩ => endsBefore_of_le h hne

/-- What is in order already stays as it is. -/
theorem sort_eq_self {gs : List GracePeriod} (h : gs.Pairwise endsBefore) : sort gs = gs :=
  List.mergeSort_of_pairwise (h.imp le_of_endsBefore)

end GraceOrder

namespace Domain

structure Draft where
  repoId : Option RepoId := none
  name : Option String := none
  tld : Option Tld := none
  creationTime : Option Instant := none
  expirationTime : Option Instant := none
  statuses : StatusSet := .empty
  nameservers : SortedSet String := .empty
  sponsor : Option RegistrarId := none
  autorenewEvent : Option BillingEventId := none
  autorenewPollMessage : Option PollMessageId := none
  autorenewEndTime : Option Instant := none
  gracePeriods : List GracePeriod := []
  transfer : TransferData := .empty
  lastUpdateTime : Option Instant := none
  lastUpdateRegistrar : Option RegistrarId := none
  lastTransferTime : Option Instant := none
  deletionTime : Option Instant := none
  deriving DecidableEq

/-- The draft that gives the domain back. -/
def toDraft (d : Domain) : Draft where
  repoId := some d.repoId
  name := some d.name
  tld := some d.tld
  creationTime := some d.creationTime
  expirationTime := some d.expirationTime
  statuses := d.statuses
  nameservers := d.nameservers
  sponsor := some d.sponsor
  autorenewEvent := some d.autorenewEvent
  autorenewPollMessage := d.autorenewPollMessage
  autorenewEndTime := d.autorenewEndTime
  gracePeriods := d.gracePeriods
  transfer := d.transfer
  lastUpdateTime := d.lastUpdateTime
  lastUpdateRegistrar := d.lastUpdateRegistrar
  lastTransferTime := d.lastTransferTime
  deletionTime := d.deletionTime

namespace Draft

/-- Notes who changed the domain last, and when. -/
def updatedBy (d : Draft) (time : Instant) (registrar : Option RegistrarId) : Draft :=
  { d with lastUpdateTime := some time, lastUpdateRegistrar := registrar }

def addGracePeriod (d : Draft) (g : GracePeriod) : Draft :=
  { d with gracePeriods := d.gracePeriods ++ [g] }

/-- All grace periods are the domain's own; the first that is not is reported. -/
def checkOwner (gs : List GracePeriod) (repoId : RepoId) :
    Except RegistrationError (PLift (∀ g ∈ gs, g.domainRepoId = repoId)) :=
  match h : gs.find? fun g => g.domainRepoId ≠ repoId with
  | some g => .error (.invariantViolation (.gracePeriodBelongs g.id g.domainRepoId))
  | none => .ok ⟨fun g hg => by simpa using List.find?_eq_none.1 h g hg⟩

def checkDistinct (gs : List GracePeriod) :
    Except RegistrationError (PLift (gs.map (·.id)).Nodup) :=
  ensure (gs.map (·.id)).Nodup (.invariantViolation .gracePeriodsDistinct)

def build (d : Draft) : Except RegistrationError Domain := do
  let repoId ← field d.repoId "repo_id"
  let name ← field d.name "domain_name"
  let tld ← field d.tld "tld"
  let creationTime ← field d.creationTime "creation_time"
  let expirationTime ← field d.expirationTime "registration_expiration_time"
  let sponsor ← field d.sponsor "current_sponsor_registrar_id"
  let autorenewEvent ← field d.autorenewEvent "autorenew_billing_event"
  let ⟨repoId_ne⟩ ← ensure (repoId.isEmpty = false) (.missingField "repo_id")
  let ⟨sponsor_ne⟩ ← ensure (sponsor.isEmpty = false) (.missingField "current_sponsor_registrar_id")
  let ⟨under_tld⟩ ← ensure (IsUnder name tld) (.invariantViolation (.nameUnderTld name tld))
  let ⟨label_ne⟩ ← ensure (¬LabelEmpty name tld) (.invariantViolation .labelNotEmpty)
  let ⟨created_le⟩ ← ensure (creationTime ≤ expirationTime)
    (.invariantViolation .expiresAfterCreation)
  let ⟨owned⟩ ← checkOwner d.gracePeriods repoId
  let ⟨distinct⟩ ← checkDistinct d.gracePeriods
  return {
    repoId := repoId
    name := name
    tld := tld
    creationTime := creationTime
    expirationTime := expirationTime
    statuses := d.statuses.withImplicit (!d.nameservers.isEmpty)
    nameservers := d.nameservers
    sponsor := sponsor
    autorenewEvent := autorenewEvent
    autorenewPollMessage := d.autorenewPollMessage
    autorenewEndTime := d.autorenewEndTime
    gracePeriods := GraceOrder.sort d.gracePeriods
    transfer := d.transfer
    lastUpdateTime := d.lastUpdateTime
    lastUpdateRegistrar := d.lastUpdateRegistrar
    lastTransferTime := d.lastTransferTime
    deletionTime := d.deletionTime
    repoId_ne := repoId_ne
    sponsor_ne := sponsor_ne
    under_tld := under_tld
    label_ne := label_ne
    created_le := created_le
    grace_owned := fun g hg => owned g (GraceOrder.mem_sort.1 hg)
    grace_sorted := GraceOrder.sort_sorted distinct
    grace_distinct := GraceOrder.nodup_sort distinct
    statuses_implicit := StatusSet.withImplicit_withImplicit .. }

theorem checkOwner_of {gs : List GracePeriod} {repoId : RepoId}
    (h : ∀ g ∈ gs, g.domainRepoId = repoId) : checkOwner gs repoId = .ok ⟨h⟩ := by
  fun_cases checkOwner gs repoId with
  | case1 g hg =>
    have hforeign := List.find?_some hg
    exact absurd (h g (List.mem_of_find?_eq_some hg)) (of_decide_eq_true hforeign)
  | case2 hnone => rfl

theorem checkDistinct_of {gs : List GracePeriod} (h : (gs.map (·.id)).Nodup) :
    checkDistinct gs = .ok ⟨h⟩ := ensure_of h _

/-- The draft with its grace periods in order and its implicit statuses derived. -/
def normal (x : Draft) : Draft :=
  { x with
    statuses := x.statuses.withImplicit (!x.nameservers.isEmpty)
    gracePeriods := GraceOrder.sort x.gracePeriods }

/-- A draft is built into the domain that it is the normal form of. -/
theorem build_eq_ok {x : Draft} {d : Domain} : x.build = .ok d ↔ d.toDraft = x.normal := by
  constructor
  · intro h
    simp only [build, bind_eq_ok, field_eq_ok, pure, Except.pure, Except.ok.injEq] at h
    obtain ⟨repoId, h1, name, h2, tld, h3, creation, h4, expiration, h5, sponsor, h6,
      event, h7, h⟩ := h
    obtain ⟨⟨_⟩, -, ⟨_⟩, -, ⟨_⟩, -, ⟨_⟩, -, ⟨_⟩, -, ⟨_⟩, -, ⟨_⟩, -, rfl⟩ := h
    simp only [toDraft, normal, ← h1, ← h2, ← h3, ← h4, ← h5, ← h6, ← h7]
  · intro h
    cases x with | mk =>
    simp only [toDraft, normal, mk.injEq] at h
    obtain ⟨rfl, rfl, rfl, rfl, rfl, hs, rfl, rfl, rfl, rfl, rfl, hg, rfl, rfl, rfl, rfl, rfl⟩ := h
    have howned := d.grace_owned
    have hdistinct := d.grace_distinct
    rw [hg] at howned hdistinct
    refine (bind_of_ok (ensure_of d.repoId_ne _) _).trans ?_
    refine (bind_of_ok (ensure_of d.sponsor_ne _) _).trans ?_
    refine (bind_of_ok (ensure_of d.under_tld _) _).trans ?_
    refine (bind_of_ok (ensure_of d.label_ne _) _).trans ?_
    refine (bind_of_ok (ensure_of d.created_le _) _).trans ?_
    refine (bind_of_ok (checkOwner_of fun g hmem =>
      howned g (GraceOrder.mem_sort.2 hmem)) _).trans ?_
    refine (bind_of_ok (checkDistinct_of (GraceOrder.nodup_of_sort hdistinct)) _).trans ?_
    simp only [← hs, ← hg]
    rfl

end Draft

/-- A domain is built again from its own draft. -/
theorem build_toDraft (d : Domain) : d.toDraft.build = .ok d := by
  rw [Draft.build_eq_ok]
  simp only [Draft.normal, toDraft, d.statuses_implicit, GraceOrder.sort_eq_self d.grace_sorted]

end Domain
end NameRegistry.Registration
