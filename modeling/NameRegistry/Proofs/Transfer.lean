import Mathlib.Logic.Relation
import NameRegistry.Proofs.Projection.Course
import NameRegistry.Proofs.Record.Registration

/-! # The course of a transfer

A transfer is requested, waits for a decision and is decided, and it may be stored and loaded at any
time. One condition on its status, its request and the references of its approval holds at each of
these points. The loader accepts just what meets it, so it accepts whatever the other operations
make.
-/
namespace NameRegistry.Registration

open Record

/-- The references an approval has a name for. -/
def ServerApproval.named (a : ServerApproval) : List EntityRef :=
  a.billingEvent.toList.map .billingEvent ++ [.billingEvent a.autorenewEvent,
    .pollMessage a.autorenewPollMessage]

/-- The entities of an approval are the references it has a name for, and those that it is given
besides. -/
theorem ServerApproval.mem_of {billingEvent : Option BillingEventId}
    {autorenewEvent : BillingEventId} {poll : PollMessageId} {others : SortedSet EntityRef}
    {e : EntityRef} :
    e ∈ (ServerApproval.of billingEvent autorenewEvent poll others).entities ↔
      e ∈ (ServerApproval.of billingEvent autorenewEvent poll others).named ∨ e ∈ others := by
  cases billingEvent with
  | none =>
    simp only [of, named, SortedSet.mem_insert, Option.toList_none, List.map_nil, List.nil_append,
      List.mem_cons, List.not_mem_nil, or_false]
    grind
  | some id =>
    simp only [of, named, SortedSet.mem_insert, Option.toList_some, List.map_cons, List.map_nil,
      List.cons_append, List.nil_append, List.mem_cons, List.not_mem_nil, or_false]
    grind

theorem ServerApproval.mem_entities_of_named {a : ServerApproval} {e : EntityRef}
    (he : e ∈ a.named) : e ∈ a.entities := by
  rw [← a.of_parts] at he ⊢
  exact mem_of.2 (.inl he)

/-- A request between two registrars whose deadline does not come before it, charged for if and only
if it is for some time. -/
structure TransferRequest.CanWait (request : TransferRequest)
    (approval : ServerApproval) : Prop where
  gaining_ne : request.gainingRegistrarId.isEmpty = false
  losing_ne : request.losingRegistrarId.isEmpty = false
  registrars_ne : request.gainingRegistrarId ≠ request.losingRegistrarId
  requested_le : request.requestTime ≤ request.expirationTime
  charge_iff : approval.billingEvent.isSome ↔ request.period.isZero = false

namespace PendingTransfer

variable {request : TransferRequest} {approval : ServerApproval} {p : PendingTransfer}

theorem canWait (p : PendingTransfer) : p.request.CanWait p.approval :=
  ⟨p.gaining_ne, p.losing_ne, p.registrars_ne, p.requested_le, p.charge_iff⟩

theorem of_eq_ok : of request approval = .ok p ↔
    request.CanWait approval ∧ p.request = request ∧ p.approval = approval := by
  constructor
  · intro h
    simp only [of, bind_eq_ok] at h
    obtain ⟨⟨h1⟩, -, ⟨h2⟩, -, ⟨h3⟩, -, ⟨h4⟩, -, ⟨h5⟩, -, h⟩ := h
    cases h
    exact ⟨⟨h1, h2, h3, h4, h5⟩, rfl, rfl⟩
  · rintro ⟨-, rfl, rfl⟩
    exact p.of_parts

theorem exists_of_eq_ok : (∃ p, of request approval = .ok p) ↔ request.CanWait approval := by
  refine ⟨fun ⟨_, h⟩ => (of_eq_ok.1 h).1, fun h => ?_⟩
  exact ⟨_, of_parts ⟨request, approval, h.gaining_ne, h.losing_ne, h.registrars_ne, h.requested_le,
    h.charge_iff⟩⟩

end PendingTransfer

namespace TransferData

variable {t t' : TransferData} {status : TransferStatus} {request : Option TransferRequest}
  {approval : Option ServerApproval} {time : Instant} {d : Datum}

/-- Whether a request and the references of its approval belong to a status. Those of a transfer
that is decided may be gone, but not its request. -/
def Fit : TransferStatus → Option TransferRequest → Option ServerApproval → Prop
  | .none, request, approval => request = none ∧ approval = none
  | .pending, request, approval => ∃ r a, request = some r ∧ approval = some a ∧ r.CanWait a
  | .resolved _, request, _ => request.isSome

/-- The parts of a transfer fit. -/
def Sound (t : TransferData) : Prop := Fit t.status t.request? t.approval?

theorem Fit.none_iff (h : Fit status request approval) : status = .none ↔ request = none := by
  cases status with
  | none => exact iff_of_true rfl h.1
  | pending =>
    obtain ⟨r, a, rfl, -, -⟩ := h
    simp
  | resolved how =>
    obtain ⟨r, rfl⟩ := Option.isSome_iff_exists.1 h
    simp

/-- A transfer is put together from its own parts, and from these whenever they fit. -/
theorem ofParts_eq_ok : ofParts status request approval = .ok t ↔
    Fit status request approval ∧ t.status = status ∧ t.request? = request ∧
    t.approval? = approval := by
  constructor
  · intro h
    rw [ofParts.eq_def] at h
    split at h
    · cases h
      exact ⟨⟨rfl, rfl⟩, rfl, rfl, rfl⟩
    · cases h
    · next r a =>
      cases hof : PendingTransfer.of r a with
      | error err =>
        rw [hof] at h
        cases h
      | ok p =>
        rw [hof] at h
        cases h
        obtain ⟨hwait, rfl, rfl⟩ := PendingTransfer.of_eq_ok.1 hof
        exact ⟨⟨_, _, rfl, rfl, hwait⟩, rfl, rfl, rfl⟩
    · cases h
    · cases h
    · cases h
      exact ⟨rfl, rfl, rfl, rfl⟩
  · rintro ⟨-, rfl, rfl, rfl⟩
    exact ofParts_parts t

/-- Parts are refused exactly when they do not fit. -/
theorem exists_ofParts_eq_ok :
    (∃ t, ofParts status request approval = .ok t) ↔ Fit status request approval := by
  refine ⟨fun ⟨t, h⟩ => (ofParts_eq_ok.1 h).1, fun h => ?_⟩
  cases status with
  | none =>
    obtain ⟨rfl, rfl⟩ := h
    exact ⟨_, rfl⟩
  | pending =>
    obtain ⟨r, a, rfl, rfl, h⟩ := h
    obtain ⟨p, hof⟩ := PendingTransfer.exists_of_eq_ok.2 h
    exact ⟨.pending p, congrArg (Except.map pending) hof⟩
  | resolved how =>
    obtain ⟨r, rfl⟩ := Option.isSome_iff_exists.1 h
    exact ⟨_, rfl⟩

theorem resolveAs_eq_ok : t.resolveAs status time = .ok t' ↔
    ∃ p how, t = .pending p ∧ status = .resolved how ∧ t' = p.resolve how time := by
  cases t with
  | pending p => cases status <;> simp [resolveAs, eq_comm]
  | _ => simp [resolveAs]

theorem exists_resolveAs_eq_ok : (∃ t', t.resolveAs status time = .ok t') ↔
    t.status = .pending ∧ ∃ how, status = .resolved how := by
  cases t with
  | pending p => cases status <;> simp [resolveAs, TransferData.status]
  | _ => simp [resolveAs, TransferData.status]

/-- A decision changes the status and the time of expiration and leaves the rest. -/
theorem resolveAs_changes (h : t.resolveAs status time = .ok t') : t'.status = status ∧
    t'.request? = t.request?.map (fun r => { r with expirationTime := time }) ∧
    t'.approval? = t.approval? := by
  obtain ⟨p, how, rfl, rfl, rfl⟩ := resolveAs_eq_ok.1 h
  exact ⟨rfl, rfl, rfl⟩

theorem sound_of_resolveAs (h : t.resolveAs status time = .ok t') : t'.Sound := by
  obtain ⟨p, how, rfl, rfl, rfl⟩ := resolveAs_eq_ok.1 h
  exact rfl

theorem sound_of_load (h : load d = .ok t) : t.Sound := by
  obtain ⟨parts, hparts, h⟩ := bind_eq_ok.1 h
  obtain ⟨entries, hread⟩ := Layout.exists_of_load hparts
  simp only [Reading.ap_eq_value, Reading.map_eq_value] at hread
  obtain ⟨-, approval, ⟨-, request, ⟨status, -, rfl⟩, -, rfl⟩, -, rfl⟩ := hread
  cases hof : ofParts status request approval with
  | error err =>
    rw [hof] at h
    cases h
  | ok t =>
    rw [hof] at h
    cases h
    obtain ⟨hfit, rfl, rfl, rfl⟩ := ofParts_eq_ok.1 hof
    exact hfit

/-- The loader refuses a record exactly if its parts do not fit. -/
theorem exists_load_parts (status : TransferStatus) (request : Option TransferRequest)
    (approval : Option ServerApproval) :
    (∃ t : TransferData, load (.object [("status", store status), ("request", store request),
      ("server_approve", store approval)]) = .ok t) ↔ Fit status request approval := by
  rw [load_parts, ← exists_ofParts_eq_ok]
  cases ofParts status request approval <;> simp [Except.mapError]

/-- The transfers there can be, after any number of operations. -/
inductive Reachable : TransferData → Prop
  | empty : Reachable empty
  | pending (request : TransferRequest) (approval : ServerApproval) (p : PendingTransfer) :
      PendingTransfer.of request approval = .ok p → Reachable (pending p)
  | resolveAs (t t' : TransferData) (status : TransferStatus) (time : Instant) :
      Reachable t → t.resolveAs status time = .ok t' → Reachable t'
  | load (d : Datum) (t : TransferData) : load d = .ok t → Reachable t

theorem Reachable.sound (h : Reachable t) : t.Sound := by
  induction h with
  | empty => exact ⟨rfl, rfl⟩
  | pending _ _ _ hof =>
    obtain ⟨hwait, rfl, rfl⟩ := PendingTransfer.of_eq_ok.1 hof
    exact ⟨_, _, rfl, rfl, hwait⟩
  | resolveAs _ _ _ _ _ h => exact sound_of_resolveAs h
  | load _ _ h => exact sound_of_load h

/-- What happens to a transfer that exists: it is decided, or stored and loaded again. -/
inductive Step (t t' : TransferData) : Prop
  | resolveAs (status : TransferStatus) (time : Instant) :
      t.resolveAs status time = .ok t' → Step t t'
  | reload : load (store t) = .ok t' → Step t t'

theorem Step.eq_of_resolved {how : Resolution} (h : Step t t')
    (ht : t.status = .resolved how) : t' = t := by
  cases h with
  | resolveAs _ _ h =>
    have hpending := (exists_resolveAs_eq_ok.1 ⟨t', h⟩).1
    rw [ht] at hpending
    cases hpending
  | reload h =>
    rw [load_store] at h
    exact (Except.ok.inj h).symm

/-- Nothing leads out of a decision. -/
theorem eq_of_resolved {how : Resolution} (h : Relation.ReflTransGen Step t t')
    (ht : t.status = .resolved how) : t' = t := by
  induction h with
  | refl => rfl
  | tail _ hstep ih =>
    subst ih
    exact hstep.eq_of_resolved ht

/-- What holds of every transfer there can be. Its status is none if and only if it has no request,
and then it has no references. While it is pending, its request can wait for a decision. The
references with a name are among the entities. It can be decided if and only if it is pending, by
any of the resolutions, which changes its status and its time of expiration and nothing else; once
decided it stays so. It is loaded as it was stored. Requests are taken if and only if they can wait,
and records are loaded if and only if their parts fit. -/
theorem course_of_transfer (h : Reachable t) :
    (t.status = .none ↔ t.request? = none) ∧
    (t.status = .none → t.approval? = none) ∧
    (t.status = .pending → ∃ request approval,
      t.request? = some request ∧ t.approval? = some approval ∧ request.CanWait approval) ∧
    (∀ approval ∈ t.approval?, ∀ e ∈ approval.named, e ∈ approval.entities) ∧
    (∀ status time, (∃ t', t.resolveAs status time = .ok t') ↔
      t.status = .pending ∧ ∃ how, status = .resolved how) ∧
    (∀ status time t', t.resolveAs status time = .ok t' → t'.status = status ∧
      t'.request? = t.request?.map (fun r => { r with expirationTime := time }) ∧
      t'.approval? = t.approval?) ∧
    (∀ how t', t.status = .resolved how → Relation.ReflTransGen Step t t' → t' = t) ∧
    load (store t) = .ok t ∧
    (∀ request approval, (∃ p, PendingTransfer.of request approval = .ok p) ↔
      request.CanWait approval) ∧
    (∀ status request approval, (∃ t' : TransferData, load (.object [("status", store status),
      ("request", store request), ("server_approve", store approval)]) = .ok t') ↔
        Fit status request approval) := by
  have hsound := h.sound
  refine ⟨hsound.none_iff, ?none, ?pending, ?named, ?decidable, ?changes, ?final,
    load_store t, ?taken, exists_load_parts⟩
  case none =>
    intro hstatus
    rw [Sound, hstatus] at hsound
    exact hsound.2
  case pending =>
    intro hstatus
    rw [Sound, hstatus] at hsound
    exact hsound
  case named => exact fun _ _ _ => ServerApproval.mem_entities_of_named
  case decidable => exact fun _ _ => exists_resolveAs_eq_ok
  case changes => exact fun _ _ _ => resolveAs_changes
  case final => exact fun _ _ ht hsteps => eq_of_resolved hsteps ht
  case taken => exact fun _ _ => PendingTransfer.exists_of_eq_ok

/-- The transfer of the sample domain, decided the day after its deadline, stays so and is loaded as
it was stored. -/
theorem course_of_transfer_sample :
    Reachable (Sample.transfer.resolve .serverApproved Sample.settled) ∧
    (∀ t', Relation.ReflTransGen Step (Sample.transfer.resolve .serverApproved Sample.settled) t' →
      t' = Sample.transfer.resolve .serverApproved Sample.settled) ∧
    load (store (Sample.transfer.resolve .serverApproved Sample.settled)) =
      .ok (Sample.transfer.resolve .serverApproved Sample.settled) := by
  have hrequested : Reachable (.pending Sample.transfer) :=
    .pending Sample.transfer.request Sample.transfer.approval _
      (PendingTransfer.of_eq_ok.2 ⟨Sample.transfer.canWait, rfl, rfl⟩)
  have hdecided : Reachable (Sample.transfer.resolve .serverApproved Sample.settled) :=
    .resolveAs _ _ (.resolved .serverApproved) Sample.settled hrequested rfl
  obtain ⟨-, -, -, -, -, -, hfinal, hload, -⟩ := course_of_transfer hdecided
  exact ⟨hdecided, fun t' => hfinal .serverApproved t' rfl, hload⟩

end TransferData
end NameRegistry.Registration
