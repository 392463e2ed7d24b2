import NameRegistry.Proofs.Record.Billing
import NameRegistry.Record.Registration

/-! # Registration records loaded again

The checks that a transfer or a domain goes through when it is loaded are those it has passed when
it was made. So its record is accepted and gives it back: references that are inserted again are
there already, grace periods that are put in order again are in order, and statuses that are derived
again are the same.
-/
namespace NameRegistry

namespace SortedSet

variable {α : Type} [Ord α] [Std.TransOrd α] [Std.LawfulEqOrd α] {a : α}

theorem place_of_mem {l : List α} (h : l.Pairwise fun a b => compare a b = .lt) (ha : a ∈ l) :
    place a l = l := by
  have hself : compare a a = .eq := Std.ReflCmp.compare_self
  induction l with
  | nil => cases ha
  | cons b r ih =>
    obtain ⟨hb, hr⟩ := List.pairwise_cons.1 h
    rw [place]
    split
    · next hab =>
      rcases List.mem_cons.1 ha with rfl | ha
      · rw [hself] at hab
        cases hab
      · rw [Std.OrientedCmp.gt_of_lt (hb a ha)] at hab
        cases hab
    · rfl
    · next hab =>
      rcases List.mem_cons.1 ha with rfl | ha
      · rw [hself] at hab
        cases hab
      · rw [ih hr ha]

/-- A member that is inserted again changes nothing. -/
theorem insert_of_mem {s : SortedSet α} (h : a ∈ s) : s.insert a = s :=
  ext_toList (place_of_mem s.sorted h)

end SortedSet

namespace Registration

open Record
open Billing (OneTime Recurring Cancellation Modification Event GracePeriod)

instance : LawfulStorable StatusValue where
  load_store s := ofName_name (by decide) (Enumerated.mem_all s)
  store_ne_null _ := nofun

instance : LawfulStorable TransferStatus where
  load_store s :=
    ofName_name (by decide) (by cases s with | resolved how => cases how <;> decide | _ => decide)
  store_ne_null _ := nofun

theorem load_store_entity (e : EntityRef) : load (store e) = .ok e := by
  cases e with
  | billingEvent id =>
    have hkind : load (store (EntityRef.billingEvent id)) =
        EntityRef.ofKind "billing_event" (store id) := rfl
    rw [hkind, EntityRef.ofKind, load_store]
    rfl
  | pollMessage id =>
    have hkind : load (store (EntityRef.pollMessage id)) =
        EntityRef.ofKind "poll_message" (store id) := rfl
    rw [hkind, EntityRef.ofKind, load_store]
    rfl

instance : LawfulStorable EntityRef where
  load_store := load_store_entity
  store_ne_null e := by cases e <;> nofun

/-- The references of an approval are among its entities already. -/
theorem ServerApproval.of_parts (a : ServerApproval) :
    ServerApproval.of a.billingEvent a.autorenewEvent a.autorenewPollMessage a.entities = a := by
  obtain ⟨billingEvent, autorenewEvent, autorenewPollMessage, entities, hbilling,
    hautorenew, hpoll⟩ := a
  cases billingEvent with
  | none =>
    simp only [ServerApproval.of, SortedSet.insert_of_mem hautorenew, SortedSet.insert_of_mem hpoll]
  | some id =>
    simp only [ServerApproval.of, SortedSet.insert_of_mem (hbilling id rfl),
      SortedSet.insert_of_mem hautorenew, SortedSet.insert_of_mem hpoll]

instance : LawfulStorable ServerApproval where
  load_store a := Layout.load_object (by simp [ServerApproval.of_parts])
  store_ne_null _ := nofun

instance : LawfulStorable TransferRequest where
  load_store r := Layout.load_object (by simp)
  store_ne_null _ := nofun

/-- The record of a transfer is loaded by putting its parts together. -/
theorem TransferData.load_parts (status : TransferStatus) (request : Option TransferRequest)
    (approval : Option ServerApproval) :
    load (.object [("status", store status), ("request", store request),
      ("server_approve", store approval)]) =
        (ofParts status request approval).mapError .registration :=
  bind_of_ok (Layout.load_object (by simp)) _

instance : LawfulStorable TransferData where
  load_store t := by
    refine (TransferData.load_parts _ _ _).trans ?_
    rw [TransferData.ofParts_parts]
    rfl
  store_ne_null _ := nofun

theorem load_store_draft (d : Domain) : load (store d) = .ok d.toDraft :=
  Layout.load_object (by simp; rfl)

instance : LawfulStorable Domain where
  load_store d := by
    refine (bind_of_ok (load_store_draft d) _).trans ?_
    rw [Domain.build_toDraft]
    rfl
  store_ne_null _ := nofun

/-- Domains, their grace periods and their transfers are loaded from their records as they are,
whoever made them: the builder, a projection or a loader. So are billing events, each alone and
under the label of its kind, but that a zero amount loses its sign, which no comparison of amounts
sees. Times, identifiers and numbers are read from their texts by the loaders themselves; nothing is
assumed of them. -/
theorem records_loaded_again :
    (∀ d : Domain, load (store d) = .ok d) ∧
    (∀ g : GracePeriod, load (store g) = .ok g) ∧
    (∀ t : TransferData, load (store t) = .ok t) ∧
    (∀ e : OneTime, ∃ e' : OneTime, load (store e) = .ok e' ∧ e'.Same e) ∧
    (∀ e : Recurring, load (store e) = .ok e) ∧
    (∀ e : Cancellation, load (store e) = .ok e) ∧
    (∀ e : Modification, ∃ e' : Modification, load (store e) = .ok e' ∧ e'.Same e) ∧
    ∀ e : Event, ∃ e' : Event, load (store e) = .ok e' ∧ e'.Same e := by
  refine ⟨load_store, load_store, load_store, ?oneTime, load_store, load_store,
    ?modification, ?event⟩
  case oneTime => exact fun e => ⟨_, Billing.load_store_oneTime e, e.same_unsignedZero⟩
  case modification => exact fun e => ⟨_, Billing.load_store_modification e, e.same_unsignedZero⟩
  case event => exact fun e => ⟨_, Billing.load_store_event e, e.same_unsignedZero⟩

end Registration
end NameRegistry
