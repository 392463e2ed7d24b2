import NameRegistry.Record.Billing
import NameRegistry.Registration.Domain.Draft
import NameRegistry.Registration.Projection.Outcome

/-! # Registration records

Transfers and domains are checked when they are loaded, by the same rules by which they are made. Of
a domain's record any entry may be missing; the rules then tell which ones should not be.
-/
namespace NameRegistry.Registration

open Record

instance : Storable StatusValue := ⟨fun s => .text s.eppName⟩
instance : Loadable StatusValue := ⟨ofName Enumerated.all StatusValue.eppName⟩

instance : Storable TransferStatus := ⟨fun s => .text s.code⟩
instance : Loadable TransferStatus := ⟨ofName TransferStatus.all TransferStatus.code⟩

instance : Storable EntityRef where
  store
    | .billingEvent id => .object [("kind", .text "billing_event"), ("id", store id)]
    | .pollMessage id => .object [("kind", .text "poll_message"), ("id", store id)]

/-- The reference of a named kind. -/
def EntityRef.ofKind (kind : String) (id : Datum) : Except LoadError EntityRef :=
  match kind with
  | "billing_event" => (load id).map .billingEvent
  | "poll_message" => (load id).map .pollMessage
  | _ => .error .malformed

instance : Loadable EntityRef where
  load
    | .list [.text kind, id] => EntityRef.ofKind kind id
    | .object entries =>
      match Keyed.get? entries "kind", Keyed.get? entries "id" with
      | some (.text kind), some id => EntityRef.ofKind kind id
      | some (.object [(kind, .null)]), some id => EntityRef.ofKind kind id
      | _, _ => .error .malformed
    | _ => .error .malformed

instance : Storable ServerApproval where
  store a := .object
    [("billing_event", store a.billingEvent), ("autorenew_event", store a.autorenewEvent),
      ("autorenew_poll_message", store a.autorenewPollMessage), ("entities", store a.entities)]

instance : Loadable ServerApproval where
  load := Layout.load
    { names := ["billing_event", "autorenew_event", "autorenew_poll_message", "entities"],
      least := 3 }
    fun es =>
      ServerApproval.of <$> optional es "billing_event" <*> needed es "autorenew_event" <*>
        needed es "autorenew_poll_message" <*> given es "entities" .empty

instance : Storable TransferRequest where
  store r := .object
    [("gaining_registrar_id", store r.gainingRegistrarId),
      ("losing_registrar_id", store r.losingRegistrarId),
      ("transfer_request_time", store r.requestTime),
      ("pending_transfer_expiration_time", store r.expirationTime),
      ("transfer_period", store r.period),
      ("transferred_registration_expiration_time", store r.fixedExpiration)]

instance : Loadable TransferRequest where
  load := Layout.load
    { names := ["gaining_registrar_id", "losing_registrar_id", "transfer_request_time",
        "pending_transfer_expiration_time", "transfer_period",
        "transferred_registration_expiration_time"] } fun es =>
      TransferRequest.mk <$> needed es "gaining_registrar_id" <*>
        needed es "losing_registrar_id" <*> needed es "transfer_request_time" <*>
        needed es "pending_transfer_expiration_time" <*>
        needed es "transfer_period" <*> optional es "transferred_registration_expiration_time"

instance : Storable TransferData where
  store t := .object
    [("status", store t.status), ("request", store t.request?),
      ("server_approve", store t.approval?)]

instance : Loadable TransferData where
  load d := do
    let transfer ← Layout.load { names := ["status", "request", "server_approve"] } (fun es =>
      TransferData.ofParts <$> needed es "status" <*> optional es "request" <*>
        optional es "server_approve") d
    transfer.mapError .registration

instance : Storable Domain where
  store d := .object
    [("repo_id", store d.repoId), ("domain_name", store d.name), ("tld", store d.tld),
      ("creation_time", store d.creationTime),
      ("registration_expiration_time", store d.expirationTime),
      ("status_values", store d.statuses), ("nameservers", store d.nameservers),
      ("current_sponsor_registrar_id", store d.sponsor),
      ("autorenew_billing_event", store d.autorenewEvent),
      ("autorenew_poll_message", store d.autorenewPollMessage),
      ("autorenew_end_time", store d.autorenewEndTime), ("grace_periods", store d.gracePeriods),
      ("transfer_data", store d.transfer), ("last_epp_update_time", store d.lastUpdateTime),
      ("last_epp_update_registrar_id", store d.lastUpdateRegistrar),
      ("last_transfer_time", store d.lastTransferTime), ("deletion_time", store d.deletionTime)]

/-- The values of a domain in their order as a list, of which any may be left out. -/
def Domain.layout : Layout where
  names := ["repo_id", "domain_name", "tld", "creation_time", "registration_expiration_time",
    "status_values", "nameservers", "current_sponsor_registrar_id", "autorenew_billing_event",
    "autorenew_poll_message", "autorenew_end_time", "grace_periods", "transfer_data",
    "last_epp_update_time", "last_epp_update_registrar_id", "last_transfer_time", "deletion_time"]
  least := 0

instance : Loadable Domain.Draft where
  load := Domain.layout.load fun es =>
    Domain.Draft.mk <$> optional es "repo_id" <*> optional es "domain_name" <*>
      optional es "tld" <*> optional es "creation_time" <*>
      optional es "registration_expiration_time" <*>
      given es "status_values" .empty <*> given es "nameservers" .empty <*>
      optional es "current_sponsor_registrar_id" <*> optional es "autorenew_billing_event" <*>
      optional es "autorenew_poll_message" <*> optional es "autorenew_end_time" <*>
      given es "grace_periods" [] <*> given es "transfer_data" .empty <*>
      optional es "last_epp_update_time" <*> optional es "last_epp_update_registrar_id" <*>
      optional es "last_transfer_time" <*> optional es "deletion_time"

instance : Loadable Domain where
  load d := do
    let draft : Domain.Draft ← load d
    draft.build.mapError .registration

instance : Storable Bool := ⟨.truth⟩

instance : Storable Transition where
  store
    | .transferServerApproved time gaining losing expirationTime subsumed history => .object
        [("type", .text "transfer_server_approved"), ("at", store time),
          ("gaining_registrar_id", store gaining), ("losing_registrar_id", store losing),
          ("registration_expiration_time", store expirationTime),
          ("subsumed_autorenew", store subsumed), ("history", store history)]
    | .autoRenewed time expirationTime registrar history => .object
        [("type", .text "auto_renewed"), ("at", store time),
          ("registration_expiration_time", store expirationTime), ("registrar_id", store registrar),
          ("history", store history)]
    | .gracePeriodExpired time id status => .object
        [("type", .text "grace_period_expired"), ("at", store time), ("grace_period_id", store id),
          ("status", store status)]

end NameRegistry.Registration
