import NameRegistry.Billing.GracePeriod
import NameRegistry.Record.Value

/-! # Billing records

Events are loaded as they were stored, whatever they say. A grace period is checked when it is
loaded.
-/
namespace NameRegistry.Billing

open Record

instance : Storable Reason := ⟨fun r => .text r.code⟩
instance : Loadable Reason := ⟨ofName Reason.all Reason.code⟩

instance : Storable Flag := ⟨fun f => .text f.code⟩
instance : Loadable Flag := ⟨ofName Enumerated.all Flag.code⟩

instance : Storable GraceStatus := ⟨fun s => .text s.code⟩
instance : Loadable GraceStatus := ⟨ofName Enumerated.all GraceStatus.code⟩

instance : Storable HistoryRef where
  store h := .object [("repo_id", store h.repoId), ("history_id", store h.historyId)]

instance : Loadable HistoryRef where
  load := Layout.load { names := ["repo_id", "history_id"] } fun es =>
    HistoryRef.mk <$> needed es "repo_id" <*> needed es "history_id"

instance : Loadable HistoryContext where
  load := Layout.load { names := ["history", "modification_time", "registrar_id"] } fun es =>
    HistoryContext.mk <$> needed es "history" <*> needed es "modification_time" <*>
      needed es "registrar_id"

instance : Storable EventCommon where
  store c := .object
    [("id", store c.id), ("reason", store c.reason), ("target_id", store c.targetId),
      ("registrar_id", store c.registrarId), ("event_time", store c.eventTime),
      ("history", store c.history)]

instance : Loadable EventCommon where
  load := Layout.load
    { names := ["id", "reason", "target_id", "registrar_id", "event_time", "history"] } fun es =>
      EventCommon.mk <$> needed es "id" <*> needed es "reason" <*> needed es "target_id" <*>
        needed es "registrar_id" <*> needed es "event_time" <*> needed es "history"

instance : Storable SyntheticOrigin where
  store o := .object
    [("creation_time", store o.creationTime),
      ("cancellation_matching_event", store o.cancellationMatchingEvent)]

instance : Loadable SyntheticOrigin where
  load := Layout.load { names := ["creation_time", "cancellation_matching_event"] } fun es =>
    SyntheticOrigin.mk <$> needed es "creation_time" <*> needed es "cancellation_matching_event"

instance : Storable OneTime where
  store e := .object
    [("common", store e.common), ("flags", store e.flags), ("cost", store e.cost),
      ("period_years", store e.periodYears), ("billing_time", store e.billingTime),
      ("synthetic", store e.synthetic), ("allocation_token", store e.allocationToken)]

instance : Loadable OneTime where
  load := Layout.load
    { names := ["common", "flags", "cost", "period_years", "billing_time", "synthetic",
        "allocation_token"] } fun es =>
      OneTime.mk <$> needed es "common" <*> needed es "flags" <*> needed es "cost" <*>
        optional es "period_years" <*> needed es "billing_time" <*> optional es "synthetic" <*>
        optional es "allocation_token"

instance : Storable Recurring where
  store e := .object
    [("common", store e.common), ("flags", store e.flags),
      ("recurrence_end_time", store e.recurrenceEndTime)]

instance : Loadable Recurring where
  load := Layout.load { names := ["common", "flags", "recurrence_end_time"] } fun es =>
    Recurring.mk <$> needed es "common" <*> needed es "flags" <*> needed es "recurrence_end_time"

instance : Storable CancelledEvent where
  store
    | .oneTime id => .object [("OneTime", store id)]
    | .recurring id => .object [("Recurring", store id)]

/-- An object of one entry, whose name tells the kind of the event. -/
instance : Loadable CancelledEvent where
  load
    | .object [("OneTime", id)] => (load id).map .oneTime
    | .object [("Recurring", id)] => (load id).map .recurring
    | _ => .error .malformed

instance : Storable Cancellation where
  store e := .object
    [("common", store e.common), ("billing_time", store e.billingTime),
      ("cancelled", store e.cancelled)]

instance : Loadable Cancellation where
  load := Layout.load { names := ["common", "billing_time", "cancelled"] } fun es =>
    Cancellation.mk <$> needed es "common" <*> needed es "billing_time" <*> needed es "cancelled"

instance : Storable Modification where
  store e := .object
    [("common", store e.common), ("cost", store e.cost), ("description", store e.description),
      ("event", store e.event)]

instance : Loadable Modification where
  load := Layout.load { names := ["common", "cost", "description", "event"] } fun es =>
    Modification.mk <$> needed es "common" <*> needed es "cost" <*> needed es "description" <*>
      needed es "event"

instance : Loadable EventKind := ⟨ofWord EventKind.all EventKind.code⟩

/-- Adds the entry that tells the kind of an event. -/
def EventKind.label (kind : EventKind) : Datum → Datum
  | .object entries => .object (("kind", .text kind.code) :: entries)
  | d => d

mutual

/-- Puts null for the empty object wherever one stands alone under a name. Within an event a value
may also be named in this way. -/
def emptyAsNull : Datum → Datum
  | .object [(name, .object [])] => .object [(name, .null)]
  | .object entries => .object (emptyEntriesAsNull entries)
  | .list items => .list (emptyItemsAsNull items)
  | d => d

def emptyEntriesAsNull : List (String × Datum) → List (String × Datum)
  | [] => []
  | (name, d) :: rest => (name, emptyAsNull d) :: emptyEntriesAsNull rest

def emptyItemsAsNull : List Datum → List Datum
  | [] => []
  | d :: rest => emptyAsNull d :: emptyItemsAsNull rest

end

/-- The kind of an event and what is left to load. In a list the kind stands first. -/
def EventKind.ofLabelled : Datum → Except LoadError (EventKind × Datum)
  | .list (kind :: values) => do return (← load kind, emptyAsNull (.list values))
  | .object entries => do
    return (← (needed entries "kind").toExcept, emptyAsNull (.object entries))
  | _ => .error .malformed

instance : Storable Event where
  store e := e.kind.label <| match e with
    | .oneTime e => store e
    | .recurring e => store e
    | .cancellation e => store e
    | .modification e => store e

instance : Loadable Event where
  load d := do
    match ← EventKind.ofLabelled d with
    | (.oneTime, rest) => return .oneTime (← load rest)
    | (.recurring, rest) => return .recurring (← load rest)
    | (.cancellation, rest) => return .cancellation (← load rest)
    | (.modification, rest) => return .modification (← load rest)

instance : Storable GracePeriod where
  store g := .object
    [("id", store g.id), ("status", store g.status), ("domain_repo_id", store g.domainRepoId),
      ("expiration_time", store g.expirationTime), ("registrar_id", store g.registrarId),
      ("one_time_event", store g.oneTimeEvent), ("recurring_event", store g.recurringEvent)]

instance : Loadable GracePeriod where
  load d := do
    let parts ← Layout.load
      { names := ["id", "status", "domain_repo_id", "expiration_time", "registrar_id",
          "one_time_event", "recurring_event"] } (fun es =>
        GracePeriod.ofParts <$> needed es "id" <*> needed es "status" <*>
          needed es "domain_repo_id" <*> needed es "expiration_time" <*>
          needed es "registrar_id" <*>
          optional es "one_time_event" <*> optional es "recurring_event") d
    parts.mapError .billing

instance : Storable GracePeriodHistory where
  store h := .object [("history", store h.history), ("grace_period", store h.gracePeriod)]

end NameRegistry.Billing
