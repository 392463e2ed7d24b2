import NameRegistry.Billing.GracePeriod
import NameRegistry.Registration.Status
import NameRegistry.Registration.Transfer

/-! # Domains

A domain is the registration record of one name as it was written at some moment. Renewals,
transfers and the ends of grace periods take effect later without any write; the projection works
out what the record then looks like. The rules of the record are part of the type: the name lies
under its top-level domain, grace periods are the domain's own and in order of their ends, and the
implicit statuses are right.
-/
namespace NameRegistry.Registration

open Billing (GracePeriod GraceStatus)

/-- A name is a label, a dot and the top-level domain; the label may be empty. -/
def IsUnder (name : String) (tld : Tld) : Prop := '.' :: tld.text.toList <:+ name.toList

instance (name : String) (tld : Tld) : Decidable (IsUnder name tld) :=
  inferInstanceAs (Decidable ('.' :: tld.text.toList <:+ name.toList))

def LabelEmpty (name : String) (tld : Tld) : Prop := name.toList = '.' :: tld.text.toList

instance (name : String) (tld : Tld) : Decidable (LabelEmpty name tld) :=
  inferInstanceAs (Decidable (_ = _))

/-- Grace periods go by their ends, and by their identifiers where the ends are equal. -/
def endsBefore (a b : GracePeriod) : Prop :=
  a.expirationTime < b.expirationTime ∨ a.expirationTime = b.expirationTime ∧ a.id < b.id

structure Domain where
  repoId : RepoId
  name : String
  tld : Tld
  creationTime : Instant
  expirationTime : Instant
  statuses : StatusSet
  nameservers : SortedSet String
  sponsor : RegistrarId
  /-- The recurring event that bills each autorenewal. -/
  autorenewEvent : BillingEventId
  autorenewPollMessage : Option PollMessageId
  /-- From this instant on the registration is not renewed any more. -/
  autorenewEndTime : Option Instant
  gracePeriods : List GracePeriod
  transfer : TransferData
  lastUpdateTime : Option Instant
  lastUpdateRegistrar : Option RegistrarId
  lastTransferTime : Option Instant
  deletionTime : Option Instant
  repoId_ne : repoId.isEmpty = false
  sponsor_ne : sponsor.isEmpty = false
  under_tld : IsUnder name tld
  label_ne : ¬LabelEmpty name tld
  created_le : creationTime ≤ expirationTime
  grace_owned : ∀ g ∈ gracePeriods, g.domainRepoId = repoId
  grace_sorted : gracePeriods.Pairwise endsBefore
  grace_distinct : (gracePeriods.map (·.id)).Nodup
  statuses_implicit : statuses.withImplicit (!nameservers.isEmpty) = statuses
  deriving DecidableEq

namespace Domain

def gracePeriodsOf (d : Domain) (status : GraceStatus) : List GracePeriod :=
  d.gracePeriods.filter fun g => g.status = status

def graceStatuses (d : Domain) : EnumSet GraceStatus := .ofList (d.gracePeriods.map (·.status))

def inAutorenewGrace (d : Domain) (t : Instant) : Bool :=
  d.gracePeriods.any fun g => g.status = .autoRenew && g.activeAt t

/-- The autorenew grace period that ends last of those in effect. -/
def latestAutorenewGrace? (d : Domain) (t : Instant) : Option GracePeriod :=
  ((d.gracePeriodsOf .autoRenew).filter fun g => g.activeAt t).getLast?

/-- Whether approving a transfer would absorb an autorenewal: it pays for some time, and an
autorenew grace period is in effect just before its deadline. The domain has to be projected to that
moment. -/
def absorbs (d : Domain) (p : PendingTransfer) : Bool :=
  match p.basis with
  | .ok basis => !p.request.period.isZero && d.inAutorenewGrace basis
  | .error _ => false

def isTransferSubsumed (d : Domain) : Bool := d.transfer.pending?.any d.absorbs

/-- Deleted, or on its way to deletion. -/
def isAutorenewSuppressed (d : Domain) : Bool :=
  d.deletionTime.isSome || .pendingDelete ∈ d.statuses

end Domain
end NameRegistry.Registration
