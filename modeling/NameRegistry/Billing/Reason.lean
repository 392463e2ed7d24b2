import NameRegistry.EnumSet

/-! # Reasons, flags and kinds of grace period

Why a charge was made, what is special about it, and what a grace period would undo.
-/
namespace NameRegistry.Billing

inductive Reason
  | create | renew | restore | serverStatus | transfer | feeEarlyAccess | error
  deriving DecidableEq

inductive Flag
  | allocation | anchorTenant | autoRenew | landrush | sunrise | synthetic | reserved
  deriving DecidableEq

inductive GraceStatus
  | add | autoRenew | pendingDelete | redemption | renew | transfer
  deriving DecidableEq

namespace Reason

def all : List Reason := [create, renew, restore, serverStatus, transfer, feeEarlyAccess, error]

/-- As messages show it. -/
def label : Reason → String
  | create => "Create"
  | renew => "Renew"
  | restore => "Restore"
  | serverStatus => "ServerStatus"
  | transfer => "Transfer"
  | feeEarlyAccess => "FeeEarlyAccess"
  | error => "Error"

/-- As records hold it. -/
def code : Reason → String
  | create => "CREATE"
  | renew => "RENEW"
  | restore => "RESTORE"
  | serverStatus => "SERVER_STATUS"
  | transfer => "TRANSFER"
  | feeEarlyAccess => "FEE_EARLY_ACCESS"
  | error => "ERROR"

/-- Charges for these reasons pay for a number of years. -/
def paysForYears : Reason → Bool
  | create | renew | transfer => true
  | _ => false

end Reason

instance : Enumerated Flag where
  all := [.allocation, .anchorTenant, .autoRenew, .landrush, .sunrise, .synthetic, .reserved]
  mem_all a := by cases a <;> decide

def Flag.code : Flag → String
  | allocation => "ALLOCATION"
  | anchorTenant => "ANCHOR_TENANT"
  | autoRenew => "AUTO_RENEW"
  | landrush => "LANDRUSH"
  | sunrise => "SUNRISE"
  | synthetic => "SYNTHETIC"
  | reserved => "RESERVED"

instance : Enumerated GraceStatus where
  all := [.add, .autoRenew, .pendingDelete, .redemption, .renew, .transfer]
  mem_all a := by cases a <;> decide

namespace GraceStatus

def label : GraceStatus → String
  | add => "Add"
  | autoRenew => "AutoRenew"
  | pendingDelete => "PendingDelete"
  | redemption => "Redemption"
  | renew => "Renew"
  | transfer => "Transfer"

def code : GraceStatus → String
  | add => "ADD"
  | autoRenew => "AUTO_RENEW"
  | pendingDelete => "PENDING_DELETE"
  | redemption => "REDEMPTION"
  | renew => "RENEW"
  | transfer => "TRANSFER"

/-- The reason of the charge that made the grace period begin. The two that end a registration
have none. -/
def reason? : GraceStatus → Option Reason
  | add => some .create
  | renew | autoRenew => some .renew
  | transfer => some .transfer
  | redemption | pendingDelete => none

end GraceStatus
end NameRegistry.Billing
