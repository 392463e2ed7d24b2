import NameRegistry.Billing.Reason
import NameRegistry.Failure
import NameRegistry.Identifier
import NameRegistry.Keyed
import NameRegistry.Timeline

/-! # Registry configuration and renew prices

Each top-level domain has its grace period lengths in whole days, its transfer and registration
limits and a table of renew prices. A price is looked up in one configured table, or in the tables
of all top-level domains together. Loading a configuration does not check it; `validate` does.
-/
namespace NameRegistry.Registration

open Billing (GraceStatus)

/-- From an instant on, a renewal costs this much. -/
structure PriceChange where
  effective : Instant
  amount : Decimal
  deriving DecidableEq

structure TldConfig where
  tld : Tld
  currency : Currency := .usd
  addGraceDays : UInt32 := 5
  renewGraceDays : UInt32 := 5
  autorenewGraceDays : UInt32 := 45
  transferGraceDays : UInt32 := 5
  redemptionGraceDays : UInt32 := 30
  pendingDeleteDays : UInt32 := 5
  automaticTransferDays : UInt32 := 5
  defaultTransferYears : UInt32 := 1
  maxRegistrationYears : UInt32 := 10
  renewPrices : List PriceChange := []
  deriving DecidableEq

/-- What is wrong with the configuration of a top-level domain. -/
inductive ConfigProblem
  | negativePrice (change : PriceChange)
  | priceTable (cause : TemporalError)
  | notBareLabel
  | noRegistrationYears
  | transferTooLong
  | configuredTwice
  deriving DecidableEq

def ConfigProblem.message : ConfigProblem → String
  | negativePrice change =>
    "negative renew price " ++ change.amount.toText ++ " at " ++ change.effective.toText
  | priceTable cause => cause.message
  | notBareLabel => "TLD must be a bare label"
  | noRegistrationYears => "max_registration_years must be at least 1"
  | transferTooLong => "default transfer period exceeds max_registration_years"
  | configuredTwice => "TLD configured twice"

inductive ConfigError
  /-- The configuration could not be read. -/
  | unreadable
  | unknownTld (name : String)
  | invalid (tld : Tld) (problem : ConfigProblem)
  deriving DecidableEq

def ConfigError.message : ConfigError → String
  | unreadable => "Failed to load configuration"
  | unknownTld name => "Unknown TLD: " ++ name
  | invalid tld problem => "Invalid configuration for TLD " ++ tld.text ++ ": " ++ problem.message

/-- The price of a renewal under a top-level domain at an instant. -/
abbrev PriceSchedule := Tld → Instant → Except LookupError Money

namespace TldConfig

/-- The defaults, with one price from the start of time on. -/
def ofPrice (tld : Tld) (price : Money) : TldConfig where
  tld := tld
  currency := price.currency
  renewPrices := [⟨.epoch, price.amount⟩]

/-- Replaces the prices that begin at the instant, or adds one. -/
def withRenewPrice (c : TldConfig) (effective : Instant) (amount : Decimal) : TldConfig :=
  { c with renewPrices := c.renewPrices.filter (·.effective ≠ effective) ++ [⟨effective, amount⟩] }

def graceDays (c : TldConfig) : GraceStatus → UInt32
  | .add => c.addGraceDays
  | .autoRenew => c.autorenewGraceDays
  | .pendingDelete => c.pendingDeleteDays
  | .redemption => c.redemptionGraceDays
  | .renew => c.renewGraceDays
  | .transfer => c.transferGraceDays

def secondsOfDays (days : UInt32) : Nat := days.toNat * 86400

def graceSeconds (c : TldConfig) (status : GraceStatus) : Nat := secondsOfDays (c.graceDays status)

def automaticTransferSeconds (c : TldConfig) : Nat := secondsOfDays c.automaticTransferDays

def defaultTransferPeriod (c : TldConfig) : Period := ⟨c.defaultTransferYears, .years⟩

/-- The price table as a timeline. A price with a minus sign is refused, even of zero. -/
def renewPriceSchedule (c : TldConfig) : Except ConfigError (Timeline Money) :=
  match c.renewPrices.find? (·.amount.negative) with
  | some change => .error (.invalid c.tld (.negativePrice change))
  | none =>
    (Timeline.ofPairs (c.renewPrices.map fun p =>
      (p.effective, Money.round p.amount c.currency))).mapError
      fun cause => .invalid c.tld (.priceTable cause)

def validate (c : TldConfig) : Except ConfigError Unit :=
  if c.tld.isEmpty || c.tld.text.toList.head? = some '.' then .error (.invalid c.tld .notBareLabel)
  else if c.maxRegistrationYears = 0 then .error (.invalid c.tld .noRegistrationYears)
  else if c.maxRegistrationYears < c.defaultTransferYears then
    .error (.invalid c.tld .transferTooLong)
  else c.renewPriceSchedule.map fun _ => ()

def noTable (tld : Tld) : LookupError := .notFound "price table" tld.text

/-- The price of the one top-level domain that is configured. -/
def priceAt (c : TldConfig) : PriceSchedule := fun tld t =>
  if tld ≠ c.tld then .error (noTable tld)
  else match c.renewPriceSchedule with
    | .ok prices => .ok (prices.valueAt t)
    | .error cause => .error (.invalidData cause.message)

end TldConfig

/-- The price tables of several top-level domains, one each. -/
structure PriceTables where
  tables : List (Tld × Timeline Money)

namespace PriceTables

def empty : PriceTables := ⟨[]⟩

/-- Sets the table of a top-level domain, instead of any that it had. -/
def set (s : PriceTables) (tld : Tld) (prices : Timeline Money) : PriceTables :=
  ⟨Keyed.set s.tables tld prices⟩

def get? (s : PriceTables) (tld : Tld) : Option (Timeline Money) := Keyed.get? s.tables tld

/-- The top-level domains that have a table, in the order of their names. -/
def tlds (s : PriceTables) : List Tld := (s.tables.map (·.1)).mergeSort fun a b => a.text ≤ b.text

def priceAt (s : PriceTables) : PriceSchedule := fun tld t =>
  match s.get? tld with
  | some prices => .ok (prices.valueAt t)
  | none => .error (TldConfig.noTable tld)

theorem get?_set (s : PriceTables) (tld other : Tld) (prices : Timeline Money) :
    (s.set tld prices).get? other = if other = tld then some prices else s.get? other :=
  Keyed.get?_set ..

end PriceTables

/-- The configuration of all top-level domains. -/
structure RegistryConfig where
  tlds : List TldConfig := []
  deriving DecidableEq

namespace RegistryConfig

/-- Checks each configuration in turn, and that none is for a top-level domain seen before. -/
def validateFrom (seen : List Tld) : List TldConfig → Except ConfigError Unit
  | [] => .ok ()
  | c :: cs => do
    if c.tld ∈ seen then throw (.invalid c.tld .configuredTwice)
    c.validate
    validateFrom (c.tld :: seen) cs

def validate (r : RegistryConfig) : Except ConfigError Unit := validateFrom [] r.tlds

/-- The configurations, if they are valid together. -/
def ofTlds (tlds : List TldConfig) : Except ConfigError RegistryConfig := do
  RegistryConfig.validate ⟨tlds⟩
  return ⟨tlds⟩

def tld (r : RegistryConfig) (name : String) : Except ConfigError TldConfig :=
  match r.tlds.find? fun c => c.tld.text = name with
  | some c => .ok c
  | none => .error (.unknownTld name)

/-- All price tables together; of two for one top-level domain the later counts. -/
def priceTables (r : RegistryConfig) : Except ConfigError PriceTables :=
  r.tlds.foldlM (fun s c => c.renewPriceSchedule.map (s.set c.tld)) .empty

end RegistryConfig
end NameRegistry.Registration
