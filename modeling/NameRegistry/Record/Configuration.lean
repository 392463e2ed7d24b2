import NameRegistry.Record.Value
import NameRegistry.Registration.Configuration

/-! # Configuration records

A configuration in a record has to give every value in its own form; the entries other than the
top-level domain have defaults. Loading does not validate it.
-/
namespace NameRegistry.Registration

open Record

def PriceChange.layout : Layout where
  names := ["effective", "amount"]

def PriceChange.read (es : List (String × Datum)) : Reading PriceChange :=
  PriceChange.mk <$> needed es "effective" <*> needed es "amount"

instance : Loadable PriceChange := ⟨PriceChange.layout.load PriceChange.read⟩

/-- The values of a configuration in their order as a list, of which only the first has no
default. -/
def TldConfig.layout : Layout where
  names := ["tld", "currency", "add_grace_period_days", "renew_grace_period_days",
    "autorenew_grace_period_days", "transfer_grace_period_days", "redemption_grace_period_days",
    "pending_delete_length_days", "automatic_transfer_length_days", "default_transfer_period_years",
    "max_registration_years", "renew_prices"]
  least := 1

/-- Puts a configuration together from readings of its values, most of them given their defaults. -/
def TldConfig.ofReadings (tld : Reading Tld) (currency : Currency → Reading Currency)
    (count : String → UInt32 → Reading UInt32)
    (prices : List PriceChange → Reading (List PriceChange)) : Reading TldConfig :=
  let d : TldConfig := { tld := ⟨""⟩ }
  TldConfig.mk <$> tld <*> currency d.currency <*>
    count "add_grace_period_days" d.addGraceDays <*>
    count "renew_grace_period_days" d.renewGraceDays <*>
    count "autorenew_grace_period_days" d.autorenewGraceDays <*>
    count "transfer_grace_period_days" d.transferGraceDays <*>
    count "redemption_grace_period_days" d.redemptionGraceDays <*>
    count "pending_delete_length_days" d.pendingDeleteDays <*>
    count "automatic_transfer_length_days" d.automaticTransferDays <*>
    count "default_transfer_period_years" d.defaultTransferYears <*>
    count "max_registration_years" d.maxRegistrationYears <*> prices d.renewPrices

instance : Loadable TldConfig where
  load := TldConfig.layout.load fun es =>
    TldConfig.ofReadings (needed es "tld") (given es "currency") (given es)
      (given es "renew_prices")

instance : Loadable RegistryConfig where
  load := Layout.load { names := ["tlds"], least := 0 } fun es =>
    RegistryConfig.mk <$> given es "tlds" []

end NameRegistry.Registration
