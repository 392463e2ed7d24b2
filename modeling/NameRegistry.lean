import NameRegistry.Billing.Error
import NameRegistry.Billing.Event
import NameRegistry.Billing.GracePeriod
import NameRegistry.Billing.Ledger
import NameRegistry.Billing.Reason
import NameRegistry.Binary64
import NameRegistry.Calendar
import NameRegistry.Datum
import NameRegistry.Datum.Json
import NameRegistry.Datum.Path
import NameRegistry.Decimal
import NameRegistry.Decimal.Text
import NameRegistry.EnumSet
import NameRegistry.Failure
import NameRegistry.Identifier
import NameRegistry.Instant
import NameRegistry.Instant.Text
import NameRegistry.Keyed
import NameRegistry.Money
import NameRegistry.Period
import NameRegistry.Proofs.Calendar
import NameRegistry.Proofs.Domain
import NameRegistry.Proofs.Identifier
import NameRegistry.Proofs.Projection.Drawing
import NameRegistry.Record
import NameRegistry.Record.Billing
import NameRegistry.Record.Configuration
import NameRegistry.Record.Registration
import NameRegistry.Record.Settings
import NameRegistry.Record.Value
import NameRegistry.Registration.Configuration
import NameRegistry.Registration.Domain
import NameRegistry.Registration.Domain.Draft
import NameRegistry.Registration.Error
import NameRegistry.Registration.Projection
import NameRegistry.Registration.Projection.Outcome
import NameRegistry.Registration.Status
import NameRegistry.Registration.Transfer
import NameRegistry.SortedSet
import NameRegistry.Text.Blank
import NameRegistry.Timeline
import NameRegistry.Toml
import NameRegistry.Toml.Scalar
import NameRegistry.Toml.Table
import NameRegistry.Toml.Text
import NameRegistry.Proofs.Projection.Renewal
import NameRegistry.Proofs.Projection.Approval
import NameRegistry.Proofs.Projection.Course
import NameRegistry.Proofs.Projection.Stability
import NameRegistry.Proofs.Projection.Autorenewal
import NameRegistry.Proofs.Projection.PathIndependence
import NameRegistry.Proofs.Ledger
import NameRegistry.Proofs.Projection.Recording
import NameRegistry.Proofs.Projection.Failure
import NameRegistry.Proofs.Projection.Conservation
import NameRegistry.Proofs.Projection.Subsumption
import NameRegistry.Proofs.Projection.Readers
import NameRegistry.Proofs.Projection.Handover
import NameRegistry.Proofs.Projection.GracePeriods
import NameRegistry.Proofs.Projection.Cancellation
import NameRegistry.Proofs.Projection.Deadline
import NameRegistry.Proofs.Projection.Transitions
import NameRegistry.Proofs.Projection.Expiry
import NameRegistry.Proofs.Ledger.Calls
import NameRegistry.Proofs.Money
import NameRegistry.Proofs.Ledger.Order
import NameRegistry.Proofs.Text.Decimal
import NameRegistry.Proofs.Text.Instant
import NameRegistry.Proofs.Text.Identifier
import NameRegistry.Proofs.Record
import NameRegistry.Proofs.Record.Billing
import NameRegistry.Proofs.Record.Registration
import NameRegistry.Proofs.Transfer
import NameRegistry.Proofs.Event
import NameRegistry.Proofs.Ledger.Atomicity
import NameRegistry.Proofs.Ledger.Cost
import NameRegistry.Proofs.Ledger.Effect
import NameRegistry.Proofs.Ledger.Undo
import NameRegistry.Proofs.Projection.Limit
import NameRegistry.Proofs.Projection.Preview
import NameRegistry.Proofs.Domain.NormalForm
import NameRegistry.Proofs.Timeline
import NameRegistry.Proofs.Prices
import NameRegistry.Proofs.Timeline.Latest
import NameRegistry.Proofs.Calendar.Periods
import NameRegistry.Proofs.Calendar.Years
import NameRegistry.Proofs.Money.Arithmetic
import NameRegistry.Proofs.Money.Residue
import NameRegistry.Proofs.Ledger.Refund
import NameRegistry.Proofs.Text.Notation
