import NameRegistry.Record
import NameRegistry.Timeline

/-! # Records of values

Money, times, periods and identifiers in records. Amounts are stored as text and keep their scale;
an amount is loaded as it is written, without rounding, also from a number.
-/
namespace NameRegistry

open Record

instance : Storable Decimal := ⟨fun d => .text d.toText⟩

/-- A whole number without places. -/
def Decimal.ofInt? (n : Int) : Option Decimal := ofParts? (n < 0) n.natAbs 0

/-- A double stands for its shortest text. -/
instance : Loadable Decimal where
  load
    | .text s => ofOption (Decimal.ofText? s)
    | .whole n => ofOption (Decimal.ofInt? n)
    | .double x => ofOption (Decimal.ofText? x.toText)
    | _ => .error .malformed

instance : Storable Currency := ⟨fun c => .text c.code⟩
instance : Loadable Currency := ⟨ofName Currency.all Currency.code⟩

instance : Storable Money :=
  ⟨fun m => .object [("amount", store m.amount), ("currency", store m.currency)]⟩

instance : Loadable Money where
  load := Layout.load { names := ["amount", "currency"] } fun es =>
    Money.mk <$> needed es "amount" <*> needed es "currency"

instance : Storable Instant := ⟨fun t => .text t.toRecord⟩

instance : Loadable Instant where
  load
    | .text s => ofOption (Instant.ofText? s)
    | _ => .error .malformed

namespace PeriodUnit

def all : List PeriodUnit := [years, months]

def code : PeriodUnit → String
  | years => "YEARS"
  | months => "MONTHS"

end PeriodUnit

instance : Storable PeriodUnit := ⟨fun u => .text u.code⟩
instance : Loadable PeriodUnit := ⟨ofName PeriodUnit.all PeriodUnit.code⟩

instance : Storable Period := ⟨fun p => .object [("value", store p.value), ("unit", store p.unit)]⟩

instance : Loadable Period where
  load := Layout.load { names := ["value", "unit"] } fun es =>
    Period.mk <$> needed es "value" <*> needed es "unit"

/-- Records hold the UUID alone. -/
instance {kind : IdKind} : Storable (Id kind) := ⟨fun id => .text id.uuid.toText⟩

instance {kind : IdKind} : Loadable (Id kind) where
  load
    | .text s => (ofOption (Uuid.ofText? s)).map Id.mk
    | _ => .error .malformed

instance {kind : CodeKind} : Storable (Code kind) := ⟨fun c => .text c.text⟩
instance {kind : CodeKind} : Loadable (Code kind) := ⟨fun d => (load d).map Code.mk⟩

instance {V : Type} [Storable V] : Storable (Timeline V) where
  store l := .object
    [("initial", store l.initial),
      ("later", .object (l.later.map fun p => (p.1.toRecord, store p.2)))]

end NameRegistry
