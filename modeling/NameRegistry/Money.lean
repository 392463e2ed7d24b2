import NameRegistry.Decimal.Text

/-! # Money

Charges are made in the currency a top-level domain bills in. Every operation rounds its result to
the places of the currency, a half to the even neighbour. Amounts of different currencies do not
add up, and a sum may leave the range of decimals; both are failures, not values.
-/
namespace NameRegistry

inductive Currency
  | usd | eur | gbp | jpy | chf | aud | cad
  deriving DecidableEq, Repr

namespace Currency

def all : List Currency := [usd, eur, gbp, jpy, chf, aud, cad]

def places : Currency → Nat
  | jpy => 0
  | _ => 2

def symbol : Currency → String
  | usd => "$"
  | eur => "€"
  | gbp => "£"
  | jpy => "¥"
  | chf => "CHF"
  | aud => "A$"
  | cad => "C$"

def code : Currency → String
  | usd => "USD"
  | eur => "EUR"
  | gbp => "GBP"
  | jpy => "JPY"
  | chf => "CHF"
  | aud => "AUD"
  | cad => "CAD"

def ofCode? (s : String) : Option Currency := all.find? fun c => c.code == s

theorem ofCode?_code (c : Currency) : ofCode? c.code = some c := by cases c <;> decide

end Currency

inductive MoneyError
  | currencyMismatch (left right : Currency)
  /-- The sum does not fit a decimal, even without any places. -/
  | overflow
  deriving DecidableEq

def MoneyError.message : MoneyError → String
  | currencyMismatch left right =>
    "Currency mismatch: cannot operate on " ++ left.code ++ " and " ++ right.code
  | overflow => "Addition overflowed"

/-- An amount in a currency. An amount that was written down elsewhere may have more places than
its currency; every operation below rounds them away. -/
structure Money where
  amount : Decimal
  currency : Currency
  deriving DecidableEq

namespace Money

/-- The amount rounded to the places of the currency. -/
def round (amount : Decimal) (currency : Currency) : Money :=
  ⟨amount.roundTo currency.places, currency⟩

def zero (currency : Currency) : Money := ⟨.zero, currency⟩

/-- A whole number of the currency's smallest unit. The amount has no places if it is whole, and
the places of the currency otherwise. -/
def ofMinor (units : Int64) (currency : Currency) : Money :=
  let unit := 10 ^ currency.places
  let m := units.toInt.natAbs
  have hm : m < 2 ^ 96 := by
    have h1 := units.toInt_lt
    have h2 := units.le_toInt
    omega
  let amount : Decimal :=
    if m % unit = 0 then
      ⟨units.toInt < 0, m / unit, 0, Nat.lt_of_le_of_lt (Nat.div_le_self ..) hm,
        Decimal.zero.scale_le⟩
    else ⟨units.toInt < 0, m, currency.places, hm, by cases currency <;> decide⟩
  round amount currency

def isZero (m : Money) : Bool := m.amount.isZero

/-- Below zero. A zero with a sign is not. -/
def isNegative (m : Money) : Bool := m.amount.negative && !m.amount.isZero

/-- Whether two amounts are the same number in the same currency. -/
def Same (a b : Money) : Prop := a.amount.Same b.amount ∧ a.currency = b.currency

instance (a b : Money) : Decidable (Same a b) := inferInstanceAs (Decidable (_ ∧ _))

def neg (m : Money) : Money := round m.amount.neg m.currency

def add (a b : Money) : Except MoneyError Money :=
  if a.currency ≠ b.currency then .error (.currencyMismatch a.currency b.currency)
  else match a.amount.add? b.amount with
    | some sum => .ok (round sum a.currency)
    | none => .error .overflow

/-- Adds the negated amount, which that negation rounds first. -/
def sub (a b : Money) : Except MoneyError Money := a.add b.neg

def toText (m : Money) : String := m.currency.code ++ " " ++ m.amount.toFixed m.currency.places

@[simp] theorem currency_round (d : Decimal) (c : Currency) : (round d c).currency = c := rfl

@[simp] theorem currency_neg (m : Money) : m.neg.currency = m.currency := rfl

theorem scale_round_le (d : Decimal) (c : Currency) : (round d c).amount.scale ≤ c.places :=
  d.scale_roundTo_le c.places

theorem add_of_currency_ne {a b : Money} (h : a.currency ≠ b.currency) :
    a.add b = .error (.currencyMismatch a.currency b.currency) := by rw [add, if_pos h]

end Money
end NameRegistry
