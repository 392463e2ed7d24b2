import NameRegistry.Money
import NameRegistry.Period

/-! # Failures shared by all parts

What money, the calendar and look-ups can fail with, and the sentence that reports it.
-/
namespace NameRegistry

/-- What a collaborator answers when it cannot answer, such as a price table that does not exist. -/
inductive LookupError
  | notFound (entity id : String)
  | invalidData (message : String)
  deriving DecidableEq

namespace LookupError

def message : LookupError → String
  | notFound entity id => "Not found: " ++ entity ++ " with id " ++ id
  | invalidData message => "Invalid data: " ++ message

def isNotFound : LookupError → Bool
  | notFound .. => true
  | invalidData _ => false

end LookupError

inductive Failure
  | money (cause : MoneyError)
  | temporal (cause : TemporalError)
  | lookup (cause : LookupError)
  | validation (problem : String)
  | configuration (problem : String)
  deriving DecidableEq

def Failure.message : Failure → String
  | money cause => "Money error: " ++ cause.message
  | temporal cause => "Temporal error: " ++ cause.message
  | lookup cause => "Port error: " ++ cause.message
  | validation problem => "Validation error: " ++ problem
  | configuration problem => "Configuration error: " ++ problem

variable {ε α β : Type} {x : Except ε α}

theorem bind_of_ok {a : α} (h : x = .ok a) (f : α → Except ε β) : (x >>= f) = f a := by
  rw [h]
  rfl

theorem bind_of_error {err : ε} (h : x = .error err) (f : α → Except ε β) :
    (x >>= f) = .error err := by
  rw [h]
  rfl

theorem bind_eq_ok {f : α → Except ε β} {b : β} :
    (x >>= f) = .ok b ↔ ∃ a, x = .ok a ∧ f a = .ok b := by
  cases x <;> simp [bind, Except.bind]

theorem bind_eq_error {f : α → Except ε β} {err : ε} :
    (x >>= f) = .error err ↔ x = .error err ∨ ∃ a, x = .ok a ∧ f a = .error err := by
  cases x <;> simp [bind, Except.bind]

theorem mapError_eq_ok {f : ε → β} {a : α} : x.mapError f = .ok a ↔ x = .ok a := by
  cases x with
  | error cause => exact ⟨nofun, nofun⟩
  | ok a' => constructor <;> rintro ⟨⟩ <;> rfl

theorem mapError_eq_error {f : ε → β} {err : β} :
    x.mapError f = .error err ↔ ∃ cause, x = .error cause ∧ f cause = err := by
  cases x with
  | ok a => exact ⟨nofun, nofun⟩
  | error cause =>
    constructor
    · rintro ⟨⟩
      exact ⟨cause, rfl, rfl⟩
    · rintro ⟨_, ⟨⟩, rfl⟩
      rfl

end NameRegistry
