import NameRegistry.EnumSet

/-! # Domain statuses

The status values of a domain. Two of them follow from the others: a domain without nameservers is
`inactive`, and one to which no status applies is `ok`. They are derived anew whenever a domain is
put together, so what was stored for them does not matter.
-/
namespace NameRegistry.Registration

inductive StatusValue
  | clientDeleteProhibited | clientHold | clientRenewProhibited | clientTransferProhibited
  | clientUpdateProhibited | inactive | ok | pendingCreate | pendingDelete | pendingTransfer
  | pendingUpdate | serverDeleteProhibited | serverHold | serverRenewProhibited
  | serverTransferProhibited | serverUpdateProhibited
  deriving DecidableEq

instance : Enumerated StatusValue where
  all := [.clientDeleteProhibited, .clientHold, .clientRenewProhibited, .clientTransferProhibited,
    .clientUpdateProhibited, .inactive, .ok, .pendingCreate, .pendingDelete, .pendingTransfer,
    .pendingUpdate, .serverDeleteProhibited, .serverHold, .serverRenewProhibited,
    .serverTransferProhibited, .serverUpdateProhibited]
  mem_all a := by cases a <;> decide

namespace StatusValue

/-- The name of the status in the provisioning protocol. -/
def eppName : StatusValue → String
  | clientDeleteProhibited => "clientDeleteProhibited"
  | clientHold => "clientHold"
  | clientRenewProhibited => "clientRenewProhibited"
  | clientTransferProhibited => "clientTransferProhibited"
  | clientUpdateProhibited => "clientUpdateProhibited"
  | inactive => "inactive"
  | ok => "ok"
  | pendingCreate => "pendingCreate"
  | pendingDelete => "pendingDelete"
  | pendingTransfer => "pendingTransfer"
  | pendingUpdate => "pendingUpdate"
  | serverDeleteProhibited => "serverDeleteProhibited"
  | serverHold => "serverHold"
  | serverRenewProhibited => "serverRenewProhibited"
  | serverTransferProhibited => "serverTransferProhibited"
  | serverUpdateProhibited => "serverUpdateProhibited"

/-- Derived from the shape of the domain, never set by anyone. -/
def isImplicit : StatusValue → Bool
  | ok | inactive => true
  | _ => false

end StatusValue

abbrev StatusSet := EnumSet StatusValue

/-- Drops the implicit statuses and derives them again. -/
def StatusSet.withImplicit (statuses : StatusSet) (hasNameservers : Bool) : StatusSet :=
  let explicit := EnumSet.filter (fun s => !s.isImplicit) statuses
  let placed := if hasNameservers then explicit else explicit.insert .inactive
  if placed.isEmpty then placed.insert .ok else placed

theorem StatusSet.mem_withImplicit {statuses : StatusSet} {hasNameservers : Bool}
    {s : StatusValue} :
    s ∈ StatusSet.withImplicit statuses hasNameservers ↔
      (s ∈ statuses ∧ s.isImplicit = false) ∨ (s = .inactive ∧ hasNameservers = false) ∨
        (s = .ok ∧ hasNameservers = true ∧ ∀ t ∈ statuses, t.isImplicit = true) := by
  cases hasNameservers
  · have hne : (EnumSet.insert StatusValue.inactive
        (EnumSet.filter (fun s => !s.isImplicit) statuses)).isEmpty = false := by
      rw [Bool.eq_false_iff, Ne, EnumSet.isEmpty_iff]
      intro h
      exact h .inactive (by simp)
    simp only [withImplicit, Bool.false_eq_true, ↓reduceIte, hne, EnumSet.mem_insert,
      EnumSet.mem_filter]
    grind
  · simp only [withImplicit, ↓reduceIte]
    split
    · next h =>
      rw [EnumSet.isEmpty_iff] at h
      simp only [EnumSet.mem_filter, Bool.not_eq_true'] at h
      simp only [EnumSet.mem_insert, EnumSet.mem_filter]
      grind
    · next h =>
      rw [EnumSet.isEmpty_iff] at h
      simp only [EnumSet.mem_filter, Bool.not_eq_true'] at h ⊢
      grind

/-- Explicit statuses are kept. -/
theorem StatusSet.mem_withImplicit_of_explicit {statuses : StatusSet} {hasNameservers : Bool}
    {s : StatusValue} (h : s.isImplicit = false) :
    s ∈ statuses.withImplicit hasNameservers ↔ s ∈ statuses := by
  rw [mem_withImplicit]
  constructor
  · rintro (⟨hs, -⟩ | ⟨rfl, -⟩ | ⟨rfl, -⟩)
    · exact hs
    · cases h
    · cases h
  · exact fun hs => .inl ⟨hs, h⟩

/-- Deriving the implicit statuses once more changes nothing. -/
theorem StatusSet.withImplicit_withImplicit (statuses : StatusSet) (hasNameservers : Bool) :
    StatusSet.withImplicit (StatusSet.withImplicit statuses hasNameservers) hasNameservers =
      StatusSet.withImplicit statuses hasNameservers := by
  ext s
  have hok : StatusValue.ok.isImplicit = true := rfl
  have hin : StatusValue.inactive.isImplicit = true := rfl
  simp only [mem_withImplicit]
  grind

end NameRegistry.Registration
