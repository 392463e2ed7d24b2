import NameRegistry.Proofs.Domain
import NameRegistry.Registration.Projection

/-! # Runs of a projection's parts

A part of a projection succeeds from a state of the source of identifiers if it gives a value and
leaves the source in another state. Parts that follow one another succeed if each of them does, from
the state that the one before has left, and fail where the first of them fails.
-/
namespace NameRegistry.Registration

/-- From one state of the source the part gives a value and leaves the source in another. -/
def Projecting.Gives {σ α : Type} (x : Projecting σ α) (s : σ) (a : α) (s' : σ) : Prop :=
  x.run.run s = (.ok a, s')

namespace Projecting

variable {σ α β : Type} {s s' : σ}

theorem gives_unique {x : Projecting σ α} {a b : α} {s₁ s₂ : σ} (h : x.Gives s a s₁)
    (h' : x.Gives s b s₂) : a = b ∧ s₁ = s₂ := by
  have heq : ((Except.ok a, s₁) : Except ProjectionError α × σ) = (.ok b, s₂) := h.symm.trans h'
  simpa using heq

theorem exists_gives {x : Projecting σ α} (h : (x.run.run s).1.toBool = true) :
    ∃ a s', x.Gives s a s' := by
  rcases hx : x.run.run s with ⟨a | a, s'⟩
  · rw [hx] at h
    cases h
  · exact ⟨a, s', hx⟩

theorem toOption_of_gives {x : Projecting σ α} {a : α} (h : x.Gives s a s') :
    (x.run.run s).1.toOption = some a := by
  rw [Gives] at h
  rw [h]
  rfl

theorem gives_of_toOption {x : Projecting σ α} {a : α} (h : (x.run.run s).1.toOption = some a) :
    ∃ s', x.Gives s a s' := by
  rcases hx : x.run.run s with ⟨e | b, s'⟩
  · rw [hx] at h
    cases h
  · rw [hx] at h
    cases h
    exact ⟨s', hx⟩

@[simp] theorem gives_pure {a b : α} : Gives (pure a) s b s' ↔ a = b ∧ s = s' := by
  show (Except.ok a, s) = (Except.ok b, s') ↔ _
  simp

@[simp] theorem gives_throw {e : ProjectionError} {a : α} : ¬Gives (throw e) s a s' := by
  intro h
  cases h

/-- The second part runs where the first has succeeded, from the state it has left. -/
theorem run_bind (x : Projecting σ α) (f : α → Projecting σ β) (s : σ) :
    (x >>= f).run.run s = match x.run.run s with
      | (.ok a, s₁) => (f a).run.run s₁
      | (.error e, s₁) => (.error e, s₁) := by
  show ((x >>= f).run.run s : Except _ β × σ) = _
  rw [ExceptT.run_bind, StateT.run_bind]
  rcases x.run.run s with ⟨a | a, s₁⟩ <;> rfl

theorem gives_bind {x : Projecting σ α} {f : α → Projecting σ β} {b : β} :
    Gives (x >>= f) s b s' ↔ ∃ a s₁, x.Gives s a s₁ ∧ (f a).Gives s₁ b s' := by
  rw [Gives, run_bind]
  constructor
  · intro h
    split at h
    · next a s₁ hx => exact ⟨a, s₁, hx, h⟩
    · cases h
  · rintro ⟨a, s₁, hx, h⟩
    rw [hx]
    exact h

@[simp] theorem gives_ofExcept {ε : Type} {wrap : ε → ProjectionError} {x : Except ε α} {a : α} :
    Gives (σ := σ) (.ofExcept wrap x) s a s' ↔ x = .ok a ∧ s = s' := by
  cases x with
  | error e =>
    show (Except.error (wrap e), s) = (Except.ok a, s') ↔ _
    simp
  | ok b =>
    show (Except.ok b, s) = (Except.ok a, s') ↔ _
    simp

theorem gives_drawId {engine : Engine σ} {kind : IdKind} {id : Id kind} :
    (engine.drawId kind).Gives s id s' ↔ engine.ids.draw kind s = (id.uuid, s') := by
  show ((.ok ⟨(engine.ids.draw kind s).1⟩, (engine.ids.draw kind s).2) :
    Except ProjectionError (Id kind) × σ) = (.ok id, s') ↔ _
  cases id
  simp [Prod.ext_iff]

/-- From the state of the source the part fails. -/
def Fails (x : Projecting σ α) (s : σ) (e : ProjectionError) : Prop := (x.run.run s).1 = .error e

instance (x : Projecting σ α) (s : σ) (e : ProjectionError) : Decidable (x.Fails s e) :=
  match h : (x.run.run s).1 with
  | .error e' => decidable_of_iff (e' = e) (by rw [Fails, h, Except.error.injEq])
  | .ok _ => isFalse (by rw [Fails, h]; exact nofun)

variable {e : ProjectionError}

theorem exists_fails {x : Projecting σ α} (h : ∀ a s', ¬x.Gives s a s') : ∃ e, x.Fails s e := by
  rcases hx : x.run.run s with ⟨e | a, s'⟩
  · exact ⟨e, congrArg Prod.fst hx⟩
  · exact absurd hx (h a s')

@[simp] theorem not_fails_pure {a : α} : ¬Fails (pure a) s e := by
  intro h
  cases h

@[simp] theorem fails_throw {e' : ProjectionError} :
    Fails (throw e' : Projecting σ α) s e ↔ e' = e := by
  show (Except.error e' : Except ProjectionError α) = .error e ↔ _
  rw [Except.error.injEq]

theorem fails_bind {x : Projecting σ α} {f : α → Projecting σ β} :
    Fails (x >>= f) s e ↔ x.Fails s e ∨ ∃ a s₁, x.Gives s a s₁ ∧ (f a).Fails s₁ e := by
  rw [Fails, Fails, run_bind]
  rcases hx : x.run.run s with ⟨e' | a, s₁⟩
  · have hgives : ∀ a s₁, ¬x.Gives s a s₁ := by
      intro a s₁ h
      cases hx.symm.trans h
    simp [hgives]
  · constructor
    · intro h
      exact .inr ⟨a, s₁, hx, h⟩
    · rintro (h | ⟨a', s', h, h'⟩)
      · cases h
      · cases hx.symm.trans h
        exact h'

@[simp] theorem fails_ofExcept {ε : Type} {wrap : ε → ProjectionError} {x : Except ε α} :
    Fails (σ := σ) (.ofExcept wrap x) s e ↔ ∃ err, x = .error err ∧ wrap err = e := by
  cases x with
  | error err =>
    show (Except.error (wrap err) : Except ProjectionError α) = .error e ↔ _
    simp
  | ok b =>
    show (Except.ok b : Except ProjectionError α) = .error e ↔ _
    simp

@[simp] theorem not_fails_drawId {engine : Engine σ} {kind : IdKind} :
    ¬(engine.drawId kind).Fails s e := by
  intro h
  cases h

end Projecting
end NameRegistry.Registration
