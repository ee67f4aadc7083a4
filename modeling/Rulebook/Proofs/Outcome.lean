import Rulebook.Value.Access

/-!
# Outcomes

Lemmas on steps that give a result or fail, and `Similar`, which relates the outcomes of two
computations that take the same course: they give related results or the same failure.
-/

namespace Rulebook

variable {ε α β γ δ : Type}

/-! ## Results of steps -/

/-- A sequence ends with a result if both parts do. -/
theorem bind_eq_ok {x : Except ε α} {f : α → Except ε β} {b : β} :
    x >>= f = .ok b ↔ ∃ a, x = .ok a ∧ f a = .ok b := by
  cases x with
  | ok a =>
    constructor
    · intro h
      exact ⟨a, rfl, h⟩
    · rintro ⟨_, ⟨⟩, h⟩
      exact h
  | error e =>
    constructor
    · intro h
      cases h
    · rintro ⟨_, ⟨⟩, _⟩

/-- A sequence fails if its first part does, or its second part after it. -/
theorem bind_eq_error {x : Except ε α} {f : α → Except ε β} {e : ε} :
    x >>= f = .error e ↔ x = .error e ∨ ∃ a, x = .ok a ∧ f a = .error e := by
  cases x with
  | ok a =>
    constructor
    · intro h
      exact .inr ⟨a, rfl, h⟩
    · rintro (⟨⟨⟩⟩ | ⟨_, ⟨⟩, h⟩)
      exact h
  | error e' =>
    constructor
    · intro h
      cases h
      exact .inl rfl
    · rintro (⟨⟨⟩⟩ | ⟨_, ⟨⟩, _⟩)
      rfl

/-- A step without a result passes its check and leaves the rest to the next. -/
theorem check_bind_eq_ok {x : Except ε Unit} {f : Unit → Except ε β} {b : β} :
    x >>= f = .ok b ↔ x = .ok () ∧ f () = .ok b := by
  rw [bind_eq_ok]
  exact ⟨fun ⟨(), hx, hf⟩ => ⟨hx, hf⟩, fun ⟨hx, hf⟩ => ⟨(), hx, hf⟩⟩

theorem Failure.ofViolation_eq_ok {x : Except Violation α} {a : α} :
    (ofViolation x : Except (Failure ε) α) = .ok a ↔ x = .ok a := by
  cases x with
  | ok b => rw [ofViolation, Except.ok.injEq, Except.ok.injEq]
  | error v => exact ⟨nofun, nofun⟩

theorem Failure.ofError_eq_ok {x : Except ε α} {a : α} : ofError x = .ok a ↔ x = .ok a := by
  cases x with
  | ok b => rw [ofError, Except.ok.injEq, Except.ok.injEq]
  | error e => exact ⟨nofun, nofun⟩

/-! ## Similar outcomes -/

/-- Two outcomes are similar if they are related results or the same failure. -/
def Similar (R : α → β → Prop) : Except ε α → Except ε β → Prop
  | .ok a, .ok b => R a b
  | .error e, .error e' => e = e'
  | _, _ => False

namespace Similar

variable {R : α → β → Prop}

/-- An outcome is similar to itself. -/
protected theorem refl {R : α → α → Prop} (hR : ∀ a, R a a) (o : Except ε α) : Similar R o o := by
  cases o with
  | ok a => exact hR a
  | error e => exact Eq.refl e

/-- What is similar to a result is a related result. -/
theorem of_ok {a : α} {o : Except ε β} (h : Similar R (.ok a) o) : ∃ b, o = .ok b ∧ R a b := by
  cases o with
  | ok b => exact ⟨b, rfl, h⟩
  | error e => exact h.elim

/-- What is similar to a failure is the same failure. -/
theorem of_error {e : ε} {o : Except ε β} (h : Similar R (.error e) o) : o = .error e := by
  cases o with
  | ok b => exact h.elim
  | error e' => exact congrArg Except.error (Eq.symm h)

/-- Steps that take related results to similar outcomes keep outcomes similar. -/
protected theorem bind {S : γ → δ → Prop} {x : Except ε α} {y : Except ε β} {f : α → Except ε γ}
    {g : β → Except ε δ} (h : Similar R x y) (hf : ∀ a b, R a b → Similar S (f a) (g b)) :
    Similar S (x >>= f) (y >>= g) := by
  cases x with
  | ok a =>
    obtain ⟨b, rfl, hab⟩ := h.of_ok
    exact hf a b hab
  | error e =>
    obtain rfl := h.of_error
    exact Eq.refl e

end Similar

end Rulebook
