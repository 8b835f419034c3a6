import Mathlib.Tactic

/-!
# Computations that may panic

A call either returns a value or panics (a failed assertion, an index out of range).
-/

namespace Rns

/-- The outcome of a call: a returned value, or a panic. -/
inductive Outcome (α : Type*) where
  | value (a : α)
  | panic
  deriving Repr, DecidableEq

namespace Outcome

universe u v

variable {α β : Type u}

/-- Run `f` on the returned value; a panic stops the computation. -/
def bind (x : Outcome α) (f : α → Outcome β) : Outcome β :=
  match x with
  | .value a => f a
  | .panic => .panic

instance : Monad Outcome where
  pure := .value
  bind := bind

/-- `assert!(c)`: panic unless `c` holds. -/
def require (c : Prop) [Decidable c] : Outcome PUnit := if c then .value ⟨⟩ else .panic

def Returns (x : Outcome α) : Prop := ∃ a, x = .value a

@[simp] theorem pure_eq (a : α) : (pure a : Outcome α) = .value a := rfl

@[simp] theorem value_bind (a : α) (f : α → Outcome β) : (Outcome.value a >>= f) = f a := rfl

@[simp] theorem panic_bind (f : α → Outcome β) : ((.panic : Outcome α) >>= f) = .panic := rfl

theorem require_of {c : Prop} [Decidable c] (h : c) : require.{u} c = .value ⟨⟩ := if_pos h

theorem require_of_not {c : Prop} [Decidable c] (h : ¬c) : require.{u} c = .panic := if_neg h

@[simp] theorem returns_value (a : α) : (Outcome.value a).Returns := ⟨a, rfl⟩

@[simp] theorem not_returns_panic : ¬(.panic : Outcome α).Returns := fun ⟨_, h⟩ => nomatch h

theorem returns_iff_ne_panic (x : Outcome α) : x.Returns ↔ x ≠ .panic := by
  cases x <;> simp

theorem returns_bind_value {x : Outcome α} {f : α → β} :
    (x >>= fun a => Outcome.value (f a)).Returns ↔ x.Returns := by
  cases x <;> simp

end Outcome

end Rns
