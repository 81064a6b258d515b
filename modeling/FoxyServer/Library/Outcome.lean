import Mathlib.Tactic.Common

/-!
This module contains the outcome of running a piece of C++ code: it returns a value, an exception
leaves it, or its behaviour is undefined. Outcomes compose as a monad in which the first exception or
undefined step decides.
-/

inductive Exn where
  | invalidArgument
  | outOfRange
  | systemError
  | runtimeError
  deriving DecidableEq, Repr

inductive Outcome (α : Type u) where
  | ok (a : α)
  | throws (e : Exn)
  | undefined
  deriving DecidableEq, Repr

namespace Outcome

variable {α β γ : Type u}

protected def bind (x : Outcome α) (f : α → Outcome β) : Outcome β :=
  match x with
  | ok a => f a
  | throws e => throws e
  | undefined => undefined

instance : Monad Outcome where
  pure := ok
  bind := Outcome.bind

def Returns (x : Outcome α) : Prop :=
  ∃ a, x = ok a

instance (x : Outcome α) : Decidable x.Returns :=
  match x with
  | ok a => .isTrue ⟨a, rfl⟩
  | throws _ => .isFalse (by rintro ⟨_, h⟩; cases h)
  | undefined => .isFalse (by rintro ⟨_, h⟩; cases h)

def Yields (x : Outcome α) (p : α → Prop) : Prop :=
  ∃ a, x = ok a ∧ p a

instance (x : Outcome α) (p : α → Prop) [DecidablePred p] : Decidable (x.Yields p) :=
  match x with
  | ok a => decidable_of_iff (p a) ⟨fun h => ⟨a, rfl, h⟩, fun ⟨_, heq, h⟩ => ok.inj heq ▸ h⟩
  | throws _ => .isFalse (by rintro ⟨_, h, _⟩; cases h)
  | undefined => .isFalse (by rintro ⟨_, h, _⟩; cases h)

@[simp]
theorem pure_eq_ok (a : α) : (pure a : Outcome α) = ok a := rfl

@[simp]
theorem ok_bind (a : α) (f : α → Outcome β) : (ok a >>= f) = f a := rfl

@[simp]
theorem throws_bind (e : Exn) (f : α → Outcome β) : (throws e >>= f) = throws e := rfl

@[simp]
theorem undefined_bind (f : α → Outcome β) : ((undefined : Outcome α) >>= f) = undefined := rfl

theorem bind_eq_ok {x : Outcome α} {f : α → Outcome β} {b : β}
    : (x >>= f) = ok b ↔ ∃ a, x = ok a ∧ f a = ok b := by
  cases x with
  | ok a => simp
  | throws e => simp
  | undefined => simp

theorem exists_bind {x : Outcome α} {f : α → Outcome β} {a : α} {p : β → Prop} (hx : x = ok a)
    (h : ∃ b, f a = ok b ∧ p b) : ∃ b, (x >>= f) = ok b ∧ p b := by
  rw [hx]
  exact h

theorem bind_assoc {x : Outcome α} {f : α → Outcome β} {g : β → Outcome γ}
    : (x >>= f >>= g) = (x >>= fun a => f a >>= g) := by
  cases x <;> rfl

theorem bind_congr {x : Outcome α} {f g : α → Outcome β} (h : ∀ a, x = ok a → f a = g a)
    : (x >>= f) = (x >>= g) := by
  cases x with
  | ok a => exact h a rfl
  | throws e => rfl
  | undefined => rfl

theorem bind_eq_undefined {x : Outcome α} {f : α → Outcome β}
    : (x >>= f) = undefined ↔ x = undefined ∨ ∃ a, x = ok a ∧ f a = undefined := by
  cases x with
  | ok a => simp
  | throws e => simp
  | undefined => simp

@[simp]
theorem returns_ok (a : α) : (ok a).Returns := ⟨a, rfl⟩

@[simp]
theorem not_returns_throws (e : Exn) : ¬(throws e : Outcome α).Returns := by
  rintro ⟨_, h⟩
  cases h

@[simp]
theorem not_returns_undefined : ¬(undefined : Outcome α).Returns := by
  rintro ⟨_, h⟩
  cases h

theorem not_returns_of_eq_undefined {x : Outcome α} (h : x = undefined) : ¬x.Returns := by
  rw [h]
  exact not_returns_undefined

def Throws (x : Outcome α) : Prop :=
  ∃ e, x = throws e

@[simp]
theorem throws_throws (e : Exn) : (throws e : Outcome α).Throws := ⟨e, rfl⟩

@[simp]
theorem not_throws_ok (a : α) : ¬(ok a).Throws := by
  rintro ⟨_, h⟩
  cases h

@[simp]
theorem not_throws_undefined : ¬(undefined : Outcome α).Throws := by
  rintro ⟨_, h⟩
  cases h

theorem bind_throws_iff {x : Outcome α} {f : α → Outcome β}
    : (x >>= f).Throws ↔ x.Throws ∨ ∃ a, x = ok a ∧ (f a).Throws := by
  cases x with
  | ok a => simp
  | throws e => simp
  | undefined => simp

theorem throws_iff_not_returns {x : Outcome α} (h : x ≠ undefined) : x.Throws ↔ ¬x.Returns := by
  cases x with
  | ok a => simp
  | throws e => simp
  | undefined => exact absurd rfl h

theorem bind_ok_eq_bind_ok {x y : Outcome α} {f g : α → β}
    (h : (x >>= fun a => ok (f a)) = y >>= fun a => ok (g a))
    : (∃ a b, x = ok a ∧ y = ok b ∧ f a = g b) ∨ ¬x.Returns ∧ x = y := by
  cases x with
  | ok a =>
    cases y with
    | ok b => exact .inl ⟨a, b, rfl, rfl, ok.inj h⟩
    | throws e => cases h
    | undefined => cases h
  | throws e =>
    cases y with
    | ok b => cases h
    | throws e' =>
      rw [throws_bind, throws_bind, throws.injEq] at h
      rw [h]
      exact .inr ⟨not_returns_throws e', rfl⟩
    | undefined => cases h
  | undefined =>
    cases y with
    | ok b => cases h
    | throws e' => cases h
    | undefined => exact .inr ⟨not_returns_undefined, rfl⟩

theorem returns_bind {x : Outcome α} {f : α → Outcome β}
    : (x >>= f).Returns ↔ ∃ a, x = ok a ∧ (f a).Returns := by
  cases x with
  | ok a => simp
  | throws e => simp
  | undefined => simp

@[simp]
theorem yields_ok {a : α} {p : α → Prop} : (ok a).Yields p ↔ p a := by
  simp [Yields]

theorem yields_bind {x : Outcome α} {f : α → Outcome β} {p : β → Prop}
    : (x >>= f).Yields p ↔ x.Yields (fun a => (f a).Yields p) := by
  cases x with
  | ok a => simp
  | throws e => simp [Yields]
  | undefined => simp [Yields]

end Outcome
