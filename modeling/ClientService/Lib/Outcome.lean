import Mathlib

/-!
# Outcomes of calls that may fail an assertion or never return

`Outcome α` is what a call with a bounded call budget ends in: a value, a failed
assertion, or `running` when the budget is spent before the call has returned.
A recursive program is written as a function of its budget. `Outcome.Le` orders
outcomes by definedness: a larger budget may only turn `running` into something
else, so a call that ends with one budget ends in the same way with any larger one.
-/

universe u v

/-- What a call ends in under a call budget. -/
inductive Outcome (α : Type u) where
  /-- The call returns. -/
  | ret (a : α)
  /-- A failed assertion has ended the process. -/
  | aborted
  /-- The call budget is spent and the call has not returned. -/
  | running
  deriving DecidableEq, Repr

namespace Outcome

variable {α : Type u} {β : Type v}

/-- Sequencing: only a call that returned has a continuation. -/
def bind : Outcome α → (α → Outcome β) → Outcome β
  | ret a, f => f a
  | aborted, _ => aborted
  | running, _ => running

instance : Monad Outcome where
  pure := ret
  bind := bind

@[simp] theorem monad_pure_eq (a : α) : (Pure.pure a : Outcome α) = ret a := rfl

section
variable {α β : Type u}
@[simp] theorem ret_bind (a : α) (f : α → Outcome β) : (ret a >>= f) = f a := rfl
@[simp] theorem aborted_bind (f : α → Outcome β) : (aborted >>= f) = aborted := rfl
@[simp] theorem running_bind (f : α → Outcome β) : (running >>= f) = running := rfl

theorem bind_assoc {γ : Type u} (x : Outcome α) (f : α → Outcome β) (g : β → Outcome γ) :
    ((x >>= f) >>= g) = (x >>= fun a => f a >>= g) := by
  cases x <;> rfl

/-- A sequence returns exactly when both of its parts do. -/
theorem bind_eq_ret {x : Outcome α} {f : α → Outcome β} {c : β} :
    (x >>= f) = ret c ↔ ∃ a, x = ret a ∧ f a = ret c := by
  cases x <;> simp
end

/-- An assertion of a build that checks its assertions when `enabled`. -/
def assert (enabled : Bool) (p : Prop) [Decidable p] : Outcome PUnit.{u + 1} :=
  if enabled = true ∧ ¬p then aborted else ret ⟨⟩

@[simp] theorem assert_of (enabled : Bool) {p : Prop} [Decidable p] (h : p) :
    assert enabled p = ret ⟨⟩ := by simp [assert, h]

@[simp] theorem assert_disabled (p : Prop) [Decidable p] : assert false p = ret ⟨⟩ := by
  simp [assert]

theorem assert_enabled {p : Prop} [Decidable p] (h : ¬p) :
    (assert true p : Outcome PUnit) = aborted := by simp [assert, h]

/-- `x` is `y`, or has not returned yet. -/
def Le (x y : Outcome α) : Prop := x = running ∨ x = y

instance : LE (Outcome α) := ⟨Le⟩

@[refl] protected theorem le_refl (x : Outcome α) : x ≤ x := Or.inr rfl

@[simp] theorem running_le (x : Outcome α) : running ≤ x := Or.inl rfl

/-- A call that has ended does not change its outcome under a larger budget. -/
theorem eq_of_le {x y : Outcome α} (h : x ≤ y) (hx : x ≠ running) : y = x := by
  rcases h with h | h
  · exact absurd h hx
  · exact h.symm

theorem eq_running_of_le {x y : Outcome α} (h : x ≤ y) (hy : y = running) : x = running := by
  rcases h with h | h
  · exact h
  · exact h.trans hy

/-- Sequencing preserves definedness. -/
theorem bind_le_bind {α β : Type u} {x y : Outcome α} {f g : α → Outcome β} (h : x ≤ y)
    (hf : ∀ a, f a ≤ g a) : (x >>= f) ≤ (y >>= g) := by
  rcases h with rfl | rfl
  · simp
  · cases x with
    | ret a => exact hf a
    | aborted => exact Outcome.le_refl _
    | running => exact Outcome.le_refl _

/-- A family that grows in definedness grows over any number of steps. -/
theorem le_of_succ_le {f : ℕ → Outcome α} (h : ∀ n, f n ≤ f (n + 1)) {m n : ℕ} (hmn : m ≤ n) :
    f m ≤ f n := by
  induction hmn with
  | refl => exact Outcome.le_refl _
  | @step n _ ih =>
      by_cases hm : f m = running
      · exact Or.inl hm
      · have hn : f n = f m := eq_of_le ih hm
        have hs := h n
        rwa [hn] at hs

/-- Two outcomes of the same kind, with related values. -/
inductive Rel {α : Type u} {β : Type v} (R : α → β → Prop) : Outcome α → Outcome β → Prop
  | ret {a b} (h : R a b) : Rel R (ret a) (ret b)
  | aborted : Rel R aborted aborted
  | running : Rel R running running

/-- Related parts make related sequences. -/
theorem Rel.bind {α γ : Type u} {β δ : Type v} {R : α → β → Prop} {S : γ → δ → Prop}
    {x : Outcome α} {y : Outcome β} {f : α → Outcome γ} {g : β → Outcome δ} (h : Rel R x y)
    (hf : ∀ a b, R a b → Rel S (f a) (g b)) : Rel S (x >>= f) (y >>= g) := by
  cases h with
  | ret h => exact hf _ _ h
  | aborted => exact .aborted
  | running => exact .running

theorem Rel.of_refl {R : α → α → Prop} (h : ∀ a, R a a) (x : Outcome α) : Rel R x x := by
  cases x with
  | ret a => exact .ret (h a)
  | aborted => exact .aborted
  | running => exact .running

/-- Outcomes that every continuation takes to the same end. -/
theorem Rel.bind_eq {α β γ : Type u} {R : α → β → Prop} {x : Outcome α} {y : Outcome β}
    {f : α → Outcome γ} {g : β → Outcome γ} (h : Rel R x y) (hf : ∀ a b, R a b → f a = g b) :
    (x >>= f) = (y >>= g) := by
  cases h with
  | ret h => exact hf _ _ h
  | aborted => rfl
  | running => rfl

theorem Rel.ret_iff {R : α → β → Prop} {a : α} {y : Outcome β} :
    Rel R (Outcome.ret a) y ↔ ∃ b, y = Outcome.ret b ∧ R a b := by
  constructor
  · rintro ⟨h⟩
    exact ⟨_, rfl, h⟩
  · rintro ⟨b, rfl, h⟩
    exact .ret h

theorem Rel.running_iff {R : α → β → Prop} {x : Outcome α} {y : Outcome β} (h : Rel R x y) :
    x = Outcome.running ↔ y = Outcome.running := by
  cases h <;> simp

theorem Rel.aborted_iff {R : α → β → Prop} {x : Outcome α} {y : Outcome β} (h : Rel R x y) :
    x = Outcome.aborted ↔ y = Outcome.aborted := by
  cases h <;> simp

end Outcome
