import Mathlib

/-!
# Stateful computations that may throw

`Fallible σ ε α` is a computation on states `σ` that returns an `α` or throws an `ε`. The
state outlives an exception, as the world around a program does. `attempt` is a `try` block
with one `catch` clause, and `within` runs a computation on a part of a larger state.

## Main definitions

* `Fallible` — the monad.
* `Fallible.Keeps` — a computation leaves a part of the state as it is.
-/

/-- A computation on states `σ` that returns or throws. -/
def Fallible (σ ε α : Type) : Type := σ → Except ε α × σ

namespace Fallible
variable {σ τ ε α β : Type}

instance : Monad (Fallible σ ε) where
  pure a := fun s => (.ok a, s)
  bind x f := fun s =>
    match x s with
    | (.ok a, s') => f a s'
    | (.error e, s') => (.error e, s')

/-- Throw an exception. -/
def throw (e : ε) : Fallible σ ε α := fun s => (.error e, s)

/-- The current state. -/
def get : Fallible σ ε σ := fun s => (.ok s, s)

/-- Change the state. -/
def modify (f : σ → σ) : Fallible σ ε Unit := fun s => (.ok (), f s)

/-- Go on when `p` holds, and throw `e` when it does not. -/
def require (p : Prop) [Decidable p] (e : ε) : Fallible σ ε Unit :=
  if p then pure () else throw e

/-- A `try` block: an exception that `caught` selects goes to the `catch` clause. -/
def attempt (x : Fallible σ ε α) (caught : ε → Option (Fallible σ ε α)) : Fallible σ ε α :=
  fun s =>
    match x s with
    | (.ok a, s') => (.ok a, s')
    | (.error e, s') =>
        match caught e with
        | some y => y s'
        | none => (.error e, s')

/-- Run a computation on the second component of the state. -/
def within (x : Fallible σ ε α) : Fallible (τ × σ) ε α := fun s =>
  let r := x s.2
  (r.1, (s.1, r.2))

section
variable (a : α) (e : ε) (s : σ)

@[simp] theorem pure_apply : (pure a : Fallible σ ε α) s = (.ok a, s) := rfl
@[simp] theorem throw_apply : (throw e : Fallible σ ε α) s = (.error e, s) := rfl
@[simp] theorem get_apply : (get : Fallible σ ε σ) s = (.ok s, s) := rfl
@[simp] theorem modify_apply (f : σ → σ) : (modify f : Fallible σ ε Unit) s = (.ok (), f s) := rfl
@[simp] theorem within_apply (x : Fallible σ ε α) (t : τ) :
    within x (t, s) = ((x s).1, (t, (x s).2)) := rfl

end

theorem require_of {p : Prop} [Decidable p] (h : p) (e : ε) (s : σ) :
    require p e s = (.ok (), s) := by
  rw [require, if_pos h]
  rfl

theorem require_of_not {p : Prop} [Decidable p] (h : ¬p) (e : ε) (s : σ) :
    require p e s = (.error e, s) := by
  rw [require, if_neg h]
  rfl

theorem bind_of_ok {x : Fallible σ ε α} {s s' : σ} {a : α} (h : x s = (.ok a, s'))
    (f : α → Fallible σ ε β) : (x >>= f) s = f a s' := by
  change (match x s with
    | (.ok a, s') => f a s'
    | (.error e, s') => (.error e, s')) = _
  rw [h]

/-- Computations that go the same way go on the same way. -/
theorem bind_of_eq {x y : Fallible σ ε α} {s s' : σ} (h : x s = y s') (f : α → Fallible σ ε β) :
    (x >>= f) s = (y >>= f) s' := by
  change (match x s with | (.ok a, t) => f a t | (.error e, t) => (.error e, t)) =
    (match y s' with | (.ok a, t) => f a t | (.error e, t) => (.error e, t))
  rw [h]

theorem bind_of_error {x : Fallible σ ε α} {s s' : σ} {e : ε} (h : x s = (.error e, s'))
    (f : α → Fallible σ ε β) : (x >>= f) s = (.error e, s') := by
  change (match x s with
    | (.ok a, s') => f a s'
    | (.error e, s') => (.error e, s')) = _
  rw [h]

/-- A sequence returns exactly when both of its parts do. -/
theorem bind_eq_ok {x : Fallible σ ε α} {f : α → Fallible σ ε β} {s s' : σ} {b : β} :
    (x >>= f) s = (.ok b, s') ↔ ∃ a s₁, x s = (.ok a, s₁) ∧ f a s₁ = (.ok b, s') := by
  rcases hx : x s with ⟨r, s₁⟩
  cases r with
  | ok a =>
      rw [bind_of_ok hx]
      constructor
      · intro h
        exact ⟨a, s₁, rfl, h⟩
      · rintro ⟨a', s₂, heq, h⟩
        cases heq
        exact h
  | error e =>
      rw [bind_of_error hx]
      constructor
      · intro h
        cases h
      · rintro ⟨_, _, heq, _⟩
        cases heq

/-- A sequence throws what its first part throws, or what its second part does. -/
theorem bind_eq_error {x : Fallible σ ε α} {f : α → Fallible σ ε β} {s s' : σ} {e : ε} :
    (x >>= f) s = (.error e, s') ↔
      x s = (.error e, s') ∨ ∃ a s₁, x s = (.ok a, s₁) ∧ f a s₁ = (.error e, s') := by
  rcases hx : x s with ⟨r, s₁⟩
  cases r with
  | ok a =>
      rw [bind_of_ok hx]
      constructor
      · intro h
        exact Or.inr ⟨a, s₁, rfl, h⟩
      · rintro (heq | ⟨a', s₂, heq, h⟩)
        · cases heq
        · cases heq
          exact h
  | error e' =>
      rw [bind_of_error hx]
      constructor
      · intro h
        cases h
        exact Or.inl rfl
      · rintro (heq | ⟨_, _, heq, _⟩)
        · cases heq
          rfl
        · cases heq

theorem bind_assoc {γ : Type} (x : Fallible σ ε α) (f : α → Fallible σ ε β)
    (g : β → Fallible σ ε γ) : ((x >>= f) >>= g) = (x >>= fun a => f a >>= g) := by
  funext s
  rcases hx : x s with ⟨_ | a, s₁⟩
  · rw [bind_of_error hx, bind_of_error (bind_of_error hx f)]
  · rw [bind_of_ok hx]
    rcases hf : f a s₁ with ⟨_ | b, s₂⟩
    · rw [bind_of_error hf, bind_of_error ((bind_of_ok hx f).trans hf)]
    · rw [bind_of_ok hf, bind_of_ok ((bind_of_ok hx f).trans hf)]

/-! ### Sequences that begin with a step -/

@[simp] theorem get_bind (f : σ → Fallible σ ε β) (s : σ) : (get >>= f) s = f s s := rfl

@[simp] theorem modify_bind (g : σ → σ) (f : Unit → Fallible σ ε β) (s : σ) :
    (modify g >>= f) s = f () (g s) := rfl

theorem require_bind_eq_ok {p : Prop} [Decidable p] {e : ε} {f : Unit → Fallible σ ε β}
    {s s' : σ} {b : β} : (require p e >>= f) s = (.ok b, s') ↔ p ∧ f () s = (.ok b, s') := by
  by_cases h : p
  · rw [bind_of_ok (require_of h e s)]
    exact (and_iff_right h).symm
  · rw [bind_of_error (require_of_not h e s)]
    simp [h]

theorem require_bind_eq_error {p : Prop} [Decidable p] {e e' : ε} {f : Unit → Fallible σ ε β}
    {s s' : σ} (h : (require p e >>= f) s = (.error e', s')) :
    e' = e ∨ f () s = (.error e', s') := by
  by_cases hp : p
  · rw [bind_of_ok (require_of hp e s)] at h
    exact Or.inr h
  · rw [bind_of_error (require_of_not hp e s)] at h
    cases h
    exact Or.inl rfl

theorem pure_eq_ok {a b : α} {s s' : σ} :
    (pure a : Fallible σ ε α) s = (.ok b, s') ↔ b = a ∧ s' = s := by
  simp [eq_comm]

theorem get_eq_ok {a s s' : σ} :
    (get : Fallible σ ε σ) s = (.ok a, s') ↔ a = s ∧ s' = s := by
  simp [eq_comm]

theorem modify_eq_ok {f : σ → σ} {u : Unit} {s s' : σ} :
    (modify f : Fallible σ ε Unit) s = (.ok u, s') ↔ s' = f s := by
  simp [eq_comm]

theorem throw_eq_ok {e : ε} {a : α} {s s' : σ} :
    (throw e : Fallible σ ε α) s = (.ok a, s') ↔ False := by
  simp

theorem attempt_of_ok {x : Fallible σ ε α} {s s' : σ} {a : α} (h : x s = (.ok a, s'))
    (caught : ε → Option (Fallible σ ε α)) : attempt x caught s = (.ok a, s') := by
  rw [attempt, h]

theorem attempt_of_caught {x y : Fallible σ ε α} {s s' : σ} {e : ε} (h : x s = (.error e, s'))
    {caught : ε → Option (Fallible σ ε α)} (hc : caught e = some y) :
    attempt x caught s = y s' := by
  simp only [attempt, h, hc]

theorem attempt_of_uncaught {x : Fallible σ ε α} {s s' : σ} {e : ε} (h : x s = (.error e, s'))
    {caught : ε → Option (Fallible σ ε α)} (hc : caught e = none) :
    attempt x caught s = (.error e, s') := by
  simp only [attempt, h, hc]

theorem within_bind_eq_ok {x : Fallible σ ε α} {f : α → Fallible (τ × σ) ε β} {t : τ} {s : σ}
    {s' : τ × σ} {b : β} : (within x >>= f) (t, s) = (.ok b, s') ↔
      ∃ a s₁, x s = (.ok a, s₁) ∧ f a (t, s₁) = (.ok b, s') := by
  rw [bind_eq_ok]
  constructor
  · rintro ⟨a, s₁, hx, hf⟩
    rw [within_apply, Prod.mk.injEq] at hx
    obtain ⟨hok, rfl⟩ := hx
    exact ⟨a, (x s).2, Prod.ext hok rfl, hf⟩
  · rintro ⟨a, s₁, hx, hf⟩
    exact ⟨a, (t, s₁), by rw [within_apply, hx], hf⟩

/-! ## Frames -/

/-- The computation leaves this part of the state as it is, however it ends. -/
def Keeps (part : σ → τ) (x : Fallible σ ε α) : Prop := ∀ s, part (x s).2 = part s

section
variable {part : σ → τ}

theorem keeps_pure (a : α) : Keeps part (pure a : Fallible σ ε α) := fun _ => rfl

theorem keeps_throw (e : ε) : Keeps part (throw e : Fallible σ ε α) := fun _ => rfl

theorem keeps_get {part : σ → τ} : Keeps part (get : Fallible σ ε σ) := fun _ => rfl

theorem keeps_require (p : Prop) [Decidable p] (e : ε) :
    Keeps part (require p e : Fallible σ ε Unit) := by
  intro s
  by_cases h : p
  · rw [require_of h]
  · rw [require_of_not h]

theorem Keeps.bind {x : Fallible σ ε α} {f : α → Fallible σ ε β} (hx : Keeps part x)
    (hf : ∀ a, Keeps part (f a)) : Keeps part (x >>= f) := by
  intro s
  rcases h : x s with ⟨r, s₁⟩
  have hs : part s₁ = part s := by
    have := hx s
    rwa [h] at this
  cases r with
  | ok a =>
      rw [bind_of_ok h, hf a s₁, hs]
  | error e =>
      rw [bind_of_error h]
      exact hs

theorem Keeps.within {τ' : Type} {x : Fallible σ ε α} (h : Keeps part x) :
    Keeps (fun s : τ' × σ => (s.1, part s.2)) (Fallible.within x) := by
  intro s
  exact Prod.ext rfl (h s.2)

end
end Fallible
