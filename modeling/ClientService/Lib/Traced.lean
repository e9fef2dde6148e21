import ClientService.Lib.Outcome

/-!
# Calls with a trace

A safety claim about a program speaks of what happens on the way: every store, every
assertion, every call that is made. `Traced ε α` is an `Outcome α` with the events of
type `ε` that precede it, in their order. A call that fails or does not return keeps the
events up to there.

`Meets P x Q` is the triple that carries such claims: every event of `x` satisfies `P`,
and where `x` returns, its value satisfies `Q`. One rule for each way to build a call
reduces a claim about a program to claims about its events.

## Main definitions

* `Traced`: outcomes with the events before them.
* `Traced.Meets`: the triple.
* `Traced.runAll`: one call for each item of a list.
-/

universe u v

/-- An outcome, and the events before it. -/
structure Traced (ε : Type u) (α : Type v) where
  events : List ε
  outcome : Outcome α

namespace Traced

variable {ε : Type u} {α β σ κ : Type v}

/-- Sequencing: only a call that returned has a continuation, and its events come first. -/
def bind (x : Traced ε α) (f : α → Traced ε β) : Traced ε β :=
  match x.outcome with
  | .ret a => ⟨x.events ++ (f a).events, (f a).outcome⟩
  | .aborted => ⟨x.events, .aborted⟩
  | .running => ⟨x.events, .running⟩

instance : Monad (Traced ε) where
  pure a := ⟨[], .ret a⟩
  bind := bind

/-- An event. -/
def tell (e : ε) : Traced ε PUnit.{v + 1} := ⟨[e], .ret ⟨⟩⟩

/-- A call that makes no event. -/
def lift (x : Outcome α) : Traced ε α := ⟨[], x⟩

/-! ## What is left without the events -/

@[simp] theorem outcome_pure (a : α) : (pure a : Traced ε α).outcome = .ret a := rfl

@[simp] theorem outcome_tell (e : ε) : (tell e : Traced ε PUnit).outcome = .ret ⟨⟩ := rfl

@[simp] theorem outcome_lift (x : Outcome α) : (lift x : Traced ε α).outcome = x := rfl

@[simp] theorem outcome_bind (x : Traced ε α) (f : α → Traced ε β) :
    (x >>= f).outcome = (x.outcome >>= fun a => (f a).outcome) := by
  change (bind x f).outcome = _
  unfold bind
  cases x.outcome <;> rfl

theorem outcome_ite (p : Prop) [Decidable p] (x y : Traced ε α) :
    (if p then x else y).outcome = if p then x.outcome else y.outcome := by
  split <;> rfl

/-! ## The triple -/

/-- Every event of `x` satisfies `P`, and a value that `x` returns satisfies `Q`. -/
structure Meets (P : ε → Prop) (x : Traced ε α) (Q : α → Prop) : Prop where
  events : ∀ e ∈ x.events, P e
  value : ∀ a, x.outcome = .ret a → Q a

variable {P : ε → Prop} {Q : α → Prop} {R : β → Prop} {x y : Traced ε α}

theorem meets_pure {a : α} (h : Q a) : Meets P (pure a : Traced ε α) Q := by
  constructor
  · intro e he
    exact absurd he List.not_mem_nil
  · intro b hb
    cases hb
    exact h

theorem meets_tell {e : ε} (h : P e) : Meets P (tell e) (fun _ : PUnit.{v + 1} => True) := by
  constructor
  · intro e' he
    rwa [List.mem_singleton.mp he]
  · intro _ _
    trivial

theorem meets_lift (x : Outcome α) (h : ∀ a, x = .ret a → Q a) :
    Meets P (lift x : Traced ε α) Q := by
  constructor
  · intro e he
    exact absurd he List.not_mem_nil
  · exact h

/-- The rule of sequencing. -/
theorem Meets.bind {f : α → Traced ε β} (hx : Meets P x Q) (hf : ∀ a, Q a → Meets P (f a) R) :
    Meets P (x >>= f) R := by
  change Meets P (Traced.bind x f) R
  unfold Traced.bind
  have hvalue := hx.value
  cases hout : x.outcome with
  | ret a =>
      have ha := hf a (hvalue a hout)
      constructor
      · intro e he
        rcases List.mem_append.mp he with he | he
        · exact hx.events e he
        · exact ha.events e he
      · exact ha.value
  | aborted =>
      constructor
      · exact hx.events
      · intro b hb
        cases hb
  | running =>
      constructor
      · exact hx.events
      · intro b hb
        cases hb

/-- An event in front of a call. -/
theorem Meets.tell_bind {e : ε} {f : PUnit.{v + 1} → Traced ε α} (he : P e)
    (hf : Meets P (f ⟨⟩) Q) : Meets P (tell e >>= f) Q := by
  apply (meets_tell he).bind
  intro _ _
  exact hf

/-- A call without events in front of another one. -/
theorem Meets.lift_bind {x : Outcome α} {f : α → Traced ε β} (hf : ∀ a, Meets P (f a) R) :
    Meets P (lift x >>= f) R := by
  apply (meets_lift x fun _ _ => trivial).bind
  intro a _
  exact hf a

theorem Meets.ite {p : Prop} [Decidable p] (hx : p → Meets P x Q) (hy : ¬p → Meets P y Q) :
    Meets P (if p then x else y) Q := by
  by_cases hp : p
  · rw [if_pos hp]
    exact hx hp
  · rw [if_neg hp]
    exact hy hp

/-! ## Runs -/

/-- One call for each item, from the state that the call before has left. -/
def runAll (step : σ → κ → Traced ε σ) : σ → List κ → Traced ε σ
  | s, [] => pure s
  | s, c :: cs => do
      let s ← step s c
      runAll step s cs

/-- **Runs.** What every call preserves holds after any number of them, and every event on the
way is as the calls' own events are. -/
theorem Meets.runAll {step : σ → κ → Traced ε σ} {I : σ → Prop}
    (hstep : ∀ s c, I s → Meets P (step s c) I) {s : σ} (hs : I s) (cs : List κ) :
    Meets P (runAll step s cs) I := by
  induction cs generalizing s with
  | nil => exact meets_pure hs
  | cons c cs ih =>
      apply (hstep s c hs).bind
      intro s' hs'
      exact ih hs'

end Traced
