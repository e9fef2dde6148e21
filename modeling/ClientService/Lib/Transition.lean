import Mathlib

/-!
# Transition systems

A system moves by actions: `step s a` is the next state, when the action is possible at `s`.
`Reaches good start s` says that `s` is reached from `start` by actions that each meet `good`
at the state they are taken in. An invariant is proved once for a step, and holds along every
run.

## Main definitions

* `Transition.Reaches` — reachable states.
* `Transition.run` — the state after a list of actions.
* `Transition.Meets` — a condition on every action of a list.
* `Transition.outputs` — what is put out on the way.
-/

namespace Transition
variable {σ α : Type} {step : σ → α → Option σ} {good : σ → α → Prop} {start : σ}

/-- States reached by actions that meet `good`. -/
inductive Reaches (step : σ → α → Option σ) (good : σ → α → Prop) (start : σ) : σ → Prop
  | refl : Reaches step good start start
  | tail {s s' : σ} {a : α} : Reaches step good start s → good s a → step s a = some s' →
      Reaches step good start s'

/-- What holds at the start and is preserved by every step holds at every reachable state. -/
theorem Reaches.invariant {I : σ → Prop} {s : σ} (h : Reaches step good start s) (hstart : I start)
    (hstep : ∀ s a s', I s → good s a → step s a = some s' → I s') : I s := by
  induction h with
  | refl => exact hstart
  | tail _ hgood hs ih => exact hstep _ _ _ ih hgood hs

/-- Take the actions one after the other. -/
def run (step : σ → α → Option σ) : σ → List α → Option σ
  | s, [] => some s
  | s, a :: as => (step s a).bind fun s' => run step s' as

/-- Every action of the list meets `good` where it is taken. -/
def Meets (step : σ → α → Option σ) (good : σ → α → Prop) : σ → List α → Prop
  | _, [] => True
  | s, a :: as => good s a ∧ ∀ s' ∈ step s a, Meets step good s' as

instance decidableMeets [∀ s a, Decidable (good s a)] :
    ∀ s as, Decidable (Meets step good s as)
  | _, [] => isTrue trivial
  | s, a :: as =>
      have : ∀ s', Decidable (Meets step good s' as) := fun s' => decidableMeets s' as
      inferInstanceAs (Decidable (good s a ∧ ∀ s' ∈ step s a, Meets step good s' as))

theorem meets_of_forall (h : ∀ s a, good s a) (s : σ) (as : List α) : Meets step good s as := by
  induction as generalizing s with
  | nil => trivial
  | cons a as ih => exact ⟨h s a, fun s' _ => ih s'⟩

/-- A condition on the actions alone. -/
theorem meets_of_mem {P : α → Prop} {as : List α} (h : ∀ a ∈ as, P a) (s : σ) :
    Meets step (fun _ a => P a) s as := by
  induction as generalizing s with
  | nil => trivial
  | cons a as ih =>
      obtain ⟨ha, has⟩ := List.forall_mem_cons.mp h
      exact ⟨ha, fun s' _ => ih has s'⟩

theorem Meets.of_append {as bs : List α} {s : σ} (h : Meets step good s (as ++ bs)) :
    Meets step good s as := by
  induction as generalizing s with
  | nil => trivial
  | cons a as ih => exact ⟨h.1, fun s' hs' => ih (h.2 s' hs')⟩

/-- The condition holds where the last action is taken. -/
theorem Meets.last {as : List α} {a : α} {s s' : σ} (h : Meets step good s (as ++ [a]))
    (hrun : run step s as = some s') : good s' a := by
  induction as generalizing s with
  | nil =>
      cases hrun
      exact h.1
  | cons b as ih =>
      obtain ⟨s₁, hs₁, hrun⟩ := Option.bind_eq_some_iff.mp hrun
      exact ih (h.2 s₁ hs₁) hrun

/-- Along a run, what an invariant and the one condition give at each step is the other
condition. -/
theorem Meets.of_invariant {I : σ → Prop} {good' : σ → α → Prop}
    (hstep : ∀ s a s', I s → good s a → step s a = some s' → I s')
    (hgood : ∀ s a, I s → good s a → good' s a) {as : List α} {s : σ} (hs : I s)
    (h : Meets step good s as) : Meets step good' s as := by
  induction as generalizing s with
  | nil => trivial
  | cons a as ih =>
      refine ⟨hgood s a hs h.1, fun s' hs' => ?_⟩
      exact ih (hstep s a s' hs h.1 hs') (h.2 s' hs')

/-- Two conditions that an invariant makes equivalent at every step agree along a run. -/
theorem meets_iff_of_run {I : σ → Prop} {good' : σ → α → Prop}
    (hstep : ∀ s a s', I s → good' s a → step s a = some s' → I s')
    (hiff : ∀ s a s', I s → step s a = some s' → (good s a ↔ good' s a)) {as : List α} {s s' : σ}
    (hs : I s) (hrun : run step s as = some s') : Meets step good s as ↔ Meets step good' s as := by
  induction as generalizing s with
  | nil => exact Iff.rfl
  | cons a as ih =>
      obtain ⟨s₁, hs₁, hrun⟩ := Option.bind_eq_some_iff.mp hrun
      rw [Meets, Meets, hs₁, hiff s a s₁ hs hs₁]
      simp only [Option.mem_some_iff, forall_eq']
      exact and_congr_right fun hgood => ih (hstep s a s₁ hs hgood hs₁) hrun

theorem reaches_of_run {as : List α} {s s' : σ} (h : Reaches step good start s)
    (hgood : Meets step good s as) (hrun : run step s as = some s') :
    Reaches step good start s' := by
  induction as generalizing s with
  | nil =>
      cases hrun
      exact h
  | cons a as ih =>
      obtain ⟨s₁, hs, hrun⟩ := Option.bind_eq_some_iff.mp hrun
      exact ih (h.tail hgood.1 hs) (hgood.2 s₁ hs) hrun

theorem run_append (s : σ) (as bs : List α) :
    run step s (as ++ bs) = (run step s as).bind fun s' => run step s' bs := by
  induction as generalizing s with
  | nil => rfl
  | cons a as ih =>
      rw [List.cons_append, run, run, Option.bind_assoc]
      exact Option.bind_congr fun s' _ => ih s'

/-- What is put out along a run, where an action puts out `out s a`. -/
def outputs {ω : Type} (step : σ → α → Option σ) (out : σ → α → List ω) : σ → List α → List ω
  | _, [] => []
  | s, a :: as => out s a ++ (step s a).elim [] fun s' => outputs step out s' as

/-- One more action puts out what it does at the state it is taken in. -/
theorem outputs_concat {ω : Type} (out : σ → α → List ω) {as : List α} {s s' : σ}
    (hrun : run step s as = some s') (a : α) :
    outputs step out s (as ++ [a]) = outputs step out s as ++ out s' a := by
  induction as generalizing s with
  | nil =>
      have hs : s = s' := Option.some.inj hrun
      cases hstep : step s' a <;> simp [outputs, hs, hstep]
  | cons b as ih =>
      obtain ⟨s₁, hs₁, hrun⟩ := Option.bind_eq_some_iff.mp hrun
      simp [outputs, hs₁, ih hrun]

/-- What holds of the actions so far and the state they lead to, when one more action is taken,
holds of every run. -/
theorem history {P : List α → σ → Prop} (hstart : P [] start)
    (hstep : ∀ as s a s', P as s → good s a → step s a = some s' → P (as ++ [a]) s')
    {as : List α} {s : σ} (hgood : Meets step good start as) (h : run step start as = some s) :
    P as s := by
  induction as using List.reverseRecOn generalizing s with
  | nil =>
      cases h
      exact hstart
  | append_singleton as a ih =>
      rw [run_append, Option.bind_eq_some_iff] at h
      obtain ⟨s₁, hrun, hlast⟩ := h
      rw [run, Option.bind_eq_some_iff] at hlast
      obtain ⟨s₂, hs₂, hlast⟩ := hlast
      cases hlast
      exact hstep as s₁ a s (ih hgood.of_append hrun) (hgood.last hrun) hs₂

end Transition
