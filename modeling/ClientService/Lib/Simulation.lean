import ClientService.Lib.Transition

/-!
# Simulations

A system moves by actions, and another one by a relation with labels. When every step of the
first is a path of the second, seen through a function of its states, every run of the first is
a path of the second, and an invariant of the second holds of what is seen of the first.

## Main definitions

* `Simulation.Path` — a finite path of a relation with labels.
* `Simulation.Simulates` — every step is seen as a path.
-/

namespace Simulation
variable {σ α τ β : Type} {Step : τ → β → τ → Prop}

/-- Steps taken one after the other, with their labels. -/
inductive Path (Step : τ → β → τ → Prop) : τ → List β → τ → Prop
  | nil (x : τ) : Path Step x [] x
  | cons {x y z : τ} {b : β} {bs : List β} : Step x b y → Path Step y bs z → Path Step x (b :: bs) z

theorem Path.single {x y : τ} {b : β} (h : Step x b y) : Path Step x [b] y := .cons h (.nil y)

theorem Path.append {x y z : τ} {bs cs : List β} (h : Path Step x bs y) (h' : Path Step y cs z) :
    Path Step x (bs ++ cs) z := by
  induction h with
  | nil _ => exact h'
  | cons hstep _ ih => exact .cons hstep (ih h')

/-- What every step preserves holds at the end of a path. -/
theorem Path.invariant {I : τ → Prop} {x y : τ} {bs : List β} (h : Path Step x bs y)
    (hstep : ∀ x b y, I x → Step x b y → I y) (hx : I x) : I y := by
  induction h with
  | nil _ => exact hx
  | cons hs _ ih => exact ih (hstep _ _ _ hx hs)

/-- Through `abs`, every step that meets `good` in a state with `I` is a path. -/
def Simulates (step : σ → α → Option σ) (good : σ → α → Prop) (I : σ → Prop)
    (Step : τ → β → τ → Prop) (abs : σ → τ) : Prop :=
  ∀ s a s', I s → good s a → step s a = some s' → I s' ∧ ∃ bs, Path Step (abs s) bs (abs s')

section
variable {step : σ → α → Option σ} {good : σ → α → Prop} {I : σ → Prop} {abs : σ → τ}

/-- A run is a path. -/
theorem Simulates.path (h : Simulates step good I Step abs) {as : List α} {s s' : σ} (hs : I s)
    (hgood : Transition.Meets step good s as) (hrun : Transition.run step s as = some s') :
    ∃ bs, Path Step (abs s) bs (abs s') := by
  induction as generalizing s with
  | nil =>
      cases hrun
      exact ⟨[], .nil _⟩
  | cons a as ih =>
      obtain ⟨s₁, hs₁, hrun⟩ := Option.bind_eq_some_iff.mp hrun
      obtain ⟨hI, bs, hfirst⟩ := h s a s₁ hs hgood.1 hs₁
      obtain ⟨cs, hrest⟩ := ih hI (hgood.2 s₁ hs₁) hrun
      exact ⟨bs ++ cs, hfirst.append hrest⟩

/-- An invariant of the paths holds of what is seen of a reachable state. -/
theorem Simulates.invariant (h : Simulates step good I Step abs) {start s : σ}
    (hreach : Transition.Reaches step good start s) (hstart : I start) {J : τ → Prop}
    (hJ : ∀ x b y, J x → Step x b y → J y) (habs : J (abs start)) : I s ∧ J (abs s) := by
  have hboth : ∀ s a s', I s ∧ J (abs s) → good s a → step s a = some s' → I s' ∧ J (abs s') := by
    intro s a s' hs hgood hstep
    obtain ⟨hI, bs, hpath⟩ := h s a s' hs.1 hgood hstep
    exact ⟨hI, hpath.invariant hJ hs.2⟩
  exact hreach.invariant (And.intro hstart habs) hboth

end
end Simulation
