import Mathlib

/-!
# Items that wait to be served

In each round some items arrive, and then at most so many are served, the oldest first. How many
have been served after some rounds has a closed form: from some round on every chance to serve was
taken, and at that round nothing waited.

`arrived xs` is the number of items that have arrived in the rounds `xs`, and `capacity x` the
number that a round `x` can serve.

## Main definitions

* `Backlog.Bound` — the numbers that bound what is served.
* `Backlog.isLeast_concat` — one more round.
-/

namespace Backlog

variable {α : Type} (arrived : List α → ℕ) (capacity : α → ℕ)

/-- What had arrived by some round, and all that the rounds since could serve. -/
def Bound (xs : List α) : Set ℕ :=
  {n | ∃ pre suf, pre ++ suf = xs ∧ n = arrived pre + (suf.map capacity).sum}

theorem isLeast_nil (h : arrived [] = 0) : IsLeast (Bound arrived capacity []) 0 :=
  ⟨⟨[], [], rfl, by simp [h]⟩, fun _ _ => Nat.zero_le _⟩

variable {arrived capacity} {xs : List α} {served : ℕ}

/-- **One more round** serves what it can of what waits. -/
theorem isLeast_concat (h : IsLeast (Bound arrived capacity xs) served) (x : α) :
    IsLeast (Bound arrived capacity (xs ++ [x]))
      (min (arrived (xs ++ [x])) (served + capacity x)) := by
  obtain ⟨⟨pre, suf, hxs, hserved⟩, hleast⟩ := h
  constructor
  · rcases min_choice (arrived (xs ++ [x])) (served + capacity x) with hmin | hmin
    · exact ⟨xs ++ [x], [], List.append_nil _, by simp [hmin]⟩
    · refine ⟨pre, suf ++ [x], by rw [← List.append_assoc, hxs], ?_⟩
      rw [hmin, hserved]
      simp [Nat.add_assoc]
  · rintro n ⟨pre', suf', hxs', rfl⟩
    rcases List.eq_nil_or_concat suf' with rfl | ⟨suf'', y, rfl⟩
    · rw [List.append_nil] at hxs'
      simp [hxs']
    · rw [List.concat_eq_append] at hxs' ⊢
      rw [← List.append_assoc] at hxs'
      obtain ⟨hpre, hlast⟩ := List.append_inj' hxs' rfl
      cases hlast
      have hle : served ≤ arrived pre' + (suf''.map capacity).sum := hleast ⟨pre', suf'', hpre, rfl⟩
      simp only [List.map_append, List.map_cons, List.map_nil, List.sum_append, List.sum_singleton]
      omega

end Backlog
