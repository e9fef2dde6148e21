import Mathlib

/-!
# Sums of which one entry changes

## Main definitions

* `sum_map_set`, `sum_map_eraseIdx` — sums over a list.
* `sum_range_le` — sums over the first numbers.
-/

namespace Sums

section
variable {α : Type} {l : List α} {i : ℕ} {x : α}

/-- One entry is replaced. -/
theorem sum_map_set (h : l[i]? = some x) (y : α) (g : α → ℕ) :
    ((l.set i y).map g).sum + g x = (l.map g).sum + g y := by
  induction l generalizing i with
  | nil => simp at h
  | cons z l ih =>
      cases i with
      | zero =>
          simp only [List.getElem?_cons_zero, Option.some.injEq] at h
          simp [h]
          omega
      | succ i =>
          simp only [List.getElem?_cons_succ] at h
          have hset := ih h
          simp only [List.set_cons_succ, List.map_cons, List.sum_cons]
          omega

/-- One entry is removed. -/
theorem sum_map_eraseIdx (h : l[i]? = some x) (g : α → ℕ) :
    ((l.eraseIdx i).map g).sum + g x = (l.map g).sum := by
  obtain ⟨hlt, rfl⟩ := List.getElem?_eq_some_iff.mp h
  have hlen : i < (l.map g).length := by rwa [List.length_map]
  have herase := List.add_sum_eraseIdx hlen fun _ _ => AddCommute.all _ _
  simp only [List.getElem_map, List.eraseIdx_map] at herase
  omega

end

/-- One of the entries may grow. -/
theorem sum_range_le {f g : ℕ → ℕ} {n i c d : ℕ} (hi : i < n) (hself : g i + c ≤ f i + d)
    (hothers : ∀ j, j ≠ i → g j ≤ f j) :
    ∑ j ∈ Finset.range n, g j + c ≤ ∑ j ∈ Finset.range n, f j + d := by
  have hmem : i ∈ Finset.range n := Finset.mem_range.mpr hi
  have hrest : ∑ j ∈ (Finset.range n).erase i, g j ≤ ∑ j ∈ (Finset.range n).erase i, f j :=
    Finset.sum_le_sum fun j hj => hothers j (Finset.ne_of_mem_erase hj)
  rw [← Finset.add_sum_erase _ g hmem, ← Finset.add_sum_erase _ f hmem]
  omega

end Sums
