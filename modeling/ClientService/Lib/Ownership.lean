import ClientService.Lib.Objects

/-!
# Objects with several owners

`Held ps` says that `ps` is all that has to be deleted: it has the number of every living object,
each once, with what the object holds. A new object is added to it, and an object on it can be
deleted and is then taken off it.

## Main definitions

* `Objects.Held` — the living objects, one by one.
-/

namespace Objects
variable {β : Type}

/-- The living objects are these, and nothing was deleted twice. -/
structure Held (o : Objects β) (ps : Multiset (ℕ × β)) : Prop where
  nodup : o.deleted.Nodup
  lt : ∀ i ∈ o.deleted, i < o.created.length
  once : (ps.map Prod.fst).Nodup
  live : ∀ i b, (i, b) ∈ ps ↔ o.Live i ∧ o.created[i]? = some b

section
variable {o : Objects β} {ps qs : Multiset (ℕ × β)} {i : ℕ} {b : β}

theorem held_empty : (⟨[], []⟩ : Objects β).Held 0 where
  nodup := List.nodup_nil
  lt := by simp
  once := by simp
  live := by simp [Live]

theorem Held.new (h : o.Held ps) (b : β) : (o.new b).Held ((o.created.length, b) ::ₘ ps) where
  nodup := h.nodup
  lt := by
    intro i hi
    have hlt := h.lt i hi
    simp only [Objects.new, List.length_append, List.length_singleton]
    omega
  once := by
    rw [Multiset.map_cons, Multiset.nodup_cons]
    refine ⟨fun hmem => ?_, h.once⟩
    obtain ⟨⟨i, c⟩, hic, hi⟩ := Multiset.mem_map.mp hmem
    have hlive := ((h.live i c).mp hic).1
    have hlt := hlive.1
    simp only at hi
    omega
  live := by
    intro i c
    have hold := h.live i c
    rw [Multiset.mem_cons, hold]
    have hlast : o.created.length ∉ o.deleted := fun hmem => absurd (h.lt _ hmem) (by omega)
    by_cases hi : i = o.created.length
    · subst hi
      simp [Live, Objects.new, hlast, eq_comm]
    · by_cases hlt : i < o.created.length
      · simp [Live, Objects.new, hi, hlt, Nat.lt_succ_of_lt hlt]
      · have hge : ¬i < o.created.length + 1 := by omega
        simp [Live, Objects.new, hi, hlt, hge]

/-- What is held can be deleted. -/
theorem Held.delete (h : o.Held ((i, b) ::ₘ ps)) :
    ∃ o', o.delete (some i) = some o' ∧ o'.Held ps := by
  have hlive := ((h.live i b).mp (Multiset.mem_cons_self _ _)).1
  have honce := h.once
  rw [Multiset.map_cons, Multiset.nodup_cons] at honce
  refine ⟨_, if_pos hlive, ?_, ?_, honce.2, ?_⟩
  · simpa [List.nodup_append] using ⟨h.nodup, fun j hj hji => hlive.2 (hji ▸ hj)⟩
  · intro j hj
    rcases List.mem_append.mp hj with hj | hj
    · exact h.lt j hj
    · rw [List.mem_singleton.mp hj]
      exact hlive.1
  · intro j c
    have hold := h.live j c
    have hne : (j, c) ∈ ps → j ≠ i := by
      rintro hjc rfl
      exact honce.1 (Multiset.mem_map.mpr ⟨_, hjc, rfl⟩)
    rw [Multiset.mem_cons] at hold
    constructor
    · intro hjc
      obtain ⟨⟨hlt, hdel⟩, hread⟩ := hold.mp (Or.inr hjc)
      exact ⟨⟨hlt, by simpa [hdel] using hne hjc⟩, hread⟩
    · rintro ⟨⟨hlt, hdel⟩, hread⟩
      simp only [List.mem_append, List.mem_singleton, not_or] at hdel
      rcases hold.mpr ⟨⟨hlt, hdel.1⟩, hread⟩ with heq | hjc
      · exact absurd (congrArg Prod.fst heq) hdel.2
      · exact hjc

end
end Objects
