import Mathlib

/-!
# A map kept beside a table

A table has rows with distinct keys, and a map beside it has an entry for each row and no
other. What a row and its entry have to agree on is a parameter.

## Main definitions

* `Mirrors` — the map has one entry for each row.
* `mirrors_load` — a map filled from the rows mirrors them.
-/

variable {ρ κ ν π : Type} [DecidableEq κ] {key : ρ → κ} {agrees : ρ → ν → Prop}

/-- The map `m` has exactly one entry for each of the rows, under the row's key. -/
structure Mirrors (key : ρ → κ) (agrees : ρ → ν → Prop) (rows : List ρ)
    (m : AList fun _ : κ => ν) : Prop where
  nodup : (rows.map key).Nodup
  entry : ∀ r ∈ rows, ∃ v, m.lookup (key r) = some v ∧ agrees r v
  row : ∀ k ∈ m, ∃ r ∈ rows, key r = k

namespace Mirrors
variable {rows rows' : List ρ} {m : AList fun _ : κ => ν}

theorem mem_iff (h : Mirrors key agrees rows m) (k : κ) : k ∈ m ↔ k ∈ rows.map key := by
  rw [List.mem_map]
  constructor
  · intro hk
    exact h.row k hk
  · rintro ⟨r, hr, rfl⟩
    obtain ⟨v, hv, _⟩ := h.entry r hr
    exact AList.lookup_isSome.mp (by rw [hv, Option.isSome_some])

/-- The keys of the map are the keys of the rows. -/
theorem keys_perm (h : Mirrors key agrees rows m) : m.keys.Perm (rows.map key) := by
  refine (List.perm_ext_iff_of_nodup m.nodupKeys h.nodup).mpr ?_
  intro k
  exact h.mem_iff k

theorem length_eq (h : Mirrors key agrees rows m) : m.keys.length = rows.length := by
  rw [h.keys_perm.length_eq, List.length_map]

/-- An entry of the map has its row. -/
theorem exists_row (h : Mirrors key agrees rows m) {k : κ} {v : ν} (hk : m.lookup k = some v) :
    ∃ r ∈ rows, key r = k ∧ agrees r v := by
  obtain ⟨r, hr, rfl⟩ := h.row k (AList.lookup_isSome.mp (by rw [hk, Option.isSome_some]))
  obtain ⟨v', hv, ha⟩ := h.entry r hr
  have heq : v' = v := Option.some.inj (hv.symm.trans hk)
  rw [heq] at ha
  exact ⟨r, hr, rfl, ha⟩

/-- Only that part of the rows matters which the keys and the agreement read. -/
theorem of_map_eq (h : Mirrors key agrees rows m) {p : ρ → π} (hrows : rows'.map p = rows.map p)
    (hkey : ∀ r r', p r = p r' → key r = key r')
    (hagrees : ∀ r r' v, p r = p r' → agrees r v → agrees r' v) :
    Mirrors key agrees rows' m := by
  have hlen : rows'.length = rows.length := by
    have := congrArg List.length hrows
    rwa [List.length_map, List.length_map] at this
  have hkeys : rows'.map key = rows.map key := by
    apply List.ext_getElem
    · rw [List.length_map, List.length_map, hlen]
    · intro i hi hi'
      rw [List.getElem_map, List.getElem_map]
      apply hkey
      have := List.getElem_of_eq hrows (by simpa using hi)
      rwa [List.getElem_map, List.getElem_map] at this
  have hback : ∀ r ∈ rows', ∃ s ∈ rows, p s = p r := by
    intro r hr
    have : p r ∈ rows.map p := by
      rw [← hrows]
      exact List.mem_map_of_mem hr
    exact List.mem_map.mp this
  constructor
  · rw [hkeys]
    exact h.nodup
  · intro r hr
    obtain ⟨s, hs, heq⟩ := hback r hr
    obtain ⟨v, hv, ha⟩ := h.entry s hs
    rw [hkey s r heq] at hv
    exact ⟨v, hv, hagrees s r v heq ha⟩
  · intro k hk
    rw [h.mem_iff, ← hkeys] at hk
    exact List.mem_map.mp hk

end Mirrors

section
variable {make : ρ → ν}

theorem lookup_load_of_notMem {rows : List ρ} {k : κ} (hk : k ∉ rows.map key)
    (m : AList fun _ : κ => ν) :
    (rows.foldl (fun m r => m.insert (key r) (make r)) m).lookup k = m.lookup k := by
  induction rows generalizing m with
  | nil => rfl
  | cons r rows ih =>
      rw [List.map_cons, List.mem_cons, not_or] at hk
      rw [List.foldl_cons, ih hk.2, AList.lookup_insert_ne hk.1]

theorem mem_load {rows : List ρ} {k : κ} (m : AList fun _ : κ => ν) :
    k ∈ rows.foldl (fun m r => m.insert (key r) (make r)) m ↔ k ∈ rows.map key ∨ k ∈ m := by
  induction rows generalizing m with
  | nil => simp
  | cons r rows ih =>
      rw [List.foldl_cons, ih, AList.mem_insert, List.map_cons, List.mem_cons]
      tauto

theorem lookup_load_of_mem {rows : List ρ} (hnodup : (rows.map key).Nodup) {r : ρ} (hr : r ∈ rows)
    (m : AList fun _ : κ => ν) :
    (rows.foldl (fun m r => m.insert (key r) (make r)) m).lookup (key r) = some (make r) := by
  induction rows generalizing m with
  | nil => cases hr
  | cons s rows ih =>
      rw [List.map_cons, List.nodup_cons] at hnodup
      rw [List.foldl_cons]
      by_cases heq : r = s
      · rw [heq, lookup_load_of_notMem hnodup.1, AList.lookup_insert]
      · exact ih hnodup.2 ((List.mem_cons.mp hr).resolve_left heq) _

/-- **A map filled from rows with distinct keys mirrors them.** -/
theorem mirrors_load {rows : List ρ} (hnodup : (rows.map key).Nodup)
    (hmake : ∀ r, agrees r (make r)) :
    Mirrors key agrees rows (rows.foldl (fun m r => m.insert (key r) (make r)) ∅) := by
  constructor
  · exact hnodup
  · intro r hr
    exact ⟨make r, lookup_load_of_mem hnodup hr ∅, hmake r⟩
  · intro k hk
    rw [mem_load] at hk
    exact List.mem_map.mp (hk.resolve_right (AList.notMem_empty k))

end
