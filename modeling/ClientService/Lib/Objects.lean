import Mathlib

/-!
# Objects and a raw pointer

Objects are numbered as they are created, and a pointer is null or such a number. An object is
deleted at most once, and read only while it lives; what does so otherwise has no result.

`Owns p` says that the pointer `p` is all that has to be deleted: it is null or points to a living
object, and no other object lives.

## Main definitions

* `Objects` — the objects created and deleted so far.
* `Objects.new`, `Objects.read`, `Objects.delete` — the operations.
* `Objects.Owns`, `Objects.Leaks` — everything hangs on the pointer, or something does not.
-/

/-- The objects created so far with what they hold, and those that have been deleted. -/
structure Objects (β : Type) where
  created : List β := []
  deleted : List ℕ := []
  deriving DecidableEq, Repr

namespace Objects
variable {β : Type} {o o' : Objects β} {p : Option ℕ} {b : β} {i : ℕ}

/-- The object exists and is not deleted. -/
def Live (o : Objects β) (i : ℕ) : Prop := i < o.created.length ∧ i ∉ o.deleted

instance (o : Objects β) (i : ℕ) : Decidable (o.Live i) := inferInstanceAs (Decidable (_ ∧ _))

/-- Create an object; the number it gets is `created.length`. -/
def new (o : Objects β) (b : β) : Objects β := { o with created := o.created ++ [b] }

/-- Read through a pointer. -/
def read (o : Objects β) : Option ℕ → Option β
  | none => none
  | some i => if i ∈ o.deleted then none else o.created[i]?

/-- Write through a pointer. -/
def write (o : Objects β) (b : β) : Option ℕ → Objects β
  | none => o
  | some i => { o with created := o.created.set i b }

/-- Delete through a pointer. Deleting null does nothing. -/
def delete (o : Objects β) : Option ℕ → Option (Objects β)
  | none => some o
  | some i => if o.Live i then some { o with deleted := o.deleted ++ [i] } else none

/-- Nothing lives but what the pointer points to, and nothing was deleted twice. -/
structure Owns (o : Objects β) (p : Option ℕ) : Prop where
  nodup : o.deleted.Nodup
  lt : ∀ i ∈ o.deleted, i < o.created.length
  live : ∀ i, o.Live i ↔ p = some i

/-- An object lives that the pointer does not point to. -/
def Leaks (o : Objects β) (p : Option ℕ) : Prop := ∃ i, o.Live i ∧ p ≠ some i

theorem Leaks.not_owns (h : o.Leaks p) : ¬ o.Owns p := by
  intro howns
  obtain ⟨i, hi, hp⟩ := h
  exact hp ((howns.live i).mp hi)

/-! ## Operations -/

theorem owns_empty : (⟨[], []⟩ : Objects β).Owns none where
  nodup := List.nodup_nil
  lt := by simp
  live := by simp [Live]

theorem live_new_iff : (o.new b).Live i ↔ o.Live i ∨ i = o.created.length ∧ i ∉ o.deleted := by
  simp only [Live, new, List.length_append, List.length_singleton]
  constructor
  · rintro ⟨hi, hdel⟩
    by_cases heq : i = o.created.length
    · exact Or.inr ⟨heq, hdel⟩
    · exact Or.inl ⟨by omega, hdel⟩
  · rintro (⟨hi, hdel⟩ | ⟨rfl, hdel⟩)
    · exact ⟨by omega, hdel⟩
    · exact ⟨by omega, hdel⟩

/-- A new object is all that lives when nothing did before. -/
theorem Owns.new (h : o.Owns none) : (o.new b).Owns (some o.created.length) where
  nodup := h.nodup
  lt := by
    intro i hi
    have hlt := h.lt i hi
    simp only [Objects.new, List.length_append, List.length_singleton]
    omega
  live := by
    intro i
    have hnone := h.live i
    rw [live_new_iff]
    constructor
    · rintro (hi | ⟨rfl, -⟩)
      · exact absurd (hnone.mp hi) (by simp)
      · rfl
    · intro heq
      have hi : i = o.created.length := (Option.some.inj heq).symm
      refine Or.inr ⟨hi, ?_⟩
      intro hdel
      have hlt := h.lt i hdel
      omega

/-- The new object, and the old one. -/
theorem leaks_new (h : o.Live i) : (o.new b).Leaks (some o.created.length) := by
  refine ⟨i, live_new_iff.mpr (Or.inl h), ?_⟩
  intro heq
  have hi : o.created.length = i := Option.some.inj heq
  have hlt := h.1
  omega

theorem Leaks.new (h : o.Leaks p) : (o.new b).Leaks (some o.created.length) := by
  obtain ⟨i, hi, -⟩ := h
  exact leaks_new hi

theorem read_new (h : ∀ i ∈ o.deleted, i < o.created.length) :
    (o.new b).read (some o.created.length) = some b := by
  have hdel : o.created.length ∉ o.deleted := by
    intro hmem
    exact absurd (h _ hmem) (by omega)
  rw [read]
  simp only [Objects.new, if_neg hdel, List.getElem?_concat_length]

/-- What can be read lives. -/
theorem live_of_read (h : o.read (some i) = some b) : o.Live i := by
  rw [read, Option.ite_none_left_eq_some] at h
  exact ⟨(List.getElem?_eq_some_iff.mp h.2).1, h.1⟩

/-- What the pointer owns can be read. -/
theorem Owns.exists_read (h : o.Owns (some i)) : ∃ b, o.read (some i) = some b := by
  obtain ⟨hlt, hdel⟩ := (h.live i).mpr rfl
  rw [read, if_neg hdel]
  exact ⟨_, List.getElem?_eq_getElem hlt⟩

/-- When nothing lives, nothing can be read. -/
theorem Owns.read_none (h : o.Owns none) (p : Option ℕ) : o.read p = none := by
  cases p with
  | none => rfl
  | some i =>
      have hdead : ¬ o.Live i := fun hi => by cases (h.live i).mp hi
      rw [read]
      by_cases hdel : i ∈ o.deleted
      · rw [if_pos hdel]
      · rw [if_neg hdel, List.getElem?_eq_none]
        by_contra hlt
        exact hdead ⟨not_le.mp hlt, hdel⟩

/-- What the pointer owns can be deleted, and then nothing lives. -/
theorem Owns.delete (h : o.Owns (some i)) :
    ∃ o', o.delete (some i) = some o' ∧ o'.Owns none := by
  obtain ⟨hlt, hdel⟩ := (h.live i).mpr rfl
  refine ⟨_, if_pos ⟨hlt, hdel⟩, ?_, ?_, ?_⟩
  · rw [List.nodup_append]
    refine ⟨h.nodup, List.nodup_singleton i, ?_⟩
    intro j hj k hk heq
    rw [List.mem_singleton.mp hk] at heq
    rw [heq] at hj
    exact hdel hj
  · intro j hj
    rcases List.mem_append.mp hj with hj | hj
    · exact h.lt j hj
    · rw [List.mem_singleton.mp hj]
      exact hlt
  · intro j
    refine iff_of_false ?_ (by simp)
    rintro ⟨hj, hmem⟩
    rw [List.mem_append, not_or] at hmem
    have heq := (h.live j).mp ⟨hj, hmem.1⟩
    exact hmem.2 (List.mem_singleton.mpr (Option.some.inj heq).symm)

/-- When nothing lives, only null can be deleted. -/
theorem Owns.delete_none (h : o.Owns none) (i : ℕ) : o.delete (some i) = none := by
  rw [Objects.delete, if_neg]
  intro hi
  cases (h.live i).mp hi

/-- Deleting through a pointer does not reach what it does not point to. -/
theorem Leaks.delete (h : o.Leaks p) (hdel : o.delete p = some o') : o'.Leaks p := by
  obtain ⟨i, hi, hp⟩ := h
  refine ⟨i, ?_, hp⟩
  cases p with
  | none =>
      cases hdel
      exact hi
  | some j =>
      rw [Objects.delete, Option.ite_none_right_eq_some] at hdel
      obtain ⟨-, heq⟩ := hdel
      cases heq
      refine ⟨hi.1, ?_⟩
      rw [List.mem_append, not_or]
      refine ⟨hi.2, ?_⟩
      intro hij
      rw [List.mem_singleton.mp hij] at hp
      exact hp rfl

@[simp] theorem live_write : (o.write b p).Live i ↔ o.Live i := by
  cases p with
  | none => exact Iff.rfl
  | some j => simp [Live, write]

theorem Owns.write (h : o.Owns p) (b : β) (q : Option ℕ) : (o.write b q).Owns p where
  nodup := by
    cases q with
    | none => exact h.nodup
    | some j => exact h.nodup
  lt := by
    intro i hi
    cases q with
    | none => exact h.lt i hi
    | some j =>
        have hlt := h.lt i hi
        simpa [Objects.write] using hlt
  live := by
    intro i
    rw [live_write]
    exact h.live i

/-- When nothing lives any more, every object has been deleted exactly once. -/
theorem Owns.count_deleted (h : o.Owns none) (hi : i < o.created.length) :
    o.deleted.count i = 1 := by
  have hmem : i ∈ o.deleted := by
    by_contra hdel
    cases (h.live i).mp ⟨hi, hdel⟩
  exact List.count_eq_one_of_mem h.nodup hmem

end Objects
