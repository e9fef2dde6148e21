import ClientService.Lib.Transition

/-!
# Locks that are taken in order

Threads take and release locks; a thread that asks for a lock that is held waits. Every lock has
a rank. When each program takes a lock only above all that it holds, and releases everything, no
set of threads waits for each other: whatever has been begun can be brought to its end.

`Above n p` is the contract of a program: run on top of locks below rank `n`, it leaves them as
they were. Programs with this contract can be put one after the other, and under a lock.

## Main definitions

* `Locks.Op`, `Locks.State`, `Locks.step` — programs, threads and their locks.
* `Locks.Ordered`, `Locks.Above` — the discipline.
* `Locks.Sound` — the invariant.
* `Locks.SelfBlocked` — a thread waits for itself.

## Main result

* `Locks.Sound.completes` — all threads can come to their end.
-/

namespace Locks

open Transition (run)

/-- What a program does with locks. -/
inductive Op (Λ : Type) where
  | lock (l : Λ)
  | unlock (l : Λ)
  deriving DecidableEq, Repr

/-- The thread that holds each lock, and what each thread has still to do. -/
structure State (ι Λ : Type) where
  owner : Λ → Option ι := fun _ => none
  todo : ι → List (Op Λ) := fun _ => []

inductive Action (ι Λ : Type) where
  /-- A thread begins a program, on top of what it is doing. -/
  | call (i : ι) (p : List (Op Λ))
  /-- A thread goes on. -/
  | advance (i : ι)

section
variable {ι Λ : Type} [DecidableEq ι] [DecidableEq Λ]

/-- Put a program before what a thread has to do. -/
def push (s : State ι Λ) (i : ι) (p : List (Op Λ)) : State ι Λ :=
  { s with todo := Function.update s.todo i (p ++ s.todo i) }

/-- The first operation of thread `i`, if it does not have to wait. -/
def advance (s : State ι Λ) (i : ι) : Option (State ι Λ) :=
  match s.todo i with
  | [] => none
  | .lock l :: ops =>
      if s.owner l = none then
        some ⟨Function.update s.owner l (some i), Function.update s.todo i ops⟩
      else none
  | .unlock l :: ops =>
      if s.owner l = some i then
        some ⟨Function.update s.owner l none, Function.update s.todo i ops⟩
      else none

def step (s : State ι Λ) : Action ι Λ → Option (State ι Λ)
  | .call i p => some (push s i p)
  | .advance i => advance s i

/-! ## The discipline -/

variable (rank : Λ → ℕ)

/-- Holding `held`, the program takes each lock above all that it holds, releases what it holds,
and ends with nothing. -/
def Ordered : List Λ → List (Op Λ) → Prop
  | held, [] => held = []
  | held, .lock l :: ops => (∀ h ∈ held, rank h < rank l) ∧ Ordered (l :: held) ops
  | held, .unlock l :: ops => l ∈ held ∧ Ordered (held.erase l) ops

/-- On top of locks below rank `n`, the program leaves them as they were. -/
def Above (n : ℕ) (p : List (Op Λ)) : Prop :=
  ∀ held ops, (∀ h ∈ held, rank h < n) → Ordered rank held ops → Ordered rank held (p ++ ops)

/-- Take a lock, run a program, and release the lock. -/
def guarded (l : Λ) (p : List (Op Λ)) : List (Op Λ) := .lock l :: p ++ [.unlock l]

section
variable {rank} {m n : ℕ} {p q : List (Op Λ)} {l : Λ}

theorem above_nil : Above rank n [] := fun _ _ _ h => h

theorem Above.append (hp : Above rank n p) (hq : Above rank n q) : Above rank n (p ++ q) := by
  intro held ops hheld h
  rw [List.append_assoc]
  exact hp held _ hheld (hq held ops hheld h)

theorem Above.mono (hp : Above rank n p) (hmn : m ≤ n) : Above rank m p :=
  fun held ops hheld => hp held ops fun h hh => (hheld h hh).trans_le hmn

theorem above_flatMap {α : Type} {f : α → List (Op Λ)} (hf : ∀ a, Above rank n (f a))
    (as : List α) : Above rank n (as.flatMap f) := by
  induction as with
  | nil => exact above_nil
  | cons a as ih =>
      rw [List.flatMap_cons]
      exact (hf a).append ih

/-- Under a lock of rank `n` or more, a program may use what is above that lock. -/
theorem Above.guarded (hp : Above rank (rank l + 1) p) (hn : n ≤ rank l) :
    Above rank n (guarded l p) := by
  intro held ops hheld h
  have hlt : ∀ h ∈ held, rank h < rank l := fun h hh => (hheld h hh).trans_le hn
  rw [Locks.guarded, List.cons_append, List.cons_append, List.append_assoc, Ordered]
  refine ⟨hlt, hp _ _ ?_ ?_⟩
  · intro k hk
    rcases List.mem_cons.mp hk with rfl | hk
    · omega
    · have hk := hlt k hk
      omega
  · refine ⟨List.mem_cons_self, ?_⟩
    rwa [List.erase_cons_head]

end

/-! ## The invariant -/

/-- Thread `i` holds the locks `held i`, and what it has to do is ordered from there on. -/
structure Holds (s : State ι Λ) (held : ι → List Λ) : Prop where
  nodup : ∀ i, (held i).Nodup
  owner : ∀ i l, l ∈ held i ↔ s.owner l = some i
  ordered : ∀ i, Ordered rank (held i) (s.todo i)

def Sound (s : State ι Λ) : Prop := ∃ held, Holds rank s held

/-- A program is begun only on top of locks that it leaves alone. -/
def Fits (s : State ι Λ) : Action ι Λ → Prop
  | .call i p => ∃ n, (∀ l, s.owner l = some i → rank l < n) ∧ Above rank n p
  | .advance _ => True

variable {rank} {s s' : State ι Λ}

omit [DecidableEq ι] in
theorem sound_start : Sound rank ({} : State ι Λ) :=
  ⟨fun _ => [], by simp, by simp, by simp [Ordered]⟩

omit [DecidableEq ι] in
theorem fits_call {i : ι} {p : List (Op Λ)} {n : ℕ} (hn : ∀ l, s.owner l = some i → rank l < n)
    (hp : Above rank n p) : Fits rank s (.call i p) := ⟨n, hn, hp⟩

theorem Holds.push {held : ι → List Λ} (h : Holds rank s held) {i : ι} {p : List (Op Λ)}
    (hfits : Fits rank s (.call i p)) : Holds rank (push s i p) held where
  nodup := h.nodup
  owner := h.owner
  ordered := by
    intro j
    by_cases hj : j = i
    · obtain ⟨n, hn, hp⟩ := hfits
      subst hj
      have hbelow : ∀ l ∈ held j, rank l < n := fun l hl => hn l ((h.owner j l).mp hl)
      simpa [Locks.push] using hp _ _ hbelow (h.ordered j)
    · simpa [Locks.push, Function.update_of_ne hj] using h.ordered j

/-- A thread takes a lock that is free. -/
theorem Holds.lock {held : ι → List Λ} (h : Holds rank s held) {i : ι} {l : Λ} {ops : List (Op Λ)}
    (htodo : s.todo i = .lock l :: ops) (hfree : s.owner l = none) :
    Holds rank ⟨Function.update s.owner l (some i), Function.update s.todo i ops⟩
      (Function.update held i (l :: held i)) := by
  have hl : ∀ j, l ∉ held j := by
    intro j hj
    have howner := (h.owner j l).mp hj
    simp [hfree] at howner
  have hordered := h.ordered i
  rw [htodo, Ordered] at hordered
  refine ⟨fun j => ?_, fun j k => ?_, fun j => ?_⟩
  · by_cases hj : j = i
    · subst hj
      simpa using ⟨hl j, h.nodup j⟩
    · simpa [Function.update_of_ne hj] using h.nodup j
  · have hown := h.owner j k
    by_cases hj : j = i
    · subst hj
      by_cases hk : k = l
      · simp [hk]
      · simpa [hk, Function.update_of_ne hk] using hown
    · by_cases hk : k = l
      · subst hk
        simpa [Function.update_of_ne hj, Ne.symm hj] using hl j
      · simpa [Function.update_of_ne hj, Function.update_of_ne hk] using hown
  · by_cases hj : j = i
    · subst hj
      simpa using hordered.2
    · simpa [Function.update_of_ne hj] using h.ordered j

/-- A thread releases a lock that it holds. -/
theorem Holds.unlock {held : ι → List Λ} (h : Holds rank s held) {i : ι} {l : Λ}
    {ops : List (Op Λ)} (htodo : s.todo i = .unlock l :: ops) (hown : s.owner l = some i) :
    Holds rank ⟨Function.update s.owner l none, Function.update s.todo i ops⟩
      (Function.update held i ((held i).erase l)) := by
  have hordered := h.ordered i
  rw [htodo, Ordered] at hordered
  refine ⟨fun j => ?_, fun j k => ?_, fun j => ?_⟩
  · by_cases hj : j = i
    · subst hj
      simpa using (h.nodup j).erase l
    · simpa [Function.update_of_ne hj] using h.nodup j
  · have howner := h.owner j k
    by_cases hj : j = i
    · subst hj
      by_cases hk : k = l
      · subst hk
        simpa using (h.nodup j).not_mem_erase
      · simpa [Function.update_of_ne hk, List.mem_erase_of_ne hk] using howner
    · by_cases hk : k = l
      · subst hk
        have hne : k ∉ held j := by
          intro hmem
          have hboth := hown.symm.trans (howner.mp hmem)
          exact hj (Option.some.inj hboth).symm
        simpa [Function.update_of_ne hj] using hne
      · simpa [Function.update_of_ne hj, Function.update_of_ne hk] using howner
  · by_cases hj : j = i
    · subst hj
      simpa using hordered.2
    · simpa [Function.update_of_ne hj] using h.ordered j

theorem Sound.after_advance (h : Sound rank s) {i : ι} (hstep : advance s i = some s') :
    Sound rank s' := by
  obtain ⟨held, h⟩ := h
  rw [advance] at hstep
  cases htodo : s.todo i with
  | nil => simp [htodo] at hstep
  | cons op ops =>
      cases op with
      | lock l =>
          simp only [htodo, Option.ite_none_right_eq_some, Option.some.injEq] at hstep
          rw [← hstep.2]
          exact ⟨_, h.lock htodo hstep.1⟩
      | unlock l =>
          simp only [htodo, Option.ite_none_right_eq_some, Option.some.injEq] at hstep
          rw [← hstep.2]
          exact ⟨_, h.unlock htodo hstep.1⟩

theorem Sound.after_step (h : Sound rank s) {a : Action ι Λ} (hfits : Fits rank s a)
    (hstep : step s a = some s') : Sound rank s' := by
  cases a with
  | call i p =>
      cases hstep
      exact h.imp fun held hheld => hheld.push hfits
  | advance i => exact h.after_advance hstep

omit [DecidableEq ι] in
/-- An idle thread holds nothing. -/
theorem Sound.owner_ne_of_idle (h : Sound rank s) {i : ι} (hi : s.todo i = []) (l : Λ) :
    s.owner l ≠ some i := by
  obtain ⟨held, h⟩ := h
  have hordered := h.ordered i
  rw [hi, Ordered] at hordered
  intro hown
  have hmem := (h.owner i l).mpr hown
  simp [hordered] at hmem

/-! ## Progress -/

/-- Whoever holds a lock can go on, or waits for the holder of a lock of higher rank. -/
theorem Holds.can_advance {held : ι → List Λ} (h : Holds rank s held) {N : ℕ}
    (hN : ∀ l, rank l ≤ N) {l : Λ} {i : ι} (hown : s.owner l = some i) :
    ∃ j s', advance s j = some s' := by
  -- The induction is on the ranks above that of `l`.
  induction hk : N - rank l using Nat.strong_induction_on generalizing l i with
  | _ k ih =>
      have hmem := (h.owner i l).mpr hown
      have hordered := h.ordered i
      cases htodo : s.todo i with
      | nil =>
          rw [htodo, Ordered] at hordered
          simp [hordered] at hmem
      | cons op ops =>
          rw [htodo] at hordered
          cases op with
          | unlock m =>
              have hm := (h.owner i m).mp hordered.1
              exact ⟨i, _, by rw [advance, htodo]; exact if_pos hm⟩
          | lock m =>
              have hlt := hordered.1 l hmem
              cases hm : s.owner m with
              | none => exact ⟨i, _, by rw [advance, htodo]; exact if_pos hm⟩
              | some j =>
                  have hle := hN m
                  exact ih (N - rank m) (by omega) hm rfl

/-- **No deadlock.** While a thread has something to do, some thread can go on. -/
theorem Sound.can_advance (h : Sound rank s) {N : ℕ} (hN : ∀ l, rank l ≤ N) {i : ι}
    (hi : s.todo i ≠ []) : ∃ j s', advance s j = some s' := by
  obtain ⟨held, h⟩ := h
  cases htodo : s.todo i with
  | nil => exact absurd htodo hi
  | cons op ops =>
      have hordered := h.ordered i
      rw [htodo] at hordered
      cases op with
      | unlock m => exact h.can_advance hN ((h.owner i m).mp hordered.1)
      | lock m =>
          cases hm : s.owner m with
          | none => exact ⟨i, _, by rw [advance, htodo]; exact if_pos hm⟩
          | some j => exact h.can_advance hN hm

/-- The operations that are left. -/
def remaining [Fintype ι] (s : State ι Λ) : ℕ := ∑ i, (s.todo i).length

theorem remaining_advance [Fintype ι] {i : ι} (h : advance s i = some s') :
    remaining s = remaining s' + 1 := by
  have hsum : ∀ ops : List (Op Λ), ∀ op, s.todo i = op :: ops →
      remaining s = ∑ j, (Function.update s.todo i ops j).length + 1 := by
    intro ops op htodo
    have hrest : ∑ j ∈ Finset.univ.erase i, (Function.update s.todo i ops j).length =
        ∑ j ∈ Finset.univ.erase i, (s.todo j).length := by
      refine Finset.sum_congr rfl fun j hj => ?_
      rw [Function.update_of_ne (Finset.ne_of_mem_erase hj)]
    rw [remaining, ← Finset.add_sum_erase _ _ (Finset.mem_univ i),
      ← Finset.add_sum_erase _ _ (Finset.mem_univ i), hrest, htodo]
    simp only [List.length_cons, Function.update_self]
    omega
  rw [advance] at h
  cases htodo : s.todo i with
  | nil => simp [htodo] at h
  | cons op ops =>
      rw [hsum ops op htodo]
      cases op with
      | lock l =>
          simp only [htodo, Option.ite_none_right_eq_some, Option.some.injEq] at h
          rw [← h.2, remaining]
      | unlock l =>
          simp only [htodo, Option.ite_none_right_eq_some, Option.some.injEq] at h
          rw [← h.2, remaining]

/-- **Whatever has been begun can be brought to its end**, by the threads going on in some
order. -/
theorem Sound.completes [Fintype ι] (h : Sound rank s) {N : ℕ} (hN : ∀ l, rank l ≤ N) :
    ∃ (js : List ι) (s' : State ι Λ), run advance s js = some s' ∧
      (∀ i, s'.todo i = []) ∧ ∀ l, s'.owner l = none := by
  induction hk : remaining s generalizing s with
  | zero =>
      have htodo : ∀ i, s.todo i = [] := by simpa [remaining] using hk
      refine ⟨[], s, rfl, htodo, fun l => ?_⟩
      by_contra howned
      obtain ⟨i, hi⟩ := Option.ne_none_iff_exists'.mp howned
      exact h.owner_ne_of_idle (htodo i) l hi
  | succ k ih =>
      have hex : ∃ i, s.todo i ≠ [] := by
        by_contra hnone
        push Not at hnone
        simp [remaining, hnone] at hk
      obtain ⟨i, hi⟩ := hex
      obtain ⟨j, s₁, hstep⟩ := h.can_advance hN hi
      have hremaining := remaining_advance hstep
      obtain ⟨js, s', hrun, hend⟩ := ih (h.after_advance hstep) (by omega)
      exact ⟨j :: js, s', by rw [run, hstep]; exact hrun, hend⟩

/-! ## A thread that waits for itself -/

/-- The thread holds the lock that it asks for. -/
structure SelfBlocked (s : State ι Λ) (i : ι) (l : Λ) : Prop where
  owner : s.owner l = some i
  head : (s.todo i).head? = some (.lock l)

section
variable {i : ι} {l : Λ}

omit [DecidableEq ι] [DecidableEq Λ] in
theorem SelfBlocked.todo_ne_nil (h : SelfBlocked s i l) : s.todo i ≠ [] := by
  intro hnil
  simpa [hnil] using h.head

theorem SelfBlocked.waits (h : SelfBlocked s i l) : advance s i = none := by
  obtain ⟨ops, htodo⟩ := List.head?_eq_some_iff.mp h.head
  simp [advance, htodo, h.owner]

omit [DecidableEq Λ] in
/-- It is of no help to begin what asks for the lock again. -/
theorem SelfBlocked.push (h : SelfBlocked s i l) {j : ι} {p : List (Op Λ)}
    (hp : j = i → p.head? = some (.lock l)) : SelfBlocked (push s j p) i l where
  owner := h.owner
  head := by
    by_cases hj : j = i
    · subst hj
      simp [Locks.push, hp rfl]
    · simpa [Locks.push, Function.update_of_ne (Ne.symm hj)] using h.head

/-- The other threads can neither take nor release the lock. -/
theorem SelfBlocked.after_advance (h : SelfBlocked s i l) {j : ι}
    (hstep : advance s j = some s') : SelfBlocked s' i l := by
  have hj : j ≠ i := by
    intro heq
    rw [heq, h.waits] at hstep
    exact nomatch hstep
  rw [advance] at hstep
  cases htodo : s.todo j with
  | nil => simp [htodo] at hstep
  | cons op ops =>
      cases op with
      | lock m =>
          simp only [htodo, Option.ite_none_right_eq_some, Option.some.injEq] at hstep
          have hm : l ≠ m := by
            rintro rfl
            simp [h.owner] at hstep
          rw [← hstep.2]
          exact ⟨by simpa [Function.update_of_ne hm] using h.owner,
            by simpa [Function.update_of_ne (Ne.symm hj)] using h.head⟩
      | unlock m =>
          simp only [htodo, Option.ite_none_right_eq_some, Option.some.injEq] at hstep
          have hm : l ≠ m := by
            rintro rfl
            exact hj (Option.some.inj (h.owner.symm.trans hstep.1)).symm
          rw [← hstep.2]
          exact ⟨by simpa [Function.update_of_ne hm] using h.owner,
            by simpa [Function.update_of_ne (Ne.symm hj)] using h.head⟩

end

end
end Locks
