import Mathlib

/-!
# Reading a table by position

A program walks over a table with a pointer that nothing keeps inside. `read` gives what is at a
position, and the position itself as the error when it is outside. `find` goes from a position to
the first two neighbours that are related, one by one, and may leave the table on the way.

## Main definitions

* `Bounded.read`, `Bounded.find` — the reads.
* `Bounded.FirstPair` — where `find` should stop.
-/

namespace Bounded
variable {α : Type} {r : α → α → Prop} {t : List α} {a b : α} {p q n : ℕ}

/-- What is at position `p`. -/
def read (t : List α) (p : ℕ) : Except ℕ α :=
  match t[p]? with
  | some a => .ok a
  | none => .error p

theorem read_of_some (h : t[p]? = some a) : read t p = .ok a := by
  rw [read, h]

theorem read_of_none (h : t[p]? = none) : read t p = .error p := by
  rw [read, h]

@[simp] theorem read_eq_ok : read t p = .ok a ↔ t[p]? = some a := by
  cases h : t[p]? with
  | none => simp [read_of_none h]
  | some b => simp [read_of_some h]

theorem bind_of_ok {ε β γ : Type} {x : Except ε β} {b : β} (h : x = .ok b) (f : β → Except ε γ) :
    (x >>= f) = f b := by
  rw [h]
  rfl

theorem bind_eq_ok {ε β γ : Type} {x : Except ε β} {f : β → Except ε γ} {c : γ} :
    (x >>= f) = .ok c ↔ ∃ b, x = .ok b ∧ f b = .ok c := by
  cases x with
  | error e => exact iff_of_false (fun h => nomatch h) (fun ⟨_, h, _⟩ => nomatch h)
  | ok b => exact ⟨fun h => ⟨b, rfl, h⟩, fun ⟨_, hb, h⟩ => by cases hb; exact h⟩

/-- The neighbours at `p` and `p + 1` are related. -/
def Pair (r : α → α → Prop) (t : List α) (p : ℕ) : Prop :=
  ∃ a b, t[p]? = some a ∧ t[p + 1]? = some b ∧ r a b

/-- The first related neighbours from `p` on are at `q`. -/
structure FirstPair (r : α → α → Prop) (t : List α) (p q : ℕ) : Prop where
  le : p ≤ q
  pair : Pair r t q
  before : ∀ y, p ≤ y → y < q → ¬Pair r t y

theorem Pair.lt (h : Pair r t p) : p + 1 < t.length := by
  obtain ⟨a, b, -, hb, -⟩ := h
  exact (List.getElem?_eq_some_iff.mp hb).1

theorem FirstPair.unique (h : FirstPair r t p q) (h' : FirstPair r t p n) : q = n := by
  by_contra hne
  rcases Nat.lt_or_gt_of_ne hne with hlt | hgt
  · exact h'.before q h.le hlt h.pair
  · exact h.before n h'.le hgt h'.pair

theorem FirstPair.here (h : Pair r t p) : FirstPair r t p p where
  le := Nat.le_refl p
  pair := h
  before := by
    intro y hy hlt
    omega

theorem firstPair_succ (h : ¬Pair r t p) : FirstPair r t p q ↔ FirstPair r t (p + 1) q := by
  refine ⟨fun hfirst => ⟨?_, hfirst.pair, ?_⟩, fun hfirst => ⟨?_, hfirst.pair, ?_⟩⟩
  · have hne : p ≠ q := by
      intro heq
      rw [heq] at h
      exact h hfirst.pair
    have hle := hfirst.le
    omega
  · intro y hy hlt
    exact hfirst.before y (by omega) hlt
  · have hle := hfirst.le
    omega
  · intro y hy hlt
    by_cases heq : y = p
    · rw [heq]
      exact h
    · exact hfirst.before y (by omega) hlt

/-- Nothing is found from the end on. -/
theorem not_firstPair (h : t.length ≤ p + 1) : ¬FirstPair r t p q := by
  intro hfirst
  have hlt := hfirst.pair.lt
  have hle := hfirst.le
  omega

section
variable [∀ a b, Decidable (r a b)]

/-- `find`, over what is left of the table. -/
def seek (r : α → α → Prop) [∀ a b, Decidable (r a b)] : List α → ℕ → Except ℕ ℕ
  | [], p => .error p
  | [_], p => .error (p + 1)
  | a :: b :: rest, p => if r a b then .ok p else seek r (b :: rest) (p + 1)

/-- Go to the first related neighbours. -/
def find (r : α → α → Prop) [∀ a b, Decidable (r a b)] (t : List α) (p : ℕ) : Except ℕ ℕ :=
  seek r (t.drop p) p

theorem seek_eq_ok {rest : List α} (h : t.drop p = rest) :
    seek r rest p = .ok q ↔ FirstPair r t p q := by
  have hget : ∀ k, t[p + k]? = rest[k]? := by
    intro k
    rw [← h, List.getElem?_drop]
  have hlength : rest.length = t.length - p := by
    rw [← h, List.length_drop]
  induction rest generalizing p with
  | nil =>
      refine iff_of_false (fun heq => nomatch heq) (not_firstPair ?_)
      simp only [List.length_nil] at hlength
      omega
  | cons a rest ih =>
      cases rest with
      | nil =>
          refine iff_of_false (fun heq => nomatch heq) (not_firstPair ?_)
          simp only [List.length_cons, List.length_nil] at hlength
          omega
      | cons b rest =>
          have ha : t[p]? = some a := hget 0
          have hb : t[p + 1]? = some b := hget 1
          by_cases hr : r a b
          · have hpair : Pair r t p := ⟨a, b, ha, hb, hr⟩
            rw [seek, if_pos hr, Except.ok.injEq]
            refine ⟨fun heq => heq ▸ .here hpair, fun hfirst => ?_⟩
            exact (FirstPair.here hpair).unique hfirst
          · have hpair : ¬Pair r t p := by
              rintro ⟨a', b', ha', hb', hr'⟩
              rw [ha] at ha'
              rw [hb] at hb'
              cases ha'
              cases hb'
              exact hr hr'
            have hdrop : t.drop (p + 1) = b :: rest := by
              rw [← List.drop_drop, h]
              rfl
            rw [seek, if_neg hr, firstPair_succ hpair]
            apply ih hdrop
            · intro k
              rw [← hdrop, List.getElem?_drop]
            · rw [← hdrop, List.length_drop]

/-- **`find` is right**: it stops at the first related neighbours, and leaves the table when there
are none. -/
theorem find_eq_ok : find r t p = .ok q ↔ FirstPair r t p q := seek_eq_ok rfl

end
end Bounded
