import Mathlib

/-!
# Streams of length-announcing frames

A frame is a header of fixed length followed by a body whose length the header
announces. `split` cuts a stream into its complete frames and the rest that no
complete frame begins; it is the meaning of the format, independent of how the
stream arrives. `split_append` says that a reader may keep only the rest: cutting
`s ++ t` gives the frames of `s`, then those of the rest of `s` followed by `t`.

A header that announces an empty body begins no frame. Such a header at a frame
boundary *stalls* the stream: nothing after it is ever part of a frame.

## Main definitions

* `Framing.Format` — a header length and the body length a header announces.
* `Framing.Frame` — one complete frame with a nonempty body.
* `Framing.split` — complete frames and rest.
* `Framing.Stalled` — the rest begins with a header that announces no body.
-/

namespace Framing

/-- A frame format over symbols `α`. -/
structure Format (α : Type*) where
  /-- Length of a header. -/
  header : ℕ
  /-- The length of the body that a header announces. -/
  size : List α → ℕ
  header_pos : 0 < header

variable {α : Type*} {F : Format α}

/-- The body length announced by the first header of a stream. -/
def Format.announced (F : Format α) (s : List α) : ℕ := F.size (s.take F.header)

theorem announced_append {s : List α} (h : F.header ≤ s.length) (t : List α) :
    F.announced (s ++ t) = F.announced s := by
  simp only [Format.announced, List.take_append_of_le_length h]

/-- A complete frame with a nonempty body. -/
structure Frame (F : Format α) where
  /-- Header and body. -/
  bytes : List α
  length_eq : bytes.length = F.header + F.announced bytes
  announced_ne : F.announced bytes ≠ 0

namespace Frame

@[ext] theorem ext {f g : Frame F} (h : f.bytes = g.bytes) : f = g := by
  cases f; cases g; congr

/-- The header of a frame. -/
def head (f : Frame F) : List α := f.bytes.take F.header

/-- The body of a frame. -/
def body (f : Frame F) : List α := f.bytes.drop F.header

theorem header_lt_length (f : Frame F) : F.header < f.bytes.length := by
  have h := f.length_eq
  have h0 := f.announced_ne
  omega

@[simp] theorem length_head (f : Frame F) : f.head.length = F.header := by
  have h := f.header_lt_length
  simp only [head, List.length_take]
  omega

@[simp] theorem length_body (f : Frame F) : f.body.length = F.announced f.bytes := by
  have h := f.length_eq
  simp only [body, List.length_drop]
  omega

end Frame

/-- The stream begins with a complete frame. -/
def Complete (F : Format α) (s : List α) : Prop :=
  F.announced s ≠ 0 ∧ F.header + F.announced s ≤ s.length

instance (s : List α) : Decidable (Complete F s) := inferInstanceAs (Decidable (_ ∧ _))

/-- The stream begins with a complete header that announces no body. -/
def Stalled (F : Format α) (s : List α) : Prop :=
  F.header ≤ s.length ∧ F.announced s = 0

instance (s : List α) : Decidable (Stalled F s) := inferInstanceAs (Decidable (_ ∧ _))

theorem Stalled.append {s : List α} (h : Stalled F s) (t : List α) : Stalled F (s ++ t) := by
  refine ⟨?_, (announced_append h.1 t).trans h.2⟩
  rw [List.length_append]
  exact h.1.trans (Nat.le_add_right _ _)

theorem Stalled.not_complete {s : List α} (h : Stalled F s) : ¬Complete F s := fun hc => hc.1 h.2

theorem not_stalled_nil : ¬Stalled F ([] : List α) := fun h =>
  absurd h.1 (not_le.mpr F.header_pos)

/-- The first frame of a stream that begins with a complete one. -/
def first (s : List α) (h : Complete F s) : Frame F where
  bytes := s.take (F.header + F.announced s)
  length_eq := by
    have hlen : (s.take (F.header + F.announced s)).length = F.header + F.announced s := by
      simp only [List.length_take]
      exact Nat.min_eq_left h.2
    rw [hlen, Format.announced, Format.announced, List.take_take,
      Nat.min_eq_left (Nat.le_add_right _ _)]
  announced_ne := by
    rw [Format.announced, List.take_take, Nat.min_eq_left (Nat.le_add_right _ _)]
    exact h.1

/-- Cut a stream into its complete frames and the rest. -/
def split (F : Format α) (s : List α) : List (Frame F) × List α :=
  if h : Complete F s then
    let next := split F (s.drop (F.header + F.announced s))
    (first s h :: next.1, next.2)
  else ([], s)
termination_by s.length
decreasing_by
  have h1 := F.header_pos
  have h2 := h.2
  simp only [List.length_drop]
  omega

theorem split_of_not_complete {s : List α} (h : ¬Complete F s) : split F s = ([], s) := by
  rw [split, dif_neg h]

@[simp] theorem split_nil : split F ([] : List α) = ([], []) := by
  apply split_of_not_complete
  rintro ⟨_, h⟩
  have h1 := F.header_pos
  simp only [List.length_nil] at h
  omega

theorem Frame.announced_append (f : Frame F) (s : List α) :
    F.announced (f.bytes ++ s) = F.announced f.bytes :=
  Framing.announced_append f.header_lt_length.le s

theorem Frame.complete_append (f : Frame F) (s : List α) : Complete F (f.bytes ++ s) := by
  refine ⟨?_, ?_⟩
  · rw [f.announced_append]
    exact f.announced_ne
  · rw [f.announced_append, List.length_append, f.length_eq]
    omega

/-- A frame at the head of a stream is cut off first. -/
theorem split_frame_append (f : Frame F) (s : List α) :
    split F (f.bytes ++ s) = (f :: (split F s).1, (split F s).2) := by
  rw [split, dif_pos (f.complete_append s)]
  have hlen : F.header + F.announced (f.bytes ++ s) = f.bytes.length := by
    rw [f.announced_append, f.length_eq]
  have hfirst : first (f.bytes ++ s) (f.complete_append s) = f := by
    ext1
    simp only [first, hlen, List.take_left]
  simp only [hlen, List.drop_left, hfirst]

/-- A concatenation of frames followed by a rest is cut at its joints. -/
theorem split_flatMap_append (fs : List (Frame F)) (s : List α) :
    split F (fs.flatMap Frame.bytes ++ s) = (fs ++ (split F s).1, (split F s).2) := by
  induction fs with
  | nil => simp
  | cons f fs ih =>
      rw [List.flatMap_cons, List.append_assoc, split_frame_append, ih]
      rfl

/-- Nothing is lost by cutting. -/
theorem split_flatten (s : List α) :
    (split F s).1.flatMap Frame.bytes ++ (split F s).2 = s := by
  induction s using split.induct F with
  | case1 s h ih =>
      rw [split, dif_pos h]
      simp only [List.flatMap_cons, List.append_assoc, ih]
      exact List.take_append_drop _ _
  | case2 s h =>
      rw [split_of_not_complete h]
      simp

/-- No complete frame begins the rest. -/
theorem not_complete_split (s : List α) : ¬Complete F (split F s).2 := by
  induction s using split.induct F with
  | case1 s h ih =>
      rw [split, dif_pos h]
      exact ih
  | case2 s h =>
      rw [split_of_not_complete h]
      exact h

/-- **Incremental cutting.** The frames of `s ++ t` are those of `s` followed by
those of the rest of `s` extended by `t`. -/
theorem split_append (s t : List α) :
    split F (s ++ t) =
      ((split F s).1 ++ (split F ((split F s).2 ++ t)).1, (split F ((split F s).2 ++ t)).2) := by
  conv_lhs => rw [← split_flatten (F := F) s, List.append_assoc]
  exact split_flatMap_append _ _

/-- A stalled rest swallows everything after it. -/
theorem split_stalled_append {s : List α} (h : Stalled F s) (t : List α) :
    split F (s ++ t) = ([], s ++ t) :=
  split_of_not_complete (h.append t).not_complete

/-- A proper prefix of a frame is a rest of its own. -/
theorem Frame.split_part {f : Frame F} {s t : List α} (h : s ++ t = f.bytes) (ht : t ≠ []) :
    split F s = ([], s) := by
  apply split_of_not_complete
  rintro ⟨_, hle⟩
  have hs : F.header ≤ s.length := by omega
  have ha : F.announced f.bytes = F.announced s := by
    rw [← h]
    exact Framing.announced_append hs t
  have hlen := congrArg List.length h
  have htpos : 0 < t.length := List.length_pos_iff.mpr ht
  rw [List.length_append, f.length_eq, ha] at hlen
  omega

end Framing
