import ClientService.Upload.Once
import ClientService.Upload.Resume

/-!
# Stored exactly once

When batches are taken in order, none is lost, and no resume point is computed too early, the
store is at any time an initial part of the log, and what a live link holds continues it. No
record is missing in between, and none is there twice.

## Main definitions

* `Closed` — a list with all that is smaller in another one.
* `Exact` — both invariants of an upload.
-/

namespace Upload

/-! ## Initial parts of a log -/

/-- The list has, with one of its numbers, all smaller numbers of the log. -/
def Closed (log l : List ℕ) : Prop := ∀ c ∈ l, ∀ r ∈ log, r < c → r ∈ l

section
variable {log l : List ℕ}

/-- What is closed is an initial part of a log that is numbered upwards. -/
theorem filter_prefix_of_closed (hlog : log.Pairwise (· < ·)) (hclosed : Closed log l) :
    log.filter (· ∈ l) <+: log := by
  induction log with
  | nil => simp
  | cons x xs ih =>
      have hx : ∀ y ∈ xs, x < y := fun y hy => List.rel_of_pairwise_cons hlog hy
      by_cases hmem : x ∈ l
      · have hxs : Closed xs l := fun c hc r hr hlt =>
          hclosed c hc r (List.mem_cons_of_mem x hr) hlt
        simpa [hmem] using ih hlog.of_cons hxs
      · have hnone : xs.filter (· ∈ l) = [] := by
          simp only [List.filter_eq_nil_iff, decide_eq_true_eq]
          intro y hy hyl
          exact hmem (hclosed y hyl x List.mem_cons_self (hx y hy))
        simp [hmem, hnone]

/-- What is closed and has no number twice is an initial part of the log, in some order. -/
theorem perm_take_of_closed (hlog : log.Pairwise (· < ·)) (hnodup : l.Nodup)
    (hsub : ∀ c ∈ l, c ∈ log) (hclosed : Closed log l) : l.Perm (log.take l.length) := by
  have hfilter : l.Perm (log.filter (· ∈ l)) := by
    have hlogdup : log.Nodup := hlog.imp Nat.ne_of_lt
    refine (List.perm_ext_iff_of_nodup hnodup (hlogdup.filter _)).mpr fun r => ?_
    simp only [List.mem_filter, decide_eq_true_eq]
    exact ⟨fun hr => ⟨hsub r hr, hr⟩, fun hr => hr.2⟩
  have hprefix := filter_prefix_of_closed hlog hclosed
  rw [List.prefix_iff_eq_take, ← hfilter.length_eq] at hprefix
  rwa [← hprefix]

end

/-! ## The upload -/

/-- No resume point skips a record, and no record is stored twice. -/
structure Exact (s : State) : Prop where
  sound : Sound s
  once : Once s

section
variable {s : State} {i : ℕ}

/-- **The store is an initial part of the log.** -/
theorem Exact.stored (h : Exact s) : s.stored.Perm (s.log.take s.stored.length) :=
  perm_take_of_closed h.sound.sorted h.once.nodup h.sound.stored h.sound.closed

/-- What is stored and what a link holds have no record in common. -/
theorem Exact.nodup (h : Exact s) (i : ℕ) : (s.stored ++ (s.links i).held).Nodup := by
  refine List.nodup_append.mpr ⟨h.once.nodup, (h.once.links i).nodup, ?_⟩
  rintro r hr r' hr' rfl
  exact ((h.once.links i).held r hr').2 hr

/-- Nothing is missing below what a link holds. -/
theorem Exact.closed (h : Exact s) (i : ℕ) : Closed s.log (s.stored ++ (s.links i).held) := by
  intro c hc r hr hlt
  rw [List.mem_append] at hc ⊢
  rcases hc with hc | hc
  · exact Or.inl (h.sound.closed c hc r hr hlt)
  · exact (h.sound.links i).behind c hc r hr hlt

/-- **What a live link holds continues the store**, up to the records that its sender has read
and beyond. -/
theorem Exact.continues (h : Exact s) (hlive : (s.links i).live = true) :
    (s.links i).taken ≤ (s.stored ++ (s.links i).held).length ∧
      (s.stored ++ (s.links i).held).Perm
        (s.log.take (s.stored ++ (s.links i).held).length) := by
  have hlink := h.sound.links i
  constructor
  · have hsub : s.log.take (s.links i).taken ⊆ s.stored ++ (s.links i).held := fun r hr =>
      List.mem_append.mpr (hlink.passed hlive r hr)
    have hread : (s.log.take (s.links i).taken).Nodup := h.once.log.sublist (List.take_sublist _ _)
    have hle := (hread.subperm hsub).length_le
    have htaken := hlink.taken_le
    simpa [htaken] using hle
  · refine perm_take_of_closed h.sound.sorted (h.nodup i) ?_ (h.closed i)
    intro c hc
    rcases List.mem_append.mp hc with hc | hc
    · exact h.sound.stored c hc
    · exact ((h.once.links i).held c hc).1

end
end Upload
