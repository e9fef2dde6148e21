import ClientService.Upload.Basic

/-!
# What each link stores

Every link has a share of what is stored: the batches of the link that the store has taken. The
share and what the link still holds are among the records that the sender has read on the link,
each as often as the log has it. So nothing is stored that no log had, and nothing is stored
more often than there were links to carry it.

## Main definitions

* `Upload.Shares` — what is stored, link by link.
* `Shares.step` — every step keeps it.
* `Upload.Every` — what holds of every record.
-/

namespace Upload

/-- Below `n` lie all links, and what has been stored since `old` is made of their shares. -/
structure Shares (old : List ℕ) (n : ℕ) (share : ℕ → Multiset ℕ) (s : State) : Prop where
  fresh : ∀ i, n ≤ i → s.links i = {}
  stored : (s.stored : Multiset ℕ) = old + ∑ i ∈ Finset.range n, share i
  taken : ∀ i, share i + (s.links i).held ≤ (s.log.take (s.links i).taken : Multiset ℕ)

/-- Nothing has been stored yet. -/
theorem shares_start {s : State} (h : ∀ i, s.links i = {}) :
    Shares s.stored 0 (fun _ => 0) s where
  fresh := fun i _ => h i
  stored := by simp
  taken := fun i => by simp [h i, Link.held]

section
variable {old : List ℕ} {n : ℕ} {share : ℕ → Multiset ℕ} {s : State} {i : ℕ}

/-- A link that does not exist has no share. -/
theorem Shares.eq_zero (h : Shares old n share s) (hi : s.links i = {}) : share i = 0 := by
  have htaken := h.taken i
  simpa [hi, Link.held] using htaken

theorem Shares.lt_of_ne (h : Shares old n share s) (hi : s.links i ≠ {}) : i < n := by
  by_contra hn
  exact hi (h.fresh i (Nat.le_of_not_lt hn))

/-- Any bound on the links will do. -/
theorem Shares.bound (h : Shares old n share s) {m : ℕ} (hm : ∀ j, m ≤ j → s.links j = {}) :
    Shares old m share s where
  fresh := hm
  stored := by
    have hextend : ∀ k ≤ max n m, (∀ j, k ≤ j → s.links j = {}) →
        ∑ j ∈ Finset.range k, share j = ∑ j ∈ Finset.range (max n m), share j := by
      intro k hle hk
      refine Finset.sum_subset (Finset.range_mono hle) fun j _ hj => ?_
      exact h.eq_zero (hk j (by simpa using hj))
    rw [h.stored, hextend n (Nat.le_max_left n m) h.fresh, hextend m (Nat.le_max_right n m) hm]
  taken := h.taken

/-- A link changes, and the store may take a batch from it. -/
theorem Shares.set (h : Shares old n share s) (hi : i < n) (l : Link) (batch : List ℕ)
    (hl : share i + batch + l.held ≤ (s.log.take l.taken : Multiset ℕ)) :
    Shares old n (fun k => share k + if k = i then (batch : Multiset ℕ) else 0)
      { s.set i l with stored := s.stored ++ batch } where
  fresh := by
    intro j hj
    exact (set_links_of_ne s l (by omega)).trans (h.fresh j hj)
  stored := by
    rw [← Multiset.coe_add, h.stored, Finset.sum_add_distrib, ← add_assoc]
    simp [hi]
  taken := by
    intro k
    change _ + (((s.set i l).links k).held : Multiset ℕ) ≤ _
    by_cases hk : k = i
    · subst hk
      simpa using hl
    · rw [set_links_of_ne s l hk]
      simpa [hk, set_links_of_ne s l hk] using h.taken k

/-- A link changes, and the store takes nothing. -/
theorem Shares.set_link (h : Shares old n share s) (hi : s.links i ≠ {}) {l : Link}
    (hl : share i + l.held ≤ (s.log.take l.taken : Multiset ℕ)) :
    ∃ share', Shares old n share' (s.set i l) := by
  have hset := h.set (h.lt_of_ne hi) l [] (by simpa using hl)
  rw [List.append_nil] at hset
  exact ⟨_, hset⟩

/-- A link that holds no more than before, and has read as much. -/
theorem Shares.set_held (h : Shares old n share s) (hi : s.links i ≠ {}) {l : Link}
    (htaken : l.taken = (s.links i).taken) (hheld : l.held.Sublist (s.links i).held) :
    ∃ share', Shares old n share' (s.set i l) := by
  refine h.set_link hi ?_
  rw [htaken]
  exact (add_le_add le_rfl (Multiset.coe_le.mpr hheld.subperm)).trans (h.taken i)

/-- A resume point leaves what has been read. -/
theorem receive_frame (o : Offer) (l : Link) :
    (l.receive o).taken = l.taken ∧ (l.receive o).held = l.held := by
  cases o with
  | accepted m => exact ⟨rfl, rfl⟩
  | returned m =>
      by_cases hfloor : l.floor = 0
      · simp [Link.receive, hfloor, Link.held]
      · simp [Link.receive, hfloor]

/-- The sender keeps some of the records that it reads. -/
theorem kept_sublist {j k : ℕ} (hj : j ≤ k) :
    (s.kept i j).Sublist ((s.log.drop (s.links i).taken).take k) :=
  List.filter_sublist.trans (List.take_prefix_take_left hj).sublist

theorem ne_of_live (hlive : (s.links i).live = true) : s.links i ≠ {} := by
  intro hi
  simp [hi] at hlive

theorem ne_of_made (hmade : (s.links i).made = true) : s.links i ≠ {} := by
  intro hi
  simp [hi] at hmade

section
variable {before after : List (List ℕ)} {batch : List ℕ}

theorem ne_of_pending (hp : (s.links i).pending = before ++ batch :: after) : s.links i ≠ {} := by
  intro hi
  simp [hi] at hp

theorem held_of_pending (hp : (s.links i).pending = before ++ batch :: after) :
    (s.links i).held = before.flatten ++ (batch ++ after.flatten) := by
  simp [Link.held, hp]

end

/-- **Every step keeps the shares.** -/
theorem Shares.step (h : Shares old n share s) {b : Label} {s' : State} (hstep : Step s b s') :
    ∃ n' share', Shares old n' share' s' := by
  cases hstep with
  | stay => exact ⟨n, share, h⟩
  | record e =>
      refine ⟨n, share, h.fresh, h.stored, fun i => (h.taken i).trans ?_⟩
      rw [List.take_append, ← Multiset.coe_add]
      exact Multiset.le_add_right _ _
  | connect i hdead hfresh =>
      have hbound : Shares old (i + 1) share s := h.bound fun j hj => hfresh j (by omega)
      have hshare : share i = 0 := h.eq_zero (hfresh i le_rfl)
      have hset := hbound.set (Nat.lt_succ_self i) { made := true, live := true } []
        (by simp [hshare, Link.held])
      rw [List.append_nil] at hset
      exact ⟨_, _, hset⟩
  | close i p hlive hp =>
      exact ⟨n, h.set_held (ne_of_live hlive) rfl hp.sublist.flatten⟩
  | offer i m hmade hmax hm =>
      exact ⟨n, h.set_held (ne_of_made hmade) rfl (List.Sublist.refl _)⟩
  | deliver i o rest hlive ho =>
      obtain ⟨htaken, hheld⟩ := receive_frame o (s.links i)
      refine ⟨n, h.set_held (ne_of_live hlive) htaken ?_⟩
      rw [← hheld]
      exact List.Sublist.refl _
  | forward i k j hlive hresumed hk hj =>
      refine ⟨n, h.set_link (ne_of_live hlive) ?_⟩
      have hheld : Link.held { s.links i with
          taken := (s.links i).taken + k
          pending := (s.links i).pending ++ [s.kept i j] } = (s.links i).held ++ s.kept i j := by
        simp [Link.held]
      rw [hheld, List.take_add, ← Multiset.coe_add, ← Multiset.coe_add, ← add_assoc]
      exact add_le_add (h.taken i) (Multiset.coe_le.mpr (kept_sublist hj).subperm)
  | store i before batch after hp =>
      refine ⟨n, _, h.set (h.lt_of_ne (ne_of_pending hp)) _ batch ?_⟩
      refine le_trans (le_of_eq ?_) (h.taken i)
      rw [held_of_pending hp, add_assoc]
      simp only [Link.held, List.flatten_append, ← Multiset.coe_add]
      rw [add_left_comm (before.flatten : Multiset ℕ)]
  | lose i before batch after hp =>
      refine ⟨n, h.set_held (ne_of_pending hp) rfl ?_⟩
      rw [held_of_pending hp]
      simp only [Link.held, List.flatten_append]
      exact List.Sublist.append_left (List.sublist_append_right _ _) _
  | accept i m hmade =>
      exact ⟨n, h.set_held (ne_of_made hmade) rfl (List.Sublist.refl _)⟩

end

/-! ## What holds of every record -/

/-- `P` holds of every record in the log, in the store and on a link. -/
structure Every (P : ℕ → Prop) (s : State) : Prop where
  log : ∀ r ∈ s.log, P r
  stored : ∀ r ∈ s.stored, P r
  held : ∀ i, ∀ r ∈ (s.links i).held, P r

section
variable {P : ℕ → Prop} {s : State} {i : ℕ}

/-- A link changes, and the store may take records that it held. -/
theorem Every.set (h : Every P s) {l : Link} (hl : ∀ r ∈ l.held, P r) {batch : List ℕ}
    (hbatch : ∀ r ∈ batch, P r) :
    Every P { s.set i l with stored := s.stored ++ batch } where
  log := h.log
  stored := List.forall_mem_append.mpr ⟨h.stored, hbatch⟩
  held := by
    intro j
    change ∀ r ∈ ((s.set i l).links j).held, P r
    by_cases hj : j = i
    · subst hj
      simpa using hl
    · rw [set_links_of_ne s l hj]
      exact h.held j

theorem Every.set_link (h : Every P s) {l : Link} (hl : ∀ r ∈ l.held, P r) :
    Every P (s.set i l) := by
  have hset : Every P { s.set i l with stored := s.stored ++ [] } := h.set hl (by simp)
  rwa [List.append_nil] at hset

/-- **Every step keeps it**, when it holds of the records that are added to the log. -/
theorem Every.step (h : Every P s) {b : Label} {s' : State} (hrecord : ∀ e, b = .record e → P e)
    (hstep : Step s b s') : Every P s' := by
  cases hstep with
  | stay => exact h
  | record e =>
      refine ⟨List.forall_mem_append.mpr ⟨h.log, ?_⟩, h.stored, h.held⟩
      exact List.forall_mem_singleton.mpr (hrecord e rfl)
  | connect i hdead hfresh => exact h.set_link (by simp [Link.held])
  | close i p hlive hp => exact h.set_link fun r hr => h.held i r (hp.flatten.subset hr)
  | offer i m hmade hmax hm => exact h.set_link (h.held i)
  | deliver i o rest hlive ho =>
      refine h.set_link fun r hr => h.held i r ?_
      rwa [← (receive_frame o (s.links i)).2]
  | forward i k j hlive hresumed hk hj =>
      refine h.set_link fun r hr => ?_
      simp only [Link.held, List.flatten_append, List.flatten_singleton, List.mem_append] at hr
      rcases hr with hr | hr
      · exact h.held i r hr
      · exact h.log r (List.mem_of_mem_drop (List.mem_of_mem_take ((kept_sublist hj).subset hr)))
  | store i before batch after hp =>
      have hheld := h.held i
      rw [held_of_pending hp] at hheld
      refine h.set (fun r hr => hheld r ?_) fun r hr => hheld r (by simp [hr])
      simp only [Link.held, List.flatten_append, List.mem_append] at hr ⊢
      tauto
  | lose i before batch after hp =>
      refine h.set_link fun r hr => h.held i r ?_
      rw [held_of_pending hp]
      simp only [Link.held, List.flatten_append, List.mem_append] at hr ⊢
      tauto
  | accept i m hmade => exact h.set_link (h.held i)

end
end Upload
