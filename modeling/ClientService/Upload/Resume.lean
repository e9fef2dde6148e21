import ClientService.Upload.Basic

/-!
# Resume points lie behind stored records only

When batches of a link are taken in order and none is lost, every record is usable, the log is
numbered upwards, and an accepted point does not go beyond what is stored, then the store never
offers a point with an unstored record below it.

What is stored is closed downwards in the log, and every point is at most one above a stored
record. A pending record has only stored or pending records of its own link below it.

## Main definitions

* `Orderly` — what the steps have to keep to.
* `Sound` — the invariant.
-/

namespace Upload

/-- Steps after which no point skips a record. -/
def Orderly (s : State) : Label → Prop
  | .record e => 0 < e ∧ ∀ r ∈ s.log, r < e
  | .forward _ k j => j = k
  | .store _ before _ => before.flatten = []
  | .lose _ _ batch => batch = []
  | .accept _ n => n ≤ 1 ∨ ∃ c ∈ s.stored, n ≤ c + 1
  | _ => True

/-- The point is at most one above a stored record. -/
def Backed (stored : List ℕ) (n : ℕ) : Prop := n ≤ 1 ∨ ∃ c ∈ stored, n ≤ c + 1

theorem Backed.mono {stored stored' : List ℕ} (h : ∀ c ∈ stored, c ∈ stored') {n : ℕ}
    (hn : Backed stored n) : Backed stored' n := by
  rcases hn with hn | ⟨c, hc, hn⟩
  · exact Or.inl hn
  · exact Or.inr ⟨c, h c hc, hn⟩

/-- The invariant of a link, with the log and the store. -/
structure SoundLink (log stored : List ℕ) (l : Link) : Prop where
  taken_le : l.taken ≤ log.length
  floor : Backed stored l.floor
  offers : ∀ o ∈ l.offers, Backed stored o.value
  sorted : l.held.Pairwise (· < ·)
  held : ∀ r ∈ l.held, r ∈ log.take l.taken
  /-- Below a pending record there is nothing that is neither stored nor pending. -/
  behind : ∀ r ∈ l.held, ∀ t ∈ log, t < r → t ∈ stored ∨ t ∈ l.held
  /-- What a live sender has passed is stored or pending. -/
  passed : l.live = true → ∀ r ∈ log.take l.taken, r ∈ stored ∨ r ∈ l.held

structure Sound (s : State) : Prop where
  sorted : s.log.Pairwise (· < ·)
  pos : ∀ r ∈ s.log, 0 < r
  stored : ∀ c ∈ s.stored, c ∈ s.log
  closed : ∀ c ∈ s.stored, ∀ r ∈ s.log, r < c → r ∈ s.stored
  links : ∀ i, SoundLink s.log s.stored (s.links i)

/-- Below a backed point everything is stored. -/
theorem Sound.below {s : State} (h : Sound s) {n : ℕ} (hn : Backed s.stored n) {r : ℕ}
    (hr : r ∈ s.log) (hlt : r < n) : r ∈ s.stored := by
  have hpos := h.pos r hr
  rcases hn with hn | ⟨c, hc, hn⟩
  · omega
  · by_cases heq : r = c
    · rw [heq]
      exact hc
    · exact h.closed c hc r hr (by omega)

/-- **No offered point skips a record.** -/
theorem Sound.covered {s : State} (h : Sound s) {i : ℕ} {o : Offer}
    (ho : o ∈ (s.links i).offers) {r : ℕ} (hr : r ∈ s.log) (hlt : r < o.value) : r ∈ s.stored :=
  h.below ((h.links i).offers o ho) hr hlt

/-! ## A link under changes elsewhere -/

section
variable {log stored stored' : List ℕ} {l : Link}

theorem soundLink_fresh (made live : Bool) :
    SoundLink log stored { made := made, live := live } where
  taken_le := Nat.zero_le _
  floor := Or.inl (Nat.zero_le _)
  offers := fun _ ho => nomatch ho
  sorted := List.Pairwise.nil
  held := fun _ hr => nomatch hr
  behind := fun _ hr => nomatch hr
  passed := by
    intro _ r hr
    rw [List.take_zero] at hr
    exact nomatch hr

theorem SoundLink.mono (h : SoundLink log stored l) (hsub : ∀ c ∈ stored, c ∈ stored') :
    SoundLink log stored' l where
  taken_le := h.taken_le
  floor := h.floor.mono hsub
  offers := fun o ho => (h.offers o ho).mono hsub
  sorted := h.sorted
  held := h.held
  behind := fun r hr t ht hlt => (h.behind r hr t ht hlt).imp_left (hsub t)
  passed := fun hlive r hr => (h.passed hlive r hr).imp_left (hsub r)

/-- A new record is above everything that a link knows. -/
theorem SoundLink.record (h : SoundLink log stored l) {e : ℕ} (he : ∀ r ∈ log, r < e) :
    SoundLink (log ++ [e]) stored l := by
  have htake : (log ++ [e]).take l.taken = log.take l.taken :=
    List.take_append_of_le_length h.taken_le
  constructor
  · rw [List.length_append]
    exact Nat.le_add_right_of_le h.taken_le
  · exact h.floor
  · exact h.offers
  · exact h.sorted
  · rw [htake]
    exact h.held
  · intro r hr t ht hlt
    rcases List.mem_append.mp ht with ht | ht
    · exact h.behind r hr t ht hlt
    · have hrlog := List.mem_of_mem_take (h.held r hr)
      have := he r hrlog
      have := List.mem_singleton.mp ht
      omega
  · rw [htake]
    exact h.passed

/-! ## The steps of a link -/

theorem SoundLink.close (h : SoundLink log stored l) {p : List (List ℕ)} (hp : p <+: l.pending) :
    SoundLink log stored { l with live := false, pending := p } := by
  have hheld : p.flatten <+: l.held := hp.flatten
  have hsorted := h.sorted
  obtain ⟨rest, hrest⟩ := hheld
  rw [← hrest, List.pairwise_append] at hsorted
  constructor
  · exact h.taken_le
  · exact h.floor
  · exact h.offers
  · exact hsorted.1
  · intro r hr
    exact h.held r (by rw [← hrest]; exact List.mem_append_left _ hr)
  · intro r hr t ht hlt
    have hmem := h.behind r (by rw [← hrest]; exact List.mem_append_left _ hr) t ht hlt
    rcases hmem with hmem | hmem
    · exact Or.inl hmem
    · rw [← hrest] at hmem
      rcases List.mem_append.mp hmem with hmem | hmem
      · exact Or.inr hmem
      · have := hsorted.2.2 r hr t hmem
        omega
  · exact fun hlive => nomatch hlive

theorem SoundLink.offer (h : SoundLink log stored l) {o : Offer} (ho : Backed stored o.value) :
    SoundLink log stored { l with offers := l.offers ++ [o] } where
  taken_le := h.taken_le
  floor := h.floor
  offers := List.forall_mem_append.mpr ⟨h.offers, List.forall_mem_singleton.mpr ho⟩
  sorted := h.sorted
  held := h.held
  behind := h.behind
  passed := h.passed

theorem SoundLink.deliver (h : SoundLink log stored l) {o : Offer} {rest : List Offer}
    (ho : l.offers = o :: rest) : SoundLink log stored { l.receive o with offers := rest } := by
  have hback : Backed stored o.value := h.offers o (by rw [ho]; exact List.mem_cons_self)
  have hrest : ∀ o' ∈ rest, Backed stored o'.value := fun o' ho' =>
    h.offers o' (by rw [ho]; exact List.mem_cons_of_mem _ ho')
  cases o with
  | returned n =>
      by_cases hfloor : l.floor = 0
      · rw [Link.receive, if_pos hfloor]
        exact ⟨h.taken_le, hback, hrest, h.sorted, h.held, h.behind, h.passed⟩
      · rw [Link.receive, if_neg hfloor]
        exact ⟨h.taken_le, h.floor, hrest, h.sorted, h.held, h.behind, h.passed⟩
  | accepted n => exact ⟨h.taken_le, hback, hrest, h.sorted, h.held, h.behind, h.passed⟩

/-- The first records of a link are taken. -/
theorem held_of_first {before after : List (List ℕ)} {batch : List ℕ}
    (hp : l.pending = before ++ batch :: after) (hbefore : before.flatten = []) :
    l.held = batch ++ after.flatten ∧ (before ++ after).flatten = after.flatten := by
  constructor
  · rw [Link.held, hp, List.flatten_append, hbefore, List.nil_append, List.flatten_cons]
  · rw [List.flatten_append, hbefore, List.nil_append]

theorem SoundLink.store (h : SoundLink log stored l) {before after : List (List ℕ)}
    {batch : List ℕ} (hp : l.pending = before ++ batch :: after) (hbefore : before.flatten = []) :
    SoundLink log (stored ++ batch) { l with pending := before ++ after } := by
  obtain ⟨hheld, hrest⟩ := held_of_first hp hbefore
  have hmove : ∀ t, t ∈ stored ∨ t ∈ l.held → t ∈ stored ++ batch ∨ t ∈ after.flatten := by
    intro t ht
    rw [hheld] at ht
    simp only [List.mem_append] at ht ⊢
    tauto
  have hsub : ∀ c ∈ stored, c ∈ stored ++ batch := fun c hc => List.mem_append_left _ hc
  have hback : ∀ r ∈ after.flatten, r ∈ l.held := by
    intro r hr
    rw [hheld]
    exact List.mem_append_right _ hr
  constructor
  · exact h.taken_le
  · exact h.floor.mono hsub
  · exact fun o ho => (h.offers o ho).mono hsub
  · have hsorted := h.sorted
    rw [hheld, List.pairwise_append] at hsorted
    rw [Link.held, hrest]
    exact hsorted.2.1
  · rw [Link.held, hrest]
    exact fun r hr => h.held r (hback r hr)
  · rw [Link.held, hrest]
    exact fun r hr t ht hlt => hmove t (h.behind r (hback r hr) t ht hlt)
  · rw [Link.held, hrest]
    exact fun hlive r hr => hmove r (h.passed hlive r hr)

end

/-- An empty batch makes no difference to a link. -/
theorem held_of_empty {before after : List (List ℕ)} :
    (before ++ [] :: after).flatten = (before ++ after).flatten := by
  rw [List.flatten_append, List.flatten_cons, List.nil_append, List.flatten_append]

theorem SoundLink.lose {log stored : List ℕ} {l : Link} (h : SoundLink log stored l)
    {before after : List (List ℕ)} (hp : l.pending = before ++ [] :: after) :
    SoundLink log stored { l with pending := before ++ after } := by
  have hheld : l.held = (before ++ after).flatten := by rw [Link.held, hp, held_of_empty]
  have hsorted := h.sorted
  have hin := h.held
  have hbehind := h.behind
  have hpassed := h.passed
  rw [hheld] at hsorted hin hbehind hpassed
  exact ⟨h.taken_le, h.floor, h.offers, hsorted, hin, hbehind, hpassed⟩

/-- The sender reads on: what it skips is stored, and what it keeps is above all it has sent. -/
theorem SoundLink.forward {log stored : List ℕ} {l : Link} (h : SoundLink log stored l)
    (hlog : log.Pairwise (· < ·)) (hbelow : ∀ r ∈ log, r < l.floor → r ∈ stored)
    (hlive : l.live = true) {k : ℕ} (hk : k = 0 ∨ l.taken + k ≤ log.length) :
    SoundLink log stored { l with
      taken := l.taken + k
      pending := l.pending ++ [((log.drop l.taken).take k).filter fun r => l.floor ≤ r] } := by
  let read := (log.drop l.taken).take k
  let kept := read.filter fun r => l.floor ≤ r
  have htake : log.take (l.taken + k) = log.take l.taken ++ read := List.take_add
  have hread : ∀ r ∈ read, r ∈ log := fun r hr => List.mem_of_mem_drop (List.mem_of_mem_take hr)
  have hkept : ∀ r ∈ kept, r ∈ read := fun r hr => List.mem_of_mem_filter hr
  -- A record that is read is kept or lies below the floor.
  have hsplit : ∀ r ∈ read, r ∈ stored ∨ r ∈ kept := by
    intro r hr
    by_cases hfloor : l.floor ≤ r
    · exact Or.inr (List.mem_filter.mpr ⟨hr, decide_eq_true hfloor⟩)
    · exact Or.inl (hbelow r (hread r hr) (by omega))
  have horder := hlog
  rw [← List.take_append_drop (l.taken + k) log, htake, List.append_assoc,
    List.pairwise_append] at horder
  obtain ⟨_, horder, hpast⟩ := horder
  rw [List.pairwise_append] at horder
  have hheld : (l.pending ++ [kept]).flatten = l.held ++ kept := by
    rw [List.flatten_append, List.flatten_singleton]
    rfl
  constructor
  · change l.taken + k ≤ log.length
    have := h.taken_le
    omega
  · exact h.floor
  · exact h.offers
  · change (l.pending ++ [kept]).flatten.Pairwise (· < ·)
    rw [hheld, List.pairwise_append]
    refine ⟨h.sorted, horder.1.filter _, ?_⟩
    intro a ha b hb
    exact hpast a (h.held a ha) b (List.mem_append_left _ (hkept b hb))
  · intro r hr
    change r ∈ log.take (l.taken + k)
    rw [htake, List.mem_append]
    have hr : r ∈ (l.pending ++ [kept]).flatten := hr
    rw [hheld, List.mem_append] at hr
    exact hr.imp (h.held r) (hkept r)
  · intro r hr t ht hlt
    change t ∈ stored ∨ t ∈ (l.pending ++ [kept]).flatten
    have hr : r ∈ (l.pending ++ [kept]).flatten := hr
    rw [hheld, List.mem_append] at hr ⊢
    rcases hr with hr | hr
    · exact (h.behind r hr t ht hlt).imp_right Or.inl
    · rw [← List.take_append_drop (l.taken + k) log, htake, List.append_assoc,
        List.mem_append, List.mem_append] at ht
      rcases ht with ht | ht | ht
      · exact (h.passed hlive t ht).imp_right Or.inl
      · exact (hsplit t ht).imp_right Or.inr
      · have := horder.2.2 r (hkept r hr) t ht
        omega
  · intro _ r hr
    change r ∈ stored ∨ r ∈ (l.pending ++ [kept]).flatten
    have hr : r ∈ log.take (l.taken + k) := hr
    rw [htake, List.mem_append] at hr
    rw [hheld, List.mem_append]
    rcases hr with hr | hr
    · exact (h.passed hlive r hr).imp_right Or.inl
    · exact (hsplit r hr).imp_right Or.inr

/-! ## Steps -/

/-- Replace one link, and let the store grow. -/
theorem Sound.set {s : State} (h : Sound s) {i : ℕ} {l : Link} (hl : SoundLink s.log s.stored l) :
    Sound (s.set i l) where
  sorted := h.sorted
  pos := h.pos
  stored := h.stored
  closed := h.closed
  links := by
    intro j
    by_cases hj : j = i
    · rw [hj, set_links_self]
      exact hl
    · rw [set_links_of_ne s l hj]
      exact h.links j

theorem Sound.record {s : State} (h : Sound s) {e : ℕ} (hpos : 0 < e) (he : ∀ r ∈ s.log, r < e) :
    Sound { s with log := s.log ++ [e] } where
  sorted := by
    refine List.pairwise_append.mpr ⟨h.sorted, List.pairwise_singleton _ _, ?_⟩
    intro a ha b hb
    rw [List.mem_singleton.mp hb]
    exact he a ha
  pos := List.forall_mem_append.mpr ⟨h.pos, List.forall_mem_singleton.mpr hpos⟩
  stored := fun c hc => List.mem_append_left _ (h.stored c hc)
  closed := by
    intro c hc r hr hlt
    rcases List.mem_append.mp hr with hr | hr
    · exact h.closed c hc r hr hlt
    · have := he c (h.stored c hc)
      have := List.mem_singleton.mp hr
      omega
  links := fun i => (h.links i).record he

/-- The store takes the first records of a link. -/
theorem Sound.store {s : State} (h : Sound s) {i : ℕ} {before after : List (List ℕ)}
    {batch : List ℕ} (hp : (s.links i).pending = before ++ batch :: after)
    (hbefore : before.flatten = []) :
    Sound { s.set i { s.links i with pending := before ++ after } with
      stored := s.stored ++ batch } := by
  obtain ⟨hheld, _⟩ := held_of_first hp hbefore
  have hsub : ∀ c ∈ s.stored, c ∈ s.stored ++ batch := fun c hc => List.mem_append_left _ hc
  have hbatch : ∀ r ∈ batch, r ∈ (s.links i).held := by
    intro r hr
    rw [hheld]
    exact List.mem_append_left _ hr
  have hlog : ∀ r ∈ batch, r ∈ s.log := fun r hr =>
    List.mem_of_mem_take ((h.links i).held r (hbatch r hr))
  constructor
  · exact h.sorted
  · exact h.pos
  · exact List.forall_mem_append.mpr ⟨h.stored, hlog⟩
  · intro c hc r hr hlt
    change r ∈ s.stored ++ batch
    rcases List.mem_append.mp hc with hc | hc
    · exact hsub r (h.closed c hc r hr hlt)
    · rcases (h.links i).behind c (hbatch c hc) r hr hlt with hmem | hmem
      · exact hsub r hmem
      · -- A pending record below one of the batch is in the batch itself.
        rw [hheld] at hmem
        rcases List.mem_append.mp hmem with hmem | hmem
        · exact List.mem_append_right _ hmem
        · have hsorted := (h.links i).sorted
          rw [hheld, List.pairwise_append] at hsorted
          have := hsorted.2.2 c hc r hmem
          omega
  · intro j
    by_cases hj : j = i
    · change SoundLink s.log (s.stored ++ batch) ((s.set i _).links j)
      rw [hj, set_links_self]
      exact (h.links i).store hp hbefore
    · change SoundLink s.log (s.stored ++ batch) ((s.set i _).links j)
      rw [set_links_of_ne s _ hj]
      exact (h.links j).mono hsub

/-- **Orderly steps keep the invariant.** -/
theorem sound_step {s s' : State} {a : Label} (h : Sound s) (hgood : Orderly s a)
    (hstep : Step s a s') : Sound s' := by
  cases hstep with
  | stay => exact h
  | record e => exact h.record hgood.1 hgood.2
  | connect i hdead hfresh => exact h.set (soundLink_fresh true true)
  | close i p hlive hp => exact h.set ((h.links i).close hp)
  | offer i n hmade hmax hn =>
      refine h.set ((h.links i).offer ?_)
      rcases hn with rfl | ⟨c, hc, rfl⟩
      · exact Or.inl (Nat.le_refl _)
      · exact Or.inr ⟨c, hc, Nat.le_refl _⟩
  | deliver i o rest hlive ho => exact h.set ((h.links i).deliver ho)
  | forward i k j hlive hresumed hk hj =>
      have hjk : j = k := hgood
      rw [hjk]
      exact h.set ((h.links i).forward h.sorted
        (fun r hr hlt => h.below (h.links i).floor hr hlt) hlive hk)
  | store i before batch after hp => exact h.store hp hgood
  | lose i before batch after hp =>
      have hbatch : batch = [] := hgood
      rw [hbatch] at hp
      exact h.set ((h.links i).lose hp)
  | accept i n hmade => exact h.set ((h.links i).offer hgood)

end Upload
