import ClientService.Upload.Basic

/-!
# No record is stored twice

When the resume point is computed only after the batches of earlier links are settled, and an
accepted point never takes the sender back to records below the point it started with, then no
record is stored twice.

What a live sender may still send is neither stored nor pending, and while it may send, no other
link has anything pending.

## Main definitions

* `Careful` — what the steps have to keep to.
* `Link.New` — what a sender may still send is new.
* `Once` — the invariant.
-/

namespace Upload

/-- Steps after which no record is stored twice. -/
def Careful (s : State) : Label → Prop
  | .record e => e ∉ s.log
  | .offer i _ => (s.links i).live = true → ∀ j < i, (s.links j).held = []
  | .deliver i (.accepted n) => ∀ m, (s.links i).resumed = some m →
      1 ≤ n ∧ ∀ r ∈ s.log.drop (s.links i).taken, n ≤ r → m ≤ r
  | _ => True

/-- The sender may start with `n`, or has started with it. -/
def Link.Granted (l : Link) (n : ℕ) : Prop :=
  (l.resumed = none ∧ .returned n ∈ l.offers) ∨ l.resumed = some n

/-- From `n` on, the records that are still to be read are neither stored nor pending. -/
def Link.New (l : Link) (log stored : List ℕ) (n : ℕ) : Prop :=
  ∀ r ∈ log.drop l.taken, n ≤ r → r ∉ stored ∧ r ∉ l.held

/-- The invariant of a link, with the log and the store. -/
structure OnceLink (log stored : List ℕ) (l : Link) : Prop where
  nodup : l.held.Nodup
  held : ∀ r ∈ l.held, r ∈ log ∧ r ∉ stored
  returned : ∀ n, .returned n ∈ l.offers → 1 ≤ n
  unresumed : l.resumed = none → l.held = []
  ahead : l.live = true → ∀ n, l.Granted n → l.New log stored n
  floor : l.live = true → l.resumed.isSome = true → 1 ≤ l.floor ∧ l.New log stored l.floor

structure Once (s : State) : Prop where
  log : s.log.Nodup
  nodup : s.stored.Nodup
  stored : ∀ c ∈ s.stored, c ∈ s.log
  links : ∀ i, OnceLink s.log s.stored (s.links i)
  /-- Links are made one after the other. -/
  latest : ∀ i, (s.links i).live = true → ∀ j, i < j → s.links j = {}
  /-- At most one link has something pending. -/
  alone : ∀ i j, i ≠ j → (s.links i).held ≠ [] → (s.links j).held = []
  /-- While a sender may send, the other links have nothing pending. -/
  granted : ∀ i, (s.links i).live = true → ∀ n, (s.links i).Granted n →
    ∀ j, j ≠ i → (s.links j).held = []

/-! ## What is new -/

section
variable {log stored : List ℕ} {l l' : Link} {n : ℕ}

theorem Link.New.record (h : l.New log stored n) {e : ℕ} (hstored : e ∉ stored)
    (hheld : e ∉ l.held) : l.New (log ++ [e]) stored n := by
  intro r hr hle
  rw [List.drop_append] at hr
  rcases List.mem_append.mp hr with hr | hr
  · exact h r hr hle
  · rw [List.mem_singleton.mp (List.mem_of_mem_drop hr)]
    exact ⟨hstored, hheld⟩

/-- Less may be pending, and what has been pending may be stored. -/
theorem Link.New.settle (h : l.New log stored n) {batch : List ℕ} (htaken : l'.taken = l.taken)
    (hheld : ∀ r ∈ l'.held, r ∈ l.held) (hbatch : ∀ r ∈ batch, r ∈ l.held) :
    l'.New log (stored ++ batch) n := by
  intro r hr hle
  rw [htaken] at hr
  obtain ⟨hs, hh⟩ := h r hr hle
  refine ⟨fun hc => ?_, fun hc => hh (hheld r hc)⟩
  rcases List.mem_append.mp hc with hc | hc
  · exact hs hc
  · exact hh (hbatch r hc)

theorem Link.New.shrink (h : l.New log stored n) (htaken : l'.taken = l.taken)
    (hheld : ∀ r ∈ l'.held, r ∈ l.held) : l'.New log stored n := by
  have hsettle : l'.New log (stored ++ []) n := h.settle htaken hheld fun _ hr => nomatch hr
  rwa [List.append_nil] at hsettle

/-- What the sender reads is not read again. -/
theorem Link.New.forward (h : l.New log stored n) (hlog : log.Nodup) {k j : ℕ} (hj : j ≤ k)
    {p : ℕ → Bool} :
    ({ l with
      taken := l.taken + k
      pending := l.pending ++ [((log.drop l.taken).take j).filter p] } :
        Link).New log stored n := by
  intro r hr hle
  have hr : r ∈ log.drop (l.taken + k) := hr
  rw [← List.drop_drop] at hr
  obtain ⟨hs, hh⟩ := h r (List.mem_of_mem_drop hr) hle
  refine ⟨hs, fun hc => ?_⟩
  have hc : r ∈ (l.pending ++ [((log.drop l.taken).take j).filter p]).flatten := hc
  rw [List.flatten_append, List.flatten_singleton, List.mem_append] at hc
  rcases hc with hc | hc
  · exact hh hc
  · have hdrop : (log.drop l.taken).Nodup := hlog.sublist (List.drop_sublist _ _)
    exact List.disjoint_take_drop hdrop hj (List.mem_of_mem_filter hc) hr

end

/-! ## A link under changes elsewhere -/

section
variable {log stored : List ℕ} {l : Link}

theorem onceLink_fresh (made live : Bool) :
    OnceLink log stored { made := made, live := live } where
  nodup := List.nodup_nil
  held := fun _ hr => nomatch hr
  returned := fun _ ho => nomatch ho
  unresumed := fun _ => rfl
  ahead := by
    intro _ n hn
    rcases hn with ⟨_, ho⟩ | hn
    · exact nomatch ho
    · exact nomatch hn
  floor := fun _ hresumed => nomatch hresumed

theorem OnceLink.record (h : OnceLink log stored l) {e : ℕ} (he : e ∉ log)
    (hstored : ∀ c ∈ stored, c ∈ log) : OnceLink (log ++ [e]) stored l := by
  have hs : e ∉ stored := fun hc => he (hstored e hc)
  have hh : e ∉ l.held := fun hc => he (h.held e hc).1
  exact
    { nodup := h.nodup
      held := fun r hr => ⟨List.mem_append_left _ (h.held r hr).1, (h.held r hr).2⟩
      returned := h.returned
      unresumed := h.unresumed
      ahead := fun hlive n hn => (h.ahead hlive n hn).record hs hh
      floor := fun hlive hresumed =>
        ⟨(h.floor hlive hresumed).1, (h.floor hlive hresumed).2.record hs hh⟩ }

/-! ## The steps of a link -/

theorem OnceLink.close (h : OnceLink log stored l) {p : List (List ℕ)} (hp : p <+: l.pending) :
    OnceLink log stored { l with live := false, pending := p } where
  nodup := h.nodup.sublist hp.flatten.sublist
  held := fun r hr => h.held r (hp.flatten.subset hr)
  returned := h.returned
  unresumed := by
    intro hnone
    have hnil : p.flatten <+: [] := by
      rw [← h.unresumed hnone]
      exact hp.flatten
    exact List.prefix_nil.mp hnil
  ahead := fun hlive => nomatch hlive
  floor := fun hlive => nomatch hlive

theorem OnceLink.offer (h : OnceLink log stored l) {n : ℕ} (hpos : 1 ≤ n)
    (hmax : ∀ c ∈ stored, c < n) :
    OnceLink log stored { l with offers := l.offers ++ [.returned n] } where
  nodup := h.nodup
  held := h.held
  returned := by
    intro m hm
    rcases List.mem_append.mp hm with hm | hm
    · exact h.returned m hm
    · cases List.mem_singleton.mp hm
      exact hpos
  unresumed := h.unresumed
  ahead := by
    intro hlive m hm
    rcases hm with ⟨hnone, hm⟩ | hm
    · rcases List.mem_append.mp hm with hm | hm
      · exact h.ahead hlive m (Or.inl ⟨hnone, hm⟩)
      · cases List.mem_singleton.mp hm
        have hheld : l.held = [] := h.unresumed hnone
        intro r _ hle
        refine ⟨fun hc => ?_, fun hc => ?_⟩
        · have := hmax r hc
          omega
        · have hc : r ∈ l.held := hc
          rw [hheld] at hc
          exact nomatch hc
    · exact h.ahead hlive m (Or.inr hm)
  floor := h.floor

theorem OnceLink.accept (h : OnceLink log stored l) (n : ℕ) :
    OnceLink log stored { l with offers := l.offers ++ [.accepted n] } where
  nodup := h.nodup
  held := h.held
  returned := by
    intro m hm
    rcases List.mem_append.mp hm with hm | hm
    · exact h.returned m hm
    · cases List.mem_singleton.mp hm
  unresumed := h.unresumed
  ahead := by
    intro hlive m hm
    refine h.ahead hlive m (hm.imp_left ?_)
    rintro ⟨hnone, hm⟩
    refine ⟨hnone, (List.mem_append.mp hm).resolve_right ?_⟩
    intro hm
    cases List.mem_singleton.mp hm
  floor := h.floor

theorem OnceLink.resumed_eq_none (h : OnceLink log stored l) (hlive : l.live = true)
    (hfloor : l.floor = 0) : l.resumed = none := by
  by_contra hresumed
  have := (h.floor hlive (Option.isSome_iff_ne_none.mpr hresumed)).1
  omega

/-- Delivering an offer grants nothing new. -/
theorem OnceLink.granted_of_deliver (h : OnceLink log stored l) (hlive : l.live = true) {o : Offer}
    {rest : List Offer} (ho : l.offers = o :: rest) {n : ℕ}
    (hn : ({ l.receive o with offers := rest } : Link).Granted n) : l.Granted n := by
  have hrest : ∀ o' ∈ rest, o' ∈ l.offers := by
    intro o' ho'
    rw [ho]
    exact List.mem_cons_of_mem _ ho'
  cases o with
  | returned m =>
      by_cases hfloor : l.floor = 0
      · rw [Link.receive, if_pos hfloor] at hn
        rcases hn with ⟨hnone, _⟩ | hn
        · exact nomatch hnone
        · cases hn
          refine Or.inl ⟨h.resumed_eq_none hlive hfloor, ?_⟩
          rw [ho]
          exact List.mem_cons_self
      · rw [Link.receive, if_neg hfloor] at hn
        exact hn.imp_left fun ⟨hnone, hmem⟩ => ⟨hnone, hrest _ hmem⟩
  | accepted m => exact hn.imp_left fun ⟨hnone, hmem⟩ => ⟨hnone, hrest _ hmem⟩

theorem OnceLink.deliver (h : OnceLink log stored l) (hlive : l.live = true) {o : Offer}
    {rest : List Offer} (ho : l.offers = o :: rest)
    (hgood : ∀ n, o = .accepted n → ∀ m, l.resumed = some m →
      1 ≤ n ∧ ∀ r ∈ log.drop l.taken, n ≤ r → m ≤ r) :
    OnceLink log stored { l.receive o with offers := rest } := by
  have hreturned : ∀ n, .returned n ∈ rest → 1 ≤ n := by
    intro n hn
    refine h.returned n ?_
    rw [ho]
    exact List.mem_cons_of_mem _ hn
  have hgranted := fun n => h.granted_of_deliver (n := n) hlive ho
  cases o with
  | returned m =>
      have hmem : .returned m ∈ l.offers := by
        rw [ho]
        exact List.mem_cons_self
      by_cases hfloor : l.floor = 0
      · have hnone := h.resumed_eq_none hlive hfloor
        rw [Link.receive, if_pos hfloor] at hgranted ⊢
        exact ⟨h.nodup, h.held, hreturned, fun _ => h.unresumed hnone,
          fun _ n hn => h.ahead hlive n (hgranted n hn),
          fun _ _ => ⟨h.returned m hmem, h.ahead hlive m (Or.inl ⟨hnone, hmem⟩)⟩⟩
      · rw [Link.receive, if_neg hfloor] at hgranted ⊢
        exact ⟨h.nodup, h.held, hreturned, h.unresumed,
          fun _ n hn => h.ahead hlive n (hgranted n hn), h.floor⟩
  | accepted m =>
      refine ⟨h.nodup, h.held, hreturned, h.unresumed,
        fun _ n hn => h.ahead hlive n (hgranted n hn), ?_⟩
      intro _ hresumed
      obtain ⟨k, hk⟩ := Option.isSome_iff_exists.mp hresumed
      obtain ⟨hpos, hback⟩ := hgood m rfl k hk
      exact ⟨hpos, fun r hr hle => h.ahead hlive k (Or.inr hk) r hr (hback r hr hle)⟩

/-- A batch leaves the link without being stored. -/
theorem OnceLink.lose (h : OnceLink log stored l) {before after : List (List ℕ)} {batch : List ℕ}
    (hp : l.pending = before ++ batch :: after) :
    OnceLink log stored { l with pending := before ++ after } := by
  have hsub : (before ++ after).flatten.Sublist l.held := by
    rw [Link.held, hp, List.flatten_append, List.flatten_append, List.flatten_cons]
    exact (List.sublist_append_right _ _).append_left _
  have hmem : ∀ r ∈ (before ++ after).flatten, r ∈ l.held := fun r hr => hsub.subset hr
  refine ⟨h.nodup.sublist hsub, fun r hr => h.held r (hmem r hr), h.returned, ?_, ?_, ?_⟩
  · intro hnone
    have hnil : (before ++ after).flatten.Sublist [] := by
      rw [← h.unresumed hnone]
      exact hsub
    exact List.sublist_nil.mp hnil
  · exact fun hlive n hn => (h.ahead hlive n hn).shrink rfl hmem
  · exact fun hlive hresumed =>
      ⟨(h.floor hlive hresumed).1, (h.floor hlive hresumed).2.shrink rfl hmem⟩

/-- A batch of the link is stored. -/
theorem OnceLink.store (h : OnceLink log stored l) {before after : List (List ℕ)} {batch : List ℕ}
    (hp : l.pending = before ++ batch :: after) :
    OnceLink log (stored ++ batch) { l with pending := before ++ after } := by
  have hlose := h.lose hp
  have hperm : l.held.Perm (batch ++ (before ++ after).flatten) := by
    rw [Link.held, hp, List.flatten_append, List.flatten_append, List.flatten_cons]
    exact List.perm_append_comm_assoc _ _ _
  have hdisjoint := (List.nodup_append.mp (hperm.nodup_iff.mp h.nodup)).2.2
  have hbatch : ∀ r ∈ batch, r ∈ l.held := fun r hr =>
    hperm.mem_iff.mpr (List.mem_append_left _ hr)
  have hrest : ∀ r ∈ (before ++ after).flatten, r ∈ l.held := fun r hr =>
    hperm.mem_iff.mpr (List.mem_append_right _ hr)
  refine ⟨hlose.nodup, ?_, h.returned, hlose.unresumed, ?_, ?_⟩
  · intro r hr
    have hr : r ∈ (before ++ after).flatten := hr
    refine ⟨(hlose.held r hr).1, fun hc => ?_⟩
    rcases List.mem_append.mp hc with hc | hc
    · exact (hlose.held r hr).2 hc
    · exact hdisjoint r hc r hr rfl
  · exact fun hlive n hn => (h.ahead hlive n hn).settle rfl hrest hbatch
  · exact fun hlive hresumed =>
      ⟨(h.floor hlive hresumed).1, (h.floor hlive hresumed).2.settle rfl hrest hbatch⟩

/-- A batch of another link is stored. -/
theorem OnceLink.other (h : OnceLink log stored l) {batch : List ℕ}
    (hheld : batch ≠ [] → l.held = [])
    (hgranted : batch ≠ [] → l.live = true → ∀ n, ¬l.Granted n) :
    OnceLink log (stored ++ batch) l := by
  by_cases hb : batch = []
  · rw [hb, List.append_nil]
    exact h
  · refine ⟨h.nodup, ?_, h.returned, h.unresumed, ?_, ?_⟩
    · intro r hr
      rw [hheld hb] at hr
      exact nomatch hr
    · exact fun hlive n hn => absurd hn (hgranted hb hlive n)
    · intro hlive hresumed
      obtain ⟨n, hn⟩ := Option.isSome_iff_exists.mp hresumed
      exact absurd (Or.inr hn) (hgranted hb hlive n)

/-- The sender reads on: what it keeps is new. -/
theorem OnceLink.forward (h : OnceLink log stored l) (hlog : log.Nodup) (hlive : l.live = true)
    (hresumed : l.resumed.isSome = true) {k j : ℕ} (hj : j ≤ k) :
    OnceLink log stored { l with
      taken := l.taken + k
      pending := l.pending ++ [((log.drop l.taken).take j).filter fun r => l.floor ≤ r] } := by
  let kept := ((log.drop l.taken).take j).filter fun r => l.floor ≤ r
  obtain ⟨hpos, hfloor⟩ := h.floor hlive hresumed
  have hheld : (l.pending ++ [kept]).flatten = l.held ++ kept := by
    rw [List.flatten_append, List.flatten_singleton]
    rfl
  have hkept : ∀ r ∈ kept, r ∈ log.drop l.taken := fun r hr =>
    List.mem_of_mem_take (List.mem_of_mem_filter hr)
  have hnew : ∀ r ∈ kept, r ∉ stored ∧ r ∉ l.held := fun r hr =>
    hfloor r (hkept r hr) (of_decide_eq_true (List.mem_filter.mp hr).2)
  refine ⟨?_, ?_, h.returned, ?_, ?_, ?_⟩
  · change (l.pending ++ [kept]).flatten.Nodup
    have hdrop : (log.drop l.taken).Nodup := hlog.sublist (List.drop_sublist _ _)
    rw [hheld, List.nodup_append]
    refine ⟨h.nodup, (hdrop.sublist (List.take_sublist _ _)).filter _, ?_⟩
    rintro a ha b hb rfl
    exact (hnew a hb).2 ha
  · intro r hr
    have hr : r ∈ (l.pending ++ [kept]).flatten := hr
    rw [hheld, List.mem_append] at hr
    rcases hr with hr | hr
    · exact h.held r hr
    · exact ⟨List.mem_of_mem_drop (hkept r hr), (hnew r hr).1⟩
  · intro hnone
    have hnone : l.resumed = none := hnone
    rw [hnone] at hresumed
    exact nomatch hresumed
  · exact fun _ m hm => (h.ahead hlive m hm).forward hlog hj
  · exact fun _ _ => ⟨hpos, hfloor.forward hlog hj⟩

end

/-! ## Steps -/

section
variable {s : State}

/-- Only one link is live. -/
theorem Once.live_unique (h : Once s) {i j : ℕ} (hi : (s.links i).live = true)
    (hj : (s.links j).live = true) : i = j := by
  rcases Nat.lt_trichotomy i j with hlt | heq | hlt
  · rw [h.latest i hi j hlt] at hj
    exact nomatch hj
  · exact heq
  · rw [h.latest j hj i hlt] at hi
    exact nomatch hi

/-- Replace a link that was made before, and let the store grow. -/
theorem Once.update (h : Once s) {i : ℕ} {l : Link} {stored : List ℕ}
    (hnodup : stored.Nodup) (hsub : ∀ c ∈ stored, c ∈ s.log) (hmade : s.links i ≠ {})
    (hl : OnceLink s.log stored l) (hothers : ∀ j, j ≠ i → OnceLink s.log stored (s.links j))
    (hlive : l.live = true → (s.links i).live = true)
    (halone : l.held ≠ [] → ∀ j, j ≠ i → (s.links j).held = [])
    (hgranted : l.live = true → ∀ n, l.Granted n → ∀ j, j ≠ i → (s.links j).held = [])
    (hback : ∀ j, j ≠ i → (s.links j).live = true → ∀ n, (s.links j).Granted n → l.held = []) :
    Once { s.set i l with stored := stored } where
  log := h.log
  nodup := hnodup
  stored := hsub
  links := by
    intro j
    by_cases hj : j = i
    · change OnceLink s.log stored ((s.set i l).links j)
      rw [hj, set_links_self]
      exact hl
    · change OnceLink s.log stored ((s.set i l).links j)
      rw [set_links_of_ne s l hj]
      exact hothers j hj
  latest := by
    intro a ha j hj
    change (s.set i l).links j = {}
    have ha : ((s.set i l).links a).live = true := ha
    have hold : (s.links a).live = true := by
      by_cases hai : a = i
      · rw [hai, set_links_self] at ha
        rw [hai]
        exact hlive ha
      · rw [set_links_of_ne s l hai] at ha
        exact ha
    by_cases hji : j = i
    · exact absurd (h.latest a hold i (by omega)) hmade
    · rw [set_links_of_ne s l hji]
      exact h.latest a hold j hj
  alone := by
    intro a j haj ha
    change ((s.set i l).links j).held = []
    have ha : ((s.set i l).links a).held ≠ [] := ha
    by_cases hai : a = i
    · have hji : j ≠ i := by omega
      rw [hai, set_links_self] at ha
      rw [set_links_of_ne s l hji]
      exact halone ha j hji
    · rw [set_links_of_ne s l hai] at ha
      by_cases hji : j = i
      · rw [hji, set_links_self]
        by_contra hheld
        exact ha (halone hheld a hai)
      · rw [set_links_of_ne s l hji]
        exact h.alone a j haj ha
  granted := by
    intro a ha n hn j hj
    change ((s.set i l).links j).held = []
    have ha : ((s.set i l).links a).live = true := ha
    have hn : ((s.set i l).links a).Granted n := hn
    by_cases hai : a = i
    · have hji : j ≠ i := by omega
      rw [hai, set_links_self] at ha hn
      rw [set_links_of_ne s l hji]
      exact hgranted ha n hn j hji
    · rw [set_links_of_ne s l hai] at ha hn
      by_cases hji : j = i
      · rw [hji, set_links_self]
        exact hback a hai ha n hn
      · rw [set_links_of_ne s l hji]
        exact h.granted a ha n hn j hj

/-- Replace a link by one with no more pending and nothing more granted. -/
theorem Once.shrink (h : Once s) {i : ℕ} {l : Link} (hmade : s.links i ≠ {})
    (hl : OnceLink s.log s.stored l) (hlive : l.live = true → (s.links i).live = true)
    (hheld : l.held.Sublist (s.links i).held)
    (hgranted : ∀ n, l.Granted n → (s.links i).Granted n) : Once (s.set i l) := by
  have hne : l.held ≠ [] → (s.links i).held ≠ [] := by
    intro hnil heq
    rw [heq] at hheld
    exact hnil (List.sublist_nil.mp hheld)
  refine h.update h.nodup h.stored hmade hl (fun j _ => h.links j) hlive ?_ ?_ ?_
  · exact fun hl j hj => h.alone i j (Ne.symm hj) (hne hl)
  · exact fun hl n hn => h.granted i (hlive hl) n (hgranted n hn)
  · intro j hj hjlive n hn
    by_contra hnil
    exact hne hnil (h.granted j hjlive n hn i (Ne.symm hj))

theorem Once.record (h : Once s) {e : ℕ} (he : e ∉ s.log) :
    Once { s with log := s.log ++ [e] } where
  log := by
    refine List.nodup_append.mpr ⟨h.log, List.nodup_singleton e, ?_⟩
    rintro a ha b hb rfl
    rw [List.mem_singleton.mp hb] at ha
    exact he ha
  nodup := h.nodup
  stored := fun c hc => List.mem_append_left _ (h.stored c hc)
  links := fun i => (h.links i).record he h.stored
  latest := h.latest
  alone := h.alone
  granted := h.granted

theorem Once.connect (h : Once s) {i : ℕ} (hdead : ∀ j, (s.links j).live = false)
    (hfresh : ∀ j, i ≤ j → s.links j = {}) :
    Once (s.set i { made := true, live := true }) where
  log := h.log
  nodup := h.nodup
  stored := h.stored
  links := by
    intro j
    by_cases hj : j = i
    · rw [hj, set_links_self]
      exact onceLink_fresh true true
    · rw [set_links_of_ne s _ hj]
      exact h.links j
  latest := by
    intro a ha j hj
    by_cases hai : a = i
    · rw [set_links_of_ne s _ (by omega)]
      exact hfresh j (by omega)
    · rw [set_links_of_ne s _ hai, hdead a] at ha
      exact nomatch ha
  alone := by
    intro a j haj ha
    by_cases hai : a = i
    · rw [hai, set_links_self] at ha
      exact absurd rfl ha
    · rw [set_links_of_ne s _ hai] at ha
      by_cases hji : j = i
      · rw [hji, set_links_self]
        rfl
      · rw [set_links_of_ne s _ hji]
        exact h.alone a j haj ha
  granted := by
    intro a ha n hn
    by_cases hai : a = i
    · rw [hai, set_links_self] at hn
      rcases hn with ⟨_, ho⟩ | hn
      · exact nomatch ho
      · exact nomatch hn
    · rw [set_links_of_ne s _ hai, hdead a] at ha
      exact nomatch ha

/-- A point is granted when no other link has anything pending. -/
theorem Once.offer (h : Once s) {i n : ℕ} (hmade : (s.links i).made = true)
    (hmax : ∀ c ∈ s.stored, c < n) (hpos : 1 ≤ n)
    (hgood : (s.links i).live = true → ∀ j < i, (s.links j).held = []) :
    Once (s.set i { s.links i with offers := (s.links i).offers ++ [.returned n] }) := by
  refine h.update h.nodup h.stored ?_ ((h.links i).offer hpos hmax) (fun j _ => h.links j) id
    ?_ ?_ ?_
  · intro heq
    rw [heq] at hmade
    exact nomatch hmade
  · exact fun hl j hj => h.alone i j (Ne.symm hj) hl
  · intro hlive _ _ j hj
    rcases Nat.lt_or_gt_of_ne hj with hlt | hgt
    · exact hgood hlive j hlt
    · rw [h.latest i hlive j hgt]
      rfl
  · exact fun j hj hlive n hn => h.granted j hlive n hn i (Ne.symm hj)

theorem Once.forward (h : Once s) {i k j : ℕ} (hlive : (s.links i).live = true)
    (hresumed : (s.links i).resumed.isSome = true) (hj : j ≤ k) :
    Once (s.set i { s.links i with taken := (s.links i).taken + k
                                   pending := (s.links i).pending ++ [s.kept i j] }) := by
  obtain ⟨n, hn⟩ := Option.isSome_iff_exists.mp hresumed
  have hothers := h.granted i hlive n (Or.inr hn)
  refine h.update h.nodup h.stored ?_ ((h.links i).forward h.log hlive hresumed hj)
    (fun j _ => h.links j) id (fun _ => hothers) (fun _ _ _ => hothers) ?_
  · intro heq
    rw [heq] at hlive
    exact nomatch hlive
  · exact fun a ha halive => absurd (h.live_unique halive hlive) ha

theorem Once.store (h : Once s) {i : ℕ} {before after : List (List ℕ)} {batch : List ℕ}
    (hp : (s.links i).pending = before ++ batch :: after) :
    Once { s.set i { s.links i with pending := before ++ after } with
      stored := s.stored ++ batch } := by
  have hmem : ∀ r ∈ batch, r ∈ (s.links i).held := by
    intro r hr
    rw [Link.held, hp, List.flatten_append, List.flatten_cons]
    exact List.mem_append_right _ (List.mem_append_left _ hr)
  have hne : batch ≠ [] → (s.links i).held ≠ [] := by
    intro hb heq
    obtain ⟨r, hr⟩ := List.exists_mem_of_ne_nil _ hb
    have := hmem r hr
    rw [heq] at this
    exact nomatch this
  have hlose := (h.links i).lose hp
  have hsub : (before ++ after).flatten ≠ [] → (s.links i).held ≠ [] := by
    intro hnil heq
    rw [Link.held, hp, List.flatten_append, List.flatten_cons] at heq
    apply hnil
    rw [List.flatten_append]
    simp only [List.append_eq_nil_iff] at heq ⊢
    exact ⟨heq.1, heq.2.2⟩
  refine h.update ?_ ?_ ?_ ((h.links i).store hp) ?_ id ?_ (fun hl n hn => h.granted i hl n hn) ?_
  · refine List.nodup_append.mpr ⟨h.nodup, ?_, ?_⟩
    · have hnodup := (h.links i).nodup
      rw [Link.held, hp, List.flatten_append, List.flatten_cons, List.nodup_append,
        List.nodup_append] at hnodup
      exact hnodup.2.1.1
    · rintro a ha b hb rfl
      exact ((h.links i).held a (hmem a hb)).2 ha
  · exact List.forall_mem_append.mpr ⟨h.stored, fun r hr => ((h.links i).held r (hmem r hr)).1⟩
  · intro heq
    rw [heq] at hp
    exact nomatch (List.append_eq_nil_iff.mp hp.symm).2
  · intro j hj
    refine (h.links j).other (fun hb => h.alone i j (Ne.symm hj) (hne hb)) ?_
    exact fun hb hlive n hn => hne hb (h.granted j hlive n hn i (Ne.symm hj))
  · exact fun hl j hj => h.alone i j (Ne.symm hj) (hsub hl)
  · intro j hj hlive n hn
    by_contra hnil
    exact hsub hnil (h.granted j hlive n hn i (Ne.symm hj))

/-- **Careful steps keep the invariant.** -/
theorem once_step {s' : State} {a : Label} (h : Once s) (hgood : Careful s a)
    (hstep : Step s a s') : Once s' := by
  have hne : ∀ {i : ℕ}, (s.links i).live = true → s.links i ≠ {} := by
    intro i hlive heq
    rw [heq] at hlive
    exact nomatch hlive
  cases hstep with
  | stay => exact h
  | record e => exact h.record hgood
  | connect i hdead hfresh => exact h.connect hdead hfresh
  | close i p hlive hp =>
      exact h.shrink (hne hlive) ((h.links i).close hp) (fun hl => nomatch hl)
        hp.flatten.sublist fun n hn => hn
  | offer i n hmade hmax hn =>
      refine h.offer hmade hmax ?_ hgood
      rcases hn with rfl | ⟨c, _, rfl⟩
      · exact Nat.le_refl _
      · exact Nat.succ_le_succ (Nat.zero_le c)
  | deliver i o rest hlive ho =>
      have hheld : ({ (s.links i).receive o with offers := rest } : Link).held =
          (s.links i).held := by
        cases o with
        | returned n =>
            rw [Link.receive]
            split_ifs <;> rfl
        | accepted n => rfl
      refine h.shrink (hne hlive) ((h.links i).deliver hlive ho ?_) (fun _ => hlive) ?_
        fun n => (h.links i).granted_of_deliver hlive ho
      · rintro n rfl
        exact hgood
      · rw [hheld]
  | forward i k j hlive hresumed _ hj => exact h.forward hlive hresumed hj
  | store i before batch after hp => exact h.store hp
  | lose i before batch after hp =>
      refine h.shrink ?_ ((h.links i).lose hp) id ?_ fun n hn => hn
      · intro heq
        rw [heq] at hp
        exact nomatch (List.append_eq_nil_iff.mp hp.symm).2
      · rw [Link.held, Link.held, hp, List.flatten_append, List.flatten_append, List.flatten_cons]
        exact (List.sublist_append_right _ _).append_left _
  | accept i n hmade =>
      refine h.shrink ?_ ((h.links i).accept n) id (List.Sublist.refl _) ?_
      · intro heq
        rw [heq] at hmade
        exact nomatch hmade
      · intro m hm
        refine hm.imp_left ?_
        rintro ⟨hnone, hm⟩
        refine ⟨hnone, (List.mem_append.mp hm).resolve_right ?_⟩
        intro hm
        cases List.mem_singleton.mp hm

end

end Upload
