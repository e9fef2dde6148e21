import ClientService.Uv.Handler

/-!
# The lifetime of sessions

Queued work points to its session, and so does a packet in the send queue. Closing and deleting
a session looks at neither. So both may act on a session that has been deleted, unless a session
is closed only when it has no unfinished work and nothing in the send queue.

## Main definitions

* `UvHandler.Busy` — something refers to a session.
* `UvHandler.Respects` — a step acts only on sessions that are there.
* `UvHandler.Settled` — the condition on the steps.
-/

namespace ClientService

open Transition (run Meets)

namespace UvHandler

/-- The session has unfinished work, or packets in the send queue. -/
def Busy (s : UvHandler) (k : ℕ) : Prop :=
  (∃ job ∈ s.service.jobs, job.session = k) ∨ s.flushed k < (s.service.sent k).length

/-- The session exists. -/
def Exists (s : UvHandler) (k : ℕ) : Prop :=
  ∃ t, s.sockets k = some t ∧ t.destroyed = false

/-- The session exists, and its socket is not closed. -/
def Writable (s : UvHandler) (k : ℕ) : Prop :=
  ∃ t, s.sockets k = some t ∧ t.destroyed = false ∧ t.closed = false

/-- Queued work reads and replies through a session that exists, and only sockets that can be
written to are passed to `uv_write`. -/
def Respects (s : UvHandler) : Action → Prop
  | .insert j | .reply j => ∀ job ∈ s.service.jobs[j]?, s.Exists job.session
  | .flush => ∀ k, s.flushed k < (s.service.sent k).length → s.Writable k
  | _ => True

/-- The action calls `uv_close` for session `k`, or deletes it. -/
def Ends (s : UvHandler) (k : ℕ) : Action → Prop
  | .readFailed i _ r => k = i ∧ r.Closing
  | .stopHandle p second => (s.removeClient p second).1 = some k ∨
      ∃ t, s.sockets k = some t ∧ t.sock = p ∧ t.destroyed = false
  | _ => False

/-- The condition on the steps: what ends is not busy. -/
def Settled (s : UvHandler) (a : Action) : Prop := ∀ k, s.Ends k a → ¬s.Busy k

/-! ## The invariant -/

structure Alive (s : UvHandler) : Prop where
  busy : ∀ k, s.Busy k → s.Writable k
  fresh : ∀ i, s.service.accepted ≤ i → s.sockets i = none
  pending : ∀ i t, s.sockets i = some t → t.pending = true → t.closed = true

theorem alive_start (flag : Bool) (db : Database) (nextID : Int32) :
    Alive (start flag db nextID) where
  busy := by
    intro k hbusy
    rcases hbusy with ⟨job, hjob, _⟩ | hlt
    · exact nomatch hjob
    · exact absurd hlt (Nat.lt_irrefl 0)
  fresh := fun _ _ => rfl
  pending := fun _ _ h => (nomatch h)

section
variable {s s' : UvHandler} {asserts : Bool} {a : Action} {k : ℕ}

theorem Alive.not_busy (h : s.Alive) (hk : s.service.accepted ≤ k) : ¬s.Busy k := by
  intro hbusy
  obtain ⟨t, ht, _⟩ := h.busy k hbusy
  rw [h.fresh k hk] at ht
  exact nomatch ht

/-- Only a message that is read makes a session busy. -/
theorem busy_of_step {b : Service.Action} {service : Service}
    (hservice : s.service.step asserts b = some service)
    (hbusy : ({ s with service := service } : UvHandler).Busy k) :
    s.Busy k ∨ ∃ env ret, b = .message k env ret := by
  by_cases hactor : s.service.actor b = some k
  · cases b with
    | message i env ret =>
        cases hactor
        exact Or.inr ⟨env, ret, rfl⟩
    | insert j =>
        obtain ⟨job, hjob, hsession⟩ := Option.map_eq_some_iff.mp hactor
        exact Or.inl (Or.inl ⟨job, List.mem_of_getElem? hjob, hsession⟩)
    | reply j =>
        obtain ⟨job, hjob, hsession⟩ := Option.map_eq_some_iff.mp hactor
        exact Or.inl (Or.inl ⟨job, List.mem_of_getElem? hjob, hsession⟩)
    | _ => exact nomatch hactor
  · have hstill := Service.still_step hservice hactor
    rcases hbusy with ⟨job, hjob, hsession⟩ | hlt
    · exact Or.inl (Or.inl ⟨job, hstill.jobs job hjob hsession, hsession⟩)
    · have hsent : service.sent k = s.service.sent k := hstill.sent
      have hlt : s.flushed k < (service.sent k).length := hlt
      rw [hsent] at hlt
      exact Or.inl (Or.inr hlt)

/-! ## New sessions -/

theorem addClient_frame (s : UvHandler) (asserts : Bool) (c p : ℕ) :
    (s.addClient asserts c p).service = s.service ∧
      (s.addClient asserts c p).flushed = s.flushed ∧
      (s.addClient asserts c p).sockets = s.sockets := by
  rw [addClient]
  cases s._clientMap.lookup p with
  | some _ => exact ⟨rfl, rfl, rfl⟩
  | none => cases asserts <;> exact ⟨rfl, rfl, rfl⟩

/-- A new session changes no other. -/
theorem uvConnectCB_frame (s : UvHandler) (asserts accepted : Bool) (c p : ℕ) :
    (s.uvConnectCB asserts accepted c p).service = s.service ∧
      (s.uvConnectCB asserts accepted c p).flushed = s.flushed ∧
      (∀ j, j ≠ c → (s.uvConnectCB asserts accepted c p).sockets j = s.sockets j) ∧
      ∀ t, (s.uvConnectCB asserts accepted c p).sockets c = some t → t.pending = false := by
  have hframe := addClient_frame (s.put c { sock := p }) asserts c p
  rw [uvConnectCB]
  by_cases hgoes : ((s.put c { sock := p }).addClient asserts c p).failed = true ∨ accepted = true
  · rw [if_pos hgoes, hframe.1, hframe.2.1, hframe.2.2]
    refine ⟨rfl, rfl, fun j hj => Function.update_of_ne hj _ _, fun t ht => ?_⟩
    cases (Function.update_self _ _ _).symm.trans ht
    rfl
  · rw [if_neg hgoes]
    refine ⟨hframe.1, hframe.2.1, fun j hj => ?_, fun t ht => ?_⟩
    · exact (Function.update_of_ne hj _ _).trans
        ((congrFun hframe.2.2 j).trans (Function.update_of_ne hj _ _))
    · cases (Function.update_self _ _ _).symm.trans ht
      rfl

theorem Alive.connect (h : s.Alive) {p : ℕ} {accepted : Bool} {service : Service}
    (hservice : s.service.step asserts .accept = some service) :
    (uvConnectCB asserts accepted s.service.accepted p { s with service := service }).Alive := by
  have hframe := uvConnectCB_frame { s with service := service } asserts accepted
    s.service.accepted p
  obtain ⟨hserved, hflushed, hsockets, hpending⟩ := hframe
  have haccepted := accepted_of_accept hservice
  constructor
  · intro k hbusy
    have hbusy : ({ s with service := service } : UvHandler).Busy k := by
      rw [Busy, hserved, hflushed] at hbusy
      exact hbusy
    have hold : s.Busy k := by
      rcases busy_of_step hservice hbusy with hold | ⟨env, ret, heq⟩
      · exact hold
      · exact nomatch heq
    have hne : k ≠ s.service.accepted := fun heq => h.not_busy (le_of_eq heq.symm) hold
    rw [Writable, hsockets k hne]
    exact h.busy k hold
  · intro i hi
    rw [hserved] at hi
    have hi : service.accepted ≤ i := hi
    rw [hsockets i (by omega)]
    exact h.fresh i (by omega)
  · intro i t hi hpend
    by_cases heq : i = s.service.accepted
    · rw [heq] at hi
      rw [hpending t hi] at hpend
      exact nomatch hpend
    · rw [hsockets i heq] at hi
      exact h.pending i t hi hpend

/-! ## The end of sessions -/

/-- Only sockets change, and those of busy sessions can still be written to. -/
theorem Alive.change (h : s.Alive) (hservice : s'.service = s.service)
    (hflushed : s'.flushed = s.flushed) (hkeep : ∀ k, s.Busy k → s.Writable k → s'.Writable k)
    (hnone : ∀ i, s.sockets i = none → s'.sockets i = none)
    (hpending : ∀ i t, s'.sockets i = some t → t.pending = true → t.closed = true) :
    s'.Alive where
  busy := by
    intro k hbusy
    rw [Busy, hservice, hflushed] at hbusy
    exact hkeep k hbusy (h.busy k hbusy)
  fresh := by
    intro i hi
    rw [hservice] at hi
    exact hnone i (h.fresh i hi)
  pending := hpending

/-- No socket changes. -/
theorem Alive.of_eq (h : s.Alive) (hservice : s'.service = s.service)
    (hflushed : s'.flushed = s.flushed) (hsockets : s'.sockets = s.sockets) : s'.Alive := by
  refine h.change hservice hflushed ?_ ?_ ?_
  · intro k _ hwritable
    rw [Writable, hsockets]
    exact hwritable
  · intro i hi
    rw [hsockets]
    exact hi
  · rw [hsockets]
    exact h.pending

/-- The socket of one session changes. -/
theorem Alive.put (h : s.Alive) {i : ℕ} {t t' : ClientSocket} (hi : s.sockets i = some t)
    (hkeep : s.Busy i → t'.destroyed = false ∧ t'.closed = false)
    (hpending : t'.pending = true → t'.closed = true) : (s.put i t').Alive := by
  refine h.change rfl rfl ?_ ?_ ?_
  · intro k hbusy hwritable
    by_cases hk : k = i
    · rw [hk] at hbusy ⊢
      exact ⟨t', put_sockets_self i t', hkeep hbusy⟩
    · obtain ⟨u, hu, hu'⟩ := hwritable
      exact ⟨u, (put_sockets_of_ne hk t').trans hu, hu'⟩
  · intro k hk
    have hne : k ≠ i := by
      intro heq
      rw [heq, hi] at hk
      exact nomatch hk
    exact (put_sockets_of_ne hne t').trans hk
  · intro k u hu
    by_cases hk : k = i
    · rw [hk, put_sockets_self] at hu
      cases hu
      exact hpending
    · rw [put_sockets_of_ne hk] at hu
      exact h.pending k u hu

theorem Alive.readFailed (h : s.Alive) {i : ℕ} {stray : Bool} {t : ClientSocket} {r : FailedRead}
    (hi : s.reading i = some t) (hgood : s.Settled (.readFailed i stray r)) :
    (s.uvReadFailed i stray t r).Alive := by
  obtain ⟨hsocket, hclosed, hdestroyed⟩ := reading_eq_some hi
  by_cases hnamed : s.Named i stray
  · have hput : (s.put i (if r.Closing then
        { t with closed := true, pending := true, failed := true }
      else { t with failed := true })).Alive := by
      by_cases hclosing : r.Closing
      · rw [if_pos hclosing]
        exact h.put hsocket (fun hbusy => absurd hbusy (hgood i ⟨rfl, hclosing⟩)) fun _ => rfl
      · rw [if_neg hclosing]
        exact h.put hsocket (fun _ => ⟨hdestroyed, hclosed⟩) (h.pending i t hsocket)
    rw [uvReadFailed_of_named t r hnamed]
    exact hput.of_eq rfl rfl rfl
  · rw [uvReadFailed_of_nameless t r hnamed]
    exact h.of_eq rfl rfl rfl

/-- Nothing refers to a session when its `uvCloseCB` is called. -/
theorem Alive.closed (h : s.Alive) {i : ℕ} {t : ClientSocket} (hi : s.sockets i = some t)
    (hpending : t.pending = true) : (s.uvCloseCB i t).Alive := by
  have hdisconnect : (s.clientDisconnect t.sock).Alive := by
    rw [clientDisconnect]
    cases s._clientMap.lookup t.sock with
    | some _ => exact h.of_eq rfl rfl rfl
    | none => exact h.of_eq rfl rfl rfl
  have hsocket : (s.clientDisconnect t.sock).sockets i = some t := by
    rw [clientDisconnect]
    cases s._clientMap.lookup t.sock <;> exact hi
  refine hdisconnect.put hsocket (fun hbusy => ?_) (fun hfalse => nomatch hfalse)
  obtain ⟨u, hu, _, hopen⟩ := hdisconnect.busy i hbusy
  rw [hsocket] at hu
  cases hu
  rw [h.pending i t hi hpending] at hopen
  exact nomatch hopen

theorem Alive.shut (h : s.Alive) {p : ℕ}
    (hidle : ∀ k t, s.sockets k = some t → t.sock = p → t.destroyed = false → ¬s.Busy k) :
    (s.shut p).Alive := by
  refine h.change rfl rfl ?_ ?_ ?_
  · intro k hbusy hwritable
    obtain ⟨t, ht, hdestroyed, hclosed⟩ := hwritable
    have hne : ¬(t.sock = p ∧ t.destroyed = false) := fun hand =>
      hidle k t ht hand.1 hand.2 hbusy
    exact ⟨t, by simp [UvHandler.shut, ht, hne], hdestroyed, hclosed⟩
  · intro i hi
    simp [UvHandler.shut, hi]
  · intro i t ht hpending
    obtain ⟨u, hu, heq⟩ := Option.map_eq_some_iff.mp ht
    by_cases hshut : u.sock = p ∧ u.destroyed = false
    · rw [if_pos hshut] at heq
      rw [← heq]
    · rw [if_neg hshut] at heq
      rw [← heq] at hpending ⊢
      exact h.pending i u hu hpending

theorem removeClient_frame (p : ℕ) (second : Option ℕ) :
    (s.removeClient p second).2.service = s.service ∧
      (s.removeClient p second).2.flushed = s.flushed ∧
      (s.removeClient p second).2.sockets = s.sockets := by
  rw [removeClient]
  cases s._clientMap.lookup p <;> exact ⟨rfl, rfl, rfl⟩

theorem Alive.stopHandle (h : s.Alive) {p : ℕ} {second : Option ℕ}
    (hgood : s.Settled (.stopHandle p second)) : (s.stopHandle p second).Alive := by
  obtain ⟨hservice, hflushed, hsockets⟩ := s.removeClient_frame p second
  have hbusy : ∀ k, (s.removeClient p second).2.Busy k → s.Busy k := by
    intro k hbusy
    rw [Busy, hservice, hflushed] at hbusy
    exact hbusy
  have hremove : (s.removeClient p second).2.Alive := h.of_eq hservice hflushed hsockets
  cases hc : (s.removeClient p second).1 with
  | none =>
      have hstop : s.stopHandle p second = (s.removeClient p second).2.shut p := by
        simp only [UvHandler.stopHandle, hc]
      rw [hstop]
      refine hremove.shut fun k t ht hsock hdestroyed hk => ?_
      rw [hsockets] at ht
      exact hgood k (Or.inr ⟨t, ht, hsock, hdestroyed⟩) (hbusy k hk)
  | some c =>
      cases ht : (s.removeClient p second).2.sockets c with
      | none =>
          have hstop : s.stopHandle p second =
              { (s.removeClient p second).2 with failed := true } := by
            simp only [UvHandler.stopHandle, hc, ht]
          rw [hstop]
          exact hremove.of_eq rfl rfl rfl
      | some t =>
          have hstop : s.stopHandle p second = ((s.removeClient p second).2.put c
              { t with closed := true, destroyed := true }).shut p := by
            simp only [UvHandler.stopHandle, hc, ht]
          rw [hstop]
          have hidle : ¬(s.removeClient p second).2.Busy c := fun hk =>
            hgood c (Or.inl hc) (hbusy c hk)
          refine (hremove.put ht (fun hk => absurd hk hidle) fun _ => rfl).shut ?_
          intro k u hu hsock hdestroyed hk
          by_cases heq : k = c
          · rw [heq] at hk
            exact hidle hk
          · rw [put_sockets_of_ne heq, hsockets] at hu
            exact hgood k (Or.inr ⟨u, hu, hsock, hdestroyed⟩) (hbusy k hk)

/-! ## Steps and runs -/

/-- **Settled steps keep what is referred to.** -/
theorem alive_step (h : s.Alive) (hgood : s.Settled a) (hstep : s.step asserts a = some s') :
    s'.Alive := by
  cases (step_spec hstep).2 with
  | connect hfresh hservice => exact h.connect hservice
  | served hb hreads hservice =>
      rename_i b service
      refine ⟨?_, ?_, h.pending⟩
      · intro k hbusy
        rcases busy_of_step hservice hbusy with hold | ⟨env, ret, heq⟩
        · exact h.busy k hold
        · -- A session that is read from can be written to.
          rw [heq] at hb
          obtain ⟨stray, hlooks⟩ := looksUp_of_message hb
          obtain ⟨t, ht⟩ := Option.isSome_iff_exists.mp (hreads k stray hlooks).1
          obtain ⟨hsocket, hclosed, hdestroyed⟩ := reading_eq_some ht
          exact ⟨t, hsocket, hdestroyed, hclosed⟩
      · intro i hi
        have hi : service.accepted ≤ i := hi
        rw [Service.accepted_step hservice (behind_ne_accept hb)] at hi
        exact h.fresh i hi
  | read _ => exact h
  | nameless _ _ => exact h.of_eq rfl rfl rfl
  | readFailed hi => exact h.readFailed hi hgood
  | closed hi hpending => exact h.closed hi hpending
  | stopHandle p second => exact h.stopHandle hgood
  | flush =>
      refine ⟨?_, h.fresh, h.pending⟩
      intro k hbusy
      rcases hbusy with hjob | hlt
      · exact h.busy k (Or.inl hjob)
      · exact absurd hlt (Nat.lt_irrefl _)

theorem Alive.respects (h : s.Alive) (a : Action) : s.Respects a := by
  have hjob : ∀ j : ℕ, ∀ job ∈ s.service.jobs[j]?, s.Exists job.session := by
    intro j job hj
    obtain ⟨t, ht, hdestroyed, _⟩ :=
      h.busy job.session (Or.inl ⟨job, List.mem_of_getElem? hj, rfl⟩)
    exact ⟨t, ht, hdestroyed⟩
  cases a with
  | insert j => exact hjob j
  | reply j => exact hjob j
  | flush => exact fun k hlt => h.busy k (Or.inr hlt)
  | _ => trivial

end

/-- **Sessions outlive what refers to them**, in every run in which a session is closed or deleted
only when it has no unfinished work and nothing in the send queue. -/
theorem respects_run (asserts flag : Bool) (db : Database) (nextID : Int32) {as : List Action}
    (h : Meets (step asserts) Settled (start flag db nextID) as) :
    Meets (step asserts) Respects (start flag db nextID) as :=
  Meets.of_invariant (fun _ _ _ hs hgood hstep => alive_step hs hgood hstep)
    (fun _ a hs _ => hs.respects a) (alive_start flag db nextID) h

end UvHandler

namespace Sample

/-- A session that disconnects when its reply has been written. The pointer that its first read
finds can be read. -/
def answered : List UvHandler.Action :=
  [.connect 7 true, .message 0 true surroundings (hello "m-2"), .flush,
    .readFailed 0 false hangUp]

/-- A session that disconnects while its package of events waits for a worker. -/
def abandoned : List UvHandler.Action :=
  [.connect 7 true, .message 0 true surroundings (hello "m-2"),
    .message 0 false surroundings package, .readFailed 0 false hangUp, .closed 0, .insert 0]

end Sample

namespace UvHandler

theorem respects_run_answered :
    Meets (step false) Respects (start false Sample.database 0) Sample.answered := by
  have hquiet : ∀ (s : UvHandler) (a : Action), (∀ k, ¬s.Ends k a) → s.Settled a :=
    fun s a h k hk => absurd hk (h k)
  refine respects_run false false Sample.database 0
    ⟨hquiet _ _ fun k hk => hk, fun s₁ hs₁ => ⟨hquiet _ _ fun k hk => hk, fun s₂ hs₂ =>
      ⟨hquiet _ _ fun k hk => hk, fun s₃ hs₃ => ⟨?_, fun _ _ => trivial⟩⟩⟩⟩
  cases hs₁
  cases hs₂
  cases hs₃
  intro k _ hbusy
  rcases hbusy with ⟨job, hjob, _⟩ | hlt
  · exact nomatch hjob
  · exact absurd hlt (Nat.lt_irrefl _)

/-- The worker reads the session that has been deleted. -/
theorem not_respects_abandoned :
    ¬Meets (step false) Respects (start false Sample.database 0) Sample.abandoned := by
  intro h
  have hwork := ((((((h.2 _ rfl).2 _ rfl).2 _ rfl).2 _ rfl).2 _ rfl).1) _ rfl
  obtain ⟨t, ht, hdestroyed⟩ := hwork
  cases ht
  exact nomatch hdestroyed

end UvHandler
end ClientService
