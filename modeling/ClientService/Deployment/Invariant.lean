import ClientService.Deployment.Client
import ClientService.Deployment.Server

/-!
# Connections and sessions belong together

Session `i` of the server is that of peer `i`: its client row is the row of the peer's machine,
queued work belongs to a peer, and a peer has handled no more packages than were written to its
session. Every record of a log is legible as long as only legible records are added.

## Main definitions

* `WellFormed` — the invariant.
-/

namespace ClientService.Deployment

open Database (Carries Registered keys)
open Service (Frame Wrote)

structure WellFormed (s : Deployment) : Prop where
  registered : Registered s.service.db
  accepted : s.service.accepted = s.peers.length
  jobs : ∀ job ∈ s.service.jobs, job.session < s.peers.length
  unsent : ∀ i, s.peers.length ≤ i → s.service.sent i = []
  /-- A session that has a client has the one of its machine. -/
  owner : ∀ i p, s.peers[i]? = some p → ∀ c, (s.service.sessions i)._client = some c →
    (c._clientID, p.machine) ∈ keys s.service.db.tables
  started : ∀ p ∈ s.peers, p.Started
  delivered : ∀ i p, s.peers[i]? = some p → p.delivered ≤ (s.service.sent i).length
  legible : ∀ M, ∀ r ∈ s.logs M, r.Legible

section
variable {s s' : Deployment} {i : ℕ} {p p' : Peer}

theorem wellFormed_start {flag : Bool} {db : Database} {nextID : Int32} {host : Process}
    {logs : String → List Record} (hdb : Registered db) (hlogs : ∀ M, ∀ r ∈ logs M, r.Legible) :
    WellFormed (start flag db nextID host logs) where
  registered := hdb
  accepted := rfl
  jobs := fun _ hjob => nomatch hjob
  unsent := fun _ _ => rfl
  owner := fun _ _ hp => nomatch hp
  started := fun _ hp => nomatch hp
  delivered := fun _ _ hp => nomatch hp
  legible := hlogs

theorem peers_addRecord {M : String} {r : Record} (hp : (s.addRecord M r).peers[i]? = some p') :
    ∃ p, s.peers[i]? = some p ∧ p' = p.signal M := by
  have hp : (s.peers.map (Peer.signal M))[i]? = some p' := hp
  rw [List.getElem?_map, Option.map_eq_some_iff] at hp
  exact hp.imp fun p h => ⟨h.1, h.2.symm⟩

theorem WellFormed.record (h : WellFormed s) {M : String} {r : Record} (hr : r.Legible) :
    WellFormed (s.addRecord M r) where
  registered := h.registered
  accepted := h.accepted.trans (List.length_map _).symm
  jobs := by
    intro job hjob
    exact (h.jobs job hjob).trans_eq (List.length_map _).symm
  unsent := fun i hi => h.unsent i (le_of_eq_of_le (List.length_map _).symm hi)
  owner := by
    intro i p' hp' c hc
    obtain ⟨p, hp, rfl⟩ := peers_addRecord hp'
    rw [(Peer.signal_frame s.service i M).1]
    exact h.owner i p hp c hc
  started := by
    intro p' hp'
    obtain ⟨p, hp, rfl⟩ := List.mem_map.mp hp'
    exact (Peer.signal_frame s.service 0 M).2.2.2 (h.started p hp)
  delivered := by
    intro i p' hp'
    obtain ⟨p, hp, rfl⟩ := peers_addRecord hp'
    rw [(Peer.signal_frame s.service i M).2.1]
    exact h.delivered i p hp
  legible := by
    intro M'
    change ∀ r' ∈ Function.update s.logs M (s.logs M ++ [r]) M', r'.Legible
    by_cases hM : M' = M
    · rw [hM, Function.update_self]
      exact List.forall_mem_append.mpr ⟨h.legible M, List.forall_mem_singleton.mpr hr⟩
    · rw [Function.update_of_ne hM]
      exact h.legible M'

theorem WellFormed.connect (h : WellFormed s) (g : Process) : WellFormed { s with
    service := { s.service with
      accepted := s.service.accepted + 1
      sessions := Function.update s.service.sessions s.service.accepted { _client := none } }
    peers := s.peers ++ [.start g] } where
  registered := h.registered
  accepted := by
    rw [List.length_append, h.accepted]
    rfl
  jobs := by
    intro job hjob
    have hlt := h.jobs job hjob
    rw [List.length_append, List.length_singleton]
    omega
  unsent := by
    intro i hi
    rw [List.length_append, List.length_singleton] at hi
    exact h.unsent i (by omega)
  owner := by
    intro i p hp c hc
    change (Function.update s.service.sessions s.service.accepted { _client := none } i)._client =
      some c at hc
    by_cases hi : i = s.service.accepted
    · rw [hi, Function.update_self] at hc
      exact nomatch hc
    · rw [Function.update_of_ne hi] at hc
      refine h.owner i p ?_ c hc
      rw [h.accepted] at hi
      obtain ⟨hlt, _⟩ := List.getElem?_eq_some_iff.mp hp
      rw [List.length_append, List.length_singleton] at hlt
      rwa [List.getElem?_append_left (by omega)] at hp
  started := List.forall_mem_append.mpr
    ⟨h.started, List.forall_mem_singleton.mpr (Or.inl rfl)⟩
  delivered := by
    intro i p hp
    by_cases hi : i < s.peers.length
    · rw [List.getElem?_append_left hi] at hp
      exact h.delivered i p hp
    · rw [List.getElem?_append_right (by omega)] at hp
      obtain ⟨_, rfl⟩ := List.getElem?_eq_some_iff.mp hp
      simp [Peer.start, Peer.send]
  legible := h.legible

/-- A step of a client. -/
theorem WellFormed.setPeer (h : WellFormed s) (hp : s.peers[i]? = some p)
    (hmachine : p'.machine = p.machine) (hdelivered : p'.delivered ≤ (s.service.sent i).length)
    (hstarted : p'.Started) : WellFormed (s.setPeer i p') := by
  have hpeer : ∀ k q, (s.peers.set i p')[k]? = some q →
      (k = i ∧ q = p') ∨ (k ≠ i ∧ s.peers[k]? = some q) := by
    intro k q hq
    obtain ⟨hlt, _⟩ := List.getElem?_eq_some_iff.mp hp
    by_cases hk : k = i
    · rw [hk, List.getElem?_set_self hlt] at hq
      exact Or.inl ⟨hk, (Option.some.inj hq).symm⟩
    · rw [List.getElem?_set_ne (Ne.symm hk)] at hq
      exact Or.inr ⟨hk, hq⟩
  constructor
  · exact h.registered
  · exact h.accepted.trans (List.length_set ..).symm
  · intro job hjob
    exact (h.jobs job hjob).trans_eq (List.length_set ..).symm
  · intro k hk
    exact h.unsent k (le_of_eq_of_le (List.length_set ..).symm hk)
  · intro k q hq c hc
    rcases hpeer k q hq with ⟨rfl, rfl⟩ | ⟨_, hq⟩
    · rw [hmachine]
      exact h.owner k p hp c hc
    · exact h.owner k q hq c hc
  · intro q hq
    rcases List.mem_or_eq_of_mem_set hq with hq | rfl
    · exact h.started q hq
    · exact hstarted
  · intro k q hq
    rcases hpeer k q hq with ⟨rfl, rfl⟩ | ⟨_, hq⟩
    · exact hdelivered
    · exact h.delivered k q hq
  · exact h.legible

/-- What has been put into packages does not count. -/
theorem WellFormed.batch (h : WellFormed s) (batched : String → List ℕ) :
    WellFormed { s with batched := batched } :=
  ⟨h.registered, h.accepted, h.jobs, h.unsent, h.owner, h.started, h.delivered, h.legible⟩

/-- Queued work belongs to a peer. -/
theorem WellFormed.exists_peer (h : WellFormed s) {j : ℕ} {job : Job}
    (hj : s.service.jobs[j]? = some job) : ∃ p, s.peers[job.session]? = some p := by
  have hlt := h.jobs job (List.mem_of_getElem? hj)
  exact ⟨_, List.getElem?_eq_getElem hlt⟩

theorem WellFormed.session_lt (h : WellFormed s) (hp : s.peers[i]? = some p) {jobs : List Job}
    (hjobs : ∀ job ∈ jobs, job ∈ s.service.jobs ∨ job.session = i) :
    ∀ job ∈ jobs, job.session < s.peers.length := by
  intro job hjob
  rcases hjobs job hjob with hjob | rfl
  · exact h.jobs job hjob
  · exact (List.getElem?_eq_some_iff.mp hp).1

/-- A step of the server for one session. -/
theorem WellFormed.serve (h : WellFormed s) (hp : s.peers[i]? = some p) {t : Service}
    {new : List CoreMessage} (hframe : Frame i p.machine s.service t)
    (hregistered : Registered t.db) (hkeys : keys s.service.db.tables <+: keys t.db.tables)
    (hjobs : ∀ job ∈ t.jobs, job.session < s.peers.length) (hsent : Wrote i new s.service t) :
    WellFormed { s with service := t } where
  registered := hregistered
  accepted := hframe.accepted.trans h.accepted
  jobs := hjobs
  unsent := by
    intro k hk
    obtain ⟨hlt, _⟩ := List.getElem?_eq_some_iff.mp hp
    have hki : k ≠ i := by
      rintro rfl
      exact absurd hlt (Nat.not_lt.mpr hk)
    change t.sent k = []
    rw [hsent, Function.update_of_ne hki]
    exact h.unsent k hk
  owner := by
    intro k q hq c hc
    by_cases hk : k = i
    · subst hk
      cases hp.symm.trans hq
      rcases hframe.client c hc with hc | hc
      · exact hkeys.subset (h.owner k p hp c hc)
      · exact hc h.registered
    · change (t.sessions k)._client = some c at hc
      rw [hframe.others k hk] at hc
      exact hkeys.subset (h.owner k q hq c hc)
  started := h.started
  delivered := by
    intro k q hq
    change q.delivered ≤ (t.sent k).length
    have hle := h.delivered k q hq
    rw [hsent]
    by_cases hk : k = i
    · rw [hk, Function.update_self, List.length_append]
      rw [hk] at hle
      omega
    · rwa [Function.update_of_ne hk]
  legible := h.legible

/-- The flags of the server do not count. -/
theorem WellFormed.carries (h : WellFormed s) {t : Service} (hcarries : Carries s.service.db t.db)
    (haccepted : t.accepted = s.service.accepted) (hjobs : t.jobs = s.service.jobs)
    (hsent : t.sent = s.service.sent) (hsessions : t.sessions = s.service.sessions) :
    WellFormed { s with service := t } where
  registered := hcarries.registered h.registered
  accepted := haccepted.trans h.accepted
  jobs := by
    change ∀ job ∈ t.jobs, _
    rw [hjobs]
    exact h.jobs
  unsent := by
    change ∀ i, _ → t.sent i = []
    rw [hsent]
    exact h.unsent
  owner := by
    intro k q hq c hc
    change (t.sessions k)._client = some c at hc
    rw [hsessions] at hc
    exact hcarries.keys.subset (h.owner k q hq c hc)
  started := h.started
  delivered := by
    change ∀ i p, _ → _ ≤ (t.sent i).length
    rw [hsent]
    exact h.delivered
  legible := h.legible

end
end ClientService.Deployment
