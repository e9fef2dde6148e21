import ClientService.Deployment.Resume
import ClientService.Upload.Once

/-!
# Stored at most once

The server keeps no list of what it has stored: a restarted client skips what lies below the
resume point it is told. When the point is computed while a batch of an earlier connection still
waits, the client sends the records of this batch again. `Careful` rules this out; then no event
is stored twice.

## Main definitions

* `Unrepeated`, `StoresOnce` — the promise, for a state and for a step.
* `Settled`, `Ahead`, `Careful` — the condition on the steps.
-/

namespace ClientService.Deployment

open Database (recordIDs storedFor)
open Transition (Meets)

/-! ## The promise -/

/-- No two rows of `"WindowsEvents"` have the same client and the same record. -/
def Unrepeated (w : Tables) : Prop :=
  (w.windowsEvents.map fun e => (e.clientID, e.eventRecordID)).Nodup

instance (w : Tables) : Decidable (Unrepeated w) := by
  unfold Unrepeated
  infer_instance

/-- The step leaves no event stored twice. -/
def StoresOnce (asserts : Bool) (s : Deployment) (a : Action) : Prop :=
  ∀ s' ∈ s.step asserts a, Unrepeated s'.service.db.tables

/-- Events of different clients do not get in each other's way. -/
theorem unrepeated_of_forall {w : Tables} (h : ∀ cid, (recordIDs cid w).Nodup) : Unrepeated w := by
  refine List.pairwise_map.mpr (List.pairwise_iff_getElem.mpr ?_)
  intro i j hi hj hlt heq
  obtain ⟨hclient, hrecord⟩ := Prod.mk.inj heq
  have hnodup := h w.windowsEvents[i].clientID
  rw [recordIDs, List.Nodup, List.pairwise_map, List.pairwise_filter] at hnodup
  have hne := List.pairwise_iff_getElem.mp hnodup i j hi hj hlt
  exact hne (by simp) (by simp [hclient]) hrecord

/-! ## The condition -/

/-- The query of a running client is handled when the batches of earlier connections are settled. -/
def Settled (s : Deployment) (i : ℕ) : Prop :=
  s.service.dbConnected = false → ∀ p ∈ s.peers[i]?, p.live = true →
    ∀ m ∈ p.up.head?, m.package = .queryLastEvent → ∀ j < i, (s.link p.machine j).held = []

instance (s : Deployment) (i : ℕ) : Decidable (Settled s i) := by
  unfold Settled
  infer_instance

/-- What is acknowledged does not take the client back to records below its resume point. -/
def Ahead (s : Deployment) (i : ℕ) : Prop :=
  ∀ p ∈ s.peers[i]?, ∀ m ∈ (s.service.sent i)[p.delivered]?, ∀ o ∈ m.offer,
    o = .accepted o.value → ∀ k ∈ p.resumed, 1 ≤ o.value ∧
      ∀ r ∈ (s.logs p.machine).drop p.handler.taken, o.value ≤ r.rid → k ≤ r.rid

instance (s : Deployment) (i : ℕ) : Decidable (Ahead s i) := by
  unfold Ahead
  infer_instance

/-- Steps after which no event is stored twice. -/
def Careful (s : Deployment) : Action → Prop
  | .record M r => r.Legible ∧ ∀ r' ∈ s.logs M, r'.rid ≠ r.rid
  | .read i _ _ => s.Settled i
  | .deliver i _ => s.Ahead i
  | _ => True

instance : ∀ (s : Deployment) (a : Action), Decidable (Careful s a)
  | s, .record M r => inferInstanceAs (Decidable (r.Legible ∧ ∀ r' ∈ s.logs M, r'.rid ≠ r.rid))
  | s, .read i _ _ => inferInstanceAs (Decidable (s.Settled i))
  | s, .deliver i _ => inferInstanceAs (Decidable (s.Ahead i))
  | _, .connect _ | _, .thread _ _ | _, .halt _ | _, .disconnect _ _ | _, .insert _ | _, .reply _
  | _, .lose | _, .sigpipe _ | _, .stop => inferInstanceAs (Decidable True)

/-- The log has unique ids, and what is stored comes from it. -/
structure Numbered (log : List Record) (stored : List ℕ) : Prop where
  legible : ∀ r ∈ log, r.Legible
  ids : (log.map Record.rid).Nodup
  once : stored.Nodup
  known : ∀ c ∈ stored, c ∈ log.map Record.rid

/-! ## The invariant -/

structure Once (s : Deployment) : Prop where
  wellFormed : WellFormed s
  upload : ∀ M, Upload.Once (s.upload M)

section
variable {s s' : Deployment} {a : Action} {M : String} {asserts : Bool}

theorem Careful.readable (h : Careful s a) : Readable a := by
  cases a with
  | record M r => exact h.1
  | _ => trivial

/-- What a machine sees of a careful step is careful. -/
theorem Careful.seen {b : Upload.Label} (h : Careful s a) (hseen : Seen s s' M a b) :
    Upload.Careful (s.upload M) b := by
  cases hseen with
  | stay | connect | close | forward | store | refused | lost | accept => trivial
  | record r =>
      intro hmem
      obtain ⟨r', hr', heq⟩ := List.mem_map.mp hmem
      exact h.2 r' hr' heq
  | @offer i n p m env ts hp hM hflag hup hm =>
      intro hlive j hj
      rw [upload_links, ← hM]
      rw [upload_links, ← hM, link_of_some hp] at hlive
      exact h hflag p hp hlive m hup hm j hj
  | @deliver i p m o ts hp hM hm ho =>
      cases o with
      | returned n => trivial
      | accepted n =>
          intro k hk
          rw [upload_links, ← hM, link_of_some hp] at hk
          obtain ⟨hpos, hback⟩ := h p hp m hm _ ho rfl k hk
          refine ⟨hpos, fun r hr hle => ?_⟩
          rw [upload_links, ← hM, link_of_some hp] at hr
          change r ∈ ((s.logs p.machine).map Record.rid).drop p.handler.taken at hr
          rw [← List.map_drop] at hr
          obtain ⟨r', hr', rfl⟩ := List.mem_map.mp hr
          exact hback r' hr' hle

/-- **What a careful step preserves.** -/
theorem Once.step (h : Once s) (hgood : Careful s a) (hstep : s.step asserts a = some s') :
    Once s' := by
  obtain ⟨hwell, hsees⟩ := simulates h.wellFormed hgood.readable hstep
  refine ⟨hwell, fun M => ?_⟩
  obtain ⟨b, hb, hseen⟩ := hsees M
  exact Upload.once_step (h.upload M) (hgood.seen hseen) hb

/-- Each event belongs to a machine, and each machine has its events once. -/
theorem Once.unrepeated (h : Once s) : Unrepeated s.service.db.tables := by
  refine unrepeated_of_forall fun cid => ?_
  by_cases hkey : ∃ M, (cid, M) ∈ Database.keys s.service.db.tables
  · obtain ⟨M, hM⟩ := hkey
    rw [← h.wellFormed.registered.storedFor_eq hM]
    exact (h.upload M).nodup
  · have hnone : recordIDs cid s.service.db.tables = [] := by
      rw [recordIDs, List.map_eq_nil_iff, List.filter_eq_nil_iff]
      intro e he hcid
      obtain ⟨M, hM⟩ := h.wellFormed.registered.events e he
      rw [of_decide_eq_true hcid] at hM
      exact hkey ⟨M, hM⟩
    rw [hnone]
    exact List.nodup_nil

end

/-! ## Runs -/

theorem once_start {flag : Bool} {db : Database} {nextID : Int32} {host : Process}
    {logs : String → List Record} (hdb : Database.Registered db)
    (hnumbered : ∀ M, Numbered (logs M) (storedFor db.tables M)) :
    Once (start flag db nextID host logs) where
  wellFormed := wellFormed_start hdb fun M => (hnumbered M).legible
  upload := by
    intro M
    obtain ⟨_, hlog, hstored, hknown⟩ := hnumbered M
    have hempty : ∀ i, ((start flag db nextID host logs).upload M).links i = {} := fun _ =>
      rfl
    refine ⟨hlog, hstored, hknown, ?_, ?_, ?_, ?_⟩
    · intro i
      rw [hempty i]
      exact Upload.onceLink_fresh false false
    · intro i hlive
      rw [hempty i] at hlive
      exact nomatch hlive
    · intro i j _ _
      rw [hempty j]
      rfl
    · intro i hlive
      rw [hempty i] at hlive
      exact nomatch hlive

open Transition (run)
open Sample (deployment logged connecting reading resuming uploading)

theorem numbered_deployment {log : List Record} (h : Numbered log []) (M : String) :
    Numbered (if M = "m-1" then log else [])
      (storedFor (Database.getAllClients Sample.database).2.tables M) := by
  have hstored : storedFor (Database.getAllClients Sample.database).2.tables M = [] := rfl
  rw [hstored]
  by_cases hM : M = "m-1"
  · rwa [if_pos hM]
  · rw [if_neg hM]
    exact ⟨by simp, List.nodup_nil, List.nodup_nil, by simp⟩

end ClientService.Deployment
