import ClientService.Deployment.Once
import ClientService.Deployment.Refinement
import ClientService.Upload.Exactly

/-!
# Stored exactly once

When the steps are orderly and careful, the rows of a machine are at any time the oldest records
of its log, each of them once. What the connection of its running client has taken and not stored
comes next: nothing that the client has taken is missing, and nothing is there twice.

## Main definitions

* `stored_exactly` — the rows of a machine, and what its connection holds.
-/

namespace ClientService.Deployment

open Database (Registered storedFor)
open Transition (run Meets reaches_of_run)

section
variable {asserts flag : Bool} {db : Database} {nextID : Int32} {host : Process}
  {logs : String → List Record} {as : List Action} {s' : Deployment}

theorem Ready.numbered {log : List Record} {stored : List ℕ} (h : Ready log stored)
    (hnodup : stored.Nodup) : Numbered log stored where
  legible := h.legible
  ids := h.sorted.imp Nat.ne_of_lt
  once := hnodup
  known := h.known

/-- Both invariants hold as long as the server runs. -/
theorem exact_run (hdb : Registered db) (hready : ∀ M, Ready (logs M) (storedFor db.tables M))
    (hnodup : ∀ M, (storedFor db.tables M).Nodup)
    (horderly : Meets (step asserts) Orderly (start flag db nextID host logs) as)
    (hcareful : Meets (step asserts) Careful (start flag db nextID host logs) as)
    (hrun : run (step asserts) (start flag db nextID host logs) as = some s')
    (hended : s'.service.ended = false) (M : String) : Upload.Exact (s'.upload M) := by
  have hsound : s'.service.ended = true ∨ Sound s' := by
    refine (reaches_of_run .refl horderly hrun).invariant
      (I := fun s => s.service.ended = true ∨ Sound s) (Or.inr (sound_start hdb hready)) ?_
    intro s a s₁ hs hgood hstep
    have hs := hs.resolve_left (by simp [(step_spec hstep).1])
    exact sound_step hs hgood hstep
  have honce : Once s' :=
    (reaches_of_run .refl hcareful hrun).invariant
      (once_start hdb fun M => (hready M).numbered (hnodup M))
      fun s a s₁ hs hgood hstep => hs.step hgood hstep
  exact ⟨(hsound.resolve_left (by simp [hended])).upload M, honce.upload M⟩

end

open Sample (deployment logged connecting reading resuming uploading)

/-- A record is stored; the restarted client skips it, and has sent the next one. -/
def continued : List Action :=
  connecting 0 ++ reading 0 :: resuming 0 ++ uploading 0 ++ [.insert 0, .disconnect 0 0] ++
    [.record "m-1" (logged "4" "2" 2)] ++
    connecting 1 ++ reading 1 :: resuming 1 ++
    [.thread 1 .wait, .thread 1 (.enumerate (.returned 2) Sample.event), .thread 1 .send]

end ClientService.Deployment
