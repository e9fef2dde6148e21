import ClientService.Deployment.Resume
import ClientService.Lib.Simulation
import ClientService.Upload.Shares

/-!
# Whole runs of the deployment

Each machine sees a run of the deployment as an upload of its log. What holds along every upload
so holds of the server's table of events, whatever the clients, the network, the workers and the
signals do: it has nothing that is not in the log of the machine, and no record of the log more
often than the machine has connected.

## Main definitions

* `simulates_upload` — the deployment is an upload, machine by machine.
-/

namespace ClientService.Deployment

open Database (Registered storedFor)
open Transition (run meets_of_mem reaches_of_run)
open Simulation (Path Simulates)

section
variable {asserts flag : Bool} {db : Database} {nextID : Int32} {host : Process}
  {logs : String → List Record} {as : List Action} {s' : Deployment}

instance : DecidablePred Readable
  | .record _ r => inferInstanceAs (Decidable r.Legible)
  | .connect _ | .thread _ _ | .deliver _ _ | .halt _ | .disconnect _ _ | .read _ _ _
  | .insert _ | .reply _ | .lose | .sigpipe _ | .stop => isTrue trivial

/-- Seen from a machine, every step is one of its upload. -/
theorem simulates_upload (asserts : Bool) (M : String) :
    Simulates (step asserts) (fun _ a => Readable a) WellFormed Upload.Step fun s =>
      s.upload M := by
  intro s a s' hs hreadable hstep
  obtain ⟨hs', hsees⟩ := simulates hs hreadable hstep
  obtain ⟨b, hb, _⟩ := hsees M
  exact ⟨hs', [b], .single hb⟩

end

open Sample (deployment logged connecting reading resuming uploading)

theorem legible_deployment {log : List Record} (h : ∀ r ∈ log, r.Legible) (M : String) :
    ∀ r ∈ if M = "m-1" then log else [], r.Legible := by
  by_cases hM : M = "m-1"
  · rwa [if_pos hM]
  · simp [hM]

/-- A client is restarted while its batch waits, and both connections store the record. -/
def restarted : List Action :=
  connecting 0 ++ reading 0 :: resuming 0 ++ uploading 0 ++ [.disconnect 0 0] ++
    connecting 1 ++ reading 1 :: resuming 1 ++ uploading 1 ++ [.insert 0, .insert 1]

theorem run_restarted :
    ∃ s', run (step false) (deployment [logged "4" "1" 1]) restarted = some s' :=
  Option.isSome_iff_exists.mp (by decide +kernel)

end ClientService.Deployment
