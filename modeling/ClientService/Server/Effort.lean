import ClientService.Lib.Sums
import ClientService.Server.Replies

/-!
# What a package leads to

A package makes the other side take some steps, and these send packages in turn. The efforts are
bounds on all the steps that follow: a package on its way and work in the queue pay for what they
cause, and every step of the server costs one.

## Main definitions

* `CoreMessage.downEffort`, `CoreMessage.upEffort`, `Job.effort`, `Service.effort` — the efforts.
* `Service.Spends` — a step that pays for what it writes and queues.
-/

namespace ClientService

/-- What a package to a client leads to. A `CONNECT` is answered by a query, and an accepted
resume point has the thread take one more batch, which is sent, queued, stored and replied to. -/
def CoreMessage.downEffort (m : CoreMessage) : ℕ :=
  match m.package with
  | .connect => 3
  | .acceptLastEvent _ => 8
  | _ => 1

/-- What events lead to at the server, and what their resume point does if they ask for one. -/
def logEffort (needAccept : Bool) : ℕ := if needAccept then 11 else 3

/-- What a package to the server leads to. -/
def CoreMessage.upEffort (m : CoreMessage) : ℕ :=
  match m.package with
  | .connect => 4
  | .log _ needAccept => logEffort needAccept
  | _ => 2

/-- What queued work leads to. -/
def Job.effort (job : Job) : ℕ :=
  (if job.inserted then 1 else 2) + if job.needAccept then 8 else 0

namespace Service

open Client (insertOrRecover readFromNetwork)
open Sums (sum_map_set sum_map_eraseIdx)

/-- What the queue leads to. -/
def effort (s : Service) : ℕ := (s.jobs.map Job.effort).sum

/-- Session `i` is written `new`, and what it leads to is paid from `paid` and the queue. -/
def Spends (i paid : ℕ) (s s' : Service) : Prop :=
  ∃ new, Wrote i new s s' ∧
    s'.effort + (new.map CoreMessage.downEffort).sum + 1 ≤ s.effort + paid

section
variable {s s' : Service} {i : ℕ}

theorem two_le_upEffort (ret : CoreMessage) : 2 ≤ ret.upEffort := by
  rw [CoreMessage.upEffort]
  cases ret.package with
  | log evts needAccept => cases needAccept <;> simp [logEffort]
  | _ => simp

/-- Handling a package writes at most one package or queues its work. -/
theorem spends_read (s : Service) (i : ℕ) (env : Surroundings) (ret : CoreMessage) :
    Spends i ret.upEffort s (s.serve i (readFromNetwork env ret)).2 := by
  have htwo := two_le_upEffort ret
  rw [serve_eq]
  cases hflag : s.dbConnected with
  | true =>
      rw [Client.readFromNetwork_of_connected (s := s.server i) hflag]
      refine ⟨_, rfl, ?_⟩
      simp [effort, update, server, CoreMessage.refusePackage, CoreMessage.downEffort]
      omega
  | false =>
      rw [Client.readFromNetwork_of_not_connected (s := s.server i) env ret hflag]
      have hspec := Client.handle_spec env ret (s.server i)
      generalize Client.handle env ret (s.server i) = x at hspec
      cases hspec with
      | @log evts needAccept hp hevts =>
          refine ⟨_, rfl, ?_⟩
          cases needAccept <;>
            simp [effort, update, server, jobOf, hp, Job.effort, CoreMessage.upEffort, logEffort]
      | connect hp hget =>
          refine ⟨_, rfl, ?_⟩
          simp [effort, update, server, Client.wrote, CoreMessage.connectPackage,
            CoreMessage.downEffort, CoreMessage.upEffort, hp]
      | query hp hc hget =>
          refine ⟨_, rfl, ?_⟩
          simp [effort, update, server, Client.wrote, CoreMessage.returnLastEventPackage,
            CoreMessage.downEffort, CoreMessage.upEffort, hp]
      | connectFailed hp hget | unidentified hp hc | queryFailed hp hc hget | eventless hp
      | ignored hlog =>
          refine ⟨_, rfl, ?_⟩
          simp [effort, update, server]
          omega

/-- Work that is taken up is marked, or removed with at most a refusal. -/
theorem spends_insert {j : ℕ} {job : Job} (hj : s.jobs[j]? = some job)
    (hinserted : job.inserted = false) : Spends job.session 0 s (s.insert j job) := by
  have hspec := insertOrRecover_replies job.id job.evts (s.server job.session)
  have hjobs : s.jobs ++ [].filterMap (jobOf job.session) = s.jobs := List.append_nil _
  rw [insert, serve]
  generalize insertOrRecover job.id job.evts (s.server job.session) = x at hspec
  cases hspec with
  | inserted db =>
      have hset := sum_map_set hj { job with inserted := true } Job.effort
      refine ⟨[], by simp [Wrote, update, server], ?_⟩
      simp [effort, update, server, Job.effort, hinserted] at hset ⊢
      omega
  | refused db =>
      have herase := sum_map_eraseIdx hj Job.effort
      refine ⟨_, rfl, ?_⟩
      simp [effort, update, server, Job.effort, hinserted, CoreMessage.refusePackage,
        CoreMessage.downEffort] at herase ⊢
      omega
  | escaped db he =>
      have herase := sum_map_eraseIdx hj Job.effort
      refine ⟨[], by simp [Wrote, update, server], ?_⟩
      simp [effort, update, server, Job.effort, hinserted] at herase ⊢
      omega

/-- A reply writes a resume point if the work asks for one. -/
theorem spends_reply {j : ℕ} {job : Job} (hj : s.jobs[j]? = some job)
    (hinserted : job.inserted = true) : Spends job.session 0 s (s.reply j job) := by
  obtain ⟨hjobs, _, _, hwrote, _⟩ := replied s j job ""
  have herase := sum_map_eraseIdx hj Job.effort
  refine ⟨_, hwrote, ?_⟩
  rw [effort, hjobs]
  cases hneed : job.needAccept <;>
    simp [effort, Job.effort, hinserted, hneed, CoreMessage.acceptLastEventPackage,
      CoreMessage.downEffort] at herase ⊢ <;>
    omega

end
end Service
end ClientService
