import ClientService.Deployment.Simulation
import ClientService.Lib.Transition
import ClientService.Upload.Resume

/-!
# Resume points and what is stored

A resume point should have nothing below it that has been put into a package and is not stored.
A batch can be lost: it is refused, or its insertion ends in an `sql_error` that is swallowed. A
later batch may be stored before an earlier one, and the number that is acknowledged is whatever
`lid` holds by then. `Orderly` rules these out; then no resume point skips an event.

## Main definitions

* `Covers`, `Right` — the promise, for a step.
* `Orderly` — the condition on the steps.
-/

namespace ClientService.Deployment

open Database (storedFor)
open Transition (Meets)

/-! ## The promise -/

/-- The packages that a step writes to session `i`. -/
def written (s s' : Deployment) (i : ℕ) : List CoreMessage :=
  (s'.service.sent i).drop (s.service.sent i).length

/-- What a machine has put into packages below a resume point that is written to session `i` is
stored. -/
def CoversAt (s s' : Deployment) (i : ℕ) : Prop :=
  ∀ p ∈ s.peers[i]?, ∀ m ∈ written s s' i, ∀ o ∈ m.offer, ∀ r ∈ s'.batched p.machine,
    r < o.value → r ∈ storedFor s'.service.db.tables p.machine

instance (s s' : Deployment) (i : ℕ) : Decidable (CoversAt s s' i) := by
  unfold CoversAt
  infer_instance

def Covers (s s' : Deployment) : Prop := ∀ i, CoversAt s s' i

/-- The step writes no resume point that skips an event. -/
def Right (asserts : Bool) (s : Deployment) (a : Action) : Prop :=
  ∀ s' ∈ s.step asserts a, Covers s s'

/-! ## The condition -/

/-- Steps after which no resume point skips an event. -/
def Orderly (s : Deployment) : Action → Prop
  | .record M r => r.Legible ∧ 0 < r.rid ∧ ∀ r' ∈ s.logs M, r'.rid < r.rid
  -- No batch is cut short.
  | .thread i (.enumerate taking _) => ∀ p ∈ s.peers[i]?,
      ∀ r ∈ ((s.logs p.machine).drop p.handler.taken).take taking.number, r.handle.printed.isSome
  -- No batch is refused.
  | .read i _ _ => ∀ p ∈ s.peers[i]?, ∀ m ∈ p.up.head?, ∀ batch ∈ m.batch, batch ≠ [] →
      s.service.dbConnected = false
  -- Batches of a session are stored in their order, and none is lost.
  | .insert j => ∀ job ∈ s.service.jobs[j]?, job.evts ≠ [] →
      (waiting (s.service.jobs.take j) job.session).flatten = [] ∧
        ∀ c ∈ (s.service.sessions job.session)._client,
          Database.failure c job.evts s.service.db ≠ some .sqlError
  -- What is acknowledged is stored.
  | .reply j => ∀ job ∈ s.service.jobs[j]?, job.needAccept = true →
      ∀ p ∈ s.peers[job.session]?, Upload.Backed (storedFor s.service.db.tables p.machine)
        ((s.service.sessions job.session).lid + 1).toNat
  | _ => True

instance (s : Deployment) (a : Action) : Decidable (Orderly s a) := by
  unfold Orderly Upload.Backed
  split <;> infer_instance

/-- Nothing is skipped yet: the log is numbered upwards, and what is stored is an initial part
of it. -/
structure Ready (log : List Record) (stored : List ℕ) : Prop where
  legible : ∀ r ∈ log, r.Legible
  sorted : (log.map Record.rid).Pairwise (· < ·)
  pos : ∀ r ∈ log.map Record.rid, 0 < r
  known : ∀ c ∈ stored, c ∈ log.map Record.rid
  closed : ∀ c ∈ stored, ∀ r ∈ log.map Record.rid, r < c → r ∈ stored

/-! ## The invariant -/

structure Sound (s : Deployment) : Prop where
  wellFormed : WellFormed s
  upload : ∀ M, Upload.Sound (s.upload M)
  batched : ∀ M, ∀ r ∈ s.batched M, r ∈ (s.upload M).log

section
variable {s s' : Deployment} {a : Action} {M : String} {asserts : Bool}

theorem Orderly.readable (h : Orderly s a) : Readable a := by
  cases a with
  | record M r => exact h.1
  | _ => trivial

/-- What a machine sees of an orderly step is orderly, unless the process ends. -/
theorem Orderly.seen {b : Upload.Label} (h : Orderly s a) (hseen : Seen s s' M a b) :
    Upload.Orderly (s.upload M) b ∨ s'.service.ended = true := by
  cases hseen with
  | stay | connect | close | offer | deliver => exact Or.inl trivial
  | record r =>
      refine Or.inl ⟨h.2.1, ?_⟩
      intro e he
      obtain ⟨r', hr', rfl⟩ := List.mem_map.mp he
      exact h.2.2 r' hr'
  | @forward i j p taking e hp hM hrendered =>
      rw [← hM] at hrendered
      exact Or.inl (hrendered (h p hp))
  | store hj hevts => exact Or.inl (h _ hj hevts).1
  | @refused i p m env ts batch hp hup hm hlost =>
      left
      by_contra hbatch
      rw [h p hp m hup batch hm hbatch] at hlost
      exact nomatch hlost.resolve_right hbatch
  | @lost j job hj hlost =>
      rcases hlost with hevts | hended | ⟨c, hc, hfailure⟩
      · left
        change rids job.evts = []
        rw [hevts]
        rfl
      · exact Or.inr hended
      · left
        change rids job.evts = []
        by_cases hevts : job.evts = []
        · rw [hevts]
          rfl
        · exact absurd hfailure ((h job hj hevts).2 c hc)
  | @accept j job p hj hp hM hneed =>
      rw [← hM]
      exact Or.inl (h job hj hneed p hp)

/-- No step takes a record out of the log. -/
theorem mem_log_step {t t' : Upload.State} {b : Upload.Label} (h : Upload.Step t b t') {r : ℕ}
    (hr : r ∈ t.log) : r ∈ t'.log := by
  cases h with
  | record e => exact List.mem_append_left _ hr
  | _ => exact hr

/-- Only what was pending is put into a package. -/
theorem batched_step (hstep : s.step asserts a = some s') {r : ℕ} (hr : r ∈ s'.batched M) :
    r ∈ s.batched M ∨ ∃ i, r ∈ ((s.upload M).links i).held := by
  cases (step_spec hstep).2 with
  | @send i p t handler evts ac hp hlive hthread =>
      have hr : r ∈ Function.update s.batched p.machine (s.batched p.machine ++ rids evts) M := hr
      by_cases hM : M = p.machine
      · rw [hM, Function.update_self] at hr
        rw [hM]
        refine (List.mem_append.mp hr).imp_right fun hmem => ⟨i, ?_⟩
        have hlink : (s.upload p.machine).links i = p.link s.service i := link_of_some hp
        cases EventForwardHandler.threadStep_spec hthread with
        | send hpc =>
            rw [hlink, Upload.Link.held, Peer.link, EventForwardHandler.reading, hpc,
              List.flatten_append]
            refine List.mem_append_right _ ?_
            rwa [List.flatten_singleton]
      · rw [Function.update_of_ne hM] at hr
        exact Or.inl hr
  | _ => exact Or.inl hr

/-- **What an orderly step preserves.** -/
theorem sound_step (h : Sound s) (hgood : Orderly s a) (hstep : s.step asserts a = some s') :
    s'.service.ended = true ∨ Sound s' := by
  obtain ⟨hwell, hsees⟩ := simulates h.wellFormed hgood.readable hstep
  by_cases hended : s'.service.ended = true
  · exact Or.inl hended
  · right
    refine ⟨hwell, fun M => ?_, fun M r hr => ?_⟩
    · obtain ⟨b, hb, hseen⟩ := hsees M
      exact Upload.sound_step (h.upload M) ((hgood.seen hseen).resolve_right hended) hb
    · obtain ⟨b, hb, _⟩ := hsees M
      refine mem_log_step hb ?_
      rcases batched_step hstep hr with hr | ⟨i, hr⟩
      · exact h.batched M r hr
      · exact List.mem_of_mem_take (((h.upload M).links i).held r hr)

/-! ## Packages that are written -/

/-- A step that ends the process has written nothing. -/
theorem sent_of_ended (hstep : s.step asserts a = some s') (hended : s'.service.ended = true) :
    s'.service.sent = s.service.sent := by
  obtain ⟨hrun, hspec⟩ := step_spec hstep
  cases hspec with
  | @read i p m ret up id env ts hp hup hret =>
      exact (Service.heard { s.service with nextID := id } i env ret).2.sent hrun hended
  | @insert j job hj hinserted =>
      exact (Service.inserted s.service j job "").2.sent hrun hended
  | @reply j job hj hinserted =>
      exact (Service.replied s.service j job "").2.2.2.2.sent hrun hended
  | sigpipe outcome => exact (s.service.sigpipeHandler_frame asserts outcome).2.1
  | _ => rfl

/-- A step that writes to a session leaves its peer where it was. -/
theorem peer_of_written (hstep : s.step asserts a = some s') {i : ℕ} {p : Peer}
    (hp : s.peers[i]? = some p) (hsent : s'.service.sent ≠ s.service.sent) :
    ∃ p', s'.peers[i]? = some p' ∧ p'.machine = p.machine ∧ p'.delivered = p.delivered := by
  cases (step_spec hstep).2 with
  | @read k q m ret up id env ts hq hup hret =>
      by_cases hk : i = k
      · subst hk
        cases hp.symm.trans hq
        exact ⟨_, List.getElem?_set_self (List.getElem?_eq_some_iff.mp hp).1, rfl, rfl⟩
      · exact ⟨p, (List.getElem?_set_ne (Ne.symm hk)).trans hp, rfl, rfl⟩
  | insert hj hinserted => exact ⟨p, hp, rfl, rfl⟩
  | reply hj hinserted => exact ⟨p, hp, rfl, rfl⟩
  | sigpipe outcome =>
      exact absurd (s.service.sigpipeHandler_frame asserts outcome).2.1 hsent
  | _ => exact absurd rfl hsent

/-- Where the invariant holds, a step that is seen as a sound one covers what it writes. -/
theorem covers_of_sound (h : Sound s) (h' : Sound s') (hstep : s.step asserts a = some s') :
    Covers s s' := by
  intro i p hp m hm o ho r hr hlt
  by_cases hsent : s'.service.sent = s.service.sent
  · rw [written, hsent, List.drop_length] at hm
    exact nomatch hm
  · obtain ⟨p', hp', hmachine, hdelivered⟩ := peer_of_written hstep hp hsent
    have hlink : (s'.upload p.machine).links i = p'.link s'.service i := by
      rw [← hmachine]
      exact link_of_some hp'
    refine (h'.upload p.machine).covered (i := i) (o := o) ?_ (h'.batched _ r hr) hlt
    rw [hlink, Peer.link, List.mem_filterMap]
    refine ⟨m, ?_, ho⟩
    have hd := h.wellFormed.delivered i p hp
    rw [hdelivered]
    exact List.drop_subset_drop_left _ hd hm

theorem covers_of_ended (hstep : s.step asserts a = some s') (hended : s'.service.ended = true) :
    Covers s s' := by
  intro i p _ m hm
  rw [written, sent_of_ended hstep hended, List.drop_length] at hm
  exact nomatch hm

end

/-! ## Runs -/

theorem sound_start {flag : Bool} {db : Database} {nextID : Int32} {host : Process}
    {logs : String → List Record} (hdb : Database.Registered db)
    (hready : ∀ M, Ready (logs M) (storedFor db.tables M)) :
    Sound (start flag db nextID host logs) where
  wellFormed := wellFormed_start hdb fun M => (hready M).legible
  upload := by
    intro M
    obtain ⟨_, hsorted, hpos, hknown, hclosed⟩ := hready M
    exact ⟨hsorted, hpos, hknown, hclosed, fun i => Upload.soundLink_fresh false false⟩
  batched := fun M r hr => nomatch hr

end ClientService.Deployment

namespace ClientService

open Transition (run Meets)

namespace Sample

/-- The registry is loaded, and `"m-1"` has these records. -/
def deployment (log : List Record) : Deployment :=
  .start false (Database.getAllClients database).2 0 process fun M => if M = "m-1" then log else []

def logged (level id : String) (rid : ℕ) : Record where
  rid := rid
  handle := ⟨some ⟨"<Event/>", some ⟨some level, some id, some "scope", some "2018-01-01"⟩⟩, false,
    .notFound⟩

/-- Client `i` connects and asks for its resume point. -/
def connecting (i : ℕ) : List Deployment.Action :=
  [.connect process, .read i surroundings "", .deliver i ""]

/-- The next package of client `i` is read. -/
def reading (i : ℕ) : Deployment.Action := .read i surroundings ""

/-- The resume point arrives at client `i`, and its thread begins. -/
def resuming (i : ℕ) : List Deployment.Action := [.deliver i "", .thread i (.subscribe true)]

/-- The thread of client `i` sends one record, and the server queues it. -/
def uploading (i : ℕ) : List Deployment.Action :=
  [.thread i .wait, .thread i (.enumerate (.returned 1) event), .thread i .send,
    .thread i .reset, reading i]

theorem registered_database : Database.Registered database where
  ids := by decide
  machines := by decide
  events := fun _ he => nomatch he
  entries := fun _ _ h => nomatch h

end Sample

namespace Deployment

open Database (storedFor)
open Sample (deployment logged connecting reading resuming uploading)

theorem registered_deployment : Database.Registered (Database.getAllClients Sample.database).2 :=
  (Database.carries_getAllClients Sample.database).registered Sample.registered_database

theorem ready_of_nothing_stored {log : List Record} (hlegible : ∀ r ∈ log, r.Legible)
    (hsorted : (log.map Record.rid).Pairwise (· < ·)) (hpos : ∀ r ∈ log.map Record.rid, 0 < r) :
    Ready log [] where
  legible := hlegible
  sorted := hsorted
  pos := hpos
  known := by simp
  closed := by simp

theorem ready_deployment {log : List Record} (h : Ready log []) (M : String) :
    Ready (if M = "m-1" then log else [])
      (storedFor (Database.getAllClients Sample.database).2.tables M) := by
  have hstored : storedFor (Database.getAllClients Sample.database).2.tables M = [] := rfl
  rw [hstored]
  by_cases hM : M = "m-1"
  · rwa [if_pos hM]
  · rw [if_neg hM]
    exact ready_of_nothing_stored (by simp) (by simp) (by simp)

end Deployment
end ClientService
