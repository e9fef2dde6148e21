import ClientService.Server.Connect
import ClientService.Server.Session

/-!
# The server process

The process with its sessions, its database and its queue of work. A message is handled in one
step, since the loop's thread handles one after the other. Queued work is two steps: between
its insertion and its reply other threads may run.

The sessions share `dbConnected`, the database and the counter of ids. Memory of a session that
has been deleted is read as it was.

## Main definitions

* `Job`, `Service` — the state.
* `Service.serve` — a computation of one session.
* `Service.step` — what may happen.
-/

namespace ClientService

/-- Queued work: the session and the package it points to. -/
structure Job where
  session : ℕ
  id : Int32
  evts : List Event
  needAccept : Bool
  /-- `InsertWindowsEvents` has returned. -/
  inserted : Bool := false
  deriving DecidableEq, Repr

structure Service where
  /-- `conn->is_open()`. -/
  isOpen : Bool
  /-- `StopLoop` has been called. -/
  stopping : Bool := false
  ended : Bool := false
  dbConnected : Bool
  db : Database
  nextID : Int32
  /-- The number of connections accepted so far. -/
  accepted : ℕ
  sessions : ℕ → Client
  jobs : List Job
  /-- The packages written to each session. -/
  sent : ℕ → List CoreMessage

namespace Service

/-- The work that a queued package stands for. -/
def jobOf (i : ℕ) (l : CoreMessage) : Option Job :=
  match l.package with
  | .log evts needAccept =>
      some { session := i, id := l.id, evts := evts, needAccept := needAccept }
  | _ => none

/-- What the functions of session `i` see. -/
def server (s : Service) (i : ℕ) : Server where
  dbConnected := s.dbConnected
  db := s.db
  nextID := s.nextID
  client := s.sessions i
  sent := []
  queued := []

/-- The process after a computation of session `i`. -/
def update (s : Service) (i : ℕ) (t : Server) : Service :=
  { s with db := t.db
           nextID := t.nextID
           sessions := Function.update s.sessions i t.client
           jobs := s.jobs ++ t.queued.filterMap (jobOf i)
           sent := Function.update s.sent i (s.sent i ++ t.sent) }

/-- A computation of session `i`. An exception that leaves it ends the process. -/
def serve {α : Type} (s : Service) (i : ℕ) (x : Serving α) : Option α × Service :=
  match x (s.server i) with
  | (.ok a, t) => (some a, s.update i t)
  | (.error _, t) => (none, { s.update i t with ended := true })

/-- `CheckConnectStatus`. -/
def checkConnectStatus (s : Service) : Bool := s.isOpen

/-- `GetDatabaseConnected`. -/
def getDatabaseConnected (s : Service) : Bool := s.dbConnected

/-- `SetDatabaseConnect`. -/
def setDatabaseConnect (s : Service) (c : Bool) : Service := { s with dbConnected := c }

/-- How the loop of a reconnect ends: the first of its attempts finds the connection that was
lost. -/
def reconnect (outcome : ℕ → Attempt) : Connector.Ending :=
  Connector.Pointer.live.ending ((List.range 5).map outcome)

/-- `Connect`: whether it returns, and what it returns. `outcome` says how each attempt ends. -/
def connect (asserts : Bool) (outcome : ℕ → Attempt) (s : Service) : Option Bool × Service :=
  match reconnect outcome with
  | .opens =>
      match Database.getAllClients s.db with
      | (.ok complete, db) =>
          let s := { s with isOpen := true, db := db }
          if asserts = true ∧ complete = false then (none, { s with ended := true })
          else (some true, s)
      | (.error _, db) => (none, { s with isOpen := true, db := db, ended := true })
  | .fails => (some false, s)
  | .dies => (none, { s with ended := true })

/-- `StopLoop`. -/
def stopLoop (s : Service) : Service := { s with stopping := true }

/-- `SIGPIPEHandler`. -/
def sigpipeHandler (asserts : Bool) (outcome : ℕ → Attempt) (s : Service) : Service :=
  let status := s.checkConnectStatus
  let s := s.setDatabaseConnect status
  if status then s
  else
    match s.connect asserts outcome with
    | (some false, s) => s.stopLoop
    | (_, s) => s

inductive Action where
  /-- A connection is accepted. -/
  | accept
  /-- The decoder of session `i` yields a message. -/
  | message (i : ℕ) (env : Surroundings) (ret : CoreMessage)
  /-- A worker runs `InsertWindowsEvents` of the `j`-th job. -/
  | insert (j : ℕ)
  /-- A worker replies to the `j`-th job. -/
  | reply (j : ℕ)
  /-- The connection to the database is lost. -/
  | lose
  | sigpipe (outcome : ℕ → Attempt)
  /-- The callback of `stopAsync` ends the loop. -/
  | stop

/-- A worker runs `InsertWindowsEvents` of a job, and the `catch` clause when it throws. -/
def insert (s : Service) (j : ℕ) (job : Job) : Service :=
  match s.serve job.session (Client.insertOrRecover job.id job.evts) with
  | (some true, s) => { s with jobs := s.jobs.set j { job with inserted := true } }
  | (_, s) => { s with jobs := s.jobs.eraseIdx j }

/-- A worker replies to a job. -/
def reply (s : Service) (j : ℕ) (job : Job) : Service :=
  let s := (s.serve job.session (Client.accept job.needAccept)).2
  { s with jobs := s.jobs.eraseIdx j }

/-- What may happen. Nothing does when the process has ended. -/
def step (asserts : Bool) (s : Service) : Action → Option Service
  | .accept =>
      if s.ended then none
      else some { s with
        accepted := s.accepted + 1
        sessions := Function.update s.sessions s.accepted { _client := none } }
  | .message i env ret =>
      if s.ended = false ∧ i < s.accepted then
        some (s.serve i (Client.readFromNetwork env ret)).2
      else none
  | .insert j =>
      match s.jobs[j]? with
      | some job => if s.ended = false ∧ job.inserted = false then some (s.insert j job) else none
      | none => none
  | .reply j =>
      match s.jobs[j]? with
      | some job => if s.ended = false ∧ job.inserted = true then some (s.reply j job) else none
      | none => none
  | .lose => if s.ended then none else some { s with isOpen := false }
  | .sigpipe outcome =>
      if s.ended then none else some (s.sigpipeHandler asserts outcome)
  | .stop => if s.ended = false ∧ s.stopping then some { s with ended := true } else none

/-- The process after `main` has set up the loop. `flag` is what the memory of `dbConnected`
holds. -/
def start (flag : Bool) (db : Database) (nextID : Int32) : Service where
  isOpen := true
  dbConnected := flag
  db := db
  nextID := nextID
  accepted := 0
  sessions := fun _ => { _client := none }
  jobs := []
  sent := fun _ => []

/-! ## Steps -/

/-- What a step does. -/
inductive Stepped (asserts : Bool) (s : Service) : Action → Service → Prop
  | accept : Stepped asserts s .accept { s with
      accepted := s.accepted + 1
      sessions := Function.update s.sessions s.accepted { _client := none } }
  | message {i : ℕ} {env : Surroundings} {ret : CoreMessage} (hi : i < s.accepted) :
      Stepped asserts s (.message i env ret) (s.serve i (Client.readFromNetwork env ret)).2
  | insert {j : ℕ} {job : Job} (hj : s.jobs[j]? = some job) (hinserted : job.inserted = false) :
      Stepped asserts s (.insert j) (s.insert j job)
  | reply {j : ℕ} {job : Job} (hj : s.jobs[j]? = some job) (hinserted : job.inserted = true) :
      Stepped asserts s (.reply j) (s.reply j job)
  | lose : Stepped asserts s .lose { s with isOpen := false }
  | sigpipe (outcome : ℕ → Attempt) :
      Stepped asserts s (.sigpipe outcome) (s.sigpipeHandler asserts outcome)
  | stop (hstopping : s.stopping = true) : Stepped asserts s .stop { s with ended := true }

theorem step_spec {asserts : Bool} {s s' : Service} {a : Action} (h : step asserts s a = some s') :
    s.ended = false ∧ Stepped asserts s a s' := by
  cases a with
  | accept =>
      simp only [step, Option.ite_none_left_eq_some, Option.some.injEq] at h
      rw [← h.2]
      exact ⟨eq_false_of_ne_true h.1, .accept⟩
  | message i env ret =>
      simp only [step, Option.ite_none_right_eq_some, Option.some.injEq] at h
      rw [← h.2]
      exact ⟨h.1.1, .message h.1.2⟩
  | insert j =>
      cases hj : s.jobs[j]? with
      | none => simp [step, hj] at h
      | some job =>
          simp only [step, hj, Option.ite_none_right_eq_some, Option.some.injEq] at h
          rw [← h.2]
          exact ⟨h.1.1, .insert hj h.1.2⟩
  | reply j =>
      cases hj : s.jobs[j]? with
      | none => simp [step, hj] at h
      | some job =>
          simp only [step, hj, Option.ite_none_right_eq_some, Option.some.injEq] at h
          rw [← h.2]
          exact ⟨h.1.1, .reply hj h.1.2⟩
  | lose =>
      simp only [step, Option.ite_none_left_eq_some, Option.some.injEq] at h
      rw [← h.2]
      exact ⟨eq_false_of_ne_true h.1, .lose⟩
  | sigpipe outcome =>
      simp only [step, Option.ite_none_left_eq_some, Option.some.injEq] at h
      rw [← h.2]
      exact ⟨eq_false_of_ne_true h.1, .sigpipe outcome⟩
  | stop =>
      simp only [step, Option.ite_none_right_eq_some, Option.some.injEq] at h
      rw [← h.2]
      exact ⟨h.1.1, .stop h.1.2⟩

/-! ## Frames -/

section
variable (s : Service) (i : ℕ)

@[simp] theorem update_isOpen (t : Server) : (s.update i t).isOpen = s.isOpen := rfl
@[simp] theorem update_dbConnected (t : Server) :
    (s.update i t).dbConnected = s.dbConnected := rfl
@[simp] theorem update_accepted (t : Server) : (s.update i t).accepted = s.accepted := rfl
@[simp] theorem update_ended (t : Server) : (s.update i t).ended = s.ended := rfl

/-- A computation of a session touches neither the connection nor the flag. -/
theorem serve_eq {α : Type} (x : Serving α) :
    s.serve i x = (match (x (s.server i)).1 with
      | .ok a => (some a, s.update i (x (s.server i)).2)
      | .error _ => (none, { s.update i (x (s.server i)).2 with ended := true })) := by
  rw [serve]
  rcases x (s.server i) with ⟨_ | _, t⟩
  · rfl
  · rfl

@[simp] theorem serve_isOpen {α : Type} (x : Serving α) : (s.serve i x).2.isOpen = s.isOpen := by
  rw [serve]
  rcases x (s.server i) with ⟨_ | _, t⟩
  · rfl
  · rfl

@[simp] theorem serve_dbConnected {α : Type} (x : Serving α) :
    (s.serve i x).2.dbConnected = s.dbConnected := by
  rw [serve]
  rcases x (s.server i) with ⟨_ | _, t⟩
  · rfl
  · rfl

@[simp] theorem serve_accepted {α : Type} (x : Serving α) :
    (s.serve i x).2.accepted = s.accepted := by
  rw [serve]
  rcases x (s.server i) with ⟨_ | _, t⟩
  · rfl
  · rfl

theorem connect_frame (asserts : Bool) (outcome : ℕ → Attempt) :
    (s.connect asserts outcome).2.jobs = s.jobs ∧
      (s.connect asserts outcome).2.sent = s.sent ∧
      (s.connect asserts outcome).2.accepted = s.accepted := by
  rw [connect]
  cases reconnect outcome with
  | fails | dies => exact ⟨rfl, rfl, rfl⟩
  | opens =>
      dsimp only
      rcases Database.getAllClients s.db with ⟨_ | complete, db⟩
      · exact ⟨rfl, rfl, rfl⟩
      · by_cases hcomplete : asserts = true ∧ complete = false
        · simp [hcomplete]
        · simp [hcomplete]

/-- **`Connect` of the process is that of the class**, when `conn` points to the connection that
was lost. -/
theorem connect_eq (asserts : Bool) (outcome : ℕ → Attempt) {s : Service} {t : Connector}
    (ht : t.Points .live) (hdb : t.db = s.db) :
    (Connector.connect asserts outcome t).1.toOption = (s.connect asserts outcome).1 ∧
      (Connector.connect asserts outcome t).2.db = (s.connect asserts outcome).2.db := by
  obtain ⟨t', hdb', hloop⟩ := Connector.connectLoop_ending ((List.range 5).map outcome) ht
  have hsame : t'.db = s.db := hdb'.trans hdb
  have hbegin : Connector.connect asserts outcome =
      (Connector.connectLoop ((List.range 5).map outcome) >>= fun _ => Connector.isOpen) >>=
        fun b => if b = true then do
            Connector.loadClients asserts
            Connector.prepare "insertEvent"
            Connector.prepare "insertEventXML"
            Connector.prepare "insertClient"
            pure true
          else pure false := (Fallible.bind_assoc _ _ _).symm
  rw [hbegin, connect, reconnect]
  cases hending : Connector.Pointer.live.ending ((List.range 5).map outcome) with
  | fails =>
      rw [hending] at hloop
      rw [Fallible.bind_of_ok hloop]
      exact ⟨rfl, hsame⟩
  | dies =>
      rw [hending] at hloop
      rw [Fallible.bind_of_error hloop]
      exact ⟨rfl, hsame⟩
  | opens =>
      rw [hending] at hloop
      rw [Fallible.bind_of_ok hloop, if_pos rfl]
      dsimp only
      rcases hget : Database.getAllClients s.db with ⟨e | complete, db⟩
      · have hload : Connector.loadClients asserts t' =
            (.error (.database e), { t' with db := db }) := by
          rw [Connector.loadClients, hsame, hget]
        rw [Fallible.bind_of_error hload]
        exact ⟨rfl, rfl⟩
      · dsimp only
        by_cases hcomplete : asserts = true ∧ complete = false
        · have hload : Connector.loadClients asserts t' =
              (.error .assertion, { t' with db := db }) := by
            simp only [Connector.loadClients, hsame, hget, if_pos hcomplete]
          rw [Fallible.bind_of_error hload, if_pos hcomplete]
          exact ⟨rfl, rfl⟩
        · have hload : Connector.loadClients asserts t' = (.ok (), { t' with db := db }) := by
            simp only [Connector.loadClients, hsame, hget, if_neg hcomplete]
          rw [Fallible.bind_of_ok hload, Connector.prepare_statements]
          rw [if_neg hcomplete]
          exact ⟨rfl, rfl⟩

/-- A signal touches neither the sessions nor the queued work nor what has been written. -/
theorem sigpipeHandler_frame (asserts : Bool) (outcome : ℕ → Attempt) :
    (s.sigpipeHandler asserts outcome).jobs = s.jobs ∧
      (s.sigpipeHandler asserts outcome).sent = s.sent ∧
      (s.sigpipeHandler asserts outcome).accepted = s.accepted := by
  rw [sigpipeHandler, checkConnectStatus]
  cases hopen : s.isOpen with
  | true => exact ⟨rfl, rfl, rfl⟩
  | false =>
      have hconnect : ((s.setDatabaseConnect false).connect asserts outcome).2.jobs = s.jobs ∧
          ((s.setDatabaseConnect false).connect asserts outcome).2.sent = s.sent ∧
          ((s.setDatabaseConnect false).connect asserts outcome).2.accepted = s.accepted :=
        (s.setDatabaseConnect false).connect_frame asserts outcome
      rcases hc : (s.setDatabaseConnect false).connect asserts outcome with ⟨_ | _ | _, t⟩
      · rw [hc] at hconnect
        simpa [hc] using hconnect
      · rw [hc] at hconnect
        simpa [hc, stopLoop] using hconnect
      · rw [hc] at hconnect
        simpa [hc] using hconnect

theorem insert_accepted (j : ℕ) (job : Job) : (s.insert j job).accepted = s.accepted := by
  have haccepted := s.serve_accepted job.session (Client.insertOrRecover job.id job.evts)
  rw [insert]
  rcases hserve : s.serve job.session (Client.insertOrRecover job.id job.evts) with ⟨_ | _ | _, t⟩
  · rw [hserve] at haccepted
    exact haccepted
  · rw [hserve] at haccepted
    exact haccepted
  · rw [hserve] at haccepted
    exact haccepted

end

/-! ## The session of a step -/

/-- The session that a step computes for. -/
def actor (s : Service) : Action → Option ℕ
  | .message i _ _ => some i
  | .insert j | .reply j => s.jobs[j]?.map Job.session
  | _ => none

/-- Nothing new for session `k`. -/
structure Still (k : ℕ) (s s' : Service) : Prop where
  jobs : ∀ job ∈ s'.jobs, job.session = k → job ∈ s.jobs
  sent : s'.sent k = s.sent k

section
variable {s s' : Service} {k : ℕ}

theorem still_of_eq (hjobs : s'.jobs = s.jobs) (hsent : s'.sent = s.sent) : Still k s s' where
  jobs := by
    intro job hjob _
    rwa [← hjobs]
  sent := by rw [hsent]

theorem session_of_jobOf {i : ℕ} {l : CoreMessage} {job : Job} (h : jobOf i l = some job) :
    job.session = i := by
  rw [jobOf] at h
  cases hp : l.package with
  | log evts needAccept =>
      rw [hp] at h
      rw [← Option.some.inj h]
  | _ =>
      rw [hp] at h
      exact nomatch h

theorem still_update {i : ℕ} (hk : k ≠ i) (t : Server) : Still k s (s.update i t) where
  jobs := by
    intro job hjob hsession
    rcases List.mem_append.mp hjob with hjob | hjob
    · exact hjob
    · obtain ⟨l, _, hl⟩ := List.mem_filterMap.mp hjob
      exact absurd (hsession.symm.trans (session_of_jobOf hl)) hk
  sent := Function.update_of_ne hk _ _

theorem still_serve {α : Type} {i : ℕ} (hk : k ≠ i) (x : Serving α) :
    Still k s (s.serve i x).2 := by
  rw [serve]
  rcases x (s.server i) with ⟨_ | _, t⟩
  · exact ⟨(still_update hk t).jobs, (still_update hk t).sent⟩
  · exact still_update hk t

theorem Still.eraseIdx (h : Still k s s') (j : ℕ) :
    Still k s { s' with jobs := s'.jobs.eraseIdx j } where
  jobs := fun job hjob => h.jobs job (List.mem_of_mem_eraseIdx hjob)
  sent := h.sent

theorem still_insert {j : ℕ} {job : Job} (hk : k ≠ job.session) :
    Still k s (s.insert j job) := by
  have hserve := still_serve (s := s) hk (Client.insertOrRecover job.id job.evts)
  rw [insert]
  rcases hrun : s.serve job.session (Client.insertOrRecover job.id job.evts) with ⟨_ | _ | _, t⟩
  · rw [hrun] at hserve
    exact hserve.eraseIdx j
  · rw [hrun] at hserve
    exact hserve.eraseIdx j
  · rw [hrun] at hserve
    refine ⟨?_, hserve.sent⟩
    intro job' hmem hsession
    rcases List.mem_or_eq_of_mem_set hmem with hmem | rfl
    · exact hserve.jobs job' hmem hsession
    · exact absurd hsession.symm hk

/-- **A step leaves the other sessions alone.** -/
theorem still_step {asserts : Bool} {a : Action} (h : step asserts s a = some s')
    (hk : s.actor a ≠ some k) : Still k s s' := by
  cases (step_spec h).2 with
  | message hi => exact still_serve (fun heq => hk (by rw [heq]; rfl)) _
  | insert hj _ =>
      refine still_insert fun heq => hk ?_
      rw [actor, hj, heq]
      rfl
  | reply hj _ =>
      refine (still_serve (fun heq => hk ?_) _).eraseIdx _
      rw [actor, hj, heq]
      rfl
  | sigpipe outcome =>
      have hframe := s.sigpipeHandler_frame asserts outcome
      exact still_of_eq hframe.1 hframe.2.1
  | _ => exact still_of_eq rfl rfl

/-- Only a new connection changes their number. -/
theorem accepted_step {asserts : Bool} {a : Action} (h : step asserts s a = some s')
    (ha : a ≠ .accept) : s'.accepted = s.accepted := by
  cases (step_spec h).2 with
  | accept => exact absurd rfl ha
  | message hi => exact serve_accepted _ _ _
  | insert hj _ => exact insert_accepted _ _ _
  | reply hj _ => exact serve_accepted _ _ _
  | sigpipe outcome => exact (s.sigpipeHandler_frame asserts outcome).2.2
  | _ => rfl

end
end Service
end ClientService
