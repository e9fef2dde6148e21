import ClientService.Server.Replies

/-!
# What the server writes to the tables

Over a whole run, rows are only added: a row of `"WindowsEvents"` is never changed or removed,
and of a row of `"Client"` only the time of the last connection changes. Events come in whole
packages, in the order in which the workers store them, and no package is stored more often than
it has been handled. The table for XML stays as it was: the loop of `InsertWindowsEvents` tests
the size of a result that it has emptied.

## Main definitions

* `Database.Writes` — what one call may do to the tables.
* `Batch` — a package that has been stored.
* `Service.History` — the tables after a run.
-/

namespace ClientService

namespace Database

/-- What a call of a member function may do to the tables. -/
inductive Writes (t : Tables) : Tables → Prop
  | nothing : Writes t t
  | touch (now : String) (id : Int32) : Writes t (touch now id t)
  | client (row : ClientRow) : Writes t { t with client := t.client ++ [row] }
  | events (rows : List EventRow) : Writes t (addEvents rows t)

section
variable {db db' : Database}

theorem writes_of_eq (h : db'.tables = db.tables) : Writes db.tables db'.tables := by
  rw [h]
  exact .nothing

theorem writes_of_stored (h : db'.stored = db.stored) : Writes db.tables db'.tables := by
  simp only [stored, Prod.mk.injEq] at h
  exact writes_of_eq h.2.1

theorem writes_getClient (garbage : Int32) (now : String) (msg : CoreMessage) (db : Database) :
    Writes db.tables (getClient garbage now msg db).2.tables := by
  rcases h : getClient garbage now msg db with ⟨e | dc, db'⟩
  · exact writes_of_stored (getClient_eq_error h)
  · rcases getClient_eq_ok.mp h with ⟨_, _, _, _, rfl⟩ | ⟨_, _, _, _, _, _, rfl⟩
    · exact .touch now garbage
    · exact .client _

theorem writes_getLastEventRecordID (c : DbClient) (db : Database) :
    Writes db.tables (getLastEventRecordID c db).2.tables :=
  writes_of_eq (Prod.mk.inj (keeps_getLastEventRecordID c db)).1

theorem writes_getAllClients (db : Database) : Writes db.tables (getAllClients db).2.tables := by
  rcases h : getAllClients db with ⟨e | b, db'⟩
  · exact writes_of_eq (getAllClients_eq_error h).1
  · obtain ⟨_, rfl, _⟩ := getAllClients_eq_ok.mp h
    exact .nothing

/-- The table for XML stays as it was. -/
theorem Writes.xml {t t' : Tables} (h : Writes t t') : t'.windowsEventXML = t.windowsEventXML := by
  cases h <;> rfl

end

end Database

/-- A row of `"Client"` without the time of the last connection. -/
def ClientRow.fixed (r : ClientRow) : ClientRow := { r with clientLastConnect := "" }

theorem Database.map_fixed_touch (now : String) (id : Int32) (t : Tables) :
    (touch now id t).client.map ClientRow.fixed = t.client.map ClientRow.fixed := by
  simp only [touch, List.map_map]
  refine List.map_congr_left fun r _ => ?_
  by_cases h : r.clientID = id <;> simp [ClientRow.fixed, h]

/-- Clients may be added. -/
theorem Database.Writes.client_prefix {t t' : Tables} (h : Writes t t') :
    t.client.map ClientRow.fixed <+: t'.client.map ClientRow.fixed := by
  cases h with
  | touch now id => simp [map_fixed_touch]
  | nothing | client | events => simp [addEvents]

/-- A package that has been stored: the client, the id of the first row, and the events. -/
structure Batch where
  cid : Int32
  first : Int32
  evts : List Event

/-- The rows of the package. -/
def Batch.rows (b : Batch) : List EventRow := Database.eventRows b.cid b.evts b.first

namespace Service

open Database (Writes)
open Client (readFromNetwork)

/-- The packages with events that the sessions have handled. -/
def handed (as : List Action) : List (List Event) :=
  as.filterMap fun
    | .message _ _ ret =>
        match ret.package with
        | .log evts _ => some evts
        | _ => none
    | _ => none

/-- The queued packages that no worker has stored. -/
def unstored (jobs : List Job) : List (List Event) :=
  (jobs.filter fun job => job.inserted = false).map Job.evts

/-- The tables of a server that began with `db` and has been handed these packages. -/
structure History (db : Database) (packages : List (List Event)) (s : Service) : Prop where
  client : db.tables.client.map ClientRow.fixed <+: s.db.tables.client.map ClientRow.fixed
  xml : s.db.tables.windowsEventXML = db.tables.windowsEventXML
  /-- The new rows are whole packages, and what is stored is not queued. -/
  events : ∃ batches : List Batch,
    s.db.tables.windowsEvents = db.tables.windowsEvents ++ batches.flatMap Batch.rows ∧
      (batches.map Batch.evts ++ unstored s.jobs).Subperm packages

section
variable {s s' : Service} {asserts : Bool} {a : Action} {db : Database}
  {packages : List (List Event)}

/-! ## The tables -/

theorem serve_db {α : Type} (i : ℕ) (x : Serving α) :
    (s.serve i x).2.db = (x (s.server i)).2.db := by
  rw [serve_eq]
  cases (x (s.server i)).1 <;> rfl

theorem writes_read (s : Service) (i : ℕ) (env : Surroundings) (ret : CoreMessage) :
    Writes s.db.tables (s.serve i (readFromNetwork env ret)).2.db.tables := by
  rw [serve_db]
  cases hflag : s.dbConnected with
  | true =>
      rw [Client.readFromNetwork_of_connected hflag]
      exact .nothing
  | false =>
      rw [Client.readFromNetwork_of_not_connected env ret hflag]
      have hspec := Client.handle_spec env ret (s.server i)
      generalize Client.handle env ret (s.server i) = x at hspec
      cases hspec with
      | connect hp hget | connectFailed hp hget =>
          have hwrites := Database.writes_getClient env.garbage env.now ret s.db
          rw [show Database.getClient env.garbage env.now ret s.db = _ from hget] at hwrites
          exact hwrites
      | @query c n db hp hc hget =>
          have hwrites := Database.writes_getLastEventRecordID c s.db
          rw [show Database.getLastEventRecordID c s.db = _ from hget] at hwrites
          exact hwrites
      | @queryFailed c e db hp hc hget =>
          have hwrites := Database.writes_getLastEventRecordID c s.db
          rw [show Database.getLastEventRecordID c s.db = _ from hget] at hwrites
          exact hwrites
      | log hp hevts | eventless hp | unidentified hp hc | ignored hlog => exact .nothing

theorem writes_insert (j : ℕ) (job : Job) : Writes s.db.tables (s.insert j job).db.tables := by
  have hspec := insertOrRecover_spec job.id job.evts (s.server job.session)
  rw [insert, serve]
  generalize Client.insertOrRecover job.id job.evts (s.server job.session) = x at hspec
  cases hspec with
  | stored hc => exact .events _
  | @swallowed c due db new hc hfailure hdb hsilent =>
      cases due <;> exact Database.writes_of_stored hdb
  | escaped hdb => exact Database.writes_of_stored hdb

theorem writes_sigpipe (outcome : ℕ → Attempt) :
    Writes s.db.tables (s.sigpipeHandler asserts outcome).db.tables := by
  have hget := Database.writes_getAllClients s.db
  rw [sigpipeHandler, checkConnectStatus]
  cases s.isOpen with
  | true => exact .nothing
  | false =>
      rw [if_neg Bool.false_ne_true, connect]
      cases reconnect outcome with
      | fails | dies => exact .nothing
      | opens =>
          dsimp only [setDatabaseConnect]
          rcases hclients : Database.getAllClients s.db with ⟨e | complete, db⟩
          · rw [hclients] at hget
            exact hget
          · rw [hclients] at hget
            by_cases hcomplete : asserts = true ∧ complete = false
            · simpa [hcomplete] using hget
            · simpa [hcomplete] using hget

/-- **What a step does to the tables.** -/
theorem writes_step (hstep : step asserts s a = some s') :
    Writes s.db.tables s'.db.tables := by
  cases (step_spec hstep).2 with
  | message hi => exact writes_read s _ _ _
  | insert hj hinserted => exact writes_insert _ _
  | @reply j job hj hinserted => exact Database.writes_of_eq (by rw [(s.replied j job "").2.1])
  | sigpipe outcome => exact writes_sigpipe outcome
  | accept | lose | stop hstopping => exact .nothing

/-! ## The queue -/

theorem unstored_append (jobs jobs' : List Job) :
    unstored (jobs ++ jobs') = unstored jobs ++ unstored jobs' := by
  simp [unstored]

/-- A job that is done is not counted. -/
theorem unstored_eraseIdx {jobs : List Job} {j : ℕ} {job : Job} (hj : jobs[j]? = some job)
    (hinserted : job.inserted = true) : unstored (jobs.eraseIdx j) = unstored jobs := by
  conv_rhs => rw [jobs_split hj]
  rw [List.eraseIdx_eq_take_drop_succ]
  simp [unstored, hinserted]

/-- What becomes of the count when a worker takes up a job. -/
theorem unstored_insert {jobs jobs' : List Job} {j : ℕ} {job : Job} (hj : jobs[j]? = some job)
    (hinserted : job.inserted = false)
    (hjobs : jobs' = jobs.set j { job with inserted := true } ∨ jobs' = jobs.eraseIdx j) :
    (job.evts :: unstored jobs').Perm (unstored jobs) := by
  have hold : unstored jobs = unstored (jobs.take j) ++ job.evts :: unstored (jobs.drop (j + 1)) := by
    conv_lhs => rw [jobs_split hj]
    simp [unstored, hinserted]
  have hnew : unstored jobs' = unstored (jobs.take j) ++ unstored (jobs.drop (j + 1)) := by
    obtain ⟨hlt, _⟩ := List.getElem?_eq_some_iff.mp hj
    rcases hjobs with rfl | rfl
    · rw [List.set_eq_take_append_cons_drop, if_pos hlt]
      simp [unstored]
    · rw [List.eraseIdx_eq_take_drop_succ, unstored_append]
  rw [hold, hnew]
  exact List.perm_middle.symm

/-! ## Steps -/

/-- A step that adds no event. -/
theorem History.quiet (h : History db packages s) (hwrites : Writes s.db.tables s'.db.tables)
    (hevents : s'.db.tables.windowsEvents = s.db.tables.windowsEvents)
    {more : List (List Event)}
    (hjobs : (unstored s'.jobs).Subperm (unstored s.jobs ++ more)) :
    History db (packages ++ more) s' where
  client := h.client.trans hwrites.client_prefix
  xml := hwrites.xml.trans h.xml
  events := by
    obtain ⟨batches, hrows, hsub⟩ := h.events
    refine ⟨batches, by rw [hevents, hrows], ?_⟩
    refine ((List.Subperm.refl (batches.map Batch.evts)).append hjobs).trans ?_
    rw [← List.append_assoc]
    exact hsub.append (List.Subperm.refl more)

/-- A worker stores a package. -/
theorem History.store (h : History db packages s) (hwrites : Writes s.db.tables s'.db.tables)
    {c : DbClient} {evts : List Event} (hdb : s'.db = Database.store c evts s.db)
    (hjobs : (evts :: unstored s'.jobs).Perm (unstored s.jobs)) : History db packages s' where
  client := h.client.trans hwrites.client_prefix
  xml := hwrites.xml.trans h.xml
  events := by
    obtain ⟨batches, hrows, hsub⟩ := h.events
    let batch : Batch := ⟨c._clientID, s.db.nextEventID, evts⟩
    refine ⟨batches ++ [batch], ?_, ?_⟩
    · simp [hdb, Database.store, Database.addEvents, hrows, Batch.rows, batch]
    · have hperm : ((batches ++ [batch]).map Batch.evts ++ unstored s'.jobs).Perm
          (batches.map Batch.evts ++ unstored s.jobs) := by
        simpa [batch] using hjobs.append_left (batches.map Batch.evts)
      exact hperm.subperm.trans hsub

theorem handed_append (as bs : List Action) : handed (as ++ bs) = handed as ++ handed bs := by
  simp [handed]

/-- **What a step adds to the history.** -/
theorem History.step (h : History db packages s) (hstep : step asserts s a = some s') :
    History db (packages ++ handed [a]) s' := by
  have hwrites := writes_step hstep
  have hsame : s'.jobs = s.jobs → (unstored s'.jobs).Subperm (unstored s.jobs ++ handed [a]) := by
    intro hjobs
    rw [hjobs]
    exact (List.sublist_append_left _ _).subperm
  cases (step_spec hstep).2 with
  | @message i env ret hi =>
      have hevents := (carries_read s i env ret).events
      cases (heard s i env ret).1 with
      | quiet hlost hjobs hsent hsilent => exact h.quiet hwrites hevents (hsame hjobs)
      | offered hflag hp hc hget hjobs hsent hm => exact h.quiet hwrites hevents (hsame hjobs)
      | @queued evts ac hp hjobs hsent =>
          refine h.quiet hwrites hevents ?_
          have hhanded : handed [.message i env ret] = [evts] := by simp [handed, hp]
          have hunstored : unstored [⟨i, ret.id, evts, ac, false⟩] = [evts] := rfl
          rw [hjobs, unstored_append, hhanded, hunstored]
  | @insert j job hj hinserted =>
      have hnone : packages ++ handed [.insert j] = packages := by simp [handed]
      cases (inserted s j job "").1 with
      | stored hc hdb hjobs hsent =>
          rw [hnone]
          exact h.store hwrites hdb (unstored_insert hj hinserted (Or.inl hjobs))
      | lost hdb hjobs hsent hsilent hlost =>
          refine h.quiet hwrites hdb.events ?_
          have hperm := unstored_insert hj hinserted hjobs
          refine ((List.sublist_cons_self _ _).subperm.trans hperm.subperm).trans ?_
          exact (List.sublist_append_left _ _).subperm
  | @reply j job hj hinserted =>
      obtain ⟨hjobs, hdb, _⟩ := s.replied j job ""
      refine h.quiet hwrites (by rw [hdb]) ?_
      rw [hjobs, unstored_eraseIdx hj hinserted]
      exact (List.sublist_append_left _ _).subperm
  | sigpipe outcome =>
      exact h.quiet hwrites (carries_sigpipe asserts outcome s).1.events
        (hsame (s.sigpipeHandler_frame asserts outcome).1)
  | accept | lose | stop hstopping => exact h.quiet hwrites rfl (hsame rfl)

end

/-! ## Runs -/

open Transition (run history meets_of_forall)

/-- An event that the table takes. -/
def warning : CoreMessage :=
  { Sample.package with package := .log [{ Sample.critical with level := 3 }] true }

/-- A new machine connects and sends a package twice; the first one is stored and answered. -/
def recording : List Action :=
  [.accept, .message 0 Sample.surroundings (Sample.hello "m-2"),
    .message 0 Sample.surroundings warning, .message 0 Sample.surroundings warning,
    .insert 0, .reply 0]

end Service
end ClientService
