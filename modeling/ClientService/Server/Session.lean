import ClientService.Server.Events

/-!
# A session of the server

`Client` is the server's object for one connection. `readFromNetwork` handles a message on the
thread of the loop, and `work` is what it queues for a package of events; it runs on another
thread and at a later state. Both may be left by an exception, which ends the process.

`Answered` says that the reply to a request tells what the database did. `answered_iff` gives
the requests for which it does.

## Main definitions

* `Server`, `Client.readFromNetwork`, `Client.work` — the two functions and what they share.
* `Client.exchange` — a request, its replies, and whether the database did the work.
* `Client.Answered`, `Client.Served` — the promise, and when it is kept.
-/

namespace ClientService

open Fallible (throw get modify attempt)

/-- What may leave `readFromNetwork` or the queued work. -/
inductive Escape where
  | database (e : DbException)
  | badCast
  /-- The program reads `_client` before a `CONNECT` has set it. -/
  | invalidPointer
  /-- The program reads behind the last event of a list that has none: `cend()` is null. -/
  | nullIterator
  deriving DecidableEq, Repr

/-- `Client`, apart from its socket and its decoder. -/
structure Client where
  _client : Option DbClient
  lid : UInt32 := 1
  deriving DecidableEq, Repr

/-- What a session's functions read and change. -/
structure Server where
  dbConnected : Bool
  db : Database
  /-- The counter of `nextID`. -/
  nextID : Int32
  client : Client
  /-- Packages given to `writeSomething`, in order. -/
  sent : List CoreMessage
  /-- Packages given to `uv_queue_work`, in order. -/
  queued : List CoreMessage

/-- What the program reads where it has written nothing, and the clock. -/
structure Surroundings where
  /-- The `_clientID` of a new `DbClient`. -/
  garbage : Int32
  now : String
  /-- The `rid` behind the last event of a package. -/
  past : UInt32

/-- A computation of a session. -/
abbrev Serving (α : Type) : Type := Fallible Server Escape α

namespace Client

/-- Call a member function of `Database`. -/
def onDatabase {α : Type} (x : Db α) : Serving α := fun s =>
  match x s.db with
  | (.ok a, db) => (.ok a, { s with db := db })
  | (.error e, db) => (.error (.database e), { s with db := db })

/-- `writeSomething`. -/
def writeSomething (msg : CoreMessage) : Serving Unit :=
  modify fun s => { s with sent := s.sent ++ [msg] }

/-- Construct a package that draws an id, and write it. -/
def writeNew (package : Int32 → CoreMessage × Int32) : Serving Unit := do
  let s ← get
  modify fun s => { s with nextID := (package s.nextID).2 }
  writeSomething (package s.nextID).1

/-- `*_client`. -/
def dereference : Serving DbClient := do
  let s ← get
  match s.client._client with
  | some c => pure c
  | none => throw .invalidPointer

/-! ## The two functions -/

/-- The `switch` of `readFromNetwork`. -/
def handle (env : Surroundings) (ret : CoreMessage) : Serving Unit :=
  match ret.package with
  | .log evts _ =>
      -- `cend()` is behind the last event. `BuildObj` reserves no memory for an empty list.
      if evts = [] then throw .nullIterator
      else modify fun s => { s with client := { s.client with lid := env.past },
                                    queued := s.queued ++ [ret] }
  | .connect => do
      let dc ← onDatabase (Database.getClient env.garbage env.now ret)
      modify fun s => { s with client := { s.client with _client := some dc } }
      writeNew CoreMessage.connectPackage
  | .queryLastEvent => do
      let dbc ← dereference
      let n ← onDatabase (Database.getLastEventRecordID dbc)
      modify fun s => { s with client := { s.client with lid := n.toUInt32 } }
      let s ← get
      writeNew (CoreMessage.returnLastEventPackage (s.client.lid + 1))
  | _ => pure ()

/-- `readFromNetwork`, once the decoder has yielded a message. -/
def readFromNetwork (env : Surroundings) (ret : CoreMessage) : Serving Unit := do
  let s ← get
  if s.dbConnected then
    writeSomething (.refusePackage ret.id "Refuse Package: database disconnected.")
  else
    attempt (handle env ret) fun e =>
      if e = .badCast then
        some (writeSomething (.refusePackage ret.id "Internal exception. bad_cast"))
      else none

/-- The first statement of the queued work. -/
def insert (evts : List Event) : Serving Unit := do
  let c ← dereference
  let _ ← onDatabase (Database.insertWindowsEvents c evts)
  pure ()

/-- The second statement: the reply reads `lid` as it is by now. -/
def accept (needAccept : Bool) : Serving Unit := do
  let s ← get
  if needAccept then writeNew (CoreMessage.acceptLastEventPackage (s.client.lid + 1)) else pure ()

/-- The `catch` clause of the queued work. -/
def recover (id : Int32) (e : Escape) : Option (Serving Unit) :=
  if e = .database .sqlError then
    some (writeSomething (.refusePackage id "Refuse: database exception"))
  else none

/-- The queued work. -/
def work (id : Int32) (evts : List Event) (needAccept : Bool) : Serving Unit :=
  attempt (do insert evts; accept needAccept) (recover id)

/-- The work up to the reply that follows the insertion; whether that reply is still due. -/
def insertOrRecover (id : Int32) (evts : List Event) : Serving Bool :=
  attempt (do insert evts; pure true) fun e =>
    (recover id e).map fun clause => do clause; pure false

/-! ## A request and its replies -/

/-- The packages written since `s`. -/
def written (s s' : Server) : List CoreMessage := s'.sent.drop s.sent.length

/-- A transaction has been committed or a query answered since `s`. -/
def Done (s s' : Server) : Prop := s.db.commits ≠ s'.db.commits ∨ s.db.answers ≠ s'.db.answers

instance (s s' : Server) : Decidable (Done s s') := inferInstanceAs (Decidable (_ ∨ _))

/-- What a request led to. -/
structure Exchange where
  result : Except Escape Unit
  replies : List CoreMessage
  committed : Prop

/-- Handle a request at `s`. When it is queued, its work runs at `later`, whatever the server
and the database have become by then. -/
def exchange (env : Surroundings) (ret : CoreMessage) (s later : Server) : Exchange :=
  let r := readFromNetwork env ret s
  match ret.package, r.2.queued.drop s.queued.length with
  | .log evts needAccept, _ :: _ =>
      let w := work ret.id evts needAccept later
      { result := r.1.bind fun _ => w.1
        replies := written s r.2 ++ written later w.2
        committed := Done later w.2 }
  | _, _ =>
      { result := r.1
        replies := written s r.2
        committed := Done s r.2 }

/-- The operations of the replies that report success. -/
def success : Package → List Operation
  | .connect => [.connect]
  | .queryLastEvent => [.returnLastEvent]
  | .log _ needAccept => if needAccept then [.acceptLastEvent] else []
  | _ => []

/-- No exception escapes, and the replies tell what the database did. -/
structure Answered (ret : CoreMessage) (x : Exchange) : Prop where
  returns : x.result = .ok ()
  success : x.committed → x.replies.map CoreMessage.op = success ret.package
  refusal : ¬x.committed → ∃ m, x.replies = [m] ∧ m.package = .refuse ret.id

/-- The package is a request of a client. -/
def IsRequest (p : Package) : Prop :=
  p = .connect ∨ p = .queryLastEvent ∨ ∃ evts needAccept, p = .log evts needAccept

/-- What a request needs of the server and the database. -/
def Served (ret : CoreMessage) (s later : Server) : Prop :=
  match ret.package with
  | .connect => Database.Connectable ret s.db
  | .queryLastEvent => ∃ c, s.client._client = some c ∧ Database.Queryable c s.db
  | .log evts _ => evts ≠ [] ∧ ∃ c, later.client._client = some c ∧
      (Database.Storable c evts later.db ∨ later.db.faults.head?.join = some .sqlError)
  | _ => True

/-! ## What each function does -/

section
variable {s : Server} {env : Surroundings} {ret : CoreMessage}

theorem onDatabase_of_ok {α : Type} {x : Db α} {a : α} {db : Database}
    (h : x s.db = (.ok a, db)) : onDatabase x s = (.ok a, { s with db := db }) := by
  rw [onDatabase, h]

theorem onDatabase_of_error {α : Type} {x : Db α} {e : DbException} {db : Database}
    (h : x s.db = (.error e, db)) :
    onDatabase x s = (.error (.database e), { s with db := db }) := by
  rw [onDatabase, h]

theorem dereference_of_some {c : DbClient} (h : s.client._client = some c) :
    dereference s = (.ok c, s) := by
  rw [dereference, Fallible.get_bind, h]
  rfl

theorem dereference_of_none (h : s.client._client = none) :
    dereference s = (.error .invalidPointer, s) := by
  rw [dereference, Fallible.get_bind, h]
  rfl

/-- The session after it has written a new package. -/
def wrote (package : Int32 → CoreMessage × Int32) (s : Server) : Server :=
  { s with nextID := (package s.nextID).2, sent := s.sent ++ [(package s.nextID).1] }

theorem handle_log {evts : List Event} {needAccept : Bool}
    (h : ret.package = .log evts needAccept) (hevts : evts ≠ []) :
    handle env ret s = (.ok (), { s with client := { s.client with lid := env.past }
                                         queued := s.queued ++ [ret] }) := by
  rw [handle, h]
  simp only [if_neg hevts]
  rfl

theorem handle_log_nil {needAccept : Bool} (h : ret.package = .log [] needAccept) :
    handle env ret s = (.error .nullIterator, s) := by
  rw [handle, h]
  rfl

theorem handle_connect_of_ok (h : ret.package = .connect) {dc : DbClient} {db : Database}
    (hget : Database.getClient env.garbage env.now ret s.db = (.ok dc, db)) :
    handle env ret s = (.ok (), wrote CoreMessage.connectPackage
      { s with db := db, client := { s.client with _client := some dc } }) := by
  rw [handle, h]
  exact Fallible.bind_of_ok (onDatabase_of_ok hget) _

theorem handle_connect_of_error (h : ret.package = .connect) {e : DbException} {db : Database}
    (hget : Database.getClient env.garbage env.now ret s.db = (.error e, db)) :
    handle env ret s = (.error (.database e), { s with db := db }) := by
  rw [handle, h]
  exact Fallible.bind_of_error (onDatabase_of_error hget) _

theorem handle_query_of_none (h : ret.package = .queryLastEvent) (hc : s.client._client = none) :
    handle env ret s = (.error .invalidPointer, s) := by
  rw [handle, h]
  exact Fallible.bind_of_error (dereference_of_none hc) _

theorem handle_query_of_ok (h : ret.package = .queryLastEvent) {c : DbClient}
    (hc : s.client._client = some c) {n : Int32} {db : Database}
    (hget : Database.getLastEventRecordID c s.db = (.ok n, db)) :
    handle env ret s = (.ok (), wrote (CoreMessage.returnLastEventPackage (n.toUInt32 + 1))
      { s with db := db, client := { s.client with lid := n.toUInt32 } }) := by
  rw [handle, h]
  exact (Fallible.bind_of_ok (dereference_of_some hc) _).trans
    (Fallible.bind_of_ok (onDatabase_of_ok hget) _)

theorem handle_query_of_error (h : ret.package = .queryLastEvent) {c : DbClient}
    (hc : s.client._client = some c) {e : DbException} {db : Database}
    (hget : Database.getLastEventRecordID c s.db = (.error e, db)) :
    handle env ret s = (.error (.database e), { s with db := db }) := by
  rw [handle, h]
  exact (Fallible.bind_of_ok (dereference_of_some hc) _).trans
    (Fallible.bind_of_error (onDatabase_of_error hget) _)

/-- The ends of the `switch`. -/
inductive Handling (env : Surroundings) (ret : CoreMessage) (s : Server) :
    Except Escape Unit × Server → Prop
  | log {evts : List Event} {needAccept : Bool} (hp : ret.package = .log evts needAccept)
      (hevts : evts ≠ []) :
      Handling env ret s (.ok (), { s with client := { s.client with lid := env.past }
                                           queued := s.queued ++ [ret] })
  | eventless {needAccept : Bool} (hp : ret.package = .log [] needAccept) :
      Handling env ret s (.error .nullIterator, s)
  | connect {dc : DbClient} {db : Database} (hp : ret.package = .connect)
      (hget : Database.getClient env.garbage env.now ret s.db = (.ok dc, db)) :
      Handling env ret s (.ok (), wrote CoreMessage.connectPackage
        { s with db := db, client := { s.client with _client := some dc } })
  | connectFailed {e : DbException} {db : Database} (hp : ret.package = .connect)
      (hget : Database.getClient env.garbage env.now ret s.db = (.error e, db)) :
      Handling env ret s (.error (.database e), { s with db := db })
  | unidentified (hp : ret.package = .queryLastEvent) (hc : s.client._client = none) :
      Handling env ret s (.error .invalidPointer, s)
  | query {c : DbClient} {n : Int32} {db : Database} (hp : ret.package = .queryLastEvent)
      (hc : s.client._client = some c)
      (hget : Database.getLastEventRecordID c s.db = (.ok n, db)) :
      Handling env ret s (.ok (), wrote (CoreMessage.returnLastEventPackage (n.toUInt32 + 1))
        { s with db := db, client := { s.client with lid := n.toUInt32 } })
  | queryFailed {c : DbClient} {e : DbException} {db : Database}
      (hp : ret.package = .queryLastEvent) (hc : s.client._client = some c)
      (hget : Database.getLastEventRecordID c s.db = (.error e, db)) :
      Handling env ret s (.error (.database e), { s with db := db })
  | ignored (hlog : ∀ evts needAccept, ret.package ≠ .log evts needAccept) :
      Handling env ret s (.ok (), s)

/-- **What the `switch` does.** -/
theorem handle_spec (env : Surroundings) (ret : CoreMessage) (s : Server) :
    Handling env ret s (handle env ret s) := by
  cases hp : ret.package with
  | log evts needAccept =>
      by_cases hevts : evts = []
      · subst hevts
        rw [handle_log_nil hp]
        exact .eventless hp
      · rw [handle_log hp hevts]
        exact .log hp hevts
  | connect =>
      rcases hget : Database.getClient env.garbage env.now ret s.db with ⟨e | dc, db⟩
      · rw [handle_connect_of_error hp hget]
        exact .connectFailed hp hget
      · rw [handle_connect_of_ok hp hget]
        exact .connect hp hget
  | queryLastEvent =>
      cases hc : s.client._client with
      | none =>
          rw [handle_query_of_none hp hc]
          exact .unidentified hp hc
      | some c =>
          rcases hget : Database.getLastEventRecordID c s.db with ⟨e | n, db⟩
          · rw [handle_query_of_error hp hc hget]
            exact .queryFailed hp hc hget
          · rw [handle_query_of_ok hp hc hget]
            exact .query hp hc hget
  | returnLastEvent | acceptLastEvent | refuse =>
      have hhandle : handle env ret s = (.ok (), s) := by
        rw [handle, hp]
        rfl
      rw [hhandle]
      exact .ignored (by simp [hp])

/-- `dynamic_cast` of a pointer does not throw, and nothing else throws `bad_cast`. -/
theorem handle_ne_badCast (env : Surroundings) (ret : CoreMessage) (s : Server) :
    (handle env ret s).1 ≠ .error .badCast := by
  have hspec := handle_spec env ret s
  intro h
  cases hr : handle env ret s with
  | mk r t =>
      rw [hr] at hspec h
      cases hspec <;> exact nomatch h

theorem readFromNetwork_of_connected (h : s.dbConnected = true) :
    readFromNetwork env ret s = (.ok (), { s with
      sent := s.sent ++ [.refusePackage ret.id "Refuse Package: database disconnected."] }) := by
  rw [readFromNetwork, Fallible.get_bind, if_pos h]
  rfl

/-- The `catch` clause of `readFromNetwork` is never entered. -/
theorem readFromNetwork_of_not_connected (env : Surroundings) (ret : CoreMessage)
    (h : s.dbConnected = false) :
    readFromNetwork env ret s = handle env ret s := by
  rw [readFromNetwork, Fallible.get_bind, if_neg (by rw [h]; exact Bool.false_ne_true)]
  rcases hr : handle env ret s with ⟨r, s'⟩
  cases r with
  | ok u => exact Fallible.attempt_of_ok hr _
  | error e =>
      have he : e ≠ .badCast := by
        rintro rfl
        exact handle_ne_badCast env ret s (by rw [hr])
      exact Fallible.attempt_of_uncaught hr (if_neg he)

/-! ### The queued work -/

section
variable {id : Int32} {evts : List Event} {needAccept : Bool}

theorem insert_of_none (evts : List Event) (h : s.client._client = none) :
    insert evts s = (.error .invalidPointer, s) := by
  rw [insert]
  exact Fallible.bind_of_error (dereference_of_none h) _

theorem insert_of_some (evts : List Event) {c : DbClient} (h : s.client._client = some c) :
    insert evts s =
      (match Database.insertWindowsEvents c evts s.db with
        | (.ok _, db) => (.ok (), { s with db := db })
        | (.error e, db) => (.error (.database e), { s with db := db })) := by
  rw [insert, Fallible.bind_of_ok (dereference_of_some h)]
  rcases hins : Database.insertWindowsEvents c evts s.db with ⟨_ | _, db⟩
  · exact Fallible.bind_of_error (onDatabase_of_error hins) _
  · exact Fallible.bind_of_ok (onDatabase_of_ok hins) _

/-- The session after `accept`. -/
def accepted (needAccept : Bool) (s : Server) : Server :=
  if needAccept then wrote (CoreMessage.acceptLastEventPackage (s.client.lid + 1)) s else s

theorem accept_apply (needAccept : Bool) (s : Server) :
    accept needAccept s = (.ok (), accepted needAccept s) := by
  cases needAccept
  · rfl
  · rfl

/-- The work replies when `insert` returns. -/
theorem work_of_ok {s' : Server} (h : insert evts s = (.ok (), s')) :
    work id evts needAccept s = (.ok (), accepted needAccept s') := by
  refine Fallible.attempt_of_ok ?_ _
  rw [Fallible.bind_of_ok h]
  exact accept_apply needAccept s'

theorem work_of_sqlError {s' : Server} (h : insert evts s = (.error (.database .sqlError), s')) :
    work id evts needAccept s = (.ok (), { s' with
      sent := s'.sent ++ [.refusePackage id "Refuse: database exception"] }) := by
  have hcaught : recover id (.database .sqlError) =
      some (writeSomething (.refusePackage id "Refuse: database exception")) := if_pos rfl
  rw [work, Fallible.attempt_of_caught (Fallible.bind_of_error h _) hcaught]
  rfl

theorem work_of_escape {s' : Server} {e : Escape} (h : insert evts s = (.error e, s'))
    (he : e ≠ .database .sqlError) : work id evts needAccept s = (.error e, s') :=
  Fallible.attempt_of_uncaught (Fallible.bind_of_error h _) (if_neg he)

theorem insertOrRecover_of_ok {s' : Server} (h : insert evts s = (.ok (), s')) :
    insertOrRecover id evts s = (.ok true, s') :=
  Fallible.attempt_of_ok (Fallible.bind_of_ok h _) _

theorem insertOrRecover_of_sqlError {s' : Server}
    (h : insert evts s = (.error (.database .sqlError), s')) :
    insertOrRecover id evts s = (.ok false, { s' with
      sent := s'.sent ++ [.refusePackage id "Refuse: database exception"] }) := by
  have hcaught : recover id (.database .sqlError) =
      some (writeSomething (.refusePackage id "Refuse: database exception")) := if_pos rfl
  rw [insertOrRecover, Fallible.attempt_of_caught (Fallible.bind_of_error h _)
    (by rw [hcaught]; rfl)]
  rfl

theorem insertOrRecover_of_escape {s' : Server} {e : Escape} (h : insert evts s = (.error e, s'))
    (he : e ≠ .database .sqlError) : insertOrRecover id evts s = (.error e, s') :=
  Fallible.attempt_of_uncaught (Fallible.bind_of_error h _) (by rw [recover, if_neg he]; rfl)

/-- The work in two parts: between them other threads may run. -/
theorem work_eq (id : Int32) (evts : List Event) (needAccept : Bool) :
    work id evts needAccept =
      (do let due ← insertOrRecover id evts
          if due then accept needAccept else pure ()) := by
  funext s
  rcases h : insert evts s with ⟨e | u, s'⟩
  · by_cases he : e = .database .sqlError
    · rw [he] at h
      rw [work_of_sqlError h, Fallible.bind_of_ok (insertOrRecover_of_sqlError h)]
      rfl
    · rw [work_of_escape h he, Fallible.bind_of_error (insertOrRecover_of_escape h he)]
  · rw [work_of_ok h, Fallible.bind_of_ok (insertOrRecover_of_ok h)]
    exact (accept_apply needAccept s').symm

end
end

/-! ## Requests -/

section
variable {env : Surroundings} {ret : CoreMessage} {s later : Server}

/-- `exchange` of a request that is not queued. -/
theorem exchange_of_not_queued {x : Except Escape Unit × Server}
    (h : readFromNetwork env ret s = x) (hq : x.2.queued = s.queued) :
    exchange env ret s later =
      { result := x.1, replies := written s x.2, committed := Done s x.2 } := by
  have hdrop : x.2.queued.drop s.queued.length = [] := by rw [hq, List.drop_length]
  rw [exchange, h]
  cases ret.package with
  | log evts needAccept => simp only [hdrop]
  | connect | queryLastEvent | returnLastEvent | acceptLastEvent | refuse => rfl

@[simp] theorem written_wrote (package : Int32 → CoreMessage × Int32) (s : Server) :
    written s (wrote package s) = [(package s.nextID).1] := by
  rw [written, wrote, List.drop_left]

/-- Without a connection to the database, a request is refused. -/
theorem answered_of_connected (h : s.dbConnected = true) :
    Answered ret (exchange env ret s later) := by
  rw [exchange_of_not_queued (readFromNetwork_of_connected h) rfl]
  constructor
  · rfl
  · intro hdone
    rcases hdone with hne | hne
    · exact absurd rfl hne
    · exact absurd rfl hne
  · intro _
    exact ⟨_, List.drop_left, rfl⟩

theorem answered_connect_iff (h : s.dbConnected = false) (hp : ret.package = .connect) :
    Answered ret (exchange env ret s later) ↔ Database.Connectable ret s.db := by
  rw [← Database.getClient_isOk_iff env.garbage env.now]
  have hread := readFromNetwork_of_not_connected env ret h
  rcases hget : Database.getClient env.garbage env.now ret s.db with ⟨_ | dc, db⟩
  · rw [handle_connect_of_error hp hget] at hread
    rw [exchange_of_not_queued hread rfl]
    constructor
    · intro ha
      exact nomatch ha.returns
    · rintro ⟨_, _, heq⟩
      exact nomatch heq
  · rw [handle_connect_of_ok hp hget] at hread
    rw [exchange_of_not_queued hread rfl]
    have hcommits : db.commits = s.db.commits + 1 := Database.commits_of_getClient hget
    constructor
    · intro _
      exact ⟨dc, db, rfl⟩
    · intro _
      constructor
      · rfl
      · intro _
        rw [hp]
        exact congrArg _ (written_wrote _ _)
      · intro hdone
        exact absurd (Or.inl (by simp [wrote, hcommits])) hdone

theorem answered_query_iff (h : s.dbConnected = false) (hp : ret.package = .queryLastEvent) :
    Answered ret (exchange env ret s later) ↔
      ∃ c, s.client._client = some c ∧ Database.Queryable c s.db := by
  have hread := readFromNetwork_of_not_connected env ret h
  cases hc : s.client._client with
  | none =>
      rw [handle_query_of_none hp hc] at hread
      rw [exchange_of_not_queued hread rfl]
      constructor
      · intro ha
        exact nomatch ha.returns
      · rintro ⟨_, heq, _⟩
        exact nomatch heq
  | some c =>
      rcases hget : Database.getLastEventRecordID c s.db with ⟨_ | n, db⟩
      · rw [handle_query_of_error hp hc hget] at hread
        rw [exchange_of_not_queued hread rfl]
        constructor
        · intro ha
          exact nomatch ha.returns
        · rintro ⟨_, heq, hq⟩
          cases heq
          obtain ⟨_, hok⟩ := Database.getLastEventRecordID_of_queryable hq
          rw [hget] at hok
          exact nomatch hok
      · rw [handle_query_of_ok hp hc hget] at hread
        rw [exchange_of_not_queued hread rfl]
        obtain ⟨hq, hdb, _⟩ := Database.getLastEventRecordID_eq_ok hget
        constructor
        · intro _
          exact ⟨c, rfl, hq⟩
        · intro _
          constructor
          · rfl
          · intro _
            rw [hp]
            exact congrArg _ (written_wrote _ _)
          · intro hdone
            exact absurd (Or.inr (by simp [wrote, hdb, Database.answer])) hdone

/-- `exchange` of a package of events. -/
theorem exchange_log (h : s.dbConnected = false) {evts : List Event} {needAccept : Bool}
    (hp : ret.package = .log evts needAccept) (hevts : evts ≠ []) {x : Except Escape Unit × Server}
    (hwork : work ret.id evts needAccept later = x) :
    exchange env ret s later =
      { result := x.1, replies := written later x.2, committed := Done later x.2 } := by
  have hread := readFromNetwork_of_not_connected env ret h
  rw [handle_log hp hevts] at hread
  simp only [exchange, hread, hp, List.drop_left, hwork, written, List.drop_length,
    List.nil_append]
  rfl

/-- The replies of a package whose insertion returns. -/
theorem written_accepted {needAccept : Bool} {db : Database} :
    written later (accepted needAccept { later with db := db }) =
      if needAccept then [(CoreMessage.acceptLastEventPackage (later.client.lid + 1)
        later.nextID).1] else [] := by
  cases needAccept
  · exact List.drop_length
  · exact List.drop_left

/-- A package whose insertion stored nothing and threw nothing is answered as if it had been
stored. -/
theorem not_answered_of_swallowed {evts : List Event} {needAccept : Bool} {db : Database}
    (hp : ret.package = .log evts needAccept) (hstored : db.stored = later.db.stored) :
    ¬Answered ret
      { result := .ok ()
        replies := written later (accepted needAccept { later with db := db })
        committed := Done later (accepted needAccept { later with db := db }) } := by
  intro ha
  simp only [Database.stored, Prod.mk.injEq] at hstored
  have hdb : (accepted needAccept { later with db := db }).db = db := by
    cases needAccept
    · rfl
    · rfl
  have hnot : ¬Done later (accepted needAccept { later with db := db }) := by
    rw [Done, hdb]
    rintro (hne | hne)
    · exact hne hstored.2.2.1.symm
    · exact hne hstored.2.2.2.1.symm
  obtain ⟨m, hreplies, hm⟩ := ha.refusal hnot
  rw [written_accepted] at hreplies
  cases needAccept with
  | false => exact nomatch hreplies
  | true =>
      have heq := List.singleton_inj.mp hreplies
      rw [← heq] at hm
      exact nomatch hm

/-- A transaction that cannot be opened: the client is told of an `sql_error` only. -/
theorem answered_log_of_fault (h : s.dbConnected = false) {evts : List Event} {needAccept : Bool}
    (hp : ret.package = .log evts needAccept) (hevts : evts ≠ []) {c : DbClient}
    (hc : later.client._client = some c)
    {e : DbException} (hf : later.db.faults.head?.join = some e) :
    Answered ret (exchange env ret s later) ↔ e = .sqlError := by
  have hinsert := insert_of_some evts hc
  rw [Database.insertWindowsEvents_of_fault hf] at hinsert
  by_cases he : e = .sqlError
  · subst he
    rw [exchange_log h hp hevts (work_of_sqlError hinsert)]
    refine iff_of_true ?_ rfl
    constructor
    · rfl
    · rintro (hne | hne)
      · exact absurd rfl hne
      · exact absurd rfl hne
    · intro _
      exact ⟨_, List.drop_left, rfl⟩
  · rw [exchange_log h hp hevts (work_of_escape hinsert (by simpa using he))]
    refine iff_of_false ?_ he
    intro ha
    exact nomatch ha.returns

/-- A transaction that is opened: it has to go through as a whole. -/
theorem answered_log_of_open (h : s.dbConnected = false) {evts : List Event} {needAccept : Bool}
    (hp : ret.package = .log evts needAccept) (hevts : evts ≠ []) {c : DbClient}
    (hc : later.client._client = some c)
    (hf : later.db.faults.head?.join = none) :
    Answered ret (exchange env ret s later) ↔ Database.Storable c evts later.db := by
  have hinsert := insert_of_some evts hc
  by_cases hst : Database.Storable c evts later.db
  · rw [Database.insertWindowsEvents_of_storable hst] at hinsert
    rw [exchange_log h hp hevts (work_of_ok hinsert)]
    refine iff_of_true ?_ hst
    constructor
    · rfl
    · intro _
      rw [hp]
      cases needAccept
      · exact congrArg _ List.drop_length
      · exact congrArg _ List.drop_left
    · intro hdone
      refine absurd (Or.inl ?_) hdone
      cases needAccept
      · exact (Nat.succ_ne_self _).symm
      · exact (Nat.succ_ne_self _).symm
  · refine iff_of_false ?_ hst
    obtain ⟨db, hstored, ⟨_, hok⟩ | ⟨e, he, herr⟩⟩ :=
      Database.insertWindowsEvents_of_not_storable hf hst
    · rw [hok] at hinsert
      rw [exchange_log h hp hevts (work_of_ok hinsert)]
      exact not_answered_of_swallowed hp hstored
    · rw [herr] at hinsert
      rw [exchange_log h hp hevts (work_of_escape hinsert (by simpa using he))]
      intro ha
      exact nomatch ha.returns

/-- A package without events ends the process. -/
theorem not_answered_log_nil (h : s.dbConnected = false) {needAccept : Bool}
    (hp : ret.package = .log [] needAccept) : ¬Answered ret (exchange env ret s later) := by
  have hread := readFromNetwork_of_not_connected env ret h
  rw [handle_log_nil hp] at hread
  rw [exchange_of_not_queued hread rfl]
  intro ha
  exact nomatch ha.returns

theorem answered_log_iff (h : s.dbConnected = false) {evts : List Event} {needAccept : Bool}
    (hp : ret.package = .log evts needAccept) (hevts : evts ≠ []) :
    Answered ret (exchange env ret s later) ↔ ∃ c, later.client._client = some c ∧
      (Database.Storable c evts later.db ∨ later.db.faults.head?.join = some .sqlError) := by
  cases hc : later.client._client with
  | none =>
      have hinsert := insert_of_none evts hc
      rw [exchange_log h hp hevts (work_of_escape hinsert (fun heq => nomatch heq))]
      constructor
      · intro ha
        exact nomatch ha.returns
      · rintro ⟨_, heq, _⟩
        exact nomatch heq
  | some c =>
      cases hf : later.db.faults.head?.join with
      | some e =>
          have hnot : ¬Database.Storable c evts later.db := by
            intro hst
            have hopen := hst.1.1
            rw [hf] at hopen
            exact nomatch hopen
          rw [answered_log_of_fault h hp hevts hc hf]
          simp [hnot]
      | none =>
          rw [answered_log_of_open h hp hevts hc hf]
          simp

end

end Client

namespace Sample

def surroundings : Surroundings := ⟨0, "2018-01-02", 7⟩

/-- A server whose session belongs to the registered machine. -/
def server : Server where
  dbConnected := false
  db := database
  nextID := 0
  client := { _client := some (Database.ofRow row) }
  sent := []
  queued := []

/-- A critical event as it arrives: its level is not the one that was sent. -/
def critical : Event := ⟨"<Event/>", "message", "2018-01-01", "scope", .verbose, 0, 1⟩

/-- A package with the critical event, as the server reads it. -/
def package : CoreMessage := { hello "m-1" with package := .log [critical] true }

end Sample

namespace Client

end Client
end ClientService
