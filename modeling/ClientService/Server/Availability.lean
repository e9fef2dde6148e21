import ClientService.Server.Batch
import ClientService.Server.Replies

/-!
# A server that keeps running

`readFromNetwork` and the queued work let most exceptions of the database through, and these end
the process. When the schema has what the statements name, the database does not fail by itself,
and the versions of the machines do not change, a call throws only in three cases: a second row
for a machine, a row id that is taken, and a record id that does not fit an `int`.

## Main definitions

* `Schema.Complete` — the schema has what the statements name.
* `Database.Versioned` — rows and entries have the versions of the machines.
-/

namespace ClientService

/-- The schema has what the statements of `GetClient` and `GetLastEventRecordID` name. -/
structure Schema.Complete (S : Schema) : Prop where
  insertClient : ∀ c ∈ Database.insertClientColumns, c ∈ S.client
  clientID : ClientColumn.clientID ∈ S.client
  windows : "Windows" ∈ S.operationSystem
  query : EventColumn.eventRecordID ∈ S.windowsEvents ∧ EventColumn.clientID ∈ S.windowsEvents

theorem Schema.complete_statementSchema : statementSchema.Complete where
  insertClient := by decide
  clientID := by decide
  windows := by decide
  query := by decide

namespace Database

/-- Rows and entries have the versions of the machines. -/
structure Versioned (versions : String → String) (db : Database) : Prop where
  schema : db.schema.Complete
  rows : ∀ r ∈ db.tables.client, r.clientOSVersion = versions r.clientUniqueID
  entries : ∀ M c, db._clients.lookup M = some c → c._clientOsVersion = versions M

/-- No row is that of the machine. -/
def Vacant (db : Database) (M : String) : Prop :=
  ∀ r ∈ db.tables.client, r.clientUniqueID ≠ M

instance (db : Database) (M : String) : Decidable (db.Vacant M) :=
  inferInstanceAs (Decidable (∀ r ∈ db.tables.client, _))

section
variable {versions : String → String} {db db' : Database} {msg : CoreMessage} {M : String}

theorem calm_nil (n : ℕ) : Calm n [] := by
  induction n with
  | zero => trivial
  | succ n ih => exact ⟨rfl, ih⟩

/-! ## Calls that return -/

/-- A machine with a row is known, so that `GetClient` returns. -/
theorem Versioned.connectable (h : Versioned versions db) (hfaults : db.faults = [])
    (hversion : msg.osVersion = versions msg.machineID) (hos : msg.osType = .osWindows)
    (hfresh : ∀ r ∈ db.tables.client, r.clientID ≠ db.nextClientID)
    (hknown : msg.machineID ∈ db._clients ∨ db.Vacant msg.machineID) : Connectable msg db := by
  refine ⟨by rw [hfaults]; exact calm_nil 3, ?_⟩
  cases hlookup : db._clients.lookup msg.machineID with
  | some saved =>
      have hsaved := h.entries _ _ hlookup
      have htouchable : Schema.Touchable db.schema :=
        ⟨h.schema.insertClient _ (by decide), h.schema.clientID⟩
      exact Or.inl ⟨saved, rfl, hversion.trans hsaved.symm, htouchable⟩
  | none =>
      have hvacant : db.Vacant msg.machineID := by
        refine hknown.resolve_left fun hmem => ?_
        simp [← AList.lookup_isSome, hlookup] at hmem
      refine Or.inr ⟨rfl, h.schema.insertClient, ?_, fun r hr => ⟨hfresh r hr, hvacant r hr⟩⟩
      simpa [hos] using h.schema.windows

theorem Versioned.queryable (h : Versioned versions db) (hfaults : db.faults = []) {c : DbClient}
    (hids : ∀ n ∈ recordIDs c._clientID db.tables, n ≤ 2147483647) : Queryable c db :=
  ⟨by rw [hfaults]; exact calm_nil 2, h.schema.query, hids⟩

/-- Without exceptions of the environment, only a statement that cannot be executed throws. -/
theorem batchFailure_nil (S : Schema) (cid : Int32) (evts : List Event) (id : Int32)
    (w : Tables) : batchFailure S cid evts id w [] = none ∨
      batchFailure S cid evts id w [] = some .sqlError := by
  induction evts generalizing id w with
  | nil => simp [batchFailure]
  | cons evt evts ih =>
      by_cases hins : InsertableEvent S cid id evt w
      · simpa [batchFailure, hins] using ih (id + 1) (addEvents [eventRow cid id evt] w)
      · simp [batchFailure, hins]

/-- When the database does not fail by itself, a batch is stored or the failure is swallowed. -/
theorem insertWindowsEvents_of_calm (hfaults : db.faults = []) (c : DbClient)
    (evts : List Event) : ∃ db', insertWindowsEvents c evts db = (.ok 0, db') ∧
      (db' = store c evts db ∨ db'.stored = db.stored) := by
  by_cases hstorable : Storable c evts db
  · exact ⟨_, insertWindowsEvents_of_storable hstorable, Or.inl rfl⟩
  · have hopen : db.faults.head?.join = none := by simp [hfaults]
    obtain ⟨e, db', hfailure, hstored, hins⟩ := insertWindowsEvents_of_failure hopen hstorable
    have hsql : e = .sqlError := by
      have hcases := batchFailure_nil db.schema c._clientID evts db.nextEventID db.tables
      simp only [failure, hfaults, List.head?_nil, Option.join_none, List.tail_nil] at hfailure
      simpa [hfailure] using hcases
    rw [if_pos hsql] at hins
    exact ⟨db', hins, Or.inr hstored⟩

/-- The map and the table have the same machines after it is loaded: the assertion holds. -/
theorem getAllClients_of_calm (hfaults : db.faults = []) (h : Registered db) :
    ∃ db', getAllClients db = (.ok true, db') ∧ db'.tables = db.tables ∧
      db'.schema = db.schema ∧ db'._clients = db.tables.client.foldl
        (fun m c => m.insert c.clientUniqueID (ofRow c)) db._clients := by
  let rows := db.tables.client
  let m := rows.foldl (fun m c => m.insert c.clientUniqueID (ofRow c)) db._clients
  have hmachines : (rows.map ClientRow.clientUniqueID).Nodup := by
    simpa [keys, rows, Function.comp_def] using h.machines
  have hkeys : m.keys.Perm (rows.map ClientRow.clientUniqueID) := by
    refine (List.perm_ext_iff_of_nodup m.nodupKeys hmachines).mpr fun M => ?_
    change M ∈ m ↔ _
    rw [mem_load, or_iff_left_of_imp]
    intro hM
    obtain ⟨c, hc⟩ := Option.isSome_iff_exists.mp (AList.lookup_isSome.mpr hM)
    obtain ⟨r, hr, heq⟩ := List.mem_map.mp (h.entries M c hc)
    exact List.mem_map.mpr ⟨r, hr, congrArg Prod.snd heq⟩
  have hlength : m.keys.length = rows.length := by simp [hkeys.length_eq]
  refine ⟨_, getAllClients_eq_ok.mpr ⟨by rw [hfaults]; exact calm_nil 3, rfl, ?_⟩, rfl, rfl, rfl⟩
  exact (decide_eq_true hlength).symm

/-! ## What stays -/

theorem Versioned.of_eq (h : Versioned versions db) (hschema : db'.schema = db.schema)
    (htables : db'.tables.client = db.tables.client) (hclients : db'._clients = db._clients) :
    Versioned versions db' where
  schema := hschema ▸ h.schema
  rows := htables ▸ h.rows
  entries := hclients ▸ h.entries

/-- Machines stay known, and rows are added only for machines that are `new`. -/
structure Admits (versions : String → String) (new : String → Prop) (db db' : Database) : Prop
    where
  versioned : Versioned versions db'
  known : ∀ M ∈ db._clients, M ∈ db'._clients
  vacant : ∀ M, ¬new M → db.Vacant M → db'.Vacant M

theorem Versioned.admits_of_eq (h : Versioned versions db) (hschema : db'.schema = db.schema)
    (htables : db'.tables.client = db.tables.client) (hclients : db'._clients = db._clients)
    (new : String → Prop) : Admits versions new db db' where
  versioned := h.of_eq hschema htables hclients
  known := fun M hM => hclients ▸ hM
  vacant := fun M _ hM => by rwa [Vacant, htables]

theorem Versioned.admits_of_stored (h : Versioned versions db) (hstored : db'.stored = db.stored)
    (new : String → Prop) : Admits versions new db db' := by
  simp only [stored, Prod.mk.injEq] at hstored
  exact h.admits_of_eq hstored.1 (by rw [hstored.2.1]) hstored.2.2.2.2 new

theorem Versioned.getClient (h : Versioned versions db)
    (hversion : msg.osVersion = versions msg.machineID) {garbage : Int32} {now : String}
    {dc : DbClient} (hget : getClient garbage now msg db = (.ok dc, db')) :
    Admits versions (· = msg.machineID) db db' := by
  rcases getClient_eq_ok.mp hget with ⟨_, _, _, _, rfl⟩ | ⟨_, _, _, _, _, _, rfl⟩
  · have htouch : ∀ P : ClientRow → Prop, (∀ r n, P r → P { r with clientLastConnect := n }) →
        (∀ r ∈ db.tables.client, P r) → ∀ r ∈ (touch now garbage db.tables).client, P r := by
      intro P hP hall r hr
      obtain ⟨r', hr', rfl⟩ := List.mem_map.mp hr
      by_cases hid : r'.clientID = garbage
      · simpa [hid] using hP r' now (hall r' hr')
      · simpa [hid] using hall r' hr'
    exact ⟨⟨h.schema, htouch _ (fun _ _ hr => hr) h.rows, h.entries⟩, fun _ hM => hM,
      fun M _ hM => htouch _ (fun _ _ hr => hr) hM⟩
  · refine ⟨⟨h.schema, List.forall_mem_append.mpr ⟨h.rows, ?_⟩, h.entries⟩, fun _ hM => hM,
      fun M hne hM => List.forall_mem_append.mpr ⟨hM, ?_⟩⟩
    · simpa using hversion
    · simpa using Ne.symm hne

theorem Versioned.load (h : Versioned versions db) (hregistered : Registered db)
    (htables : db'.tables = db.tables) (hschema : db'.schema = db.schema)
    (hclients : db'._clients = db.tables.client.foldl
      (fun m c => m.insert c.clientUniqueID (ofRow c)) db._clients) (new : String → Prop) :
    Admits versions new db db' where
  versioned := by
    refine ⟨hschema ▸ h.schema, htables ▸ h.rows, fun M c hc => ?_⟩
    rw [hclients] at hc
    by_cases hM : M ∈ db.tables.client.map ClientRow.clientUniqueID
    · obtain ⟨r, hr, rfl⟩ := List.mem_map.mp hM
      have hmachines : (db.tables.client.map ClientRow.clientUniqueID).Nodup := by
        simpa [keys, Function.comp_def] using hregistered.machines
      rw [lookup_load_of_mem hmachines hr, Option.some.injEq] at hc
      simpa [← hc, ofRow] using h.rows r hr
    · rw [lookup_load_of_notMem hM] at hc
      exact h.entries M c hc
  known := fun M hM => by
    rw [hclients, mem_load]
    exact Or.inr hM
  vacant := fun M _ hM => by rwa [Vacant, htables]

end
end Database

/-! ## Steps that do not end the process -/

namespace Service

open Client (readFromNetwork)
open Database (Admits Connectable Queryable Registered Versioned)

section
variable {s : Service} {versions : String → String} {i : ℕ}

/-! The loop goes on after work of a session, and after a signal when the database is back. -/

@[simp] theorem serve_stopping {α : Type} (x : Serving α) :
    (s.serve i x).2.stopping = s.stopping := by
  rw [serve]
  rcases x (s.server i) with ⟨_ | _, t⟩
  · rfl
  · rfl

theorem insert_stopping (s : Service) (j : ℕ) (job : Job) :
    (s.insert j job).stopping = s.stopping := by
  rw [insert, serve]
  rcases Client.insertOrRecover job.id job.evts (s.server job.session) with ⟨_ | _ | _, t⟩
  · rfl
  · rfl
  · rfl

/-- Only a signal that finds no database stops the loop. -/
theorem sigpipeHandler_stopping (asserts : Bool) {outcome : ℕ → Attempt}
    (h : reconnect outcome ≠ .fails) (s : Service) :
    (s.sigpipeHandler asserts outcome).stopping = s.stopping := by
  rw [sigpipeHandler, connect]
  cases s.checkConnectStatus with
  | true => rfl
  | false =>
      rw [if_neg Bool.false_ne_true]
      cases hending : reconnect outcome with
      | fails => exact absurd hending h
      | dies => rfl
      | opens =>
          rcases Database.getAllClients (s.setDatabaseConnect false).db with ⟨_ | complete, db⟩
          · rfl
          · cases asserts <;> cases complete <;> rfl

/-- A package is handled without an exception. -/
theorem runs_read (h : Versioned versions s.db) (env : Surroundings) {ret : CoreMessage}
    (hversion : ret.osVersion = versions ret.machineID)
    (hlog : ∀ needAccept, ret.package ≠ .log [] needAccept)
    (hconnect : ret.package = .connect → Connectable ret s.db)
    (hquery : ret.package = .queryLastEvent →
      ∃ c, (s.sessions i)._client = some c ∧ Queryable c s.db) :
    (s.serve i (readFromNetwork env ret)).2.ended = s.ended ∧
      Admits versions (fun M => ret.package = .connect ∧ M = ret.machineID) s.db
        (s.serve i (readFromNetwork env ret)).2.db := by
  let new (M : String) : Prop := ret.package = .connect ∧ M = ret.machineID
  have hrefl : Admits versions new s.db s.db := h.admits_of_eq rfl rfl rfl _
  rw [serve_eq]
  cases hflag : s.dbConnected with
  | true =>
      rw [Client.readFromNetwork_of_connected (s := s.server i) hflag]
      exact ⟨rfl, hrefl⟩
  | false =>
      rw [Client.readFromNetwork_of_not_connected (s := s.server i) env ret hflag]
      have hspec := Client.handle_spec env ret (s.server i)
      generalize Client.handle env ret (s.server i) = x at hspec
      cases hspec with
      | log hp hevts | ignored hnothing => exact ⟨rfl, hrefl⟩
      | eventless hp => exact absurd hp (hlog _)
      | connect hp hget =>
          obtain ⟨hversioned, hknown, hvacant⟩ := h.getClient hversion hget
          exact ⟨rfl, hversioned, hknown, fun M hM => hvacant M fun heq => hM ⟨hp, heq⟩⟩
      | @connectFailed e db hp hget =>
          obtain ⟨dc, db', hok⟩ :=
            (Database.getClient_isOk_iff env.garbage env.now).mpr (hconnect hp)
          rw [show Database.getClient env.garbage env.now ret s.db = _ from hget] at hok
          simp at hok
      | unidentified hp hc =>
          obtain ⟨c, hsome, _⟩ := hquery hp
          simp [show (s.sessions i)._client = none from hc] at hsome
      | query hp hc hget =>
          obtain ⟨_, rfl, _⟩ := Database.getLastEventRecordID_eq_ok hget
          have hanswer : Admits versions new s.db s.db.answer :=
            h.admits_of_eq (by rfl) (by rfl) (by rfl) _
          exact ⟨rfl, hanswer⟩
      | @queryFailed c e db hp hc hget =>
          obtain ⟨c', hsome, hqueryable⟩ := hquery hp
          have hc : (s.sessions i)._client = some c := hc
          rw [hsome, Option.some.injEq] at hc
          subst hc
          obtain ⟨n, hok⟩ := Database.getLastEventRecordID_of_queryable hqueryable
          rw [show Database.getLastEventRecordID c' s.db = _ from hget] at hok
          simp at hok

/-- A worker stores its package, or swallows what the database throws. -/
theorem runs_insert (h : Versioned versions s.db) (hfaults : s.db.faults = []) (j : ℕ) {job : Job}
    (hclient : (s.sessions job.session)._client.isSome = true) (new : String → Prop) :
    (s.insert j job).ended = s.ended ∧ Admits versions new s.db (s.insert j job).db := by
  obtain ⟨c, hc⟩ := Option.isSome_iff_exists.mp hclient
  obtain ⟨db', hins, hdb⟩ := Database.insertWindowsEvents_of_calm hfaults c job.evts
  have hinsert := Client.insert_of_some (s := s.server job.session) job.evts hc
  rw [show Database.insertWindowsEvents c job.evts (s.server job.session).db = _ from hins]
    at hinsert
  rw [insert, serve, Client.insertOrRecover_of_ok hinsert]
  refine ⟨rfl, ?_⟩
  rcases hdb with rfl | hstored
  · have hstore : Admits versions new s.db (Database.store c job.evts s.db) :=
      h.admits_of_eq (by rfl) (by rfl) (by rfl) _
    exact hstore
  · exact h.admits_of_stored hstored _

/-- A signal is handled, and the map is loaded if need be. -/
theorem runs_sigpipe (h : Versioned versions s.db) (hfaults : s.db.faults = [])
    (hregistered : Registered s.db) (asserts : Bool) {outcome : ℕ → Attempt}
    (hending : s.isOpen = false → reconnect outcome ≠ .dies) (new : String → Prop) :
    (s.sigpipeHandler asserts outcome).ended = s.ended ∧
      Admits versions new s.db (s.sigpipeHandler asserts outcome).db := by
  have hrefl : Admits versions new s.db s.db := h.admits_of_eq rfl rfl rfl _
  rw [sigpipeHandler, checkConnectStatus]
  cases hopen : s.isOpen with
  | true => exact ⟨rfl, hrefl⟩
  | false =>
      cases hreconnect : reconnect outcome with
      | dies => exact absurd hreconnect (hending hopen)
      | fails =>
          simp only [connect, hreconnect]
          exact ⟨rfl, hrefl⟩
      | opens =>
          obtain ⟨db', hget, htables, hschema, hclients⟩ :=
            Database.getAllClients_of_calm hfaults hregistered
          have hload := h.load hregistered htables hschema hclients new
          simpa [connect, setDatabaseConnect, hget, hreconnect] using hload

end
end Service
end ClientService
