import ClientService.Protobuf.Message
import ClientService.Lib.Fallible

/-!
# The database and the class `Database`

Tables, the statements the server sends, and the four member functions that send them. A
transaction works on a copy of the tables, which `commit` makes the committed ones; a
transaction that is not committed leaves nothing. Each statement first meets what the
environment has for it: success, or an exception of the library. A statement that names a
missing column, breaks a constraint or has a value outside an enumeration throws by itself.

The schema is a parameter. `postgresSql` is the one the repository ships; it lacks columns
and a table that the statements name.

## Main definitions

* `Schema`, `Tables`, `Database` — what there is, what is committed, and the class.
* `Database.getClient`, `Database.getAllClients`, `Database.insertWindowsEvents`,
  `Database.getLastEventRecordID` — the member functions.
-/

namespace ClientService

/-- The exceptions of the database library. -/
inductive DbException where
  | sqlError
  | brokenConnection
  | usageError
  | conversionError
  deriving DecidableEq, Repr

/-! ## Schema and tables -/

/-- Columns of `"Client"`. -/
inductive ClientColumn where
  | clientID
  | clientName
  | clientOS
  | clientOSVersion
  | clientUniqueID
  | clientRegisterTime
  | clientLastConnect
  deriving DecidableEq, Repr

/-- The column a quoted identifier names. -/
def ClientColumn.ofName (name : String) : Option ClientColumn :=
  if name = "ClientID" then some .clientID
  else if name = "ClientName" then some .clientName
  else if name = "ClientOS" then some .clientOS
  else if name = "ClientOSVersion" then some .clientOSVersion
  else if name = "ClientUniqueID" then some .clientUniqueID
  else if name = "ClientRegisterTime" then some .clientRegisterTime
  else if name = "ClientLastConnect" then some .clientLastConnect
  else none

/-- Columns of `"WindowsEvents"`. -/
inductive EventColumn where
  | eventID
  | clientID
  | eventSeverity
  | eventTimestamp
  | eventScope
  | eventMessage
  | eventRecordID
  deriving DecidableEq, Repr

/-- What has been created in the database. -/
structure Schema where
  client : List ClientColumn
  windowsEvents : List EventColumn
  /-- There is a table `"WindowsEventXML"`. -/
  windowsEventXML : Bool
  /-- Labels of the type `"LogSeverity"`. -/
  logSeverity : List String
  /-- Labels of the type `"OperationSystem"`. -/
  operationSystem : List String
  /-- The largest value of the type of `"EventRecordID"`. -/
  recordIDMax : ℕ
  deriving DecidableEq, Repr

/-- `postgres.sql`: `"Client"` has no `"ClientLastConnect"`, `"WindowsEvents"` has no
`"EventRecordID"`, and the table for XML is `"WindowsEventsXML"`. -/
def postgresSql : Schema where
  client := [.clientID, .clientName, .clientOS, .clientOSVersion, .clientUniqueID,
    .clientRegisterTime]
  windowsEvents := [.eventID, .clientID, .eventSeverity, .eventTimestamp, .eventScope,
    .eventMessage]
  windowsEventXML := false
  logSeverity := ["fatal", "error", "warning", "info", "verbose", "debug", "aduitSuccess",
    "aduitFailure"]
  operationSystem := ["Linux", "Windows", "OTHERs"]
  recordIDMax := 0

/-- The schema that the statements are written for. -/
def statementSchema : Schema := { postgresSql with
  client := postgresSql.client ++ [.clientLastConnect]
  windowsEvents := postgresSql.windowsEvents ++ [.eventRecordID]
  windowsEventXML := true
  recordIDMax := 9223372036854775807 }

/-- A row of `"Client"`. -/
structure ClientRow where
  clientID : Int32
  clientName : String
  clientOS : String
  clientOSVersion : String
  clientUniqueID : String
  clientRegisterTime : String
  clientLastConnect : String
  deriving DecidableEq, Repr

/-- A row of `"WindowsEvents"`. -/
structure EventRow where
  eventID : Int32
  clientID : Int32
  eventSeverity : String
  eventTimestamp : String
  eventScope : String
  eventMessage : String
  eventRecordID : ℕ
  deriving DecidableEq, Repr

/-- A row of the table for XML. -/
structure XmlRow where
  eventID : Int32
  eventXML : String
  deriving DecidableEq, Repr

structure Tables where
  client : List ClientRow
  windowsEvents : List EventRow
  windowsEventXML : List XmlRow
  deriving DecidableEq, Repr

/-- `DbClient`. -/
structure DbClient where
  _clientID : Int32
  _clientName : String
  _clientOs : OsType
  _clientOsVersion : String
  _clientUniqueID : String
  _clientRegisterTime : String
  deriving DecidableEq, Repr

/-- The class `Database`, and the database behind its connection. -/
structure Database where
  schema : Schema
  /-- The committed tables. -/
  tables : Tables
  /-- The sequences that number new rows; they do not go back. -/
  nextClientID : Int32
  nextEventID : Int32
  /-- What the coming statements meet; after the last entry they meet no exception. -/
  faults : List (Option DbException)
  /-- The numbers of transactions committed and of queries answered so far. -/
  commits : ℕ
  answers : ℕ
  /-- The map from unique ids. -/
  _clients : AList fun _ : String => DbClient
  deriving DecidableEq

/-- A computation on the database. -/
abbrev Db (α : Type) : Type := Fallible Database DbException α

namespace Database

open Fallible (throw get modify require attempt within)

/-! ## Transactions and statements -/

/-- Every statement meets the next entry of `faults`. -/
def statement : Db Unit := fun db =>
  match db.faults with
  | [] => (.ok (), db)
  | none :: faults => (.ok (), { db with faults := faults })
  | some e :: faults => (.error e, { db with faults := faults })

/-- `pqxx::work w(*conn)`: the transaction's copy of the tables. -/
def work : Db Tables := do
  statement
  let db ← get
  pure db.tables

/-- `w.commit()`. -/
def commit (w : Tables) : Db Unit := do
  statement
  modify fun db => { db with tables := w, commits := db.commits + 1 }

/-- `w.quote(s)`. -/
def quote (s : String) : String :=
  "'" ++ String.ofList (s.toList.flatMap fun c => if c = '\'' then ['\'', '\''] else [c]) ++ "'"

/-- The rest of a literal after its opening quote: two quotes stand for one. -/
def readQuoted : List Char → Option (List Char)
  | [] => none
  | ['\''] => some []
  | '\'' :: '\'' :: s => (readQuoted s).map ('\'' :: ·)
  | '\'' :: _ :: _ => none
  | c :: s => (readQuoted s).map (c :: ·)

/-- The value of a text in the place of a string literal. -/
def readLiteral (sql : String) : Option String :=
  match sql.toList with
  | '\'' :: s => (readQuoted s).map String.ofList
  | _ => none

/-- The prepared statement `insertClient`: the row it returns. -/
def insertClient (w : Tables) (now name os osVersion uniqueID : String) :
    Db (ClientRow × Tables) := do
  statement
  let db ← get
  require (∀ c ∈ [ClientColumn.clientName, .clientOS, .clientOSVersion, .clientUniqueID,
    .clientRegisterTime, .clientLastConnect], c ∈ db.schema.client) .sqlError
  require (os ∈ db.schema.operationSystem) .sqlError
  modify fun db => { db with nextClientID := db.nextClientID + 1 }
  let row := ClientRow.mk db.nextClientID name os osVersion uniqueID now now
  require (∀ r ∈ w.client, r.clientID ≠ row.clientID ∧ r.clientUniqueID ≠ row.clientUniqueID)
    .sqlError
  pure (row, { w with client := w.client ++ [row] })

/-- `UPDATE "Client" SET "ClientLastConnect" = NOW() … WHERE "key" = id`, with the text of a
literal for `"ClientOSVersion"` when there is one. -/
def updateClient (w : Tables) (now : String) (osVersion : Option String) (key : String)
    (id : Int32) : Db Tables := do
  statement
  let db ← get
  require (ClientColumn.clientLastConnect ∈ db.schema.client) .sqlError
  require (osVersion = none ∨ ClientColumn.clientOSVersion ∈ db.schema.client) .sqlError
  require (ClientColumn.ofName key = some .clientID ∧ ClientColumn.clientID ∈ db.schema.client)
    .sqlError
  let row (r : ClientRow) (v : String) : ClientRow :=
    if r.clientID = id then { r with clientLastConnect := now, clientOSVersion := v } else r
  match osVersion with
  | none => pure { w with client := w.client.map fun r => row r r.clientOSVersion }
  | some sql =>
      match readLiteral sql with
      | none => throw .sqlError
      | some v => pure { w with client := w.client.map fun r => row r v }

/-- `SELECT * from "Client"`. -/
def selectClients (w : Tables) : Db (List ClientRow) := do
  statement
  modify fun db => { db with answers := db.answers + 1 }
  pure w.client

/-- The prepared statement `insertEvent`: the id it returns. -/
def insertEvent (w : Tables) (cid : Int32) (severity timeStamp provider format : String)
    (rid : UInt32) : Db (Int32 × Tables) := do
  statement
  let db ← get
  require (∀ c ∈ [EventColumn.clientID, .eventSeverity, .eventTimestamp, .eventScope,
    .eventMessage, .eventRecordID], c ∈ db.schema.windowsEvents) .sqlError
  require (severity ∈ db.schema.logSeverity) .sqlError
  require (rid.toNat ≤ db.schema.recordIDMax) .sqlError
  modify fun db => { db with nextEventID := db.nextEventID + 1 }
  let row := EventRow.mk db.nextEventID cid severity timeStamp provider format rid.toNat
  require (∀ r ∈ w.windowsEvents, r.eventID ≠ row.eventID) .sqlError
  require (∃ r ∈ w.client, r.clientID = cid) .sqlError
  pure (row.eventID, { w with windowsEvents := w.windowsEvents ++ [row] })

/-- The prepared statement `insertEventXML`. -/
def insertEventXML (w : Tables) (eid : Int32) (xml : String) : Db Tables := do
  statement
  let db ← get
  require (db.schema.windowsEventXML = true) .sqlError
  require (∀ r ∈ w.windowsEventXML, r.eventID ≠ eid) .sqlError
  require (∃ r ∈ w.windowsEvents, r.eventID = eid) .sqlError
  pure { w with windowsEventXML := w.windowsEventXML ++ [⟨eid, xml⟩] }

/-- `select "EventRecordID" from "WindowsEvents" WHERE "ClientID" = cid`. -/
def selectRecordIDs (w : Tables) (cid : Int32) : Db (List ℕ) := do
  statement
  let db ← get
  require (EventColumn.eventRecordID ∈ db.schema.windowsEvents ∧
    EventColumn.clientID ∈ db.schema.windowsEvents) .sqlError
  modify fun db => { db with answers := db.answers + 1 }
  pure ((w.windowsEvents.filter fun r => r.clientID = cid).map EventRow.eventRecordID)

/-! ## Member functions -/

/-- `dispatch(const std::string&)`. -/
def dispatch (os : String) : OsType :=
  if os = "Linux" then .osLinux
  else if os = "Windows" then .osWindows
  else .osOther

/-- `dispatchEventSeverity`. -/
def dispatchEventSeverity (s : Int32) : String :=
  let s := if s > 5 ∨ s ≤ 0 then 0 else s
  ["others", "fatal", "error", "warning", "info", "verbose"].getD s.toInt.toNat ""

/-- `GetClient`. The new object's `_clientID` is not initialised: `garbage` is what the
memory holds. -/
def getClient (garbage : Int32) (now : String) (msg : CoreMessage) : Db DbClient := do
  let dc : DbClient :=
    { _clientID := garbage
      _clientName := msg.clientName
      _clientOs := msg.osType
      _clientOsVersion := msg.osVersion
      _clientUniqueID := msg.machineID
      _clientRegisterTime := "" }
  let db ← get
  match db._clients.lookup dc._clientUniqueID with
  | some saved =>
      if dc._clientOsVersion ≠ saved._clientOsVersion then
        let w ← work
        -- The column's name is misspelt, and the quoted text is quoted once more.
        let w ← updateClient w now (some ("'" ++ quote dc._clientOsVersion ++ "'")) "CliendID"
          dc._clientID
        commit w
      else
        let w ← work
        let w ← updateClient w now none "ClientID" dc._clientID
        commit w
      pure saved
  | none =>
      let w ← work
      let (row, w) ← insertClient w now dc._clientName
        (if dc._clientOs = .osLinux then "Linux" else "Windows") dc._clientOsVersion
        dc._clientUniqueID
      commit w
      -- The map is left as it is.
      pure { dc with _clientID := row.clientID }

/-- The loop of `InsertWindowsEvents`. The first component of the state is `inserted`. -/
def insertEvents (cid : Int32) :
    List Event → Tables → Fallible (ℕ × Database) DbException Tables
  | [], w => pure w
  | evt :: evts, w => do
      let (eid, w) ← within (insertEvent w cid (dispatchEventSeverity evt.level.toInt32)
        evt.timeStamp evt.provider evt.format evt.rid)
      -- `insE.clear()` empties the result before its size is tested.
      let insE := [eid].take 0
      match insE with
      | [eid] =>
          let w ← within (insertEventXML w eid evt.xml)
          modify fun s => (s.1 + 1, s.2)
          insertEvents cid evts w
      | _ => insertEvents cid evts w

/-- `InsertWindowsEvents`. Only the loop and the commit stand inside the `try` block. -/
def insertWindowsEvents (c : DbClient) (evts : List Event) : Db ℕ := do
  let w ← work
  let block : Fallible (ℕ × Database) DbException Unit :=
    attempt
      (do let w ← insertEvents c._clientID evts w
          within (commit w))
      fun e => if e = .sqlError then some (pure ()) else none
  fun db =>
    match block (0, db) with
    | (.ok (), inserted, db) => (.ok inserted, db)
    | (.error e, _, db) => (.error e, db)

/-- The entry that `GetAllClients` makes of a row. -/
def ofRow (c : ClientRow) : DbClient where
  _clientID := c.clientID
  _clientName := c.clientName
  _clientOs := dispatch c.clientOS
  _clientOsVersion := c.clientOSVersion
  _clientUniqueID := c.clientUniqueID
  _clientRegisterTime := c.clientRegisterTime

/-- `GetAllClients`. The result says whether the closing assertion holds. -/
def getAllClients : Db Bool := do
  let w ← work
  let clients ← selectClients w
  commit w
  modify fun db => { db with
    _clients := clients.foldl (fun m c => m.insert c.clientUniqueID (ofRow c)) db._clients }
  let db ← get
  pure (db._clients.keys.length = clients.length)

/-- `as<int>()`. -/
def asInt (n : ℕ) : Db Int32 :=
  if n ≤ 2147483647 then pure (Int32.ofNat n) else throw .conversionError

/-- The loop of `GetLastEventRecordID`. -/
def lastRecordID : List ℕ → Int32 → Db Int32
  | [], ret => pure ret
  | c :: r, ret => do
      let t ← asInt c
      lastRecordID r (if t > ret then t else ret)

/-- `GetLastEventRecordID`. Its transaction is never committed. -/
def getLastEventRecordID (dbc : DbClient) : Db Int32 := do
  let w ← work
  let r ← selectRecordIDs w dbc._clientID
  if r.length = 0 then pure 0 else lastRecordID r 0

/-! ## Statements -/

/-- The database after one statement has met its entry of `faults`. -/
def next (db : Database) : Database := { db with faults := db.faults.tail }

section
variable (db : Database)

@[simp] theorem next_schema : db.next.schema = db.schema := rfl
@[simp] theorem next_tables : db.next.tables = db.tables := rfl
@[simp] theorem next_nextClientID : db.next.nextClientID = db.nextClientID := rfl
@[simp] theorem next_nextEventID : db.next.nextEventID = db.nextEventID := rfl
@[simp] theorem next_faults : db.next.faults = db.faults.tail := rfl
@[simp] theorem next_commits : db.next.commits = db.commits := rfl
@[simp] theorem next_answers : db.next.answers = db.answers := rfl
@[simp] theorem next_clients : db.next._clients = db._clients := rfl

end

/-- The next `n` statements meet no exception. -/
def Calm : ℕ → List (Option DbException) → Prop
  | 0, _ => True
  | n + 1, faults => faults.head?.join = none ∧ Calm n faults.tail

instance decidableCalm : ∀ n faults, Decidable (Calm n faults)
  | 0, _ => isTrue trivial
  | n + 1, faults =>
      have := decidableCalm n faults.tail
      inferInstanceAs (Decidable (_ ∧ _))

theorem calm_add (m n : ℕ) (faults : List (Option DbException)) :
    Calm (m + n) faults ↔ Calm m faults ∧ Calm n (faults.drop m) := by
  induction m generalizing faults with
  | zero => simp [Calm]
  | succ m ih =>
      have hadd : m + 1 + n = m + n + 1 := by omega
      rw [hadd, Calm, Calm, ih, and_assoc, ← List.drop_one, List.drop_drop, Nat.add_comm 1 m]

theorem statement_eq (db : Database) :
    statement db = (match db.faults.head?.join with
      | none => .ok ()
      | some e => .error e, db.next) := by
  rw [statement, next]
  rcases h : db.faults with _ | ⟨_ | e, faults⟩
  · simp only [List.head?_nil, Option.join_none, List.tail_nil, Prod.mk.injEq, true_and]
    rw [← h]
  · rfl
  · rfl

theorem statement_eq_ok {db db' : Database} {u : Unit} :
    statement db = (.ok u, db') ↔ db.faults.head?.join = none ∧ db' = db.next := by
  rw [statement_eq]
  cases db.faults.head?.join with
  | none => simp [eq_comm]
  | some e => simp

theorem statement_of_calm {db : Database} (h : db.faults.head?.join = none) :
    statement db = (.ok (), db.next) := statement_eq_ok.mpr ⟨h, rfl⟩

theorem statement_eq_error {db db' : Database} {e : DbException} :
    statement db = (.error e, db') ↔ db.faults.head?.join = some e ∧ db' = db.next := by
  rw [statement_eq]
  cases db.faults.head?.join with
  | none => simp
  | some e' => simp [eq_comm]

theorem statement_bind_eq_ok {β : Type} {f : Unit → Db β} {db db' : Database} {b : β} :
    (statement >>= f) db = (.ok b, db') ↔
      db.faults.head?.join = none ∧ f () db.next = (.ok b, db') := by
  rw [Fallible.bind_eq_ok]
  constructor
  · rintro ⟨_, _, hs, hf⟩
    obtain ⟨h, rfl⟩ := statement_eq_ok.mp hs
    exact ⟨h, hf⟩
  · rintro ⟨h, hf⟩
    exact ⟨(), db.next, statement_of_calm h, hf⟩

theorem work_bind_eq_ok {β : Type} {f : Tables → Db β} {db db' : Database} {b : β} :
    (work >>= f) db = (.ok b, db') ↔
      db.faults.head?.join = none ∧ f db.tables db.next = (.ok b, db') := by
  rw [Fallible.bind_eq_ok]
  simp only [work, statement_bind_eq_ok, Fallible.get_bind, Fallible.pure_eq_ok]
  constructor
  · rintro ⟨_, _, ⟨h, rfl, rfl⟩, hf⟩
    exact ⟨h, hf⟩
  · rintro ⟨h, hf⟩
    exact ⟨_, _, ⟨h, rfl, rfl⟩, hf⟩

theorem commit_eq_ok {w : Tables} {db db' : Database} {u : Unit} :
    commit w db = (.ok u, db') ↔ db.faults.head?.join = none ∧
      db' = { db.next with tables := w, commits := db.commits + 1 } := by
  simp only [commit, statement_bind_eq_ok, Fallible.modify_eq_ok, next_commits]

theorem drop_three (faults : List (Option DbException)) :
    faults.drop 3 = faults.tail.tail.tail := by
  rw [← List.drop_one, ← List.drop_one, ← List.drop_one, List.drop_drop, List.drop_drop]

/-! ## What a statement needs, and what it does -/

/-- The columns that `insertClient` fills. -/
def insertClientColumns : List ClientColumn :=
  [.clientName, .clientOS, .clientOSVersion, .clientUniqueID, .clientRegisterTime,
    .clientLastConnect]

theorem insertClient_eq_ok {w : Tables} {now name os osVersion uniqueID : String}
    {x : ClientRow × Tables} {db db' : Database} :
    insertClient w now name os osVersion uniqueID db = (.ok x, db') ↔
      db.faults.head?.join = none ∧ (∀ c ∈ insertClientColumns, c ∈ db.schema.client) ∧
      os ∈ db.schema.operationSystem ∧
      (∀ r ∈ w.client, r.clientID ≠ db.nextClientID ∧ r.clientUniqueID ≠ uniqueID) ∧
      x = (⟨db.nextClientID, name, os, osVersion, uniqueID, now, now⟩,
        { w with client := w.client ++
          [⟨db.nextClientID, name, os, osVersion, uniqueID, now, now⟩] }) ∧
      db' = { db.next with nextClientID := db.nextClientID + 1 } := by
  simp only [insertClient, statement_bind_eq_ok, Fallible.get_bind, Fallible.require_bind_eq_ok,
    Fallible.modify_bind, Fallible.pure_eq_ok]
  rfl

theorem selectClients_eq_ok {w : Tables} {rows : List ClientRow} {db db' : Database} :
    selectClients w db = (.ok rows, db') ↔
      db.faults.head?.join = none ∧ rows = w.client ∧
        db' = { db.next with answers := db.answers + 1 } := by
  simp only [selectClients, statement_bind_eq_ok, Fallible.modify_bind, Fallible.pure_eq_ok,
    next_answers]

theorem getAllClients_eq_ok {b : Bool} {db db' : Database} :
    getAllClients db = (.ok b, db') ↔ Calm 3 db.faults ∧
      db' = { db with
        faults := db.faults.drop 3, commits := db.commits + 1, answers := db.answers + 1
        _clients := db.tables.client.foldl
          (fun m c => m.insert c.clientUniqueID (ofRow c)) db._clients } ∧
      b = decide (db'._clients.keys.length = db.tables.client.length) := by
  rw [getAllClients, work_bind_eq_ok, drop_three]
  simp only [Fallible.bind_eq_ok, selectClients_eq_ok, commit_eq_ok, Fallible.modify_eq_ok,
    Fallible.get_eq_ok, Fallible.pure_eq_ok]
  constructor
  · rintro ⟨h₁, rows, _, ⟨h₂, rfl, rfl⟩, _, _, ⟨h₃, rfl⟩, _, _, rfl, _, _, ⟨rfl, rfl⟩, rfl, rfl⟩
    exact ⟨⟨h₁, h₂, h₃, trivial⟩, rfl, rfl⟩
  · rintro ⟨⟨h₁, h₂, h₃, _⟩, rfl, rfl⟩
    exact ⟨h₁, _, _, ⟨h₂, rfl, rfl⟩, (), _, ⟨h₃, rfl⟩, (), _, rfl, _, _, ⟨rfl, rfl⟩, rfl, rfl⟩

/-- The schema has the columns that `UPDATE "Client"` names when it leaves the version. -/
def Schema.Touchable (S : Schema) : Prop :=
  ClientColumn.clientLastConnect ∈ S.client ∧ ClientColumn.clientID ∈ S.client

instance (S : Schema) : Decidable (Schema.Touchable S) := inferInstanceAs (Decidable (_ ∧ _))

/-- Set the time of the last connection in the rows with this id. -/
def touch (now : String) (id : Int32) (w : Tables) : Tables :=
  { w with client := w.client.map fun r =>
      if r.clientID = id then { r with clientLastConnect := now } else r }

theorem updateClient_eq_ok {w w' : Tables} {now : String} {id : Int32} {db db' : Database} :
    updateClient w now none "ClientID" id db = (.ok w', db') ↔
      db.faults.head?.join = none ∧ Schema.Touchable db.schema ∧ w' = touch now id w ∧
        db' = db.next := by
  have hname : ClientColumn.ofName "ClientID" = some .clientID := by decide
  simp only [updateClient, statement_bind_eq_ok, Fallible.get_bind, Fallible.require_bind_eq_ok,
    Fallible.pure_eq_ok]
  simp only [hname, true_or, true_and, next_schema, Schema.Touchable, touch, and_assoc]

/-- The statement that should store a new version names a column that no schema has. -/
theorem updateClient_ne_ok {w w' : Tables} {now sql : String} {id : Int32} {db db' : Database} :
    updateClient w now (some sql) "CliendID" id db ≠ (.ok w', db') := by
  have hname : ClientColumn.ofName "CliendID" ≠ some .clientID := by decide
  simp only [updateClient, ne_eq, statement_bind_eq_ok, Fallible.get_bind,
    Fallible.require_bind_eq_ok]
  simp only [hname, false_and, and_false, not_false_iff]

/-- The state that only a commit or the answer to a query changes. -/
def stored (db : Database) : Schema × Tables × ℕ × ℕ × AList fun _ : String => DbClient :=
  (db.schema, db.tables, db.commits, db.answers, db._clients)

theorem keeps_statement : Fallible.Keeps stored statement := by
  intro db
  rw [statement_eq]
  rfl

theorem keeps_work : Fallible.Keeps stored work :=
  keeps_statement.bind fun _ => Fallible.keeps_get.bind fun _ => Fallible.keeps_pure _

theorem keeps_insertClient (w : Tables) (now name os osVersion uniqueID : String) :
    Fallible.Keeps stored (insertClient w now name os osVersion uniqueID) := by
  refine keeps_statement.bind fun _ => Fallible.keeps_get.bind fun _ =>
    (Fallible.keeps_require _ _).bind fun _ => (Fallible.keeps_require _ _).bind fun _ =>
    Fallible.Keeps.bind ?_ fun _ => (Fallible.keeps_require _ _).bind fun _ =>
    Fallible.keeps_pure _
  intro db
  rfl

theorem keeps_updateClient (w : Tables) (now : String) (osVersion : Option String) (key : String)
    (id : Int32) : Fallible.Keeps stored (updateClient w now osVersion key id) := by
  refine keeps_statement.bind fun _ => Fallible.keeps_get.bind fun _ =>
    (Fallible.keeps_require _ _).bind fun _ => (Fallible.keeps_require _ _).bind fun _ =>
    (Fallible.keeps_require _ _).bind fun _ => ?_
  cases osVersion with
  | none => exact Fallible.keeps_pure _
  | some sql =>
      simp only
      cases readLiteral sql with
      | none => exact Fallible.keeps_throw _
      | some v => exact Fallible.keeps_pure _

/-- A commit that throws has stored nothing. -/
theorem commit_eq_error {w : Tables} {e : DbException} {db db' : Database}
    (h : commit w db = (.error e, db')) : db'.stored = db.stored := by
  rw [commit, Fallible.bind_eq_error] at h
  rcases h with h | ⟨_, _, _, h⟩
  · rw [(statement_eq_error.mp h).2]
    rfl
  · cases h

/-- A transaction that throws has stored nothing. -/
theorem transaction_eq_error {α β : Type} {x : Tables → Db α} (w : α → Tables) (g : α → β)
    (hx : ∀ t, Fallible.Keeps stored (x t)) {e : DbException} {db db' : Database}
    (h : (do let t ← work; let a ← x t; commit (w a); pure (g a) : Db β) db = (.error e, db')) :
    db'.stored = db.stored := by
  rw [Fallible.bind_eq_error] at h
  rcases h with h | ⟨t, db₁, hwork, h⟩
  · rw [← keeps_work db, h]
  have h₁ : db₁.stored = db.stored := by rw [← keeps_work db, hwork]
  rw [Fallible.bind_eq_error] at h
  rcases h with h | ⟨a, db₂, hxa, h⟩
  · rw [← h₁, ← hx t db₁, h]
  have h₂ : db₂.stored = db.stored := by rw [← h₁, ← hx t db₁, hxa]
  rw [Fallible.bind_eq_error] at h
  rcases h with h | ⟨_, _, _, h⟩
  · rw [commit_eq_error h, h₂]
  · cases h

/-- **When `GetClient` throws, nothing is stored and the map is as it was.** -/
theorem getClient_eq_error {garbage : Int32} {now : String} {msg : CoreMessage} {e : DbException}
    {db db' : Database} (h : getClient garbage now msg db = (.error e, db')) :
    db'.stored = db.stored := by
  rw [getClient, Fallible.get_bind] at h
  cases hlookup : db._clients.lookup msg.machineID with
  | none =>
      simp only [hlookup] at h
      exact transaction_eq_error Prod.snd _ (fun t => keeps_insertClient t _ _ _ _ _) h
  | some saved =>
      simp only [hlookup] at h
      by_cases hver : msg.osVersion ≠ saved._clientOsVersion
      · rw [if_pos hver] at h
        exact transaction_eq_error id (fun _ => saved) (fun t => keeps_updateClient t _ _ _ _) h
      · rw [if_neg hver] at h
        exact transaction_eq_error id (fun _ => saved) (fun t => keeps_updateClient t _ _ _ _) h

/-- **What `GetClient` does when it returns.** A client that the map knows with the same
version keeps its entry. A client that the map does not know gets a new row, and the map
stays as it is. There is no third case. -/
theorem getClient_eq_ok {garbage : Int32} {now : String} {msg : CoreMessage} {dc : DbClient}
    {db db' : Database} :
    getClient garbage now msg db = (.ok dc, db') ↔
      (db._clients.lookup msg.machineID = some dc ∧ msg.osVersion = dc._clientOsVersion ∧
        Calm 3 db.faults ∧ Schema.Touchable db.schema ∧
        db' = { db with tables := touch now garbage db.tables, faults := db.faults.drop 3,
                        commits := db.commits + 1 }) ∨
      (db._clients.lookup msg.machineID = none ∧ Calm 3 db.faults ∧
        (∀ c ∈ insertClientColumns, c ∈ db.schema.client) ∧
        (if msg.osType = .osLinux then "Linux" else "Windows") ∈ db.schema.operationSystem ∧
        (∀ r ∈ db.tables.client, r.clientID ≠ db.nextClientID ∧
          r.clientUniqueID ≠ msg.machineID) ∧
        dc = ⟨db.nextClientID, msg.clientName, msg.osType, msg.osVersion, msg.machineID, ""⟩ ∧
        db' = { db with
          tables := { db.tables with client := db.tables.client ++
            [⟨db.nextClientID, msg.clientName,
              if msg.osType = .osLinux then "Linux" else "Windows", msg.osVersion, msg.machineID,
              now, now⟩] }
          nextClientID := db.nextClientID + 1, faults := db.faults.drop 3,
          commits := db.commits + 1 }) := by
  rw [getClient, Fallible.get_bind, drop_three]
  cases hlookup : db._clients.lookup msg.machineID with
  | none =>
      simp only [work_bind_eq_ok]
      simp only [Fallible.bind_eq_ok, insertClient_eq_ok, commit_eq_ok, Fallible.pure_eq_ok,
        reduceCtorEq, false_and, false_or, true_and]
      constructor
      · rintro ⟨h₁, x, _, ⟨h₂, hcols, hos, hkeys, rfl, rfl⟩, _, _, ⟨h₃, rfl⟩, rfl, rfl⟩
        exact ⟨⟨h₁, h₂, h₃, trivial⟩, hcols, hos, hkeys, rfl, rfl⟩
      · rintro ⟨⟨h₁, h₂, h₃, _⟩, hcols, hos, hkeys, rfl, rfl⟩
        exact ⟨h₁, _, _, ⟨h₂, hcols, hos, hkeys, rfl, rfl⟩, (), _, ⟨h₃, rfl⟩, rfl, rfl⟩
  | some saved =>
      simp only [Option.some.injEq, reduceCtorEq, false_and, or_false]
      by_cases hver : msg.osVersion = saved._clientOsVersion
      · simp only [hver, ne_eq, not_true, if_false, work_bind_eq_ok]
        simp only [Fallible.bind_eq_ok, updateClient_eq_ok, commit_eq_ok, Fallible.pure_eq_ok]
        constructor
        · rintro ⟨h₁, _, _, ⟨h₂, hschema, rfl, rfl⟩, _, _, ⟨h₃, rfl⟩, rfl, rfl⟩
          exact ⟨rfl, rfl, ⟨h₁, h₂, h₃, trivial⟩, hschema, rfl⟩
        · rintro ⟨rfl, _, ⟨h₁, h₂, h₃, _⟩, hschema, rfl⟩
          exact ⟨h₁, _, _, ⟨h₂, hschema, rfl, rfl⟩, (), _, ⟨h₃, rfl⟩, rfl, rfl⟩
      · simp only [hver, ne_eq, not_false_iff, if_true, work_bind_eq_ok]
        simp only [Fallible.bind_eq_ok, updateClient_ne_ok, false_and, exists_false, and_false,
          false_iff]
        rintro ⟨rfl, heq, _⟩
        exact hver heq

/-- `GetClient` returns: nothing throws, and the machine is known with this version or is new
and has a place in the table. -/
def Connectable (msg : CoreMessage) (db : Database) : Prop :=
  Calm 3 db.faults ∧
    ((∃ saved, db._clients.lookup msg.machineID = some saved ∧
        msg.osVersion = saved._clientOsVersion ∧ Schema.Touchable db.schema) ∨
      (db._clients.lookup msg.machineID = none ∧
        (∀ c ∈ insertClientColumns, c ∈ db.schema.client) ∧
        (if msg.osType = .osLinux then "Linux" else "Windows") ∈ db.schema.operationSystem ∧
        ∀ r ∈ db.tables.client, r.clientID ≠ db.nextClientID ∧ r.clientUniqueID ≠ msg.machineID))

theorem getClient_isOk_iff (garbage : Int32) (now : String) {msg : CoreMessage} {db : Database} :
    (∃ dc db', getClient garbage now msg db = (.ok dc, db')) ↔ Connectable msg db := by
  constructor
  · rintro ⟨dc, db', h⟩
    rcases getClient_eq_ok.mp h with
      ⟨hlookup, hversion, hcalm, hschema, _⟩ | ⟨hlookup, hcalm, hcols, hos, hkeys, _⟩
    · exact ⟨hcalm, Or.inl ⟨dc, hlookup, hversion, hschema⟩⟩
    · exact ⟨hcalm, Or.inr ⟨hlookup, hcols, hos, hkeys⟩⟩
  · rintro ⟨hcalm, ⟨saved, hlookup, hversion, hschema⟩ | ⟨hlookup, hcols, hos, hkeys⟩⟩
    · exact ⟨saved, _, getClient_eq_ok.mpr (Or.inl ⟨hlookup, hversion, hcalm, hschema, rfl⟩)⟩
    · exact ⟨_, _, getClient_eq_ok.mpr (Or.inr ⟨hlookup, hcalm, hcols, hos, hkeys, rfl, rfl⟩)⟩

theorem commits_of_getClient {garbage : Int32} {now : String} {msg : CoreMessage} {dc : DbClient}
    {db db' : Database} (h : getClient garbage now msg db = (.ok dc, db')) :
    db'.commits = db.commits + 1 := by
  rcases getClient_eq_ok.mp h with ⟨_, _, _, _, rfl⟩ | ⟨_, _, _, _, _, _, rfl⟩
  · rfl
  · rfl

end Database

namespace Sample

/-- A connect package as the server reads it. -/
def hello (machineID : String) : CoreMessage :=
  { id := 7, clientName := "pc", osVersion := "10.0", machineID := machineID, package := .connect }

def row : ClientRow := ⟨1, "pc", "Windows", "10.0", "m-1", "2018-01-01", "2018-01-01"⟩

/-- A database with one registered machine. -/
def database : Database where
  schema := statementSchema
  tables := ⟨[row], [], []⟩
  nextClientID := 2
  nextEventID := 1
  faults := []
  commits := 0
  answers := 0
  _clients := ∅

end Sample
end ClientService
