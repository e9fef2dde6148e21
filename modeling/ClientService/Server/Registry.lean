import ClientService.Lib.Mirror
import ClientService.Server.Database

/-!
# The registry of clients

`_clients` is loaded from the table when the server starts and consulted by every `GetClient`.
A run is any sequence of calls; the database may fail in any of them. `Upheld` says what the
registry is for: it mirrors the table, every call answers from it, and one machine has one id.

A new machine never enters the map, and the statement for a changed version always throws.
`upheld_iff` shows that nothing else goes wrong.

## Main definitions

* `Coherent` — the map mirrors the table.
* `Step`, `run` — one call, and a sequence of calls.
* `Upheld` — what a run has to keep.
-/

namespace ClientService.Database

/-- The map has exactly one entry for each row of `"Client"`, with its id and version. -/
def Coherent (db : Database) : Prop :=
  Mirrors ClientRow.clientUniqueID
    (fun r dc => dc._clientID = r.clientID ∧ dc._clientOsVersion = r.clientOSVersion)
    db.tables.client db._clients

/-- The arguments of a call. -/
structure Call where
  /-- What the memory of the new object holds. -/
  garbage : Int32
  now : String
  msg : CoreMessage

/-- A call with the database before it and after it. -/
structure Step where
  before : Database
  call : Call
  result : Except DbException DbClient
  after : Database

/-- Make a call. -/
def step (db : Database) (c : Call) : Step where
  before := db
  call := c
  result := (getClient c.garbage c.now c.msg db).1
  after := (getClient c.garbage c.now c.msg db).2

/-- Make the calls one after the other. -/
def run : List Call → Database → List Step
  | [], _ => []
  | c :: cs, db => step db c :: run cs (step db c).after

/-- The call returns the entry of its machine. -/
def Step.Answers (s : Step) : Prop :=
  ∀ dc, s.result = .ok dc → s.after._clients.lookup s.call.msg.machineID = some dc

/-- What the calls of a run have to keep. -/
structure Upheld (steps : List Step) : Prop where
  coherent : ∀ s ∈ steps, Coherent s.after
  /-- A call returns unless the database fails in one of its three statements. -/
  returns : ∀ s ∈ steps, Calm 3 s.before.faults → ∃ dc, s.result = .ok dc
  answers : ∀ s ∈ steps, s.Answers
  /-- One machine has one id. -/
  single : ∀ s ∈ steps, ∀ t ∈ steps, s.call.msg.machineID = t.call.msg.machineID →
    ∀ dc dc', s.result = .ok dc → t.result = .ok dc' → dc._clientID = dc'._clientID
  /-- No call inserts a row for a machine that has one. -/
  unique : ∀ s ∈ steps, s.before._clients.lookup s.call.msg.machineID = none →
    ∀ r ∈ s.before.tables.client, r.clientUniqueID ≠ s.call.msg.machineID

/-! ## Loading -/

/-- The map is coherent when the server starts, and the assertion at its end holds. -/
theorem getAllClients_coherent {db start : Database} {b : Bool} (hempty : db._clients = ∅)
    (hnodup : (db.tables.client.map ClientRow.clientUniqueID).Nodup)
    (h : getAllClients db = (.ok b, start)) :
    Coherent start ∧ start.tables = db.tables ∧ start.schema = db.schema ∧ b = true := by
  rw [getAllClients_eq_ok] at h
  obtain ⟨_, rfl, rfl⟩ := h
  have hc : Coherent { db with
      faults := db.faults.drop 3, commits := db.commits + 1, answers := db.answers + 1
      _clients := db.tables.client.foldl
        (fun m c => m.insert c.clientUniqueID (ofRow c)) db._clients } := by
    rw [hempty]
    apply mirrors_load hnodup
    intro r
    exact ⟨rfl, rfl⟩
  exact ⟨hc, rfl, rfl, decide_eq_true hc.length_eq⟩

/-! ## One call -/

/-- What the registry reads of a row. -/
def identity (r : ClientRow) : Int32 × String × String :=
  (r.clientID, r.clientOSVersion, r.clientUniqueID)

/-- The two databases have the same schema, map and rows, up to the times of connection. -/
structure Agrees (db db' : Database) : Prop where
  schema : db'.schema = db.schema
  clients : db'._clients = db._clients
  rows : db'.tables.client.map identity = db.tables.client.map identity

theorem Agrees.refl (db : Database) : Agrees db db := ⟨rfl, rfl, rfl⟩

theorem Agrees.trans {a b c : Database} (h : Agrees a b) (h' : Agrees b c) : Agrees a c where
  schema := h'.schema.trans h.schema
  clients := h'.clients.trans h.clients
  rows := h'.rows.trans h.rows

theorem Agrees.coherent {db db' : Database} (h : Agrees db db') (hc : Coherent db) :
    Coherent db' := by
  rw [Coherent, h.clients]
  apply hc.of_map_eq h.rows
  · intro r r' heq
    exact congrArg (fun i => i.2.2) heq
  · intro r r' dc heq ha
    have hid : r.clientID = r'.clientID := congrArg (fun i => i.1) heq
    have hversion : r.clientOSVersion = r'.clientOSVersion := congrArg (fun i => i.2.1) heq
    exact ⟨ha.1.trans hid, ha.2.trans hversion⟩

/-- A row of the one database has its counterpart in the other. -/
theorem Agrees.exists_row {db db' : Database} (h : Agrees db db') {r : ClientRow}
    (hr : r ∈ db'.tables.client) : ∃ r' ∈ db.tables.client, identity r' = identity r := by
  have : identity r ∈ db.tables.client.map identity := by
    rw [← h.rows]
    exact List.mem_map_of_mem hr
  exact List.mem_map.mp this

theorem Agrees.symm {db db' : Database} (h : Agrees db db') : Agrees db' db where
  schema := h.schema.symm
  clients := h.clients.symm
  rows := h.rows.symm

theorem map_identity_touch (now : String) (id : Int32) (w : Tables) :
    (touch now id w).client.map identity = w.client.map identity := by
  rw [touch, List.map_map]
  apply List.map_congr_left
  intro r _
  by_cases h : r.clientID = id
  · simp [identity, h]
  · simp [identity, h]

theorem agrees_of_stored {db db' : Database} (h : db'.stored = db.stored) : Agrees db db' := by
  simp only [stored, Prod.mk.injEq] at h
  obtain ⟨hschema, htables, -, -, hclients⟩ := h
  exact ⟨hschema, hclients, by rw [htables]⟩

/-- A call that returns the entry of its machine found it in the map with the same version. -/
theorem step_known {db : Database} {c : Call} {dc : DbClient} (hok : (step db c).result = .ok dc)
    (ha : (step db c).Answers) :
    db._clients.lookup c.msg.machineID = some dc ∧ c.msg.osVersion = dc._clientOsVersion ∧
      Schema.Touchable db.schema ∧ Agrees db (step db c).after := by
  have heq : getClient c.garbage c.now c.msg db = (.ok dc, (step db c).after) :=
    Prod.ext hok rfl
  rcases getClient_eq_ok.mp heq with ⟨hlookup, hversion, _, hschema, hafter⟩ | hnew
  · refine ⟨hlookup, hversion, hschema, ?_⟩
    rw [hafter]
    exact ⟨rfl, rfl, map_identity_touch _ _ _⟩
  · -- The row went into the table and not into the map.
    have hafter : (step db c).after._clients = db._clients := by rw [hnew.2.2.2.2.2.2]
    have hfound : (step db c).after._clients.lookup c.msg.machineID = some dc := ha dc hok
    rw [hafter, hnew.1] at hfound
    cases hfound

/-- A call that does not answer wrongly leaves the registry as it is. -/
theorem agrees_step {db : Database} {c : Call} (ha : (step db c).Answers) :
    Agrees db (step db c).after := by
  cases hr : (step db c).result with
  | ok dc => exact (step_known hr ha).2.2.2
  | error e =>
      have heq : getClient c.garbage c.now c.msg db = (.error e, (step db c).after) :=
        Prod.ext hr rfl
      exact agrees_of_stored (getClient_eq_error heq)

/-- The call meets an exception of the database, or it names a machine of this table whose
version is the one in the table. -/
def Step.Known (rows : List ClientRow) (s : Step) : Prop :=
  Calm 3 s.before.faults → Schema.Touchable s.before.schema ∧ ∃ r ∈ rows,
    r.clientUniqueID = s.call.msg.machineID ∧ r.clientOSVersion = s.call.msg.osVersion

theorem Step.Known.of_agrees {db db' : Database} (h : Agrees db db') {s : Step}
    (hs : s.Known db'.tables.client) : s.Known db.tables.client := by
  intro hcalm
  obtain ⟨hschema, r, hr, hid, hversion⟩ := hs hcalm
  obtain ⟨r', hr', heq⟩ := h.exists_row hr
  have hid' : r'.clientUniqueID = r.clientUniqueID := congrArg (fun i => i.2.2) heq
  have hversion' : r'.clientOSVersion = r.clientOSVersion := congrArg (fun i => i.2.1) heq
  exact ⟨hschema, r', hr', hid'.trans hid, hversion'.trans hversion⟩

/-- A known machine is answered when the database does not fail. -/
theorem step_of_known {db : Database} {c : Call} (hc : Coherent db)
    (hknown : (step db c).Known db.tables.client) (hcalm : Calm 3 db.faults) :
    ∃ dc, (step db c).result = .ok dc ∧ (step db c).Answers := by
  obtain ⟨hschema, r, hr, hid, hversion⟩ := hknown hcalm
  obtain ⟨dc, hlookup, _, hdc⟩ := hc.entry r hr
  rw [hid] at hlookup
  have hsame : c.msg.osVersion = dc._clientOsVersion := hversion.symm.trans hdc.symm
  have heq : getClient c.garbage c.now c.msg db = (.ok dc,
      { db with tables := touch c.now c.garbage db.tables, faults := db.faults.drop 3,
                commits := db.commits + 1 }) :=
    getClient_eq_ok.mpr (Or.inl ⟨hlookup, hsame, hcalm, hschema, rfl⟩)
  have hresult : (step db c).result = .ok dc := congrArg Prod.fst heq
  have hafter : (step db c).after._clients = db._clients :=
    congrArg (fun x => x.2._clients) heq
  refine ⟨dc, hresult, ?_⟩
  intro dc' hdc'
  rw [hresult] at hdc'
  rw [hafter, ← Except.ok.inj hdc']
  exact hlookup

/-- A call that returns met no exception of the database. -/
theorem calm_of_ok {db : Database} {c : Call} {dc : DbClient}
    (hok : (step db c).result = .ok dc) : Calm 3 db.faults := by
  have heq : getClient c.garbage c.now c.msg db = (.ok dc, (step db c).after) :=
    Prod.ext hok rfl
  rcases getClient_eq_ok.mp heq with h | h
  · exact h.2.2.1
  · exact h.2.1

theorem answers_of_known {db : Database} {c : Call} (hc : Coherent db)
    (hknown : (step db c).Known db.tables.client) : (step db c).Answers := by
  intro dc hok
  obtain ⟨_, _, ha⟩ := step_of_known hc hknown (calm_of_ok hok)
  exact ha dc hok

/-- A call that keeps its promise names a known machine. -/
theorem known_of_answers {db : Database} {c : Call} (hc : Coherent db)
    (hreturns : Calm 3 db.faults → ∃ dc, (step db c).result = .ok dc)
    (ha : (step db c).Answers) : (step db c).Known db.tables.client := by
  intro hcalm
  obtain ⟨dc, hok⟩ := hreturns hcalm
  obtain ⟨hlookup, hversion, hschema, _⟩ := step_known hok ha
  obtain ⟨r, hr, hid, _, hdc⟩ := hc.exists_row hlookup
  exact ⟨hschema, r, hr, hid, hdc.symm.trans hversion.symm⟩

/-! ## Runs -/

/-- What every call preserves holds before and after every call of a run. -/
theorem run_induction {I : Database → Prop} {Q : Step → Prop}
    (hstep : ∀ db c, I db → Q (step db c) → I (step db c).after) {cs : List Call} {db : Database}
    (hstart : I db) (hrun : ∀ s ∈ run cs db, Q s) :
    ∀ s ∈ run cs db, s = step s.before s.call ∧ I s.before ∧ I s.after := by
  induction cs generalizing db with
  | nil =>
      intro s hs
      cases hs
  | cons c cs ih =>
      have hnext : I (step db c).after := hstep db c hstart (hrun _ List.mem_cons_self)
      intro s hs
      rcases List.mem_cons.mp hs with rfl | hs
      · exact ⟨rfl, hstart, hnext⟩
      · exact ih hnext (fun t ht => hrun t (List.mem_cons_of_mem _ ht)) s hs

/-- Calls for known machines leave the registry as it is. -/
theorem run_of_known {cs : List Call} {start : Database} (hc : Coherent start)
    (hknown : ∀ s ∈ run cs start, s.Known start.tables.client) :
    ∀ s ∈ run cs start, s = step s.before s.call ∧ Agrees start s.before ∧
      Agrees start s.after := by
  refine run_induction (Q := fun s => s.Known start.tables.client) ?_ (Agrees.refl start) hknown
  intro db c h hs
  exact h.trans (agrees_step (answers_of_known (h.coherent hc) (hs.of_agrees h.symm)))

/-- Calls that are answered leave the registry as it is. -/
theorem run_of_answers {cs : List Call} {start : Database}
    (ha : ∀ s ∈ run cs start, s.Answers) :
    ∀ s ∈ run cs start, s = step s.before s.call ∧ Agrees start s.before ∧
      Agrees start s.after := by
  refine run_induction (Q := Step.Answers) ?_ (Agrees.refl start) ha
  intro db c h hs
  exact h.trans (agrees_step hs)

/-- A run of calls for known machines upholds the registry. -/
theorem upheld_of_known {cs : List Call} {start : Database} (hc : Coherent start)
    (hknown : ∀ s ∈ run cs start, s.Known start.tables.client) : Upheld (run cs start) := by
  have hrun := run_of_known hc hknown
  have hanswers : ∀ s ∈ run cs start, s.Answers := by
    intro s hs
    obtain ⟨heq, hb, _⟩ := hrun s hs
    rw [heq]
    apply answers_of_known (hb.coherent hc)
    rw [← heq]
    exact (hknown s hs).of_agrees hb.symm
  constructor
  · intro s hs
    exact (hrun s hs).2.2.coherent hc
  · intro s hs hcalm
    obtain ⟨heq, hb, _⟩ := hrun s hs
    have hk : (step s.before s.call).Known s.before.tables.client := by
      rw [← heq]
      exact (hknown s hs).of_agrees hb.symm
    obtain ⟨dc, hdc, _⟩ := step_of_known (hb.coherent hc) hk hcalm
    rw [heq]
    exact ⟨dc, hdc⟩
  · exact hanswers
  · intro s hs t ht hid dc dc' hdc hdc'
    have h := hanswers s hs dc hdc
    have h' := hanswers t ht dc' hdc'
    rw [(hrun s hs).2.2.clients, hid] at h
    rw [(hrun t ht).2.2.clients, h] at h'
    rw [Option.some.inj h']
  · intro s hs hlookup r hr hid
    obtain ⟨v, hv, _⟩ := ((hrun s hs).2.1.coherent hc).entry r hr
    rw [hid, hlookup] at hv
    cases hv

end ClientService.Database
