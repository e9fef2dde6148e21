import ClientService.Server.Registry

/-!
# A client that connects again

`GetClient` writes the row of a machine that it knows. The statement names the row by the id of
the new object, which is not initialised. The branch for a changed version never gets as far as a
row, and leaves the entry of the map as it is.

## Main definitions

* `reconnect` — what the table should be after the call.
* `Reconnects` — the promise for a call.
* `Reconnectable` — the calls that keep it.
-/

namespace ClientService.Database

/-! ## The promise -/

/-- The table with the time and the version of the machine in its row. -/
def reconnect (now : String) (msg : CoreMessage) (w : Tables) : Tables :=
  { w with client := w.client.map fun r =>
      if r.clientUniqueID = msg.machineID then
        { r with clientLastConnect := now, clientOSVersion := msg.osVersion }
      else r }

/-- A call for a known machine writes its row and nothing else, and its entry has the version that
is stored. A call that throws writes nothing. -/
structure Reconnects (garbage : Int32) (now : String) (msg : CoreMessage) (db : Database) : Prop
    where
  returns : Calm 3 db.faults → ∃ dc db', getClient garbage now msg db = (.ok dc, db') ∧
    db'.tables = reconnect now msg db.tables ∧
    ∃ saved, db'._clients.lookup msg.machineID = some saved ∧
      saved._clientOsVersion = msg.osVersion
  throws : ∀ e db', getClient garbage now msg db = (.error e, db') → db'.stored = db.stored

/-! ## The condition -/

/-- The version has not changed, the columns exist, and the memory of the new object holds the id
of the machine: it distinguishes the machine's row from those whose time it would change. -/
structure Reconnectable (garbage : Int32) (now : String) (msg : CoreMessage) (db : Database) :
    Prop where
  touchable : Schema.Touchable db.schema
  version : ∀ saved ∈ db._clients.lookup msg.machineID, msg.osVersion = saved._clientOsVersion
  id : ∀ r ∈ db.tables.client, r.clientLastConnect ≠ now →
    (r.clientID = garbage ↔ r.clientUniqueID = msg.machineID)

/-! ## One statement -/

section
variable {garbage : Int32} {now : String} {msg : CoreMessage} {db : Database}

/-- The statement of the unchanged version does to a row what it should. -/
theorem touch_row_iff {r : ClientRow}
    (hversion : r.clientUniqueID = msg.machineID → r.clientOSVersion = msg.osVersion) :
    ((if r.clientID = garbage then { r with clientLastConnect := now } else r) =
      if r.clientUniqueID = msg.machineID then
        { r with clientLastConnect := now, clientOSVersion := msg.osVersion }
      else r) ↔
    (r.clientLastConnect ≠ now → (r.clientID = garbage ↔ r.clientUniqueID = msg.machineID)) := by
  have hsame : r.clientUniqueID = msg.machineID →
      { r with clientLastConnect := now, clientOSVersion := msg.osVersion } =
        { r with clientLastConnect := now } := by
    intro huid
    rw [← hversion huid]
  have hkeep : { r with clientLastConnect := now } = r ↔ r.clientLastConnect = now := by
    constructor
    · intro heq
      exact (congrArg ClientRow.clientLastConnect heq).symm
    · intro heq
      rw [← heq]
  by_cases hid : r.clientID = garbage
  · by_cases huid : r.clientUniqueID = msg.machineID
    · rw [if_pos hid, if_pos huid, hsame huid]
      exact iff_of_true rfl fun _ => iff_of_true hid huid
    · rw [if_pos hid, if_neg huid, hkeep]
      tauto
  · by_cases huid : r.clientUniqueID = msg.machineID
    · rw [if_neg hid, if_pos huid, hsame huid, eq_comm, hkeep]
      tauto
    · rw [if_neg hid, if_neg huid]
      exact iff_of_true rfl fun _ => iff_of_false hid huid

/-- The stored version of a known machine is the one in its entry. -/
theorem Coherent.version (hc : Coherent db) {saved : DbClient}
    (hlookup : db._clients.lookup msg.machineID = some saved)
    (hversion : msg.osVersion = saved._clientOsVersion) {r : ClientRow}
    (hr : r ∈ db.tables.client) (huid : r.clientUniqueID = msg.machineID) :
    r.clientOSVersion = msg.osVersion := by
  obtain ⟨dc, hdc, -, hstored⟩ := hc.entry r hr
  rw [huid, hlookup] at hdc
  rw [← hstored, hversion, Option.some.inj hdc]

/-- **The statement writes the row of the machine** when the memory holds its id. -/
theorem touch_eq_reconnect_iff (hc : Coherent db) {saved : DbClient}
    (hlookup : db._clients.lookup msg.machineID = some saved)
    (hversion : msg.osVersion = saved._clientOsVersion) :
    touch now garbage db.tables = reconnect now msg db.tables ↔
      ∀ r ∈ db.tables.client, r.clientLastConnect ≠ now →
        (r.clientID = garbage ↔ r.clientUniqueID = msg.machineID) := by
  simp only [touch, reconnect, Tables.mk.injEq, and_true, List.map_inj_left]
  constructor
  · intro h r hr
    exact (touch_row_iff (hc.version hlookup hversion hr)).mp (h r hr)
  · intro h r hr
    exact (touch_row_iff (hc.version hlookup hversion hr)).mpr (h r hr)

/-- **A call writes the row of its machine and no other** exactly when the version has not changed,
the columns exist and the memory of the new object holds the machine's id. -/
theorem reconnects_iff (hc : Coherent db) (hknown : msg.machineID ∈ db._clients) :
    Reconnects garbage now msg db ↔
      (Calm 3 db.faults → Reconnectable garbage now msg db) := by
  obtain ⟨saved, hlookup⟩ := Option.isSome_iff_exists.mp (AList.lookup_isSome.mpr hknown)
  constructor
  · intro h hcalm
    obtain ⟨dc, db', hcall, htables, -⟩ := h.returns hcalm
    rcases getClient_eq_ok.mp hcall with ⟨hdc, hversion, -, hschema, rfl⟩ | ⟨hnone, -⟩
    · rw [hlookup] at hdc
      have heq : saved = dc := Option.some.inj hdc
      rw [← heq] at hversion
      refine ⟨hschema, ?_, (touch_eq_reconnect_iff hc hlookup hversion).mp htables⟩
      intro saved' hsaved'
      rw [hlookup] at hsaved'
      rw [← Option.some.inj hsaved']
      exact hversion
    · rw [hlookup] at hnone
      cases hnone
  · intro h
    refine ⟨?_, fun e db' hcall => getClient_eq_error hcall⟩
    intro hcalm
    obtain ⟨hschema, hversion, hid⟩ := h hcalm
    have hversion := hversion saved hlookup
    refine ⟨saved, _, getClient_eq_ok.mpr (Or.inl ⟨hlookup, hversion, hcalm, hschema, rfl⟩), ?_,
      saved, hlookup, hversion.symm⟩
    exact (touch_eq_reconnect_iff hc hlookup hversion).mpr hid

end

/-- The row of the sample, when the memory holds its id. -/
theorem reconnects_hello :
    Reconnects 1 "2018-02-02" (Sample.hello "m-1") (getAllClients Sample.database).2 := by
  have hstart : getAllClients Sample.database = (.ok true, (getAllClients Sample.database).2) := rfl
  have hcoherent := (getAllClients_coherent rfl (by decide) hstart).1
  refine (reconnects_iff hcoherent (by decide)).mpr fun _ => ⟨by decide, by decide, by decide⟩

/-- A new version of a known machine is not stored. -/
theorem not_reconnects_version :
    ¬ Reconnects 1 "2018-02-02" { Sample.hello "m-1" with osVersion := "11.0" }
      (getAllClients Sample.database).2 := by
  intro h
  obtain ⟨dc, db', hcall, -⟩ := h.returns (by decide)
  rcases getClient_eq_ok.mp hcall with ⟨hdc, hversion, -⟩ | ⟨hnone, -⟩
  · have heq : dc = ofRow Sample.row := Option.some.inj (hdc.symm.trans (by decide))
    rw [heq] at hversion
    exact absurd hversion (by decide)
  · exact absurd hnone (by decide)

end ClientService.Database
