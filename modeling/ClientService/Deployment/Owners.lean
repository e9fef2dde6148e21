import ClientService.Server.Events
import ClientService.Lib.Mirror

/-!
# The rows of a machine

A row of `"WindowsEvents"` names a client by its id, and a row of `"Client"` gives the machine
with this id. `storedFor` reads the events of a machine through both tables. It changes with
`InsertWindowsEvents` only, as long as ids and machines are unique and the map knows no machine
that the table does not know.

## Main definitions

* `storedFor` — the record ids that are stored for a machine.
* `Registered` — what the constraints of the tables and the map promise.
* `Carries` — a change that leaves the events alone.
-/

namespace ClientService.Database

open Fallible (Keeps)

/-- The ids of the clients, each with its machine. -/
def keys (w : Tables) : List (Int32 × String) :=
  w.client.map fun r => (r.clientID, r.clientUniqueID)

/-- The record ids of the events of a machine. -/
def storedFor (w : Tables) (M : String) : List ℕ :=
  (w.windowsEvents.filter fun e => (e.clientID, M) ∈ keys w).map EventRow.eventRecordID

/-- Ids and machines are unique, each event has a client, and so has each entry of the map. -/
structure Registered (db : Database) : Prop where
  ids : ((keys db.tables).map Prod.fst).Nodup
  machines : ((keys db.tables).map Prod.snd).Nodup
  events : ∀ e ∈ db.tables.windowsEvents, ∃ M, (e.clientID, M) ∈ keys db.tables
  entries : ∀ M dc, db._clients.lookup M = some dc → (dc._clientID, M) ∈ keys db.tables

section
variable {db db' : Database} {cid : Int32} {M : String}

theorem Registered.machine_unique (h : Registered db) {M' : String} (hk : (cid, M) ∈ keys db.tables)
    (hk' : (cid, M') ∈ keys db.tables) : M = M' :=
  congrArg Prod.snd (List.inj_on_of_nodup_map h.ids hk hk' rfl)

theorem Registered.id_unique (h : Registered db) {cid' : Int32} (hk : (cid, M) ∈ keys db.tables)
    (hk' : (cid', M) ∈ keys db.tables) : cid = cid' :=
  congrArg Prod.fst (List.inj_on_of_nodup_map h.machines hk hk' rfl)

/-- The events of a machine are those of its client. -/
theorem Registered.storedFor_eq (h : Registered db) (hk : (cid, M) ∈ keys db.tables) :
    storedFor db.tables M = recordIDs cid db.tables := by
  refine congrArg (List.map EventRow.eventRecordID) (List.filter_congr ?_)
  intro e _
  refine decide_eq_decide.mpr ⟨fun he => h.id_unique he hk, ?_⟩
  rintro rfl
  exact hk

/-! ## Changes that leave the events alone -/

/-- Clients may have been added. -/
structure Carries (db db' : Database) : Prop where
  registered : Registered db → Registered db'
  keys : keys db.tables <+: keys db'.tables
  events : db'.tables.windowsEvents = db.tables.windowsEvents

theorem Carries.refl (db : Database) : Carries db db := ⟨id, List.prefix_refl _, rfl⟩

theorem carries_of_eq (htables : db'.tables = db.tables) (hclients : db'._clients = db._clients) :
    Carries db db' := by
  refine ⟨fun h => ?_, by rw [htables], by rw [htables]⟩
  constructor
  · rw [htables]
    exact h.ids
  · rw [htables]
    exact h.machines
  · rw [htables]
    exact h.events
  · rw [htables, hclients]
    exact h.entries

theorem carries_of_stored (h : db'.stored = db.stored) : Carries db db' := by
  simp only [stored, Prod.mk.injEq] at h
  exact carries_of_eq h.2.1 h.2.2.2.2

/-- A machine has as many events as before: a new client has none. -/
theorem Carries.storedFor_eq (h : Carries db db') (hr : Registered db) (M : String) :
    storedFor db'.tables M = storedFor db.tables M := by
  rw [storedFor, storedFor, h.events]
  refine congrArg (List.map EventRow.eventRecordID) (List.filter_congr ?_)
  intro e he
  refine decide_eq_decide.mpr ⟨fun hk => ?_, fun hk => h.keys.subset hk⟩
  obtain ⟨M', hk'⟩ := hr.events e he
  rw [(h.registered hr).machine_unique hk (h.keys.subset hk')]
  exact hk'

/-! ## The member functions -/

theorem keys_touch (now : String) (id : Int32) (w : Tables) : keys (touch now id w) = keys w := by
  rw [keys, keys, touch, List.map_map]
  refine List.map_congr_left fun r _ => ?_
  by_cases h : r.clientID = id
  · simp [h]
  · simp [h]

/-- The entries of the map stay right when rows are added. -/
theorem Registered.of_keys (h : Registered db) (hids : ((keys db'.tables).map Prod.fst).Nodup)
    (hmachines : ((keys db'.tables).map Prod.snd).Nodup)
    (hkeys : keys db.tables <+: keys db'.tables)
    (hevents : db'.tables.windowsEvents = db.tables.windowsEvents)
    (hclients : db'._clients = db._clients) : Registered db' where
  ids := hids
  machines := hmachines
  events := by
    intro e he
    rw [hevents] at he
    exact (h.events e he).imp fun M hk => hkeys.subset hk
  entries := by
    intro M dc hdc
    rw [hclients] at hdc
    exact hkeys.subset (h.entries M dc hdc)

/-- **`GetClient` gives a session a client of its machine.** -/
theorem carries_getClient {garbage : Int32} {now : String} {msg : CoreMessage} {dc : DbClient}
    (h : getClient garbage now msg db = (.ok dc, db')) :
    Carries db db' ∧ (Registered db → (dc._clientID, msg.machineID) ∈ keys db'.tables) := by
  rcases getClient_eq_ok.mp h with ⟨hlookup, _, _, _, rfl⟩ | ⟨_, _, _, _, hnew, rfl, rfl⟩
  · have hkeys : keys (touch now garbage db.tables) = keys db.tables := keys_touch _ _ _
    refine ⟨⟨fun hr => hr.of_keys ?_ ?_ ?_ rfl rfl, ?_, rfl⟩, ?_⟩
    · rw [hkeys]
      exact hr.ids
    · rw [hkeys]
      exact hr.machines
    · rw [hkeys]
    · rw [hkeys]
    · intro hr
      rw [hkeys]
      exact hr.entries _ _ hlookup
  · -- A new row has an id and a machine of its own.
    have hid : db.nextClientID ∉ (keys db.tables).map Prod.fst := by
      rw [keys, List.map_map, List.mem_map]
      rintro ⟨r, hr, heq⟩
      exact (hnew r hr).1 heq
    have hmachine : msg.machineID ∉ (keys db.tables).map Prod.snd := by
      rw [keys, List.map_map, List.mem_map]
      rintro ⟨r, hr, heq⟩
      exact (hnew r hr).2 heq
    have hkeys : ∀ r : ClientRow, keys { db.tables with client := db.tables.client ++ [r] } =
        keys db.tables ++ [(r.clientID, r.clientUniqueID)] := fun r => List.map_append
    refine ⟨⟨fun hr => hr.of_keys ?_ ?_ ?_ rfl rfl, ?_, rfl⟩, ?_⟩
    · have hids := hr.ids.concat hid
      rw [List.concat_eq_append] at hids
      rwa [hkeys, List.map_append]
    · have hmachines := hr.machines.concat hmachine
      rw [List.concat_eq_append] at hmachines
      rwa [hkeys, List.map_append]
    · exact ⟨_, (hkeys _).symm⟩
    · exact ⟨_, (hkeys _).symm⟩
    · intro _
      rw [hkeys]
      exact List.mem_append_right _ (List.mem_singleton_self _)

/-- The query changes neither the tables nor the map. -/
theorem keeps_getLastEventRecordID (c : DbClient) :
    Keeps (fun db => (db.tables, db._clients)) (getLastEventRecordID c) := by
  have hstatement : Keeps (fun db : Database => (db.tables, db._clients)) statement := by
    intro db
    rw [statement_eq]
    rfl
  have hwork : Keeps (fun db : Database => (db.tables, db._clients)) work :=
    hstatement.bind fun _ => Fallible.keeps_get.bind fun _ => Fallible.keeps_pure _
  have hloop : ∀ ids ret,
      Keeps (fun db : Database => (db.tables, db._clients)) (lastRecordID ids ret) := by
    intro ids
    induction ids with
    | nil => exact fun ret => Fallible.keeps_pure _
    | cons c ids ih =>
        intro ret
        refine Keeps.bind ?_ fun t => ih _
        rw [asInt]
        split_ifs
        · exact Fallible.keeps_pure _
        · exact Fallible.keeps_throw _
  rw [getLastEventRecordID_eq]
  refine hwork.bind fun w => Keeps.bind ?_ fun ids => hloop ids 0
  refine hstatement.bind fun _ => Fallible.keeps_get.bind fun _ =>
    (Fallible.keeps_require _ _).bind fun _ => Keeps.bind ?_ fun _ => Fallible.keeps_pure _
  intro db
  rfl

theorem carries_getLastEventRecordID (c : DbClient) (db : Database) :
    Carries db (getLastEventRecordID c db).2 := by
  have hkeep := Prod.mk.inj (keeps_getLastEventRecordID c db)
  exact carries_of_eq hkeep.1 hkeep.2

/-- An entry that is loaded belongs to its row. -/
theorem entries_load {rows : List ClientRow} {m : AList fun _ : String => DbClient}
    {ks : List (Int32 × String)} (hnodup : (rows.map ClientRow.clientUniqueID).Nodup)
    (hrows : ∀ r ∈ rows, (r.clientID, r.clientUniqueID) ∈ ks)
    (hm : ∀ M dc, m.lookup M = some dc → (dc._clientID, M) ∈ ks) {M : String} {dc : DbClient}
    (h : (rows.foldl (fun m c => m.insert c.clientUniqueID (ofRow c)) m).lookup M = some dc) :
    (dc._clientID, M) ∈ ks := by
  by_cases hM : M ∈ rows.map ClientRow.clientUniqueID
  · obtain ⟨r, hr, rfl⟩ := List.mem_map.mp hM
    have hlookup : (rows.foldl (fun m c => m.insert c.clientUniqueID (ofRow c)) m).lookup
        r.clientUniqueID = some (ofRow r) := lookup_load_of_mem hnodup hr m
    rw [hlookup] at h
    cases h
    exact hrows r hr
  · have hlookup : (rows.foldl (fun m c => m.insert c.clientUniqueID (ofRow c)) m).lookup M =
        m.lookup M := lookup_load_of_notMem hM m
    rw [hlookup] at h
    exact hm M dc h

/-- Only the last statements of `GetAllClients` write, and they do not throw. -/
theorem getAllClients_eq_error {e : DbException} (h : getAllClients db = (.error e, db')) :
    db'.tables = db.tables ∧ db'._clients = db._clients := by
  rw [getAllClients, Fallible.bind_eq_error] at h
  rcases h with h | ⟨w, db₁, hwork, h⟩
  · have hstored : db'.stored = db.stored := by rw [← keeps_work db, h]
    simp only [stored, Prod.mk.injEq] at hstored
    exact ⟨hstored.2.1, hstored.2.2.2.2⟩
  have hstored : db₁.stored = db.stored := by rw [← keeps_work db, hwork]
  simp only [stored, Prod.mk.injEq] at hstored
  rw [← hstored.2.1, ← hstored.2.2.2.2]
  rw [Fallible.bind_eq_error] at h
  rcases h with h | ⟨rows, db₂, hselect, h⟩
  · rw [selectClients, Fallible.bind_eq_error] at h
    rcases h with h | ⟨_, _, _, h⟩
    · rw [(statement_eq_error.mp h).2]
      exact ⟨rfl, rfl⟩
    · cases h
  obtain ⟨_, _, rfl⟩ := selectClients_eq_ok.mp hselect
  rw [Fallible.bind_eq_error] at h
  rcases h with h | ⟨_, _, _, h⟩
  · have hcommit := commit_eq_error h
    simp only [stored, Prod.mk.injEq] at hcommit
    exact ⟨hcommit.2.1, hcommit.2.2.2.2⟩
  · cases h

theorem carries_getAllClients (db : Database) : Carries db (getAllClients db).2 := by
  rcases h : getAllClients db with ⟨e | b, db'⟩
  · have hkeep := getAllClients_eq_error h
    exact carries_of_eq hkeep.1 hkeep.2
  · obtain ⟨_, rfl, _⟩ := getAllClients_eq_ok.mp h
    refine ⟨fun hr => ⟨hr.ids, hr.machines, hr.events, ?_⟩, List.prefix_refl _, rfl⟩
    intro M dc hdc
    refine entries_load ?_ (fun r hr => List.mem_map_of_mem hr) hr.entries hdc
    have hmachines := hr.machines
    rwa [keys, List.map_map] at hmachines

/-! ## Events that are stored -/

section
variable {c : DbClient} {evts : List Event}

theorem Registered.after_store (h : Registered db) (hk : (c._clientID, M) ∈ keys db.tables) :
    Registered (store c evts db) where
  ids := h.ids
  machines := h.machines
  events := by
    intro e he
    rcases List.mem_append.mp he with he | he
    · exact h.events e he
    · rw [clientID_of_mem_eventRows he]
      exact ⟨M, hk⟩
  entries := h.entries

/-- The events of a package belong to the machine of its session. -/
theorem Registered.storedFor_store (h : Registered db) (hk : (c._clientID, M) ∈ keys db.tables) :
    storedFor (store c evts db).tables M =
      storedFor db.tables M ++ evts.map fun evt => evt.rid.toNat := by
  have hstore : storedFor (store c evts db).tables M =
      recordIDs c._clientID (store c evts db).tables :=
    (h.after_store hk).storedFor_eq hk
  rw [hstore, h.storedFor_eq hk]
  exact recordIDs_addEvents_same c evts db.nextEventID db.tables

theorem Registered.storedFor_store_of_ne (h : Registered db)
    (hk : (c._clientID, M) ∈ keys db.tables) {M' : String} (hne : M' ≠ M) :
    storedFor (store c evts db).tables M' = storedFor db.tables M' := by
  have hnone : (eventRows c._clientID evts db.nextEventID).filter
      (fun e => (e.clientID, M') ∈ keys db.tables) = [] := by
    rw [List.filter_eq_nil_iff]
    intro e he hk'
    rw [clientID_of_mem_eventRows he] at hk'
    exact hne (h.machine_unique (of_decide_eq_true hk') hk)
  change ((db.tables.windowsEvents ++ eventRows c._clientID evts db.nextEventID).filter
    (fun e => (e.clientID, M') ∈ keys db.tables)).map EventRow.eventRecordID = _
  rw [List.filter_append, hnone, List.append_nil]
  rfl

end

end
end ClientService.Database
