import ClientService.Server.Events
import ClientService.Protobuf.Codec

/-!
# `InsertWindowsEvents` as a transaction

The caller of `InsertWindowsEvents` may hope for one of two ends: every event has its row and its
XML and the number of events is returned, or the database is as it was and zero is returned.

The first end is out of reach: the result of `insertEvent` is cleared before its size is tested,
so there is no XML, and the counter stays at zero. The second end is missed when something other
than an `sql_error` is thrown, or when the transaction cannot be opened.

## Main definitions

* `StoredAs`, `xmlRows` — the rows an event should lead to.
* `AllOrNothing` — the two ends.
-/

namespace ClientService.Database

/-! ## The failing step -/

/-- A batch that goes through has no first exception. -/
theorem batchFailure_of_calm {S : Schema} {cid id : Int32} {evts : List Event} {w : Tables}
    {faults : List (Option DbException)} (hcalm : Calm (evts.length + 1) faults)
    (hins : Insertable S cid evts id w) : batchFailure S cid evts id w faults = none := by
  induction evts generalizing id w faults with
  | nil => exact hcalm.1
  | cons evt evts ih =>
      rw [batchFailure, hcalm.1]
      exact (if_pos hins.1).trans (ih hcalm.2 hins.2)

theorem failure_of_storable {c : DbClient} {evts : List Event} {db : Database}
    (h : Storable c evts db) : failure c evts db = none := by
  rw [failure, h.1.1]
  exact batchFailure_of_calm h.1.2 h.2

/-- The `catch` clause takes an `sql_error` and returns the counter. -/
theorem insertWindowsEvents_of_batch_error {c : DbClient} {evts : List Event} {n : ℕ}
    {db db' : Database} {e : DbException} (hopen : db.faults.head?.join = none)
    (h : batch c evts db.tables (0, db.next) = (.error e, (n, db'))) :
    insertWindowsEvents c evts db = (if e = .sqlError then .ok n else .error e, db') := by
  rw [insertWindowsEvents_of_open hopen]
  by_cases he : e = .sqlError
  · rw [Fallible.attempt_of_caught h (if_pos he), if_pos he]
    rfl
  · rw [Fallible.attempt_of_uncaught h (if_neg he), if_neg he]

/-- **A batch that fails leaves the database as it was.** What the caller learns depends on the
first exception. -/
theorem insertWindowsEvents_of_failure {c : DbClient} {evts : List Event} {db : Database}
    (hopen : db.faults.head?.join = none) (h : ¬Storable c evts db) :
    ∃ e db', failure c evts db = some e ∧ db'.stored = db.stored ∧
      insertWindowsEvents c evts db = (if e = .sqlError then .ok 0 else .error e, db') := by
  rcases hbatch : batch c evts db.tables (0, db.next) with ⟨e | u, n, db'⟩
  · obtain ⟨rfl, hstored⟩ := batch_eq_error hbatch
    refine ⟨e, db', ?_, hstored, insertWindowsEvents_of_batch_error hopen hbatch⟩
    rw [failure, hopen]
    exact batch_throws hbatch
  · obtain ⟨hcalm, hins, _⟩ := batch_eq_ok.mp hbatch
    exact absurd ⟨⟨hopen, hcalm⟩, hins⟩ h

/-! ## The two ends -/

/-- The row holds the fields of the event. -/
structure StoredAs (cid : Int32) (evt : Event) (r : EventRow) : Prop where
  clientID : r.clientID = cid
  eventSeverity : r.eventSeverity = dispatchEventSeverity evt.level.toInt32
  eventTimestamp : r.eventTimestamp = evt.timeStamp
  eventScope : r.eventScope = evt.provider
  eventMessage : r.eventMessage = evt.format
  eventRecordID : r.eventRecordID = evt.rid.toNat

/-- The XML of each event, under the id of its row. -/
def xmlRows (evts : List Event) (rows : List EventRow) : List XmlRow :=
  List.zipWith (fun evt r => ⟨r.eventID, evt.xml⟩) evts rows

/-- Everything is committed, and the result is the number of events. -/
structure StoredAll (c : DbClient) (evts : List Event) (db : Database)
    (x : Except DbException ℕ × Database) : Prop where
  result : x.1 = .ok evts.length
  commits : x.2.commits = db.commits + 1
  tables : ∃ rows, List.Forall₂ (StoredAs c._clientID) evts rows ∧ x.2.tables =
    { client := db.tables.client
      windowsEvents := db.tables.windowsEvents ++ rows
      windowsEventXML := db.tables.windowsEventXML ++ xmlRows evts rows }

/-- Nothing is committed, and the result is zero. -/
structure StoredNothing (db : Database) (x : Except DbException ℕ × Database) : Prop where
  result : x.1 = .ok 0
  commits : x.2.commits = db.commits
  tables : x.2.tables = db.tables

/-- `InsertWindowsEvents` ends in one of two ways. -/
def AllOrNothing (c : DbClient) (evts : List Event) (db : Database) : Prop :=
  StoredAll c evts db (insertWindowsEvents c evts db) ∨
    StoredNothing db (insertWindowsEvents c evts db)

/-- A batch that goes through is reported as empty, so it had better be. -/
theorem allOrNothing_of_storable {c : DbClient} {evts : List Event} {db : Database}
    (h : Storable c evts db) : AllOrNothing c evts db ↔ evts = [] := by
  rw [AllOrNothing, insertWindowsEvents_of_storable h]
  constructor
  · rintro (hall | hnone)
    · have hlength : 0 = evts.length := Except.ok.inj hall.result
      exact List.length_eq_zero_iff.mp hlength.symm
    · have hcommits : db.commits + 1 = db.commits := hnone.commits
      omega
  · rintro rfl
    refine Or.inl ⟨rfl, rfl, [], .nil, ?_⟩
    simp [store, eventRows, xmlRows]

/-- A batch that fails is reported as such when an `sql_error` is what fails it. -/
theorem allOrNothing_of_failure {c : DbClient} {evts : List Event} {db : Database}
    (hopen : db.faults.head?.join = none) (h : ¬Storable c evts db) :
    AllOrNothing c evts db ↔ failure c evts db = some .sqlError := by
  obtain ⟨e, db', hfailure, hstored, heq⟩ := insertWindowsEvents_of_failure hopen h
  simp only [stored, Prod.mk.injEq] at hstored
  rw [AllOrNothing, heq, hfailure]
  by_cases he : e = .sqlError
  · rw [if_pos he]
    refine iff_of_true (Or.inr ⟨rfl, hstored.2.2.1, hstored.2.1⟩) ?_
    rw [he]
  · rw [if_neg he]
    refine iff_of_false ?_ (by simpa using he)
    rintro (hall | hnone)
    · exact nomatch hall.result
    · exact nomatch hnone.result

/-- **When `InsertWindowsEvents` is all-or-nothing.** Either the list is empty and its
transaction is opened and committed, or the transaction is opened and the first exception in it
is an `sql_error`. -/
theorem allOrNothing_iff (c : DbClient) (evts : List Event) (db : Database) :
    AllOrNothing c evts db ↔ (evts = [] ∧ Calm 2 db.faults) ∨
      (db.faults.head?.join = none ∧ failure c evts db = some .sqlError) := by
  by_cases hst : Storable c evts db
  · rw [allOrNothing_of_storable hst, failure_of_storable hst]
    constructor
    · rintro rfl
      exact Or.inl ⟨rfl, hst.1⟩
    · rintro (⟨hnil, _⟩ | ⟨_, hfailure⟩)
      · exact hnil
      · exact nomatch hfailure
  · have hnil : ¬(evts = [] ∧ Calm 2 db.faults) := by
      rintro ⟨rfl, hcalm⟩
      exact hst ⟨hcalm, trivial⟩
    cases hf : db.faults.head?.join with
    | none =>
        rw [allOrNothing_of_failure hf hst]
        simp [hnil]
    | some e =>
        refine iff_of_false ?_ (by simp [hnil])
        rw [AllOrNothing, insertWindowsEvents_of_fault hf]
        rintro (hall | hnone)
        · exact nomatch hall.result
        · exact nomatch hnone.result

/-- An event is stored without its XML, and zero is returned. -/
theorem not_allOrNothing_event :
    ¬AllOrNothing (ofRow Sample.row) [Sample.event] Sample.database := by
  intro h
  have hst : Storable (ofRow Sample.row) [Sample.event] Sample.database := by decide
  exact nomatch (allOrNothing_of_storable hst).mp h

end ClientService.Database
