import ClientService.Server.Database

/-!
# What `InsertWindowsEvents` and `GetLastEventRecordID` do

`InsertWindowsEvents` ends in one of three ways. The transaction cannot be opened, and the
exception leaves the function. Every event is storable, and the rows are committed. Or some
statement throws: nothing is stored, an `sql_error` is swallowed, and any other exception
leaves the function.

## Main definitions

* `eventRows`, `Insertable` — the rows of a package, and whether the tables take them.
-/

namespace ClientService.Database

open Fallible (Keeps within attempt)

/-! ## One event -/

/-- The columns that `insertEvent` fills. -/
def insertEventColumns : List EventColumn :=
  [.clientID, .eventSeverity, .eventTimestamp, .eventScope, .eventMessage, .eventRecordID]

/-- The row of an event. -/
def eventRow (cid id : Int32) (evt : Event) : EventRow where
  eventID := id
  clientID := cid
  eventSeverity := dispatchEventSeverity evt.level.toInt32
  eventTimestamp := evt.timeStamp
  eventScope := evt.provider
  eventMessage := evt.format
  eventRecordID := evt.rid.toNat

/-- Add rows to `"WindowsEvents"`. -/
def addEvents (rows : List EventRow) (w : Tables) : Tables :=
  { w with windowsEvents := w.windowsEvents ++ rows }

section
variable (rows rows' : List EventRow) (w : Tables)

@[simp] theorem addEvents_client : (addEvents rows w).client = w.client := rfl
@[simp] theorem addEvents_windowsEvents :
    (addEvents rows w).windowsEvents = w.windowsEvents ++ rows := rfl

@[simp] theorem addEvents_nil : addEvents [] w = w := by
  rw [addEvents, List.append_nil]

theorem addEvents_addEvents : addEvents rows' (addEvents rows w) = addEvents (rows ++ rows') w := by
  simp only [addEvents, List.append_assoc]

end

/-- The table takes the event under the next id of the sequence. -/
def InsertableEvent (S : Schema) (cid id : Int32) (evt : Event) (w : Tables) : Prop :=
  (∀ c ∈ insertEventColumns, c ∈ S.windowsEvents) ∧
    dispatchEventSeverity evt.level.toInt32 ∈ S.logSeverity ∧ evt.rid.toNat ≤ S.recordIDMax ∧
    (∀ r ∈ w.windowsEvents, r.eventID ≠ id) ∧ ∃ r ∈ w.client, r.clientID = cid

instance (S : Schema) (cid id : Int32) (evt : Event) (w : Tables) :
    Decidable (InsertableEvent S cid id evt w) := by
  unfold InsertableEvent
  infer_instance

theorem insertEvent_eq_ok {w : Tables} {cid : Int32} {evt : Event} {x : Int32 × Tables}
    {db db' : Database} :
    insertEvent w cid (dispatchEventSeverity evt.level.toInt32) evt.timeStamp evt.provider
        evt.format evt.rid db = (.ok x, db') ↔
      db.faults.head?.join = none ∧ InsertableEvent db.schema cid db.nextEventID evt w ∧
        x = (db.nextEventID, addEvents [eventRow cid db.nextEventID evt] w) ∧
        db' = { db.next with nextEventID := db.nextEventID + 1 } := by
  simp only [insertEvent, statement_bind_eq_ok, Fallible.get_bind, Fallible.require_bind_eq_ok,
    Fallible.modify_bind, Fallible.pure_eq_ok]
  simp only [InsertableEvent, and_assoc]
  rfl

theorem keeps_insertEvent (w : Tables) (cid : Int32) (severity timeStamp provider format : String)
    (rid : UInt32) : Keeps stored (insertEvent w cid severity timeStamp provider format rid) := by
  refine keeps_statement.bind fun _ => Fallible.keeps_get.bind fun _ =>
    (Fallible.keeps_require _ _).bind fun _ => (Fallible.keeps_require _ _).bind fun _ =>
    (Fallible.keeps_require _ _).bind fun _ => Keeps.bind ?_ fun _ =>
    (Fallible.keeps_require _ _).bind fun _ => (Fallible.keeps_require _ _).bind fun _ =>
    Fallible.keeps_pure _
  intro db
  rfl

/-- Unless the environment makes the statement throw, it throws `sql_error`. -/
theorem insertEvent_eq_error {w : Tables} {cid : Int32}
    {severity timeStamp provider format : String} {rid : UInt32} {e : DbException}
    {db db' : Database}
    (h : insertEvent w cid severity timeStamp provider format rid db = (.error e, db')) :
    db.faults.head?.join = some e ∨ db.faults.head?.join = none ∧ e = .sqlError := by
  rw [insertEvent, Fallible.bind_eq_error] at h
  rcases h with h | ⟨_, db₁, hs, h⟩
  · exact Or.inl (statement_eq_error.mp h).1
  · refine Or.inr ⟨(statement_eq_ok.mp hs).1, ?_⟩
    rw [Fallible.get_bind] at h
    rcases Fallible.require_bind_eq_error h with he | h
    · exact he
    rcases Fallible.require_bind_eq_error h with he | h
    · exact he
    rcases Fallible.require_bind_eq_error h with he | h
    · exact he
    rw [Fallible.modify_bind] at h
    rcases Fallible.require_bind_eq_error h with he | h
    · exact he
    rcases Fallible.require_bind_eq_error h with he | h
    · exact he
    · exact nomatch h

/-! ## The loop -/

/-- The rows of the events, numbered from `id` on. -/
def eventRows (cid : Int32) : List Event → Int32 → List EventRow
  | [], _ => []
  | evt :: evts, id => eventRow cid id evt :: eventRows cid evts (id + 1)

theorem map_eventRecordID_eventRows (cid : Int32) (evts : List Event) (id : Int32) :
    (eventRows cid evts id).map EventRow.eventRecordID = evts.map fun evt => evt.rid.toNat := by
  induction evts generalizing id with
  | nil => rfl
  | cons evt evts ih =>
      rw [eventRows, List.map_cons, List.map_cons, ih]
      rfl

theorem clientID_of_mem_eventRows {cid : Int32} {evts : List Event} {id : Int32} {r : EventRow}
    (hr : r ∈ eventRows cid evts id) : r.clientID = cid := by
  induction evts generalizing id with
  | nil => cases hr
  | cons evt evts ih =>
      rcases List.mem_cons.mp hr with rfl | hr
      · rfl
      · exact ih hr

/-- The tables take the events one after the other. -/
def Insertable (S : Schema) (cid : Int32) : List Event → Int32 → Tables → Prop
  | [], _, _ => True
  | evt :: evts, id, w => InsertableEvent S cid id evt w ∧
      Insertable S cid evts (id + 1) (addEvents [eventRow cid id evt] w)

instance decidableInsertable (S : Schema) (cid : Int32) :
    ∀ evts id w, Decidable (Insertable S cid evts id w)
  | [], _, _ => isTrue trivial
  | evt :: evts, id, w =>
      have := decidableInsertable S cid evts (id + 1) (addEvents [eventRow cid id evt] w)
      inferInstanceAs (Decidable (_ ∧ _))

/-- The loop never inserts XML and never counts: `insE` is empty when its size is tested. -/
theorem insertEvents_cons (cid : Int32) (evt : Event) (evts : List Event) (w : Tables) :
    insertEvents cid (evt :: evts) w =
      (do let (_, w) ← within (insertEvent w cid (dispatchEventSeverity evt.level.toInt32)
            evt.timeStamp evt.provider evt.format evt.rid)
          insertEvents cid evts w) := rfl

theorem insertEvents_eq_ok {cid : Int32} {evts : List Event} {w w' : Tables} {n n' : ℕ}
    {db db' : Database} :
    insertEvents cid evts w (n, db) = (.ok w', (n', db')) ↔
      Calm evts.length db.faults ∧ Insertable db.schema cid evts db.nextEventID w ∧
        w' = addEvents (eventRows cid evts db.nextEventID) w ∧ n' = n ∧
        db' = { db with nextEventID := db.nextEventID + Int32.ofNat evts.length,
                        faults := db.faults.drop evts.length } := by
  induction evts generalizing w db with
  | nil =>
      simp only [insertEvents, Fallible.pure_eq_ok, Prod.mk.injEq, List.length_nil, Calm,
        Insertable, eventRows, addEvents_nil, true_and]
      have hnil : db.nextEventID + Int32.ofNat 0 = db.nextEventID := by
        rw [show Int32.ofNat 0 = 0 from rfl, Int32.add_zero]
      rw [hnil, List.drop_zero]
  | cons evt evts ih =>
      have hid : db.nextEventID + 1 + Int32.ofNat evts.length =
          db.nextEventID + Int32.ofNat (evts.length + 1) := by
        rw [Int32.ofNat_add, Int32.add_assoc, Int32.add_comm (Int32.ofNat evts.length)]
        rfl
      have hdrop : db.faults.drop (evts.length + 1) = db.faults.tail.drop evts.length := by
        rw [← List.drop_one, List.drop_drop, Nat.add_comm]
      rw [insertEvents_cons, Fallible.within_bind_eq_ok, List.length_cons, hdrop, ← hid]
      simp only [insertEvent_eq_ok, ih, Calm, Insertable, eventRows]
      constructor
      · rintro ⟨_, _, ⟨h, hevt, rfl, rfl⟩, hcalm, hrest, rfl, rfl, rfl⟩
        exact ⟨⟨h, hcalm⟩, ⟨hevt, hrest⟩, addEvents_addEvents _ _ _, rfl, rfl⟩
      · rintro ⟨⟨h, hcalm⟩, ⟨hevt, hrest⟩, rfl, rfl, rfl⟩
        exact ⟨_, _, ⟨h, hevt, rfl, rfl⟩, hcalm, hrest, by rw [addEvents_addEvents]; rfl, rfl, rfl⟩

theorem keeps_insertEvents (cid : Int32) (evts : List Event) (w : Tables) :
    Keeps (fun s => (s.1, s.2.stored)) (insertEvents cid evts w) := by
  induction evts generalizing w with
  | nil => exact Fallible.keeps_pure _
  | cons evt evts ih =>
      rw [insertEvents_cons]
      exact (keeps_insertEvent _ _ _ _ _ _ _).within.bind fun _ => ih _

/-! ## The transaction -/

/-- Every statement of the package goes through. -/
def Storable (c : DbClient) (evts : List Event) (db : Database) : Prop :=
  Calm (evts.length + 2) db.faults ∧
    Insertable db.schema c._clientID evts db.nextEventID db.tables

instance (c : DbClient) (evts : List Event) (db : Database) : Decidable (Storable c evts db) :=
  inferInstanceAs (Decidable (_ ∧ _))

/-- The database after the rows of a package are committed. -/
def store (c : DbClient) (evts : List Event) (db : Database) : Database :=
  { db with tables := addEvents (eventRows c._clientID evts db.nextEventID) db.tables
            nextEventID := db.nextEventID + Int32.ofNat evts.length
            faults := db.faults.drop (evts.length + 2)
            commits := db.commits + 1 }

/-- The `try` block of `InsertWindowsEvents`. -/
def batch (c : DbClient) (evts : List Event) (w : Tables) :
    Fallible (ℕ × Database) DbException Unit := do
  let w ← insertEvents c._clientID evts w
  within (commit w)

theorem batch_eq_ok {c : DbClient} {evts : List Event} {w : Tables} {n n' : ℕ}
    {db db' : Database} :
    batch c evts w (n, db) = (.ok (), (n', db')) ↔
      Calm (evts.length + 1) db.faults ∧
        Insertable db.schema c._clientID evts db.nextEventID w ∧ n' = n ∧
        db' = { db with tables := addEvents (eventRows c._clientID evts db.nextEventID) w
                        nextEventID := db.nextEventID + Int32.ofNat evts.length
                        faults := db.faults.drop (evts.length + 1)
                        commits := db.commits + 1 } := by
  rw [batch, Fallible.bind_eq_ok, calm_add]
  constructor
  · rintro ⟨_, ⟨n₁, db₁⟩, hloop, hcommit⟩
    obtain ⟨hcalm, hins, rfl, rfl, rfl⟩ := insertEvents_eq_ok.mp hloop
    rw [Fallible.within_apply, Prod.mk.injEq, Prod.mk.injEq] at hcommit
    obtain ⟨hok, rfl, rfl⟩ := hcommit
    obtain ⟨hlast, heq⟩ := commit_eq_ok.mp (Prod.ext hok rfl)
    refine ⟨⟨hcalm, hlast, trivial⟩, hins, rfl, heq.trans ?_⟩
    rw [← List.drop_drop, List.drop_one]
    rfl
  · rintro ⟨⟨hcalm, hlast, _⟩, hins, rfl, rfl⟩
    refine ⟨_, (n', _), insertEvents_eq_ok.mpr ⟨hcalm, hins, rfl, rfl, rfl⟩, ?_⟩
    rw [Fallible.within_apply, commit_eq_ok.mpr ⟨hlast, rfl⟩, ← List.drop_drop, List.drop_one]
    rfl

theorem batch_eq_error {c : DbClient} {evts : List Event} {w : Tables} {n n' : ℕ}
    {db db' : Database} {e : DbException}
    (h : batch c evts w (n, db) = (.error e, (n', db'))) :
    n' = n ∧ db'.stored = db.stored := by
  rw [batch, Fallible.bind_eq_error] at h
  rcases h with h | ⟨w', ⟨n₁, db₁⟩, hloop, h⟩
  · have hkeep := keeps_insertEvents c._clientID evts w (n, db)
    rw [h] at hkeep
    exact ⟨congrArg Prod.fst hkeep, congrArg Prod.snd hkeep⟩
  · have hkeep := keeps_insertEvents c._clientID evts w (n, db)
    rw [hloop] at hkeep
    rw [Fallible.within_apply, Prod.mk.injEq, Prod.mk.injEq] at h
    obtain ⟨herr, rfl, rfl⟩ := h
    refine ⟨congrArg Prod.fst hkeep, ?_⟩
    rw [commit_eq_error (Prod.ext herr rfl)]
    exact congrArg Prod.snd hkeep

theorem batch_cons (c : DbClient) (evt : Event) (evts : List Event) (w : Tables) :
    batch c (evt :: evts) w =
      (do let (_, w) ← within (insertEvent w c._clientID
            (dispatchEventSeverity evt.level.toInt32) evt.timeStamp evt.provider evt.format evt.rid)
          batch c evts w) := by
  rw [batch, insertEvents_cons, Fallible.bind_assoc]
  rfl

/-- The first exception of the `try` block. -/
def batchFailure (S : Schema) (cid : Int32) :
    List Event → Int32 → Tables → List (Option DbException) → Option DbException
  | [], _, _, faults => faults.head?.join
  | evt :: evts, id, w, faults =>
      match faults.head?.join with
      | some e => some e
      | none =>
          if InsertableEvent S cid id evt w then
            batchFailure S cid evts (id + 1) (addEvents [eventRow cid id evt] w) faults.tail
          else some .sqlError

theorem batch_throws {c : DbClient} {evts : List Event} {w : Tables} {n : ℕ} {db : Database}
    {s : ℕ × Database} {e : DbException} (h : batch c evts w (n, db) = (.error e, s)) :
    batchFailure db.schema c._clientID evts db.nextEventID w db.faults = some e := by
  induction evts generalizing w db with
  | nil =>
      have h : within (commit w) (n, db) = (.error e, s) := h
      rw [Fallible.within_apply] at h
      have hcommit : commit w db = (.error e, (commit w db).2) :=
        Prod.ext (congrArg (fun x => x.1) h) rfl
      rw [commit, Fallible.bind_eq_error] at hcommit
      rcases hcommit with hcommit | ⟨_, _, _, hcommit⟩
      · exact (statement_eq_error.mp hcommit).1
      · cases hcommit
  | cons evt evts ih =>
      rw [batch_cons, Fallible.bind_eq_error] at h
      rw [batchFailure]
      rcases hevt : insertEvent w c._clientID (dispatchEventSeverity evt.level.toInt32)
          evt.timeStamp evt.provider evt.format evt.rid db with ⟨e' | x, db₁⟩
      · rw [Fallible.within_apply, hevt] at h
        have he : e' = e := by
          rcases h with h | ⟨_, _, h, _⟩
          · exact Except.error.inj (congrArg Prod.fst h)
          · cases h
        rw [he] at hevt
        rcases insertEvent_eq_error hevt with hf | ⟨hf, rfl⟩
        · rw [hf]
        · rw [hf]
          refine if_neg fun hins => ?_
          have hok := insertEvent_eq_ok.mpr ⟨hf, hins, rfl, rfl⟩
          rw [hevt] at hok
          cases hok
      · obtain ⟨hf, hins, rfl, rfl⟩ := insertEvent_eq_ok.mp hevt
        rw [hf]
        have hrest := h.resolve_left (by rw [Fallible.within_apply, hevt]; simp)
        obtain ⟨a, s₁, hx, hrest⟩ := hrest
        rw [Fallible.within_apply, hevt] at hx
        cases hx
        exact (if_pos hins).trans (ih hrest)

/-- The first exception of a package: of its `BEGIN`, of an event, or of the commit. -/
def failure (c : DbClient) (evts : List Event) (db : Database) : Option DbException :=
  match db.faults.head?.join with
  | some e => some e
  | none => batchFailure db.schema c._clientID evts db.nextEventID db.tables db.faults.tail

/-- The transaction cannot be opened: the exception leaves the function. -/
theorem insertWindowsEvents_of_fault {c : DbClient} {evts : List Event} {db : Database}
    {e : DbException} (h : db.faults.head?.join = some e) :
    insertWindowsEvents c evts db = (.error e, db.next) := by
  rw [insertWindowsEvents]
  refine Fallible.bind_of_error ?_ _
  exact Fallible.bind_of_error (statement_eq_error.mpr ⟨h, rfl⟩) _

theorem insertWindowsEvents_of_open {c : DbClient} {evts : List Event} {db : Database}
    (h : db.faults.head?.join = none) :
    insertWindowsEvents c evts db =
      (match attempt (batch c evts db.tables)
          (fun e => if e = .sqlError then some (pure ()) else none) (0, db.next) with
        | (.ok (), inserted, db) => (.ok inserted, db)
        | (.error e, _, db) => (.error e, db)) := by
  have hwork : work db = (.ok db.tables, db.next) :=
    Fallible.bind_of_ok (statement_of_calm h) _
  exact Fallible.bind_of_ok hwork _

/-- Every statement goes through: the rows are committed. -/
theorem insertWindowsEvents_of_storable {c : DbClient} {evts : List Event} {db : Database}
    (h : Storable c evts db) : insertWindowsEvents c evts db = (.ok 0, store c evts db) := by
  obtain ⟨hcalm, hins⟩ := h
  have hok : batch c evts db.tables (0, db.next) = (.ok (), (0, store c evts db)) := by
    have hdrop : db.faults.drop (evts.length + 2) = db.faults.tail.drop (evts.length + 1) := by
      rw [← List.drop_one, List.drop_drop, Nat.add_left_comm]
    refine batch_eq_ok.mpr ⟨hcalm.2, hins, rfl, ?_⟩
    rw [store, hdrop]
    rfl
  rw [insertWindowsEvents_of_open hcalm.1, Fallible.attempt_of_ok hok]

/-- Otherwise nothing is stored. An `sql_error` is swallowed, any other exception is not. -/
theorem insertWindowsEvents_of_not_storable {c : DbClient} {evts : List Event} {db : Database}
    (hopen : db.faults.head?.join = none) (h : ¬Storable c evts db) :
    ∃ db', db'.stored = db.stored ∧
      ((failure c evts db = some .sqlError ∧ insertWindowsEvents c evts db = (.ok 0, db')) ∨
        ∃ e, e ≠ .sqlError ∧ insertWindowsEvents c evts db = (.error e, db')) := by
  rw [insertWindowsEvents_of_open hopen]
  rcases htrans : batch c evts db.tables (0, db.next) with ⟨r, n, db'⟩
  cases r with
  | ok u =>
      exfalso
      obtain ⟨hcalm, hins, _⟩ := batch_eq_ok.mp htrans
      exact h ⟨⟨hopen, hcalm⟩, hins⟩
  | error e =>
      obtain ⟨rfl, hstored⟩ := batch_eq_error htrans
      refine ⟨db', hstored, ?_⟩
      by_cases he : e = .sqlError
      · left
        refine ⟨?_, ?_⟩
        · rw [failure, hopen, ← he]
          exact batch_throws htrans
        · rw [Fallible.attempt_of_caught htrans (if_pos he)]
          rfl
      · right
        refine ⟨e, he, ?_⟩
        rw [Fallible.attempt_of_uncaught htrans (if_neg he)]

/-- **The three ends of `InsertWindowsEvents`.** -/
theorem insertWindowsEvents_cases (c : DbClient) (evts : List Event) (db : Database) :
    (insertWindowsEvents c evts db = (.ok 0, store c evts db)) ∨
    ∃ db', db'.stored = db.stored ∧
      ((failure c evts db = some .sqlError ∧ (insertWindowsEvents c evts db = (.ok 0, db') ∨
          insertWindowsEvents c evts db = (.error .sqlError, db'))) ∨
        ∃ e, e ≠ .sqlError ∧ insertWindowsEvents c evts db = (.error e, db')) := by
  cases hf : db.faults.head?.join with
  | some e =>
      refine Or.inr ⟨db.next, rfl, ?_⟩
      by_cases he : e = .sqlError
      · left
        refine ⟨by rw [failure, hf, he], Or.inr ?_⟩
        rw [insertWindowsEvents_of_fault hf, he]
      · exact Or.inr ⟨e, he, insertWindowsEvents_of_fault hf⟩
  | none =>
      by_cases hst : Storable c evts db
      · exact Or.inl (insertWindowsEvents_of_storable hst)
      · obtain ⟨db', hstored, ⟨hfail, hok⟩ | herr⟩ := insertWindowsEvents_of_not_storable hf hst
        · exact Or.inr ⟨db', hstored, Or.inl ⟨hfail, Or.inl hok⟩⟩
        · exact Or.inr ⟨db', hstored, Or.inr herr⟩

/-! ## The query -/

/-- The record ids of the rows of a client. -/
def recordIDs (cid : Int32) (w : Tables) : List ℕ :=
  (w.windowsEvents.filter fun r => r.clientID = cid).map EventRow.eventRecordID

theorem recordIDs_addEvents_same (c : DbClient) (evts : List Event) (id : Int32) (w : Tables) :
    recordIDs c._clientID (addEvents (eventRows c._clientID evts id) w) =
      recordIDs c._clientID w ++ evts.map fun evt => evt.rid.toNat := by
  have hall : (eventRows c._clientID evts id).filter (fun r => r.clientID = c._clientID) =
      eventRows c._clientID evts id := by
    rw [List.filter_eq_self]
    intro r hr
    exact decide_eq_true (clientID_of_mem_eventRows hr)
  rw [recordIDs, addEvents_windowsEvents, List.filter_append, hall, List.map_append,
    map_eventRecordID_eventRows]
  rfl

/-- The record ids can be read as `int`, and nothing throws. -/
def Queryable (c : DbClient) (db : Database) : Prop :=
  Calm 2 db.faults ∧
    (EventColumn.eventRecordID ∈ db.schema.windowsEvents ∧
      EventColumn.clientID ∈ db.schema.windowsEvents) ∧
    ∀ n ∈ recordIDs c._clientID db.tables, n ≤ 2147483647

instance (c : DbClient) (db : Database) : Decidable (Queryable c db) := by
  unfold Queryable
  infer_instance

theorem toInt_ofNat_of_le {n : ℕ} (h : n ≤ 2147483647) : (Int32.ofNat n).toInt = n := by
  rw [Int32.toInt_ofNat_of_lt]
  omega

theorem asInt_eq_ok {i : ℕ} {t : Int32} {db db' : Database} :
    asInt i db = (.ok t, db') ↔ i ≤ 2147483647 ∧ t = Int32.ofNat i ∧ db' = db := by
  by_cases h : i ≤ 2147483647
  · rw [asInt, if_pos h, Fallible.pure_eq_ok]
    simp [h]
  · rw [asInt, if_neg h, Fallible.throw_eq_ok]
    simp [h]

/-- The loop ends with the largest of the ids, or with the initial value. -/
theorem lastRecordID_eq_ok {ids : List ℕ} {ret n : Int32} {db db' : Database}
    (h : lastRecordID ids ret db = (.ok n, db')) :
    (∀ i ∈ ids, i ≤ 2147483647) ∧ db' = db ∧ ret.toInt ≤ n.toInt ∧
      (∀ i ∈ ids, (i : ℤ) ≤ n.toInt) ∧ (n = ret ∨ ∃ i ∈ ids, n.toInt = i) := by
  induction ids generalizing ret with
  | nil =>
      obtain ⟨rfl, rfl⟩ := Fallible.pure_eq_ok.mp h
      simp
  | cons i ids ih =>
      rw [lastRecordID, Fallible.bind_eq_ok] at h
      obtain ⟨t, db₁, hi, h⟩ := h
      obtain ⟨hle, rfl, rfl⟩ := asInt_eq_ok.mp hi
      obtain ⟨hall, rfl, hret, hmax, hmem⟩ := ih h
      have hint := toInt_ofNat_of_le hle
      by_cases hgt : Int32.ofNat i > ret
      · rw [if_pos hgt] at hret hmem
        have hlt : ret.toInt < (Int32.ofNat i).toInt := Int32.lt_iff_toInt_lt.mp hgt
        refine ⟨List.forall_mem_cons.mpr ⟨hle, hall⟩, rfl, by omega,
          List.forall_mem_cons.mpr ⟨by omega, hmax⟩, Or.inr ?_⟩
        rcases hmem with rfl | ⟨j, hj, heq⟩
        · exact ⟨i, List.mem_cons_self, hint⟩
        · exact ⟨j, List.mem_cons_of_mem _ hj, heq⟩
      · rw [if_neg hgt] at hret hmem
        have hnlt : ¬ret.toInt < (Int32.ofNat i).toInt := fun hlt =>
          hgt (Int32.lt_iff_toInt_lt.mpr hlt)
        refine ⟨List.forall_mem_cons.mpr ⟨hle, hall⟩, rfl, hret,
          List.forall_mem_cons.mpr ⟨by omega, hmax⟩, ?_⟩
        rcases hmem with rfl | ⟨j, hj, heq⟩
        · exact Or.inl rfl
        · exact Or.inr ⟨j, List.mem_cons_of_mem _ hj, heq⟩

theorem lastRecordID_of_le {ids : List ℕ} (h : ∀ i ∈ ids, i ≤ 2147483647) (ret : Int32)
    (db : Database) : ∃ n, lastRecordID ids ret db = (.ok n, db) := by
  induction ids generalizing ret with
  | nil => exact ⟨ret, rfl⟩
  | cons i ids ih =>
      have hi : asInt i db = (.ok (Int32.ofNat i), db) :=
        asInt_eq_ok.mpr ⟨h i List.mem_cons_self, rfl, rfl⟩
      rw [lastRecordID, Fallible.bind_of_ok hi]
      exact ih (fun j hj => h j (List.mem_cons_of_mem _ hj)) _

theorem selectRecordIDs_eq_ok {w : Tables} {cid : Int32} {ids : List ℕ} {db db' : Database} :
    selectRecordIDs w cid db = (.ok ids, db') ↔ db.faults.head?.join = none ∧
      (EventColumn.eventRecordID ∈ db.schema.windowsEvents ∧
        EventColumn.clientID ∈ db.schema.windowsEvents) ∧
      ids = recordIDs cid w ∧ db' = { db.next with answers := db.answers + 1 } := by
  simp only [selectRecordIDs, statement_bind_eq_ok, Fallible.get_bind, Fallible.require_bind_eq_ok,
    Fallible.modify_bind, Fallible.pure_eq_ok]
  rfl

/-- The database after an answered query. -/
def answer (db : Database) : Database :=
  { db with faults := db.faults.drop 2, answers := db.answers + 1 }

/-- The empty table is no special case. -/
theorem getLastEventRecordID_eq (c : DbClient) : getLastEventRecordID c =
    (do let w ← work; let ids ← selectRecordIDs w c._clientID; lastRecordID ids 0) := by
  have hnil : ∀ ids : List ℕ,
      (if ids.length = 0 then pure 0 else lastRecordID ids 0) = lastRecordID ids 0 := by
    intro ids
    cases ids with
    | nil => rfl
    | cons i ids => rw [if_neg (by simp)]
  rw [getLastEventRecordID]
  simp only [hnil]

/-- **What `GetLastEventRecordID` returns**: zero, or the largest id stored for the client. -/
theorem getLastEventRecordID_eq_ok {c : DbClient} {n : Int32} {db db' : Database}
    (h : getLastEventRecordID c db = (.ok n, db')) :
    Queryable c db ∧ db' = answer db ∧ 0 ≤ n.toInt ∧
      (∀ i ∈ recordIDs c._clientID db.tables, (i : ℤ) ≤ n.toInt) ∧
      (n = 0 ∨ ∃ i ∈ recordIDs c._clientID db.tables, n.toInt = i) := by
  rw [getLastEventRecordID_eq, work_bind_eq_ok, Fallible.bind_eq_ok] at h
  obtain ⟨hwork, ids, db₁, hselect, h⟩ := h
  obtain ⟨hexec, hcols, rfl, rfl⟩ := selectRecordIDs_eq_ok.mp hselect
  obtain ⟨hall, rfl, hret, hmax, hmem⟩ := lastRecordID_eq_ok h
  refine ⟨⟨⟨hwork, hexec, trivial⟩, hcols, hall⟩, ?_, hret, hmax, hmem⟩
  have hdrop : db.faults.drop 2 = db.faults.tail.tail := by
    rw [← List.drop_one, ← List.drop_one, List.drop_drop]
  rw [answer, hdrop]
  rfl

/-- When nothing throws, the query is answered. -/
theorem getLastEventRecordID_of_queryable {c : DbClient} {db : Database} (h : Queryable c db) :
    ∃ n, getLastEventRecordID c db = (.ok n, answer db) := by
  obtain ⟨⟨hwork, hexec, _⟩, hcols, hall⟩ := h
  have hselect : selectRecordIDs db.tables c._clientID db.next =
      (.ok (recordIDs c._clientID db.tables), { db.next.next with answers := db.answers + 1 }) :=
    selectRecordIDs_eq_ok.mpr ⟨hexec, hcols, rfl, rfl⟩
  obtain ⟨n, hn⟩ := lastRecordID_of_le hall 0 { db.next.next with answers := db.answers + 1 }
  have hok : getLastEventRecordID c db =
      (.ok n, { db.next.next with answers := db.answers + 1 }) := by
    rw [getLastEventRecordID_eq, work_bind_eq_ok, Fallible.bind_of_ok hselect]
    exact ⟨hwork, hn⟩
  have hdb := (getLastEventRecordID_eq_ok hok).2.1
  exact ⟨n, by rw [hok, hdb]⟩

end ClientService.Database
