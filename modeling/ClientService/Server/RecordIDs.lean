import ClientService.Server.Session
import ClientService.Service.Records

/-!
# Record ids

A record id starts as a decimal text. `atoi` makes an `int` of it, which becomes a `uint32_t` in
the event and on the wire; the database stores it, and `as<int>` reads it back. The largest one
and one more is the resume point. `atoi` clamps what does not fit in an `int`; after it nothing is
lost.

## Main definitions

* `DecimalRecord`, `DecimalRecord.event` — a record with its id, and the event that arrives for it.
* `insertAll`, `storedIDs` — insertions one after the other, and the ids they store for a client.
* `Resumes` — the promise for a query after them.
-/

namespace ClientService

/-! ## Decimal text -/

theorem isSpace_of_isDigit {c : Char} (h : c.isDigit = true) : isSpace c = false := by
  have hle : '0'.toNat ≤ c.toNat := by
    simp only [Char.isDigit, Bool.and_eq_true, decide_eq_true_eq] at h
    exact UInt32.le_iff_toNat_le.mp h.1
  by_contra hspace
  simp only [Bool.not_eq_false, isSpace, decide_eq_true_eq, List.mem_cons,
    List.not_mem_nil, or_false] at hspace
  rcases hspace with rfl | rfl | rfl | rfl | rfl | rfl <;> revert hle <;> decide

/-- The digits of a number denote it. -/
theorem digits_toDigits (n : ℕ) : digits (Nat.toDigits 10 n) = n := by
  have hall : (Nat.toDigits 10 n).takeWhile Char.isDigit = Nat.toDigits 10 n := by
    rw [List.takeWhile_eq_self_iff]
    intro c hc
    exact Nat.isDigit_of_mem_toDigits (by decide) (by decide) hc
  rw [digits, hall, ← Nat.ofDigitChars_eq_foldl, Nat.ofDigitChars_ten_toDigits]

/-- **`atoi` of a number** is the number, or the largest `int`. -/
theorem atoi_toString (n : ℕ) : atoi (toString n) = Int32.ofNat (min 2147483647 n) := by
  have htext : (toString n).toList = Nat.toDigits 10 n := Nat.toList_repr
  have hdigits := digits_toDigits n
  have hmax : max (-2147483648) (min 2147483647 (n : ℤ)) = ((min 2147483647 n : ℕ) : ℤ) := by
    omega
  rw [atoi, htext]
  cases hn : Nat.toDigits 10 n with
  | nil => exact absurd hn Nat.toDigits_ne_nil
  | cons c cs =>
      have hc : c.isDigit = true := by
        refine Nat.isDigit_of_mem_toDigits (b := 10) (n := n) (by decide) (by decide) ?_
        rw [hn]
        exact List.mem_cons_self
      have hdrop : (c :: cs).dropWhile isSpace = c :: cs := by
        rw [List.dropWhile_cons, isSpace_of_isDigit hc]
        rfl
      rw [hn] at hdigits
      have hminus : c ≠ '-' := by
        rintro rfl
        revert hc
        decide
      have hplus : c ≠ '+' := by
        rintro rfl
        revert hc
        decide
      rw [hdrop]
      split
      · rename_i s heq
        exact absurd (List.cons.inj heq).1 hminus
      · rename_i s heq
        exact absurd (List.cons.inj heq).1 hplus
      · simp only [hdigits, hmax]
        rfl

/-! ## A record -/

/-- A record with its id in decimal. -/
structure DecimalRecord where
  id : ℕ
  x : EventXml
  /-- The text of the element. -/
  text : ∃ system, x.system = some system ∧ system.eventRecordID = some (some (toString id))
  /-- What the event of the loop holds before the record, and after it. -/
  before : Event
  evt : Event
  parsed : parseEventXml before x = some evt
  format : String

/-- The event that the server builds for a record. -/
def DecimalRecord.event (r : DecimalRecord) : Event :=
  CoreMessage.readLog (CoreMessage.addLog { r.evt with format := r.format })

/-- **The id that arrives** is the id of the record, or the largest `int`. -/
theorem DecimalRecord.rid_event (r : DecimalRecord) : r.event.rid.toNat = min 2147483647 r.id := by
  obtain ⟨system, hsystem, htext⟩ := r.text
  have hrid : r.event.rid = (atoi (toString r.id)).toUInt32 := by
    obtain ⟨-, hevt⟩ := parseEventXml_eq_some.mp r.parsed
    have hparsed := rid_parsed hsystem htext r.before
    rwa [← hevt] at hparsed
  have hle : min 2147483647 r.id < 2 ^ 32 := by omega
  rw [hrid, atoi_toString]
  change (UInt32.ofNat (min 2147483647 r.id)).toNat = _
  rw [UInt32.toNat_ofNat', Nat.mod_eq_of_lt hle]

namespace Database

/-! ## Insertions -/

/-- A call of `InsertWindowsEvents`. -/
structure Insertion where
  client : DbClient
  records : List DecimalRecord

def Insertion.evts (i : Insertion) : List Event := i.records.map DecimalRecord.event

/-- Make the calls one after the other. -/
def insertAll : List Insertion → Database → Database
  | [], db => db
  | i :: is, db => insertAll is (insertWindowsEvents i.client i.evts db).2

/-- The ids that the calls store for a client. -/
def storedIDs (c : DbClient) : List Insertion → Database → List ℕ
  | [], _ => []
  | i :: is, db =>
      (if i.client._clientID = c._clientID ∧ Storable i.client i.evts db then
        i.records.map DecimalRecord.id
      else []) ++ storedIDs c is (insertWindowsEvents i.client i.evts db).2

/-- The rows of other clients do not count. -/
theorem recordIDs_addEvents_ne {c c' : DbClient} (h : c'._clientID ≠ c._clientID)
    (evts : List Event) (id : Int32) (w : Tables) :
    recordIDs c._clientID (addEvents (eventRows c'._clientID evts id) w) =
      recordIDs c._clientID w := by
  have hnone : (eventRows c'._clientID evts id).filter (fun r => r.clientID = c._clientID) =
      [] := by
    rw [List.filter_eq_nil_iff]
    intro r hr
    rw [clientID_of_mem_eventRows hr, decide_eq_true_iff]
    exact h
  rw [recordIDs, addEvents_windowsEvents, List.filter_append, hnone, List.append_nil]
  rfl

/-- A call that is not stored leaves the tables as they are. -/
theorem stored_of_not_storable {c : DbClient} {evts : List Event} {db : Database}
    (h : ¬ Storable c evts db) : (insertWindowsEvents c evts db).2.stored = db.stored := by
  cases hopen : db.faults.head?.join with
  | some e =>
      rw [insertWindowsEvents_of_fault hopen]
      rfl
  | none =>
      obtain ⟨db', hstored, ⟨-, heq⟩ | ⟨e, -, heq⟩⟩ := insertWindowsEvents_of_not_storable hopen h
      · rw [heq]
        exact hstored
      · rw [heq]
        exact hstored

/-- **What one call adds** to the ids of a client. -/
theorem recordIDs_insert (c : DbClient) (i : Insertion) (db : Database) :
    recordIDs c._clientID (insertWindowsEvents i.client i.evts db).2.tables =
      recordIDs c._clientID db.tables ++
        (if i.client._clientID = c._clientID ∧ Storable i.client i.evts db then
          i.records.map DecimalRecord.id
        else []).map (min 2147483647) := by
  by_cases hst : Storable i.client i.evts db
  · rw [insertWindowsEvents_of_storable hst]
    by_cases hid : i.client._clientID = c._clientID
    · rw [if_pos ⟨hid, hst⟩, store, hid, recordIDs_addEvents_same, Insertion.evts, List.map_map,
        List.map_map]
      congr 1
      apply List.map_congr_left
      intro r _
      exact r.rid_event
    · rw [if_neg fun h => hid h.1, store, recordIDs_addEvents_ne hid, List.map_nil,
        List.append_nil]
  · have hstored := stored_of_not_storable hst
    have htables : (insertWindowsEvents i.client i.evts db).2.tables = db.tables :=
      congrArg (fun x => x.2.1) hstored
    rw [if_neg fun h => hst h.2, htables, List.map_nil, List.append_nil]

/-- The ids of a client after any calls. -/
theorem recordIDs_insertAll (c : DbClient) (is : List Insertion) (db : Database) :
    recordIDs c._clientID (insertAll is db).tables =
      recordIDs c._clientID db.tables ++ (storedIDs c is db).map (min 2147483647) := by
  induction is generalizing db with
  | nil => simp [insertAll, storedIDs]
  | cons i is ih =>
      rw [insertAll, ih, recordIDs_insert, storedIDs, List.map_append, List.append_assoc]

/-! ## The promise -/

/-- The largest of the ids, and zero when there is none. -/
def Largest (ids : List ℕ) (k : ℕ) : Prop := (∀ i ∈ ids, i ≤ k) ∧ (k = 0 ∨ k ∈ ids)

/-- Unless the database fails, a query is answered with the largest of the ids, and the package
that is written for it has one more. -/
def Resumes (c : DbClient) (ids : List ℕ) (s : Server) : Prop :=
  Calm 2 s.db.faults → ∃ k, Largest ids k ∧
    (∃ n db, getLastEventRecordID c s.db = (.ok n, db) ∧ n.toInt = k) ∧
    ∀ env ret, ret.package = .queryLastEvent → ∃ s' msg lid, Client.handle env ret s = (.ok (), s') ∧
      s'.sent = s.sent ++ [msg] ∧ msg.package = .returnLastEvent lid ∧ lid.toNat = k + 1

theorem Largest.of_le {ids : List ℕ} {n : ℤ} (h0 : 0 ≤ n) (hle : ∀ i ∈ ids, (i : ℤ) ≤ n)
    (hmem : n = 0 ∨ ∃ i ∈ ids, n = i) : Largest ids n.toNat := by
  constructor
  · intro i hi
    have hi := hle i hi
    omega
  · rcases hmem with rfl | ⟨i, hi, rfl⟩
    · exact Or.inl rfl
    · exact Or.inr hi

/-- A non-negative `int` and one more, as a `uint32_t`. -/
theorem toNat_succ_of_toInt {n : Int32} {k : ℕ} (h : n.toInt = k) :
    (n.toUInt32 + 1).toNat = k + 1 := by
  have hlt := Int32.toInt_lt n
  have hn : n = Int32.ofNat k := by
    rw [← Int32.toInt_inj, h, Int32.toInt_ofNat_of_lt (by omega)]
  have huint : n.toUInt32 = UInt32.ofNat k := by
    rw [hn]
    rfl
  rw [huint, UInt32.toNat_add, UInt32.toNat_ofNat']
  change (k % 2 ^ 32 + 1) % 2 ^ 32 = k + 1
  omega

/-- **The resume point is one more than the largest id** exactly when the table has the columns and
every id that is stored fits in an `int`. -/
theorem resumes_iff {c : DbClient} {start : Database} (is : List Insertion) {s : Server}
    (hempty : recordIDs c._clientID start.tables = []) (hdb : s.db = insertAll is start)
    (hc : s.client._client = some c) :
    Resumes c (storedIDs c is start) s ↔ (Calm 2 s.db.faults →
      (EventColumn.eventRecordID ∈ s.db.schema.windowsEvents ∧
        EventColumn.clientID ∈ s.db.schema.windowsEvents) ∧
      ∀ id ∈ storedIDs c is start, id ≤ 2147483647) := by
  have hids : recordIDs c._clientID s.db.tables =
      (storedIDs c is start).map (min 2147483647) := by
    rw [hdb, recordIDs_insertAll, hempty, List.nil_append]
  constructor
  · intro h hcalm
    obtain ⟨k, hlargest, ⟨n, db, hget, hn⟩, -⟩ := h hcalm
    obtain ⟨⟨-, hcolumns, -⟩, -⟩ := getLastEventRecordID_eq_ok hget
    refine ⟨hcolumns, ?_⟩
    intro id hid
    have hle := hlargest.1 id hid
    have hlt := Int32.toInt_lt n
    omega
  · intro h hcalm
    obtain ⟨hcolumns, hle⟩ := h hcalm
    have hsame : (storedIDs c is start).map (min 2147483647) = storedIDs c is start := by
      calc (storedIDs c is start).map (min 2147483647)
          = (storedIDs c is start).map (fun id => id) := by
            apply List.map_congr_left
            intro id hid
            exact min_eq_right (hle id hid)
        _ = storedIDs c is start := List.map_id' _
    rw [hsame] at hids
    have hquery : Queryable c s.db := ⟨hcalm, hcolumns, by rw [hids]; exact hle⟩
    obtain ⟨n, hget⟩ := getLastEventRecordID_of_queryable hquery
    obtain ⟨-, -, h0, hmax, hmem⟩ := getLastEventRecordID_eq_ok hget
    rw [hids] at hmax hmem
    have hn : n.toInt = n.toInt.toNat := (Int.toNat_of_nonneg h0).symm
    refine ⟨n.toInt.toNat, Largest.of_le h0 hmax ?_, ⟨n, _, hget, hn⟩, ?_⟩
    · rcases hmem with rfl | hmem
      · exact Or.inl rfl
      · exact Or.inr hmem
    · intro env ret hret
      exact ⟨_, _, _, Client.handle_query_of_ok hret hc hget, rfl, rfl, toNat_succ_of_toInt hn⟩

/-- A record with its id and nothing else. -/
def plain (id : ℕ) : DecimalRecord where
  id := id
  x := ⟨"<Event/>", some ⟨none, some (toString id), none, none⟩⟩
  text := ⟨_, rfl, rfl⟩
  before := .blank
  evt := { Event.blank with xml := "<Event/>", rid := (atoi (toString id)).toUInt32 }
  parsed := rfl
  format := ""

/-- The sample's client stores one record. -/
def oneRecord (id : ℕ) : List Insertion := [⟨ofRow Sample.row, [plain id]⟩]

/-- A session of the client after that. -/
def afterRecord (id : ℕ) : Server where
  dbConnected := false
  db := insertAll (oneRecord id) Sample.database
  nextID := 0
  client := ⟨some (ofRow Sample.row), 1⟩
  sent := []
  queued := []

theorem resumes_record :
    Resumes (ofRow Sample.row) (storedIDs (ofRow Sample.row) (oneRecord 7) Sample.database)
      (afterRecord 7) := by
  refine (resumes_iff (oneRecord 7) rfl rfl rfl).mpr fun _ => ⟨?_, ?_⟩
  · decide +kernel
  · decide +kernel

/-- A record id of thirty-two bits is not carried. -/
theorem not_resumes_large :
    ¬ Resumes (ofRow Sample.row)
      (storedIDs (ofRow Sample.row) (oneRecord 2147483648) Sample.database)
      (afterRecord 2147483648) := by
  intro h
  have hcalm : Calm 2 (afterRecord 2147483648).db.faults := by decide +kernel
  obtain ⟨k, hlargest, ⟨n, db, -, hn⟩, -⟩ := h hcalm
  have hmem : 2147483648 ∈
      storedIDs (ofRow Sample.row) (oneRecord 2147483648) Sample.database := by decide +kernel
  have hle := hlargest.1 _ hmem
  have hlt := Int32.toInt_lt n
  omega

end Database
end ClientService
