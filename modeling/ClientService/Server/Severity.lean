import ClientService.Protobuf.RoundTrip
import ClientService.Server.Events
import ClientService.Service.Enumerate

/-!
# Severities from the event log to the table

The level of a record passes five conversions: `atoi`, `Event::dispatch`, the zero-based number
on the wire, the number `BuildObj` reads back as one-based, and the table of
`dispatchEventSeverity`. Each event is stored one level above its own, and an event of the
highest level gets a severity that the type `"LogSeverity"` does not have.

## Main definitions

* `LogLevel.name` — the name of a level, in the program and in the database.
* `storedSeverity` — the text that a level ends as.
* `SameSeverities` — a batch keeps its levels and the database takes them.
-/

namespace ClientService

/-- The name of the enumerator, which is also a label of `"LogSeverity"`. -/
def LogLevel.name : LogLevel → String
  | .fatal => "fatal"
  | .error => "error"
  | .warning => "warning"
  | .info => "info"
  | .verbose => "verbose"

/-! ## The client -/

/-- A rendered record has an element `<Level>` with a text. -/
def EventXml.HasLevel (x : EventXml) : Prop :=
  ∃ system text, x.system = some system ∧ system.level = some (some text)

/-- The two levels of an event agree. -/
def Event.Levelled (e : Event) : Prop := e.llevel = Event.dispatchLevel e.level

theorem parsed_levelled {x : EventXml} (h : x.HasLevel) (evt : Event) :
    (evt.parsed x).Levelled := by
  obtain ⟨system, text, hsystem, htext⟩ := h
  rw [Event.parsed_of_system hsystem, Event.Levelled, Event.fill, htext]
  rfl

/-- The format of an event does not change its levels. -/
theorem formatEvent_levelled {evt : Event} (h : evt.Levelled) (handle : Handle)
    (map : List String) : (formatEvent evt handle map).1.Levelled := by
  rw [formatEvent_eq]
  exact h

/-- Every record that can be rendered has an element `<Level>`. -/
def AllLevels (hs : List Handle) : Prop := ∀ h ∈ hs, ∀ x ∈ h.printed, x.HasLevel

/-- The events that a batch of records yields, if the process survives it. `e` and `metadata` are
what the variables hold before. -/
def readBatch (ignore : UInt32) (hEvents : List Handle) (e : Event) (metadata : List String) :
    Option (List Event) :=
  (enumerateResults (.returned hEvents) ignore ⟨e, [], metadata, []⟩).map fun r => r.2.sent

theorem readBatch_levelled {hEvents : List Handle} (h : AllLevels hEvents) {ignore : UInt32}
    {e : Event} {metadata : List String} {evts : List Event}
    (hread : readBatch ignore hEvents e metadata = some evts) : ∀ evt ∈ evts, evt.Levelled := by
  obtain ⟨⟨count, s⟩, hrun, rfl⟩ := Option.map_eq_some_iff.mp hread
  obtain ⟨b, henum, -⟩ := enumerateResults_returned_eq_some hrun
  intro evt hevt
  obtain hevt | ⟨handle, hhandle, x, hx, -, evt₀, map, rfl⟩ := henum.mem_sent evt hevt
  · exact nomatch hevt
  · exact formatEvent_levelled (parsed_levelled (h handle hhandle x hx) evt₀) handle map

/-! ## The server -/

/-- The text that `InsertWindowsEvents` passes for an event. -/
def Event.severity (e : Event) : String := Database.dispatchEventSeverity e.level.toInt32

/-- The text that an event of this level is stored with. -/
def storedSeverity : LogLevel → String
  | .fatal => "others"
  | .error => "fatal"
  | .warning => "error"
  | .info => "warning"
  | .verbose => "info"

theorem severity_readLog_addLog (e : Event) :
    (CoreMessage.readLog (CoreMessage.addLog e)).severity = storedSeverity e.llevel := by
  rw [Event.readLog_addLog, Event.severity]
  cases e.llevel <;> rfl

/-- No level keeps its name. -/
theorem storedSeverity_ne (l : LogLevel) : storedSeverity l ≠ l.name := by
  cases l <;> decide

/-- The database takes every level but the highest. -/
theorem storedSeverity_mem_iff (l : LogLevel) :
    storedSeverity l ∈ postgresSql.logSeverity ↔ l ≠ .fatal := by
  cases l <;> decide

/-- The tables take no batch with a severity that the type lacks. -/
theorem Database.severity_mem_of_insertable {S : Schema} {cid id : Int32} {evts : List Event}
    {w : Tables} (h : Database.Insertable S cid evts id w) :
    ∀ e ∈ evts, e.severity ∈ S.logSeverity := by
  induction evts generalizing id w with
  | nil => exact fun _ he => nomatch he
  | cons evt evts ih =>
      intro e he
      rcases List.mem_cons.mp he with rfl | he
      · exact h.1.2.1
      · exact ih h.2 e he

/-- One event of the highest level makes the database reject its batch. -/
theorem Database.not_storable_of_fatal {c : DbClient} {evts : List Event} {db : Database}
    (hschema : db.schema.logSeverity = postgresSql.logSeverity) {e : Event} (he : e ∈ evts)
    (hfatal : e.llevel = .fatal) :
    ¬Database.Storable c (evts.map fun e => CoreMessage.readLog (CoreMessage.addLog e)) db := by
  intro hst
  have hmem := severity_mem_of_insertable hst.2 _ (List.mem_map_of_mem he)
  rw [severity_readLog_addLog, hschema, storedSeverity_mem_iff] at hmem
  exact hmem hfatal

/-! ## The whole way -/

/-- The severities of a batch are the names of its levels, and the database takes them. -/
structure SameSeverities (evts evts' : List Event) : Prop where
  names : evts'.map Event.severity = evts.map fun e => (Event.dispatchLevel e.level).name
  accepted : ∀ e ∈ evts', e.severity ∈ postgresSql.logSeverity

theorem sameSeverities_iff {evts : List Event} (h : ∀ e ∈ evts, e.Levelled) :
    SameSeverities evts (evts.map fun e => CoreMessage.readLog (CoreMessage.addLog e)) ↔
      evts = [] := by
  cases evts with
  | nil => exact iff_of_true ⟨rfl, fun _ he => nomatch he⟩ rfl
  | cons e evts =>
      refine iff_of_false ?_ (by simp)
      intro hsame
      have hnames := hsame.names
      rw [List.map_cons, List.map_cons, List.map_cons, List.cons.injEq,
        severity_readLog_addLog, ← h e List.mem_cons_self] at hnames
      exact storedSeverity_ne _ hnames.1

namespace CoreMessage

/-- The log arrives with the severities it was sent with. -/
def KeepsSeverities (evts : List Event) (logNeedAccept : Bool) (m' : CoreMessage) : Prop :=
  ∃ evts', m'.package = .log evts' logNeedAccept ∧ SameSeverities evts evts'

theorem keepsSeverities_iff_nil {K : Codec}
    (hK : ∀ core, K.parseFromArray (K.serializeToArray core).2 = some core) (asserts : Bool)
    (g : Process) (ts : String) {evts : List Event} (h : ∀ e ∈ evts, e.Levelled)
    (logNeedAccept : Bool) (id id' : Int32) :
    (∃ m' id'', parseFromArray K asserts ((logPackage evts logNeedAccept id).1.serialBuffer K g ts)
        id' = .ret (some m', id'') ∧ KeepsSeverities evts logNeedAccept m') ↔ evts = [] := by
  obtain ⟨m₁, id₁, hbuild, hpackage, _⟩ := buildObj_toProto asserts g ts
    (m := (logPackage evts logNeedAccept id).1) (fun _ heq => nomatch heq) id'
  have hlog : m₁.package = .log (evts.map fun e => readLog (addLog e)) logNeedAccept := hpackage
  rw [parse_serialBuffer hK, hbuild, ← sameSeverities_iff h]
  constructor
  · rintro ⟨m', id'', hret, evts', harrived, hsame⟩
    cases hret
    rw [hlog] at harrived
    cases harrived
    exact hsame
  · intro hsame
    exact ⟨m₁, id₁, rfl, _, hlog, hsame⟩

/-- **When severities survive**: only those of a batch without events do. The batch is what
`EnumerateResults` makes of records that have a level. -/
theorem keepsSeverities_iff {K : Codec}
    (hK : ∀ core, K.parseFromArray (K.serializeToArray core).2 = some core) (asserts : Bool)
    (g : Process) (ts : String) {hEvents : List Handle} (h : AllLevels hEvents) (ignore : UInt32)
    (e : Event) (metadata : List String) (logNeedAccept : Bool) (id id' : Int32) :
    (∃ evts ∈ readBatch ignore hEvents e metadata, ∃ m' id'',
      parseFromArray K asserts ((logPackage evts logNeedAccept id).1.serialBuffer K g ts) id' =
        .ret (some m', id'') ∧ KeepsSeverities evts logNeedAccept m') ↔
      readBatch ignore hEvents e metadata = some [] := by
  constructor
  · rintro ⟨evts, hread, hkeeps⟩
    have hnil := (keepsSeverities_iff_nil hK asserts g ts (readBatch_levelled h hread)
      logNeedAccept id id').mp hkeeps
    rw [← hnil]
    exact hread
  · intro hread
    refine ⟨[], hread, ?_⟩
    exact (keepsSeverities_iff_nil hK asserts g ts (readBatch_levelled h hread)
      logNeedAccept id id').mpr rfl

end CoreMessage

namespace Sample

/-- A record of level 1 with the record id 3. -/
def record : Handle where
  printed := some ⟨"<Event/>", some ⟨some "1", some "3", none, none⟩⟩
  published := false
  message := .notFound

theorem allLevels_record : AllLevels [record] := by
  intro h hmem x hx
  cases List.mem_singleton.mp hmem
  cases hx
  exact ⟨_, _, rfl, rfl⟩

end Sample

namespace CoreMessage

/-- A record below the resume point leaves the batch empty. -/
theorem keepsSeverities_skipped :
    ∃ evts ∈ readBatch 5 [Sample.record] Sample.event [], ∃ m' id'',
      parseFromArray Sample.codec true ((logPackage evts false 7).1.serialBuffer Sample.codec
        Sample.process Sample.ts) 0 = .ret (some m', id'') ∧ KeepsSeverities evts false m' :=
  (keepsSeverities_iff Sample.codec_lawful.parse_serialize true Sample.process Sample.ts
    Sample.allLevels_record 5 Sample.event [] false 7 0).mpr (by decide)

/-- The severity of a record of level 1 is none that the database knows. -/
theorem not_keepsSeverities_record :
    ¬∃ evts ∈ readBatch 0 [Sample.record] Sample.event [], ∃ m' id'',
      parseFromArray Sample.codec true ((logPackage evts false 7).1.serialBuffer Sample.codec
        Sample.process Sample.ts) 0 = .ret (some m', id'') ∧ KeepsSeverities evts false m' := by
  rintro ⟨evts, hread, hkeeps⟩
  have hnil := (keepsSeverities_iff_nil Sample.codec_lawful.parse_serialize true Sample.process
    Sample.ts (readBatch_levelled Sample.allLevels_record hread) false 7 0).mp hkeeps
  rw [hnil] at hread
  exact absurd hread (by decide)

end CoreMessage
end ClientService
