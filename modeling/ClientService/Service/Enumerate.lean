import ClientService.Protobuf.Message

/-!
# `EnumerateResults`

The function that takes a batch of records from the subscription. `EvtNext` yields handles;
each is rendered as XML, parsed, and appended to the batch when its record id is not below
`ignore`. One `Event` is used for all records: a field whose element is missing keeps the value
it had.

The result mixes a count with a status. When `EvtNext` fails it is the error code, and when a
record cannot be rendered it is `ERROR_SUCCESS`. An element without a text ends the process: null
is passed to `atoi` or to a constructor of `std::string`.

## Main definitions

* `EventXml`, `Handle`, `EvtNext` — what the Windows API yields.
* `parseEventXml`, `formatEvent`, `enumerateResults` — the functions.
* `Enumerated` — what the loop does.
-/

namespace ClientService

/-! ## Records -/

/-- The elements that `ParseEventXml` looks for below `<System>`, and their texts: an element that
is there may be without one. -/
structure SystemElement where
  level : Option (Option String)
  eventRecordID : Option (Option String)
  /-- The attribute `Name` of `<Provider>`. -/
  provider : Option (Option String)
  /-- The attribute `SystemTime` of `<TimeCreated>`. -/
  timeCreated : Option (Option String)
  deriving DecidableEq, Repr

/-- A record, rendered. -/
structure EventXml where
  xml : String
  system : Option SystemElement
  deriving DecidableEq, Repr

/-- The end of the first call of `EvtFormatMessage`, which has no buffer. -/
inductive FormatMessage where
  | success
  /-- The second call fills a buffer with the text. -/
  | insufficientBuffer (text : String)
  | notFound
  | failed
  deriving DecidableEq, Repr

/-- A handle of a record. -/
structure Handle where
  /-- What `PrintEvent` returns. -/
  printed : Option EventXml
  /-- `EvtOpenPublisherMetadata` succeeds for its provider. -/
  published : Bool
  message : FormatMessage
  deriving DecidableEq, Repr

/-- The end of `EvtNext`. -/
inductive EvtNext where
  | failed (lastError : UInt32)
  | returned (hEvents : List Handle)
  deriving DecidableEq, Repr

def errorSuccess : UInt32 := 0
def errorNoMoreItems : UInt32 := 259

/-! ## One record -/

/-- `isspace`. -/
def isSpace (c : Char) : Bool :=
  c ∈ [' ', '\t', '\n', Char.ofNat 11, Char.ofNat 12, '\r']

/-- The number that a run of digits denotes. -/
def digits (s : List Char) : ℕ :=
  (s.takeWhile Char.isDigit).foldl (fun n c => 10 * n + (c.toNat - '0'.toNat)) 0

/-- `atoi`: blanks, a sign, digits. What does not fit is clamped. -/
def atoi (s : String) : Int32 :=
  let n : ℤ :=
    match s.toList.dropWhile isSpace with
    | '-' :: s => -(digits s)
    | '+' :: s => digits s
    | s => digits s
  Int32.ofInt (max (-2147483648) (min 2147483647 n))

/-- Read the text of an element into the event, if the element is there. Its text may be null. -/
def readElement (element : Option (Option String)) (assign : String → Event → Event)
    (evt : Event) : Option Event :=
  match element with
  | some text => text.map fun text => assign text evt
  | none => some evt

/-- `ParseEventXml`. There is no result when null is used as a text. -/
def parseEventXml (evt : Event) (x : EventXml) : Option Event :=
  let evt := { evt with xml := x.xml }
  match x.system with
  | none => some evt
  | some system => do
      let evt ← readElement system.level (fun text evt =>
        let level := (atoi text).toUInt32
        { evt with level := level, llevel := Event.dispatchLevel level }) evt
      let evt ← readElement system.eventRecordID (fun text evt =>
        { evt with rid := (atoi text).toUInt32 }) evt
      let evt ← readElement system.provider (fun name evt => { evt with provider := name }) evt
      readElement system.timeCreated (fun systemTime evt =>
        { evt with timeStamp := systemTime }) evt

/-- `GetMessageString` never returns a text: after the second call it returns null. -/
def getMessageString : FormatMessage → Option String
  | .success => none
  | .insufficientBuffer _ => none
  | .notFound => none
  | .failed => none

/-- `FormatEvent`, and the providers whose metadata is open afterwards. -/
def formatEvent (evt : Event) (h : Handle) (map : List String) : Event × List String :=
  if evt.provider ∈ map then
    ({ evt with format := (getMessageString h.message).getD evt.xml }, map)
  else if h.published then
    ({ evt with format := (getMessageString h.message).getD evt.xml }, map ++ [evt.provider])
  else ({ evt with format := "" }, map)

/-- What `std::move` leaves of an event. -/
def Event.moved (evt : Event) : Event :=
  { evt with xml := "", format := "", timeStamp := "", provider := "" }

/-! ## The batch -/

/-- The variables of `EnumerateResults`. -/
structure Enumeration where
  e : Event
  sent : List Event
  /-- The map of `GetMetadataMap`. -/
  metadata : List String
  /-- The handles given to `EvtClose`, by their index. -/
  closed : List ℕ
  deriving DecidableEq, Repr

/-- What the body of the loop does with the event of a record. -/
def addRecord (ignore : UInt32) (h : Handle) (i : ℕ) (e : Event) (s : Enumeration) :
    Enumeration :=
  if ignore ≤ e.rid then
    let (e, metadata) := formatEvent e h s.metadata
    { e := e.moved, sent := s.sent ++ [e], metadata := metadata, closed := s.closed ++ [i] }
  else { s with e := e, closed := s.closed ++ [i] }

/-- The body of the loop, for a record that is rendered. -/
def enumerateRecord (ignore : UInt32) (h : Handle) (i : ℕ) (x : EventXml) (s : Enumeration) :
    Option Enumeration :=
  (parseEventXml s.e x).map fun e => addRecord ignore h i e s

/-- The loop from index `i` on; whether it comes to its end. -/
def enumerateLoop (ignore : UInt32) :
    List Handle → ℕ → Enumeration → Option (Bool × Enumeration)
  | [], _, s => some (true, s)
  | h :: hs, i, s =>
      match h.printed with
      | some x => (enumerateRecord ignore h i x s).bind (enumerateLoop ignore hs (i + 1))
      -- `cleanup` closes this handle and those behind it.
      | none => some (false, { s with closed := s.closed ++ List.range' i (hs.length + 1) })

/-- `EnumerateResults`: its result, and its variables at the end. -/
def enumerateResults (next : EvtNext) (ignore : UInt32) (s : Enumeration) :
    Option (Int32 × Enumeration) :=
  match next with
  | .failed lastError => some (lastError.toInt32, s)
  | .returned hEvents =>
      (enumerateLoop ignore hEvents 0 s).map fun
        | (true, s) => (Int32.ofNat hEvents.length, s)
        | (false, s) => (errorSuccess.toInt32, s)

/-- `FormatEvent` writes one field. -/
theorem formatEvent_eq (evt : Event) (h : Handle) (map : List String) :
    (formatEvent evt h map).1 = { evt with format := (formatEvent evt h map).1.format } := by
  rw [formatEvent]
  split_ifs <;> rfl

/-! ## What `ParseEventXml` leaves -/

/-- No element is without its text. -/
def SystemElement.Readable (system : SystemElement) : Prop :=
  system.level ≠ some none ∧ system.eventRecordID ≠ some none ∧
    system.provider ≠ some none ∧ system.timeCreated ≠ some none

instance (system : SystemElement) : Decidable system.Readable :=
  inferInstanceAs (Decidable (_ ∧ _ ∧ _ ∧ _))

def EventXml.Readable (x : EventXml) : Prop := ∀ system ∈ x.system, system.Readable

instance (x : EventXml) : Decidable x.Readable := inferInstanceAs (Decidable (∀ _ ∈ x.system, _))

/-- The texts of the elements, and what was there before where an element is missing. -/
def Event.fill (evt : Event) (xml : String) (system : SystemElement) : Event where
  xml := xml
  format := evt.format
  timeStamp := system.timeCreated.join.getD evt.timeStamp
  provider := system.provider.join.getD evt.provider
  llevel := (system.level.join.map fun text => Event.dispatchLevel (atoi text).toUInt32).getD
    evt.llevel
  level := (system.level.join.map fun text => (atoi text).toUInt32).getD evt.level
  rid := (system.eventRecordID.join.map fun text => (atoi text).toUInt32).getD evt.rid

/-- What `ParseEventXml` leaves of a record that can be read. -/
def Event.parsed (evt : Event) (x : EventXml) : Event :=
  match x.system with
  | none => { evt with xml := x.xml }
  | some system => evt.fill x.xml system

section
variable {ignore : UInt32} {x : EventXml} {system : SystemElement} {evt e : Event}

theorem Event.parsed_of_system (h : x.system = some system) (evt : Event) :
    evt.parsed x = evt.fill x.xml system := by
  rw [Event.parsed, h]

@[simp] theorem Event.parsed_xml (evt : Event) (x : EventXml) : (evt.parsed x).xml = x.xml := by
  rw [Event.parsed]
  cases x.system with
  | none => rfl
  | some system => rfl

theorem readElement_eq (element : Option (Option String)) (assign : String → Event → Event)
    (evt : Event) : readElement element assign evt = if element = some none then none
      else some ((element.join.map fun text => assign text evt).getD evt) := by
  rcases element with _ | _ | text <;> rfl

/-- **`ParseEventXml` returns** when the record can be read, with what its elements say. -/
theorem parseEventXml_eq (evt : Event) (x : EventXml) :
    parseEventXml evt x = if x.Readable then some (evt.parsed x) else none := by
  obtain ⟨xml, _ | system⟩ := x
  · simp [parseEventXml, EventXml.Readable, Event.parsed]
  · have hreadable : (⟨xml, some system⟩ : EventXml).Readable ↔ system.Readable := by
      simp [EventXml.Readable]
    simp only [parseEventXml, readElement_eq, hreadable, SystemElement.Readable, Event.parsed,
      Option.bind_eq_bind]
    by_cases hlevel : system.level = some none
    · simp [hlevel]
    by_cases hid : system.eventRecordID = some none
    · simp [hlevel, hid]
    by_cases hprovider : system.provider = some none
    · simp [hlevel, hid, hprovider]
    by_cases htime : system.timeCreated = some none
    · simp [hlevel, hid, hprovider, htime]
    simp only [hlevel, hid, hprovider, htime, if_false, Option.bind_some, ne_eq, not_false_eq_true,
      and_self, if_true, Event.fill]
    cases system.level.join <;> cases system.eventRecordID.join <;> cases system.provider.join <;>
      cases system.timeCreated.join <;> rfl

theorem parseEventXml_eq_some : parseEventXml evt x = some e ↔ x.Readable ∧ e = evt.parsed x := by
  rw [parseEventXml_eq, Option.ite_none_right_eq_some, Option.some.injEq, eq_comm (a := e)]

end

/-! ## What the loop does -/

/-- A run of the loop that returns. -/
inductive Enumerated (ignore : UInt32) :
    List Handle → ℕ → Enumeration → Bool → Enumeration → Prop
  | done (i : ℕ) (s : Enumeration) : Enumerated ignore [] i s true s
  | stopped {h : Handle} (hs : List Handle) (i : ℕ) (s : Enumeration)
      (hprinted : h.printed = none) :
      Enumerated ignore (h :: hs) i s false
        { s with closed := s.closed ++ List.range' i (hs.length + 1) }
  | record {h : Handle} {hs : List Handle} {i : ℕ} {x : EventXml} {s s' : Enumeration} {b : Bool}
      (hprinted : h.printed = some x) (hreadable : x.Readable)
      (hrest : Enumerated ignore hs (i + 1) (addRecord ignore h i (s.e.parsed x) s) b s') :
      Enumerated ignore (h :: hs) i s b s'

section
variable {ignore : UInt32} {hs : List Handle} {i : ℕ} {s s' : Enumeration} {b : Bool}
  {count : Int32}

theorem enumerateRecord_eq_some {h : Handle} {x : EventXml} :
    enumerateRecord ignore h i x s = some s' ↔
      x.Readable ∧ s' = addRecord ignore h i (s.e.parsed x) s := by
  rw [enumerateRecord, parseEventXml_eq]
  by_cases hreadable : x.Readable
  · simp [hreadable, eq_comm]
  · simp [hreadable]

theorem enumerateLoop_cons {h : Handle} {x : EventXml} (hprinted : h.printed = some x)
    (hreadable : x.Readable) : enumerateLoop ignore (h :: hs) i s =
      enumerateLoop ignore hs (i + 1) (addRecord ignore h i (s.e.parsed x) s) := by
  have hrecord : enumerateRecord ignore h i x s = some (addRecord ignore h i (s.e.parsed x) s) :=
    enumerateRecord_eq_some.mpr ⟨hreadable, rfl⟩
  simp only [enumerateLoop, hprinted, hrecord, Option.bind_some]

theorem enumerateLoop_spec (hrun : enumerateLoop ignore hs i s = some (b, s')) :
    Enumerated ignore hs i s b s' := by
  induction hs generalizing i s with
  | nil =>
      cases hrun
      exact .done i _
  | cons h hs ih =>
      rw [enumerateLoop] at hrun
      cases hprinted : h.printed with
      | none =>
          rw [hprinted] at hrun
          cases hrun
          exact .stopped hs i s hprinted
      | some x =>
          rw [hprinted] at hrun
          obtain ⟨s₁, hrecord, hrest⟩ := Option.bind_eq_some_iff.mp hrun
          obtain ⟨hreadable, rfl⟩ := enumerateRecord_eq_some.mp hrecord
          exact .record hprinted hreadable (ih hrest)

/-- The loop returns when the records can be read that it comes to. -/
theorem enumerateLoop_isSome (hreadable : ∀ h ∈ hs, ∀ x ∈ h.printed, x.Readable) :
    (enumerateLoop ignore hs i s).isSome = true := by
  induction hs generalizing i s with
  | nil => rfl
  | cons h hs ih =>
      cases hprinted : h.printed with
      | none => simp [enumerateLoop, hprinted]
      | some x =>
          rw [enumerateLoop_cons hprinted (hreadable h List.mem_cons_self x hprinted)]
          exact ih fun h' hh' => hreadable h' (List.mem_cons_of_mem _ hh')

/-- A loop that returns has read the records of a batch that is rendered. -/
theorem Enumerated.readable (h : Enumerated ignore hs i s b s')
    (hrendered : ∀ h ∈ hs, h.printed.isSome = true) :
    ∀ h ∈ hs, ∃ x, h.printed = some x ∧ x.Readable := by
  induction h with
  | done => simp
  | @stopped h hs i s hprinted =>
      have hsome := hrendered h List.mem_cons_self
      rw [hprinted] at hsome
      cases hsome
  | @record h hs i x s s' b hprinted hreadable hrest ih =>
      intro h' hh'
      obtain rfl | hh' := List.mem_cons.mp hh'
      · exact ⟨x, hprinted, hreadable⟩
      · exact ih (fun h hh => hrendered h (List.mem_cons_of_mem _ hh)) h' hh'

/-- The loop comes to its end when every record is rendered. -/
theorem Enumerated.all (h : Enumerated ignore hs i s b s') :
    b = hs.all fun h => h.printed.isSome := by
  induction h with
  | done => rfl
  | stopped hs i s hprinted => simp [hprinted]
  | record hprinted hreadable hrest ih => simp [hprinted, ih]

/-- Each event that is appended is read from a record of the batch. -/
theorem Enumerated.mem_sent (h : Enumerated ignore hs i s b s') :
    ∀ e ∈ s'.sent, e ∈ s.sent ∨ ∃ h ∈ hs, ∃ x ∈ h.printed, x.Readable ∧
      ∃ (evt : Event) (map : List String), e = (formatEvent (evt.parsed x) h map).1 := by
  induction h with
  | done => exact fun e he => Or.inl he
  | stopped => exact fun e he => Or.inl he
  | @record h hs i x s s' b hprinted hreadable hrest ih =>
      intro e he
      obtain he | ⟨h', hh', hread⟩ := ih e he
      · rw [addRecord] at he
        by_cases hle : ignore ≤ (s.e.parsed x).rid
        · rw [if_pos hle, List.mem_append, List.mem_singleton] at he
          obtain he | rfl := he
          · exact Or.inl he
          · exact Or.inr ⟨h, List.mem_cons_self, x, hprinted, hreadable, _, _, rfl⟩
        · rw [if_neg hle] at he
          exact Or.inl he
      · exact Or.inr ⟨h', List.mem_cons_of_mem _ hh', hread⟩

/-- **Each handle is closed once**, by the loop or by what is behind it. -/
theorem Enumerated.closed_eq (h : Enumerated ignore hs i s b s') :
    s'.closed = s.closed ++ List.range' i hs.length := by
  induction h with
  | done => simp
  | stopped => rfl
  | @record h hs i x s s' b hprinted hreadable hrest ih =>
      have hrecord : (addRecord ignore h i (s.e.parsed x) s).closed = s.closed ++ [i] := by
        rw [addRecord]
        by_cases hle : ignore ≤ (s.e.parsed x).rid
        · simp only [if_pos hle]
        · simp only [if_neg hle]
      rw [ih, hrecord, List.length_cons, List.range'_succ, List.append_assoc,
        List.singleton_append]

theorem enumerateResults_returned_eq_some
    (hrun : enumerateResults (.returned hs) ignore s = some (count, s')) :
    ∃ b, Enumerated ignore hs 0 s b s' ∧ count = if b then Int32.ofNat hs.length else 0 := by
  obtain ⟨⟨b, t⟩, hloop, heq⟩ := Option.map_eq_some_iff.mp hrun
  refine ⟨b, ?_⟩
  cases b with
  | false =>
      cases heq
      exact ⟨enumerateLoop_spec hloop, rfl⟩
  | true =>
      cases heq
      exact ⟨enumerateLoop_spec hloop, rfl⟩

/-- **The result of a batch** is its size, or zero when a record cannot be rendered. -/
theorem count_of_returned
    (hrun : enumerateResults (.returned hs) ignore s = some (count, s')) :
    count = if hs.all fun h => h.printed.isSome then Int32.ofNat hs.length else 0 := by
  obtain ⟨b, henum, hcount⟩ := enumerateResults_returned_eq_some hrun
  rw [hcount, henum.all]

end
end ClientService
