import ClientService.Protobuf.Codec

/-!
# What survives the wire

`toBytes` frames the serialization of `toProto`, and `parseFromArray` applies `BuildObj` to
what it parses. With a serialization that round-trips, what arrives is `BuildObj` of
`toProto`.

The common fields survive, except the operating system, which no encoder writes. A refusal
does not survive: its operation has no number. An event keeps everything but its level,
which three numberings carry from one to the next.

## Main results

* `CoreMessage.roundTrip_iff` — which packages other than logs arrive as they were sent.
* `CoreMessage.log_roundTrip_iff` — which logs do.
-/

namespace ClientService

/-! ## Events -/

namespace Event

/-- The level that an event arrives with: its zero-based number on the wire is read as a
one-based Windows level. -/
def arrivingLLevel : LogLevel → LogLevel
  | .fatal => .verbose
  | .error => .fatal
  | .warning => .error
  | .info => .warning
  | .verbose => .info

theorem dispatchLevel_dispatch (l : LogLevel) :
    dispatchLevel l.dispatch.toUInt32 = arrivingLLevel l := by
  cases l <;> rfl

/-- No level arrives as it was sent. -/
theorem arrivingLLevel_ne (l : LogLevel) : arrivingLLevel l ≠ l := by
  cases l <;> decide

/-- An event arrives with every field but its two levels. -/
theorem readLog_addLog (e : Event) :
    CoreMessage.readLog (CoreMessage.addLog e) =
      { e with llevel := arrivingLLevel e.llevel, level := e.llevel.dispatch.toUInt32 } := by
  simp only [CoreMessage.readLog, CoreMessage.addLog, ofLevel, dispatchLevel_dispatch]

/-- The event arrives as it was sent, with the number of its level. -/
structure SameEvent (e e' : Event) : Prop where
  xml : e'.xml = e.xml
  format : e'.format = e.format
  provider : e'.provider = e.provider
  timeStamp : e'.timeStamp = e.timeStamp
  llevel : e'.llevel = e.llevel
  rid : e'.rid = e.rid
  level : e'.level = dispatchLLevel e.llevel

theorem not_sameEvent (e : Event) :
    ¬SameEvent e (CoreMessage.readLog (CoreMessage.addLog e)) := by
  intro h
  have hl := h.llevel
  rw [readLog_addLog] at hl
  exact arrivingLLevel_ne _ hl

end Event

namespace CoreMessage

/-! ## The wire object -/

section
variable (g : Process) (ts : String) (m : CoreMessage)

@[simp] theorem toProto_id : (m.toProto g ts).2.id = m.id := by
  cases hp : m.package <;> simp [toProto, buildPBObj, hp]

@[simp] theorem toProto_op : (m.toProto g ts).2.op = m.op.dispatch := by
  cases hp : m.package <;> simp [toProto, buildPBObj, hp]

@[simp] theorem toProto_timeStamp :
    (m.toProto g ts).2.timeStamp = if m.timeStamp = "" then ts else m.timeStamp := by
  cases hp : m.package <;> simp [toProto, buildPBObj, hp]

@[simp] theorem toProto_description : (m.toProto g ts).2.description = m.description := by
  cases hp : m.package <;> simp [toProto, buildPBObj, hp]

@[simp] theorem toProto_clientName : (m.toProto g ts).2.clientName = g.myClientName := by
  cases hp : m.package <;> simp [toProto, buildPBObj, hp]

@[simp] theorem toProto_osVersion : (m.toProto g ts).2.osVersion = g.myOsVersion := by
  cases hp : m.package <;> simp [toProto, buildPBObj, hp]

@[simp] theorem toProto_machineID : (m.toProto g ts).2.machineID = g.myMachineID := by
  cases hp : m.package <;> simp [toProto, buildPBObj, hp]

/-- Every encoder leaves the operating system at its default. -/
@[simp] theorem toProto_os : (m.toProto g ts).2.os = Proto.osWindows := by
  cases hp : m.package <;> simp [toProto, buildPBObj, hp, Proto.osWindows]

end

/-- The operation of a refusal is the only one of a package that `BuildObj` does not know. -/
theorem buildable_toProto_iff (g : Process) (ts : String) (m : CoreMessage) :
    Buildable (m.toProto g ts).2 ↔ ∀ r, m.package ≠ .refuse r := by
  rw [Buildable, toProto_op, op]
  cases hp : m.package <;>
    simp [Package.op, Operation.dispatch, Proto.opUpdateLog, Proto.opQueryLastEvent,
      Proto.opReturnLastEvent, Proto.opAcceptLastEvent, Proto.opConnect, Proto.opIntMinSentinel]
  decide

/-- The package that arrives: `BuildObj` allocates an object of the same class, with the
events as they arrive. -/
def arriving : Package → Package
  | .log evts logNeedAccept => .log (evts.map fun e => readLog (addLog e)) logNeedAccept
  | p => p

theorem allocate_toProto (g : Process) (ts : String) {m : CoreMessage}
    (h : ∀ r, m.package ≠ .refuse r) (id : Int32) :
    ∃ msg id', allocate (m.toProto g ts).2 id = some (msg, id') ∧
      msg.package = arriving m.package := by
  cases hp : m.package with
  | refuse r => exact absurd hp (h r)
  | log evts ac =>
      refine ⟨_, _, by simp [allocate, op, hp, Package.op, Operation.dispatch]; rfl, ?_⟩
      simp [toProto, buildPBObj, hp, arriving]
  | connect =>
      refine ⟨(connectPackage id).1, (connectPackage id).2, ?_, rfl⟩
      simp [allocate, op, hp, Package.op, Operation.dispatch, Proto.opUpdateLog,
        Proto.opQueryLastEvent, Proto.opReturnLastEvent, Proto.opAcceptLastEvent, Proto.opConnect]
  | queryLastEvent =>
      refine ⟨(queryLastEventPackage id).1, (queryLastEventPackage id).2, ?_, rfl⟩
      simp [allocate, op, hp, Package.op, Operation.dispatch, Proto.opUpdateLog,
        Proto.opQueryLastEvent]
  | returnLastEvent lEID =>
      refine ⟨(returnLastEventPackage lEID id).1, (returnLastEventPackage lEID id).2, ?_, rfl⟩
      simp [allocate, op, hp, Package.op, Operation.dispatch, Proto.opUpdateLog,
        Proto.opQueryLastEvent, Proto.opReturnLastEvent, toProto, buildPBObj]
  | acceptLastEvent lEID =>
      refine ⟨(acceptLastEventPackage lEID id).1, (acceptLastEventPackage lEID id).2, ?_, rfl⟩
      simp [allocate, op, hp, Package.op, Operation.dispatch, Proto.opUpdateLog,
        Proto.opQueryLastEvent, Proto.opReturnLastEvent, Proto.opAcceptLastEvent, toProto,
        buildPBObj]

/-- What a package says of its sender arrives with it. -/
structure SameFields (g : Process) (ts : String) (m m' : CoreMessage) : Prop where
  id : m.id ≠ -1 → m'.id = m.id
  description : m'.description = m.description
  timeStamp : m'.timeStamp = if m.timeStamp = "" then ts else m.timeStamp
  clientName : m'.clientName = g.myClientName
  osVersion : m'.osVersion = g.myOsVersion
  machineID : m'.machineID = g.myMachineID
  osType : m'.osType = .osWindows

/-- **Decoding an encoded package.** Every package but a refusal arrives, with its fields. -/
theorem buildObj_toProto (asserts : Bool) (g : Process) (ts : String) {m : CoreMessage}
    (h : ∀ r, m.package ≠ .refuse r) (id : Int32) :
    ∃ m' id', buildObj asserts (m.toProto g ts).2 id = .ret (some m', id') ∧
      m'.package = arriving m.package ∧ SameFields g ts m m' := by
  obtain ⟨msg, id₁, halloc, hpackage⟩ := allocate_toProto g ts h id
  refine ⟨(copyFields (m.toProto g ts).2 msg id₁).1, (copyFields (m.toProto g ts).2 msg id₁).2,
    ?_, hpackage, ?_⟩
  · simp only [buildObj, halloc]
  · constructor
    · intro hid
      simp [copyFields, hid]
    all_goals simp [copyFields]

/-! ## The payload -/

section
variable {K : Codec} (hK : ∀ core, K.parseFromArray (K.serializeToArray core).2 = some core)
include hK

theorem parse_serialBuffer (asserts : Bool) (g : Process) (ts : String) (m : CoreMessage)
    (id : Int32) :
    parseFromArray K asserts (m.serialBuffer K g ts) id =
      buildObj asserts (m.toProto g ts).2 id := by
  simp only [parseFromArray, serialBuffer, hK]

/-- A refusal ends the process that parses it, or comes out null. -/
theorem parse_refuse (asserts : Bool) (g : Process) (ts : String) {m : CoreMessage} {r : Int32}
    (h : m.package = .refuse r) (id : Int32) :
    parseFromArray K asserts (m.serialBuffer K g ts) id =
      if asserts then .aborted else .ret (none, id) := by
  rw [parse_serialBuffer hK]
  apply buildObj_of_not_buildable
  rw [buildable_toProto_iff]
  exact fun hr => hr r h

end

/-- The package arrives as it was sent: its class with its own number, its operation, and
the fields, with those of the sender's process. -/
structure SameMessage (g : Process) (m m' : CoreMessage) : Prop where
  package : m'.package = m.package
  op : m'.op = m.op
  id : m'.id = m.id
  description : m'.description = m.description
  timeStamp : m'.timeStamp = m.timeStamp
  clientName : m'.clientName = g.myClientName
  osVersion : m'.osVersion = g.myOsVersion
  machineID : m'.machineID = g.myMachineID
  osType : m'.osType = g.myOsType

theorem arriving_of_not_log {p : Package} (h : ∀ evts ac, p ≠ .log evts ac) : arriving p = p := by
  cases p with
  | log evts ac => exact absurd rfl (h evts ac)
  | _ => rfl

/-- **Round trip of the packages other than logs.** With an id and a time stamp of its own,
a package arrives as it was sent exactly when it is no refusal and its sender runs Windows. -/
theorem roundTrip_iff {K : Codec}
    (hK : ∀ core, K.parseFromArray (K.serializeToArray core).2 = some core) (asserts : Bool)
    (g : Process) (ts : String) {m : CoreMessage} (hlog : ∀ evts ac, m.package ≠ .log evts ac)
    (hid : m.id ≠ -1) (hts : m.timeStamp ≠ "") (id : Int32) :
    (∃ m' id', parseFromArray K asserts (m.serialBuffer K g ts) id = .ret (some m', id') ∧
      SameMessage g m m') ↔ (∀ r, m.package ≠ .refuse r) ∧ g.myOsType = .osWindows := by
  constructor
  · rintro ⟨m', id', hparse, hsame⟩
    have hrefuse : ∀ r, m.package ≠ .refuse r := by
      intro r hr
      rw [parse_refuse hK asserts g ts hr] at hparse
      cases asserts <;> cases hparse
    obtain ⟨m₁, id₁, hbuild, _, hfields⟩ := buildObj_toProto asserts g ts hrefuse id
    rw [parse_serialBuffer hK, hbuild] at hparse
    cases hparse
    exact ⟨hrefuse, hsame.osType.symm.trans hfields.osType⟩
  · rintro ⟨hrefuse, hos⟩
    obtain ⟨m', id', hbuild, hpackage, hfields⟩ := buildObj_toProto asserts g ts hrefuse id
    rw [arriving_of_not_log hlog] at hpackage
    refine ⟨m', id', (parse_serialBuffer hK asserts g ts m id).trans hbuild, ?_⟩
    constructor
    · exact hpackage
    · rw [op, op, hpackage]
    · exact hfields.id hid
    · exact hfields.description
    · rw [hfields.timeStamp, if_neg hts]
    · exact hfields.clientName
    · exact hfields.osVersion
    · exact hfields.machineID
    · rw [hfields.osType, hos]

/-- A connect package from Windows arrives as it was sent. -/
theorem roundTrip_connect :
    ∃ m' id', parseFromArray Sample.codec true
        (({ Sample.connect with timeStamp := Sample.ts } : CoreMessage).serialBuffer Sample.codec
          Sample.process "") 0 = .ret (some m', id') ∧
      SameMessage Sample.process { Sample.connect with timeStamp := Sample.ts } m' :=
  (roundTrip_iff Sample.codec_lawful.parse_serialize true Sample.process ""
    (m := { Sample.connect with timeStamp := Sample.ts }) (by simp [Sample.connect, connectPackage])
    (by decide) (by decide) 0).mpr
      ⟨by simp [Sample.connect, connectPackage], rfl⟩

/-- A connect package from Linux arrives as one from Windows. -/
theorem not_roundTrip_linux :
    ¬∀ (K : Codec), (∀ core, K.parseFromArray (K.serializeToArray core).2 = some core) →
      ∀ (asserts : Bool) (g : Process) (ts : String) (m : CoreMessage),
        (∀ evts ac, m.package ≠ .log evts ac) → m.id ≠ -1 → m.timeStamp ≠ "" → ∀ id,
          ∃ m' id', parseFromArray K asserts (m.serialBuffer K g ts) id = .ret (some m', id') ∧
            SameMessage g m m' := by
  intro h
  obtain ⟨m', id', hparse, hsame⟩ := h Sample.codec Sample.codec_lawful.parse_serialize true
    { Sample.process with myOsType := .osLinux } "" { Sample.connect with timeStamp := Sample.ts }
    (by simp [Sample.connect, connectPackage]) (by decide) (by decide) 0
  obtain ⟨m₁, id₁, hbuild, _, hfields⟩ := buildObj_toProto true
    { Sample.process with myOsType := .osLinux } ""
    (m := { Sample.connect with timeStamp := Sample.ts })
    (by simp [Sample.connect, connectPackage]) 0
  rw [parse_serialBuffer Sample.codec_lawful.parse_serialize, hbuild] at hparse
  cases hparse
  have hos := hsame.osType
  rw [hfields.osType] at hos
  cases hos

/-- The log arrives as it was sent. -/
def SameLog (evts : List Event) (logNeedAccept : Bool) (m' : CoreMessage) : Prop :=
  ∃ evts', m'.package = .log evts' logNeedAccept ∧ List.Forall₂ Event.SameEvent evts evts'

/-- **Round trip of logs.** A log arrives as it was sent exactly when it has no event. -/
theorem log_roundTrip_iff {K : Codec}
    (hK : ∀ core, K.parseFromArray (K.serializeToArray core).2 = some core) (asserts : Bool)
    (g : Process) (ts : String) {m : CoreMessage} {evts : List Event} {logNeedAccept : Bool}
    (hm : m.package = .log evts logNeedAccept) (id : Int32) :
    (∃ m' id', parseFromArray K asserts (m.serialBuffer K g ts) id = .ret (some m', id') ∧
      SameLog evts logNeedAccept m') ↔ evts = [] := by
  have hrefuse : ∀ r, m.package ≠ .refuse r := by
    intro r
    rw [hm]
    simp
  obtain ⟨m₁, id₁, hbuild, hpackage, _⟩ := buildObj_toProto asserts g ts hrefuse id
  rw [parse_serialBuffer hK, hbuild]
  rw [hm, arriving] at hpackage
  constructor
  · rintro ⟨m', id', hret, evts', hlog, hall⟩
    cases hret
    rw [hpackage] at hlog
    cases evts with
    | nil => rfl
    | cons e evts =>
        simp only [Package.log.injEq, and_true] at hlog
        rw [← hlog] at hall
        cases hall with
        | cons he _ => exact absurd he (Event.not_sameEvent e)
  · rintro rfl
    exact ⟨m₁, id₁, rfl, [], hpackage, .nil⟩

/-- A log without events arrives as it was sent. -/
theorem log_roundTrip_empty :
    ∃ m' id', parseFromArray Sample.codec true
        ((logPackage [] true 7).1.serialBuffer Sample.codec Sample.process Sample.ts) 0 =
          .ret (some m', id') ∧ SameLog [] true m' :=
  (log_roundTrip_iff Sample.codec_lawful.parse_serialize true Sample.process Sample.ts
    (m := (logPackage [] true 7).1) rfl 0).mpr rfl

/-- A log of one event of the highest severity arrives with an event of the lowest. -/
theorem not_log_roundTrip :
    ¬∀ (K : Codec), (∀ core, K.parseFromArray (K.serializeToArray core).2 = some core) →
      ∀ (asserts : Bool) (g : Process) (ts : String) (m : CoreMessage) (evts : List Event)
        (logNeedAccept : Bool), m.package = .log evts logNeedAccept → ∀ id,
          ∃ m' id', parseFromArray K asserts (m.serialBuffer K g ts) id = .ret (some m', id') ∧
            SameLog evts logNeedAccept m' := by
  intro h
  obtain ⟨m', id', hparse, evts', hlog, hall⟩ := h Sample.codec
    Sample.codec_lawful.parse_serialize true Sample.process Sample.ts
    (logPackage [Sample.event] false 7).1 [Sample.event] false rfl 0
  obtain ⟨m₁, id₁, hbuild, hpackage, _⟩ := buildObj_toProto true Sample.process Sample.ts
    (m := (logPackage [Sample.event] false 7).1) (fun _ => by simp [logPackage]) 0
  rw [parse_serialBuffer Sample.codec_lawful.parse_serialize, hbuild] at hparse
  cases hparse
  rw [hpackage] at hlog
  simp only [logPackage, arriving, Package.log.injEq, and_true] at hlog
  rw [← hlog] at hall
  cases hall with
  | cons he _ => exact Event.not_sameEvent _ he

end CoreMessage
end ClientService
