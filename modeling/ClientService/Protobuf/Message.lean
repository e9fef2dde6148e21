import ClientService.Lib.Outcome

/-!
# Packages and their protobuf image

The classes below `protobuf::CoreMessage`, the generated protobuf classes they are
sent as, and the two translations between them: `CoreMessage.toProto` is the part of
`toBytes` that fills the wire object, `CoreMessage.buildObj` is `BuildObj`.

A package is a record of the common fields together with its class. The operation
is a function of the class: only constructors set it. Protobuf enumerations are
open, so an enumeration field of the wire object is any 32-bit integer.

## Main definitions

* `Event`, `Package`, `CoreMessage` — what the program handles.
* `Proto.CoreMessage`, `Proto.LogPackage` — what the wire carries.
* `CoreMessage.toProto`, `CoreMessage.buildObj` — the two directions.
-/

namespace ClientService

/-- `protobuf::Operation`. -/
inductive Operation
  | noneOperation
  | checkVersion
  | updateLog
  | queryLastEvent
  | returnLastEvent
  | acceptLastEvent
  | connect
  | refuse
  deriving DecidableEq, Repr

/-- `protobuf::LogLevel`. -/
inductive LogLevel
  | fatal
  | error
  | warning
  | info
  | verbose
  deriving DecidableEq, Repr

/-- `protobuf::OsType`. -/
inductive OsType
  | osWindows
  | osLinux
  | osOther
  deriving DecidableEq, Repr

/-! ## The wire objects -/

namespace Proto

/-- Numbers of `coreMessage.Operation`. -/
def opCheckVersion : Int32 := 0
def opUpdateLog : Int32 := 1
def opQueryLastEvent : Int32 := 2
def opReturnLastEvent : Int32 := 3
def opAcceptLastEvent : Int32 := 4
def opConnect : Int32 := 5
/-- The sentinel protobuf adds below an open enumeration. -/
def opIntMinSentinel : Int32 := Int32.minValue

/-- Numbers of `coreMessage.osType`. -/
def osWindows : Int32 := 0
def osLinux : Int32 := 1

/-- `coreMessage.logPackage`: one event on the wire. -/
structure LogPackage where
  scope : String
  level : Int32
  rawEventMessage : String
  timeStamp : String
  xmlEventMessage : String
  recordID : UInt32
  deriving DecidableEq, Repr

/-- `coreMessage`, with proto3 defaults. The `update` field has no reader or writer. -/
structure CoreMessage where
  id : Int32 := 0
  clientName : String := ""
  op : Int32 := 0
  timeStamp : String := ""
  os : Int32 := 0
  osVersion : String := ""
  description : String := ""
  log : List LogPackage := []
  lastEvent : UInt32 := 0
  logNeedAccept : Bool := false
  machineID : String := ""
  refuseID : Int32 := 0
  deriving DecidableEq, Repr

end Proto

/-- `dispatch(Operation)`: there is no case for `REFUSE`. -/
def Operation.dispatch : Operation → Int32
  | .connect => Proto.opConnect
  | .checkVersion => Proto.opCheckVersion
  | .updateLog => Proto.opUpdateLog
  | .queryLastEvent => Proto.opQueryLastEvent
  | .returnLastEvent => Proto.opReturnLastEvent
  | .acceptLastEvent => Proto.opAcceptLastEvent
  | .noneOperation | .refuse => Proto.opIntMinSentinel

/-- `dispatch(LogLevel)`: the zero-based numbers of `coreMessage.logLevel`. -/
def LogLevel.dispatch : LogLevel → Int32
  | .fatal => 0
  | .error => 1
  | .warning => 2
  | .info => 3
  | .verbose => 4

/-! ## Events -/

/-- `protobuf::Event`. -/
structure Event where
  xml : String
  format : String
  timeStamp : String
  provider : String
  llevel : LogLevel
  level : UInt32
  rid : UInt32
  deriving DecidableEq, Repr

namespace Event

/-- `Event::dispatch(LogLevel)`: the one-based Windows level. -/
def dispatchLLevel : LogLevel → UInt32
  | .fatal => 1
  | .error => 2
  | .warning => 3
  | .info => 4
  | .verbose => 5

/-- `Event::dispatch(uint32_t)`. -/
def dispatchLevel (l : UInt32) : LogLevel :=
  if l = 1 then .fatal
  else if l = 2 then .error
  else if l = 3 then .warning
  else if l = 4 then .info
  else .verbose

/-- The constructor that takes a `LogLevel`. -/
def ofLLevel (x f p t : String) (l : LogLevel) (r : UInt32) : Event :=
  { xml := x, format := f, timeStamp := t, provider := p, llevel := l,
    level := dispatchLLevel l, rid := r }

/-- The constructor that takes a number. -/
def ofLevel (x f p t : String) (l r : UInt32) : Event :=
  { xml := x, format := f, timeStamp := t, provider := p, llevel := dispatchLevel l,
    level := l, rid := r }

end Event

/-! ## Packages -/

/-- The concrete classes with their own members. -/
inductive Package
  | connect
  | queryLastEvent
  | returnLastEvent (lEID : UInt32)
  | acceptLastEvent (lEID : UInt32)
  | refuse (refusedID : Int32)
  | log (evts : List Event) (logNeedAccept : Bool)
  deriving DecidableEq, Repr

/-- The operation each constructor sets. -/
def Package.op : Package → Operation
  | .connect => .connect
  | .queryLastEvent => .queryLastEvent
  | .returnLastEvent _ => .returnLastEvent
  | .acceptLastEvent _ => .acceptLastEvent
  | .refuse _ => .refuse
  | .log _ _ => .updateLog

/-- `protobuf::CoreMessage`. -/
structure CoreMessage where
  id : Int32
  clientName : String := ""
  osVersion : String := ""
  osType : OsType := .osWindows
  timeStamp : String := ""
  description : String := ""
  message : String := ""
  machineID : String := ""
  package : Package
  deriving DecidableEq, Repr

/-- The static members of `CoreMessage`: what this process says about itself. -/
structure Process where
  myClientName : String
  myOsVersion : String
  myMachineID : String
  myOsType : OsType
  deriving DecidableEq, Repr

/-- `nextID()`: the static counter's value, and its next value. -/
def nextID (id : Int32) : Int32 × Int32 := (id, id + 1)

namespace CoreMessage

def op (m : CoreMessage) : Operation := m.package.op

/-- The constructors of the classes that draw an id. -/
def connectPackage (id : Int32) : CoreMessage × Int32 :=
  ({ id := (nextID id).1, description := "Connect", package := .connect }, (nextID id).2)

def queryLastEventPackage (id : Int32) : CoreMessage × Int32 :=
  ({ id := (nextID id).1, description := "QueryLastEventPackage", package := .queryLastEvent },
    (nextID id).2)

def returnLastEventPackage (lastEID : UInt32) (id : Int32) : CoreMessage × Int32 :=
  ({ id := (nextID id).1, description := "ReturnLastEventPackage",
     package := .returnLastEvent lastEID }, (nextID id).2)

def acceptLastEventPackage (lastEID : UInt32) (id : Int32) : CoreMessage × Int32 :=
  ({ id := (nextID id).1, description := "AcceptLastEventPackage",
     package := .acceptLastEvent lastEID }, (nextID id).2)

/-- `LogPackage(ac)` followed by `AddLogEvent` of the events. -/
def logPackage (evts : List Event) (ac : Bool) (id : Int32) : CoreMessage × Int32 :=
  ({ id := (nextID id).1, package := .log evts ac }, (nextID id).2)

/-- `RefusePackage(r, desc)` leaves the id at its default. -/
def refusePackage (r : Int32) (desc : String) : CoreMessage :=
  { id := -1, description := desc, message := "Refuse package", package := .refuse r }

/-- The text `LogPackage::buildPBObj` prints. `%d` shows the unsigned id as an `int`. -/
def logDescription : List Event → String
  | [] => "LogPackage include ZERO Windows Event."
  | e :: es => "LogPackage. Windows Event RecordID from " ++ toString e.rid.toInt32.toInt ++
      ". Total size " ++ toString (e :: es).length ++ "."

/-- One event as `LogPackage::buildPBObj` puts it on the wire. -/
def addLog (evt : Event) : Proto.LogPackage :=
  { scope := evt.provider, rawEventMessage := evt.format, timeStamp := evt.timeStamp,
    xmlEventMessage := evt.xml, level := evt.llevel.dispatch, recordID := evt.rid }

/-- The virtual `buildPBObj`: it fills the wire object and may change the package. -/
def buildPBObj (m : CoreMessage) (core : Proto.CoreMessage) : CoreMessage × Proto.CoreMessage :=
  match m.package with
  | .connect | .queryLastEvent => (m, core)
  | .returnLastEvent lEID | .acceptLastEvent lEID => (m, { core with lastEvent := lEID })
  | .refuse refusedID => (m, { core with refuseID := refusedID })
  | .log evts logNeedAccept =>
      ({ m with description := logDescription evts },
        { core with log := evts.map addLog, logNeedAccept := logNeedAccept })

/-- The first part of `toBytes`. `ts` is what `getTimeStamp` writes; it is used for a
package without a time stamp. Nothing sets `os`, although `dispatch(OsType)` exists. -/
def toProto (g : Process) (ts : String) (m : CoreMessage) : CoreMessage × Proto.CoreMessage :=
  m.buildPBObj
    { id := m.id
      op := m.op.dispatch
      timeStamp := if m.timeStamp = "" then ts else m.timeStamp
      description := m.description
      clientName := g.myClientName
      osVersion := g.myOsVersion
      machineID := g.myMachineID }

/-- The event `BuildObj` makes of a wire event. The level is an unscoped enumeration,
so it converts to `uint32_t` and selects the constructor that takes a number. -/
def readLog (levt : Proto.LogPackage) : Event :=
  Event.ofLevel levt.xmlEventMessage levt.rawEventMessage levt.scope levt.timeStamp
    levt.level.toUInt32 levt.recordID

/-- The `switch` of `BuildObj`: the object it allocates, or null. -/
def allocate (core : Proto.CoreMessage) (id : Int32) : Option (CoreMessage × Int32) :=
  if core.op = Proto.opUpdateLog then
    some (logPackage (core.log.map readLog) core.logNeedAccept id)
  else if core.op = Proto.opQueryLastEvent then some (queryLastEventPackage id)
  else if core.op = Proto.opReturnLastEvent then some (returnLastEventPackage core.lastEvent id)
  else if core.op = Proto.opAcceptLastEvent then some (acceptLastEventPackage core.lastEvent id)
  else if core.op = Proto.opConnect then some (connectPackage id)
  else none

/-- The common fields `BuildObj` copies into the allocated object. -/
def copyFields (core : Proto.CoreMessage) (msg : CoreMessage) (id : Int32) :
    CoreMessage × Int32 :=
  let drawn := if core.id = -1 then nextID id else (core.id, id)
  ({ msg with
      id := drawn.1
      description := core.description
      clientName := core.clientName
      osVersion := core.osVersion
      timeStamp := core.timeStamp
      machineID := core.machineID
      osType := if core.os = Proto.osWindows then .osWindows else .osLinux }, drawn.2)

/-- `BuildObj`, in a build that checks assertions when `asserts`. `id` is the counter
of `nextID`. -/
def buildObj (asserts : Bool) (core : Proto.CoreMessage) (id : Int32) :
    Outcome (Option CoreMessage × Int32) :=
  match allocate core id with
  | some (msg, id) =>
      let filled := copyFields core msg id
      .ret (some filled.1, filled.2)
  | none => do
      Outcome.assert asserts False
      .ret (none, id)

/-- The operations `BuildObj` has a case for. -/
def Buildable (core : Proto.CoreMessage) : Prop :=
  core.op = Proto.opUpdateLog ∨ core.op = Proto.opQueryLastEvent ∨
    core.op = Proto.opReturnLastEvent ∨ core.op = Proto.opAcceptLastEvent ∨
    core.op = Proto.opConnect

instance (core : Proto.CoreMessage) : Decidable (Buildable core) := by
  unfold Buildable; infer_instance

theorem allocate_isSome (core : Proto.CoreMessage) (id : Int32) :
    (allocate core id).isSome = true ↔ Buildable core := by
  simp only [allocate, Buildable]
  split_ifs <;> simp_all

/-- A message with a known operation is built, whatever the counter. -/
theorem buildObj_of_buildable (asserts : Bool) {core : Proto.CoreMessage} (h : Buildable core)
    (id : Int32) : ∃ m id', buildObj asserts core id = .ret (some m, id') := by
  obtain ⟨⟨msg, id'⟩, hmsg⟩ := Option.isSome_iff_exists.mp ((allocate_isSome core id).mpr h)
  simp [buildObj, hmsg]

/-- Any other operation fails the assertion of the `default` case. -/
theorem buildObj_of_not_buildable (asserts : Bool) {core : Proto.CoreMessage}
    (h : ¬Buildable core) (id : Int32) :
    buildObj asserts core id = if asserts then .aborted else .ret (none, id) := by
  have hnone : allocate core id = none := by
    rw [← Option.not_isSome_iff_eq_none]
    exact fun hs => h ((allocate_isSome core id).mp hs)
  cases asserts <;> simp [buildObj, hnone, Outcome.assert]

end CoreMessage
end ClientService
