import ClientService.Protobuf.Packet
import ClientService.Lib.Wire

/-!
# A codec

The generated protobuf classes as message types of the wire format, and a `Codec` built on
them. SHA-256 and zlib are tabulated at one payload: elsewhere the codec hashes to zero and
compresses to something longer, so the codec is lawful and computes the packets of that
payload.
-/

namespace ClientService

open Wire (Message Record Value optional)

/-! ## Message types -/

namespace Proto

/-- `coreMessage.logPackage`. -/
def LogPackage.message : Message LogPackage where
  init := { scope := "", level := 0, rawEventMessage := "", timeStamp := "", xmlEventMessage := "",
            recordID := 0 }
  records levt :=
    optional levt.scope "" ⟨1, Wire.ofString levt.scope⟩ ++
    optional levt.level 0 ⟨2, Wire.ofInt32 levt.level⟩ ++
    optional levt.rawEventMessage "" ⟨3, Wire.ofString levt.rawEventMessage⟩ ++
    optional levt.timeStamp "" ⟨4, Wire.ofString levt.timeStamp⟩ ++
    optional levt.xmlEventMessage "" ⟨5, Wire.ofString levt.xmlEventMessage⟩ ++
    optional levt.recordID 0 ⟨6, Wire.ofUInt32 levt.recordID⟩
  merge levt r :=
    match r.field with
    | 1 => (Wire.toString r.value).map fun v => { levt with scope := v }
    | 2 => (Wire.toInt32 r.value).map fun v => { levt with level := v }
    | 3 => (Wire.toString r.value).map fun v => { levt with rawEventMessage := v }
    | 4 => (Wire.toString r.value).map fun v => { levt with timeStamp := v }
    | 5 => (Wire.toString r.value).map fun v => { levt with xmlEventMessage := v }
    | 6 => (Wire.toUInt32 r.value).map fun v => { levt with recordID := v }
    | _ => some levt

/-- An embedded `coreMessage.logPackage`. -/
def toLog : Value → Option LogPackage
  | .varint _ => none
  | .bytes data => LogPackage.message.parse data

/-- `coreMessage`. -/
def CoreMessage.message : Message CoreMessage where
  init := {}
  records core :=
    optional core.id 0 ⟨1, Wire.ofInt32 core.id⟩ ++
    optional core.clientName "" ⟨2, Wire.ofString core.clientName⟩ ++
    optional core.op 0 ⟨3, Wire.ofInt32 core.op⟩ ++
    optional core.timeStamp "" ⟨4, Wire.ofString core.timeStamp⟩ ++
    optional core.os 0 ⟨5, Wire.ofInt32 core.os⟩ ++
    optional core.osVersion "" ⟨6, Wire.ofString core.osVersion⟩ ++
    optional core.description "" ⟨7, Wire.ofString core.description⟩ ++
    core.log.map (fun levt => ⟨9, .bytes (LogPackage.message.serialize levt)⟩) ++
    optional core.lastEvent 0 ⟨10, Wire.ofUInt32 core.lastEvent⟩ ++
    optional core.logNeedAccept false ⟨11, Wire.ofBool core.logNeedAccept⟩ ++
    optional core.machineID "" ⟨12, Wire.ofString core.machineID⟩ ++
    optional core.refuseID 0 ⟨13, Wire.ofInt32 core.refuseID⟩
  merge core r :=
    match r.field with
    | 1 => (Wire.toInt32 r.value).map fun v => { core with id := v }
    | 2 => (Wire.toString r.value).map fun v => { core with clientName := v }
    | 3 => (Wire.toInt32 r.value).map fun v => { core with op := v }
    | 4 => (Wire.toString r.value).map fun v => { core with timeStamp := v }
    | 5 => (Wire.toInt32 r.value).map fun v => { core with os := v }
    | 6 => (Wire.toString r.value).map fun v => { core with osVersion := v }
    | 7 => (Wire.toString r.value).map fun v => { core with description := v }
    | 9 => (toLog r.value).map fun v => { core with log := core.log ++ [v] }
    | 10 => (Wire.toUInt32 r.value).map fun v => { core with lastEvent := v }
    | 11 => (Wire.toBool r.value).map fun v => { core with logNeedAccept := v }
    | 12 => (Wire.toString r.value).map fun v => { core with machineID := v }
    | 13 => (Wire.toInt32 r.value).map fun v => { core with refuseID := v }
    | _ => some core

section
variable {α : Type} {merge : α → Record → Option α} {a b : α} {rs rs' : List Record}

private theorem foldlM_then (h : rs.foldlM merge a = some b) :
    (rs ++ rs').foldlM merge a = rs'.foldlM merge b := by
  rw [List.foldlM_append, h]
  rfl

end

private theorem LogPackage.records_eq (levt : LogPackage) :
    LogPackage.message.records levt =
      optional levt.scope "" ⟨1, Wire.ofString levt.scope⟩ ++
      (optional levt.level 0 ⟨2, Wire.ofInt32 levt.level⟩ ++
      (optional levt.rawEventMessage "" ⟨3, Wire.ofString levt.rawEventMessage⟩ ++
      (optional levt.timeStamp "" ⟨4, Wire.ofString levt.timeStamp⟩ ++
      (optional levt.xmlEventMessage "" ⟨5, Wire.ofString levt.xmlEventMessage⟩ ++
      optional levt.recordID 0 ⟨6, Wire.ofUInt32 levt.recordID⟩)))) := by
  simp only [LogPackage.message, List.append_assoc]

theorem LogPackage.parse_serialize (levt : LogPackage) :
    LogPackage.message.parse (LogPackage.message.serialize levt) = some levt := by
  apply Message.parse_serialize
  rw [LogPackage.records_eq,
    foldlM_then (b := ⟨levt.scope, 0, "", "", "", 0⟩)
      (Wire.foldlM_optional (fun _ => by simp [LogPackage.message])
        fun h => by simp [h, LogPackage.message]),
    foldlM_then (b := ⟨levt.scope, levt.level, "", "", "", 0⟩)
      (Wire.foldlM_optional (fun _ => by simp [LogPackage.message]) fun h => by simp [h]),
    foldlM_then (b := ⟨levt.scope, levt.level, levt.rawEventMessage, "", "", 0⟩)
      (Wire.foldlM_optional (fun _ => by simp [LogPackage.message]) fun h => by simp [h]),
    foldlM_then (b := ⟨levt.scope, levt.level, levt.rawEventMessage, levt.timeStamp, "", 0⟩)
      (Wire.foldlM_optional (fun _ => by simp [LogPackage.message]) fun h => by simp [h]),
    foldlM_then (b := ⟨levt.scope, levt.level, levt.rawEventMessage, levt.timeStamp,
        levt.xmlEventMessage, 0⟩)
      (Wire.foldlM_optional (fun _ => by simp [LogPackage.message]) fun h => by simp [h])]
  refine Wire.foldlM_optional (fun _ => ?_) fun h => ?_
  · simp [LogPackage.message]
  · cases levt
    subst h
    rfl

/-- The events of a message are appended one by one. -/
private theorem foldlM_log (core : CoreMessage) (log : List LogPackage) :
    (log.map fun levt => (⟨9, .bytes (LogPackage.message.serialize levt)⟩ : Record)).foldlM
      CoreMessage.message.merge core = some { core with log := core.log ++ log } := by
  induction log generalizing core with
  | nil => simp
  | cons levt log ih =>
      have hstep : CoreMessage.message.merge core
          ⟨9, .bytes (LogPackage.message.serialize levt)⟩ =
          some { core with log := core.log ++ [levt] } := by
        simp [CoreMessage.message, toLog, LogPackage.parse_serialize]
      rw [List.map_cons, List.foldlM_cons, hstep]
      exact (ih _).trans (by simp)

private theorem CoreMessage.records_eq (core : CoreMessage) :
    CoreMessage.message.records core =
      optional core.id 0 ⟨1, Wire.ofInt32 core.id⟩ ++
      (optional core.clientName "" ⟨2, Wire.ofString core.clientName⟩ ++
      (optional core.op 0 ⟨3, Wire.ofInt32 core.op⟩ ++
      (optional core.timeStamp "" ⟨4, Wire.ofString core.timeStamp⟩ ++
      (optional core.os 0 ⟨5, Wire.ofInt32 core.os⟩ ++
      (optional core.osVersion "" ⟨6, Wire.ofString core.osVersion⟩ ++
      (optional core.description "" ⟨7, Wire.ofString core.description⟩ ++
      (core.log.map (fun levt => ⟨9, .bytes (LogPackage.message.serialize levt)⟩) ++
      (optional core.lastEvent 0 ⟨10, Wire.ofUInt32 core.lastEvent⟩ ++
      (optional core.logNeedAccept false ⟨11, Wire.ofBool core.logNeedAccept⟩ ++
      (optional core.machineID "" ⟨12, Wire.ofString core.machineID⟩ ++
      optional core.refuseID 0 ⟨13, Wire.ofInt32 core.refuseID⟩)))))))))) := by
  simp only [CoreMessage.message, List.append_assoc]

theorem CoreMessage.parse_serialize (core : CoreMessage) :
    CoreMessage.message.parse (CoreMessage.message.serialize core) = some core := by
  apply Message.parse_serialize
  have hlog := foldlM_log
    { id := core.id, clientName := core.clientName, op := core.op, timeStamp := core.timeStamp,
      os := core.os, osVersion := core.osVersion, description := core.description } core.log
  rw [CoreMessage.records_eq,
    foldlM_then (b := { id := core.id })
      (Wire.foldlM_optional (fun _ => by simp [CoreMessage.message])
        fun h => by simp [h, CoreMessage.message]),
    foldlM_then (b := { id := core.id, clientName := core.clientName })
      (Wire.foldlM_optional (fun _ => by simp [CoreMessage.message]) fun h => by simp [h]),
    foldlM_then (b := { id := core.id, clientName := core.clientName, op := core.op })
      (Wire.foldlM_optional (fun _ => by simp [CoreMessage.message]) fun h => by simp [h]),
    foldlM_then (b := { id := core.id, clientName := core.clientName, op := core.op,
                        timeStamp := core.timeStamp })
      (Wire.foldlM_optional (fun _ => by simp [CoreMessage.message]) fun h => by simp [h]),
    foldlM_then (b := { id := core.id, clientName := core.clientName, op := core.op,
                        timeStamp := core.timeStamp, os := core.os })
      (Wire.foldlM_optional (fun _ => by simp [CoreMessage.message]) fun h => by simp [h]),
    foldlM_then (b := { id := core.id, clientName := core.clientName, op := core.op,
                        timeStamp := core.timeStamp, os := core.os, osVersion := core.osVersion })
      (Wire.foldlM_optional (fun _ => by simp [CoreMessage.message]) fun h => by simp [h]),
    foldlM_then (b := { id := core.id, clientName := core.clientName, op := core.op,
                        timeStamp := core.timeStamp, os := core.os, osVersion := core.osVersion,
                        description := core.description })
      (Wire.foldlM_optional (fun _ => by simp [CoreMessage.message]) fun h => by simp [h]),
    foldlM_then hlog,
    foldlM_then (b := { id := core.id, clientName := core.clientName, op := core.op,
                        timeStamp := core.timeStamp, os := core.os, osVersion := core.osVersion,
                        description := core.description, log := core.log,
                        lastEvent := core.lastEvent })
      (Wire.foldlM_optional (fun _ => by simp [CoreMessage.message]) fun h => by simp [h]),
    foldlM_then (b := { id := core.id, clientName := core.clientName, op := core.op,
                        timeStamp := core.timeStamp, os := core.os, osVersion := core.osVersion,
                        description := core.description, log := core.log,
                        lastEvent := core.lastEvent, logNeedAccept := core.logNeedAccept })
      (Wire.foldlM_optional (fun _ => by simp [CoreMessage.message]) fun h => by simp [h]),
    foldlM_then (b := { id := core.id, clientName := core.clientName, op := core.op,
                        timeStamp := core.timeStamp, os := core.os, osVersion := core.osVersion,
                        description := core.description, log := core.log,
                        lastEvent := core.lastEvent, logNeedAccept := core.logNeedAccept,
                        machineID := core.machineID })
      (Wire.foldlM_optional (fun _ => by simp [CoreMessage.message]) fun h => by simp [h])]
  refine Wire.foldlM_optional (fun _ => ?_) fun h => ?_
  · simp [CoreMessage.message]
  · cases core
    subst h
    rfl

end Proto

/-! ## The codec -/

/-- The first byte of what the codec compresses to away from its table: no zlib stream
begins with it. -/
def expanded : UInt8 := 255

/-- The codec that knows the digest and the compression of one payload. -/
def Codec.tabulated (data : List UInt8) (dgst : Digest) (zipped : List UInt8) : Codec where
  serializeToArray core := (true, Proto.CoreMessage.message.serialize core)
  parseFromArray := Proto.CoreMessage.message.parse
  sha256 s := if s = data then dgst else ⟨List.replicate 32 0, length_zeros⟩
  compress2 s := (true, if s = data then zipped else expanded :: s)
  uncompress size s :=
    let whole := if s = zipped then data else s.tail
    (decide (whole.length ≤ size), whole.take size)

theorem Codec.tabulated_lawful (data : List UInt8) (dgst : Digest) {zipped : List UInt8}
    (h : zipped.head? ≠ some expanded) : (Codec.tabulated data dgst zipped).Lawful := by
  constructor
  · intro core
    simp only [Codec.tabulated, Proto.CoreMessage.parse_serialize]
  · intro s
    rfl
  · intro s
    by_cases hs : s = data
    · simp [Codec.tabulated, hs]
    · have hne : expanded :: s ≠ zipped := by
        intro heq
        rw [← heq] at h
        exact h rfl
      simp [Codec.tabulated, hs, hne]

/-! ## A sample message -/

namespace Sample

def process : Process where
  myClientName := "pc"
  myOsVersion := "10.0"
  myMachineID := "m-1"
  myOsType := .osWindows

def ts : String := "2018-01-01 08:00:00.0+8"

/-- The package that opens a connection. -/
def connect : CoreMessage := (CoreMessage.connectPackage 7).1

/-- An event of the highest severity. -/
def event : Event := Event.ofLLevel "<Event/>" "message" "scope" ts .fatal 1

/-- The connect package, serialized. -/
def payload : List UInt8 :=
  [8, 7, 18, 2, 112, 99, 24, 5, 34, 23, 50, 48, 49, 56, 45, 48, 49, 45, 48, 49, 32, 48, 56, 58, 48,
    48, 58, 48, 48, 46, 48, 43, 56, 50, 4, 49, 48, 46, 48, 58, 7, 67, 111, 110, 110, 101, 99, 116,
    98, 3, 109, 45, 49]

def digest : Digest :=
  ⟨[220, 246, 249, 93, 69, 163, 36, 70, 183, 42, 217, 88, 225, 76, 146, 194, 151, 247, 70, 153,
    177, 184, 64, 36, 10, 62, 25, 106, 7, 231, 153, 192], rfl⟩

/-- The payload, compressed: it gets longer. -/
def zipped : List UInt8 :=
  [120, 218, 227, 96, 23, 98, 42, 72, 150, 96, 85, 18, 55, 50, 48, 180, 208, 53, 48, 4, 34, 5, 3,
    11, 43, 3, 3, 32, 210, 51, 208, 182, 48, 98, 49, 4, 210, 86, 236, 206, 249, 121, 121, 169, 201,
    37, 73, 204, 185, 186, 134, 0, 251, 77, 10, 225]

def codec : Codec := Codec.tabulated payload digest zipped

theorem codec_lawful : codec.Lawful := Codec.tabulated_lawful payload digest (by decide)

theorem serialBuffer_connect : connect.serialBuffer codec process ts = payload := by decide

theorem sizes : CoreMessage.Sizes codec payload where
  serial_pos := by decide
  serial_lt := by decide
  compress_pos := by decide
  compress_lt := by decide

/-- The packet of the connect package: its body is not compressed. -/
def packet : Packet := CoreMessage.encode codec payload sizes

end Sample
end ClientService
