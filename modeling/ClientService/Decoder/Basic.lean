import ClientService.Protobuf.Packet

/-!
# The packet decoder

`ProtobufPacketDecoder` turns the chunks a socket delivers into messages. Its two
members `_read` and `parseHeader` call each other: every call below spends one unit of
a call budget, and a run that spends the budget is `Outcome.running`.

The process-wide counter of `nextID` is passed along, since every object that `BuildObj`
allocates advances it.

## Main definitions

* `ProtobufPacketDecoder` — the decoder's members.
* `ProtobufPacketDecoder.parseHeader`, `ProtobufPacketDecoder._read` — the recursion.
* `ProtobufPacketDecoder.read` — one call of `read`, with a budget that suffices for its
  chunk unless the recursion never ends.
* `ProtobufPacketDecoder.readAll` — successive calls.
-/

namespace ClientService

/-- The part of a `std::stringstream` that the decoder observes. -/
structure StringStream where
  /-- Bytes written and not yet read. -/
  unread : List UInt8
  /-- No failed read has set the error state. -/
  good : Bool
  deriving DecidableEq, Repr

namespace StringStream

/-- `read(s, n)`: the characters extracted. Too few of them set the error state, and a
stream in the error state extracts none. -/
def read (s : StringStream) (n : ℕ) : List UInt8 × StringStream :=
  if s.good then (s.unread.take n, ⟨s.unread.drop n, decide (n ≤ s.unread.length)⟩)
  else ([], s)

/-- `write(s, n)`: a stream in the error state takes nothing. -/
def write (s : StringStream) (data : List UInt8) : StringStream :=
  if s.good then { s with unread := s.unread ++ data } else s

end StringStream

/-- `ProtobufPacketDecoder`. A null pointer in the queue is `none`. -/
structure ProtobufPacketDecoder where
  compressSize : UInt32
  remainSize : UInt32
  serialSize : UInt32
  headerSize : UInt32
  vec : List (Option CoreMessage)
  headerBuffer : Vector UInt8 packageHeaderSize
  buf : StringStream
  deriving DecidableEq, Repr

namespace ProtobufPacketDecoder

/-- The constructor. -/
def fresh : ProtobufPacketDecoder where
  compressSize := 0
  remainSize := 0
  serialSize := 0
  headerSize := 0
  vec := []
  headerBuffer := Vector.replicate packageHeaderSize 0
  buf := ⟨[], true⟩

/-- The copy loop of `parseHeader`: it stops at a full header or at the end of the chunk,
and leaves the rest of the chunk. -/
def fillHeader : ProtobufPacketDecoder → List UInt8 → ProtobufPacketDecoder × List UInt8
  | d, [] => (d, [])
  | d, c :: data =>
      if 0 < UInt32.ofNat packageHeaderSize - d.headerSize then
        fillHeader
          { d with
            headerBuffer := d.headerBuffer.setIfInBounds d.headerSize.toNat c
            headerSize := d.headerSize + 1 } data
      else (d, c :: data)

/-- The bytes `_read` verifies and parses: the body itself when both sizes agree, and what
`DeCompress` leaves in its output buffer, whatever its status, when they do not. -/
def payload (K : Codec) (serialSize compressSize : UInt32) (buf : List UInt8) : List UInt8 :=
  if serialSize = compressSize then buf else (deCompress K serialSize.toNat buf).2

/-- The part of `_read` that makes a message of a complete body: `serialSize`,
`compressSize` and `dgst` are what the header says. -/
def openBody (K : Codec) (asserts : Bool) (serialSize compressSize : UInt32)
    (dgst buf : List UInt8) (id : Int32) : Outcome (Option CoreMessage × Int32) := do
  let data := payload K serialSize compressSize buf
  Outcome.assert asserts (dgst = (K.sha256 data).val)
  let (ret, id) ← CoreMessage.parseFromArray K asserts data id
  Outcome.assert asserts (ret.isSome = true)
  .ret (ret, id)

mutual

/-- `parseHeader`, with the counter of `nextID` before and after. -/
def parseHeader (K : Codec) (asserts : Bool) :
    ℕ → ProtobufPacketDecoder → List UInt8 → Int32 → Outcome (ProtobufPacketDecoder × Int32)
  | 0, _, _, _ => .running
  | n + 1, d, data, id =>
      let (d', rest) := if d.headerSize < 40 then fillHeader d data else (d, data)
      if d.headerSize < 40 ∧ rest.length = 0 then .ret (d', id)
      else if d'.headerSize = 40 then
        if d'.compressSize = 0 then do
          let size := word d'.headerBuffer.toList 1
          let (_, d'', id) ← _read K asserts n
            { d' with compressSize := size, remainSize := size,
                      serialSize := word d'.headerBuffer.toList 0 } rest id
          .ret (d'', id)
        else do
          Outcome.assert asserts False
          .ret (d', id)
      else .ret (d', id)

/-- `_read`: the returned pointer, the decoder, and the counter of `nextID`. -/
def _read (K : Codec) (asserts : Bool) :
    ℕ → ProtobufPacketDecoder → List UInt8 → Int32 →
      Outcome (Option CoreMessage × ProtobufPacketDecoder × Int32)
  | 0, _, _, _ => .running
  | n + 1, d, data, id =>
      if d.compressSize ≠ 0 then
        if d.remainSize.toNat ≤ data.length then do
          let want := (d.compressSize - d.remainSize).toNat
          let (got, stream) := d.buf.read want
          Outcome.assert asserts (got.length = want)
          let (ret, id) ← openBody K asserts d.serialSize d.compressSize
            (d.headerBuffer.toList.drop 8) (got ++ data.take d.remainSize.toNat) id
          -- The inner test `size >= remainSize` repeats the outer one.
          let rest := data.drop d.remainSize.toNat
          let (d', id) ← parseHeader K asserts n
            { d with buf := stream, vec := d.vec ++ [ret], headerSize := 0, remainSize := 0,
                     compressSize := 0 } rest id
          Outcome.assert asserts (d'.buf.good = true)
          .ret (ret, d', id)
        else do
          let remainSize := d.remainSize - UInt32.ofNat data.length
          Outcome.assert asserts (remainSize ≤ d.compressSize)
          let d' := { d with buf := d.buf.write data, remainSize := remainSize }
          Outcome.assert asserts (d'.buf.good = true)
          .ret (none, d', id)
      else do
        let (d', id) ← parseHeader K asserts n d data id
        Outcome.assert asserts (d'.buf.good = true)
        .ret (none, d', id)

end

/-- More calls than any terminating call of `read` makes on a chunk of this length. -/
def callBound (size : ℕ) : ℕ := 2 * size + 3

/-- `read`. -/
def read (K : Codec) (asserts : Bool) (d : ProtobufPacketDecoder) (data : List UInt8) (id : Int32) :
    Outcome (Option CoreMessage × ProtobufPacketDecoder × Int32) :=
  _read K asserts (callBound data.length) d data id

/-- `GetProtobufMessage`. -/
def getProtobufMessage (d : ProtobufPacketDecoder) : Option CoreMessage × ProtobufPacketDecoder :=
  match d.vec with
  | [] => (none, d)
  | ret :: vec => (ret, { d with vec := vec })

/-- `GetSize`. -/
def getSize (d : ProtobufPacketDecoder) : ℕ := d.vec.length

/-- One call of `read` as its caller makes it. Other threads draw ids as well, so each
call finds its own value in the counter of `nextID`. -/
structure Chunk where
  data : List UInt8
  id : Int32
  deriving DecidableEq, Repr

/-- Successive calls of `read`. -/
def readAll (K : Codec) (asserts : Bool) :
    ProtobufPacketDecoder → List Chunk → Outcome ProtobufPacketDecoder
  | d, [] => .ret d
  | d, c :: cs => do
      let (_, d', _) ← read K asserts d c.data c.id
      readAll K asserts d' cs

/-- The stream that a sequence of chunks carries. -/
def stream (cs : List Chunk) : List UInt8 := cs.flatMap Chunk.data

end ProtobufPacketDecoder
end ClientService
