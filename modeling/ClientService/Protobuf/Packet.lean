import ClientService.Protobuf.Message
import ClientService.Lib.Framing

/-!
# Packets

A packet is a forty-byte header followed by a body. The header holds the size of the
serialized message, the size of the body, and the SHA-256 digest of the serialized
message; the body is the message, compressed when that makes it smaller.

`toBytes` is the encoder and `parseFromArray` reads a body back. Protobuf serialization, SHA-256
and zlib come from outside the repository and are the functions of a `Codec`; `Codec.Lawful`
states what the program relies on.
-/

namespace ClientService

/-- `PACKAGE_HEADER_SIZE`. -/
def packageHeaderSize : ℕ := 4 + 4 + 32

/-- A SHA-256 digest. -/
abbrev Digest := {bytes : List UInt8 // bytes.length = 32}

/-- Zeros have the length of a digest. -/
theorem length_zeros : (List.replicate 32 (0 : UInt8)).length = 32 := rfl

/-- The libraries the encoder and the decoder call. A Boolean is a returned status. -/
structure Codec where
  /-- `SerializeToArray` into a buffer of `ByteSizeLong` bytes. -/
  serializeToArray : Proto.CoreMessage → Bool × List UInt8
  /-- `ParseFromArray`. -/
  parseFromArray : List UInt8 → Option Proto.CoreMessage
  sha256 : List UInt8 → Digest
  /-- `compress2` at the best level. -/
  compress2 : List UInt8 → Bool × List UInt8
  /-- `uncompress` into a buffer of the given capacity: the status, and the buffer up
  to the size it reports. -/
  uncompress : ℕ → List UInt8 → Bool × List UInt8

/-- What the program relies on. -/
structure Codec.Lawful (K : Codec) : Prop where
  /-- Parsing inverts serialization. -/
  parse_serialize : ∀ core, K.parseFromArray (K.serializeToArray core).2 = some core
  compress2_ok : ∀ data, (K.compress2 data).1 = true
  /-- Decompression into a buffer of the original size inverts compression. -/
  uncompress_compress2 : ∀ data, K.uncompress data.length (K.compress2 data).2 = (true, data)

/-- `Compress`. -/
def compress (K : Codec) (data : List UInt8) : Bool × List UInt8 := K.compress2 data

/-- `DeCompress`. -/
def deCompress (K : Codec) (size : ℕ) (data : List UInt8) : Bool × List UInt8 :=
  K.uncompress size data

/-! ## Words in network order -/

/-- The bytes that storing `htonl(n)` leaves in memory. -/
def htonl (n : UInt32) : List UInt8 :=
  [UInt8.ofNat (n.toNat / 16777216), UInt8.ofNat (n.toNat / 65536), UInt8.ofNat (n.toNat / 256),
    UInt8.ofNat n.toNat]

/-- `htonl` of the `k`-th 32-bit word of a buffer. -/
def word (buffer : List UInt8) (k : ℕ) : UInt32 :=
  UInt32.ofNat (16777216 * (buffer.getD (4 * k) 0).toNat +
    (65536 * (buffer.getD (4 * k + 1) 0).toNat +
      (256 * (buffer.getD (4 * k + 2) 0).toNat + (buffer.getD (4 * k + 3) 0).toNat)))

@[simp] theorem length_htonl (n : UInt32) : (htonl n).length = 4 := rfl

private theorem ofNat_bytes (n : UInt32) :
    UInt32.ofNat (16777216 * (UInt8.ofNat (n.toNat / 16777216)).toNat +
      (65536 * (UInt8.ofNat (n.toNat / 65536)).toNat +
        (256 * (UInt8.ofNat (n.toNat / 256)).toNat + (UInt8.ofNat n.toNat).toNat))) = n := by
  have hn : n.toNat < 4294967296 := n.toNat_lt
  rw [← UInt32.toNat_inj]
  simp only [UInt8.toNat_ofNat', UInt32.toNat_ofNat']
  omega

theorem word_zero (n m : UInt32) (s : List UInt8) : word (htonl n ++ htonl m ++ s) 0 = n := by
  conv_rhs => rw [← ofNat_bytes n]
  simp only [word, htonl, List.cons_append, List.getD_cons_zero, List.getD_cons_succ, Nat.mul_zero,
    Nat.zero_add]

theorem word_one (n m : UInt32) (s : List UInt8) : word (htonl n ++ htonl m ++ s) 1 = m := by
  conv_rhs => rw [← ofNat_bytes m]
  simp only [word, htonl, List.cons_append, List.nil_append, List.getD_cons_zero,
    List.getD_cons_succ, Nat.mul_one, Nat.reduceAdd]

/-! ## Encoding -/

namespace CoreMessage

/-- The bytes the header's digest and first length speak of. -/
def serialBuffer (K : Codec) (g : Process) (ts : String) (m : CoreMessage) : List UInt8 :=
  (K.serializeToArray (m.toProto g ts).2).2

/-- The packet `toBytes` lays out for a serialized message: the smaller of the compressed
and the plain body, behind a header that states both sizes. -/
def pkgBuffer (K : Codec) (serialBuffer : List UInt8) : List UInt8 :=
  let compressBuffer := (compress K serialBuffer).2
  let serialSize := UInt32.ofNat serialBuffer.length
  let compressSize := UInt32.ofNat compressBuffer.length
  let dgstBuffer := (K.sha256 serialBuffer).val
  if compressBuffer.length < serialBuffer.length then
    htonl serialSize ++ htonl compressSize ++ dgstBuffer ++ compressBuffer
  else htonl serialSize ++ htonl serialSize ++ dgstBuffer ++ serialBuffer

/-- `toBytes`: the returned status, the packet, and the package afterwards. -/
def toBytes (K : Codec) (asserts : Bool) (g : Process) (ts : String) (m : CoreMessage) :
    Outcome (Bool × List UInt8 × CoreMessage) := do
  let built := m.toProto g ts
  let serial := K.serializeToArray built.2
  Outcome.assert asserts ((compress K serial.2).1 = true)
  .ret (serial.1, pkgBuffer K serial.2, built.1)

/-- `CoreMessage::parseFromArray`. -/
def parseFromArray (K : Codec) (asserts : Bool) (data : List UInt8) (id : Int32) :
    Outcome (Option CoreMessage × Int32) :=
  match K.parseFromArray data with
  | some core => buildObj asserts core id
  | none => .ret (none, id)

end CoreMessage

/-! ## The packet format -/

/-- The second word of a header is the length of the body. -/
def packet : Framing.Format UInt8 where
  header := packageHeaderSize
  size := fun header => (word header 1).toNat
  header_pos := by decide

/-- One packet. -/
abbrev Packet := Framing.Frame packet

@[simp] theorem packet_header : packet.header = 40 := rfl

theorem packet_size (header : List UInt8) : packet.size header = (word header 1).toNat := rfl

theorem word_take {s : List UInt8} {k : ℕ} (hk : 4 * k + 3 < 40) :
    word (s.take 40) k = word s k := by
  have h : ∀ i, i < 40 → (s.take 40).getD i 0 = s.getD i 0 := by
    intro i hi
    simp only [List.getD_eq_getElem?_getD, List.getElem?_take, hi, if_true]
  simp only [word, h (4 * k) (by omega), h (4 * k + 1) (by omega), h (4 * k + 2) (by omega),
    h (4 * k + 3) hk]

theorem announced_packet (s : List UInt8) : packet.announced s = (word s 1).toNat := by
  have h : word (s.take 40) 1 = word s 1 := word_take (by decide)
  rw [Framing.Format.announced, packet_size, packet_header, h]

namespace Packet

/-- The size of the serialized message, as the header states it. -/
def serialSize (f : Packet) : UInt32 := word f.bytes 0

/-- The size of the body, as the header states it. -/
def compressSize (f : Packet) : UInt32 := word f.bytes 1

/-- The digest the header states. -/
def digest (f : Packet) : List UInt8 := f.head.drop 8

/-- The packet with a given header and body. -/
def ofParts (serialSize compressSize : UInt32) (dgst : Digest) (body : List UInt8)
    (hlen : body.length = compressSize.toNat) (hne : body ≠ []) : Packet where
  bytes := htonl serialSize ++ htonl compressSize ++ dgst.val ++ body
  length_eq := by
    rw [announced_packet, List.append_assoc (_ ++ _), word_one]
    simp only [List.length_append, length_htonl, dgst.2, packet_header, hlen]
    omega
  announced_ne := by
    rw [announced_packet, List.append_assoc (_ ++ _), word_one, ← hlen]
    exact fun h => hne (List.length_eq_zero_iff.mp h)

section
variable {n m : UInt32} {dgst : Digest} {body : List UInt8} {hlen : body.length = m.toNat}
  {hne : body ≠ []}

@[simp] theorem bytes_ofParts :
    (ofParts n m dgst body hlen hne).bytes = htonl n ++ htonl m ++ dgst.val ++ body := rfl

@[simp] theorem serialSize_ofParts : (ofParts n m dgst body hlen hne).serialSize = n := by
  rw [serialSize, bytes_ofParts, List.append_assoc (_ ++ _), word_zero]

@[simp] theorem compressSize_ofParts : (ofParts n m dgst body hlen hne).compressSize = m := by
  rw [compressSize, bytes_ofParts, List.append_assoc (_ ++ _), word_one]

variable (n m dgst) in
private theorem length_parts : (htonl n ++ htonl m ++ dgst.val).length = 40 := by
  simp only [List.length_append, length_htonl, dgst.2]

@[simp] theorem body_ofParts : (ofParts n m dgst body hlen hne).body = body := by
  rw [Framing.Frame.body, bytes_ofParts, packet_header, ← length_parts n m dgst,
    List.drop_left]

@[simp] theorem digest_ofParts : (ofParts n m dgst body hlen hne).digest = dgst.val := by
  rw [digest, Framing.Frame.head, bytes_ofParts, packet_header,
    ← length_parts n m dgst, List.take_left]
  have h : (htonl n ++ htonl m).length = 8 := rfl
  rw [← h, List.drop_left]

end
end Packet

namespace CoreMessage
variable {K : Codec}

/-- The sizes for which the header's words are exact. -/
structure Sizes (K : Codec) (data : List UInt8) : Prop where
  serial_pos : 0 < data.length
  serial_lt : data.length < 2 ^ 32
  compress_pos : 0 < (compress K data).2.length
  compress_lt : (compress K data).2.length < 2 ^ 32

private theorem toNat_ofNat {n : ℕ} (h : n < 2 ^ 32) : (UInt32.ofNat n).toNat = n := by
  rw [UInt32.toNat_ofNat', Nat.mod_eq_of_lt h]

/-- The packet of a serialized message. -/
def encode (K : Codec) (data : List UInt8) (h : Sizes K data) : Packet :=
  if (compress K data).2.length < data.length then
    Packet.ofParts (UInt32.ofNat data.length) (UInt32.ofNat (compress K data).2.length)
      (K.sha256 data) (compress K data).2 (toNat_ofNat h.compress_lt).symm
      (List.length_pos_iff.mp h.compress_pos)
  else
    Packet.ofParts (UInt32.ofNat data.length) (UInt32.ofNat data.length) (K.sha256 data) data
      (toNat_ofNat h.serial_lt).symm (List.length_pos_iff.mp h.serial_pos)

theorem bytes_encode {data : List UInt8} (h : Sizes K data) :
    (encode K data h).bytes = pkgBuffer K data := by
  simp only [encode, pkgBuffer]
  split <;> rfl

/-- `toBytes` succeeds and produces one packet. -/
theorem toBytes_eq (hK : K.Lawful) (asserts : Bool) (g : Process) (ts : String) (m : CoreMessage) :
    m.toBytes K asserts g ts =
      .ret ((K.serializeToArray (m.toProto g ts).2).1, pkgBuffer K (m.serialBuffer K g ts),
        (m.toProto g ts).1) := by
  have hok : (compress K (m.serialBuffer K g ts)).1 = true := hK.compress2_ok _
  rw [serialBuffer] at hok ⊢
  simp only [toBytes, hok, Outcome.assert_of, Outcome.ret_bind]

end CoreMessage
end ClientService
