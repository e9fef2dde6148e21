import ClientService.Decoder.Basic
import ClientService.Lib.Reader

/-!
# The decoder refines a reader of packets

`Framing.Reader` says what the decoder is for: it keeps the unfinished packet and a queue,
and hands each complete packet to `openPacket`. The decoder spreads the unfinished packet
over `header_buffer`, `_buf` and three counters; `Holds` relates the two. `read_refines`
is one call of `read` and `readAll_refines` a whole run: related decoders and readers end
in the same kind of outcome, and stay related.
-/

namespace ClientService.ProtobufPacketDecoder

open Framing (Frame Reader Complete Stalled Stuck split)

/-- What `_read` makes of one packet. -/
def openPacket (K : Codec) (asserts : Bool) (f : Packet) (id : Int32) :
    Outcome (Option CoreMessage × Int32) :=
  openBody K asserts f.serialSize f.compressSize f.digest f.body id

/-- The decoder has `p` of a packet, at most its header, in `header_buffer`. -/
structure HeaderPhase (d : ProtobufPacketDecoder) (p : List UInt8) : Prop where
  compress : d.compressSize = 0
  remain : d.remainSize = 0
  unread : d.buf.unread = []
  good : d.buf.good = true
  size : d.headerSize.toNat = p.length
  le : p.length ≤ 40
  bytes : d.headerBuffer.toList.take p.length = p

/-- The decoder has read a header, and has `p` of the packet in `header_buffer` and `_buf`. -/
structure BodyPhase (d : ProtobufPacketDecoder) (p : List UInt8) : Prop where
  compress_ne : d.compressSize ≠ 0
  good : d.buf.good = true
  size : d.headerSize = 40
  bytes : p = d.headerBuffer.toList ++ d.buf.unread
  compress : d.compressSize = word d.headerBuffer.toList 1
  serial : d.serialSize = word d.headerBuffer.toList 0
  remain_pos : 0 < d.remainSize.toNat
  remain : d.buf.unread.length + d.remainSize.toNat = d.compressSize.toNat

/-- The decoder represents a reader. -/
structure Holds (d : ProtobufPacketDecoder) (r : Reader UInt8 (Option CoreMessage)) : Prop where
  phase : HeaderPhase d r.pending ∨ BodyPhase d r.pending
  queue : d.vec = r.queue

theorem headerPhase_fresh : HeaderPhase fresh [] := by
  constructor <;> simp [fresh]

theorem holds_fresh : Holds fresh Reader.fresh := ⟨Or.inl headerPhase_fresh, rfl⟩

/-! ## The header -/

theorem header_room {n : UInt32} (h : n.toNat ≤ 40) :
    0 < UInt32.ofNat packageHeaderSize - n ↔ n.toNat < 40 := by
  have h40 : (UInt32.ofNat packageHeaderSize).toNat = 40 := rfl
  have hle : n ≤ UInt32.ofNat packageHeaderSize := by
    rw [UInt32.le_iff_toNat_le, h40]
    exact h
  rw [UInt32.lt_iff_toNat_lt, UInt32.toNat_sub_of_le _ _ hle, h40, UInt32.toNat_zero]
  omega

/-- One turn of the copy loop. -/
theorem HeaderPhase.store {d : ProtobufPacketDecoder} {p : List UInt8} (h : HeaderPhase d p)
    (hlt : p.length < 40) (c : UInt8) :
    HeaderPhase
      { d with
        headerBuffer := d.headerBuffer.setIfInBounds d.headerSize.toNat c
        headerSize := d.headerSize + 1 } (p ++ [c]) where
  compress := h.compress
  remain := h.remain
  unread := h.unread
  good := h.good
  size := by
    have hs := h.size
    have hone : (1 : UInt32).toNat = 1 := rfl
    rw [UInt32.toNat_add, hs, hone, Nat.mod_eq_of_lt (by omega), List.length_append,
      List.length_singleton]
  le := by
    rw [List.length_append, List.length_singleton]
    omega
  bytes := by
    have hlen : p.length < d.headerBuffer.toList.length := by
      rw [Vector.length_toList]
      exact hlt
    rw [Vector.toList_setIfInBounds, h.size, List.length_append, List.length_singleton,
      List.take_add_one, List.take_set_of_le (le_refl _), h.bytes,
      List.getElem?_set_self hlen]
    rfl

/-- The copy loop moves bytes from the chunk to the header until the header is full. -/
theorem fillHeader_spec {d : ProtobufPacketDecoder} {p : List UInt8} (h : HeaderPhase d p)
    (data : List UInt8) :
    HeaderPhase (fillHeader d data).1 ((p ++ data).take 40) ∧
      (fillHeader d data).2 = (p ++ data).drop 40 ∧ (fillHeader d data).1.vec = d.vec := by
  induction data generalizing d p with
  | nil =>
      simp only [fillHeader, List.append_nil, List.take_of_length_le h.le,
        List.drop_eq_nil_of_le h.le]
      exact ⟨h, trivial, trivial⟩
  | cons c data ih =>
      by_cases hlt : p.length < 40
      · have hroom : 0 < UInt32.ofNat packageHeaderSize - d.headerSize := by
          rw [header_room (by rw [h.size]; exact h.le), h.size]
          exact hlt
        rw [fillHeader, if_pos hroom]
        have hnext := ih (h.store hlt c)
        rw [List.append_assoc, List.singleton_append] at hnext
        exact hnext
      · have hroom : ¬0 < UInt32.ofNat packageHeaderSize - d.headerSize := by
          rw [header_room (by rw [h.size]; exact h.le), h.size]
          exact hlt
        have hlen : p.length = 40 := le_antisymm h.le (not_lt.mp hlt)
        rw [fillHeader, if_neg hroom, ← hlen, List.take_left, List.drop_left]
        exact ⟨h, rfl, rfl⟩

/-- A header that announces no body sends the two functions to each other for ever. -/
theorem spin (K : Codec) (asserts : Bool) (n : ℕ) {d : ProtobufPacketDecoder}
    (hc : d.compressSize = 0) (hs : d.headerSize = 40) (hw : word d.headerBuffer.toList 1 = 0)
    (data : List UInt8) (id : Int32) :
    parseHeader K asserts n d data id = .running ∧ _read K asserts n d data id = .running := by
  induction n generalizing d data with
  | zero => exact ⟨rfl, rfl⟩
  | succ n ih =>
      constructor
      · have hlt : ¬d.headerSize < 40 := by rw [hs]; decide
        have hnext := (ih (d := { d with
            compressSize := word d.headerBuffer.toList 1
            remainSize := word d.headerBuffer.toList 1
            serialSize := word d.headerBuffer.toList 0 }) hw hs hw data).2
        simp only [parseHeader, hlt, false_and, if_false, if_pos hs, if_pos hc, hnext,
          Outcome.running_bind]
      · have hc' : ¬d.compressSize ≠ 0 := not_not.mpr hc
        simp only [_read, if_neg hc', (ih hc hs hw data).1, Outcome.running_bind]

/-! ## The body -/

theorem BodyPhase.announced {d : ProtobufPacketDecoder} {p : List UInt8} (h : BodyPhase d p) :
    packet.announced p = d.compressSize.toNat := by
  have htake : p.take 40 = d.headerBuffer.toList := by
    rw [h.bytes]
    exact List.take_left' Vector.length_toList
  have hword : word (p.take 40) 1 = word p 1 := word_take (by decide)
  rw [announced_packet, ← hword, htake, h.compress]

theorem BodyPhase.length {d : ProtobufPacketDecoder} {p : List UInt8} (h : BodyPhase d p) :
    p.length + d.remainSize.toNat = 40 + packet.announced p := by
  have hr := h.remain
  have hl : d.headerBuffer.toList.length = 40 := Vector.length_toList
  rw [h.announced, h.bytes, List.length_append, hl]
  omega

theorem BodyPhase.announced_append {d : ProtobufPacketDecoder} {p : List UInt8}
    (h : BodyPhase d p) (data : List UInt8) :
    packet.announced (p ++ data) = packet.announced p := by
  apply Framing.announced_append
  have hl : d.headerBuffer.toList.length = 40 := Vector.length_toList
  rw [packet_header, h.bytes, List.length_append, hl]
  omega

theorem BodyPhase.announced_ne {d : ProtobufPacketDecoder} {p : List UInt8} (h : BodyPhase d p) :
    packet.announced p ≠ 0 := by
  rw [h.announced]
  exact fun h0 => h.compress_ne (UInt32.toNat_inj.mp h0)

/-- The packet that a chunk with enough bytes completes. -/
def complete {d : ProtobufPacketDecoder} {p : List UInt8} (h : BodyPhase d p) (data : List UInt8)
    (hle : d.remainSize.toNat ≤ data.length) : Packet where
  bytes := p ++ data.take d.remainSize.toNat
  length_eq := by
    rw [h.announced_append, List.length_append, List.length_take_of_le hle, packet_header]
    exact h.length
  announced_ne := by
    rw [h.announced_append]
    exact h.announced_ne

section
variable {d : ProtobufPacketDecoder} {p : List UInt8} (h : BodyPhase d p) (data : List UInt8)
  (hle : d.remainSize.toNat ≤ data.length)

theorem complete_append :
    p ++ data = (complete h data hle).bytes ++ data.drop d.remainSize.toNat := by
  rw [complete, List.append_assoc, List.take_append_drop]

theorem bytes_complete : (complete h data hle).bytes =
    d.headerBuffer.toList ++ (d.buf.unread ++ data.take d.remainSize.toNat) := by
  have hp : (complete h data hle).bytes = p ++ data.take d.remainSize.toNat := rfl
  rw [hp, ← List.append_assoc]
  exact congrArg (· ++ _) h.bytes

theorem head_complete : (complete h data hle).head = d.headerBuffer.toList := by
  rw [Frame.head, bytes_complete]
  exact List.take_left' Vector.length_toList

theorem body_complete :
    (complete h data hle).body = d.buf.unread ++ data.take d.remainSize.toNat := by
  rw [Frame.body, bytes_complete]
  exact List.drop_left' Vector.length_toList

theorem word_complete {k : ℕ} (hk : 4 * k + 3 < 40) :
    word (complete h data hle).bytes k = word d.headerBuffer.toList k := by
  rw [← word_take hk]
  congr 1
  exact head_complete h data hle

/-- `_read` opens the packet it has completed. -/
theorem openBody_complete (K : Codec) (asserts : Bool) (id : Int32) :
    openBody K asserts d.serialSize d.compressSize (d.headerBuffer.toList.drop 8)
      (d.buf.unread ++ data.take d.remainSize.toNat) id =
      openPacket K asserts (complete h data hle) id := by
  rw [openPacket, Packet.serialSize, Packet.compressSize, Packet.digest, head_complete,
    body_complete, word_complete h data hle (by decide), word_complete h data hle (by decide),
    h.serial, h.compress]

end

/-- A chunk too short for the packet is buffered. -/
theorem BodyPhase.buffer {d : ProtobufPacketDecoder} {p : List UInt8} (h : BodyPhase d p)
    {data : List UInt8} (hlt : data.length < d.remainSize.toNat) :
    BodyPhase
      { d with buf := d.buf.write data, remainSize := d.remainSize - UInt32.ofNat data.length }
      (p ++ data) := by
  have hr32 : d.remainSize.toNat < 2 ^ 32 := d.remainSize.toNat_lt
  have hof : (UInt32.ofNat data.length).toNat = data.length := by
    rw [UInt32.toNat_ofNat', Nat.mod_eq_of_lt (by omega)]
  have hsub : (d.remainSize - UInt32.ofNat data.length).toNat =
      d.remainSize.toNat - data.length := by
    rw [UInt32.toNat_sub_of_le, hof]
    rw [UInt32.le_iff_toNat_le, hof]
    exact hlt.le
  have hwrite : d.buf.write data = { d.buf with unread := d.buf.unread ++ data } := by
    rw [StringStream.write, if_pos h.good]
  have hr := h.remain
  constructor
  · exact h.compress_ne
  · rw [hwrite]
    exact h.good
  · exact h.size
  · rw [hwrite, h.bytes, List.append_assoc]
  · exact h.compress
  · exact h.serial
  · rw [hsub]
    omega
  · rw [hwrite, hsub, List.length_append]
    change _ = d.compressSize.toNat
    omega

/-! ## The recursion

The induction is on the length of the chunk. A call of `_read` inside a body consumes at
least one byte before it calls `parseHeader`, and `parseHeader` never gives `_read` more
than it was given. -/

/-- A decoder and a counter that represent a reader and its counter. -/
def Same (x : ProtobufPacketDecoder × Int32)
    (y : Reader UInt8 (Option CoreMessage) × Int32) : Prop := Holds x.1 y.1 ∧ x.2 = y.2

theorem Holds.good {d : ProtobufPacketDecoder} {r : Reader UInt8 (Option CoreMessage)}
    (h : Holds d r) : d.buf.good = true := by
  rcases h.phase with h | h
  · exact h.good
  · exact h.good

theorem HeaderPhase.toList {d : ProtobufPacketDecoder} {p : List UInt8} (h : HeaderPhase d p)
    (hp : p.length = 40) : d.headerBuffer.toList = p := by
  have hl : d.headerBuffer.toList.length = 40 := Vector.length_toList
  have hb := h.bytes
  rwa [hp, ← hl, List.take_length] at hb

/-- The decoder that has just read a whole header. -/
def openHeader (d : ProtobufPacketDecoder) : ProtobufPacketDecoder :=
  { d with
    compressSize := word d.headerBuffer.toList 1
    remainSize := word d.headerBuffer.toList 1
    serialSize := word d.headerBuffer.toList 0 }

section
variable (d : ProtobufPacketDecoder)

@[simp] theorem openHeader_compressSize :
    d.openHeader.compressSize = word d.headerBuffer.toList 1 := rfl
@[simp] theorem openHeader_remainSize :
    d.openHeader.remainSize = word d.headerBuffer.toList 1 := rfl
@[simp] theorem openHeader_serialSize :
    d.openHeader.serialSize = word d.headerBuffer.toList 0 := rfl
@[simp] theorem openHeader_headerSize : d.openHeader.headerSize = d.headerSize := rfl
@[simp] theorem openHeader_headerBuffer : d.openHeader.headerBuffer = d.headerBuffer := rfl
@[simp] theorem openHeader_buf : d.openHeader.buf = d.buf := rfl
@[simp] theorem openHeader_vec : d.openHeader.vec = d.vec := rfl

end

theorem HeaderPhase.openHeader {d : ProtobufPacketDecoder} {p : List UInt8} (h : HeaderPhase d p)
    (hp : p.length = 40) (h0 : word p 1 ≠ 0) : BodyPhase d.openHeader p := by
  have hl := h.toList hp
  have hs : d.headerSize = 40 := by
    rw [← UInt32.toNat_inj, h.size, hp]
    rfl
  have hpos : 0 < (word p 1).toNat := by
    rw [Nat.pos_iff_ne_zero]
    exact fun h' => h0 (UInt32.toNat_inj.mp h')
  constructor
  · rw [openHeader_compressSize, hl]
    exact h0
  · exact h.good
  · exact hs
  · rw [openHeader_headerBuffer, openHeader_buf, hl, h.unread, List.append_nil]
  · rfl
  · rfl
  · rw [openHeader_remainSize, hl]
    exact hpos
  · rw [openHeader_buf, h.unread, List.length_nil, Nat.zero_add, openHeader_remainSize,
      openHeader_compressSize]

/-! `parseHeader` does not look at the stream, so what it does is stated for a decoder whose
stream is put aside. -/

/-- The decoder with nothing in its stream. -/
def emptied (d : ProtobufPacketDecoder) : ProtobufPacketDecoder := { d with buf := ⟨[], true⟩ }

theorem HeaderPhase.emptied {d : ProtobufPacketDecoder} {p : List UInt8} (h : HeaderPhase d p) :
    HeaderPhase d.emptied p :=
  ⟨h.compress, h.remain, rfl, rfl, h.size, h.le, h.bytes⟩

theorem HeaderPhase.of_emptied {d : ProtobufPacketDecoder} {p : List UInt8}
    (h : HeaderPhase d.emptied p) (hbuf : d.buf = ⟨[], true⟩) : HeaderPhase d p :=
  ⟨h.compress, h.remain, congrArg StringStream.unread hbuf, congrArg StringStream.good hbuf, h.size,
    h.le, h.bytes⟩

theorem HeaderPhase.buf {d : ProtobufPacketDecoder} {p : List UInt8} (h : HeaderPhase d p) :
    d.buf = ⟨[], true⟩ := congrArg₂ StringStream.mk h.unread h.good

/-- The copy loop leaves the stream alone. -/
theorem fillHeader_emptied (d : ProtobufPacketDecoder) (data : List UInt8) :
    fillHeader d.emptied data = ((fillHeader d data).1.emptied, (fillHeader d data).2) ∧
      (fillHeader d data).1.buf = d.buf := by
  induction data generalizing d with
  | nil => exact ⟨rfl, rfl⟩
  | cons c data ih =>
      by_cases hroom : 0 < UInt32.ofNat packageHeaderSize - d.headerSize
      · have hroom' : 0 < UInt32.ofNat packageHeaderSize - d.emptied.headerSize := hroom
        rw [fillHeader, fillHeader, if_pos hroom, if_pos hroom']
        exact ih
          { d with
            headerBuffer := d.headerBuffer.setIfInBounds d.headerSize.toNat c
            headerSize := d.headerSize + 1 }
      · have hroom' : ¬0 < UInt32.ofNat packageHeaderSize - d.emptied.headerSize := hroom
        rw [fillHeader, fillHeader, if_neg hroom, if_neg hroom']
        exact ⟨rfl, rfl⟩

section
variable {K : Codec} {asserts : Bool} {d : ProtobufPacketDecoder} {p : List UInt8}
  {data : List UInt8}

/-- The chunk ends inside or right behind the header. -/
theorem parseHeader_short (h : HeaderPhase d.emptied p) (hp : p.length < 40)
    (hend : (p ++ data).length ≤ 40) (n : ℕ) (id : Int32) :
    parseHeader K asserts (n + 1) d data id = .ret ((fillHeader d data).1, id) := by
  have hlt : d.headerSize < 40 := by
    rw [UInt32.lt_iff_toNat_lt]
    exact h.size.trans_lt hp
  have hrest : (fillHeader d data).2 = [] := by
    have hfill := (fillHeader_spec h data).2.1
    rw [(fillHeader_emptied d data).1, List.drop_eq_nil_of_le hend] at hfill
    exact hfill
  simp only [parseHeader, hlt, hrest, List.length_nil, and_self, if_true]

variable (K asserts) in
/-- The chunk reaches the body, or the header was complete before it. -/
theorem parseHeader_long (h : HeaderPhase d.emptied p)
    (hend : p.length = 40 ∨ 40 < (p ++ data).length) (n : ℕ) (id : Int32) :
    ∃ d' : ProtobufPacketDecoder, HeaderPhase d'.emptied ((p ++ data).take 40) ∧ d'.vec = d.vec ∧ d'.buf = d.buf ∧
      parseHeader K asserts (n + 1) d data id =
        (_read K asserts n d'.openHeader ((p ++ data).drop 40) id >>= fun x =>
          Outcome.ret (x.2.1, x.2.2)) := by
  have hle := h.le
  have hsize : d.headerSize < 40 ↔ p.length < 40 := by
    rw [UInt32.lt_iff_toNat_lt]
    exact iff_of_eq (congrArg (· < 40) h.size)
  by_cases hp : p.length < 40
  · obtain ⟨hfill, hrest, hvec⟩ := fillHeader_spec h data
    rw [(fillHeader_emptied d data).1] at hfill hrest hvec
    have hlong : 40 < (p ++ data).length := hend.resolve_left (Nat.ne_of_lt hp)
    have hlen : ((p ++ data).take 40).length = 40 := List.length_take_of_le hlong.le
    have hs40 : (fillHeader d data).1.headerSize = 40 := by
      rw [← UInt32.toNat_inj]
      exact hfill.size.trans hlen
    have hc : (fillHeader d data).1.compressSize = 0 := hfill.compress
    have hrest : (fillHeader d data).2 = (p ++ data).drop 40 := hrest
    have hne : ¬(fillHeader d data).2.length = 0 := by
      rw [hrest, List.length_drop]
      omega
    refine ⟨(fillHeader d data).1, hfill, hvec, (fillHeader_emptied d data).2, ?_⟩
    simp only [parseHeader, if_pos (hsize.mpr hp), hne, and_false, if_false, if_pos hs40,
      if_pos hc, ← hrest]
    rfl
  · have hp40 : p.length = 40 := by omega
    have hs40 : d.headerSize = 40 := by
      rw [← UInt32.toNat_inj]
      exact h.size.trans hp40
    have hnlt : ¬d.headerSize < 40 := fun hlt => hp (hsize.mp hlt)
    have hc : d.compressSize = 0 := h.compress
    refine ⟨d, ?_, rfl, rfl, ?_⟩
    · rw [← hp40, List.take_left]
      exact h
    · rw [← hp40, List.drop_left]
      simp only [parseHeader, hnlt, false_and, if_false, if_pos hs40, if_pos hc]
      rfl

end

section
variable (K : Codec) (asserts : Bool)

/-- What the recursion promises for chunks of length `n` that are read inside a body. -/
def BodyRefines (n : ℕ) : Prop :=
  ∀ (data : List UInt8) (fuel : ℕ) (d : ProtobufPacketDecoder) (p : List UInt8) (id : Int32),
    data.length = n → 2 * n + 1 ≤ fuel → BodyPhase d p →
      Outcome.Rel (fun x => Same x.2) (_read K asserts fuel d data id)
        (Reader.read (openPacket K asserts) ⟨p, d.vec⟩ data id)

variable {K asserts}

/-- The end of `parseHeader`, at a complete header. -/
theorem parseHeader_full {d : ProtobufPacketDecoder} {q rest p data : List UInt8} {fuel : ℕ}
    (hb : BodyRefines K asserts rest.length) (hfuel : 2 * rest.length + 1 ≤ fuel)
    (h : HeaderPhase d q) (hq : q.length = 40) (hcut : p ++ data = q ++ rest)
    (hstuck : Stalled packet q → Stuck packet p (p ++ data))
    (hstalled : Stalled packet p → Stalled packet q) (id : Int32) :
    Outcome.Rel Same
      (_read K asserts fuel d.openHeader rest id >>= fun x => Outcome.ret (x.2.1, x.2.2))
      (Reader.read (openPacket K asserts) ⟨p, d.vec⟩ data id) := by
  have hl := h.toList hq
  by_cases h0 : word q 1 = 0
  · have hst : Stalled packet q := ⟨hq.ge, by rw [announced_packet, h0]; rfl⟩
    have hs : d.headerSize = 40 := by
      rw [← UInt32.toNat_inj, h.size, hq]
      rfl
    rw [Reader.read_stuck (hstuck hst)]
    have hword : word d.headerBuffer.toList 1 = 0 := by rw [hl, h0]
    have hspin := (spin K asserts fuel (d := d.openHeader) hword hs hword rest id).2
    rw [hspin]
    exact .running
  · have hst : ¬Stalled packet q := by
      rintro ⟨_, ha⟩
      rw [announced_packet] at ha
      exact h0 (UInt32.toNat_inj.mp ha)
    have hsame : Stalled packet p ↔ Stalled packet q :=
      ⟨hstalled, fun hq' => absurd hq' hst⟩
    rw [Reader.read_congr hcut hsame]
    have hread := hb rest fuel d.openHeader q id rfl hfuel (h.openHeader hq h0)
    have hbind := hread.bind (f := fun x => Outcome.ret (x.2.1, x.2.2)) (g := Outcome.ret)
      (S := Same) fun _ _ hsame => .ret hsame
    have hret : ∀ x : Outcome (Reader UInt8 (Option CoreMessage) × Int32),
        x >>= Outcome.ret = x := by
      intro x
      cases x <;> rfl
    rw [hret] at hbind
    exact hbind

/-- `parseHeader`, given the recursion for chunks that are no longer. -/
theorem parseHeader_refines {data : List UInt8}
    (hb : ∀ n ≤ data.length, BodyRefines K asserts n) {fuel : ℕ}
    (hfuel : 2 * data.length + 2 ≤ fuel) {d : ProtobufPacketDecoder} {p : List UInt8}
    (h : HeaderPhase d p) (id : Int32) :
    Outcome.Rel Same (parseHeader K asserts fuel d data id)
      (Reader.read (openPacket K asserts) ⟨p, d.vec⟩ data id) := by
  obtain ⟨fuel, rfl⟩ : ∃ k, fuel = k + 1 := ⟨fuel - 1, by omega⟩
  have hle := h.le
  by_cases hshort : p.length < 40 ∧ (p ++ data).length ≤ 40
  · obtain ⟨hp, hend⟩ := hshort
    have hc : ¬Complete packet (p ++ data) := by
      rintro ⟨hne, hlen⟩
      rw [packet_header] at hlen
      omega
    have hs : ¬Stuck packet p (p ++ data) := by
      rintro ⟨_, hlt | hst⟩
      · exact absurd hlt (not_lt.mpr hend)
      · exact absurd hst.1 (not_le.mpr hp)
    rw [Reader.read_rest hc hs, parseHeader_short h.emptied hp hend]
    obtain ⟨hfill, _, hvec⟩ := fillHeader_spec h data
    rw [List.take_of_length_le hend] at hfill
    exact .ret ⟨⟨Or.inl hfill, hvec⟩, rfl⟩
  · have hlong : p.length = 40 ∨ 40 < (p ++ data).length := by omega
    obtain ⟨d', hd', hvec, hbuf, heq⟩ :=
      parseHeader_long K asserts h.emptied hlong fuel id
    rw [heq, ← hvec]
    have hlen : ((p ++ data).take 40).length = 40 := by
      rw [List.length_take, List.length_append]
      rw [List.length_append] at hlong
      omega
    have hrest : ((p ++ data).drop 40).length ≤ data.length := by
      rw [List.length_drop, List.length_append]
      omega
    have hphase := hd'.of_emptied (hbuf.trans h.buf)
    have hcut := (List.take_append_drop 40 (p ++ data)).symm
    refine parseHeader_full (hb _ hrest) (by omega) hphase hlen hcut ?_ ?_ id
    · intro hst
      rw [hcut]
      refine ⟨hst.append _, ?_⟩
      rcases hlong with hp | hlong
      · right
        have htake : (p ++ data).take 40 = p := by rw [← hp, List.take_left]
        rwa [htake] at hst
      · left
        rw [← hcut]
        exact hlong
    · intro hst
      have hp : 40 ≤ p.length := hst.1
      have htake : (p ++ data).take 40 = p := by
        rw [← le_antisymm hle hp, List.take_left]
      rwa [htake]

/-- After the recursion, `_read` checks its stream and returns. -/
theorem rel_tail {x : Outcome (ProtobufPacketDecoder × Int32)}
    {y : Outcome (Reader UInt8 (Option CoreMessage) × Int32)} (h : Outcome.Rel Same x y)
    (ret : Option CoreMessage) :
    Outcome.Rel (fun x : Option CoreMessage × ProtobufPacketDecoder × Int32 => Same x.2)
      (x >>= fun z => Outcome.assert asserts (z.1.buf.good = true) >>= fun _ =>
        Outcome.ret (ret, z.1, z.2)) y := by
  cases h with
  | ret h =>
      rw [Outcome.ret_bind, Outcome.assert_of _ h.1.good]
      exact .ret h
  | aborted => exact .aborted
  | running => exact .running

/-- What the decoder is once it has taken a whole body. -/
theorem headerPhase_next (d : ProtobufPacketDecoder) (vec : List (Option CoreMessage)) :
    HeaderPhase
      { d with buf := ⟨[], true⟩, vec := vec, headerSize := 0, remainSize := 0,
               compressSize := 0 } [] where
  compress := rfl
  remain := rfl
  unread := rfl
  good := rfl
  size := rfl
  le := Nat.zero_le _
  bytes := rfl

/-- The whole body is what the stream held and the rest from the chunk. -/
theorem BodyPhase.read {d : ProtobufPacketDecoder} {p : List UInt8} (h : BodyPhase d p) :
    d.buf.unread.length = (d.compressSize - d.remainSize).toNat ∧
      d.buf.read (d.compressSize - d.remainSize).toNat = (d.buf.unread, ⟨[], true⟩) := by
  have hr := h.remain
  have hwant : d.buf.unread.length = (d.compressSize - d.remainSize).toNat := by
    rw [UInt32.toNat_sub_of_le]
    · omega
    · rw [UInt32.le_iff_toNat_le]
      omega
  refine ⟨hwant, ?_⟩
  rw [StringStream.read, if_pos h.good, ← hwant, List.take_length, List.drop_length]
  simp

theorem bodyRefines (n : ℕ) : BodyRefines K asserts n := by
  induction n using Nat.strong_induction_on with
  | _ n ih =>
    intro data fuel d p id hn hfuel h
    obtain ⟨fuel, rfl⟩ : ∃ k, fuel = k + 1 := ⟨fuel - 1, by omega⟩
    have hpos := h.remain_pos
    by_cases hle : d.remainSize.toNat ≤ data.length
    · obtain ⟨hgot, hread⟩ := h.read
      rw [Reader.read_frame (complete_append h data hle)]
      simp only [_read, if_pos h.compress_ne, if_pos hle, hread, Outcome.assert_of _ hgot,
        Outcome.ret_bind, openBody_complete h data hle]
      cases openPacket K asserts (complete h data hle) id with
      | aborted => exact .aborted
      | running => exact .running
      | ret x =>
          have hdrop : (data.drop d.remainSize.toNat).length < n := by
            rw [List.length_drop]
            omega
          have hbudget : 2 * (data.drop d.remainSize.toNat).length + 2 ≤ fuel := by omega
          have hshorter : ∀ k ≤ (data.drop d.remainSize.toNat).length,
              BodyRefines K asserts k := fun k hk => ih k (by omega)
          have hnext := parseHeader_refines hshorter hbudget
            (headerPhase_next d (d.vec ++ [x.1])) x.2
          exact rel_tail hnext x.1
    · have hlt : data.length < d.remainSize.toNat := not_le.mp hle
      have hnext := h.buffer hlt
      have hann := h.announced_append data
      have hc : ¬Complete packet (p ++ data) := by
        rintro ⟨_, hlen⟩
        have hplen := h.length
        rw [packet_header, hann, List.length_append] at hlen
        omega
      have hs : ¬Stuck packet p (p ++ data) := by
        rintro ⟨⟨_, h0⟩, _⟩
        rw [hann] at h0
        exact h.announced_ne h0
      have hrem : d.remainSize - UInt32.ofNat data.length ≤ d.compressSize := by
        have := hnext.remain
        rw [UInt32.le_iff_toNat_le]
        change _ + (d.remainSize - UInt32.ofNat data.length).toNat = d.compressSize.toNat at this
        omega
      rw [Reader.read_rest hc hs]
      simp only [_read, if_pos h.compress_ne, if_neg hle, Outcome.assert_of _ hrem,
        Outcome.assert_of _ hnext.good, Outcome.ret_bind]
      exact .ret ⟨⟨Or.inr hnext, rfl⟩, rfl⟩

/-- One call of `_read` refines one step of the reader, under every budget that covers
the chunk. -/
theorem _read_refines {d : ProtobufPacketDecoder} {r : Reader UInt8 (Option CoreMessage)}
    (h : Holds d r) {data : List UInt8} {fuel : ℕ} (hfuel : callBound data.length ≤ fuel)
    (id : Int32) :
    Outcome.Rel (fun x => Same x.2) (_read K asserts fuel d data id)
      (Reader.read (openPacket K asserts) r data id) := by
  obtain ⟨p, q⟩ := r
  have hq : d.vec = q := h.queue
  subst hq
  rw [callBound] at hfuel
  rcases h.phase with hh | hb
  · have hc : ¬d.compressSize ≠ 0 := not_not.mpr hh.compress
    obtain ⟨fuel, rfl⟩ : ∃ k, fuel = k + 1 := ⟨fuel - 1, by omega⟩
    have hbudget : 2 * data.length + 2 ≤ fuel := by omega
    have hbody : ∀ k ≤ data.length, BodyRefines K asserts k := fun k _ => bodyRefines k
    have hnext := parseHeader_refines hbody hbudget hh id
    simp only [_read, if_neg hc]
    exact rel_tail hnext none
  · exact bodyRefines data.length data fuel d p id rfl (by omega) hb

variable (K asserts) in
/-- **One call of `read` refines one step of the reader.** -/
theorem read_refines {d : ProtobufPacketDecoder} {r : Reader UInt8 (Option CoreMessage)}
    (h : Holds d r) (data : List UInt8) (id : Int32) :
    Outcome.Rel (fun x => Same x.2) (read K asserts d data id)
      (Reader.read (openPacket K asserts) r data id) :=
  _read_refines h (le_refl _) id

variable (K asserts) in
/-- **A run of the decoder refines a run of the reader.** -/
theorem readAll_refines {d : ProtobufPacketDecoder} {r : Reader UInt8 (Option CoreMessage)}
    (h : Holds d r) (cs : List Chunk) :
    Outcome.Rel Holds (readAll K asserts d cs)
      (Reader.readAll (openPacket K asserts) r (cs.map fun c => (c.data, c.id))) := by
  induction cs generalizing d r with
  | nil => exact .ret h
  | cons c cs ih =>
      simp only [readAll, List.map_cons, Reader.readAll]
      exact (read_refines K asserts h c.data c.id).bind fun x y hxy => ih hxy.1

/-! ## Larger budgets -/

/-- One more call in the budget changes no outcome. -/
theorem fuel_le_succ (n : ℕ) (d : ProtobufPacketDecoder) (data : List UInt8) (id : Int32) :
    parseHeader K asserts n d data id ≤ parseHeader K asserts (n + 1) d data id ∧
      _read K asserts n d data id ≤ _read K asserts (n + 1) d data id := by
  induction n generalizing d data id with
  | zero => exact ⟨Outcome.running_le _, Outcome.running_le _⟩
  | succ n ih =>
      constructor
      · simp only [parseHeader]
        generalize (if d.headerSize < 40 then fillHeader d data else (d, data)) = filled
        split
        · exact Outcome.le_refl _
        · split
          · split
            · exact Outcome.bind_le_bind (ih _ _ _).2 fun _ => Outcome.le_refl _
            · exact Outcome.le_refl _
          · exact Outcome.le_refl _
      · simp only [_read]
        split
        · split
          · refine Outcome.bind_le_bind (Outcome.le_refl _) fun _ => ?_
            refine Outcome.bind_le_bind (Outcome.le_refl _) fun x => ?_
            exact Outcome.bind_le_bind (ih _ _ _).1 fun _ => Outcome.le_refl _
          · exact Outcome.le_refl _
        · exact Outcome.bind_le_bind (ih _ _ _).1 fun _ => Outcome.le_refl _

theorem _read_mono {m n : ℕ} (h : m ≤ n) (d : ProtobufPacketDecoder) (data : List UInt8)
    (id : Int32) : _read K asserts m d data id ≤ _read K asserts n d data id :=
  Outcome.le_of_succ_le (fun k => (fuel_le_succ k d data id).2) h

/-- A call that spends the budget of `read` spends every budget. -/
theorem running_of_read {d : ProtobufPacketDecoder} {r : Reader UInt8 (Option CoreMessage)}
    (h : Holds d r) {data : List UInt8} {id : Int32} (hrun : read K asserts d data id = .running)
    (n : ℕ) : _read K asserts n d data id = .running := by
  by_cases hn : n ≤ callBound data.length
  · exact Outcome.eq_running_of_le (_read_mono hn d data id) hrun
  · have hreader := (read_refines K asserts h data id).running_iff.mp hrun
    have hle : callBound data.length ≤ n := (not_le.mp hn).le
    have hrel : Outcome.Rel (fun x => Same x.2) (_read K asserts n d data id)
        (Reader.read (openPacket K asserts) r data id) := _read_refines h hle id
    exact hrel.running_iff.mpr hreader

end
end ClientService.ProtobufPacketDecoder
