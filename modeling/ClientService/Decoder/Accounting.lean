import ClientService.Lib.Traced
import ClientService.Decoder.Reset

/-!
# The decoder's accounts

`_read` and `parseHeader` once more, with what they do to memory on the way: `compressSize`,
`remainSize` and `headerSize` say how much of `_buf`, of the chunk and of `header_buffer`
may be used, and no member checks them anywhere but in its assertions. The pointer and the
length of a chunk are two arguments here, as they are in the source.

Apart from the events, these are the functions of the decoder's model
(`traced_outcome`).

## Main definitions

* `Event`, `Event.Sound`: what happens, and what it takes for it to be harmless.
* `parseHeaderTraced`, `_readTraced`: the recursion.
* `Accounted`: the relation between the sizes and the stream.
-/

namespace ClientService
namespace ProtobufPacketDecoder

open Traced (Meets tell lift)

/-- The sizes agree with each other and with the stream. -/
structure Accounted (d : ProtobufPacketDecoder) : Prop where
  header : d.headerSize.toNat ≤ packageHeaderSize
  le : d.remainSize ≤ d.compressSize
  zero : d.compressSize = 0 → d.remainSize = 0
  unread : (d.compressSize - d.remainSize).toNat ≤ d.buf.unread.length

/-- What the members do on the way. -/
inductive Event where
  /-- `_read` or `parseHeader` begins. -/
  | entry (d : ProtobufPacketDecoder)
  /-- A store into `header_buffer`. -/
  | store (i : ℕ)
  /-- An assertion about the sizes or the stream. -/
  | assertion (holds : Bool)
  /-- `buf` of `capacity` bytes takes `got` bytes at its beginning and `size` bytes from
  `start` on. -/
  | fill (capacity got start size : ℕ)
  /-- `n` of the `len` bytes from a pointer to the end of its chunk are read or passed over. -/
  | reach (n len : ℕ)
  /-- The unsigned subtraction `a - b`. -/
  | sub (a b : ℕ)

/-- Nothing goes wrong. -/
def Event.Sound : Event → Prop
  | entry d => d.Accounted
  | store i => i < packageHeaderSize
  | assertion holds => holds = true
  | fill capacity got start size => got = start ∧ start + size = capacity
  | reach n len => n ≤ len
  | sub a b => b ≤ a

/-- The copy loop of `parseHeader`, with `_size`, `c` and `_data` as it leaves them. -/
def fillHeaderTraced (data : List UInt8) :
    ℕ → ProtobufPacketDecoder → ℕ → ℕ → Traced Event (ProtobufPacketDecoder × ℕ × ℕ)
  | 0, d, _, _data => do
      tell (.sub packageHeaderSize d.headerSize.toNat)
      pure (d, 0, _data)
  | _size + 1, d, c, _data => do
      tell (.sub packageHeaderSize d.headerSize.toNat)
      if 0 < UInt32.ofNat packageHeaderSize - d.headerSize then do
        tell (.reach (c + 1) data.length)
        tell (.store d.headerSize.toNat)
        tell (.sub (_size + 1) 1)
        tell (.reach (_data + 1) data.length)
        fillHeaderTraced data _size
          { d with
            headerBuffer := d.headerBuffer.setIfInBounds d.headerSize.toNat (data.getD c 0)
            headerSize := d.headerSize + 1 } (c + 1) (_data + 1)
      else pure (d, _size + 1, _data)

mutual

/-- `parseHeader`: `data` are the bytes from the pointer to the end of the chunk. -/
def parseHeaderTraced (K : Codec) (asserts : Bool) : ℕ → ProtobufPacketDecoder → List UInt8 → ℕ →
    Int32 → Traced Event (ProtobufPacketDecoder × Int32)
  | 0, _, _, _, _ => lift .running
  | n + 1, d, data, size, id => do
      tell (.entry d)
      let (d', _size, _data) ←
        (if d.headerSize < 40 then fillHeaderTraced data size d 0 0 else pure (d, size, 0))
      if d.headerSize < 40 ∧ _size = 0 then pure (d', id)
      else if d'.headerSize = 40 then
        if d'.compressSize = 0 then do
          let size := word d'.headerBuffer.toList 1
          let (_, d'', id) ← _readTraced K asserts n
            { d' with compressSize := size, remainSize := size,
                      serialSize := word d'.headerBuffer.toList 0 } (data.drop _data) _size id
          pure (d'', id)
        else do
          tell (.assertion false)
          lift (Outcome.assert asserts False)
          pure (d', id)
      else pure (d', id)

/-- `_read`. -/
def _readTraced (K : Codec) (asserts : Bool) : ℕ → ProtobufPacketDecoder → List UInt8 → ℕ →
    Int32 → Traced Event (Option CoreMessage × ProtobufPacketDecoder × Int32)
  | 0, _, _, _, _ => lift .running
  | n + 1, d, data, size, id => do
      tell (.entry d)
      if d.compressSize ≠ 0 then
        if d.remainSize.toNat ≤ size then do
          tell (.sub d.compressSize.toNat d.remainSize.toNat)
          let want := (d.compressSize - d.remainSize).toNat
          let (got, stream) := d.buf.read want
          tell (.assertion (decide (got.length = want)))
          lift (Outcome.assert asserts (got.length = want))
          tell (.reach d.remainSize.toNat data.length)
          tell (.fill d.compressSize.toNat got.length want d.remainSize.toNat)
          let (ret, id) ← lift (openBody K asserts d.serialSize d.compressSize
            (d.headerBuffer.toList.drop 8) (got ++ data.take d.remainSize.toNat) id)
          let d' := { d with buf := stream, vec := d.vec ++ [ret], headerSize := 0,
                             compressSize := 0 }
          let (d', id) ←
            (if d'.remainSize.toNat ≤ size then do
              tell (.sub size d'.remainSize.toNat)
              let size := size - d'.remainSize.toNat
              tell (.reach d'.remainSize.toNat data.length)
              let p := data.drop d'.remainSize.toNat
              let d' := { d' with headerSize := 0, remainSize := 0, compressSize := 0 }
              tell (.sub size d'.remainSize.toNat)
              parseHeaderTraced K asserts n d' p (size - d'.remainSize.toNat) id
            else do
              tell (.assertion false)
              lift (Outcome.assert asserts False)
              pure (d', id))
          tell (.assertion d'.buf.good)
          lift (Outcome.assert asserts (d'.buf.good = true))
          pure (ret, d', id)
        else do
          tell (.reach size data.length)
          let buf := d.buf.write (data.take size)
          tell (.sub d.remainSize.toNat size)
          let remainSize := d.remainSize - UInt32.ofNat size
          tell (.assertion (decide (remainSize ≤ d.compressSize)))
          lift (Outcome.assert asserts (remainSize ≤ d.compressSize))
          let d' := { d with buf := buf, remainSize := remainSize }
          tell (.assertion d'.buf.good)
          lift (Outcome.assert asserts (d'.buf.good = true))
          pure (none, d', id)
      else do
        let (d', id) ← parseHeaderTraced K asserts n d data size id
        tell (.assertion d'.buf.good)
        lift (Outcome.assert asserts (d'.buf.good = true))
        pure (none, d', id)

end

/-- A public call; `n` bounds how deep a `read` goes. -/
def callTraced (K : Codec) (asserts : Bool) (n : ℕ) (d : ProtobufPacketDecoder) :
    Call → Traced Event ProtobufPacketDecoder
  | .read c => do
      let (_, d, _) ← _readTraced K asserts n d c.data c.data.length c.id
      pure d
  | .getSize => pure d
  | .getProtobufMessage => pure d.getProtobufMessage.2
  | .reset => pure d.reset

/-! ## Without the events -/

/-- The copy loop, from the byte `c` of the chunk on. -/
theorem fillHeaderTraced_outcome (data : List UInt8) (d : ProtobufPacketDecoder) {size c : ℕ}
    (hlen : c + size = data.length) :
    ∃ d' i, (fillHeaderTraced data size d c c).outcome = .ret (d', data.length - i, i) ∧
      fillHeader d (data.drop c) = (d', data.drop i) := by
  induction size generalizing d c with
  | zero =>
      refine ⟨d, c, ?_, ?_⟩
      · simp [fillHeaderTraced, show data.length - c = 0 by omega]
      · simp [List.drop_eq_nil_of_le (show data.length ≤ c by omega), fillHeader]
  | succ size ih =>
      have hc : c < data.length := by omega
      rw [List.drop_eq_getElem_cons hc, fillHeader]
      by_cases hroom : 0 < UInt32.ofNat packageHeaderSize - d.headerSize
      · have hget : data.getD c 0 = data[c] := by simp [hc]
        simp only [fillHeaderTraced, hroom, if_true, hget, Traced.outcome_bind,
          Traced.outcome_tell, Outcome.ret_bind]
        apply ih
        omega
      · refine ⟨d, c, ?_, ?_⟩
        · simp [fillHeaderTraced, hroom, show data.length - c = size + 1 by omega]
        · rw [if_neg hroom, List.drop_eq_getElem_cons hc]

section
variable (K : Codec) (asserts : Bool)

/-- Apart from the events, these are the members of the decoder's model. -/
theorem traced_outcome (n : ℕ) :
    (∀ d data id, (parseHeaderTraced K asserts n d data data.length id).outcome =
      parseHeader K asserts n d data id) ∧
    ∀ d data id, (_readTraced K asserts n d data data.length id).outcome =
      _read K asserts n d data id := by
  induction n with
  | zero => exact ⟨fun _ _ _ => rfl, fun _ _ _ => rfl⟩
  | succ n ih =>
      obtain ⟨ihparse, ihread⟩ := ih
      constructor
      · intro d data id
        simp only [parseHeaderTraced, parseHeader, Traced.outcome_bind, Traced.outcome_tell,
          Outcome.ret_bind]
        by_cases hshort : d.headerSize < 40
        · obtain ⟨d', i, hrun, hfill⟩ := fillHeaderTraced_outcome data d (Nat.zero_add data.length)
          rw [List.drop_zero] at hfill
          have hlen : data.length - i = (data.drop i).length := by simp
          simp only [if_pos hshort, hrun, hfill, hlen, Traced.outcome_ite, Traced.outcome_bind,
            Traced.outcome_tell, Traced.outcome_lift, Traced.outcome_pure, Outcome.ret_bind, ihread]
        · simp only [if_neg hshort, Traced.outcome_ite, Traced.outcome_bind, Traced.outcome_tell,
            Traced.outcome_lift, Traced.outcome_pure, Outcome.ret_bind, List.drop_zero, ihread]
      · intro d data id
        have hlen : data.length - d.remainSize.toNat = (data.drop d.remainSize.toNat).length := by
          simp
        have hzero : (0 : UInt32).toNat = 0 := rfl
        simp only [_readTraced, _read, Traced.outcome_bind, Traced.outcome_tell,
          Traced.outcome_ite, Traced.outcome_lift, Traced.outcome_pure, Outcome.ret_bind, ihparse,
          hzero, Nat.sub_zero, hlen, List.take_length]
        by_cases hle : d.remainSize.toNat ≤ data.length
        · simp only [if_pos hle]
        · simp only [if_neg hle]

/-- A call of `read` with the budget of the decoder's model. -/
theorem callTraced_read_outcome (d : ProtobufPacketDecoder) (c : Chunk) :
    (callTraced K asserts (callBound c.data.length) d (.read c)).outcome =
      (call K asserts d (.read c) >>= fun x => Outcome.ret x.2) := by
  simp only [callTraced, call, ProtobufPacketDecoder.read, Traced.outcome_bind,
    Traced.outcome_pure, (traced_outcome K asserts _).2, Outcome.bind_assoc, Outcome.ret_bind]

end

/-! ## What every call preserves -/

/-- What is true between any two steps of a member. -/
structure InOrder (d : ProtobufPacketDecoder) : Prop extends Accounted d where
  good : d.buf.good = true

section
variable {d : ProtobufPacketDecoder}

/-- A decoder that waits for a header. -/
theorem inOrder_of_zero (hheader : d.headerSize.toNat ≤ packageHeaderSize)
    (hcompress : d.compressSize = 0) (hremain : d.remainSize = 0) (hgood : d.buf.good = true) :
    d.InOrder where
  header := hheader
  le := by simp [hcompress, hremain]
  zero := fun _ => hremain
  unread := by simp [hcompress, hremain]
  good := hgood

theorem inOrder_fresh : fresh.InOrder :=
  inOrder_of_zero (Nat.zero_le _) rfl rfl rfl

theorem inOrder_reset (d : ProtobufPacketDecoder) : d.reset.InOrder :=
  inOrder_of_zero (Nat.zero_le _) rfl rfl rfl

/-- The condition of the copy loop. -/
theorem Accounted.room (h : d.Accounted) :
    0 < UInt32.ofNat packageHeaderSize - d.headerSize ↔ d.headerSize.toNat < packageHeaderSize := by
  have hle : d.headerSize ≤ UInt32.ofNat packageHeaderSize := UInt32.le_iff_toNat_le.mpr h.header
  rw [UInt32.lt_iff_toNat_lt, UInt32.toNat_sub_of_le _ _ hle]
  exact Nat.sub_pos_iff_lt

/-- The copy loop. -/
theorem fillHeaderTraced_meets {data : List UInt8} {size c : ℕ} (hsize : c + size ≤ data.length)
    (h : d.InOrder) :
    Meets Event.Sound (fillHeaderTraced data size d c c) fun x =>
      x.1.InOrder ∧ x.1.compressSize = d.compressSize ∧ x.2.2 + x.2.1 ≤ data.length := by
  have hroom : Event.Sound (.sub packageHeaderSize d.headerSize.toNat) := h.header
  induction size generalizing d c with
  | zero =>
      apply Meets.tell_bind hroom
      exact Traced.meets_pure ⟨h, rfl, hsize⟩
  | succ size ih =>
      apply Meets.tell_bind hroom
      apply Meets.ite
      · intro hmore
        have hstore : Event.Sound (.store d.headerSize.toNat) := h.room.mp hmore
        have hreach : Event.Sound (.reach (c + 1) data.length) := by
          change c + 1 ≤ data.length
          omega
        have hone : Event.Sound (.sub (size + 1) 1) := Nat.le_add_left 1 size
        have hcount : (d.headerSize + 1).toNat = d.headerSize.toNat + 1 := by
          have hlt : d.headerSize.toNat < 40 := hstore
          rw [UInt32.toNat_add]
          exact Nat.mod_eq_of_lt (by change d.headerSize.toNat + 1 < 2 ^ 32; omega)
        have hheader : (d.headerSize + 1).toNat ≤ packageHeaderSize := hcount.trans_le hstore
        apply Meets.tell_bind hreach
        apply Meets.tell_bind hstore
        apply Meets.tell_bind hone
        apply Meets.tell_bind hreach
        apply ih
        · omega
        · exact ⟨⟨hheader, h.le, h.zero, h.unread⟩, h.good⟩
        · exact hheader
      · intro _
        exact Traced.meets_pure ⟨h, rfl, hsize⟩

/-! ### One invocation -/

variable (K : Codec) (asserts : Bool)

/-- What an invocation of `parseHeader` does with the budget `n`. -/
def ParsesSoundly (n : ℕ) : Prop :=
  ∀ (d : ProtobufPacketDecoder) (data : List UInt8) (size : ℕ) (id : Int32), d.InOrder →
    d.compressSize = 0 → size ≤ data.length →
      Meets Event.Sound (parseHeaderTraced K asserts n d data size id) fun x => x.1.InOrder

/-- What an invocation of `_read` does with the budget `n`. -/
def ReadsSoundly (n : ℕ) : Prop :=
  ∀ (d : ProtobufPacketDecoder) (data : List UInt8) (size : ℕ) (id : Int32), d.InOrder →
    size ≤ data.length →
      Meets Event.Sound (_readTraced K asserts n d data size id) fun x => x.2.1.InOrder

variable {K asserts}

/-- A new header announces a body of which nothing is in the stream. -/
theorem InOrder.announce (h : d.InOrder) (size serialSize : UInt32) :
    { d with compressSize := size, remainSize := size, serialSize := serialSize }.InOrder where
  header := h.header
  le := UInt32.le_refl size
  zero := id
  unread := by simp
  good := h.good

/-- The stream gives what it owes the body. -/
theorem InOrder.read_buf (h : d.InOrder) :
    d.buf.read (d.compressSize - d.remainSize).toNat =
      (d.buf.unread.take (d.compressSize - d.remainSize).toNat,
        ⟨d.buf.unread.drop (d.compressSize - d.remainSize).toNat, true⟩) := by
  rw [StringStream.read, if_pos h.good, decide_eq_true h.unread]

/-- The two copies fill the buffer. -/
theorem InOrder.fill (h : d.InOrder) : Event.Sound (.fill d.compressSize.toNat
    (d.buf.unread.take (d.compressSize - d.remainSize).toNat).length
    (d.compressSize - d.remainSize).toNat d.remainSize.toNat) := by
  constructor
  · exact List.length_take_of_le h.unread
  · rw [UInt32.toNat_sub_of_le _ _ h.le]
    exact Nat.sub_add_cancel (UInt32.le_iff_toNat_le.mp h.le)

/-- `remainSize` after a chunk that does not complete the body. -/
theorem toNat_sub_ofNat {a : UInt32} {size : ℕ} (hlt : size < a.toNat) :
    (a - UInt32.ofNat size).toNat = a.toNat - size := by
  have hbound := a.toNat_lt
  have hof : (UInt32.ofNat size).toNat = size := by
    rw [UInt32.toNat_ofNat', Nat.mod_eq_of_lt (by omega)]
  rw [UInt32.toNat_sub_of_le, hof]
  rw [UInt32.le_iff_toNat_le, hof]
  exact hlt.le

/-- A chunk that does not complete the body goes to the stream. -/
theorem InOrder.write (h : d.InOrder) {chunk : List UInt8}
    (hlt : chunk.length < d.remainSize.toNat) :
    { d with
      buf := d.buf.write chunk
      remainSize := d.remainSize - UInt32.ofNat chunk.length }.InOrder := by
  have hle : d.remainSize.toNat ≤ d.compressSize.toNat := UInt32.le_iff_toNat_le.mp h.le
  have hremain := toNat_sub_ofNat hlt
  have hcount : d.remainSize - UInt32.ofNat chunk.length ≤ d.compressSize := by
    rw [UInt32.le_iff_toNat_le, hremain]
    omega
  have hunread := h.unread
  rw [UInt32.toNat_sub_of_le _ _ h.le] at hunread
  rw [StringStream.write, if_pos h.good]
  constructor
  · constructor
    · exact h.header
    · exact hcount
    · intro hzero
      have hnone : d.compressSize.toNat = 0 := congrArg UInt32.toNat hzero
      omega
    · rw [UInt32.toNat_sub_of_le _ _ hcount, hremain, List.length_append]
      omega
  · exact h.good

/-- `parseHeader`. -/
theorem parsesSoundly_succ {n : ℕ} (hread : ReadsSoundly K asserts n) :
    ParsesSoundly K asserts (n + 1) := by
  intro d data size id h hcompress hsize
  have hentry : Event.Sound (.entry d) := h.toAccounted
  have hfill : Meets Event.Sound
      (if d.headerSize < 40 then fillHeaderTraced data size d 0 0 else pure (d, size, 0))
      fun x => x.1.InOrder ∧ x.1.compressSize = 0 ∧ x.2.2 + x.2.1 ≤ data.length := by
    apply Meets.ite
    · intro _
      rw [← hcompress]
      apply fillHeaderTraced_meets _ h
      omega
    · intro _
      have hleft : 0 + size ≤ data.length := by omega
      exact Traced.meets_pure ⟨h, hcompress, hleft⟩
  rw [parseHeaderTraced]
  apply Meets.tell_bind hentry
  apply hfill.bind
  intro x hx
  obtain ⟨hx, hzero, hleft⟩ := hx
  apply Meets.ite
  · intro _
    exact Traced.meets_pure hx
  · intro _
    apply Meets.ite
    · intro _
      apply Meets.ite
      · intro _
        have hsize' : x.2.1 ≤ (data.drop x.2.2).length := by
          rw [List.length_drop]
          exact Nat.le_sub_of_add_le' hleft
        apply (hread _ _ _ _ (hx.announce _ _) hsize').bind
        intro y hy
        exact Traced.meets_pure hy
      · intro hne
        exact absurd hzero hne
    · intro _
      exact Traced.meets_pure hx

/-- The end of `_read`. -/
theorem meets_end {ret : Option CoreMessage} {id : Int32} (h : d.InOrder) :
    Meets Event.Sound (do
      tell (.assertion d.buf.good)
      lift (Outcome.assert asserts (d.buf.good = true))
      pure (ret, d, id)) fun x : Option CoreMessage × ProtobufPacketDecoder × Int32 =>
        x.2.1.InOrder := by
  have hgood : Event.Sound (.assertion d.buf.good) := h.good
  apply Meets.tell_bind hgood
  apply Meets.lift_bind
  intro _
  exact Traced.meets_pure h

/-- `_read`. -/
theorem readsSoundly_succ {n : ℕ} (hparse : ParsesSoundly K asserts n) :
    ReadsSoundly K asserts (n + 1) := by
  intro d data size id h hsize
  have hentry : Event.Sound (.entry d) := h.toAccounted
  rw [_readTraced]
  apply Meets.tell_bind hentry
  apply Meets.ite
  · intro hne
    apply Meets.ite
    · intro henough
      have hsub : Event.Sound (.sub d.compressSize.toNat d.remainSize.toNat) :=
        UInt32.le_iff_toNat_le.mp h.le
      have hcount : Event.Sound (.assertion (decide
          ((d.buf.unread.take (d.compressSize - d.remainSize).toNat).length =
            (d.compressSize - d.remainSize).toNat))) := decide_eq_true h.fill.1
      have hreach : Event.Sound (.reach d.remainSize.toNat data.length) := henough.trans hsize
      have hrest : Event.Sound (.sub size d.remainSize.toNat) := henough
      have hzero : Event.Sound (.sub (size - d.remainSize.toNat) 0) := Nat.zero_le _
      have hleft : size - d.remainSize.toNat - 0 ≤ (data.drop d.remainSize.toNat).length := by
        rw [List.length_drop]
        omega
      apply Meets.tell_bind hsub
      simp only [h.read_buf]
      apply Meets.tell_bind hcount
      apply Meets.lift_bind
      intro _
      apply Meets.tell_bind hreach
      apply Meets.tell_bind h.fill
      apply Meets.lift_bind
      intro x
      simp only [if_pos henough]
      refine Meets.bind ?_ fun y hy => meets_end hy
      apply Meets.tell_bind hrest
      apply Meets.tell_bind hreach
      apply Meets.tell_bind hzero
      exact hparse _ _ _ _ (inOrder_of_zero (Nat.zero_le _) rfl rfl rfl) rfl hleft
    · intro hmore
      have hlt : size < d.remainSize.toNat := not_le.mp hmore
      have hreach : Event.Sound (.reach size data.length) := hsize
      have hsub : Event.Sound (.sub d.remainSize.toNat size) := hlt.le
      have htake : (data.take size).length = size := List.length_take_of_le hsize
      have hkept := h.write (htake.trans_lt hlt)
      rw [htake] at hkept
      have hassert : Event.Sound
          (.assertion (decide (d.remainSize - UInt32.ofNat size ≤ d.compressSize))) :=
        decide_eq_true hkept.le
      apply Meets.tell_bind hreach
      apply Meets.tell_bind hsub
      apply Meets.tell_bind hassert
      apply Meets.lift_bind
      intro _
      exact meets_end hkept
  · intro hcompress
    apply (hparse d data size id h (not_not.mp hcompress) hsize).bind
    intro x hx
    exact meets_end hx

theorem soundly (K : Codec) (asserts : Bool) (n : ℕ) :
    ParsesSoundly K asserts n ∧ ReadsSoundly K asserts n := by
  have hrunning : ∀ {α : Type} {Q : α → Prop}, Meets Event.Sound (lift .running) Q :=
    Traced.meets_lift _ fun _ h => nomatch h
  induction n with
  | zero => exact ⟨fun _ _ _ _ _ _ _ => hrunning, fun _ _ _ _ _ _ => hrunning⟩
  | succ n ih => exact ⟨parsesSoundly_succ ih.2, readsSoundly_succ ih.1⟩

/-! ### Any calls -/

/-- One public call. -/
theorem callTraced_meets (K : Codec) (asserts : Bool) (n : ℕ) (h : d.InOrder) (c : Call) :
    Meets Event.Sound (callTraced K asserts n d c) InOrder := by
  cases c with
  | read c =>
      apply ((soundly K asserts n).2 d c.data c.data.length c.id h (le_refl _)).bind
      intro x hx
      exact Traced.meets_pure hx
  | getSize => exact Traced.meets_pure h
  | getProtobufMessage =>
      apply Traced.meets_pure
      rw [getProtobufMessage]
      cases d.vec with
      | nil => exact h
      | cons ret vec => exact ⟨⟨h.header, h.le, h.zero, h.unread⟩, h.good⟩
  | reset => exact Traced.meets_pure (inOrder_reset d)

end

/-- **Accounting.** Whatever chunks arrive, and whenever the decoder is reset: at every entry of
`_read` and `parseHeader` the sizes are in order, and no store, copy, subtraction or assertion on
the way goes wrong. -/
theorem events_sound (K : Codec) (asserts : Bool) (n : ℕ) (cs : List Call) :
    Meets Event.Sound (Traced.runAll (callTraced K asserts n) fresh cs) InOrder := by
  apply Meets.runAll
  · intro d c h
    exact callTraced_meets K asserts n h c
  · exact inOrder_fresh

/-- The first byte of a header. -/
example (K : Codec) : (callTraced K true 2 fresh (.read ⟨[7], 0⟩)).events =
    [.entry fresh, .entry fresh, .sub 40 0, .reach 1 1, .store 0, .sub 1 1, .reach 1 1, .sub 40 1,
      .assertion true] := rfl

end ProtobufPacketDecoder
end ClientService
