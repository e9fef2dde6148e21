import ClientService.Decoder.Refinement
import ClientService.Protobuf.Codec

/-!
# `Reset`

A decoder is told from another one by the answers its callers get. `Reset` clears the error
state of `_buf` and leaves its bytes: a decoder that is reset inside a body takes them for the
beginning of the next body that arrives in pieces.

## Main definitions

* `ProtobufPacketDecoder.reset` — the member function.
* `answers` — what a sequence of calls returns.
* `FreshAgain` — the promise.
* `Codec.Tells` — what it takes to see bytes that are left over.
-/

namespace ClientService

open Outcome (Rel)

/-- Some messages differ in bytes that are not the last one. -/
def Codec.Tells (K : Codec) : Prop :=
  ∃ core core' : Proto.CoreMessage, CoreMessage.Buildable core ∧ CoreMessage.Buildable core' ∧
    core.clientName ≠ core'.clientName ∧
    (K.serializeToArray core).2.length = (K.serializeToArray core').2.length ∧
    (K.serializeToArray core).2.getLast? = (K.serializeToArray core').2.getLast? ∧
    (K.serializeToArray core).2.length < 2 ^ 32

namespace ProtobufPacketDecoder

/-- `Reset`. `clear` takes back the error state of the stream, not its bytes. -/
def reset (d : ProtobufPacketDecoder) : ProtobufPacketDecoder :=
  { d with
    vec := []
    buf := { d.buf with good := true }
    compressSize := 0
    remainSize := 0
    headerSize := 0 }

/-! ## What callers see -/

/-- The public member functions. -/
inductive Call where
  | read (c : Chunk)
  | getSize
  | getProtobufMessage
  | reset
  deriving DecidableEq, Repr

/-- What they return. -/
inductive Answer where
  | message (ret : Option CoreMessage)
  | size (n : ℕ)
  | done
  deriving DecidableEq, Repr

section
variable (K : Codec) (asserts : Bool)

def call (d : ProtobufPacketDecoder) : Call → Outcome (Answer × ProtobufPacketDecoder)
  | .read c => do
      let (ret, d, _) ← read K asserts d c.data c.id
      .ret (.message ret, d)
  | .getSize => .ret (.size d.getSize, d)
  | .getProtobufMessage => .ret (.message d.getProtobufMessage.1, d.getProtobufMessage.2)
  | .reset => .ret (.done, d.reset)

/-- The answers to successive calls. -/
def answers : ProtobufPacketDecoder → List Call → Outcome (List Answer)
  | _, [] => .ret []
  | d, c :: cs => do
      let (a, d) ← call K asserts d c
      let as ← answers d cs
      .ret (a :: as)

/-- After `Reset` no caller can tell the decoder from a new one. -/
def FreshAgain (d : ProtobufPacketDecoder) : Prop :=
  ∀ cs, answers K asserts d.reset cs = answers K asserts fresh cs

end

/-! ## Decoders that cannot be told apart -/

/-- Equal decoders, or decoders with the same part of a header. -/
inductive Alike : ProtobufPacketDecoder → ProtobufPacketDecoder → Prop
  | refl (d : ProtobufPacketDecoder) : Alike d d
  | header {d₁ d₂ : ProtobufPacketDecoder} {p : List UInt8} (h₁ : HeaderPhase d₁ p)
      (h₂ : HeaderPhase d₂ p) (hvec : d₁.vec = d₂.vec) : Alike d₁ d₂

section
variable {K : Codec} {asserts : Bool} {d d₁ d₂ : ProtobufPacketDecoder} {p : List UInt8}

theorem Alike.good (h : Alike d₁ d₂) : d₁.buf.good = d₂.buf.good := by
  cases h with
  | refl => rfl
  | header h₁ h₂ => rw [h₁.good, h₂.good]

/-- With a whole header in `header_buffer` nothing of the past is left but the queue. -/
theorem openHeader_eq (h₁ : HeaderPhase d₁ p) (h₂ : HeaderPhase d₂ p) (hvec : d₁.vec = d₂.vec)
    (hp : p.length = 40) : d₁.openHeader = d₂.openHeader := by
  have hheader : d₁.headerBuffer = d₂.headerBuffer := by
    rw [← Vector.toList_inj, h₁.toList hp, h₂.toList hp]
  have hsize : d₁.headerSize = d₂.headerSize := by
    rw [← UInt32.toNat_inj, h₁.size, h₂.size]
  have hbuf : d₁.buf = d₂.buf := by rw [h₁.buf, h₂.buf]
  simp only [openHeader, hheader, hsize, hbuf, hvec]

/-- `parseHeader` on decoders with the same part of a header. -/
theorem parseHeader_alike (n : ℕ) (h₁ : HeaderPhase d₁ p) (h₂ : HeaderPhase d₂ p)
    (hvec : d₁.vec = d₂.vec) (data : List UInt8) (id : Int32) :
    Rel (fun x y => Alike x.1 y.1 ∧ x.2 = y.2) (parseHeader K asserts n d₁ data id)
      (parseHeader K asserts n d₂ data id) := by
  cases n with
  | zero => exact .running
  | succ n =>
      by_cases hshort : p.length < 40 ∧ (p ++ data).length ≤ 40
      · rw [parseHeader_short h₁.emptied hshort.1 hshort.2,
          parseHeader_short h₂.emptied hshort.1 hshort.2]
        obtain ⟨hfill₁, _, hvec₁⟩ := fillHeader_spec h₁ data
        obtain ⟨hfill₂, _, hvec₂⟩ := fillHeader_spec h₂ data
        exact .ret ⟨.header hfill₁ hfill₂ (by rw [hvec₁, hvec₂, hvec]), rfl⟩
      · -- The header is complete, and from here on the decoders are equal.
        have hle := h₁.le
        have hlong : p.length = 40 ∨ 40 < (p ++ data).length := by omega
        obtain ⟨e₁, he₁, hvec₁, hbuf₁, heq₁⟩ :=
          parseHeader_long K asserts h₁.emptied hlong n id
        obtain ⟨e₂, he₂, hvec₂, hbuf₂, heq₂⟩ :=
          parseHeader_long K asserts h₂.emptied hlong n id
        have hlen : ((p ++ data).take 40).length = 40 := by
          rw [List.length_take, List.length_append]
          rw [List.length_append] at hlong
          omega
        have hopen : e₁.openHeader = e₂.openHeader :=
          openHeader_eq (he₁.of_emptied (hbuf₁.trans h₁.buf)) (he₂.of_emptied (hbuf₂.trans h₂.buf))
            (by rw [hvec₁, hvec₂, hvec]) hlen
        rw [heq₁, heq₂, hopen]
        exact Rel.of_refl (fun x => ⟨.refl _, rfl⟩) _

/-- One call of `read` on decoders that cannot be told apart. -/
theorem read_alike (h : Alike d₁ d₂) (data : List UInt8) (id : Int32) :
    Rel (fun x y => x.1 = y.1 ∧ Alike x.2.1 y.2.1) (read K asserts d₁ data id)
      (read K asserts d₂ data id) := by
  cases h with
  | refl => exact Rel.of_refl (fun x => ⟨rfl, .refl _⟩) _
  | header h₁ h₂ hvec =>
      have hc₁ : ¬d₁.compressSize ≠ 0 := not_not.mpr h₁.compress
      have hc₂ : ¬d₂.compressSize ≠ 0 := not_not.mpr h₂.compress
      simp only [read, callBound, _read, if_neg hc₁, if_neg hc₂]
      refine (parseHeader_alike _ h₁ h₂ hvec data id).bind fun x y hxy => ?_
      rw [hxy.1.good, hxy.2]
      by_cases hg : y.1.buf.good = true
      · rw [Outcome.assert_of _ hg]
        exact .ret ⟨rfl, hxy.1⟩
      · cases asserts with
        | true =>
            rw [Outcome.assert_enabled hg]
            exact .aborted
        | false =>
            rw [Outcome.assert_disabled]
            exact .ret ⟨rfl, hxy.1⟩

theorem headerPhase_reset (d : ProtobufPacketDecoder) : HeaderPhase d.reset.emptied [] where
  compress := rfl
  remain := rfl
  unread := rfl
  good := rfl
  size := rfl
  le := Nat.zero_le _
  bytes := rfl

/-- The queue does not matter. -/
theorem HeaderPhase.queue (h : HeaderPhase d p) (vec : List (Option CoreMessage)) :
    HeaderPhase { d with vec := vec } p :=
  ⟨h.compress, h.remain, h.unread, h.good, h.size, h.le, h.bytes⟩

theorem HeaderPhase.reset (h : HeaderPhase d p) : HeaderPhase d.reset [] :=
  (headerPhase_reset d).of_emptied (congrArg₂ StringStream.mk h.unread rfl)

/-- One call on decoders that cannot be told apart. -/
theorem call_alike (h : Alike d₁ d₂) (c : Call) :
    Rel (fun x y => x.1 = y.1 ∧ Alike x.2 y.2) (call K asserts d₁ c) (call K asserts d₂ c) := by
  cases h with
  | refl => exact Rel.of_refl (fun x => ⟨rfl, .refl _⟩) _
  | header h₁ h₂ hvec =>
      cases c with
      | read c =>
          refine (read_alike (.header h₁ h₂ hvec) c.data c.id).bind fun x y hxy => ?_
          exact .ret ⟨congrArg Answer.message hxy.1, hxy.2⟩
      | getSize =>
          refine .ret ⟨?_, .header h₁ h₂ hvec⟩
          rw [getSize, getSize, hvec]
      | getProtobufMessage =>
          rw [call, call, getProtobufMessage, getProtobufMessage, hvec]
          cases hv : d₂.vec with
          | nil => exact .ret ⟨rfl, .header h₁ h₂ hvec⟩
          | cons m ms =>
              exact .ret ⟨rfl, .header (h₁.queue ms) (h₂.queue ms) rfl⟩
      | reset => exact .ret ⟨rfl, .header h₁.reset h₂.reset rfl⟩

/-- Decoders that cannot be told apart give the same answers. -/
theorem answers_alike (h : Alike d₁ d₂) (cs : List Call) :
    answers K asserts d₁ cs = answers K asserts d₂ cs := by
  induction cs generalizing d₁ d₂ with
  | nil => rfl
  | cons c cs ih =>
      refine (call_alike h c).bind_eq ?_
      rintro ⟨a, e₁⟩ ⟨b, e₂⟩ ⟨hab, he⟩
      have hanswers : answers K asserts e₁ cs = answers K asserts e₂ cs := ih he
      have hab : a = b := hab
      simp only [hab, hanswers]

/-- A stream without bytes is all that it takes. -/
theorem freshAgain_of_unread (h : d.buf.unread = []) : FreshAgain K asserts d := by
  refine answers_alike (.header ?_ headerPhase_fresh rfl)
  exact (headerPhase_reset d).of_emptied (congrArg₂ StringStream.mk h rfl)

/-! ## A body in two pieces -/

/-- The decoder has the header `h`, and its stream holds `b` behind what it held before. -/
structure Opened (u h b : List UInt8) (d : ProtobufPacketDecoder) : Prop where
  header : d.headerBuffer.toList = h
  serial : d.serialSize = word h 0
  compress : d.compressSize = word h 1
  remain : d.remainSize.toNat + b.length = (word h 1).toNat
  buf : d.buf = ⟨u ++ b, true⟩

variable (K asserts) in
/-- The header and the first piece. -/
theorem read_opening (d : ProtobufPacketDecoder) {h b : List UInt8} (hh : h.length = 40)
    (hb : b ≠ []) (hlt : b.length < (word h 1).toNat) (id : Int32) :
    ∃ d', read K asserts d.reset (h ++ b) id = .ret (none, d', id) ∧
      Opened d.buf.unread h b d' := by
  have hlong : ([] : List UInt8).length = 40 ∨ 40 < ([] ++ (h ++ b)).length := by
    right
    have := List.length_pos_iff.mpr hb
    rw [List.nil_append, List.length_append]
    omega
  obtain ⟨e, he, _, hbuf, heq⟩ := parseHeader_long K asserts
    (headerPhase_reset d) hlong (2 * (h ++ b).length + 1) id
  rw [List.nil_append, ← hh, List.drop_left] at heq
  rw [List.nil_append, ← hh, List.take_left] at he
  have hheader : e.headerBuffer.toList = h := he.toList hh
  have hof : (UInt32.ofNat b.length).toNat = b.length := by
    have := (word h 1).toNat_lt
    rw [UInt32.toNat_ofNat', Nat.mod_eq_of_lt (by omega)]
  have hle : UInt32.ofNat b.length ≤ word h 1 := by
    rw [UInt32.le_iff_toNat_le, hof]
    exact hlt.le
  have hsub : (word h 1 - UInt32.ofNat b.length).toNat + b.length = (word h 1).toNat := by
    rw [UInt32.toNat_sub_of_le _ _ hle, hof]
    omega
  have hne : word h 1 ≠ 0 := by
    intro h0
    rw [h0] at hlt
    exact nomatch hlt
  have hmore : ¬(word h 1).toNat ≤ b.length := not_le.mpr hlt
  have hcount : word h 1 - UInt32.ofNat b.length ≤ word h 1 := by
    rw [UInt32.le_iff_toNat_le]
    omega
  have hgood : e.buf.good = true := by rw [hbuf]; rfl
  have hwrite : e.buf.write b = ⟨d.buf.unread ++ b, true⟩ := by
    rw [StringStream.write, if_pos hgood, hbuf]
    rfl
  refine ⟨{ e.openHeader with
      buf := e.buf.write b
      remainSize := word h 1 - UInt32.ofNat b.length }, ?_, ?_⟩
  · have hc : ¬d.reset.compressSize ≠ 0 := not_not.mpr rfl
    have hcall : callBound (h ++ b).length = 2 * (h ++ b).length + 1 + 1 + 1 := rfl
    rw [read, hcall, _read, if_neg hc, heq]
    simp only [_read, openHeader_compressSize, openHeader_remainSize, openHeader_buf, hheader,
      if_pos hne, if_neg hmore, Outcome.assert_of asserts hcount, hwrite, Outcome.ret_bind,
      Outcome.assert_of]
  · exact ⟨hheader, congrArg (word · 0) hheader, congrArg (word · 1) hheader, hsub, hwrite⟩

variable (K asserts) in
/-- The second piece: what the stream gives for the first one is what it held first. -/
theorem Opened.read {u h b : List UInt8} (ho : Opened u h b d) {rest : List UInt8}
    (hrest : b.length + rest.length = (word h 1).toNat) (hne : rest ≠ []) (id : Int32) :
    ∃ next : Option CoreMessage → ProtobufPacketDecoder, read K asserts d rest id =
      (openBody K asserts (word h 0) (word h 1) (h.drop 8) ((u ++ b).take b.length ++ rest) id >>=
        fun x => Outcome.ret (x.1, next x.1, x.2)) := by
  have hlen := List.length_pos_iff.mpr hne
  have hremain := ho.remain
  have hc : d.compressSize ≠ 0 := by
    rw [ho.compress]
    intro h0
    rw [h0] at hrest
    have : b.length + rest.length = 0 := hrest
    omega
  have hle : d.remainSize.toNat ≤ rest.length := by omega
  have htake : rest.take d.remainSize.toNat = rest := List.take_of_length_le (by omega)
  have hdrop : rest.drop d.remainSize.toNat = [] := List.drop_eq_nil_of_le (by omega)
  have hwant : (word h 1 - d.remainSize).toNat = b.length := by
    rw [UInt32.toNat_sub_of_le]
    · omega
    · rw [UInt32.le_iff_toNat_le]
      omega
  have hgot : ((u ++ b).take b.length).length = b.length := by
    rw [List.length_take, List.length_append]
    omega
  have henough : b.length ≤ (u ++ b).length := by
    rw [List.length_append]
    omega
  have hread : d.buf.read b.length =
      ((u ++ b).take b.length, ⟨(u ++ b).drop b.length, true⟩) := by
    rw [StringStream.read, ho.buf, if_pos rfl, decide_eq_true henough]
  refine ⟨fun ret => { d with
    buf := ⟨(u ++ b).drop b.length, true⟩
    vec := d.vec ++ [ret]
    headerSize := 0
    remainSize := 0
    compressSize := 0 }, ?_⟩
  rw [ProtobufPacketDecoder.read, callBound, _read, if_pos hc, if_pos hle]
  simp only [hwant, hread, hgot, Outcome.assert_of, Outcome.ret_bind, ho.serial, ho.compress,
    ho.header, htake, hdrop]
  congr 1
  funext x
  have hzero : (0 : UInt32) < 40 := by decide
  simp only [parseHeader, fillHeader, hzero, List.length_nil, and_self, if_true,
    Outcome.ret_bind, Outcome.assert_of]

variable (K asserts) in
/-- What callers see of a body that arrives in two pieces. -/
theorem answers_pieces (d : ProtobufPacketDecoder) {h b rest : List UInt8} (hh : h.length = 40)
    (hb : b ≠ []) (hne : rest ≠ []) (hrest : b.length + rest.length = (word h 1).toNat)
    (id : Int32) :
    answers K asserts d.reset [.read ⟨h ++ b, id⟩, .read ⟨rest, id⟩] =
      (openBody K asserts (word h 0) (word h 1) (h.drop 8)
        ((d.buf.unread ++ b).take b.length ++ rest) id >>= fun x =>
          Outcome.ret [.message none, .message x.1]) := by
  have hlt : b.length < (word h 1).toNat := by
    have := List.length_pos_iff.mpr hne
    omega
  obtain ⟨d', hread, ho⟩ := read_opening K asserts d hh hb hlt id
  obtain ⟨next, hnext⟩ := ho.read K asserts hrest hne id
  simp only [answers, call, hread, hnext, Outcome.ret_bind, Outcome.bind_assoc]

/-! ## What is left over is seen -/

/-- The bytes are read as `m`. -/
def Opens (K : Codec) (asserts : Bool) (id : Int32) (data : List UInt8) (m : CoreMessage) : Prop :=
  ∃ id', CoreMessage.parseFromArray K asserts data id = .ret (some m, id')

section
variable {id id' : Int32} {n : UInt32} {data dgst : List UInt8} {m : CoreMessage}

theorem Opens.openBody (h : Opens K asserts id data m) (n : UInt32) :
    ∃ id', openBody K asserts n n (K.sha256 data).val data id = .ret (some m, id') := by
  obtain ⟨id', hparse⟩ := h
  refine ⟨id', ?_⟩
  simp only [ProtobufPacketDecoder.openBody, payload, if_true, Outcome.assert_of, Outcome.ret_bind,
    hparse, Option.isSome_some]

theorem opens_of_openBody (h : openBody K asserts n n dgst data id = .ret (some m, id')) :
    Opens K asserts id data m := by
  simp only [openBody, payload, if_true] at h
  obtain ⟨_, _, h⟩ := Outcome.bind_eq_ret.mp h
  obtain ⟨⟨ret, id₁⟩, hparse, h⟩ := Outcome.bind_eq_ret.mp h
  obtain ⟨_, _, h⟩ := Outcome.bind_eq_ret.mp h
  cases h
  exact ⟨_, hparse⟩

end

variable {id : Int32} {c : UInt8} {m : CoreMessage}

/-- If nobody can tell the decoder from a new one, the bytes that are left over in the stream may
stand for the first ones of a body. -/
theorem FreshAgain.shift (h : FreshAgain K asserts d) {b : List UInt8} (hb : b ≠ [])
    (hlen : b.length + 1 < 2 ^ 32) (ho : Opens K asserts id (b ++ [c]) m) :
    Opens K asserts id ((d.buf.unread ++ b).take b.length ++ [c]) m := by
  let n := UInt32.ofNat (b.length + 1)
  let dgst := K.sha256 (b ++ [c])
  have hn : b.length + [c].length = (word (htonl n ++ htonl n ++ dgst.val) 1).toNat := by
    rw [word_one, UInt32.toNat_ofNat', Nat.mod_eq_of_lt hlen]
    rfl
  have hheader : (htonl n ++ htonl n ++ dgst.val).length = 40 := by
    simp only [List.length_append, length_htonl, dgst.2]
  have hdrop : (htonl n ++ htonl n ++ dgst.val).drop 8 = dgst.val := List.drop_left' rfl
  have hc : [c] ≠ [] := List.cons_ne_nil _ _
  have hreset := answers_pieces K asserts d hheader hb hc hn id
  have hfresh := answers_pieces K asserts fresh hheader hb hc hn id
  have hnone : (fresh.buf.unread ++ b).take b.length = b := List.take_length
  obtain ⟨id', hopen⟩ := ho.openBody n
  rw [word_zero, word_one, hdrop] at hreset hfresh
  rw [hnone, hopen, Outcome.ret_bind] at hfresh
  have hanswers := (hreset.symm.trans (h _)).trans hfresh
  obtain ⟨⟨ret, id₁⟩, hret, heq⟩ := Outcome.bind_eq_ret.mp hanswers
  cases heq
  exact opens_of_openBody hret

/-- Then the last byte and the length alone decide what a body is read as. -/
theorem FreshAgain.unique (h : FreshAgain K asserts d) (hu : d.buf.unread ≠ []) {k : ℕ}
    {b₁ b₂ : List UInt8} {m₁ m₂ : CoreMessage} (heq : b₁.length = b₂.length)
    (hlen : b₁.length + 1 < 2 ^ 32) (hk : k ≤ b₁.length)
    (htake : b₁.take (b₁.length - k) = b₂.take (b₁.length - k))
    (ho₁ : Opens K asserts id (b₁ ++ [c]) m₁) (ho₂ : Opens K asserts id (b₂ ++ [c]) m₂) :
    m₁ = m₂ := by
  -- `k` bytes may differ; each time what is left over takes the place of some of them.
  induction k generalizing b₁ b₂ with
  | zero =>
      have hsame : b₁ = b₂ := by
        rwa [Nat.sub_zero, List.take_length, heq, List.take_length] at htake
      obtain ⟨_, hparse₁⟩ := ho₁
      obtain ⟨_, hparse₂⟩ := ho₂
      rw [hsame, hparse₂] at hparse₁
      cases hparse₁
      rfl
  | succ k ih =>
      let shift (b : List UInt8) := (d.buf.unread ++ b).take b.length
      have hupos := List.length_pos_iff.mpr hu
      have hne₁ : b₁ ≠ [] := List.length_pos_iff.mp (by omega)
      have hne₂ : b₂ ≠ [] := List.length_pos_iff.mp (by omega)
      have hshift : ∀ b, (shift b).length = b.length := by
        intro b
        simp only [shift, List.length_take, List.length_append]
        omega
      have hagree : ∀ b : List UInt8, b.length = b₁.length →
          (shift b).take (b₁.length - k) =
            d.buf.unread.take (b₁.length - k) ++
              (b.take (b₁.length - (k + 1))).take (b₁.length - k - d.buf.unread.length) := by
        intro b hb
        simp only [shift]
        rw [List.take_take, List.take_append, List.take_take]
        congr 2 <;> omega
      refine ih (by rw [hshift, hshift, heq]) (by rwa [hshift]) (by rw [hshift]; omega) ?_
        (h.shift hne₁ hlen ho₁) (h.shift hne₂ (by rwa [← heq]) ho₂)
      rw [hshift, hagree b₁ rfl, hagree b₂ heq.symm, htake]

end

/-- **Fresh again.** After `Reset` the decoder cannot be told from a new one exactly when no byte
of a body was in the stream. -/
theorem freshAgain_iff {K : Codec}
    (hserial : ∀ core, K.parseFromArray (K.serializeToArray core).2 = some core) (htells : K.Tells)
    (asserts : Bool) (d : ProtobufPacketDecoder) :
    FreshAgain K asserts d ↔ d.buf.unread = [] := by
  refine ⟨fun hfresh => ?_, freshAgain_of_unread⟩
  by_contra hu
  obtain ⟨core, core', hbuild, hbuild', hname, hlength, hlast, hlt⟩ := htells
  have hopens : ∀ {core}, CoreMessage.Buildable core → ∃ m, m.clientName = core.clientName ∧
      Opens K asserts 0 (K.serializeToArray core).2 m := by
    intro core hbuild
    obtain ⟨⟨msg, id⟩, hmsg⟩ :=
      Option.isSome_iff_exists.mp ((CoreMessage.allocate_isSome core 0).mpr hbuild)
    refine ⟨(CoreMessage.copyFields core msg id).1, rfl, (CoreMessage.copyFields core msg id).2, ?_⟩
    simp only [CoreMessage.parseFromArray, hserial, CoreMessage.buildObj, hmsg]
  obtain ⟨m, hm, ho⟩ := hopens hbuild
  obtain ⟨m', hm', ho'⟩ := hopens hbuild'
  have hne : (K.serializeToArray core).2 ≠ (K.serializeToArray core').2 := by
    intro heq
    have hsome : some core = some core' := by rw [← hserial core, ← hserial core', heq]
    cases hsome
    exact hname rfl
  generalize (K.serializeToArray core).2 = s at *
  generalize (K.serializeToArray core').2 = s' at *
  cases s using List.reverseRecOn with
  | nil => exact hne (List.eq_nil_of_length_eq_zero hlength.symm).symm
  | append_singleton b c =>
      cases s' using List.reverseRecOn with
      | nil => simp at hlength
      | append_singleton b' c' =>
          have hc : c = c' := by simpa using hlast
          have hb : b.length = b'.length := by simpa using hlength
          have hfit : b.length + 1 < 2 ^ 32 := by simpa using hlt
          rw [← hc] at ho'
          have hsame := hfresh.unique hu hb hfit (le_refl _) (by simp) ho ho'
          exact hname (by rw [← hm, ← hm', hsame])

theorem tells_codec : Sample.codec.Tells := by
  refine ⟨{ op := Proto.opConnect, clientName := "a" }, { op := Proto.opConnect, clientName := "b" },
    ?_⟩
  decide +kernel

/-- A decoder that is reset inside a header. -/
theorem freshAgain_header :
    FreshAgain Sample.codec true (fillHeader fresh (Sample.packet.bytes.take 10)).1 :=
  (freshAgain_iff Sample.codec_lawful.parse_serialize tells_codec true _).mpr (by decide +kernel)

/-- A decoder that is reset inside a body, and the packet that comes next in two pieces. -/
theorem not_freshAgain_body :
    ¬∀ K : Codec, K.Lawful → K.Tells → ∀ (asserts : Bool) (cs : List Chunk)
      (d : ProtobufPacketDecoder), readAll K asserts fresh cs = .ret d →
        FreshAgain K asserts d := by
  intro h
  let pieces : List Call :=
    [.read ⟨Sample.packet.bytes.take 50, 0⟩, .read ⟨Sample.packet.bytes.drop 50, 0⟩]
  have hrun : (readAll Sample.codec true fresh [⟨Sample.packet.bytes.take 45, 0⟩] >>= fun d =>
      Outcome.ret (decide (answers Sample.codec true d.reset pieces =
        answers Sample.codec true fresh pieces))) = .ret false := by
    decide +kernel
  obtain ⟨d, hd, hdecide⟩ := Outcome.bind_eq_ret.mp hrun
  have hsame := h Sample.codec Sample.codec_lawful tells_codec true _ d hd pieces
  rw [decide_eq_true hsame] at hdecide
  cases hdecide

end ProtobufPacketDecoder
end ClientService
