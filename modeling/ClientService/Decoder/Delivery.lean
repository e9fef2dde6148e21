import ClientService.Decoder.Stream
import ClientService.Protobuf.RoundTrip

/-!
# Delivery of encoded messages

A stream of `toBytes` outputs is a stream of valid packets, one for each message, as long as
no message is a refusal. A fresh decoder therefore delivers the decodings of the messages
whose packets are complete, in order, wherever the stream is cut.

## Main definitions

* `Sent` — a message, and what its encoder reads besides it.
* `Sent.Encodes`, `Sent.Decodes` — the bytes of a message, and what is parsed from them.

## Main result

* `readAll_toBytes` — delivery does not depend on the cuts.
-/

namespace ClientService

open Framing (Frame Reader Stalled split Produces)

/-- A message on its way: the package, its sender, and the text `getTimeStamp` writes. -/
structure Sent where
  g : Process
  ts : String
  msg : CoreMessage
  deriving DecidableEq, Repr

namespace Sent

/-- The serialized message. -/
def payload (K : Codec) (s : Sent) : List UInt8 := s.msg.serialBuffer K s.g s.ts

/-- `toBytes` writes these bytes for the message. -/
def Encodes (K : Codec) (s : Sent) (buf : List UInt8) : Prop :=
  ∃ asserts ok m', s.msg.toBytes K asserts s.g s.ts = .ret (ok, buf, m')

/-- `parseFromArray` makes this message of the serialized one. -/
def Decodes (K : Codec) (asserts : Bool) (s : Sent) (m : CoreMessage) : Prop :=
  ∃ id id', CoreMessage.parseFromArray K asserts (s.payload K) id = .ret (some m, id')

/-- A message of a kind that `BuildObj` can build, whose sizes fit the header. -/
structure Deliverable (K : Codec) (s : Sent) : Prop where
  kind : ∀ r, s.msg.package ≠ .refuse r
  sizes : CoreMessage.Sizes K (s.payload K)

/-- The packet of a message. -/
structure Packs (K : Codec) (s : Sent) (f : Packet) : Prop where
  bytes : f.bytes = CoreMessage.pkgBuffer K (s.payload K)
  contents : ProtobufPacketDecoder.contents K f = s.payload K
  verified : ProtobufPacketDecoder.Verified K f

section
variable {K : Codec} (hK : K.Lawful)
include hK

theorem encodes_iff (s : Sent) (buf : List UInt8) :
    s.Encodes K buf ↔ buf = CoreMessage.pkgBuffer K (s.payload K) := by
  constructor
  · rintro ⟨asserts, ok, m', h⟩
    rw [CoreMessage.toBytes_eq hK] at h
    cases h
    rfl
  · rintro rfl
    exact ⟨true, _, _, CoreMessage.toBytes_eq hK true s.g s.ts s.msg⟩

/-- The packet that `toBytes` lays out opens to the serialized message, compressed or not. -/
theorem contents_encode {data : List UInt8} (h : CoreMessage.Sizes K data) :
    ProtobufPacketDecoder.contents K (CoreMessage.encode K data h) = data ∧
      ProtobufPacketDecoder.Verified K (CoreMessage.encode K data h) := by
  have hcontents : ProtobufPacketDecoder.contents K (CoreMessage.encode K data h) = data := by
    by_cases hlt : (compress K data).2.length < data.length
    · have hne : UInt32.ofNat data.length ≠ UInt32.ofNat (compress K data).2.length := by
        intro heq
        have hs := congrArg UInt32.toNat heq
        have h1 := h.serial_lt
        have h2 := h.compress_lt
        rw [UInt32.toNat_ofNat', UInt32.toNat_ofNat', Nat.mod_eq_of_lt h1,
          Nat.mod_eq_of_lt h2] at hs
        omega
      have hsize : (UInt32.ofNat data.length).toNat = data.length := by
        rw [UInt32.toNat_ofNat', Nat.mod_eq_of_lt h.serial_lt]
      have hun : deCompress K data.length (compress K data).2 = (true, data) :=
        hK.uncompress_compress2 data
      rw [ProtobufPacketDecoder.contents, CoreMessage.encode, if_pos hlt,
        Packet.serialSize_ofParts, Packet.compressSize_ofParts, Packet.body_ofParts,
        ProtobufPacketDecoder.payload, if_neg hne, hsize, hun]
    · rw [ProtobufPacketDecoder.contents, CoreMessage.encode, if_neg hlt,
        Packet.serialSize_ofParts, Packet.compressSize_ofParts, Packet.body_ofParts,
        ProtobufPacketDecoder.payload, if_pos rfl]
  refine ⟨hcontents, ?_⟩
  rw [ProtobufPacketDecoder.Verified, hcontents, CoreMessage.encode]
  split
  · exact Packet.digest_ofParts
  · exact Packet.digest_ofParts

theorem exists_packs {s : Sent} (h : CoreMessage.Sizes K (s.payload K)) : ∃ f, Packs K s f :=
  ⟨CoreMessage.encode K (s.payload K) h, CoreMessage.bytes_encode h, (contents_encode hK h).1,
    (contents_encode hK h).2⟩

theorem exists_packs_all {sent : List Sent} (h : ∀ s ∈ sent, CoreMessage.Sizes K (s.payload K)) :
    ∃ fs, List.Forall₂ (Packs K) sent fs := by
  induction sent with
  | nil => exact ⟨[], .nil⟩
  | cons s sent ih =>
      rw [List.forall_mem_cons] at h
      obtain ⟨f, hf⟩ := exists_packs hK h.1
      obtain ⟨fs, hfs⟩ := ih h.2
      exact ⟨f :: fs, .cons hf hfs⟩

theorem parsed_iff {s : Sent} {f : Packet} (h : Packs K s f) :
    ProtobufPacketDecoder.Parsed K f ↔ ∀ r, s.msg.package ≠ .refuse r := by
  have hparse : K.parseFromArray (s.payload K) = some (s.msg.toProto s.g s.ts).2 :=
    hK.parse_serialize _
  rw [ProtobufPacketDecoder.Parsed, h.contents, hparse]
  exact CoreMessage.buildable_toProto_iff s.g s.ts s.msg

/-- The packets that pass are those of messages that `BuildObj` can build. -/
theorem passes_iff {s : Sent} {f : Packet} (h : Packs K s f) :
    ProtobufPacketDecoder.Passes K f ↔ ∀ r, s.msg.package ≠ .refuse r := by
  rw [ProtobufPacketDecoder.Passes, parsed_iff hK h]
  exact and_iff_right h.verified

theorem decodes_of_produces {asserts : Bool} {s : Sent} {f : Packet} (h : Packs K s f)
    (hkind : ∀ r, s.msg.package ≠ .refuse r) {x : Option CoreMessage}
    (hx : Produces (ProtobufPacketDecoder.openPacket K asserts) f x) :
    ∃ m, x = some m ∧ Decodes K asserts s m := by
  obtain ⟨id, id', hid⟩ := hx
  obtain ⟨m, id₁, hopen, hparse⟩ :=
    ProtobufPacketDecoder.openPacket_of_passes ((passes_iff hK h).mpr hkind) asserts id
  rw [hopen] at hid
  cases hid
  rw [h.contents] at hparse
  exact ⟨m, rfl, id, id', hparse⟩

theorem flatten_bufs {sent : List Sent} {fs : List Packet} {bufs : List (List UInt8)}
    (hpacks : List.Forall₂ (Packs K) sent fs) (henc : List.Forall₂ (Encodes K) sent bufs) :
    bufs.flatten = fs.flatMap Frame.bytes := by
  induction hpacks generalizing bufs with
  | nil =>
      cases henc
      rfl
  | cons hf _ ih =>
      cases henc with
      | cons hb hbs =>
          rw [List.flatten_cons, List.flatMap_cons, ih hbs, (encodes_iff hK _ _).mp hb, hf.bytes]

end
end Sent

/-! ## Delivery -/

namespace ProtobufPacketDecoder
variable {K : Codec} {asserts : Bool}

/-- The entries that the packets of deliverable messages leave are their decodings. -/
theorem decodes_of_forall (hK : K.Lawful) {sent : List Sent} {fs : List Packet}
    {q : List (Option CoreMessage)} (hpacks : List.Forall₂ (Sent.Packs K) sent fs)
    (hkind : ∀ s ∈ sent, ∀ r, s.msg.package ≠ .refuse r)
    (hq : List.Forall₂ (Produces (openPacket K asserts)) fs q) :
    ∃ ms, q = ms.map some ∧ List.Forall₂ (Sent.Decodes K asserts) sent ms := by
  induction hpacks generalizing q with
  | nil =>
      cases hq
      exact ⟨[], rfl, .nil⟩
  | cons hf _ ih =>
      cases hq with
      | cons hx hxs =>
          rw [List.forall_mem_cons] at hkind
          obtain ⟨m, rfl, hm⟩ := Sent.decodes_of_produces hK hf hkind.1 hx
          obtain ⟨ms, rfl, hms⟩ := ih hkind.2 hxs
          exact ⟨m :: ms, rfl, .cons hm hms⟩

theorem forall_passes (hK : K.Lawful) {sent : List Sent} {fs : List Packet}
    (hpacks : List.Forall₂ (Sent.Packs K) sent fs)
    (hkind : ∀ s ∈ sent, ∀ r, s.msg.package ≠ .refuse r) : ∀ f ∈ fs, Passes K f := by
  induction hpacks with
  | nil => simp
  | cons hf _ ih =>
      rw [List.forall_mem_cons] at hkind ⊢
      exact ⟨(Sent.passes_iff hK hf).mpr hkind.1, ih hkind.2⟩

variable (asserts) in
/-- A run over the packets of deliverable messages and a rest that does not stall. -/
theorem readAll_packs (hK : K.Lawful) {sent : List Sent} {fs : List Packet}
    (hpacks : List.Forall₂ (Sent.Packs K) sent fs)
    (hkind : ∀ s ∈ sent, ∀ r, s.msg.package ≠ .refuse r) {cs : List Chunk}
    (hfs : packets cs = fs) (hrest : ¬Stalled packet (remainder cs)) :
    ∃ d ms, readAll K asserts fresh cs = .ret d ∧ Holds d ⟨remainder cs, d.vec⟩ ∧
      d.vec = ms.map some ∧ List.Forall₂ (Sent.Decodes K asserts) sent ms := by
  have hok : Unharmed K asserts cs := by
    intro _
    rw [hfs]
    exact forall_passes hK hpacks hkind
  have hrun := readAll_cases K asserts cs
  generalize hx : readAll K asserts fresh cs = x at hrun
  cases hrun with
  | aborted h => exact absurd hok h
  | running _ hs => exact absurd hs (not_spins_of_remainder hrest)
  | @ret _ _ d hd hq =>
      rw [hfs] at hq
      obtain ⟨ms, hvec, hms⟩ := decodes_of_forall hK hpacks hkind hq
      exact ⟨d, ms, rfl, hd, hvec, hms⟩

/-- Reading only adds to the queue. -/
theorem readAll_queue {d : ProtobufPacketDecoder} {r : Reader UInt8 (Option CoreMessage)}
    (h : Holds d r) {cs : List Chunk} {d' : ProtobufPacketDecoder}
    (hrun : readAll K asserts d cs = .ret d') : d.vec <+: d'.vec := by
  have hrel := readAll_refines K asserts h cs
  rw [hrun, Outcome.Rel.ret_iff] at hrel
  obtain ⟨r', hr', hd'⟩ := hrel
  rw [h.queue, hd'.queue]
  exact Framing.Reader.readAll_queue hr'

/-- The rest of a stream that is cut inside a packet, or between two. -/
theorem split_rest {pre : List UInt8}
    (h : pre = [] ∨ ∃ (f : Packet) (rest : List UInt8), f.bytes = pre ++ rest ∧ rest ≠ []) :
    split packet pre = ([], pre) ∧ ¬Stalled packet pre := by
  rcases h with rfl | ⟨f, rest, hf, hne⟩
  · exact ⟨Framing.split_nil, Framing.not_stalled_nil⟩
  · refine ⟨Frame.split_part hf.symm hne, ?_⟩
    rintro ⟨hlen, h0⟩
    apply f.announced_ne
    rw [hf, Framing.announced_append hlen, h0]

theorem packets_of_append {fs : List Packet} {pre : List UInt8} {cs : List Chunk}
    (h : stream cs = fs.flatMap Frame.bytes ++ pre) (hpre : split packet pre = ([], pre)) :
    packets cs = fs ∧ remainder cs = pre := by
  rw [packets, remainder, h, Framing.split_flatMap_append, hpre]
  exact ⟨List.append_nil _, rfl⟩

/-- **Delivery does not depend on the cuts.** Whatever the chunks of a stream of encoded
messages, of which the last may be incomplete, the queue of a fresh decoder holds the
decodings of the complete ones; and whatever the chunks of what is missing, they add the
decoding of the last. -/
theorem readAll_toBytes (hK : K.Lawful) (asserts : Bool) {sent : List Sent}
    {bufs : List (List UInt8)} (hsent : ∀ s ∈ sent, s.Deliverable K)
    (henc : List.Forall₂ (Sent.Encodes K) sent bufs) {pre : List UInt8}
    (hpre : pre = [] ∨ ∃ (s : Sent) (rest : List UInt8),
      s.Deliverable K ∧ s.Encodes K (pre ++ rest) ∧ rest ≠ [])
    {cs : List Chunk} (hcs : stream cs = bufs.flatten ++ pre) :
    ∃ d ms, readAll K asserts fresh cs = .ret d ∧ d.vec = ms.map some ∧
      List.Forall₂ (Sent.Decodes K asserts) sent ms ∧
      ∀ (s : Sent) (rest : List UInt8), s.Deliverable K → s.Encodes K (pre ++ rest) →
        ∀ more, stream more = rest →
          ∃ d' m, readAll K asserts d more = .ret d' ∧ d'.vec = d.vec ++ [some m] ∧
            s.Decodes K asserts m := by
  obtain ⟨fs, hpacks⟩ := Sent.exists_packs_all hK fun s hs => (hsent s hs).sizes
  have hkind : ∀ s ∈ sent, ∀ r, s.msg.package ≠ .refuse r := fun s hs => (hsent s hs).kind
  have hbytes := Sent.flatten_bufs hK hpacks henc
  have hcut : pre = [] ∨ ∃ (f : Packet) (rest : List UInt8), f.bytes = pre ++ rest ∧ rest ≠ [] := by
    rcases hpre with h | ⟨s, rest, hs, hbuf, hne⟩
    · exact Or.inl h
    · obtain ⟨f, hf⟩ := Sent.exists_packs hK hs.sizes
      exact Or.inr ⟨f, rest, hf.bytes.trans ((Sent.encodes_iff hK _ _).mp hbuf).symm, hne⟩
  obtain ⟨hsplit, hstalled⟩ := split_rest hcut
  rw [hbytes] at hcs
  obtain ⟨hfs, hrest⟩ := packets_of_append hcs hsplit
  obtain ⟨d, ms, hd, hholds, hvec, hms⟩ := readAll_packs asserts hK hpacks hkind hfs
    (by rwa [hrest])
  refine ⟨d, ms, hd, hvec, hms, ?_⟩
  intro s rest hs hbuf more hmore
  obtain ⟨f, hf⟩ := Sent.exists_packs hK hs.sizes
  -- The chunks of the missing rest complete a run over one message more.
  have hstream : stream (cs ++ more) = (fs ++ [f]).flatMap Frame.bytes ++ [] := by
    rw [stream, List.flatMap_append, ← stream, ← stream, hcs, hmore, List.append_assoc,
      (Sent.encodes_iff hK _ _).mp hbuf, ← hf.bytes]
    simp
  obtain ⟨hfs', hrest'⟩ := packets_of_append hstream Framing.split_nil
  have hpacks' : List.Forall₂ (Sent.Packs K) (sent ++ [s]) (fs ++ [f]) :=
    List.rel_append hpacks (.cons hf .nil)
  have hkind' : ∀ t ∈ sent ++ [s], ∀ r, t.msg.package ≠ .refuse r := by
    intro t ht
    rcases List.mem_append.mp ht with ht | ht
    · exact hkind t ht
    · rw [List.mem_singleton.mp ht]
      exact hs.kind
  obtain ⟨d', ms', hd', _, hvec', hms'⟩ := readAll_packs asserts hK hpacks' hkind' hfs'
    (by rw [hrest']; exact Framing.not_stalled_nil)
  rw [readAll_append, hd, Outcome.ret_bind] at hd'
  obtain ⟨q, hq⟩ := readAll_queue hholds hd'
  rw [hvec'] at hq
  obtain ⟨ms₁, ms₂, rfl, hms₁, hms₂⟩ := List.map_eq_append_iff.mp hq.symm
  have hlen : ms₁.length = sent.length := by
    have hmap : (ms₁.map some).length = ms₁.length := List.length_map some
    rw [hms.length_eq, ← hmap, hms₁, hvec, List.length_map]
  have hlast := List.forall₂_drop_append _ _ _ hms'
  rw [hlen, List.drop_left] at hlast
  cases hlast with
  | cons hm hnil =>
      cases hnil
      refine ⟨d', _, hd', ?_, hm⟩
      rw [hvec', ← hq, ← hms₂]
      rfl

/-- The sample message on its way. -/
def sampleSent : Sent := ⟨Sample.process, Sample.ts, Sample.connect⟩

theorem sampleSent_deliverable : sampleSent.Deliverable Sample.codec where
  kind := by simp [sampleSent, Sample.connect, CoreMessage.connectPackage]
  sizes := by
    rw [Sent.payload, sampleSent, Sample.serialBuffer_connect]
    exact Sample.sizes

theorem sampleSent_encodes : sampleSent.Encodes Sample.codec Sample.packet.bytes := by
  rw [Sent.encodes_iff Sample.codec_lawful, Sent.payload, sampleSent, Sample.serialBuffer_connect]
  exact CoreMessage.bytes_encode Sample.sizes

/-- One connect package, and a second one cut inside its header. -/
theorem readAll_connect :
    ∃ d ms, readAll Sample.codec true fresh
        [⟨Sample.packet.bytes ++ Sample.packet.bytes.take 10, 0⟩] = .ret d ∧
      d.vec = ms.map some ∧
      List.Forall₂ (Sent.Decodes Sample.codec true) [sampleSent] ms ∧
      ∀ (s : Sent) (rest : List UInt8), s.Deliverable Sample.codec →
        s.Encodes Sample.codec (Sample.packet.bytes.take 10 ++ rest) →
          ∀ more, stream more = rest →
            ∃ d' m, readAll Sample.codec true d more = .ret d' ∧ d'.vec = d.vec ++ [some m] ∧
              s.Decodes Sample.codec true m :=
  readAll_toBytes Sample.codec_lawful true
    (by simpa using sampleSent_deliverable) (.cons sampleSent_encodes .nil)
    (Or.inr ⟨sampleSent, Sample.packet.bytes.drop 10, sampleSent_deliverable,
      by rw [List.take_append_drop]; exact sampleSent_encodes, by decide⟩)
    (by simp [stream])

end ProtobufPacketDecoder
end ClientService
