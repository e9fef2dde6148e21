import ClientService.Decoder.Refinement
import ClientService.Protobuf.Codec

/-!
# Runs of the decoder on arbitrary streams

What a fresh decoder makes of a sequence of chunks, in terms of the packets of the stream.
A packet `Passes` when its digest matches what `_read` hashes and that parses to a message
with an operation `BuildObj` knows. Any other packet ends the process in a build that
checks assertions. In a build that does not, it leaves an entry in the queue all the same.

## Main results

* `readAll_cases` — the three ways in which a run ends.
* `endsWithin_iff` — when every call of `read` ends.
* `contained_iff` — when a stream of packets leaves exactly its messages in the queue.
-/

namespace ClientService.ProtobufPacketDecoder

open Framing (Frame Reader Stalled Stuck StuckRun split Accepts Rejects Produces RunResult)

section
variable (K : Codec)

/-- The bytes of a packet that `_read` hashes and parses. -/
def contents (f : Packet) : List UInt8 := payload K f.serialSize f.compressSize f.body

/-- The packet's header has the digest of its contents. -/
def Verified (f : Packet) : Prop := f.digest = (K.sha256 (contents K f)).val

instance (f : Packet) : Decidable (Verified K f) := inferInstanceAs (Decidable (_ = _))

/-- `BuildObj` makes an object of the contents. -/
def Parsed (f : Packet) : Prop :=
  match K.parseFromArray (contents K f) with
  | some core => CoreMessage.Buildable core
  | none => False

instance (f : Packet) : Decidable (Parsed K f) := by
  unfold Parsed
  split <;> infer_instance

/-- The packet is a valid one. -/
def Passes (f : Packet) : Prop := Verified K f ∧ Parsed K f

instance (f : Packet) : Decidable (Passes K f) := inferInstanceAs (Decidable (_ ∧ _))

end

/-! ## One packet -/

section
variable {K : Codec} {f : Packet}

theorem parseFromArray_of_parsed (h : Parsed K f) (asserts : Bool) (id : Int32) :
    ∃ m id', CoreMessage.parseFromArray K asserts (contents K f) id = .ret (some m, id') := by
  unfold Parsed at h
  cases hcore : K.parseFromArray (contents K f) with
  | none =>
      rw [hcore] at h
      exact h.elim
  | some core =>
      rw [hcore] at h
      simp only [CoreMessage.parseFromArray, hcore]
      exact CoreMessage.buildObj_of_buildable asserts h id

theorem parseFromArray_of_not_parsed (h : ¬Parsed K f) (asserts : Bool) (id : Int32) :
    CoreMessage.parseFromArray K asserts (contents K f) id = .ret (none, id) ∨
      asserts = true ∧ CoreMessage.parseFromArray K asserts (contents K f) id = .aborted := by
  unfold Parsed at h
  cases hcore : K.parseFromArray (contents K f) with
  | none =>
      left
      simp only [CoreMessage.parseFromArray, hcore]
  | some core =>
      rw [hcore] at h
      simp only [CoreMessage.parseFromArray, hcore, CoreMessage.buildObj_of_not_buildable asserts h]
      cases asserts <;> simp

/-- A valid packet becomes a message, in every build. -/
theorem openPacket_of_passes (h : Passes K f) (asserts : Bool) (id : Int32) :
    ∃ m id', openPacket K asserts f id = .ret (some m, id') ∧
      CoreMessage.parseFromArray K asserts (contents K f) id = .ret (some m, id') := by
  obtain ⟨m, id', hm⟩ := parseFromArray_of_parsed h.2 asserts id
  refine ⟨m, id', ?_, hm⟩
  have hv : f.digest = (K.sha256 (payload K f.serialSize f.compressSize f.body)).val := h.1
  rw [contents] at hm
  simp only [openPacket, openBody, Outcome.assert_of _ hv, Outcome.ret_bind, hm, Option.isSome_some,
    Outcome.assert_of]

/-- Any other packet fails an assertion of `_read` or of `BuildObj`. -/
theorem openPacket_of_not_passes (h : ¬Passes K f) (id : Int32) :
    openPacket K true f id = .aborted := by
  by_cases hv : Verified K f
  · have hp : ¬Parsed K f := fun hp => h ⟨hv, hp⟩
    have hv' : f.digest = (K.sha256 (payload K f.serialSize f.compressSize f.body)).val := hv
    rcases parseFromArray_of_not_parsed hp true id with hm | ⟨_, hm⟩
    · rw [contents] at hm
      simp only [openPacket, openBody, Outcome.assert_of _ hv', Outcome.ret_bind, hm,
        Option.isSome_none, Bool.false_eq_true, Outcome.assert_enabled not_false,
        Outcome.aborted_bind]
    · rw [contents] at hm
      simp only [openPacket, openBody, Outcome.assert_of _ hv', Outcome.ret_bind, hm,
        Outcome.aborted_bind]
  · have hv' : ¬f.digest = (K.sha256 (payload K f.serialSize f.compressSize f.body)).val := hv
    simp only [openPacket, openBody, Outcome.assert_enabled hv', Outcome.aborted_bind]

/-- Without assertions every packet leaves an entry: a message when it parses, else null. -/
theorem openPacket_release (f : Packet) (id : Int32) :
    ∃ x id', openPacket K false f id = .ret (x, id') ∧ (x.isSome = true ↔ Parsed K f) := by
  have hopen : openPacket K false f id =
      CoreMessage.parseFromArray K false (contents K f) id := by
    simp only [openPacket, openBody, Outcome.assert_disabled, Outcome.ret_bind, contents]
    cases CoreMessage.parseFromArray K false _ id <;> rfl
  rw [hopen]
  by_cases hp : Parsed K f
  · obtain ⟨m, id', hm⟩ := parseFromArray_of_parsed hp false id
    exact ⟨some m, id', hm, by simp [hp]⟩
  · rcases parseFromArray_of_not_parsed hp false id with hm | ⟨hfalse, _⟩
    · exact ⟨none, id, hm, by simp [hp]⟩
    · cases hfalse

theorem accepts_iff (asserts : Bool) :
    Accepts (openPacket K asserts) f ↔ (asserts = true → Passes K f) := by
  constructor
  · rintro h rfl
    by_contra hp
    obtain ⟨m, s', hm⟩ := h 0
    rw [openPacket_of_not_passes hp] at hm
    cases hm
  · intro h s
    cases asserts with
    | true =>
        obtain ⟨m, id', hm, _⟩ := openPacket_of_passes (h rfl) true s
        exact ⟨some m, id', hm⟩
    | false =>
        obtain ⟨x, id', hx, _⟩ := openPacket_release (K := K) f s
        exact ⟨x, id', hx⟩

theorem accepts_or_rejects (K : Codec) (asserts : Bool) (f : Packet) :
    Accepts (openPacket K asserts) f ∨ Rejects (openPacket K asserts) f := by
  by_cases h : asserts = true → Passes K f
  · exact Or.inl ((accepts_iff asserts).mpr h)
  · obtain ⟨rfl, hp⟩ := Classical.not_imp.mp h
    exact Or.inr fun s => openPacket_of_not_passes hp s

theorem not_accepts_of_rejects {asserts : Bool} (h : Rejects (openPacket K asserts) f) :
    ¬Accepts (openPacket K asserts) f := by
  intro ha
  obtain ⟨m, s', hm⟩ := ha 0
  rw [h 0] at hm
  cases hm

/-- What a valid packet leaves in the queue is a message. -/
theorem isSome_of_produces {asserts : Bool} {x : Option CoreMessage}
    (h : Produces (openPacket K asserts) f x) (hp : Passes K f) : x.isSome = true := by
  obtain ⟨s, s', hx⟩ := h
  obtain ⟨m, id', hm, _⟩ := openPacket_of_passes hp asserts s
  rw [hm] at hx
  cases hx
  rfl

end

/-! ## Runs -/

/-- The packets of the stream. -/
def packets (cs : List Chunk) : List Packet := (split packet (stream cs)).1

/-- What follows the last complete packet. -/
def remainder (cs : List Chunk) : List UInt8 := (split packet (stream cs)).2

/-- The chunks as the reader takes them. -/
def feed (cs : List Chunk) : List (List UInt8 × Int32) := cs.map fun c => (c.data, c.id)

theorem flatMap_feed (cs : List Chunk) : (feed cs).flatMap Prod.fst = stream cs := by
  rw [feed, stream, List.flatMap_map]

theorem frames_feed (cs : List Chunk) : Framing.frames packet (feed cs) = packets cs := by
  rw [Framing.frames, flatMap_feed, packets]

theorem rest_feed (cs : List Chunk) : Framing.rest packet (feed cs) = remainder cs := by
  rw [Framing.rest, flatMap_feed, remainder]

/-- A header announcing no body stands at a packet boundary, and one more byte or one more
call follows it. -/
def Spins (cs : List Chunk) : Prop := StuckRun packet (feed cs)

/-- No packet of the stream fails an assertion. -/
def Unharmed (K : Codec) (asserts : Bool) (cs : List Chunk) : Prop :=
  asserts = true → ∀ f ∈ packets cs, Passes K f

section
variable (K : Codec) (asserts : Bool)

/-- How a run of the decoder ends. -/
inductive Run (cs : List Chunk) : Outcome ProtobufPacketDecoder → Prop
  /-- A packet has failed an assertion. -/
  | aborted (h : ¬Unharmed K asserts cs) : Run cs .aborted
  /-- A call never ends. -/
  | running (h : Unharmed K asserts cs) (hs : Spins cs) : Run cs .running
  /-- Every packet has left its entry in the queue. -/
  | ret (h : Unharmed K asserts cs) (hs : ¬Spins cs) {d : ProtobufPacketDecoder}
      (hd : Holds d ⟨remainder cs, d.vec⟩)
      (hq : List.Forall₂ (Produces (openPacket K asserts)) (packets cs) d.vec) : Run cs (.ret d)

variable {K asserts}

theorem unharmed_iff {cs : List Chunk} :
    (∀ f ∈ packets cs, Accepts (openPacket K asserts) f) ↔ Unharmed K asserts cs := by
  constructor
  · intro h ha f hf
    exact (accepts_iff asserts).mp (h f hf) ha
  · intro h f hf
    exact (accepts_iff asserts).mpr fun ha => h ha f hf

variable (K asserts) in
/-- **The outcome of a run** depends on the packets of the stream, and on whether it stalls. -/
theorem readAll_cases (cs : List Chunk) : Run K asserts cs (readAll K asserts fresh cs) := by
  have hrel := readAll_refines K asserts holds_fresh cs
  have hres := Framing.readAll_fresh (accepts_or_rejects K asserts) (feed cs)
  rw [← feed] at hrel
  generalize readAll K asserts fresh cs = x at hrel ⊢
  generalize Reader.readAll (openPacket K asserts) Reader.fresh (feed cs) = y at hrel hres
  cases hres with
  | rejected h =>
      obtain ⟨f, hf, hr⟩ := h
      rw [frames_feed] at hf
      cases hrel
      exact .aborted fun h => not_accepts_of_rejects hr (unharmed_iff.mpr h f hf)
  | stuck h hs =>
      rw [frames_feed] at h
      cases hrel
      exact .running (unharmed_iff.mp h) hs
  | done h hs hq =>
      rw [frames_feed] at h hq
      rw [rest_feed] at hrel
      obtain ⟨hd⟩ := hrel
      have hqueue := hd.queue
      refine .ret (unharmed_iff.mp h) hs ?_ ?_
      · rw [hqueue]
        exact hd
      · rw [hqueue]
        exact hq

end

/-! ## Termination -/

section
variable (K : Codec) (asserts : Bool)

/-- Every call of `read` that the run reaches ends within a number of calls that depends
on the length of its chunk. -/
def EndsWithin (bound : ℕ → ℕ) (cs : List Chunk) : Prop :=
  ∀ cs₁ c cs₂ d, cs = cs₁ ++ c :: cs₂ → readAll K asserts fresh cs₁ = .ret d →
    _read K asserts (bound c.data.length) d c.data c.id ≠ .running

variable {K asserts}

theorem readAll_append (d : ProtobufPacketDecoder) (cs ds : List Chunk) :
    readAll K asserts d (cs ++ ds) =
      readAll K asserts d cs >>= fun d => readAll K asserts d ds := by
  induction cs generalizing d with
  | nil => rfl
  | cons c cs ih => simp only [List.cons_append, readAll, ih, Outcome.bind_assoc]

/-- A run never ends because one of its calls does not. -/
theorem readAll_running {d : ProtobufPacketDecoder} {cs : List Chunk}
    (h : readAll K asserts d cs = .running) :
    ∃ cs₁ c cs₂ d', cs = cs₁ ++ c :: cs₂ ∧ readAll K asserts d cs₁ = .ret d' ∧
      read K asserts d' c.data c.id = .running := by
  induction cs generalizing d with
  | nil => cases h
  | cons c cs ih =>
      cases hc : read K asserts d c.data c.id with
      | aborted =>
          simp only [readAll, hc, Outcome.aborted_bind] at h
          cases h
      | running => exact ⟨[], c, cs, d, rfl, rfl, hc⟩
      | ret x =>
          simp only [readAll, hc, Outcome.ret_bind] at h
          obtain ⟨cs₁, c', cs₂, d', hsplit, hd', hrun⟩ := ih h
          refine ⟨c :: cs₁, c', cs₂, d', by rw [hsplit]; rfl, ?_, hrun⟩
          simp only [readAll, hc, Outcome.ret_bind, hd']

/-- The calls end when the run does. -/
theorem endsWithin_callBound (cs : List Chunk) :
    EndsWithin K asserts callBound cs ↔ readAll K asserts fresh cs ≠ .running := by
  constructor
  · intro h hrun
    obtain ⟨cs₁, c, cs₂, d, hsplit, hd, hc⟩ := readAll_running hrun
    exact h cs₁ c cs₂ d hsplit hd hc
  · intro h cs₁ c cs₂ d hsplit hd hc
    have hread : read K asserts d c.data c.id = .running := hc
    apply h
    rw [hsplit, readAll_append, hd, Outcome.ret_bind, readAll, hread, Outcome.running_bind]

/-- A decoder that a run has reached represents a reader. -/
theorem exists_holds {cs : List Chunk} {d : ProtobufPacketDecoder}
    (h : readAll K asserts fresh cs = .ret d) : ∃ r, Holds d r := by
  have hrel := readAll_refines K asserts holds_fresh cs
  rw [h, Outcome.Rel.ret_iff] at hrel
  obtain ⟨r, _, hr⟩ := hrel
  exact ⟨r, hr⟩

/-- No bound does better than `callBound`. -/
theorem EndsWithin.callBound {bound : ℕ → ℕ} {cs : List Chunk}
    (h : EndsWithin K asserts bound cs) : EndsWithin K asserts callBound cs := by
  intro cs₁ c cs₂ d hsplit hd hrun
  obtain ⟨r, hr⟩ := exists_holds hd
  exact h cs₁ c cs₂ d hsplit hd (running_of_read hr hrun _)

theorem readAll_ne_running_iff (cs : List Chunk) :
    readAll K asserts fresh cs ≠ .running ↔ ¬(Spins cs ∧ Unharmed K asserts cs) := by
  have hrun := readAll_cases K asserts cs
  generalize readAll K asserts fresh cs = x at hrun
  cases hrun with
  | aborted h => simp [h]
  | running h hs => simp [h, hs]
  | ret h hs => simp [hs]

/-- **Termination.** The calls of `read` end, within `callBound`, exactly when the stream
does not stall before a further byte or call; an assertion that fails on an earlier packet
ends them too. Where `callBound` does not suffice, no bound does. -/
theorem endsWithin_iff (K : Codec) (asserts : Bool) (cs : List Chunk) :
    (EndsWithin K asserts callBound cs ↔ ¬(Spins cs ∧ Unharmed K asserts cs)) ∧
      ∀ bound, EndsWithin K asserts bound cs → EndsWithin K asserts callBound cs := by
  refine ⟨?_, fun bound h => h.callBound⟩
  rw [endsWithin_callBound, readAll_ne_running_iff]

/-- A header of zeros and one byte after it make `_read` and `parseHeader` call each other
for ever. -/
theorem not_endsWithin_zeros :
    ¬∃ bound, ∀ (K : Codec), K.Lawful → ∀ (asserts : Bool) (cs : List Chunk),
      EndsWithin K asserts bound cs := by
  rintro ⟨bound, h⟩
  have hends := (h Sample.codec Sample.codec_lawful true [⟨List.replicate 41 0, 0⟩]).callBound
  rw [endsWithin_callBound, readAll_ne_running_iff] at hends
  have hstalled : Stalled packet (List.replicate 41 0) := by decide
  have hsplit := Framing.split_of_not_complete hstalled.not_complete
  apply hends
  constructor
  · simp only [Spins, feed, List.map_cons, List.map_nil, StuckRun, List.dropLast_singleton,
      Framing.rest, List.flatMap_singleton, hsplit]
    decide
  · intro _ f hf
    simp only [packets, stream, List.flatMap_singleton, hsplit] at hf
    cases hf

end

/-! ## Containment -/

section
variable (K : Codec) (asserts : Bool)

/-- A stream of packets is received without harm: no call fails an assertion, the queue
holds the messages of some of the packets in order, each with the right digest, and none
of the valid packets is missing. -/
def Contained (fs : List Packet) (cs : List Chunk) : Prop :=
  ∃ d, readAll K asserts fresh cs = .ret d ∧ (∀ x ∈ d.vec, x.isSome = true) ∧
    ∃ kept, kept.Sublist fs ∧ (fs.filter (Passes K ·)).Sublist kept ∧
      (∀ f ∈ kept, Verified K f) ∧ List.Forall₂ (Produces (openPacket K asserts)) kept d.vec

variable {K asserts}

theorem packets_of_stream {fs : List Packet} {cs : List Chunk}
    (h : stream cs = fs.flatMap Frame.bytes) : packets cs = fs ∧ remainder cs = [] := by
  have hsplit := Framing.split_flatMap_append (F := packet) fs []
  rw [List.append_nil, Framing.split_nil, List.append_nil] at hsplit
  rw [packets, remainder, h, hsplit]
  exact ⟨rfl, rfl⟩

/-- A stream of complete packets does not stall. -/
theorem not_spins_of_remainder {cs : List Chunk} (h : ¬Stalled packet (remainder cs)) :
    ¬Spins cs := by
  rintro ⟨hs, _⟩
  rw [rest_feed] at hs
  exact h hs

theorem forall_of_produces {fs : List Packet} {q : List (Option CoreMessage)}
    (hq : List.Forall₂ (Produces (openPacket K false)) fs q)
    (hsome : ∀ x ∈ q, x.isSome = true) : ∀ f ∈ fs, Parsed K f := by
  induction hq with
  | nil => simp
  | @cons f x fs q hx _ ih =>
      rw [List.forall_mem_cons] at hsome ⊢
      refine ⟨?_, ih hsome.2⟩
      obtain ⟨s, s', hs⟩ := hx
      obtain ⟨y, id', hy, hiff⟩ := openPacket_release (K := K) f s
      rw [hs] at hy
      cases hy
      exact hiff.mp hsome.1

theorem isSome_of_forall {fs : List Packet} {q : List (Option CoreMessage)}
    (hq : List.Forall₂ (Produces (openPacket K asserts)) fs q) (hp : ∀ f ∈ fs, Passes K f) :
    ∀ x ∈ q, x.isSome = true := by
  induction hq with
  | nil => simp
  | cons hx _ ih =>
      rw [List.forall_mem_cons] at hp ⊢
      exact ⟨isSome_of_produces hx hp.1, ih hp.2⟩

theorem not_spins_of_stream {fs : List Packet} {cs : List Chunk}
    (h : stream cs = fs.flatMap Frame.bytes) : ¬Spins cs := by
  apply not_spins_of_remainder
  rw [(packets_of_stream h).2]
  exact Framing.not_stalled_nil

/-- A packet that does not pass ends the process, or leaves null or an unverified message. -/
theorem Contained.passes {fs : List Packet} {cs : List Chunk}
    (h : stream cs = fs.flatMap Frame.bytes) (hc : Contained K asserts fs cs) :
    ∀ f ∈ fs, Passes K f := by
  obtain ⟨hpackets, _⟩ := packets_of_stream h
  obtain ⟨d, hd, hsome, kept, hkept, _, hverified, hproduced⟩ := hc
  have hrun := readAll_cases K asserts cs
  rw [hd] at hrun
  cases hrun with
  | ret hok _ _ hq =>
      rw [hpackets] at hq
      cases asserts with
      | true =>
          rw [← hpackets]
          exact hok rfl
      | false =>
          -- Every packet has left an entry, so each of them was kept.
          have hall : kept = fs :=
            hkept.eq_of_length (by rw [hproduced.length_eq, hq.length_eq])
          subst hall
          have hparsed := forall_of_produces hq hsome
          exact fun f hf => ⟨hverified f hf, hparsed f hf⟩

theorem contained_of_passes {fs : List Packet} {cs : List Chunk}
    (h : stream cs = fs.flatMap Frame.bytes) (hp : ∀ f ∈ fs, Passes K f) :
    Contained K asserts fs cs := by
  obtain ⟨hpackets, _⟩ := packets_of_stream h
  have hok : Unharmed K asserts cs := by
    intro _
    rw [hpackets]
    exact hp
  have hrun := readAll_cases K asserts cs
  generalize hx : readAll K asserts fresh cs = x at hrun
  cases hrun with
  | aborted h => exact absurd hok h
  | running _ hs => exact absurd hs (not_spins_of_stream h)
  | @ret _ _ d _ hq =>
      rw [hpackets] at hq
      refine ⟨d, hx, isSome_of_forall hq hp, fs, List.Sublist.refl _, List.filter_sublist, ?_, hq⟩
      exact fun f hf => (hp f hf).1

/-- **Containment.** A stream of packets is received without harm, in either build, exactly
when each of its packets is valid. -/
theorem contained_iff (K : Codec) (asserts : Bool) {fs : List Packet} {cs : List Chunk}
    (h : stream cs = fs.flatMap Frame.bytes) :
    Contained K asserts fs cs ↔ ∀ f ∈ fs, Passes K f :=
  ⟨Contained.passes h, contained_of_passes h⟩

theorem contained_connect :
    Contained Sample.codec true [Sample.packet] [⟨Sample.packet.bytes, 0⟩] :=
  (contained_iff Sample.codec true (by simp [stream])).mpr (by decide)

/-- The sample packet with another digest. -/
def corruptPacket : Packet :=
  Packet.ofParts 53 53 ⟨List.replicate 32 0, length_zeros⟩ Sample.payload rfl (by decide)

/-- A packet with a wrong digest is not contained, in either build. -/
theorem not_contained_corrupt :
    ¬∃ asserts, ∀ (K : Codec), K.Lawful → ∀ (fs : List Packet) (cs : List Chunk),
      stream cs = fs.flatMap Frame.bytes → Contained K asserts fs cs := by
  rintro ⟨asserts, h⟩
  have hstream : stream [⟨corruptPacket.bytes, 0⟩] = [corruptPacket].flatMap Frame.bytes := by
    simp [stream]
  have hpasses := (h Sample.codec Sample.codec_lawful [corruptPacket] [⟨corruptPacket.bytes, 0⟩]
    hstream).passes hstream corruptPacket List.mem_cons_self
  exact absurd hpasses (by decide)

end
end ClientService.ProtobufPacketDecoder
