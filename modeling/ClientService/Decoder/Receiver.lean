import ClientService.Decoder.Delivery

/-!
# The two receivers

`Client::readFromNetwork` on the server and `uvNetworkReadCB` on the client begin alike: one
call of `read`, one call of `GetProtobufMessage`, and the message, if there is one, goes to
the handler. `Receiver.run` is what a session hands to its handler over successive reads.

One read may complete several packets, and each receiver takes one message from the queue.
`prompt_iff` says that this goes well exactly when the messages arrive one by one.

## Main definitions

* `Receiver.call`, `Receiver.run` — one read, and successive reads.
* `arrived` — the messages whose last byte is among the first bytes of the stream.
* `Prompt` — what has arrived has been handed on, after every read.
-/

namespace ClientService

open Framing (Frame Reader Stalled Stuck split Produces Accepts)
open ProtobufPacketDecoder (Chunk stream openPacket packets remainder Holds Passes)

/-- The callers of the decoder. -/
inductive Receiver where
  | readFromNetwork
  | uvNetworkReadCB
  deriving DecidableEq, Repr

namespace Receiver

/-- `decoder.read` and then `GetProtobufMessage`. -/
def receive (K : Codec) (asserts : Bool) (d : ProtobufPacketDecoder) (c : Chunk) :
    Outcome (Option CoreMessage × ProtobufPacketDecoder) := do
  let (_, d, _) ← d.read K asserts c.data c.id
  .ret d.getProtobufMessage

/-- The part of a receiver before its handler: the message for the handler, if any.
`uvNetworkReadCB` does nothing for a size that is not positive. -/
def call (K : Codec) (asserts : Bool) (recv : Receiver) (d : ProtobufPacketDecoder) (c : Chunk) :
    Outcome (Option CoreMessage × ProtobufPacketDecoder) :=
  match recv with
  | .readFromNetwork => receive K asserts d c
  | .uvNetworkReadCB =>
      if 0 < c.data.length then receive K asserts d c else .ret (none, d)

/-- Successive reads: all messages that the handler got. -/
def run (K : Codec) (asserts : Bool) (recv : Receiver) :
    ProtobufPacketDecoder → List Chunk → Outcome (List CoreMessage × ProtobufPacketDecoder)
  | d, [] => .ret ([], d)
  | d, c :: cs => do
      let (x, d) ← recv.call K asserts d c
      let (ms, d) ← run K asserts recv d cs
      .ret (x.toList ++ ms, d)

section
variable {K : Codec} {asserts : Bool} {recv : Receiver}

theorem run_concat (d : ProtobufPacketDecoder) (cs : List Chunk) (c : Chunk) :
    recv.run K asserts d (cs ++ [c]) =
      (do let (ms, d) ← recv.run K asserts d cs
          let (x, d) ← recv.call K asserts d c
          .ret (ms ++ x.toList, d)) := by
  induction cs generalizing d with
  | nil =>
      simp only [List.nil_append, run, Outcome.ret_bind]
      cases recv.call K asserts d c with
      | ret x => simp
      | aborted => rfl
      | running => rfl
  | cons c' cs ih =>
      simp only [List.cons_append, run, ih, Outcome.bind_assoc, Outcome.ret_bind, List.append_assoc]

theorem getProtobufMessage_eq (d : ProtobufPacketDecoder) :
    d.getProtobufMessage = (d.vec.head?.join, { d with vec := d.vec.tail }) := by
  cases h : d.vec with
  | nil =>
      simp only [ProtobufPacketDecoder.getProtobufMessage, h, List.head?_nil, Option.join_none,
        List.tail_nil, Prod.mk.injEq, true_and]
      rw [← h]
  | cons x vec =>
      simp only [ProtobufPacketDecoder.getProtobufMessage, h, List.head?_cons, Option.join_some,
        List.tail_cons]

theorem holds_tail {d : ProtobufPacketDecoder} {p : List UInt8} {q : List (Option CoreMessage)}
    (h : Holds d ⟨p, q⟩) : Holds { d with vec := d.vec.tail } ⟨p, q.tail⟩ := by
  have hq : d.vec = q := h.queue
  refine ⟨?_, by rw [hq]⟩
  rcases h.phase with hp | hp
  · exact Or.inl ⟨hp.compress, hp.remain, hp.unread, hp.good, hp.size, hp.le, hp.bytes⟩
  · exact Or.inr ⟨hp.compress_ne, hp.good, hp.size, hp.bytes, hp.compress, hp.serial,
      hp.remain_pos, hp.remain⟩

variable (recv) in
/-- A read whose packets all go through hands on the first of their entries and keeps the
others. -/
theorem call_of_accepts {d : ProtobufPacketDecoder} {p : List UInt8} (h : Holds d ⟨p, []⟩)
    (hp : split packet p = ([], p)) (c : Chunk)
    (ha : ∀ f ∈ (split packet (p ++ c.data)).1, Accepts (openPacket K asserts) f)
    (hs : ¬Stalled packet (split packet (p ++ c.data)).2) :
    ∃ ms d', recv.call K asserts d c = .ret (ms.head?.join, d') ∧
      Holds d' ⟨(split packet (p ++ c.data)).2, ms.tail⟩ ∧
      List.Forall₂ (Produces (openPacket K asserts)) (split packet (p ++ c.data)).1 ms := by
  have hreceive : ∃ ms d', receive K asserts d c = .ret (ms.head?.join, d') ∧
      Holds d' ⟨(split packet (p ++ c.data)).2, ms.tail⟩ ∧
      List.Forall₂ (Produces (openPacket K asserts)) (split packet (p ++ c.data)).1 ms := by
    obtain ⟨ms, s', hread, hall⟩ := Reader.read_of_accepts ha (fun hst => hs hst.1) [] c.id
    have hrel := ProtobufPacketDecoder.read_refines K asserts h c.data c.id
    rw [hread, List.nil_append] at hrel
    obtain ⟨⟨ret, d', id'⟩, hret, hsame⟩ : ∃ x, d.read K asserts c.data c.id = .ret x ∧
        Holds x.2.1 ⟨(split packet (p ++ c.data)).2, ms⟩ := by
      cases hd : d.read K asserts c.data c.id with
      | ret x =>
          rw [hd, Outcome.Rel.ret_iff] at hrel
          obtain ⟨y, hy, hxy⟩ := hrel
          cases hy
          exact ⟨x, rfl, hxy.1⟩
      | aborted =>
          rw [hd] at hrel
          cases hrel
      | running =>
          rw [hd] at hrel
          cases hrel
    have hvec : d'.vec = ms := hsame.queue
    refine ⟨ms, { d' with vec := d'.vec.tail }, ?_, holds_tail hsame, hall⟩
    simp only [receive, hret, Outcome.ret_bind, getProtobufMessage_eq, hvec]
  cases recv with
  | readFromNetwork => exact hreceive
  | uvNetworkReadCB =>
      by_cases hlen : 0 < c.data.length
      · rw [call, if_pos hlen]
        exact hreceive
      · have hnil : c.data = [] := List.length_eq_zero_iff.mp (by omega)
        rw [hnil, List.append_nil, hp]
        refine ⟨[], d, ?_, h, .nil⟩
        rw [call, if_neg hlen]
        rfl

/-- A read that completes a rejected packet ends the process. -/
theorem call_of_rejects {d : ProtobufPacketDecoder} {p : List UInt8} (h : Holds d ⟨p, []⟩)
    (hp : split packet p = ([], p)) (c : Chunk)
    (hr : ∃ f ∈ (split packet (p ++ c.data)).1, Framing.Rejects (openPacket K asserts) f) :
    recv.call K asserts d c = .aborted := by
  have hreceive : receive K asserts d c = .aborted := by
    have hread := Reader.read_of_rejects (ProtobufPacketDecoder.accepts_or_rejects K asserts) hr
      [] c.id
    have hrel := ProtobufPacketDecoder.read_refines K asserts h c.data c.id
    rw [receive, hrel.aborted_iff.mpr hread, Outcome.aborted_bind]
  cases recv with
  | readFromNetwork => exact hreceive
  | uvNetworkReadCB =>
      have hlen : 0 < c.data.length := by
        rw [Nat.pos_iff_ne_zero]
        intro h0
        rw [List.length_eq_zero_iff.mp h0, List.append_nil, hp] at hr
        simp at hr
      rw [call, if_pos hlen]
      exact hreceive

end
end Receiver

/-! ## What has arrived -/

/-- The messages whose last byte is among the first `n` bytes of the stream. -/
def arrived (K : Codec) : List Sent → ℕ → List Sent
  | [], _ => []
  | s :: sent, n =>
      let size := (CoreMessage.pkgBuffer K (s.payload K)).length
      if size ≤ n then s :: arrived K sent (n - size) else []

/-- The messages that have arrived with these chunks. -/
def arrivedWith (K : Codec) (sent : List Sent) (cs : List Chunk) : List Sent :=
  arrived K sent (stream cs).length

/-- None of these messages is a refusal. -/
def NoRefusal (sent : List Sent) : Prop := ∀ s ∈ sent, ∀ r, s.msg.package ≠ .refuse r

/-- After every read that returns, the handler has got exactly the decodings of what has
arrived, and the queue is empty. -/
def Prompt (K : Codec) (asserts : Bool) (recv : Receiver) (sent : List Sent)
    (cs : List Chunk) : Prop :=
  ∀ pre, pre <+: cs → ∀ handed d, recv.run K asserts .fresh pre = .ret (handed, d) →
    List.Forall₂ (Sent.Decodes K asserts) (arrivedWith K sent pre) handed ∧ d.getSize = 0

/-- As long as the process lives, no refusal arrives and no chunk completes more than one
message. A process that checks assertions ends with the first refusal. -/
def OneByOne (K : Codec) (asserts : Bool) (sent : List Sent) (cs : List Chunk) : Prop :=
  ∀ pre c, pre ++ [c] <+: cs → (asserts = true → NoRefusal (arrivedWith K sent (pre ++ [c]))) →
    NoRefusal (arrivedWith K sent (pre ++ [c])) ∧
      (arrivedWith K sent (pre ++ [c])).length ≤ (arrivedWith K sent pre).length + 1

theorem arrived_mono (K : Codec) (sent : List Sent) {m n : ℕ} (h : m ≤ n) :
    arrived K sent m <+: arrived K sent n := by
  induction sent generalizing m n with
  | nil => exact List.prefix_rfl
  | cons s sent ih =>
      simp only [arrived]
      by_cases hm : (CoreMessage.pkgBuffer K (s.payload K)).length ≤ m
      · rw [if_pos hm, if_pos (hm.trans h), List.prefix_cons_inj]
        exact ih (Nat.sub_le_sub_right h _)
      · rw [if_neg hm]
        exact List.nil_prefix

theorem arrivedWith_append (K : Codec) (sent : List Sent) (cs : List Chunk) (c : Chunk) :
    arrivedWith K sent cs <+: arrivedWith K sent (cs ++ [c]) := by
  apply arrived_mono
  rw [stream, stream, List.flatMap_append, List.length_append]
  exact Nat.le_add_right _ _

/-- The packets of a part of the stream are those of the messages that have arrived. -/
theorem split_arrived {K : Codec} {sent : List Sent} {fs : List Packet}
    (hpacks : List.Forall₂ (Sent.Packs K) sent fs) {s : List UInt8}
    (hs : s <+: fs.flatMap Frame.bytes) :
    List.Forall₂ (Sent.Packs K) (arrived K sent s.length) (split packet s).1 ∧
      ¬Stalled packet (split packet s).2 := by
  induction hpacks generalizing s with
  | nil =>
      have hnil : s = [] := by simpa using hs
      rw [hnil, Framing.split_nil]
      exact ⟨.nil, Framing.not_stalled_nil⟩
  | @cons m f sent fs hf _ ih =>
      rw [List.flatMap_cons] at hs
      simp only [arrived]
      rw [← hf.bytes]
      by_cases hle : f.bytes.length ≤ s.length
      · obtain ⟨s', rfl⟩ : f.bytes <+: s :=
          List.prefix_of_prefix_length_le (List.prefix_append _ _) hs hle
        have hnext := ih ((List.prefix_append_right_inj _).mp hs)
        rw [if_pos hle, Framing.split_frame_append, List.length_append, Nat.add_sub_cancel_left]
        exact ⟨.cons hf hnext.1, hnext.2⟩
      · obtain ⟨rest, hrest⟩ : s <+: f.bytes :=
          List.prefix_of_prefix_length_le hs (List.prefix_append _ _) (not_le.mp hle).le
        have hne : rest ≠ [] := by
          rintro rfl
          rw [List.append_nil] at hrest
          exact hle (by rw [hrest])
        obtain ⟨hsplit, hstalled⟩ :=
          ProtobufPacketDecoder.split_rest (Or.inr ⟨f, rest, hrest.symm, hne⟩)
        rw [if_neg hle, hsplit]
        exact ⟨.nil, hstalled⟩

/-! ## Promptness -/

theorem stream_part {pre cs : List Chunk} {s : List UInt8} (hpre : pre <+: cs)
    (hcs : stream cs <+: s) : stream pre <+: s := by
  obtain ⟨rest, rfl⟩ := hpre
  refine List.IsPrefix.trans ?_ hcs
  rw [stream, stream, List.flatMap_append]
  exact List.prefix_append _ _

private theorem exists_of_forall₂ {α β : Type} {R : α → β → Prop} {l : List α} {l' : List β}
    (h : List.Forall₂ R l l') {a : α} (ha : a ∈ l) : ∃ b ∈ l', R a b := by
  induction h with
  | nil => simp at ha
  | cons hr _ ih =>
      rcases List.mem_cons.mp ha with rfl | ha
      · exact ⟨_, List.mem_cons_self, hr⟩
      · obtain ⟨b, hb, hab⟩ := ih ha
        exact ⟨b, List.mem_cons_of_mem _ hb, hab⟩

namespace Receiver

section
variable {K : Codec} (hK : K.Lawful) {asserts : Bool} {recv : Receiver} {sent : List Sent}
  {fs : List Packet} (hpacks : List.Forall₂ (Sent.Packs K) sent fs)
include hK hpacks

/-- What a receiver has done with some chunks when all went well: it has handed on all that
has arrived. -/
structure UpToDate (K : Codec) (asserts : Bool) (recv : Receiver) (sent : List Sent)
    (pre : List Chunk) (handed : List CoreMessage) (d : ProtobufPacketDecoder) : Prop where
  run : recv.run K asserts .fresh pre = .ret (handed, d)
  holds : Holds d ⟨remainder pre, []⟩
  decodes : List.Forall₂ (Sent.Decodes K asserts) (arrivedWith K sent pre) handed

omit hK hpacks in
theorem split_concat (pre : List Chunk) (c : Chunk) :
    split packet (stream (pre ++ [c])) =
      (packets pre ++ (split packet (remainder pre ++ c.data)).1,
        (split packet (remainder pre ++ c.data)).2) := by
  have hstream : stream (pre ++ [c]) = stream pre ++ c.data := by
    simp only [stream, List.flatMap_append, List.flatMap_singleton]
  rw [hstream, Framing.split_append]
  rfl

omit hK in
/-- The packets that one more chunk completes are those of the messages it makes arrive. -/
theorem exists_new {pre : List Chunk} {c : Chunk}
    (hpre : stream (pre ++ [c]) <+: fs.flatMap Frame.bytes) :
    ∃ new, arrivedWith K sent (pre ++ [c]) = arrivedWith K sent pre ++ new ∧
      List.Forall₂ (Sent.Packs K) new (split packet (remainder pre ++ c.data)).1 ∧
      ¬Stalled packet (split packet (remainder pre ++ c.data)).2 := by
  obtain ⟨hall, hstalled⟩ := split_arrived hpacks hpre
  obtain ⟨hold, _⟩ := split_arrived hpacks (stream_part (List.prefix_append _ _) hpre)
  obtain ⟨new, hnew⟩ := arrivedWith_append K sent pre c
  rw [split_concat] at hall hstalled
  refine ⟨new, hnew.symm, ?_, hstalled⟩
  rw [← arrivedWith, ← hnew] at hall
  have hdrop := List.forall₂_drop_append _ _ _ hall
  have hlen : (packets pre).length = (arrivedWith K sent pre).length := hold.length_eq.symm
  rwa [hlen, List.drop_left] at hdrop

/-- One more chunk, of which no message is a refusal that the build asserts against. -/
theorem UpToDate.call {pre : List Chunk} {handed : List CoreMessage} {d : ProtobufPacketDecoder}
    (h : UpToDate K asserts recv sent pre handed d) {c : Chunk}
    (hpre : stream (pre ++ [c]) <+: fs.flatMap Frame.bytes)
    (hok : asserts = true → NoRefusal (arrivedWith K sent (pre ++ [c]))) :
    ∃ new ms d', arrivedWith K sent (pre ++ [c]) = arrivedWith K sent pre ++ new ∧
      recv.run K asserts .fresh (pre ++ [c]) = .ret (handed ++ ms.head?.join.toList, d') ∧
      Holds d' ⟨remainder (pre ++ [c]), ms.tail⟩ ∧ new.length = ms.length ∧
      (NoRefusal new → ∃ ms', ms = ms'.map some ∧
        List.Forall₂ (Sent.Decodes K asserts) new ms') := by
  obtain ⟨new, hnew, hall, hstalled⟩ := exists_new hpacks hpre
  have haccepts : ∀ f ∈ (split packet (remainder pre ++ c.data)).1,
      Accepts (openPacket K asserts) f := by
    intro f hf
    rw [ProtobufPacketDecoder.accepts_iff]
    intro ha
    refine ProtobufPacketDecoder.forall_passes hK hall ?_ f hf
    intro s hs
    refine hok ha s ?_
    rw [hnew]
    exact List.mem_append_right _ hs
  have hsplit : split packet (remainder pre) = ([], remainder pre) :=
    Framing.split_of_not_complete (Framing.not_complete_split _)
  obtain ⟨ms, d', hcall, hholds, hms⟩ :=
    call_of_accepts recv h.holds hsplit c haccepts hstalled
  refine ⟨new, ms, d', hnew, ?_, ?_, hall.length_eq.trans hms.length_eq, ?_⟩
  · rw [run_concat, h.run, Outcome.ret_bind]
    simp only [hcall, Outcome.ret_bind]
  · rw [remainder, split_concat]
    exact hholds
  · intro hno
    exact ProtobufPacketDecoder.decodes_of_forall hK hall hno hms

omit hK in
variable (recv) in
theorem upToDate_nil : UpToDate K asserts recv sent [] [] .fresh := by
  have hnil : arrivedWith K sent [] = [] := by
    have hall := (split_arrived hpacks (s := []) List.nil_prefix).1
    rw [Framing.split_nil] at hall
    exact List.forall₂_nil_right_iff.mp hall
  have hrest : remainder [] = [] := by
    simp [remainder, stream]
  constructor
  · rfl
  · rw [hrest]
    exact ProtobufPacketDecoder.holds_fresh
  · rw [hnil]
    exact .nil

/-- A chunk with which at most one message arrives: popping one message empties the queue. -/
theorem UpToDate.concat {pre : List Chunk} {handed : List CoreMessage} {d : ProtobufPacketDecoder}
    (h : UpToDate K asserts recv sent pre handed d) {c : Chunk}
    (hpre : stream (pre ++ [c]) <+: fs.flatMap Frame.bytes)
    (hno : NoRefusal (arrivedWith K sent (pre ++ [c])))
    (hgrow : (arrivedWith K sent (pre ++ [c])).length ≤ (arrivedWith K sent pre).length + 1) :
    ∃ handed' d', UpToDate K asserts recv sent (pre ++ [c]) handed' d' := by
  obtain ⟨new, ms, d', hnew, hrun, hholds, hlen, hdec⟩ := h.call hK hpacks hpre fun _ => hno
  rw [hnew, List.length_append] at hgrow
  obtain ⟨ms', rfl, hms'⟩ := hdec fun s hs => hno s (by rw [hnew]; exact List.mem_append_right _ hs)
  rw [List.length_map] at hlen
  have hfew : ms' = [] ∨ ∃ m, ms' = [m] := by
    cases ms' with
    | nil => exact Or.inl rfl
    | cons m rest =>
        rw [List.length_cons] at hlen
        have hrest : rest = [] := List.length_eq_zero_iff.mp (by omega)
        exact Or.inr ⟨m, by rw [hrest]⟩
  refine ⟨handed ++ ms', d', ?_, ?_, ?_⟩
  · rw [hrun]
    rcases hfew with rfl | ⟨m, rfl⟩
    · rfl
    · rfl
  · rcases hfew with rfl | ⟨m, rfl⟩
    · exact hholds
    · exact hholds
  · rw [hnew]
    exact List.rel_append h.decodes hms'

/-- The first refusal ends a build that asserts against it. -/
theorem UpToDate.refused {pre : List Chunk} {handed : List CoreMessage} {d : ProtobufPacketDecoder}
    (h : UpToDate K asserts recv sent pre handed d) {c : Chunk}
    (hpre : stream (pre ++ [c]) <+: fs.flatMap Frame.bytes) (ha : asserts = true)
    (hno : NoRefusal (arrivedWith K sent pre))
    (hrefusal : ¬NoRefusal (arrivedWith K sent (pre ++ [c]))) :
    recv.run K asserts .fresh (pre ++ [c]) = .aborted := by
  obtain ⟨new, hnew, hall, hstalled⟩ := exists_new hpacks hpre
  have hr : ∃ f ∈ (split packet (remainder pre ++ c.data)).1,
      Framing.Rejects (openPacket K asserts) f := by
    by_contra hnone
    apply hrefusal
    rw [hnew]
    intro s hs
    rcases List.mem_append.mp hs with hs | hs
    · exact hno s hs
    · obtain ⟨f, hf, hsf⟩ := exists_of_forall₂ hall hs
      rw [← Sent.passes_iff hK hsf]
      have hacc := (ProtobufPacketDecoder.accepts_or_rejects K asserts f).resolve_right
        fun hrej => hnone ⟨f, hf, hrej⟩
      exact (ProtobufPacketDecoder.accepts_iff asserts).mp hacc ha
  have hsplit : split packet (remainder pre) = ([], remainder pre) :=
    Framing.split_of_not_complete (Framing.not_complete_split _)
  rw [run_concat, h.run, Outcome.ret_bind]
  simp only [call_of_rejects h.holds hsplit c hr, Outcome.aborted_bind]

variable (recv) in
/-- A run either has ended with a refusal, or is up to date. -/
theorem run_cases {pre : List Chunk} (hone : OneByOne K asserts sent pre)
    (hpre : stream pre <+: fs.flatMap Frame.bytes) :
    (asserts = true ∧ ¬NoRefusal (arrivedWith K sent pre) ∧
        recv.run K asserts .fresh pre = .aborted) ∨
      NoRefusal (arrivedWith K sent pre) ∧
        ∃ handed d, UpToDate K asserts recv sent pre handed d := by
  induction pre using List.reverseRecOn with
  | nil =>
      right
      have hup : UpToDate K asserts recv sent [] [] .fresh := upToDate_nil recv hpacks
      have hnone : arrivedWith K sent [] = [] := List.forall₂_nil_right_iff.mp hup.decodes
      rw [hnone]
      exact ⟨by simp [NoRefusal], [], .fresh, hup⟩
  | append_singleton pre c ih =>
      have hone' : OneByOne K asserts sent pre :=
        fun p c' hp => hone p c' (hp.trans (List.prefix_append _ _))
      have hmono : NoRefusal (arrivedWith K sent (pre ++ [c])) →
          NoRefusal (arrivedWith K sent pre) := by
        intro h s hs
        exact h s ((arrivedWith_append K sent pre c).subset hs)
      rcases ih hone' (stream_part (List.prefix_append _ _) hpre) with
        ⟨ha, hrefusal, hrun⟩ | ⟨hno, handed, d, hup⟩
      · left
        refine ⟨ha, fun h => hrefusal (hmono h), ?_⟩
        rw [run_concat, hrun, Outcome.aborted_bind]
      · by_cases hok : asserts = true → NoRefusal (arrivedWith K sent (pre ++ [c]))
        · right
          obtain ⟨hnor, hgrow⟩ := hone pre c List.prefix_rfl hok
          exact ⟨hnor, hup.concat hK hpacks hpre hnor hgrow⟩
        · left
          obtain ⟨ha, hrefusal⟩ := Classical.not_imp.mp hok
          exact ⟨ha, hrefusal, hup.refused hK hpacks hpre ha hno hrefusal⟩

end
end Receiver

section
variable {K : Codec} (hK : K.Lawful) {asserts : Bool} {recv : Receiver} {sent : List Sent}
  {bufs : List (List UInt8)} (hsizes : ∀ s ∈ sent, CoreMessage.Sizes K (s.payload K))
  (henc : List.Forall₂ (Sent.Encodes K) sent bufs) {cs : List Chunk}
  (hcs : stream cs <+: bufs.flatten)
include hK hsizes henc hcs

/-- A prompt receiver gets its messages one by one. The induction adds one chunk at the
end: before it the messages came one by one, so the receiver is up to date there. -/
theorem Prompt.oneByOne (h : Prompt K asserts recv sent cs) : OneByOne K asserts sent cs := by
  obtain ⟨fs, hpacks⟩ := Sent.exists_packs_all hK hsizes
  rw [Sent.flatten_bufs hK hpacks henc] at hcs
  have hall : ∀ pre, pre <+: cs → OneByOne K asserts sent pre := by
    intro pre
    induction pre using List.reverseRecOn with
    | nil =>
        intro _ p c hp
        simp at hp
    | append_singleton pre c ih =>
        intro hpre p c' hp hok
        have hpart : pre <+: cs := (List.prefix_append _ _).trans hpre
        rcases List.prefix_concat_iff.mp hp with heq | hp
        · obtain ⟨rfl, hc⟩ := List.append_inj' heq rfl
          obtain rfl : c' = c := by simpa using hc
          rcases Receiver.run_cases hK recv hpacks (ih hpart)
              (stream_part hpart hcs) with ⟨ha, hrefusal, _⟩ | ⟨_, handed, d, hup⟩
          · exact absurd
              (fun s hs => hok ha s ((arrivedWith_append K sent p c').subset hs)) hrefusal
          · obtain ⟨new, ms, d', hnew, hrun, hholds, hlen, _⟩ :=
              hup.call hK hpacks (stream_part hpre hcs) hok
            obtain ⟨hdec, hsize⟩ := h _ hpre _ _ hrun
            refine ⟨?_, ?_⟩
            · intro s hs r hr
              obtain ⟨m, _, id, id', hm⟩ := exists_of_forall₂ hdec hs
              rw [Sent.payload, CoreMessage.parse_refuse hK.parse_serialize asserts s.g s.ts hr]
                at hm
              cases asserts <;> cases hm
            · have htail : ms.tail = [] := by
                have hq : d'.vec = ms.tail := hholds.queue
                rw [← hq]
                exact List.length_eq_zero_iff.mp hsize
              have hms : ms.length ≤ 1 := by
                have := congrArg List.length htail
                simp only [List.length_tail, List.length_nil] at this
                omega
              rw [hnew, List.length_append]
              omega
        · exact ih hpart p c' hp hok
  exact hall cs List.prefix_rfl

theorem OneByOne.prompt (h : OneByOne K asserts sent cs) : Prompt K asserts recv sent cs := by
  obtain ⟨fs, hpacks⟩ := Sent.exists_packs_all hK hsizes
  rw [Sent.flatten_bufs hK hpacks henc] at hcs
  intro pre hpre handed d hrun
  have hone : OneByOne K asserts sent pre := fun p c hp => h p c (hp.trans hpre)
  rcases Receiver.run_cases hK recv hpacks hone (stream_part hpre hcs) with
    ⟨_, _, haborted⟩ | ⟨_, handed', d', hup⟩
  · rw [haborted] at hrun
    cases hrun
  · rw [hup.run] at hrun
    cases hrun
    have hq : d.vec = [] := hup.holds.queue
    exact ⟨hup.decodes, by rw [ProtobufPacketDecoder.getSize, hq]; rfl⟩

end

/-- **Promptness.** A receiver is up to date after every read exactly when the messages
arrive one by one. -/
theorem prompt_iff {K : Codec} (hK : K.Lawful) (asserts : Bool) (recv : Receiver)
    {sent : List Sent} {bufs : List (List UInt8)}
    (hsizes : ∀ s ∈ sent, CoreMessage.Sizes K (s.payload K))
    (henc : List.Forall₂ (Sent.Encodes K) sent bufs) {cs : List Chunk}
    (hcs : stream cs <+: bufs.flatten) :
    Prompt K asserts recv sent cs ↔ OneByOne K asserts sent cs :=
  ⟨Prompt.oneByOne hK hsizes henc hcs, OneByOne.prompt hK hsizes henc hcs⟩

open ProtobufPacketDecoder (sampleSent sampleSent_deliverable sampleSent_encodes)

private theorem length_sample :
    (CoreMessage.pkgBuffer Sample.codec (sampleSent.payload Sample.codec)).length = 93 := by
  rw [Sent.payload, sampleSent, Sample.serialBuffer_connect]
  decide

theorem arrived_of_sent (K : Codec) (sent : List Sent) (n : ℕ) : arrived K sent n <+: sent := by
  induction sent generalizing n with
  | nil => exact List.prefix_rfl
  | cons s sent ih =>
      simp only [arrived]
      split
      · rw [List.prefix_cons_inj]
        exact ih _
      · exact List.nil_prefix

/-- One connect package in two chunks. -/
theorem prompt_connect :
    Prompt Sample.codec true .readFromNetwork [sampleSent]
      [⟨Sample.packet.bytes.take 10, 0⟩, ⟨Sample.packet.bytes.drop 10, 1⟩] := by
  refine (prompt_iff Sample.codec_lawful true .readFromNetwork
    (by simpa using sampleSent_deliverable.sizes)
    (.cons sampleSent_encodes .nil) (by simp [stream])).mpr ?_
  intro pre c _ _
  have harrived := arrived_of_sent Sample.codec [sampleSent] (stream (pre ++ [c])).length
  constructor
  · intro s hs
    have heq : s = sampleSent := by simpa using harrived.subset hs
    rw [heq]
    exact sampleSent_deliverable.kind
  · have hlen := harrived.length_le
    rw [List.length_singleton] at hlen
    exact hlen.trans (Nat.le_add_left _ _)

/-- Of two connect packages in one chunk the second one waits. -/
theorem not_prompt_coalesced :
    ¬∃ recv, ∀ (K : Codec), K.Lawful → ∀ (asserts : Bool) (sent : List Sent)
      (bufs : List (List UInt8)) (cs : List Chunk),
        (∀ s ∈ sent, CoreMessage.Sizes K (s.payload K)) →
        List.Forall₂ (Sent.Encodes K) sent bufs → stream cs <+: bufs.flatten →
          Prompt K asserts recv sent cs := by
  rintro ⟨recv, h⟩
  have hsizes : ∀ s ∈ [sampleSent, sampleSent],
      CoreMessage.Sizes Sample.codec (s.payload Sample.codec) := by
    simpa using sampleSent_deliverable.sizes
  have henc : List.Forall₂ (Sent.Encodes Sample.codec) [sampleSent, sampleSent]
      [Sample.packet.bytes, Sample.packet.bytes] :=
    .cons sampleSent_encodes (.cons sampleSent_encodes .nil)
  have hcs : stream [⟨Sample.packet.bytes ++ Sample.packet.bytes, 0⟩] <+:
      [Sample.packet.bytes, Sample.packet.bytes].flatten := by simp [stream]
  have hprompt := h Sample.codec Sample.codec_lawful true _ _ _ hsizes henc hcs
  have hone := hprompt.oneByOne Sample.codec_lawful hsizes henc hcs [] _ List.prefix_rfl
  have hlen : Sample.packet.bytes.length = 93 := by decide
  have hzero : arrivedWith Sample.codec [sampleSent, sampleSent] [] = [] := by
    simp [arrivedWith, stream, arrived, length_sample]
  have htwo : arrivedWith Sample.codec [sampleSent, sampleSent]
      ([] ++ [⟨Sample.packet.bytes ++ Sample.packet.bytes, 0⟩]) = [sampleSent, sampleSent] := by
    simp [arrivedWith, stream, arrived, length_sample, hlen]
  rw [hzero, htwo] at hone
  have hno : NoRefusal [sampleSent, sampleSent] := by
    intro s hs
    have heq : s = sampleSent := by simpa using hs
    rw [heq]
    exact sampleSent_deliverable.kind
  obtain ⟨_, hle⟩ := hone fun _ => hno
  simp at hle

end ClientService
