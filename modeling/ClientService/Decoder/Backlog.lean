import ClientService.Decoder.Receiver
import ClientService.Lib.Backlog

/-!
# What a receiver is behind with

A receiver hands on one message for each call, so messages that arrive together wait for later
calls. They are handed on in the order in which they were sent, none of them twice and none left
out, and how many have been handed on depends only on when they arrived.

## Main definitions

* `Receiver.takes` — how many messages a call can take.
* `handed_in_order` — what the handler has got, and how far it is behind.
-/

namespace ClientService

open Backlog (Bound isLeast_nil isLeast_concat)
open Framing (Frame Reader Stalled split Produces Accepts)
open ProtobufPacketDecoder (Chunk stream openPacket packets remainder Holds)

namespace Receiver

/-- How many messages a call can take: `uvNetworkReadCB` does nothing for an empty chunk. -/
def takes (recv : Receiver) (c : Chunk) : ℕ :=
  match recv with
  | .readFromNetwork => 1
  | .uvNetworkReadCB => if 0 < c.data.length then 1 else 0

section
variable {K : Codec} {asserts : Bool}

/-- A read whose packets all go through appends their entries and takes the first of the queue. -/
theorem receive_of_accepts {d : ProtobufPacketDecoder} {p : List UInt8}
    {q : List (Option CoreMessage)} (h : Holds d ⟨p, q⟩) (c : Chunk)
    (ha : ∀ f ∈ (split packet (p ++ c.data)).1, Accepts (openPacket K asserts) f)
    (hs : ¬Stalled packet (split packet (p ++ c.data)).2) :
    ∃ ms d', receive K asserts d c = .ret ((q ++ ms).head?.join, d') ∧
      Holds d' ⟨(split packet (p ++ c.data)).2, (q ++ ms).tail⟩ ∧
      List.Forall₂ (Produces (openPacket K asserts)) (split packet (p ++ c.data)).1 ms := by
  obtain ⟨ms, s', hread, hall⟩ := Reader.read_of_accepts ha (fun hst => hs hst.1) q c.id
  have hrel := ProtobufPacketDecoder.read_refines K asserts h c.data c.id
  rw [hread] at hrel
  cases hd : d.read K asserts c.data c.id with
  | ret x =>
      rw [hd, Outcome.Rel.ret_iff] at hrel
      obtain ⟨y, hy, hsame⟩ := hrel
      cases hy
      have hvec : x.2.1.vec = q ++ ms := hsame.1.queue
      refine ⟨ms, { x.2.1 with vec := x.2.1.vec.tail }, ?_, holds_tail hsame.1, hall⟩
      simp only [receive, hd, Outcome.ret_bind, getProtobufMessage_eq, hvec]
  | aborted =>
      rw [hd] at hrel
      cases hrel
  | running =>
      rw [hd] at hrel
      cases hrel

end

/-- A call takes a message if there is one, or does nothing at all. -/
theorem call_cases (K : Codec) (asserts : Bool) (recv : Receiver) (d : ProtobufPacketDecoder)
    (c : Chunk) :
    recv.takes c = 1 ∧ recv.call K asserts d c = receive K asserts d c ∨
      recv.takes c = 0 ∧ c.data = [] ∧ recv.call K asserts d c = .ret (none, d) := by
  cases recv with
  | readFromNetwork => exact Or.inl ⟨rfl, rfl⟩
  | uvNetworkReadCB =>
      by_cases hlen : 0 < c.data.length
      · exact Or.inl ⟨if_pos hlen, if_pos hlen⟩
      · have hnil : c.data = [] := List.length_eq_zero_iff.mp (by omega)
        exact Or.inr ⟨if_neg hlen, hnil, if_neg hlen⟩

/-- After some chunks, all that has arrived has been handed on or waits, in order. -/
structure Behind (K : Codec) (asserts : Bool) (recv : Receiver) (sent : List Sent)
    (pre : List Chunk) (handed waiting : List CoreMessage) (d : ProtobufPacketDecoder) : Prop where
  run : recv.run K asserts .fresh pre = .ret (handed, d)
  holds : Holds d ⟨remainder pre, waiting.map some⟩
  decodes : List.Forall₂ (Sent.Decodes K asserts) (arrivedWith K sent pre) (handed ++ waiting)
  least : IsLeast (Bound (fun cs => (arrivedWith K sent cs).length) recv.takes pre) handed.length

section
variable {K : Codec} (hK : K.Lawful) {asserts : Bool} {recv : Receiver} {sent : List Sent}
  {fs : List Packet} (hpacks : List.Forall₂ (Sent.Packs K) sent fs)
include hK hpacks

omit hK in
variable (recv) in
theorem behind_nil : Behind K asserts recv sent [] [] [] .fresh := by
  have hfresh : UpToDate K asserts recv sent [] [] .fresh := upToDate_nil recv hpacks
  obtain ⟨hrun, hholds, hdecodes⟩ := hfresh
  refine ⟨hrun, hholds, hdecodes, isLeast_nil _ _ ?_⟩
  simp [List.forall₂_nil_right_iff.mp hdecodes]

omit hK hpacks in
theorem Behind.length {pre : List Chunk} {handed waiting : List CoreMessage}
    {d : ProtobufPacketDecoder} (h : Behind K asserts recv sent pre handed waiting d) :
    (arrivedWith K sent pre).length = handed.length + waiting.length := by
  rw [h.decodes.length_eq, List.length_append]

/-- A call that takes a message hands on the first of those that wait then. -/
theorem Behind.take {pre : List Chunk} {handed waiting : List CoreMessage}
    {d : ProtobufPacketDecoder} (h : Behind K asserts recv sent pre handed waiting d) {c : Chunk}
    (hpre : stream (pre ++ [c]) <+: fs.flatMap Frame.bytes)
    (hno : NoRefusal (arrivedWith K sent (pre ++ [c]))) (htakes : recv.takes c = 1)
    (hcall : recv.call K asserts d c = receive K asserts d c) :
    ∃ handed' waiting' d', Behind K asserts recv sent (pre ++ [c]) handed' waiting' d' := by
  have hleast := isLeast_concat h.least c
  rw [htakes] at hleast
  obtain ⟨new, hnew, hall, hstalled⟩ := exists_new hpacks hpre
  have hnonew : NoRefusal new := fun s hs =>
    hno s (by rw [hnew]; exact List.mem_append_right _ hs)
  have haccepts : ∀ f ∈ (split packet (remainder pre ++ c.data)).1,
      Accepts (openPacket K asserts) f := by
    intro f hf
    rw [ProtobufPacketDecoder.accepts_iff]
    exact fun _ => ProtobufPacketDecoder.forall_passes hK hall hnonew f hf
  obtain ⟨ms, d', hreceive, hholds, hms⟩ := receive_of_accepts h.holds c haccepts hstalled
  obtain ⟨msgs, rfl, hdecodes⟩ := ProtobufPacketDecoder.decodes_of_forall hK hall hnonew hms
  have hrun : recv.run K asserts .fresh (pre ++ [c]) =
      .ret (handed ++ (waiting ++ msgs).head?.toList, d') := by
    rw [run_concat, h.run, Outcome.ret_bind]
    simp only [hcall, hreceive, Outcome.ret_bind, ← List.map_append, List.head?_map]
    cases (waiting ++ msgs).head? <;> rfl
  have hholds' : Holds d' ⟨remainder (pre ++ [c]), (waiting ++ msgs).tail.map some⟩ := by
    rw [remainder, split_concat, List.map_tail, List.map_append]
    exact hholds
  have hdecodes' : List.Forall₂ (Sent.Decodes K asserts) (arrivedWith K sent (pre ++ [c]))
      (handed ++ (waiting ++ msgs)) := by
    rw [hnew, ← List.append_assoc]
    exact List.rel_append h.decodes hdecodes
  have hlength' := hdecodes'.length_eq
  rw [List.length_append] at hlength'
  cases hw : waiting ++ msgs with
  | nil =>
      rw [hw] at hrun hholds' hdecodes' hlength'
      refine ⟨handed, [], d', by simpa using hrun, hholds', hdecodes', ?_⟩
      rw [min_eq_left (by simp at hlength'; omega)] at hleast
      simpa [hlength'] using hleast
  | cons m rest =>
      rw [hw] at hrun hholds' hdecodes' hlength'
      refine ⟨handed ++ [m], rest, d', by simpa using hrun, hholds', by simpa using hdecodes', ?_⟩
      rw [min_eq_right (by simp at hlength'; omega)] at hleast
      simpa using hleast

omit hK hpacks in
/-- A call that does nothing leaves everything as it is. -/
theorem Behind.idle {pre : List Chunk} {handed waiting : List CoreMessage}
    {d : ProtobufPacketDecoder} (h : Behind K asserts recv sent pre handed waiting d) {c : Chunk}
    (htakes : recv.takes c = 0) (hnil : c.data = [])
    (hcall : recv.call K asserts d c = .ret (none, d)) :
    Behind K asserts recv sent (pre ++ [c]) handed waiting d := by
  have hstream : stream (pre ++ [c]) = stream pre := by simp [stream, hnil]
  have hsame : arrivedWith K sent (pre ++ [c]) = arrivedWith K sent pre := by
    rw [arrivedWith, hstream, arrivedWith]
  have hlength := h.length
  have hleast := isLeast_concat h.least c
  rw [htakes, Nat.add_zero, min_eq_right (by rw [hsame]; omega)] at hleast
  refine ⟨?_, ?_, by rw [hsame]; exact h.decodes, hleast⟩
  · rw [run_concat, h.run, Outcome.ret_bind]
    simp [hcall]
  · rw [remainder, hstream]
    exact h.holds

/-- **One more call** hands on the first message that waits. -/
theorem Behind.concat {pre : List Chunk} {handed waiting : List CoreMessage}
    {d : ProtobufPacketDecoder} (h : Behind K asserts recv sent pre handed waiting d) {c : Chunk}
    (hpre : stream (pre ++ [c]) <+: fs.flatMap Frame.bytes)
    (hno : NoRefusal (arrivedWith K sent (pre ++ [c]))) :
    ∃ handed' waiting' d', Behind K asserts recv sent (pre ++ [c]) handed' waiting' d' := by
  rcases call_cases K asserts recv d c with ⟨htakes, hcall⟩ | ⟨htakes, hnil, hcall⟩
  · exact h.take hK hpacks hpre hno htakes hcall
  · exact ⟨handed, waiting, d, h.idle htakes hnil hcall⟩

variable (asserts recv) in
theorem exists_behind {cs : List Chunk} (hcs : stream cs <+: fs.flatMap Frame.bytes)
    (hno : NoRefusal sent) :
    ∃ handed waiting d, Behind K asserts recv sent cs handed waiting d := by
  induction cs using List.reverseRecOn with
  | nil => exact ⟨[], [], .fresh, behind_nil recv hpacks⟩
  | append_singleton cs c ih =>
      obtain ⟨handed, waiting, d, h⟩ := ih (stream_part (List.prefix_append _ _) hcs)
      refine h.concat hK hpacks hcs fun s hs => hno s ?_
      exact (arrived_of_sent K sent _).subset hs

end
end Receiver

/-- **Messages are handed on in order, one for each call.** Whatever the chunks of the stream, the
handler has got the decodings of the first messages that were sent; those that have arrived and
not been handed on wait in the queue, and as many have been handed on as the calls could take. -/
theorem handed_in_order {K : Codec} (hK : K.Lawful) (asserts : Bool) (recv : Receiver)
    {sent : List Sent} {bufs : List (List UInt8)}
    (hsizes : ∀ s ∈ sent, CoreMessage.Sizes K (s.payload K))
    (henc : List.Forall₂ (Sent.Encodes K) sent bufs) {cs : List Chunk}
    (hcs : stream cs <+: bufs.flatten) (hno : NoRefusal sent) :
    ∃ handed d, recv.run K asserts .fresh cs = .ret (handed, d) ∧
      List.Forall₂ (Sent.Decodes K asserts) (sent.take handed.length) handed ∧
      handed.length + d.getSize = (arrivedWith K sent cs).length ∧
      IsLeast (Bound (fun pre => (arrivedWith K sent pre).length) recv.takes cs)
        handed.length := by
  obtain ⟨fs, hpacks⟩ := Sent.exists_packs_all hK hsizes
  rw [Sent.flatten_bufs hK hpacks henc] at hcs
  obtain ⟨handed, waiting, d, h⟩ := Receiver.exists_behind hK asserts recv hpacks hcs hno
  have hqueue : d.vec = waiting.map some := h.holds.queue
  refine ⟨handed, d, h.run, ?_, ?_, h.least⟩
  · have hfirst := List.forall₂_take_append _ _ _ h.decodes
    obtain ⟨later, hlater⟩ : arrivedWith K sent cs <+: sent := arrived_of_sent K sent _
    have hle : handed.length ≤ (arrivedWith K sent cs).length := by
      have hlength := h.length
      omega
    rwa [← hlater, List.take_append_of_le_length hle]
  · rw [h.length, ProtobufPacketDecoder.getSize, hqueue, List.length_map]

open ProtobufPacketDecoder (sampleSent sampleSent_deliverable sampleSent_encodes)

/-- Of three connect packages in two chunks the third one waits. -/
theorem handed_in_order_connect :
    ∃ handed d, Receiver.run Sample.codec true .readFromNetwork .fresh
        [⟨Sample.packet.bytes ++ Sample.packet.bytes, 0⟩, ⟨Sample.packet.bytes, 1⟩] =
          .ret (handed, d) ∧
      List.Forall₂ (Sent.Decodes Sample.codec true)
        ((List.replicate 3 sampleSent).take handed.length) handed ∧
      handed.length + d.getSize = (arrivedWith Sample.codec (List.replicate 3 sampleSent)
        [⟨Sample.packet.bytes ++ Sample.packet.bytes, 0⟩, ⟨Sample.packet.bytes, 1⟩]).length ∧
      IsLeast (Bound (fun pre => (arrivedWith Sample.codec (List.replicate 3 sampleSent) pre).length)
        (Receiver.takes .readFromNetwork)
        [⟨Sample.packet.bytes ++ Sample.packet.bytes, 0⟩, ⟨Sample.packet.bytes, 1⟩])
          handed.length := by
  have hall : ∀ s ∈ List.replicate 3 sampleSent, s = sampleSent := fun s hs =>
    (List.mem_replicate.mp hs).2
  refine handed_in_order Sample.codec_lawful true .readFromNetwork (fun s hs => ?_)
    (.cons sampleSent_encodes (.cons sampleSent_encodes (.cons sampleSent_encodes .nil)))
    (by simp [stream]) fun s hs => ?_
  · rw [hall s hs]
    exact sampleSent_deliverable.sizes
  · rw [hall s hs]
    exact sampleSent_deliverable.kind

end ClientService
