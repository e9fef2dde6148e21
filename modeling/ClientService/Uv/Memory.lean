import ClientService.Lib.Ownership
import ClientService.Uv.Handler
import ClientService.Uv.Mutexes

/-!
# What the server's loop allocates

`uvAllocCB` allocates a buffer for each read, the decoder its messages, `toBytes` a buffer for
each packet, `_WriteToNetwork` a request with an array, and `InsertWindowsEvents` a request with a
record of its arguments. Each of them is deleted by another function than the one that has
allocated it, and only its pointer is passed on. The sessions, their sockets and what lies behind
the last event of a package are not among them.

Every deletion of these objects is of a living one, and so is every read, except in two cases: a
read that fails deletes the array that libuv has passed to the callback, unless it has no buffer,
and the destructor of `UvHandler` reads each element of its queue when `pop` has destroyed it.
Nothing is lost but the buffer of a read that brought nothing, the request of finished work, and
what belongs to a packet that `uv_write` does not accept: its status is not looked at.

## Main definitions

* `LoopMemory`, `LoopMemory.step` — the pointers that are passed on, and the callbacks.
* `LoopMemory.pending` — what is still to be deleted.
-/

namespace ClientService

open Objects (Held)
open Transition (Meets history run)

/-- What the functions of the loop allocate. -/
inductive Block where
  /-- `new char[suggested_size]`. -/
  | readBuffer
  /-- What `parseFromArray` returns. -/
  | message
  /-- What `toBytes` returns. -/
  | packetBuffer
  /-- `new uv_buf_t[1]`. -/
  | uvBuf
  | uvWrite
  | uvWork
  /-- `new _work`. -/
  | work
  deriving DecidableEq, Repr

/-- A request that has been passed to `uv_write`. -/
structure WriteRequest where
  req : ℕ
  /-- `req->data`. -/
  bufs : ℕ
  /-- `bufs[0].base`. -/
  base : ℕ
  deriving DecidableEq, Repr

/-- What the request still has to delete. -/
def WriteRequest.blocks (r : WriteRequest) : Multiset (ℕ × Block) :=
  {(r.base, .packetBuffer), (r.bufs, .uvBuf), (r.req, .uvWrite)}

/-- A request that has been passed to `uv_queue_work`. -/
structure WorkRequest where
  w : ℕ
  /-- `w->data`. -/
  wo : ℕ
  /-- `wo->p`. -/
  p : ℕ
  deriving DecidableEq, Repr

/-- What the request keeps alive. -/
def WorkRequest.blocks (r : WorkRequest) : Multiset (ℕ × Block) :=
  {(r.p, .message), (r.wo, .work), (r.w, .uvWork)}

structure LoopMemory where
  heap : Objects Block := {}
  /-- The messages in the decoders, with their sessions. One that `BuildObj` does not know is
  null. -/
  decoded : List (ℕ × Option ℕ) := []
  /-- The buffers in the queue. -/
  _sending_queue : List ℕ := []
  writing : List WriteRequest := []
  working : List WorkRequest := []
  destroyed : Bool := false
  deriving DecidableEq, Repr

namespace LoopMemory

/-- `new`: the pointer, and the memory with the object. -/
def new (s : LoopMemory) (b : Block) : ℕ × LoopMemory :=
  (s.heap.created.length, { s with heap := s.heap.new b })

/-- `delete`: there is no result when the object does not live. -/
def delete (s : LoopMemory) (p : ℕ) : Option LoopMemory :=
  (s.heap.delete (some p)).map fun heap => { s with heap := heap }

/-- `WriteToNetwork`. -/
def writeToNetwork (s : LoopMemory) : LoopMemory :=
  let (buf, s) := s.new .packetBuffer
  { s with _sending_queue := s._sending_queue ++ [buf] }

/-- `InsertWindowsEvents`, in `client.cpp`. -/
def insertWindowsEvents (s : LoopMemory) (l : ℕ) : LoopMemory :=
  let (w, s) := s.new .uvWork
  let (wo, s) := s.new .work
  { s with working := s.working ++ [⟨w, wo, l⟩] }

/-- `read` of a decoder, for the messages it completes and whether `BuildObj` knows them. -/
def decode (i : ℕ) : List Bool → LoopMemory → LoopMemory
  | [], s => s
  | true :: built, s =>
      let (p, s) := s.new .message
      decode i built { s with decoded := s.decoded ++ [(i, some p)] }
  | false :: built, s => decode i built { s with decoded := s.decoded ++ [(i, none)] }

/-- `GetProtobufMessage`. -/
def getProtobufMessage (i : ℕ) (s : LoopMemory) : Option ℕ × LoopMemory :=
  match s.decoded.find? fun x => x.1 = i with
  | some x => (x.2, { s with decoded := s.decoded.erase x })
  | none => (none, s)

/-- `readFromNetwork`; `ret` is set to null when its events are queued. -/
def readFromNetwork (s : LoopMemory) (i : ℕ) (built : List Bool) (r : Mutexes.Read) :
    Option LoopMemory :=
  match (decode i built s).getProtobufMessage i with
  | (none, s) => some s
  | (some ret, s) =>
      match r with
      | .refused | .connect | .queryLastEvent => s.writeToNetwork.delete ret
      | .log => some (s.insertWindowsEvents ret)
      | .noMessage | .ignored => s.delete ret

/-- Delete one object after the other. -/
def deleteAll : List (Option ℕ) → LoopMemory → Option LoopMemory
  | [], s => some s
  | some p :: ps, s => (s.delete p).bind (deleteAll ps)
  | none :: ps, s => deleteAll ps s

/-- `Reset` of a decoder. -/
def reset (i : ℕ) (s : LoopMemory) : Option LoopMemory :=
  deleteAll ((s.decoded.filter fun x => x.1 = i).map Prod.snd)
    { s with decoded := s.decoded.filter fun x => ¬x.1 = i }

/-- `uv_write` and `pop`, in `_WriteToNetwork`. A request that is not accepted gets no callback. -/
def pass (s : LoopMemory) (front : ℕ) (accepts : Bool) : LoopMemory :=
  let (req, s) := s.new .uvWrite
  let (bufs, s) := s.new .uvBuf
  { s with
    writing := if accepts then s.writing ++ [⟨req, bufs, front⟩] else s.writing
    _sending_queue := s._sending_queue.tail }

/-- The loop of `_WriteToNetwork`, for the buffers and whether `uv_write` accepts them. -/
def flush : List (ℕ × Bool) → LoopMemory → LoopMemory
  | [], s => s
  | (front, accepts) :: rest, s => flush rest (s.pass front accepts)

inductive Action where
  /-- `uvAllocCB`, and `uvReadCB` of session `i` with a positive `nread`; whether `BuildObj`
  knows each of the messages that it completes. -/
  | read (i : ℕ) (built : List Bool) (r : Mutexes.Read)
  /-- `uvAllocCB`, and `uvReadCB` with no `nread`. -/
  | readNothing
  /-- `uvReadCB` with a negative `nread`. -/
  | readFailed (r : FailedRead)
  /-- The destructor of session `i`. -/
  | deleteClient (i : ℕ)
  /-- Queued work replies, on a worker. -/
  | reply
  /-- The callback of `writeAsync`, and whether `uv_write` accepts each of the packets. -/
  | writeAsync (accepts : List Bool)
  /-- The callback of a request passed to `uv_write`. -/
  | written (r : WriteRequest)
  /-- The callback of a request passed to `uv_queue_work`. -/
  | worked (r : WorkRequest)
  /-- `DestroyUvHandler`. -/
  | destroy
  deriving DecidableEq, Repr

/-- A callback. There is no result when it deletes or reads what does not live. -/
def step (s : LoopMemory) : Action → Option LoopMemory
  | .read i built r =>
      let (buf, s) := s.new .readBuffer
      (s.readFromNetwork i built r).bind fun s => s.delete buf
  | .readNothing => some (s.new .readBuffer).2
  -- Without a buffer `uvAllocCB` has not been called.
  | .readFailed r => if r.Harmless then some s else none
  | .deleteClient i => s.reset i
  | .reply => some s.writeToNetwork
  | .writeAsync accepts => some (flush (s._sending_queue.zip accepts) s)
  | .written r =>
      (({ s with writing := s.writing.erase r }.delete r.base).bind fun s =>
        s.delete r.bufs).bind fun s => s.delete r.req
  | .worked r =>
      ({ s with working := s.working.erase r }.delete r.p).bind fun s => s.delete r.wo
  | .destroy =>
      match s._sending_queue with
      | [] => some { s with destroyed := true }
      -- `p` refers to the element that `pop` has destroyed.
      | _ :: _ => none

/-- The loop runs until the handler is destroyed, and calls back for its own requests. A message
is handed on when there is one. -/
def Possible (s : LoopMemory) (a : Action) : Prop :=
  s.destroyed = false ∧
    match a with
    | .read i built r => r = .noMessage ↔ ((decode i built s).getProtobufMessage i).1 = none
    | .writeAsync accepts => accepts.length = s._sending_queue.length
    | .written r => r ∈ s.writing
    | .worked r => r ∈ s.working
    | _ => True

instance (s : LoopMemory) (a : Action) : Decidable (s.Possible a) := by
  unfold Possible
  cases a <;> infer_instance

/-- The messages of decoders. -/
def messages (decoded : List (ℕ × Option ℕ)) : List (ℕ × Block) :=
  decoded.filterMap fun x => x.2.map fun p => (p, .message)

/-- What will be deleted by a callback or with a session. -/
def pending (s : LoopMemory) : Multiset (ℕ × Block) :=
  messages s.decoded +
    ((s._sending_queue.map fun buf => (buf, Block.packetBuffer)) +
      ((s.writing.map WriteRequest.blocks).sum + (s.working.map WorkRequest.blocks).sum))

/-- What `_WriteToNetwork` loses of a packet. -/
def rejected (accepts : Bool) : Multiset Block :=
  if accepts then 0 else {.packetBuffer, .uvBuf, .uvWrite}

/-- What a callback loses: no pointer to it is left. -/
def loses : Action → Multiset Block
  | .readNothing => {.readBuffer}
  | .writeAsync accepts => (accepts.map rejected).sum
  | .worked _ => {.uvWork}
  | _ => 0

/-! ## Ownership -/

/-- The living objects are those that are pending, and `rest`. -/
def Owns (s : LoopMemory) (rest : Multiset (ℕ × Block)) : Prop := s.heap.Held (s.pending + rest)

section
variable {s : LoopMemory} {rest : Multiset (ℕ × Block)} {p : ℕ} {b : Block}

theorem owns_start : Owns {} 0 := Objects.held_empty

theorem Owns.new (h : s.Owns rest) (b : Block) : (s.new b).2.Owns (((s.new b).1, b) ::ₘ rest) := by
  have hnew := Held.new h b
  rwa [← Multiset.add_cons] at hnew

theorem Owns.delete (h : s.Owns ((p, b) ::ₘ rest)) :
    ∃ heap, s.delete p = some { s with heap := heap } ∧
      ({ s with heap := heap } : LoopMemory).Owns rest := by
  rw [Owns, Multiset.add_cons] at h
  obtain ⟨heap, hdelete, hheld⟩ := h.delete
  exact ⟨heap, by rw [LoopMemory.delete, hdelete]; rfl, hheld⟩

/-- A pointer is put where a callback finds it. -/
theorem Owns.of_pending {s' : LoopMemory} {rest' : Multiset (ℕ × Block)} (h : s.Owns rest)
    (hheap : s'.heap = s.heap) (hpending : s'.pending + rest' = s.pending + rest) :
    s'.Owns rest' := by
  rw [Owns, hheap, hpending]
  exact h

theorem Owns.writeToNetwork (h : s.Owns rest) : s.writeToNetwork.Owns rest := by
  refine (h.new .packetBuffer).of_pending rfl ?_
  simp only [pending, LoopMemory.writeToNetwork, LoopMemory.new, List.map_append, List.map_cons,
    List.map_nil, ← Multiset.coe_add, ← Multiset.singleton_add]
  rw [Multiset.coe_singleton]
  abel

theorem Owns.insertWindowsEvents (h : s.Owns ((p, .message) ::ₘ rest)) :
    (s.insertWindowsEvents p).Owns rest := by
  refine ((h.new .uvWork).new .work).of_pending rfl ?_
  simp only [pending, LoopMemory.insertWindowsEvents, LoopMemory.new, List.map_append,
    List.map_cons, List.map_nil, List.sum_append, List.sum_cons, List.sum_nil, WorkRequest.blocks,
    ← Multiset.singleton_add, Multiset.insert_eq_cons]
  abel

/-! ### Decoders -/

@[simp] theorem messages_append (l l' : List (ℕ × Option ℕ)) :
    messages (l ++ l') = messages l ++ messages l' := List.filterMap_append

@[simp] theorem messages_none (i : ℕ) : messages [(i, none)] = [] := rfl

@[simp] theorem messages_some (i p : ℕ) : messages [(i, some p)] = [(p, .message)] := rfl

theorem Owns.decode (h : s.Owns rest) (i : ℕ) (built : List Bool) :
    (LoopMemory.decode i built s).Owns rest := by
  induction built generalizing s with
  | nil => exact h
  | cons known built ih =>
      cases known with
      | false => exact ih (h.of_pending rfl (by simp [pending]))
      | true =>
          refine ih ((h.new .message).of_pending rfl ?_)
          simp only [pending, LoopMemory.new, messages_append, messages_some, ← Multiset.coe_add,
            ← Multiset.singleton_add]
          rw [Multiset.coe_singleton]
          abel

/-- A message is handed on, or there is none. -/
theorem Owns.getProtobufMessage (h : s.Owns rest) (i : ℕ) : ∃ ret s',
    s.getProtobufMessage i = (ret, s') ∧
      s'.Owns ((messages [(i, ret)] : Multiset (ℕ × Block)) + rest) := by
  rw [LoopMemory.getProtobufMessage]
  cases hfind : s.decoded.find? fun x => x.1 = i with
  | none => exact ⟨none, s, rfl, by simpa using h⟩
  | some x =>
      refine ⟨x.2, _, rfl, h.of_pending rfl ?_⟩
      have hx : x = (i, x.2) := Prod.ext (by simpa using List.find?_some hfind) rfl
      have hperm := (List.perm_cons_erase (List.mem_of_find?_eq_some hfind)).filterMap
        fun x => x.2.map fun p => (p, Block.message)
      have hdecoded : (messages s.decoded : Multiset (ℕ × Block)) =
          messages [(i, x.2)] + messages (s.decoded.erase x) := by
        rw [Multiset.coe_add, ← messages_append, ← hx, List.singleton_append]
        exact Multiset.coe_eq_coe.mpr hperm
      simp only [pending, hdecoded]
      abel

/-- **Handling a message passes every pointer on or deletes it.** -/
theorem Owns.readFromNetwork (h : s.Owns rest) (i : ℕ) (built : List Bool) (r : Mutexes.Read) :
    ∃ s', s.readFromNetwork i built r = some s' ∧ s'.Owns rest := by
  rw [LoopMemory.readFromNetwork]
  obtain ⟨_ | ret, s₁, hget, howns⟩ := (h.decode i built).getProtobufMessage i
  · rw [hget]
    exact ⟨_, rfl, by simpa using howns⟩
  · rw [hget]
    rw [messages_some, Multiset.coe_singleton, Multiset.singleton_add] at howns
    cases r with
    | log => exact ⟨_, rfl, howns.insertWindowsEvents⟩
    | noMessage | ignored =>
        obtain ⟨heap, hdelete, howns⟩ := howns.delete
        exact ⟨_, hdelete, howns⟩
    | refused | connect | queryLastEvent =>
        obtain ⟨heap, hdelete, howns⟩ := howns.writeToNetwork.delete
        exact ⟨_, hdelete, howns⟩

theorem Owns.deleteAll {xs : List (ℕ × Option ℕ)}
    (h : s.Owns ((messages xs : Multiset (ℕ × Block)) + rest)) :
    ∃ s', LoopMemory.deleteAll (xs.map Prod.snd) s = some s' ∧ s'.Owns rest := by
  induction xs generalizing s with
  | nil => exact ⟨s, rfl, by simpa [messages] using h⟩
  | cons x xs ih =>
      obtain ⟨i, _ | p⟩ := x
      · obtain ⟨s', hrest, hs'⟩ := ih h
        exact ⟨s', hrest, hs'⟩
      · have hcons : messages ((i, some p) :: xs) = (p, .message) :: messages xs := rfl
        rw [hcons, ← Multiset.cons_coe, Multiset.cons_add] at h
        obtain ⟨heap, hdelete, howns⟩ := h.delete
        obtain ⟨s', hrest, hs'⟩ := ih howns
        refine ⟨s', ?_, hs'⟩
        rw [List.map_cons, LoopMemory.deleteAll, hdelete, Option.bind_some, hrest]

/-- What is left in the decoder of a session goes with it. -/
theorem Owns.reset (h : s.Owns rest) (i : ℕ) : ∃ s', s.reset i = some s' ∧ s'.Owns rest := by
  have hperm : (messages (s.decoded.filter fun x => x.1 = i) : Multiset (ℕ × Block)) +
      messages (s.decoded.filter fun x => ¬x.1 = i) = messages s.decoded := by
    rw [Multiset.coe_add, ← messages_append]
    simp only [decide_not]
    exact Multiset.coe_eq_coe.mpr ((List.filter_append_perm _ s.decoded).filterMap _)
  have howns : ({ s with decoded := s.decoded.filter fun x => ¬x.1 = i } : LoopMemory).Owns
      ((messages (s.decoded.filter fun x => x.1 = i) : Multiset (ℕ × Block)) + rest) := by
    refine h.of_pending rfl ?_
    simp only [pending, ← hperm]
    abel
  exact howns.deleteAll

/-! ### Packets and work -/

/-- A buffer becomes a request, or it is lost with the request. -/
theorem Owns.pass (h : s.Owns rest) {front : ℕ} {q : List ℕ}
    (hq : s._sending_queue = front :: q) (accepts : Bool) :
    ∃ rest', (s.pass front accepts).Owns rest' ∧
      rest'.map Prod.snd = rest.map Prod.snd + rejected accepts := by
  have hnew := (h.new .uvWrite).new .uvBuf
  cases accepts with
  | true =>
      refine ⟨rest, hnew.of_pending rfl ?_, (add_zero _).symm⟩
      simp only [pending, LoopMemory.pass, LoopMemory.new, hq, if_true, List.tail_cons,
        List.map_append, List.map_cons, List.map_nil, List.sum_append, List.sum_cons, List.sum_nil,
        WriteRequest.blocks, ← Multiset.cons_coe, ← Multiset.singleton_add,
        Multiset.insert_eq_cons]
      abel
  | false =>
      refine ⟨(front, .packetBuffer) ::ₘ (((s.new .uvWrite).2.new .uvBuf).1, .uvBuf) ::ₘ
        ((s.new .uvWrite).1, .uvWrite) ::ₘ rest, hnew.of_pending rfl ?_, ?_⟩
      · simp only [pending, LoopMemory.pass, LoopMemory.new, hq, Bool.false_eq_true, if_false,
          List.tail_cons, List.map_cons, ← Multiset.cons_coe, ← Multiset.singleton_add]
        abel
      · simp only [Multiset.map_cons, rejected, Bool.false_eq_true, if_false,
          Multiset.insert_eq_cons]
        simp only [← Multiset.singleton_add]
        abel

/-- The queue becomes requests, buffer by buffer. -/
theorem Owns.flush {q : List (ℕ × Bool)} (h : s.Owns rest)
    (hq : s._sending_queue = q.map Prod.fst) : ∃ rest', (flush q s).Owns rest' ∧
      rest'.map Prod.snd = rest.map Prod.snd + (q.map fun x => rejected x.2).sum := by
  induction q generalizing s rest with
  | nil => exact ⟨rest, h, by simp⟩
  | cons x q ih =>
      obtain ⟨rest₁, hpass, hrest₁⟩ := h.pass hq x.2
      have hqueue : (s.pass x.1 x.2)._sending_queue = q.map Prod.fst := by
        simp [LoopMemory.pass, LoopMemory.new, hq]
      obtain ⟨rest', howns, hrest'⟩ := ih hpass hqueue
      refine ⟨rest', howns, ?_⟩
      rw [hrest', hrest₁, List.map_cons, List.sum_cons, add_assoc]

/-- The callback of `uv_write` deletes what the request has. -/
theorem Owns.written (h : s.Owns rest) {r : WriteRequest} (hr : r ∈ s.writing) :
    ∃ s', s.step (.written r) = some s' ∧ s'.Owns rest := by
  have hsum := ((List.perm_cons_erase hr).map WriteRequest.blocks).sum_eq
  rw [List.map_cons, List.sum_cons] at hsum
  have howns : ({ s with writing := s.writing.erase r } : LoopMemory).Owns
      ((r.base, .packetBuffer) ::ₘ (r.bufs, .uvBuf) ::ₘ (r.req, .uvWrite) ::ₘ rest) := by
    refine h.of_pending rfl ?_
    simp only [pending, hsum, WriteRequest.blocks, ← Multiset.singleton_add,
      Multiset.insert_eq_cons]
    abel
  obtain ⟨heap, hbase, howns⟩ := howns.delete
  obtain ⟨heap, hbufs, howns⟩ := howns.delete
  obtain ⟨heap, hreq, howns⟩ := howns.delete
  refine ⟨_, ?_, howns⟩
  rw [step, hbase, Option.bind_some, hbufs, Option.bind_some, hreq]

/-- The callback of `uv_queue_work` deletes all but the request. -/
theorem Owns.worked (h : s.Owns rest) {r : WorkRequest} (hr : r ∈ s.working) :
    ∃ s', s.step (.worked r) = some s' ∧ s'.Owns ((r.w, .uvWork) ::ₘ rest) := by
  have hsum := ((List.perm_cons_erase hr).map WorkRequest.blocks).sum_eq
  rw [List.map_cons, List.sum_cons] at hsum
  have howns : ({ s with working := s.working.erase r } : LoopMemory).Owns
      ((r.p, .message) ::ₘ (r.wo, .work) ::ₘ (r.w, .uvWork) ::ₘ rest) := by
    refine h.of_pending rfl ?_
    simp only [pending, hsum, WorkRequest.blocks, ← Multiset.singleton_add,
      Multiset.insert_eq_cons]
    abel
  obtain ⟨heap, hp, howns⟩ := howns.delete
  obtain ⟨heap, hwo, howns⟩ := howns.delete
  refine ⟨_, ?_, howns⟩
  rw [step, hp, Option.bind_some, hwo]

/-- A read that fails has no buffer, and nothing is queued when the handler is destroyed. -/
def Defined (s : LoopMemory) (a : Action) : Prop :=
  (∀ r, a = .readFailed r → r.Harmless) ∧ (a = .destroy → s._sending_queue = [])

/-- **Every callback has its result, and loses what `loses` says.** -/
theorem Owns.step (h : s.Owns rest) {a : Action} (hpossible : s.Possible a)
    (hdefined : s.Defined a) : ∃ s' rest', s.step a = some s' ∧ s'.Owns rest' ∧
      rest'.map Prod.snd = rest.map Prod.snd + loses a := by
  cases a with
  | read i built r =>
      obtain ⟨s₁, hread, howns⟩ := (h.new .readBuffer).readFromNetwork i built r
      obtain ⟨heap, hdelete, howns⟩ := howns.delete
      refine ⟨_, rest, ?_, howns, (add_zero _).symm⟩
      rw [LoopMemory.step]
      simp only [hread, Option.bind_some]
      exact hdelete
  | readNothing =>
      refine ⟨_, _, rfl, h.new .readBuffer, ?_⟩
      rw [Multiset.map_cons, loses, add_comm, Multiset.singleton_add]
  | readFailed r => exact ⟨s, rest, if_pos (hdefined.1 r rfl), h, (add_zero _).symm⟩
  | deleteClient i =>
      obtain ⟨s', hs', howns⟩ := h.reset i
      exact ⟨s', rest, hs', howns, (add_zero _).symm⟩
  | reply => exact ⟨_, rest, rfl, h.writeToNetwork, (add_zero _).symm⟩
  | writeAsync accepts =>
      have hlength := hpossible.2
      obtain ⟨rest', howns, hrest'⟩ := h.flush (q := s._sending_queue.zip accepts)
        (List.map_fst_zip hlength.ge).symm
      refine ⟨_, rest', rfl, howns, ?_⟩
      have hsnd : (s._sending_queue.zip accepts).map (fun x => rejected x.2) =
          accepts.map rejected := by
        conv_rhs => rw [← List.map_snd_zip hlength.le]
        rw [List.map_map]
        rfl
      rw [hrest', hsnd, loses]
  | written r =>
      obtain ⟨s', hs', howns⟩ := h.written hpossible.2
      exact ⟨s', rest, hs', howns, (add_zero _).symm⟩
  | worked r =>
      obtain ⟨s', hs', howns⟩ := h.worked hpossible.2
      refine ⟨s', _, hs', howns, ?_⟩
      rw [Multiset.map_cons, loses, add_comm, Multiset.singleton_add]
  | destroy =>
      have hqueue := hdefined.2 rfl
      refine ⟨{ s with destroyed := true }, rest, ?_, h.of_pending rfl rfl, (add_zero _).symm⟩
      rw [LoopMemory.step, hqueue]

theorem step_eq_none {a : Action} (hdefined : ¬s.Defined a) : s.step a = none := by
  rw [Defined, not_and_or] at hdefined
  rcases hdefined with hread | hdestroy
  · push Not at hread
    obtain ⟨r, rfl, hbase⟩ := hread
    exact if_neg hbase
  · rw [Classical.not_imp] at hdestroy
    obtain ⟨rfl, hqueue⟩ := hdestroy
    rw [step]
    split
    · contradiction
    · rfl

end

/-- A session survives a read that fails exactly when the memory does. -/
theorem uvReadFailed_failed_iff {t : UvHandler} {i : ℕ} {stray : Bool} (hrunning : t.failed = false)
    (hnamed : t.Named i stray) (u : ClientSocket) (r : FailedRead) (s : LoopMemory) :
    (t.uvReadFailed i stray u r).failed = true ↔ s.step (.readFailed r) = none := by
  rw [UvHandler.uvReadFailed_of_named u r hnamed, step]
  obtain ⟨nread, base⟩ := r
  cases base with
  | false => simp [FailedRead.Harmless, hrunning]
  | true => simp [FailedRead.Harmless]

/-! ## Runs -/

/-- The accounts are kept along every run. -/
theorem owns_run {as : List Action} {s : LoopMemory} (hpossible : Meets step Possible {} as)
    (hrun : run step {} as = some s) :
    ∃ lost, s.Owns lost ∧ lost.map Prod.snd = (as.map loses).sum := by
  refine history (P := fun as (s : LoopMemory) => ∃ lost : Multiset (ℕ × Block),
    s.Owns lost ∧ lost.map Prod.snd = (as.map loses).sum) ⟨0, owns_start, rfl⟩ ?_ hpossible hrun
  rintro as s a s' ⟨lost, howns, hlost⟩ hpossible hstep
  by_cases hdefined : s.Defined a
  · obtain ⟨s₁, lost', hs₁, howns', hlost'⟩ := howns.step hpossible hdefined
    cases hs₁.symm.trans hstep
    refine ⟨lost', howns', ?_⟩
    rw [hlost', hlost, List.map_append, List.sum_append, List.map_singleton, List.sum_singleton]
  · rw [step_eq_none hdefined] at hstep
    exact nomatch hstep

/-- **The accounts of the loop.** Along every run of the loop, what lives is what some callback
will delete, and what has been lost: a buffer for each read that brought nothing, a request for
each work that is done, and a buffer with its request for each packet that is not accepted. -/
theorem accounted {as : List Action} {s : LoopMemory} (hpossible : Meets step Possible {} as)
    (hrun : run step {} as = some s) :
    ∃ lost, s.heap.Held (s.pending + lost) ∧ lost.map Prod.snd = (as.map loses).sum :=
  owns_run hpossible hrun

/-- Three reads, of two messages, of none and of nothing, and queued work that replies; all
callbacks are made, and the session hangs up. -/
def logging : List Action :=
  [.read 0 [true, true] .connect, .readNothing, .writeAsync [true], .read 0 [] .log, .reply,
    .written ⟨5, 6, 3⟩, .writeAsync [false], .worked ⟨8, 9, 2⟩, .readFailed Sample.hangUp,
    .deleteClient 0]

theorem accounted_logging :
    ∃ s, run step {} logging = some s ∧
      ∃ lost, s.heap.Held (s.pending + lost) ∧ lost.map Prod.snd = (logging.map loses).sum :=
  ⟨_, rfl, accounted (by decide +kernel) rfl⟩

/-- **When a callback deletes or reads what does not live**: when a read has failed and comes with
a buffer, and when something is queued as the handler is destroyed. -/
theorem step_eq_none_iff {as : List Action} {s : LoopMemory} {a : Action}
    (hrun : run step {} as = some s) (hpossible : Meets step Possible {} (as ++ [a])) :
    s.step a = none ↔
      (∃ r, a = .readFailed r ∧ ¬r.Harmless) ∨ a = .destroy ∧ s._sending_queue ≠ [] := by
  obtain ⟨lost, howns, _⟩ := owns_run hpossible.of_append hrun
  have hundefined : ¬s.Defined a ↔
      (∃ r, a = .readFailed r ∧ ¬r.Harmless) ∨ a = .destroy ∧ s._sending_queue ≠ [] := by
    rw [Defined, not_and_or, Classical.not_imp]
    push Not
    rfl
  rw [← hundefined]
  constructor
  · intro hnone hdefined
    obtain ⟨s', _, hs', _⟩ := howns.step (hpossible.last hrun) hdefined
    rw [hnone] at hs'
    exact nomatch hs'
  · exact step_eq_none

/-- A reply is queued when the handler is destroyed. -/
theorem step_eq_none_iff_reply :
    ∃ s, run step {} [.reply] = some s ∧ (s.step .destroy = none ↔
      (∃ r, Action.destroy = .readFailed r ∧ ¬r.Harmless) ∨
        Action.destroy = .destroy ∧ s._sending_queue ≠ []) := by
  have hrun : run step {} [.reply] = some (writeToNetwork {}) := rfl
  exact ⟨_, hrun, step_eq_none_iff hrun (by decide +kernel)⟩

end LoopMemory
end ClientService
