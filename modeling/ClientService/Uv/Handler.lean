import ClientService.Lib.Transition
import ClientService.Server.Identity
import ClientService.Server.Service

/-!
# The sessions of the loop

`uvConnectCB` makes a session and puts it into `_clientMap`, under its socket. `uvReadCB` closes
it, and then `uvCloseCB` takes it out of the map and deletes it; the callback of `stopAsync` does
so through `RemoveClient`. Queued work and the send queue refer to sessions, and none of these
functions looks at them.

A session is known by its number; the sockets are addresses, which may come back once a session
has been deleted.

`uvReadCB` begins with the name of the session's client, also before a `CONNECT` has set
`_client`. What it finds then depends on what the memory of the pointer holds: `stray` says whether
it can be read.

## Main definitions

* `FailedRead` — what comes with a negative `nread`.
* `ClientSocket`, `UvHandler` — the state.
* `UvHandler.addClient`, `UvHandler.removeClient`, `UvHandler.clientDisconnect` — the map.
* `UvHandler.step` — what may happen.
-/

namespace ClientService

/-- A read that ends in a negative status. -/
structure FailedRead where
  nread : Nread
  /-- `buf->base` is not null. -/
  base : Bool
  deriving DecidableEq, Repr

/-- `uvReadCB` closes the handle for two statuses. -/
def FailedRead.Closing (r : FailedRead) : Prop := r.nread = .eof ∨ r.nread = .connReset

/-- `delete[] buf` is for the `uv_buf_t` that libuv has passed, which is not from `new`. -/
def FailedRead.Harmless (r : FailedRead) : Prop := r.base = false

instance (r : FailedRead) : Decidable r.Closing := inferInstanceAs (Decidable (_ ∨ _))

instance (r : FailedRead) : Decidable r.Harmless := inferInstanceAs (Decidable (_ = _))

/-- The socket of a session, and what has become of the two. -/
structure ClientSocket where
  /-- The address. -/
  sock : ℕ
  /-- `uv_close` has been called. -/
  closed : Bool := false
  /-- `uvCloseCB` is going to be called. -/
  pending : Bool := false
  /-- The session has been deleted. -/
  destroyed : Bool := false
  /-- `uv_accept` or a read has failed. -/
  failed : Bool := false
  deriving DecidableEq, Repr

/-- The session is there, and its handle is not closed yet. -/
def ClientSocket.Open (t : ClientSocket) : Prop :=
  t.destroyed = false ∧ (t.closed = false ∨ t.pending = true)

structure UvHandler where
  service : Service
  /-- From the address of a socket to the session. -/
  _clientMap : AList fun _ : ℕ => ℕ := ∅
  sockets : ℕ → Option ClientSocket := fun _ => none
  /-- How many of the packages written to each session have been passed to `uv_write`. -/
  flushed : ℕ → ℕ := fun _ => 0
  /-- An assertion has failed, or the behaviour is undefined. -/
  failed : Bool := false

namespace UvHandler

/-- What has become of the socket of session `i`. -/
def put (s : UvHandler) (i : ℕ) (t : ClientSocket) : UvHandler :=
  { s with sockets := Function.update s.sockets i (some t) }

/-- `AddClient`. Its assertion asks that the key is present; `emplace` keeps an entry that is. -/
def addClient (asserts : Bool) (c p : ℕ) (s : UvHandler) : UvHandler :=
  match s._clientMap.lookup p with
  | some _ => s
  | none =>
      if asserts then { s with failed := true }
      else { s with _clientMap := s._clientMap.insert p c }

/-- `RemoveClient`. It reads `p->second` when the entry is erased: `second` is what it finds. -/
def removeClient (t : ℕ) (second : Option ℕ) (s : UvHandler) : Option ℕ × UvHandler :=
  match s._clientMap.lookup t with
  | some _ => (second, { s with _clientMap := s._clientMap.erase t })
  | none => (none, s)

/-- `ClientDisconnect`. Nothing can be erased at the end of the map. -/
def clientDisconnect (p : ℕ) (s : UvHandler) : UvHandler :=
  match s._clientMap.lookup p with
  | some _ => { s with _clientMap := s._clientMap.erase p }
  | none => { s with failed := true }

/-- `uvConnectCB`, after the session has been made. -/
def uvConnectCB (asserts accepted : Bool) (c p : ℕ) (s : UvHandler) : UvHandler :=
  let s := (s.put c { sock := p }).addClient asserts c p
  if s.failed ∨ accepted then s
  else s.put c { sock := p, closed := true, failed := true }

/-- `c->_client->_clientName` can be read. -/
def Named (s : UvHandler) (i : ℕ) (stray : Bool) : Prop :=
  (s.service.sessions i)._client ≠ none ∨ stray = true

instance (s : UvHandler) (i : ℕ) (stray : Bool) : Decidable (s.Named i stray) :=
  inferInstanceAs (Decidable (_ ∨ _))

/-- `uvReadCB`, when `nread` is negative. -/
def uvReadFailed (i : ℕ) (stray : Bool) (t : ClientSocket) (r : FailedRead) (s : UvHandler) :
    UvHandler :=
  if s.Named i stray then
    let s := s.put i (if r.Closing then { t with closed := true, pending := true, failed := true }
      else { t with failed := true })
    if r.Harmless then s else { s with failed := true }
  else { s with failed := true }

/-- `uvCloseCB`. -/
def uvCloseCB (i : ℕ) (t : ClientSocket) (s : UvHandler) : UvHandler :=
  (s.clientDisconnect t.sock).put i { t with pending := false, destroyed := true }

/-- `uv_close` for the handle at an address, without a callback. -/
def shut (p : ℕ) (s : UvHandler) : UvHandler :=
  { s with sockets := fun i => (s.sockets i).map fun t =>
      if t.sock = p ∧ t.destroyed = false then { t with closed := true } else t }

/-- What the callback of `stopAsync` does with a handle. -/
def stopHandle (p : ℕ) (second : Option ℕ) (s : UvHandler) : UvHandler :=
  let (c, s) := s.removeClient p second
  match c with
  | none => s.shut p
  | some c =>
      match s.sockets c with
      | some t => (s.put c { t with closed := true, destroyed := true }).shut p
      | none => { s with failed := true }

inductive Action where
  /-- A connection, with the address of the new socket and whether `uv_accept` succeeds. -/
  | connect (p : ℕ) (accepted : Bool)
  /-- A read of session `i` completes no message. -/
  | read (i : ℕ) (stray : Bool)
  /-- A read of session `i` completes a message. -/
  | message (i : ℕ) (stray : Bool) (env : Surroundings) (ret : CoreMessage)
  /-- A read of session `i` ends in a negative status. -/
  | readFailed (i : ℕ) (stray : Bool) (r : FailedRead)
  /-- `uvCloseCB` is called for session `i`. -/
  | closed (i : ℕ)
  /-- The callback of `stopAsync` comes to the handle at `p`. -/
  | stopHandle (p : ℕ) (second : Option ℕ)
  | insert (j : ℕ)
  | reply (j : ℕ)
  | lose
  | sigpipe (outcome : ℕ → Attempt)
  /-- `_WriteToNetwork`. -/
  | flush

/-- The address of a new socket is that of no session that is still there. -/
def Fresh (s : UvHandler) (p : ℕ) : Prop :=
  ∀ i < s.service.accepted, ∀ t ∈ s.sockets i, t.destroyed = false → t.sock ≠ p

instance (s : UvHandler) (p : ℕ) : Decidable (s.Fresh p) :=
  inferInstanceAs (Decidable (∀ i < s.service.accepted, ∀ t ∈ s.sockets i, _))

/-- The socket of session `i` is there and libuv reads from it. -/
def reading (s : UvHandler) (i : ℕ) : Option ClientSocket :=
  (s.sockets i).filter fun t => !t.closed && !t.destroyed

/-- A step of the process behind the sessions. -/
def serve (asserts : Bool) (s : UvHandler) (a : Service.Action) : Option UvHandler :=
  (s.service.step asserts a).map fun service => { s with service := service }

/-- What may happen while the process goes on. -/
def act (asserts : Bool) (s : UvHandler) : Action → Option UvHandler
  | .connect p accepted =>
      if s.Fresh p then
        (s.serve asserts .accept).map (uvConnectCB asserts accepted s.service.accepted p)
      else none
  | .read i stray =>
      if (s.reading i).isSome then
        if s.Named i stray then some s else some { s with failed := true }
      else none
  | .message i stray env ret =>
      if (s.reading i).isSome then
        if s.Named i stray then s.serve asserts (.message i env ret)
        else some { s with failed := true }
      else none
  | .readFailed i stray r =>
      match s.reading i, r.nread with
      | some _, .zero | some _, .data _ | none, _ => none
      | some t, _ => some (s.uvReadFailed i stray t r)
  | .closed i =>
      match s.sockets i with
      | some t => if t.pending then some (s.uvCloseCB i t) else none
      | none => none
  | .stopHandle p second => some (s.stopHandle p second)
  | .insert j => s.serve asserts (.insert j)
  | .reply j => s.serve asserts (.reply j)
  | .lose => s.serve asserts .lose
  | .sigpipe outcome => s.serve asserts (.sigpipe outcome)
  | .flush => some { s with flushed := fun i => (s.service.sent i).length }

def step (asserts : Bool) (s : UvHandler) (a : Action) : Option UvHandler :=
  if s.failed ∨ s.service.ended then none else s.act asserts a

/-- The step of the process behind the sessions that is all that an action does. -/
def behind : Action → Option Service.Action
  | .message i _ env ret => some (.message i env ret)
  | .insert j => some (.insert j)
  | .reply j => some (.reply j)
  | .lose => some .lose
  | .sigpipe outcome => some (.sigpipe outcome)
  | _ => none

theorem behind_ne_accept {a : Action} {b : Service.Action} (hb : behind a = some b) :
    b ≠ .accept := by
  rintro rfl
  cases a with
  | _ => exact nomatch hb

/-- The session whose name a read that does not fail begins with. -/
def looksUp : Action → Option (ℕ × Bool)
  | .read i stray | .message i stray _ _ => some (i, stray)
  | _ => none

theorem looksUp_of_message {a : Action} {i : ℕ} {env : Surroundings} {ret : CoreMessage}
    (hb : behind a = some (.message i env ret)) : ∃ stray, looksUp a = some (i, stray) := by
  cases a with
  | message =>
      cases hb
      exact ⟨_, rfl⟩
  | _ => exact nomatch hb

/-- The process after `main` has set up the loop. -/
def start (flag : Bool) (db : Database) (nextID : Int32) : UvHandler where
  service := .start flag db nextID

/-! ## Steps -/

theorem accepted_of_accept {asserts : Bool} {t t' : Service}
    (h : t.step asserts .accept = some t') : t'.accepted = t.accepted + 1 := by
  cases (Service.step_spec h).2
  rfl

/-- What a step does. -/
inductive Stepped (asserts : Bool) (s : UvHandler) : Action → UvHandler → Prop
  | connect {p : ℕ} {accepted : Bool} {service : Service} (hfresh : s.Fresh p)
      (hservice : s.service.step asserts .accept = some service) :
      Stepped asserts s (.connect p accepted)
        (uvConnectCB asserts accepted s.service.accepted p { s with service := service })
  | served {a : Action} {b : Service.Action} {service : Service} (hb : behind a = some b)
      (hreads : ∀ i stray, looksUp a = some (i, stray) → (s.reading i).isSome ∧ s.Named i stray)
      (hservice : s.service.step asserts b = some service) :
      Stepped asserts s a { s with service := service }
  | read {i : ℕ} {stray : Bool} (hnamed : s.Named i stray) : Stepped asserts s (.read i stray) s
  | nameless {a : Action} {i : ℕ} {stray : Bool} (ha : looksUp a = some (i, stray))
      (hnamed : ¬s.Named i stray) : Stepped asserts s a { s with failed := true }
  | readFailed {i : ℕ} {stray : Bool} {r : FailedRead} {t : ClientSocket}
      (hi : s.reading i = some t) :
      Stepped asserts s (.readFailed i stray r) (s.uvReadFailed i stray t r)
  | closed {i : ℕ} {t : ClientSocket} (hi : s.sockets i = some t) (hpending : t.pending = true) :
      Stepped asserts s (.closed i) (s.uvCloseCB i t)
  | stopHandle (p : ℕ) (second : Option ℕ) :
      Stepped asserts s (.stopHandle p second) (s.stopHandle p second)
  | flush :
      Stepped asserts s .flush { s with flushed := fun i => (s.service.sent i).length }

theorem step_spec {asserts : Bool} {s s' : UvHandler} {a : Action}
    (h : step asserts s a = some s') : s.failed = false ∧ Stepped asserts s a s' := by
  simp only [step, Option.ite_none_left_eq_some] at h
  obtain ⟨hgoes, h⟩ := h
  refine ⟨eq_false_of_ne_true fun hfailed => hgoes (Or.inl hfailed), ?_⟩
  -- Actions of the process behind the sessions.
  have hserved : ∀ b, behind a = some b →
      (∀ i stray, looksUp a = some (i, stray) → (s.reading i).isSome ∧ s.Named i stray) →
      s.serve asserts b = some s' → Stepped asserts s a s' := by
    intro b hb hreads hserve
    obtain ⟨service, hservice, rfl⟩ := Option.map_eq_some_iff.mp hserve
    exact .served hb hreads hservice
  cases a with
  | connect p accepted =>
      simp only [act, Option.ite_none_right_eq_some] at h
      obtain ⟨hfresh, h⟩ := h
      obtain ⟨t, hserve, rfl⟩ := Option.map_eq_some_iff.mp h
      obtain ⟨service, hservice, rfl⟩ := Option.map_eq_some_iff.mp hserve
      exact .connect hfresh hservice
  | read i stray =>
      simp only [act, Option.ite_none_right_eq_some] at h
      by_cases hnamed : s.Named i stray
      · rw [if_pos hnamed] at h
        cases h.2
        exact .read hnamed
      · rw [if_neg hnamed] at h
        cases h.2
        exact .nameless rfl hnamed
  | message i stray env ret =>
      simp only [act, Option.ite_none_right_eq_some] at h
      by_cases hnamed : s.Named i stray
      · rw [if_pos hnamed] at h
        refine hserved _ rfl ?_ h.2
        intro k stray' heq
        cases heq
        exact ⟨h.1, hnamed⟩
      · rw [if_neg hnamed] at h
        cases h.2
        exact .nameless rfl hnamed
  | readFailed i stray r =>
      cases hi : s.reading i with
      | none => simp [act, hi] at h
      | some t =>
          cases hnread : r.nread with
          | zero => simp [act, hi, hnread] at h
          | data c => simp [act, hi, hnread] at h
          | _ =>
              simp only [act, hi, hnread, Option.some.injEq] at h
              rw [← h]
              exact .readFailed hi
  | closed i =>
      cases hi : s.sockets i with
      | none => simp [act, hi] at h
      | some t =>
          simp only [act, hi, Option.ite_none_right_eq_some, Option.some.injEq] at h
          rw [← h.2]
          exact .closed hi h.1
  | stopHandle p second =>
      cases h
      exact .stopHandle p second
  | flush =>
      cases h
      exact .flush
  | _ => exact hserved _ rfl (fun _ _ heq => nomatch heq) h

section
variable {s : UvHandler} {i : ℕ} {stray : Bool} {r : FailedRead} (t : ClientSocket)

theorem put_sockets_self (i : ℕ) (t : ClientSocket) : (s.put i t).sockets i = some t :=
  Function.update_self _ _ _

theorem put_sockets_of_ne {i j : ℕ} (h : j ≠ i) (t : ClientSocket) :
    (s.put i t).sockets j = s.sockets j := Function.update_of_ne h _ _

theorem uvReadFailed_of_nameless (r : FailedRead) (h : ¬s.Named i stray) :
    s.uvReadFailed i stray t r = { s with failed := true } := by
  rw [uvReadFailed, if_neg h]

/-- What becomes of the socket; the read is survived when the buffer is null. -/
theorem uvReadFailed_of_named (r : FailedRead) (h : s.Named i stray) :
    s.uvReadFailed i stray t r = { s.put i (if r.Closing then
        { t with closed := true, pending := true, failed := true }
      else { t with failed := true }) with failed := s.failed || r.base } := by
  rw [uvReadFailed, if_pos h]
  obtain ⟨nread, base⟩ := r
  cases base with
  | false => simp [FailedRead.Harmless, put]
  | true => simp [FailedRead.Harmless]

end

theorem reading_eq_some {s : UvHandler} {i : ℕ} {t : ClientSocket} (h : s.reading i = some t) :
    s.sockets i = some t ∧ t.closed = false ∧ t.destroyed = false := by
  obtain ⟨hi, hreads⟩ := Option.filter_eq_some_iff.mp h
  simp only [Bool.and_eq_true, Bool.not_eq_true'] at hreads
  exact ⟨hi, hreads⟩

end UvHandler

namespace Sample

/-- libuv reports a hang-up without a buffer. -/
def hangUp : FailedRead := { nread := .eof, base := false }

end Sample
end ClientService
