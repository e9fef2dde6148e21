import ClientService.Decoder.Receiver
import ClientService.Lib.Transition
import ClientService.Server.Session

/-!
# The identity of a session

A session learns its row of `"Client"` from its `CONNECT` and keeps it in `_client`, which
nothing initialises. Three functions use it: `uvReadCB`, for the name it logs, `readFromNetwork`,
and the queued work. `uvReadCB` does so in its first statement, and a `CONNECT` can only come
through it.

## Main definitions

* `Connection` — a session with its decoder.
* `Connection.uvReadCB` — the callback of a read.
* `Connection.UsesIdentity` — a step dereferences `_client` only when it is set.
-/

namespace ClientService

open Transition (Meets)

/-- What `nread` says. -/
inductive Nread where
  | eof
  | connReset
  /-- Any other error. -/
  | failed (status : Int32)
  | zero
  | data (c : ProtobufPacketDecoder.Chunk)
  deriving DecidableEq, Repr

/-- A session, with its decoder and the server around it. -/
structure Connection where
  server : Server
  decoder : ProtobufPacketDecoder
  /-- `uv_close` has been called. -/
  closing : Bool := false

namespace Connection

/-- What a handler ends in: it returns or throws, unless the decoder ends the process. -/
abbrev Handled : Type := Outcome (Except Escape Unit × Connection)

/-- `uvReadCB`, with `ReadFromNetwork` and `readFromNetwork`. -/
def uvReadCB (K : Codec) (asserts : Bool) (env : Surroundings) (nread : Nread) (s : Connection) :
    Handled :=
  -- `c->_client->_clientName` comes before everything else.
  match Client.dereference s.server with
  | (.error e, server) => .ret (.error e, { s with server := server })
  | (.ok _, server) =>
      match nread with
      | .eof | .connReset => .ret (.ok (), { s with server := server, closing := true })
      | .failed _ | .zero => .ret (.ok (), { s with server := server })
      | .data c => do
          let (ret, decoder) ← Receiver.readFromNetwork.call K asserts s.decoder c
          match ret with
          | none => .ret (.ok (), { s with server := server, decoder := decoder })
          | some ret =>
              let (r, server) := Client.readFromNetwork env ret server
              .ret (r, { s with server := server, decoder := decoder })

/-- The queued work for a package. -/
def insertWindowsEvents (l : CoreMessage) (s : Connection) : Handled :=
  match l.package with
  | .log evts needAccept =>
      let (r, server) := Client.work l.id evts needAccept s.server
      .ret (r, { s with server := server })
  | _ => .ret (.ok (), s)

inductive Action where
  | read (env : Surroundings) (nread : Nread)
  /-- A worker runs the `k`-th package that was queued. -/
  | work (k : ℕ)
  /-- Other sessions and signals change what is shared. -/
  | elsewhere (dbConnected : Bool) (db : Database) (nextID : Int32)

/-- What the handler of an action ends in. -/
def handled (K : Codec) (asserts : Bool) (s : Connection) : Action → Option Handled
  | .read env nread => if s.closing then none else some (s.uvReadCB K asserts env nread)
  | .work k => s.server.queued[k]?.map s.insertWindowsEvents
  | .elsewhere dbConnected db nextID => some (.ret (.ok (), { s with
      server := { s.server with dbConnected := dbConnected, db := db, nextID := nextID } }))

/-- The process goes on when the handler has returned. -/
def step (K : Codec) (asserts : Bool) (s : Connection) (a : Action) : Option Connection :=
  match s.handled K asserts a with
  | some (.ret (.ok (), s')) => some s'
  | _ => none

/-- No handler dereferences `_client` before it is set. -/
def UsesIdentity (K : Codec) (asserts : Bool) (s : Connection) (a : Action) : Prop :=
  ∀ s', s.handled K asserts a ≠ some (.ret (.error .invalidPointer, s'))

/-- The action is no read. -/
def NoRead : Connection → Action → Prop
  | _, .read _ _ => False
  | _, _ => True

/-- What `uvConnectCB` makes. -/
def opened (dbConnected : Bool) (db : Database) (nextID : Int32) : Connection where
  server :=
    { dbConnected := dbConnected, db := db, nextID := nextID, client := { _client := none }
      sent := [], queued := [] }
  decoder := .fresh

/-! ## Before the first read -/

section
variable {K : Codec} {asserts : Bool} {s s' : Connection} {a : Action}

/-- Nothing has been read. -/
structure Unread (s : Connection) : Prop where
  client : s.server.client._client = none
  queued : s.server.queued = []
  closing : s.closing = false

theorem unread_opened (dbConnected : Bool) (db : Database) (nextID : Int32) :
    Unread (opened dbConnected db nextID) := ⟨rfl, rfl, rfl⟩

/-- The first read dereferences what nothing has set. -/
theorem Unread.handled_read (h : s.Unread) (env : Surroundings) (nread : Nread) :
    s.handled K asserts (.read env nread) = some (.ret (.error .invalidPointer, s)) := by
  rw [handled, h.closing, uvReadCB, Client.dereference_of_none h.client]
  rfl

theorem Unread.noRead (h : s.Unread) (hgood : s.UsesIdentity K asserts a) : s.NoRead a := by
  cases a with
  | read env nread => exact hgood s (h.handled_read env nread)
  | _ => trivial

theorem Unread.usesIdentity (h : s.Unread) (hread : s.NoRead a) : s.UsesIdentity K asserts a := by
  intro s' heq
  cases a with
  | read env nread => exact hread
  | work k =>
      rw [handled, h.queued] at heq
      exact nomatch heq
  | elsewhere dbConnected db nextID => exact nomatch heq

theorem Unread.step (h : s.Unread) (hread : s.NoRead a) (hstep : s.step K asserts a = some s') :
    s'.Unread := by
  cases a with
  | read env nread => exact hread.elim
  | work k =>
      rw [Connection.step, handled, h.queued] at hstep
      exact nomatch hstep
  | elsewhere dbConnected db nextID =>
      cases hstep
      exact ⟨h.client, h.queued, h.closing⟩

end

/-! ## Once connected -/

section
variable {K : Codec} {asserts : Bool} {s s' : Connection} {a : Action}

/-- A `CONNECT` has set `_client`. -/
def Identified (s : Connection) : Prop := s.server.client._client.isSome

/-- With its identity, a message is handled, and the session keeps it. -/
theorem handle_of_identified (env : Surroundings) (ret : CoreMessage) {t : Server}
    (h : t.client._client.isSome) :
    (Client.handle env ret t).1 ≠ .error .invalidPointer ∧
      (Client.handle env ret t).2.client._client.isSome := by
  have hspec := Client.handle_spec env ret t
  generalize Client.handle env ret t = x at hspec
  cases hspec with
  | unidentified hp hc => simp [hc] at h
  | _ => simp [Client.wrote, h]

theorem readFromNetwork_of_identified (env : Surroundings) (ret : CoreMessage) {t : Server}
    (h : t.client._client.isSome) :
    (Client.readFromNetwork env ret t).1 ≠ .error .invalidPointer ∧
      (Client.readFromNetwork env ret t).2.client._client.isSome := by
  cases hflag : t.dbConnected with
  | true =>
      rw [Client.readFromNetwork_of_connected hflag]
      exact ⟨fun heq => (nomatch heq), h⟩
  | false =>
      rw [Client.readFromNetwork_of_not_connected env ret hflag]
      exact handle_of_identified env ret h

theorem insert_of_identified (evts : List Event) {t : Server} (h : t.client._client.isSome) :
    (Client.insert evts t).1 ≠ .error .invalidPointer ∧
      (Client.insert evts t).2.client = t.client := by
  obtain ⟨c, hc⟩ := Option.isSome_iff_exists.mp h
  rw [Client.insert_of_some evts hc]
  rcases Database.insertWindowsEvents c evts t.db with ⟨e | n, db⟩
  · simp
  · simp

theorem work_of_identified (id : Int32) (evts : List Event) (needAccept : Bool) {t : Server}
    (h : t.client._client.isSome) :
    (Client.work id evts needAccept t).1 ≠ .error .invalidPointer ∧
      (Client.work id evts needAccept t).2.client = t.client := by
  have hinsert := insert_of_identified evts h
  rcases hr : Client.insert evts t with ⟨e | u, t'⟩
  · rw [hr] at hinsert
    by_cases he : e = .database .sqlError
    · rw [he] at hr
      rw [Client.work_of_sqlError hr]
      exact ⟨fun heq => (nomatch heq), hinsert.2⟩
    · rw [Client.work_of_escape hr he]
      exact hinsert
  · rw [hr] at hinsert
    rw [Client.work_of_ok hr]
    refine ⟨fun heq => (nomatch heq), ?_⟩
    cases needAccept
    · exact hinsert.2
    · exact hinsert.2

/-- The handlers of a session that is identified. -/
theorem Identified.handled (h : s.Identified) {r : Except Escape Unit}
    (hr : s.handled K asserts a = some (.ret (r, s'))) :
    r ≠ .error .invalidPointer ∧ s'.Identified := by
  obtain ⟨c, hc⟩ := Option.isSome_iff_exists.mp h
  cases a with
  | read env nread =>
      simp only [Connection.handled, Option.ite_none_left_eq_some, Option.some.injEq, uvReadCB,
        Client.dereference_of_some hc] at hr
      obtain ⟨_, hr⟩ := hr
      cases nread with
      | data chunk =>
          obtain ⟨⟨ret, decoder⟩, _, hr⟩ := Outcome.bind_eq_ret.mp hr
          cases ret with
          | none =>
              cases hr
              exact ⟨fun heq => (nomatch heq), h⟩
          | some ret =>
              cases hr
              exact readFromNetwork_of_identified env ret h
      | _ =>
          cases hr
          exact ⟨fun heq => (nomatch heq), h⟩
  | work k =>
      obtain ⟨l, _, hr⟩ := Option.map_eq_some_iff.mp hr
      cases hp : l.package with
      | log evts needAccept =>
          simp only [insertWindowsEvents, hp] at hr
          have hwork := work_of_identified l.id evts needAccept h
          cases hr
          refine ⟨hwork.1, ?_⟩
          rw [Identified, hwork.2]
          exact h
      | _ =>
          simp only [insertWindowsEvents, hp] at hr
          cases hr
          exact ⟨fun heq => (nomatch heq), h⟩
  | elsewhere dbConnected db nextID =>
      cases hr
      exact ⟨fun heq => (nomatch heq), h⟩

/-- A session that a `CONNECT` has identified uses its identity rightly from then on. -/
theorem usesIdentity_of_identified (h : s.Identified) (as : List Action) :
    Meets (step K asserts) (UsesIdentity K asserts) s as := by
  induction as generalizing s with
  | nil => trivial
  | cons a as ih =>
      refine ⟨fun s' heq => (h.handled heq).1 rfl, ?_⟩
      intro s' hs'
      have hstep : s.step K asserts a = some s' := hs'
      rw [Connection.step] at hstep
      rcases hr : s.handled K asserts a with _ | (⟨_ | _, t⟩ | _ | _)
      · rw [hr] at hstep
        exact nomatch hstep
      · rw [hr] at hstep
        exact nomatch hstep
      · rw [hr] at hstep
        cases hstep
        exact ih (h.handled hr).2
      · rw [hr] at hstep
        exact nomatch hstep
      · rw [hr] at hstep
        exact nomatch hstep

end

/-- **When a session uses its identity only after it has one.** Whatever the peer sends: if and
only if nothing of it is ever read. -/
theorem usesIdentity_run_iff (K : Codec) (asserts dbConnected : Bool) (db : Database)
    (nextID : Int32) (as : List Action) :
    Meets (step K asserts) (UsesIdentity K asserts) (opened dbConnected db nextID) as ↔
      Meets (step K asserts) NoRead (opened dbConnected db nextID) as := by
  have hunread := unread_opened dbConnected db nextID
  constructor
  · intro h
    exact Meets.of_invariant (fun s a s' hs hgood hstep => hs.step (hs.noRead hgood) hstep)
      (fun s a hs hgood => hs.noRead hgood) hunread h
  · intro h
    exact Meets.of_invariant (fun s a s' hs hread hstep => hs.step hread hstep)
      (fun s a hs hread => hs.usesIdentity hread) hunread h

/-- A peer that disconnects at once. -/
theorem not_usesIdentity_eof :
    ¬Meets (step Sample.codec true) (UsesIdentity Sample.codec true)
      (opened false Sample.database 0) [.read Sample.surroundings .eof] := by
  intro h
  exact (unread_opened false Sample.database 0).noRead h.1

end Connection
end ClientService
