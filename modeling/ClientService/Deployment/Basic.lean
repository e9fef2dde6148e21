import ClientService.Server.Service
import ClientService.Service.Handler

/-!
# The clients and the server

The whole system: the server process, the logs of the machines, and the client processes with
their connections. A client process connects once; a client that is restarted is a new process
with a new connection. Connections are numbered as the server accepts them, so that session `i`
of the server belongs to peer `i`.

A package is written by `toProto` at its sender and built by `BuildObj` at its receiver. When a
connection breaks, what has arrived by then can still be read by the server.

## Main definitions

* `Record` — an entry of a machine's log.
* `Peer`, `Deployment` — a client process with its connection, and the whole.
* `Deployment.step` — what may happen.
-/

namespace ClientService

/-- A record of a machine's log, with the id that the machine gave to it. -/
structure Record where
  rid : ℕ
  handle : Handle
  deriving DecidableEq, Repr

/-- When the record is rendered, `ParseEventXml` finds its id. -/
def Record.Legible (r : Record) : Prop :=
  ∀ x ∈ r.handle.printed, ∃ text ∈ (x.system.bind SystemElement.eventRecordID).join,
    (atoi text).toUInt32.toNat = r.rid

instance (r : Record) : Decidable r.Legible := by
  unfold Record.Legible
  infer_instance

/-- The id does not depend on what the variable of the loop held before. -/
theorem Record.Legible.rid_parsed {r : Record} (h : r.Legible) {x : EventXml}
    (hx : r.handle.printed = some x) (e : Event) : (e.parsed x).rid.toNat = r.rid := by
  obtain ⟨text, htext, hrid⟩ := h x hx
  obtain ⟨system, hsystem, hid⟩ := Option.bind_eq_some_iff.mp (Option.join_eq_some_iff.mp htext)
  rw [Event.parsed_of_system hsystem, Event.fill, hid]
  exact hrid

/-- The record ids of events. -/
def rids (evts : List Event) : List ℕ := evts.map fun evt => evt.rid.toNat

/-- A package as it arrives. `ts` is what `getTimeStamp` writes at the sender `g`, and `id` is
the counter of the receiver. -/
def transmit (asserts : Bool) (g : Process) (ts : String) (m : CoreMessage) (id : Int32) :
    Outcome (Option CoreMessage × Int32) :=
  CoreMessage.buildObj asserts (m.toProto g ts).2 id

/-- A client process and its connection. -/
structure Peer where
  process : Process
  live : Bool := true
  handler : EventForwardHandler := {}
  /-- The counter of `nextID`. -/
  nextID : Int32 := 0
  /-- Packages on their way to the server. -/
  up : List CoreMessage := []
  /-- The number of packages from the server that have been handled. -/
  delivered : ℕ := 0
  /-- The resume point that resumed the thread. -/
  resumed : Option ℕ := none

namespace Peer

/-- `_myMachineID`. -/
def machine (p : Peer) : String := p.process.myMachineID

/-- Construct a package that draws an id, and send it. -/
def send (p : Peer) (package : Int32 → CoreMessage × Int32) : Peer :=
  { p with nextID := (package p.nextID).2, up := p.up ++ [(package p.nextID).1] }

/-- A client process after `uvNetworkConnectCB`. -/
def start (g : Process) : Peer := ({ process := g } : Peer).send CoreMessage.connectPackage

/-- `uvNetworkReadCB`, once the decoder has yielded a message. -/
def readCB (p : Peer) (msg : CoreMessage) : Peer :=
  match msg.package with
  | .connect => p.send CoreMessage.queryLastEventPackage
  | .returnLastEvent lid =>
      { p with
        handler := p.handler.getProtobufPackage (.returnLastEvent lid)
        resumed := if p.handler.lastEventIDUploaded = 0 then some lid.toNat else p.resumed }
  | package => { p with handler := p.handler.getProtobufPackage package }

/-- Windows sets the event of the subscription when machine `M` has a new record. -/
def signal (M : String) (p : Peer) : Peer :=
  if p.machine = M then { p with handler := p.handler.setEvent .subscribe } else p

/-- `SetEvent` of the event that stops the thread. -/
def halt (p : Peer) : Peer := { p with handler := { p.handler with stop := true } }

/-- The process ends, or its connection breaks: `n` of the packages on their way arrive. -/
def stop (p : Peer) (n : ℕ) : Peer :=
  { p with live := false, handler := { p.handler with pc := .exited }, up := p.up.take n }

/-- The next package of the server arrives. A failing assertion ends the process. -/
def receive (asserts : Bool) (host : Process) (ts : String) (m : CoreMessage) (p : Peer) : Peer :=
  match transmit asserts host ts m p.nextID with
  | .ret (some msg, id) =>
      ({ p with nextID := id, delivered := p.delivered + 1 } : Peer).readCB msg
  | .ret (none, id) => { p with nextID := id, delivered := p.delivered + 1 }
  | _ => p.stop p.up.length

end Peer

structure Deployment where
  service : Service
  /-- The server's process. -/
  host : Process
  /-- The log of each machine, from the oldest record on. -/
  logs : String → List Record
  peers : List Peer
  /-- The ids of the records that each machine has put into packages. -/
  batched : String → List ℕ

namespace Deployment

inductive Action where
  /-- A record is added to the log of a machine. -/
  | record (M : String) (r : Record)
  /-- A client process starts and connects. -/
  | connect (g : Process)
  /-- The forwarding thread of a client. -/
  | thread (i : ℕ) (t : ThreadAction)
  /-- A client handles the next package from the server. -/
  | deliver (i : ℕ) (ts : String)
  /-- The service of a client is stopped. -/
  | halt (i : ℕ)
  /-- A client process ends, also in `EnumerateResults`, or its connection breaks. -/
  | disconnect (i n : ℕ)
  /-- The server handles the next package from a client. -/
  | read (i : ℕ) (env : Surroundings) (ts : String)
  | insert (j : ℕ)
  | reply (j : ℕ)
  | lose
  | sigpipe (outcome : ℕ → Attempt)
  | stop

/-- Replace a peer. -/
def setPeer (s : Deployment) (i : ℕ) (p : Peer) : Deployment :=
  { s with peers := s.peers.set i p }

/-- A record is added to the log of a machine. -/
def addRecord (s : Deployment) (M : String) (r : Record) : Deployment :=
  { s with
    logs := Function.update s.logs M (s.logs M ++ [r])
    peers := s.peers.map (Peer.signal M) }

/-- The handles that the records of a machine are read through. -/
def handles (s : Deployment) (M : String) : List Handle := (s.logs M).map Record.handle

/-- No client process of the machine is running. -/
def Idle (s : Deployment) (M : String) : Prop := ∀ p ∈ s.peers, p.live = true → p.machine ≠ M

instance (s : Deployment) (M : String) : Decidable (s.Idle M) := by
  unfold Idle
  infer_instance

/-- The forwarding thread of a peer takes a step. -/
def runThread (s : Deployment) (i : ℕ) (p : Peer) (t : ThreadAction) : Option Deployment :=
  match p.handler.threadStep (s.handles p.machine) t with
  | some (h, none) => some (s.setPeer i { p with handler := h })
  | some (h, some (evts, ac)) =>
      some { s.setPeer i
          (({ p with handler := h } : Peer).send (CoreMessage.logPackage evts ac)) with
        batched := Function.update s.batched p.machine (s.batched p.machine ++ rids evts) }
  | none => none

/-- The server takes a step by itself. -/
def serve (asserts : Bool) (s : Deployment) (a : Service.Action) : Option Deployment :=
  (s.service.step asserts a).map fun t => { s with service := t }

/-- The server handles the package `m` of a peer. -/
def readPackage (asserts : Bool) (s : Deployment) (i : ℕ) (p : Peer) (m : CoreMessage)
    (env : Surroundings) (ts : String) : Option Deployment :=
  match transmit asserts p.process ts m s.service.nextID with
  | .ret (some ret, id) =>
      (({ s.service with nextID := id } : Service).step asserts (.message i env ret)).map fun t =>
        { s.setPeer i { p with up := p.up.tail } with service := t }
  -- No client sends a package that `BuildObj` does not know.
  | _ => none

/-- What may happen. Nothing does when the server's process has ended. -/
def step (asserts : Bool) (s : Deployment) (a : Action) : Option Deployment :=
  if s.service.ended then none
  else
    match a with
    | .record M r => some (s.addRecord M r)
    | .connect g =>
        if s.Idle g.myMachineID then
          (s.service.step asserts .accept).map fun t =>
            { s with service := t, peers := s.peers ++ [.start g] }
        else none
    | .thread i t =>
        match s.peers[i]? with
        | some p => if p.live then s.runThread i p t else none
        | none => none
    | .deliver i ts =>
        match s.peers[i]? with
        | some p =>
            if p.live then
              match (s.service.sent i)[p.delivered]? with
              | some m => some (s.setPeer i (p.receive asserts s.host ts m))
              | none => none
            else none
        | none => none
    | .halt i =>
        match s.peers[i]? with
        | some p => if p.live then some (s.setPeer i p.halt) else none
        | none => none
    | .disconnect i n =>
        match s.peers[i]? with
        | some p => if p.live then some (s.setPeer i (p.stop n)) else none
        | none => none
    | .read i env ts =>
        match s.peers[i]? with
        | some p =>
            match p.up with
            | m :: _ => s.readPackage asserts i p m env ts
            | [] => none
        | none => none
    | .insert j => s.serve asserts (.insert j)
    | .reply j => s.serve asserts (.reply j)
    | .lose => s.serve asserts .lose
    | .sigpipe outcome => s.serve asserts (.sigpipe outcome)
    | .stop => s.serve asserts .stop

/-- The deployment before any client has connected. -/
def start (flag : Bool) (db : Database) (nextID : Int32) (host : Process)
    (logs : String → List Record) : Deployment where
  service := .start flag db nextID
  host := host
  logs := logs
  peers := []
  batched := fun _ => []

/-! ## Steps -/

/-- What a step does. -/
inductive Stepped (asserts : Bool) (s : Deployment) : Action → Deployment → Prop
  | record (M : String) (r : Record) : Stepped asserts s (.record M r) (s.addRecord M r)
  | connect {g : Process} (hidle : s.Idle g.myMachineID) : Stepped asserts s (.connect g) { s with
      service := { s.service with
        accepted := s.service.accepted + 1
        sessions := Function.update s.service.sessions s.service.accepted { _client := none } }
      peers := s.peers ++ [.start g] }
  | thread {i : ℕ} {p : Peer} {t : ThreadAction} {h : EventForwardHandler}
      (hp : s.peers[i]? = some p) (hlive : p.live = true)
      (hthread : p.handler.threadStep (s.handles p.machine) t = some (h, none)) :
      Stepped asserts s (.thread i t) (s.setPeer i { p with handler := h })
  | send {i : ℕ} {p : Peer} {t : ThreadAction} {h : EventForwardHandler} {evts : List Event}
      {ac : Bool} (hp : s.peers[i]? = some p) (hlive : p.live = true)
      (hthread : p.handler.threadStep (s.handles p.machine) t = some (h, some (evts, ac))) :
      Stepped asserts s (.thread i t)
        { s.setPeer i (({ p with handler := h } : Peer).send (CoreMessage.logPackage evts ac)) with
          batched := Function.update s.batched p.machine (s.batched p.machine ++ rids evts) }
  | deliver {i : ℕ} {p : Peer} {m : CoreMessage} (ts : String) (hp : s.peers[i]? = some p)
      (hlive : p.live = true) (hm : (s.service.sent i)[p.delivered]? = some m) :
      Stepped asserts s (.deliver i ts) (s.setPeer i (p.receive asserts s.host ts m))
  | halt {i : ℕ} {p : Peer} (hp : s.peers[i]? = some p) (hlive : p.live = true) :
      Stepped asserts s (.halt i) (s.setPeer i p.halt)
  | disconnect {i : ℕ} {p : Peer} (n : ℕ) (hp : s.peers[i]? = some p) (hlive : p.live = true) :
      Stepped asserts s (.disconnect i n) (s.setPeer i (p.stop n))
  | read {i : ℕ} {p : Peer} {m ret : CoreMessage} {up : List CoreMessage} {id : Int32}
      (env : Surroundings) {ts : String} (hp : s.peers[i]? = some p) (hup : p.up = m :: up)
      (hret : transmit asserts p.process ts m s.service.nextID = .ret (some ret, id)) :
      Stepped asserts s (.read i env ts) { s.setPeer i { p with up := up } with
        service := (Service.serve { s.service with nextID := id } i
          (Client.readFromNetwork env ret)).2 }
  | insert {j : ℕ} {job : Job} (hj : s.service.jobs[j]? = some job)
      (hinserted : job.inserted = false) :
      Stepped asserts s (.insert j) { s with service := s.service.insert j job }
  | reply {j : ℕ} {job : Job} (hj : s.service.jobs[j]? = some job)
      (hinserted : job.inserted = true) :
      Stepped asserts s (.reply j) { s with service := s.service.reply j job }
  | lose : Stepped asserts s .lose { s with service := { s.service with isOpen := false } }
  | sigpipe (outcome : ℕ → Attempt) : Stepped asserts s (.sigpipe outcome)
      { s with service := s.service.sigpipeHandler asserts outcome }
  | stop : Stepped asserts s .stop { s with service := { s.service with ended := true } }

section
variable {asserts : Bool} {s s' : Deployment}

theorem serve_spec {b : Service.Action} (h : s.serve asserts b = some s') :
    ∃ t, Service.Stepped asserts s.service b t ∧ s' = { s with service := t } := by
  obtain ⟨t, ht, heq⟩ := Option.map_eq_some_iff.mp h
  exact ⟨t, (Service.step_spec ht).2, heq.symm⟩

theorem runThread_spec {i : ℕ} {p : Peer} {t : ThreadAction} (hp : s.peers[i]? = some p)
    (hlive : p.live = true) (h : s.runThread i p t = some s') :
    Stepped asserts s (.thread i t) s' := by
  rw [runThread] at h
  rcases hthread : p.handler.threadStep (s.handles p.machine) t with _ | ⟨handler, _ | ⟨evts, ac⟩⟩
  · rw [hthread] at h
    exact nomatch h
  · rw [hthread] at h
    cases h
    exact .thread hp hlive hthread
  · rw [hthread] at h
    cases h
    exact .send hp hlive hthread

theorem readPackage_spec {i : ℕ} {p : Peer} {m : CoreMessage} {up : List CoreMessage}
    {env : Surroundings} {ts : String} (hp : s.peers[i]? = some p) (hup : p.up = m :: up)
    (h : s.readPackage asserts i p m env ts = some s') : Stepped asserts s (.read i env ts) s' := by
  rw [readPackage] at h
  cases hret : transmit asserts p.process ts m s.service.nextID with
  | ret x =>
      obtain ⟨_ | ret, id⟩ := x
      · simp [hret] at h
      · rw [hret] at h
        obtain ⟨t, ht, rfl⟩ := Option.map_eq_some_iff.mp h
        cases (Service.step_spec ht).2
        rw [hup]
        exact .read env hp hup hret
  | aborted => simp [hret] at h
  | running => simp [hret] at h

theorem step_spec {a : Action} (h : step asserts s a = some s') :
    s.service.ended = false ∧ Stepped asserts s a s' := by
  unfold step at h
  rw [Option.ite_none_left_eq_some] at h
  refine ⟨eq_false_of_ne_true h.1, ?_⟩
  replace h := h.2
  cases a with
  | record M r =>
      cases h
      exact .record M r
  | connect g =>
      obtain ⟨hidle, h⟩ := Option.ite_none_right_eq_some.mp h
      obtain ⟨t, ht, rfl⟩ := Option.map_eq_some_iff.mp h
      cases (Service.step_spec ht).2
      exact .connect hidle
  | thread i t =>
      cases hp : s.peers[i]? with
      | none => simp [hp] at h
      | some p =>
          simp only [hp, Option.ite_none_right_eq_some] at h
          exact runThread_spec hp h.1 h.2
  | deliver i ts =>
      cases hp : s.peers[i]? with
      | none => simp [hp] at h
      | some p =>
          simp only [hp, Option.ite_none_right_eq_some] at h
          cases hm : (s.service.sent i)[p.delivered]? with
          | none => simp [hm] at h
          | some m =>
              simp only [hm, Option.some.injEq] at h
              rw [← h.2]
              exact .deliver ts hp h.1 hm
  | halt i =>
      cases hp : s.peers[i]? with
      | none => simp [hp] at h
      | some p =>
          simp only [hp, Option.ite_none_right_eq_some, Option.some.injEq] at h
          rw [← h.2]
          exact .halt hp h.1
  | disconnect i n =>
      cases hp : s.peers[i]? with
      | none => simp [hp] at h
      | some p =>
          simp only [hp, Option.ite_none_right_eq_some, Option.some.injEq] at h
          rw [← h.2]
          exact .disconnect n hp h.1
  | read i env ts =>
      cases hp : s.peers[i]? with
      | none => simp [hp] at h
      | some p =>
          cases hup : p.up with
          | nil => simp [hp, hup] at h
          | cons m up =>
              simp only [hp, hup] at h
              exact readPackage_spec hp hup h
  | insert j =>
      obtain ⟨t, ht, rfl⟩ := serve_spec h
      cases ht with
      | insert hj hinserted => exact .insert hj hinserted
  | reply j =>
      obtain ⟨t, ht, rfl⟩ := serve_spec h
      cases ht with
      | reply hj hinserted => exact .reply hj hinserted
  | lose =>
      obtain ⟨t, ht, rfl⟩ := serve_spec h
      cases ht
      exact .lose
  | sigpipe outcome =>
      obtain ⟨t, ht, rfl⟩ := serve_spec h
      cases ht
      exact .sigpipe outcome
  | stop =>
      obtain ⟨t, ht, rfl⟩ := serve_spec h
      cases ht
      exact .stop

end
end Deployment
end ClientService
