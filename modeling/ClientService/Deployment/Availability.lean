import ClientService.Deployment.Handshake
import ClientService.Lib.Sums
import ClientService.Server.Availability

/-!
# The server keeps running

A `CONNECT` of a machine that has a row and is not in the map ends the server's process, and so
does a machine whose version has changed, an exception of the database, a record id that does not
fit an `int`, a package without events, a reconnect whose attempts throw twice, and a package or
queued work of a session without a client. When the clients and the database keep away from all
but the last, the last does not occur, and the handlers, the queued work and the signals leave
the process running until its loop is stopped.

## Main definitions

* `Regular` — the condition on the steps.
* `Hosting`, `Available` — the invariant.
-/

namespace ClientService

/-- The `CONNECT`s of a client process that the server has not read. -/
def Peer.hellos (p : Peer) : ℕ := p.up.countP fun m => m.package = .connect

/-! ## Client processes -/

namespace Peer

section
variable {p : Peer}

theorem hellos_start (g : Process) : (start g).hellos = 1 := rfl

theorem hellos_stop (n : ℕ) : (p.stop n).hellos ≤ p.hellos := (List.take_sublist n p.up).countP_le

/-- Every other package does not count. -/
theorem hellos_send {package : Int32 → CoreMessage × Int32}
    (h : ∀ id, (package id).1.package ≠ .connect) : (p.send package).hellos = p.hellos := by
  simp [hellos, send, h]

/-- A process that handles a package sends no second `CONNECT`. -/
theorem receive_hellos (asserts : Bool) (host : Process) (ts : String) (m : CoreMessage) :
    (p.receive asserts host ts m).process = p.process ∧
      (p.receive asserts host ts m).hellos ≤ p.hellos := by
  rw [receive]
  rcases transmit asserts host ts m p.nextID with ⟨_ | msg, id⟩ | _ | _
  · exact ⟨rfl, le_refl _⟩
  · simp only [readCB]
    cases msg.package with
    | connect =>
        refine ⟨rfl, le_of_eq ?_⟩
        exact hellos_send (p := { p with nextID := id, delivered := p.delivered + 1 })
          fun id => by simp [CoreMessage.queryLastEventPackage]
    | _ => exact ⟨rfl, le_refl _⟩
  · exact ⟨rfl, hellos_stop _⟩
  · exact ⟨rfl, hellos_stop _⟩

end
end Peer

/-- What a package tells of its sender. -/
theorem transmit_sender {asserts : Bool} {g : Process} {ts : String} {m msg : CoreMessage}
    {id id' : Int32} (h : transmit asserts g ts m id = .ret (some msg, id')) :
    msg.osVersion = g.myOsVersion ∧ msg.osType = .osWindows := by
  rw [transmit] at h
  by_cases hrefuse : ∀ r, m.package ≠ .refuse r
  · obtain ⟨m', id₁, hbuild, _, hfields⟩ := CoreMessage.buildObj_toProto asserts g ts hrefuse id
    rw [hbuild] at h
    cases h
    exact ⟨hfields.osVersion, hfields.osType⟩
  · rw [← CoreMessage.buildable_toProto_iff g ts] at hrefuse
    rw [CoreMessage.buildObj_of_not_buildable asserts hrefuse] at h
    cases asserts <;> cases h

namespace Deployment

open Database (Admits Registered Versioned)

/-- The `CONNECT`s of a machine that the server has not read. -/
def hellos (s : Deployment) (M : String) : ℕ :=
  (s.peers.map fun p => if p.machine = M then p.hellos else 0).sum

/-- The largest value of an `int`. -/
def intMax : ℕ := 2147483647

/-- No insertion is under way. -/
def AtRest (s : Deployment) : Prop := ∀ job ∈ s.service.jobs, job.inserted = true

/-- The package that the server reads next from peer `i` has events, if it is for events. -/
def Eventful (s : Deployment) (i : ℕ) : Prop :=
  ∀ p ∈ s.peers[i]?, ∀ m ∈ p.up.head?, m.batch ≠ some []

/-- The package that peer `i` handles next is not a refusal. -/
def Welcoming (s : Deployment) (i : ℕ) : Prop :=
  ∀ p ∈ s.peers[i]?, ∀ m ∈ (s.service.sent i)[p.delivered]?, m.package.op ≠ .refuse

/-- Steps that keep the server running. Each machine keeps its version, and one that the server
does not know connects only if it has no row and no `CONNECT` under way; record ids fit an `int`,
and packages for events have some. The database does not fail by itself and is there when it is
needed, a reconnect does not throw twice, and the database does one thing at a time. No
connection ends, neither by itself nor because a client is refused. -/
def Regular (versions : String → String) (s : Deployment) : Action → Prop
  | .record _ r => r.Legible ∧ r.rid ≤ intMax
  | .connect g => g.myOsVersion = versions g.myMachineID ∧
      (g.myMachineID ∈ s.service.db._clients ∨
        s.service.db.Vacant g.myMachineID ∧ s.hellos g.myMachineID = 0)
  | .deliver i _ => s.Welcoming i
  | .disconnect _ _ => False
  | .read i _ _ => s.service.db.faults = [] ∧
      (∀ r ∈ s.service.db.tables.client, r.clientID ≠ s.service.db.nextClientID) ∧
      s.Eventful i ∧ (s.service.dbConnected = false → s.service.isOpen = true ∧ s.AtRest)
  | .insert _ => s.service.db.faults = [] ∧ s.service.isOpen = true
  | .lose => s.AtRest
  | .sigpipe outcome => s.service.db.faults = [] ∧
      (s.service.isOpen = false → s.AtRest ∧ Service.reconnect outcome ≠ .dies)
  | _ => True

instance (s : Deployment) : Decidable s.AtRest := inferInstanceAs (Decidable (∀ _ ∈ _, _))

instance (s : Deployment) (i : ℕ) : Decidable (s.Eventful i) :=
  inferInstanceAs (Decidable (∀ _ ∈ _, ∀ _ ∈ _, _))

instance (s : Deployment) (i : ℕ) : Decidable (s.Welcoming i) :=
  inferInstanceAs (Decidable (∀ _ ∈ _, ∀ _ ∈ _, _))

instance (versions : String → String) : ∀ (s : Deployment) (a : Action),
    Decidable (Regular versions s a)
  | _, .record _ r => inferInstanceAs (Decidable (r.Legible ∧ r.rid ≤ intMax))
  | s, .connect g => inferInstanceAs (Decidable (g.myOsVersion = versions g.myMachineID ∧
      (g.myMachineID ∈ s.service.db._clients ∨
        s.service.db.Vacant g.myMachineID ∧ s.hellos g.myMachineID = 0)))
  | s, .deliver i _ => inferInstanceAs (Decidable (s.Welcoming i))
  | _, .disconnect _ _ => inferInstanceAs (Decidable False)
  | s, .read i _ _ => inferInstanceAs (Decidable (s.service.db.faults = [] ∧
      (∀ r ∈ s.service.db.tables.client, r.clientID ≠ s.service.db.nextClientID) ∧
      s.Eventful i ∧ (s.service.dbConnected = false → s.service.isOpen = true ∧ s.AtRest)))
  | s, .insert _ => inferInstanceAs (Decidable (s.service.db.faults = [] ∧ s.service.isOpen = true))
  | s, .lose => inferInstanceAs (Decidable s.AtRest)
  | s, .sigpipe outcome => inferInstanceAs (Decidable (s.service.db.faults = [] ∧
      (s.service.isOpen = false → s.AtRest ∧ Service.reconnect outcome ≠ .dies)))
  | _, .thread _ _ | _, .halt _ | _, .reply _ | _, .stop => inferInstanceAs (Decidable True)

/-- A machine is known, or at most one `CONNECT` of it is under way and it has no row. -/
def Expected (db : Database) (M : String) (n : ℕ) : Prop :=
  M ∈ db._clients ∨ n = 0 ∨ n = 1 ∧ db.Vacant M

/-- What the clients and the database keep to. -/
structure Hosting (versions : String → String) (s : Deployment) : Prop where
  versioned : s.service.db.Versioned versions
  processes : ∀ p ∈ s.peers, p.process.myOsVersion = versions p.machine
  hellos : ∀ M, Expected s.service.db M (s.hellos M)

section
variable {versions : String → String} {s : Deployment} {i : ℕ} {p p' : Peer} {M : String}

theorem Expected.mono {db : Database} {n n' : ℕ} (h : Expected db M n) (hle : n' ≤ n) :
    Expected db M n' := by
  rcases h with h | h | ⟨h, hvacant⟩
  · exact Or.inl h
  · exact Or.inr (Or.inl (by omega))
  · by_cases hn : n' = 0
    · exact Or.inr (Or.inl hn)
    · exact Or.inr (Or.inr ⟨by omega, hvacant⟩)

theorem Expected.admits {db db' : Database} {new : String → Prop} {n : ℕ} (h : Expected db M n)
    (hadmits : Admits versions new db db') (hnew : ¬new M) : Expected db' M n :=
  h.imp (hadmits.known M) (Or.imp_right (And.imp_right (hadmits.vacant M hnew)))

/-! ## The clients -/

theorem hellos_setPeer (hp : s.peers[i]? = some p) (hmachine : p'.machine = p.machine) :
    (s.setPeer i p').hellos M + (if p.machine = M then p.hellos else 0) =
      s.hellos M + if p.machine = M then p'.hellos else 0 := by
  have hset := Sums.sum_map_set hp p' fun p => if p.machine = M then p.hellos else 0
  rwa [hmachine] at hset

theorem Hosting.setPeer (h : Hosting versions s) (hp : s.peers[i]? = some p)
    (hprocess : p'.process = p.process) (hhellos : p'.hellos ≤ p.hellos) :
    Hosting versions (s.setPeer i p') where
  versioned := h.versioned
  processes := by
    intro q hq
    rcases List.mem_or_eq_of_mem_set hq with hq | rfl
    · exact h.processes q hq
    · have hold := h.processes p (List.mem_of_getElem? hp)
      rwa [Peer.machine, hprocess]
  hellos := by
    intro M
    refine (h.hellos M).mono ?_
    have hset := hellos_setPeer (M := M) hp (congrArg Process.myMachineID hprocess)
    by_cases hM : p.machine = M
    · simp only [if_pos hM] at hset
      omega
    · simp only [if_neg hM] at hset
      omega

theorem Hosting.record (h : Hosting versions s) (M : String) (r : Record) :
    Hosting versions (s.addRecord M r) := by
  have hsignal : ∀ p : Peer, (p.signal M).process = p.process ∧ (p.signal M).up = p.up := by
    intro p
    rw [Peer.signal]
    split_ifs <;> exact ⟨rfl, rfl⟩
  refine ⟨h.versioned, ?_, fun M' => ?_⟩
  · intro p' hp'
    obtain ⟨p, hp, rfl⟩ := List.mem_map.mp hp'
    simpa [Peer.machine, hsignal] using h.processes p hp
  · have hsame : (s.addRecord M r).hellos M' = s.hellos M' := by
      rw [Deployment.hellos, addRecord, List.map_map]
      refine congrArg List.sum (List.map_congr_left fun p _ => ?_)
      have hmachine : (p.signal M).machine = p.machine :=
        congrArg Process.myMachineID (hsignal p).1
      have hhellos : (p.signal M).hellos = p.hellos := by simp only [Peer.hellos, (hsignal p).2]
      simp only [Function.comp_apply, hmachine, hhellos]
    rw [hsame]
    exact h.hellos M'

theorem Hosting.connect (h : Hosting versions s) {g : Process}
    (hversion : g.myOsVersion = versions g.myMachineID)
    (hwelcome : g.myMachineID ∈ s.service.db._clients ∨
      s.service.db.Vacant g.myMachineID ∧ s.hellos g.myMachineID = 0) :
    Hosting versions (s.connected g) where
  versioned := h.versioned
  processes := List.forall_mem_append.mpr ⟨h.processes, List.forall_mem_singleton.mpr hversion⟩
  hellos := by
    intro M
    have hsum : (s.connected g).hellos M =
        s.hellos M + if g.myMachineID = M then 1 else 0 := by
      rw [Deployment.hellos, connected, List.map_append, List.sum_append, List.map_singleton,
        List.sum_singleton, Peer.hellos_start]
      rfl
    rw [hsum]
    by_cases hM : g.myMachineID = M
    · subst hM
      rcases hwelcome with hknown | ⟨hvacant, hnone⟩
      · exact Or.inl hknown
      · exact Or.inr (Or.inr ⟨by simp [hnone], hvacant⟩)
    · rw [if_neg hM]
      exact h.hellos M

/-! ## The server -/

theorem Hosting.serve (h : Hosting versions s) {t : Service}
    (hadmits : Admits versions (fun _ => False) s.service.db t.db) :
    Hosting versions { s with service := t } where
  versioned := hadmits.versioned
  processes := h.processes
  hellos := fun M => (h.hellos M).admits hadmits id

/-- The server reads a package; a `CONNECT` does not count any more. -/
theorem Hosting.read (h : Hosting versions s) (hp : s.peers[i]? = some p) {m ret : CoreMessage}
    {up : List CoreMessage} (hup : p.up = m :: up)
    (hret : ret.package = CoreMessage.arriving m.package) (hmachine : ret.machineID = p.machine)
    {t : Service} (hadmits : Admits versions
      (fun M => ret.package = .connect ∧ M = ret.machineID) s.service.db t.db) :
    Hosting versions { s.setPeer i { p with up := up } with service := t } := by
  have hconnect : ret.package = .connect ↔ m.package = .connect := by
    rw [hret]
    cases m.package <;> simp [CoreMessage.arriving]
  have hcount : p.hellos = ({ p with up := up } : Peer).hellos +
      if m.package = .connect then 1 else 0 := by
    simp [Peer.hellos, hup, List.countP_cons]
  have hset : Hosting versions (s.setPeer i { p with up := up }) :=
    h.setPeer hp rfl (by omega)
  refine ⟨hadmits.versioned, hset.processes, fun M => ?_⟩
  by_cases hnew : ret.package = .connect ∧ M = ret.machineID
  · have hM : p.machine = M := (hnew.2.trans hmachine).symm
    have hsum : (s.setPeer i { p with up := up }).hellos M +
        (if p.machine = M then p.hellos else 0) =
          s.hellos M + if p.machine = M then ({ p with up := up } : Peer).hellos else 0 :=
      hellos_setPeer hp rfl
    simp only [if_pos hM, hcount, if_pos (hconnect.mp hnew.1)] at hsum
    rcases h.hellos M with hknown | hnone | ⟨hone, _⟩
    · exact Or.inl (hadmits.known M hknown)
    · change Expected t.db M ((s.setPeer i { p with up := up }).hellos M)
      omega
    · refine Or.inr (Or.inl ?_)
      change (s.setPeer i { p with up := up }).hellos M = 0
      omega
  · exact (hset.hellos M).admits hadmits hnew

/-! ## The invariant -/

/-- The server can handle whatever comes next. -/
structure Available (versions : String → String) (s : Deployment) : Prop where
  wellFormed : WellFormed s
  handshaken : Handshaken s
  hosting : Hosting versions s
  /-- Record ids fit an `int`. -/
  fits : ∀ M, Upload.Every (· ≤ intMax) (s.upload M)

theorem le_hellos (hp : s.peers[i]? = some p) : p.hellos ≤ s.hellos p.machine := by
  refine List.le_sum_of_mem (List.mem_map.mpr ⟨p, List.mem_of_getElem? hp, ?_⟩)
  rw [if_pos rfl]

/-- A machine whose `CONNECT` is read is known, or has no row. -/
theorem Hosting.known_or_vacant (h : Hosting versions s) (hp : s.peers[i]? = some p)
    {m : CoreMessage} (hup : p.up.head? = some m) (hm : m.package = .connect) :
    p.machine ∈ s.service.db._clients ∨ s.service.db.Vacant p.machine := by
  have hpos : 0 < p.hellos := List.countP_pos_iff.mpr ⟨m, List.mem_of_head? hup, by simpa⟩
  have hle := le_hellos hp
  rcases h.hellos p.machine with hknown | hnone | ⟨_, hvacant⟩
  · exact Or.inl hknown
  · omega
  · exact Or.inr hvacant

/-- The client of a session can be asked for its last event. -/
theorem Available.queryable (h : Available versions s) (hfaults : s.service.db.faults = [])
    (hp : s.peers[i]? = some p) {c : DbClient} (hc : (s.service.sessions i)._client = some c) :
    Database.Queryable c s.service.db := by
  refine h.hosting.versioned.queryable hfaults ?_
  rw [← h.wellFormed.registered.storedFor_eq (h.wellFormed.owner i p hp c hc)]
  exact (h.fits p.machine).stored

/-- A package that a client has sent does not end the process. -/
theorem Available.read (h : Available versions s) (hp : s.peers[i]? = some p)
    {m ret : CoreMessage} {up : List CoreMessage} (hup : p.up = m :: up) {asserts : Bool}
    {ts : String} {id : Int32}
    (hret : transmit asserts p.process ts m s.service.nextID = .ret (some ret, id))
    (hfaults : s.service.db.faults = [])
    (hfresh : ∀ r ∈ s.service.db.tables.client, r.clientID ≠ s.service.db.nextClientID)
    (heventful : s.Eventful i) (env : Surroundings) {t : Service}
    (ht : t = (Service.serve { s.service with nextID := id } i
      (Client.readFromNetwork env ret)).2) :
    Hosting versions { s.setPeer i { p with up := up } with service := t } ∧
      t.ended = s.service.ended := by
  obtain ⟨hpackage, hmachine⟩ := transmit_some hret
  obtain ⟨hosVersion, hosType⟩ := transmit_sender hret
  have hversion : ret.osVersion = versions ret.machineID := by
    rw [hosVersion, hmachine]
    exact h.hosting.processes p (List.mem_of_getElem? hp)
  have hlog : ∀ needAccept, ret.package ≠ .log [] needAccept := by
    intro needAccept hlog
    have hbatch : ret.batch = m.batch := batch_of_arriving hpackage
    refine heventful p hp m (by rw [hup]; rfl) ?_
    rw [← hbatch, CoreMessage.batch, hlog]
    rfl
  have hconnect : ret.package = .connect → Database.Connectable ret s.service.db := by
    intro hconnect
    have hm : m.package = .connect := by
      rw [hpackage] at hconnect
      cases hm : m.package <;> simp [hm, CoreMessage.arriving] at hconnect ⊢
    have hknown := h.hosting.known_or_vacant hp (by rw [hup]; rfl) hm
    rw [Peer.machine, ← hmachine] at hknown
    exact h.hosting.versioned.connectable hfaults hversion hosType hfresh hknown
  have hquery : ret.package = .queryLastEvent →
      ∃ c, (s.service.sessions i)._client = some c ∧ Database.Queryable c s.service.db := by
    intro hquery
    rcases h.handshaken.peers i p hp with hclient | ⟨hgreets, _⟩
    · obtain ⟨c, hc⟩ := Option.isSome_iff_exists.mp hclient
      exact ⟨c, hc, h.queryable hfaults hp hc⟩
    · have hm := hgreets.up m (hup ▸ List.mem_cons_self)
      simp [hpackage, hm, CoreMessage.arriving] at hquery
  obtain ⟨hended, hadmits⟩ := Service.runs_read (s := { s.service with nextID := id })
    h.hosting.versioned env hversion hlog hconnect hquery
  rw [← ht] at hended hadmits
  exact ⟨h.hosting.read hp hup hpackage hmachine hadmits, hended⟩

/-- Every step but `stop` leaves the process running. -/
theorem Available.hosting_step (h : Available versions s) {asserts : Bool} {a : Action}
    (hregular : Regular versions s a) (hstep : s.step asserts a = some s') :
    Hosting versions s' ∧ (a ≠ .stop → s'.service.ended = false) := by
  obtain ⟨hended, hstepped⟩ := step_spec hstep
  have hrefl : Admits versions (fun _ => False) s.service.db s.service.db :=
    h.hosting.versioned.admits_of_eq rfl rfl rfl _
  cases hstepped with
  | record M r => exact ⟨h.hosting.record M r, fun _ => hended⟩
  | connect hidle => exact ⟨h.hosting.connect hregular.1 hregular.2, fun _ => hended⟩
  | thread hp hlive hthread => exact ⟨h.hosting.setPeer hp rfl le_rfl, fun _ => hended⟩
  | @send i p t handler evts ac hp hlive hthread =>
      have hhellos : (({ p with handler := handler } : Peer).send
          (CoreMessage.logPackage evts ac)).hellos = p.hellos :=
        Peer.hellos_send fun id => by simp [CoreMessage.logPackage]
      have hset : Hosting versions (s.setPeer i (({ p with handler := handler } : Peer).send
          (CoreMessage.logPackage evts ac))) := h.hosting.setPeer hp rfl (le_of_eq hhellos)
      exact ⟨⟨hset.versioned, hset.processes, hset.hellos⟩, fun _ => hended⟩
  | @deliver i p m ts hp hlive hm =>
      obtain ⟨hprocess, hhellos⟩ := Peer.receive_hellos (p := p) asserts s.host ts m
      exact ⟨h.hosting.setPeer hp hprocess hhellos, fun _ => hended⟩
  | halt hp hlive => exact ⟨h.hosting.setPeer hp rfl le_rfl, fun _ => hended⟩
  | disconnect n hp hlive => exact absurd hregular id
  | read env hp hup hret =>
      obtain ⟨hfaults, hfresh, heventful, _⟩ := hregular
      obtain ⟨hhosting, hsame⟩ := h.read hp hup hret hfaults hfresh heventful env rfl
      exact ⟨hhosting, fun _ => hsame.trans hended⟩
  | @insert j job hj hinserted =>
      obtain ⟨_, _, hclient⟩ := h.handshaken.of_job (List.mem_of_getElem? hj)
      obtain ⟨hsame, hadmits⟩ :=
        Service.runs_insert h.hosting.versioned hregular.1 j hclient fun _ => False
      exact ⟨h.hosting.serve hadmits, fun _ => hsame.trans hended⟩
  | @reply j job hj hinserted =>
      obtain ⟨_, hdb, hsame, _⟩ := Service.replied s.service j job ""
      refine ⟨h.hosting.serve ?_, fun _ => hsame.trans hended⟩
      rwa [hdb]
  | lose => exact ⟨h.hosting.serve hrefl, fun _ => hended⟩
  | sigpipe outcome =>
      obtain ⟨hsame, hadmits⟩ := Service.runs_sigpipe h.hosting.versioned hregular.1
        h.wellFormed.registered asserts (fun hopen => (hregular.2 hopen).2) fun _ => False
      exact ⟨h.hosting.serve hadmits, fun _ => hsame.trans hended⟩
  | stop => exact ⟨h.hosting.serve hrefl, fun hne => absurd rfl hne⟩

/-- Only a signal that finds no database stops the loop. -/
theorem stopping_step {asserts : Bool} {a : Action} (hstep : s.step asserts a = some s')
    (hstopping : s'.service.stopping = true) :
    s.service.stopping = true ∨ ∃ outcome, a = .sigpipe outcome ∧
      Service.reconnect outcome = .fails := by
  cases (step_spec hstep).2 with
  | read env hp hup hret =>
      left
      simpa using hstopping
  | @insert j job hj hinserted =>
      left
      rw [← Service.insert_stopping s.service j job]
      exact hstopping
  | @reply j job hj hinserted =>
      left
      simpa [Service.reply] using hstopping
  | sigpipe outcome =>
      by_cases hfails : Service.reconnect outcome = .fails
      · exact Or.inr ⟨outcome, rfl, hfails⟩
      · left
        rw [← Service.sigpipeHandler_stopping asserts hfails s.service]
        exact hstopping
  | _ => exact Or.inl hstopping

/-- The loop ends only when it has been stopped. -/
theorem stopping_of_stop {asserts : Bool} (hstep : s.step asserts .stop = some s') :
    s.service.stopping = true := by
  have hended := (step_spec hstep).1
  simp only [Deployment.step, hended, Bool.false_eq_true, if_false] at hstep
  obtain ⟨t, ht, _⟩ := serve_spec hstep
  cases ht with
  | stop hstopping => exact hstopping

theorem Regular.readable {a : Action} (h : Regular versions s a) : Readable a := by
  cases a with
  | record M r => exact h.1
  | _ => trivial

/-- **Every regular step keeps the server available.** -/
theorem Available.step (h : Available versions s) {asserts : Bool} {a : Action}
    (hregular : Regular versions s a) (hstep : s.step asserts a = some s') :
    Available versions s' := by
  obtain ⟨hwell, hsees⟩ := simulates h.wellFormed hregular.readable hstep
  refine ⟨hwell, h.handshaken.step hstep, (h.hosting_step hregular hstep).1, fun M => ?_⟩
  obtain ⟨b, hb, hseen⟩ := hsees M
  refine (h.fits M).step (fun e he => ?_) hb
  cases hseen with
  | record r =>
      cases he
      exact hregular.2
  | _ => simp at he

end

/-! ## Runs -/

open Database (storedFor)
open Sample (deployment logged connecting reading resuming uploading)
open Transition (run Meets history)

section
variable {versions : String → String} {asserts flag : Bool} {db : Database} {nextID : Int32}
  {host : Process} {logs : String → List Record} {as : List Action} {s' : Deployment}

theorem available_start (hdb : Registered db) (hversioned : Versioned versions db)
    (hlogs : ∀ M, ∀ r ∈ logs M, r.Legible ∧ r.rid ≤ intMax)
    (hstored : ∀ M, ∀ n ∈ storedFor db.tables M, n ≤ intMax) :
    Available versions (start flag db nextID host logs) where
  wellFormed := wellFormed_start hdb fun M r hr => (hlogs M r hr).1
  handshaken := handshaken_start
  hosting := by
    refine ⟨hversioned, fun p hp => ?_, fun M => Or.inr (Or.inl rfl)⟩
    simp [start] at hp
  fits := by
    intro M
    refine ⟨fun n hn => ?_, hstored M, fun i n hn => ?_⟩
    · obtain ⟨r, hr, rfl⟩ := List.mem_map.mp hn
      exact (hlogs M r hr).2
    · have hlink : ((start flag db nextID host logs).upload M).links i = {} := rfl
      simp [hlink, Upload.Link.held] at hn

/-- A signal comes for which no attempt to connect succeeds. -/
def Stranded (as : List Action) : Prop :=
  ∃ outcome, .sigpipe outcome ∈ as ∧ Service.reconnect outcome = .fails

theorem Stranded.concat (h : Stranded as) (a : Action) : Stranded (as ++ [a]) := by
  obtain ⟨outcome, hmem, hfails⟩ := h
  exact ⟨outcome, List.mem_append_left _ hmem, hfails⟩

/-- **The server runs until it cannot reach its database.** When the clients and the database keep
to `Regular`, no order of packages, queued work, lost connections and signals ends the process,
except that its loop is stopped after a signal when no attempt to connect succeeds. -/
theorem stays_up (hdb : Registered db) (hversioned : Versioned versions db)
    (hlogs : ∀ M, ∀ r ∈ logs M, r.Legible ∧ r.rid ≤ intMax)
    (hstored : ∀ M, ∀ n ∈ storedFor db.tables M, n ≤ intMax)
    (hregular : Meets (step asserts) (Regular versions) (start flag db nextID host logs) as)
    (hrun : run (step asserts) (start flag db nextID host logs) as = some s')
    (hended : s'.service.ended = true) : ∃ bs, as = bs ++ [.stop] ∧ Stranded bs := by
  let P (as : List Action) (s : Deployment) : Prop :=
    Available versions s ∧ (s.service.stopping = true → Stranded as) ∧
      (s.service.ended = true → ∃ bs, as = bs ++ [.stop] ∧ Stranded bs)
  have hhistory : P as s' := by
    refine history ?_ ?_ hregular hrun
    · refine ⟨available_start hdb hversioned hlogs hstored, ?_, ?_⟩ <;> simp [start, Service.start]
    · rintro as s a s₁ ⟨havailable, hstopping, _⟩ hgood hstep
      have hsignalled : s₁.service.stopping = true → Stranded (as ++ [a]) := by
        intro hstopped
        rcases stopping_step hstep hstopped with hbefore | ⟨outcome, rfl, hfails⟩
        · exact (hstopping hbefore).concat a
        · exact ⟨outcome, by simp, hfails⟩
      refine ⟨havailable.step hgood hstep, hsignalled, fun hended => ?_⟩
      have hruns := (havailable.hosting_step hgood hstep).2
      by_cases hstop : a = .stop
      · subst hstop
        exact ⟨as, rfl, hstopping (stopping_of_stop hstep)⟩
      · simp [hruns hstop] at hended
  exact hhistory.2.2 hended

end

theorem versioned_deployment :
    Versioned (fun _ => "10.0") (Database.getAllClients Sample.database).2 := by
  have hdb : Versioned (fun _ => "10.0") Sample.database :=
    ⟨Schema.complete_statementSchema, by decide, fun _ _ h => nomatch h⟩
  obtain ⟨db', hget, htables, hschema, hclients⟩ :=
    Database.getAllClients_of_calm rfl Sample.registered_database
  rw [hget]
  exact (hdb.load Sample.registered_database htables hschema hclients fun _ => False).versioned

/-- A client uploads, and the database is lost and found again; then it is gone for good, and the
loop is stopped. -/
def abandoned : List Action :=
  connecting 0 ++ reading 0 :: resuming 0 ++ uploading 0 ++
    [.insert 0, .reply 0, .lose, .sigpipe fun i => if i = 0 then .throws else .opens] ++
    [.lose, .sigpipe fun _ => .closed, .stop]

theorem stays_up_abandoned :
    ∃ s', run (step false) (deployment [logged "4" "1" 1]) abandoned = some s' ∧
      s'.service.ended = true ∧ ∃ bs, abandoned = bs ++ [.stop] ∧ Stranded bs := by
  have hsome : (run (step false) (deployment [logged "4" "1" 1]) abandoned).isSome = true := by
    decide +kernel
  have hlast : ∀ s' ∈ run (step false) (deployment [logged "4" "1" 1]) abandoned,
      s'.service.ended = true := by decide +kernel
  obtain ⟨s', hrun⟩ := Option.isSome_iff_exists.mp hsome
  have hlogs : ∀ M : String, ∀ r ∈ (if M = "m-1" then [logged "4" "1" 1] else []),
      r.Legible ∧ r.rid ≤ intMax := by
    intro M r hr
    by_cases hM : M = "m-1"
    · rw [if_pos hM, List.mem_singleton] at hr
      subst hr
      exact ⟨by decide +kernel, by decide⟩
    · simp [hM] at hr
  have hregular : Meets (step false) (Regular fun _ => "10.0")
      (deployment [logged "4" "1" 1]) abandoned := by decide +kernel
  have hstored : ∀ M, ∀ n ∈ storedFor (Database.getAllClients Sample.database).2.tables M,
      n ≤ intMax := fun _ _ hn => nomatch hn
  have hended := hlast s' hrun
  exact ⟨s', hrun, hended, stays_up registered_deployment versioned_deployment hlogs hstored
    hregular hrun hended⟩

end Deployment
end ClientService
