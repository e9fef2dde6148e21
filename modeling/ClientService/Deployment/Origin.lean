import ClientService.Deployment.Refinement
import ClientService.Service.Journal

/-!
# Where the rows come from

An event is made of a record by `EnumerateResults`, put into a package by the thread of a client,
sent, built again by the server, queued, and written as a row by a worker. All along it stays an
event of a record in the log of the client's machine, and the row it becomes has the id of that
machine's client. A field is what the rendered record says; a field that the record does not have
is not determined.

## Main definitions

* `EventRow.Tells` — a row and a rendered record, field by field.
* `Deployment.Genuine` — the invariant.
-/

namespace ClientService

/-! ## Events of a record -/

/-- `EnumerateResults` makes this event of a handle: `e₀` is what the variable of the loop held
before, and `map` has the providers whose metadata is open. -/
def Handle.Yields (h : Handle) (x : EventXml) (e : Event) : Prop :=
  h.printed = some x ∧ ∃ (e₀ evt : Event) (map : List String),
    parseEventXml e₀ x = some evt ∧ e = (formatEvent evt h map).1

/-- Every event of a batch is made of one of the handles. -/
theorem yields_enumerateResults {P : Event → Prop} {ignore : UInt32} {next : EvtNext}
    (hP : ∀ hs, next = .returned hs → ∀ h ∈ hs, ∀ x e, h.Yields x e → P e)
    {s s' : Enumeration} {count : Int32} (hs₀ : ∀ e ∈ s.sent, P e)
    (hrun : enumerateResults next ignore s = some (count, s')) : ∀ e ∈ s'.sent, P e := by
  cases next with
  | failed lastError =>
      cases hrun
      exact hs₀
  | returned hs =>
      obtain ⟨b, henum, -⟩ := enumerateResults_returned_eq_some hrun
      intro e he
      obtain he | ⟨h, hh, x, hx, hreadable, e₀, map, rfl⟩ := henum.mem_sent e he
      · exact hs₀ e he
      · exact hP hs rfl h hh x _
          ⟨hx, e₀, _, map, parseEventXml_eq_some.mpr ⟨hreadable, rfl⟩, rfl⟩

/-- What a row tells of a rendered record. -/
structure EventRow.Tells (row : EventRow) (x : EventXml) : Prop where
  /-- The message is the XML, or it is empty when the provider publishes no metadata. -/
  message : row.eventMessage = x.xml ∨ row.eventMessage = ""
  timestamp : ∀ t ∈ (x.system.bind SystemElement.timeCreated).join, row.eventTimestamp = t
  scope : ∀ name ∈ (x.system.bind SystemElement.provider).join, row.eventScope = name
  recordID : ∀ text ∈ (x.system.bind SystemElement.eventRecordID).join,
    row.eventRecordID = (atoi text).toUInt32.toNat
  /-- The number of the level is one less than the record's, and it is read as it is. -/
  severity : ∀ text ∈ (x.system.bind SystemElement.level).join, row.eventSeverity =
    Database.dispatchEventSeverity (Event.dispatchLevel (atoi text).toUInt32).dispatch

/-- What `ParseEventXml` finds does not depend on what the variable held before. -/
structure Event.Parsed (e : Event) (x : EventXml) : Prop where
  xml : e.xml = x.xml
  timeStamp : ∀ t ∈ (x.system.bind SystemElement.timeCreated).join, e.timeStamp = t
  provider : ∀ name ∈ (x.system.bind SystemElement.provider).join, e.provider = name
  rid : ∀ text ∈ (x.system.bind SystemElement.eventRecordID).join, e.rid = (atoi text).toUInt32
  llevel : ∀ text ∈ (x.system.bind SystemElement.level).join,
    e.llevel = Event.dispatchLevel (atoi text).toUInt32

theorem parsed_parseEventXml {e₀ evt : Event} {x : EventXml}
    (hparse : parseEventXml e₀ x = some evt) : evt.Parsed x := by
  obtain ⟨-, rfl⟩ := parseEventXml_eq_some.mp hparse
  cases hsystem : x.system with
  | none => constructor <;> simp [Event.parsed, hsystem]
  | some system =>
      rw [Event.parsed_of_system hsystem]
      constructor <;> simp +contextual [Event.fill, hsystem]

/-- `FormatEvent` writes the message: no text is ever found, and the XML takes its place. -/
theorem formatEvent_spec (evt : Event) (h : Handle) (map : List String) :
    (formatEvent evt h map).1 = { evt with format := evt.xml } ∨
      (formatEvent evt h map).1 = { evt with format := "" } := by
  have htext : ∀ m, getMessageString m = none := fun m => by cases m <;> rfl
  rw [formatEvent, htext]
  split_ifs
  · exact Or.inl rfl
  · exact Or.inl rfl
  · exact Or.inr rfl

/-- **A row tells what the record said.** -/
theorem Handle.Yields.tells {h : Handle} {x : EventXml} {e : Event} (hyields : h.Yields x e)
    (cid id : Int32) :
    (Database.eventRow cid id (CoreMessage.readLog (CoreMessage.addLog e))).Tells x := by
  obtain ⟨_, e₀, evt, map, hparse, rfl⟩ := hyields
  have hparsed := parsed_parseEventXml hparse
  have hrow : ∀ text, text = x.xml ∨ text = "" → (Database.eventRow cid id (CoreMessage.readLog
      (CoreMessage.addLog { evt with format := text }))).Tells x := by
    intro text htext
    constructor
    · exact htext
    · exact hparsed.timeStamp
    · exact hparsed.provider
    · exact fun text htext => congrArg UInt32.toNat (hparsed.rid text htext)
    · intro text htext
      rw [← hparsed.llevel text htext]
      rfl
  rcases formatEvent_spec evt h map with heq | heq
  · rw [heq]
    exact hrow _ (Or.inl hparsed.xml)
  · rw [heq]
    exact hrow _ (Or.inr rfl)

/-! ## Events on their way -/

/-- The events in a package. -/
def CoreMessage.events (m : CoreMessage) : List Event :=
  match m.package with
  | .log evts _ => evts
  | _ => []

/-- The events between the log of a client and the server. -/
def Peer.carried (p : Peer) : List Event := p.handler.batch ++ p.up.flatMap CoreMessage.events

section
variable {p : Peer} {P : Event → Prop}

/-- A step of the thread carries events of the log. -/
theorem Peer.carried_thread {log : List Handle} {t : ThreadAction} {h : EventForwardHandler}
    (hthread : p.handler.threadStep log t = some (h, none))
    (hlog : ∀ h ∈ log, ∀ x e, h.Yields x e → P e) (hp : ∀ e ∈ p.carried, P e) :
    ∀ e ∈ ({ p with handler := h } : Peer).carried, P e := by
  obtain ⟨_, hup⟩ := List.forall_mem_append.mp hp
  refine List.forall_mem_append.mpr ⟨?_, hup⟩
  cases EventForwardHandler.threadStep_spec hthread with
  | subscribe succeeds hpc => cases succeeds <;> simp [EventForwardHandler.batch]
  | wait hpc hwait =>
      rcases EventForwardHandler.waitForMultipleObjects_spec hwait with rfl | ⟨event, rfl⟩
      · simp [EventForwardHandler.batch]
      · simp [EventForwardHandler.batch]
  | reset hpc => simp [EventForwardHandler.batch]
  | @enumerate event taking e count s hpc hpossible hrun =>
      by_cases hcount : count < 0
      · simp [EventForwardHandler.batch, hcount]
      · simp only [EventForwardHandler.batch, if_neg hcount]
        refine yields_enumerateResults (fun hs hnext h hh => ?_) (by simp) hrun
        cases taking with
        | failed lastError => simp [EventForwardHandler.evtNext] at hnext
        | returned n =>
            cases hnext
            exact hlog h (List.mem_of_mem_drop (List.mem_of_mem_take hh))

/-- A package takes up the batch that the thread has read. -/
theorem Peer.carried_send {log : List Handle} {t : ThreadAction} {h : EventForwardHandler}
    {evts : List Event} {ac : Bool}
    (hthread : p.handler.threadStep log t = some (h, some (evts, ac)))
    (hp : ∀ e ∈ p.carried, P e) :
    ∀ e ∈ (({ p with handler := h } : Peer).send (CoreMessage.logPackage evts ac)).carried,
      P e := by
  obtain ⟨hbatch, hup⟩ := List.forall_mem_append.mp hp
  cases EventForwardHandler.threadStep_spec hthread with
  | send hpc =>
      have hevts : p.handler.batch = evts := by rw [EventForwardHandler.batch, hpc]
      have hpackage : ∀ ac id, (CoreMessage.logPackage evts ac id).1.events = evts :=
        fun _ _ => rfl
      rw [hevts] at hbatch
      simp only [carried, Peer.send, EventForwardHandler.batch, List.nil_append,
        List.flatMap_append, List.flatMap_cons, List.flatMap_nil, List.append_nil]
      exact List.forall_mem_append.mpr ⟨hup, by rwa [hpackage]⟩

theorem Peer.carried_stop (n : ℕ) (hp : ∀ e ∈ p.carried, P e) : ∀ e ∈ (p.stop n).carried, P e := by
  obtain ⟨_, hup⟩ := List.forall_mem_append.mp hp
  intro e he
  simp only [carried, Peer.stop, EventForwardHandler.batch, List.nil_append] at he
  obtain ⟨m, hm, he⟩ := List.mem_flatMap.mp he
  exact hup e (List.mem_flatMap.mpr ⟨m, List.mem_of_mem_take hm, he⟩)

/-- A package from the server carries no events. -/
theorem Peer.carried_receive (asserts : Bool) (host : Process) (ts : String) (m : CoreMessage)
    (hp : ∀ e ∈ p.carried, P e) : ∀ e ∈ (p.receive asserts host ts m).carried, P e := by
  rw [Peer.receive]
  rcases transmit asserts host ts m p.nextID with ⟨_ | msg, id⟩ | _ | _
  · exact hp
  · have hquery : ∀ id, (CoreMessage.queryLastEventPackage id).1.events = [] := fun _ => rfl
    simp only [Peer.readCB]
    cases msg.package with
    | connect => simpa [carried, Peer.send, hquery] using hp
    | _ => simpa [carried, EventForwardHandler.batch_getProtobufPackage] using hp
  · exact Peer.carried_stop _ hp
  · exact Peer.carried_stop _ hp

end

namespace Deployment

open Database (Carries Registered keys eventRow eventRows)
open Service (Heard Inserted)

/-- `EnumerateResults` makes the event of a record in the log of the machine. -/
def Yields (s : Deployment) (M : String) (e : Event) : Prop :=
  ∃ r ∈ s.logs M, ∃ x, r.handle.Yields x e

/-- The row is that of an event of the log of the machine whose client the row has. -/
def Traced (s : Deployment) (row : EventRow) : Prop :=
  ∃ M, (row.clientID, M) ∈ keys s.service.db.tables ∧ ∃ e, s.Yields M e ∧
    row = eventRow row.clientID row.eventID (CoreMessage.readLog (CoreMessage.addLog e))

/-- What is carried, queued and stored comes from the logs. -/
structure Genuine (old : List EventRow) (s : Deployment) : Prop where
  carried : ∀ p ∈ s.peers, ∀ e ∈ p.carried, s.Yields p.machine e
  jobs : ∀ job ∈ s.service.jobs, ∀ p, s.peers[job.session]? = some p → ∀ e ∈ job.evts,
    ∃ e₀, s.Yields p.machine e₀ ∧ e = CoreMessage.readLog (CoreMessage.addLog e₀)
  rows : ∀ row ∈ s.service.db.tables.windowsEvents, row ∈ old ∨ s.Traced row

section
variable {old : List EventRow} {s s' : Deployment} {i : ℕ} {p p' : Peer}

theorem genuine_start {flag : Bool} {db : Database} {nextID : Int32} {host : Process}
    {logs : String → List Record} :
    Genuine db.tables.windowsEvents (start flag db nextID host logs) where
  carried := fun _ hp => nomatch hp
  jobs := fun _ hjob => nomatch hjob
  rows := fun _ hrow => Or.inl hrow

theorem Traced.of_keys {row : EventRow} {t : Service} (h : s.Traced row)
    (hkeys : keys s.service.db.tables <+: keys t.db.tables) :
    ({ s with service := t } : Deployment).Traced row :=
  h.imp fun _ hM => ⟨hkeys.subset hM.1, hM.2⟩

/-- More records, and the peers are the same but for what wakes their threads. -/
theorem Genuine.record (h : Genuine old s) (M : String) (r : Record) :
    Genuine old (s.addRecord M r) := by
  have hyields : ∀ M' e, s.Yields M' e → (s.addRecord M r).Yields M' e := by
    intro M' e he
    refine he.imp fun r' hr' => ⟨?_, hr'.2⟩
    change r' ∈ Function.update s.logs M (s.logs M ++ [r]) M'
    by_cases hM : M' = M
    · rw [hM, Function.update_self]
      exact List.mem_append_left _ (hM ▸ hr'.1)
    · rw [Function.update_of_ne hM]
      exact hr'.1
  have hsignal : ∀ p : Peer, (p.signal M).machine = p.machine ∧ (p.signal M).carried = p.carried := by
    intro p
    rw [Peer.signal]
    split_ifs
    · exact ⟨rfl, rfl⟩
    · exact ⟨rfl, rfl⟩
  constructor
  · intro p' hp' e he
    obtain ⟨p, hp, rfl⟩ := List.mem_map.mp hp'
    rw [(hsignal p).2] at he
    rw [(hsignal p).1]
    exact hyields _ _ (h.carried p hp e he)
  · intro job hjob p' hp' e he
    obtain ⟨p, hp, rfl⟩ := peers_addRecord hp'
    obtain ⟨e₀, he₀, heq⟩ := h.jobs job hjob p hp e he
    rw [(hsignal p).1]
    exact ⟨e₀, hyields _ _ he₀, heq⟩
  · intro row hrow
    refine (h.rows row hrow).imp_right fun htraced => ?_
    exact htraced.imp fun M' hM' => ⟨hM'.1, hM'.2.imp fun e he => ⟨hyields _ _ he.1, he.2⟩⟩

/-- A new peer carries nothing, and no work is queued for it. -/
theorem Genuine.connect (h : Genuine old s) (hs : WellFormed s) (g : Process) :
    Genuine old (s.connected g) where
  carried := by
    intro p hp e he
    rcases List.mem_append.mp hp with hp | hp
    · exact h.carried p hp e he
    · rw [List.mem_singleton.mp hp] at he
      have hconnect : ∀ id, (CoreMessage.connectPackage id).1.events = [] := fun _ => rfl
      simp [Peer.start, Peer.send, Peer.carried, EventForwardHandler.batch, hconnect] at he
  jobs := by
    intro job hjob p hp e he
    have hlt := hs.jobs job hjob
    have hp : (s.peers ++ [Peer.start g])[job.session]? = some p := hp
    rw [List.getElem?_append_left hlt] at hp
    exact h.jobs job hjob p hp e he
  rows := h.rows

/-- A peer changes, and carries events of its log. -/
theorem Genuine.setPeer (h : Genuine old s) (hp : s.peers[i]? = some p)
    (hmachine : p'.machine = p.machine) (hcarried : ∀ e ∈ p'.carried, s.Yields p.machine e) :
    Genuine old (s.setPeer i p') where
  carried := by
    intro q hq e he
    rcases List.mem_or_eq_of_mem_set hq with hq | rfl
    · exact h.carried q hq e he
    · rw [hmachine]
      exact hcarried e he
  jobs := by
    intro job hjob q hq e he
    have hq : (s.peers.set i p')[job.session]? = some q := hq
    by_cases hi : i = job.session
    · subst hi
      obtain ⟨hlt, _⟩ := List.getElem?_eq_some_iff.mp hp
      rw [List.getElem?_set_self hlt, Option.some.injEq] at hq
      rw [← hq, hmachine]
      exact h.jobs job hjob p hp e he
    · rw [List.getElem?_set_ne hi] at hq
      exact h.jobs job hjob q hq e he
  rows := h.rows

/-- The server takes a step that stores nothing. -/
theorem Genuine.serve (h : Genuine old s) {t : Service} (hcarries : Carries s.service.db t.db)
    (hjobs : ∀ job ∈ t.jobs, ∀ p, s.peers[job.session]? = some p → ∀ e ∈ job.evts,
      ∃ e₀, s.Yields p.machine e₀ ∧ e = CoreMessage.readLog (CoreMessage.addLog e₀)) :
    Genuine old { s with service := t } where
  carried := h.carried
  jobs := hjobs
  rows := by
    intro row hrow
    have hrow : row ∈ t.db.tables.windowsEvents := hrow
    rw [hcarries.events] at hrow
    exact (h.rows row hrow).imp_right fun htraced => htraced.of_keys hcarries.keys

theorem mem_eventRows {cid : Int32} {evts : List Event} {id : Int32} {row : EventRow}
    (hrow : row ∈ eventRows cid evts id) : ∃ e ∈ evts, row = eventRow cid row.eventID e := by
  induction evts generalizing id with
  | nil => exact nomatch hrow
  | cons evt evts ih =>
      rcases List.mem_cons.mp hrow with rfl | hrow
      · exact ⟨evt, List.mem_cons_self, rfl⟩
      · exact (ih hrow).imp fun e he => ⟨List.mem_cons_of_mem _ he.1, he.2⟩

/-- What a worker leaves of the queue. -/
theorem jobs_inserted {t t' : Service} {j : ℕ} {job : Job} (h : Inserted j job t t')
    (hj : t.jobs[j]? = some job) : ∀ job' ∈ t'.jobs, ∃ job₀ ∈ t.jobs,
      job'.session = job₀.session ∧ job'.evts = job₀.evts := by
  have hset : ∀ job' ∈ t.jobs.set j { job with inserted := true }, ∃ job₀ ∈ t.jobs,
      job'.session = job₀.session ∧ job'.evts = job₀.evts := by
    intro job' hjob'
    rcases List.mem_or_eq_of_mem_set hjob' with hjob' | rfl
    · exact ⟨job', hjob', rfl, rfl⟩
    · exact ⟨job, List.mem_of_getElem? hj, rfl, rfl⟩
  cases h with
  | stored hc hdb hjobs hsent => rwa [hjobs]
  | lost hdb hjobs hsent hsilent hlost =>
      rcases hjobs with hjobs | hjobs
      · rwa [hjobs]
      · rw [hjobs]
        exact fun job' hjob' => ⟨job', List.mem_of_mem_eraseIdx hjob', rfl, rfl⟩

/-- A worker takes up a job. -/
theorem Genuine.insert (h : Genuine old s) (hs : WellFormed s) {j : ℕ} {job : Job}
    (hj : s.service.jobs[j]? = some job) :
    Genuine old { s with service := s.service.insert j job } := by
  obtain ⟨p, hp⟩ := hs.exists_peer hj
  obtain ⟨hspec, _⟩ := Service.inserted s.service j job p.machine
  have hjobs : ∀ job' ∈ (s.service.insert j job).jobs, ∀ q, s.peers[job'.session]? = some q →
      ∀ e ∈ job'.evts, ∃ e₀, s.Yields q.machine e₀ ∧
        e = CoreMessage.readLog (CoreMessage.addLog e₀) := by
    intro job' hjob' q hq e he
    obtain ⟨job₀, hjob₀, hsession, hevts⟩ := jobs_inserted hspec hj job' hjob'
    rw [hsession] at hq
    rw [hevts] at he
    exact h.jobs job₀ hjob₀ q hq e he
  cases hspec with
  | lost hdb _ hsent hsilent hlost => exact h.serve hdb hjobs
  | @stored c hc hdb _ hsent =>
      have hkeys : keys (s.service.insert j job).db.tables = keys s.service.db.tables := by
        rw [hdb]
        rfl
      refine ⟨h.carried, hjobs, fun row hrow => ?_⟩
      have hrow : row ∈ (s.service.insert j job).db.tables.windowsEvents := hrow
      rw [hdb] at hrow
      rcases List.mem_append.mp hrow with hrow | hrow
      · refine (h.rows row hrow).imp_right fun htraced => htraced.of_keys ?_
        rw [hkeys]
      · obtain ⟨e, he, heq⟩ := mem_eventRows hrow
        obtain ⟨e₀, he₀, rfl⟩ := h.jobs job (List.mem_of_getElem? hj) p hp e he
        have hcid : row.clientID = c._clientID := by rw [heq]; rfl
        refine Or.inr ⟨p.machine, ?_, e₀, he₀, by rw [hcid]; exact heq⟩
        change _ ∈ keys (s.service.insert j job).db.tables
        rw [hkeys, hcid]
        exact hs.owner _ p hp c hc

/-- The server hears a package of a peer. -/
theorem Genuine.read (h : Genuine old s) (hp : s.peers[i]? = some p) {m ret : CoreMessage}
    {up : List CoreMessage} (hup : p.up = m :: up) {t : Service} (hheard : Heard i ret s.service t)
    (hret : ret.package = CoreMessage.arriving m.package) (hcarries : Carries s.service.db t.db) :
    Genuine old { s.setPeer i { p with up := up } with service := t } := by
  have hcarried := h.carried p (List.mem_of_getElem? hp)
  rw [Peer.carried, hup, List.flatMap_cons] at hcarried
  obtain ⟨hbatch, hrest⟩ := List.forall_mem_append.mp hcarried
  obtain ⟨hm, hup'⟩ := List.forall_mem_append.mp hrest
  have hset : Genuine old (s.setPeer i { p with up := up }) :=
    h.setPeer hp rfl (List.forall_mem_append.mpr ⟨hbatch, hup'⟩)
  refine hset.serve hcarries ?_
  cases hheard with
  | quiet hlost hjobs hsent hsilent =>
      rw [hjobs]
      exact hset.jobs
  | offered hflag hp' hc hget hjobs hsent hm' =>
      rw [hjobs]
      exact hset.jobs
  | @queued evts ac hpackage hjobs hsent =>
      rw [hjobs]
      refine List.forall_mem_append.mpr ⟨hset.jobs, List.forall_mem_singleton.mpr ?_⟩
      intro q hq e he
      obtain ⟨hlt, _⟩ := List.getElem?_eq_some_iff.mp hp
      have hq : (s.peers.set i { p with up := up })[i]? = some q := hq
      rw [List.getElem?_set_self hlt, Option.some.injEq] at hq
      rw [← hq]
      rw [hpackage] at hret
      cases hsentp : m.package with
      | log evts₀ ac₀ =>
          rw [hsentp, CoreMessage.arriving] at hret
          cases hret
          obtain ⟨e₀, he₀, rfl⟩ := List.mem_map.mp he
          refine ⟨e₀, hm e₀ ?_, rfl⟩
          rw [CoreMessage.events, hsentp]
          exact he₀
      | _ => simp [hsentp, CoreMessage.arriving] at hret

/-- **Every step keeps what comes from the logs.** -/
theorem Genuine.step (h : Genuine old s) (hs : WellFormed s) {asserts : Bool} {a : Action}
    (hstep : s.step asserts a = some s') : Genuine old s' := by
  have hlog : ∀ M, ∀ h ∈ s.handles M, ∀ x e, h.Yields x e → s.Yields M e := by
    intro M h hh x e he
    obtain ⟨r, hr, rfl⟩ := List.mem_map.mp hh
    exact ⟨r, hr, x, he⟩
  have hcarried : ∀ {i : ℕ} {p : Peer}, s.peers[i]? = some p →
      ∀ e ∈ p.carried, s.Yields p.machine e := fun hp => h.carried _ (List.mem_of_getElem? hp)
  cases (step_spec hstep).2 with
  | record M r => exact h.record M r
  | connect hidle => exact h.connect hs _
  | thread hp hlive hthread =>
      exact h.setPeer hp rfl (Peer.carried_thread hthread (hlog _) (hcarried hp))
  | @send i p t handler evts ac hp hlive hthread =>
      have hset : Genuine old (s.setPeer i (({ p with handler := handler } : Peer).send
          (CoreMessage.logPackage evts ac))) :=
        h.setPeer hp rfl (Peer.carried_send hthread (hcarried hp))
      exact ⟨hset.carried, hset.jobs, hset.rows⟩
  | @deliver i p m ts hp hlive hm =>
      exact h.setPeer hp (Peer.receive_frame asserts s.host ts m).1
        (Peer.carried_receive asserts s.host ts m (hcarried hp))
  | @halt i p hp hlive =>
      have hsame := hcarried hp
      exact h.setPeer hp rfl hsame
  | disconnect n hp hlive => exact h.setPeer hp rfl (Peer.carried_stop n (hcarried hp))
  | @read i p m ret up id env ts hp hup hret =>
      have hcarries := Service.carries_read { s.service with nextID := id } i env ret
      obtain ⟨hheard, _⟩ := Service.heard { s.service with nextID := id } i env ret
      exact h.read hp hup hheard.of_drawn (transmit_some hret).1 hcarries
  | insert hj hinserted => exact h.insert hs hj
  | @reply j job hj hinserted =>
      obtain ⟨p, hp⟩ := hs.exists_peer hj
      obtain ⟨hjobs, hdb, _, _, _⟩ := Service.replied s.service j job p.machine
      refine h.serve (t := s.service.reply j job) (by rw [hdb]; exact .refl _) ?_
      rw [hjobs]
      exact fun job' hjob' => h.jobs job' (List.mem_of_mem_eraseIdx hjob')
  | lose => exact h.serve (.refl _) h.jobs
  | sigpipe outcome =>
      obtain ⟨hjobs, _, _⟩ := s.service.sigpipeHandler_frame asserts outcome
      obtain ⟨hcarries, _⟩ := Service.carries_sigpipe asserts outcome s.service
      refine h.serve hcarries ?_
      rw [hjobs]
      exact h.jobs
  | stop => exact h.serve (.refl _) h.jobs

end

/-! ## Runs -/

open Transition (run meets_of_mem reaches_of_run)

open Sample (deployment logged)

end Deployment
end ClientService
