import ClientService.Deployment.Handshake
import ClientService.Server.Effort

/-!
# Client and server fall quiet

A record, a connection or a signal makes the clients and the server take some steps, and each of
them may lead to others: the thread sends a batch, the server stores it and replies, and the reply
wakes the thread. Every step is paid for: by the packages on their way, the queued work, the
events that wake a thread, and the full batches that a thread has still to read. Only the outside
pays in, and so does an `EvtNext` that fails with the code 30: the thread takes the code for the
size of a full batch and asks for a reply.

## Main definitions

* `Deployment.effort` — a bound on the steps that are still to come without the outside.
* `Action.charge` — what a step of the outside pays in.
-/

namespace ClientService

/-! ## The thread -/

/-- The event that the thread has been woken by, until it resets it. -/
def Pc.event : Pc → Option WaitHandle
  | .woken event | .read event _ _ | .sent event => some event
  | _ => none

/-- The steps until the thread waits again, and those of the batch that it sends. -/
def Pc.effort : Pc → ℕ
  | .suspended | .starting => 7
  | .waiting => 6
  | .woken _ => 5
  | .read _ count _ => if count = Int32.ofNat EventForwardHandler.eventsPerSend then 12 else 4
  | .sent _ | .exited => 0

/-- What the failure that looks like a full batch pays in. -/
def ThreadAction.charge : ThreadAction → ℕ
  | .enumerate (.failed lastError) _ => if lastError = 30 then 8 else 0
  | _ => 0

namespace EventForwardHandler

def isSet (h : EventForwardHandler) : WaitHandle → Bool
  | .subscribe => h.subscribe
  | .upload => h.upload

/-- An event that is set, or has woken the thread, makes for one round. -/
def dueEffort (h : EventForwardHandler) (event : WaitHandle) : ℕ :=
  if h.isSet event = true ∨ h.pc.event = some event then 7 else 0

/-- The steps of the thread, with a log of length `n`. -/
def effort (n : ℕ) (h : EventForwardHandler) : ℕ :=
  h.pc.effort + h.dueEffort .subscribe + h.dueEffort .upload + 8 * ((n - h.taken) / eventsPerSend)

section
variable {log : List Handle} {h h' : EventForwardHandler}

/-- A batch that counts as full is full, or is the failure with the code 30. -/
theorem full_of_enumerate {taking : Taking} {s s' : Enumeration} {ignore : UInt32}
    {count : Int32} (hpossible : Possible log h.taken taking)
    (hrun : enumerateResults (evtNext log h.taken taking) ignore s = some (count, s'))
    (hfull : count = Int32.ofNat eventsPerSend) :
    taking = .failed 30 ∨ taking = .returned eventsPerSend := by
  cases taking with
  | failed lastError =>
      left
      cases hrun
      have hcount : lastError.toInt32 = Int32.ofNat eventsPerSend := hfull
      have hback := congrArg Int32.toUInt32 hcount
      rw [UInt32.toUInt32_toInt32] at hback
      rw [hback]
      rfl
  | returned n =>
      right
      obtain ⟨_, hle, hlog⟩ := hpossible
      have hlength : ((log.drop h.taken).take n).length = n := by
        rw [List.length_take, List.length_drop]
        omega
      have hcount := (count_of_returned hrun).symm.trans hfull
      rw [hlength] at hcount
      split_ifs at hcount
      · have hint := congrArg Int32.toInt hcount
        rw [Int32.toInt_ofNat_of_lt (by simp [eventsPerSend] at hle; omega),
          Int32.toInt_ofNat_of_lt (by decide)] at hint
        rw [Int.ofNat_inj.mp hint]
      · exact absurd hcount (by decide)

/-- A full batch is paid for by its records, or by the failure. -/
theorem charge_enumerate {taking : Taking} {s s' : Enumeration} {ignore : UInt32} {count : Int32}
    {e : Event} (hpossible : Possible log h.taken taking)
    (hrun : enumerateResults (evtNext log h.taken taking) ignore s = some (count, s')) :
    8 * ((log.length - (h.taken + taking.number)) / eventsPerSend) +
        (if count = Int32.ofNat eventsPerSend then 8 else 0) ≤
      8 * ((log.length - h.taken) / eventsPerSend) +
        ThreadAction.charge (.enumerate taking e) := by
  split_ifs with hfull
  · rcases full_of_enumerate hpossible hrun hfull with rfl | rfl
    · simp [Taking.number, ThreadAction.charge]
    · obtain ⟨_, _, hlog⟩ := hpossible
      simp only [Taking.number, ThreadAction.charge, eventsPerSend] at hlog ⊢
      omega
  · have hmono : log.length - (h.taken + taking.number) ≤ log.length - h.taken := by omega
    have hdiv := Nat.div_le_div_right (c := eventsPerSend) hmono
    omega

/-- The thread is woken by an event that is set. -/
theorem isSet_of_wait {event : WaitHandle}
    (hwait : h.waitForMultipleObjects = some (.woken event)) : h.isSet event = true := by
  rw [waitForMultipleObjects] at hwait
  split_ifs at hwait with hstop hsub hup <;> cases hwait
  · exact hsub
  · exact hup

theorem dueEffort_le (event : WaitHandle) : h.dueEffort event ≤ 7 := by
  rw [dueEffort]
  split_ifs <;> omega

/-- An event is due as before, or not any more. -/
theorem dueEffort_mono {event : WaitHandle} (hset : h'.isSet event = h.isSet event)
    (hevent : h'.pc.event = some event → h.isSet event = true ∨ h.pc.event = some event) :
    h'.dueEffort event ≤ h.dueEffort event := by
  rw [dueEffort, dueEffort, hset]
  split_ifs with hnew hold
  · exact le_rfl
  · exact absurd (hnew.elim Or.inl hevent) hold
  · omega
  · exact le_rfl

/-- No event becomes due, and the rest is paid for. -/
theorem effort_le_of_due {n c d : ℕ} (hdue : ∀ event, h'.dueEffort event ≤ h.dueEffort event)
    (hpaid : h'.pc.effort + 8 * ((n - h'.taken) / eventsPerSend) + c ≤
      h.pc.effort + 8 * ((n - h.taken) / eventsPerSend) + d) :
    h'.effort n + c ≤ h.effort n + d := by
  have hsub := hdue .subscribe
  have hup := hdue .upload
  simp only [effort]
  omega

/-- **Every step of the thread is paid for**, with the batch that it sends. -/
theorem effort_threadStep {a : ThreadAction} {package : Option (List Event × Bool)}
    (hstep : h.threadStep log a = some (h', package)) :
    h'.effort log.length + ((package.elim 0 fun x => logEffort x.2) + 1) ≤
      h.effort log.length + a.charge := by
  cases threadStep_spec hstep with
  | subscribe succeeds hpc =>
      refine effort_le_of_due (fun event => dueEffort_mono rfl fun hevent => ?_) ?_
      · cases succeeds <;> simp [Pc.event] at hevent
      · cases succeeds <;> simp [Pc.effort, hpc] <;> omega
  | @wait pc hpc hwait =>
      refine effort_le_of_due (fun event => dueEffort_mono rfl fun hevent => Or.inl ?_) ?_
      · rcases waitForMultipleObjects_spec hwait with rfl | ⟨event', rfl⟩
        · simp [Pc.event] at hevent
        · cases hevent
          exact isSet_of_wait hwait
      · have heffort : pc.effort ≤ 5 := by
          rcases waitForMultipleObjects_spec hwait with rfl | ⟨event, rfl⟩ <;> simp [Pc.effort]
        have hold : h.pc.effort = 6 := by rw [hpc]; rfl
        simp only [hold, Option.elim_none]
        omega
  | @enumerate event taking e count s hpc hpossible hrun =>
      refine effort_le_of_due (fun event' => dueEffort_mono rfl fun hevent => Or.inr ?_) ?_
      · by_cases hcount : count < 0
        · simp [hcount, Pc.event] at hevent
        · simpa [hcount, hpc, Pc.event] using hevent
      · have hold : h.pc.effort = 5 := by rw [hpc]; rfl
        have hnew : (if count < 0 then Pc.exited else .read event count s.sent).effort ≤
            4 + if count = Int32.ofNat eventsPerSend then 8 else 0 := by
          by_cases hcount : count < 0
          · simp [hcount, Pc.effort]
          · simp only [hcount, if_false, Pc.effort]
            split_ifs <;> omega
        have hpaid := charge_enumerate (e := e) hpossible hrun
        simp only [hold, Option.elim_none]
        omega
  | @send event count evts hpc =>
      refine effort_le_of_due (fun _ => dueEffort_mono rfl fun hevent => Or.inr (by rwa [hpc])) ?_
      by_cases hfull : count = Int32.ofNat eventsPerSend
      · simp [Pc.effort, hpc, hfull, logEffort]
        omega
      · simp [Pc.effort, hpc, hfull, logEffort]
        omega
  | @reset event hpc =>
      -- The event that woke the thread is not due any more, and the other one as before.
      cases event <;>
        simp [effort, dueEffort, resetEvent, isSet, Pc.event, Pc.effort, hpc] <;>
        omega

/-- A new record may complete one more batch. -/
theorem effort_succ (n : ℕ) : h.effort (n + 1) ≤ h.effort n + 8 := by
  have hmore : (n + 1 - h.taken) / eventsPerSend ≤ (n - h.taken) / eventsPerSend + 1 := by
    simp only [eventsPerSend]
    omega
  simp only [effort]
  omega

theorem effort_setEvent (n : ℕ) (event : WaitHandle) :
    (h.setEvent event).effort n ≤ h.effort n + 7 := by
  have hself := dueEffort_le (h := h.setEvent event) event
  have hother : ∀ e, e ≠ event → (h.setEvent event).dueEffort e ≤ h.dueEffort e := by
    intro e he
    refine dueEffort_mono ?_ fun hevent => Or.inr ?_
    · cases event <;> cases e <;> simp [setEvent, isSet] at he ⊢
    · cases event <;> exact hevent
  have hpc : (h.setEvent event).pc = h.pc := by cases event <;> rfl
  have htaken : (h.setEvent event).taken = h.taken := by cases event <;> rfl
  simp only [effort, hpc, htaken]
  cases event with
  | subscribe =>
      have hup := hother .upload (by simp)
      omega
  | upload =>
      have hsub := hother .subscribe (by simp)
      omega

/-- A package wakes the thread when it is an accepted resume point. -/
theorem effort_getProtobufPackage (n : ℕ) (msg : Package) :
    (h.getProtobufPackage msg).effort n ≤
      h.effort n + match msg with
        | .acceptLastEvent _ => 7
        | _ => 0 := by
  cases msg with
  | acceptLastEvent lid =>
      exact effort_setEvent (h := { h with lastEventIDUploaded := lid }) n .upload
  | returnLastEvent lid =>
      by_cases hid : h.lastEventIDUploaded = 0
      · by_cases hpc : h.pc = .suspended
        · simp [getProtobufPackage, resumeThread, hid, hpc, effort, dueEffort, isSet, Pc.effort,
            Pc.event]
        · have hsame : h.getProtobufPackage (.returnLastEvent lid) =
              { h with lastEventIDUploaded := lid } := by
            simp [getProtobufPackage, resumeThread, hid, hpc]
          rw [hsame]
          exact le_rfl
      · simp [getProtobufPackage, hid]
  | _ => exact le_rfl

end
end EventForwardHandler

/-! ## Client processes -/

/-- The packages arrive as what they are. -/
theorem downEffort_arriving {m msg : CoreMessage}
    (h : msg.package = CoreMessage.arriving m.package) : msg.downEffort = m.downEffort := by
  rw [CoreMessage.downEffort, CoreMessage.downEffort, h]
  cases m.package <;> rfl

theorem upEffort_arriving {m ret : CoreMessage}
    (h : ret.package = CoreMessage.arriving m.package) : ret.upEffort = m.upEffort := by
  rw [CoreMessage.upEffort, CoreMessage.upEffort, h]
  cases m.package <;> rfl

namespace Peer

/-- What is to come of a process: of its thread and of the packages for it, while it runs, and of
those that it has sent. The log of its machine has length `n`. -/
def effort (n : ℕ) (sent : List CoreMessage) (p : Peer) : ℕ :=
  (if p.live then
    p.handler.effort n + ((sent.drop p.delivered).map CoreMessage.downEffort).sum
  else 0) + (p.up.map CoreMessage.upEffort).sum

section
variable {p : Peer} {n : ℕ} {sent : List CoreMessage}

theorem effort_start (g : Process) (n : ℕ) :
    (start g).effort n [] = 18 + 8 * (n / EventForwardHandler.eventsPerSend) := by
  simp [start, send, effort, EventForwardHandler.effort, EventForwardHandler.dueEffort,
    EventForwardHandler.isSet, Pc.effort, Pc.event, CoreMessage.connectPackage,
    CoreMessage.upEffort]
  omega

theorem signal_live (p : Peer) (M : String) : (p.signal M).live = p.live := by
  rw [signal]
  split_ifs <;> rfl

/-- A new record is signalled, and lengthens the log. -/
theorem effort_signal (M : String) :
    (p.signal M).effort (if p.machine = M then n + 1 else n) sent ≤
      p.effort n sent + if p.live = true ∧ p.machine = M then 15 else 0 := by
  rw [signal]
  by_cases hM : p.machine = M
  · have hset := p.handler.effort_setEvent (n + 1) .subscribe
    have hsucc := p.handler.effort_succ n
    cases hlive : p.live with
    | false => simp [effort, hM, hlive]
    | true =>
        simp only [effort, hM, hlive, if_true, and_self]
        omega
  · simp [hM]

theorem effort_stop (p : Peer) (n : ℕ) (sent : List CoreMessage) (k : ℕ) :
    (p.stop k).effort n sent ≤ (p.up.map CoreMessage.upEffort).sum := by
  have htake : ((p.up.take k).map CoreMessage.upEffort).sum ≤
      (p.up.map CoreMessage.upEffort).sum :=
    ((List.take_sublist k p.up).map CoreMessage.upEffort).sum_le_sum fun _ _ => Nat.zero_le _
  simpa [effort, stop] using htake

/-- More packages are written to the process. -/
theorem effort_append (p : Peer) (n : ℕ) (sent new : List CoreMessage) :
    p.effort n (sent ++ new) ≤ p.effort n sent + (new.map CoreMessage.downEffort).sum := by
  have hdrop : ((new.drop (p.delivered - sent.length)).map CoreMessage.downEffort).sum ≤
      (new.map CoreMessage.downEffort).sum :=
    ((List.drop_sublist _ new).map CoreMessage.downEffort).sum_le_sum fun _ _ => Nat.zero_le _
  simp only [effort, List.drop_append, List.map_append, List.sum_append]
  split_ifs <;> omega

/-- What waits for a process begins with the next package. -/
theorem sum_drop {m : CoreMessage} (hm : sent[p.delivered]? = some m) :
    ((sent.drop p.delivered).map CoreMessage.downEffort).sum =
      m.downEffort + ((sent.drop (p.delivered + 1)).map CoreMessage.downEffort).sum := by
  obtain ⟨hlt, rfl⟩ := List.getElem?_eq_some_iff.mp hm
  rw [List.drop_eq_getElem_cons hlt, List.map_cons, List.sum_cons]

theorem one_le_downEffort (m : CoreMessage) : 1 ≤ m.downEffort := by
  rw [CoreMessage.downEffort]
  cases m.package <;> simp

/-- What a package does to a process. -/
theorem effort_readCB (n : ℕ) (sent : List CoreMessage) (hlive : p.live = true)
    (msg : CoreMessage) :
    (p.readCB msg).effort n sent + 1 ≤ p.effort n sent + msg.downEffort := by
  have hread : ∀ package : Package, (p.handler.getProtobufPackage package).effort n ≤ _ :=
    p.handler.effort_getProtobufPackage n
  rw [readCB, CoreMessage.downEffort]
  cases hp : msg.package with
  | connect =>
      simp [effort, send, hlive, CoreMessage.queryLastEventPackage, CoreMessage.upEffort]
      omega
  | acceptLastEvent lid =>
      have haccept := hread (.acceptLastEvent lid)
      simp only [effort, hlive, if_true] at haccept ⊢
      omega
  | returnLastEvent lid =>
      have hreturn := hread (.returnLastEvent lid)
      simp only [effort, hlive, if_true] at hreturn ⊢
      omega
  | queryLastEvent | refuse r | log evts needAccept =>
      exact le_rfl

/-- **Every package for a client is paid for.** -/
theorem effort_receive (hlive : p.live = true) {m : CoreMessage}
    (hm : sent[p.delivered]? = some m) (asserts : Bool) (host : Process) (ts : String) :
    (p.receive asserts host ts m).effort n sent + 1 ≤ p.effort n sent := by
  have hone := one_le_downEffort m
  have hdrop := sum_drop hm
  have hstop : (p.stop p.up.length).effort n sent + 1 ≤ p.effort n sent := by
    have hle := effort_stop p n sent p.up.length
    simp only [effort, hlive, if_true, hdrop] at hle ⊢
    omega
  have hnext : ∀ id, ({ p with nextID := id, delivered := p.delivered + 1 } : Peer).effort n sent +
      m.downEffort = p.effort n sent := by
    intro id
    simp only [effort, hlive, if_true, hdrop]
    omega
  rw [receive]
  rcases htransmit : transmit asserts host ts m p.nextID with ⟨_ | msg, id⟩ | _ | _
  · have hid := hnext id
    simp only
    omega
  · have hread := effort_readCB (p := { p with nextID := id, delivered := p.delivered + 1 })
      n sent hlive msg
    have hid := hnext id
    rw [downEffort_arriving (transmit_some htransmit).1] at hread
    simp only
    omega
  · exact hstop
  · exact hstop

end
end Peer

/-! ## The deployment -/

namespace Deployment

/-- What a step of the outside pays in, when no log is longer than `n`. -/
def Action.charge (n : ℕ) : Action → ℕ
  | .record _ _ => 16
  | .connect _ => 19 + 8 * (n / EventForwardHandler.eventsPerSend)
  | .thread _ t => t.charge
  | .halt _ | .disconnect _ _ | .lose | .sigpipe _ | .stop => 1
  | .deliver _ _ | .read _ _ _ | .insert _ | .reply _ => 0

/-- What is to come of a client process. -/
def load (s : Deployment) (i : ℕ) : ℕ :=
  s.peers[i]?.elim 0 fun p => p.effort (s.logs p.machine).length (s.service.sent i)

/-- A bound on the steps that are still to come without the outside. -/
def effort (s : Deployment) : ℕ :=
  ∑ i ∈ Finset.range s.peers.length, s.load i + s.service.effort

/-- A machine has at most one running process, and nothing is written to sessions to come. -/
structure Counted (s : Deployment) : Prop where
  handshaken : Handshaken s
  unsent : ∀ i, s.peers.length ≤ i → s.service.sent i = []
  alone : ∀ (i j : ℕ) (p q : Peer), s.peers[i]? = some p → s.peers[j]? = some q → p.live = true →
    q.live = true → p.machine = q.machine → i = j

/-- A step of peer `i`, or of the server for its session. -/
structure Moved (i : ℕ) (p p' : Peer) (s s' : Deployment) : Prop where
  before : s.peers[i]? = some p
  after : s'.peers = s.peers.set i p'
  machine : p'.machine = p.machine
  live : p'.live = true → p.live = true
  logs : s'.logs = s.logs
  sent : ∀ k, k ≠ i → s'.service.sent k = s.service.sent k

section
variable {s s' : Deployment} {i n : ℕ} {p p' : Peer}

theorem load_of_some (hp : s.peers[i]? = some p) :
    s.load i = p.effort (s.logs p.machine).length (s.service.sent i) := by
  rw [load, hp, Option.elim_some]

theorem counted_start {flag : Bool} {db : Database} {nextID : Int32} {host : Process}
    {logs : String → List Record} : Counted (start flag db nextID host logs) where
  handshaken := handshaken_start
  unsent := fun _ _ => rfl
  alone := fun _ _ _ _ hp => nomatch hp

theorem moved_setPeer (hp : s.peers[i]? = some p) (hmachine : p'.machine = p.machine)
    (hlive : p'.live = true → p.live = true) : Moved i p p' s (s.setPeer i p') :=
  ⟨hp, rfl, hmachine, hlive, rfl, fun _ _ => rfl⟩

theorem Moved.getElem? (h : Moved i p p' s s') (k : ℕ) :
    s'.peers[k]? = if k = i then some p' else s.peers[k]? := by
  obtain ⟨hlt, _⟩ := List.getElem?_eq_some_iff.mp h.before
  rw [h.after]
  by_cases hk : k = i
  · rw [if_pos hk, hk, List.getElem?_set_self hlt]
  · rw [if_neg hk, List.getElem?_set_ne (Ne.symm hk)]

theorem Counted.moved (h : Counted s) (hmoved : Moved i p p' s s') (hnext : Handshaken s') :
    Counted s' where
  handshaken := hnext
  unsent := by
    intro k hk
    obtain ⟨hlt, _⟩ := List.getElem?_eq_some_iff.mp hmoved.before
    rw [hmoved.after, List.length_set] at hk
    rw [hmoved.sent k (by omega)]
    exact h.unsent k hk
  alone := by
    have hold : ∀ (k : ℕ) (q : Peer), s'.peers[k]? = some q → ∃ q' : Peer,
        s.peers[k]? = some q' ∧ q'.machine = q.machine ∧ (q.live = true → q'.live = true) := by
      intro k q hq
      rw [hmoved.getElem?] at hq
      by_cases hk : k = i
      · subst hk
        rw [if_pos rfl, Option.some.injEq] at hq
        subst hq
        exact ⟨p, hmoved.before, hmoved.machine.symm, hmoved.live⟩
      · rw [if_neg hk] at hq
        exact ⟨q, hq, rfl, id⟩
    intro j k q r hq hr hqlive hrlive hmachine
    obtain ⟨q', hq', hqmachine, hq'live⟩ := hold j q hq
    obtain ⟨r', hr', hrmachine, hr'live⟩ := hold k r hr
    exact h.alone j k q' r' hq' hr' (hq'live hqlive) (hr'live hrlive)
      (by rw [hqmachine, hrmachine, hmachine])

/-- The peer pays for its step, together with the queue. -/
theorem Moved.effort (h : Moved i p p' s s') {c d : ℕ}
    (hself : p'.effort (s.logs p.machine).length (s'.service.sent i) + s'.service.effort + c ≤
      p.effort (s.logs p.machine).length (s.service.sent i) + s.service.effort + d) :
    s'.effort + c ≤ s.effort + d := by
  obtain ⟨hlt, _⟩ := List.getElem?_eq_some_iff.mp h.before
  have hafter : s'.load i = p'.effort (s.logs p.machine).length (s'.service.sent i) := by
    rw [load_of_some (by rw [h.getElem?, if_pos rfl]), h.logs, h.machine]
  have hothers : ∀ k, k ≠ i → s'.load k ≤ s.load k := by
    intro k hk
    rw [load, load, h.getElem?, if_neg hk, h.logs, h.sent k hk]
  have hsum := Sums.sum_range_le (c := s'.service.effort + c) (d := s.service.effort + d) hlt
    (by rw [hafter, load_of_some h.before]; omega) hothers
  rw [Deployment.effort, Deployment.effort, h.after, List.length_set]
  omega

theorem getElem?_addRecord (s : Deployment) (M : String) (r : Record) (k : ℕ) :
    (s.addRecord M r).peers[k]? = s.peers[k]?.map (Peer.signal M) := List.getElem?_map

theorem length_addRecord (s : Deployment) (M : String) (r : Record) :
    (s.addRecord M r).peers.length = s.peers.length := List.length_map _

/-- A record makes for one round of a process of its machine that runs. -/
theorem load_addRecord (s : Deployment) (M : String) (r : Record) (k : ℕ) :
    (s.addRecord M r).load k ≤ s.load k + s.peers[k]?.elim 0 fun p =>
      if p.live = true ∧ p.machine = M then 15 else 0 := by
  cases hp : s.peers[k]? with
  | none => simp [load, getElem?_addRecord, hp]
  | some p =>
      have hlog : ((s.addRecord M r).logs p.machine).length =
          if p.machine = M then (s.logs p.machine).length + 1 else (s.logs p.machine).length := by
        by_cases hM : p.machine = M
        · simp [addRecord, hM]
        · simp [addRecord, hM]
      rw [load_of_some hp, load_of_some (by rw [getElem?_addRecord, hp]; rfl),
        (Peer.signal_frame s.service k M).1, hlog]
      exact p.effort_signal M

theorem Counted.record (h : Counted s) (M : String) (r : Record) : Counted (s.addRecord M r) where
  handshaken := h.handshaken.record M r
  unsent := fun k hk => h.unsent k (length_addRecord s M r ▸ hk)
  alone := by
    intro j k q q' hq hq' hlive hlive' hmachine
    rw [getElem?_addRecord, Option.map_eq_some_iff] at hq hq'
    obtain ⟨p, hp, rfl⟩ := hq
    obtain ⟨p', hp', rfl⟩ := hq'
    rw [Peer.signal_live] at hlive hlive'
    rw [(Peer.signal_frame s.service j M).1, (Peer.signal_frame s.service k M).1] at hmachine
    exact h.alone j k p p' hp hp' hlive hlive' hmachine

/-- Of the processes of a machine only one runs, which pays for its record. -/
theorem Counted.effort_addRecord (h : Counted s) (M : String) (r : Record) :
    (s.addRecord M r).effort ≤ s.effort + 15 := by
  have hload := load_addRecord s M r
  have hsum : ∑ k ∈ Finset.range s.peers.length, (s.addRecord M r).load k ≤
      ∑ k ∈ Finset.range s.peers.length, s.load k + 15 := by
    by_cases hex : ∃ (k : ℕ) (p : Peer), s.peers[k]? = some p ∧ p.live = true ∧ p.machine = M
    · obtain ⟨i, p, hp, hlive, hM⟩ := hex
      obtain ⟨hlt, _⟩ := List.getElem?_eq_some_iff.mp hp
      refine Sums.sum_range_le (c := 0) hlt (by simpa [hp, hlive, hM] using hload i) ?_
      intro k hk
      cases hq : s.peers[k]? with
      | none => simpa [hq] using hload k
      | some q =>
          have hne : ¬(q.live = true ∧ q.machine = M) := fun hq' =>
            hk (h.alone k i q p hq hp hq'.1 hlive (hq'.2.trans hM.symm))
          simpa [hq, hne] using hload k
    · refine le_add_right (Finset.sum_le_sum fun k _ => ?_)
      cases hq : s.peers[k]? with
      | none => simpa [hq] using hload k
      | some q =>
          have hne : ¬(q.live = true ∧ q.machine = M) := fun hq' => hex ⟨k, q, hq, hq'⟩
          simpa [hq, hne] using hload k
  rw [effort, effort, length_addRecord]
  change ∑ k ∈ Finset.range s.peers.length, (s.addRecord M r).load k + s.service.effort ≤ _
  omega

/-- A new process reads its log from the oldest record on. -/
theorem Counted.connect (h : Counted s) {g : Process} (hidle : s.Idle g.myMachineID) :
    Counted (s.connected g) ∧ (s.connected g).effort = s.effort + 18 +
      8 * ((s.logs g.myMachineID).length / EventForwardHandler.eventsPerSend) := by
  have hlength : (s.connected g).peers.length = s.peers.length + 1 := List.length_append
  have hlast : (s.connected g).peers[s.peers.length]? = some (Peer.start g) :=
    List.getElem?_concat_length
  have hold : ∀ k : ℕ, k < s.peers.length → (s.connected g).peers[k]? = s.peers[k]? :=
    fun k hk => List.getElem?_append_left hk
  constructor
  · refine ⟨h.handshaken.connect g, fun k hk => h.unsent k (by omega), ?_⟩
    -- The machine of the new process was idle.
    have hcases : ∀ (k : ℕ) (q : Peer), (s.connected g).peers[k]? = some q →
        s.peers[k]? = some q ∨ k = s.peers.length ∧ q.machine = g.myMachineID := by
      intro k q hq
      rcases Nat.lt_trichotomy k s.peers.length with hk | rfl | hk
      · exact Or.inl (hold k hk ▸ hq)
      · rw [hlast, Option.some.injEq] at hq
        exact Or.inr ⟨rfl, hq ▸ rfl⟩
      · obtain ⟨hlt, _⟩ := List.getElem?_eq_some_iff.mp hq
        omega
    intro j k q r hq hr hqlive hrlive hmachine
    rcases hcases j q hq with hq | ⟨rfl, hqM⟩
    · rcases hcases k r hr with hr | ⟨rfl, hrM⟩
      · exact h.alone j k q r hq hr hqlive hrlive hmachine
      · exact absurd (hmachine.trans hrM) (hidle q (List.mem_of_getElem? hq) hqlive)
    · rcases hcases k r hr with hr | ⟨rfl, _⟩
      · exact absurd (hmachine.symm.trans hqM) (hidle r (List.mem_of_getElem? hr) hrlive)
      · rfl
  · have hloads : ∑ k ∈ Finset.range s.peers.length, (s.connected g).load k =
        ∑ k ∈ Finset.range s.peers.length, s.load k := by
      refine Finset.sum_congr rfl fun k hk => ?_
      rw [load, load, hold k (Finset.mem_range.mp hk)]
      rfl
    have hnew : (s.connected g).load s.peers.length =
        18 + 8 * ((s.logs g.myMachineID).length / EventForwardHandler.eventsPerSend) := by
      rw [load_of_some hlast]
      change (Peer.start g).effort (s.logs g.myMachineID).length (s.service.sent _) = _
      rw [h.unsent _ le_rfl, Peer.effort_start]
    rw [effort, effort, hlength, Finset.sum_range_succ, hloads, hnew]
    change _ + s.service.effort = _
    omega

/-- The server takes a step for session `i`. -/
theorem Moved.spends {t : Service} {paid : ℕ} (up : List CoreMessage) (hp : s.peers[i]? = some p)
    (hspends : Service.Spends i paid s.service t)
    (hup : (up.map CoreMessage.upEffort).sum + paid = (p.up.map CoreMessage.upEffort).sum) :
    Moved i p { p with up := up } s { s.setPeer i { p with up := up } with service := t } ∧
      ({ s.setPeer i { p with up := up } with service := t } : Deployment).effort + 1 ≤
        s.effort := by
  obtain ⟨new, hwrote, hpaid⟩ := hspends
  have hmoved : Moved i p { p with up := up } s
      { s.setPeer i { p with up := up } with service := t } :=
    ⟨hp, rfl, rfl, id, rfl, fun k hk => by
      change t.sent k = _
      rw [hwrote, Function.update_of_ne hk]⟩
  refine ⟨hmoved, hmoved.effort (d := 0) ?_⟩
  have hself : t.sent i = s.service.sent i ++ new := by rw [hwrote, Function.update_self]
  have happend := Peer.effort_append { p with up := up } (s.logs p.machine).length
    (s.service.sent i) new
  change Peer.effort _ (t.sent i) _ + t.effort + 1 ≤ _
  rw [hself]
  simp only [Peer.effort] at happend ⊢
  omega

theorem setPeer_self (hp : s.peers[i]? = some p) : s.setPeer i p = s := by
  obtain ⟨hlt, rfl⟩ := List.getElem?_eq_some_iff.mp hp
  rw [setPeer, List.set_getElem_self hlt]

/-- The server takes a step that no session sees. -/
theorem Counted.quiet (h : Counted s) {t : Service} (hjobs : t.jobs = s.service.jobs)
    (hsent : t.sent = s.service.sent) (hnext : Handshaken { s with service := t }) :
    Counted { s with service := t } ∧ ({ s with service := t } : Deployment).effort = s.effort := by
  refine ⟨⟨hnext, fun i hi => ?_, h.alone⟩, ?_⟩
  · change t.sent i = []
    rw [hsent]
    exact h.unsent i hi
  · simp only [effort, load, Service.effort, hjobs, hsent]

/-- **Every step is paid for.** -/
theorem Counted.step (h : Counted s) (hlogs : ∀ M, (s.logs M).length ≤ n) {asserts : Bool}
    {a : Action} (hstep : s.step asserts a = some s') :
    Counted s' ∧ s'.effort + 1 ≤ s.effort + a.charge n := by
  have hnext := h.handshaken.step hstep
  cases (step_spec hstep).2 with
  | record M r =>
      have heffort := h.effort_addRecord M r
      exact ⟨h.record M r, by simp only [Action.charge]; omega⟩
  | @connect g hidle =>
      obtain ⟨hcounted, heffort⟩ := h.connect hidle
      have hdiv := Nat.div_le_div_right (c := EventForwardHandler.eventsPerSend)
        (hlogs g.myMachineID)
      refine ⟨hcounted, ?_⟩
      change (s.connected g).effort + 1 ≤ _
      simp only [Action.charge]
      omega
  | @thread i p t handler hp hlive hthread =>
      have hmoved : Moved i p { p with handler := handler } s _ := moved_setPeer hp rfl id
      have heffort := EventForwardHandler.effort_threadStep hthread
      rw [handles, List.length_map] at heffort
      refine ⟨h.moved hmoved hnext, hmoved.effort ?_⟩
      simp only [Peer.effort, hlive, if_true, Option.elim_none, Action.charge, setPeer] at heffort ⊢
      omega
  | @send i p t handler evts ac hp hlive hthread =>
      have hset : Moved i p (({ p with handler := handler } : Peer).send
          (CoreMessage.logPackage evts ac)) s _ := moved_setPeer hp rfl id
      have heffort := EventForwardHandler.effort_threadStep hthread
      rw [handles, List.length_map] at heffort
      refine ⟨h.moved ⟨hp, hset.after, rfl, id, rfl, hset.sent⟩ hnext, hset.effort ?_⟩
      simp [Peer.effort, Peer.send, hlive, Action.charge, setPeer, CoreMessage.logPackage,
        CoreMessage.upEffort] at heffort ⊢
      omega
  | @deliver i p m ts hp hlive hm =>
      have hmoved : Moved i p (p.receive asserts s.host ts m) s _ :=
        moved_setPeer hp (Peer.receive_frame asserts s.host ts m).1 fun _ => hlive
      have heffort := Peer.effort_receive (n := (s.logs p.machine).length) hlive hm asserts s.host ts
      refine ⟨h.moved hmoved hnext, hmoved.effort ?_⟩
      simp only [Action.charge, setPeer]
      omega
  | @halt i p hp hlive =>
      have hmoved : Moved i p p.halt s _ := moved_setPeer hp rfl id
      exact ⟨h.moved hmoved hnext, hmoved.effort le_rfl⟩
  | @disconnect i p k hp hlive =>
      have hmoved : Moved i p (p.stop k) s _ := moved_setPeer hp rfl fun _ => hlive
      have heffort := p.effort_stop (s.logs p.machine).length (s.service.sent i) k
      refine ⟨h.moved hmoved hnext, hmoved.effort ?_⟩
      simp only [Peer.effort, Action.charge, setPeer] at heffort ⊢
      omega
  | @read i p m ret up id env ts hp hup hret =>
      have hspends : Service.Spends i ret.upEffort s.service (Service.serve
          { s.service with nextID := id } i (Client.readFromNetwork env ret)).2 :=
        Service.spends_read { s.service with nextID := id } i env ret
      have hpaid : (up.map CoreMessage.upEffort).sum + ret.upEffort =
          (p.up.map CoreMessage.upEffort).sum := by
        rw [hup, List.map_cons, List.sum_cons, upEffort_arriving (transmit_some hret).1]
        omega
      obtain ⟨hmoved, heffort⟩ := Moved.spends up hp hspends hpaid
      exact ⟨h.moved hmoved hnext, heffort⟩
  | @insert j job hj hinserted =>
      obtain ⟨p, hp, _⟩ := h.handshaken.of_job (List.mem_of_getElem? hj)
      obtain ⟨hmoved, heffort⟩ := Moved.spends p.up hp
        (Service.spends_insert hj hinserted) rfl
      rw [setPeer_self hp] at hmoved heffort
      exact ⟨h.moved hmoved hnext, heffort⟩
  | @reply j job hj hinserted =>
      obtain ⟨p, hp, _⟩ := h.handshaken.of_job (List.mem_of_getElem? hj)
      obtain ⟨hmoved, heffort⟩ := Moved.spends p.up hp
        (Service.spends_reply hj hinserted) rfl
      rw [setPeer_self hp] at hmoved heffort
      exact ⟨h.moved hmoved hnext, heffort⟩
  | lose =>
      obtain ⟨hcounted, heffort⟩ := h.quiet (t := { s.service with isOpen := false }) rfl rfl hnext
      exact ⟨hcounted, by rw [heffort]; rfl⟩
  | sigpipe outcome =>
      obtain ⟨hjobs, hsent, _⟩ := s.service.sigpipeHandler_frame asserts outcome
      obtain ⟨hcounted, heffort⟩ := h.quiet hjobs hsent hnext
      exact ⟨hcounted, by rw [heffort]; rfl⟩
  | stop =>
      obtain ⟨hcounted, heffort⟩ := h.quiet (t := { s.service with ended := true }) rfl rfl hnext
      exact ⟨hcounted, by rw [heffort]; rfl⟩

/-! ## Runs -/

/-- How many records the steps add. -/
def records (as : List Action) : ℕ :=
  as.countP fun
    | .record _ _ => true
    | _ => false

theorem charge_mono {n' : ℕ} (h : n ≤ n') (a : Action) : a.charge n ≤ a.charge n' := by
  have hdiv := Nat.div_le_div_right (c := EventForwardHandler.eventsPerSend) h
  cases a with
  | connect g =>
      simp only [Action.charge]
      omega
  | _ => exact le_rfl

/-- Only records lengthen a log. -/
theorem length_logs {asserts : Bool} {a : Action} (hstep : s.step asserts a = some s')
    (M : String) : (s'.logs M).length ≤ (s.logs M).length + records [a] := by
  cases (step_spec hstep).2 with
  | record M' r =>
      by_cases hM : M = M'
      · simp [addRecord, records, hM]
      · simp [addRecord, hM]
  | _ => exact Nat.le_add_right _ _

end

open Transition (run history meets_of_forall)
open Sample (deployment logged)

/-- **Client and server fall quiet.** The number of all steps is bounded by what the outside pays
in: no package, reply or wake-up keeps the clients and the server busy for ever, whatever their
order. -/
theorem falls_quiet {asserts flag : Bool} {db : Database} {nextID : Int32} {host : Process}
    {logs : String → List Record} {as : List Action} {s' : Deployment} {n : ℕ}
    (hlogs : ∀ M, (logs M).length ≤ n)
    (hrun : run (step asserts) (start flag db nextID host logs) as = some s') :
    as.length ≤ (as.map (Action.charge (n + records as))).sum := by
  let P (as : List Action) (s : Deployment) : Prop :=
    Counted s ∧ (∀ M, (s.logs M).length ≤ n + records as) ∧
      as.length + s.effort ≤ (as.map (Action.charge (n + records as))).sum
  have hhistory : P as s' := by
    refine history ?_ ?_ (meets_of_forall (fun _ _ => trivial) _ as) hrun
    · exact ⟨counted_start, hlogs, le_of_eq (by simp [effort, start, Service.effort, Service.start])⟩
    · rintro as s a s₁ ⟨hcounted, hlength, hpaid⟩ - hstep
      have hrecords : records (as ++ [a]) = records as + records [a] := List.countP_append
      obtain ⟨hcounted', heffort⟩ := hcounted.step hlength hstep
      refine ⟨hcounted', fun M => ?_, ?_⟩
      · have hold := hlength M
        have hnew := length_logs hstep M
        omega
      · have hle : n + records as ≤ n + records (as ++ [a]) := by omega
        have hsum : (as.map (Action.charge (n + records as))).sum ≤
            (as.map (Action.charge (n + records (as ++ [a])))).sum :=
          List.sum_le_sum fun b _ => charge_mono hle b
        have hlast := charge_mono hle a
        simp only [List.length_append, List.length_singleton, List.map_append, List.sum_append,
          List.map_cons, List.map_nil, List.sum_singleton]
        omega
  obtain ⟨_, _, hpaid⟩ := hhistory
  omega

theorem falls_quiet_restarted :
    ∃ s', run (step false) (deployment [logged "4" "1" 1]) restarted = some s' ∧
      restarted.length ≤ (restarted.map (Action.charge (1 + records restarted))).sum := by
  obtain ⟨s', hrun⟩ := run_restarted
  refine ⟨s', hrun, falls_quiet (fun M => ?_) hrun⟩
  by_cases hM : M = "m-1" <;> simp [hM]

end Deployment
end ClientService
