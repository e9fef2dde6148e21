import ClientService.Service.Enumerate

/-!
# `EventForwardHandler`

The client's thread that forwards records, and what the network thread does to it. The thread is
created suspended and resumed by the first resume point. It waits for one of its events, takes a
batch from the subscription, sends it, and resets the event it was woken by.

The subscription starts at the oldest record, so a record is unread when fewer have been taken.

## Main definitions

* `EventForwardHandler` — the object and the program counter of its thread.
* `EventForwardHandler.threadStep` — a step of the thread.
* `EventForwardHandler.getProtobufPackage` — a package from the server.
-/

namespace ClientService

/-- The manual-reset events that wake the thread for work. -/
inductive WaitHandle where
  | subscribe
  | upload
  deriving DecidableEq, Repr

/-- Where the thread is. -/
inductive Pc where
  /-- Created, and not yet resumed. -/
  | suspended
  /-- Before `EvtSubscribe`. -/
  | starting
  /-- In `WaitForMultipleObjects`. -/
  | waiting
  | woken (event : WaitHandle)
  /-- `EnumerateResults` has returned `count`. -/
  | read (event : WaitHandle) (count : Int32) (eventsToSend : List Event)
  /-- Before `ResetEvent`. -/
  | sent (event : WaitHandle)
  | exited
  deriving DecidableEq, Repr

structure EventForwardHandler where
  lastEventIDUploaded : UInt32 := 0
  /-- The events of `aWaitHandles`. -/
  stop : Bool := false
  subscribe : Bool := true
  upload : Bool := false
  pc : Pc := .suspended
  /-- The number of records that `EvtNext` has taken. -/
  taken : ℕ := 0
  /-- The map of `GetMetadataMap`. -/
  metadata : List String := []
  deriving DecidableEq, Repr

/-- How `EvtNext` ends: with an error, or with this many records. -/
inductive Taking where
  | failed (lastError : UInt32)
  | returned (n : ℕ)
  deriving DecidableEq, Repr

/-- The number of records taken. -/
def Taking.number : Taking → ℕ
  | .failed _ => 0
  | .returned n => n

inductive ThreadAction where
  | subscribe (succeeds : Bool)
  | wait
  /-- `e` is what the memory of the local `Event` holds. -/
  | enumerate (taking : Taking) (e : Event)
  | send
  | reset
  deriving DecidableEq, Repr

namespace EventForwardHandler

def eventsPerSend : ℕ := 30

/-- `ResetEvent`. -/
def resetEvent (h : EventForwardHandler) : WaitHandle → EventForwardHandler
  | .subscribe => { h with subscribe := false }
  | .upload => { h with upload := false }

/-- `SetEvent`. -/
def setEvent (h : EventForwardHandler) : WaitHandle → EventForwardHandler
  | .subscribe => { h with subscribe := true }
  | .upload => { h with upload := true }

/-- The first of the events that is set, in the order of `aWaitHandles`. -/
def waitForMultipleObjects (h : EventForwardHandler) : Option Pc :=
  if h.stop then some .exited
  else if h.subscribe then some (.woken .subscribe)
  else if h.upload then some (.woken .upload)
  else none

/-- What `EvtNext` may do: an error other than `ERROR_NO_MORE_ITEMS` at any time, and otherwise
at most `eventsPerSend` of the unread records. -/
def Possible (log : List Handle) (taken : ℕ) : Taking → Prop
  | .failed lastError => lastError = errorNoMoreItems → log.length ≤ taken
  | .returned n => 0 < n ∧ n ≤ eventsPerSend ∧ taken + n ≤ log.length

instance (log : List Handle) (taken : ℕ) (taking : Taking) :
    Decidable (Possible log taken taking) := by
  cases taking <;> unfold Possible <;> infer_instance

/-- The handles that `EvtNext` yields. -/
def evtNext (log : List Handle) (taken : ℕ) : Taking → EvtNext
  | .failed lastError => .failed lastError
  | .returned n => .returned ((log.drop taken).take n)

/-- A step of the thread, and the package that it sends. There is none when `EnumerateResults` ends
the process. -/
def threadStep (log : List Handle) (h : EventForwardHandler) :
    ThreadAction → Option (EventForwardHandler × Option (List Event × Bool))
  | .subscribe succeeds =>
      if h.pc = .starting then
        some ({ h with pc := if succeeds then .waiting else .exited }, none)
      else none
  | .wait =>
      if h.pc = .waiting then h.waitForMultipleObjects.map fun pc => ({ h with pc := pc }, none)
      else none
  | .enumerate taking e =>
      match h.pc with
      | .woken event =>
          if Possible log h.taken taking then
            (enumerateResults (evtNext log h.taken taking) h.lastEventIDUploaded
              ⟨e, [], h.metadata, []⟩).map fun (count, s) =>
              ({ h with
                taken := h.taken + taking.number
                metadata := s.metadata
                pc := if count < 0 then .exited else .read event count s.sent }, none)
          else none
      | _ => none
  | .send =>
      match h.pc with
      | .read event count eventsToSend =>
          some ({ h with pc := .sent event },
            some (eventsToSend, decide (count = Int32.ofNat eventsPerSend)))
      | _ => none
  | .reset =>
      match h.pc with
      | .sent event => some ({ h.resetEvent event with pc := .waiting }, none)
      | _ => none

/-- `ResumeThread`. -/
def resumeThread (h : EventForwardHandler) : EventForwardHandler :=
  if h.pc = .suspended then { h with pc := .starting } else h

/-- `GetProtobufPackage`. -/
def getProtobufPackage (h : EventForwardHandler) (msg : Package) : EventForwardHandler :=
  match msg with
  | .returnLastEvent lid =>
      if h.lastEventIDUploaded = 0 then
        resumeThread { h with lastEventIDUploaded := lid }
      else h
  | .acceptLastEvent lid => setEvent { h with lastEventIDUploaded := lid } .upload
  | _ => h

/-! ## Steps -/

/-- When the wait ends, the thread exits or takes a batch. -/
theorem waitForMultipleObjects_spec {h : EventForwardHandler} {pc : Pc}
    (hwait : h.waitForMultipleObjects = some pc) : pc = .exited ∨ ∃ event, pc = .woken event := by
  rw [waitForMultipleObjects] at hwait
  by_cases hstop : h.stop = true
  · rw [if_pos hstop] at hwait
    exact Or.inl (Option.some.inj hwait).symm
  · rw [if_neg hstop] at hwait
    by_cases hsub : h.subscribe = true
    · rw [if_pos hsub] at hwait
      exact Or.inr ⟨_, (Option.some.inj hwait).symm⟩
    · rw [if_neg hsub] at hwait
      by_cases hup : h.upload = true
      · rw [if_pos hup] at hwait
        exact Or.inr ⟨_, (Option.some.inj hwait).symm⟩
      · rw [if_neg hup] at hwait
        exact nomatch hwait

/-- What a step of the thread does. -/
inductive Threaded (log : List Handle) (h : EventForwardHandler) :
    ThreadAction → EventForwardHandler → Option (List Event × Bool) → Prop
  | subscribe (succeeds : Bool) (hpc : h.pc = .starting) : Threaded log h (.subscribe succeeds)
      { h with pc := if succeeds then .waiting else .exited } none
  | wait {pc : Pc} (hpc : h.pc = .waiting) (hwait : h.waitForMultipleObjects = some pc) :
      Threaded log h .wait { h with pc := pc } none
  | enumerate {event : WaitHandle} {taking : Taking} {e : Event} {count : Int32} {s : Enumeration}
      (hpc : h.pc = .woken event) (hpossible : Possible log h.taken taking)
      (hrun : enumerateResults (evtNext log h.taken taking) h.lastEventIDUploaded
        ⟨e, [], h.metadata, []⟩ = some (count, s)) :
      Threaded log h (.enumerate taking e) { h with
        taken := h.taken + taking.number
        metadata := s.metadata
        pc := if count < 0 then .exited else .read event count s.sent } none
  | send {event : WaitHandle} {count : Int32} {eventsToSend : List Event}
      (hpc : h.pc = .read event count eventsToSend) :
      Threaded log h .send { h with pc := .sent event }
        (some (eventsToSend, decide (count = Int32.ofNat eventsPerSend)))
  | reset {event : WaitHandle} (hpc : h.pc = .sent event) :
      Threaded log h .reset { h.resetEvent event with pc := .waiting } none

theorem threadStep_spec {log : List Handle} {h h' : EventForwardHandler} {a : ThreadAction}
    {package : Option (List Event × Bool)} (hstep : h.threadStep log a = some (h', package)) :
    Threaded log h a h' package := by
  cases a with
  | subscribe succeeds =>
      simp only [threadStep, Option.ite_none_right_eq_some, Option.some.injEq, Prod.mk.injEq]
        at hstep
      obtain ⟨hpc, rfl, rfl⟩ := hstep
      exact .subscribe succeeds hpc
  | wait =>
      simp only [threadStep, Option.ite_none_right_eq_some, Option.map_eq_some_iff,
        Prod.mk.injEq] at hstep
      obtain ⟨hpc, pc, hwait, rfl, rfl⟩ := hstep
      exact .wait hpc hwait
  | enumerate taking e =>
      cases hpc : h.pc with
      | woken event =>
          simp only [threadStep, hpc, Option.ite_none_right_eq_some, Option.map_eq_some_iff,
            Prod.mk.injEq] at hstep
          obtain ⟨hpossible, ⟨count, s⟩, hrun, rfl, rfl⟩ := hstep
          exact .enumerate hpc hpossible hrun
      | _ => simp [threadStep, hpc] at hstep
  | send =>
      cases hpc : h.pc with
      | read event count evts =>
          simp only [threadStep, hpc, Option.some.injEq, Prod.mk.injEq] at hstep
          obtain ⟨rfl, rfl⟩ := hstep
          exact .send hpc
      | _ => simp [threadStep, hpc] at hstep
  | reset =>
      cases hpc : h.pc with
      | sent event =>
          simp only [threadStep, hpc, Option.some.injEq, Prod.mk.injEq] at hstep
          obtain ⟨rfl, rfl⟩ := hstep
          exact .reset hpc
      | _ => simp [threadStep, hpc] at hstep

end EventForwardHandler
end ClientService
