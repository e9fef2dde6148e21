import ClientService.Lib.Transition
import ClientService.Protobuf.Codec
import ClientService.Service.Handler

/-!
# Wake-ups of the forwarding thread

The thread should never wait while records are unread, unless an event is set or the reply to a
package with `needAccept` is still to come. Both events are reset after the work. A record that
comes between `EvtNext` and the reset is announced by a signal that the reset wipes out, and so
is an accepted package. A batch that was cut short sends no package with `needAccept`, and a reply
that is lost or a refusal wakes nobody.

## Main definitions

* `Forwarding` — the subscription, the thread, and the replies that are outstanding.
* `Forwarding.Stalled` — the thread waits for nothing.
* `Forwarding.Undisturbed` — steps after which it never does.
-/

namespace ClientService

open Transition (Reaches run Meets meets_of_forall reaches_of_run)

structure Forwarding where
  log : List Handle
  handler : EventForwardHandler := {}
  /-- The packages with `needAccept` whose reply has neither come nor been lost. -/
  outstanding : ℕ := 0

namespace Forwarding

inductive Action where
  /-- Windows adds a record, and sets the event of the subscription. -/
  | record (h : Handle)
  | thread (a : ThreadAction)
  /-- The network thread handles a package. -/
  | returned (lid : UInt32)
  | accepted (lid : UInt32)
  /-- A reply is a refusal, or is lost. -/
  | unanswered
  | stop
  deriving DecidableEq, Repr

/-- What may happen. A package is accepted when it was sent with `needAccept`. -/
def step (s : Forwarding) : Action → Option Forwarding
  | .record h => some { s with log := s.log ++ [h], handler := s.handler.setEvent .subscribe }
  | .thread a =>
      (s.handler.threadStep s.log a).map fun (handler, package) =>
        { s with
          handler := handler
          outstanding :=
            match package with
            | some (_, true) => s.outstanding + 1
            | _ => s.outstanding }
  | .returned lid =>
      some { s with handler := s.handler.getProtobufPackage (.returnLastEvent lid) }
  | .accepted lid =>
      if 0 < s.outstanding then
        some { s with handler := s.handler.getProtobufPackage (.acceptLastEvent lid)
                      outstanding := s.outstanding - 1 }
      else none
  | .unanswered =>
      if 0 < s.outstanding then some { s with outstanding := s.outstanding - 1 } else none
  | .stop => some { s with handler := { s.handler with stop := true } }

/-- All records of the subscription have been taken. -/
def AllRead (s : Forwarding) : Prop := s.log.length ≤ s.handler.taken

instance (s : Forwarding) : Decidable s.AllRead := inferInstanceAs (Decidable (_ ≤ _))

/-- The thread is blocked, records are unread, and nothing is on its way that would wake it. -/
structure Stalled (s : Forwarding) : Prop where
  waiting : s.handler.pc = .waiting
  blocked : s.handler.stop = false
  unread : ¬s.AllRead
  subscribe : s.handler.subscribe = false
  upload : s.handler.upload = false
  outstanding : s.outstanding = 0

/-! ## The condition -/

end Forwarding

/-- The event that the thread is going to reset, once it has taken its batch. -/
def Pc.clearing : Pc → Option WaitHandle
  | .read event _ _ => some event
  | .sent event => some event
  | _ => none

instance : Fintype WaitHandle where
  elems := {.subscribe, .upload}
  complete event := by
    cases event with
    | subscribe => exact Finset.mem_insert_self _ _
    | upload => exact Finset.mem_insert_of_mem (Finset.mem_singleton_self _)

/-- The package to be sent is going to be one with `needAccept`. -/
def Pc.Full : Pc → Prop
  | .read _ count _ => count = Int32.ofNat EventForwardHandler.eventsPerSend
  | _ => False

instance : ∀ pc : Pc, Decidable pc.Full
  | .read _ _ _ => inferInstanceAs (Decidable (_ = _))
  | .suspended | .starting | .waiting | .woken _ | .sent _ | .exited => isFalse id

/-- The thread waits, or is going to wait before it takes another batch. -/
def Pc.Idle : Pc → Prop
  | .waiting | .read _ _ _ | .sent _ => True
  | _ => False

instance : ∀ pc : Pc, Decidable pc.Idle
  | .waiting | .read _ _ _ | .sent _ => isTrue trivial
  | .suspended | .starting | .woken _ | .exited => isFalse id

namespace EventForwardHandler

/-- An event is set that is not going to be reset before the thread waits. -/
def Signalled (h : EventForwardHandler) : Option WaitHandle → Prop
  | none => h.subscribe = true ∨ h.upload = true
  | some .subscribe => h.upload = true
  | some .upload => h.subscribe = true

instance (h : EventForwardHandler) : ∀ event, Decidable (h.Signalled event)
  | none => inferInstanceAs (Decidable (_ ∨ _))
  | some .subscribe | some .upload => inferInstanceAs (Decidable (_ = true))

end EventForwardHandler

namespace Forwarding

/-- Something other than the last `n` outstanding replies is going to wake the thread. -/
def Due (s : Forwarding) (n : ℕ) : Prop :=
  s.handler.Signalled s.handler.pc.clearing ∨ s.handler.pc.Full ∨ n < s.outstanding

instance (s : Forwarding) (n : ℕ) : Decidable (s.Due n) := inferInstanceAs (Decidable (_ ∨ _ ∨ _))

/-- Steps after which the thread does not stall. -/
def Undisturbed (s : Forwarding) : Action → Prop
  | .record _ => s.handler.pc.clearing = some .subscribe → s.Due 0
  | .accepted _ => s.handler.pc.clearing = some .upload → s.AllRead ∨ s.Due 1
  | .unanswered => s.handler.pc.Idle → s.AllRead ∨ s.Due 1
  | .thread (.enumerate taking _) => ∀ event, s.handler.pc = .woken event →
      s.handler.Signalled (some event) ∨ 0 < s.outstanding ∨
        match taking with
        | .failed lastError => s.AllRead ∨ lastError = 30 ∨ lastError.toInt32 < 0
        | .returned n => s.log.length = s.handler.taken + n ∨
            n = EventForwardHandler.eventsPerSend ∧
              ∀ h ∈ (s.log.drop s.handler.taken).take n, h.printed.isSome
  | _ => True

instance decidableUndisturbed (s : Forwarding) : ∀ a, Decidable (s.Undisturbed a)
  | .record _ => inferInstanceAs (Decidable (_ → s.Due 0))
  | .accepted _ => inferInstanceAs (Decidable (_ → s.AllRead ∨ s.Due 1))
  | .unanswered => inferInstanceAs (Decidable (_ → s.AllRead ∨ s.Due 1))
  | .thread (.enumerate (.failed _) _) =>
      inferInstanceAs (Decidable (∀ _ : WaitHandle, _ = _ → _ ∨ _ ∨ s.AllRead ∨ _ ∨ _))
  | .thread (.enumerate (.returned _) _) =>
      inferInstanceAs (Decidable (∀ _ : WaitHandle, _ = _ → _ ∨ _ ∨ _ ∨ _ ∧ ∀ h ∈ _, _))
  | .thread (.subscribe _) | .thread .wait | .thread .send | .thread .reset | .returned _ | .stop =>
      isTrue trivial

/-! ## The invariant -/

/-- Before the thread has waited, the event of the subscription is set. Whenever it waits or is
going to, either nothing is unread or it is going to be woken. -/
structure Awake (s : Forwarding) : Prop where
  fresh : s.handler.pc = .suspended ∨ s.handler.pc = .starting → s.handler.subscribe = true
  idle : s.handler.pc.Idle → s.AllRead ∨ s.Due 0

theorem Awake.wakes {s : Forwarding} (h : s.Awake) : ¬s.Stalled := by
  intro hs
  have hpc := hs.waiting
  have hidle := h.idle (by rw [hpc]; trivial)
  have hsub := hs.subscribe
  have hup := hs.upload
  have hout := hs.outstanding
  simp [hs.unread, Due, hpc, Pc.clearing, Pc.Full, EventForwardHandler.Signalled, hsub, hup,
    hout] at hidle

theorem awake_start (log : List Handle) : Awake { log := log } where
  fresh := fun _ => rfl
  idle := fun h => nomatch h

/-! ## The steps -/

section
variable {s s' : Forwarding}

theorem awake_record {r : Handle} (hgood : s.Undisturbed (.record r)) :
    Awake { s with log := s.log ++ [r], handler := s.handler.setEvent .subscribe } where
  fresh := fun _ => rfl
  idle := by
    intro _
    right
    cases hc : s.handler.pc.clearing with
    | none =>
        exact Or.inl (by simp [EventForwardHandler.setEvent, hc, EventForwardHandler.Signalled])
    | some event =>
        cases event with
        | subscribe =>
            have hdue := hgood hc
            simpa [Due, EventForwardHandler.setEvent, hc, EventForwardHandler.Signalled] using hdue
        | upload =>
            exact Or.inl (by simp [EventForwardHandler.setEvent, hc, EventForwardHandler.Signalled])

theorem Awake.returned (h : s.Awake) (lid : UInt32) :
    Awake { s with handler := s.handler.getProtobufPackage (.returnLastEvent lid) } := by
  simp only [EventForwardHandler.getProtobufPackage, EventForwardHandler.resumeThread]
  by_cases hzero : s.handler.lastEventIDUploaded = 0
  · rw [if_pos hzero]
    by_cases hpc : s.handler.pc = .suspended
    · rw [if_pos hpc]
      constructor
      · intro _
        exact h.fresh (Or.inl hpc)
      · intro hidle
        exact nomatch hidle
    · rw [if_neg hpc]
      exact ⟨h.fresh, h.idle⟩
  · rw [if_neg hzero]
    exact h

theorem Awake.accepted (h : s.Awake) {lid : UInt32} (hgood : s.Undisturbed (.accepted lid)) :
    Awake { s with handler := s.handler.getProtobufPackage (.acceptLastEvent lid)
                   outstanding := s.outstanding - 1 } where
  fresh := h.fresh
  idle := by
    intro hidle
    cases hc : s.handler.pc.clearing with
    | none =>
        right
        left
        simp [EventForwardHandler.getProtobufPackage, EventForwardHandler.setEvent, hc,
          EventForwardHandler.Signalled]
    | some event =>
        cases event with
        | subscribe =>
            right
            left
            simp [EventForwardHandler.getProtobufPackage, EventForwardHandler.setEvent, hc,
              EventForwardHandler.Signalled]
        | upload =>
            rcases hgood hc with hread | hdue | hfull | hout
            · exact Or.inl hread
            · rw [hc] at hdue
              right
              left
              simpa [EventForwardHandler.getProtobufPackage, EventForwardHandler.setEvent, hc,
                EventForwardHandler.Signalled] using hdue
            · exact Or.inr (Or.inr (Or.inl hfull))
            · refine Or.inr (Or.inr (Or.inr ?_))
              change 0 < s.outstanding - 1
              omega

theorem Awake.unanswered (h : s.Awake) (hgood : s.Undisturbed .unanswered) :
    Awake { s with outstanding := s.outstanding - 1 } where
  fresh := h.fresh
  idle := by
    intro hidle
    rcases hgood hidle with hread | hdue | hfull | hout
    · exact Or.inl hread
    · exact Or.inr (Or.inl hdue)
    · exact Or.inr (Or.inr (Or.inl hfull))
    · refine Or.inr (Or.inr (Or.inr ?_))
      change 0 < s.outstanding - 1
      omega

/-! ### The thread -/

/-- The thread begins to wait with the event of the subscription set. -/
theorem Awake.subscribe (h : s.Awake) (hpc : s.handler.pc = .starting) (succeeds : Bool) :
    Awake { s with
      handler := { s.handler with pc := if succeeds then .waiting else .exited } } := by
  have hset := h.fresh (Or.inr hpc)
  cases succeeds with
  | false =>
      constructor
      · intro hpc'
        simp at hpc'
      · intro hidle
        exact nomatch hidle
  | true =>
      constructor
      · intro _
        exact hset
      · intro _
        exact Or.inr (Or.inl (Or.inl hset))

/-- When the wait ends, a batch is taken before the next one begins. -/
theorem Awake.wait {pc : Pc} (hwait : s.handler.waitForMultipleObjects = some pc) :
    Awake { s with handler := { s.handler with pc := pc } } := by
  rcases EventForwardHandler.waitForMultipleObjects_spec hwait with rfl | ⟨event, rfl⟩
  · constructor
    · intro hpc
      simp at hpc
    · intro hidle
      exact nomatch hidle
  · constructor
    · intro hpc
      simp at hpc
    · intro hidle
      exact nomatch hidle

/-- After a batch, either nothing is unread or the thread is going to be woken. -/
theorem covered_of_undisturbed {event : WaitHandle} {taking : Taking} {e : Event}
    (hpc : s.handler.pc = .woken event)
    (hpossible : EventForwardHandler.Possible s.log s.handler.taken taking)
    (hgood : s.Undisturbed (.thread (.enumerate taking e))) {start t : Enumeration}
    {count : Int32}
    (hrun : enumerateResults (EventForwardHandler.evtNext s.log s.handler.taken taking)
      s.handler.lastEventIDUploaded start = some (count, t)) (hcount : ¬count < 0) :
    s.log.length ≤ s.handler.taken + taking.number ∨ s.handler.Signalled (some event) ∨
      count = Int32.ofNat EventForwardHandler.eventsPerSend ∨ 0 < s.outstanding := by
  rcases hgood event hpc with hsignal | hout | hgood
  · exact Or.inr (Or.inl hsignal)
  · exact Or.inr (Or.inr (Or.inr hout))
  · cases taking with
    | failed lastError =>
        cases hrun
        rcases hgood with hread | h30 | hneg
        · exact Or.inl hread
        · right
          right
          left
          rw [h30]
          rfl
        · exact absurd hneg hcount
    | returned n =>
        rcases hgood with hall | ⟨hn, hrendered⟩
        · exact Or.inl (le_of_eq hall)
        · have hlength : ((s.log.drop s.handler.taken).take n).length = n := by
            have hle := hpossible.2.2
            rw [List.length_take, List.length_drop]
            omega
          have hprinted : ((s.log.drop s.handler.taken).take n).all
              (fun h => h.printed.isSome) = true := List.all_eq_true.mpr hrendered
          right
          right
          left
          rw [count_of_returned hrun, if_pos hprinted, hlength, hn]

theorem awake_enumerate {event : WaitHandle} {taking : Taking} {e : Event}
    (hpc : s.handler.pc = .woken event)
    (hpossible : EventForwardHandler.Possible s.log s.handler.taken taking)
    (hgood : s.Undisturbed (.thread (.enumerate taking e))) {start t : Enumeration}
    {count : Int32}
    (hrun : enumerateResults (EventForwardHandler.evtNext s.log s.handler.taken taking)
      s.handler.lastEventIDUploaded start = some (count, t)) :
    Awake { s with handler := { s.handler with
      taken := s.handler.taken + taking.number
      metadata := t.metadata
      pc := if count < 0 then .exited else .read event count t.sent } } := by
  by_cases hcount : count < 0
  · rw [if_pos hcount]
    constructor
    · intro hpc
      simp at hpc
    · intro hidle
      exact nomatch hidle
  · rw [if_neg hcount]
    constructor
    · intro hpc
      simp at hpc
    · intro _
      exact covered_of_undisturbed hpc hpossible hgood hrun hcount

/-- A full batch is sent with `needAccept`, so its reply is outstanding. -/
theorem Awake.send (h : s.Awake) {event : WaitHandle} {count : Int32} {evts : List Event}
    (hpc : s.handler.pc = .read event count evts) :
    Awake { s with
      handler := { s.handler with pc := .sent event }
      outstanding :=
        if count = Int32.ofNat EventForwardHandler.eventsPerSend then s.outstanding + 1
        else s.outstanding } where
  fresh := by
    intro hpc
    simp at hpc
  idle := by
    intro _
    by_cases hfull : count = Int32.ofNat EventForwardHandler.eventsPerSend
    · rw [if_pos hfull]
      exact Or.inr (Or.inr (Or.inr (Nat.succ_pos _)))
    · rw [if_neg hfull]
      have hidle := h.idle (by rw [hpc]; trivial)
      simpa [AllRead, Due, hpc, Pc.clearing, Pc.Full, hfull,
        EventForwardHandler.Signalled] using hidle

theorem Awake.reset (h : s.Awake) {event : WaitHandle} (hpc : s.handler.pc = .sent event) :
    Awake { s with handler := { s.handler.resetEvent event with pc := .waiting } } where
  fresh := by
    intro hpc
    simp at hpc
  idle := by
    intro _
    have hidle := h.idle (by rw [hpc]; trivial)
    cases event <;>
      simpa [AllRead, Due, hpc, Pc.clearing, Pc.Full, EventForwardHandler.resetEvent,
        EventForwardHandler.Signalled] using hidle

theorem Awake.thread (h : s.Awake) {a : ThreadAction} (hgood : s.Undisturbed (.thread a))
    (hstep : s.step (.thread a) = some s') : s'.Awake := by
  obtain ⟨⟨handler, package⟩, hthread, rfl⟩ := Option.map_eq_some_iff.mp hstep
  cases EventForwardHandler.threadStep_spec hthread with
  | subscribe succeeds hpc => exact h.subscribe hpc succeeds
  | wait hpc hwait => exact Awake.wait hwait
  | @enumerate event taking e count t hpc hpossible hrun =>
      exact awake_enumerate hpc hpossible hgood hrun
  | @send event count evts hpc =>
      have hsend := h.send hpc
      by_cases hfull : count = Int32.ofNat EventForwardHandler.eventsPerSend
      · simpa [hfull] using hsend
      · simpa [hfull] using hsend
  | reset hpc => exact h.reset hpc

/-- **What a step preserves.** -/
theorem awake_step {a : Action} (h : s.Awake) (hgood : s.Undisturbed a)
    (hstep : s.step a = some s') : s'.Awake := by
  cases a with
  | record r =>
      cases hstep
      exact awake_record hgood
  | thread a => exact h.thread hgood hstep
  | returned lid =>
      cases hstep
      exact h.returned lid
  | accepted lid =>
      simp only [step, Option.ite_none_right_eq_some, Option.some.injEq] at hstep
      rw [← hstep.2]
      exact h.accepted hgood
  | unanswered =>
      simp only [step, Option.ite_none_right_eq_some, Option.some.injEq] at hstep
      rw [← hstep.2]
      exact h.unanswered hgood
  | stop =>
      cases hstep
      exact ⟨h.fresh, h.idle⟩

end

/-- **The thread never stalls** in a run whose steps are undisturbed. -/
theorem not_stalled {log : List Handle} {s : Forwarding}
    (h : Reaches step Undisturbed { log := log } s) : ¬s.Stalled :=
  (h.invariant (awake_start log) fun _ _ _ hs hgood hstep => awake_step hs hgood hstep).wakes

end Forwarding

namespace Sample

/-- A record that can be rendered. -/
def handle : Handle where
  printed := some ⟨"<Event/>", some ⟨some "4", some "1", some "scope", some "2018-01-01"⟩⟩
  published := false
  message := .notFound

/-- The client after it has learnt the resume point 1, with `log` in the subscription. -/
def forwarding (log : List Handle) (pc : Pc) (taken : ℕ) (subscribe : Bool) : Forwarding where
  log := log
  handler := { lastEventIDUploaded := 1, pc := pc, taken := taken, subscribe := subscribe }

end Sample

namespace Forwarding

open Sample (handle forwarding)

/-- A full batch is taken from thirty-one records, and sent with `needAccept`. -/
def fullBatch : List Action :=
  [.returned 1, .thread (.subscribe true), .thread .wait,
    .thread (.enumerate (.returned 30) Sample.event), .thread .send, .thread .reset]

/-- The thread waits for the reply, and one record is unread. -/
theorem not_stalled_fullBatch :
    ∃ s, run step { log := List.replicate 31 handle } fullBatch = some s ∧
      s.handler.pc = .waiting ∧ ¬s.AllRead ∧ ¬s.Stalled := by
  have hsome : (run step { log := List.replicate 31 handle } fullBatch).isSome = true := by
    decide +kernel
  have hlast : ∀ s ∈ run step { log := List.replicate 31 handle } fullBatch,
      s.handler.pc = .waiting ∧ ¬s.AllRead := by decide +kernel
  obtain ⟨s, hrun⟩ := Option.isSome_iff_exists.mp hsome
  have hgood : Meets step Undisturbed { log := List.replicate 31 handle } fullBatch := by
    decide +kernel
  obtain ⟨hwaiting, hunread⟩ := hlast s hrun
  exact ⟨s, hrun, hwaiting, hunread, not_stalled (reaches_of_run .refl hgood hrun)⟩

/-- A second record comes between `EvtNext` and the reset: the thread stalls. -/
theorem stalled_race :
    ¬∀ (log : List Handle) (s : Forwarding), Reaches step (fun _ _ => True) { log := log } s →
      ¬s.Stalled := by
  intro h
  let race : List Action :=
    [.returned 1, .thread (.subscribe true), .thread .wait,
      .thread (.enumerate (.returned 1) Sample.event), .record handle, .thread .send,
      .thread .reset]
  have hrun : run step { log := [handle] } race =
      some (forwarding [handle, handle] .waiting 1 false) := rfl
  have hreach := reaches_of_run .refl (meets_of_forall (fun _ _ => trivial) _ race) hrun
  exact h _ _ hreach ⟨rfl, rfl, by decide, rfl, rfl, rfl⟩

end Forwarding
end ClientService
