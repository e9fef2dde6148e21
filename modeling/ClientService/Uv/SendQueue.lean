import ClientService.Lib.Transition

/-!
# The send queue

`WriteToNetwork` puts a packet into the queue under the mutex and then signals `writeAsync`, after
it has released the mutex. Any number of signals lead to one callback, which holds the mutex while
it passes the whole queue to `uv_write`.

No packet is lost, passed twice, or passed out of order, and none is forgotten: while the queue
has a packet, a callback is pending or some caller is going to signal. A callback is pending from
the signal until the callback has found the queue empty.

## Main definitions

* `SendQueue`, `SendQueue.step` — the queue and its callers.
* `SendQueue.Sound` — the invariant.
-/

namespace ClientService

open Transition (Reaches run)

/-- `SendObject`. -/
structure SendObject where
  buf : List UInt8
  length : ℕ
  /-- The socket, by the number of its session. -/
  sock : ℕ
  deriving DecidableEq, Repr

/-- Where a call of `WriteToNetwork` is. -/
inductive WriteCall where
  | idle
  /-- Before `_mutex.lock()`. -/
  | called (obj : SendObject)
  /-- Before `_sending_queue.emplace`. -/
  | locked (obj : SendObject)
  /-- Before `_mutex.unlock()`. -/
  | emplaced
  /-- Before `uv_async_send`. -/
  | unlocked
  deriving DecidableEq, Repr

/-- Where the callback is, in `_WriteToNetwork`. -/
inductive WriteCallback where
  | idle
  /-- Before `_mutex.lock()`. -/
  | called
  /-- Before the test of the loop. -/
  | testing
  /-- Between `uv_write` and `_sending_queue.pop()`. -/
  | wrote
  /-- Before `_mutex.unlock()`. -/
  | leaving
  deriving DecidableEq, Repr

/-- Who holds `_mutex`. -/
inductive Owner where
  | caller (i : ℕ)
  | callback
  deriving DecidableEq, Repr

structure SendQueue where
  _sending_queue : List SendObject := []
  _mutex : Option Owner := none
  /-- `writeAsync` has been signalled since its callback was last entered. -/
  writeAsync : Bool := false
  callback : WriteCallback := .idle
  calls : ℕ → WriteCall := fun _ => .idle
  /-- What has been put into the queue, and what has been passed to `uv_write`. -/
  enqueued : List SendObject := []
  written : List SendObject := []

namespace SendQueue

inductive Action where
  /-- A thread calls `WriteToNetwork`. -/
  | call (i : ℕ) (obj : SendObject)
  | lock (i : ℕ)
  | emplace (i : ℕ)
  | unlock (i : ℕ)
  | asyncSend (i : ℕ)
  /-- The loop enters the callback. -/
  | enter
  | lockQueue
  /-- The loop's test, and `uv_write` when the queue is not empty. -/
  | test
  | pop
  | unlockQueue

/-- A call of `WriteToNetwork` goes on. -/
def set (s : SendQueue) (i : ℕ) (c : WriteCall) : SendQueue :=
  { s with calls := Function.update s.calls i c }

def step (s : SendQueue) : Action → Option SendQueue
  | .call i obj => if s.calls i = .idle then some (s.set i (.called obj)) else none
  | .lock i =>
      match s.calls i with
      | .called obj =>
          if s._mutex = none then some { s.set i (.locked obj) with _mutex := some (.caller i) }
          else none
      | _ => none
  | .emplace i =>
      match s.calls i with
      | .locked obj => some { s.set i .emplaced with
          _sending_queue := s._sending_queue ++ [obj], enqueued := s.enqueued ++ [obj] }
      | _ => none
  | .unlock i =>
      if s.calls i = .emplaced then some { s.set i .unlocked with _mutex := none } else none
  | .asyncSend i =>
      if s.calls i = .unlocked then some { s.set i .idle with writeAsync := true } else none
  | .enter =>
      if s.callback = .idle ∧ s.writeAsync = true then
        some { s with callback := .called, writeAsync := false }
      else none
  | .lockQueue =>
      if s.callback = .called ∧ s._mutex = none then
        some { s with callback := .testing, _mutex := some .callback }
      else none
  | .test =>
      if s.callback = .testing then
        match s._sending_queue with
        | [] => some { s with callback := .leaving }
        | front :: _ => some { s with callback := .wrote, written := s.written ++ [front] }
      else none
  | .pop =>
      if s.callback = .wrote then
        some { s with callback := .testing, _sending_queue := s._sending_queue.tail }
      else none
  | .unlockQueue =>
      if s.callback = .leaving then some { s with callback := .idle, _mutex := none } else none

/-! ## The invariant -/

end SendQueue

/-- The call holds the mutex. -/
def WriteCall.Holds : WriteCall → Prop
  | .locked _ | .emplaced => True
  | _ => False

/-- The call has put its packet into the queue and has not signalled yet. -/
def WriteCall.Unsignalled : WriteCall → Prop
  | .emplaced | .unlocked => True
  | _ => False

/-- The callback holds the mutex. -/
def WriteCallback.Holds : WriteCallback → Prop
  | .testing | .wrote | .leaving => True
  | _ => False

namespace SendQueue

/-- The part of the queue that has not been passed to `uv_write`. -/
def rest (s : SendQueue) : List SendObject :=
  if s.callback = .wrote then s._sending_queue.tail else s._sending_queue

/-- A callback is going to look at the queue. -/
def Pending (s : SendQueue) : Prop :=
  s.writeAsync = true ∨ s.callback = .called ∨ s.callback = .testing ∨ s.callback = .wrote

/-- No call is in progress, and no callback is pending. -/
def Quiescent (s : SendQueue) : Prop :=
  (∀ i, s.calls i = .idle) ∧ s.writeAsync = false ∧ s.callback = .idle

structure Sound (s : SendQueue) : Prop where
  caller : ∀ i, (s.calls i).Holds ↔ s._mutex = some (.caller i)
  callback : s.callback.Holds ↔ s._mutex = some .callback
  order : s.enqueued = s.written ++ s.rest
  wrote : s.callback = .wrote → s._sending_queue ≠ []
  leaving : s.callback = .leaving → s._sending_queue = []
  wake : s._sending_queue ≠ [] → s.Pending ∨ ∃ i, (s.calls i).Unsignalled

theorem sound_start : Sound {} where
  caller := by simp [WriteCall.Holds]
  callback := by simp [WriteCallback.Holds]
  order := rfl
  wrote := by simp
  leaving := by simp
  wake := by simp

section
variable {s s' : SendQueue}

@[simp] theorem set_calls_self (i : ℕ) (c : WriteCall) : (s.set i c).calls i = c :=
  Function.update_self _ _ _

theorem set_calls_of_ne {i j : ℕ} (h : j ≠ i) (c : WriteCall) :
    (s.set i c).calls j = s.calls j := Function.update_of_ne h _ _

/-- A call that goes on without taking or releasing the mutex. -/
theorem caller_set (h : ∀ j, (s.calls j).Holds ↔ s._mutex = some (.caller j)) {i : ℕ}
    {c : WriteCall} (hc : c.Holds ↔ (s.calls i).Holds) (j : ℕ) :
    ((s.set i c).calls j).Holds ↔ s._mutex = some (.caller j) := by
  by_cases hj : j = i
  · rw [hj, set_calls_self, hc]
    exact h i
  · rw [set_calls_of_ne hj]
    exact h j

/-- Callers that have not signalled yet are still there. -/
theorem unsignalled_set {i : ℕ} (h : ¬(s.calls i).Unsignalled) (c : WriteCall)
    (hex : ∃ j, (s.calls j).Unsignalled) : ∃ j, ((s.set i c).calls j).Unsignalled := by
  obtain ⟨j, hj⟩ := hex
  have hne : j ≠ i := by
    intro heq
    rw [heq] at hj
    exact h hj
  exact ⟨j, by rwa [set_calls_of_ne hne]⟩

/-- A callback that goes on without taking or releasing the mutex. -/
theorem Sound.holding (h : s.Sound) {c c' : WriteCallback} (hc : s.callback = c)
    (hsame : c'.Holds ↔ c.Holds) : c'.Holds ↔ s._mutex = some .callback := by
  rw [hsame, ← hc]
  exact h.callback

/-- Unless the first packet has just been passed, the whole queue is to be passed. -/
theorem Sound.order_of (h : s.Sound) {c : WriteCallback} (hc : s.callback = c) (hne : c ≠ .wrote) :
    s.enqueued = s.written ++ s._sending_queue := by
  have horder := h.order
  rwa [rest, hc, if_neg hne] at horder

/-! ### The callers -/

theorem Sound.call (h : s.Sound) {i : ℕ} (hi : s.calls i = .idle) (obj : SendObject) :
    (s.set i (.called obj)).Sound where
  caller := caller_set h.caller (by rw [hi]; exact Iff.rfl)
  callback := h.callback
  order := h.order
  wrote := h.wrote
  leaving := h.leaving
  wake := by
    intro hne
    rcases h.wake hne with hpending | hex
    · exact Or.inl hpending
    · exact Or.inr (unsignalled_set (by rw [hi]; exact id) _ hex)

theorem Sound.lock (h : s.Sound) {i : ℕ} {obj : SendObject} (hi : s.calls i = .called obj)
    (hfree : s._mutex = none) :
    Sound { s.set i (.locked obj) with _mutex := some (.caller i) } where
  caller := by
    intro j
    by_cases hj : j = i
    · rw [hj]
      exact iff_of_true (by rw [set_calls_self]; trivial) rfl
    · have hheld := h.caller j
      rw [hfree] at hheld
      have hnot : ¬(s.calls j).Holds := fun hholds => nomatch hheld.mp hholds
      refine iff_of_false (by rwa [set_calls_of_ne hj]) ?_
      simp [Ne.symm hj]
  callback := by
    have hheld := h.callback
    rw [hfree] at hheld
    exact iff_of_false (fun hholds => nomatch hheld.mp hholds) (by simp)
  order := h.order
  wrote := h.wrote
  leaving := h.leaving
  wake := by
    intro hne
    rcases h.wake hne with hpending | hex
    · exact Or.inl hpending
    · exact Or.inr (unsignalled_set (by rw [hi]; exact id) _ hex)

/-- The holder of the mutex is alone. -/
theorem Sound.callback_free (h : s.Sound) {i : ℕ} (hi : (s.calls i).Holds) : ¬s.callback.Holds := by
  intro hholds
  have hcaller := (h.caller i).mp hi
  rw [h.callback.mp hholds] at hcaller
  exact nomatch hcaller

theorem Sound.emplace (h : s.Sound) {i : ℕ} {obj : SendObject} (hi : s.calls i = .locked obj) :
    Sound { s.set i .emplaced with
      _sending_queue := s._sending_queue ++ [obj], enqueued := s.enqueued ++ [obj] } := by
  have hfree := h.callback_free (i := i) (by rw [hi]; trivial)
  have hwrote : s.callback ≠ .wrote := by
    intro heq
    rw [heq] at hfree
    exact hfree trivial
  have hleaving : s.callback ≠ .leaving := by
    intro heq
    rw [heq] at hfree
    exact hfree trivial
  constructor
  · exact caller_set h.caller (by rw [hi]; exact Iff.rfl)
  · exact h.callback
  · simp only [rest, set, hwrote, if_false, h.order_of rfl hwrote, List.append_assoc]
  · intro heq
    exact absurd heq hwrote
  · intro heq
    exact absurd heq hleaving
  · intro _
    exact Or.inr ⟨i, by rw [set_calls_self]; trivial⟩

theorem Sound.unlock (h : s.Sound) {i : ℕ} (hi : s.calls i = .emplaced) :
    Sound { s.set i .unlocked with _mutex := none } where
  caller := by
    intro j
    have hheld := (h.caller i).mp (by rw [hi]; trivial)
    by_cases hj : j = i
    · rw [hj]
      exact iff_of_false (by rw [set_calls_self]; exact id) (by simp)
    · have hnot : ¬(s.calls j).Holds := by
        rw [h.caller j, hheld]
        simp [Ne.symm hj]
      exact iff_of_false (by rwa [set_calls_of_ne hj]) (by simp)
  callback := iff_of_false (h.callback_free (i := i) (by rw [hi]; trivial)) (by simp)
  order := h.order
  wrote := h.wrote
  leaving := h.leaving
  wake := fun _ => Or.inr ⟨i, by rw [set_calls_self]; trivial⟩

theorem Sound.asyncSend (h : s.Sound) {i : ℕ} (hi : s.calls i = .unlocked) :
    Sound { s.set i .idle with writeAsync := true } where
  caller := caller_set h.caller (by rw [hi]; exact Iff.rfl)
  callback := h.callback
  order := h.order
  wrote := h.wrote
  leaving := h.leaving
  wake := fun _ => Or.inl (Or.inl rfl)

/-! ### The callback -/

/-- The signal is cleared when the callback is entered. -/
theorem Sound.enter (h : s.Sound) (hc : s.callback = .idle) :
    Sound { s with callback := .called, writeAsync := false } where
  caller := h.caller
  callback := h.holding hc Iff.rfl
  order := h.order_of hc nofun
  wrote := fun heq => nomatch heq
  leaving := fun heq => nomatch heq
  wake := fun _ => Or.inl (Or.inr (Or.inl rfl))

theorem Sound.lockQueue (h : s.Sound) (hc : s.callback = .called) (hfree : s._mutex = none) :
    Sound { s with callback := .testing, _mutex := some .callback } where
  caller := by
    intro i
    have hheld := h.caller i
    rw [hfree] at hheld
    exact iff_of_false (fun hholds => nomatch hheld.mp hholds) (by simp)
  callback := iff_of_true trivial rfl
  order := h.order_of hc nofun
  wrote := fun heq => nomatch heq
  leaving := fun heq => nomatch heq
  wake := fun _ => Or.inl (Or.inr (Or.inr (Or.inl rfl)))

/-- The loop ends when the queue is empty. -/
theorem Sound.testEmpty (h : s.Sound) (hc : s.callback = .testing) (hq : s._sending_queue = []) :
    Sound { s with callback := .leaving } where
  caller := h.caller
  callback := h.holding hc Iff.rfl
  order := h.order_of hc nofun
  wrote := fun heq => nomatch heq
  leaving := fun _ => hq
  wake := fun hne => absurd hq hne

theorem Sound.testFront (h : s.Sound) (hc : s.callback = .testing) {front : SendObject}
    {queue : List SendObject} (hq : s._sending_queue = front :: queue) :
    Sound { s with callback := .wrote, written := s.written ++ [front] } where
  caller := h.caller
  callback := h.holding hc Iff.rfl
  order := by
    have horder := h.order_of hc nofun
    simp only [rest, if_true, hq, List.tail_cons, horder, List.append_assoc, List.singleton_append]
  wrote := by
    intro _
    simp [hq]
  leaving := fun heq => nomatch heq
  wake := fun _ => Or.inl (Or.inr (Or.inr (Or.inr rfl)))

theorem Sound.pop (h : s.Sound) (hc : s.callback = .wrote) :
    Sound { s with callback := .testing, _sending_queue := s._sending_queue.tail } where
  caller := h.caller
  callback := h.holding hc Iff.rfl
  order := by
    have horder := h.order
    rw [rest, if_pos hc] at horder
    exact horder
  wrote := fun heq => nomatch heq
  leaving := fun heq => nomatch heq
  wake := fun _ => Or.inl (Or.inr (Or.inr (Or.inl rfl)))

/-- When the callback ends, the queue is as empty as its last test found it. -/
theorem Sound.unlockQueue (h : s.Sound) (hc : s.callback = .leaving) :
    Sound { s with callback := .idle, _mutex := none } where
  caller := by
    intro i
    have hheld := h.callback.mp (by rw [hc]; trivial)
    have hnot : ¬(s.calls i).Holds := by
      rw [h.caller i, hheld]
      simp
    exact iff_of_false hnot (by simp)
  callback := iff_of_false id (by simp)
  order := h.order_of hc nofun
  wrote := fun heq => nomatch heq
  leaving := fun heq => nomatch heq
  wake := fun hne => absurd (h.leaving hc) hne

/-- **What a step preserves.** -/
theorem sound_step {a : Action} (h : s.Sound) (hstep : s.step a = some s') : s'.Sound := by
  cases a with
  | call i obj =>
      simp only [step, Option.ite_none_right_eq_some, Option.some.injEq] at hstep
      rw [← hstep.2]
      exact h.call hstep.1 obj
  | lock i =>
      cases hi : s.calls i with
      | called obj =>
          simp only [step, hi, Option.ite_none_right_eq_some, Option.some.injEq] at hstep
          rw [← hstep.2]
          exact h.lock hi hstep.1
      | _ => simp [step, hi] at hstep
  | emplace i =>
      cases hi : s.calls i with
      | locked obj =>
          simp only [step, hi, Option.some.injEq] at hstep
          rw [← hstep]
          exact h.emplace hi
      | _ => simp [step, hi] at hstep
  | unlock i =>
      simp only [step, Option.ite_none_right_eq_some, Option.some.injEq] at hstep
      rw [← hstep.2]
      exact h.unlock hstep.1
  | asyncSend i =>
      simp only [step, Option.ite_none_right_eq_some, Option.some.injEq] at hstep
      rw [← hstep.2]
      exact h.asyncSend hstep.1
  | enter =>
      simp only [step, Option.ite_none_right_eq_some, Option.some.injEq] at hstep
      rw [← hstep.2]
      exact h.enter hstep.1.1
  | lockQueue =>
      simp only [step, Option.ite_none_right_eq_some, Option.some.injEq] at hstep
      rw [← hstep.2]
      exact h.lockQueue hstep.1.1 hstep.1.2
  | test =>
      by_cases hc : s.callback = .testing
      · cases hq : s._sending_queue with
        | nil =>
            have hs' : s.step .test = some { s with callback := .leaving } := by
              simp [step, hc, hq]
            rw [hs'] at hstep
            cases hstep
            exact h.testEmpty hc hq
        | cons front queue =>
            have hs' : s.step .test =
                some { s with callback := .wrote, written := s.written ++ [front] } := by
              simp [step, hc, hq]
            rw [hs'] at hstep
            cases hstep
            exact h.testFront hc hq
      · simp [step, hc] at hstep
  | pop =>
      simp only [step, Option.ite_none_right_eq_some, Option.some.injEq] at hstep
      rw [← hstep.2]
      exact h.pop hstep.1
  | unlockQueue =>
      simp only [step, Option.ite_none_right_eq_some, Option.some.injEq] at hstep
      rw [← hstep.2]
      exact h.unlockQueue hstep.1

theorem sound_of_reaches {good : SendQueue → Action → Prop} (h : Reaches step good {} s) :
    s.Sound :=
  h.invariant sound_start fun _ _ _ hs _ hstep => sound_step hs hstep

end

/-- What the queue promises in a state. -/
structure Faithful (s : SendQueue) : Prop where
  /-- Packets are passed to `uv_write` in the order in which they were put into the queue. -/
  passed : s.written <+: s.enqueued
  /-- Those that have not been passed are in the queue, each once. -/
  kept : s.enqueued = s.written ++ s.rest
  /-- A packet in the queue is going to be looked at. -/
  noticed : s._sending_queue ≠ [] → s.Pending ∨ ∃ i, (s.calls i).Unsignalled
  /-- At rest the queue is empty, and everything has been passed. -/
  rests : s.Quiescent → s._sending_queue = [] ∧ s.written = s.enqueued

theorem Sound.faithful {s : SendQueue} (h : s.Sound) : s.Faithful where
  passed := ⟨s.rest, h.order.symm⟩
  kept := h.order
  noticed := h.wake
  rests := by
    intro hquiet
    have hempty : s._sending_queue = [] := by
      by_contra hne
      rcases h.wake hne with (hasync | hcalled | htesting | hwrote) | ⟨i, hi⟩
      · rw [hquiet.2.1] at hasync
        exact nomatch hasync
      · rw [hquiet.2.2] at hcalled
        exact nomatch hcalled
      · rw [hquiet.2.2] at htesting
        exact nomatch htesting
      · rw [hquiet.2.2] at hwrote
        exact nomatch hwrote
      · rw [hquiet.1 i] at hi
        exact hi
    have horder := h.order
    simp only [rest, hquiet.2.2, reduceCtorEq, if_false, hempty, List.append_nil] at horder
    exact ⟨hempty, horder.symm⟩

/-- **The send queue neither loses, duplicates nor reorders packets**, under every interleaving of
its callers with the callback. -/
theorem faithful_of_reaches {s : SendQueue} (h : Reaches step (fun _ _ => True) {} s) :
    s.Faithful :=
  (sound_of_reaches h).faithful

end SendQueue

namespace Sample

/-- Two calls, whose signals lead to one callback. -/
def coalesced : List SendQueue.Action :=
  [.call 0 ⟨[1], 1, 0⟩, .lock 0, .emplace 0, .call 1 ⟨[2], 1, 1⟩, .unlock 0, .lock 1, .emplace 1,
    .unlock 1, .asyncSend 1, .asyncSend 0, .enter, .lockQueue, .test, .pop, .test, .pop, .test,
    .unlockQueue]

end Sample

namespace SendQueue

/-- The callback passes both packets. -/
theorem faithful_coalesced :
    ∃ s, run step {} Sample.coalesced = some s ∧ s.written.length = 2 ∧ s.Faithful := by
  have hlength : (run step {} Sample.coalesced).map (fun s => s.written.length) = some 2 := rfl
  obtain ⟨s, hrun, hs⟩ := Option.map_eq_some_iff.mp hlength
  have hreach : Reaches step (fun _ _ => True) {} s :=
    Transition.reaches_of_run .refl (Transition.meets_of_forall (fun _ _ => trivial) _ _) hrun
  exact ⟨s, hrun, hs, faithful_of_reaches hreach⟩

end SendQueue
end ClientService
