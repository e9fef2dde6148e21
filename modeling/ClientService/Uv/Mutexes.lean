import ClientService.Lib.Locks

/-!
# The mutexes of the server

The loop's thread and the workers of libuv share four kinds of mutexes: that of a session, that of
its decoder, `_uvMutex`, which `GetUVHandler` takes to return the one `UvHandler`, and the mutex of
that `UvHandler`. Every function takes them in this order, so no calls wait for each other.

A signal handler calls `GetUVHandler` too, on top of whatever its thread is doing. When the thread
is in `GetUVHandler` itself, it waits for itself, and nothing releases `_uvMutex` again.

## Main definitions

* `Mutex`, `Mutex.rank` — the mutexes and their order.
* `Callback.program`, `work`, `signalHandler` — what each thread does with them.
* `Mutexes.step` — the threads of the server.
* `Mutexes.Outside` — a signal comes outside of the last two sections.
-/

namespace ClientService

open Locks (Above SelfBlocked guarded above_nil above_flatMap)
open Transition (Reaches run)

/-- The mutexes of the server. -/
inductive Mutex where
  /-- `Client::_mutex` of session `i`. -/
  | client (i : ℕ)
  /-- The `_mutex` in the decoder of session `i`. -/
  | decoder (i : ℕ)
  /-- `_uvMutex`. -/
  | uv
  /-- `UvHandler::_mutex`. -/
  | handler
  deriving DecidableEq, Repr

/-- The order in which they are taken. -/
def Mutex.rank : Mutex → ℕ
  | .client _ => 0
  | .decoder _ => 1
  | .uv => 2
  | .handler => 3

/-- What a function does with the mutexes. -/
abbrev Program : Type := List (Locks.Op Mutex)

namespace Mutexes

/-! ## The functions -/

/-- `GetUVHandler`. -/
def getUvHandler : Program := guarded .uv []

/-- `DestroyUvHandler`: the destructor takes the mutex of the handler. -/
def destroyUvHandler : Program := guarded .uv (guarded .handler [])

def addClient : Program := guarded .handler []
def removeClient : Program := guarded .handler []
def clientDisconnect : Program := guarded .handler []

/-- `WriteToNetwork`; `toBytes` comes before the mutex is taken. -/
def writeToNetwork : Program := guarded .handler []

/-- `_WriteToNetwork`. -/
def flush : Program := guarded .handler []

/-- `writeSomething`. -/
def writeSomething : Program := getUvHandler ++ writeToNetwork

/-- `read`, `GetProtobufMessage` and `Reset` of the decoder. -/
def decoderCall (i : ℕ) : Program := guarded (.decoder i) []

/-- The destructor of a session: it resets the decoder, and so does the decoder's destructor. -/
def deleteClient (i : ℕ) : Program := decoderCall i ++ decoderCall i

/-- What `readFromNetwork` comes to. -/
inductive Read where
  | noMessage
  | refused
  | log
  | connect
  | queryLastEvent
  | ignored
  deriving DecidableEq, Repr

/-- `readFromNetwork`, behind the two calls of the decoder. -/
def Read.program : Read → Program
  | .noMessage => []
  -- `GetDatabaseConnected` is asked of the one `UvHandler`.
  | .refused => getUvHandler ++ writeSomething
  -- `InsertWindowsEvents` asks for the loop.
  | .log => getUvHandler ++ getUvHandler
  | .connect | .queryLastEvent => getUvHandler ++ writeSomething
  | .ignored => getUvHandler

/-- `readFromNetwork`. -/
def readFromNetwork (i : ℕ) (r : Read) : Program :=
  guarded (.client i) (decoderCall i ++ decoderCall i ++ r.program)

/-- A handle that `uv_walk` comes to. -/
inductive Walked where
  /-- `data` is null. -/
  | plain
  /-- It is not the socket of a session in the map. -/
  | unknown
  | session (i : ℕ)
  deriving DecidableEq, Repr

/-- What the callback of `uv_walk` does with a handle. -/
def Walked.program : Walked → Program
  | .plain => []
  | .unknown => removeClient
  | .session i => removeClient ++ deleteClient i

/-- What the loop's thread does. -/
inductive Callback where
  /-- `SetupNetwork` and `UvLoopRun`. -/
  | setup
  | uvConnectCB
  /-- `uvReadCB`; there is nothing to read when `nread` is not positive. -/
  | uvReadCB (i : ℕ) (r : Option Read)
  | uvCloseCB (i : ℕ)
  | writeAsync
  | stopAsync (handles : List Walked)
  /-- What `uv_queue_work` calls when the work is done. -/
  | worked
  | destroy
  deriving DecidableEq, Repr

def Callback.program : Callback → Program
  | .setup => getUvHandler ++ getUvHandler
  | .uvConnectCB => getUvHandler ++ getUvHandler ++ addClient
  | .uvReadCB _ none => []
  | .uvReadCB i (some r) => getUvHandler ++ readFromNetwork i r
  | .uvCloseCB i => getUvHandler ++ clientDisconnect ++ deleteClient i
  | .writeAsync => flush
  | .stopAsync handles => getUvHandler ++ handles.flatMap Walked.program
  | .worked => []
  | .destroy => destroyUvHandler

/-- Queued work on a worker. -/
def work (replies : Bool) : Program := if replies then writeSomething else []

/-- `SIGPIPEHandler` and `SIGTERMHandler`: neither `Connect` nor `StopLoop` takes a mutex. -/
def signalHandler : Program := getUvHandler

/-! ## The threads -/

/-- The loop's thread, and `n` workers. -/
inductive Thread (n : ℕ) where
  | loop
  | worker (k : Fin n)
  deriving DecidableEq, Fintype, Repr

abbrev State (n : ℕ) : Type := Locks.State (Thread n) Mutex

inductive Action (n : ℕ) where
  | callback (c : Callback)
  | work (k : Fin n) (replies : Bool)
  /-- A signal is delivered to a thread. -/
  | signal (t : Thread n)
  | advance (t : Thread n)

/-- A thread begins the next call when it has come to the end of the last one. -/
def step {n : ℕ} (s : State n) : Action n → Option (State n)
  | .callback c =>
      if s.todo .loop = [] then Locks.step s (.call .loop c.program) else none
  | .work k replies =>
      if s.todo (.worker k) = [] then Locks.step s (.call (.worker k) (work replies)) else none
  | .signal t => Locks.step s (.call t signalHandler)
  | .advance t => Locks.step s (.advance t)

/-- A signal finds its thread outside of the sections of `_uvMutex` and of the handler. -/
def Outside {n : ℕ} (s : State n) : Action n → Prop
  | .signal t => s.owner .uv ≠ some t ∧ s.owner .handler ≠ some t
  | _ => True

instance {n : ℕ} (s : State n) (a : Action n) : Decidable (Outside s a) := by
  unfold Outside
  split <;> infer_instance

/-! ## The order -/

section

theorem rank_le (l : Mutex) : l.rank ≤ 3 := by
  cases l <;> simp [Mutex.rank]

theorem above_getUvHandler : Above Mutex.rank 2 getUvHandler :=
  above_nil.guarded (by simp [Mutex.rank])

theorem above_handler : Above Mutex.rank 3 (guarded .handler []) :=
  above_nil.guarded (by simp [Mutex.rank])

theorem above_destroyUvHandler : Above Mutex.rank 2 destroyUvHandler :=
  above_handler.guarded (by simp [Mutex.rank])

theorem above_writeSomething : Above Mutex.rank 2 writeSomething :=
  above_getUvHandler.append (above_handler.mono (by omega))

theorem above_decoderCall (i : ℕ) : Above Mutex.rank 1 (decoderCall i) :=
  above_nil.guarded (by simp [Mutex.rank])

theorem above_deleteClient (i : ℕ) : Above Mutex.rank 1 (deleteClient i) :=
  (above_decoderCall i).append (above_decoderCall i)

theorem above_read (r : Read) : Above Mutex.rank 2 r.program := by
  cases r with
  | noMessage => exact above_nil
  | refused | connect | queryLastEvent => exact above_getUvHandler.append above_writeSomething
  | log => exact above_getUvHandler.append above_getUvHandler
  | ignored => exact above_getUvHandler

theorem above_readFromNetwork (i : ℕ) (r : Read) : Above Mutex.rank 0 (readFromNetwork i r) := by
  have hread : Above Mutex.rank 1 r.program := (above_read r).mono (by omega)
  exact ((above_deleteClient i).append hread).guarded (by simp [Mutex.rank])

theorem above_walked (w : Walked) : Above Mutex.rank 1 w.program := by
  have hremove : Above Mutex.rank 1 removeClient := above_handler.mono (by omega)
  cases w with
  | plain => exact above_nil
  | unknown => exact hremove
  | session i => exact hremove.append (above_deleteClient i)

/-- **Every function of the loop takes the mutexes in their order.** -/
theorem above_callback (c : Callback) : Above Mutex.rank 0 c.program := by
  have huv : Above Mutex.rank 0 getUvHandler := above_getUvHandler.mono (by omega)
  have hhandler : Above Mutex.rank 0 (guarded .handler []) := above_handler.mono (by omega)
  cases c with
  | setup => exact huv.append huv
  | uvConnectCB => exact (huv.append huv).append hhandler
  | uvReadCB i r =>
      cases r with
      | none => exact above_nil
      | some r => exact huv.append (above_readFromNetwork i r)
  | uvCloseCB i => exact (huv.append hhandler).append ((above_deleteClient i).mono (by omega))
  | writeAsync => exact hhandler
  | stopAsync handles =>
      exact huv.append ((above_flatMap above_walked handles).mono (by omega))
  | worked => exact above_nil
  | destroy => exact above_destroyUvHandler.mono (by omega)

theorem above_work (replies : Bool) : Above Mutex.rank 0 (work replies) := by
  cases replies with
  | false => exact above_nil
  | true => exact above_writeSomething.mono (by omega)

end

section
variable {n : ℕ} {s s' : State n} {a : Action n}

theorem sound_step (h : Locks.Sound Mutex.rank s) (hgood : Outside s a)
    (hstep : step s a = some s') : Locks.Sound Mutex.rank s' := by
  cases a with
  | callback c =>
      simp only [step, Option.ite_none_right_eq_some] at hstep
      refine h.after_step (Locks.fits_call (fun l hl => ?_) (above_callback c)) hstep.2
      exact absurd hl (h.owner_ne_of_idle hstep.1 l)
  | work k replies =>
      simp only [step, Option.ite_none_right_eq_some] at hstep
      refine h.after_step (Locks.fits_call (fun l hl => ?_) (above_work replies)) hstep.2
      exact absurd hl (h.owner_ne_of_idle hstep.1 l)
  | signal t =>
      refine h.after_step (Locks.fits_call (fun l hl => ?_) above_getUvHandler) hstep
      cases l with
      | client i => simp [Mutex.rank]
      | decoder i => simp [Mutex.rank]
      | uv => exact absurd hl hgood.1
      | handler => exact absurd hl hgood.2
  | advance t => exact h.after_advance hstep

end

/-! ## Deadlocks -/

/-- **The server does not deadlock.** As long as no signal is delivered to a thread in
`GetUVHandler` or in a section of the handler's mutex, all calls that have been begun, on any
number of workers, can be brought to their end. -/
theorem calls_complete {n : ℕ} {s : State n} (h : Reaches step Outside {} s) :
    ∃ (ts : List (Thread n)) (s' : State n), run Locks.advance s ts = some s' ∧
      (∀ t, s'.todo t = []) ∧ ∀ l, s'.owner l = none := by
  have hsound : Locks.Sound Mutex.rank s :=
    h.invariant Locks.sound_start fun _ _ _ hs hgood hstep => sound_step hs hgood hstep
  exact hsound.completes rank_le

end Mutexes

namespace Sample

/-- A session is deleted while a worker replies, and each of the two threads gets a signal. -/
def signalled : List (Mutexes.Action 1) :=
  [.callback (.uvCloseCB 0), .work 0 true, .advance .loop, .advance .loop, .signal .loop,
    .advance (.worker 0), .signal (.worker 0), .advance .loop]

end Sample

namespace Mutexes

theorem calls_complete_signalled :
    ∃ s : State 1, run step {} (Sample.signalled.take 5) = some s ∧
      ∃ (ts : List (Thread 1)) (s' : State 1), run Locks.advance s ts = some s' ∧
        (∀ t, s'.todo t = []) ∧ ∀ l, s'.owner l = none :=
  ⟨_, rfl, calls_complete (Transition.reaches_of_run .refl
    (by decide +kernel : Transition.Meets step Outside {} (Sample.signalled.take 5)) rfl)⟩

/-- A thread that waits for itself begins nothing but signal handlers. -/
theorem selfBlocked_step {n : ℕ} {s s' : State n} {t : Thread n} {a : Action n}
    (h : SelfBlocked s t .uv) (hstep : step s a = some s') : SelfBlocked s' t .uv := by
  cases a with
  | callback c =>
      simp only [step, Locks.step, Option.ite_none_right_eq_some, Option.some.injEq] at hstep
      obtain ⟨hidle, rfl⟩ := hstep
      exact h.push fun ht => absurd (ht ▸ hidle) h.todo_ne_nil
  | work k replies =>
      simp only [step, Locks.step, Option.ite_none_right_eq_some, Option.some.injEq] at hstep
      obtain ⟨hidle, rfl⟩ := hstep
      exact h.push fun ht => absurd (ht ▸ hidle) h.todo_ne_nil
  | signal u =>
      cases hstep
      exact h.push fun _ => rfl
  | advance u => exact h.after_advance hstep

/-- **A signal in `GetUVHandler` blocks the server.** When a signal is delivered to the thread that
holds `_uvMutex`, the thread never goes on and the mutex is never released, whatever the other
threads do. -/
theorem blocked_of_signal {n : ℕ} {s s₁ s' : State n} {t : Thread n} (ht : s.owner .uv = some t)
    (hsignal : step s (.signal t) = some s₁) {as : List (Action n)}
    (hrun : run step s₁ as = some s') :
    s'.owner .uv = some t ∧ step s' (.advance t) = none := by
  have hstart : SelfBlocked s₁ t .uv := by
    cases hsignal
    exact ⟨ht, by simp [Locks.push, signalHandler, getUvHandler, guarded]⟩
  have hend : SelfBlocked s' t .uv :=
    (Transition.reaches_of_run .refl (Transition.meets_of_forall (fun _ _ => trivial) _ _)
      hrun).invariant hstart fun _ _ _ hs _ hstep => selfBlocked_step hs hstep
  exact ⟨hend.owner, hend.waits⟩

/-- Signals come while a connection is made. -/
theorem blocked_of_signal_connect :
    ∃ s s₁ s' : State 1, run step {} [.callback .uvConnectCB, .advance .loop] = some s ∧
      step s (.signal .loop) = some s₁ ∧
      run step s₁ [.signal (.worker 0), .signal .loop] = some s' ∧
      s'.owner .uv = some .loop ∧ step s' (.advance .loop) = none := by
  obtain ⟨s, hs, hown⟩ : ∃ s : State 1,
      run step {} [.callback .uvConnectCB, .advance .loop] = some s ∧ s.owner .uv = some .loop :=
    ⟨_, rfl, rfl⟩
  obtain ⟨s₁, hs₁⟩ : ∃ s₁, step s (.signal .loop) = some s₁ := ⟨_, rfl⟩
  obtain ⟨s', hs'⟩ : ∃ s', run step s₁ [.signal (.worker 0), .signal .loop] = some s' := ⟨_, rfl⟩
  exact ⟨s, s₁, s', hs, hs₁, hs', blocked_of_signal hown hs₁ hs'⟩

end Mutexes
end ClientService
