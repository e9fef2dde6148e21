import ClientService.Server.Service
import ClientService.Lib.Transition

/-!
# When the server refuses

The server should answer "database disconnected" exactly while it is. It answers so when
`dbConnected` is set, the flag is written by `SIGPIPEHandler` alone, and what is written is
whether the connection was found open. Nothing initialises the flag, and nothing writes it after
a reconnect.

## Main definitions

* `Service.Guarded` — a message is refused exactly while the connection is closed.
* `Timely` — the condition on the history of the connection and its signals.
-/

namespace ClientService

open Transition (run Meets)

/-! ## One message -/

namespace Client

/-- The message is answered with the refusal, and nothing else happens. -/
def Refused (env : Surroundings) (ret : CoreMessage) (s : Server) : Prop :=
  readFromNetwork env ret s = (.ok (), { s with
    sent := s.sent ++ [.refusePackage ret.id "Refuse Package: database disconnected."] })

/-- The message is dispatched by its operation. -/
def Dispatched (env : Surroundings) (ret : CoreMessage) (s : Server) : Prop :=
  readFromNetwork env ret s = handle env ret s

/-- The `switch` never writes one refusal and returns. -/
theorem handle_ne_refusal (env : Surroundings) (ret : CoreMessage) (s : Server) (r : Int32)
    (text : String) :
    handle env ret s ≠ (.ok (), { s with sent := s.sent ++ [.refusePackage r text] }) := by
  intro h
  have hspec := handle_spec env ret s
  generalize handle env ret s = x at h hspec
  have hsent : x.2.sent = s.sent ++ [.refusePackage r text] := by rw [h]
  cases hspec with
  | connect hp hget =>
      simp [wrote, CoreMessage.connectPackage, CoreMessage.refusePackage] at hsent
  | query hp hc hget =>
      simp [wrote, CoreMessage.returnLastEventPackage, CoreMessage.refusePackage] at hsent
  | _ => simp at hsent

theorem refused_iff (env : Surroundings) (ret : CoreMessage) (s : Server) :
    Refused env ret s ↔ s.dbConnected = true := by
  cases h : s.dbConnected with
  | true => exact iff_of_true (readFromNetwork_of_connected h) rfl
  | false =>
      refine iff_of_false ?_ (by simp)
      rw [Refused, readFromNetwork_of_not_connected env ret h]
      exact handle_ne_refusal env ret s _ _

theorem dispatched_iff (env : Surroundings) (ret : CoreMessage) (s : Server) :
    Dispatched env ret s ↔ s.dbConnected = false := by
  cases h : s.dbConnected with
  | true =>
      refine iff_of_false ?_ (by simp)
      rw [Dispatched, readFromNetwork_of_connected h]
      exact (handle_ne_refusal env ret s _ _).symm
  | false => exact iff_of_true (readFromNetwork_of_not_connected env ret h) rfl

end Client

/-! ## Runs -/

namespace Service

/-- A message is refused exactly while the connection is closed, and otherwise dispatched. -/
def Guarded (s : Service) : Action → Prop
  | .message i env ret =>
      (Client.Refused env ret (s.server i) ↔ s.isOpen = false) ∧
        (s.isOpen = true → Client.Dispatched env ret (s.server i))
  | _ => True

theorem guarded_message_iff (s : Service) (i : ℕ) (env : Surroundings) (ret : CoreMessage) :
    s.Guarded (.message i env ret) ↔ s.dbConnected ≠ s.isOpen := by
  have hflag : (s.server i).dbConnected = s.dbConnected := rfl
  rw [Guarded, Client.refused_iff, Client.dispatched_iff, hflag]
  cases s.dbConnected <;> cases s.isOpen <;> decide

/-- The connection after an action. -/
def connection (isOpen : Bool) : Action → Bool
  | .lose => false
  | .sigpipe outcome => isOpen || decide (reconnect outcome = .opens)
  | _ => isOpen

/-- What the last signal found; the connection is `isOpen` before the action. -/
def lastFound (isOpen found : Bool) : Action → Bool
  | .sigpipe _ => isOpen
  | _ => found

/-- Each message comes when the connection is not as the last signal found it. Before the first
signal, `found` is what the memory of the flag holds. -/
def Timely : Bool → Bool → List Action → Prop
  | _, _, [] => True
  | isOpen, found, a :: as =>
      ((∃ i env ret, a = .message i env ret) → found ≠ isOpen) ∧
        Timely (connection isOpen a) (lastFound isOpen found a) as

section
variable {asserts : Bool} {s s' : Service}

theorem connect_of_opens {outcome : ℕ → Attempt} (h : reconnect outcome = .opens) :
    (s.connect asserts outcome).1 ≠ some false ∧
    (s.connect asserts outcome).2.isOpen = true ∧
    (s.connect asserts outcome).2.dbConnected = s.dbConnected := by
  rw [connect, h]
  dsimp only
  rcases Database.getAllClients s.db with ⟨_ | complete, db⟩
  · simp
  · by_cases hcomplete : asserts = true ∧ complete = false
    · simp [hcomplete]
    · simp [hcomplete]

/-- The handler writes what it found, before it reconnects. -/
theorem sigpipeHandler_flags (outcome : ℕ → Attempt) :
    (s.sigpipeHandler asserts outcome).isOpen =
        (s.isOpen || decide (reconnect outcome = .opens)) ∧
      (s.sigpipeHandler asserts outcome).dbConnected = s.isOpen := by
  rw [sigpipeHandler, checkConnectStatus]
  cases hopen : s.isOpen with
  | true => simp [setDatabaseConnect, hopen]
  | false =>
      cases hending : reconnect outcome with
      | fails | dies => simp [setDatabaseConnect, connect, stopLoop, hopen, hending]
      | opens =>
          have hconnect : ((s.setDatabaseConnect false).connect asserts outcome).1 ≠ some false ∧
              _ := connect_of_opens hending
          rcases hc : (s.setDatabaseConnect false).connect asserts outcome with ⟨_ | _ | _, t⟩
          · rw [hc] at hconnect
            simpa [hc, setDatabaseConnect] using hconnect
          · rw [hc] at hconnect
            exact absurd rfl hconnect.1
          · rw [hc] at hconnect
            simpa [hc, setDatabaseConnect] using hconnect

theorem insert_flags (j : ℕ) (job : Job) :
    (s.insert j job).isOpen = s.isOpen ∧ (s.insert j job).dbConnected = s.dbConnected := by
  have hopen := s.serve_isOpen job.session (Client.insertOrRecover job.id job.evts)
  have hflag := s.serve_dbConnected job.session (Client.insertOrRecover job.id job.evts)
  rw [insert]
  rcases hserve : s.serve job.session (Client.insertOrRecover job.id job.evts) with ⟨_ | _ | _, t⟩
  · rw [hserve] at hopen hflag
    exact ⟨hopen, hflag⟩
  · rw [hserve] at hopen hflag
    exact ⟨hopen, hflag⟩
  · rw [hserve] at hopen hflag
    exact ⟨hopen, hflag⟩

/-- **What a step does to the connection and the flag.** -/
theorem step_flags {a : Action} (h : step asserts s a = some s') :
    s'.isOpen = connection s.isOpen a ∧ s'.dbConnected = lastFound s.isOpen s.dbConnected a := by
  cases (step_spec h).2 with
  | message hi => exact ⟨serve_isOpen _ _ _, serve_dbConnected _ _ _⟩
  | insert hj _ => exact insert_flags _ _
  | reply hj _ => exact ⟨serve_isOpen _ _ _, serve_dbConnected _ _ _⟩
  | sigpipe outcome => exact sigpipeHandler_flags outcome
  | _ => exact ⟨rfl, rfl⟩

/-- One message is guarded when the signal before it found the other state. -/
theorem guarded_iff (a : Action) :
    s.Guarded a ↔ ((∃ i env ret, a = .message i env ret) → s.dbConnected ≠ s.isOpen) := by
  cases a with
  | message i env ret =>
      rw [guarded_message_iff]
      simp
  | _ => simp [Guarded]

theorem meets_guarded_iff {as : List Action} (h : run (step asserts) s as = some s') :
    Meets (step asserts) Guarded s as ↔ Timely s.isOpen s.dbConnected as := by
  induction as generalizing s with
  | nil => simp [Meets, Timely]
  | cons a as ih =>
      rw [run, Option.bind_eq_some_iff] at h
      obtain ⟨t, hstep, hrun⟩ := h
      have hflags := step_flags hstep
      rw [Meets, Timely, guarded_iff, ← hflags.1, ← hflags.2, ← ih hrun]
      simp [hstep]

end

/-- **When the server refuses as it should.** In a run from the start of the process, every
message is refused exactly while the connection is closed, if and only if every message comes
when the connection is not as the last `SIGPIPE` found it. -/
theorem guarded_run_iff (asserts flag : Bool) (db : Database) (nextID : Int32) {as : List Action}
    {s' : Service} (h : run (step asserts) (start flag db nextID) as = some s') :
    Meets (step asserts) Guarded (start flag db nextID) as ↔ Timely true flag as :=
  meets_guarded_iff h

end Service

namespace Service

/-- After a loss and a reconnect, requests are served. -/
theorem guarded_run_reconnect :
    ∃ s', run (step true) (start true Sample.database 0)
        [.accept, .lose, .sigpipe fun _ => .opens,
          .message 0 Sample.surroundings (Sample.hello "m-1")] = some s' ∧
      Meets (step true) Guarded (start true Sample.database 0)
        [.accept, .lose, .sigpipe fun _ => .opens,
          .message 0 Sample.surroundings (Sample.hello "m-1")] := by
  have hopens : reconnect (fun _ => .opens) = .opens := rfl
  exact ⟨_, rfl, (guarded_run_iff true true Sample.database 0 rfl).mpr
    (by simp [Timely, connection, lastFound, hopens])⟩

/-- A signal that finds the connection open makes the server refuse. -/
theorem not_guarded_open :
    ¬Meets (step true) Guarded (start false Sample.database 0)
      [.accept, .sigpipe fun _ => .opens,
        .message 0 Sample.surroundings (Sample.hello "m-1")] := by
  intro h
  have hmessage := (h.2 _ rfl).2 _ rfl
  have hflag := (guarded_message_iff _ _ _ _).mp hmessage.1
  exact hflag rfl

end Service
end ClientService
