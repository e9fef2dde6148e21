import ClientService.Lib.Transition
import ClientService.Server.Session

/-!
# Transactions on one connection

All sessions share one connection to the database, and a connection has at most one transaction.
The loop's thread constructs a `pqxx::work` for a `CONNECT` and for a query, and each worker for
a package of events; no lock orders them. Each construction is alone when a message that needs
the database comes only after the queued work before it is done.

## Main definitions

* `demand` — what a message asks of the database.
* `Threads` — how far the operations of the threads have got.
* `Threads.Sequential` — the condition on the messages.
-/

namespace ClientService

open Transition (Reaches run Meets)

/-! ## What a message asks for -/

/-- What handling a message does with the database. -/
inductive Demand where
  | nothing
  /-- A transaction on the thread of the loop. -/
  | loop
  /-- A transaction on a worker. -/
  | job
  deriving DecidableEq, Repr

/-- The demand of a message that is read while the flag is `dbConnected`. -/
def demand (dbConnected : Bool) (ret : CoreMessage) : Demand :=
  if dbConnected then .nothing
  else
    match ret.package with
    | .connect | .queryLastEvent => .loop
    -- Without events the process ends before anything is queued.
    | .log evts _ => if evts = [] then .nothing else .job
    | _ => .nothing

/-- The thread of the loop leaves the database alone, and queues what is for a worker. -/
theorem readFromNetwork_demand (env : Surroundings) (ret : CoreMessage) (s : Server) :
    (demand s.dbConnected ret ≠ .loop → (Client.readFromNetwork env ret s).2.db = s.db) ∧
      (Client.readFromNetwork env ret s).2.queued =
        s.queued ++ (if demand s.dbConnected ret = .job then [ret] else []) := by
  cases hflag : s.dbConnected with
  | true =>
      rw [Client.readFromNetwork_of_connected hflag]
      simp [demand]
  | false =>
      rw [Client.readFromNetwork_of_not_connected env ret hflag]
      have hspec := Client.handle_spec env ret s
      generalize Client.handle env ret s = x at hspec
      cases hspec with
      | ignored hlog =>
          cases hp : ret.package with
          | log evts needAccept => exact absurd hp (hlog evts needAccept)
          | _ => simp [demand, hp]
      | log hp hevts => simp [demand, hp, hevts]
      | eventless hp => simp [demand, hp]
      | connect hp hget => simp [demand, hp, Client.wrote]
      | connectFailed hp hget => simp [demand, hp]
      | unidentified hp hc => simp [demand, hp]
      | query hp hc hget => simp [demand, hp, Client.wrote]
      | queryFailed hp hc hget => simp [demand, hp]

/-! ## The threads -/

/-- An operation that has begun: before or after it constructs its `pqxx::work`. -/
inductive Progress where
  | started
  | opened
  deriving DecidableEq, Repr

structure Threads where
  workers : ℕ
  dbConnected : Bool
  /-- The operation of the loop's thread. -/
  loop : Option Progress := none
  /-- The queued work that is not done; `none` is not taken by a worker yet. -/
  jobs : List (Option Progress) := []
  deriving DecidableEq, Repr

namespace Threads

inductive Action where
  /-- The loop's thread begins to handle a message. -/
  | message (ret : CoreMessage)
  | setDatabaseConnect (c : Bool)
  /-- The loop's thread constructs a `pqxx::work`. -/
  | construct
  /-- Its operation ends: by a commit, by the destructor, or because nothing was opened. -/
  | finish
  /-- A worker takes a job. -/
  | take (j : ℕ)
  | constructJob (j : ℕ)
  | finishJob (j : ℕ)
  deriving DecidableEq, Repr

/-- What may happen. The loop's thread handles a message to its end before the next. -/
def step (s : Threads) : Action → Option Threads
  | .message ret =>
      if s.loop = none then
        match demand s.dbConnected ret with
        | .nothing => some s
        | .loop => some { s with loop := some .started }
        | .job => some { s with jobs := s.jobs ++ [none] }
      else none
  | .setDatabaseConnect c => some { s with dbConnected := c }
  | .construct =>
      if s.loop = some .started then some { s with loop := some .opened } else none
  | .finish => if s.loop = none then none else some { s with loop := none }
  | .take j =>
      if s.jobs[j]? = some none ∧ s.jobs.countP Option.isSome < s.workers then
        some { s with jobs := s.jobs.set j (some .started) }
      else none
  | .constructJob j =>
      if s.jobs[j]? = some (some .started) then
        some { s with jobs := s.jobs.set j (some .opened) }
      else none
  | .finishJob j =>
      match s.jobs[j]? with
      | some (some _) => some { s with jobs := s.jobs.eraseIdx j }
      | _ => none

/-- The number of transactions that are open. -/
def openWorks (s : Threads) : ℕ :=
  (if s.loop = some .opened then 1 else 0) + s.jobs.count (some .opened)

/-- The step constructs a `pqxx::work`. -/
def Constructs : Action → Prop
  | .construct | .constructJob _ => True
  | _ => False

/-- A message that needs the database comes only when the queued work is done. -/
def Sequential (s : Threads) : Action → Prop
  | .message ret => demand s.dbConnected ret ≠ .nothing → s.jobs = []
  | _ => True

instance (s : Threads) (a : Action) : Decidable (s.Sequential a) := by
  cases a <;> unfold Sequential <;> infer_instance

/-- The number of operations that are not done. -/
def unfinished (s : Threads) : ℕ := (if s.loop = none then 0 else 1) + s.jobs.length

section
variable {s s' : Threads} {a : Action}

theorem unfinished_step (h : s.unfinished ≤ 1) (hgood : s.Sequential a)
    (hstep : s.step a = some s') : s'.unfinished ≤ 1 := by
  cases a with
  | message ret =>
      simp only [step, Option.ite_none_right_eq_some] at hstep
      obtain ⟨hloop, hstep⟩ := hstep
      cases hd : demand s.dbConnected ret with
      | nothing =>
          rw [hd] at hstep
          cases hstep
          exact h
      | loop =>
          have hjobs := hgood (by simp [hd])
          rw [hd] at hstep
          cases hstep
          simp [unfinished, hjobs]
      | job =>
          have hjobs := hgood (by simp [hd])
          rw [hd] at hstep
          cases hstep
          simp [unfinished, hloop, hjobs]
  | setDatabaseConnect c =>
      cases hstep
      exact h
  | construct =>
      simp only [step, Option.ite_none_right_eq_some, Option.some.injEq] at hstep
      rw [← hstep.2]
      simpa [unfinished, hstep.1] using h
  | finish =>
      simp only [step, Option.ite_none_left_eq_some, Option.some.injEq] at hstep
      rw [← hstep.2]
      simp only [unfinished, if_true, hstep.1, if_false] at h ⊢
      omega
  | take j =>
      simp only [step, Option.ite_none_right_eq_some, Option.some.injEq] at hstep
      rw [← hstep.2]
      simpa [unfinished] using h
  | constructJob j =>
      simp only [step, Option.ite_none_right_eq_some, Option.some.injEq] at hstep
      rw [← hstep.2]
      simpa [unfinished] using h
  | finishJob j =>
      have hle : (s.jobs.eraseIdx j).length ≤ s.jobs.length := List.length_eraseIdx_le _ _
      have hs' : s' = { s with jobs := s.jobs.eraseIdx j } := by
        rw [step] at hstep
        split at hstep
        · exact (Option.some.inj hstep).symm
        · exact nomatch hstep
      rw [hs']
      simp only [unfinished] at h ⊢
      omega

/-- When one operation is all there is, it opens its transaction alone. -/
theorem openWorks_eq_zero (h : s.unfinished ≤ 1) (hc : Constructs a) (hstep : s.step a = some s') :
    s.openWorks = 0 := by
  cases a with
  | construct =>
      simp only [step, Option.ite_none_right_eq_some] at hstep
      have hjobs : s.jobs = [] := by
        simp only [unfinished, hstep.1] at h
        exact List.length_eq_zero_iff.mp (by simpa using h)
      simp [openWorks, hstep.1, hjobs]
  | constructJob j =>
      simp only [step, Option.ite_none_right_eq_some] at hstep
      have hlt : j < s.jobs.length := by
        by_contra hge
        simp [List.getElem?_eq_none (Nat.le_of_not_lt hge)] at hstep
      have hloop : s.loop = none := by
        by_contra hne
        simp only [unfinished, hne, if_false] at h
        omega
      have hlength : s.jobs.length = 1 := by
        simp only [unfinished, hloop, if_true] at h
        omega
      obtain ⟨p, hp⟩ := List.length_eq_one_iff.mp hlength
      have hj : j = 0 := by omega
      have hstarted := hstep.1
      rw [hp, hj] at hstarted
      cases hstarted
      simp [openWorks, hloop, hp]
  | _ => exact hc.elim

end

/-- **At most one transaction is open.** In every run whose messages are sequential, no step
constructs a `pqxx::work` while another one is alive. -/
theorem constructs_alone {workers : ℕ} {flag : Bool} {s : Threads}
    (h : Reaches step Sequential { workers := workers, dbConnected := flag } s) {a : Action}
    {s' : Threads} (hstep : s.step a = some s') (hc : Constructs a) : s.openWorks = 0 := by
  have hle : s.unfinished ≤ 1 :=
    h.invariant (by simp [unfinished]) fun _ _ _ hs hgood hstep => unfinished_step hs hgood hstep
  exact openWorks_eq_zero hle hc hstep

/-- A machine connects and sends events; they are inserted, and then another machine connects. -/
def inTurn : List Action :=
  [.message (Sample.hello "m-1"), .construct, .finish,
    .message Sample.package, .take 0, .constructJob 0, .finishJob 0,
    .message (Sample.hello "m-2")]

theorem constructs_alone_inTurn : (Threads.mk 4 false (some .started) []).openWorks = 0 := by
  have hrun : run step { workers := 4, dbConnected := false } inTurn =
      some (Threads.mk 4 false (some .started) []) := by decide
  have hmeets : Meets step Sequential { workers := 4, dbConnected := false } inTurn := by decide
  exact constructs_alone (Transition.reaches_of_run .refl hmeets hrun) (a := .construct) rfl trivial

/-- Two packages of events, and two workers. -/
theorem not_constructs_alone :
    ¬∀ (workers : ℕ) (flag : Bool) (s : Threads), 2 ≤ workers →
      Reaches step (fun _ _ => True) { workers := workers, dbConnected := flag } s →
      ∀ a s', s.step a = some s' → Constructs a → s.openWorks = 0 := by
  intro h
  have h₁ : Reaches step (fun _ _ => True) (Threads.mk 2 false none [])
      (Threads.mk 2 false none [none]) :=
    Reaches.refl.tail (a := .message Sample.package) trivial rfl
  have h₂ : Reaches step (fun _ _ => True) _ (Threads.mk 2 false none [none, none]) :=
    h₁.tail (a := .message Sample.package) trivial rfl
  have h₃ : Reaches step (fun _ _ => True) _ (Threads.mk 2 false none [some .started, none]) :=
    h₂.tail (a := .take 0) trivial rfl
  have h₄ : Reaches step (fun _ _ => True) _
      (Threads.mk 2 false none [some .started, some .started]) :=
    h₃.tail (a := .take 1) trivial rfl
  have h₅ : Reaches step (fun _ _ => True) _
      (Threads.mk 2 false none [some .opened, some .started]) :=
    h₄.tail (a := .constructJob 0) trivial rfl
  have hopen := h 2 false _ (le_refl _) h₅ (.constructJob 1) _ rfl trivial
  exact nomatch hopen

end Threads
end ClientService
