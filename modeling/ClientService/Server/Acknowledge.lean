import ClientService.Lib.Transition
import ClientService.Server.Service
import ClientService.Service.Handler

/-!
# Acknowledgements

A reply to a package of events should carry one more than the id of the package's last event, and
the resume point of the client should never go back. But the id is taken from behind the last
event: `cend()` is no event of the package. So all is well only as long as no package of events
is dispatched.

## Main definitions

* `Dialogue` — the server process, the client of one session, and what has been handled.
* `Dialogue.Acknowledges` — what each step should do.
* `Dialogue.Refuses` — the server dispatches no package of events.
-/

namespace ClientService

open Transition (run Meets)

/-- The event that `cend()` points to. -/
def cend (evts : List Event) : Option Event := evts[evts.length]?

/-- `l->GetEvents().cend()->rid`: where there is no event, what the memory holds. -/
def cendRid (env : Surroundings) (evts : List Event) : UInt32 :=
  match cend evts with
  | some evt => evt.rid
  | none => env.past

theorem cend_eq_none (evts : List Event) : cend evts = none :=
  List.getElem?_eq_none (le_refl _)

/-- The value that a package of events leaves in `lid`. -/
theorem handle_log_lid (env : Surroundings) {ret : CoreMessage} {evts : List Event}
    {needAccept : Bool} (h : ret.package = .log evts needAccept) (hevts : evts ≠ [])
    (s : Server) : (Client.handle env ret s).2.client.lid = cendRid env evts := by
  rw [Client.handle_log h hevts, cendRid, cend_eq_none]

/-! ## The dialogue -/

/-- The server, and the client whose connection is session `i` of it. -/
structure Dialogue where
  service : Service
  handler : EventForwardHandler := {}
  /-- How many of the packages written to the session the client has handled. -/
  delivered : ℕ := 0
  /-- The record ids in the packages that the server has dispatched. -/
  handled : List UInt32 := []

namespace Dialogue

inductive Action where
  | server (a : Service.Action)
  /-- The client handles the next package. -/
  | deliver

/-- The events of a package that session `i` dispatches. -/
def dispatched (i : ℕ) (s : Service) : Service.Action → Option (List Event)
  | .message k _ ret =>
      if k = i ∧ s.getDatabaseConnected = false then
        match ret.package with
        | .log evts _ => some evts
        | _ => none
      else none
  | _ => none

def step (asserts : Bool) (i : ℕ) (s : Dialogue) : Action → Option Dialogue
  | .server a => (s.service.step asserts a).map fun service =>
      { s with service := service
               handled := s.handled ++ ((dispatched i s.service a).getD []).map Event.rid }
  | .deliver => (s.service.sent i)[s.delivered]?.map fun m =>
      { s with handler := s.handler.getProtobufPackage m.package, delivered := s.delivered + 1 }

/-- A reply to a package carries `n`. -/
def Belongs (handled : List UInt32) (evts : List Event) (n : UInt32) : Prop :=
  match evts.getLast? with
  | some evt => n.toNat = evt.rid.toNat + 1
  | none => n.toNat ≤ 1 ∨ ∃ r ∈ handled, n.toNat ≤ r.toNat + 1

/-- What each step should do: read only events that exist, acknowledge what was sent, and move
the resume point forward. -/
def Acknowledges (i : ℕ) (s : Dialogue) : Action → Prop
  | .server (.reply j) => ∀ job ∈ s.service.jobs[j]?, job.session = i → job.needAccept = true →
      Belongs s.handled job.evts ((s.service.sessions i).lid + 1)
  | .server a => ∀ evts ∈ dispatched i s.service a, (cend evts).isSome
  | .deliver => ∀ m ∈ (s.service.sent i)[s.delivered]?,
      s.handler.lastEventIDUploaded ≤ (s.handler.getProtobufPackage m.package).lastEventIDUploaded

/-- The server dispatches no package of events of the session. -/
def Refuses (i : ℕ) (s : Dialogue) : Action → Prop
  | .server a => dispatched i s.service a = none
  | .deliver => True

theorem Acknowledges.refuses {i : ℕ} {s : Dialogue} {a : Action} (h : s.Acknowledges i a) :
    s.Refuses i a := by
  cases a with
  | deliver => trivial
  | server a =>
      cases hd : dispatched i s.service a with
      | none => exact hd
      | some evts =>
          cases a with
          | message k env ret =>
              have hsome := h evts hd
              rw [cend_eq_none] at hsome
              exact nomatch hsome
          | _ => exact nomatch hd

/-! ## A session without packages of events -/

/-- There is no work of the session, and nothing acknowledged has been written to it. -/
structure Quiet (i : ℕ) (s : Service) : Prop where
  jobs : ∀ job ∈ s.jobs, job.session ≠ i
  sent : ∀ m ∈ s.sent i, ∀ n, m.package ≠ .acceptLastEvent n

theorem quiet_start (i : ℕ) (flag : Bool) (db : Database) (nextID : Int32) :
    Quiet i (Service.start flag db nextID) where
  jobs := fun _ h => nomatch h
  sent := fun _ h => nomatch h

section
variable {i : ℕ} {s : Service}

/-- A step of another session. -/
theorem Quiet.of_still (h : Quiet i s) {s' : Service} (hstill : Service.Still i s s') :
    Quiet i s' where
  jobs := fun job hjob hsession => h.jobs job (hstill.jobs job hjob hsession) hsession
  sent := by
    rw [hstill.sent]
    exact h.sent

/-- A computation of the session that queues nothing and acknowledges nothing. -/
theorem Quiet.serve_same {α : Type} (h : Quiet i s) (x : Serving α)
    (hqueued : (x (s.server i)).2.queued = [])
    (hsent : ∀ m ∈ (x (s.server i)).2.sent, ∀ n, m.package ≠ .acceptLastEvent n) :
    Quiet i (s.serve i x).2 := by
  have hquiet : Quiet i (s.update i (x (s.server i)).2) := by
    constructor
    · intro job hjob
      rw [Service.update, hqueued, List.filterMap_nil, List.append_nil] at hjob
      exact h.jobs job hjob
    · intro m hm
      have heq : (s.update i (x (s.server i)).2).sent i =
          s.sent i ++ (x (s.server i)).2.sent := Function.update_self _ _ _
      rw [heq, List.mem_append] at hm
      rcases hm with hm | hm
      · exact h.sent m hm
      · exact hsent m hm
  rw [Service.serve_eq]
  cases (x (s.server i)).1 with
  | ok a => exact hquiet
  | error e => exact ⟨hquiet.jobs, hquiet.sent⟩

/-- Away from packages of events, the `switch` queues nothing and acknowledges nothing. -/
theorem handle_quiet (env : Surroundings) {ret : CoreMessage}
    (hp : ∀ evts needAccept, ret.package ≠ .log evts needAccept) {t : Server}
    (hqueued : t.queued = []) (hsent : t.sent = []) :
    (Client.handle env ret t).2.queued = [] ∧
      ∀ m ∈ (Client.handle env ret t).2.sent, ∀ n, m.package ≠ .acceptLastEvent n := by
  have hspec := Client.handle_spec env ret t
  generalize Client.handle env ret t = x at hspec
  cases hspec with
  | log hpackage => exact absurd hpackage (hp _ _)
  | connect hpackage hget => simp [Client.wrote, hqueued, hsent, CoreMessage.connectPackage]
  | query hpackage hc hget =>
      simp [Client.wrote, hqueued, hsent, CoreMessage.returnLastEventPackage]
  | _ => simp [hqueued, hsent]

theorem Quiet.message (h : Quiet i s) {env : Surroundings} {ret : CoreMessage}
    (hrefuses : dispatched i s (.message i env ret) = none) :
    Quiet i (s.serve i (Client.readFromNetwork env ret)).2 := by
  cases hflag : s.dbConnected with
  | true =>
      have hread : Client.readFromNetwork env ret (s.server i) = _ :=
        Client.readFromNetwork_of_connected hflag
      refine h.serve_same _ ?_ ?_
      · rw [hread]
        rfl
      · rw [hread]
        simp [Service.server, CoreMessage.refusePackage]
  | false =>
      have hlog : ∀ evts needAccept, ret.package ≠ .log evts needAccept := by
        intro evts needAccept hp
        simp [dispatched, Service.getDatabaseConnected, hflag, hp] at hrefuses
      have hread := Client.readFromNetwork_of_not_connected env ret (s := s.server i) hflag
      have hquiet := handle_quiet env hlog (t := s.server i) rfl rfl
      refine h.serve_same _ ?_ ?_
      · rw [hread]
        exact hquiet.1
      · rw [hread]
        exact hquiet.2

/-- The session has no work, so it acts only when it reads a message. -/
theorem Quiet.step {asserts : Bool} {s' : Service} {a : Service.Action} (h : Quiet i s)
    (hrefuses : dispatched i s a = none) (hstep : s.step asserts a = some s') : Quiet i s' := by
  by_cases hactor : s.actor a = some i
  · cases (Service.step_spec hstep).2 with
    | message hi =>
        cases hactor
        exact h.message hrefuses
    | insert hj _ =>
        rw [Service.actor, hj] at hactor
        exact absurd (Option.some.inj hactor) (h.jobs _ (List.mem_of_getElem? hj))
    | reply hj _ =>
        rw [Service.actor, hj] at hactor
        exact absurd (Option.some.inj hactor) (h.jobs _ (List.mem_of_getElem? hj))
    | _ => cases hactor
  · exact h.of_still (Service.still_step hstep hactor)

end

/-! ## Runs -/

section
variable {asserts : Bool} {i : ℕ}

theorem quiet_step (s : Dialogue) (a : Action) (s' : Dialogue) (h : Quiet i s.service)
    (hrefuses : s.Refuses i a) (hstep : step asserts i s a = some s') : Quiet i s'.service := by
  cases a with
  | server a =>
      obtain ⟨service, hservice, rfl⟩ := Option.map_eq_some_iff.mp hstep
      exact h.step hrefuses hservice
  | deliver =>
      obtain ⟨m, _, rfl⟩ := Option.map_eq_some_iff.mp hstep
      exact h

/-- Only a package that acknowledges could take the client back. -/
theorem le_getProtobufPackage (h : EventForwardHandler) {msg : Package}
    (hmsg : ∀ n, msg ≠ .acceptLastEvent n) :
    h.lastEventIDUploaded ≤ (h.getProtobufPackage msg).lastEventIDUploaded := by
  cases msg with
  | acceptLastEvent n => exact absurd rfl (hmsg n)
  | returnLastEvent n =>
      rw [EventForwardHandler.getProtobufPackage]
      by_cases hzero : h.lastEventIDUploaded = 0
      · simp only [hzero, if_true]
        exact UInt32.zero_le
      · simp only [hzero, if_false]
        exact UInt32.le_refl _
  | _ => exact UInt32.le_refl _

theorem acknowledges_of_quiet (s : Dialogue) (a : Action) (h : Quiet i s.service)
    (hrefuses : s.Refuses i a) : s.Acknowledges i a := by
  cases a with
  | deliver =>
      intro m hm
      exact le_getProtobufPackage _ (h.sent m (List.mem_of_getElem? hm))
  | server a =>
      cases a with
      | reply j =>
          intro job hjob hsession
          exact absurd hsession (h.jobs job (List.mem_of_getElem? hjob))
      | _ =>
          intro evts hevts
          rw [hrefuses] at hevts
          exact nomatch hevts

/-- **When acknowledgements belong to their packages.** In a run from the start of the server, for
any session: if and only if no package of events of the session is dispatched. -/
theorem acknowledges_run_iff (asserts : Bool) (i : ℕ) (flag : Bool) (db : Database) (nextID : Int32)
    (as : List Action) :
    Meets (step asserts i) (Acknowledges i) { service := .start flag db nextID } as ↔
      Meets (step asserts i) (Refuses i) { service := .start flag db nextID } as := by
  constructor
  · intro h
    exact Meets.of_invariant (I := fun _ => True) (fun _ _ _ _ _ _ => trivial)
      (fun _ _ _ hgood => hgood.refuses) trivial h
  · intro h
    exact Meets.of_invariant quiet_step acknowledges_of_quiet (quiet_start i flag db nextID) h

/-- A package of one event, sent by a machine that is registered. -/
theorem not_acknowledges_package :
    ¬Meets (step true 0) (Acknowledges 0) { service := .start false Sample.database 0 }
      [.server .accept, .server (.message 0 Sample.surroundings Sample.package)] := by
  intro h
  have hmessage := (h.2 _ rfl).1
  exact nomatch hmessage.refuses

end
end Dialogue
end ClientService
