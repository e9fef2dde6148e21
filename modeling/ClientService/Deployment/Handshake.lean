import ClientService.Deployment.Refinement
import ClientService.Server.Replies

/-!
# The handshake

`readFromNetwork` and the queued work read `*_client` without a test; what `uvReadCB` reads of it
for its log is left out here. A session has a client once its `CONNECT` has been handled. Until
then its peer is a client process that has sent nothing but `CONNECT`: it asks for its resume
point when `CONNECT` has been answered, and its thread is resumed by that resume point. So neither
of the two reads the pointer before it has been set, whatever is refused, thrown or lost on the
way.

## Main definitions

* `Service.Quiet` — nothing but refusals has been written to a session, and no work is queued.
* `Deployment.Handshaken` — the invariant.
-/

namespace ClientService

open Client (insertOrRecover readFromNetwork)

namespace Service

/-- Nothing but refusals has been written to session `i`, and no work is queued for it. -/
structure Quiet (t : Service) (i : ℕ) : Prop where
  refused : ∀ m ∈ t.sent i, ∃ r, m.package = .refuse r
  jobs : ∀ job ∈ t.jobs, job.session ≠ i

section
variable {s s' : Service} {i k : ℕ}

theorem Quiet.still (h : Quiet s k) (hstill : Still k s s') : Quiet s' k where
  refused := by
    rw [hstill.sent]
    exact h.refused
  jobs := fun job hjob hsession => h.jobs job (hstill.jobs job hjob hsession) hsession

/-- A client that has been set stays set when a package is handled. -/
theorem client_read (env : Surroundings) (ret : CoreMessage)
    (h : (s.sessions i)._client.isSome = true) :
    (((s.serve i (readFromNetwork env ret)).2.sessions i)._client).isSome = true := by
  have hserver : (s.server i).client._client.isSome = true := h
  have hclient : (readFromNetwork env ret (s.server i)).2.client._client.isSome = true := by
    cases hflag : s.dbConnected with
    | true =>
        rw [Client.readFromNetwork_of_connected hflag]
        exact h
    | false =>
        rw [Client.readFromNetwork_of_not_connected env ret hflag]
        have hspec := Client.handle_spec env ret (s.server i)
        generalize Client.handle env ret (s.server i) = x at hspec
        cases hspec <;> first | exact h | rfl
  rw [serve_eq]
  cases (readFromNetwork env ret (s.server i)).1 with
  | ok u => simpa [update] using hclient
  | error e => simpa [update] using hclient

/-- A session without a client handles `CONNECT`: it is refused, or the process ends, or the
session has a client. -/
theorem quiet_connect (env : Surroundings) {ret : CoreMessage} (hret : ret.package = .connect)
    (h : Quiet s i) : Quiet (s.serve i (readFromNetwork env ret)).2 i ∨
      (((s.serve i (readFromNetwork env ret)).2.sessions i)._client).isSome = true := by
  rw [serve_eq]
  cases hflag : s.dbConnected with
  | true =>
      left
      rw [Client.readFromNetwork_of_connected (s := s.server i) hflag]
      refine ⟨?_, by simpa [update, server] using h.jobs⟩
      simp only [update, Function.update_self]
      refine List.forall_mem_append.mpr ⟨h.refused, ?_⟩
      exact List.forall_mem_singleton.mpr ⟨ret.id, rfl⟩
  | false =>
      rw [Client.readFromNetwork_of_not_connected (s := s.server i) env ret hflag]
      have hspec := Client.handle_spec env ret (s.server i)
      generalize Client.handle env ret (s.server i) = x at hspec
      cases hspec with
      | connect hp hget =>
          right
          simp [update, Client.wrote]
      | connectFailed hp hget =>
          left
          refine ⟨?_, by simpa [update, server] using h.jobs⟩
          simpa [update, server] using h.refused
      | ignored hlog =>
          left
          refine ⟨?_, by simpa [update, server] using h.jobs⟩
          simpa [update, server] using h.refused
      | log hp hevts | eventless hp | unidentified hp hc | query hp hc hget
      | queryFailed hp hc hget =>
          simp [hret] at hp

theorem sessions_insert (s : Service) (j : ℕ) (job : Job) :
    (s.insert j job).sessions = s.sessions := by
  have hspec := insertOrRecover_spec job.id job.evts (s.server job.session)
  rw [insert, serve]
  generalize insertOrRecover job.id job.evts (s.server job.session) = x at hspec
  cases hspec with
  | @swallowed c due db new hc hfailure hdb hsilent =>
      cases due <;> simp [update, server]
  | stored hc | escaped hdb => simp [update, server]

theorem sessions_reply (s : Service) (j : ℕ) (job : Job) :
    (s.reply j job).sessions = s.sessions := by
  rw [reply, serve, Client.accept_apply]
  cases job.needAccept <;> simp [update, server, Client.accepted, Client.wrote]

end
end Service

/-- A client process that has sent nothing but `CONNECT`, and whose thread does not run. -/
structure Peer.Greets (p : Peer) : Prop where
  up : ∀ m ∈ p.up, m.package = .connect
  idle : p.handler.pc = .suspended ∨ p.handler.pc = .exited

section
variable {p : Peer}

theorem Peer.greets_start (g : Process) : (Peer.start g).Greets where
  up := List.forall_mem_singleton.mpr rfl
  idle := Or.inl rfl

theorem Peer.Greets.stop (h : p.Greets) (n : ℕ) : (p.stop n).Greets where
  up := fun m hm => h.up m (List.mem_of_mem_take hm)
  idle := Or.inr rfl

/-- The thread of such a process takes no step. -/
theorem Peer.Greets.thread (h : p.Greets) {log : List Handle} {t : ThreadAction}
    {h' : EventForwardHandler} {package : Option (List Event × Bool)}
    (hthread : p.handler.threadStep log t = some (h', package)) : False := by
  have hpc : p.handler.pc ≠ .suspended ∧ p.handler.pc ≠ .exited := by
    cases EventForwardHandler.threadStep_spec hthread <;> simp [*]
  rcases h.idle with hidle | hidle
  · exact hpc.1 hidle
  · exact hpc.2 hidle

/-- A refusal is not built again: it tells the process nothing, or ends it. -/
theorem Peer.Greets.receive (h : p.Greets) (asserts : Bool) (host : Process) (ts : String)
    {m : CoreMessage} (hm : ∃ r, m.package = .refuse r) :
    (p.receive asserts host ts m).Greets := by
  obtain ⟨r, hr⟩ := hm
  rw [Peer.receive]
  rcases htransmit : transmit asserts host ts m p.nextID with ⟨_ | msg, id⟩ | _ | _
  · exact ⟨h.up, h.idle⟩
  · rw [transmit, CoreMessage.buildObj_of_not_buildable] at htransmit
    · cases asserts <;> cases htransmit
    · rw [CoreMessage.buildable_toProto_iff]
      exact fun hne => hne r hr
  · exact h.stop _
  · exact h.stop _

end

namespace Deployment

open Service (Quiet Still)

/-- Every session has a client, or its peer has only greeted. -/
structure Handshaken (s : Deployment) : Prop where
  accepted : s.service.accepted = s.peers.length
  fresh : ∀ i, s.peers.length ≤ i → Quiet s.service i
  peers : ∀ i p, s.peers[i]? = some p →
    (s.service.sessions i)._client.isSome = true ∨ p.Greets ∧ Quiet s.service i

section
variable {s s' : Deployment} {i : ℕ} {p p' : Peer}

theorem handshaken_start {flag : Bool} {db : Database} {nextID : Int32} {host : Process}
    {logs : String → List Record} : Handshaken (start flag db nextID host logs) where
  accepted := rfl
  fresh := fun _ _ => ⟨fun _ hm => (nomatch hm), fun _ hjob => (nomatch hjob)⟩
  peers := fun _ _ hp => nomatch hp

theorem Handshaken.record (h : Handshaken s) (M : String) (r : Record) :
    Handshaken (s.addRecord M r) where
  accepted := h.accepted.trans (List.length_map _).symm
  fresh := fun i hi => h.fresh i (le_of_eq_of_le (List.length_map _).symm hi)
  peers := by
    intro i p' hp'
    obtain ⟨p, hp, rfl⟩ := peers_addRecord hp'
    refine (h.peers i p hp).imp_right fun hgreets => ⟨?_, hgreets.2⟩
    rw [Peer.signal]
    split_ifs
    · exact ⟨hgreets.1.up, hgreets.1.idle⟩
    · exact hgreets.1

theorem Handshaken.connect (h : Handshaken s) (g : Process) : Handshaken (s.connected g) where
  accepted := by
    rw [connected, List.length_append, h.accepted]
    rfl
  fresh := by
    intro i hi
    rw [connected, List.length_append, List.length_singleton] at hi
    exact (h.fresh i (by omega)).still (Service.still_of_eq rfl rfl)
  peers := by
    intro i p hp
    have hp : (s.peers ++ [Peer.start g])[i]? = some p := hp
    by_cases hi : i < s.peers.length
    · rw [List.getElem?_append_left hi] at hp
      have hold : (s.connected g).service.sessions i = s.service.sessions i :=
        Function.update_of_ne (by rw [h.accepted]; omega) _ _
      rw [hold]
      exact (h.peers i p hp).imp_right fun hgreets =>
        ⟨hgreets.1, hgreets.2.still (Service.still_of_eq rfl rfl)⟩
    · rw [List.getElem?_append_right (by omega)] at hp
      obtain ⟨_, hnew⟩ := List.getElem?_eq_some_iff.mp hp
      rw [List.getElem_singleton] at hnew
      exact Or.inr ⟨hnew ▸ Peer.greets_start g,
        (h.fresh i (by omega)).still (Service.still_of_eq rfl rfl)⟩

/-- A client takes a step. -/
theorem Handshaken.setPeer (h : Handshaken s) (hp : s.peers[i]? = some p)
    (hgreets : p.Greets → Quiet s.service i → p'.Greets) : Handshaken (s.setPeer i p') where
  accepted := h.accepted.trans (List.length_set ..).symm
  fresh := fun k hk => h.fresh k (le_of_eq_of_le (List.length_set ..).symm hk)
  peers := by
    intro k q hq
    have hq : (s.peers.set i p')[k]? = some q := hq
    obtain ⟨hlt, _⟩ := List.getElem?_eq_some_iff.mp hp
    by_cases hk : k = i
    · subst hk
      rw [List.getElem?_set_self hlt, Option.some.injEq] at hq
      subst hq
      exact (h.peers k p hp).imp_right fun hold => ⟨hgreets hold.1 hold.2, hold.2⟩
    · rw [List.getElem?_set_ne (Ne.symm hk)] at hq
      exact h.peers k q hq

/-- The server takes a step for session `i`. -/
theorem Handshaken.serve (h : Handshaken s) (hp : s.peers[i]? = some p) {t : Service}
    (haccepted : t.accepted = s.service.accepted)
    (hothers : ∀ k, k ≠ i → Still k s.service t ∧ t.sessions k = s.service.sessions k)
    (hself : (t.sessions i)._client.isSome = true ∨ p.Greets ∧ Quiet t i) :
    Handshaken { s with service := t } where
  accepted := haccepted.trans h.accepted
  fresh := by
    intro k hk
    obtain ⟨hlt, _⟩ := List.getElem?_eq_some_iff.mp hp
    exact (h.fresh k hk).still (hothers k (by
      rintro rfl
      exact absurd hlt (Nat.not_lt.mpr hk))).1
  peers := by
    intro k q hq
    by_cases hk : k = i
    · subst hk
      cases hp.symm.trans hq
      exact hself
    · obtain ⟨hstill, hsession⟩ := hothers k hk
      change (t.sessions k)._client.isSome = true ∨ _
      rw [hsession]
      exact (h.peers k q hq).imp_right fun hold => ⟨hold.1, hold.2.still hstill⟩

/-- The server takes a step that no session sees. -/
theorem Handshaken.quiet (h : Handshaken s) {t : Service}
    (haccepted : t.accepted = s.service.accepted) (hjobs : t.jobs = s.service.jobs)
    (hsent : t.sent = s.service.sent) (hsessions : t.sessions = s.service.sessions) :
    Handshaken { s with service := t } where
  accepted := haccepted.trans h.accepted
  fresh := fun k hk => (h.fresh k hk).still (Service.still_of_eq hjobs hsent)
  peers := by
    intro k q hq
    change (t.sessions k)._client.isSome = true ∨ _
    rw [hsessions]
    exact (h.peers k q hq).imp_right fun hold =>
      ⟨hold.1, hold.2.still (Service.still_of_eq hjobs hsent)⟩

/-- Queued work belongs to a session that has a client. -/
theorem Handshaken.of_job (h : Handshaken s) {job : Job} (hjob : job ∈ s.service.jobs) :
    ∃ p, s.peers[job.session]? = some p ∧
      (s.service.sessions job.session)._client.isSome = true := by
  have hlt : job.session < s.peers.length := by
    by_contra hge
    exact (h.fresh job.session (Nat.le_of_not_lt hge)).jobs job hjob rfl
  refine ⟨_, List.getElem?_eq_getElem hlt, ?_⟩
  rcases h.peers _ _ (List.getElem?_eq_getElem hlt) with hclient | ⟨_, hquiet⟩
  · exact hclient
  · exact absurd rfl (hquiet.jobs job hjob)

/-- The server reads a package of peer `i`. -/
theorem Handshaken.read (h : Handshaken s) (hp : s.peers[i]? = some p) {m ret : CoreMessage}
    {up : List CoreMessage} {id : Int32} (env : Surroundings) (hup : p.up = m :: up)
    (hpackage : ret.package = CoreMessage.arriving m.package) :
    Handshaken { s.setPeer i { p with up := up } with
      service := (Service.serve { s.service with nextID := id } i
        (readFromNetwork env ret)).2 } := by
  have hset : Handshaken (s.setPeer i { p with up := up }) :=
    h.setPeer hp fun hgreets _ =>
      ⟨fun m' hm' => hgreets.up m' (hup ▸ List.mem_cons_of_mem m hm'), hgreets.idle⟩
  have hp' : (s.setPeer i { p with up := up }).peers[i]? = some { p with up := up } := by
    obtain ⟨hlt, _⟩ := List.getElem?_eq_some_iff.mp hp
    exact List.getElem?_set_self hlt
  refine hset.serve hp' (Service.serve_accepted _ _ _) (fun k hk => ⟨?_, ?_⟩) ?_
  · have hstill : Still k { s.service with nextID := id }
        (Service.serve { s.service with nextID := id } i (readFromNetwork env ret)).2 :=
      Service.still_serve hk _
    exact ⟨hstill.jobs, hstill.sent⟩
  · rw [Service.serve_eq]
    cases (readFromNetwork env ret _).1 <;> exact Function.update_of_ne hk _ _
  · rcases h.peers i p hp with hclient | ⟨hgreets, hquiet⟩
    · exact Or.inl (Service.client_read env ret hclient)
    · have hconnect : ret.package = .connect := by
        rw [hpackage, hgreets.up m (hup ▸ List.mem_cons_self)]
        rfl
      have hread : Quiet { s.service with nextID := id } i := ⟨hquiet.refused, hquiet.jobs⟩
      rcases Service.quiet_connect env hconnect hread with hquiet' | hclient
      · exact Or.inr ⟨⟨fun m' hm' => hgreets.up m' (hup ▸ List.mem_cons_of_mem m hm'),
          hgreets.idle⟩, hquiet'⟩
      · exact Or.inl hclient

/-- **Every step keeps the handshake.** -/
theorem Handshaken.step (h : Handshaken s) {asserts : Bool} {a : Action}
    (hstep : s.step asserts a = some s') : Handshaken s' := by
  cases (step_spec hstep).2 with
  | record M r => exact h.record M r
  | connect hidle => exact h.connect _
  | thread hp hlive hthread =>
      exact h.setPeer hp fun hgreets _ => (hgreets.thread hthread).elim
  | @send i p t handler evts ac hp hlive hthread =>
      have hset : Handshaken (s.setPeer i (({ p with handler := handler } : Peer).send
          (CoreMessage.logPackage evts ac))) :=
        h.setPeer hp fun hgreets _ => (hgreets.thread hthread).elim
      exact ⟨hset.accepted, hset.fresh, hset.peers⟩
  | deliver ts hp hlive hm =>
      exact h.setPeer hp fun hgreets hquiet =>
        hgreets.receive asserts s.host ts (hquiet.refused _ (List.mem_of_getElem? hm))
  | halt hp hlive => exact h.setPeer hp fun hgreets _ => ⟨hgreets.up, hgreets.idle⟩
  | disconnect n hp hlive => exact h.setPeer hp fun hgreets _ => hgreets.stop n
  | @read i p m ret up id env ts hp hup hret =>
      exact h.read hp env hup (transmit_some hret).1
  | @insert j job hj hinserted =>
      obtain ⟨p, hp, hclient⟩ := h.of_job (List.mem_of_getElem? hj)
      have hsessions := Service.sessions_insert s.service j job
      refine h.serve hp (Service.insert_accepted _ _ _) (fun k hk => ⟨?_, ?_⟩) (Or.inl ?_)
      · exact Service.still_insert hk
      · rw [hsessions]
      · rw [hsessions]
        exact hclient
  | @reply j job hj hinserted =>
      obtain ⟨p, hp, hclient⟩ := h.of_job (List.mem_of_getElem? hj)
      have hsessions := Service.sessions_reply s.service j job
      refine h.serve hp (Service.serve_accepted _ _ _) (fun k hk => ⟨?_, ?_⟩) (Or.inl ?_)
      · exact (Service.still_serve hk _).eraseIdx j
      · rw [hsessions]
      · rw [hsessions]
        exact hclient
  | lose => exact h.quiet rfl rfl rfl rfl
  | sigpipe outcome =>
      obtain ⟨hjobs, hsent, haccepted⟩ := s.service.sigpipeHandler_frame asserts outcome
      obtain ⟨_, hsessions⟩ := Service.carries_sigpipe asserts outcome s.service
      exact h.quiet haccepted hjobs hsent hsessions
  | stop => exact h.quiet rfl rfl rfl rfl

end

/-! ## Runs -/

open Transition (run meets_of_forall reaches_of_run)
open Sample (deployment logged)

theorem ne_invalidPointer_read {t : Server} {env : Surroundings} {ret : CoreMessage}
    (h : t.client._client.isSome = true ∨ ret.package = .connect) :
    (readFromNetwork env ret t).1 ≠ .error .invalidPointer := by
  cases hflag : t.dbConnected with
  | true =>
      rw [Client.readFromNetwork_of_connected hflag]
      simp
  | false =>
      rw [Client.readFromNetwork_of_not_connected env ret hflag]
      have hspec := Client.handle_spec env ret t
      generalize Client.handle env ret t = x at hspec
      cases hspec with
      | unidentified hp hc => simp [hc, hp] at h
      | _ => simp

theorem ne_invalidPointer_insert {t : Server} (id : Int32) (evts : List Event)
    (h : t.client._client.isSome = true) :
    (insertOrRecover id evts t).1 ≠ .error .invalidPointer := by
  have hspec := Service.insertOrRecover_replies id evts t
  generalize insertOrRecover id evts t = x at hspec
  cases hspec with
  | inserted db | refused db => simp
  | escaped db he =>
      intro heq
      rw [he (Except.error.inj heq)] at h
      exact nomatch h

end Deployment
end ClientService
