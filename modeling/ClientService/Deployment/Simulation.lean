import ClientService.Deployment.Invariant

/-!
# Each machine sees an upload

Every step of the deployment is, for each machine, a step of the upload of its log. `Seen` says
which one it may be, with what the step tells about it.

## Main definitions

* `Seen` — a step of the deployment and the step that a machine sees.
* `simulates` — every step is seen, and keeps connections and sessions together.
-/

namespace ClientService.Deployment

open Database (Carries storedFor)
open Service (Wrote Silent)

/-- What machine `M` may see of a step. -/
inductive Seen (s s' : Deployment) (M : String) : Action → Upload.Label → Prop
  | stay (a : Action) : Seen s s' M a .stay
  | record (r : Record) : Seen s s' M (.record M r) (.record r.rid)
  | connect (g : Process) (i : ℕ) : Seen s s' M (.connect g) (.connect i)
  | close (a : Action) (i : ℕ) : Seen s s' M a (.close i)
  | offer {i n : ℕ} {p : Peer} {m : CoreMessage} {env : Surroundings} {ts : String}
      (hp : s.peers[i]? = some p) (hM : p.machine = M) (hflag : s.service.dbConnected = false)
      (hup : p.up.head? = some m) (hm : m.package = .queryLastEvent) :
      Seen s s' M (.read i env ts) (.offer i n)
  | deliver {i : ℕ} {p : Peer} {m : CoreMessage} {o : Upload.Offer} {ts : String}
      (hp : s.peers[i]? = some p) (hM : p.machine = M)
      (hm : (s.service.sent i)[p.delivered]? = some m) (ho : m.offer = some o) :
      Seen s s' M (.deliver i ts) (.deliver i o)
  | forward {i j : ℕ} {p : Peer} {taking : Taking} {e : Event} (hp : s.peers[i]? = some p)
      (hM : p.machine = M)
      (hrendered : (∀ r ∈ ((s.logs M).drop p.handler.taken).take taking.number,
        r.handle.printed.isSome) → j = taking.number) :
      Seen s s' M (.thread i (.enumerate taking e)) (.forward i taking.number j)
  | store {j : ℕ} {job : Job} (hj : s.service.jobs[j]? = some job) (hevts : job.evts ≠ []) :
      Seen s s' M (.insert j)
        (.store job.session (waiting (s.service.jobs.take j) job.session) (rids job.evts))
  | refused {i : ℕ} {p : Peer} {m : CoreMessage} {env : Surroundings} {ts : String}
      {batch : List ℕ} (hp : s.peers[i]? = some p) (hup : p.up.head? = some m)
      (hm : m.batch = some batch) (hlost : s.service.dbConnected = true ∨ batch = []) :
      Seen s s' M (.read i env ts) (.lose i (waiting s.service.jobs i) batch)
  | lost {j : ℕ} {job : Job} (hj : s.service.jobs[j]? = some job)
      (hlost : job.evts = [] ∨ s'.service.ended = true ∨
        ∃ c, (s.service.sessions job.session)._client = some c ∧
          Database.failure c job.evts s.service.db = some .sqlError) : Seen s s' M (.insert j)
        (.lose job.session (waiting (s.service.jobs.take j) job.session) (rids job.evts))
  | accept {j : ℕ} {job : Job} {p : Peer} (hj : s.service.jobs[j]? = some job)
      (hp : s.peers[job.session]? = some p) (hM : p.machine = M) (hneed : job.needAccept = true) :
      Seen s s' M (.reply j)
        (.accept job.session ((s.service.sessions job.session).lid + 1).toNat)

/-- The machine sees a step that `Seen` allows. -/
def Sees (s s' : Deployment) (a : Action) (M : String) : Prop :=
  ∃ b, Upload.Step (s.upload M) b (s'.upload M) ∧ Seen s s' M a b

section
variable {s s' : Deployment} {a : Action} {M : String} {i : ℕ} {p p' : Peer}

theorem sees_stay (h : s'.upload M = s.upload M) : Sees s s' a M := by
  refine ⟨.stay, ?_, .stay a⟩
  rw [h]
  exact .stay _

/-- One link changes; the other machines see nothing. -/
theorem At.sees (h : At i p p' s s')
    (hstored : ∀ M, storedFor s'.service.db.tables M = storedFor s.service.db.tables M)
    {b : Upload.Label}
    (hstep : Upload.Step (s.upload p.machine) b
      ((s.upload p.machine).set i (p'.link s'.service i)))
    (hseen : Seen s s' p.machine a b) (M : String) : Sees s s' a M := by
  by_cases hM : M = p.machine
  · rw [hM]
    refine ⟨b, ?_, hseen⟩
    rw [h.upload_self, hstored]
    exact hstep
  · exact sees_stay (h.upload_of_ne hM (hstored M))

/-! ## The logs and the connections -/

theorem link_addRecord (M' : String) (r : Record) (k : ℕ) :
    (s.addRecord M' r).link M k = s.link M k := by
  have hpeers : (s.addRecord M' r).peers[k]? = (s.peers[k]?).map (Peer.signal M') :=
    List.getElem?_map
  rw [link, link, hpeers]
  cases s.peers[k]? with
  | none => rfl
  | some p =>
      obtain ⟨hmachine, _, hlink, _⟩ := Peer.signal_frame (p := p) s.service k M'
      simp only [Option.map_some, hmachine]
      exact congrArg (fun l => if p.machine = M then l else {}) hlink

theorem sees_record (M' : String) (r : Record) :
    Sees s (s.addRecord M' r) (.record M' r) M := by
  have hlinks : (s.addRecord M' r).link M = s.link M := funext (link_addRecord M' r)
  by_cases hM : M = M'
  · subst hM
    refine ⟨.record r.rid, ?_, .record r⟩
    have hlogs : ((s.addRecord M r).logs M).map Record.rid =
        (s.logs M).map Record.rid ++ [r.rid] := by
      change (Function.update s.logs M (s.logs M ++ [r]) M).map Record.rid = _
      rw [Function.update_self, List.map_append]
      rfl
    have hupload : (s.addRecord M r).upload M =
        { s.upload M with log := (s.upload M).log ++ [r.rid] } := by
      rw [upload, upload, hlinks, hlogs]
      rfl
    rw [hupload]
    exact .record _ _
  · have hlogs : (s.addRecord M' r).logs M = s.logs M := Function.update_of_ne hM _ _
    exact sees_stay (upload_congr hlogs rfl (link_addRecord M' r))

/-- The server and the clients when a client process has connected. -/
def connected (s : Deployment) (g : Process) : Deployment :=
  { s with
    service := { s.service with
      accepted := s.service.accepted + 1
      sessions := Function.update s.service.sessions s.service.accepted { _client := none } }
    peers := s.peers ++ [.start g] }

theorem link_connected_of_ne (g : Process) {k : ℕ} (hk : k ≠ s.peers.length) :
    (s.connected g).link M k = s.link M k := by
  have hpeer : (s.connected g).peers[k]? = s.peers[k]? := by
    by_cases hlt : k < s.peers.length
    · exact List.getElem?_append_left hlt
    · rw [List.getElem?_eq_none (Nat.le_of_not_lt hlt)]
      refine List.getElem?_eq_none ?_
      change (s.peers ++ [Peer.start g]).length ≤ k
      rw [List.length_append, List.length_singleton]
      omega
  exact link_congr hpeer rfl rfl M

/-- A new connection carries nothing yet. -/
theorem link_connected_self (h : WellFormed s) (g : Process) :
    (s.connected g).link M s.peers.length =
      if g.myMachineID = M then { made := true, live := true } else {} := by
  have hpeer : (s.connected g).peers[s.peers.length]? = some (.start g) := by
    change (s.peers ++ [Peer.start g])[s.peers.length]? = some (.start g)
    simp
  have hwaiting : waiting s.service.jobs s.peers.length = [] :=
    waiting_eq_nil _ fun job hjob => Nat.ne_of_lt (h.jobs job hjob)
  have hsent : s.service.sent s.peers.length = [] := h.unsent _ (Nat.le_refl _)
  have hlink : (Peer.start g).link (s.connected g).service s.peers.length =
      { made := true, live := true } := by
    change Upload.Link.mk .. = _
    have hbatch : ∀ id, (CoreMessage.connectPackage id).1.batch = none := fun _ => rfl
    simp [connected, Peer.start, Peer.send, EventForwardHandler.reading, hwaiting, hsent, hbatch]
  rw [link, hpeer]
  exact congrArg (fun l => if g.myMachineID = M then l else {}) hlink

theorem sees_connect (h : WellFormed s) {g : Process} (hidle : s.Idle g.myMachineID) :
    Sees s (s.connected g) (.connect g) M := by
  by_cases hM : g.myMachineID = M
  · refine ⟨.connect s.peers.length, ?_, .connect g _⟩
    have hlinks : (s.connected g).link M =
        Function.update (s.link M) s.peers.length { made := true, live := true } := by
      funext k
      by_cases hk : k = s.peers.length
      · rw [hk, link_connected_self h, if_pos hM, Function.update_self]
      · rw [link_connected_of_ne g hk, Function.update_of_ne hk]
    have heq : (s.connected g).upload M =
        (s.upload M).set s.peers.length { made := true, live := true } := by
      rw [upload, hlinks]
      rfl
    rw [heq]
    refine .connect _ _ ?_ fun j hj => link_of_none hj M
    intro j
    rw [upload_links, link]
    cases hp : s.peers[j]? with
    | none => rfl
    | some p =>
        by_cases hpM : p.machine = M
        · have hdead : p.live ≠ true := fun hlive =>
            hidle p (List.mem_of_getElem? hp) hlive (hpM.trans hM.symm)
          simpa [hpM, Peer.link] using hdead
        · simp [hpM]
  · refine sees_stay (upload_congr rfl rfl fun k => ?_)
    by_cases hk : k = s.peers.length
    · rw [hk, link_connected_self h, if_neg hM, link_of_none (Nat.le_refl _)]
    · exact link_connected_of_ne g hk

/-! ## The clients -/

theorem sees_thread (h : WellFormed s) (hp : s.peers[i]? = some p) (hlive : p.live = true)
    {t : ThreadAction} {handler : EventForwardHandler}
    (hthread : p.handler.threadStep (s.handles p.machine) t = some (handler, none)) :
    Sees s (s.setPeer i { p with handler := handler }) (.thread i t) M := by
  have hat : At i p { p with handler := handler } s (s.setPeer i { p with handler := handler }) :=
    at_setPeer hp rfl
  have hlink : (s.upload p.machine).links i = p.link s.service i := link_of_some hp
  cases Peer.forwards s.service i (h.legible p.machine) hthread with
  | stay heq => exact sees_stay (hat.upload_stay heq rfl)
  | @forward taking e j ha hk hj hrendered hl' =>
      rw [ha]
      refine hat.sees (fun _ => rfl) (b := .forward i taking.number j) ?_
        (.forward hp rfl hrendered) M
      change Upload.Step _ _ ((s.upload p.machine).set i
        (({ p with handler := handler } : Peer).link s.service i))
      rw [hl', ← hlink]
      refine .forward _ _ _ _ ?_ ?_ ?_ hj
      · rw [hlink]
        exact hlive
      · rw [hlink]
        exact (h.started p (List.mem_of_getElem? hp)).thread hthread
      · rw [hlink]
        refine hk.imp_right fun hle => ?_
        change _ ≤ ((s.logs p.machine).map Record.rid).length
        rwa [List.length_map]

theorem sees_send (hp : s.peers[i]? = some p) {t : ThreadAction} {handler : EventForwardHandler}
    {evts : List Event} {ac : Bool}
    (hthread : p.handler.threadStep (s.handles p.machine) t = some (handler, some (evts, ac)))
    (batched : String → List ℕ) :
    Sees s { s.setPeer i (({ p with handler := handler } : Peer).send
      (CoreMessage.logPackage evts ac)) with batched := batched } (.thread i t) M :=
  have hat : At i p (({ p with handler := handler } : Peer).send (CoreMessage.logPackage evts ac)) s
      { s.setPeer i (({ p with handler := handler } : Peer).send
        (CoreMessage.logPackage evts ac)) with batched := batched } :=
    ⟨hp, rfl, rfl, rfl, fun _ _ => rfl, fun _ _ => rfl⟩
  sees_stay (hat.upload_stay (Peer.link_send_log s.service i hthread) rfl)

theorem sees_deliver (hp : s.peers[i]? = some p) (hlive : p.live = true) {m : CoreMessage}
    (hm : (s.service.sent i)[p.delivered]? = some m) (asserts : Bool) (ts : String) :
    Sees s (s.setPeer i (p.receive asserts s.host ts m)) (.deliver i ts) M := by
  have hat : At i p (p.receive asserts s.host ts m) s
      (s.setPeer i (p.receive asserts s.host ts m)) :=
    at_setPeer hp (Peer.receive_frame asserts s.host ts m).1
  have hlink : (s.upload p.machine).links i = p.link s.service i := link_of_some hp
  have hlinklive : ((s.upload p.machine).links i).live = true := by
    rw [hlink]
    exact hlive
  cases Peer.hears s.service i asserts s.host ts hm with
  | stay heq => exact sees_stay (hat.upload_stay heq rfl)
  | @deliver o rest ho hoffers hl' =>
      refine hat.sees (fun _ => rfl) (b := .deliver i o) ?_ (.deliver hp rfl hm ho) M
      change Upload.Step _ _ ((s.upload p.machine).set i
        ((p.receive asserts s.host ts m).link s.service i))
      rw [hl', ← hlink]
      rw [← hlink] at hoffers
      exact .deliver _ _ _ _ hlinklive hoffers
  | close hpending hl' =>
      refine hat.sees (fun _ => rfl) (b := .close i) ?_ (.close _ i) M
      change Upload.Step _ _ ((s.upload p.machine).set i
        ((p.receive asserts s.host ts m).link s.service i))
      rw [hl', ← hlink]
      rw [← hlink] at hpending
      exact .close _ _ _ hlinklive hpending

theorem sees_disconnect (hp : s.peers[i]? = some p) (hlive : p.live = true) (n : ℕ) :
    Sees s (s.setPeer i (p.stop n)) (.disconnect i n) M := by
  have hat : At i p (p.stop n) s (s.setPeer i (p.stop n)) := at_setPeer hp rfl
  have hlink : (s.upload p.machine).links i = p.link s.service i := link_of_some hp
  obtain ⟨pending, hpending, hl'⟩ := Peer.link_stop (p := p) s.service i n
  refine hat.sees (fun _ => rfl) (b := .close i) ?_ (.close _ i) M
  change Upload.Step _ _ ((s.upload p.machine).set i ((p.stop n).link s.service i))
  rw [hl', ← hlink]
  rw [← hlink] at hpending
  refine .close _ _ _ ?_ hpending
  rw [hlink]
  exact hlive

/-! ## The server -/

theorem offers_of_silent {new : List CoreMessage} (h : Silent new) :
    new.filterMap CoreMessage.offer = [] := List.filterMap_eq_nil_iff.mpr h

/-- A link after the server has written to its session. -/
theorem link_of_wrote {t t' : Service} {new : List CoreMessage} (up : List CoreMessage)
    (hsent : Wrote i new t t') (hd : p.delivered ≤ (t.sent i).length) :
    ({ p with up := up } : Peer).link t' i = { p.link t i with
      pending := waiting t'.jobs i ++ up.filterMap CoreMessage.batch ++ p.handler.reading
      offers := (p.link t i).offers ++ new.filterMap CoreMessage.offer } := by
  have hself : t'.sent i = t.sent i ++ new := by rw [hsent, Function.update_self]
  simp only [Peer.link, hself, offers_append hd]

theorem at_read (hp : s.peers[i]? = some p) {t : Service} {new : List CoreMessage}
    (hsent : Wrote i new s.service t) (up : List CoreMessage)
    (hjobs : ∀ k, k ≠ i → waiting t.jobs k = waiting s.service.jobs k) :
    At i p { p with up := up } s { s.setPeer i { p with up := up } with service := t } where
  before := hp
  after := rfl
  machine := rfl
  logs := rfl
  jobs := hjobs
  sent := by
    intro k hk
    change t.sent k = _
    rw [hsent, Function.update_of_ne hk]

theorem at_serve (hp : s.peers[i]? = some p) {t : Service} {new : List CoreMessage}
    (hsent : Wrote i new s.service t)
    (hjobs : ∀ k, k ≠ i → waiting t.jobs k = waiting s.service.jobs k) :
    At i p p s { s with service := t } where
  before := hp
  after := by
    obtain ⟨hlt, rfl⟩ := List.getElem?_eq_some_iff.mp hp
    exact (List.set_getElem_self hlt).symm
  machine := rfl
  logs := rfl
  jobs := hjobs
  sent := by
    intro k hk
    change t.sent k = _
    rw [hsent, Function.update_of_ne hk]

/-- The successor of a number that is not negative does not wrap. -/
theorem toNat_toUInt32_succ {n : Int32} (h : 0 ≤ n.toInt) :
    ((n.toUInt32 + 1).toNat : ℤ) = n.toInt + 1 := by
  have hlt := n.toInt_lt
  have hnat : (n.toUInt32.toNat : ℤ) = n.toInt := by
    have hcond := n.toBitVec.toInt_eq_toNat_cond
    have hint : n.toInt = n.toBitVec.toInt := rfl
    have hn : n.toUInt32.toNat = n.toBitVec.toNat := rfl
    have hbound := n.toBitVec.isLt
    rw [hint] at h ⊢
    rw [hn]
    split_ifs at hcond <;> omega
  have hone : (1 : UInt32).toNat = 1 := rfl
  rw [UInt32.toNat_add]
  omega

/-- The answer of a query is just behind all that is stored. -/
theorem answer_bounds {c : DbClient} {db db' : Database} {n : Int32} {stored : List ℕ}
    (hstored : stored = Database.recordIDs c._clientID db.tables)
    (hget : Database.getLastEventRecordID c db = (.ok n, db')) :
    (∀ r ∈ stored, r < (n.toUInt32 + 1).toNat) ∧
      ((n.toUInt32 + 1).toNat = 1 ∨ ∃ r ∈ stored, (n.toUInt32 + 1).toNat = r + 1) := by
  obtain ⟨_, _, hnonneg, hmax, hmem⟩ := Database.getLastEventRecordID_eq_ok hget
  have hsucc := toNat_toUInt32_succ hnonneg
  rw [hstored]
  constructor
  · intro r hr
    have := hmax r hr
    omega
  · refine hmem.imp ?_ ?_
    · rintro rfl
      rfl
    · rintro ⟨r, hr, heq⟩
      exact ⟨r, hr, by omega⟩

/-- What is pending when the package `m` is read next. -/
theorem pending_read (hp : s.peers[i]? = some p) {m : CoreMessage} {up : List CoreMessage}
    (hup : p.up = m :: up) :
    ((s.upload p.machine).links i).pending = waiting s.service.jobs i ++
      (m.batch.toList ++ up.filterMap CoreMessage.batch) ++ p.handler.reading := by
  have hlink : (s.upload p.machine).links i = p.link s.service i := link_of_some hp
  rw [hlink, Peer.link, hup, List.filterMap_cons]
  cases m.batch with
  | none => rfl
  | some b => rfl

/-- A package is refused, queued or answered with a resume point, or it makes no difference. -/
theorem sees_read (h : WellFormed s) (hp : s.peers[i]? = some p) {m ret : CoreMessage}
    {up : List CoreMessage} {t : Service} {env : Surroundings} {ts : String}
    (hup : p.up = m :: up) (hret : ret.package = CoreMessage.arriving m.package)
    (hheard : Service.Heard i ret s.service t) (hcarries : Carries s.service.db t.db) :
    Sees s { s.setPeer i { p with up := up } with service := t } (.read i env ts) M := by
  have hstored : ∀ M, storedFor t.db.tables M = storedFor s.service.db.tables M :=
    hcarries.storedFor_eq h.registered
  have hlink : (s.upload p.machine).links i = p.link s.service i := link_of_some hp
  have hhead : p.up.head? = some m := by rw [hup]; rfl
  have hbatch : ret.batch = m.batch := batch_of_arriving hret
  have hd := h.delivered i p hp
  have hpending := pending_read hp hup
  cases hheard with
  | @quiet new hlost hjobs hsent hsilent =>
      have hat := at_read hp hsent up fun k _ => by rw [hjobs]
      have hnew := link_of_wrote up hsent hd
      rw [offers_of_silent hsilent, List.append_nil, hjobs, ← hlink] at hnew
      cases hm : m.batch with
      | none =>
          rw [hm, Option.toList_none, List.nil_append] at hpending
          rw [← hpending, hlink] at hnew
          exact sees_stay (hat.upload_stay hnew (hstored _))
      | some b =>
          have hrefused : s.service.dbConnected = true ∨ b = [] := by
            rw [hbatch, hm] at hlost
            simpa using hlost
          refine hat.sees hstored ?_ (.refused hp hhead hm hrefused) M
          change Upload.Step _ _ ((s.upload p.machine).set i
            (({ p with up := up } : Peer).link t i))
          rw [hm, Option.toList_some, List.singleton_append, List.append_assoc,
            List.cons_append] at hpending
          rw [hnew, List.append_assoc]
          exact .lose _ _ _ _ _ hpending
  | @queued evts ac hlog hjobs hsent =>
      have hsent' : Wrote i [] s.service t := Service.wrote_nil.mpr hsent
      have hm : m.batch = some (rids evts) := by
        rw [← hbatch, CoreMessage.batch, hlog]
      have hat := at_read hp hsent' up fun k hk => by
        rw [hjobs, waiting_append, waiting_cons_of_ne _ hk]
        exact List.append_nil _
      have hwaiting : waiting t.jobs i = waiting s.service.jobs i ++ [rids evts] := by
        rw [hjobs, waiting_append]
        exact congrArg _ (waiting_cons_self [] rfl)
      have hnew := link_of_wrote up hsent' hd
      refine sees_stay (hat.upload_stay (hnew.trans ?_) (hstored _))
      rw [hm, Option.toList_some, ← List.append_assoc] at hpending
      rw [← hlink, hwaiting, List.filterMap_nil, List.append_nil, ← hpending]
  | @offered c n m' hflag hquery hc hget hjobs hsent hm' =>
      have hm : m.package = .queryLastEvent := by
        rw [hret] at hquery
        cases hp : m.package with
        | queryLastEvent => rfl
        | _ =>
            rw [hp] at hquery
            cases hquery
      have hnone : m.batch = none := by rw [CoreMessage.batch, hm]
      have hat := at_read hp hsent up fun k _ => by rw [hjobs]
      have hnew := link_of_wrote up hsent hd
      have hoffer : m'.offer = some (.returned (n.toUInt32 + 1).toNat) := by
        rw [CoreMessage.offer, hm']
      obtain ⟨hmax, hnext⟩ :=
        answer_bounds (h.registered.storedFor_eq (h.owner i p hp c hc)) hget
      refine hat.sees hstored (b := .offer i (n.toUInt32 + 1).toNat) ?_
        (.offer hp rfl hflag hhead hm) M
      change Upload.Step _ _ ((s.upload p.machine).set i (({ p with up := up } : Peer).link t i))
      rw [hnone, Option.toList_none, List.nil_append] at hpending
      rw [hnew, hjobs, ← hlink, ← hpending, List.filterMap_cons, hoffer]
      refine .offer _ _ _ ?_ hmax hnext
      rw [hlink]
      rfl

/-- A batch that a worker takes up leaves its link. -/
theorem link_of_taken {t : Service} {j : ℕ} {job : Job} {new : List CoreMessage}
    (hp : s.peers[job.session]? = some p) (hj : s.service.jobs[j]? = some job)
    (hinserted : job.inserted = false)
    (hjobs : waiting t.jobs job.session = waiting (s.service.jobs.eraseIdx j) job.session)
    (hsent : Wrote job.session new s.service t) (hsilent : Silent new)
    (hd : p.delivered ≤ (s.service.sent job.session).length) :
    ∃ after, ((s.upload p.machine).links job.session).pending =
        waiting (s.service.jobs.take j) job.session ++ rids job.evts :: after ∧
      p.link t job.session = { (s.upload p.machine).links job.session with
        pending := waiting (s.service.jobs.take j) job.session ++ after } := by
  have hlink : (s.upload p.machine).links job.session = p.link s.service job.session :=
    link_of_some hp
  have hnew := link_of_wrote p.up hsent hd
  obtain ⟨hbefore, hafter⟩ := waiting_of_getElem hj hinserted
  rw [offers_of_silent hsilent, List.append_nil, hjobs, hafter, List.append_assoc,
    List.append_assoc] at hnew
  refine ⟨waiting (s.service.jobs.drop (j + 1)) job.session ++
    (p.up.filterMap CoreMessage.batch ++ p.handler.reading), ?_, ?_⟩
  · rw [hlink, Peer.link, hbefore, List.append_assoc, List.append_assoc, List.cons_append]
  · rw [hlink]
    exact hnew

/-- Queued work is stored or lost. -/
theorem sees_insert (h : WellFormed s) {j : ℕ} {job : Job} (hj : s.service.jobs[j]? = some job)
    (hinserted : job.inserted = false) (hp : s.peers[job.session]? = some p) {t : Service}
    (hspec : Service.Inserted j job s.service t) :
    Sees s { s with service := t } (.insert j) M := by
  have hd := h.delivered _ p hp
  have hothers : ∀ k, k ≠ job.session →
      waiting (s.service.jobs.eraseIdx j) k = waiting s.service.jobs k :=
    fun k hk => waiting_eraseIdx hj (Or.inr hk)
  cases hspec with
  | @stored c hc hdb hjobs hsent =>
      have hsent' : Wrote job.session [] s.service t :=
        Service.wrote_nil.mpr hsent
      have hwaiting : ∀ k, waiting t.jobs k = waiting (s.service.jobs.eraseIdx j) k := by
        intro k
        rw [hjobs, waiting_set hj]
      have hat := at_serve hp hsent' fun k hk => (hwaiting k).trans (hothers k hk)
      have hk := h.owner _ p hp c hc
      obtain ⟨after, hpending, hlink⟩ :=
        link_of_taken hp hj hinserted (hwaiting _) hsent' Service.silent_nil hd
      have hstored : storedFor t.db.tables p.machine =
          storedFor s.service.db.tables p.machine ++ rids job.evts := by
        rw [hdb]
        exact h.registered.storedFor_store hk
      by_cases hM : M = p.machine
      · rw [hM]
        have hself := hat.upload_self
        change _ = { (s.upload p.machine).set job.session (p.link t job.session) with
          stored := storedFor t.db.tables p.machine } at hself
        rw [hstored, hlink] at hself
        by_cases hevts : job.evts = []
        · refine ⟨_, ?_, .lost hj (Or.inl hevts)⟩
          rw [hself, hevts, rids, List.map_nil, List.append_nil]
          rw [hevts] at hpending
          exact .lose _ _ _ _ _ hpending
        · refine ⟨_, ?_, .store hj hevts⟩
          rw [hself]
          exact .store _ _ _ _ _ hpending
      · refine sees_stay (hat.upload_of_ne hM ?_)
        change storedFor t.db.tables M = _
        rw [hdb]
        exact h.registered.storedFor_store_of_ne hk hM
  | @lost new hdb hjobs hsent hsilent hlost =>
      have hwaiting : ∀ k, waiting t.jobs k = waiting (s.service.jobs.eraseIdx j) k := by
        intro k
        rcases hjobs with hjobs | hjobs
        · rw [hjobs, waiting_set hj]
        · rw [hjobs]
      have hat := at_serve hp hsent fun k hk => (hwaiting k).trans (hothers k hk)
      obtain ⟨after, hpending, hlink⟩ :=
        link_of_taken hp hj hinserted (hwaiting _) hsent hsilent hd
      refine hat.sees (hdb.storedFor_eq h.registered) ?_ (.lost hj (Or.inr hlost)) M
      change Upload.Step _ _ ((s.upload p.machine).set job.session (p.link t job.session))
      rw [hlink]
      exact .lose _ _ _ _ _ hpending

/-- The reply to a batch may tell a resume point. -/
theorem sees_reply (h : WellFormed s) {j : ℕ} {job : Job} (hj : s.service.jobs[j]? = some job)
    (hinserted : job.inserted = true) (hp : s.peers[job.session]? = some p) :
    Sees s { s with service := s.service.reply j job } (.reply j) M := by
  obtain ⟨hjobs, hdb, _, hsent, _⟩ := Service.replied s.service j job p.machine
  have hd := h.delivered _ p hp
  have hwaiting : ∀ k, waiting (s.service.reply j job).jobs k = waiting s.service.jobs k := by
    intro k
    rw [hjobs, waiting_eraseIdx hj (Or.inl hinserted)]
  have hstored : ∀ M, storedFor (s.service.reply j job).db.tables M =
      storedFor s.service.db.tables M := by
    intro M
    rw [hdb]
  have hat := at_serve hp hsent fun k _ => hwaiting k
  have hnew := link_of_wrote p.up hsent hd
  rw [hwaiting] at hnew
  have hlink : (s.upload p.machine).links job.session = p.link s.service job.session :=
    link_of_some hp
  cases hneed : job.needAccept with
  | false =>
      rw [hneed, if_neg Bool.false_ne_true, List.filterMap_nil, List.append_nil] at hnew
      exact sees_stay (hat.upload_stay hnew (hstored M))
  | true =>
      have hoffer : ∀ lid id, (CoreMessage.acceptLastEventPackage lid id).1.offer =
          some (.accepted lid.toNat) := fun _ _ => rfl
      rw [hneed, if_pos rfl, List.filterMap_cons, hoffer, ← hlink] at hnew
      refine hat.sees hstored ?_ (.accept hj hp rfl hneed) M
      change Upload.Step _ _ ((s.upload p.machine).set job.session
        (({ p with up := p.up } : Peer).link (s.service.reply j job) job.session))
      have hpending : ((s.upload p.machine).links job.session).pending =
          waiting s.service.jobs job.session ++ p.up.filterMap CoreMessage.batch ++
            p.handler.reading := by
        rw [hlink]
        rfl
      rw [hnew, ← hpending]
      refine .accept _ _ _ ?_
      rw [hlink]
      rfl

/-- A step that touches no session and no event. -/
theorem sees_quiet (h : WellFormed s) {t : Service} (hcarries : Carries s.service.db t.db)
    (hjobs : t.jobs = s.service.jobs) (hsent : t.sent = s.service.sent) :
    Sees s { s with service := t } a M := by
  refine sees_stay (upload_congr rfl (hcarries.storedFor_eq h.registered M) fun k => ?_)
  have hwaiting : waiting t.jobs k = waiting s.service.jobs k := by rw [hjobs]
  have hwritten : t.sent k = s.service.sent k := by rw [hsent]
  have hpeers : ({ s with service := t } : Deployment).peers[k]? = s.peers[k]? := rfl
  exact link_congr hpeers hwaiting hwritten M

/-! ## All steps -/

/-- Only legible records are added. -/
def Readable : Action → Prop
  | .record _ r => r.Legible
  | _ => True

/-- **Every step keeps the invariant, and each machine sees a step of its upload.** -/
theorem simulates {asserts : Bool} (h : WellFormed s) (hreadable : Readable a)
    (hstep : s.step asserts a = some s') : WellFormed s' ∧ ∀ M, Sees s s' a M := by
  cases (step_spec hstep).2 with
  | record M r => exact ⟨h.record hreadable, fun _ => sees_record M r⟩
  | connect hidle => exact ⟨h.connect _, fun _ => sees_connect h hidle⟩
  | @thread i p t handler hp hlive hthread =>
      have hresumed := (h.started p (List.mem_of_getElem? hp)).thread hthread
      exact ⟨h.setPeer hp rfl (h.delivered i p hp) (Or.inr (Or.inr hresumed)),
        fun _ => sees_thread h hp hlive hthread⟩
  | @send i p t handler evts ac hp hlive hthread =>
      have hresumed := (h.started p (List.mem_of_getElem? hp)).thread hthread
      have hset : WellFormed (s.setPeer i (({ p with handler := handler } : Peer).send
          (CoreMessage.logPackage evts ac))) :=
        h.setPeer hp rfl (h.delivered i p hp) (Or.inr (Or.inr hresumed))
      exact ⟨hset.batch _, fun _ => sees_send hp hthread _⟩
  | @deliver i p m ts hp hlive hm =>
      obtain ⟨hmachine, hdelivered, hstarted⟩ := Peer.receive_frame (p := p) asserts s.host ts m
      obtain ⟨hlt, _⟩ := List.getElem?_eq_some_iff.mp hm
      exact ⟨h.setPeer hp hmachine (by omega) (hstarted (h.started p (List.mem_of_getElem? hp))),
        fun _ => sees_deliver hp hlive hm asserts ts⟩
  | @halt i p hp hlive =>
      have hat : At i p p.halt s (s.setPeer i p.halt) := at_setPeer hp rfl
      exact ⟨h.setPeer hp rfl (h.delivered i p hp) (h.started p (List.mem_of_getElem? hp)),
        fun _ => sees_stay (hat.upload_stay rfl rfl)⟩
  | @disconnect i p n hp hlive =>
      exact ⟨h.setPeer hp rfl (h.delivered i p hp) (Or.inr (Or.inl rfl)),
        fun _ => sees_disconnect hp hlive n⟩
  | @read i p m ret up id env ts hp hup hret =>
      obtain ⟨hpackage, hmachine⟩ := transmit_some hret
      have hcarries := Service.carries_read { s.service with nextID := id } i env ret
      obtain ⟨hheard, hframe⟩ := Service.heard { s.service with nextID := id } i env ret
      rw [hmachine] at hframe
      obtain ⟨⟨new, hsent⟩, hjobs⟩ := hheard.frame
      have hserve := h.serve hp ⟨hframe.accepted, hframe.others, hframe.client, hframe.sent⟩
        (hcarries.registered h.registered) hcarries.keys (h.session_lt hp hjobs) hsent
      exact ⟨hserve.setPeer hp rfl (hserve.delivered i p hp)
        (h.started p (List.mem_of_getElem? hp)),
        fun _ => sees_read h hp hup hpackage hheard.of_drawn hcarries⟩
  | @insert j job hj hinserted =>
      obtain ⟨p, hp⟩ := h.exists_peer hj
      obtain ⟨hspec, hframe⟩ := Service.inserted s.service j job p.machine
      obtain ⟨⟨new, hsent⟩, hjobs⟩ := hspec.frame
      obtain ⟨hregistered, hkeys⟩ := hspec.registered h.registered fun c hc =>
        ⟨p.machine, h.owner _ p hp c hc⟩
      exact ⟨h.serve hp hframe hregistered hkeys (h.session_lt hp hjobs) hsent,
        fun _ => sees_insert h hj hinserted hp hspec⟩
  | @reply j job hj hinserted =>
      obtain ⟨p, hp⟩ := h.exists_peer hj
      obtain ⟨hjobs, hdb, _, hsent, hframe⟩ := Service.replied s.service j job p.machine
      have hkeys : Database.keys s.service.db.tables <+:
          Database.keys (s.service.reply j job).db.tables := by rw [hdb]
      have hregistered : Database.Registered (s.service.reply j job).db := by
        rw [hdb]
        exact h.registered
      refine ⟨h.serve hp hframe hregistered hkeys (h.session_lt hp fun job' hjob' => ?_) hsent,
        fun _ => sees_reply h hj hinserted hp⟩
      rw [hjobs] at hjob'
      exact Or.inl (List.mem_of_mem_eraseIdx hjob')
  | lose => exact ⟨h.carries (.refl _) rfl rfl rfl rfl, fun _ => sees_quiet h (.refl _) rfl rfl⟩
  | sigpipe outcome =>
      obtain ⟨hjobs, hsent, haccepted⟩ := s.service.sigpipeHandler_frame asserts outcome
      obtain ⟨hcarries, hsessions⟩ := Service.carries_sigpipe asserts outcome s.service
      exact ⟨h.carries hcarries haccepted hjobs hsent hsessions,
        fun _ => sees_quiet h hcarries hjobs hsent⟩
  | stop => exact ⟨h.carries (.refl _) rfl rfl rfl rfl, fun _ => sees_quiet h (.refl _) rfl rfl⟩

end
end ClientService.Deployment
