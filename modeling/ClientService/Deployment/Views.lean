import ClientService.Deployment.Basic
import ClientService.Deployment.Owners
import ClientService.Protobuf.RoundTrip
import ClientService.Upload.Basic

/-!
# The upload of a machine

What the deployment looks like from one machine: a log that is uploaded over links that break.
Only the packages with events and with resume points are seen of a connection. A batch is pending
from the moment `EnumerateResults` returns it until `InsertWindowsEvents` has run.

## Main definitions

* `CoreMessage.batch`, `CoreMessage.offer` — what is seen of a package.
* `Peer.link` — what is seen of a connection.
* `Deployment.upload` — what is seen of the deployment.
-/

namespace ClientService

/-- The batch of records in a package. -/
def CoreMessage.batch (m : CoreMessage) : Option (List ℕ) :=
  match m.package with
  | .log evts _ => some (rids evts)
  | _ => none

/-- The resume point in a package. -/
def CoreMessage.offer (m : CoreMessage) : Option Upload.Offer :=
  match m.package with
  | .returnLastEvent lid => some (.returned lid.toNat)
  | .acceptLastEvent lid => some (.accepted lid.toNat)
  | _ => none

/-- The batch that the thread has read and not sent. -/
def EventForwardHandler.reading (h : EventForwardHandler) : List (List ℕ) :=
  match h.pc with
  | .read _ _ evts => [rids evts]
  | _ => []

/-- The batches of a session that no worker has stored. -/
def waiting (jobs : List Job) (i : ℕ) : List (List ℕ) :=
  (jobs.filter fun job => job.session = i ∧ job.inserted = false).map fun job => rids job.evts

/-- A connection as a link. -/
def Peer.link (p : Peer) (t : Service) (i : ℕ) : Upload.Link where
  made := true
  live := p.live
  taken := p.handler.taken
  resumed := p.resumed
  floor := p.handler.lastEventIDUploaded.toNat
  pending := waiting t.jobs i ++ p.up.filterMap CoreMessage.batch ++ p.handler.reading
  offers := ((t.sent i).drop p.delivered).filterMap CoreMessage.offer

/-- Connection `i`, when it is one of the machine. -/
def Deployment.link (s : Deployment) (M : String) (i : ℕ) : Upload.Link :=
  match s.peers[i]? with
  | some p => if p.machine = M then p.link s.service i else {}
  | none => {}

/-- The upload of the log of a machine. -/
def Deployment.upload (s : Deployment) (M : String) : Upload.State where
  log := (s.logs M).map Record.rid
  stored := Database.storedFor s.service.db.tables M
  links := s.link M

/-! ## Packages on their way -/

section
variable {asserts : Bool} {g : Process} {ts : String} {m msg : CoreMessage} {id id' : Int32}

/-- A package arrives as it was sent, up to the levels of its events. -/
theorem transmit_some (h : transmit asserts g ts m id = .ret (some msg, id')) :
    msg.package = CoreMessage.arriving m.package ∧ msg.machineID = g.myMachineID := by
  rw [transmit] at h
  by_cases hrefuse : ∀ r, m.package ≠ .refuse r
  · obtain ⟨m', id₁, hbuild, hpackage, hfields⟩ :=
      CoreMessage.buildObj_toProto asserts g ts hrefuse id
    rw [hbuild] at h
    cases h
    exact ⟨hpackage, hfields.machineID⟩
  · rw [← CoreMessage.buildable_toProto_iff g ts] at hrefuse
    rw [CoreMessage.buildObj_of_not_buildable asserts hrefuse] at h
    cases asserts <;> cases h

/-- Only a refusal does not arrive. -/
theorem transmit_none (h : transmit asserts g ts m id = .ret (none, id')) : m.offer = none := by
  rw [transmit] at h
  by_cases hrefuse : ∀ r, m.package ≠ .refuse r
  · obtain ⟨m', id₁, hbuild, _⟩ := CoreMessage.buildObj_toProto asserts g ts hrefuse id
    rw [hbuild] at h
    cases h
  · simp only [ne_eq, not_forall, not_not] at hrefuse
    obtain ⟨r, hr⟩ := hrefuse
    rw [CoreMessage.offer, hr]

/-- The ids of a package arrive. -/
theorem batch_of_arriving (h : msg.package = CoreMessage.arriving m.package) :
    msg.batch = m.batch := by
  have hrid : ∀ e, (CoreMessage.readLog (CoreMessage.addLog e)).rid = e.rid := fun _ => rfl
  rw [CoreMessage.batch, CoreMessage.batch, h]
  cases m.package with
  | log evts ac => simp [CoreMessage.arriving, rids, hrid]
  | _ => rfl

end

/-! ## Batches that wait -/

section
variable (jobs jobs' : List Job) {job : Job} {i : ℕ}

theorem waiting_append (i : ℕ) : waiting (jobs ++ jobs') i = waiting jobs i ++ waiting jobs' i := by
  simp [waiting]

theorem waiting_cons_of_inserted (h : job.inserted = true) :
    waiting (job :: jobs) i = waiting jobs i := by
  simp [waiting, h]

theorem waiting_cons_of_ne (h : i ≠ job.session) : waiting (job :: jobs) i = waiting jobs i := by
  simp [waiting, Ne.symm h]

theorem waiting_cons_self (h : job.inserted = false) :
    waiting (job :: jobs) job.session = rids job.evts :: waiting jobs job.session := by
  simp [waiting, h]

theorem waiting_eq_nil (h : ∀ job ∈ jobs, job.session ≠ i) : waiting jobs i = [] := by
  rw [waiting, List.filter_eq_nil_iff.mpr, List.map_nil]
  intro job hjob
  simp [h job hjob]

end

section
variable {jobs : List Job} {j : ℕ} {job : Job}

theorem jobs_split (hj : jobs[j]? = some job) : jobs = jobs.take j ++ job :: jobs.drop (j + 1) := by
  obtain ⟨hlt, heq⟩ := List.getElem?_eq_some_iff.mp hj
  rw [← heq, List.cons_getElem_drop_succ, List.take_append_drop]

/-- A job that is done is out of sight. -/
theorem waiting_eraseIdx (hj : jobs[j]? = some job) {i : ℕ}
    (h : job.inserted = true ∨ i ≠ job.session) :
    waiting (jobs.eraseIdx j) i = waiting jobs i := by
  have hcons : waiting (job :: jobs.drop (j + 1)) i = waiting (jobs.drop (j + 1)) i := by
    rcases h with h | h
    · exact waiting_cons_of_inserted _ h
    · exact waiting_cons_of_ne _ h
  conv_rhs => rw [jobs_split hj, waiting_append, hcons, ← waiting_append]
  rw [List.eraseIdx_eq_take_drop_succ]

/-- What a worker leaves of a job is out of sight. -/
theorem waiting_set (hj : jobs[j]? = some job) (i : ℕ) :
    waiting (jobs.set j { job with inserted := true }) i = waiting (jobs.eraseIdx j) i := by
  obtain ⟨hlt, _⟩ := List.getElem?_eq_some_iff.mp hj
  have hdone : waiting ({ job with inserted := true } :: jobs.drop (j + 1)) i =
      waiting (jobs.drop (j + 1)) i := waiting_cons_of_inserted _ rfl
  rw [List.set_eq_take_append_cons_drop, if_pos hlt, waiting_append, hdone, ← waiting_append,
    List.eraseIdx_eq_take_drop_succ]

/-- A job that a worker takes up has its place among those of its session. -/
theorem waiting_of_getElem (hj : jobs[j]? = some job) (h : job.inserted = false) :
    waiting jobs job.session = waiting (jobs.take j) job.session ++
        rids job.evts :: waiting (jobs.drop (j + 1)) job.session ∧
      waiting (jobs.eraseIdx j) job.session = waiting (jobs.take j) job.session ++
        waiting (jobs.drop (j + 1)) job.session := by
  constructor
  · conv_lhs => rw [jobs_split hj, waiting_append, waiting_cons_self _ h]
  · rw [List.eraseIdx_eq_take_drop_succ, waiting_append]

end

/-! ## Links -/

/-- What is written behind the packages that have been handled. -/
theorem offers_append {sent new : List CoreMessage} {d : ℕ} (hd : d ≤ sent.length) :
    ((sent ++ new).drop d).filterMap CoreMessage.offer =
      (sent.drop d).filterMap CoreMessage.offer ++ new.filterMap CoreMessage.offer := by
  rw [List.drop_append_of_le_length hd, List.filterMap_append]

namespace Deployment

section
variable {s s' : Deployment} {i : ℕ} {p p' : Peer}

theorem link_of_some (hp : s.peers[i]? = some p) : s.link p.machine i = p.link s.service i := by
  rw [link, hp]
  exact if_pos rfl

theorem link_of_ne (hp : s.peers[i]? = some p) {M : String} (hM : M ≠ p.machine) :
    s.link M i = {} := by
  rw [link, hp]
  exact if_neg (Ne.symm hM)

theorem link_of_none (hi : s.peers.length ≤ i) (M : String) : s.link M i = {} := by
  rw [link, List.getElem?_eq_none hi]

theorem link_congr (hpeer : s'.peers[i]? = s.peers[i]?)
    (hjobs : waiting s'.service.jobs i = waiting s.service.jobs i)
    (hsent : s'.service.sent i = s.service.sent i) (M : String) : s'.link M i = s.link M i := by
  rw [link, link, hpeer]
  cases s.peers[i]? with
  | none => rfl
  | some p => simp only [Peer.link, hjobs, hsent]

/-- The same upload. -/
theorem upload_congr {M : String} (hlogs : s'.logs M = s.logs M)
    (hstored : Database.storedFor s'.service.db.tables M =
      Database.storedFor s.service.db.tables M)
    (hlinks : ∀ k, s'.link M k = s.link M k) : s'.upload M = s.upload M := by
  rw [upload, upload, hlogs, hstored]
  congr 1
  funext k
  exact hlinks k

/-- A step on connection `i`, from the other connections. -/
structure At (i : ℕ) (p p' : Peer) (s s' : Deployment) : Prop where
  before : s.peers[i]? = some p
  after : s'.peers = s.peers.set i p'
  machine : p'.machine = p.machine
  logs : s'.logs = s.logs
  jobs : ∀ k, k ≠ i → waiting s'.service.jobs k = waiting s.service.jobs k
  sent : ∀ k, k ≠ i → s'.service.sent k = s.service.sent k

theorem at_setPeer (hp : s.peers[i]? = some p) (hmachine : p'.machine = p.machine) :
    At i p p' s (s.setPeer i p') :=
  ⟨hp, rfl, hmachine, rfl, fun _ _ => rfl, fun _ _ => rfl⟩

theorem At.getElem? (h : At i p p' s s') : s'.peers[i]? = some p' := by
  obtain ⟨hlt, _⟩ := List.getElem?_eq_some_iff.mp h.before
  rw [h.after, List.getElem?_set_self hlt]

theorem At.link_of_ne (h : At i p p' s s') {k : ℕ} (hk : k ≠ i) (M : String) :
    s'.link M k = s.link M k := by
  refine link_congr ?_ (h.jobs k hk) (h.sent k hk) M
  rw [h.after, List.getElem?_set_ne (Ne.symm hk)]

theorem At.link_self (h : At i p p' s s') : s'.link p.machine i = p'.link s'.service i := by
  rw [← h.machine]
  exact link_of_some h.getElem?

/-- The other machines see nothing of it. -/
theorem At.upload_of_ne (h : At i p p' s s') {M : String} (hM : M ≠ p.machine)
    (hstored : Database.storedFor s'.service.db.tables M =
      Database.storedFor s.service.db.tables M) : s'.upload M = s.upload M := by
  refine upload_congr (congrFun h.logs M) hstored fun k => ?_
  by_cases hk : k = i
  · rw [hk, Deployment.link_of_ne h.before hM, Deployment.link_of_ne h.getElem? (h.machine ▸ hM)]
  · exact h.link_of_ne hk M

/-- A link that stays as it was. -/
theorem At.upload_stay (h : At i p p' s s') (hlink : p'.link s'.service i = p.link s.service i)
    {M : String} (hstored : Database.storedFor s'.service.db.tables M =
      Database.storedFor s.service.db.tables M) : s'.upload M = s.upload M := by
  by_cases hM : M = p.machine
  · refine upload_congr (congrFun h.logs M) hstored fun k => ?_
    by_cases hk : k = i
    · rw [hk, hM, h.link_self, hlink, link_of_some h.before]
    · exact h.link_of_ne hk M
  · exact h.upload_of_ne hM hstored

/-- The machine of the connection sees one link changed. -/
theorem At.upload_self (h : At i p p' s s') :
    s'.upload p.machine = { (s.upload p.machine).set i (p'.link s'.service i) with
      stored := Database.storedFor s'.service.db.tables p.machine } := by
  have hlinks : s'.link p.machine =
      Function.update (s.link p.machine) i (p'.link s'.service i) := by
    funext k
    by_cases hk : k = i
    · rw [hk, Function.update_self, h.link_self]
    · rw [Function.update_of_ne hk, h.link_of_ne hk]
  rw [upload, hlinks, h.logs]
  rfl

theorem upload_links (s : Deployment) (M : String) (i : ℕ) :
    (s.upload M).links i = s.link M i := rfl

end
end Deployment
end ClientService
