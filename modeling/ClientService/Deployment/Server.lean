import ClientService.Deployment.Views

/-!
# The server, as far as the upload is concerned

A package that the server reads is refused, queued or answered with a resume point, or it makes
no difference to the upload. Queued work is stored or lost, and may be answered with a resume
point.

## Main definitions

* `Heard`, `Inserted`, `Replied` — what becomes of a package and of a job.
* `Frame` — what stays.
-/

namespace ClientService.Service

open Database (Carries Registered keys)

/-- The packages `new` are written to session `i`. -/
def Wrote (i : ℕ) (new : List CoreMessage) (s s' : Service) : Prop :=
  s'.sent = Function.update s.sent i (s.sent i ++ new)

/-- None of the packages has a resume point. -/
def Silent (new : List CoreMessage) : Prop := ∀ m ∈ new, m.offer = none

/-- What becomes of a package that session `i` reads. -/
inductive Heard (i : ℕ) (ret : CoreMessage) (s s' : Service) : Prop
  | quiet {new : List CoreMessage}
      (hlost : s.dbConnected = true ∨ ret.batch = none ∨ ret.batch = some [])
      (hjobs : s'.jobs = s.jobs) (hsent : Wrote i new s s') (hsilent : Silent new)
  | queued {evts : List Event} {ac : Bool} (hp : ret.package = .log evts ac)
      (hjobs : s'.jobs = s.jobs ++ [{ session := i, id := ret.id, evts := evts, needAccept := ac }])
      (hsent : s'.sent = s.sent)
  | offered {c : DbClient} {n : Int32} {m : CoreMessage} (hflag : s.dbConnected = false)
      (hp : ret.package = .queryLastEvent) (hc : (s.sessions i)._client = some c)
      (hget : Database.getLastEventRecordID c s.db = (.ok n, s'.db)) (hjobs : s'.jobs = s.jobs)
      (hsent : Wrote i [m] s s') (hm : m.package = .returnLastEvent (n.toUInt32 + 1))

/-- What a computation of session `i` leaves. `machineID` is what a `CONNECT` tells. -/
structure Frame (i : ℕ) (machineID : String) (s s' : Service) : Prop where
  accepted : s'.accepted = s.accepted
  others : ∀ k, k ≠ i → s'.sessions k = s.sessions k
  client : ∀ c, (s'.sessions i)._client = some c → (s.sessions i)._client = some c ∨
    (Registered s.db → (c._clientID, machineID) ∈ keys s'.db.tables)
  /-- A computation that ends the process has written nothing. -/
  sent : s.ended = false → s'.ended = true → s'.sent = s.sent

section
variable {s : Service} {i : ℕ} {machineID : String} {t : Server}

theorem wrote_nil {s' : Service} : Wrote i [] s s' ↔ s'.sent = s.sent := by
  rw [Wrote, List.append_nil, Function.update_eq_self]

theorem silent_nil : Silent [] := fun _ hm => nomatch hm

theorem update_sessions_self : (s.update i t).sessions i = t.client := Function.update_self _ _ _

theorem frame_of_ok (hclient : ∀ c, t.client._client = some c → (s.sessions i)._client = some c ∨
    (Registered s.db → (c._clientID, machineID) ∈ keys t.db.tables)) :
    Frame i machineID s (s.update i t) where
  accepted := rfl
  others := fun k hk => Function.update_of_ne hk _ _
  client := by
    intro c hc
    rw [update_sessions_self] at hc
    exact hclient c hc
  sent := fun h h' => nomatch h.symm.trans h'

theorem frame_of_error (hclient : t.client = s.sessions i) (hsent : t.sent = []) :
    Frame i machineID s { s.update i t with ended := true } where
  accepted := rfl
  others := fun k hk => Function.update_of_ne hk _ _
  client := by
    intro c hc
    have hc : ((s.update i t).sessions i)._client = some c := hc
    rw [update_sessions_self, hclient] at hc
    exact Or.inl hc
  sent := by
    intro _ _
    have hnil : Wrote i t.sent s (s.update i t) := rfl
    rw [hsent] at hnil
    exact wrote_nil.mp hnil

/-- Handling a package leaves the events alone. -/
theorem carries_read (s : Service) (i : ℕ) (env : Surroundings) (ret : CoreMessage) :
    Carries s.db (s.serve i (Client.readFromNetwork env ret)).2.db := by
  have hread : Carries s.db (Client.readFromNetwork env ret (s.server i)).2.db := by
    cases hflag : s.dbConnected with
    | true =>
        rw [Client.readFromNetwork_of_connected hflag]
        exact .refl _
    | false =>
        rw [Client.readFromNetwork_of_not_connected env ret hflag]
        have hspec := Client.handle_spec env ret (s.server i)
        generalize Client.handle env ret (s.server i) = x at hspec
        cases hspec with
        | connect hp hget => exact (Database.carries_getClient hget).1
        | connectFailed hp hget =>
            exact Database.carries_of_stored (Database.getClient_eq_error hget)
        | @query c n db hp hc hget =>
            have hcarries := Database.carries_getLastEventRecordID c s.db
            rwa [show Database.getLastEventRecordID c s.db = _ from hget] at hcarries
        | @queryFailed c e db hp hc hget =>
            have hcarries := Database.carries_getLastEventRecordID c s.db
            rwa [show Database.getLastEventRecordID c s.db = _ from hget] at hcarries
        | log hp hevts | eventless hp | unidentified hp hc | ignored hlog => exact .refl _
  rw [serve_eq]
  cases (Client.readFromNetwork env ret (s.server i)).1 with
  | ok u => exact hread
  | error e => exact hread

/-- **What becomes of a package.** -/
theorem heard (s : Service) (i : ℕ) (env : Surroundings) (ret : CoreMessage) :
    Heard i ret s (s.serve i (Client.readFromNetwork env ret)).2 ∧
      Frame i ret.machineID s (s.serve i (Client.readFromNetwork env ret)).2 := by
  rw [serve_eq]
  cases hflag : s.dbConnected with
  | true =>
      rw [Client.readFromNetwork_of_connected (s := s.server i) hflag]
      refine ⟨.quiet (Or.inl hflag) (List.append_nil _) rfl ?_, frame_of_ok fun c hc => Or.inl hc⟩
      intro m hm
      rw [List.mem_singleton.mp hm]
      rfl
  | false =>
      rw [Client.readFromNetwork_of_not_connected (s := s.server i) env ret hflag]
      have hspec := Client.handle_spec env ret (s.server i)
      generalize Client.handle env ret (s.server i) = x at hspec
      have hbatch : ∀ p, ret.package = p → (∀ evts ac, p ≠ .log evts ac) → ret.batch = none := by
        rintro p rfl hlog
        rw [CoreMessage.batch]
        cases hp : ret.package with
        | log evts ac => exact absurd hp (hlog evts ac)
        | _ => rfl
      cases hspec with
      | log hp hevts =>
          refine ⟨.queued hp ?_ ?_, frame_of_ok fun c hc => Or.inl hc⟩
          · simp [update, server, jobOf, hp]
          · exact wrote_nil.mp rfl
      | connect hp hget =>
          refine ⟨.quiet (Or.inr (Or.inl (hbatch _ hp (by simp)))) (List.append_nil _) rfl ?_,
            frame_of_ok fun c hc => Or.inr ?_⟩
          · intro m hm
            rw [List.mem_singleton.mp hm]
            rfl
          · cases hc
            exact (Database.carries_getClient hget).2
      | query hp hc hget =>
          exact ⟨.offered hflag hp hc hget (List.append_nil _) rfl rfl,
            frame_of_ok fun c hc => Or.inl hc⟩
      | connectFailed hp hget | queryFailed hp hc hget | unidentified hp hc =>
          exact ⟨.quiet (Or.inr (Or.inl (hbatch _ hp (by simp)))) (List.append_nil _) rfl
            silent_nil, frame_of_error rfl rfl⟩
      | eventless hp =>
          refine ⟨.quiet (Or.inr (Or.inr ?_)) (List.append_nil _) rfl silent_nil,
            frame_of_error rfl rfl⟩
          rw [CoreMessage.batch, hp]
          rfl
      | ignored hlog =>
          exact ⟨.quiet (Or.inr (Or.inl (hbatch _ rfl hlog))) (List.append_nil _) rfl silent_nil,
            frame_of_ok fun c hc => Or.inl hc⟩

/-- The counter of ids does not count. -/
theorem Heard.of_drawn {s' : Service} {ret : CoreMessage} {id : Int32}
    (h : Heard i ret { s with nextID := id } s') : Heard i ret s s' := by
  cases h with
  | quiet hlost hjobs hsent hsilent => exact .quiet hlost hjobs hsent hsilent
  | queued hp hjobs hsent => exact .queued hp hjobs hsent
  | offered hflag hp hc hget hjobs hsent hm => exact .offered hflag hp hc hget hjobs hsent hm

/-- Only packages for session `i` are written, and only work of it is queued. -/
theorem Heard.frame {s' : Service} {ret : CoreMessage} (h : Heard i ret s s') :
    (∃ new, Wrote i new s s') ∧ ∀ job ∈ s'.jobs, job ∈ s.jobs ∨ job.session = i := by
  cases h with
  | quiet hlost hjobs hsent hsilent =>
      rw [hjobs]
      exact ⟨⟨_, hsent⟩, fun job hjob => Or.inl hjob⟩
  | queued hp hjobs hsent =>
      rw [hjobs]
      refine ⟨⟨[], wrote_nil.mpr hsent⟩, fun job hjob => ?_⟩
      rcases List.mem_append.mp hjob with hjob | hjob
      · exact Or.inl hjob
      · rw [List.mem_singleton.mp hjob]
        exact Or.inr rfl
  | offered hflag hp hc hget hjobs hsent hm =>
      rw [hjobs]
      exact ⟨⟨_, hsent⟩, fun job hjob => Or.inl hjob⟩

/-! ## Queued work -/

/-- What becomes of a job that a worker takes up. -/
inductive Inserted (j : ℕ) (job : Job) (s s' : Service) : Prop
  | stored {c : DbClient} (hc : (s.sessions job.session)._client = some c)
      (hdb : s'.db = Database.store c job.evts s.db)
      (hjobs : s'.jobs = s.jobs.set j { job with inserted := true }) (hsent : s'.sent = s.sent)
  | lost {new : List CoreMessage} (hdb : Carries s.db s'.db)
      (hjobs : s'.jobs = s.jobs.set j { job with inserted := true } ∨ s'.jobs = s.jobs.eraseIdx j)
      (hsent : Wrote job.session new s s') (hsilent : Silent new)
      (hlost : s'.ended = true ∨ ∃ c, (s.sessions job.session)._client = some c ∧
        Database.failure c job.evts s.db = some .sqlError)

theorem Inserted.frame {s' : Service} {j : ℕ} {job : Job} (h : Inserted j job s s') :
    (∃ new, Wrote job.session new s s') ∧
      ∀ job' ∈ s'.jobs, job' ∈ s.jobs ∨ job'.session = job.session := by
  have hset : ∀ job' ∈ s.jobs.set j { job with inserted := true },
      job' ∈ s.jobs ∨ job'.session = job.session := by
    intro job' hjob'
    rcases List.mem_or_eq_of_mem_set hjob' with hjob' | rfl
    · exact Or.inl hjob'
    · exact Or.inr rfl
  cases h with
  | stored hc hdb hjobs hsent =>
      rw [hjobs]
      exact ⟨⟨[], wrote_nil.mpr hsent⟩, hset⟩
  | lost hdb hjobs hsent hsilent hlost =>
      refine ⟨⟨_, hsent⟩, ?_⟩
      rcases hjobs with hjobs | hjobs
      · rw [hjobs]
        exact hset
      · rw [hjobs]
        exact fun job' hjob' => Or.inl (List.mem_of_mem_eraseIdx hjob')

/-- Events are stored for clients that have a row. -/
theorem Inserted.registered {s' : Service} {j : ℕ} {job : Job} (h : Inserted j job s s')
    (hr : Registered s.db) (howner : ∀ c, (s.sessions job.session)._client = some c →
      ∃ M, (c._clientID, M) ∈ keys s.db.tables) :
    Registered s'.db ∧ keys s.db.tables <+: keys s'.db.tables := by
  cases h with
  | stored hc hdb hjobs hsent =>
      obtain ⟨M, hk⟩ := howner _ hc
      rw [hdb]
      exact ⟨hr.after_store hk, List.prefix_refl _⟩
  | lost hdb hjobs hsent hsilent hlost => exact ⟨hdb.registered hr, hdb.keys⟩

/-- The ends of the insertion. -/
inductive Insertion (evts : List Event) (t : Server) : Except Escape Bool × Server → Prop
  | stored {c : DbClient} (hc : t.client._client = some c) :
      Insertion evts t (.ok true, { t with db := Database.store c evts t.db })
  | swallowed {c : DbClient} {due : Bool} {db : Database} {new : List CoreMessage}
      (hc : t.client._client = some c) (hfailure : Database.failure c evts t.db = some .sqlError)
      (hdb : db.stored = t.db.stored) (hsilent : Silent new) :
      Insertion evts t (.ok due, { t with db := db, sent := t.sent ++ new })
  | escaped {e : Escape} {db : Database} (hdb : db.stored = t.db.stored) :
      Insertion evts t (.error e, { t with db := db })

theorem insertOrRecover_spec (id : Int32) (evts : List Event) (t : Server) :
    Insertion evts t (Client.insertOrRecover id evts t) := by
  cases hc : t.client._client with
  | none =>
      rw [Client.insertOrRecover_of_escape (Client.insert_of_none evts hc) fun heq => nomatch heq]
      exact .escaped rfl
  | some c =>
      have hinsert := Client.insert_of_some evts hc
      rcases Database.insertWindowsEvents_cases c evts t.db with
        hok | ⟨db, hstored, ⟨hfailure, hok | herr⟩ | ⟨e, he, herr⟩⟩
      · rw [hok] at hinsert
        rw [Client.insertOrRecover_of_ok hinsert]
        exact .stored hc
      · rw [hok] at hinsert
        rw [Client.insertOrRecover_of_ok hinsert]
        have hswallowed : Insertion evts t (.ok true, { t with db := db, sent := t.sent ++ [] }) :=
          .swallowed hc hfailure hstored silent_nil
        rwa [List.append_nil] at hswallowed
      · rw [herr] at hinsert
        rw [Client.insertOrRecover_of_sqlError hinsert]
        refine .swallowed hc hfailure hstored ?_
        intro m hm
        rw [List.mem_singleton.mp hm]
        rfl
      · rw [herr] at hinsert
        rw [Client.insertOrRecover_of_escape hinsert (by simpa using he)]
        exact .escaped hstored

/-- The queue and the flags do not count for a frame. -/
theorem Frame.jobs {s' : Service} (h : Frame i machineID s s') (jobs : List Job) :
    Frame i machineID s { s' with jobs := jobs } :=
  ⟨h.accepted, h.others, h.client, h.sent⟩

/-- **What becomes of a job.** -/
theorem inserted (s : Service) (j : ℕ) (job : Job) (machineID : String) :
    Inserted j job s (s.insert j job) ∧ Frame job.session machineID s (s.insert j job) := by
  have hspec := insertOrRecover_spec job.id job.evts (s.server job.session)
  rw [insert, serve]
  generalize Client.insertOrRecover job.id job.evts (s.server job.session) = x at hspec
  have hjobs : s.jobs ++ [].filterMap (jobOf job.session) = s.jobs := List.append_nil _
  cases hspec with
  | stored hc =>
      refine ⟨.stored hc rfl (congrArg (List.set · j _) hjobs) ?_,
        (frame_of_ok fun c hc => Or.inl hc).jobs _⟩
      exact wrote_nil.mp rfl
  | @swallowed c due db new hc hfailure hdb hsilent =>
      have hcarries : Carries s.db db := Database.carries_of_stored hdb
      cases due with
      | true =>
          exact ⟨.lost hcarries (Or.inl (congrArg (List.set · j _) hjobs)) rfl hsilent
            (Or.inr ⟨c, hc, hfailure⟩), (frame_of_ok fun c hc => Or.inl hc).jobs _⟩
      | false =>
          exact ⟨.lost hcarries (Or.inr (congrArg (List.eraseIdx · j) hjobs)) rfl hsilent
            (Or.inr ⟨c, hc, hfailure⟩), (frame_of_ok fun c hc => Or.inl hc).jobs _⟩
  | escaped hdb =>
      have herase := congrArg (List.eraseIdx · j) hjobs
      exact ⟨.lost (Database.carries_of_stored hdb) (Or.inr herase) rfl silent_nil (Or.inl rfl),
        (frame_of_error rfl rfl).jobs _⟩

/-- What becomes of a job whose reply is due. -/
theorem replied (s : Service) (j : ℕ) (job : Job) (machineID : String) :
    (s.reply j job).jobs = s.jobs.eraseIdx j ∧ (s.reply j job).db = s.db ∧
      (s.reply j job).ended = s.ended ∧
      Wrote job.session (if job.needAccept then [(CoreMessage.acceptLastEventPackage
        ((s.sessions job.session).lid + 1) s.nextID).1] else []) s (s.reply j job) ∧
      Frame job.session machineID s (s.reply j job) := by
  rw [reply, serve, Client.accept_apply]
  have hjobs : s.jobs ++ [].filterMap (jobOf job.session) = s.jobs := List.append_nil _
  cases hneed : job.needAccept with
  | true =>
      exact ⟨congrArg (List.eraseIdx · j) hjobs, rfl, rfl, rfl,
        (frame_of_ok fun c hc => Or.inl hc).jobs _⟩
  | false =>
      exact ⟨congrArg (List.eraseIdx · j) hjobs, rfl, rfl, rfl,
        (frame_of_ok fun c hc => Or.inl hc).jobs _⟩

/-- A signal leaves the events and the sessions alone. -/
theorem carries_sigpipe (asserts : Bool) (outcome : ℕ → Attempt) (s : Service) :
    Carries s.db (s.sigpipeHandler asserts outcome).db ∧
      (s.sigpipeHandler asserts outcome).sessions = s.sessions := by
  rw [sigpipeHandler, checkConnectStatus]
  cases s.isOpen with
  | true => exact ⟨.refl _, rfl⟩
  | false =>
      rw [if_neg Bool.false_ne_true, connect]
      cases reconnect outcome with
      | fails | dies => exact ⟨.refl _, rfl⟩
      | opens =>
          have hcarries := Database.carries_getAllClients s.db
          dsimp only [setDatabaseConnect]
          rcases hget : Database.getAllClients s.db with ⟨e | complete, db⟩
          · rw [hget] at hcarries
            exact ⟨hcarries, rfl⟩
          · rw [hget] at hcarries
            by_cases hcomplete : asserts = true ∧ complete = false
            · simpa [hcomplete] using hcarries
            · simpa [hcomplete] using hcarries

end
end ClientService.Service
