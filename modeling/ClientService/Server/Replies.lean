import ClientService.Deployment.Server
import ClientService.Lib.Transition

/-!
# Requests and replies

Every package that the server writes to a session answers a package that the session has sent,
and no package is answered twice: a `CONNECT` by a `CONNECT`, a query by a resume point, events
by a resume point when they ask for one, and any package by a refusal that names it. Queued work
stands for packages that have not been answered. Workers take up the work in any order, so the
answers need not come in the order of the requests.

## Main definitions

* `Service.Answers` — a package and its answer.
* `Service.Balanced` — what a session has been sent, and what is answered and queued of it.
-/

namespace ClientService.Service

open Client (insertOrRecover readFromNetwork)

/-- The second package answers the first. -/
inductive Answers (ret : CoreMessage) : CoreMessage → Prop
  | connect {m : CoreMessage} (hret : ret.package = .connect) (hm : m.package = .connect) :
      Answers ret m
  | query {m : CoreMessage} {lid : UInt32} (hret : ret.package = .queryLastEvent)
      (hm : m.package = .returnLastEvent lid) : Answers ret m
  | log {m : CoreMessage} {evts : List Event} {lid : UInt32} (hret : ret.package = .log evts true)
      (hm : m.package = .acceptLastEvent lid) : Answers ret m
  | refuse {m : CoreMessage} (hm : m.package = .refuse ret.id) : Answers ret m

/-- The work stands for the package. -/
structure Queues (ret : CoreMessage) (job : Job) : Prop where
  package : ret.package = .log job.evts job.needAccept
  id : job.id = ret.id

/-- The work that is queued for session `i`. -/
def jobsOf (s : Service) (i : ℕ) : List Job := s.jobs.filter fun job => job.session = i

/-- The packages that session `i` has handled. -/
def messages (i : ℕ) (as : List Action) : List CoreMessage :=
  as.filterMap fun
    | .message j _ ret => if j = i then some ret else none
    | _ => none

/-- Of `requests`, some are answered by what has been written to session `i`, others are queued,
and none is both. -/
def Balanced (i : ℕ) (requests : List CoreMessage) (s : Service) : Prop :=
  ∃ answered pending : List CoreMessage, (answered ++ pending).Subperm requests ∧
    List.Forall₂ Answers answered (s.sent i) ∧ List.Forall₂ Queues pending (s.jobsOf i)

section
variable {s s' : Service} {i : ℕ} {requests : List CoreMessage}

/-- Nothing new for the session. -/
theorem Balanced.of_eq (h : Balanced i requests s) (hsent : s'.sent i = s.sent i)
    (hjobs : s'.jobsOf i = s.jobsOf i) : Balanced i requests s' := by
  rw [Balanced, hsent, hjobs]
  exact h

/-- One more request, which may be neither answered nor queued. -/
theorem Balanced.ignore (h : Balanced i requests s) (ret : CoreMessage) :
    Balanced i (requests ++ [ret]) s := by
  obtain ⟨answered, pending, hsub, hrest⟩ := h
  exact ⟨answered, pending, hsub.trans (List.sublist_append_left _ _).subperm, hrest⟩

/-- One more request, answered at once. -/
theorem Balanced.answer (h : Balanced i requests s) {ret m : CoreMessage} (hanswers : Answers ret m)
    (hsent : s'.sent i = s.sent i ++ [m]) (hjobs : s'.jobsOf i = s.jobsOf i) :
    Balanced i (requests ++ [ret]) s' := by
  obtain ⟨answered, pending, hsub, hanswered, hpending⟩ := h
  refine ⟨answered ++ [ret], pending, ?_, ?_, by rwa [hjobs]⟩
  · have hperm : (answered ++ [ret] ++ pending).Perm (answered ++ pending ++ [ret]) := by
      simp only [List.append_assoc]
      exact (List.perm_append_comm).append_left answered
    exact hperm.subperm.trans (hsub.append (List.Subperm.refl [ret]))
  · rw [hsent]
    exact List.rel_append hanswered (.cons hanswers .nil)

/-- One more request, queued. -/
theorem Balanced.queue (h : Balanced i requests s) {ret : CoreMessage} (job : Job)
    (hqueues : Queues ret job) (hsent : s'.sent i = s.sent i)
    (hjobs : s'.jobsOf i = s.jobsOf i ++ [job]) : Balanced i (requests ++ [ret]) s' := by
  obtain ⟨answered, pending, hsub, hanswered, hpending⟩ := h
  refine ⟨answered, pending ++ [ret], ?_, by rwa [hsent], ?_⟩
  · rw [← List.append_assoc]
    exact hsub.append (List.Subperm.refl [ret])
  · rw [hjobs]
    exact List.rel_append hpending (.cons hqueues .nil)

/-- Work that is done, with its answer or with none. -/
theorem Balanced.done (h : Balanced i requests s) {before after : List Job} {job : Job}
    {new : List CoreMessage} (hbefore : s.jobsOf i = before ++ job :: after)
    (hafter : s'.jobsOf i = before ++ after) (hsent : s'.sent i = s.sent i ++ new)
    (hnew : new = [] ∨ ∃ m, new = [m] ∧ ∀ ret, Queues ret job → Answers ret m) :
    Balanced i requests s' := by
  obtain ⟨answered, pending, hsub, hanswered, hpending⟩ := h
  rw [hbefore] at hpending
  have hfirst := List.forall₂_take_append _ _ _ hpending
  have hlast := List.forall₂_drop_append _ _ _ hpending
  obtain ⟨ret, later, hret, hlater, hdrop⟩ := List.forall₂_cons_right_iff.mp hlast
  have hsplit : pending = pending.take before.length ++ ret :: later := by
    rw [← hdrop, List.take_append_drop]
  have hrest : List.Forall₂ Queues (pending.take before.length ++ later) (s'.jobsOf i) := by
    rw [hafter]
    exact List.rel_append hfirst hlater
  rw [hsplit] at hsub
  rcases hnew with rfl | ⟨m, rfl, hm⟩
  · refine ⟨answered, pending.take before.length ++ later, ?_, by simpa [hsent], hrest⟩
    refine List.Subperm.trans ?_ hsub
    exact (((List.sublist_cons_self ret later).append_left _).append_left answered).subperm
  · refine ⟨answered ++ [ret], pending.take before.length ++ later, ?_, ?_, hrest⟩
    · have hperm : (answered ++ [ret] ++ (pending.take before.length ++ later)).Perm
          (answered ++ (pending.take before.length ++ ret :: later)) := by
        rw [List.append_assoc]
        exact (List.perm_middle.symm : (ret :: (pending.take before.length ++ later)).Perm _
          ).append_left answered
      exact hperm.subperm.trans hsub
    · rw [hsent]
      exact List.rel_append hanswered (.cons (hm ret hret) .nil)

/-- Work whose flag changes stands for the same package. -/
theorem Balanced.mark (h : Balanced i requests s) {before after : List Job} {job : Job}
    (hbefore : s.jobsOf i = before ++ job :: after)
    (hafter : s'.jobsOf i = before ++ { job with inserted := true } :: after)
    (hsent : s'.sent i = s.sent i) : Balanced i requests s' := by
  obtain ⟨answered, pending, hsub, hanswered, hpending⟩ := h
  rw [hbefore] at hpending
  have hfirst := List.forall₂_take_append _ _ _ hpending
  have hlast := List.forall₂_drop_append _ _ _ hpending
  obtain ⟨ret, later, hret, hlater, hdrop⟩ := List.forall₂_cons_right_iff.mp hlast
  have hsplit : pending = pending.take before.length ++ ret :: later := by
    rw [← hdrop, List.take_append_drop]
  refine ⟨answered, pending, hsub, by rwa [hsent], ?_⟩
  rw [hafter, hsplit]
  exact List.rel_append hfirst (.cons ⟨hret.package, hret.id⟩ hlater)

/-! ## The queue -/

/-- The work before and behind the `j`-th of the queue, for a session. -/
theorem jobsOf_split {j : ℕ} {job : Job} (hj : s.jobs[j]? = some job) :
    s.jobsOf job.session = (s.jobs.take j).filter (fun x => x.session = job.session) ++
      job :: (s.jobs.drop (j + 1)).filter fun x => x.session = job.session := by
  rw [jobsOf]
  conv_lhs => rw [jobs_split hj]
  simp

theorem jobsOf_eraseIdx {j : ℕ} (hjobs : s'.jobs = s.jobs.eraseIdx j) (k : ℕ) :
    s'.jobsOf k = (s.jobs.take j).filter (fun x => x.session = k) ++
      (s.jobs.drop (j + 1)).filter fun x => x.session = k := by
  rw [jobsOf, hjobs, List.eraseIdx_eq_take_drop_succ, List.filter_append]

theorem jobsOf_set {j : ℕ} {job : Job} (hj : s.jobs[j]? = some job)
    (hjobs : s'.jobs = s.jobs.set j { job with inserted := true }) (k : ℕ) :
    s'.jobsOf k = (s.jobs.take j).filter (fun x => x.session = k) ++
      ([{ job with inserted := true }].filter (fun x => x.session = k) ++
      (s.jobs.drop (j + 1)).filter fun x => x.session = k) := by
  obtain ⟨hlt, _⟩ := List.getElem?_eq_some_iff.mp hj
  rw [jobsOf, hjobs, List.set_eq_take_append_cons_drop, if_pos hlt, ← List.singleton_append,
    List.filter_append, List.filter_append]

/-- The other sessions have the same work. -/
theorem jobsOf_of_ne {j : ℕ} {job : Job} (hj : s.jobs[j]? = some job)
    (hjobs : s'.jobs = s.jobs.eraseIdx j ∨ s'.jobs = s.jobs.set j { job with inserted := true })
    {k : ℕ} (hk : k ≠ job.session) : s'.jobsOf k = s.jobsOf k := by
  have hold : s.jobsOf k = (s.jobs.take j).filter (fun x => x.session = k) ++
      (s.jobs.drop (j + 1)).filter fun x => x.session = k := by
    rw [jobsOf]
    conv_lhs => rw [jobs_split hj]
    simp [Ne.symm hk]
  rcases hjobs with hjobs | hjobs
  · rw [jobsOf_eraseIdx hjobs, hold]
  · rw [jobsOf_set hj hjobs, hold]
    simp [Ne.symm hk]

/-- A computation of session `i` queues work for it only. -/
theorem jobsOf_serve {α : Type} {k : ℕ} (hk : k ≠ i) (x : Serving α) :
    (s.serve i x).2.jobsOf k = s.jobsOf k := by
  have hupdate : ∀ t : Server, (s.update i t).jobsOf k = s.jobsOf k := by
    intro t
    have hnew : (t.queued.filterMap (jobOf i)).filter (fun job => job.session = k) = [] := by
      rw [List.filter_eq_nil_iff]
      intro job hjob
      obtain ⟨l, _, hl⟩ := List.mem_filterMap.mp hjob
      simpa [session_of_jobOf hl] using Ne.symm hk
    rw [jobsOf, update, List.filter_append, hnew, List.append_nil]
    rfl
  rw [serve_eq]
  cases (x (s.server i)).1 with
  | ok a => exact hupdate _
  | error e => exact hupdate _

/-! ## Steps -/

/-- Handling a package answers it, queues it, or does neither. -/
theorem balanced_read (h : Balanced i requests s) (env : Surroundings) (ret : CoreMessage) :
    Balanced i (requests ++ [ret]) (s.serve i (readFromNetwork env ret)).2 := by
  rw [serve_eq]
  cases hflag : s.dbConnected with
  | true =>
      rw [Client.readFromNetwork_of_connected (s := s.server i) hflag]
      exact h.answer (.refuse rfl) (by simp [update, server]; rfl) (by simp [jobsOf, update, server])
  | false =>
      rw [Client.readFromNetwork_of_not_connected (s := s.server i) env ret hflag]
      have hspec := Client.handle_spec env ret (s.server i)
      generalize Client.handle env ret (s.server i) = x at hspec
      cases hspec with
      | @log evts needAccept hp hevts =>
          refine h.queue ⟨i, ret.id, evts, needAccept, false⟩ ⟨hp, rfl⟩ ?_ ?_
          · simp [update, server]
          · simp [jobsOf, update, server, jobOf, hp]
      | connect hp hget =>
          exact h.answer (.connect hp rfl) (by simp [update, server, Client.wrote]; rfl)
            (by simp [jobsOf, update, server, Client.wrote])
      | query hp hc hget =>
          exact h.answer (.query hp rfl) (by simp [update, server, Client.wrote]; rfl)
            (by simp [jobsOf, update, server, Client.wrote])
      | connectFailed hp hget | queryFailed hp hc hget | unidentified hp hc | eventless hp
      | ignored hlog =>
          exact (h.ignore ret).of_eq (by simp [update, server]) (by simp [jobsOf, update, server])

/-- The ends of the insertion, with what it writes. -/
inductive Recovered (id : Int32) (t : Server) : Except Escape Bool × Server → Prop
  | inserted (db : Database) : Recovered id t (.ok true, { t with db := db })
  | refused (db : Database) : Recovered id t (.ok false, { t with
      db := db, sent := t.sent ++ [.refusePackage id "Refuse: database exception"] })
  | escaped {e : Escape} (db : Database) (he : e = .invalidPointer → t.client._client = none) :
      Recovered id t (.error e, { t with db := db })

theorem insertOrRecover_replies (id : Int32) (evts : List Event) (t : Server) :
    Recovered id t (insertOrRecover id evts t) := by
  cases hc : t.client._client with
  | none =>
      rw [Client.insertOrRecover_of_escape (Client.insert_of_none evts hc) (by simp)]
      exact .escaped t.db fun _ => hc
  | some c =>
      have hinsert := Client.insert_of_some evts hc
      rcases hins : Database.insertWindowsEvents c evts t.db with ⟨e | n, db⟩
      · rw [hins] at hinsert
        by_cases he : e = .sqlError
        · rw [he] at hinsert
          rw [Client.insertOrRecover_of_sqlError hinsert]
          exact .refused db
        · rw [Client.insertOrRecover_of_escape hinsert (by simpa using he)]
          exact .escaped db (by simp)
      · rw [hins] at hinsert
        rw [Client.insertOrRecover_of_ok hinsert]
        exact .inserted db

theorem balanced_insert (h : Balanced i requests s) {j : ℕ} {job : Job}
    (hj : s.jobs[j]? = some job) : Balanced i requests (s.insert j job) := by
  have hspec := insertOrRecover_replies job.id job.evts (s.server job.session)
  have hjobs : s.jobs ++ [].filterMap (jobOf job.session) = s.jobs := List.append_nil _
  rw [insert, serve]
  generalize insertOrRecover job.id job.evts (s.server job.session) = x at hspec
  by_cases hi : i = job.session
  · subst hi
    have hsplit := jobsOf_split hj
    cases hspec with
    | inserted db =>
        refine h.mark hsplit ?_ (by simp [update, server])
        rw [jobsOf_set hj (by simp [update, server])]
        simp
    | refused db =>
        refine h.done hsplit (jobsOf_eraseIdx (by simp [update, server]) _)
          (by simp [update, server]; rfl) (Or.inr ⟨_, rfl, fun ret hret => .refuse ?_⟩)
        rw [← hret.id]
        rfl
    | escaped db he =>
        exact h.done hsplit (jobsOf_eraseIdx (by simp [update, server]) _)
          (by simp [update, server]) (Or.inl rfl)
  · cases hspec with
    | inserted db =>
        exact h.of_eq (by simp [update, hi])
          (jobsOf_of_ne hj (Or.inr (by simp [update, server])) hi)
    | refused db | escaped db he =>
        exact h.of_eq (by simp [update, hi])
          (jobsOf_of_ne hj (Or.inl (by simp [update, server])) hi)

theorem balanced_reply (h : Balanced i requests s) {j : ℕ} {job : Job}
    (hj : s.jobs[j]? = some job) : Balanced i requests (s.reply j job) := by
  rw [reply, serve, Client.accept_apply]
  by_cases hi : i = job.session
  · subst hi
    have hsplit := jobsOf_split hj
    cases hneed : job.needAccept with
    | false =>
        exact h.done hsplit (jobsOf_eraseIdx (by simp [update, server, Client.accepted]) _)
          (by simp [update, server, Client.accepted]) (Or.inl rfl)
    | true =>
        have hlog : ∀ ret, Queues ret job → ret.package = .log job.evts true := by
          intro ret hret
          rw [hret.package, hneed]
        exact h.done hsplit
          (jobsOf_eraseIdx (by simp [update, server, Client.accepted, Client.wrote]) _)
          (by simp [update, server, Client.accepted, Client.wrote]; rfl)
          (Or.inr ⟨_, rfl, fun ret hret => .log (hlog ret hret) rfl⟩)
  · refine h.of_eq (by simp [update, hi]) (jobsOf_of_ne hj (Or.inl ?_) hi)
    cases job.needAccept <;> simp [update, server, Client.accepted, Client.wrote]

/-- **Every step keeps the balance.** -/
theorem balanced_step (h : Balanced i requests s) {asserts : Bool} {a : Action}
    (hstep : step asserts s a = some s') : Balanced i (requests ++ messages i [a]) s' := by
  have hnone : messages i [a] = [] → Balanced i requests s' →
      Balanced i (requests ++ messages i [a]) s' := by
    intro hnil hs'
    rwa [hnil, List.append_nil]
  cases (step_spec hstep).2 with
  | @message k env ret hi =>
      by_cases hk : k = i
      · subst hk
        have hmessages : messages k [.message k env ret] = [ret] := by simp [messages]
        rw [hmessages]
        exact balanced_read h env ret
      · refine hnone (by simp [messages, hk]) (h.of_eq ?_ (jobsOf_serve (Ne.symm hk) _))
        exact (still_serve (Ne.symm hk) _).sent
  | insert hj hinserted => exact hnone rfl (balanced_insert h hj)
  | reply hj hinserted => exact hnone rfl (balanced_reply h hj)
  | sigpipe outcome =>
      obtain ⟨hjobs, hsent, _⟩ := s.sigpipeHandler_frame asserts outcome
      refine hnone rfl (h.of_eq (by rw [hsent]) ?_)
      rw [jobsOf, hjobs]
      rfl
  | accept | lose | stop hstopping => exact hnone rfl (h.of_eq rfl rfl)

end

/-! ## Runs -/

open Transition (run history meets_of_forall)

/-- A new machine connects, asks for its resume point, and sends an event that is not stored. -/
def answering : List Action :=
  [.accept, .message 0 Sample.surroundings (Sample.hello "m-2"),
    .message 0 Sample.surroundings { Sample.hello "m-2" with package := .queryLastEvent },
    .message 0 Sample.surroundings Sample.package, .insert 0]

end ClientService.Service
