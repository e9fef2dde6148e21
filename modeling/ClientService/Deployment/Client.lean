import ClientService.Deployment.Views

/-!
# The client, as far as the upload is concerned

`EnumerateResults` keeps the ids that are not below `lastEventIDUploaded`, up to the first record
that is not rendered. A step of the thread takes a batch, sends one, or makes no difference to
the upload; a package from the server tells a resume point or makes no difference.

## Main definitions

* `rids_enumerateResults` — what a batch consists of.
* `Peer.Forwards`, `Peer.Hears` — what becomes of a step of the thread and of a package.
-/

namespace ClientService

/-! ## A batch -/

theorem rid_formatEvent (evt : Event) (h : Handle) (map : List String) :
    (formatEvent evt h map).1.rid = evt.rid := by
  rw [formatEvent_eq]

/-- A record that is rendered is kept when it is not below `ignore`. -/
theorem rids_addRecord (ignore : UInt32) (h : Handle) (i : ℕ) (s : Enumeration) {evt : Event}
    {rid : ℕ} (hrid : evt.rid.toNat = rid) :
    rids (addRecord ignore h i evt s).sent =
      rids s.sent ++ [rid].filter fun r => ignore.toNat ≤ r := by
  rw [addRecord]
  by_cases hle : ignore ≤ evt.rid
  · have hle' : ignore.toNat ≤ rid := by
      rw [← hrid]
      exact UInt32.le_iff_toNat_le.mp hle
    simp [hle, hle', rids, rid_formatEvent, hrid]
  · have hle' : ¬ignore.toNat ≤ rid := by
      rw [← hrid]
      exact fun h => hle (UInt32.le_iff_toNat_le.mpr h)
    simp [hle, hle']

/-- The loop keeps the ids from `ignore` on, up to the first record that is not rendered. -/
theorem Enumerated.rids_eq {ignore : UInt32} {rs : List Record} {i : ℕ} {s s' : Enumeration}
    {b : Bool} (hlegible : ∀ r ∈ rs, r.Legible)
    (hrun : Enumerated ignore (rs.map Record.handle) i s b s') :
    rids s'.sent = rids s.sent ++
      ((rs.takeWhile fun r => r.handle.printed.isSome).map Record.rid).filter
        fun r => ignore.toNat ≤ r := by
  induction rs generalizing i s with
  | nil =>
      cases hrun
      simp
  | cons r rs ih =>
      cases hrun with
      | stopped _ _ _ hprinted => simp [hprinted]
      | @record _ _ _ x _ _ _ hprinted hreadable hrest =>
          have hrecord := rids_addRecord ignore r.handle i s
            ((hlegible r List.mem_cons_self).rid_parsed hprinted s.e)
          rw [ih (fun r hr => hlegible r (List.mem_cons_of_mem _ hr)) hrest, hrecord]
          simp only [List.takeWhile_cons, hprinted, Option.isSome_some, if_true, List.map_cons,
            List.append_assoc]
          rw [← List.filter_append, List.singleton_append]

/-- **What a batch consists of.** -/
theorem rids_enumerateResults {records : List Record} (hlegible : ∀ r ∈ records, r.Legible)
    {taken : ℕ} {taking : Taking} {ignore : UInt32} {start s : Enumeration} {count : Int32}
    (hpossible : EventForwardHandler.Possible (records.map Record.handle) taken taking)
    (hstart : start.sent = [])
    (hrun : enumerateResults (EventForwardHandler.evtNext (records.map Record.handle) taken taking)
      ignore start = some (count, s)) :
    ∃ j ≤ taking.number,
      rids s.sent = (((records.map Record.rid).drop taken).take j).filter
        (fun r => ignore.toNat ≤ r) ∧
      ((∀ r ∈ (records.drop taken).take taking.number, r.handle.printed.isSome) →
        j = taking.number) := by
  cases taking with
  | failed lastError =>
      cases hrun
      refine ⟨0, Nat.le_refl _, ?_, fun _ => rfl⟩
      simp [hstart, rids]
  | returned n =>
      let rs := (records.drop taken).take n
      let read := rs.takeWhile fun r => r.handle.printed.isSome
      rw [EventForwardHandler.evtNext, ← List.map_drop, ← List.map_take] at hrun
      obtain ⟨b, henum, -⟩ := enumerateResults_returned_eq_some hrun
      have hsent := henum.rids_eq
        (fun r hr => hlegible r (List.mem_of_mem_drop (List.mem_of_mem_take hr)))
      have hread : read = rs.take read.length :=
        List.prefix_iff_eq_take.mp (List.takeWhile_prefix _)
      have hlength : read.length ≤ n :=
        (List.takeWhile_prefix _).length_le.trans (List.length_take_le _ _)
      refine ⟨read.length, hlength, ?_, ?_⟩
      · rw [hsent, hstart]
        have hmap : read.map Record.rid =
            ((records.map Record.rid).drop taken).take read.length :=
          calc read.map Record.rid
            _ = (((records.drop taken).take n).take read.length).map Record.rid :=
                congrArg (List.map Record.rid) hread
            _ = ((records.map Record.rid).drop taken).take read.length := by
                rw [List.take_take, Nat.min_eq_left hlength, List.map_take, List.map_drop]
        exact congrArg (List.filter fun r => ignore.toNat ≤ r) hmap
      · intro hrendered
        have hall : read = rs := List.takeWhile_eq_self_iff.mpr hrendered
        have hle := hpossible.2.2
        rw [List.length_map] at hle
        rw [hall, List.length_take, List.length_drop]
        change min n _ = n
        omega

/-! ## A step of the thread -/

namespace Peer

/-- A thread that runs has been resumed by a resume point. -/
def Started (p : Peer) : Prop :=
  p.handler.pc = .suspended ∨ p.handler.pc = .exited ∨ p.resumed.isSome = true

section
variable {p : Peer} (t : Service) (i : ℕ)

/-- A link is seen of the thread by three of its values. -/
theorem link_handler {h : EventForwardHandler} (htaken : h.taken = p.handler.taken)
    (hid : h.lastEventIDUploaded = p.handler.lastEventIDUploaded)
    (hreading : h.reading = p.handler.reading) :
    ({ p with handler := h } : Peer).link t i = p.link t i := by
  simp only [link, htaken, hid, hreading]

theorem signal_frame (M : String) : (p.signal M).machine = p.machine ∧
    (p.signal M).delivered = p.delivered ∧ (p.signal M).link t i = p.link t i ∧
    (p.Started → (p.signal M).Started) := by
  rw [signal]
  split_ifs
  · exact ⟨rfl, rfl, link_handler t i rfl rfl rfl, fun h => h⟩
  · exact ⟨rfl, rfl, rfl, fun h => h⟩

/-- What becomes of a link in a step of its thread that sends nothing. -/
inductive Forwards (records : List Record) (a : ThreadAction) (l l' : Upload.Link) : Prop
  | stay (h : l' = l)
  /-- The thread takes `k` records, and the first `j` of them are rendered. -/
  | forward {taking : Taking} {e : Event} {j : ℕ} (ha : a = .enumerate taking e)
      (hk : taking.number = 0 ∨ l.taken + taking.number ≤ records.length)
      (hj : j ≤ taking.number)
      (hrendered : (∀ r ∈ (records.drop l.taken).take taking.number, r.handle.printed.isSome) →
        j = taking.number)
      (hl' : l' = { l with
        taken := l.taken + taking.number
        pending := l.pending ++
          [(((records.map Record.rid).drop l.taken).take j).filter fun r => l.floor ≤ r] })

/-- The size of a batch is not negative. -/
theorem count_nonneg {taken n : ℕ} {log : List Handle} {ignore : UInt32} {start s : Enumeration}
    {count : Int32} (hn : n ≤ EventForwardHandler.eventsPerSend)
    (hrun : enumerateResults (EventForwardHandler.evtNext log taken (.returned n)) ignore start =
      some (count, s)) : ¬count < 0 := by
  have hlength : ((log.drop taken).take n).length ≤ 30 := (List.length_take_le _ _).trans hn
  rw [count_of_returned hrun, Int32.lt_iff_toInt_lt]
  split_ifs
  · rw [Int32.toInt_ofNat_of_lt (by omega)]
    have hzero : (0 : Int32).toInt = 0 := rfl
    omega
  · exact lt_irrefl _

/-- **What becomes of a link in a step of its thread.** -/
theorem forwards {records : List Record} (hlegible : ∀ r ∈ records, r.Legible) {a : ThreadAction}
    {h : EventForwardHandler}
    (hstep : p.handler.threadStep (records.map Record.handle) a = some (h, none)) :
    Forwards records a (p.link t i) (({ p with handler := h } : Peer).link t i) := by
  cases EventForwardHandler.threadStep_spec hstep with
  | subscribe succeeds hpc =>
      refine .stay (link_handler t i rfl rfl ?_)
      cases succeeds <;> simp [EventForwardHandler.reading, hpc]
  | wait hpc hwait =>
      refine .stay (link_handler t i rfl rfl ?_)
      rcases EventForwardHandler.waitForMultipleObjects_spec hwait with rfl | ⟨event, rfl⟩
      · simp [EventForwardHandler.reading, hpc]
      · simp [EventForwardHandler.reading, hpc]
  | reset hpc =>
      rename_i event
      cases event <;>
        exact .stay (link_handler t i rfl rfl (by simp [EventForwardHandler.reading, hpc]))
  | @enumerate event taking e count s hpc hpossible hrun =>
      have hreading : p.handler.reading = [] := by rw [EventForwardHandler.reading, hpc]
      by_cases hcount : count < 0
      · cases taking with
        | failed lastError =>
            refine .stay (link_handler t i rfl rfl ?_)
            rw [if_pos hcount, hreading]
            rfl
        | returned n => exact absurd hcount (count_nonneg hpossible.2.1 hrun)
      · obtain ⟨j, hj, hrids, hrendered⟩ := rids_enumerateResults hlegible hpossible rfl hrun
        refine .forward rfl ?_ hj hrendered ?_
        · cases taking with
          | failed lastError => exact Or.inl rfl
          | returned n =>
              have hle := hpossible.2.2
              rw [List.length_map] at hle
              exact Or.inr hle
        · simp only [link, EventForwardHandler.reading, hpc, if_neg hcount, List.append_nil, hrids]

/-- A batch that is sent is still on its way. -/
theorem link_send_log {records : List Handle} {a : ThreadAction} {h : EventForwardHandler}
    {evts : List Event} {ac : Bool}
    (hstep : p.handler.threadStep records a = some (h, some (evts, ac))) :
    (({ p with handler := h } : Peer).send (CoreMessage.logPackage evts ac)).link t i =
      p.link t i := by
  cases EventForwardHandler.threadStep_spec hstep with
  | send hpc =>
      have hbatch : ∀ ac id, (CoreMessage.logPackage evts ac id).1.batch = some (rids evts) :=
        fun _ _ => rfl
      simp [link, send, EventForwardHandler.reading, hpc, hbatch]

/-- A thread that takes a step has been resumed. -/
theorem Started.thread {records : List Handle} {a : ThreadAction} {h : EventForwardHandler}
    {package : Option (List Event × Bool)} (hstarted : p.Started)
    (hstep : p.handler.threadStep records a = some (h, package)) : p.resumed.isSome = true := by
  have hpc : p.handler.pc ≠ .suspended ∧ p.handler.pc ≠ .exited := by
    cases EventForwardHandler.threadStep_spec hstep <;> simp [*]
  rcases hstarted with hsuspended | hexited | hresumed
  · exact absurd hsuspended hpc.1
  · exact absurd hexited hpc.2
  · exact hresumed

/-! ## A package from the server -/

/-- What becomes of a link when a package arrives. -/
inductive Hears (m : CoreMessage) (l l' : Upload.Link) : Prop
  | stay (h : l' = l)
  | deliver {o : Upload.Offer} {rest : List Upload.Offer} (hm : m.offer = some o)
      (ho : l.offers = o :: rest) (hl' : l' = { l.receive o with offers := rest })
  | close {pending : List (List ℕ)} (hpending : pending <+: l.pending)
      (hl' : l' = { l with live := false, pending := pending })

theorem link_stop (n : ℕ) : ∃ pending, pending <+: (p.link t i).pending ∧
    (p.stop n).link t i = { p.link t i with live := false, pending := pending } := by
  refine ⟨waiting t.jobs i ++ (p.up.take n).filterMap CoreMessage.batch, ?_, ?_⟩
  · have htake : (p.up.take n).filterMap CoreMessage.batch <+: p.up.filterMap CoreMessage.batch :=
      (List.take_prefix n p.up).filterMap _
    have hprefix := (List.prefix_append_right_inj (waiting t.jobs i)).mpr htake
    exact hprefix.trans (List.prefix_append _ _)
  · simp [link, stop, EventForwardHandler.reading]

theorem offers_of_sent {m : CoreMessage} (hm : (t.sent i)[p.delivered]? = some m) :
    (p.link t i).offers =
      (m.offer.toList) ++ ((t.sent i).drop (p.delivered + 1)).filterMap CoreMessage.offer := by
  obtain ⟨hlt, heq⟩ := List.getElem?_eq_some_iff.mp hm
  rw [link, ← List.cons_getElem_drop_succ (h := hlt), heq, List.filterMap_cons]
  cases m.offer with
  | none => rfl
  | some o => rfl

theorem hears_readCB (id : Int32) {m msg : CoreMessage}
    (hoffers : (p.link t i).offers =
      m.offer.toList ++ ((t.sent i).drop (p.delivered + 1)).filterMap CoreMessage.offer)
    (hmsg : msg.package = CoreMessage.arriving m.package) :
    Hears m (p.link t i)
      ((({ p with nextID := id, delivered := p.delivered + 1 } : Peer).readCB msg).link t i) := by
  rw [readCB, hmsg]
  rw [CoreMessage.offer] at hoffers
  cases hp : m.package with
  | returnLastEvent lid =>
      rw [hp] at hoffers
      refine .deliver (by rw [CoreMessage.offer, hp]) hoffers ?_
      by_cases hid : p.handler.lastEventIDUploaded = 0
      · have hfloor : (p.link t i).floor = 0 := by
          rw [link, hid]
          rfl
        rw [Upload.Link.receive, if_pos hfloor]
        by_cases hpc : p.handler.pc = .suspended
        · simp [CoreMessage.arriving, link, EventForwardHandler.getProtobufPackage,
            EventForwardHandler.resumeThread, EventForwardHandler.reading, hid, hpc]
        · simp [CoreMessage.arriving, link, EventForwardHandler.getProtobufPackage,
            EventForwardHandler.resumeThread, EventForwardHandler.reading, hid, hpc]
      · have hfloor : (p.link t i).floor ≠ 0 := by
          intro hzero
          exact hid (UInt32.toNat_inj.mp hzero)
        rw [Upload.Link.receive, if_neg hfloor]
        simp [CoreMessage.arriving, link, EventForwardHandler.getProtobufPackage, hid]
  | acceptLastEvent lid =>
      rw [hp] at hoffers
      exact .deliver (by rw [CoreMessage.offer, hp]) hoffers rfl
  | connect =>
      rw [hp] at hoffers
      refine .stay ?_
      have hbatch : ∀ id, (CoreMessage.queryLastEventPackage id).1.batch = none := fun _ => rfl
      simp only [link] at hoffers ⊢
      simp only [CoreMessage.arriving, send, List.filterMap_append, List.filterMap_cons, hbatch,
        List.filterMap_nil, List.append_nil, hoffers]
      rfl
  | queryLastEvent | refuse r | log evts ac =>
      rw [hp] at hoffers
      refine .stay ?_
      simp only [link] at hoffers ⊢
      rw [hoffers]
      rfl

/-- **What becomes of a link when a package arrives.** -/
theorem hears (asserts : Bool) (host : Process) (ts : String) {m : CoreMessage}
    (hm : (t.sent i)[p.delivered]? = some m) :
    Hears m (p.link t i) ((p.receive asserts host ts m).link t i) := by
  have hoffers := offers_of_sent t i hm
  cases htransmit : transmit asserts host ts m p.nextID with
  | aborted | running =>
      have hreceive : p.receive asserts host ts m = p.stop p.up.length := by
        rw [receive, htransmit]
      obtain ⟨pending, hpending, hlink⟩ := link_stop (p := p) t i p.up.length
      rw [hreceive]
      exact .close hpending hlink
  | ret x =>
      obtain ⟨_ | msg, id⟩ := x
      · rw [transmit_none htransmit] at hoffers
        refine .stay ?_
        rw [receive, htransmit]
        simp only [link] at hoffers ⊢
        rw [hoffers]
        rfl
      · rw [receive, htransmit]
        exact hears_readCB t i id hoffers (transmit_some htransmit).1

/-- What a package leaves of a peer. -/
theorem receive_frame (asserts : Bool) (host : Process) (ts : String) (m : CoreMessage) :
    (p.receive asserts host ts m).machine = p.machine ∧
      (p.receive asserts host ts m).delivered ≤ p.delivered + 1 ∧
      (p.Started → (p.receive asserts host ts m).Started) := by
  cases htransmit : transmit asserts host ts m p.nextID with
  | aborted | running =>
      have hreceive : p.receive asserts host ts m = p.stop p.up.length := by
        rw [receive, htransmit]
      rw [hreceive]
      exact ⟨rfl, Nat.le_succ _, fun _ => Or.inr (Or.inl rfl)⟩
  | ret x =>
      obtain ⟨_ | msg, id⟩ := x
      · rw [receive, htransmit]
        exact ⟨rfl, Nat.le_refl _, fun h => h⟩
      · rw [receive, htransmit]
        simp only [readCB]
        cases msg.package with
        | returnLastEvent lid =>
            refine ⟨rfl, Nat.le_refl _, fun h => ?_⟩
            by_cases hid : p.handler.lastEventIDUploaded = 0
            · exact Or.inr (Or.inr (by simp [hid]))
            · simpa [Started, EventForwardHandler.getProtobufPackage, hid] using h
        | _ => exact ⟨rfl, Nat.le_refl _, fun h => h⟩

end
end Peer
end ClientService
