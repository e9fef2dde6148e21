import ClientService.Service.Records
import ClientService.Service.Wakeup

/-!
# What the forwarding thread sends

Over a whole run of the thread, the events that it sends are records of the log in their order,
each of them at most once, whatever resume points come from the server and however often the
thread is woken. A package has at most `eventsPerSend` events, and none of them lies below all
resume points that have come.

## Main definitions

* `renderings` — the XML of the records that can be rendered.
* `Forwarding.sends` — the packages of a run.
* `Forwarding.Kept` — the invariant.
-/

namespace ClientService

open Transition (run outputs outputs_concat history Meets meets_of_forall)

/-- The XML of records, where it can be rendered. -/
def renderings (hs : List Handle) : List String :=
  hs.filterMap fun h => h.printed.map EventXml.xml

@[simp] theorem renderings_append (hs hs' : List Handle) :
    renderings (hs ++ hs') = renderings hs ++ renderings hs' := by
  simp [renderings]

theorem length_renderings_le (hs : List Handle) : (renderings hs).length ≤ hs.length := by
  simpa [renderings] using List.length_filterMap_le _ hs

/-! ## A batch -/

/-- The events are made of some of the records, in their order, and none is below `ignore`. -/
structure Drawn (ignore : UInt32) (hs : List Handle) (evts : List Event) : Prop where
  texts : (evts.map Event.xml).Sublist (renderings hs)
  ahead : ∀ e ∈ evts, ignore ≤ e.rid

theorem drawn_nil (ignore : UInt32) (hs : List Handle) : Drawn ignore hs [] where
  texts := List.nil_sublist _
  ahead := by simp

theorem Drawn.length_le {ignore : UInt32} {hs : List Handle} {evts : List Event}
    (h : Drawn ignore hs evts) : evts.length ≤ hs.length := by
  have hle := h.texts.length_le
  have hhs := length_renderings_le hs
  simp at hle
  omega

/-- What the loop appends is drawn from the records that it goes through. -/
theorem Enumerated.drawn {ignore : UInt32} {hs : List Handle} {i : ℕ} {s s' : Enumeration}
    {b : Bool} (hrun : Enumerated ignore hs i s b s') :
    ∃ evts, s'.sent = s.sent ++ evts ∧ Drawn ignore hs evts := by
  induction hrun with
  | done => exact ⟨[], by simp, drawn_nil _ _⟩
  | stopped => exact ⟨[], by simp, drawn_nil _ _⟩
  | @record h hs i x s s' b hprinted hreadable hrest ih =>
      have hcons : renderings (h :: hs) = x.xml :: renderings hs := by
        simp [renderings, hprinted]
      obtain ⟨evts, hsent, hdrawn⟩ := ih
      by_cases hle : ignore ≤ (s.e.parsed x).rid
      · let evt : Event := { s.e.parsed x with
          format := if Known s.metadata h (s.e.parsed x) then (s.e.parsed x).xml else "" }
        have hevt : evt.xml = x.xml := Event.parsed_xml s.e x
        refine ⟨evt :: evts, ?_, ?_, ?_⟩
        · simp only [hsent, addRecord_sent, if_pos hle, List.append_assoc, List.singleton_append,
            evt]
        · simpa [hcons, hevt] using hdrawn.texts
        · simpa [hle, evt] using hdrawn.ahead
      · refine ⟨evts, ?_, ?_, hdrawn.ahead⟩
        · simp only [hsent, addRecord_sent, if_neg hle]
        · simpa [hcons] using hdrawn.texts.cons x.xml

/-- The batch of `EnumerateResults`. -/
theorem drawn_enumerateResults {log : List Handle} {taken : ℕ} {taking : Taking}
    {ignore : UInt32} {e : Event} {metadata : List String} {count : Int32} {s : Enumeration}
    (hrun : enumerateResults (EventForwardHandler.evtNext log taken taking) ignore
      ⟨e, [], metadata, []⟩ = some (count, s)) :
    Drawn ignore ((log.drop taken).take taking.number) s.sent := by
  cases taking with
  | failed lastError =>
      cases hrun
      exact drawn_nil _ _
  | returned n =>
      obtain ⟨b, henum, -⟩ := enumerateResults_returned_eq_some hrun
      obtain ⟨evts, hsent, hdrawn⟩ := henum.drawn
      have hs : s.sent = evts := hsent
      rw [hs]
      exact hdrawn

namespace EventForwardHandler

/-- The events that a thread has read and not sent. -/
def batch (h : EventForwardHandler) : List Event :=
  match h.pc with
  | .read _ _ evts => evts
  | _ => []

theorem batch_getProtobufPackage (h : EventForwardHandler) (msg : Package) :
    (h.getProtobufPackage msg).batch = h.batch := by
  cases msg with
  | returnLastEvent lid =>
      rw [getProtobufPackage]
      split_ifs
      · rw [resumeThread]
        split_ifs with hpc
        · have hpc : h.pc = .suspended := hpc
          simp [batch, hpc]
        · rfl
      · rfl
  | _ => rfl

theorem taken_getProtobufPackage (h : EventForwardHandler) (msg : Package) :
    (h.getProtobufPackage msg).taken = h.taken := by
  cases msg with
  | returnLastEvent lid => simp [getProtobufPackage, resumeThread, apply_ite taken]
  | _ => rfl

/-- Only a thread that has been resumed takes a step, and it leaves the resume point. -/
theorem Threaded.resumed {log : List Handle} {h h' : EventForwardHandler} {a : ThreadAction}
    {package : Option (List Event × Bool)} (hstep : Threaded log h a h' package) :
    h.pc ≠ .suspended ∧ h'.lastEventIDUploaded = h.lastEventIDUploaded := by
  cases hstep with
  | reset hpc =>
      rename_i event
      cases event <;> simp [hpc, resetEvent]
  | _ => simp [*]

/-- The first resume point is the one that resumes the thread. -/
theorem resumed_getProtobufPackage (h : EventForwardHandler) (lid : UInt32) :
    (h.getProtobufPackage (.returnLastEvent lid)).lastEventIDUploaded = lid ∨
      h.getProtobufPackage (.returnLastEvent lid) = h := by
  by_cases hzero : h.lastEventIDUploaded = 0
  · left
    simp [getProtobufPackage, resumeThread, hzero, apply_ite lastEventIDUploaded]
  · right
    simp [getProtobufPackage, hzero]

end EventForwardHandler

/-! ## The thread -/

namespace Forwarding

/-- The package that a step sends. -/
def sent (s : Forwarding) : Action → List (List Event × Bool)
  | .thread a => ((s.handler.threadStep s.log a).bind Prod.snd).toList
  | _ => []

/-- The packages of a run, in order. -/
def sends (s : Forwarding) (as : List Action) : List (List Event × Bool) :=
  outputs step sent s as

/-- The XML of the records that have been taken. -/
def texts (s : Forwarding) : List String := renderings (s.log.take s.handler.taken)

/-- The resume points that have come from the server. -/
def resumePoints (as : List Action) : List UInt32 :=
  as.filterMap fun
    | .returned lid | .accepted lid => some lid
    | _ => none

@[simp] theorem resumePoints_append (as bs : List Action) :
    resumePoints (as ++ bs) = resumePoints as ++ resumePoints bs := by
  simp [resumePoints]

/-- What a step adds to the events that are sent or about to be sent. -/
structure Adds (s s' : Forwarding) (a : Action) (evts : List Event) : Prop where
  events : (s.sent a).flatMap Prod.fst ++ s'.handler.batch = s.handler.batch ++ evts
  texts : (s.texts ++ evts.map Event.xml).Sublist s'.texts
  /-- A batch is taken when the one before has been sent. -/
  alone : evts = [] ∨ s.handler.batch = [] ∧ s.handler.pc ≠ .suspended
  length : evts.length ≤ EventForwardHandler.eventsPerSend
  ahead : ∀ e ∈ evts, s.handler.lastEventIDUploaded ≤ e.rid

section
variable {s s' : Forwarding} {a : Action}

/-- The step takes no record. -/
theorem adds_nil (hevents : (s.sent a).flatMap Prod.fst ++ s'.handler.batch = s.handler.batch)
    (htexts : s.texts.Sublist s'.texts) : Adds s s' a [] where
  events := by simpa using hevents
  texts := by simpa using htexts
  alone := Or.inl rfl
  length := Nat.zero_le _
  ahead := by simp

theorem adds_thread {t : ThreadAction} {h : EventForwardHandler}
    {package : Option (List Event × Bool)} {n : ℕ}
    (hthread : s.handler.threadStep s.log t = some (h, package)) :
    ∃ evts, Adds s { s with handler := h, outstanding := n } (.thread t) evts := by
  have hsent : s.sent (.thread t) = package.toList := by simp [sent, hthread]
  cases EventForwardHandler.threadStep_spec hthread with
  | subscribe succeeds hpc =>
      refine ⟨[], adds_nil ?_ (List.Sublist.refl _)⟩
      cases succeeds <;> simp [hsent, EventForwardHandler.batch, hpc]
  | wait hpc hwait =>
      refine ⟨[], adds_nil ?_ (List.Sublist.refl _)⟩
      rcases EventForwardHandler.waitForMultipleObjects_spec hwait with rfl | ⟨event, rfl⟩
      · simp [hsent, EventForwardHandler.batch, hpc]
      · simp [hsent, EventForwardHandler.batch, hpc]
  | send hpc =>
      refine ⟨[], adds_nil ?_ (List.Sublist.refl _)⟩
      simp [hsent, EventForwardHandler.batch, hpc]
  | reset hpc =>
      rename_i event
      cases event <;>
        exact ⟨[], adds_nil (by simp [hsent, EventForwardHandler.batch, hpc])
          (List.Sublist.refl _)⟩
  | @enumerate event taking e count t hpc hpossible hrun =>
      have hdrawn := drawn_enumerateResults hrun
      have htake : s.log.take (s.handler.taken + taking.number) =
          s.log.take s.handler.taken ++ (s.log.drop s.handler.taken).take taking.number :=
        List.take_add
      by_cases hcount : count < 0
      · refine ⟨[], adds_nil ?_ ?_⟩
        · simp [hsent, EventForwardHandler.batch, hpc, hcount]
        · simp [texts, htake]
      · refine ⟨t.sent, ?_, ?_, Or.inr ?_, ?_, hdrawn.ahead⟩
        · simp [hsent, EventForwardHandler.batch, hpc, hcount]
        · simpa [texts, htake] using hdrawn.texts
        · simp [EventForwardHandler.batch, hpc]
        · have hle := hdrawn.length_le
          cases taking with
          | failed lastError => simp_all [Taking.number]
          | returned n =>
              have hn := hpossible.2.1
              simp [Taking.number] at hle
              omega

theorem adds_step (hstep : s.step a = some s') : ∃ evts, Adds s s' a evts := by
  cases a with
  | record h =>
      cases hstep
      refine ⟨[], adds_nil rfl ?_⟩
      simp [texts, EventForwardHandler.setEvent, List.take_append]
  | thread t =>
      obtain ⟨⟨h, package⟩, hthread, rfl⟩ := Option.map_eq_some_iff.mp hstep
      exact adds_thread hthread
  | returned lid =>
      cases hstep
      refine ⟨[], adds_nil ?_ ?_⟩
      · simp [sent, EventForwardHandler.batch_getProtobufPackage]
      · simp [texts, EventForwardHandler.taken_getProtobufPackage]
  | accepted lid =>
      simp only [step, Option.ite_none_right_eq_some, Option.some.injEq] at hstep
      rw [← hstep.2]
      exact ⟨[], adds_nil rfl (List.Sublist.refl _)⟩
  | unanswered =>
      simp only [step, Option.ite_none_right_eq_some, Option.some.injEq] at hstep
      rw [← hstep.2]
      exact ⟨[], adds_nil rfl (List.Sublist.refl _)⟩
  | stop =>
      cases hstep
      exact ⟨[], adds_nil rfl (List.Sublist.refl _)⟩

/-- When the thread has been resumed, its resume point came from the server. -/
theorem resumed_step {points : List UInt32} (hstep : s.step a = some s')
    (h : s.handler.pc ≠ .suspended → s.handler.lastEventIDUploaded ∈ points) :
    s'.handler.pc ≠ .suspended →
      s'.handler.lastEventIDUploaded ∈ points ++ resumePoints [a] := by
  intro hpc
  rw [List.mem_append]
  cases a with
  | record r =>
      cases hstep
      exact Or.inl (h hpc)
  | thread t =>
      obtain ⟨⟨handler, package⟩, hthread, rfl⟩ := Option.map_eq_some_iff.mp hstep
      obtain ⟨hresumed, heq⟩ := (EventForwardHandler.threadStep_spec hthread).resumed
      exact Or.inl (heq ▸ h hresumed)
  | returned lid =>
      cases hstep
      rcases s.handler.resumed_getProtobufPackage lid with heq | heq
      · exact Or.inr (by simp [resumePoints, heq])
      · simp only [heq] at hpc ⊢
        exact Or.inl (h hpc)
  | accepted lid =>
      simp only [step, Option.ite_none_right_eq_some, Option.some.injEq] at hstep
      rw [← hstep.2]
      exact Or.inr (by simp [resumePoints, EventForwardHandler.getProtobufPackage,
        EventForwardHandler.setEvent])
  | unanswered =>
      simp only [step, Option.ite_none_right_eq_some, Option.some.injEq] at hstep
      rw [← hstep.2] at hpc ⊢
      exact Or.inl (h hpc)
  | stop =>
      cases hstep
      exact Or.inl (h hpc)

end

/-! ## Runs -/

/-- A batch of at most `eventsPerSend` events, none below all of these resume points. -/
structure Admissible (points : List UInt32) (evts : List Event) : Prop where
  length : evts.length ≤ EventForwardHandler.eventsPerSend
  ahead : ∀ e ∈ evts, ∃ lid ∈ points, lid ≤ e.rid

theorem Admissible.sublist {points : List UInt32} {evts evts' : List Event}
    (h : Admissible points evts) (hsub : evts'.Sublist evts) : Admissible points evts' where
  length := hsub.length_le.trans h.length
  ahead := fun e he => h.ahead e (hsub.subset he)

theorem Admissible.append {points : List UInt32} {evts : List Event} (h : Admissible points evts)
    (more : List UInt32) : Admissible (points ++ more) evts where
  length := h.length
  ahead := fun e he =>
    let ⟨lid, hlid, hle⟩ := h.ahead e he
    ⟨lid, List.mem_append_left _ hlid, hle⟩

/-- What holds of the packages of a run, and of the batch that comes next. -/
structure Kept (start : Forwarding) (as : List Action) (s : Forwarding) : Prop where
  texts : (((start.sends as).flatMap Prod.fst ++ s.handler.batch).map Event.xml).Sublist s.texts
  packages : ∀ package ∈ start.sends as, Admissible (resumePoints as) package.1
  batch : Admissible (resumePoints as) s.handler.batch
  resumed : s.handler.pc ≠ .suspended → s.handler.lastEventIDUploaded ∈ resumePoints as

theorem kept_start (log : List Handle) : Kept { log := log } [] { log := log } where
  texts := by simp [sends, outputs, EventForwardHandler.batch]
  packages := by simp [sends, outputs]
  batch := ⟨Nat.zero_le _, by simp [EventForwardHandler.batch]⟩
  resumed := fun hpc => absurd rfl hpc

/-- **One more step.** -/
theorem Kept.step {start s s' : Forwarding} {as : List Action} {a : Action}
    (h : Kept start as s) (hrun : run Forwarding.step start as = some s)
    (hstep : s.step a = some s') : Kept start (as ++ [a]) s' := by
  obtain ⟨evts, hadds⟩ := adds_step hstep
  have hsends : start.sends (as ++ [a]) = start.sends as ++ s.sent a :=
    outputs_concat sent hrun a
  -- Either nothing is added, or what is added is a batch of its own.
  have hnext : Admissible (resumePoints as) (s.handler.batch ++ evts) := by
    rcases hadds.alone with hnil | ⟨hnil, hpc⟩
    · simpa [hnil] using h.batch
    · rw [hnil]
      exact ⟨hadds.length, fun e he => ⟨_, h.resumed hpc, hadds.ahead e he⟩⟩
  rw [← hadds.events] at hnext
  constructor
  · have hevents : (start.sends (as ++ [a])).flatMap Prod.fst ++ s'.handler.batch =
        (start.sends as).flatMap Prod.fst ++ s.handler.batch ++ evts := by
      rw [hsends, List.flatMap_append, List.append_assoc, hadds.events, List.append_assoc]
    rw [hevents, List.map_append]
    exact (h.texts.append_right _).trans hadds.texts
  · rw [hsends, resumePoints_append]
    intro package hpackage
    rcases List.mem_append.mp hpackage with hpackage | hpackage
    · exact (h.packages package hpackage).append _
    · refine (hnext.sublist ?_).append _
      refine List.Sublist.trans ?_ (List.sublist_append_left _ _)
      exact List.sublist_flatten_of_mem (List.mem_map_of_mem hpackage)
  · rw [resumePoints_append]
    exact (hnext.sublist (List.sublist_append_right _ _)).append _
  · rw [resumePoints_append]
    exact resumed_step hstep h.resumed

/-- **What the thread sends.** Whatever happens, the events of all packages are records of the
log in their order, each at most once; a package has at most `eventsPerSend` of them, and none
lies below all resume points that have come. -/
theorem sends_in_order {log : List Handle} {as : List Action} {s : Forwarding}
    (hrun : run step { log := log } as = some s) :
    (((({ log := log } : Forwarding).sends as).flatMap Prod.fst).map Event.xml).Sublist s.texts ∧
      ∀ package ∈ ({ log := log } : Forwarding).sends as,
        Admissible (resumePoints as) package.1 := by
  let start : Forwarding := { log := log }
  have hgood : Meets step (fun _ _ => True) start as :=
    meets_of_forall (fun _ _ => trivial) start as
  have hkept : run step start as = some s ∧ Kept start as s := by
    refine history (P := fun as s => run step start as = some s ∧ Kept start as s)
      ⟨rfl, kept_start log⟩ ?_ hgood hrun
    rintro as s a s' ⟨hrun, h⟩ - hstep
    refine ⟨?_, h.step hrun hstep⟩
    simp [Transition.run_append, hrun, run, hstep]
  have htexts := hkept.2.texts
  rw [List.map_append] at htexts
  exact ⟨(List.sublist_append_left _ _).trans htexts, hkept.2.packages⟩

/-- Two batches of one record each, in two packages. -/
def forwardedTwice : List Action :=
  [.returned 1, .thread (.subscribe true), .thread .wait,
    .thread (.enumerate (.returned 1) Sample.event), .thread .send, .thread .reset,
    .record Sample.handle, .thread .wait, .thread (.enumerate (.returned 1) Sample.event),
    .thread .send]

theorem sends_in_order_forwardedTwice :
    ∃ s, run step { log := [Sample.handle] } forwardedTwice = some s ∧
      ((((({ log := [Sample.handle] } : Forwarding).sends forwardedTwice).flatMap Prod.fst).map
        Event.xml).Sublist s.texts ∧
      ∀ package ∈ ({ log := [Sample.handle] } : Forwarding).sends forwardedTwice,
        Admissible (resumePoints forwardedTwice) package.1) := by
  have hsome : (run step { log := [Sample.handle] } forwardedTwice).isSome = true := by
    decide +kernel
  obtain ⟨s, hrun⟩ := Option.isSome_iff_exists.mp hsome
  exact ⟨s, hrun, sends_in_order hrun⟩

end Forwarding
end ClientService
