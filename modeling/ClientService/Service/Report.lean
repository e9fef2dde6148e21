import ClientService.Service.Records
import ClientService.Service.Handler

/-!
# What a batch reports

The result of `EnumerateResults` is a count and a status in one number. `Start` leaves its loop
when it is negative, and asks for an answer when it is `eventsPerSend`. The status of a failure is
returned in place of the `-1` that was set for it, and a record that cannot be rendered has no
status. A record with an element that has no text ends the process.

## Main definitions

* `EvtNext.Failing` — the outcomes that the thread should not go on from.
* `Reported` — the promise for one batch.
* `EvtNext.Sound` — the outcomes for which it is kept.
-/

namespace ClientService

/-! ## The promise -/

/-- The number of records that are taken from the subscription. -/
def EvtNext.number : EvtNext → ℕ
  | .failed _ => 0
  | .returned hEvents => hEvents.length

/-- The subscription fails with an error other than `ERROR_NO_MORE_ITEMS`, or a record cannot be
rendered. -/
def EvtNext.Failing : EvtNext → Prop
  | .failed lastError => lastError ≠ errorNoMoreItems
  | .returned hEvents => ∃ h ∈ hEvents, h.printed = none

namespace EventForwardHandler

/-- What `EnumerateResults` returns to the thread, and its variables at the end. -/
def enumerated (log : List Handle) (h : EventForwardHandler) (taking : Taking) (e : Event) :
    Option (Int32 × Enumeration) :=
  enumerateResults (evtNext log h.taken taking) h.lastEventIDUploaded ⟨e, [], h.metadata, []⟩

/-- A batch is reported to the thread, and each of its handles is closed. -/
structure Reported (log : List Handle) (h : EventForwardHandler) (taking : Taking) (e : Event) :
    Prop where
  /-- The process goes on. -/
  returns : (h.enumerated log taking e).isSome = true
  negative : ∀ r ∈ h.enumerated log taking e,
    (r.1 < 0 ↔ (evtNext log h.taken taking).Failing)
  count : ∀ r ∈ h.enumerated log taking e, ¬ (evtNext log h.taken taking).Failing →
    r.1.toInt = (evtNext log h.taken taking).number
  /-- The thread leaves its loop. -/
  exited : ∀ h' package, h.threadStep log (.enumerate taking e) = some (h', package) →
    (h'.pc = .exited ↔ (evtNext log h.taken taking).Failing)
  /-- The package asks for an answer exactly when the batch is full. -/
  needAccept : ∀ h' package, h.threadStep log (.enumerate taking e) = some (h', package) →
    ∀ h'' evts needAccept, h'.threadStep log .send = some (h'', some (evts, needAccept)) →
      (needAccept = true ↔ (evtNext log h.taken taking).number = eventsPerSend)
  closed : ∀ r ∈ h.enumerated log taking e,
    r.2.closed = List.range (evtNext log h.taken taking).number

end EventForwardHandler

/-! ## The condition -/

/-- Every record can be rendered and read, or the error code is negative as a signed number. -/
def EvtNext.Sound : EvtNext → Prop
  | .failed lastError => 2 ^ 31 ≤ lastError.toNat
  | .returned hEvents => ∀ h ∈ hEvents, ∃ x, h.printed = some x ∧ x.Readable

/-! ## Handles -/

/-- Each handle is closed once, whatever `EvtNext` yields. -/
theorem closed_enumerateResults {next : EvtNext} {ignore : UInt32} {s s' : Enumeration}
    {count : Int32} (hrun : enumerateResults next ignore s = some (count, s')) :
    s'.closed = s.closed ++ List.range next.number := by
  cases next with
  | failed lastError =>
      cases hrun
      simp [EvtNext.number]
  | returned hs =>
      obtain ⟨b, henum, -⟩ := enumerateResults_returned_eq_some hrun
      rw [henum.closed_eq, ← List.range_eq_range', EvtNext.number]

/-! ## Counts -/

theorem toInt32_neg_iff (n : UInt32) : n.toInt32 < 0 ↔ 2 ^ 31 ≤ n.toNat := by
  have hint : n.toInt32.toInt = n.toBitVec.toInt := rfl
  have hnat : n.toBitVec.toNat = n.toNat := rfl
  rw [Int32.lt_iff_toInt_lt, Int32.toInt_zero, hint, BitVec.toInt_neg_iff, hnat]
  omega

namespace EventForwardHandler
variable {log : List Handle} {h : EventForwardHandler} {taking : Taking} {e : Event}

/-- A batch that the subscription yields is small. -/
theorem number_evtNext (hpossible : Possible log h.taken taking) :
    (evtNext log h.taken taking).number = taking.number ∧ taking.number ≤ eventsPerSend := by
  cases taking with
  | failed lastError => exact ⟨rfl, Nat.zero_le _⟩
  | returned n =>
      obtain ⟨-, hle, hlog⟩ := hpossible
      refine ⟨?_, hle⟩
      simp only [evtNext, EvtNext.number, List.length_take, List.length_drop, Taking.number]
      omega

/-- The subscription yields an error code, or a batch whose result is its size or zero. -/
theorem enumerated_fst {r : Int32 × Enumeration} (hr : h.enumerated log taking e = some r) :
    r.1 =
      match evtNext log h.taken taking with
      | .failed lastError => lastError.toInt32
      | .returned hs => if hs.all fun h => h.printed.isSome then Int32.ofNat hs.length else 0 := by
  rw [enumerated] at hr
  cases hnext : evtNext log h.taken taking with
  | failed lastError =>
      rw [hnext] at hr
      cases hr
      rfl
  | returned hs =>
      rw [hnext] at hr
      exact count_of_returned hr

/-! ## The thread -/

/-- After a batch the thread exits, or goes on with the result. -/
theorem pc_enumerate {h' : EventForwardHandler} {package : Option (List Event × Bool)}
    (hstep : h.threadStep log (.enumerate taking e) = some (h', package)) :
    ∃ r ∈ h.enumerated log taking e,
      if r.1 < 0 then h'.pc = .exited else ∃ event evts, h'.pc = .read event r.1 evts := by
  cases threadStep_spec hstep with
  | @enumerate event _ _ count s hpc hpossible hrun =>
      refine ⟨(count, s), hrun, ?_⟩
      by_cases hneg : count < 0
      · simp only [if_pos hneg]
      · simp only [if_neg hneg]
        exact ⟨event, s.sent, rfl⟩

/-- The package of a batch asks for an answer when the result is `eventsPerSend`. -/
theorem needAccept_send {h' h'' : EventForwardHandler} {package : Option (List Event × Bool)}
    {evts : List Event} {needAccept : Bool}
    (hstep : h.threadStep log (.enumerate taking e) = some (h', package))
    (hsend : h'.threadStep log .send = some (h'', some (evts, needAccept))) :
    ∃ r ∈ h.enumerated log taking e, ¬ r.1 < 0 ∧
      (needAccept = true ↔ r.1 = Int32.ofNat eventsPerSend) := by
  obtain ⟨r, hr, hpc⟩ := pc_enumerate hstep
  refine ⟨r, hr, ?_⟩
  cases threadStep_spec hsend with
  | @send event count _ hread =>
      by_cases hneg : r.1 < 0
      · rw [if_pos hneg, hread] at hpc
        cases hpc
      · rw [if_neg hneg] at hpc
        obtain ⟨event', evts', hpc⟩ := hpc
        rw [hread] at hpc
        injection hpc with hevent hcount hevts
        rw [decide_eq_true_iff, hcount]
        exact ⟨hneg, Iff.rfl⟩

/-! ## What the promise takes -/

theorem Reported.sound (hreported : Reported log h taking e) :
    (evtNext log h.taken taking).Sound := by
  obtain ⟨⟨count, s⟩, hr⟩ := Option.isSome_iff_exists.mp hreported.returns
  have hnegative := hreported.negative _ hr
  have hcount := hreported.count _ hr
  rw [enumerated_fst hr] at hnegative hcount
  rw [enumerated] at hr
  cases hnext : evtNext log h.taken taking with
  | failed lastError =>
      simp only [hnext] at hnegative hcount
      refine (toInt32_neg_iff lastError).mp (hnegative.mpr ?_)
      intro hmore
      have hzero := hcount fun hfailing => hfailing hmore
      rw [hmore] at hzero
      exact absurd hzero (by decide)
  | returned hs =>
      rw [hnext] at hr
      simp only [hnext] at hnegative
      have hrendered : ∀ b ∈ hs, b.printed.isSome = true := by
        intro b hb
        by_contra hprinted
        have hall : (hs.all fun h => h.printed.isSome) = false := by
          rw [List.all_eq_false]
          exact ⟨b, hb, hprinted⟩
        rw [hall] at hnegative
        have hfailing : (EvtNext.returned hs).Failing := by
          refine ⟨b, hb, ?_⟩
          simpa using hprinted
        have hneg : (0 : Int32) < 0 := hnegative.mpr hfailing
        exact absurd hneg (by decide)
      obtain ⟨b, henum, -⟩ := enumerateResults_returned_eq_some hr
      exact henum.readable hrendered

/-- The result of a sound batch. -/
theorem EvtNext.Sound.result (hpossible : Possible log h.taken taking)
    (hsound : (evtNext log h.taken taking).Sound) {r : Int32 × Enumeration}
    (hr : h.enumerated log taking e = some r) :
    ((evtNext log h.taken taking).Failing ∧ r.1 < 0) ∨
      (¬ (evtNext log h.taken taking).Failing ∧
        r.1.toInt = (evtNext log h.taken taking).number ∧
        (evtNext log h.taken taking).number ≤ eventsPerSend) := by
  obtain ⟨hnumber, hle⟩ := number_evtNext hpossible
  rw [← hnumber] at hle
  rw [enumerated_fst hr]
  cases hnext : evtNext log h.taken taking with
  | failed lastError =>
      rw [hnext] at hsound
      left
      refine ⟨?_, (toInt32_neg_iff lastError).mpr hsound⟩
      intro hmore
      have hle : 2 ^ 31 ≤ lastError.toNat := hsound
      rw [hmore] at hle
      exact absurd hle (by decide)
  | returned hs =>
      rw [hnext] at hsound hle
      right
      have hall : (hs.all fun h => h.printed.isSome) = true := by
        refine List.all_eq_true.mpr fun b hb => ?_
        obtain ⟨x, hprinted, -⟩ := hsound b hb
        rw [hprinted]
        rfl
      refine ⟨?_, ?_, hle⟩
      · intro hfailing
        obtain ⟨b, hb, hnone⟩ := hfailing
        obtain ⟨x, hprinted, -⟩ := hsound b hb
        rw [hnone] at hprinted
        cases hprinted
      · simp only [hall, if_true]
        refine Int32.toInt_ofNat_of_lt ?_
        have hlen : hs.length ≤ 30 := hle
        omega

/-- A sound batch does not end the process. -/
theorem EvtNext.Sound.isSome (hsound : (evtNext log h.taken taking).Sound) :
    (h.enumerated log taking e).isSome = true := by
  rw [enumerated]
  cases hnext : evtNext log h.taken taking with
  | failed lastError => rfl
  | returned hs =>
      rw [hnext] at hsound
      rw [enumerateResults, Option.isSome_map]
      refine enumerateLoop_isSome fun b hb x hx => ?_
      obtain ⟨x', hprinted, hreadable⟩ := hsound b hb
      rw [Option.mem_def.mp hx, Option.some.injEq] at hprinted
      rwa [hprinted]

/-- **A batch is reported** exactly when every record can be rendered and read or the error code is
negative as a signed number. -/
theorem reported_iff (hpossible : Possible log h.taken taking) :
    Reported log h taking e ↔ (evtNext log h.taken taking).Sound := by
  constructor
  · exact Reported.sound
  · intro hsound
    have hnegative : ∀ r ∈ h.enumerated log taking e,
        (r.1 < 0 ↔ (evtNext log h.taken taking).Failing) := by
      intro r hr
      obtain ⟨hfailing, hneg⟩ | ⟨hfailing, hint, -⟩ := EvtNext.Sound.result hpossible hsound hr
      · exact iff_of_true hneg hfailing
      · refine iff_of_false ?_ hfailing
        rw [Int32.lt_iff_toInt_lt, Int32.toInt_zero, hint]
        omega
    exact
      { returns := EvtNext.Sound.isSome hsound
        negative := hnegative
        count := by
          intro r hr hfailing
          obtain ⟨hfailing', -⟩ | ⟨-, hint, -⟩ := EvtNext.Sound.result hpossible hsound hr
          · exact absurd hfailing' hfailing
          · exact hint
        exited := by
          intro h' package hstep
          obtain ⟨r, hr, hpc⟩ := pc_enumerate hstep
          rw [← hnegative r hr]
          by_cases hneg : r.1 < 0
          · rw [if_pos hneg] at hpc
            exact iff_of_true hpc hneg
          · rw [if_neg hneg] at hpc
            obtain ⟨event, evts, hpc⟩ := hpc
            simp [hpc, hneg]
        needAccept := by
          intro h' package hstep h'' evts needAccept hsend
          obtain ⟨r, hr, hnot, hneed⟩ := needAccept_send hstep hsend
          rw [hneed]
          obtain ⟨-, hneg⟩ | ⟨-, hint, hle⟩ := EvtNext.Sound.result hpossible hsound hr
          · exact absurd hneg hnot
          · rw [← Int32.toInt_inj, hint, Int32.toInt_ofNat_of_lt (by decide)]
            omega
        closed := fun _ hr => closed_enumerateResults hr }

/-- The thread of a log, woken by its subscription. -/
def wokenThread : EventForwardHandler where
  pc := .woken .subscribe

/-- A record without elements. -/
def plainRecord : Handle where
  printed := some ⟨"<Event/>", none⟩
  published := false
  message := .failed

/-- A batch of one record is reported. -/
theorem reported_plain : Reported [plainRecord] wokenThread (.returned 1) .blank := by
  refine (reported_iff (by decide)).mpr ?_
  intro b hb
  have heq : b = plainRecord := List.mem_singleton.mp hb
  rw [heq]
  exact ⟨_, rfl, by decide⟩

/-- The thread goes on when the subscription fails. -/
theorem not_reported_failed : ¬ Reported [plainRecord] wokenThread (.failed 5) .blank := by
  intro hreported
  have hfailing : (EvtNext.failed 5).Failing := by
    intro heq
    exact absurd heq (by decide)
  have hneg : (UInt32.toInt32 5) < 0 := (hreported.negative _ rfl).mpr hfailing
  exact absurd hneg (by decide)

end EventForwardHandler
end ClientService
