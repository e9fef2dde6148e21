import ClientService.Uv.Lifetime
import ClientService.Uv.SessionMap

/-!
# Stopping the loop

The callback of `stopAsync` walks over the handles of the loop. It closes every handle it comes
to, and the socket of a session twice: once through the session, which it then deletes, and once
more as a handle. It does not ask whether a handle is closing already.

## Main definitions

* `UvHandler.visit`, `UvHandler.walk` — the calls that are made for a handle, and for all of them.
* `UvHandler.StopsAll` — the promise.
-/

namespace ClientService

open Transition (run Meets)

/-- A handle of the loop. -/
structure LoopHandle where
  address : ℕ
  /-- `data` is not null. -/
  data : Bool := true
  /-- `uv_close` has been called for it. -/
  closing : Bool := false
  deriving DecidableEq, Repr

/-- What the walk calls. -/
inductive LoopCall where
  | readStop (p : ℕ)
  | uvClose (p : ℕ)
  /-- `delete c`. -/
  | delete (i : ℕ)
  /-- A pointer is followed that points to no session. -/
  | wild
  deriving DecidableEq, Repr

namespace UvHandler

/-- The body of the walk: the calls, and the state afterwards. `second` is what is found in the
entry that `RemoveClient` has erased. -/
def visit (h : LoopHandle) (second : Option ℕ) (s : UvHandler) : List LoopCall × UvHandler :=
  if h.data = true then
    let s' := s.stopHandle h.address second
    match (s.removeClient h.address second).1 with
    | none => ([.uvClose h.address], s')
    | some c =>
        match s.sockets c with
        | some t => ([.readStop t.sock, .uvClose t.sock, .delete c, .uvClose h.address], s')
        | none => ([.wild], s')
  else ([.uvClose h.address], s.shut h.address)

/-- `uv_walk`. -/
def walk : List (LoopHandle × Option ℕ) → UvHandler → List LoopCall × UvHandler
  | [], s => ([], s)
  | v :: vs, s => ((visit v.1 v.2 s).1 ++ (walk vs (visit v.1 v.2 s).2).1,
      (walk vs (visit v.1 v.2 s).2).2)

/-! ## The promise -/

/-- Every handle that is not closing is closed once and no other, every session of the map is
deleted once and its socket is not used after that, and the map is empty at the end. -/
structure StopsAll (vs : List (LoopHandle × Option ℕ)) (s : UvHandler) : Prop where
  defined : .wild ∉ (walk vs s).1
  closes : ∀ v ∈ vs, (walk vs s).1.count (.uvClose v.1.address) = if v.1.closing then 0 else 1
  deletes : ∀ p i, s._clientMap.lookup p = some i → (walk vs s).1.count (.delete i) = 1
  last : ∀ pre i post, (walk vs s).1 = pre ++ .delete i :: post → ∀ t ∈ s.sockets i,
    .readStop t.sock ∉ post ∧ .uvClose t.sock ∉ post
  empty : ∀ p, (walk vs s).2._clientMap.lookup p = none

/-- The address of the socket of session `i`. -/
def address (s : UvHandler) (i : ℕ) : Option ℕ := (s.sockets i).map ClientSocket.sock

/-- Every entry of the map has the address of its session's socket. -/
def Keyed (s : UvHandler) : Prop := ∀ p i, s._clientMap.lookup p = some i → s.address i = some p

/-! ## One handle -/

section
variable {s s' : UvHandler} {p i : ℕ} {second : Option ℕ} {t : ClientSocket}

@[simp] theorem shut_map (p : ℕ) (s : UvHandler) : (s.shut p)._clientMap = s._clientMap := rfl

theorem address_congr (h : s'.sockets = s.sockets) (i : ℕ) : s'.address i = s.address i := by
  rw [address, h, address]

theorem address_put (hi : s.sockets i = some t) {t' : ClientSocket} (hsock : t'.sock = t.sock)
    (j : ℕ) : (s.put i t').address j = s.address j := by
  by_cases hj : j = i
  · simp [address, hj, put_sockets_self, hi, hsock]
  · simp [address, put_sockets_of_ne hj]

@[simp] theorem address_shut (p : ℕ) (s : UvHandler) (i : ℕ) :
    (s.shut p).address i = s.address i := by
  simp only [address, shut, Option.map_map]
  congr 1
  funext t
  by_cases h : t.sock = p ∧ t.destroyed = false
  · simp [h]
  · simp [h]

/-- Only the entry of the handle goes. -/
theorem lookup_removeClient (p : ℕ) (second : Option ℕ) (s : UvHandler) (k : ℕ) :
    (s.removeClient p second).2._clientMap.lookup k =
      if k = p then none else s._clientMap.lookup k := by
  rw [removeClient]
  by_cases hk : k = p
  · rw [if_pos hk, hk]
    cases h : s._clientMap.lookup p with
    | some _ => exact AList.lookup_erase p _
    | none => exact h
  · rw [if_neg hk]
    cases s._clientMap.lookup p with
    | some _ => exact AList.lookup_erase_ne hk
    | none => rfl

theorem stopHandle_eq (p : ℕ) (second : Option ℕ) (s : UvHandler) : s.stopHandle p second =
    match (s.removeClient p second).1 with
    | none => (s.removeClient p second).2.shut p
    | some c =>
        match s.sockets c with
        | some t => ((s.removeClient p second).2.put c
            { t with closed := true, destroyed := true }).shut p
        | none => { (s.removeClient p second).2 with failed := true } := by
  rw [← (s.removeClient_frame p second).2.2]
  rfl

theorem lookup_stopHandle (p : ℕ) (second : Option ℕ) (s : UvHandler) (k : ℕ) :
    (s.stopHandle p second)._clientMap.lookup k =
      if k = p then none else s._clientMap.lookup k := by
  rw [← lookup_removeClient p second s, stopHandle_eq]
  cases (s.removeClient p second).1 with
  | none => rfl
  | some c =>
      simp only
      cases s.sockets c with
      | some t => rfl
      | none => rfl

theorem address_stopHandle (p : ℕ) (second : Option ℕ) (s : UvHandler) (i : ℕ) :
    (s.stopHandle p second).address i = s.address i := by
  have hremove := (s.removeClient_frame p second).2.2
  rw [stopHandle_eq, ← address_congr hremove]
  cases (s.removeClient p second).1 with
  | none => exact address_shut p _ i
  | some c =>
      simp only
      cases hc : s.sockets c with
      | none => rfl
      | some t =>
          rw [address_shut]
          apply address_put (t := t)
          · rw [hremove, hc]
          · rfl

variable {h : LoopHandle}

theorem visit_state (h : LoopHandle) (second : Option ℕ) (s : UvHandler) :
    (visit h second s).2 =
      if h.data = true then s.stopHandle h.address second else s.shut h.address := by
  rw [visit]
  by_cases hdata : h.data = true
  · simp only [if_pos hdata]
    cases (s.removeClient h.address second).1 with
    | none => rfl
    | some c =>
        simp only
        cases s.sockets c with
        | some t => rfl
        | none => rfl
  · simp only [if_neg hdata]

theorem lookup_visit {k : ℕ} (hk : k ≠ h.address) :
    (visit h second s).2._clientMap.lookup k = s._clientMap.lookup k := by
  rw [visit_state]
  by_cases hdata : h.data = true
  · rw [if_pos hdata, lookup_stopHandle, if_neg hk]
  · rw [if_neg hdata, shut_map]

/-- The addresses of the sockets stay. -/
theorem address_visit (h : LoopHandle) (second : Option ℕ) (s : UvHandler) (i : ℕ) :
    (visit h second s).2.address i = s.address i := by
  rw [visit_state]
  by_cases hdata : h.data = true
  · rw [if_pos hdata, address_stopHandle]
  · rw [if_neg hdata, address_shut]

/-- The calls for a handle. -/
theorem visit_calls (hdefined : .wild ∉ (visit h second s).1) :
    (visit h second s).1 = [.uvClose h.address] ∨ ∃ c q, s.address c = some q ∧
      (visit h second s).1 = [.readStop q, .uvClose q, .delete c, .uvClose h.address] := by
  rw [visit] at hdefined ⊢
  by_cases hdata : h.data = true
  · rw [if_pos hdata] at hdefined ⊢
    cases hremove : (s.removeClient h.address second).1 with
    | none => exact Or.inl rfl
    | some c =>
        cases hc : s.sockets c with
        | some u =>
            refine Or.inr ⟨c, u.sock, ?_, ?_⟩
            · simp [address, hc]
            · simp [hc]
        | none =>
            simp only [hremove, hc] at hdefined
            exact absurd List.mem_cons_self hdefined
  · rw [if_neg hdata]
    exact Or.inl rfl

/-- **A session is closed when it is deleted**, and its handle when the walk comes to it. -/
theorem visit_closes (hdefined : .wild ∉ (visit h second s).1) (hi : s.address i = some p) :
    (if h.address = p then 1 else 0) + (visit h second s).1.count (.delete i) ≤
      (visit h second s).1.count (.uvClose p) := by
  rcases visit_calls hdefined with heq | ⟨c, q, hc, heq⟩
  · rw [heq]
    by_cases hp : h.address = p
    · simp [hp]
    · simp [hp]
  · rw [heq]
    by_cases hci : c = i
    · rw [hci, hi, Option.some.injEq] at hc
      rw [hc, hci]
      by_cases hp : h.address = q
      · simp [hp]
      · simp [hp]
    · by_cases hp : h.address = p
      · simp [hp, hci, List.count_cons]
      · simp [hp, hci, List.count_cons]

/-! ## The whole walk -/

variable {vs : List (LoopHandle × Option ℕ)}

theorem lookup_walk {k : ℕ} (hk : ∀ v ∈ vs, k ≠ v.1.address) :
    (walk vs s).2._clientMap.lookup k = s._clientMap.lookup k := by
  induction vs generalizing s with
  | nil => rfl
  | cons v vs ih =>
      have hvisit : (visit v.1 v.2 s).2._clientMap.lookup k = s._clientMap.lookup k :=
        lookup_visit (hk v List.mem_cons_self)
      rw [walk, ← hvisit]
      exact ih fun w hw => hk w (List.mem_cons_of_mem v hw)

/-- **Over the walk**, the socket of a session is closed as often as it is come to and as the
session is deleted. -/
theorem walk_closes (hdefined : .wild ∉ (walk vs s).1) (hi : s.address i = some p) :
    vs.countP (fun v => v.1.address = p) + (walk vs s).1.count (.delete i) ≤
      (walk vs s).1.count (.uvClose p) := by
  induction vs generalizing s with
  | nil => simp [walk]
  | cons v vs ih =>
      simp only [walk, List.mem_append, not_or] at hdefined
      have hvisit := visit_closes hdefined.1 hi
      rw [← address_visit v.1 v.2] at hi
      have hrest := ih hdefined.2 hi
      simp only [walk, List.count_append, List.countP_cons, decide_eq_true_eq]
      omega

theorem visit_uvClose (h : LoopHandle) (second : Option ℕ) (s : UvHandler)
    (hdefined : .wild ∉ (visit h second s).1) : .uvClose h.address ∈ (visit h second s).1 := by
  rcases visit_calls hdefined with heq | ⟨c, u, hc, heq⟩
  · simp [heq]
  · simp [heq]

/-- Every handle is closed, also one that is closing. -/
theorem walk_uvClose (hdefined : .wild ∉ (walk vs s).1) :
    ∀ v ∈ vs, .uvClose v.1.address ∈ (walk vs s).1 := by
  induction vs generalizing s with
  | nil => simp
  | cons v vs ih =>
      simp only [walk, List.mem_append, not_or] at hdefined
      intro w hw
      rw [walk, List.mem_append]
      rcases List.mem_cons.mp hw with heq | hw
      · rw [heq]
        exact Or.inl (visit_uvClose v.1 v.2 s hdefined.1)
      · exact Or.inr (ih hdefined.2 w hw)

/-- Without sessions the walk closes the handles and does nothing else. -/
theorem visit_of_empty (hs : ∀ p, s._clientMap.lookup p = none) :
    (visit h second s).1 = [.uvClose h.address] ∧
      ∀ p, (visit h second s).2._clientMap.lookup p = none := by
  have hremove : s.removeClient h.address second = (none, s) := by
    simp [removeClient, hs]
  by_cases hdata : h.data = true
  · simp [visit, hdata, hremove, stopHandle, hs]
  · simp [visit, hdata, hs]

theorem walk_of_empty (hs : ∀ p, s._clientMap.lookup p = none) :
    (walk vs s).1 = vs.map (fun v => .uvClose v.1.address) ∧
      ∀ p, (walk vs s).2._clientMap.lookup p = none := by
  induction vs generalizing s with
  | nil => exact ⟨rfl, hs⟩
  | cons v vs ih =>
      have hvisit : (visit v.1 v.2 s).1 = [.uvClose v.1.address] ∧
          ∀ p, (visit v.1 v.2 s).2._clientMap.lookup p = none := visit_of_empty hs
      have hrest := ih hvisit.2
      refine ⟨?_, hrest.2⟩
      simp [walk, hvisit.1, hrest.1]

theorem stopsAll_of_empty (hs : ∀ p, s._clientMap.lookup p = none)
    (hclosing : ∀ v ∈ vs, v.1.closing = false)
    (hnodup : (vs.map fun v => v.1.address).Nodup) : StopsAll vs s := by
  have hcalls : (walk vs s).1 = vs.map (fun v => .uvClose v.1.address) := (walk_of_empty hs).1
  have hdelete : ∀ i, .delete i ∉ (walk vs s).1 := by simp [hcalls]
  refine ⟨by simp [hcalls], ?_, ?_, ?_, (walk_of_empty hs).2⟩
  · intro v hv
    have hmap : vs.map (fun w => LoopCall.uvClose w.1.address) =
        (vs.map fun w => w.1.address).map .uvClose := by simp
    have hinj : Function.Injective LoopCall.uvClose := fun _ _ heq => LoopCall.uvClose.inj heq
    have hmem : v.1.address ∈ vs.map fun w => w.1.address := List.mem_map.mpr ⟨v, hv, rfl⟩
    rw [hcalls, hmap, List.count_map_of_injective _ _ hinj, hclosing v hv,
      List.count_eq_one_of_mem hnodup hmem]
    simp
  · intro p i hlookup
    simp [hs] at hlookup
  · intro pre i post heq
    exact absurd (heq ▸ by simp) (hdelete i)

/-- **When the walk stops everything**: when it finds no session, and no handle that is closing. -/
theorem stopsAll_iff_of_keyed (hkeyed : s.Keyed) (hnodup : (vs.map fun v => v.1.address).Nodup) :
    StopsAll vs s ↔
      (∀ p, s._clientMap.lookup p = none) ∧ ∀ v ∈ vs, v.1.closing = false := by
  refine ⟨fun h => ⟨?_, ?_⟩, fun h => stopsAll_of_empty h.1 h.2 hnodup⟩
  · intro p
    by_contra hne
    obtain ⟨i, hi⟩ := Option.ne_none_iff_exists'.mp hne
    -- The entry goes only when the walk comes to the socket.
    have hvisited : ∃ v ∈ vs, p = v.1.address := by
      by_contra hnot
      push Not at hnot
      have hlookup := h.empty p
      rw [lookup_walk hnot, hi] at hlookup
      exact nomatch hlookup
    obtain ⟨v, hv, haddress⟩ := hvisited
    have hcount : 0 < vs.countP fun v => v.1.address = p := by
      rw [List.countP_pos_iff]
      exact ⟨v, hv, by simp [haddress]⟩
    have htwice := walk_closes h.defined (hkeyed p i hi)
    have hdelete := h.deletes p i hi
    have honce := h.closes v hv
    rw [← haddress] at honce
    split at honce
    · omega
    · omega
  · intro v hv
    have hpos := List.count_pos_iff.mpr (walk_uvClose h.defined v hv)
    have honce := h.closes v hv
    by_contra hclosing
    simp only [Bool.not_eq_false] at hclosing
    rw [if_pos hclosing] at honce
    omega

/-! ## Runs -/

/-- What every step keeps. -/
structure Addressed (s : UvHandler) : Prop where
  keyed : s.Keyed
  fresh : ∀ i, s.service.accepted ≤ i → s.address i = none

theorem addressed_start (flag : Bool) (db : Database) (nextID : Int32) :
    Addressed (start flag db nextID) where
  keyed := fun _ _ h => (nomatch h)
  fresh := fun _ _ => rfl

/-- Steps without a new session. -/
theorem Addressed.mono (h : s.Addressed)
    (hmap : ∀ k i, s'._clientMap.lookup k = some i → s._clientMap.lookup k = some i)
    (haddress : ∀ i, s'.address i = s.address i)
    (haccepted : s'.service.accepted = s.service.accepted) : s'.Addressed where
  keyed := by
    intro k i hlookup
    rw [haddress]
    exact h.keyed k i (hmap k i hlookup)
  fresh := by
    intro i hi
    rw [haddress]
    exact h.fresh i (by omega)

theorem lookup_addClient (asserts : Bool) (c p : ℕ) (s : UvHandler) (k i : ℕ)
    (h : (s.addClient asserts c p)._clientMap.lookup k = some i) :
    (k = p ∧ i = c) ∨ s._clientMap.lookup k = some i := by
  rw [addClient] at h
  cases hp : s._clientMap.lookup p with
  | some _ =>
      simp only [hp] at h
      exact Or.inr h
  | none =>
      simp only [hp] at h
      by_cases hasserts : asserts = true
      · rw [if_pos hasserts] at h
        exact Or.inr h
      · rw [if_neg hasserts, lookup_insert_eq] at h
        by_cases hk : k = p
        · rw [if_pos hk, Option.some.injEq] at h
          exact Or.inl ⟨hk, h.symm⟩
        · rw [if_neg hk] at h
          exact Or.inr h

/-- The new session has the address of the new socket. -/
theorem uvConnectCB_address (asserts accepted : Bool) (c p : ℕ) (s : UvHandler) :
    (s.uvConnectCB asserts accepted c p).address c = some p ∧
      (s.uvConnectCB asserts accepted c p)._clientMap =
        ((s.put c { sock := p }).addClient asserts c p)._clientMap := by
  have hframe := addClient_frame (s.put c { sock := p }) asserts c p
  rw [uvConnectCB]
  by_cases hgoes : ((s.put c { sock := p }).addClient asserts c p).failed = true ∨ accepted = true
  · rw [if_pos hgoes]
    refine ⟨?_, rfl⟩
    rw [address_congr hframe.2.2]
    simp [address, put_sockets_self]
  · rw [if_neg hgoes]
    refine ⟨?_, rfl⟩
    simp [address, put_sockets_self]

theorem Addressed.connect (h : s.Addressed) (asserts accepted : Bool) {service : Service}
    (haccepted : service.accepted = s.service.accepted + 1) :
    (uvConnectCB asserts accepted s.service.accepted p { s with service := service }).Addressed := by
  have hframe := uvConnectCB_frame { s with service := service } asserts accepted
    s.service.accepted p
  have hnew := uvConnectCB_address asserts accepted s.service.accepted p
    { s with service := service }
  have hother : ∀ i, i ≠ s.service.accepted → (uvConnectCB asserts accepted s.service.accepted p
      { s with service := service }).address i = s.address i := by
    intro i hi
    simp only [address, hframe.2.2.1 i hi]
  refine ⟨?_, ?_⟩
  · intro k i hlookup
    rw [hnew.2] at hlookup
    rcases lookup_addClient _ _ _ _ k i hlookup with ⟨hk, hi⟩ | hlookup
    · rw [hk, hi]
      exact hnew.1
    · have hi := h.keyed k i hlookup
      have hne : i ≠ s.service.accepted := by
        intro heq
        rw [h.fresh i (by omega)] at hi
        exact nomatch hi
      rw [hother i hne]
      exact hi
  · intro i hi
    rw [hframe.1, haccepted] at hi
    rw [hother i (by omega)]
    exact h.fresh i (by omega)

theorem Addressed.readFailed (h : s.Addressed) (hi : s.sockets i = some t) (stray : Bool)
    (r : FailedRead) : (s.uvReadFailed i stray t r).Addressed := by
  by_cases hnamed : s.Named i stray
  · rw [uvReadFailed_of_named t r hnamed]
    refine h.mono (fun _ _ hlookup => hlookup) (address_put hi ?_) rfl
    by_cases hclosing : r.Closing
    · rw [if_pos hclosing]
    · rw [if_neg hclosing]
  · rw [uvReadFailed_of_nameless t r hnamed]
    exact h.mono (fun _ _ hlookup => hlookup) (fun _ => rfl) rfl

theorem Addressed.closed (h : s.Addressed) (hi : s.sockets i = some t) :
    (s.uvCloseCB i t).Addressed := by
  rw [uvCloseCB, clientDisconnect]
  cases s._clientMap.lookup t.sock with
  | some _ =>
      apply h.mono
      · intro k j hlookup
        change (s._clientMap.erase t.sock).lookup k = some j at hlookup
        rw [lookup_erase_eq] at hlookup
        exact (Option.ite_none_left_eq_some.mp hlookup).2
      · exact address_put (s := { s with _clientMap := s._clientMap.erase t.sock }) hi rfl
      · rfl
  | none =>
      exact h.mono (fun _ _ hlookup => hlookup)
        (address_put (s := { s with failed := true }) hi rfl) rfl

theorem stopHandle_service (p : ℕ) (second : Option ℕ) (s : UvHandler) :
    (s.stopHandle p second).service = s.service := by
  rw [stopHandle_eq, ← (s.removeClient_frame p second).1]
  cases (s.removeClient p second).1 with
  | none => rfl
  | some c =>
      simp only
      cases s.sockets c with
      | some t => rfl
      | none => rfl

theorem Addressed.stopHandle (h : s.Addressed) (p : ℕ) (second : Option ℕ) :
    (s.stopHandle p second).Addressed := by
  apply h.mono
  · intro k i hlookup
    rw [lookup_stopHandle] at hlookup
    exact (Option.ite_none_left_eq_some.mp hlookup).2
  · exact address_stopHandle p second s
  · rw [stopHandle_service]

variable {asserts : Bool} {a : Action}

theorem addressed_step (h : s.Addressed) (hstep : s.step asserts a = some s') : s'.Addressed := by
  cases (step_spec hstep).2 with
  | connect hfresh hservice => exact h.connect asserts _ (accepted_of_accept hservice)
  | served hb _ hservice =>
      exact h.mono (fun _ _ hlookup => hlookup) (fun _ => rfl)
        (Service.accepted_step hservice (behind_ne_accept hb))
  | read _ => exact h
  | nameless _ _ => exact h.mono (fun _ _ hlookup => hlookup) (fun _ => rfl) rfl
  | readFailed hi => exact h.readFailed (reading_eq_some hi).1 _ _
  | closed hi _ => exact h.closed hi
  | stopHandle p second => exact h.stopHandle p second
  | flush => exact h.mono (fun _ _ hlookup => hlookup) (fun _ => rfl) rfl

theorem addressed_of_run {flag : Bool} {db : Database} {nextID : Int32} {as : List Action}
    (hrun : run (step asserts) (start flag db nextID) as = some s) : s.Addressed := by
  have hreaches : Transition.Reaches (step asserts) (fun _ _ => True) (start flag db nextID) s :=
    Transition.reaches_of_run .refl (Transition.meets_of_forall (fun _ _ => trivial) _ as) hrun
  exact hreaches.invariant (addressed_start flag db nextID) fun _ _ _ h _ hstep =>
    addressed_step h hstep

/-- **When the walk stops everything**, in every state that is reached and for the handles that are
in the loop then, whatever `RemoveClient` finds in the entries it has erased: if and only if no
session is in the map and no handle is closing. -/
theorem stopsAll_run_iff (asserts flag : Bool) (db : Database) (nextID : Int32) {as : List Action}
    (hrun : run (step asserts) (start flag db nextID) as = some s)
    (hnodup : (vs.map fun v => v.1.address).Nodup) :
    StopsAll vs s ↔
      (∀ p, s._clientMap.lookup p = none) ∧ ∀ v ∈ vs, v.1.closing = false :=
  stopsAll_iff_of_keyed (addressed_of_run hrun).keyed hnodup

end

/-- The listening socket and the two others, after a client has come and gone. -/
theorem stopsAll_visited :
    ∃ s, run (step false) (start false Sample.database 0) Sample.visit = some s ∧
      StopsAll [({ address := 1 }, none), ({ address := 2 }, none), ({ address := 3 }, none)]
        s := by
  have hrun : (run (step false) (start false Sample.database 0) Sample.visit).isSome = true := rfl
  obtain ⟨s, hs⟩ := Option.isSome_iff_exists.mp hrun
  have hempty : ∀ t ∈ run (step false) (start false Sample.database 0) Sample.visit,
      t._clientMap.entries = [] := by decide +kernel
  refine ⟨s, hs, (stopsAll_run_iff false false Sample.database 0 hs (by decide)).mpr
    ⟨fun p => ?_, by decide⟩⟩
  rw [AList.lookup, hempty s hs, List.dlookup_nil]

/-- One session is connected, and `RemoveClient` finds it. -/
theorem not_stopsAll_connected :
    ∃ s, run (step false) (start false Sample.database 0) [.connect 7 true] = some s ∧
      ¬StopsAll [({ address := 1 }, none), ({ address := 7 }, some 0)] s := by
  refine ⟨_, rfl, fun h => ?_⟩
  have hcloses := h.closes ({ address := 7 }, some 0) (by simp)
  exact absurd hcloses (by decide)

end UvHandler
end ClientService
