import ClientService.Uv.Handler

/-!
# The session map

`_clientMap` should hold the open sessions and nothing else. It does in a build without
assertions, since the assertion of `AddClient` fails for every new socket, as long as every
connection is accepted, every read finds a client to name, reads end only in the two errors that
`uvReadCB` closes for and then without a buffer, and `RemoveClient` still finds the session in
the entry that it has erased.

## Main definitions

* `UvHandler.Exact` — the map and the sessions agree.
* `UvHandler.Right` — a step leaves them so, and changes the entry it should.
* `UvHandler.Orderly` — the condition on the steps.
-/

namespace ClientService

open Transition (run Meets)

namespace UvHandler

structure Exact (s : UvHandler) : Prop where
  /-- No assertion has failed, and `ClientDisconnect` has found its session. -/
  running : s.failed = false
  map : ∀ p i, s._clientMap.lookup p = some i ↔
    ∃ t, s.sockets i = some t ∧ t.sock = p ∧ t.Open
  /-- What has failed is closed. -/
  closes : ∀ i t, s.sockets i = some t → t.failed = true → t.closed = true

/-- What a step should do to the map. -/
def Moves (s : UvHandler) (a : Action) (s' : UvHandler) : Prop :=
  match a with
  | .connect p _ => s._clientMap.lookup p = none ∧ ∀ k, s'._clientMap.lookup k =
      if k = p then some s.service.accepted else s._clientMap.lookup k
  | .closed i => ∀ t ∈ s.sockets i, s._clientMap.lookup t.sock = some i ∧
      ∀ k, s'._clientMap.lookup k = if k = t.sock then none else s._clientMap.lookup k
  | .stopHandle p second => (s.removeClient p second).1 = s._clientMap.lookup p ∧
      ∀ k, s'._clientMap.lookup k = if k = p then none else s._clientMap.lookup k
  | _ => ∀ k, s'._clientMap.lookup k = s._clientMap.lookup k

def Right (asserts : Bool) (s : UvHandler) (a : Action) : Prop :=
  ∀ s' ∈ s.step asserts a, s'.Exact ∧ s.Moves a s'

/-- The condition on the steps. -/
def Orderly (asserts : Bool) (s : UvHandler) : Action → Prop
  | .connect _ accepted => asserts = false ∧ accepted = true
  | .read i stray | .message i stray _ _ => s.Named i stray
  | .readFailed i stray r => s.Named i stray ∧ r.Closing ∧ r.Harmless
  | .closed i => ∀ t ∈ s.sockets i, t.destroyed = false
  | .stopHandle p second => ∀ i ∈ s._clientMap.lookup p, second = some i
  | _ => True

/-! ## The invariant -/

structure Sound (s : UvHandler) : Prop where
  holds : s.Exact
  fresh : ∀ i, s.service.accepted ≤ i → s.sockets i = none
  live : ∀ i t, s.sockets i = some t → t.destroyed = false → t.Open

theorem sound_start (flag : Bool) (db : Database) (nextID : Int32) :
    Sound (start flag db nextID) where
  holds :=
    { running := rfl
      map := by
        intro p i
        exact iff_of_false (fun h => (nomatch h)) (fun ⟨_, h, _⟩ => (nomatch h))
      closes := fun _ _ h => (nomatch h) }
  fresh := fun _ _ => rfl
  live := fun _ _ h => (nomatch h)

section
variable {s s' : UvHandler} {asserts : Bool} {a : Action}

/-- A session that is there is found under its socket. -/
theorem Sound.lookup (h : s.Sound) {i : ℕ} {t : ClientSocket} (hi : s.sockets i = some t)
    (ht : t.destroyed = false) : s._clientMap.lookup t.sock = some i :=
  (h.holds.map t.sock i).mpr ⟨t, hi, rfl, h.live i t hi ht⟩

/-- Two sessions that are there have different sockets. -/
theorem Sound.unique (h : s.Sound) {i j : ℕ} {t u : ClientSocket} (hi : s.sockets i = some t)
    (hj : s.sockets j = some u) (ht : t.destroyed = false) (hu : u.destroyed = false)
    (hsock : t.sock = u.sock) : i = j := by
  have hlookup := h.lookup hi ht
  rw [hsock, h.lookup hj hu] at hlookup
  exact (Option.some.inj hlookup).symm

theorem Sound.lt_accepted (h : s.Sound) {i : ℕ} {t : ClientSocket} (hi : s.sockets i = some t) :
    i < s.service.accepted := by
  by_contra hge
  rw [h.fresh i (by omega)] at hi
  exact nomatch hi

/-- The map has no entry for a fresh address. -/
theorem Sound.lookup_fresh (h : s.Sound) {p : ℕ} (hp : s.Fresh p) :
    s._clientMap.lookup p = none := by
  by_contra hne
  obtain ⟨i, hi⟩ := Option.ne_none_iff_exists'.mp hne
  obtain ⟨t, ht, hsock, hopen⟩ := (h.holds.map p i).mp hi
  exact hp i (h.lt_accepted ht) t ht hopen.1 hsock

/-- Steps that leave sockets and map alone. -/
theorem Sound.of_eq (h : s.Sound) (hmap : s'._clientMap = s._clientMap)
    (hsockets : s'.sockets = s.sockets) (hfailed : s'.failed = s.failed)
    (haccepted : s'.service.accepted = s.service.accepted) : s'.Sound where
  holds :=
    { running := by rw [hfailed, h.holds.running]
      map := by
        rw [hmap, hsockets]
        exact h.holds.map
      closes := by
        rw [hsockets]
        exact h.holds.closes }
  fresh := by
    rw [haccepted, hsockets]
    exact h.fresh
  live := by
    rw [hsockets]
    exact h.live

/-- One session gets a new socket state, and the map may change for it alone. -/
theorem Sound.of_update (h : s.Sound) {i : ℕ} {t' : ClientSocket}
    (hsockets : s'.sockets = Function.update s.sockets i (some t'))
    (hfailed : s'.failed = s.failed) (haccepted : s.service.accepted ≤ s'.service.accepted)
    (hi : i < s'.service.accepted)
    (hself : ∀ p, s'._clientMap.lookup p = some i ↔ t'.sock = p ∧ t'.Open)
    (hother : ∀ p j, j ≠ i → (s'._clientMap.lookup p = some j ↔ s._clientMap.lookup p = some j))
    (hcloses : t'.failed = true → t'.closed = true) (hlive : t'.destroyed = false → t'.Open) :
    s'.Sound := by
  have hat : s'.sockets i = some t' := by rw [hsockets, Function.update_self]
  have hne : ∀ j, j ≠ i → s'.sockets j = s.sockets j := by
    intro j hj
    rw [hsockets, Function.update_of_ne hj]
  refine ⟨⟨hfailed.trans h.holds.running, ?_, ?_⟩, ?_, ?_⟩
  · intro p j
    by_cases hj : j = i
    · rw [hj, hself, hat]
      simp
    · rw [hother p j hj, hne j hj]
      exact h.holds.map p j
  · intro j u hu
    by_cases hj : j = i
    · rw [hj, hat] at hu
      cases hu
      exact hcloses
    · rw [hne j hj] at hu
      exact h.holds.closes j u hu
  · intro j hj
    rw [hne j (by omega)]
    exact h.fresh j (by omega)
  · intro j u hu
    by_cases hj : j = i
    · rw [hj, hat] at hu
      cases hu
      exact hlive
    · rw [hne j hj] at hu
      exact h.live j u hu

/-- A session that is there gets another socket state, with the same address. -/
theorem Sound.put (h : s.Sound) {i : ℕ} {t t' : ClientSocket} (hi : s.sockets i = some t)
    (hopen : t.Open) (hsock : t'.sock = t.sock) (hopen' : t'.Open)
    (hcloses : t'.failed = true → t'.closed = true) : (s.put i t').Sound := by
  refine h.of_update rfl rfl (le_refl _) (h.lt_accepted hi) ?_ ?_ hcloses (fun _ => hopen')
  · intro p
    refine (h.holds.map p i).trans ?_
    simp [hi, hsock, hopen, hopen']
  · intro p j _
    exact Iff.rfl

/-- A session is taken out of the map and deleted. -/
theorem Sound.remove (h : s.Sound) {i : ℕ} {t t' : ClientSocket} (hi : s.sockets i = some t)
    (hopen : t.Open) (hdestroyed : t'.destroyed = true)
    (hcloses : t'.failed = true → t'.closed = true) :
    Sound (UvHandler.put { s with _clientMap := s._clientMap.erase t.sock } i t') := by
  have hclosed : ¬t'.destroyed = false := by
    rw [hdestroyed]
    exact fun heq => nomatch heq
  refine h.of_update rfl rfl (le_refl _) (h.lt_accepted hi) ?_ ?_ hcloses
    (fun heq => absurd heq hclosed)
  · -- The session itself is in no entry any more.
    intro p
    change (s._clientMap.erase t.sock).lookup p = some i ↔ _
    refine iff_of_false ?_ (fun hp => hclosed hp.2.1)
    by_cases hp : p = t.sock
    · rw [hp, AList.lookup_erase]
      exact fun heq => nomatch heq
    · rw [AList.lookup_erase_ne hp, h.holds.map p i, hi]
      rintro ⟨u, hu, hsock, _⟩
      cases hu
      exact hp hsock.symm
  · intro p j hj
    change (s._clientMap.erase t.sock).lookup p = some j ↔ _
    by_cases hp : p = t.sock
    · rw [hp, AList.lookup_erase, h.lookup hi hopen.1]
      refine iff_of_false (fun heq => nomatch heq) ?_
      exact fun heq => hj (Option.some.inj heq).symm
    · rw [AList.lookup_erase_ne hp]

/-- `uv_close` at an address where no session is. -/
theorem shut_eq {p : ℕ} (h : ∀ i t, s.sockets i = some t → t.destroyed = false → t.sock ≠ p) :
    s.shut p = s := by
  have hsockets : (s.shut p).sockets = s.sockets := by
    funext i
    cases hi : s.sockets i with
    | none => simp [shut, hi]
    | some t =>
        have hne : ¬(t.sock = p ∧ t.destroyed = false) := fun hand => h i t hi hand.2 hand.1
        simp [shut, hi, hne]
  calc s.shut p = { s with sockets := (s.shut p).sockets } := rfl
    _ = s := by rw [hsockets]

/-- No session that is there has this address. -/
theorem Sound.shut_of_lookup (h : s.Sound) {p : ℕ} (hp : s._clientMap.lookup p = none) :
    s.shut p = s := by
  refine shut_eq fun i t hi ht hsock => ?_
  have hlookup := h.lookup hi ht
  rw [hsock, hp] at hlookup
  exact nomatch hlookup

/-! ## New connections -/

theorem uvConnectCB_of_asserts {p c : ℕ} (accepted : Bool) (hp : s._clientMap.lookup p = none) :
    (s.uvConnectCB true accepted c p).failed = true := by
  simp [uvConnectCB, addClient, put, hp]

/-- Without assertions, a new session comes into the map. -/
theorem uvConnectCB_map {p c : ℕ} (accepted : Bool) (hp : s._clientMap.lookup p = none)
    (hrunning : s.failed = false) :
    (s.uvConnectCB false accepted c p)._clientMap = s._clientMap.insert p c ∧
      (s.uvConnectCB false accepted c p).sockets c =
        some { sock := p, closed := !accepted, failed := !accepted } := by
  cases accepted with
  | true => simp [uvConnectCB, addClient, put, hp, hrunning]
  | false => simp [uvConnectCB, addClient, put, hp, hrunning]

theorem uvConnectCB_of_accepted {p c : ℕ} (hp : s._clientMap.lookup p = none) :
    s.uvConnectCB false true c p =
      { s.put c { sock := p } with _clientMap := s._clientMap.insert p c } := by
  simp [uvConnectCB, addClient, put, hp]

theorem Sound.connect (h : s.Sound) {p : ℕ} (hp : s.Fresh p) {service : Service}
    (haccepted : service.accepted = s.service.accepted + 1) :
    Sound { s.put s.service.accepted { sock := p } with
      service := service, _clientMap := s._clientMap.insert p s.service.accepted } := by
  have hnone := h.lookup_fresh hp
  have hnew : s.service.accepted < service.accepted := by
    rw [haccepted]
    exact Nat.lt_succ_self _
  refine h.of_update rfl rfl hnew.le hnew ?_ ?_ (fun hfailed => nomatch hfailed)
    (fun _ => ⟨rfl, Or.inl rfl⟩)
  · intro k
    change (s._clientMap.insert p s.service.accepted).lookup k = some s.service.accepted ↔ _
    by_cases hk : k = p
    · rw [hk, AList.lookup_insert]
      simp [ClientSocket.Open]
    · rw [AList.lookup_insert_ne hk]
      refine iff_of_false ?_ (fun heq => hk heq.1.symm)
      intro hlookup
      obtain ⟨t, ht, _⟩ := (h.holds.map k _).mp hlookup
      exact Nat.lt_irrefl _ (h.lt_accepted ht)
  · intro k j hj
    change (s._clientMap.insert p s.service.accepted).lookup k = some j ↔ _
    by_cases hk : k = p
    · rw [hk, AList.lookup_insert, hnone]
      exact iff_of_false (fun heq => hj (Option.some.inj heq).symm) (fun heq => nomatch heq)
    · rw [AList.lookup_insert_ne hk]

/-! ## The end of a session -/

theorem Sound.readFailed (h : s.Sound) {i : ℕ} {t : ClientSocket} (hi : s.reading i = some t)
    {stray : Bool} {r : FailedRead} (hnamed : s.Named i stray) (hclosing : r.Closing)
    (hharmless : r.Harmless) : (s.uvReadFailed i stray t r).Sound := by
  have hsocket := reading_eq_some hi
  rw [uvReadFailed, if_pos hnamed, if_pos hclosing, if_pos hharmless]
  exact h.put hsocket.1 ⟨hsocket.2.2, Or.inl hsocket.2.1⟩ rfl ⟨hsocket.2.2, Or.inr rfl⟩
    fun _ => rfl

theorem uvCloseCB_of_lookup {i j : ℕ} {t : ClientSocket} (h : s._clientMap.lookup t.sock = some j) :
    s.uvCloseCB i t = UvHandler.put { s with _clientMap := s._clientMap.erase t.sock } i
      { t with pending := false, destroyed := true } := by
  simp [uvCloseCB, clientDisconnect, h]

theorem Sound.closed (h : s.Sound) {i : ℕ} {t : ClientSocket} (hi : s.sockets i = some t)
    (ht : t.destroyed = false) : (s.uvCloseCB i t).Sound := by
  rw [uvCloseCB_of_lookup (h.lookup hi ht)]
  exact h.remove hi (h.live i t hi ht) rfl (h.holds.closes i t hi)

/-- `RemoveClient` finds the session that it has erased. -/
theorem Sound.stopHandle_of_some (h : s.Sound) {p i : ℕ} (hp : s._clientMap.lookup p = some i) :
    ∃ t, s.sockets i = some t ∧ t.sock = p ∧ t.Open ∧ s.stopHandle p (some i) =
      UvHandler.put { s with _clientMap := s._clientMap.erase p } i
        { t with closed := true, destroyed := true } := by
  obtain ⟨t, hi, rfl, hopen⟩ := (h.holds.map p i).mp hp
  have hshut : (UvHandler.put { s with _clientMap := s._clientMap.erase t.sock } i
      { t with closed := true, destroyed := true }).shut t.sock = _ :=
    (h.remove hi hopen rfl fun _ => rfl).shut_of_lookup (AList.lookup_erase _ _)
  refine ⟨t, hi, rfl, hopen, ?_⟩
  simpa [stopHandle, removeClient, hp, hi] using hshut

theorem Sound.stopHandle (h : s.Sound) {p : ℕ} {second : Option ℕ}
    (hgood : ∀ i ∈ s._clientMap.lookup p, second = some i) : (s.stopHandle p second).Sound := by
  cases hp : s._clientMap.lookup p with
  | none =>
      have hstop : s.stopHandle p second = s.shut p := by
        simp [UvHandler.stopHandle, removeClient, hp]
      rw [hstop, h.shut_of_lookup hp]
      exact h
  | some i =>
      obtain ⟨t, hi, hsock, hopen, hstop⟩ := h.stopHandle_of_some hp
      rw [hgood i hp, hstop, ← hsock]
      exact h.remove hi hopen rfl fun _ => rfl

/-! ## Steps -/

theorem Orderly.named (hgood : s.Orderly asserts a) {i : ℕ} {stray : Bool}
    (ha : looksUp a = some (i, stray)) : s.Named i stray := by
  cases a with
  | read | message =>
      cases ha
      exact hgood
  | _ => exact nomatch ha

/-- **Orderly steps keep the invariant.** -/
theorem sound_step (h : s.Sound) (hgood : s.Orderly asserts a)
    (hstep : s.step asserts a = some s') : s'.Sound := by
  cases (step_spec hstep).2 with
  | connect hfresh hservice =>
      rename_i service
      rw [hgood.1, hgood.2, uvConnectCB_of_accepted (s := { s with service := service })
        (h.lookup_fresh hfresh)]
      exact h.connect hfresh (accepted_of_accept hservice)
  | served hb _ hservice =>
      exact h.of_eq rfl rfl rfl (Service.accepted_step hservice (behind_ne_accept hb))
  | read _ => exact h
  | @nameless a i stray ha hnamed => exact absurd (hgood.named ha) hnamed
  | readFailed hi => exact h.readFailed hi hgood.1 hgood.2.1 hgood.2.2
  | closed hi _ => exact h.closed hi (hgood _ hi)
  | stopHandle p second => exact h.stopHandle hgood
  | flush => exact h.of_eq rfl rfl rfl rfl

/-! ## What a step does to the map -/

theorem Sound.right_connect (h : s.Sound) {p : ℕ} {accepted : Bool} {service : Service}
    (hp : s.Fresh p) (hs' : s' = uvConnectCB asserts accepted s.service.accepted p
      { s with service := service }) :
    s'.Exact → s.Orderly asserts (.connect p accepted) := by
  intro hexact
  have hnone := h.lookup_fresh hp
  cases asserts with
  | true =>
      have hfailed := uvConnectCB_of_asserts (s := { s with service := service })
        (c := s.service.accepted) accepted hnone
      rw [← hs', hexact.running] at hfailed
      exact nomatch hfailed
  | false =>
      have hmap := uvConnectCB_map (s := { s with service := service })
        (c := s.service.accepted) accepted hnone h.holds.running
      rw [← hs'] at hmap
      have hlookup : s'._clientMap.lookup p = some s.service.accepted := by
        rw [hmap.1, AList.lookup_insert]
      obtain ⟨t, ht, _, hopen⟩ := (hexact.map _ _).mp hlookup
      rw [hmap.2] at ht
      cases ht
      refine ⟨rfl, ?_⟩
      cases accepted with
      | true => rfl
      | false =>
          rcases hopen.2 with hclosed | hpending
          · exact nomatch hclosed
          · exact nomatch hpending

theorem right_readFailed {i : ℕ} {t : ClientSocket} {stray : Bool} {r : FailedRead}
    (hi : s.reading i = some t) (hexact : (s.uvReadFailed i stray t r).Exact) :
    s.Orderly asserts (.readFailed i stray r) := by
  have hrunning := hexact.running
  by_cases hnamed : s.Named i stray
  · rw [uvReadFailed_of_named t r hnamed] at hrunning hexact
    refine ⟨hnamed, ?_, ?_⟩
    · by_contra hclosing
      rw [if_neg hclosing] at hexact
      have hclosed := hexact.closes i _ (put_sockets_self i _) rfl
      rw [(reading_eq_some hi).2.1] at hclosed
      exact nomatch hclosed
    · exact (Bool.or_eq_false_iff.mp hrunning).2
  · rw [uvReadFailed_of_nameless t r hnamed] at hrunning
    exact nomatch hrunning

theorem lookup_insert_eq (m : AList fun _ : ℕ => ℕ) (p c k : ℕ) :
    (m.insert p c).lookup k = if k = p then some c else m.lookup k := by
  by_cases hk : k = p
  · rw [hk, AList.lookup_insert, if_pos rfl]
  · rw [AList.lookup_insert_ne hk, if_neg hk]

theorem lookup_erase_eq (m : AList fun _ : ℕ => ℕ) (p k : ℕ) :
    (m.erase p).lookup k = if k = p then none else m.lookup k := by
  by_cases hk : k = p
  · rw [hk, AList.lookup_erase, if_pos rfl]
  · rw [AList.lookup_erase_ne hk, if_neg hk]

@[simp] theorem uvReadFailed_map (i : ℕ) (stray : Bool) (t : ClientSocket) (r : FailedRead) :
    (s.uvReadFailed i stray t r)._clientMap = s._clientMap := by
  by_cases hnamed : s.Named i stray
  · rw [uvReadFailed_of_named t r hnamed]
    rfl
  · rw [uvReadFailed_of_nameless t r hnamed]

/-- Orderly steps change the entry they should, and no other. -/
theorem Sound.moves (h : s.Sound) (hgood : s.Orderly asserts a)
    (hstep : s.step asserts a = some s') : s.Moves a s' := by
  cases (step_spec hstep).2 with
  | connect hfresh hservice =>
      rename_i p accepted service
      have hnone := h.lookup_fresh hfresh
      refine ⟨hnone, fun k => ?_⟩
      rw [hgood.1, (uvConnectCB_map (s := { s with service := service }) accepted hnone
        h.holds.running).1]
      exact lookup_insert_eq _ _ _ _
  | served hb _ _ =>
      cases a with
      | connect => exact nomatch hb
      | readFailed => exact nomatch hb
      | closed => exact nomatch hb
      | stopHandle => exact nomatch hb
      | _ => exact fun _ => rfl
  | read _ => exact fun _ => rfl
  | nameless ha hnamed => exact absurd (hgood.named ha) hnamed
  | readFailed hi =>
      intro k
      rw [uvReadFailed_map]
  | closed hi _ =>
      rename_i i t _
      intro u hu
      rw [hi] at hu
      cases hu
      have hlookup := h.lookup hi (hgood t hi)
      refine ⟨hlookup, fun k => ?_⟩
      rw [uvCloseCB_of_lookup hlookup]
      exact lookup_erase_eq _ _ _
  | stopHandle p second =>
      cases hp : s._clientMap.lookup p with
      | none =>
          have hstop : s.stopHandle p second = s.shut p := by
            simp [UvHandler.stopHandle, removeClient, hp]
          refine ⟨by simp [removeClient, hp], fun k => ?_⟩
          rw [hstop, h.shut_of_lookup hp]
          by_cases hk : k = p
          · rw [hk, if_pos rfl, hp]
          · rw [if_neg hk]
      | some i =>
          obtain ⟨t, _, _, _, hstop⟩ := h.stopHandle_of_some hp
          have hsecond := hgood i hp
          refine ⟨by simp [removeClient, hp, hsecond], fun k => ?_⟩
          rw [hsecond, hstop]
          exact lookup_erase_eq _ _ _
  | flush => exact fun _ => rfl

/-- **What makes a step right.** -/
theorem right_iff (h : s.Sound) (hstep : s.step asserts a = some s') :
    s.Right asserts a ↔ s.Orderly asserts a := by
  constructor
  · intro hright
    obtain ⟨hexact, hmoves⟩ := hright s' hstep
    cases (step_spec hstep).2 with
    | connect hfresh hservice => exact h.right_connect hfresh rfl hexact
    | served hb hreads _ =>
        cases a with
        | connect => exact nomatch hb
        | read => exact nomatch hb
        | message i stray => exact (hreads i stray rfl).2
        | readFailed => exact nomatch hb
        | closed => exact nomatch hb
        | stopHandle => exact nomatch hb
        | _ => trivial
    | read hnamed => exact hnamed
    | nameless ha hnamed => exact nomatch hexact.running
    | readFailed hi => exact right_readFailed hi hexact
    | closed hi _ =>
        intro t ht
        obtain ⟨u, hu, _, hopen⟩ := (h.holds.map _ _).mp (hmoves t ht).1
        rw [ht] at hu
        cases hu
        exact hopen.1
    | stopHandle p second =>
        intro i hi
        have hi : s._clientMap.lookup p = some i := hi
        have hfirst := hmoves.1
        simp only [removeClient, hi] at hfirst
        exact hfirst
    | flush => trivial
  · intro hgood t ht
    rw [hstep] at ht
    cases ht
    exact ⟨(sound_step h hgood hstep).holds, h.moves hgood hstep⟩

end

end UvHandler

namespace Sample

def visit : List UvHandler.Action :=
  [.connect 7 true, .message 0 true surroundings (hello "m-2"), .readFailed 0 false hangUp,
    .closed 0]

end Sample

namespace UvHandler

end UvHandler
end ClientService
