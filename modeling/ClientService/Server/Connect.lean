import ClientService.Lib.Objects
import ClientService.Lib.Transition
import ClientService.Lib.Mirror
import ClientService.Server.Database

/-!
# `Database::Connect`

The loop that makes up to five connections and keeps the last. It deletes `conn` when the
constructor throws, although nothing has been assigned, and overwrites `conn` when it does not.
The first call finds a null pointer; a reconnect finds the connection that was lost.

## Main definitions

* `Connector`, `Connector.connect` — the class with its pointer, and the function.
* `Connector.step` — calls, signals, a lost connection, and the destructor.
* `Connector.Keeps` — the promise for a step.
* `Connector.Fitting` — the steps that keep it.
* `Connector.Pointer.ending` — how a call ends, as far as its pointer decides.
-/

namespace ClientService

open Fallible (get modify throw require)
open Transition (run Meets)

/-- The end of one attempt: the constructor throws `broken_connection`, or the connection it
returns is closed or open. -/
inductive Attempt where
  | throws
  | closed
  | opens
  deriving DecidableEq, Repr

/-- How a call ends that does not return. -/
inductive ConnectFault where
  /-- An object that does not live is read or deleted. -/
  | dead
  | database (e : DbException)
  | assertion
  deriving DecidableEq, Repr

/-- The class `Database` with the connection objects. -/
structure Connector where
  /-- The objects, and whether they are open. -/
  objects : Objects Bool := {}
  conn : Option ℕ := none
  db : Database
  /-- The statements prepared on each object. -/
  prepared : List (ℕ × String) := []
  /-- The number of attempts so far. -/
  attempts : ℕ := 0
  /-- `SetupSignals` has been called. -/
  signals : Bool := false
  /-- The loop is stopping. -/
  stopping : Bool := false
  destroyed : Bool := false
  fault : Option ConnectFault := none

/-- A computation on the class. -/
abbrev Connecting (α : Type) : Type := Fallible Connector ConnectFault α

namespace Connector

/-! ## The functions -/

/-- `conn->is_open()`. -/
def isOpen : Connecting Bool := do
  let s ← get
  match s.objects.read s.conn with
  | some b => pure b
  | none => throw .dead

/-- `delete conn`. The pointer keeps its value. -/
def deleteConn : Connecting Unit := do
  let s ← get
  match s.objects.delete s.conn with
  | some objects => modify fun s => { s with objects := objects }
  | none => throw .dead

/-- `conn = new pqxx::connection(connectionString)`. -/
def newConn (b : Bool) : Connecting Unit :=
  modify fun s => { s with objects := s.objects.new b, conn := some s.objects.created.length }

/-- The body of the loop: whether it breaks. -/
def tryConnect (a : Attempt) : Connecting Bool := do
  modify fun s => { s with attempts := s.attempts + 1 }
  match a with
  | .throws => do
      deleteConn
      pure false
  | .closed => do
      newConn false
      isOpen
  | .opens => do
      newConn true
      isOpen

/-- The loop, for the attempts that are left. -/
def connectLoop : List Attempt → Connecting Unit
  | [] => pure ()
  | a :: as => do
      let b ← tryConnect a
      if b = true then pure () else connectLoop as

/-- `GetAllClients`. -/
def loadClients (asserts : Bool) : Connecting Unit := fun s =>
  match Database.getAllClients s.db with
  | (.ok complete, db) =>
      if asserts = true ∧ complete = false then (.error .assertion, { s with db := db })
      else (.ok (), { s with db := db })
  | (.error e, db) => (.error (.database e), { s with db := db })

/-- `conn->prepare(name, …)`. -/
def prepare (name : String) : Connecting Unit :=
  modify fun s => { s with prepared := s.prepared ++ s.conn.toList.map fun i => (i, name) }

/-- `Connect` behind its loop. -/
def conclude (asserts : Bool) : Connecting Bool := do
  let b ← isOpen
  if b = true then do
    loadClients asserts
    prepare "insertEvent"
    prepare "insertEventXML"
    prepare "insertClient"
    pure true
  else pure false

/-- `Connect`. `outcome` says how each attempt ends. -/
def connect (asserts : Bool) (outcome : ℕ → Attempt) : Connecting Bool := do
  connectLoop ((List.range 5).map outcome)
  conclude asserts

/-- `SIGPIPEHandler`. -/
def sigpipeHandler (asserts : Bool) (outcome : ℕ → Attempt) : Connecting Unit := do
  let status ← isOpen
  if status = true then pure ()
  else do
    let status ← connect asserts outcome
    if status = true then pure () else modify fun s => { s with stopping := true }

/-- The beginning of `main`: signals are handled once there is a connection. -/
def startup (asserts : Bool) (outcome : ℕ → Attempt) : Connecting Unit := do
  let b ← connect asserts outcome
  if b = true then modify fun s => { s with signals := true } else pure ()

/-- The destructor. -/
def destroy : Connecting Unit := do
  deleteConn
  modify fun s => { s with destroyed := true }

/-! ## Steps -/

inductive Action where
  | startup (outcome : ℕ → Attempt)
  | sigpipe (outcome : ℕ → Attempt)
  /-- The connection breaks. -/
  | lose
  /-- The sessions work with the database. -/
  | serve (db : Database)
  | destroy

/-- The state after a computation. -/
def after {α : Type} (x : Connecting α) (s : Connector) : Connector :=
  match x s with
  | (.ok _, s) => s
  | (.error e, s) => { s with fault := some e }

/-- When a step is possible: the object exists and the process runs, the signal is handled, and
the column for the machine's id is unique. -/
def Possible (s : Connector) (a : Action) : Prop :=
  s.destroyed = false ∧ s.fault = none ∧
    match a with
    | .sigpipe _ => s.signals = true
    | .serve db => (db.tables.client.map ClientRow.clientUniqueID).Nodup
    | _ => True

instance (s : Connector) (a : Action) : Decidable (s.Possible a) :=
  match a with
  | .startup _ => inferInstanceAs (Decidable (_ ∧ _ ∧ True))
  | .sigpipe _ => inferInstanceAs (Decidable (_ ∧ _ ∧ s.signals = true))
  | .lose => inferInstanceAs (Decidable (_ ∧ _ ∧ True))
  | .serve db => inferInstanceAs
      (Decidable (_ ∧ _ ∧ (db.tables.client.map ClientRow.clientUniqueID).Nodup))
  | .destroy => inferInstanceAs (Decidable (_ ∧ _ ∧ True))

/-- The state after an action. -/
def act (asserts : Bool) (s : Connector) : Action → Connector
  | .startup outcome => after (startup asserts outcome) s
  | .sigpipe outcome => after (sigpipeHandler asserts outcome) s
  | .lose => { s with objects := s.objects.write false s.conn }
  | .serve db => { s with db := db }
  | .destroy => after destroy s

def step (asserts : Bool) (s : Connector) (a : Action) : Option Connector :=
  if s.Possible a then some (s.act asserts a) else none

/-- A new object. -/
def fresh (db : Database) : Connector where
  db := db

/-! ## The promise -/

/-- Every row of the table is in the map. -/
def Loaded (db : Database) : Prop :=
  ∀ r ∈ db.tables.client, db._clients.lookup r.clientUniqueID = some (Database.ofRow r)

/-- The three statements are prepared on the object that `conn` points to. -/
def Prepared (s : Connector) : Prop :=
  ∀ name ∈ ["insertEvent", "insertEventXML", "insertClient"], ∃ i, s.conn = some i ∧
    (i, name) ∈ s.prepared

/-- A call makes at most five attempts, and returns whether the connection is open; when it is,
everything is there. -/
structure Answers (s : Connector) (r : Except ConnectFault Bool × Connector) : Prop where
  attempts : r.2.attempts ≤ s.attempts + 5
  returns : ∀ b, r.1 = .ok b → (b = true ↔ r.2.objects.read r.2.conn = some true)
  ready : r.1 = .ok true → Loaded r.2.db ∧ r.2.Prepared

/-- The call of `Connect` in a step. -/
def called (asserts : Bool) (s : Connector) : Action → Option (Except ConnectFault Bool × Connector)
  | .startup outcome => some (connect asserts outcome s)
  | .sigpipe outcome =>
      match isOpen s with
      | (.ok false, s) => some (connect asserts outcome s)
      | _ => none
  | _ => none

/-- No dead object is touched; while the object exists, `conn` is null or points to the only
connection that lives; when it is destroyed every connection has been deleted once. -/
structure Kept (s : Connector) : Prop where
  fault : s.fault ≠ some .dead
  owns : s.destroyed = false → s.objects.Owns s.conn
  deleted : s.destroyed = true → ∀ i < s.objects.created.length, s.objects.deleted.count i = 1

/-- The promise for a step. -/
def Keeps (asserts : Bool) (s : Connector) (a : Action) : Prop :=
  ∀ s' ∈ s.step asserts a, s'.Kept ∧ ∀ r ∈ s.called asserts a, Answers s r

/-! ## The condition -/

/-- What `conn` is between two attempts. -/
inductive Pointer where
  | null
  | live
  /-- The object has been deleted. -/
  | dangling
  deriving DecidableEq, Repr

/-- What `delete conn` makes of it. -/
def Pointer.deleted : Pointer → Pointer
  | .null => .null
  | .live => .dangling
  | .dangling => .dangling

/-- How the loop and the test behind it end: with an open connection, with a closed one, or at an
object that does not live. -/
inductive Ending where
  | opens
  | fails
  | dies
  deriving DecidableEq, Repr

/-- The end of a call, from what `conn` is and the attempts that are left. -/
def Pointer.ending : Pointer → List Attempt → Ending
  | p, [] => if p = .live then .fails else .dies
  -- The second `delete` of one object is not survived.
  | p, .throws :: as => if p = .dangling then .dies else p.deleted.ending as
  | _, .closed :: as => Pointer.live.ending as
  | _, .opens :: _ => .opens

/-- The attempts that are left suit the pointer: one that throws does not find it dangling, one
that makes a connection does not find it living, and at the end it lives. -/
def Fits : Pointer → List Attempt → Prop
  | p, [] => p = .live
  | p, .throws :: as => p ≠ .dangling ∧ Fits p.deleted as
  | p, .closed :: as => p ≠ .live ∧ Fits .live as
  | p, .opens :: _ => p ≠ .live

instance decidableFits : ∀ p as, Decidable (Fits p as)
  | p, .opens :: _ => inferInstanceAs (Decidable (p ≠ .live))
  | p, .closed :: as =>
      have := decidableFits .live as
      inferInstanceAs (Decidable (p ≠ .live ∧ Fits .live as))
  | p, .throws :: as =>
      have := decidableFits p.deleted as
      inferInstanceAs (Decidable (p ≠ .dangling ∧ Fits p.deleted as))
  | p, [] => inferInstanceAs (Decidable (p = .live))

/-- What `conn` is before a call. -/
def pointer (s : Connector) : Pointer := if s.conn = none then .null else .live

/-- The calls of a step suit the pointer that they find. -/
def Fitting (s : Connector) (a : Action) : Prop :=
  s.Possible a →
    match a with
    | .startup outcome => Fits s.pointer ((List.range 5).map outcome)
    | .sigpipe outcome => s.objects.read s.conn ≠ some true →
        Fits s.pointer ((List.range 5).map outcome)
    | _ => True

instance (s : Connector) (a : Action) : Decidable (s.Fitting a) :=
  match a with
  | .sigpipe outcome => inferInstanceAs (Decidable (s.Possible (.sigpipe outcome) →
      s.objects.read s.conn ≠ some true → Fits s.pointer ((List.range 5).map outcome)))
  | .startup outcome => inferInstanceAs (Decidable (s.Possible (.startup outcome) →
      Fits s.pointer ((List.range 5).map outcome)))
  | .lose => inferInstanceAs (Decidable (s.Possible .lose → True))
  | .serve db => inferInstanceAs (Decidable (s.Possible (.serve db) → True))
  | .destroy => inferInstanceAs (Decidable (s.Possible .destroy → True))

/-! ## The pointer -/

section
variable {asserts : Bool} {s s' : Connector} {b : Bool}

/-- What `conn` is, with the objects. -/
def Is (s : Connector) : Pointer → Prop
  | .null => s.conn = none ∧ s.objects.Owns none
  | .live => s.conn ≠ none ∧ s.objects.Owns s.conn
  | .dangling => s.conn ≠ none ∧ s.objects.Owns none

/-- The rest of the state is as it was, after at most `n` attempts. -/
structure Attempted (n : ℕ) (s s' : Connector) : Prop where
  attempts : s'.attempts ≤ s.attempts + n
  db : s'.db = s.db
  signals : s'.signals = s.signals
  destroyed : s'.destroyed = s.destroyed
  fault : s'.fault = s.fault

theorem Attempted.trans {n m : ℕ} {s₁ s₂ s₃ : Connector} (h : Attempted n s₁ s₂)
    (h' : Attempted m s₂ s₃) : Attempted (n + m) s₁ s₃ where
  attempts := by
    have h₁ := h.attempts
    have h₂ := h'.attempts
    omega
  db := h'.db.trans h.db
  signals := h'.signals.trans h.signals
  destroyed := h'.destroyed.trans h.destroyed
  fault := h'.fault.trans h.fault

theorem isOpen_eq (s : Connector) : isOpen s =
    match s.objects.read s.conn with
    | some b => (.ok b, s)
    | none => (.error .dead, s) := by
  rw [isOpen, Fallible.get_bind]
  cases s.objects.read s.conn with
  | some b => rfl
  | none => rfl

theorem isOpen_of_live (h : s.Is .live) :
    ∃ b, s.objects.read s.conn = some b ∧ isOpen s = (.ok b, s) := by
  obtain ⟨hconn, howns⟩ := h
  obtain ⟨i, hi⟩ := Option.ne_none_iff_exists'.mp hconn
  rw [hi] at howns
  obtain ⟨b, hb⟩ := howns.exists_read
  rw [← hi] at hb
  refine ⟨b, hb, ?_⟩
  rw [isOpen_eq, hb]

theorem isOpen_of_owns_none (h : s.objects.Owns none) : isOpen s = (.error .dead, s) := by
  rw [isOpen_eq, h.read_none]

theorem deleteConn_eq (s : Connector) : deleteConn s =
    match s.objects.delete s.conn with
    | some objects => (.ok (), { s with objects := objects })
    | none => (.error .dead, s) := by
  rw [deleteConn, Fallible.get_bind]
  cases s.objects.delete s.conn with
  | some objects => rfl
  | none => rfl

/-- The state before the body of an attempt. -/
def tried (s : Connector) : Connector := { s with attempts := s.attempts + 1 }

/-- The state after a new connection. -/
def connected (b : Bool) (s : Connector) : Connector :=
  { s with objects := s.objects.new b, conn := some s.objects.created.length }

theorem attempted_connected : Attempted 1 s (s.tried.connected b) :=
  ⟨le_rfl, rfl, rfl, rfl, rfl⟩

/-! ## One attempt -/

theorem tryConnect_throws (s : Connector) : tryConnect .throws s =
    match s.objects.delete s.conn with
    | some objects => (.ok false, { s.tried with objects := objects })
    | none => (.error .dead, s.tried) := by
  rw [tryConnect, Fallible.modify_bind]
  have hdelete := deleteConn_eq s.tried
  cases hobj : s.objects.delete s.conn with
  | some objects =>
      rw [show s.tried.objects.delete s.tried.conn = some objects from hobj] at hdelete
      exact Fallible.bind_of_ok hdelete _
  | none =>
      rw [show s.tried.objects.delete s.tried.conn = none from hobj] at hdelete
      exact Fallible.bind_of_error hdelete _

/-- An attempt that makes a connection ends with the test whether it is open. -/
theorem tryConnect_new {a : Attempt} (ha : a ≠ .throws) (s : Connector) :
    tryConnect a s = isOpen (s.tried.connected (decide (a = .opens))) := by
  cases a with
  | throws => exact absurd rfl ha
  | closed => rfl
  | opens => rfl

theorem is_connected (h : s.objects.Owns none) : (s.tried.connected b).Is .live :=
  ⟨by simp [connected], h.new⟩

theorem isOpen_connected (h : ∀ i ∈ s.objects.deleted, i < s.objects.created.length) :
    isOpen (s.tried.connected b) = (.ok b, s.tried.connected b) := by
  rw [isOpen_eq]
  have hread : (s.tried.connected b).objects.read (s.tried.connected b).conn = some b :=
    Objects.read_new h
  rw [hread]

/-! ## The loop -/

theorem connectLoop_cons (a : Attempt) (as : List Attempt) :
    connectLoop (a :: as) =
      tryConnect a >>= fun b => if b = true then pure () else connectLoop as := rfl

/-- An attempt that makes an open connection ends the loop. -/
theorem connectLoop_opens (h : ∀ i ∈ s.objects.deleted, i < s.objects.created.length)
    (as : List Attempt) : connectLoop (.opens :: as) s = (.ok (), s.tried.connected true) := by
  have htry : tryConnect .opens s = (.ok true, s.tried.connected true) := by
    rw [tryConnect_new (by decide)]
    exact isOpen_connected h
  rw [connectLoop_cons, Fallible.bind_of_ok htry]
  rfl

theorem connectLoop_closed (h : ∀ i ∈ s.objects.deleted, i < s.objects.created.length)
    (as : List Attempt) : connectLoop (.closed :: as) s = connectLoop as (s.tried.connected false) := by
  have htry : tryConnect .closed s = (.ok false, s.tried.connected false) := by
    rw [tryConnect_new (by decide)]
    exact isOpen_connected h
  rw [connectLoop_cons, Fallible.bind_of_ok htry]
  rfl

theorem connectLoop_throws {objects : Objects Bool}
    (h : s.objects.delete s.conn = some objects) (as : List Attempt) :
    connectLoop (.throws :: as) s = connectLoop as { s.tried with objects := objects } := by
  have htry : tryConnect .throws s = (.ok false, { s.tried with objects := objects }) := by
    rw [tryConnect_throws, h]
  rw [connectLoop_cons, Fallible.bind_of_ok htry]
  rfl

theorem connectLoop_throws_dead (h : s.objects.delete s.conn = none) (as : List Attempt) :
    connectLoop (.throws :: as) s = (.error .dead, s.tried) := by
  have htry : tryConnect .throws s = (.error .dead, s.tried) := by
    rw [tryConnect_throws, h]
  rw [connectLoop_cons, Fallible.bind_of_error htry]

theorem Is.owns_none {p : Pointer} (h : s.Is p) (hp : p ≠ .live) : s.objects.Owns none := by
  cases p with
  | null => exact h.2
  | live => exact absurd rfl hp
  | dangling => exact h.2

/-- The `catch` clause deletes what the pointer is for. -/
theorem Is.delete {p : Pointer} (h : s.Is p) (hp : p ≠ .dangling) :
    ∃ objects, s.objects.delete s.conn = some objects ∧
      ({ s.tried with objects := objects } : Connector).Is p.deleted := by
  cases p with
  | null =>
      refine ⟨s.objects, ?_, h⟩
      rw [h.1]
      rfl
  | live =>
      obtain ⟨i, hi⟩ := Option.ne_none_iff_exists'.mp h.1
      have howns := h.2
      rw [hi] at howns
      obtain ⟨o, ho, hnone⟩ := howns.delete
      rw [← hi] at ho
      exact ⟨o, ho, h.1, hnone⟩
  | dangling => exact absurd rfl hp

theorem Is.delete_dangling (h : s.Is .dangling) : s.objects.delete s.conn = none := by
  obtain ⟨i, hi⟩ := Option.ne_none_iff_exists'.mp h.1
  rw [hi]
  exact h.2.delete_none i

/-- **The loop with attempts that suit the pointer** ends with the only connection that lives. -/
theorem connectLoop_of_fits {p : Pointer} {as : List Attempt} (hfits : Fits p as) (h : s.Is p) :
    ∃ s', connectLoop as s = (.ok (), s') ∧ s'.Is .live ∧ Attempted as.length s s' := by
  induction as generalizing p s with
  | nil =>
      cases hfits
      exact ⟨s, rfl, h, le_rfl, rfl, rfl, rfl, rfl⟩
  | cons a as ih =>
      have hlen : (a :: as).length = 1 + as.length := Nat.add_comm _ _
      cases a with
      | throws =>
          obtain ⟨o, hdelete, hdeleted⟩ := h.delete hfits.1
          obtain ⟨s', hloop, hlive, hframe⟩ := ih hfits.2 hdeleted
          have hstep : Attempted 1 s { s.tried with objects := o } :=
            ⟨le_rfl, rfl, rfl, rfl, rfl⟩
          rw [connectLoop_throws hdelete, hlen]
          exact ⟨s', hloop, hlive, hstep.trans hframe⟩
      | closed =>
          have hnone := h.owns_none hfits.1
          obtain ⟨s', hloop, hlive, hframe⟩ := ih hfits.2 (is_connected hnone)
          rw [connectLoop_closed hnone.lt, hlen]
          exact ⟨s', hloop, hlive, attempted_connected.trans hframe⟩
      | opens =>
          have hnone := h.owns_none hfits
          refine ⟨_, connectLoop_opens hnone.lt as, is_connected hnone, ?_⟩
          exact ⟨by simp [connected, tried], rfl, rfl, rfl, rfl⟩

/-- A dead object is touched, or a connection is lost for good. -/
def Spoilt {α : Type} (r : Except ConnectFault α × Connector) : Prop :=
  r.1 = .error .dead ∨ r.2.objects.Leaks r.2.conn

/-- An attempt that leaves a connection to nobody. -/
theorem connectLoop_new_of_leaks {a : Attempt} (ha : a ≠ .throws) {as : List Attempt}
    (hleaks : (s.objects.new (decide (a = .opens))).Leaks (some s.objects.created.length))
    (hrest : ∀ s' : Connector, s'.objects.Leaks s'.conn → Spoilt (connectLoop as s')) :
    Spoilt (connectLoop (a :: as) s) := by
  have htry := tryConnect_new ha s
  rw [isOpen_eq] at htry
  rw [connectLoop_cons]
  cases hread : (s.tried.connected (decide (a = .opens))).objects.read
      (s.tried.connected (decide (a = .opens))).conn with
  | none =>
      rw [hread] at htry
      rw [Fallible.bind_of_error htry]
      exact Or.inl rfl
  | some b =>
      rw [hread] at htry
      rw [Fallible.bind_of_ok htry]
      by_cases hb : b = true
      · rw [if_pos hb]
        exact Or.inr hleaks
      · rw [if_neg hb]
        exact hrest _ hleaks

/-- A connection that nothing points to stays. -/
theorem connectLoop_of_leaks (as : List Attempt) (h : s.objects.Leaks s.conn) :
    Spoilt (connectLoop as s) := by
  induction as generalizing s with
  | nil => exact Or.inr h
  | cons a as ih =>
      by_cases ha : a = .throws
      · rw [ha]
        cases hdelete : s.objects.delete s.conn with
        | none =>
            rw [connectLoop_throws_dead hdelete]
            exact Or.inl rfl
        | some o =>
            rw [connectLoop_throws hdelete]
            exact ih (s := { s.tried with objects := o }) (h.delete hdelete)
      · exact connectLoop_new_of_leaks ha h.new fun _ hs => ih hs

/-- **The loop with attempts that do not suit the pointer** touches a dead object, loses a
connection, or ends with none. -/
theorem connectLoop_of_not_fits {p : Pointer} {as : List Attempt} (hfits : ¬ Fits p as)
    (h : s.Is p) : Spoilt (connectLoop as s) ∨
      ∃ s', connectLoop as s = (.ok (), s') ∧ s'.objects.Owns none := by
  induction as generalizing p s with
  | nil => exact Or.inr ⟨s, rfl, h.owns_none hfits⟩
  | cons a as ih =>
      by_cases ha : a = .throws
      · rw [ha] at hfits ⊢
        by_cases hp : p = .dangling
        · rw [hp] at h
          rw [connectLoop_throws_dead h.delete_dangling]
          exact Or.inl (Or.inl rfl)
        · obtain ⟨o, hdelete, hdeleted⟩ := h.delete hp
          rw [connectLoop_throws hdelete]
          exact ih (fun hrest => hfits ⟨hp, hrest⟩) hdeleted
      · by_cases hp : p = .live
        · -- The connection that lives is overwritten.
          rw [hp] at h
          obtain ⟨i, hi⟩ := Option.ne_none_iff_exists'.mp h.1
          have hlive := (h.2.live i).mpr hi
          exact Or.inl (connectLoop_new_of_leaks ha (Objects.leaks_new hlive)
            fun _ hs => connectLoop_of_leaks as hs)
        · have hnone := h.owns_none hp
          cases a with
          | throws => exact absurd rfl ha
          | opens => exact absurd hp hfits
          | closed =>
              rw [connectLoop_closed hnone.lt]
              exact ih (fun hrest => hfits ⟨hp, hrest⟩) (is_connected hnone)

/-! ## Where a call ends -/

/-- What `conn` is for the loop, whatever else lives. A connection that lives is closed. -/
structure Points (s : Connector) (p : Pointer) : Prop where
  lt : ∀ i ∈ s.objects.deleted, i < s.objects.created.length
  conn : match p with
    | .null => s.conn = none
    | .live => s.objects.read s.conn = some false
    | .dangling => ∃ i ∈ s.objects.deleted, s.conn = some i

theorem Points.connected (h : ∀ i ∈ s.objects.deleted, i < s.objects.created.length) :
    (s.tried.connected false).Points .live where
  lt := by
    intro i hi
    have hlt := h i hi
    simp only [Connector.connected, tried, Objects.new, List.length_append, List.length_singleton]
    omega
  conn := Objects.read_new h

theorem Points.delete {p : Pointer} (h : s.Points p) (hp : p ≠ .dangling) :
    ∃ objects, s.objects.delete s.conn = some objects ∧
      ({ s.tried with objects := objects } : Connector).Points p.deleted := by
  cases p with
  | null =>
      have hconn : s.conn = none := h.conn
      exact ⟨s.objects, by rw [hconn]; rfl, h.lt, hconn⟩
  | live =>
      obtain ⟨hlt, hread⟩ := h
      cases hconn : s.conn with
      | none =>
          rw [hconn] at hread
          exact nomatch hread
      | some i =>
          rw [hconn] at hread
          have hlive := Objects.live_of_read hread
          refine ⟨_, if_pos hlive, ?_, i, List.mem_append_right _ (List.mem_singleton_self i),
            hconn⟩
          exact List.forall_mem_append.mpr ⟨hlt, List.forall_mem_singleton.mpr hlive.1⟩
  | dangling => exact absurd rfl hp

theorem Points.delete_dangling (h : s.Points .dangling) : s.objects.delete s.conn = none := by
  obtain ⟨i, hi, hconn⟩ := h.conn
  rw [hconn, Objects.delete, if_neg fun hlive => hlive.2 hi]

/-- The test behind the loop. -/
theorem Points.isOpen {p : Pointer} (h : s.Points p) :
    Connector.isOpen s = (if p = .live then .ok false else .error .dead, s) := by
  have hconn := h.conn
  rw [isOpen_eq]
  cases p with
  | null =>
      have hconn : s.conn = none := hconn
      rw [hconn]
      rfl
  | live =>
      have hread : s.objects.read s.conn = some false := hconn
      rw [hread]
      rfl
  | dangling =>
      obtain ⟨i, hi, hconn⟩ := hconn
      rw [hconn, Objects.read, if_pos hi]
      rfl

/-- **Where the loop and the test behind it end.** -/
theorem connectLoop_ending {p : Pointer} (as : List Attempt) (h : s.Points p) :
    ∃ s', s'.db = s.db ∧ (connectLoop as >>= fun _ => isOpen) s =
      (match p.ending as with
        | .opens => .ok true
        | .fails => .ok false
        | .dies => .error .dead, s') := by
  induction as generalizing p s with
  | nil =>
      refine ⟨s, rfl, ?_⟩
      change isOpen s = _
      rw [h.isOpen, Pointer.ending]
      by_cases hp : p = .live
      · simp [hp]
      · simp [hp]
  | cons a as ih =>
      cases a with
      | throws =>
          by_cases hp : p = .dangling
          · subst hp
            rw [Fallible.bind_of_error (connectLoop_throws_dead h.delete_dangling as)]
            exact ⟨s.tried, rfl, rfl⟩
          · obtain ⟨objects, hdelete, hdeleted⟩ := h.delete hp
            obtain ⟨s', hdb, hloop⟩ := ih hdeleted
            refine ⟨s', hdb, ?_⟩
            rw [Fallible.bind_of_eq (connectLoop_throws hdelete as), hloop, Pointer.ending,
              if_neg hp]
      | closed =>
          obtain ⟨s', hdb, hloop⟩ := ih (Points.connected h.lt)
          refine ⟨s', hdb, ?_⟩
          rw [Fallible.bind_of_eq (connectLoop_closed h.lt as), hloop, Pointer.ending]
      | opens =>
          refine ⟨s.tried.connected true, rfl, ?_⟩
          rw [Fallible.bind_of_ok (connectLoop_opens h.lt as), isOpen_connected h.lt,
            Pointer.ending]

/-! ## Behind the loop -/

/-- The map keys of the table are distinct. -/
def Unique (db : Database) : Prop := (db.tables.client.map ClientRow.clientUniqueID).Nodup

/-- `GetAllClients` loads the rows or ends the process. -/
theorem loadClients_spec (asserts : Bool) (s : Connector) (hunique : Unique s.db) :
    ∃ x db, loadClients asserts s = (x, { s with db := db }) ∧ x ≠ .error .dead ∧
      (x = .ok () → Loaded db ∧ Unique db) := by
  rw [loadClients]
  rcases hget : Database.getAllClients s.db with ⟨e | complete, db⟩
  · exact ⟨.error (.database e), db, rfl, by simp, by simp⟩
  · obtain ⟨-, hdb, -⟩ := Database.getAllClients_eq_ok.mp hget
    have htables : db.tables = s.db.tables := by rw [hdb]
    have hloaded : Loaded db := by
      intro r hr
      rw [htables] at hr
      rw [hdb]
      exact lookup_load_of_mem hunique hr s.db._clients
    by_cases hassert : asserts = true ∧ complete = false
    · exact ⟨.error .assertion, db, if_pos hassert, by simp, by simp⟩
    · refine ⟨.ok (), db, if_neg hassert, by simp, fun _ => ⟨hloaded, ?_⟩⟩
      rw [Unique, htables]
      exact hunique

/-- The statements are prepared on the connection. -/
def withStatements (s : Connector) : Connector :=
  { s with prepared := s.prepared ++
      ["insertEvent", "insertEventXML", "insertClient"].flatMap fun name =>
        s.conn.toList.map fun i => (i, name) }

theorem prepared_withStatements (h : s.conn ≠ none) : s.withStatements.Prepared := by
  obtain ⟨i, hi⟩ := Option.ne_none_iff_exists'.mp h
  intro name hname
  refine ⟨i, hi, ?_⟩
  rw [withStatements, hi]
  refine List.mem_append_right _ (List.mem_flatMap.mpr ⟨name, hname, ?_⟩)
  exact List.mem_singleton_self _

theorem prepare_statements (s : Connector) :
    (do prepare "insertEvent"
        prepare "insertEventXML"
        prepare "insertClient"
        pure true : Connecting Bool) s = (.ok true, s.withStatements) := by
  simp [prepare, withStatements]

/-- **What `Connect` does with a connection**: it returns whether it is open, and everything is
there when it does. -/
theorem conclude_of_live (asserts : Bool) (h : s.Is .live) (hunique : Unique s.db) :
    ∃ x db prepared, conclude asserts s = (x, { s with db := db, prepared := prepared }) ∧
      x ≠ .error .dead ∧
      (∀ b, x = .ok b → Unique db ∧ (b = true ↔ s.objects.read s.conn = some true)) ∧
      (x = .ok true → Loaded db ∧ Prepared { s with db := db, prepared := prepared }) := by
  obtain ⟨b, hread, hopen⟩ := isOpen_of_live h
  rw [conclude, Fallible.bind_of_ok hopen]
  cases b with
  | false =>
      refine ⟨.ok false, s.db, s.prepared, rfl, by simp, ?_, by simp⟩
      intro b hb
      cases hb
      exact ⟨hunique, by simp [hread]⟩
  | true =>
      obtain ⟨x, db, hload, hx, hok⟩ := loadClients_spec asserts s hunique
      cases x with
      | error e =>
          refine ⟨.error e, db, s.prepared, ?_, by simpa using hx, by simp, by simp⟩
          rw [if_pos rfl, Fallible.bind_of_error hload]
      | ok u =>
          obtain ⟨hloaded, hunique'⟩ := hok rfl
          refine ⟨.ok true, db, ({ s with db := db } : Connector).withStatements.prepared, ?_,
            by simp, ?_, ?_⟩
          · rw [if_pos rfl, Fallible.bind_of_ok hload, prepare_statements]
            rfl
          · intro b hb
            cases hb
            exact ⟨hunique', by simp [hread]⟩
          · intro _
            exact ⟨hloaded, prepared_withStatements (s := { s with db := db }) h.1⟩

/-! ## The call -/

theorem keeps_isOpen {τ : Type} {part : Connector → τ} : Fallible.Keeps part isOpen := by
  intro s
  rw [isOpen_eq]
  cases s.objects.read s.conn with
  | some b => rfl
  | none => rfl

theorem keeps_conclude (asserts : Bool) :
    Fallible.Keeps (fun s => (s.objects, s.conn, s.destroyed)) (conclude asserts) := by
  refine keeps_isOpen.bind fun b => ?_
  by_cases hb : b = true
  · rw [if_pos hb]
    have hload : Fallible.Keeps (fun s => (s.objects, s.conn, s.destroyed))
        (loadClients asserts) := by
      intro s
      rw [loadClients]
      rcases Database.getAllClients s.db with ⟨e | complete, db⟩
      · rfl
      · by_cases hassert : asserts = true ∧ complete = false
        · simp only [if_pos hassert]
        · simp only [if_neg hassert]
    refine hload.bind fun _ => ?_
    intro s
    rw [prepare_statements]
    rfl
  · rw [if_neg hb]
    exact Fallible.keeps_pure _

theorem keeps_connectLoop (as : List Attempt) : Fallible.Keeps destroyed (connectLoop as) := by
  induction as with
  | nil => exact Fallible.keeps_pure _
  | cons a as ih =>
      rw [connectLoop_cons]
      refine Fallible.Keeps.bind ?_ fun b => ?_
      · intro s
        by_cases ha : a = .throws
        · rw [ha, tryConnect_throws]
          cases s.objects.delete s.conn with
          | some objects => rfl
          | none => rfl
        · rw [tryConnect_new ha]
          exact keeps_isOpen _
      · by_cases hb : b = true
        · rw [if_pos hb]
          exact Fallible.keeps_pure _
        · rw [if_neg hb]
          exact ih

/-- A call does not destroy the object that it is made on. -/
theorem keeps_connect (asserts : Bool) (outcome : ℕ → Attempt) :
    Fallible.Keeps destroyed (connect asserts outcome) :=
  (keeps_connectLoop _).bind fun _ s => congrArg (fun x => x.2.2) (keeps_conclude asserts s)

variable (asserts) in
/-- **A call whose attempts suit the pointer** leaves the only connection that lives, and answers
as it should. -/
theorem connect_of_fits {p : Pointer} {outcome : ℕ → Attempt}
    (hfits : Fits p ((List.range 5).map outcome)) (h : s.Is p) (hunique : Unique s.db) :
    (connect asserts outcome s).1 ≠ .error .dead ∧ (connect asserts outcome s).2.Is .live ∧
      (connect asserts outcome s).2.signals = s.signals ∧
      (connect asserts outcome s).2.fault = s.fault ∧
      (∀ b, (connect asserts outcome s).1 = .ok b → Unique (connect asserts outcome s).2.db) ∧
      Answers s (connect asserts outcome s) := by
  obtain ⟨s', hloop, hlive, hframe⟩ := connectLoop_of_fits hfits h
  have hunique' : Unique s'.db := by
    rw [hframe.db]
    exact hunique
  obtain ⟨x, db, prepared, hconclude, hx, hreturns, hready⟩ :=
    conclude_of_live asserts hlive hunique'
  have hconnect : connect asserts outcome s = (x, { s' with db := db, prepared := prepared }) := by
    rw [connect, Fallible.bind_of_ok hloop, hconclude]
  rw [hconnect]
  refine ⟨hx, hlive, hframe.signals, hframe.fault, fun b hb => (hreturns b hb).1, ?_⟩
  exact ⟨hframe.attempts, fun b hb => (hreturns b hb).2, hready⟩

variable (asserts) in
/-- **A call whose attempts do not suit the pointer** touches a dead object or loses a
connection. -/
theorem connect_of_not_fits {p : Pointer} {outcome : ℕ → Attempt}
    (hfits : ¬ Fits p ((List.range 5).map outcome)) (h : s.Is p) :
    Spoilt (connect asserts outcome s) := by
  rcases connectLoop_of_not_fits hfits h with hspoilt | ⟨s', hloop, hnone⟩
  · rcases hloop : connectLoop ((List.range 5).map outcome) s with ⟨e | u, s'⟩
    · rw [hloop] at hspoilt
      rw [connect, Fallible.bind_of_error hloop]
      rcases hspoilt with hdead | hleaks
      · cases hdead
        exact Or.inl rfl
      · exact Or.inr hleaks
    · rw [hloop] at hspoilt
      rw [connect, Fallible.bind_of_ok hloop]
      have hleaks : s'.objects.Leaks s'.conn := by
        rcases hspoilt with hdead | hleaks
        · cases hdead
        · exact hleaks
      have hkeep := keeps_conclude asserts s'
      simp only [Prod.mk.injEq] at hkeep
      right
      rw [hkeep.1, hkeep.2.1]
      exact hleaks
  · rw [connect, Fallible.bind_of_ok hloop, conclude,
      Fallible.bind_of_error (isOpen_of_owns_none hnone)]
    exact Or.inl rfl

/-- A reconnect suits the connection that was lost only if it throws, and then makes an open
connection, or makes a closed one and throws and makes an open one. -/
theorem fits_live_iff (a b c d e : Attempt) : Fits .live [a, b, c, d, e] ↔
    a = .throws ∧ (b = .opens ∨ b = .closed ∧ c = .throws ∧ d = .opens) := by
  cases a with
  | throws =>
      cases b with
      | closed =>
          cases c with
          | throws => cases d <;> cases e <;> simp [Fits, Pointer.deleted]
          | _ => simp [Fits, Pointer.deleted]
      | _ => simp [Fits, Pointer.deleted]
  | _ => simp [Fits]

/-! ## Runs -/

structure Sound (s : Connector) : Prop where
  kept : s.Kept
  unique : s.fault = none → Unique s.db
  /-- Signals are handled only when there is a connection. -/
  signals : s.signals = true → s.conn ≠ none

/-- Between the calls the pointer is null or alone. -/
theorem Sound.is (h : s.Sound) (hdestroyed : s.destroyed = false) : s.Is s.pointer := by
  have howns := h.kept.owns hdestroyed
  rw [pointer]
  by_cases hconn : s.conn = none
  · rw [if_pos hconn]
    rw [hconn] at howns
    exact ⟨hconn, howns⟩
  · rw [if_neg hconn]
    exact ⟨hconn, howns⟩

/-- The state after what follows a call, which sets a flag at most. -/
structure Ended (r : Except ConnectFault Bool × Connector) (s' : Connector) : Prop where
  objects : s'.objects = r.2.objects
  conn : s'.conn = r.2.conn
  db : s'.db = r.2.db
  destroyed : s'.destroyed = r.2.destroyed
  fault : s'.fault = match r.1 with
    | .ok _ => r.2.fault
    | .error e => some e

theorem ended_bind {x : Connecting Bool} {f : Bool → Connecting Unit}
    (hf : ∀ b s, ∃ signals stopping,
      f b s = (.ok (), { s with signals := signals, stopping := stopping })) (s : Connector) :
    Ended (x s) (after (x >>= f) s) := by
  rcases hx : x s with ⟨e | b, s₁⟩
  · rw [after, Fallible.bind_of_error hx]
    exact ⟨rfl, rfl, rfl, rfl, rfl⟩
  · obtain ⟨signals, stopping, hfb⟩ := hf b s₁
    rw [after, Fallible.bind_of_ok hx, hfb]
    exact ⟨rfl, rfl, rfl, rfl, rfl⟩

theorem ended_startup (asserts : Bool) (outcome : ℕ → Attempt) (s : Connector) :
    Ended (connect asserts outcome s) (after (startup asserts outcome) s) := by
  refine ended_bind ?_ s
  intro b s
  by_cases hb : b = true
  · rw [if_pos hb]
    exact ⟨true, s.stopping, rfl⟩
  · rw [if_neg hb]
    exact ⟨s.signals, s.stopping, rfl⟩

/-- A signal that finds the connection closed. -/
theorem ended_sigpipe (asserts : Bool) (outcome : ℕ → Attempt)
    (hopen : isOpen s = (.ok false, s)) :
    Ended (connect asserts outcome s) (after (sigpipeHandler asserts outcome) s) := by
  have hhandler : sigpipeHandler asserts outcome s =
      (connect asserts outcome >>= fun status =>
        if status = true then pure () else modify fun s => { s with stopping := true }) s := by
    rw [sigpipeHandler, Fallible.bind_of_ok hopen]
    rfl
  rw [after, hhandler]
  refine ended_bind ?_ s
  intro b s
  by_cases hb : b = true
  · rw [if_pos hb]
    exact ⟨s.signals, s.stopping, rfl⟩
  · rw [if_neg hb]
    exact ⟨s.signals, true, rfl⟩

/-- A signal that finds the connection open. -/
theorem after_sigpipe_of_open (asserts : Bool) (outcome : ℕ → Attempt)
    (hopen : isOpen s = (.ok true, s)) : after (sigpipeHandler asserts outcome) s = s := by
  rw [after, sigpipeHandler, Fallible.bind_of_ok hopen]
  rfl

/-- **After a call that suits the pointer** everything hangs on it. -/
theorem Sound.ended (h : s.Sound) (hdestroyed : s.destroyed = false) (hfault : s.fault = none)
    {outcome : ℕ → Attempt} (hfits : Fits s.pointer ((List.range 5).map outcome))
    (hend : Ended (connect asserts outcome s) s') :
    s'.Sound ∧ Answers s (connect asserts outcome s) := by
  obtain ⟨hdead, hlive, -, hcall, hunique, hanswers⟩ :=
    connect_of_fits asserts hfits (h.is hdestroyed) (h.unique hfault)
  have hkeep := keeps_connect asserts outcome s
  have hend' := hend.fault
  refine ⟨⟨⟨?_, ?_, ?_⟩, ?_, ?_⟩, hanswers⟩
  · rw [hend']
    cases hx : (connect asserts outcome s).1 with
    | ok b => simp [hcall, hfault]
    | error e =>
        intro heq
        rw [hx, Option.some.inj heq] at hdead
        exact hdead rfl
  · intro _
    rw [hend.objects, hend.conn]
    exact hlive.2
  · intro hd
    rw [hend.destroyed, hkeep, hdestroyed] at hd
    cases hd
  · intro hnone
    rw [hend'] at hnone
    cases hx : (connect asserts outcome s).1 with
    | ok b =>
        rw [hend.db]
        exact hunique b hx
    | error e =>
        rw [hx] at hnone
        cases hnone
  · intro _
    rw [hend.conn]
    exact hlive.1

/-- After a call that does not suit the pointer the promise is broken. -/
theorem Sound.not_kept (h : s.Sound) (hdestroyed : s.destroyed = false) {outcome : ℕ → Attempt}
    (hfits : ¬ Fits s.pointer ((List.range 5).map outcome))
    (hend : Ended (connect asserts outcome s) s') : ¬ s'.Kept := by
  intro hkept
  rcases connect_of_not_fits asserts hfits (h.is hdestroyed) with hdead | hleaks
  · refine hkept.fault ?_
    rw [hend.fault, hdead]
  · have hkeep := keeps_connect asserts outcome s
    have howns := hkept.owns (by rw [hend.destroyed, hkeep, hdestroyed])
    rw [hend.objects, hend.conn] at howns
    exact hleaks.not_owns howns

/-- The destructor deletes what is left. -/
theorem Sound.destroy (h : s.Sound) (hdestroyed : s.destroyed = false) (hfault : s.fault = none) :
    (after destroy s).Sound := by
  have hdelete : ∃ o, s.objects.delete s.conn = some o ∧ o.Owns none := by
    have howns := h.kept.owns hdestroyed
    cases hconn : s.conn with
    | none =>
        rw [hconn] at howns
        exact ⟨s.objects, rfl, howns⟩
    | some i =>
        rw [hconn] at howns
        exact howns.delete
  obtain ⟨o, ho, hnone⟩ := hdelete
  have hconn : deleteConn s = (.ok (), { s with objects := o }) := by
    rw [deleteConn_eq, ho]
  have hafter : after Connector.destroy s = { s with objects := o, destroyed := true } := by
    rw [after, Connector.destroy, Fallible.bind_of_ok hconn]
    rfl
  rw [hafter]
  refine ⟨⟨?_, ?_, ?_⟩, h.unique, h.signals⟩
  · simp [hfault]
  · intro hd
    cases hd
  · intro _ i hi
    exact hnone.count_deleted hi

/-- **A step that suits the pointer** keeps the promise. -/
theorem Sound.keeps (h : s.Sound) {a : Action} (hfits : s.Fitting a)
    (hstep : s.step asserts a = some s') :
    s'.Sound ∧ ∀ r ∈ s.called asserts a, Answers s r := by
  rw [step, Option.ite_none_right_eq_some] at hstep
  obtain ⟨hpossible, heq⟩ := hstep
  have hfits := hfits hpossible
  obtain ⟨hdestroyed, hfault, hguard⟩ := hpossible
  rw [← Option.some.inj heq]
  cases a with
  | startup outcome =>
      obtain ⟨hsound, hanswers⟩ :=
        h.ended hdestroyed hfault hfits (ended_startup asserts outcome s)
      refine ⟨hsound, ?_⟩
      intro r hr
      rw [← Option.some.inj hr]
      exact hanswers
  | sigpipe outcome =>
      have hlive : s.Is .live := ⟨h.signals hguard, h.kept.owns hdestroyed⟩
      obtain ⟨b, hread, hopen⟩ := isOpen_of_live hlive
      cases b with
      | true =>
          refine ⟨?_, ?_⟩
          · rw [act, after_sigpipe_of_open asserts outcome hopen]
            exact h
          · intro r hr
            simp [called, hopen] at hr
      | false =>
          have hnot : s.objects.read s.conn ≠ some true := by simp [hread]
          obtain ⟨hsound, hanswers⟩ :=
            h.ended hdestroyed hfault (hfits hnot) (ended_sigpipe asserts outcome hopen)
          refine ⟨hsound, ?_⟩
          intro r hr
          simp only [called, hopen, Option.mem_some_iff] at hr
          rw [← hr]
          exact hanswers
  | lose =>
      refine ⟨⟨⟨h.kept.fault, ?_, ?_⟩, h.unique, h.signals⟩, by simp [called]⟩
      · intro hd
        exact (h.kept.owns hd).write false s.conn
      · intro hd
        rw [act, hdestroyed] at hd
        cases hd
  | serve db =>
      exact ⟨⟨⟨h.kept.fault, h.kept.owns, h.kept.deleted⟩, fun _ => hguard, h.signals⟩,
        by simp [called]⟩
  | destroy => exact ⟨h.destroy hdestroyed hfault, by simp [called]⟩

/-- A step that keeps the promise suits the pointer. -/
theorem Sound.fitting (h : s.Sound) {a : Action} (hkeeps : s.Keeps asserts a) : s.Fitting a := by
  intro hpossible
  have hstep : s.step asserts a = some (s.act asserts a) := if_pos hpossible
  have hkept := (hkeeps _ hstep).1
  obtain ⟨hdestroyed, hfault, hguard⟩ := hpossible
  cases a with
  | startup outcome =>
      by_contra hfits
      exact h.not_kept hdestroyed hfits (ended_startup asserts outcome s) hkept
  | sigpipe outcome =>
      intro hread
      by_contra hfits
      have hlive : s.Is .live := ⟨h.signals hguard, h.kept.owns hdestroyed⟩
      obtain ⟨b, hb, hopen⟩ := isOpen_of_live hlive
      have hfalse : b = false := by
        cases b with
        | true => exact absurd hb hread
        | false => rfl
      rw [hfalse] at hopen
      exact h.not_kept hdestroyed hfits (ended_sigpipe asserts outcome hopen) hkept
  | lose => trivial
  | serve db => trivial
  | destroy => trivial

end

theorem sound_fresh {db : Database} (h : Unique db) : (fresh db).Sound where
  kept :=
    { fault := by simp [fresh]
      owns := fun _ => Objects.owns_empty
      deleted := by simp [fresh] }
  unique := fun _ => h
  signals := by simp [fresh]

/-- **`Connect` never touches a dead connection and loses none** in a run exactly when the attempts
of each call suit the pointer that it finds: attempts that throw find it null or living, the next
one then makes a connection, and no other attempt is made while a connection lives. -/
theorem keeps_run_iff (asserts : Bool) {db : Database} (hunique : Unique db) (as : List Action) :
    Meets (step asserts) (Keeps asserts) (fresh db) as ↔
      Meets (step asserts) Fitting (fresh db) as := by
  constructor
  · refine Transition.Meets.of_invariant (I := Sound) ?_ ?_ (sound_fresh hunique)
    · intro s a s' h hkeeps hstep
      exact (h.keeps (h.fitting hkeeps) hstep).1
    · intro s a h hkeeps
      exact h.fitting hkeeps
  · refine Transition.Meets.of_invariant (I := Sound) ?_ ?_ (sound_fresh hunique)
    · intro s a s' h hfits hstep
      exact (h.keeps hfits hstep).1
    · intro s a h hfits s' hstep
      obtain ⟨hsound, hanswers⟩ := h.keeps hfits hstep
      exact ⟨hsound.kept, hanswers⟩

/-- A connection at the second attempt; it breaks, and the reconnect first throws and then gets
another one. -/
def reconnected : List Action :=
  [.startup fun time => if time = 0 then .throws else .opens, .lose,
    .sigpipe fun time => if time = 0 then .throws else .opens, .destroy]

theorem keeps_reconnected :
    Meets (step true) (Keeps true) (fresh Sample.database) reconnected := by
  refine (keeps_run_iff true (by unfold Unique; decide) reconnected).mpr ?_
  decide +kernel

/-- The server is away for as long as the five attempts take. -/
theorem not_keeps_unreachable :
    ¬ Meets (step true) (Keeps true) (fresh Sample.database) [.startup fun _ => .throws] := by
  intro h
  have hkept := (h.1 _ rfl).1
  exact absurd hkept.fault (by decide +kernel)

end Connector
end ClientService
