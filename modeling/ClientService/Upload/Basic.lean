import Mathlib

/-!
# Uploading a log over links that break

The abstract model of the system. One sender has a log of numbered records and uploads it to a
store, a batch at a time, over one link after another. On each link it begins with the oldest
record and skips what lies below its floor. The store tells the floor: it offers a resume point
when it is asked, and again when it has taken a batch.

A batch is pending from the moment it is sent until the store takes it or loses it. Links that
broke may have left batches behind.

## Main definitions

* `Upload.Link`, `Upload.State` — a link with its sender, and the whole.
* `Upload.Step` — what may happen.
-/

namespace Upload

/-- A resume point on its way to the sender. -/
inductive Offer where
  | returned (n : ℕ)
  | accepted (n : ℕ)
  deriving DecidableEq, Repr

def Offer.value : Offer → ℕ
  | .returned n => n
  | .accepted n => n

/-- A link and the sender at its end. -/
structure Link where
  /-- There is, or has been, such a link. -/
  made : Bool := false
  live : Bool := false
  /-- How many records of the log the sender has read. -/
  taken : ℕ := 0
  /-- The resume point the sender started with. -/
  resumed : Option ℕ := none
  /-- The sender skips records below its floor. -/
  floor : ℕ := 0
  /-- Batches sent and not yet taken or lost, in order. -/
  pending : List (List ℕ) := []
  /-- Resume points on their way, in order. -/
  offers : List Offer := []
  deriving DecidableEq, Repr

/-- The records in pending batches. -/
def Link.held (l : Link) : List ℕ := l.pending.flatten

/-- A first resume point starts the sender; an accepted one moves its floor. -/
def Link.receive (o : Offer) (l : Link) : Link :=
  match o with
  | .returned n => if l.floor = 0 then { l with floor := n, resumed := some n } else l
  | .accepted n => { l with floor := n }

structure State where
  log : List ℕ
  stored : List ℕ
  links : ℕ → Link

/-- Replace a link. -/
def State.set (s : State) (i : ℕ) (l : Link) : State :=
  { s with links := Function.update s.links i l }

section
variable (s : State) (i : ℕ) (l : Link)

@[simp] theorem set_log : (s.set i l).log = s.log := rfl
@[simp] theorem set_stored : (s.set i l).stored = s.stored := rfl
@[simp] theorem set_links_self : (s.set i l).links i = l := Function.update_self _ _ _

theorem set_links_of_ne {i j : ℕ} (h : j ≠ i) : (s.set i l).links j = s.links j :=
  Function.update_of_ne h _ _

end

/-- What the sender keeps of the next `j` records. -/
def State.kept (s : State) (i j : ℕ) : List ℕ :=
  ((s.log.drop (s.links i).taken).take j).filter fun r => (s.links i).floor ≤ r

inductive Label where
  | stay
  | record (e : ℕ)
  | connect (i : ℕ)
  | close (i : ℕ)
  | offer (i n : ℕ)
  | deliver (i : ℕ) (o : Offer)
  /-- The sender reads `k` records, and the first `j` of them can be used. -/
  | forward (i k j : ℕ)
  | store (i : ℕ) (before : List (List ℕ)) (batch : List ℕ)
  | lose (i : ℕ) (before : List (List ℕ)) (batch : List ℕ)
  | accept (i n : ℕ)

inductive Step : State → Label → State → Prop
  | stay (s : State) : Step s .stay s
  | record (s : State) (e : ℕ) : Step s (.record e) { s with log := s.log ++ [e] }
  /-- A new link comes when no other is live. -/
  | connect (s : State) (i : ℕ) (hdead : ∀ j, (s.links j).live = false)
      (hfresh : ∀ j, i ≤ j → s.links j = {}) :
      Step s (.connect i) (s.set i { made := true, live := true })
  /-- A link breaks; the last batches on it may never arrive. -/
  | close (s : State) (i : ℕ) (p : List (List ℕ)) (hlive : (s.links i).live = true)
      (hp : p <+: (s.links i).pending) :
      Step s (.close i) (s.set i { s.links i with live := false, pending := p })
  /-- The store is asked for the resume point: it is behind all that is stored. -/
  | offer (s : State) (i n : ℕ) (hmade : (s.links i).made = true)
      (hmax : ∀ c ∈ s.stored, c < n) (hn : n = 1 ∨ ∃ c ∈ s.stored, n = c + 1) :
      Step s (.offer i n)
        (s.set i { s.links i with offers := (s.links i).offers ++ [.returned n] })
  | deliver (s : State) (i : ℕ) (o : Offer) (rest : List Offer)
      (hlive : (s.links i).live = true) (ho : (s.links i).offers = o :: rest) :
      Step s (.deliver i o) (s.set i { (s.links i).receive o with offers := rest })
  | forward (s : State) (i k j : ℕ) (hlive : (s.links i).live = true)
      (hresumed : (s.links i).resumed.isSome = true)
      (hk : k = 0 ∨ (s.links i).taken + k ≤ s.log.length) (hj : j ≤ k) :
      Step s (.forward i k j)
        (s.set i { s.links i with taken := (s.links i).taken + k
                                  pending := (s.links i).pending ++ [s.kept i j] })
  | store (s : State) (i : ℕ) (before : List (List ℕ)) (batch : List ℕ) (after : List (List ℕ))
      (hp : (s.links i).pending = before ++ batch :: after) :
      Step s (.store i before batch)
        { s.set i { s.links i with pending := before ++ after } with stored := s.stored ++ batch }
  | lose (s : State) (i : ℕ) (before : List (List ℕ)) (batch : List ℕ) (after : List (List ℕ))
      (hp : (s.links i).pending = before ++ batch :: after) :
      Step s (.lose i before batch) (s.set i { s.links i with pending := before ++ after })
  | accept (s : State) (i n : ℕ) (hmade : (s.links i).made = true) :
      Step s (.accept i n)
        (s.set i { s.links i with offers := (s.links i).offers ++ [.accepted n] })

end Upload
