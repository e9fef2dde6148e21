import ClientService.Lib.Framing
import ClientService.Lib.Outcome

/-!
# Incremental readers of framed streams

A reader keeps the unfinished rest of its stream and a queue of results. Reading a chunk
hands every frame the chunk completes to a handler, in order, and appends the results.
The handler has a state of its own, and may fail.

A reader never returns from a chunk that leaves it with a header announcing no body and
something after it, nor from one that finds such a header complete already.

`readAll_fresh` gives the outcome of a whole run in terms of the stream: where it was cut
into chunks matters only to whether the reader is stuck.

## Main definitions

* `Framing.Reader` — the unfinished rest and the queue.
* `Framing.Reader.read`, `Framing.Reader.readAll` — one chunk, and successive chunks.
* `Framing.StuckRun` — the chunk sequences on which a reader never returns.
* `Framing.RunResult` — what a run from a fresh reader ends in.
-/

namespace Framing

universe u

variable {α β σ : Type u} {F : Format α}

/-- Hand frames to the handler in order. -/
def handleAll (handle : Frame F → σ → Outcome (β × σ)) :
    List (Frame F) → σ → Outcome (List β × σ)
  | [], s => .ret ([], s)
  | f :: fs, s => do
      let (m, s) ← handle f s
      let (ms, s) ← handleAll handle fs s
      .ret (m :: ms, s)

/-- With `s` unfinished before a chunk and `t` after it, the chunk never ends. -/
def Stuck (F : Format α) (s t : List α) : Prop :=
  Stalled F t ∧ (F.header < t.length ∨ Stalled F s)

instance (s t : List α) : Decidable (Stuck F s t) := inferInstanceAs (Decidable (_ ∧ _))

/-- The unfinished rest of the stream, and the results so far. -/
structure Reader (α β : Type u) where
  pending : List α
  queue : List β

namespace Reader

/-- Nothing read yet. -/
def fresh : Reader α β := ⟨[], []⟩

variable (handle : Frame F → σ → Outcome (β × σ))

/-- Read one chunk. -/
def read (r : Reader α β) (data : List α) (s : σ) : Outcome (Reader α β × σ) := do
  let cut := split F (r.pending ++ data)
  let (ms, s) ← handleAll handle cut.1 s
  if Stuck F r.pending cut.2 then .running else .ret (⟨cut.2, r.queue ++ ms⟩, s)

/-- Read successive chunks; each finds its own state of the handler. -/
def readAll : Reader α β → List (List α × σ) → Outcome (Reader α β)
  | r, [] => .ret r
  | r, c :: cs => do
      let (r, _) ← read handle r c.1 c.2
      readAll r cs

variable {handle}

/-- A chunk that completes a frame: the frame goes to the handler, and the rest of the
chunk is read with nothing pending. -/
theorem read_frame {p data rest : List α} {f : Frame F} (h : p ++ data = f.bytes ++ rest)
    (q : List β) (s : σ) :
    read handle ⟨p, q⟩ data s =
      (do let (m, s) ← handle f s
          read handle ⟨[], q ++ [m]⟩ rest s) := by
  have hstalled : ¬Stalled F p := by
    rintro ⟨hlen, h0⟩
    apply f.announced_ne
    rw [← f.announced_append rest, ← h, announced_append hlen, h0]
  have hstuck : ∀ t, Stuck F p t ↔ Stuck F [] t := by
    intro t
    simp only [Stuck, hstalled, not_stalled_nil]
  simp only [read, h, split_frame_append, handleAll, Outcome.bind_assoc, List.nil_append, hstuck,
    Outcome.ret_bind, List.append_assoc, List.singleton_append]

/-- Only the stream matters, and whether what is pending stalls it. -/
theorem read_congr {p p' data data' : List α} (h : p ++ data = p' ++ data')
    (hs : Stalled F p ↔ Stalled F p') (q : List β) (s : σ) :
    read handle ⟨p, q⟩ data s = read handle ⟨p', q⟩ data' s := by
  have hstuck : ∀ t, Stuck F p t ↔ Stuck F p' t := by
    intro t
    simp only [Stuck, hs]
  simp only [read, h, hstuck]

/-- A chunk that completes no frame. -/
theorem read_rest {p data : List α} (hc : ¬Complete F (p ++ data)) (hs : ¬Stuck F p (p ++ data))
    (q : List β) (s : σ) : read handle ⟨p, q⟩ data s = .ret (⟨p ++ data, q⟩, s) := by
  simp only [read, split_of_not_complete hc, handleAll, Outcome.ret_bind, if_neg hs,
    List.append_nil]

/-- A chunk that never ends. -/
theorem read_stuck {p data : List α} (hs : Stuck F p (p ++ data)) (q : List β) (s : σ) :
    read handle ⟨p, q⟩ data s = .running := by
  simp only [read, split_of_not_complete hs.1.not_complete, handleAll, Outcome.ret_bind, if_pos hs]

theorem readAll_append (r : Reader α β) (cs ds : List (List α × σ)) :
    readAll handle r (cs ++ ds) = readAll handle r cs >>= fun r => readAll handle r ds := by
  induction cs generalizing r with
  | nil => rfl
  | cons c cs ih => simp only [List.cons_append, readAll, ih, Outcome.bind_assoc]

/-- A chunk only adds to the queue. -/
theorem read_queue {r r' : Reader α β} {data : List α} {s s' : σ}
    (h : read handle r data s = .ret (r', s')) : r.queue <+: r'.queue := by
  rw [read, Outcome.bind_eq_ret] at h
  obtain ⟨⟨ms, s₁⟩, _, hx⟩ := h
  by_cases hst : Stuck F r.pending (split F (r.pending ++ data)).2
  · simp only [if_pos hst] at hx
    cases hx
  · simp only [if_neg hst] at hx
    cases hx
    exact List.prefix_append _ _

theorem readAll_queue {r r' : Reader α β} {cs : List (List α × σ)}
    (h : readAll handle r cs = .ret r') : r.queue <+: r'.queue := by
  induction cs generalizing r with
  | nil =>
      cases h
      exact List.prefix_rfl
  | cons c cs ih =>
      rw [readAll, Outcome.bind_eq_ret] at h
      obtain ⟨x, hx, hrest⟩ := h
      exact (read_queue hx).trans (ih hrest)

end Reader

/-! ## Whole runs -/

section Run

/-- The frames of the stream carried by a sequence of chunks. -/
def frames (F : Format α) (cs : List (List α × σ)) : List (Frame F) :=
  (split F (cs.flatMap Prod.fst)).1

/-- The unfinished rest of that stream. -/
def rest (F : Format α) (cs : List (List α × σ)) : List α := (split F (cs.flatMap Prod.fst)).2

/-- The stream is stalled, and something is read after the stalling header: more of the
stream, or one more chunk. -/
def StuckRun (F : Format α) (cs : List (List α × σ)) : Prop :=
  Stuck F (rest F cs.dropLast) (rest F cs)

/-- The handler makes something of the frame in every state. -/
def Accepts (handle : Frame F → σ → Outcome (β × σ)) (f : Frame F) : Prop :=
  ∀ s, ∃ m s', handle f s = .ret (m, s')

/-- The handler fails on the frame in every state. -/
def Rejects (handle : Frame F → σ → Outcome (β × σ)) (f : Frame F) : Prop :=
  ∀ s, handle f s = .aborted

/-- The handler makes `m` of the frame in some state. -/
def Produces (handle : Frame F → σ → Outcome (β × σ)) (f : Frame F) (m : β) : Prop :=
  ∃ s s', handle f s = .ret (m, s')

theorem frames_concat (cs : List (List α × σ)) (c : List α × σ) :
    frames F (cs ++ [c]) = frames F cs ++ (split F (rest F cs ++ c.1)).1 := by
  simp only [frames, rest, List.flatMap_append, List.flatMap_singleton]
  conv_lhs => rw [split_append]

theorem rest_concat (cs : List (List α × σ)) (c : List α × σ) :
    rest F (cs ++ [c]) = (split F (rest F cs ++ c.1)).2 := by
  simp only [rest, List.flatMap_append, List.flatMap_singleton]
  conv_lhs => rw [split_append]

@[simp] theorem frames_nil : frames F ([] : List (List α × σ)) = [] := by
  simp only [frames, List.flatMap_nil, split_nil]

@[simp] theorem rest_nil : rest F ([] : List (List α × σ)) = [] := by
  simp only [rest, List.flatMap_nil, split_nil]

theorem stuckRun_concat (cs : List (List α × σ)) (c : List α × σ) :
    StuckRun F (cs ++ [c]) ↔ Stuck F (rest F cs) (split F (rest F cs ++ c.1)).2 := by
  rw [StuckRun, List.dropLast_concat, rest_concat]

/-- Once stuck, always stuck. -/
theorem StuckRun.concat {cs : List (List α × σ)} (h : StuckRun F cs) (c : List α × σ) :
    StuckRun F (cs ++ [c]) ∧ frames F (cs ++ [c]) = frames F cs := by
  have hs : Stalled F (rest F cs) := h.1
  rw [stuckRun_concat, frames_concat, split_stalled_append hs]
  exact ⟨⟨hs.append _, Or.inr hs⟩, List.append_nil _⟩

variable {handle : Frame F → σ → Outcome (β × σ)}

/-- What a run from a fresh reader ends in. -/
inductive RunResult (handle : Frame F → σ → Outcome (β × σ)) (cs : List (List α × σ)) :
    Outcome (Reader α β) → Prop
  /-- The handler has failed on some frame of the stream. -/
  | rejected (h : ∃ f ∈ frames F cs, Rejects handle f) : RunResult handle cs .aborted
  /-- Every frame went through, and the reader is stuck behind them. -/
  | stuck (h : ∀ f ∈ frames F cs, Accepts handle f) (hs : StuckRun F cs) :
      RunResult handle cs .running
  /-- Every frame went through, once each and in order. -/
  | done (h : ∀ f ∈ frames F cs, Accepts handle f) (hs : ¬StuckRun F cs) {q : List β}
      (hq : List.Forall₂ (Produces handle) (frames F cs) q) :
      RunResult handle cs (.ret ⟨rest F cs, q⟩)

/-- A handler that accepts every frame of a list handles the list. -/
theorem handleAll_of_accepts {fs : List (Frame F)} (h : ∀ f ∈ fs, Accepts handle f) (s : σ) :
    ∃ ms s', handleAll handle fs s = .ret (ms, s') ∧ List.Forall₂ (Produces handle) fs ms := by
  induction fs generalizing s with
  | nil => exact ⟨[], s, rfl, .nil⟩
  | cons f fs ih =>
      obtain ⟨m, s₁, hm⟩ := h f List.mem_cons_self s
      obtain ⟨ms, s₂, hms, hall⟩ := ih (fun g hg => h g (List.mem_cons_of_mem _ hg)) s₁
      refine ⟨m :: ms, s₂, ?_, .cons ⟨s, s₁, hm⟩ hall⟩
      simp only [handleAll, hm, hms, Outcome.ret_bind]

/-- A handler that rejects some frame of a list fails on the list. -/
theorem handleAll_of_rejects (hh : ∀ f, Accepts handle f ∨ Rejects handle f) {fs : List (Frame F)}
    (h : ∃ f ∈ fs, Rejects handle f) (s : σ) : handleAll handle fs s = .aborted := by
  induction fs generalizing s with
  | nil => simp at h
  | cons f fs ih =>
      rcases hh f with hf | hf
      · obtain ⟨m, s₁, hm⟩ := hf s
        have htail : ∃ g ∈ fs, Rejects handle g := by
          obtain ⟨g, hg, hr⟩ := h
          rcases List.mem_cons.mp hg with rfl | hg
          · have := hr s
            rw [hm] at this
            cases this
          · exact ⟨g, hg, hr⟩
        simp only [handleAll, hm, Outcome.ret_bind, ih htail, Outcome.aborted_bind]
      · simp only [handleAll, hf s, Outcome.aborted_bind]

/-- Every frame is rejected by the handler or accepted, so a list of frames contains a
rejected one or goes through. -/
theorem exists_rejects_or (hh : ∀ f, Accepts handle f ∨ Rejects handle f) (fs : List (Frame F)) :
    (∃ f ∈ fs, Rejects handle f) ∨ ∀ f ∈ fs, Accepts handle f := by
  by_cases h : ∃ f ∈ fs, Rejects handle f
  · exact Or.inl h
  · refine Or.inr fun f hf => (hh f).resolve_right fun hr => h ⟨f, hf, hr⟩

/-- A chunk whose frames are all accepted, and which does not leave the reader stuck. -/
theorem Reader.read_of_accepts {p data : List α}
    (h : ∀ f ∈ (split F (p ++ data)).1, Accepts handle f)
    (hs : ¬Stuck F p (split F (p ++ data)).2) (q : List β) (s : σ) :
    ∃ ms s', Reader.read handle ⟨p, q⟩ data s =
        .ret (⟨(split F (p ++ data)).2, q ++ ms⟩, s') ∧
      List.Forall₂ (Produces handle) (split F (p ++ data)).1 ms := by
  obtain ⟨ms, s', hms, hall⟩ := handleAll_of_accepts h s
  refine ⟨ms, s', ?_, hall⟩
  simp only [Reader.read, hms, Outcome.ret_bind, if_neg hs]

/-- A chunk that completes a rejected frame. -/
theorem Reader.read_of_rejects (hh : ∀ f, Accepts handle f ∨ Rejects handle f) {p data : List α}
    (h : ∃ f ∈ (split F (p ++ data)).1, Rejects handle f) (q : List β) (s : σ) :
    Reader.read handle ⟨p, q⟩ data s = .aborted := by
  simp only [Reader.read, handleAll_of_rejects hh h, Outcome.aborted_bind]

/-- **The outcome of a run.** The induction adds one chunk at the end. -/
theorem readAll_fresh (hh : ∀ f, Accepts handle f ∨ Rejects handle f) (cs : List (List α × σ)) :
    RunResult handle cs (Reader.readAll handle Reader.fresh cs) := by
  induction cs using List.reverseRecOn with
  | nil =>
      have hs : ¬StuckRun F ([] : List (List α × σ)) := by
        rintro ⟨h, _⟩
        rw [rest_nil] at h
        exact not_stalled_nil h
      have hres : RunResult handle [] (.ret ⟨rest F ([] : List (List α × σ)), []⟩) :=
        .done (by simp) hs (by simp)
      rw [rest_nil] at hres
      exact hres
  | append_singleton cs c ih =>
      rw [Reader.readAll_append]
      generalize Reader.readAll handle Reader.fresh cs = x at ih
      cases ih with
      | rejected h =>
          refine .rejected ?_
          obtain ⟨f, hf, hr⟩ := h
          exact ⟨f, by rw [frames_concat]; exact List.mem_append_left _ hf, hr⟩
      | stuck h hs =>
          obtain ⟨hs', hframes⟩ := hs.concat c
          exact .stuck (by rwa [hframes]) hs'
      | done h hs hq =>
          simp only [Outcome.ret_bind, Reader.readAll, Reader.read]
          rcases exists_rejects_or hh (split F (rest F cs ++ c.1)).1 with hr | ha
          · rw [handleAll_of_rejects hh hr]
            obtain ⟨f, hf, hr⟩ := hr
            exact .rejected ⟨f, by rw [frames_concat]; exact List.mem_append_right _ hf, hr⟩
          · have hall : ∀ f ∈ frames F (cs ++ [c]), Accepts handle f := by
              intro f hf
              rw [frames_concat] at hf
              rcases List.mem_append.mp hf with hf | hf
              · exact h f hf
              · exact ha f hf
            obtain ⟨ms, s', hms, hprod⟩ := handleAll_of_accepts ha c.2
            simp only [hms, Outcome.ret_bind]
            by_cases hst : Stuck F (rest F cs) (split F (rest F cs ++ c.1)).2
            · rw [if_pos hst]
              exact .stuck hall ((stuckRun_concat cs c).mpr hst)
            · rw [if_neg hst, ← rest_concat]
              refine .done hall (fun hs => hst ((stuckRun_concat cs c).mp hs)) ?_
              rw [frames_concat]
              exact List.rel_append hq hprod

end Run
end Framing
