import ClientService.Decoder.Delivery

/-!
# Encoding does not change a package

`toBytes` copies the common fields and then calls `buildPBObj`, which for a log writes a new
description into the package. The first packet carries the description from before.

## Main definitions

* `CoreMessage.Unchanged` — the promise for a package.
* `CoreMessage.Described` — the packages that keep it.
-/

namespace ClientService.CoreMessage

variable {K : Codec} {asserts : Bool} {g : Process} {ts : String} {m : CoreMessage}

/-- The package is what it was after `toBytes`, a second packet is the same, and the package that a
decoder finds in the packet has the description that the sender's object reports. -/
structure Unchanged (K : Codec) (asserts : Bool) (g : Process) (m : CoreMessage) : Prop where
  intact : ∀ ts ok buf m', m.toBytes K asserts g ts = .ret (ok, buf, m') → m' = m
  twice : ∀ ts ok buf m', m.toBytes K asserts g ts = .ret (ok, buf, m') →
    ∀ ts' ok' buf' m'', m'.toBytes K asserts g ts' = .ret (ok', buf', m'') → buf' = buf
  description : ∀ ts ok buf m', m.toBytes K asserts g ts = .ret (ok, buf, m') →
    Sent.Deliverable K ⟨g, ts, m⟩ → ∀ id d,
      ProtobufPacketDecoder.readAll K asserts .fresh [⟨buf, id⟩] = .ret d →
        ∀ r, some r ∈ d.vec → r.description = m'.description

/-- A log has the description that `buildPBObj` would write. -/
def Described (m : CoreMessage) : Prop :=
  ∀ evts logNeedAccept, m.package = .log evts logNeedAccept → m.description = logDescription evts

/-! ## The package afterwards -/

/-- **Only the description of a log changes.** -/
theorem toProto_fst (g : Process) (ts : String) (m : CoreMessage) :
    (m.toProto g ts).1 =
      match m.package with
      | .log evts _ => { m with description := logDescription evts }
      | _ => m := by
  cases hp : m.package <;> simp [toProto, buildPBObj, hp]

theorem toProto_fst_eq_iff (g : Process) (ts : String) (m : CoreMessage) :
    (m.toProto g ts).1 = m ↔ m.Described := by
  rw [toProto_fst, Described]
  cases hp : m.package with
  | log evts ac =>
      simp only [Package.log.injEq]
      constructor
      · intro heq evts' ac' h
        rw [← h.1]
        exact (congrArg CoreMessage.description heq).symm
      · intro h
        rw [← h evts ac ⟨rfl, rfl⟩, ← hp]
  | _ => simp

/-- A package with a time stamp does not ask for the time. -/
theorem toProto_congr (hts : m.timeStamp ≠ "") (ts' : String) :
    m.toProto g ts = m.toProto g ts' := by
  rw [toProto, toProto, if_neg hts, if_neg hts]

/-! ## The packet -/

/-- A decoder finds in the packet the description that the package had before. -/
theorem description_readAll (hK : K.Lawful) {ok : Bool} {buf : List UInt8} {m' : CoreMessage}
    (henc : m.toBytes K asserts g ts = .ret (ok, buf, m'))
    (hdel : Sent.Deliverable K ⟨g, ts, m⟩) {id : Int32} {d : ProtobufPacketDecoder}
    (hread : ProtobufPacketDecoder.readAll K asserts .fresh [⟨buf, id⟩] = .ret d) {r : CoreMessage}
    (hr : some r ∈ d.vec) : r.description = m.description := by
  have hsent : ∀ s ∈ [Sent.mk g ts m], s.Deliverable K := by
    intro s hs
    rw [List.mem_singleton.mp hs]
    exact hdel
  have hencodes : List.Forall₂ (Sent.Encodes K) [Sent.mk g ts m] [buf] :=
    .cons ⟨asserts, ok, m', henc⟩ .nil
  have hstream : ProtobufPacketDecoder.stream [⟨buf, id⟩] = [buf].flatten ++ [] := by
    simp [ProtobufPacketDecoder.stream]
  obtain ⟨d', ms, hread', hvec, hms, -⟩ :=
    ProtobufPacketDecoder.readAll_toBytes hK asserts hsent hencodes (Or.inl rfl) hstream
  rw [hread, Outcome.ret.injEq] at hread'
  rw [hread', hvec] at hr
  cases hms with
  | cons hdec hnil =>
      cases hnil
      obtain ⟨i, i', hparse⟩ := hdec
      obtain ⟨m₁, i₁, hbuild, -, hfields⟩ := buildObj_toProto asserts g ts hdel.kind i
      rw [Sent.payload, parse_serialBuffer hK.parse_serialize, hbuild] at hparse
      simp only [Outcome.ret.injEq, Prod.mk.injEq, Option.some.injEq] at hparse
      simp only [List.map_cons, List.map_nil, List.mem_singleton, Option.some.injEq] at hr
      rw [hr, ← hparse.1]
      exact hfields.description

/-- **Encoding leaves a package as it is** exactly when it is no log, or has been encoded before
with these events. -/
theorem unchanged_iff (hK : K.Lawful) (hts : m.timeStamp ≠ "") :
    Unchanged K asserts g m ↔ m.Described := by
  constructor
  · intro h
    rw [← toProto_fst_eq_iff g ""]
    exact h.intact "" _ _ _ (toBytes_eq hK asserts g "" m)
  · intro h
    have hsame : ∀ {ts ok buf m'}, m.toBytes K asserts g ts = .ret (ok, buf, m') →
        m' = m ∧ buf = pkgBuffer K (m.serialBuffer K g ts) := by
      intro ts ok buf m' henc
      rw [toBytes_eq hK, (toProto_fst_eq_iff g ts m).mpr h] at henc
      cases henc
      exact ⟨rfl, rfl⟩
    refine ⟨?_, ?_, ?_⟩
    · intro ts ok buf m' henc
      exact (hsame henc).1
    · intro ts ok buf m' henc ts' ok' buf' m'' henc'
      obtain ⟨rfl, rfl⟩ := hsame henc
      rw [(hsame henc').2, serialBuffer, serialBuffer, toProto_congr hts ts]
    · intro ts ok buf m' henc hdel id d hread r hr
      rw [(hsame henc).1]
      exact description_readAll hK henc hdel hread hr

/-- A connect package is encoded again and again. -/
theorem unchanged_connect :
    Unchanged Sample.codec true Sample.process { Sample.connect with timeStamp := Sample.ts } := by
  refine (unchanged_iff Sample.codec_lawful (by decide)).mpr ?_
  intro evts ac h
  cases h

/-- A new log gets its description when it is encoded. -/
theorem not_unchanged_log :
    ¬ Unchanged Sample.codec true Sample.process
      { (logPackage [] true 7).1 with timeStamp := Sample.ts } := by
  intro h
  have heq := h.intact "" _ _ _ (toBytes_eq Sample.codec_lawful true Sample.process "" _)
  have hdesc : "LogPackage include ZERO Windows Event." = "" :=
    congrArg CoreMessage.description heq
  exact absurd hdesc (by decide)

end ClientService.CoreMessage
