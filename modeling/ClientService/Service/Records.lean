import ClientService.Service.Enumerate

/-!
# Each record from its own data

`EnumerateResults` reads every record of a batch into one `Event`. A field whose element is
missing keeps what an earlier record left there, or what the memory held: the number fields of the
first event are not initialised. An element without a text ends the process. The text of a message
is thrown away.

## Main definitions

* `Extracted` — a record gives the event that its own XML determines.
* `OwnData` — the promise for the records of a batch.
* `Complete` — the records that keep it.
-/

namespace ClientService

/-! ## The promise -/

/-- The message of the publisher, when `EvtFormatMessage` can produce one. -/
def messageText : FormatMessage → Option String
  | .insufficientBuffer text => some text
  | .success | .notFound | .failed => none

/-- The metadata of the event's publisher is open, or can be opened. -/
def Known (metadata : List String) (h : Handle) (evt : Event) : Prop :=
  evt.provider ∈ metadata ∨ h.published = true

instance (metadata : List String) (h : Handle) (evt : Event) : Decidable (Known metadata h evt) :=
  inferInstanceAs (Decidable (_ ∨ _))

/-- The format that the event of a record should have. -/
def rightFormat (metadata : List String) (h : Handle) (evt : Event) : String :=
  if Known metadata h evt then (messageText h.message).getD evt.xml else ""

/-- With the variables `s`, the body of the loop returns and has appended the event `own`, with its
format, unless its record id is below `ignore`. -/
def Extracted (own : Event) (ignore : UInt32) (h : Handle) (x : EventXml) (s : Enumeration) :
    Prop :=
  ∃ s', enumerateRecord ignore h 0 x s = some s' ∧ s'.sent =
    if ignore ≤ own.rid then s.sent ++ [{ own with format := rightFormat s.metadata h own }]
    else s.sent

/-- The variables before the loop: the texts of the event are empty, its numbers are not
initialised. -/
structure Enumeration.Begins (s : Enumeration) : Prop where
  xml : s.e.xml = ""
  format : s.e.format = ""
  timeStamp : s.e.timeStamp = ""
  provider : s.e.provider = ""

/-- The record gives the event `own` whatever records are before it, when the loop comes to it. -/
def Steady (own : Event) (ignore : UInt32) (h : Handle) (x : EventXml) : Prop :=
  ∀ before : List Handle, (∀ b ∈ before, b.printed.isSome) → ∀ s : Enumeration, s.Begins →
    ∀ r ∈ enumerateLoop ignore before 0 s, Extracted own ignore h x r.2

/-- The events of a batch, in order, when each record gives the event `own` of its XML and the
publishers in `metadata` are open. -/
def extractions (own : EventXml → Event) (ignore : UInt32) :
    List Handle → List String → List Event
  | [], _ => []
  | h :: hs, metadata =>
      match h.printed with
      | none => []
      | some x =>
          if ignore ≤ (own x).rid then
            { own x with format := rightFormat metadata h (own x) } ::
              extractions own ignore hs (formatEvent (own x) h metadata).2
          else extractions own ignore hs metadata

/-- Each record of the batch gives the event that its XML determines, whatever records are before
it, and the loop returns with these events in order. -/
def OwnData (ignore : UInt32) (hs : List Handle) : Prop :=
  ∃ own : EventXml → Event,
    (∀ h ∈ hs, ∀ x ∈ h.printed, Steady (own x) ignore h x) ∧
    ∀ s : Enumeration, s.Begins → ∃ b s', enumerateLoop ignore hs 0 s = some (b, s') ∧
      s'.sent = s.sent ++ extractions own ignore hs s.metadata

/-! ## The condition -/

/-- What a record needs that is appended. -/
structure Whole (ignore : UInt32) (h : Handle) (x : EventXml) (system : SystemElement) : Prop where
  level : system.level.isSome = true
  /-- Nothing is left over from earlier records when none of them is skipped. -/
  provider : ignore = 0 ∨ system.provider.isSome = true
  timeCreated : ignore = 0 ∨ system.timeCreated.isSome = true
  /-- The message is thrown away, and the XML takes its place. -/
  message : ∀ text ∈ messageText h.message, text = x.xml

/-- No element is without its text, and the record has an id and, unless it is skipped, all that is
read from it. -/
def Complete (ignore : UInt32) (h : Handle) (x : EventXml) : Prop :=
  ∃ system ∈ x.system, system.Readable ∧ ∃ text, system.eventRecordID = some (some text) ∧
    (ignore ≤ (atoi text).toUInt32 → Whole ignore h x system)

/-! ## One record -/

/-- An event with nothing in it. -/
def Event.blank : Event where
  xml := ""
  format := ""
  timeStamp := ""
  provider := ""
  llevel := .verbose
  level := 0
  rid := 0

section
variable {ignore : UInt32} {h : Handle} {x : EventXml} {system : SystemElement} {s : Enumeration}

theorem formatEvent_fst (evt : Event) (h : Handle) (metadata : List String) :
    (formatEvent evt h metadata).1 =
      { evt with format := if Known metadata h evt then evt.xml else "" } := by
  have hnone : getMessageString h.message = none := by
    cases h.message <;> rfl
  rw [formatEvent]
  by_cases hmem : evt.provider ∈ metadata
  · simp [Known, hmem, hnone]
  · by_cases hpub : h.published = true
    · simp [Known, hmem, hpub, hnone]
    · simp [Known, hmem, hpub]

theorem formatEvent_snd (evt : Event) (h : Handle) (metadata : List String) :
    (formatEvent evt h metadata).2 =
      if evt.provider ∈ metadata then metadata
      else if h.published = true then metadata ++ [evt.provider]
      else metadata := by
  rw [formatEvent]
  by_cases hmem : evt.provider ∈ metadata
  · simp only [if_pos hmem]
  · by_cases hpub : h.published = true
    · simp only [if_neg hmem, if_pos hpub]
    · simp only [if_neg hmem, if_neg hpub]

/-- What the body of the loop appends. -/
theorem addRecord_sent (i : ℕ) (evt : Event) :
    (addRecord ignore h i evt s).sent =
      if ignore ≤ evt.rid then
        s.sent ++ [{ evt with format := if Known s.metadata h evt then evt.xml else "" }]
      else s.sent := by
  rw [addRecord]
  by_cases hle : ignore ≤ evt.rid
  · simp only [if_pos hle, formatEvent_fst]
  · simp only [if_neg hle]

/-- An element that is there has a text. -/
theorem join_of_readable {element : Option (Option String)} (hreadable : element ≠ some none)
    (hsome : element.isSome = true) : ∃ text, element = some (some text) := by
  obtain ⟨_ | text, helement⟩ := Option.isSome_iff_exists.mp hsome
  · exact absurd helement hreadable
  · exact ⟨text, helement⟩

/-- Where everything is read from the record, what the event held before does not matter. -/
theorem parsed_whole {text : String} (hsystem : x.system = some system)
    (hreadable : system.Readable) (htext : system.eventRecordID = some (some text))
    (hw : Whole ignore h x system)
    (hclean : ignore = 0 → s.e.provider = "" ∧ s.e.timeStamp = "") (format : String) :
    { s.e.parsed x with format := format } = { Event.blank.parsed x with format := format } := by
  obtain ⟨hlevel, _, hprovider, htime⟩ := hreadable
  obtain ⟨level, hlevel⟩ := join_of_readable hlevel hw.level
  rw [Event.parsed_of_system hsystem, Event.parsed_of_system hsystem]
  by_cases h0 : ignore = 0
  · obtain ⟨hp, ht⟩ := hclean h0
    simp [Event.fill, htext, hlevel, hp, ht, Event.blank]
  · obtain ⟨p, hp⟩ := join_of_readable hprovider (hw.provider.resolve_left h0)
    obtain ⟨t, ht⟩ := join_of_readable htime (hw.timeCreated.resolve_left h0)
    simp [Event.fill, htext, hlevel, hp, ht]

/-! ## The loop -/

/-- When no record is skipped, the event has no text when the loop comes to a record. -/
def Enumeration.Clean (ignore : UInt32) (s : Enumeration) : Prop :=
  ignore = 0 → s.e.provider = "" ∧ s.e.timeStamp = ""

theorem Enumeration.Begins.clean (hs : s.Begins) : s.Clean ignore := fun _ =>
  ⟨hs.provider, hs.timeStamp⟩

theorem clean_addRecord (i : ℕ) (evt : Event) : (addRecord ignore h i evt s).Clean ignore := by
  intro h0
  have hle : ignore ≤ evt.rid := by
    rw [h0, UInt32.le_iff_toNat_le]
    exact Nat.zero_le _
  rw [addRecord, if_pos hle]
  exact ⟨rfl, rfl⟩

theorem Enumerated.clean {before : List Handle} {i : ℕ} {b : Bool} {s' : Enumeration}
    (hrun : Enumerated ignore before i s b s') (hs : s.Clean ignore) : s'.Clean ignore := by
  induction hrun with
  | done => exact hs
  | stopped => exact hs
  | record _ _ _ ih => exact ih (clean_addRecord _ _)

/-- The id of a record that has one. -/
theorem rid_parsed {text : String} (hsystem : x.system = some system)
    (htext : system.eventRecordID = some (some text)) (evt : Event) :
    (evt.parsed x).rid = (atoi text).toUInt32 := by
  rw [Event.parsed_of_system hsystem, Event.fill, htext]
  rfl

/-- **A complete record** that is appended leaves nothing to the event before it. -/
theorem Complete.event (hx : Complete ignore h x) (hclean : s.Clean ignore) :
    (ignore ≤ (s.e.parsed x).rid ↔ ignore ≤ (Event.blank.parsed x).rid) ∧
      (ignore ≤ (Event.blank.parsed x).rid →
        (messageText h.message).getD x.xml = x.xml ∧
        ∀ format, { s.e.parsed x with format := format } =
          { Event.blank.parsed x with format := format }) := by
  obtain ⟨system, hsystem, hreadable, text, htext, hwhole⟩ := hx
  rw [rid_parsed hsystem htext, rid_parsed hsystem htext]
  refine ⟨Iff.rfl, fun hle => ?_⟩
  have hw := hwhole hle
  constructor
  · cases hmessage : messageText h.message with
    | none => rfl
    | some message => exact hw.message message hmessage
  · exact parsed_whole hsystem hreadable htext hw hclean

theorem Complete.readable (hx : Complete ignore h x) : x.Readable := by
  obtain ⟨system, hsystem, hreadable, _⟩ := hx
  intro system' hsystem'
  rw [Option.mem_def.mp hsystem, Option.mem_some_iff] at hsystem'
  rwa [← hsystem']

/-- The body of the loop returns when the record can be read. -/
theorem extracted_iff {own : Event} : Extracted own ignore h x s ↔ x.Readable ∧
    (addRecord ignore h 0 (s.e.parsed x) s).sent =
      if ignore ≤ own.rid then s.sent ++ [{ own with format := rightFormat s.metadata h own }]
      else s.sent := by
  rw [Extracted]
  simp only [enumerateRecord_eq_some]
  constructor
  · rintro ⟨s', ⟨hreadable, rfl⟩, hsent⟩
    exact ⟨hreadable, hsent⟩
  · rintro ⟨hreadable, hsent⟩
    exact ⟨_, ⟨hreadable, rfl⟩, hsent⟩

/-- A complete record gives its event. -/
theorem Complete.extracted (hx : Complete ignore h x) (hclean : s.Clean ignore) :
    Extracted (Event.blank.parsed x) ignore h x s := by
  obtain ⟨hrid, hevent⟩ := hx.event hclean
  refine extracted_iff.mpr ⟨hx.readable, ?_⟩
  rw [addRecord_sent]
  by_cases hle : ignore ≤ (Event.blank.parsed x).rid
  · obtain ⟨hmessage, hsame⟩ := hevent hle
    have hprovider : (s.e.parsed x).provider = (Event.blank.parsed x).provider := by
      have heq := congrArg Event.provider (hsame "")
      exact heq
    rw [if_pos hle, if_pos (hrid.mpr hle), hsame]
    simp only [Known, hprovider, rightFormat, Event.parsed_xml, hmessage]
  · rw [if_neg hle, if_neg (mt hrid.mp hle)]

/-- The publishers that are open after a complete record. -/
theorem Complete.metadata (hx : Complete ignore h x) (hclean : s.Clean ignore) (i : ℕ) :
    (addRecord ignore h i (s.e.parsed x) s).metadata =
      if ignore ≤ (Event.blank.parsed x).rid then
        (formatEvent (Event.blank.parsed x) h s.metadata).2
      else s.metadata := by
  obtain ⟨hrid, hevent⟩ := hx.event hclean
  rw [addRecord]
  by_cases hle : ignore ≤ (Event.blank.parsed x).rid
  · have hprovider : (s.e.parsed x).provider = (Event.blank.parsed x).provider := by
      have heq := congrArg Event.provider ((hevent hle).2 "")
      exact heq
    simp only [if_pos hle, if_pos (hrid.mpr hle), formatEvent_snd, hprovider]
  · simp only [if_neg hle, if_neg (mt hrid.mp hle)]

/-- A batch of complete records gives their events, in order. -/
theorem Enumerated.sent {hs : List Handle} {i : ℕ} {b : Bool} {s' : Enumeration}
    (hrun : Enumerated ignore hs i s b s')
    (hcomplete : ∀ h ∈ hs, ∀ x ∈ h.printed, Complete ignore h x) (hclean : s.Clean ignore) :
    s'.sent = s.sent ++ extractions Event.blank.parsed ignore hs s.metadata := by
  induction hrun with
  | done => simp [extractions]
  | stopped hs i s hprinted => simp [extractions, hprinted]
  | @record h hs i x s s' b hprinted hreadable hrest ih =>
      have hx := hcomplete h List.mem_cons_self x hprinted
      have hsent := (extracted_iff.mp (hx.extracted hclean)).2
      rw [addRecord_sent] at hsent
      rw [ih (fun h' hh' => hcomplete h' (List.mem_cons_of_mem _ hh')) (clean_addRecord _ _),
        hx.metadata hclean, addRecord_sent, hsent, extractions, hprinted]
      by_cases hle : ignore ≤ (Event.blank.parsed x).rid
      · simp [if_pos hle]
      · simp [if_neg hle]

/-! ## What the promise takes -/

/-- The variables at the beginning, with the given numbers and open publishers. -/
def Enumeration.begin (level rid : UInt32) (metadata : List String) : Enumeration where
  e := { Event.blank with level := level, rid := rid }
  sent := []
  metadata := metadata
  closed := []

theorem begins_begin (level rid : UInt32) (metadata : List String) :
    (Enumeration.begin level rid metadata).Begins := ⟨rfl, rfl, rfl, rfl⟩

/-- What is appended is the event `own`. -/
theorem Extracted.event {own : Event} (hx : Extracted own ignore h x s) :
    (ignore ≤ (s.e.parsed x).rid ↔ ignore ≤ own.rid) ∧
      (ignore ≤ own.rid →
        { s.e.parsed x with
          format := if Known s.metadata h (s.e.parsed x) then x.xml else "" } =
        { own with format := rightFormat s.metadata h own }) := by
  obtain ⟨_, hx⟩ := extracted_iff.mp hx
  rw [addRecord_sent, Event.parsed_xml] at hx
  by_cases hle : ignore ≤ (s.e.parsed x).rid
  · by_cases hown : ignore ≤ own.rid
    · rw [if_pos hle, if_pos hown] at hx
      exact ⟨iff_of_true hle hown, fun _ => by simpa using hx⟩
    · simp [if_pos hle, if_neg hown] at hx
  · by_cases hown : ignore ≤ own.rid
    · simp [if_neg hle, if_pos hown] at hx
    · exact ⟨iff_of_false hle hown, fun h => absurd h hown⟩

/-- The first record of a batch. -/
theorem Steady.first {own : Event} (hx : Steady own ignore h x) (level rid : UInt32)
    (metadata : List String) :
    Extracted own ignore h x (Enumeration.begin level rid metadata) :=
  hx [] (by simp) _ (begins_begin level rid metadata) _ rfl

/-- A record of an event that is kept is the event `own`, with its format. -/
theorem Steady.kept {own : Event} (hx : Steady own ignore h x) (hle : ignore ≤ own.rid)
    (level rid : UInt32) (metadata : List String) (format : String) :
    { (Enumeration.begin level rid metadata).e.parsed x with format := format } =
      { own with format := format } := by
  have heq := ((hx.first level rid metadata).event).2 hle
  exact congrArg (fun evt : Event => { evt with format := format }) heq

theorem rid_parsed_of_none (hnone : ∀ system ∈ x.system, system.eventRecordID = none)
    (evt : Event) : (evt.parsed x).rid = evt.rid := by
  cases hsystem : x.system with
  | none => simp [Event.parsed, hsystem]
  | some system =>
      rw [Event.parsed_of_system hsystem, Event.fill, hnone system hsystem]
      rfl

/-- A record without an id takes whatever number the memory holds. -/
theorem Steady.eventRecordID {own : Event} (hx : Steady own ignore h x) :
    ∃ system ∈ x.system, ∃ element, system.eventRecordID = some element := by
  by_contra hnot
  have hnone : ∀ system ∈ x.system, system.eventRecordID = none := by
    intro system hsystem
    cases htext : system.eventRecordID with
    | none => rfl
    | some text => exact absurd ⟨system, hsystem, text, htext⟩ hnot
  have hmax := (hx.first 0 4294967295 []).event
  have hmin := (hx.first 0 0 []).event
  rw [rid_parsed_of_none hnone] at hmax hmin
  have hle : ignore ≤ own.rid := by
    refine hmax.1.mp ?_
    rw [UInt32.le_iff_toNat_le]
    exact Nat.le_of_lt_succ ignore.toNat_lt
  have hown : ∀ rid, own.rid = rid := by
    intro rid
    have heq := congrArg Event.rid (hx.kept hle 0 rid [] "")
    rw [show (_ : Event).rid = rid from rid_parsed_of_none hnone _] at heq
    exact heq.symm
  exact absurd ((hown 0).symm.trans (hown 1)) (by decide)

/-- A record without a level takes whatever number the memory holds. -/
theorem Steady.level {own : Event} (hx : Steady own ignore h x) (hle : ignore ≤ own.rid)
    (hsystem : x.system = some system) : system.level.isSome = true := by
  cases hlevel : system.level with
  | some _ => rfl
  | none =>
      have hown : ∀ level, own.level = level := by
        intro level
        have heq := congrArg Event.level (hx.kept hle level 0 [] "")
        rw [Event.parsed_of_system hsystem, Event.fill, hlevel] at heq
        exact heq.symm
      exact absurd ((hown 0).symm.trans (hown 1)) (by decide)

/-! ## A skipped record -/

/-- A record with the id zero. -/
def skipped : Handle where
  printed := some ⟨"", some ⟨none, some "0", some "skipped", some "skipped"⟩⟩
  published := false
  message := .failed

/-- A skipped record leaves its texts to the next. -/
theorem enumerateLoop_skipped (h0 : ignore ≠ 0) :
    ∃ r ∈ enumerateLoop ignore [skipped] 0 (Enumeration.begin 0 0 []), r.2.e =
      { Event.blank with provider := "skipped", timeStamp := "skipped" } := by
  have hatoi : (atoi "0").toUInt32 = 0 := by decide
  have hnot : ¬ ignore ≤ (0 : UInt32) := by
    intro hle
    exact h0 (UInt32.le_antisymm hle (UInt32.le_iff_toNat_le.mpr (Nat.zero_le _)))
  rw [enumerateLoop_cons rfl (by decide)]
  refine ⟨_, rfl, ?_⟩
  simp [addRecord, Event.parsed, Event.fill, hatoi, hnot, Enumeration.begin, Event.blank]

/-- A record after a skipped one. -/
theorem Steady.after_skipped {own : Event} (hx : Steady own ignore h x) (hle : ignore ≤ own.rid)
    (h0 : ignore ≠ 0) (format : String) :
    { ({ Event.blank with provider := "skipped", timeStamp := "skipped" } : Event).parsed x with
      format := format } = { own with format := format } := by
  have hrendered : ∀ b ∈ [skipped], b.printed.isSome = true := by simp [skipped]
  obtain ⟨r, hr, he⟩ := enumerateLoop_skipped h0
  have hafter := (hx [skipped] hrendered _ (begins_begin 0 0 []) r hr).event.2 hle
  rw [he] at hafter
  exact congrArg (fun evt : Event => { evt with format := format }) hafter

theorem Steady.provider {own : Event} (hx : Steady own ignore h x) (hle : ignore ≤ own.rid)
    (h0 : ignore ≠ 0) (hsystem : x.system = some system) : system.provider.isSome = true := by
  cases hprovider : system.provider with
  | some _ => rfl
  | none =>
      have hfirst := congrArg Event.provider (hx.kept hle 0 0 [] "")
      have hafter := congrArg Event.provider (hx.after_skipped hle h0 "")
      rw [Event.parsed_of_system hsystem, Event.fill, hprovider] at hfirst hafter
      have hempty : own.provider = "" := hfirst.symm
      have hleft : own.provider = "skipped" := hafter.symm
      exact absurd (hempty.symm.trans hleft) (by decide)

theorem Steady.timeCreated {own : Event} (hx : Steady own ignore h x) (hle : ignore ≤ own.rid)
    (h0 : ignore ≠ 0) (hsystem : x.system = some system) : system.timeCreated.isSome = true := by
  cases htime : system.timeCreated with
  | some _ => rfl
  | none =>
      have hfirst := congrArg Event.timeStamp (hx.kept hle 0 0 [] "")
      have hafter := congrArg Event.timeStamp (hx.after_skipped hle h0 "")
      rw [Event.parsed_of_system hsystem, Event.fill, htime] at hfirst hafter
      have hempty : own.timeStamp = "" := hfirst.symm
      have hleft : own.timeStamp = "skipped" := hafter.symm
      exact absurd (hempty.symm.trans hleft) (by decide)

/-- The format of a record whose publisher is open is its XML. -/
theorem Steady.message {own : Event} (hx : Steady own ignore h x) (hle : ignore ≤ own.rid) :
    ∀ text ∈ messageText h.message, text = x.xml := by
  intro text htext
  have hevent := ((hx.first 0 0 [own.provider]).event).2 hle
  have hprovider : ((Enumeration.begin 0 0 [own.provider]).e.parsed x).provider =
      own.provider := by
    have heq := congrArg Event.provider (hx.kept hle 0 0 [own.provider] "")
    exact heq
  have hformat := congrArg Event.format hevent
  have hmem : own.provider ∈ (Enumeration.begin 0 0 [own.provider]).metadata :=
    List.mem_cons_self
  simp only [Known, hprovider, rightFormat, hmem, true_or, if_true] at hformat
  rw [Option.mem_def.mp htext] at hformat
  exact hformat.symm

/-- A steady record is complete. -/
theorem Steady.complete {own : Event} (hx : Steady own ignore h x) : Complete ignore h x := by
  obtain ⟨system, hsystem, element, helement⟩ := hx.eventRecordID
  have hreadable := (extracted_iff.mp (hx.first 0 0 [])).1 system hsystem
  obtain ⟨text, htext⟩ := join_of_readable hreadable.2.1 (by rw [helement]; rfl)
  refine ⟨system, hsystem, hreadable, text, htext, fun hle => ?_⟩
  have hown : ignore ≤ own.rid := by
    refine (hx.first 0 0 []).event.1.mp ?_
    rw [rid_parsed hsystem htext]
    exact hle
  exact
    { level := hx.level hown hsystem
      provider := or_iff_not_imp_left.mpr fun h0 => hx.provider hown h0 hsystem
      timeCreated := or_iff_not_imp_left.mpr fun h0 => hx.timeCreated hown h0 hsystem
      message := hx.message hown }

/-- **Each record of a batch gives its own event** exactly when none has an element without a text,
each has an id, and those that are appended have a level and, when records may be skipped, a
provider and a time, and no message that differs from their XML. -/
theorem ownData_iff (hs : List Handle) :
    OwnData ignore hs ↔ ∀ h ∈ hs, ∀ x ∈ h.printed, Complete ignore h x := by
  constructor
  · intro hown h hh x hx
    obtain ⟨own, hsteady, -⟩ := hown
    exact (hsteady h hh x hx).complete
  · intro hcomplete
    refine ⟨Event.blank.parsed, ?_, ?_⟩
    · intro h hh x hx before hbefore s hs r hr
      exact (hcomplete h hh x hx).extracted ((enumerateLoop_spec hr).clean hs.clean)
    · intro s hs
      obtain ⟨⟨b, s'⟩, hrun⟩ := Option.isSome_iff_exists.mp
        (enumerateLoop_isSome (i := 0) (s := s) fun h hh x hx => (hcomplete h hh x hx).readable)
      exact ⟨b, s', hrun, (enumerateLoop_spec hrun).sent hcomplete hs.clean⟩

/-- A record with everything in it and a message. -/
def withMessage : Handle where
  printed := some ⟨"<Event/>", some ⟨some "4", some "7", some "Service", some "2020"⟩⟩
  published := true
  message := .insufficientBuffer "The service started."

/-- The message of a record is thrown away. -/
theorem not_ownData_message : ¬ OwnData 0 [withMessage] := by
  intro hown
  obtain ⟨own, hsteady, -⟩ := hown
  obtain ⟨system, hsystem, _, text, htext, hwhole⟩ :=
    (hsteady withMessage List.mem_cons_self _ rfl).complete
  have hle : (0 : UInt32) ≤ (atoi text).toUInt32 :=
    UInt32.le_iff_toNat_le.mpr (Nat.zero_le _)
  exact absurd ((hwhole hle).message _ rfl) (by decide)

end
end ClientService
