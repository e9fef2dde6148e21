import ClientService.Lib.Bounded

/-!
# The UUID in the firmware table

`GetDMIUUID` walks over the structures of the SMBIOS table to the first one of type 1. It counts
them up to the number of bytes in the table, and does not ask whether the pointer is still inside.
So it stays inside exactly when the table is empty, or has such a structure and room for the UUID.

## Main definitions

* `dmi_system_uuid`, `GetDMIUUID` — the walk.
* `System` — the first structure of type 1.
* `Firmware.Walks` — the promise.
-/

namespace ClientService

open Bounded (read find Pair FirstPair bind_of_ok bind_eq_ok)

def UUID_LENGTH : ℕ := 36

/-- `%02X`. -/
def hex2 (b : UInt8) : List Char := [(b.toNat / 16).digitChar.toUpper, (b.toNat % 16).digitChar.toUpper]

/-- In which order the bytes are printed, from version 2.6 on and before. -/
def uuidFormat (ver : Int16) : List (List ℕ) :=
  if 0x0206 ≤ ver then [[3, 2, 1, 0], [5, 4], [7, 6], [8, 9], [10, 11, 12, 13, 14, 15]]
  else [[], [0, 1, 2, 3], [4, 5], [6, 7], [8, 9], [10, 11, 12, 13, 14, 15]]

/-- What `snprintf` writes. -/
def uuidText (p : List UInt8) (ver : Int16) : List Char :=
  (['-'].intercalate ((uuidFormat ver).map fun group =>
    group.flatMap fun i => hex2 (p.getD i 0))).take (UUID_LENGTH + 2)

/-- The loop of `dmi_system_uuid`, with `n` bytes to go. -/
def onlyLoop (t : List UInt8) (p : ℕ) : ℕ → ℕ → Bool → Bool → Except ℕ (Bool × Bool)
  | 0, _, only0x00, only0xFF => .ok (only0x00, only0xFF)
  | n + 1, i, only0x00, only0xFF =>
      if only0x00 = true ∨ only0xFF = true then do
        let b ← read t (p + i)
        onlyLoop t p n (i + 1) (only0x00 && b = 0x00) (only0xFF && b = 0xFF)
      else .ok (only0x00, only0xFF)

/-- The bytes from position `p` on. -/
def readBytes (t : List UInt8) (p : ℕ) : ℕ → Except ℕ (List UInt8)
  | 0 => .ok []
  | n + 1 => do
      let b ← read t p
      let bs ← readBytes t (p + 1) n
      .ok (b :: bs)

/-- The UUID at position `p` of the table. -/
def dmi_system_uuid (t : List UInt8) (p : ℕ) (ver : Int16) : Except ℕ (Option String) := do
  let (only0x00, only0xFF) ← onlyLoop t p 16 0 true true
  if only0xFF = true ∨ only0x00 = true then .ok none
  else
    let bytes ← readBytes t p 16
    .ok (some (String.ofList (uuidText bytes ver)))

structure RawSMBIOSData where
  majorVersion : UInt8
  minorVersion : UInt8
  Length : UInt32
  biosData : List UInt8

namespace RawSMBIOSData

/-- The cast of the buffer. -/
def ofBuffer : List UInt8 → Except ℕ RawSMBIOSData
  | _ :: major :: minor :: _ :: a :: b :: c :: d :: biosData =>
      .ok { majorVersion := major
            minorVersion := minor
            Length := a.toUInt32 ||| b.toUInt32 <<< 8 ||| c.toUInt32 <<< 16 ||| d.toUInt32 <<< 24
            biosData := biosData }
  | buf => .error buf.length

/-- The version, cut to a `short`. -/
def version (sbios : RawSMBIOSData) : Int16 :=
  Int16.ofNat (sbios.majorVersion.toNat * 256 + sbios.minorVersion.toNat)

end RawSMBIOSData

/-- The double zero that ends the strings of a structure. -/
def doubleZero (a b : UInt8) : Prop := a = 0 ∧ b = 0

instance : ∀ a b, Decidable (doubleZero a b) := fun a b =>
  inferInstanceAs (Decidable (a = 0 ∧ b = 0))

/-- The loop of `GetDMIUUID`, with `n` rounds to go and `p` as the position. -/
def walkTable (t : List UInt8) (ver : Int16) : ℕ → ℕ → Except ℕ (Option String)
  | 0, _ => .ok none
  | n + 1, p => do
      let type ← read t p
      if type = 1 then dmi_system_uuid t (p + 0x8) ver
      else
        let length ← read t (p + 1)
        let q ← find doubleZero t (p + length.toNat)
        walkTable t ver n (q + 2)

/-- What `GetSystemFirmwareTable` returns, and the buffer that it fills. -/
structure Firmware where
  bufsize : UInt32
  /-- The second call succeeds. -/
  filled : Bool
  buf : List UInt8
  sized : buf.length = bufsize.toNat

/-- An error is the position of a read outside. -/
def GetDMIUUID (fw : Firmware) : Except ℕ (Option String) :=
  if fw.bufsize = 0 then .ok none
  else if fw.filled = false then .ok none
  else do
    let sbios ← RawSMBIOSData.ofBuffer fw.buf
    if sbios.Length ≠ fw.bufsize - 8 then .ok none
    else walkTable sbios.biosData sbios.version sbios.Length.toNat 0

/-! ## The structures of a table -/

/-- After the structure at `p` comes the one at `q`: the length of the formatted part, and then the
strings up to the first double zero. -/
def Next (t : List UInt8) (p q : ℕ) : Prop :=
  ∃ length z, t[p + 1]? = some length ∧ FirstPair doubleZero t (p + length.toNat) z ∧ q = z + 2

/-- From the structure at `p` on, the first one of type 1 is at `q`. -/
inductive System (t : List UInt8) : ℕ → ℕ → Prop
  | here {p : ℕ} (htype : t[p]? = some 1) : System t p p
  | next {p q r : ℕ} {type : UInt8} (htype : t[p]? = some type) (hne : type ≠ 1)
      (hnext : Next t p q) (hsystem : System t q r) : System t p r

/-- The 16 bytes at offset 8 of the structure at `p` are in the table. -/
def Fits (t : List UInt8) (p : ℕ) : Prop := p + 8 + 16 ≤ t.length

instance (t : List UInt8) (p : ℕ) : Decidable (Fits t p) :=
  inferInstanceAs (Decidable (p + 8 + 16 ≤ t.length))

namespace Firmware

/-- The buffer passes the check. -/
structure Passes (fw : Firmware) (sbios : RawSMBIOSData) : Prop where
  filled : fw.filled = true
  nonzero : fw.bufsize ≠ 0
  cast : RawSMBIOSData.ofBuffer fw.buf = .ok sbios
  length : sbios.Length = fw.bufsize - 8

/-- Nothing outside the table is read, and the UUID is that of the first structure of type 1. -/
structure Walks (fw : Firmware) (sbios : RawSMBIOSData) : Prop where
  inside : ∀ e, GetDMIUUID fw ≠ .error e
  passed : ∀ p, System sbios.biosData 0 p → Fits sbios.biosData p →
    GetDMIUUID fw = dmi_system_uuid sbios.biosData (p + 8) sbios.version
  null : (∀ p, System sbios.biosData 0 p → ¬Fits sbios.biosData p) → GetDMIUUID fw = .ok none

end Firmware

/-! ## The 16 bytes -/

section
variable {t : List UInt8} {p q n : ℕ} {ver : Int16}

theorem read_of_lt (h : p < t.length) : read t p = .ok t[p] :=
  Bounded.read_of_some (List.getElem?_eq_getElem h)

theorem onlyLoop_of_fits {i : ℕ} (only0x00 only0xFF : Bool) (h : p + i + n ≤ t.length) :
    ∃ flags, onlyLoop t p n i only0x00 only0xFF = .ok flags := by
  induction n generalizing i only0x00 only0xFF with
  | zero => exact ⟨_, rfl⟩
  | succ n ih =>
      by_cases hgoes : only0x00 = true ∨ only0xFF = true
      · rw [onlyLoop, if_pos hgoes, bind_of_ok (read_of_lt (by omega))]
        exact ih _ _ (by omega)
      · exact ⟨_, by rw [onlyLoop, if_neg hgoes]⟩

/-- Bytes that are all the same have all been read. -/
theorem fits_of_onlyLoop {i : ℕ} {only0x00 only0xFF : Bool} {flags : Bool × Bool}
    (h : onlyLoop t p (n + 1) i only0x00 only0xFF = .ok flags)
    (hflags : flags.2 = true ∨ flags.1 = true) : p + i + n < t.length := by
  induction n generalizing i only0x00 only0xFF with
  | zero =>
      by_cases hgoes : only0x00 = true ∨ only0xFF = true
      · rw [onlyLoop, if_pos hgoes, bind_eq_ok] at h
        obtain ⟨b, hb, -⟩ := h
        exact (List.getElem?_eq_some_iff.mp (Bounded.read_eq_ok.mp hb)).1
      · rw [onlyLoop, if_neg hgoes, Except.ok.injEq] at h
        rw [← h] at hflags
        exact absurd hflags.symm hgoes
  | succ n ih =>
      by_cases hgoes : only0x00 = true ∨ only0xFF = true
      · rw [onlyLoop, if_pos hgoes, bind_eq_ok] at h
        obtain ⟨b, -, h⟩ := h
        have hfits := ih h
        omega
      · rw [onlyLoop, if_neg hgoes, Except.ok.injEq] at h
        rw [← h] at hflags
        exact absurd hflags.symm hgoes

theorem readBytes_of_fits (h : p + n ≤ t.length) :
    readBytes t p n = .ok ((t.drop p).take n) := by
  induction n generalizing p with
  | zero => rfl
  | succ n ih =>
      have hdrop : t.drop p = t[p] :: t.drop (p + 1) := List.drop_eq_getElem_cons (by omega)
      rw [readBytes, bind_of_ok (read_of_lt (by omega)), bind_of_ok (ih (by omega)), hdrop,
        List.take_succ_cons]

theorem fits_of_readBytes {bs : List UInt8} (h : readBytes t p (n + 1) = .ok bs) :
    p + n < t.length := by
  induction n generalizing p bs with
  | zero =>
      rw [readBytes, bind_eq_ok] at h
      obtain ⟨b, hb, -⟩ := h
      exact (List.getElem?_eq_some_iff.mp (Bounded.read_eq_ok.mp hb)).1
  | succ n ih =>
      rw [readBytes, bind_eq_ok] at h
      obtain ⟨b, -, h⟩ := h
      rw [bind_eq_ok] at h
      obtain ⟨bs', hbs', -⟩ := h
      have hfits := ih hbs'
      omega

/-- **All 16 bytes are read**, also when the loop stops early. -/
theorem dmi_system_uuid_isOk_iff :
    (∃ uuid, dmi_system_uuid t p ver = .ok uuid) ↔ p + 16 ≤ t.length := by
  constructor
  · rintro ⟨uuid, h⟩
    rw [dmi_system_uuid, bind_eq_ok] at h
    obtain ⟨⟨only0x00, only0xFF⟩, hflags, h⟩ := h
    by_cases honly : only0xFF = true ∨ only0x00 = true
    · have hfits := fits_of_onlyLoop hflags honly
      omega
    · simp only [if_neg honly] at h
      rw [bind_eq_ok] at h
      obtain ⟨bytes, hbytes, -⟩ := h
      have hfits := fits_of_readBytes hbytes
      omega
  · intro hfits
    obtain ⟨⟨only0x00, only0xFF⟩, hflags⟩ :=
      onlyLoop_of_fits (i := 0) true true (show p + 0 + 16 ≤ t.length from hfits)
    rw [dmi_system_uuid, bind_of_ok hflags]
    by_cases honly : only0xFF = true ∨ only0x00 = true
    · exact ⟨none, if_pos honly⟩
    · simp only [if_neg honly, bind_of_ok (readBytes_of_fits hfits)]
      exact ⟨_, rfl⟩

/-- `snprintf` does not cut the text. -/
theorem uuidText_length (bytes : List UInt8) (ver : Int16) :
    (uuidText bytes ver).length = if 0x0206 ≤ ver then UUID_LENGTH else UUID_LENGTH + 1 := by
  by_cases hver : 0x0206 ≤ ver
  · simp [uuidText, uuidFormat, hver, hex2, UUID_LENGTH, List.intercalate]
  · simp [uuidText, uuidFormat, hver, hex2, UUID_LENGTH, List.intercalate]

/-! ## The walk -/

theorem Next.unique {r : ℕ} (h : Next t p q) (h' : Next t p r) : q = r := by
  obtain ⟨length, z, hlength, hz, rfl⟩ := h
  obtain ⟨length', z', hlength', hz', rfl⟩ := h'
  rw [hlength] at hlength'
  cases hlength'
  rw [hz.unique hz']

theorem Next.lt (h : Next t p q) : p + 1 < q ∧ q ≤ t.length := by
  obtain ⟨length, z, -, hz, rfl⟩ := h
  have hle := hz.le
  have hlt := hz.pair.lt
  omega

/-- There is one first structure of type 1 at most. -/
theorem System.unique {r : ℕ} (h : System t p q) (h' : System t p r) : q = r := by
  induction h with
  | here htype =>
      cases h' with
      | here _ => rfl
      | next htype' hne =>
          rw [htype] at htype'
          exact absurd (Option.some.inj htype').symm hne
  | next htype hne hnext _ ih =>
      cases h' with
      | here htype' =>
          rw [htype] at htype'
          exact absurd (Option.some.inj htype') hne
      | next _ _ hnext' hsystem' =>
          rw [hnext.unique hnext'] at ih
          exact ih hsystem'

/-- A round that goes on to the next structure. -/
theorem walkTable_next {type : UInt8} (htype : t[p]? = some type) (hne : type ≠ 1)
    (hnext : Next t p q) : walkTable t ver (n + 1) p = walkTable t ver n q := by
  obtain ⟨length, z, hlength, hz, rfl⟩ := hnext
  rw [walkTable, bind_of_ok (Bounded.read_of_some htype), if_neg hne,
    bind_of_ok (Bounded.read_of_some hlength), bind_of_ok (Bounded.find_eq_ok.mpr hz)]

/-- **The walk comes to the structure of type 1**: the rounds suffice, as every structure has two
bytes at least. -/
theorem walkTable_of_system (h : System t p q) (hrounds : t.length ≤ p + n) :
    walkTable t ver n p = dmi_system_uuid t (q + 8) ver := by
  induction h generalizing n with
  | @here p htype =>
      have hlt := (List.getElem?_eq_some_iff.mp htype).1
      obtain ⟨m, rfl⟩ : ∃ m, n = m + 1 := ⟨n - 1, by omega⟩
      rw [walkTable, bind_of_ok (Bounded.read_of_some htype), if_pos rfl]
  | @next p q r type htype hne hnext _ ih =>
      have hlt := (List.getElem?_eq_some_iff.mp htype).1
      obtain ⟨m, rfl⟩ : ∃ m, n = m + 1 := ⟨n - 1, by omega⟩
      have hq := hnext.lt
      rw [walkTable_next htype hne hnext]
      exact ih (by omega)

/-- **A walk that stays inside** ends at a structure of type 1. -/
theorem system_of_walkTable {uuid : Option String} (h : walkTable t ver n p = .ok uuid)
    (hpos : 0 < n) (hrounds : t.length ≤ p + n) : ∃ q, System t p q ∧ Fits t q := by
  induction n generalizing p with
  | zero => omega
  | succ n ih =>
      rw [walkTable, bind_eq_ok] at h
      obtain ⟨type, htype, h⟩ := h
      rw [Bounded.read_eq_ok] at htype
      by_cases hone : type = 1
      · rw [if_pos hone] at h
        rw [hone] at htype
        exact ⟨p, .here htype, dmi_system_uuid_isOk_iff.mp ⟨uuid, h⟩⟩
      · rw [if_neg hone, bind_eq_ok] at h
        obtain ⟨length, hlength, h⟩ := h
        rw [bind_eq_ok] at h
        obtain ⟨z, hz, h⟩ := h
        have hnext : Next t p (z + 2) :=
          ⟨length, z, Bounded.read_eq_ok.mp hlength, Bounded.find_eq_ok.mp hz, rfl⟩
        have hq := hnext.lt
        obtain ⟨q, hsystem, hfits⟩ := ih h (by omega) (by omega)
        exact ⟨q, .next htype hone hnext hsystem, hfits⟩

end

namespace Firmware
variable {fw : Firmware} {sbios : RawSMBIOSData}

theorem length_ofBuffer {buf : List UInt8} (h : RawSMBIOSData.ofBuffer buf = .ok sbios) :
    buf.length = sbios.biosData.length + 8 := by
  unfold RawSMBIOSData.ofBuffer at h
  split at h
  · cases h
    rfl
  · cases h

/-- The table is as long as it says. -/
theorem Passes.length_eq (h : fw.Passes sbios) :
    sbios.Length.toNat = sbios.biosData.length := by
  have hbuf := length_ofBuffer h.cast
  have hsized := fw.sized
  have hle : (8 : UInt32) ≤ fw.bufsize := by
    rw [UInt32.le_iff_toNat_le]
    change 8 ≤ fw.bufsize.toNat
    omega
  rw [h.length, UInt32.toNat_sub_of_le _ _ hle]
  change fw.bufsize.toNat - 8 = _
  omega

theorem Passes.walk (h : fw.Passes sbios) :
    GetDMIUUID fw = walkTable sbios.biosData sbios.version sbios.biosData.length 0 := by
  rw [GetDMIUUID, if_neg h.nonzero, if_neg (by rw [h.filled]; decide), bind_of_ok h.cast,
    if_neg (not_not.mpr h.length), h.length_eq]

/-- **When the walk stays in the table**: when the table is empty, or has a structure of type 1 with
room for the UUID that comes after structures that all end in the table. -/
theorem walks_iff (h : fw.Passes sbios) :
    fw.Walks sbios ↔
      sbios.biosData = [] ∨ ∃ p, System sbios.biosData 0 p ∧ Fits sbios.biosData p := by
  constructor
  · intro hwalks
    by_cases hempty : sbios.biosData = []
    · exact Or.inl hempty
    · right
      have hpos := List.length_pos_of_ne_nil hempty
      cases hget : GetDMIUUID fw with
      | error e => exact absurd hget (hwalks.inside e)
      | ok uuid =>
          rw [h.walk] at hget
          exact system_of_walkTable hget hpos (by omega)
  · rintro (hempty | ⟨p, hsystem, hfits⟩)
    · have hnull : GetDMIUUID fw = .ok none := by
        rw [h.walk, hempty]
        rfl
      refine ⟨fun e he => ?_, fun p _ hfits => ?_, fun _ => hnull⟩
      · rw [hnull] at he
        cases he
      · rw [hempty, Fits] at hfits
        simp at hfits
    · have hget : GetDMIUUID fw = dmi_system_uuid sbios.biosData (p + 8) sbios.version := by
        rw [h.walk, walkTable_of_system hsystem (by omega)]
      obtain ⟨uuid, huuid⟩ : ∃ uuid, dmi_system_uuid sbios.biosData (p + 8) sbios.version = .ok uuid :=
        dmi_system_uuid_isOk_iff.mpr hfits
      refine ⟨fun e he => ?_, fun q hq _ => ?_, fun hnone => absurd hfits (hnone p hsystem)⟩
      · rw [hget, huuid] at he
        cases he
      · rw [hget, hsystem.unique hq]

end Firmware

namespace Sample

/-- The answer for a short table of version 2.8. -/
def rawTable (biosData : List UInt8) (h : 8 + biosData.length < 256) : Firmware where
  bufsize := UInt32.ofNat (8 + biosData.length)
  filled := true
  buf := [0, 2, 8, 0, UInt8.ofNat biosData.length, 0, 0, 0] ++ biosData
  sized := by
    rw [UInt32.toNat_ofNat_of_lt' (Nat.lt_trans h (by decide)), List.length_append]
    rfl

/-- The structure with the UUID, and the end of the table. -/
def systemTable : List UInt8 :=
  [1, 24, 0, 0, 0, 0, 0, 0, 1, 2, 3, 4, 5, 6, 7, 8, 9, 10, 11, 12, 13, 14, 15, 16, 0, 0,
    127, 4, 1, 0, 0, 0]

/-- Only the end of the table. -/
def endTable : List UInt8 := [127, 4, 1, 0, 0, 0]

end Sample

namespace Firmware

theorem walks_system : ∃ sbios, (Sample.rawTable Sample.systemTable (by decide)).Walks sbios := by
  have hcast : RawSMBIOSData.ofBuffer (Sample.rawTable Sample.systemTable (by decide)).buf =
      .ok ⟨2, 8, 32, Sample.systemTable⟩ := rfl
  have hpasses : (Sample.rawTable Sample.systemTable (by decide)).Passes _ :=
    ⟨rfl, by decide, hcast, by decide⟩
  exact ⟨_, (walks_iff hpasses).mpr (Or.inr ⟨0, .here rfl, by decide⟩)⟩

/-- The walk goes on behind the end of the table. -/
theorem not_walks_end :
    ∃ sbios, (Sample.rawTable Sample.endTable (by decide)).Passes sbios ∧
      ¬(Sample.rawTable Sample.endTable (by decide)).Walks sbios := by
  have hcast : RawSMBIOSData.ofBuffer (Sample.rawTable Sample.endTable (by decide)).buf =
      .ok ⟨2, 8, 6, Sample.endTable⟩ := rfl
  exact ⟨_, ⟨rfl, by decide, hcast, by decide⟩, fun hwalks => hwalks.inside 6 rfl⟩

end Firmware

end ClientService
