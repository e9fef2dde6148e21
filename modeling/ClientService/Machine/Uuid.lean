import ClientService.Lib.UuidText
import ClientService.Machine.Smbios
import ClientService.Protobuf.Packet

/-!
# The machine id

`dmi_system_uuid` prints the 16 bytes of the firmware as a UUID. The format for firmware before
version 2.6 begins with a dash, and a text that begins with one is no UUID: `MachineID` then does
not get through its first assertion. The version is a `short`, so that it is negative for a major
version of 128 or more, and the old format is taken for these as well.

## Main definitions

* `UuidFromStringA`, `UuidToStringA`, `MachineID`: the machine id.
* `readFirmware`: the bytes that a text stands for.
* `Rendered`: the promise.
-/

namespace ClientService

open UuidText (swapFields)

/-! ## `MachineID` -/

/-- A `UUID` in memory: the first three fields are numbers with the least byte in front. -/
abbrev Uuid := List UInt8

/-- `UuidFromStringA`: no text stands for the nil UUID. `uuid` is what the variable holds after a
failure. -/
def UuidFromStringA (uuid : Uuid) : Option String → Bool × Uuid
  | none => (true, List.replicate 16 0)
  | some s =>
      match UuidText.read s.toList with
      | some bytes => (true, swapFields bytes)
      | none => (false, uuid)

/-- `UuidToStringA`. -/
def UuidToStringA (uuid : Uuid) : List Char := UuidText.write UuidText.hexLower (swapFields uuid)

/-- The text of which the machine id is a digest. -/
def machineText (bios product : Uuid) : List Char := UuidToStringA bios ++ '+' :: UuidToStringA product

/-- `MachineID`, for the texts that `GetDMIUUID` and `GetProductID` return. -/
def MachineID (K : Codec) (asserts : Bool) (bios product : Uuid)
    (biosUUID windowsMachineID : Option String) : Outcome String := do
  let (status, bios) := UuidFromStringA bios biosUUID
  Outcome.assert asserts (status = true)
  let (status, product) := UuidFromStringA product windowsMachineID
  Outcome.assert asserts (status = true)
  -- `UuidToStringA` fails only for want of memory.
  let result := (machineText bios product).take (UUID_LENGTH * 2 + 1)
  let sha := (K.sha256 (result.map fun c => UInt8.ofNat c.toNat)).val
  .ret (String.ofList ((UuidToStringA (sha.take 16)).take UUID_LENGTH))

/-! ## The promise -/

/-- The bytes of the firmware all are `0x00` or all are `0xFF`: there is no UUID. -/
def Uniform (bytes : List UInt8) : Prop := (∀ b ∈ bytes, b = 0x00) ∨ ∀ b ∈ bytes, b = 0xFF

instance (bytes : List UInt8) : Decidable (Uniform bytes) :=
  inferInstanceAs (Decidable ((∀ b ∈ bytes, b = 0x00) ∨ ∀ b ∈ bytes, b = 0xFF))

/-- The version is 2.6 or later. -/
def Swapped (major minor : UInt8) : Prop := 2 < major ∨ major = 2 ∧ 6 ≤ minor

instance (major minor : UInt8) : Decidable (Swapped major minor) :=
  inferInstanceAs (Decidable (2 < major ∨ major = 2 ∧ 6 ≤ minor))

/-- The bytes of the firmware that a text stands for. -/
def readFirmware (major minor : UInt8) (s : String) : Option (List UInt8) :=
  (UuidText.read s.toList).map fun bytes =>
    if Swapped major minor then swapFields bytes else bytes

/-- The version as `GetDMIUUID` hands it on. -/
def version (major minor : UInt8) : Int16 :=
  RawSMBIOSData.version { majorVersion := major, minorVersion := minor, Length := 0, biosData := [] }

/-- What `dmi_system_uuid` returns for the version and the bytes. -/
def rendered (major minor : UInt8) (bytes : Vector UInt8 16) : Except ℕ (Option String) :=
  dmi_system_uuid bytes.toList 0 (version major minor)

/-- The UUID is printed in its standard form. -/
structure Rendered (major minor : UInt8) (bytes : Vector UInt8 16) : Prop where
  null : rendered major minor bytes = .ok none ↔ Uniform bytes.toList
  text : ¬Uniform bytes.toList → ∃ s, rendered major minor bytes = .ok (some s) ∧
    s.length = UUID_LENGTH ∧ readFirmware major minor s = some bytes.toList
  parsed : ∀ biosUUID, rendered major minor bytes = .ok biosUUID →
    ∀ uuid, (UuidFromStringA uuid biosUUID).1 = true
  different : ∀ (bytes' : Vector UInt8 16) (s : String), rendered major minor bytes = .ok (some s) →
    rendered major minor bytes' = .ok (some s) → bytes = bytes'

/-! ## The loop -/

section
variable {t : List UInt8} {p : ℕ}

/-- The loop tells whether all bytes are `0x00` and whether all are `0xFF`, also when it stops
early. -/
theorem onlyLoop_eq {n i : ℕ} (h : p + i + n ≤ t.length) (only0x00 only0xFF : Bool) :
    onlyLoop t p n i only0x00 only0xFF =
      .ok (only0x00 && ((t.drop (p + i)).take n).all (· = 0x00),
        only0xFF && ((t.drop (p + i)).take n).all (· = 0xFF)) := by
  induction n generalizing i only0x00 only0xFF with
  | zero => simp [onlyLoop]
  | succ n ih =>
      by_cases hgoes : only0x00 = true ∨ only0xFF = true
      · have hi : p + i < t.length := by omega
        have hnext := ih (i := i + 1) (by omega) (only0x00 && t[p + i] = 0x00)
          (only0xFF && t[p + i] = 0xFF)
        rw [onlyLoop, if_pos hgoes, Bounded.bind_of_ok (read_of_lt hi), hnext,
          List.drop_eq_getElem_cons hi, List.take_succ_cons, List.all_cons, List.all_cons,
          Bool.and_assoc, Bool.and_assoc]
        rfl
      · obtain ⟨h0x00, h0xFF⟩ := not_or.mp hgoes
        rw [Bool.not_eq_true] at h0x00 h0xFF
        simp [onlyLoop, h0x00, h0xFF]

/-- **The 16 bytes decide.** -/
theorem dmi_system_uuid_eq (h : p + 16 ≤ t.length) (ver : Int16) :
    dmi_system_uuid t p ver =
      .ok (if Uniform ((t.drop p).take 16) then none
        else some (String.ofList (uuidText ((t.drop p).take 16) ver))) := by
  rw [dmi_system_uuid, Bounded.bind_of_ok (onlyLoop_eq (i := 0) h true true)]
  have huniform : (((t.drop p).take 16).all (· = 0xFF) = true ∨
      ((t.drop p).take 16).all (· = 0x00) = true) ↔ Uniform ((t.drop p).take 16) := by
    rw [or_comm]
    simp only [List.all_eq_true, decide_eq_true_eq, Uniform]
  by_cases hu : Uniform ((t.drop p).take 16)
  · simp only [Bool.true_and, Nat.add_zero, huniform, if_pos hu]
  · simp only [Bool.true_and, Nat.add_zero, huniform, if_neg hu,
      Bounded.bind_of_ok (readBytes_of_fits h)]

end

/-! ## The texts -/

theorem hexValue_toUpper : ∀ d < 16, UuidText.hexValue d.digitChar.toUpper = some d := by decide

theorem writes_hex2 : UuidText.Writes hex2 where
  digits := by
    intro b
    have hb := b.toNat_lt
    refine ⟨_, _, rfl, hexValue_toUpper _ ?_, hexValue_toUpper _ ?_⟩
    · omega
    · omega

section
variable {bytes : List UInt8} {ver : Int16}

/-- From version 2.6 on. -/
theorem uuidText_of_le (h : 0x0206 ≤ ver) (hlen : bytes.length = 16) :
    uuidText bytes ver = UuidText.write hex2 (swapFields bytes) := by
  have hwrite := UuidText.length_write writes_hex2
    ((UuidText.length_swapFields bytes).trans hlen)
  have htext : uuidText bytes ver = (UuidText.write hex2 (swapFields bytes)).take 38 := by
    obtain ⟨b, rfl⟩ := UuidText.exists_ofFn hlen
    rw [uuidText, uuidFormat, if_pos h]
    rfl
  rw [htext]
  apply List.take_of_length_le
  omega

/-- Before it, the format has one dash more. -/
theorem uuidText_of_not_le (h : ¬0x0206 ≤ ver) (hlen : bytes.length = 16) :
    uuidText bytes ver = '-' :: UuidText.write hex2 bytes := by
  have hwrite := UuidText.length_write writes_hex2 hlen
  have htext : uuidText bytes ver = ('-' :: UuidText.write hex2 bytes).take 38 := by
    obtain ⟨b, rfl⟩ := UuidText.exists_ofFn hlen
    rw [uuidText, uuidFormat, if_neg h]
    rfl
  rw [htext]
  apply List.take_of_length_le
  rw [List.length_cons]
  omega

/-- Different bytes have different texts. -/
theorem uuidText_injective {bytes' : List UInt8} (hlen : bytes.length = 16)
    (hlen' : bytes'.length = 16) (h : uuidText bytes ver = uuidText bytes' ver) :
    bytes = bytes' := by
  by_cases hver : 0x0206 ≤ ver
  · rw [uuidText_of_le hver hlen, uuidText_of_le hver hlen'] at h
    have hswap := UuidText.write_injective writes_hex2
      ((UuidText.length_swapFields bytes).trans hlen)
      ((UuidText.length_swapFields bytes').trans hlen') h
    rw [← UuidText.swapFields_swapFields hlen, hswap, UuidText.swapFields_swapFields hlen']
  · rw [uuidText_of_not_le hver hlen, uuidText_of_not_le hver hlen'] at h
    exact UuidText.write_injective writes_hex2 hlen hlen' (List.cons.inj h).2

end

/-! ## The version -/

/-- The comparison of the two bytes as a `short`. -/
theorem le_version_iff (major minor : UInt8) :
    0x0206 ≤ version major minor ↔ Swapped major minor ∧ major < 128 := by
  have hmajor := major.toNat_lt
  have hminor := minor.toNat_lt
  rw [Int16.le_iff_toInt_le, version, RawSMBIOSData.version, Int16.toInt_ofNat', Swapped,
    UInt8.lt_iff_toNat_lt, UInt8.lt_iff_toNat_lt, UInt8.le_iff_toNat_le, ← UInt8.toNat_inj]
  change (518 : ℤ) ≤ _ ↔ (2 < _ ∨ _ = 2 ∧ 6 ≤ _) ∧ _ < 128
  rw [Int.bmod_def]
  push_cast
  split <;> omega

/-! ## What becomes of the texts -/

theorem length_UuidToStringA {uuid : Uuid} (h : uuid.length = 16) :
    (UuidToStringA uuid).length = UUID_LENGTH :=
  UuidText.length_write UuidText.writes_hexLower ((UuidText.length_swapFields uuid).trans h)

theorem UuidToStringA_injective {uuid uuid' : Uuid} (h : uuid.length = 16) (h' : uuid'.length = 16)
    (heq : UuidToStringA uuid = UuidToStringA uuid') : uuid = uuid' := by
  have hswap := UuidText.write_injective UuidText.writes_hexLower
    ((UuidText.length_swapFields uuid).trans h) ((UuidText.length_swapFields uuid').trans h') heq
  rw [← UuidText.swapFields_swapFields h, hswap, UuidText.swapFields_swapFields h']

/-- The buffer has room for both texts, and tells them apart. -/
theorem machineText_injective {bios product bios' product' : Uuid} (hb : bios.length = 16)
    (hp : product.length = 16) (hb' : bios'.length = 16) (hp' : product'.length = 16)
    (heq : (machineText bios product).take (UUID_LENGTH * 2 + 1) =
      (machineText bios' product').take (UUID_LENGTH * 2 + 1)) :
    bios = bios' ∧ product = product' := by
  have hroom : ∀ {b p : Uuid}, b.length = 16 → p.length = 16 →
      (machineText b p).take (UUID_LENGTH * 2 + 1) = machineText b p := by
    intro b p hb hp
    apply List.take_of_length_le
    rw [machineText, List.length_append, List.length_cons, length_UuidToStringA hb,
      length_UuidToStringA hp]
    simp [UUID_LENGTH]
  rw [hroom hb hp, hroom hb' hp'] at heq
  have hsame := (length_UuidToStringA hb).trans (length_UuidToStringA hb').symm
  obtain ⟨hbios, hproduct⟩ := List.append_inj heq hsame
  exact ⟨UuidToStringA_injective hb hb' hbios,
    UuidToStringA_injective hp hp' (List.cons.inj hproduct).2⟩

/-- With its assertions, `MachineID` returns exactly when both texts are UUIDs. -/
theorem machineID_returns_iff (K : Codec) (bios product : Uuid)
    (biosUUID windowsMachineID : Option String) :
    (∃ id, MachineID K true bios product biosUUID windowsMachineID = .ret id) ↔
      (UuidFromStringA bios biosUUID).1 = true ∧
        (UuidFromStringA product windowsMachineID).1 = true := by
  rw [MachineID]
  by_cases hbios : (UuidFromStringA bios biosUUID).1 = true
  · by_cases hproduct : (UuidFromStringA product windowsMachineID).1 = true
    · simp [hbios, hproduct]
    · simp [hbios, hproduct, Outcome.assert_enabled]
  · simp [hbios, Outcome.assert_enabled]

/-! ## The main result -/

section
variable (major minor : UInt8) (bytes : Vector UInt8 16)

theorem rendered_eq :
    rendered major minor bytes =
      .ok (if Uniform bytes.toList then none
        else some (String.ofList (uuidText bytes.toList (version major minor)))) := by
  have hlen : bytes.toList.length = 16 := Vector.length_toList
  have heq := dmi_system_uuid_eq (t := bytes.toList) (p := 0) (by omega) (version major minor)
  rw [List.drop_zero, List.take_of_length_le (by omega)] at heq
  exact heq

variable {major minor bytes}

theorem rendered_eq_some {s : String} (h : rendered major minor bytes = .ok (some s)) :
    ¬Uniform bytes.toList ∧ s = String.ofList (uuidText bytes.toList (version major minor)) := by
  rw [rendered_eq] at h
  by_cases hu : Uniform bytes.toList
  · rw [if_pos hu] at h
    cases h
  · rw [if_neg hu] at h
    cases h
    exact ⟨hu, rfl⟩

theorem rendered_eq_none_iff : rendered major minor bytes = .ok none ↔ Uniform bytes.toList := by
  rw [rendered_eq]
  by_cases hu : Uniform bytes.toList
  · rw [if_pos hu]
    exact iff_of_true rfl hu
  · rw [if_neg hu]
    exact iff_of_false nofun hu

/-- **Different UUIDs** have different texts, in either format. -/
theorem rendered_injective {bytes' : Vector UInt8 16} {s : String}
    (h : rendered major minor bytes = .ok (some s))
    (h' : rendered major minor bytes' = .ok (some s)) : bytes = bytes' := by
  have hs := (rendered_eq_some h).2
  have hs' := (rendered_eq_some h').2
  rw [hs'] at hs
  rw [← Vector.toList_inj]
  exact uuidText_injective Vector.length_toList Vector.length_toList (String.ofList_injective hs.symm)

theorem UuidFromStringA_of_readFirmware {s : String} {b : List UInt8} (uuid : Uuid)
    (h : readFirmware major minor s = some b) : (UuidFromStringA uuid (some s)).1 = true := by
  obtain ⟨b', hread, _⟩ := Option.map_eq_some_iff.mp h
  simp only [UuidFromStringA, hread]

/-- The new format is the standard one, and the old format is not. -/
theorem readFirmware_iff :
    readFirmware major minor (String.ofList (uuidText bytes.toList (version major minor))) =
      some bytes.toList ↔ Swapped major minor ∧ major < 128 := by
  have hlen : bytes.toList.length = 16 := Vector.length_toList
  have hver := le_version_iff major minor
  by_cases h : 0x0206 ≤ version major minor
  · refine iff_of_true ?_ (hver.mp h)
    rw [readFirmware, uuidText_of_le h hlen, String.toList_ofList,
      UuidText.read_write writes_hex2 ((UuidText.length_swapFields _).trans hlen), Option.map_some,
      if_pos (hver.mp h).1, UuidText.swapFields_swapFields hlen]
  · refine iff_of_false ?_ (fun hnew => h (hver.mpr hnew))
    rw [readFirmware, uuidText_of_not_le h hlen, String.toList_ofList, UuidText.read_dash]
    exact nofun

/-- **The firmware UUID.** It is printed in its standard form exactly from version 2.6 on, as long
as the version is not negative as a `short`. -/
theorem rendered_iff (major minor : UInt8) (bytes : Vector UInt8 16) :
    Rendered major minor bytes ↔
      Uniform bytes.toList ∨ (Swapped major minor ∧ major < 128) := by
  have heq := rendered_eq major minor bytes
  constructor
  · intro h
    by_cases hu : Uniform bytes.toList
    · exact Or.inl hu
    · obtain ⟨s, hs, _, hread⟩ := h.text hu
      rw [(rendered_eq_some hs).2] at hread
      exact Or.inr (readFirmware_iff.mp hread)
  · intro h
    have hnew : ¬Uniform bytes.toList → Swapped major minor ∧ major < 128 := h.resolve_left
    refine ⟨rendered_eq_none_iff, ?_, ?_, fun _ _ => rendered_injective⟩
    · intro hu
      have hver := (le_version_iff major minor).mpr (hnew hu)
      refine ⟨_, heq.trans (by rw [if_neg hu]), ?_, readFirmware_iff.mpr (hnew hu)⟩
      rw [String.length_ofList, uuidText_length, if_pos hver]
    · intro biosUUID hbios uuid
      cases biosUUID with
      | none => rfl
      | some s =>
          obtain ⟨hu, hs⟩ := rendered_eq_some hbios
          have hread : readFirmware major minor s = some bytes.toList := by
            rw [hs]
            exact readFirmware_iff.mpr (hnew hu)
          exact UuidFromStringA_of_readFirmware uuid hread

end

/-- The bytes from 0 to 15. -/
def sampleUuid : Vector UInt8 16 := #v[0, 1, 2, 3, 4, 5, 6, 7, 8, 9, 10, 11, 12, 13, 14, 15]

example : rendered 2 6 sampleUuid = .ok (some "03020100-0504-0706-0809-0A0B0C0D0E0F") := by
  decide +kernel

/-- The oldest firmware that the old format is for. -/
theorem not_rendered_old : ¬∀ (major minor : UInt8) (bytes : Vector UInt8 16),
    Rendered major minor bytes := by
  intro h
  have htext : rendered 2 5 sampleUuid = .ok (some "-00010203-0405-0607-0809-0A0B0C0D0E0F") := by
    decide +kernel
  have hfails : (UuidFromStringA [] (some "-00010203-0405-0607-0809-0A0B0C0D0E0F")).1 ≠ true := by
    decide +kernel
  exact hfails ((h 2 5 sampleUuid).parsed _ htext [])

end ClientService
