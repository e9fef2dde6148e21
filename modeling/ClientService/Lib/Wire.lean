import Mathlib

/-!
# The protocol-buffer wire format

A serialized message is a sequence of records, each a field number with a varint or a
run of bytes. `Message` describes a message type by the records a value is written as and
by what one record does to a value being read; `Message.parse_serialize` reduces the round
trip of a type to a statement about its records, and `foldlM_optional` discharges that
statement one field at a time.
-/

namespace Wire

/-! ## Varints -/

/-- Seven bits a byte, lowest first; every byte but the last has its high bit set. -/
def varintAux : ℕ → ℕ → List UInt8
  | 0, n => [UInt8.ofNat n]
  | fuel + 1, n =>
      if n < 128 then [UInt8.ofNat n] else UInt8.ofNat (n % 128 + 128) :: varintAux fuel (n / 128)

def varint (n : ℕ) : List UInt8 := varintAux n n

/-- The varint at the head of a stream, and what follows it. -/
def readVarint : List UInt8 → Option (ℕ × List UInt8)
  | [] => none
  | b :: rest =>
      if b.toNat < 128 then some (b.toNat, rest)
      else do
        let (n, rest) ← readVarint rest
        some (b.toNat - 128 + 128 * n, rest)

theorem readVarint_varintAux {fuel n : ℕ} (h : n ≤ fuel) (rest : List UInt8) :
    readVarint (varintAux fuel n ++ rest) = some (n, rest) := by
  induction fuel generalizing n with
  | zero =>
      have h0 : n = 0 := by omega
      subst h0
      rfl
  | succ fuel ih =>
      by_cases hn : n < 128
      · have hb : (UInt8.ofNat n).toNat = n := by
          rw [UInt8.toNat_ofNat', Nat.mod_eq_of_lt (by omega)]
        simp only [varintAux, if_pos hn, List.cons_append, List.nil_append, readVarint, hb]
      · have hb : (UInt8.ofNat (n % 128 + 128)).toNat = n % 128 + 128 := by
          rw [UInt8.toNat_ofNat', Nat.mod_eq_of_lt (by omega)]
        have hbig : ¬n % 128 + 128 < 128 := by omega
        have hn' : n % 128 + 128 - 128 + 128 * (n / 128) = n := by omega
        simp only [varintAux, if_neg hn, List.cons_append, readVarint, hb, if_neg hbig,
          ih (show n / 128 ≤ fuel by omega), Option.bind_eq_bind, Option.bind_some, hn']

theorem readVarint_varint (n : ℕ) (rest : List UInt8) :
    readVarint (varint n ++ rest) = some (n, rest) := readVarint_varintAux (le_refl n) rest

theorem varint_ne_nil (n : ℕ) : varint n ≠ [] := by
  intro h
  have hread := readVarint_varint n []
  rw [h] at hread
  cases hread

/-! ## Records -/

/-- The value of a record. -/
inductive Value where
  | varint (n : ℕ)
  | bytes (data : List UInt8)
  deriving DecidableEq, Repr

/-- A field number and a value. -/
structure Record where
  field : ℕ
  value : Value
  deriving DecidableEq, Repr

/-- A record begins with its field number and the type of its value. -/
def Record.write (r : Record) : List UInt8 :=
  match r.value with
  | .varint n => Wire.varint (8 * r.field) ++ Wire.varint n
  | .bytes data => Wire.varint (8 * r.field + 2) ++ (Wire.varint data.length ++ data)

/-- The record at the head of a stream, and what follows it. -/
def readRecord (s : List UInt8) : Option (Record × List UInt8) := do
  let (tag, s) ← readVarint s
  let (n, s) ← readVarint s
  if tag % 8 = 0 then some (⟨tag / 8, .varint n⟩, s)
  else if tag % 8 = 2 ∧ n ≤ s.length then some (⟨tag / 8, .bytes (s.take n)⟩, s.drop n)
  else none

theorem readRecord_write (r : Record) (rest : List UInt8) :
    readRecord (r.write ++ rest) = some (r, rest) := by
  obtain ⟨k, v⟩ := r
  cases v with
  | varint n =>
      have h0 : 8 * k % 8 = 0 := by omega
      have hk : 8 * k / 8 = k := by omega
      simp only [readRecord, Record.write, List.append_assoc, readVarint_varint,
        Option.bind_eq_bind, Option.bind_some, h0, if_true, hk]
  | bytes data =>
      have h0 : ¬2 = 0 := by decide
      have h2 : (8 * k + 2) % 8 = 2 := by omega
      have hk : (8 * k + 2) / 8 = k := by omega
      have hlen : data.length ≤ (data ++ rest).length := by
        rw [List.length_append]
        omega
      simp only [readRecord, Record.write, List.append_assoc, readVarint_varint,
        Option.bind_eq_bind, Option.bind_some, h2, if_neg h0, hlen, and_self, if_true, hk,
        List.take_left, List.drop_left]

theorem write_ne_nil (r : Record) : r.write ≠ [] := by
  obtain ⟨k, v⟩ := r
  cases v with
  | varint n => simp [Record.write, varint_ne_nil]
  | bytes data => simp [Record.write, varint_ne_nil]

/-- All records of a stream. -/
def readRecordsAux : ℕ → List UInt8 → Option (List Record)
  | _, [] => some []
  | 0, _ :: _ => none
  | fuel + 1, b :: s => do
      let (r, rest) ← readRecord (b :: s)
      let rs ← readRecordsAux fuel rest
      some (r :: rs)

def readRecords (s : List UInt8) : Option (List Record) := readRecordsAux s.length s

theorem readRecordsAux_write {fuel : ℕ} {rs : List Record} (h : rs.length ≤ fuel) :
    readRecordsAux fuel (rs.flatMap Record.write) = some rs := by
  induction rs generalizing fuel with
  | nil => cases fuel <;> rfl
  | cons r rs ih =>
      obtain ⟨fuel, rfl⟩ : ∃ k, fuel = k + 1 := ⟨fuel - 1, by simp at h; omega⟩
      have hread := readRecord_write r (rs.flatMap Record.write)
      rw [List.flatMap_cons]
      cases hs : r.write ++ rs.flatMap Record.write with
      | nil => exact absurd (List.append_eq_nil_iff.mp hs).1 (write_ne_nil r)
      | cons b s =>
          rw [hs] at hread
          simp only [readRecordsAux, hread, Option.bind_eq_bind, Option.bind_some,
            ih (show rs.length ≤ fuel by simp at h; omega)]

theorem length_le_write (rs : List Record) : rs.length ≤ (rs.flatMap Record.write).length := by
  induction rs with
  | nil => rfl
  | cons r rs ih =>
      have hr : 0 < r.write.length := List.length_pos_iff.mpr (write_ne_nil r)
      rw [List.flatMap_cons, List.length_append, List.length_cons]
      omega

theorem readRecords_write (rs : List Record) :
    readRecords (rs.flatMap Record.write) = some rs := readRecordsAux_write (length_le_write rs)

/-! ## Messages -/

/-- A message type. -/
structure Message (α : Type*) where
  /-- The value with every field at its default. -/
  init : α
  /-- What a value is written as. -/
  records : α → List Record
  /-- What one record does to a value being read. -/
  merge : α → Record → Option α

namespace Message
variable {α : Type*} (M : Message α)

def serialize (a : α) : List UInt8 := (M.records a).flatMap Record.write

def parse (s : List UInt8) : Option α :=
  (readRecords s).bind fun rs => rs.foldlM M.merge M.init

/-- A type whose records rebuild its values has the round trip. -/
theorem parse_serialize {a : α} (h : (M.records a).foldlM M.merge M.init = some a) :
    M.parse (M.serialize a) = some a := by
  rw [parse, serialize, readRecords_write]
  exact h

end Message

/-- A field that is not written at its default. -/
def optional {β : Type*} [DecidableEq β] (v default : β) (r : Record) : List Record :=
  if v = default then [] else [r]

/-- Reading an optional field sets it, or leaves the default that it has. -/
theorem foldlM_optional {α β : Type*} [DecidableEq β] {merge : α → Record → Option α} {a b : α}
    {v default : β} {r : Record} (hset : v ≠ default → merge a r = some b)
    (hdefault : v = default → a = b) : (optional v default r).foldlM merge a = some b := by
  by_cases h : v = default
  · rw [optional, if_pos h, hdefault h]
    rfl
  · rw [optional, if_neg h, List.foldlM_cons, hset h]
    rfl

/-! ## Values of fields -/

def ofInt32 (i : Int32) : Value := .varint i.toInt64.toUInt64.toNat

/-- Negative numbers are written as 64-bit ones, and truncated when read. -/
def toInt32 : Value → Option Int32
  | .varint n => some (UInt64.ofNat n).toInt64.toInt32
  | .bytes _ => none

@[simp] theorem toInt32_ofInt32 (i : Int32) : toInt32 (ofInt32 i) = some i := by
  simp [ofInt32, toInt32]

def ofUInt32 (n : UInt32) : Value := .varint n.toNat

def toUInt32 : Value → Option UInt32
  | .varint n => some (UInt32.ofNat n)
  | .bytes _ => none

@[simp] theorem toUInt32_ofUInt32 (n : UInt32) : toUInt32 (ofUInt32 n) = some n := by
  simp [ofUInt32, toUInt32]

def ofBool (b : Bool) : Value := .varint b.toNat

def toBool : Value → Option Bool
  | .varint n => some (n != 0)
  | .bytes _ => none

@[simp] theorem toBool_ofBool (b : Bool) : toBool (ofBool b) = some b := by
  cases b <;> rfl

def ofString (s : String) : Value := .bytes s.toByteArray.data.toList

def toString : Value → Option String
  | .varint _ => none
  | .bytes data => String.fromUTF8? ⟨data.toArray⟩

@[simp] theorem toString_ofString (s : String) : toString (ofString s) = some s := by
  have hs : (⟨s.toByteArray.data.toList.toArray⟩ : ByteArray) = s.toByteArray := by
    rw [Array.toArray_toList]
  rw [ofString, toString, hs, String.fromUTF8?, dif_pos s.isValidUTF8]
  rfl

end Wire
