import Mathlib

/-!
# UUIDs as text

The standard text of 16 bytes: groups of 8, 4, 4, 4 and 12 hexadecimal digits with dashes between
them, where either case of a letter will do. A firmware may store the numbers of the first three
groups with the least byte in front; `swapFields` turns one order into the other.

## Main definitions

* `UuidText.write`: the text, for a way to write a byte.
* `UuidText.read`: the bytes of a text.
* `read_write`: nothing is lost.
-/

namespace UuidText

/-! ## Bytes -/

def hexValue (c : Char) : Option ℕ :=
  if '0' ≤ c ∧ c ≤ '9' then some (c.toNat - '0'.toNat)
  else if 'a' ≤ c ∧ c ≤ 'f' then some (c.toNat - 'a'.toNat + 10)
  else if 'A' ≤ c ∧ c ≤ 'F' then some (c.toNat - 'A'.toNat + 10)
  else none

/-- Two digits for each byte. -/
def readHex : List Char → Option (List UInt8)
  | [] => some []
  | [_] => none
  | high :: low :: s => do
      let h ← hexValue high
      let l ← hexValue low
      let bytes ← readHex s
      some (UInt8.ofNat (16 * h + l) :: bytes)

/-- A way to write a byte with two digits. -/
structure Writes (hex : UInt8 → List Char) : Prop where
  digits : ∀ b, ∃ high low, hex b = [high, low] ∧ hexValue high = some (b.toNat / 16) ∧
    hexValue low = some (b.toNat % 16)

/-- Lower case and upper case. -/
def hexLower (b : UInt8) : List Char := [(b.toNat / 16).digitChar, (b.toNat % 16).digitChar]

theorem hexValue_digitChar : ∀ d < 16, hexValue d.digitChar = some d := by decide

theorem writes_hexLower : Writes hexLower where
  digits := by
    intro b
    have hb := b.toNat_lt
    refine ⟨_, _, rfl, hexValue_digitChar _ ?_, hexValue_digitChar _ ?_⟩
    · omega
    · omega

section
variable {hex : UInt8 → List Char}

theorem Writes.length (h : Writes hex) (bytes : List UInt8) :
    (bytes.flatMap hex).length = 2 * bytes.length := by
  induction bytes with
  | nil => rfl
  | cons b bytes ih =>
      obtain ⟨high, low, hb, _, _⟩ := h.digits b
      rw [List.flatMap_cons, List.length_append, ih, hb, List.length_cons]
      simp
      omega

/-- A dash is no digit. -/
theorem Writes.dash (h : Writes hex) (bytes : List UInt8) : '-' ∉ bytes.flatMap hex := by
  intro hmem
  obtain ⟨b, _, hb⟩ := List.mem_flatMap.mp hmem
  obtain ⟨high, low, hdigits, hhigh, hlow⟩ := h.digits b
  have hdash : hexValue '-' = none := by decide
  rw [hdigits, List.mem_cons, List.mem_singleton] at hb
  rcases hb with hb | hb
  · rw [← hb, hdash] at hhigh
    cases hhigh
  · rw [← hb, hdash] at hlow
    cases hlow

theorem Writes.readHex (h : Writes hex) (bytes : List UInt8) :
    readHex (bytes.flatMap hex) = some bytes := by
  induction bytes with
  | nil => rfl
  | cons b bytes ih =>
      obtain ⟨high, low, hb, hhigh, hlow⟩ := h.digits b
      have hbyte : UInt8.ofNat (16 * (b.toNat / 16) + b.toNat % 16) = b := by
        rw [Nat.div_add_mod, UInt8.ofNat_toNat]
      rw [List.flatMap_cons, hb]
      simp only [List.cons_append, List.nil_append, UuidText.readHex, hhigh, hlow, ih,
        Option.bind_eq_bind, Option.bind_some, hbyte]

end

/-! ## The groups -/

/-- The bytes of each group. -/
def groups (bytes : List UInt8) : List (List UInt8) :=
  [bytes.take 4, (bytes.drop 4).take 2, (bytes.drop 6).take 2, (bytes.drop 8).take 2, bytes.drop 10]

/-- The text of 16 bytes. -/
def write (hex : UInt8 → List Char) (bytes : List UInt8) : List Char :=
  ['-'].intercalate ((groups bytes).map fun group => group.flatMap hex)

/-- The bytes of a text, in the order of the digits. -/
def read (s : List Char) : Option (List UInt8) :=
  if (s.splitOn '-').map List.length = [8, 4, 4, 4, 12] then
    ((s.splitOn '-').mapM readHex).map List.flatten
  else none

/-- The first three fields from the other end. -/
def swapFields (bytes : List UInt8) : List UInt8 :=
  (bytes.take 4).reverse ++ ((bytes.drop 4).take 2).reverse ++ ((bytes.drop 6).take 2).reverse ++
    bytes.drop 8

theorem flatten_groups (bytes : List UInt8) : (groups bytes).flatten = bytes := by
  have h2 : ∀ k, (bytes.drop k).take 2 ++ bytes.drop (k + 2) = bytes.drop k := by
    intro k
    rw [← List.drop_drop, List.take_append_drop]
  simp [groups, h2]

/-- The standard text has 36 characters. -/
theorem length_write {hex : UInt8 → List Char} (h : Writes hex) {bytes : List UInt8}
    (hlen : bytes.length = 16) : (write hex bytes).length = 36 := by
  simp only [write, groups, List.map_cons, List.map_nil, List.intercalate, List.intersperse]
  simp [h.length, hlen]

theorem lengths_groups {hex : UInt8 → List Char} (h : Writes hex) {bytes : List UInt8}
    (hlen : bytes.length = 16) :
    ((groups bytes).map fun group => group.flatMap hex).map List.length = [8, 4, 4, 4, 12] := by
  simp [groups, h.length, hlen]

/-- **Nothing is lost.** The text of 16 bytes is read as these bytes. -/
theorem read_write {hex : UInt8 → List Char} (h : Writes hex) {bytes : List UInt8}
    (hlen : bytes.length = 16) : read (write hex bytes) = some bytes := by
  have hdash : ∀ l ∈ (groups bytes).map fun group => group.flatMap hex, '-' ∉ l := by
    intro l hl
    obtain ⟨group, _, rfl⟩ := List.mem_map.mp hl
    exact h.dash group
  have hsplit : (write hex bytes).splitOn '-' = (groups bytes).map fun group => group.flatMap hex :=
    List.splitOn_intercalate '-' hdash (by simp [groups])
  have hread : ((groups bytes).map fun group => group.flatMap hex).mapM readHex =
      some (groups bytes) := by
    simp [groups, h.readHex]
  rw [read, hsplit, if_pos (lengths_groups h hlen), hread, Option.map_some, flatten_groups]

theorem write_injective {hex : UInt8 → List Char} (h : Writes hex) {bytes bytes' : List UInt8}
    (hlen : bytes.length = 16) (hlen' : bytes'.length = 16)
    (heq : write hex bytes = write hex bytes') : bytes = bytes' := by
  have hread := read_write h hlen
  rw [heq, read_write h hlen'] at hread
  exact (Option.some.inj hread).symm

/-- A text that begins with a dash is not in the standard form. -/
theorem read_dash (s : List Char) : read ('-' :: s) = none := by
  have hsplit : ('-' :: s).splitOn '-' = [] :: s.splitOn '-' :=
    List.splitOn_append_cons_self [] s
  rw [read, hsplit]
  simp

/-! ## The order of the bytes -/

/-- The bytes one by one. -/
theorem exists_ofFn {bytes : List UInt8} (hlen : bytes.length = 16) :
    ∃ b : Fin 16 → UInt8, bytes = List.ofFn b := by
  refine ⟨fun i => bytes.get (i.cast hlen.symm), List.ext_getElem ?_ ?_⟩
  · rw [List.length_ofFn, hlen]
  · intro i h h'
    rw [List.getElem_ofFn]
    rfl

theorem length_swapFields (bytes : List UInt8) : (swapFields bytes).length = bytes.length := by
  simp [swapFields]
  omega

/-- Twice swapped is not swapped. -/
theorem swapFields_swapFields {bytes : List UInt8} (hlen : bytes.length = 16) :
    swapFields (swapFields bytes) = bytes := by
  obtain ⟨b, rfl⟩ := exists_ofFn hlen
  rfl

end UuidText
