import ClientService.Lib.Timestamp
import ClientService.Protobuf.RoundTrip

/-!
# The time stamp of a package

`initGetTimestamp` keeps the zone as a suffix in the global `timeBias`, and `getTimeStamp` writes
the local time in front of it. Two things get lost: `%d` writes the milliseconds without zeros in
front, so that `.5` stands for five of them, and the division of the bias by an hour drops its
minutes.

## Main definitions

* `initGetTimestamp`, `getTimeStamp`: the two functions.
* `LocalTime`: what the system says the time is.
* `Timely`: the promise for two times in a zone.
-/

namespace ClientService

/-! ## The text -/

/-- `std::to_string`. -/
def to_string (n : Int32) : List Char := (toString n.toInt).toList

/-- `timeBias` before `initGetTimestamp`. -/
def timeBias : List Char := ['+', '0']

/-- `initGetTimestamp`: the suffix for the `Bias` of the zone. `status` is unsigned, so that the
test of it always succeeds. -/
def initGetTimestamp (timeBias : List Char) (bias : Int32) : List Char :=
  let tb := bias / -60
  if 0 < tb then '+' :: to_string tb
  else if tb < 0 then to_string tb
  else timeBias

/-- `SYSTEMTIME`. -/
structure SystemTime where
  wYear : ℕ
  wMonth : ℕ
  wDay : ℕ
  wHour : ℕ
  wMinute : ℕ
  wSecond : ℕ
  wMilliseconds : ℕ
  deriving DecidableEq, Repr

/-- `%d` with a width, and what fills it up. -/
def conversion (width : ℕ) (fill : Char) (n : ℕ) : List Char :=
  (Nat.toDigits 10 n).leftpad width fill

/-- `"%4d-%02d-%02d %02d:%02d:%02d.%d%s"`. -/
def formatted (timeBias : List Char) (t : SystemTime) : List Char :=
  conversion 4 ' ' t.wYear ++ '-' :: (conversion 2 '0' t.wMonth ++ '-' ::
    (conversion 2 '0' t.wDay ++ ' ' :: (conversion 2 '0' t.wHour ++ ':' ::
      (conversion 2 '0' t.wMinute ++ ':' :: (conversion 2 '0' t.wSecond ++ '.' ::
        (conversion 0 ' ' t.wMilliseconds ++ timeBias))))))

/-- `getTimeStamp`, with a buffer of 1024 characters. -/
def getTimeStamp (timeBias : List Char) (t : SystemTime) : List Char :=
  (formatted timeBias t).take 1023

/-! ## The times -/

def SystemTime.clock (t : SystemTime) : Timestamp.Clock :=
  ⟨t.wYear, t.wMonth, t.wDay, t.wHour, t.wMinute, t.wSecond⟩

/-- A local time, which counts from the year 1601 on. -/
structure LocalTime extends SystemTime where
  valid : toSystemTime.clock.Valid
  year : 1601 ≤ wYear ∧ wYear ≤ 9999
  milliseconds : wMilliseconds < 1000
  deriving DecidableEq

namespace LocalTime

/-- The instant at which it is this time in the zone, in seconds: UTC is local time and bias. -/
def instant (bias : Int32) (t : LocalTime) : ℚ :=
  t.clock.seconds + t.wMilliseconds / 1000 + 60 * bias.toInt

/-- The numbers from the year down to the milliseconds: of two times of a zone, the earlier one has
the smaller list. -/
def fields (t : LocalTime) : List ℕ := t.clock.fields ++ [t.wMilliseconds]

/-- The time stamp of a package that is sent at this time. -/
def timeStamp (bias : Int32) (t : LocalTime) : List Char :=
  getTimeStamp (initGetTimestamp timeBias bias) t.toSystemTime

/-- `toBytes` writes it into a package that has none. -/
theorem timeStamp_toProto {m : CoreMessage} (h : m.timeStamp = "") (g : Process) (bias : Int32)
    (t : LocalTime) :
    (m.toProto g (String.ofList (t.timeStamp bias))).2.timeStamp.toList = t.timeStamp bias := by
  simp [h]

end LocalTime

open LocalTime

/-! ## The promise -/

/-- What a time stamp is read as. -/
def readInstant (bias : Int32) (t : LocalTime) : Option ℚ :=
  (Timestamp.read (t.timeStamp bias)).map Timestamp.Reading.instant

/-- Both time stamps denote the instants at which they were taken, and are in their order. -/
structure Timely (bias : Int32) (t t' : LocalTime) : Prop where
  left : readInstant bias t = some (t.instant bias)
  right : readInstant bias t' = some (t'.instant bias)
  order : ∃ i i', readInstant bias t = some i ∧ readInstant bias t' = some i' ∧
    (i < i' ↔ t.fields < t'.fields)

/-- The milliseconds are written as they are read. -/
def LocalTime.Written (t : LocalTime) : Prop := t.wMilliseconds = 0 ∨ 100 ≤ t.wMilliseconds

/-- A whole number of hours, and no more of them than an offset may have. -/
def WholeHours (bias : Int32) : Prop := 60 ∣ bias.toInt ∧ |bias.toInt| ≤ 900

/-! ## The suffix -/

theorem to_string_of_nonneg {n : Int32} (h : 0 ≤ n.toInt) :
    to_string n = Nat.toDigits 10 n.toInt.natAbs := by
  obtain ⟨k, hk⟩ := Int.eq_ofNat_of_zero_le h
  rw [to_string, hk]
  exact Nat.toList_repr

theorem to_string_of_neg {n : Int32} (h : n.toInt < 0) :
    to_string n = '-' :: Nat.toDigits 10 n.toInt.natAbs := by
  obtain ⟨k, hk⟩ := Int.eq_negSucc_of_lt_zero h
  rw [to_string, hk]
  change ("-" ++ Nat.repr (k + 1)).toList = _
  rw [String.toList_append, Nat.toList_repr]
  rfl

/-- The hours that the zone is ahead of UTC, as `initGetTimestamp` counts them. -/
def hours (bias : Int32) : ℤ := -bias.toInt.tdiv 60

theorem natAbs_hours (bias : Int32) : (hours bias).natAbs = bias.toInt.natAbs / 60 := by
  rw [hours, Int.natAbs_neg, Int.natAbs_tdiv]
  rfl

theorem hours_nonneg {bias : Int32} (h : bias.toInt ≤ 0) : 0 ≤ hours bias := by
  rw [hours, ← Int.neg_tdiv]
  exact Int.tdiv_nonneg (by omega) (by decide)

theorem hours_nonpos {bias : Int32} (h : 0 ≤ bias.toInt) : hours bias ≤ 0 := by
  rw [hours]
  have := Int.tdiv_nonneg h (show (0 : ℤ) ≤ 60 by decide)
  omega

theorem toInt_hours (bias : Int32) : (bias / -60).toInt = hours bias := by
  have habs := natAbs_hours bias
  have hle := bias.le_toInt
  have hlt := bias.toInt_lt
  rw [Int32.toInt_div]
  change (bias.toInt.tdiv (-60)).bmod (2 ^ 32) = _
  rw [Int.tdiv_neg]
  apply Int.bmod_eq_of_le
  · change _ ≤ hours bias
    omega
  · change hours bias < _
    omega

/-- The suffix is a sign and the hours. -/
theorem initGetTimestamp_eq (bias : Int32) :
    initGetTimestamp timeBias bias =
      (if 0 ≤ hours bias then '+' else '-') :: Nat.toDigits 10 (hours bias).natAbs := by
  have htb := toInt_hours bias
  simp only [initGetTimestamp, Int32.lt_iff_toInt_lt, htb, Int32.toInt_zero]
  by_cases hpos : 0 < hours bias
  · rw [if_pos hpos, if_pos hpos.le, to_string_of_nonneg, htb]
    rw [htb]
    exact hpos.le
  · rw [if_neg hpos]
    by_cases hneg : hours bias < 0
    · rw [if_pos hneg, if_neg (not_le.mpr hneg), to_string_of_neg, htb]
      rw [htb]
      exact hneg
    · have hzero : hours bias = 0 := by omega
      rw [if_neg hneg, hzero]
      rfl

/-- Up to two digits are hours, and more of them are hours and minutes. -/
theorem unsignedOffset_toDigits (k : ℕ) :
    Timestamp.unsignedOffset (Nat.toDigits 10 k) =
      if k < 100 then Timestamp.displacement k 0
      else Timestamp.displacement (k / 100) (k % 100) := by
  have hnumber : Timestamp.number (Nat.toDigits 10 k ++ []) = _ :=
    (Timestamp.decimal_toDigits k).number (by simp)
  have hlength : (Nat.toDigits 10 k).length ≤ 2 ↔ k < 100 :=
    Nat.length_toDigits_le_iff (by decide) (by decide)
  rw [List.append_nil] at hnumber
  simp only [Timestamp.unsignedOffset, hnumber, Option.bind_eq_bind, Option.bind_some, hlength]

theorem displacement_eq_some {h m : ℕ} {i : ℤ} :
    Timestamp.displacement h m = some i ↔ (h ≤ 15 ∧ m < 60) ∧ 60 * h + m = i := by
  simp [Timestamp.displacement]

/-- **The zone.** The suffix is the offset exactly for whole hours. -/
theorem offset_eq_iff (bias : Int32) :
    Timestamp.offset (initGetTimestamp timeBias bias) = some (-bias.toInt) ↔ WholeHours bias := by
  have habs := natAbs_hours bias
  have hnonneg : bias.toInt ≤ 0 → 0 ≤ hours bias := hours_nonneg
  have hnonpos : 0 ≤ bias.toInt → hours bias ≤ 0 := hours_nonpos
  rw [initGetTimestamp_eq, WholeHours, abs_le]
  by_cases hsign : 0 ≤ hours bias
  · rw [if_pos hsign, Timestamp.offset, unsignedOffset_toDigits]
    by_cases hk : (hours bias).natAbs < 100
    · rw [if_pos hk, displacement_eq_some]
      omega
    · rw [if_neg hk, displacement_eq_some]
      omega
  · have hneg : ∀ i : ℤ, -i = -bias.toInt ↔ i = bias.toInt := fun i => neg_inj
    rw [if_neg hsign, Timestamp.offset, unsignedOffset_toDigits, Option.map_eq_some_iff]
    simp only [hneg, exists_eq_right]
    by_cases hk : (hours bias).natAbs < 100
    · rw [if_pos hk, displacement_eq_some]
      omega
    · rw [if_neg hk, displacement_eq_some]
      omega

/-! ## The milliseconds -/

/-- What the milliseconds are read as. -/
def shown (ms : ℕ) : ℕ := if ms < 10 then 100 * ms else if ms < 100 then 10 * ms else ms

theorem shown_lt {ms : ℕ} (h : ms < 1000) : shown ms < 1000 := by
  unfold shown
  split
  · omega
  · split <;> omega

theorem shown_eq_iff (ms : ℕ) : shown ms = ms ↔ ms = 0 ∨ 100 ≤ ms := by
  unfold shown
  split
  · omega
  · split <;> omega

/-- The digits as a fraction of a second. -/
theorem fraction_eq {ms : ℕ} (h : ms < 1000) :
    (ms : ℚ) / 10 ^ (Nat.toDigits 10 ms).length = shown ms / 1000 := by
  have hpos : 0 < (Nat.toDigits 10 ms).length := Nat.length_toDigits_pos
  have hle : ∀ {k : ℕ}, 0 < k → ((Nat.toDigits 10 ms).length ≤ k ↔ ms < 10 ^ k) :=
    Nat.length_toDigits_le_iff (by decide)
  have hone := hle Nat.one_pos
  have htwo := hle Nat.two_pos
  have hthree := hle (Nat.succ_pos 2)
  unfold shown
  by_cases h10 : ms < 10
  · have hlen : (Nat.toDigits 10 ms).length = 1 := by omega
    rw [hlen, if_pos h10]
    push_cast
    ring
  · by_cases h100 : ms < 100
    · have hlen : (Nat.toDigits 10 ms).length = 2 := by omega
      rw [hlen, if_neg h10, if_pos h100]
      push_cast
      ring
    · have hlen : (Nat.toDigits 10 ms).length = 3 := by omega
      rw [hlen, if_neg h10, if_neg h100]
      norm_num

/-! ## The whole text -/

theorem length_conversion (fill : Char) {width n : ℕ} (hwidth : 0 < width) (h : n < 10 ^ width) :
    (conversion width fill n).length = width := by
  have hle := (Nat.length_toDigits_le_iff (b := 10) (by decide) hwidth).mpr h
  rw [conversion, List.length_leftpad]
  omega

/-- `%d` without a width. -/
theorem conversion_zero (fill : Char) (n : ℕ) : conversion 0 fill n = Nat.toDigits 10 n := by
  simp [conversion, List.leftpad]

theorem length_suffix (bias : Int32) : (initGetTimestamp timeBias bias).length ≤ 9 := by
  have habs := natAbs_hours bias
  have hle := bias.le_toInt
  have hlt := bias.toInt_lt
  have hdigits := Nat.length_toDigits_le_iff (b := 10) (n := (hours bias).natAbs) (k := 8)
    (by decide) (by decide)
  rw [initGetTimestamp_eq, List.length_cons]
  omega

section
variable (bias : Int32) (t : LocalTime)

/-- Nothing is cut off. -/
theorem LocalTime.timeStamp_eq :
    t.timeStamp bias = formatted (initGetTimestamp timeBias bias) t.toSystemTime := by
  have hyear : (conversion 4 ' ' t.wYear).length = 4 := by
    apply length_conversion
    · decide
    · have := t.year.2
      omega
  have hpad : ∀ n < 100, (conversion 2 '0' n).length = 2 := fun n hn =>
    length_conversion '0' (by decide) hn
  have hmonth := hpad t.wMonth (t.valid.month.2.trans_lt (by decide))
  have hday := hpad t.wDay ((t.valid.day.2.trans (Timestamp.daysInMonth_le _ _)).trans_lt (by decide))
  have hhour := hpad t.wHour (t.valid.hour.trans (by decide))
  have hminute := hpad t.wMinute (t.valid.minute.trans (by decide))
  have hsecond := hpad t.wSecond (t.valid.second.trans (by decide))
  have hms := (Nat.length_toDigits_le_iff (b := 10) (n := t.wMilliseconds) (k := 3)
    (by decide) (by decide)).mpr t.milliseconds
  have hsuffix := length_suffix bias
  apply List.take_of_length_le
  simp only [formatted, List.length_append, List.length_cons, hyear, hmonth, hday, hhour, hminute,
    hsecond, conversion_zero]
  omega

/-- Four digits need no space in front. -/
theorem conversion_year : conversion 4 ' ' t.wYear = Nat.toDigits 10 t.wYear := by
  have hthree := Nat.length_toDigits_le_iff (b := 10) (n := t.wYear) (k := 3)
    (by decide) (by decide)
  have hyear := t.year.1
  have hnone : 4 - (Nat.toDigits 10 t.wYear).length = 0 := by omega
  rw [conversion, List.leftpad, hnone]
  rfl

/-- **The text.** It is read as the local time with other milliseconds and another zone. -/
theorem readInstant_eq :
    readInstant bias t = (Timestamp.offset (initGetTimestamp timeBias bias)).map fun minutes : ℤ =>
      (t.clock.seconds + shown t.wMilliseconds / 1000 - 60 * minutes : ℚ) := by
  have hsuffix : ∀ c ∈ (initGetTimestamp timeBias bias).head?, c.isDigit = false := by
    intro c hc
    rw [initGetTimestamp_eq, List.head?_cons, Option.mem_some_iff] at hc
    rw [← hc]
    split <;> rfl
  have hpad : ∀ n : ℕ, Timestamp.Decimal (conversion 2 '0' n) n := fun n =>
    (Timestamp.decimal_toDigits n).leftpad 2
  have hyear : Timestamp.Decimal (conversion 4 ' ' t.wYear) t.wYear := by
    rw [conversion_year]
    exact Timestamp.decimal_toDigits t.wYear
  have hread := Timestamp.read_decimals (c := t.clock) hyear (hpad t.wMonth) (hpad t.wDay)
    (hpad t.wHour) (hpad t.wMinute) (hpad t.wSecond) (Timestamp.decimal_toDigits t.wMilliseconds)
    hsuffix t.valid
  rw [readInstant, LocalTime.timeStamp_eq, formatted, conversion_zero, hread, Option.map_map]
  congr 1
  funext minutes
  simp only [Function.comp, Timestamp.Reading.instant, fraction_eq t.milliseconds]

/-- One mistake does not make up for the other one. -/
theorem readInstant_eq_iff :
    readInstant bias t = some (t.instant bias) ↔ t.Written ∧ WholeHours bias := by
  rw [readInstant_eq, Option.map_eq_some_iff, ← offset_eq_iff, LocalTime.Written, ← shown_eq_iff]
  have hshown := shown_lt t.milliseconds
  have hms := t.milliseconds
  have hequal : ∀ m : ℤ,
      (t.clock.seconds + shown t.wMilliseconds / 1000 - 60 * m : ℚ) = t.instant bias ↔ shown t.wMilliseconds = t.wMilliseconds ∧ m = -bias.toInt := by
    intro m
    have hint :
        (t.clock.seconds + shown t.wMilliseconds / 1000 - 60 * m : ℚ) = t.instant bias ↔
          (shown t.wMilliseconds : ℤ) - 60000 * m = t.wMilliseconds + 60000 * bias.toInt := by
      rw [LocalTime.instant, ← Int.cast_inj (α := ℚ)]
      push_cast
      constructor
      · intro h
        linarith
      · intro h
        linarith
    rw [hint]
    omega
  simp only [hequal]
  constructor
  · intro h
    obtain ⟨m, hm, hsame, hbias⟩ := h
    exact ⟨hsame, by rw [hm, hbias]⟩
  · intro h
    exact ⟨_, h.2, h.1, rfl⟩

end

/-! ## The order -/

/-- Of two times of a zone, the earlier one is the earlier instant. -/
theorem instant_lt_iff (bias : Int32) (t t' : LocalTime) :
    t.instant bias < t'.instant bias ↔ t.fields < t'.fields := by
  have hms := t.milliseconds
  have hms' := t'.milliseconds
  have hint : t.instant bias < t'.instant bias ↔
      1000 * t.clock.seconds + t.wMilliseconds < 1000 * t'.clock.seconds + t'.wMilliseconds := by
    rw [LocalTime.instant, LocalTime.instant, ← Nat.cast_lt (α := ℚ)]
    push_cast
    constructor
    · intro h
      linarith
    · intro h
      linarith
  have hlt := Timestamp.seconds_lt_iff t.valid t'.valid
  have heq := Timestamp.seconds_inj t.valid t'.valid
  have hsame : t.clock.fields.length = t'.clock.fields.length := rfl
  rw [hint, LocalTime.fields, LocalTime.fields, Timestamp.append_singleton_lt_iff hsame, ← hlt,
    Timestamp.fields_inj, ← heq]
  omega

/-- **Time stamps.** They denote their instants exactly when no zeros are missing in the
milliseconds and the zone is a whole number of hours away from UTC. -/
theorem timely_iff (bias : Int32) (t t' : LocalTime) :
    Timely bias t t' ↔ (t.Written ∧ t'.Written) ∧ WholeHours bias := by
  constructor
  · intro h
    have hleft := (readInstant_eq_iff bias t).mp h.left
    have hright := (readInstant_eq_iff bias t').mp h.right
    exact ⟨⟨hleft.1, hright.1⟩, hleft.2⟩
  · intro h
    have hleft := (readInstant_eq_iff bias t).mpr ⟨h.1.1, h.2⟩
    have hright := (readInstant_eq_iff bias t').mpr ⟨h.1.2, h.2⟩
    exact ⟨hleft, hright, _, _, hleft, hright, instant_lt_iff bias t t'⟩

/-- Five milliseconds after a full second in Greenwich. -/
def fiveMilliseconds : LocalTime where
  wYear := 2020
  wMonth := 1
  wDay := 2
  wHour := 3
  wMinute := 4
  wSecond := 5
  wMilliseconds := 5
  valid := by decide
  year := by decide
  milliseconds := by decide

example : fiveMilliseconds.timeStamp 0 = "2020-01-02 03:04:05.5+0".toList := by
  simp only [String.reduceToList]
  decide +kernel

/-- They are read as half a second. -/
theorem not_timely_milliseconds : ¬∀ (bias : Int32) (t t' : LocalTime), Timely bias t t' := by
  intro h
  have hread : readInstant 0 fiveMilliseconds ≠ some (fiveMilliseconds.instant 0) := by
    decide +kernel
  exact hread (h 0 fiveMilliseconds fiveMilliseconds).left

end ClientService
