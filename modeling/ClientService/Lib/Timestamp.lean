import Mathlib

/-!
# Timestamps with zone

The text of an SQL `timestamp with time zone` and the instant that it denotes. A text gives
a date of the Gregorian calendar, a time of day, a fraction of a second and the offset of
the zone from UTC; the instant is counted in seconds from the first day of the year 1.

A number in such a text may have zeros in front, so texts are described by `Decimal`, and
`read_decimals` says what the reader makes of any numbers at all.

## Main definitions

* `Clock`, `CivilTime`: dates with a time of day, and those that exist.
* `CivilTime.seconds`: the count, in the order of the dates (`seconds_lt_iff`).
* `Timestamp.read`, `Reading.instant`: the reader, and what the text denotes.
-/

namespace Timestamp

/-! ## The calendar -/

def Leap (year : ℕ) : Prop := (4 ∣ year ∧ ¬100 ∣ year) ∨ 400 ∣ year

instance : DecidablePred Leap := fun year =>
  inferInstanceAs (Decidable ((4 ∣ year ∧ ¬100 ∣ year) ∨ 400 ∣ year))

def daysInMonth (year month : ℕ) : ℕ :=
  if month = 2 then if Leap year then 29 else 28
  else if month = 4 ∨ month = 6 ∨ month = 9 ∨ month = 11 then 30
  else 31

theorem daysInMonth_le (year month : ℕ) : daysInMonth year month ≤ 31 := by
  unfold daysInMonth
  split
  · split <;> decide
  · split <;> decide

/-- The days before a month of its year. -/
def daysBeforeMonth (year month : ℕ) : ℕ := ∑ m ∈ Finset.Ico 1 month, daysInMonth year m

/-- The days of the years before a year. -/
def daysBeforeYear (year : ℕ) : ℕ :=
  365 * (year - 1) + (year - 1) / 4 - (year - 1) / 100 + (year - 1) / 400

/-- A date and a time of day. -/
structure Clock where
  year : ℕ
  month : ℕ
  day : ℕ
  hour : ℕ
  minute : ℕ
  second : ℕ
  deriving DecidableEq, Repr

/-- There is such a date and such a time. -/
structure Clock.Valid (c : Clock) : Prop where
  year : 0 < c.year
  month : 1 ≤ c.month ∧ c.month ≤ 12
  day : 1 ≤ c.day ∧ c.day ≤ daysInMonth c.year c.month
  hour : c.hour < 24
  minute : c.minute < 60
  second : c.second < 60

instance : DecidablePred Clock.Valid := fun c =>
  decidable_of_iff (0 < c.year ∧ (1 ≤ c.month ∧ c.month ≤ 12) ∧
      (1 ≤ c.day ∧ c.day ≤ daysInMonth c.year c.month) ∧ c.hour < 24 ∧ c.minute < 60 ∧ c.second < 60)
    ⟨fun ⟨hyear, hmonth, hday, hhour, hminute, hsecond⟩ =>
      ⟨hyear, hmonth, hday, hhour, hminute, hsecond⟩,
    fun h => ⟨h.year, h.month, h.day, h.hour, h.minute, h.second⟩⟩

/-- The numbers from the year down to the second: dates are in the order of these lists. -/
def Clock.fields (c : Clock) : List ℕ := [c.year, c.month, c.day, c.hour, c.minute, c.second]

/-- A time that exists. -/
structure CivilTime extends Clock where
  valid : toClock.Valid
  deriving DecidableEq

/-- The days up to the date, from the first one of the year 1 on. -/
def Clock.dayNumber (c : Clock) : ℕ :=
  daysBeforeYear c.year + daysBeforeMonth c.year c.month + c.day

def Clock.seconds (c : Clock) : ℕ :=
  86400 * c.dayNumber + 3600 * c.hour + 60 * c.minute + c.second

/-- The first day of the year that many clocks count from. -/
example : Clock.dayNumber ⟨1970, 1, 1, 0, 0, 0⟩ = 719163 := by decide

/-- A year of 400, 100 or 4 is a year of the smaller ones as well. -/
theorem daysBeforeYear_succ {year : ℕ} (h : 0 < year) :
    daysBeforeYear (year + 1) = daysBeforeYear year + 365 + if Leap year then 1 else 0 := by
  obtain ⟨y, rfl⟩ := Nat.exists_eq_add_one.mpr h
  have hle : y / 100 ≤ y / 4 := Nat.div_le_div_left (by decide) (by decide)
  simp only [daysBeforeYear, Nat.add_sub_cancel, Nat.succ_div]
  by_cases h4 : 4 ∣ y + 1
  · by_cases h100 : 100 ∣ y + 1
    · by_cases h400 : 400 ∣ y + 1
      · have hleap : Leap (y + 1) := Or.inr h400
        simp only [h4, h100, h400, hleap, if_true]
        clear h4 h100 h400
        omega
      · have hleap : ¬Leap (y + 1) := not_or.mpr ⟨fun hy => hy.2 h100, h400⟩
        simp only [h4, h100, h400, hleap, if_true, if_false]
        clear h4 h100 h400
        omega
    · have h400 : ¬400 ∣ y + 1 := fun h400 => h100 (dvd_trans (by decide) h400)
      have hleap : Leap (y + 1) := Or.inl ⟨h4, h100⟩
      simp only [h4, h100, h400, hleap, if_true, if_false]
      clear h4 h100 h400
      omega
  · have h100 : ¬100 ∣ y + 1 := fun h100 => h4 (dvd_trans (by decide) h100)
    have h400 : ¬400 ∣ y + 1 := fun h400 => h4 (dvd_trans (by decide) h400)
    have hleap : ¬Leap (y + 1) := not_or.mpr ⟨fun hy => h4 hy.1, h400⟩
    simp only [h4, h100, h400, hleap, if_false]
    clear h4 h100 h400
    omega

theorem daysBeforeYear_le {year year' : ℕ} (h : year ≤ year') :
    daysBeforeYear year ≤ daysBeforeYear year' := by
  induction h with
  | refl => exact le_refl _
  | @step m _ ih =>
      apply ih.trans
      cases m with
      | zero => exact le_refl _
      | succ m =>
          rw [daysBeforeYear_succ m.succ_pos, Nat.add_assoc]
          exact Nat.le_add_right _ _

theorem daysBeforeMonth_succ (year : ℕ) {month : ℕ} (h : 1 ≤ month) :
    daysBeforeMonth year (month + 1) = daysBeforeMonth year month + daysInMonth year month :=
  Finset.sum_Ico_succ_top h _

theorem daysBeforeMonth_le (year : ℕ) {month month' : ℕ} (h : month ≤ month') :
    daysBeforeMonth year month ≤ daysBeforeMonth year month' :=
  Finset.sum_le_sum_of_subset (Finset.Ico_subset_Ico (le_refl 1) h)

/-- The months make the year. -/
theorem daysBeforeMonth_end (year : ℕ) :
    daysBeforeMonth year 13 = 365 + if Leap year then 1 else 0 := by
  by_cases hleap : Leap year <;> simp [daysBeforeMonth, Finset.sum_Ico_succ_top, daysInMonth, hleap]

section
variable {c c' : Clock}

/-- A day is in its month. -/
theorem Clock.Valid.month_end (h : c.Valid) :
    daysBeforeMonth c.year c.month + c.day ≤ daysBeforeMonth c.year (c.month + 1) := by
  rw [daysBeforeMonth_succ c.year h.month.1]
  have := h.day.2
  omega

/-- A day is in its year. -/
theorem Clock.Valid.year_end (h : c.Valid) : c.dayNumber ≤ daysBeforeYear (c.year + 1) := by
  have hmonth := h.month_end
  have hlast := daysBeforeMonth_le c.year (show c.month + 1 ≤ 13 from Nat.succ_le_succ h.month.2)
  rw [daysBeforeMonth_end] at hlast
  rw [Clock.dayNumber, daysBeforeYear_succ h.year]
  omega

theorem dayNumber_lt_of_year (h : c.Valid) (h' : c'.Valid) (hyear : c.year < c'.year) :
    c.dayNumber < c'.dayNumber := by
  have hend := h.year_end
  have hnext := daysBeforeYear_le (show c.year + 1 ≤ c'.year from hyear)
  have hday := h'.day.1
  rw [Clock.dayNumber.eq_def c']
  omega

theorem dayNumber_lt_of_month (h : c.Valid) (h' : c'.Valid) (hyear : c.year = c'.year)
    (hmonth : c.month < c'.month) : c.dayNumber < c'.dayNumber := by
  have hend := h.month_end
  have hnext := daysBeforeMonth_le c.year (show c.month + 1 ≤ c'.month from hmonth)
  have hday := h'.day.1
  rw [Clock.dayNumber, Clock.dayNumber, ← hyear]
  omega

theorem dayNumber_lt_of_day (hyear : c.year = c'.year) (hmonth : c.month = c'.month)
    (hday : c.day < c'.day) : c.dayNumber < c'.dayNumber := by
  rw [Clock.dayNumber, Clock.dayNumber, hyear, hmonth]
  omega

theorem Clock.Valid.time_lt (h : c.Valid) :
    3600 * c.hour + 60 * c.minute + c.second < 86400 := by
  have hhour := h.hour
  have hminute := h.minute
  have hsecond := h.second
  omega

theorem fields_inj : c.fields = c'.fields ↔ c = c' := by
  constructor
  · intro h
    cases c
    cases c'
    simpa [Clock.fields] using h
  · intro h
    rw [h]

/-- Later in the calendar, more seconds. -/
theorem seconds_lt (h : c.Valid) (h' : c'.Valid) (hlt : c.fields < c'.fields) :
    c.seconds < c'.seconds := by
  have htime := h.time_lt
  have hday : c.dayNumber < c'.dayNumber → c.seconds < c'.seconds := by
    intro hday
    rw [Clock.seconds, Clock.seconds]
    omega
  simp only [Clock.fields, List.cons_lt_cons_iff, List.not_lt_nil, and_false, or_false] at hlt
  rcases hlt with hyear | ⟨hyear, hmonth | ⟨hmonth, hd | ⟨hd, htimes⟩⟩⟩
  · exact hday (dayNumber_lt_of_year h h' hyear)
  · exact hday (dayNumber_lt_of_month h h' hyear hmonth)
  · exact hday (dayNumber_lt_of_day hyear hmonth hd)
  · have hsame : c.dayNumber = c'.dayNumber := by
      rw [Clock.dayNumber, Clock.dayNumber, hyear, hmonth, hd]
    have hminute := h.minute
    have hsecond := h.second
    rw [Clock.seconds, Clock.seconds, hsame]
    omega

/-- **The calendar.** The seconds are in the order of the dates and the times of day. -/
theorem seconds_lt_iff (h : c.Valid) (h' : c'.Valid) :
    c.seconds < c'.seconds ↔ c.fields < c'.fields := by
  constructor
  · intro hlt
    by_contra hnot
    rcases lt_or_eq_of_le (not_lt.mp hnot) with hgt | heq
    · have := seconds_lt h' h hgt
      omega
    · rw [fields_inj.mp heq] at hlt
      omega
  · exact seconds_lt h h'

theorem seconds_inj (h : c.Valid) (h' : c'.Valid) : c.seconds = c'.seconds ↔ c = c' := by
  constructor
  · intro heq
    rw [← fields_inj]
    rcases lt_trichotomy c.fields c'.fields with hlt | hsame | hgt
    · have := seconds_lt h h' hlt
      omega
    · exact hsame
    · have := seconds_lt h' h hgt
      omega
  · intro heq
    rw [heq]

end

/-- One more number at the end of lists of the same length. -/
theorem append_singleton_lt_iff {l l' : List ℕ} (h : l.length = l'.length) (n n' : ℕ) :
    l ++ [n] < l' ++ [n'] ↔ l < l' ∨ l = l' ∧ n < n' := by
  induction l generalizing l' with
  | nil =>
      rw [List.length_eq_zero_iff.mp h.symm]
      simp [List.cons_lt_cons_iff]
  | cons m l ih =>
      cases l' with
      | nil => simp at h
      | cons m' l' =>
          simp only [List.cons_append, List.cons_lt_cons_iff, List.cons.injEq, ih (Nat.succ.inj h)]
          by_cases hm : m = m'
          · simp [hm]
          · simp [hm]

/-! ## The text -/

/-- What a text says. -/
structure Reading where
  time : CivilTime
  /-- Of a second. -/
  fraction : ℚ
  /-- In minutes, positive in the east of Greenwich. -/
  offset : ℤ
  deriving DecidableEq

/-- The instant, in seconds of UTC. -/
def Reading.instant (r : Reading) : ℚ := r.time.seconds + r.fraction - 60 * r.offset

/-- A number: its value, how many digits it has, and what follows them. -/
def number (s : List Char) : Option (ℕ × ℕ × List Char) :=
  let digits := s.takeWhile Char.isDigit
  if digits = [] then none
  else some (Nat.ofDigitChars 10 digits 0, digits.length, s.dropWhile Char.isDigit)

/-- A number and the character that ends it. -/
def field (stop : Char) (s : List Char) : Option (ℕ × List Char) := do
  let (n, _, s) ← number s
  if s.head? = some stop then some (n, s.tail) else none

/-- Hours and minutes of an offset. -/
def displacement (hours minutes : ℕ) : Option ℤ :=
  if hours ≤ 15 ∧ minutes < 60 then some (60 * hours + minutes) else none

/-- An offset without its sign: `h`, `hh`, `hmm`, `hhmm` or `hh:mm`. -/
def unsignedOffset (s : List Char) : Option ℤ := do
  let (n, len, s) ← number s
  match s with
  | [] => if len ≤ 2 then displacement n 0 else displacement (n / 100) (n % 100)
  | ':' :: s => do
      let (minutes, _, s) ← number s
      if s = [] then displacement n minutes else none
  | _ => none

/-- The offset from UTC at the end of the text. -/
def offset : List Char → Option ℤ
  | '+' :: s => unsignedOffset s
  | '-' :: s => (unsignedOffset s).map Neg.neg
  | _ => none

/-- `YYYY-MM-DD hh:mm:ss.f±hh`. The digits after the point are a decimal fraction. -/
def read (s : List Char) : Option Reading := do
  let (year, s) ← field '-' s
  let (month, s) ← field '-' s
  let (day, s) ← field ' ' s
  let (hour, s) ← field ':' s
  let (minute, s) ← field ':' s
  let (second, s) ← field '.' s
  let (f, len, s) ← number s
  let minutes ← offset s
  if h : (Clock.mk year month day hour minute second).Valid then
    some ⟨⟨_, h⟩, f / 10 ^ len, minutes⟩
  else none

/-- Half a second after midnight in a zone of Asia. -/
example : (read "2024-02-29 00:00:00.5+05:30".toList).map Reading.instant =
    some ((Clock.mk 2024 2 28 18 30 0).seconds + 1 / 2 : ℚ) := by
  decide +kernel

/-! ## What the reader makes of numbers -/

/-- Some digits with the value `n`. -/
structure Decimal (s : List Char) (n : ℕ) : Prop where
  ne_nil : s ≠ []
  digit : ∀ c ∈ s, c.isDigit = true
  value : Nat.ofDigitChars 10 s 0 = n

theorem decimal_toDigits (n : ℕ) : Decimal (Nat.toDigits 10 n) n where
  ne_nil := Nat.toDigits_ne_nil
  digit := fun _ hc => Nat.isDigit_of_mem_toDigits (by decide) (by decide) hc
  value := Nat.ofDigitChars_ten_toDigits

/-- Zeros in front. -/
theorem Decimal.leftpad {s : List Char} {n : ℕ} (h : Decimal s n) (k : ℕ) :
    Decimal (s.leftpad k '0') n where
  ne_nil := by simp [List.leftpad, h.ne_nil]
  digit := by
    intro c hc
    rcases List.mem_append.mp hc with hc | hc
    · rw [List.eq_of_mem_replicate hc]
      rfl
    · exact h.digit c hc
  value := by
    rw [List.leftpad, Nat.ofDigitChars_append, Nat.ofDigitChars_replicate_zero, Nat.mul_zero]
    exact h.value

theorem Decimal.number {s : List Char} {n : ℕ} (h : Decimal s n) {rest : List Char}
    (hrest : ∀ c ∈ rest.head?, c.isDigit = false) :
    number (s ++ rest) = some (n, s.length, rest) := by
  have htake : (s ++ rest).takeWhile Char.isDigit = s := by
    rw [List.takeWhile_append_of_pos h.digit]
    cases rest with
    | nil => simp
    | cons c rest => simp [hrest c rfl]
  have hdrop : (s ++ rest).dropWhile Char.isDigit = rest := by
    rw [List.dropWhile_append_of_pos h.digit]
    cases rest with
    | nil => rfl
    | cons c rest => simp [hrest c rfl]
  rw [Timestamp.number, htake, hdrop, if_neg h.ne_nil, h.value]

theorem Decimal.field {s : List Char} {n : ℕ} (h : Decimal s n) {stop : Char}
    (hstop : stop.isDigit = false) (rest : List Char) :
    field stop (s ++ stop :: rest) = some (n, rest) := by
  have hhead : ∀ c ∈ (stop :: rest).head?, c.isDigit = false := by
    intro c hc
    cases hc
    exact hstop
  simp [Timestamp.field, h.number hhead]

/-- The number at the beginning, and then the rest. -/
theorem Decimal.field_bind {s : List Char} {n : ℕ} (h : Decimal s n) {stop : Char}
    (hstop : stop.isDigit = false) {α : Type} (rest : List Char)
    (k : ℕ × List Char → Option α) :
    (Timestamp.field stop (s ++ stop :: rest) >>= k) = k (n, rest) := by
  rw [h.field hstop]
  rfl

/-- A text that is made of numbers. -/
theorem read_decimals {c : Clock} {year month day hour minute second fraction zone : List Char}
    {f : ℕ} (hyear : Decimal year c.year) (hmonth : Decimal month c.month)
    (hday : Decimal day c.day) (hhour : Decimal hour c.hour) (hminute : Decimal minute c.minute)
    (hsecond : Decimal second c.second) (hfraction : Decimal fraction f)
    (hzone : ∀ c ∈ zone.head?, c.isDigit = false) (hvalid : c.Valid) :
    read (year ++ '-' :: (month ++ '-' :: (day ++ ' ' :: (hour ++ ':' :: (minute ++ ':' ::
      (second ++ '.' :: (fraction ++ zone))))))) =
      (offset zone).map fun minutes => ⟨⟨c, hvalid⟩, f / 10 ^ fraction.length, minutes⟩ := by
  have hdash : '-'.isDigit = false := rfl
  have hspace : ' '.isDigit = false := rfl
  have hcolon : ':'.isDigit = false := rfl
  have hpoint : '.'.isDigit = false := rfl
  refine (hyear.field_bind hdash _ _).trans ?_
  refine (hmonth.field_bind hdash _ _).trans ?_
  refine (hday.field_bind hspace _ _).trans ?_
  refine (hhour.field_bind hcolon _ _).trans ?_
  refine (hminute.field_bind hcolon _ _).trans ?_
  refine (hsecond.field_bind hpoint _ _).trans ?_
  simp only [hfraction.number hzone, Option.bind_eq_bind, Option.bind_some]
  cases offset zone with
  | none => rfl
  | some minutes => simp [hvalid]

end Timestamp
