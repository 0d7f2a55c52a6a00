import Tile.Library.PaddedOrder
import Tile.Text.Scalars

/-!
# Store/Isoformat — the text of a stored instant

A UTC instant is stored as the text of its fields, from the year to the microsecond, each padded to
a fixed width.  Only the fraction may be missing, and what stands for it then, the sign of the
offset, comes before a dot.  So **texts compare as instants do** (`isoformat_lt_iff`).
-/

namespace Tile

/-! ## The calendar -/

def isLeap (year : Nat) : Bool := year % 4 = 0 ∧ (year % 100 ≠ 0 ∨ year % 400 = 0)

def daysInMonth (year : Nat) : (month : Nat) → Nat
  | 2 => if isLeap year then 29 else 28
  | 4 | 6 | 9 | 11 => 30
  | _ => 31

/-- The days of the years from 1 on. -/
def daysBeforeYear (year : Nat) : Nat :=
  (year - 1) * 365 + (year - 1) / 4 - (year - 1) / 100 + (year - 1) / 400

/-- The days of the months from 1 on. -/
def daysBeforeMonth (year : Nat) : (month : Nat) → Nat
  | 0 | 1 => 0
  | month + 1 => daysBeforeMonth year month + daysInMonth year month

/-- A `datetime` in UTC. -/
structure Datetime where
  year : Nat
  month : Nat
  day : Nat
  hour : Nat := 0
  minute : Nat := 0
  second : Nat := 0
  microsecond : Nat := 0
  year_range : 1 ≤ year ∧ year ≤ 9999 := by decide
  month_range : 1 ≤ month ∧ month ≤ 12 := by decide
  day_range : 1 ≤ day ∧ day ≤ daysInMonth year month := by decide
  hour_lt : hour < 24 := by decide
  minute_lt : minute < 60 := by decide
  second_lt : second < 60 := by decide
  microsecond_lt : microsecond < 1000000 := by decide
  deriving DecidableEq

/-- Microseconds of a day. -/
def DAY : Nat := 86400000000

namespace Datetime

variable (a b : Datetime)

/-- Microseconds since midnight. -/
def timeOfDay : Nat :=
  3600000000 * a.hour + (60000000 * a.minute + (1000000 * a.second + a.microsecond))

/-- Microseconds since the first of January of the year 1. -/
def timestamp : Nat :=
  DAY * daysBeforeYear a.year +
    (DAY * daysBeforeMonth a.year a.month + (DAY * (a.day - 1) + a.timeOfDay))

/-- The fields in front decide first. -/
def Before : Prop :=
  a.year < b.year ∨ a.year = b.year ∧ (a.month < b.month ∨ a.month = b.month ∧
    (a.day < b.day ∨ a.day = b.day ∧ (a.hour < b.hour ∨ a.hour = b.hour ∧
      (a.minute < b.minute ∨ a.minute = b.minute ∧ (a.second < b.second ∨ a.second = b.second ∧
        a.microsecond < b.microsecond)))))

/-! ## Instants -/

theorem daysBeforeYear_succ {year : Nat} (h : 1 ≤ year) :
    daysBeforeYear (year + 1) = daysBeforeYear year + if isLeap year then 366 else 365 := by
  obtain ⟨year, rfl⟩ := Nat.exists_eq_add_of_le' h
  have hle : year / 100 ≤ year := Nat.div_le_self ..
  have hleap : isLeap (year + 1) = true ↔ 4 ∣ year + 1 ∧ (¬ 100 ∣ year + 1 ∨ 400 ∣ year + 1) := by
    simp [isLeap, Nat.dvd_iff_mod_eq_zero]
  simp only [daysBeforeYear, Nat.add_sub_cancel, hleap, Nat.succ_div]
  generalize year / 4 = fourths at *
  generalize year / 100 = hundredths at *
  generalize year / 400 = fourHundredths at *
  split_ifs <;> omega

theorem daysInMonth_le (year month : Nat) : daysInMonth year month ≤ 31 := by
  unfold daysInMonth
  split
  · split <;> decide
  all_goals decide

theorem monotone_daysBeforeYear : Monotone daysBeforeYear := by
  refine monotone_nat_of_le_succ fun year => ?_
  rcases Nat.eq_zero_or_pos year with rfl | hpos
  · decide
  · rw [daysBeforeYear_succ hpos]
    exact Nat.le_add_right ..

theorem monotone_daysBeforeMonth (year : Nat) : Monotone (daysBeforeMonth year) := by
  refine monotone_nat_of_le_succ fun month => ?_
  rcases month with - | month
  · exact Nat.zero_le _
  · exact Nat.le_add_right ..

theorem daysBeforeMonth_succ {year month : Nat} (h : 1 ≤ month) :
    daysBeforeMonth year (month + 1) = daysBeforeMonth year month + daysInMonth year month := by
  obtain ⟨month, rfl⟩ := Nat.exists_eq_add_of_le' h
  rfl

/-- A month ends within its year. -/
theorem daysBeforeMonth_add_le {year month : Nat} (h : 1 ≤ month ∧ month ≤ 12) :
    daysBeforeMonth year month + daysInMonth year month ≤ if isLeap year then 366 else 365 := by
  have hyear : daysBeforeMonth year 13 = if isLeap year then 366 else 365 := by
    simp only [daysBeforeMonth, daysInMonth]
    split <;> rfl
  rw [← daysBeforeMonth_succ h.1, ← hyear]
  exact monotone_daysBeforeMonth year (by omega)

theorem monotone_mul_DAY {f : Nat → Nat} (hf : Monotone f) : Monotone fun n => DAY * f n :=
  fun _ _ h => Nat.mul_le_mul_left DAY (hf h)

/-! What is below a place is less than the step to the next one. -/

theorem timeOfDay_lt : a.timeOfDay < DAY := by
  have hhour := a.hour_lt
  have hminute := a.minute_lt
  have hsecond := a.second_lt
  have hmicrosecond := a.microsecond_lt
  rw [timeOfDay, DAY]
  omega

theorem below_month : DAY * daysBeforeMonth a.year a.month + (DAY * (a.day - 1) + a.timeOfDay)
    < DAY * daysBeforeMonth a.year (a.month + 1) := by
  have htime := a.timeOfDay_lt
  have hday : DAY * (a.day - 1 + 1) ≤ DAY * daysInMonth a.year a.month := by
    rw [Nat.sub_add_cancel a.day_range.1]
    exact Nat.mul_le_mul_left DAY a.day_range.2
  rw [Nat.mul_succ] at hday
  rw [daysBeforeMonth_succ a.month_range.1, Nat.mul_add]
  omega

theorem below_year : DAY * daysBeforeYear a.year +
      (DAY * daysBeforeMonth a.year a.month + (DAY * (a.day - 1) + a.timeOfDay))
    < DAY * daysBeforeYear (a.year + 1) := by
  have hmonth := a.below_month
  have hyear := Nat.mul_le_mul_left DAY (@daysBeforeMonth_add_le a.year _ a.month_range)
  rw [← daysBeforeMonth_succ a.month_range.1] at hyear
  rw [daysBeforeYear_succ a.year_range.1, Nat.mul_add]
  omega

theorem below_minute : 1000000 * a.second + a.microsecond < 60000000 := by
  have hsecond := a.second_lt
  have hmicrosecond := a.microsecond_lt
  omega

theorem below_hour : 60000000 * a.minute + (1000000 * a.second + a.microsecond) < 3600000000 := by
  have hminute := a.minute_lt
  have hsecond := a.second_lt
  have hmicrosecond := a.microsecond_lt
  omega

/-- The clock compares field by field. -/
theorem timeOfDay_lt_iff : a.timeOfDay < b.timeOfDay ↔
    a.hour < b.hour ∨ a.hour = b.hour ∧ (a.minute < b.minute ∨ a.minute = b.minute ∧
      (a.second < b.second ∨ a.second = b.second ∧ a.microsecond < b.microsecond)) := by
  rw [timeOfDay, timeOfDay, mul_add_lt_iff a.below_hour b.below_hour,
    mul_add_lt_iff a.below_minute b.below_minute, mul_add_lt_iff a.microsecond_lt b.microsecond_lt]

/-- **Instants compare field by field.** -/
theorem timestamp_lt_iff : a.timestamp < b.timestamp ↔ a.Before b := by
  rw [timestamp, timestamp, Before, add_lt_add_iff_of_monotone
    (monotone_mul_DAY monotone_daysBeforeYear) a.below_year b.below_year]
  refine or_congr_right (and_congr_right fun hyear => ?_)
  have hbelow := a.below_month
  rw [hyear] at hbelow ⊢
  rw [add_lt_add_iff_of_monotone (monotone_mul_DAY (monotone_daysBeforeMonth b.year)) hbelow
    b.below_month]
  refine or_congr_right (and_congr_right fun hmonth => ?_)
  have hday : (a.day - 1 < b.day - 1 ↔ a.day < b.day) ∧
      (a.day - 1 = b.day - 1 ↔ a.day = b.day) := by
    have h := a.day_range.1
    have h' := b.day_range.1
    omega
  rw [mul_add_lt_iff a.timeOfDay_lt b.timeOfDay_lt, hday.1, hday.2, timeOfDay_lt_iff]

/-- Instants that are the same have the same fields. -/
theorem eq_of_timestamp_eq {a b : Datetime} (h : a.timestamp = b.timestamp) : a = b := by
  have hle := mt (timestamp_lt_iff a b).mpr (by omega)
  have hge := mt (timestamp_lt_iff b a).mpr (by omega)
  rw [Before] at hle hge
  obtain ⟨year, month, day, hour, minute, second, microsecond⟩ := a
  obtain ⟨year', month', day', hour', minute', second', microsecond'⟩ := b
  simp only [mk.injEq]
  dsimp only at hle hge
  omega

/-! ## Texts -/

/-- How the offset of UTC is written. -/
def UTC_OFFSET : Text := ['+', '0', '0', ':', '0', '0']

/-- The digits of the microseconds, unless there are none. -/
def fraction : Text := if a.microsecond = 0 then [] else '.' :: padded 6 a.microsecond

/-- `a.isoformat()`. -/
def isoformat : Text :=
  padded 4 a.year ++ '-' :: (padded 2 a.month ++ '-' :: (padded 2 a.day ++ 'T' ::
    (padded 2 a.hour ++ ':' :: (padded 2 a.minute ++ ':' :: (padded 2 a.second ++
      (a.fraction ++ UTC_OFFSET))))))

theorem cons_lt_cons_self_iff {c : Char} {text text' : Text} :
    c :: text < c :: text' ↔ text < text' := by
  simp

/-- **The offset comes before a fraction.** -/
theorem fraction_lt_iff : a.fraction ++ UTC_OFFSET < b.fraction ++ UTC_OFFSET ↔
    a.microsecond < b.microsecond := by
  have hplus : ∀ text : Text, UTC_OFFSET < '.' :: text := fun text =>
    List.cons_lt_cons_iff.mpr (.inl (by decide))
  have hdot : ∀ text : Text, ¬ '.' :: text < UTC_OFFSET := fun text h =>
    List.lt_asymm h (hplus text)
  rw [fraction, fraction]
  by_cases ha : a.microsecond = 0 <;> by_cases hb : b.microsecond = 0
  · rw [if_pos ha, if_pos hb, ha, hb]
    exact iff_of_false (List.lt_irrefl _) (lt_irrefl 0)
  · rw [if_pos ha, if_neg hb, ha]
    exact iff_of_true (hplus _) (Nat.pos_of_ne_zero hb)
  · rw [if_neg ha, if_pos hb, hb]
    exact iff_of_false (hdot _) (Nat.not_lt_zero _)
  · rw [if_neg ha, if_neg hb, List.cons_append, List.cons_append, cons_lt_cons_self_iff,
      padded_append_lt_iff (by decide) a.microsecond_lt b.microsecond_lt]
    exact or_iff_left fun h => List.lt_irrefl _ h.2

/-- **Texts compare as instants do.** -/
theorem isoformat_lt_iff : a.isoformat < b.isoformat ↔ a.timestamp < b.timestamp := by
  have htwo : ∀ {m n : Nat} {text text' : Text}, m < 100 → n < 100 →
      (padded 2 m ++ text < padded 2 n ++ text' ↔ m < n ∨ m = n ∧ text < text') :=
    fun hm hn => padded_append_lt_iff (by decide) hm hn
  have hday : ∀ d : Datetime, d.day < 100 := fun d =>
    (d.day_range.2.trans (daysInMonth_le _ _)).trans_lt (by decide)
  rw [timestamp_lt_iff, Before, isoformat, isoformat,
    padded_append_lt_iff (by decide) (Nat.lt_succ_of_le a.year_range.2)
      (Nat.lt_succ_of_le b.year_range.2), cons_lt_cons_self_iff,
    htwo (a.month_range.2.trans_lt (by decide)) (b.month_range.2.trans_lt (by decide)),
    cons_lt_cons_self_iff, htwo (hday a) (hday b), cons_lt_cons_self_iff,
    htwo (a.hour_lt.trans (by decide)) (b.hour_lt.trans (by decide)), cons_lt_cons_self_iff,
    htwo (a.minute_lt.trans (by decide)) (b.minute_lt.trans (by decide)), cons_lt_cons_self_iff,
    htwo (a.second_lt.trans (by decide)) (b.second_lt.trans (by decide)), fraction_lt_iff]

theorem isoformat_ascii : ∀ c ∈ a.isoformat, c.toNat < 0x80 := by
  have hdigits : ∀ {width n : Nat} {c : Char}, c ∈ padded width n → c.toNat < 0x80 := fun h =>
    (digit_bounds (isDigit_of_mem_padded h)).2.trans_lt (by decide)
  have hfraction : ∀ c ∈ a.fraction, c.toNat < 0x80 := by
    rw [fraction]
    split
    · exact fun c h => absurd h List.not_mem_nil
    · exact List.forall_mem_cons.mpr ⟨by decide, fun c => hdigits⟩
  have hoffset : ∀ c ∈ UTC_OFFSET, c.toNat < 0x80 := by simp [UTC_OFFSET]
  simp only [isoformat, List.forall_mem_append, List.forall_mem_cons]
  exact ⟨fun _ => hdigits, by decide, fun _ => hdigits, by decide, fun _ => hdigits, by decide,
    fun _ => hdigits, by decide, fun _ => hdigits, by decide, fun _ => hdigits, hfraction, hoffset⟩

/-- **SQLite orders the texts as the instants are ordered.** -/
theorem encode_isoformat_lt_iff :
    a.isoformat.encode < b.isoformat.encode ↔ a.timestamp < b.timestamp := by
  rw [Text.encode_lt_encode_iff a.isoformat_ascii b.isoformat_ascii, isoformat_lt_iff]

theorem encode_isoformat_eq_iff :
    a.isoformat.encode = b.isoformat.encode ↔ a.timestamp = b.timestamp := by
  refine ⟨fun h => le_antisymm ?_ ?_, fun h => by rw [eq_of_timestamp_eq h]⟩
  · exact not_lt.mp (mt (encode_isoformat_lt_iff b a).mpr (h ▸ List.lt_irrefl _))
  · exact not_lt.mp (mt (encode_isoformat_lt_iff a b).mpr (h ▸ List.lt_irrefl _))

end Datetime

/-! ## Reading back -/

/-- A number of so many digits in front of a text. -/
def takeNumber (width : Nat) (text : Text) : Option (Nat × Text) :=
  let digits := text.take width
  if digits.length = width ∧ digits.all Char.isDigit = true then
    some (numberOf digits, text.drop width)
  else none

def takeChar (expected : Char) : Text → Option Text
  | [] => none
  | c :: text => if c = expected then some text else none

/-- The microseconds of a fraction, of which six digits count. -/
def takeFraction : Text → Option (Nat × Text)
  | [] => some (0, [])
  | c :: text =>
    if c = '.' ∨ c = ',' then
      let digits := text.takeWhile Char.isDigit
      if digits = [] then none
      else some (numberOf ((digits ++ List.replicate 6 '0').take 6), text.dropWhile Char.isDigit)
    else some (0, c :: text)

/-- The minutes of an offset at the end of a text; without one, the time is naive. -/
def takeOffset : Text → Option (Option Int)
  | [] => some none
  | ['Z'] => some (some 0)
  | sign :: text => do
    let (hours, text) ← takeNumber 2 text
    let text ← takeChar ':' text
    let (minutes, text) ← takeNumber 2 text
    let offset : Int := 60 * hours + minutes
    if text ≠ [] ∨ 1440 ≤ offset then none
    else if sign = '+' then some (some offset)
    else if sign = '-' then some (some (-offset))
    else none

/-- The local time of these fields, if they are in range. -/
def Datetime.ofFields? (year month day hour minute second microsecond : Nat) : Option Datetime :=
  if h : (1 ≤ year ∧ year ≤ 9999) ∧ (1 ≤ month ∧ month ≤ 12) ∧
      (1 ≤ day ∧ day ≤ daysInMonth year month) ∧ hour < 24 ∧ minute < 60 ∧ second < 60 ∧
      microsecond < 1000000 then
    some {
      year, month, day, hour, minute, second, microsecond
      year_range := h.1
      month_range := h.2.1
      day_range := h.2.2.1
      hour_lt := h.2.2.2.1
      minute_lt := h.2.2.2.2.1
      second_lt := h.2.2.2.2.2.1
      microsecond_lt := h.2.2.2.2.2.2 }
  else none

/-- `datetime.fromisoformat(text)`, of a text in the extended format with seconds: the local time,
and the offset if there is one. -/
def fromisoformat (text : Text) : Option (Datetime × Option Int) := do
  let (year, text) ← takeNumber 4 text
  let (month, text) ← takeNumber 2 (← takeChar '-' text)
  let (day, text) ← takeNumber 2 (← takeChar '-' text)
  -- any character separates the time from the date
  let (hour, text) ← takeNumber 2 (← text.tail?)
  let (minute, text) ← takeNumber 2 (← takeChar ':' text)
  let (second, text) ← takeNumber 2 (← takeChar ':' text)
  let (microsecond, text) ← takeFraction text
  let offset ← takeOffset text
  let datetime ← Datetime.ofFields? year month day hour minute second microsecond
  return (datetime, offset)

/-- The end of the year 9999. -/
def endOfTime : Nat := DAY * daysBeforeYear 10000

/-- An instant in range. -/
def instant? (instant : Int) : Option Nat :=
  if 0 ≤ instant ∧ instant < endOfTime then some instant.toNat else none

/-- `value.astimezone(UTC)`, if it is in range. -/
def astimezone (datetime : Datetime) (offset : Int) : Option Nat :=
  instant? (datetime.timestamp - 60000000 * offset)

/-- Require one timezone-aware timestamp and normalize it to UTC. -/
def normalizeTimestamp (datetime : Datetime) (offset : Option Int) : Option Nat := do
  astimezone datetime (← offset)

/-- The instant of a stored text. -/
def decodeTimestamp (text : Text) : Option Nat :=
  (fromisoformat text).bind fun value => normalizeTimestamp value.1 value.2

theorem takeNumber_padded {width n : Nat} (hwidth : 0 < width) (hn : n < 10 ^ width) (text : Text) :
    takeNumber width (padded width n ++ text) = some (n, text) := by
  have hlength := length_padded hwidth hn
  have htake : (padded width n ++ text).take width = padded width n := List.take_left' hlength
  have hdrop : (padded width n ++ text).drop width = text := List.drop_left' hlength
  have hdigits := List.all_eq_true.mpr fun _ => @isDigit_of_mem_padded width n _
  rw [takeNumber, htake, hdrop, if_pos ⟨hlength, hdigits⟩, numberOf_padded]

theorem takeChar_cons (c : Char) (text : Text) : takeChar c (c :: text) = some text := if_pos rfl

namespace Datetime

variable (a : Datetime)

theorem ofFields?_eq : ofFields? a.year a.month a.day a.hour a.minute a.second a.microsecond
    = some a :=
  dif_pos ⟨a.year_range, a.month_range, a.day_range, a.hour_lt, a.minute_lt, a.second_lt,
    a.microsecond_lt⟩

theorem takeFraction_fraction :
    takeFraction (a.fraction ++ UTC_OFFSET) = some (a.microsecond, UTC_OFFSET) := by
  rw [fraction]
  split
  next hzero =>
    rw [hzero]
    rfl
  next =>
    have hlength : (padded 6 a.microsecond).length = 6 :=
      length_padded (by decide) a.microsecond_lt
    have hdigits : ∀ c ∈ padded 6 a.microsecond, c.isDigit = true := fun _ => isDigit_of_mem_padded
    have hne : padded 6 a.microsecond ≠ [] := List.ne_nil_of_length_pos (by omega)
    have htake : (padded 6 a.microsecond ++ UTC_OFFSET).takeWhile Char.isDigit
        = padded 6 a.microsecond := by
      rw [List.takeWhile_append_of_pos hdigits]
      exact List.append_nil _
    have hdrop : (padded 6 a.microsecond ++ UTC_OFFSET).dropWhile Char.isDigit
        = UTC_OFFSET := List.dropWhile_append_of_pos hdigits
    rw [List.cons_append, takeFraction, if_pos (.inl rfl), htake, hdrop, if_neg hne,
      List.take_left' hlength, numberOf_padded]

/-- **What is written is read back**, with an offset of zero. -/
theorem fromisoformat_isoformat : fromisoformat a.isoformat = some (a, some 0) := by
  have hyear := Nat.lt_succ_of_le a.year_range.2
  have hmonth := a.month_range.2.trans_lt (by decide : 12 < 10 ^ 2)
  have hday := (a.day_range.2.trans (daysInMonth_le _ _)).trans_lt (by decide : 31 < 10 ^ 2)
  have hhour := a.hour_lt.trans (by decide : 24 < 10 ^ 2)
  have hminute := a.minute_lt.trans (by decide : 60 < 10 ^ 2)
  have hsecond := a.second_lt.trans (by decide : 60 < 10 ^ 2)
  have hoffset : takeOffset UTC_OFFSET = some (some 0) := by decide
  simp only [fromisoformat, isoformat, takeNumber_padded (by decide : 0 < 4) hyear,
    takeNumber_padded Nat.two_pos hmonth, takeNumber_padded Nat.two_pos hday,
    takeNumber_padded Nat.two_pos hhour, takeNumber_padded Nat.two_pos hminute,
    takeNumber_padded Nat.two_pos hsecond, takeChar_cons, List.tail?_cons, takeFraction_fraction,
    hoffset, ofFields?_eq, Option.bind_eq_bind, Option.bind_some]
  rfl

theorem timestamp_lt_endOfTime : a.timestamp < endOfTime :=
  a.below_year.trans_le
    (Nat.mul_le_mul_left DAY (monotone_daysBeforeYear (Nat.succ_le_succ a.year_range.2)))

theorem astimezone_utc : astimezone a 0 = some a.timestamp := by
  rw [astimezone, Int.mul_zero, Int.sub_zero, instant?,
    if_pos ⟨Int.natCast_nonneg _, Int.ofNat_lt.mpr a.timestamp_lt_endOfTime⟩, Int.toNat_natCast]

theorem normalizeTimestamp_utc : normalizeTimestamp a (some 0) = some a.timestamp := by
  rw [normalizeTimestamp, Option.bind_eq_bind, Option.bind_some, astimezone_utc]

/-- **The instant of a text is the one that was written.** -/
theorem decodeTimestamp_isoformat : decodeTimestamp a.isoformat = some a.timestamp :=
  Option.bind_eq_some_iff.mpr ⟨(a, some 0), a.fromisoformat_isoformat, a.normalizeTimestamp_utc⟩

end Datetime

end Tile
