import HcMap.Lib.Calendar
import HcMap.Lib.Digits

/-!
# Date texts

How a browser writes and reads dates: `Date.prototype.toISOString`, `Date.parse`
on the texts of that form, and the wall clock of its time zone. What it makes of
other texts is its own.
-/

namespace DateText

open Calendar Digits

-- ---------------------------------------------------------------------------
-- Writing
-- ---------------------------------------------------------------------------

def yearText (year : Int) : List Char :=
  if 0 ≤ year ∧ year ≤ 9999 then pad 4 year.toNat
  else (if year < 0 then '-' else '+') :: pad 6 year.natAbs

def dateText (d : Date) : List Char :=
  yearText d.year ++ '-' :: (pad 2 (d.month + 1) ++ '-' :: pad 2 d.day)

def minuteText (t : Time) : List Char := pad 2 t.hour ++ ':' :: pad 2 t.minute

def timeText (t : Time) : List Char :=
  minuteText t ++ ':' :: (pad 2 t.second ++ '.' :: pad 3 t.milli)

def toISOString (ms : Int) : String :=
  String.ofList (dateText (dateTimeOf ms).date ++ 'T' :: (timeText (dateTimeOf ms).time ++ ['Z']))

-- ---------------------------------------------------------------------------
-- Reading
-- ---------------------------------------------------------------------------

def date? (year : Int) (month day : Nat) : Option Date :=
  if h : 1 ≤ month ∧ 1 ≤ day ∧ day ≤ daysInMonth year (month - 1) then
    some ⟨year, month - 1, day, h.2.1, h.2.2⟩
  else none

def time? (hour minute second milli : Nat) : Option Time :=
  if h : hour < 24 ∧ minute < 60 ∧ second < 60 ∧ milli < 1000 then
    some ⟨hour, minute, second, milli, h.1, h.2.1, h.2.2.1, h.2.2.2⟩
  else none

/-- There is no year -000000. -/
def readYear : List Char → Option (Int × List Char)
  | '+' :: cs => (number 6 cs).map fun (n, cs) => ((n : Int), cs)
  | '-' :: cs => (number 6 cs).bind fun (n, cs) => if n = 0 then none else some (-(n : Int), cs)
  | cs => (number 4 cs).map fun (n, cs) => ((n : Int), cs)

def readDate (cs : List Char) : Option (Date × List Char) := do
  let (year, cs) ← readYear cs
  let cs ← expect '-' cs
  let (month, cs) ← number 2 cs
  let cs ← expect '-' cs
  let (day, cs) ← number 2 cs
  let date ← date? year month day
  return (date, cs)

def readMillis : List Char → Option (Nat × List Char)
  | '.' :: cs => number 3 cs
  | cs => some (0, cs)

def readSeconds : List Char → Option ((Nat × Nat) × List Char)
  | ':' :: cs => do
    let (second, cs) ← number 2 cs
    let (milli, cs) ← readMillis cs
    return ((second, milli), cs)
  | cs => some ((0, 0), cs)

def readTime (cs : List Char) : Option (Time × List Char) := do
  let (hour, cs) ← number 2 cs
  let cs ← expect ':' cs
  let (minute, cs) ← number 2 cs
  let ((second, milli), cs) ← readSeconds cs
  let time ← time? hour minute second milli
  return (time, cs)

def midnight : Time := ⟨0, 0, 0, 0, by decide, by decide, by decide, by decide⟩

/-- A date alone is in UTC, a date and a time without a zone is not. -/
def readDateTime (cs : List Char) : Option (DateTime × Bool) := do
  let (date, cs) ← readDate cs
  match cs with
  | [] => some (⟨date, midnight⟩, true)
  | 'T' :: cs => do
    let (time, cs) ← readTime cs
    match cs with
    | [] => some (⟨date, time⟩, false)
    | ['Z'] => some (⟨date, time⟩, true)
    | _ => none
  | _ => none

-- ---------------------------------------------------------------------------
-- What is written is read back
-- ---------------------------------------------------------------------------

section
variable {cs : List Char}

theorem isDigit_of_pad {width n : Nat} {c : Char} (h : pad width n = c :: cs) : c.isDigit :=
  List.all_eq_true.mp allDigits_pad c (h ▸ List.mem_cons_self)

theorem readYear_digits {c : Char} (hc : c.isDigit) :
    readYear (c :: cs) = (number 4 (c :: cs)).map fun (n, cs) => ((n : Int), cs) := by
  have hplus : c ≠ '+' := fun h => absurd (h ▸ hc) (by decide)
  have hminus : c ≠ '-' := fun h => absurd (h ▸ hc) (by decide)
  unfold readYear
  split
  · rename_i heq
    exact absurd (List.cons.inj heq).1 hplus
  · rename_i heq
    exact absurd (List.cons.inj heq).1 hminus
  · rfl

theorem readYear_yearText {year : Int} (h : year.natAbs < 10 ^ 6) :
    readYear (yearText year ++ cs) = some (year, cs) := by
  unfold yearText
  split
  · rename_i hyear
    have hread := number_pad (w := 4) (n := year.toNat) (by decide) (by omega) cs
    have hlength := length_pad (w := 4) (n := year.toNat) (by decide) (by omega)
    cases hpad : pad 4 year.toNat with
    | nil => simp [hpad] at hlength
    | cons c ds =>
      rw [hpad] at hread
      rw [List.cons_append] at hread ⊢
      rw [readYear_digits (isDigit_of_pad hpad), hread, Option.map_some]
      simp only [Option.some.injEq, Prod.mk.injEq, and_true]
      omega
  · rename_i hyear
    split
    · rename_i hneg
      have hyear : year.natAbs ≠ 0 := by omega
      rw [List.cons_append, readYear, number_pad (by decide) h]
      simp only [Option.bind_some, hyear, if_false, Option.some.injEq, Prod.mk.injEq, and_true]
      omega
    · rename_i hpos
      rw [List.cons_append, readYear, number_pad (by decide) h, Option.map_some]
      simp only [Option.some.injEq, Prod.mk.injEq, and_true]
      omega

theorem date?_date (d : Date) : date? d.year (d.month + 1) d.day = some d := by
  unfold date?
  rw [dif_pos ⟨Nat.le_add_left 1 _, d.one_le_day, d.day_le⟩]
  rfl

theorem daysInMonth_le (year : Int) (month : Nat) : daysInMonth year month ≤ 31 := by
  have hleap := leapDay_le year
  unfold daysInMonth
  rw [List.getD_eq_getElem?_getD]
  cases h : (monthLengths year)[month]? with
  | none => exact Nat.zero_le 31
  | some len =>
    have hmem := List.mem_of_getElem? h
    simp only [monthLengths, List.mem_cons, List.not_mem_nil, or_false] at hmem
    simp only [Option.getD_some]
    omega

theorem readDate_dateText {d : Date} (h : d.year.natAbs < 10 ^ 6) :
    readDate (dateText d ++ cs) = some (d, cs) := by
  have hmonth := d.month_lt
  have hday := Nat.le_trans d.day_le (daysInMonth_le d.year d.month)
  simp only [readDate, dateText, List.append_assoc, List.cons_append, readYear_yearText h,
    number_pad (w := 2) (n := d.month + 1) (by decide) (by omega),
    number_pad (w := 2) (n := d.day) (by decide) (by omega), expect_cons, if_true, date?_date,
    Option.bind_eq_bind, Option.bind_some, Option.pure_def]

theorem time?_time (t : Time) : time? t.hour t.minute t.second t.milli = some t := by
  unfold time?
  rw [dif_pos ⟨t.hour_lt, t.minute_lt, t.second_lt, t.milli_lt⟩]

theorem readTime_timeText (t : Time) : readTime (timeText t ++ cs) = some (t, cs) := by
  have hhour := t.hour_lt
  have hminute := t.minute_lt
  have hsecond := t.second_lt
  simp only [readTime, timeText, minuteText, List.append_assoc, List.cons_append, readSeconds,
    readMillis, number_pad (w := 2) (n := t.hour) (by decide) (by omega),
    number_pad (w := 2) (n := t.minute) (by decide) (by omega),
    number_pad (w := 2) (n := t.second) (by decide) (by omega),
    number_pad (w := 3) (by decide) t.milli_lt, expect_cons, if_true, time?_time,
    Option.bind_eq_bind, Option.bind_some, Option.pure_def]

theorem readTime_minuteText {t : Time} (hsecond : t.second = 0) (hmilli : t.milli = 0) :
    readTime (minuteText t) = some (t, []) := by
  have hhour := t.hour_lt
  have hminute := t.minute_lt
  have htime := time?_time t
  rw [hsecond, hmilli] at htime
  have hread := number_pad (w := 2) (n := t.minute) (by decide) (by omega) []
  rw [List.append_nil] at hread
  simp only [readTime, minuteText, readSeconds,
    number_pad (w := 2) (n := t.hour) (by decide) (by omega), hread, expect_cons, if_true,
    htime, Option.bind_eq_bind, Option.bind_some, Option.pure_def]

theorem readDateTime_iso {dt : DateTime} (h : dt.date.year.natAbs < 10 ^ 6) :
    readDateTime (dateText dt.date ++ 'T' :: (timeText dt.time ++ ['Z'])) = some (dt, true) := by
  simp only [readDateTime, readDate_dateText h, readTime_timeText, Option.bind_eq_bind,
    Option.bind_some]

theorem readDateTime_local {date : Date} {time : Time} (h : date.year.natAbs < 10 ^ 6)
    (htime : readTime cs = some (time, [])) :
    readDateTime (dateText date ++ 'T' :: cs) = some (⟨date, time⟩, false) := by
  simp only [readDateTime, readDate_dateText h, htime, Option.bind_eq_bind, Option.bind_some]

end

-- ---------------------------------------------------------------------------
-- Time zones
-- ---------------------------------------------------------------------------

/-- The wall clock of a time zone: how far it is ahead of UTC, and the instant a
time on it stands for. A time that the clock shows is read as an instant at
which it does, one that is skipped when the clock is put forward as a later one. -/
structure Zone where
  offset : Int → Int
  instant : Int → Int
  offset_bounds : ∀ ms, -msPerDay < offset ms ∧ offset ms < msPerDay
  instant_bounds : ∀ wall, wall - msPerDay < instant wall ∧ instant wall < wall + msPerDay
  instant_wall : ∀ ms, instant (ms + offset ms) + offset (instant (ms + offset ms)) = ms + offset ms
  le_shown : ∀ wall, wall ≤ instant wall + offset (instant wall)

def Zone.wall (z : Zone) (ms : Int) : Int := ms + z.offset ms

def Zone.fixed (o : Int) (h : -msPerDay < o ∧ o < msPerDay) : Zone where
  offset := fun _ => o
  instant := fun wall => wall - o
  offset_bounds := fun _ => h
  instant_bounds := fun wall => by omega
  instant_wall := fun ms => by omega
  le_shown := fun wall => by omega

def Zone.utc : Zone := .fixed 0 (by decide)

structure Browser where
  zone : Zone
  /-- `Date.parse` of the texts that are not of the standard form -/
  other : String → Option Int

def maxTime : Int := 8640000000000000

/-- There are no dates 100000000 days away. -/
def timeClip (ms : Int) : Option Int := if -maxTime ≤ ms ∧ ms ≤ maxTime then some ms else none

namespace Browser

variable (b : Browser)

/-- `Date.parse`; `none` is `NaN`. -/
def parse (s : String) : Option Int :=
  match readDateTime s.toList with
  | some (dt, true) => timeClip dt.number
  | some (dt, false) => timeClip (b.zone.instant dt.number)
  | none => b.other s

def localDateTime (ms : Int) : DateTime := dateTimeOf (b.zone.wall ms)

theorem year_bounds {ms : Int} (h : -maxTime ≤ ms ∧ ms ≤ maxTime) :
    (dateTimeOf ms).date.year.natAbs < 10 ^ 6 := by
  obtain ⟨hge, hlt⟩ := yearFromDay_spec (ms / msPerDay)
  show (yearFromDay (ms / msPerDay)).natAbs < 10 ^ 6
  unfold maxTime at h
  unfold dayFromYear msPerDay at *
  omega

theorem in_range (dt : DateTime) {ms : Int} (hyear : 0 ≤ dt.date.year ∧ dt.date.year ≤ 9999)
    (hms : dt.number - 2 * msPerDay ≤ ms ∧ ms ≤ dt.number + 2 * msPerDay) :
    -maxTime ≤ ms ∧ ms ≤ maxTime := by
  obtain ⟨hge, hlt⟩ := dt.date.number_bounds
  obtain ⟨hnonneg, hday⟩ := dt.time.number_bounds
  have hfirst := dayFromYear_mono hyear.1
  have hlast := dayFromYear_mono (Int.add_le_add_right hyear.2 1)
  have hzero : dayFromYear 0 = -719528 := by decide
  have htop : dayFromYear (9999 + 1) = 2932897 := by decide
  unfold DateTime.number at hms
  unfold msPerDay at *
  unfold maxTime
  omega

/-- A written instant is read back, in every zone. -/
theorem parse_toISOString {ms : Int} (h : -maxTime ≤ ms ∧ ms ≤ maxTime) :
    b.parse (toISOString ms) = some ms := by
  rw [parse, toISOString, String.toList_ofList, readDateTime_iso (year_bounds h)]
  simp only [number_dateTimeOf, timeClip, if_pos h]

theorem parse_local {s : String} {dt : DateTime}
    (hread : readDateTime s.toList = some (dt, false))
    (hyear : 0 ≤ dt.date.year ∧ dt.date.year ≤ 9999) :
    b.parse s = some (b.zone.instant dt.number) := by
  obtain ⟨hge, hlt⟩ := b.zone.instant_bounds dt.number
  have hrange : -maxTime ≤ b.zone.instant dt.number ∧ b.zone.instant dt.number ≤ maxTime :=
    in_range dt hyear (by
      unfold msPerDay at *
      omega)
  rw [parse, hread]
  simp only [timeClip, if_pos hrange]

end Browser

end DateText
