import HcMap.Db.Rows
import HcMap.Lib.DateText
import HcMap.Lib.Decimal

/-!
# Coarse event times

How the backfill form stores a start of a given precision, `precisionStartedIso`
of `event-backfill-form.tsx`, and how it is displayed, `formatEventTime` of
`event-time.ts`.
-/

namespace HcMap.EventTime

open Calendar Digits DateText Decimal

variable (b : Browser)

-- ---------------------------------------------------------------------------
-- Storing
-- ---------------------------------------------------------------------------

/-- `toISOString` of an invalid date throws. -/
inductive Thrown
  | rangeError
  deriving DecidableEq

def dateToISOString (text : String) : Except Thrown String :=
  match b.parse text with
  | some ms => .ok (toISOString ms)
  | none => .error .rangeError

def localToIso (value : String) : Option String :=
  if value = "" then none else (b.parse value).map toISOString

/-- `Date.UTC(year, month, 1, 0, 0, 0)`, which cuts off what is behind the point;
the first hundred years, which it takes for others, are not asked for. -/
def dateUTC (year month : ℚ) : Int :=
  (dayFromYear ⌊year⌋ + daysBefore ⌊year⌋ ⌊month⌋.toNat) * msPerDay

/-- `none` is `null`. -/
def precisionStartedIso (precision : TimePrecision) (year month day startedAt : String) :
    Except Thrown (Option String) :=
  match precision with
  | .year =>
    match toNumber year with
    | none => .ok none
    | some y =>
      if y < 1900 ∨ 2100 < y then .ok none
      else .ok (some (toISOString (dateUTC y 0)))
  | .month =>
    match toNumber year, toNumber month with
    | some y, some m =>
      if y < 1900 ∨ 2100 < y then .ok none
      else if m < 1 ∨ 12 < m then .ok none
      else .ok (some (toISOString (dateUTC y (m - 1))))
    | _, _ => .ok none
  | .day =>
    if day = "" then .ok none else (dateToISOString b (day ++ "T00:00:00")).map some
  | .hour | .minute => .ok (localToIso b startedAt)

/-- Coarse events have no end of their own. -/
def precisionEndedIso (precision : TimePrecision) (endedAt : String) : Option String :=
  match precision with
  | .year | .month | .day => none
  | .hour | .minute => localToIso b endedAt

-- ---------------------------------------------------------------------------
-- Displaying
-- ---------------------------------------------------------------------------

def monthNamesDe : List String :=
  ["Januar", "Februar", "März", "April", "Mai", "Juni", "Juli", "August", "September", "Oktober",
    "November", "Dezember"]

def monthName (month : Nat) : List Char := (monthNamesDe.getD month "undefined").toList

/-- The year in an era: 1 is before 1. -/
def eraYear (year : Int) : Nat := if 0 < year then year.toNat else (1 - year).toNat

def toLocaleDateString (d : Date) : List Char :=
  Nat.toDigits 10 d.day ++ '.' :: (Nat.toDigits 10 (d.month + 1) ++ '.' ::
    Nat.toDigits 10 (eraYear d.year))

def toLocaleString (dt : DateTime) : List Char :=
  pad 2 dt.date.day ++ '.' :: (pad 2 (dt.date.month + 1) ++ '.' ::
    (Nat.toDigits 10 (eraYear dt.date.year) ++ ',' :: ' ' :: minuteText dt.time))

def display (precision : TimePrecision) (dt : DateTime) : List Char :=
  match precision with
  | .year => integer dt.date.year
  | .month => monthName dt.date.month ++ ' ' :: integer dt.date.year
  | .day => toLocaleDateString dt.date
  | .hour => toLocaleDateString dt.date ++ ',' :: ' ' :: (pad 2 dt.time.hour ++ " Uhr".toList)
  | .minute => toLocaleString dt

def formatEventTime (iso : String) (precision : TimePrecision) : String :=
  match b.parse iso with
  | none => iso
  | some ms => String.ofList (display precision (b.localDateTime ms))

-- ---------------------------------------------------------------------------
-- What is entered
-- ---------------------------------------------------------------------------

/-- The texts of a valid form, and the beginning of what they stand for. Years
and months are whole numbers, dates and times the values of their inputs. -/
inductive Entered (year month day startedAt : String) : TimePrecision → DateTime → Prop
  | year {y : Int} (hyear : toNumber year = some (y : ℚ)) (hrange : 1900 ≤ y ∧ y ≤ 2100) :
      Entered year month day startedAt .year ⟨firstOf y 0 (by decide), midnight⟩
  | month {y : Int} {m : Nat} (hyear : toNumber year = some (y : ℚ))
      (hrange : 1900 ≤ y ∧ y ≤ 2100) (hmonth : toNumber month = some ((m + 1 : Nat) : ℚ))
      (hm : m < 12) : Entered year month day startedAt .month ⟨firstOf y m hm, midnight⟩
  | day {d : Date} (hday : day = String.ofList (dateText d))
      (hrange : 1 ≤ d.year ∧ d.year ≤ 9999) :
      Entered year month day startedAt .day ⟨d, midnight⟩
  | hour {dt : DateTime}
      (hstart : startedAt = String.ofList (dateText dt.date ++ 'T' :: minuteText dt.time))
      (hrange : 1 ≤ dt.date.year ∧ dt.date.year ≤ 9999)
      (hwhole : dt.time.second = 0 ∧ dt.time.milli = 0) :
      Entered year month day startedAt .hour dt
  | minute {dt : DateTime}
      (hstart : startedAt = String.ofList (dateText dt.date ++ 'T' :: minuteText dt.time))
      (hrange : 1 ≤ dt.date.year ∧ dt.date.year ≤ 9999)
      (hwhole : dt.time.second = 0 ∧ dt.time.milli = 0) :
      Entered year month day startedAt .minute dt

/-- The instant that is stored: year and month begin in UTC, the finer precisions
on the wall clock. -/
def anchor (z : Zone) : TimePrecision → DateTime → Int
  | .year, dt | .month, dt => dt.number
  | .day, dt | .hour, dt | .minute, dt => z.instant dt.number

/-- The same year, month, day, hour or minute. -/
def Same : TimePrecision → DateTime → DateTime → Prop
  | .year, dt, dt' => dt.date.year = dt'.date.year
  | .month, dt, dt' => dt.date.month = dt'.date.month ∧ dt.date.year = dt'.date.year
  | .day, dt, dt' => dt.date = dt'.date
  | .hour, dt, dt' => dt.date = dt'.date ∧ dt.time.hour = dt'.time.hour
  | .minute, dt, dt' =>
    dt.date = dt'.date ∧ dt.time.hour = dt'.time.hour ∧ dt.time.minute = dt'.time.minute

-- ---------------------------------------------------------------------------
-- Texts tell times apart
-- ---------------------------------------------------------------------------

section
variable {m m' : Nat} {d d' : Date} {dt dt' : DateTime} {cs cs' : List Char}

theorem monthName_append_inj (hm : m < 12) (hm' : m' < 12) :
    monthName m ++ ' ' :: cs = monthName m' ++ ' ' :: cs' ↔ m = m' ∧ cs = cs' := by
  have hspace : ∀ k < 12, ' ' ∉ monthName k := by decide
  have hinj : ∀ k < 12, ∀ k' < 12, monthName k = monthName k' → k = k' := by decide
  rw [separated_inj (hspace m hm) (hspace m' hm')]
  exact and_congr_left' ⟨hinj m hm m' hm', fun h => by rw [h]⟩

theorem eraYear_inj (h : 0 < d.year) (h' : 0 < d'.year) :
    eraYear d.year = eraYear d'.year ↔ d.year = d'.year := by
  rw [eraYear, eraYear, if_pos h, if_pos h']
  omega

theorem date_eq_iff : d = d' ↔ d.day = d'.day ∧ d.month = d'.month ∧ d.year = d'.year :=
  ⟨fun h => by rw [h]; exact ⟨rfl, rfl, rfl⟩, fun h => Date.ext h.2.2 h.2.1 h.1⟩

theorem toLocaleDateString_inj (h : 0 < d.year) (h' : 0 < d'.year) :
    toLocaleDateString d = toLocaleDateString d' ↔ d = d' := by
  rw [toLocaleDateString, toLocaleDateString,
    digits_append_inj (allDigits_toDigits _) (allDigits_toDigits _) (by decide),
    digits_append_inj (allDigits_toDigits _) (allDigits_toDigits _) (by decide), toDigits_inj,
    toDigits_inj, toDigits_inj, eraYear_inj h h', Nat.add_right_cancel_iff, date_eq_iff]

theorem comma_not_mem (d : Date) : ',' ∉ toLocaleDateString d := by
  have hdigits : ∀ n, ',' ∉ Nat.toDigits 10 n := fun n =>
    not_mem_of_digits (allDigits_toDigits n) (by decide)
  simp [toLocaleDateString, hdigits]

theorem minuteText_inj {t t' : Calendar.Time} :
    minuteText t = minuteText t' ↔ t.hour = t'.hour ∧ t.minute = t'.minute := by
  rw [minuteText, minuteText, digits_append_inj allDigits_pad allDigits_pad (by decide), pad_inj,
    pad_inj]

theorem display_inj {precision : TimePrecision} (h : 0 < dt.date.year) (h' : 0 < dt'.date.year) :
    display precision dt = display precision dt' ↔ Same precision dt dt' := by
  cases precision with
  | year => exact integer_inj
  | month =>
    rw [display, display, monthName_append_inj dt.date.month_lt dt'.date.month_lt, integer_inj]
    rfl
  | day => exact toLocaleDateString_inj h h'
  | hour =>
    rw [display, display, separated_inj (comma_not_mem dt.date) (comma_not_mem dt'.date),
      toLocaleDateString_inj h h', List.cons_inj_right, List.append_left_inj, pad_inj]
    rfl
  | minute =>
    rw [display, display, toLocaleString, toLocaleString,
      digits_append_inj allDigits_pad allDigits_pad (by decide),
      digits_append_inj allDigits_pad allDigits_pad (by decide),
      digits_append_inj (allDigits_toDigits _) (allDigits_toDigits _) (by decide), pad_inj, pad_inj,
      toDigits_inj, eraYear_inj h h', List.cons_inj_right, minuteText_inj,
      Nat.add_right_cancel_iff]
    rw [Same, date_eq_iff]
    simp only [and_assoc]

end

-- ---------------------------------------------------------------------------
-- What is stored
-- ---------------------------------------------------------------------------

section
variable {b : Browser} {precision : TimePrecision} {year month day startedAt : String}
  {dt : DateTime}

theorem number_firstOf (y : Int) (m : Nat) (h : m < 12) :
    (DateTime.number ⟨firstOf y m h, midnight⟩) = (dayFromYear y + daysBefore y m) * msPerDay := by
  have hmidnight : midnight.number = 0 := rfl
  rw [DateTime.number, hmidnight]
  simp only [Date.number, firstOf]
  unfold msPerDay
  omega

theorem localToIso_minutes
    (hstart : startedAt = String.ofList (dateText dt.date ++ 'T' :: minuteText dt.time))
    (hrange : 1 ≤ dt.date.year ∧ dt.date.year ≤ 9999)
    (hwhole : dt.time.second = 0 ∧ dt.time.milli = 0) :
    localToIso b startedAt = some (toISOString (b.zone.instant dt.number)) := by
  have hread : readDateTime startedAt.toList = some (dt, false) := by
    rw [hstart, String.toList_ofList]
    exact readDateTime_local (by omega) (readTime_minuteText hwhole.1 hwhole.2)
  have hne : startedAt ≠ "" := by
    rintro rfl
    cases hread
  rw [localToIso, if_neg hne, b.parse_local hread (by omega)]
  rfl

theorem started_of_entered (h : Entered year month day startedAt precision dt) :
    precisionStartedIso b precision year month day startedAt =
      .ok (some (toISOString (anchor b.zone precision dt))) := by
  cases h with
  | @year y hyear hrange =>
    have hin : ¬ ((y : ℚ) < 1900 ∨ 2100 < (y : ℚ)) := by
      norm_cast
      omega
    have hmonth : ⌊(0 : ℚ)⌋.toNat = 0 := by norm_num
    simp only [precisionStartedIso, hyear, if_neg hin, dateUTC, Int.floor_intCast, hmonth]
    rw [anchor, number_firstOf]
  | @month y m hyear hrange hmonth hm =>
    have hin : ¬ ((y : ℚ) < 1900 ∨ 2100 < (y : ℚ)) := by
      norm_cast
      omega
    have hin' : ¬ (((m + 1 : Nat) : ℚ) < 1 ∨ 12 < ((m + 1 : Nat) : ℚ)) := by
      norm_cast
      omega
    have hfloor : ⌊((m + 1 : Nat) : ℚ) - 1⌋.toNat = m := by
      push_cast
      rw [add_sub_cancel_right, Int.floor_natCast, Int.toNat_natCast]
    simp only [precisionStartedIso, hyear, hmonth, if_neg hin, if_neg hin', dateUTC,
      Int.floor_intCast, hfloor]
    rw [anchor, number_firstOf]
  | @day d hday hrange =>
    have hread : readDateTime (day ++ "T00:00:00").toList = some (⟨d, midnight⟩, false) := by
      rw [hday, String.toList_append, String.toList_ofList]
      exact readDateTime_local (by omega) (by decide)
    have hne : day ≠ "" := by
      rintro rfl
      cases hread
    have hparse := b.parse_local hread ⟨by simp only; omega, hrange.2⟩
    simp only [precisionStartedIso, if_neg hne, dateToISOString, hparse]
    rfl
  | hour hstart hrange hwhole =>
    rw [precisionStartedIso, localToIso_minutes hstart hrange hwhole]
    rfl
  | minute hstart hrange hwhole =>
    rw [precisionStartedIso, localToIso_minutes hstart hrange hwhole]
    rfl

-- ---------------------------------------------------------------------------
-- What is read back
-- ---------------------------------------------------------------------------

/-- The zone keeps what is entered: year and month, where it is not behind UTC
when they begin; the finer precisions, where the clock is not put forward over
them. -/
def Kept (z : Zone) : TimePrecision → DateTime → Prop
  | .year, dt | .month, dt => 0 ≤ z.offset dt.number
  | .day, dt => Same .day (dateTimeOf (z.wall (z.instant dt.number))) dt
  | .hour, dt => Same .hour (dateTimeOf (z.wall (z.instant dt.number))) dt
  | .minute, dt => Same .minute (dateTimeOf (z.wall (z.instant dt.number))) dt

/-- The clock is put forward over the time, into another day, hour or minute. -/
def PutForward (z : Zone) (precision : TimePrecision) (dt : DateTime) : Prop :=
  (∀ ms, z.wall ms ≠ dt.number) ∧ ¬ Same precision (dateTimeOf (z.wall (z.instant dt.number))) dt

theorem kept_iff_not_putForward {z : Zone}
    (hfine : precision = .day ∨ precision = .hour ∨ precision = .minute) :
    Kept z precision dt ↔ ¬ PutForward z precision dt := by
  have hkept : Kept z precision dt ↔
      Same precision (dateTimeOf (z.wall (z.instant dt.number))) dt := by
    rcases hfine with rfl | rfl | rfl <;> rfl
  rw [hkept]
  refine ⟨fun hsame hforward => hforward.2 hsame, fun hnot => ?_⟩
  by_contra hother
  refine hnot ⟨fun ms hms => hother ?_, hother⟩
  -- A time that the clock shows is read as an instant at which it does.
  have hshown : z.wall (z.instant dt.number) = dt.number := hms ▸ z.instant_wall ms
  rw [hshown, dt.dateTimeOf_number]
  rcases hfine with rfl | rfl | rfl <;> simp [Same]

/-- The first of a month at midnight in UTC is on the wall clock in that month
exactly when the clock is not behind. -/
theorem wall_firstOf {z : Zone} {y : Int} {m : Nat} (hm : m < 12) :
    let dt : DateTime := ⟨firstOf y m hm, midnight⟩
    let shown := (dateTimeOf (z.wall dt.number)).date
    (0 ≤ z.offset dt.number → shown = dt.date) ∧
      (z.offset dt.number < 0 → shown.number = dt.date.number - 1) := by
  intro dt shown
  have hmidnight : midnight.number = 0 := rfl
  have hnumber : dt.number = dt.date.number * msPerDay := by
    rw [DateTime.number, hmidnight, add_zero]
  have hshown : shown.number = (dt.number + z.offset dt.number) / msPerDay := number_dateOf _
  obtain ⟨hlow, hhigh⟩ := z.offset_bounds dt.number
  unfold msPerDay at *
  refine ⟨fun h => Date.number_inj.mp ?_, fun h => ?_⟩ <;> omega

theorem same_iff_kept (h : Entered year month day startedAt precision dt) :
    Same precision (b.localDateTime (anchor b.zone precision dt)) dt ↔
      Kept b.zone precision dt := by
  cases h with
  | @year y =>
    obtain ⟨hkept, hbehind⟩ := wall_firstOf (z := b.zone) (y := y) (m := 0) (by decide)
    refine ⟨fun hsame => ?_, fun hoffset => congrArg Date.year (hkept hoffset)⟩
    by_contra hoffset
    have hnumber := hbehind (not_le.mp hoffset)
    exact not_year_of_lt_firstOf (hnumber.trans_lt (sub_one_lt _)) hsame
  | @month y m hyear hrange hmonth hm =>
    obtain ⟨hkept, hbehind⟩ := wall_firstOf (z := b.zone) (y := y) hm
    refine ⟨fun hsame => ?_, fun hoffset =>
      ⟨congrArg Date.month (hkept hoffset), congrArg Date.year (hkept hoffset)⟩⟩
    by_contra hoffset
    have hnumber := hbehind (not_le.mp hoffset)
    exact not_month_of_lt_firstOf (h := hm) (hnumber.trans_lt (sub_one_lt _)) ⟨hsame.2, hsame.1⟩
  | day => rfl
  | hour => rfl
  | minute => rfl

theorem entered_range (h : Entered year month day startedAt precision dt) :
    1 ≤ dt.date.year ∧ dt.date.year ≤ 9999 := by
  cases h with
  | @year y _ hrange => exact ⟨by simp only [firstOf]; omega, by simp only [firstOf]; omega⟩
  | @month y m _ hrange _ _ => exact ⟨by simp only [firstOf]; omega, by simp only [firstOf]; omega⟩
  | day _ hrange => exact hrange
  | hour _ hrange _ => exact hrange
  | minute _ hrange _ => exact hrange

theorem anchor_near (h : Entered year month day startedAt precision dt) :
    (dt.number - msPerDay ≤ anchor b.zone precision dt ∧
        anchor b.zone precision dt ≤ dt.number + msPerDay) ∧
      (dt.number ≤ b.zone.wall (anchor b.zone precision dt) ∨
        1900 ≤ dt.date.year ∧ dt.number - msPerDay ≤ b.zone.wall (anchor b.zone precision dt)) := by
  obtain ⟨hge, hlt⟩ := b.zone.instant_bounds dt.number
  obtain ⟨hlow, hhigh⟩ := b.zone.offset_bounds dt.number
  have hshown := b.zone.le_shown dt.number
  have hday : 0 < msPerDay := by decide
  cases h with
  | year _ hrange => exact ⟨⟨by simp only [anchor]; omega, by simp only [anchor]; omega⟩,
      .inr ⟨hrange.1, by simp only [anchor, Zone.wall]; omega⟩⟩
  | month _ hrange _ _ => exact ⟨⟨by simp only [anchor]; omega, by simp only [anchor]; omega⟩,
      .inr ⟨hrange.1, by simp only [anchor, Zone.wall]; omega⟩⟩
  | day => exact ⟨⟨hge.le, hlt.le⟩, .inl hshown⟩
  | hour => exact ⟨⟨hge.le, hlt.le⟩, .inl hshown⟩
  | minute => exact ⟨⟨hge.le, hlt.le⟩, .inl hshown⟩

theorem shown_year_pos (h : Entered year month day startedAt precision dt) :
    0 < (b.localDateTime (anchor b.zone precision dt)).date.year := by
  have hrange := entered_range h
  have hwall := (anchor_near (b := b) h).2
  obtain ⟨hge, hlt⟩ := dt.date.number_bounds
  obtain ⟨hnonneg, -⟩ := dt.time.number_bounds
  have hfirst := dayFromYear_mono hrange.1
  have hone : dayFromYear 1 = -719162 := by decide
  have hrecent : dayFromYear 1900 = -25567 := by decide
  refine le_yearFromDay 1 ?_
  unfold DateTime.number msPerDay at *
  rcases hwall with hwall | ⟨hyear, hwall⟩
  · omega
  · have := dayFromYear_mono hyear
    omega

theorem display_iff_kept (h : Entered year month day startedAt precision dt) :
    formatEventTime b (toISOString (anchor b.zone precision dt)) precision =
        String.ofList (display precision dt) ↔
      Kept b.zone precision dt := by
  have hrange := entered_range h
  have hnear := (anchor_near (b := b) h).1
  have hmax : -maxTime ≤ anchor b.zone precision dt ∧ anchor b.zone precision dt ≤ maxTime :=
    Browser.in_range dt (by omega) (by
      unfold msPerDay at *
      omega)
  rw [formatEventTime, b.parse_toISOString hmax]
  simp only
  rw [String.ofList_inj, display_inj (shown_year_pos h) (by omega), same_iff_kept h]

theorem kept_fixed {offset : Int} {hoffset : -msPerDay < offset ∧ offset < msPerDay} :
    Kept (Zone.fixed offset hoffset) precision dt ↔
      (precision = .year ∨ precision = .month → 0 ≤ offset) := by
  have hnot : ¬ PutForward (Zone.fixed offset hoffset) precision dt :=
    fun hforward => hforward.1 (dt.number - offset) (Int.sub_add_cancel dt.number offset)
  cases precision with
  | year => exact ⟨fun h _ => h, fun h => h (.inl rfl)⟩
  | month => exact ⟨fun h _ => h, fun h => h (.inr rfl)⟩
  | day => exact iff_of_true ((kept_iff_not_putForward (.inl rfl)).mpr hnot) (by simp)
  | hour => exact iff_of_true ((kept_iff_not_putForward (.inr (.inl rfl))).mpr hnot) (by simp)
  | minute => exact iff_of_true ((kept_iff_not_putForward (.inr (.inr rfl))).mpr hnot) (by simp)

/-- Coarse times read back as entered exactly when the zone keeps them: with one
offset, when they are days or finer or the offset is not behind UTC. -/
theorem coarseTime_readBack_iff (h : Entered year month day startedAt precision dt) :
    ((∃ iso, precisionStartedIso b precision year month day startedAt = .ok (some iso) ∧
        formatEventTime b iso precision = String.ofList (display precision dt)) ↔
      Kept b.zone precision dt) ∧
    ∀ offset hoffset, b.zone = Zone.fixed offset hoffset →
      (Kept b.zone precision dt ↔ (precision = .year ∨ precision = .month → 0 ≤ offset)) := by
  refine ⟨?_, fun offset hoffset hzone => by rw [hzone, kept_fixed]⟩
  rw [started_of_entered h, ← display_iff_kept h]
  constructor
  · rintro ⟨iso, hiso, hdisplay⟩
    cases hiso
    exact hdisplay
  · intro hdisplay
    exact ⟨_, rfl, hdisplay⟩

end

def sampleBrowser : Browser := ⟨Zone.fixed (-18000000) (by decide), fun _ => none⟩

theorem sample_entered : Entered "2024" "5" "" "" .month ⟨firstOf 2024 4 (by decide), midnight⟩ :=
  .month (y := 2024) (m := 4) (by decide +kernel) (by decide) (by decide +kernel) (by decide)

theorem coarseTime_readBack_iff_sample :
    ∃ iso, precisionStartedIso ⟨Zone.fixed 3600000 (by decide), fun _ => none⟩ .month "2024" "5"
        "" "" = .ok (some iso) ∧
      formatEventTime ⟨Zone.fixed 3600000 (by decide), fun _ => none⟩ iso .month =
        String.ofList (display .month ⟨firstOf 2024 4 (by decide), midnight⟩) := by
  obtain ⟨hiff, hfixed⟩ := coarseTime_readBack_iff
    (b := ⟨Zone.fixed 3600000 (by decide), fun _ => none⟩) sample_entered
  exact hiff.mpr ((hfixed 3600000 (by decide) rfl).mpr fun _ => by decide)

/-- Five hours behind UTC, May is displayed as April. -/
theorem may_displayed_as_april :
    Entered "2024" "5" "" "" .month ⟨firstOf 2024 4 (by decide), midnight⟩ ∧
      precisionStartedIso sampleBrowser .month "2024" "5" "" "" =
        .ok (some "2024-05-01T00:00:00.000Z") ∧
      formatEventTime sampleBrowser "2024-05-01T00:00:00.000Z" .month = "April 2024" ∧
      String.ofList (display .month ⟨firstOf 2024 4 (by decide), midnight⟩) = "Mai 2024" := by
  refine ⟨sample_entered, ?_, by decide +kernel, by decide +kernel⟩
  rw [started_of_entered sample_entered]
  decide +kernel

end HcMap.EventTime
