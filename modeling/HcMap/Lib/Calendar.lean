import Mathlib.Algebra.GroupWithZero.Nat
import Mathlib.Data.Int.Order.Basic
import Mathlib.Data.List.GetD

/-!
# The Gregorian calendar

Days are counted from 1 January 1970, years go on in both directions. A date
carries the proof that its month has that day, so dates and day numbers are
one to one.
-/

namespace Calendar

-- ---------------------------------------------------------------------------
-- Years
-- ---------------------------------------------------------------------------

def dayFromYear (year : Int) : Int :=
  365 * (year - 1970) + (year - 1969) / 4 - (year - 1901) / 100 + (year - 1601) / 400

def leapDay (year : Int) : Nat :=
  if year % 4 = 0 ∧ (year % 100 ≠ 0 ∨ year % 400 = 0) then 1 else 0

theorem leapDay_le (year : Int) : leapDay year ≤ 1 := by
  unfold leapDay
  split <;> omega

theorem dayFromYear_succ (year : Int) :
    dayFromYear (year + 1) = dayFromYear year + 365 + leapDay year := by
  unfold dayFromYear leapDay
  split <;> omega

theorem dayFromYear_mono {year year' : Int} (h : year ≤ year') :
    dayFromYear year ≤ dayFromYear year' := by
  unfold dayFromYear
  omega

/-- An even share of 400 years, which are 146097 days. -/
def yearGuess (day : Int) : Int := 1970 + 400 * day / 146097

theorem dayFromYear_guess_le (day : Int) : dayFromYear (yearGuess day - 1) ≤ day := by
  unfold dayFromYear yearGuess
  omega

theorem lt_dayFromYear_guess (day : Int) : day < dayFromYear (yearGuess day + 1 + 1) := by
  unfold dayFromYear yearGuess
  omega

/-- The year the day is in: the guess is off by one at most. -/
def yearFromDay (day : Int) : Int :=
  if day < dayFromYear (yearGuess day) then yearGuess day - 1
  else if day < dayFromYear (yearGuess day + 1) then yearGuess day
  else yearGuess day + 1

theorem yearFromDay_spec (day : Int) :
    dayFromYear (yearFromDay day) ≤ day ∧ day < dayFromYear (yearFromDay day + 1) := by
  unfold yearFromDay
  split
  · rename_i hlt
    exact ⟨dayFromYear_guess_le day, by rwa [Int.sub_add_cancel]⟩
  · rename_i hge
    split
    · rename_i hlt
      exact ⟨not_lt.mp hge, hlt⟩
    · rename_i hge'
      exact ⟨not_lt.mp hge', lt_dayFromYear_guess day⟩

theorem yearFromDay_unique {day year : Int} (hge : dayFromYear year ≤ day)
    (hlt : day < dayFromYear (year + 1)) : yearFromDay day = year := by
  obtain ⟨hge', hlt'⟩ := yearFromDay_spec day
  rcases lt_trichotomy (yearFromDay day) year with h | h | h
  · have := dayFromYear_mono (Int.add_one_le_of_lt h)
    omega
  · exact h
  · have := dayFromYear_mono (Int.add_one_le_of_lt h)
    omega

theorem le_yearFromDay {day : Int} (year : Int) (h : dayFromYear year ≤ day) :
    year ≤ yearFromDay day := by
  obtain ⟨-, hlt⟩ := yearFromDay_spec day
  by_contra hyear
  have hmono : dayFromYear (yearFromDay day + 1) ≤ dayFromYear year := dayFromYear_mono (by omega)
  omega

-- ---------------------------------------------------------------------------
-- Months
-- ---------------------------------------------------------------------------

/-- Which of consecutive stretches the `n`-th place is in, and where there. -/
def locate : List Nat → Nat → Nat × Nat
  | [], n => (0, n)
  | len :: lens, n =>
    if n < len then (0, n)
    else ((locate lens (n - len)).1 + 1, (locate lens (n - len)).2)

theorem locate_spec {lens : List Nat} {n : Nat} (h : n < lens.sum) :
    (lens.take (locate lens n).1).sum + (locate lens n).2 = n ∧
      (locate lens n).2 < lens.getD (locate lens n).1 0 := by
  induction lens generalizing n with
  | nil => cases h
  | cons len lens ih =>
    rw [locate]
    split
    · rename_i hlt
      simpa using hlt
    · rename_i hge
      rw [List.sum_cons] at h
      obtain ⟨hsum, hwithin⟩ := ih (n := n - len) (by omega)
      refine ⟨?_, by simpa using hwithin⟩
      rw [List.take_succ_cons, List.sum_cons]
      omega

theorem locate_unique {lens : List Nat} {i r : Nat} (h : r < lens.getD i 0) :
    locate lens ((lens.take i).sum + r) = (i, r) := by
  induction lens generalizing i with
  | nil => simp at h
  | cons len lens ih =>
    cases i with
    | zero =>
      have hlt : r < len := by simpa using h
      simp [locate, hlt]
    | succ i =>
      have hrest := ih (i := i) (by simpa using h)
      rw [List.take_succ_cons, List.sum_cons, locate, if_neg (by omega), Nat.add_assoc,
        Nat.add_sub_cancel_left, hrest]

theorem sum_take_add_lt {lens : List Nat} {i r : Nat} (h : r < lens.getD i 0) :
    (lens.take i).sum + r < lens.sum := by
  induction lens generalizing i with
  | nil => simp at h
  | cons len lens ih =>
    cases i with
    | zero =>
      have hlt : r < len := by simpa using h
      rw [List.take_zero, List.sum_nil, List.sum_cons]
      omega
    | succ i =>
      have hrest := ih (i := i) (by simpa using h)
      rw [List.take_succ_cons, List.sum_cons, List.sum_cons]
      omega

def monthLengths (year : Int) : List Nat :=
  [31, 28 + leapDay year, 31, 30, 31, 30, 31, 31, 30, 31, 30, 31]

theorem sum_monthLengths (year : Int) : (monthLengths year).sum = 365 + leapDay year := by
  simp only [monthLengths, List.sum_cons, List.sum_nil]
  omega

/-- Months count from 0; there is no day in the others. -/
def daysInMonth (year : Int) (month : Nat) : Nat := (monthLengths year).getD month 0

def daysBefore (year : Int) (month : Nat) : Nat := ((monthLengths year).take month).sum

-- ---------------------------------------------------------------------------
-- Dates
-- ---------------------------------------------------------------------------

/-- Months count from 0, days from 1. -/
structure Date where
  year : Int
  month : Nat
  day : Nat
  one_le_day : 1 ≤ day
  day_le : day ≤ daysInMonth year month
  deriving DecidableEq

theorem Date.ext {d d' : Date} (hyear : d.year = d'.year) (hmonth : d.month = d'.month)
    (hday : d.day = d'.day) : d = d' := by
  cases d
  cases d'
  subst hyear hmonth hday
  rfl

theorem Date.month_lt (d : Date) : d.month < 12 := by
  have hday := Nat.le_trans d.one_le_day d.day_le
  by_contra hge
  rw [daysInMonth, List.getD_eq_default _ _ (by simpa [monthLengths] using hge)] at hday
  omega

def Date.number (d : Date) : Int := dayFromYear d.year + daysBefore d.year d.month + d.day - 1

def dayWithinYear (day : Int) : Nat := (day - dayFromYear (yearFromDay day)).toNat

theorem dayWithinYear_lt (day : Int) :
    dayWithinYear day < (monthLengths (yearFromDay day)).sum := by
  obtain ⟨hge, hlt⟩ := yearFromDay_spec day
  rw [dayFromYear_succ] at hlt
  rw [sum_monthLengths]
  unfold dayWithinYear
  omega

def dateOf (day : Int) : Date where
  year := yearFromDay day
  month := (locate (monthLengths (yearFromDay day)) (dayWithinYear day)).1
  day := (locate (monthLengths (yearFromDay day)) (dayWithinYear day)).2 + 1
  one_le_day := Nat.le_add_left 1 _
  day_le := (locate_spec (dayWithinYear_lt day)).2

@[simp] theorem number_dateOf (day : Int) : (dateOf day).number = day := by
  obtain ⟨hge, -⟩ := yearFromDay_spec day
  have hsum := (locate_spec (dayWithinYear_lt day)).1
  unfold Date.number dateOf daysBefore
  simp only
  unfold dayWithinYear at hsum ⊢
  omega

namespace Date

variable {d d' : Date}

theorem day_sub_one_lt (d : Date) : d.day - 1 < (monthLengths d.year).getD d.month 0 :=
  Nat.sub_one_lt_of_le d.one_le_day d.day_le

theorem year_number (d : Date) : yearFromDay d.number = d.year := by
  have hfirst := d.one_le_day
  have hwithin := sum_take_add_lt d.day_sub_one_lt
  rw [sum_monthLengths] at hwithin
  refine yearFromDay_unique ?_ ?_
  · unfold number
    omega
  · rw [dayFromYear_succ]
    unfold number daysBefore
    omega

theorem dayWithinYear_number (d : Date) :
    dayWithinYear d.number = daysBefore d.year d.month + (d.day - 1) := by
  have hfirst := d.one_le_day
  unfold dayWithinYear
  rw [d.year_number]
  unfold number
  omega

@[simp] theorem dateOf_number (d : Date) : dateOf d.number = d := by
  have hfirst := d.one_le_day
  have hlocate : locate (monthLengths (yearFromDay d.number)) (dayWithinYear d.number) =
      (d.month, d.day - 1) := by
    rw [d.year_number, d.dayWithinYear_number]
    exact locate_unique d.day_sub_one_lt
  refine Date.ext d.year_number (congrArg Prod.fst hlocate) ?_
  show (locate (monthLengths (yearFromDay d.number)) (dayWithinYear d.number)).2 + 1 = d.day
  rw [hlocate]
  exact Nat.sub_add_cancel hfirst

theorem number_inj : d.number = d'.number ↔ d = d' :=
  ⟨fun h => by rw [← d.dateOf_number, h, d'.dateOf_number], congrArg number⟩

theorem number_bounds (d : Date) :
    dayFromYear d.year ≤ d.number ∧ d.number < dayFromYear (d.year + 1) := by
  have hspec := yearFromDay_spec d.number
  rwa [d.year_number] at hspec

end Date

theorem one_le_daysInMonth {year : Int} {month : Nat} (h : month < 12) :
    1 ≤ daysInMonth year month := by
  have hlength : month < (monthLengths year).length := h
  have hmem := List.getElem_mem hlength
  rw [daysInMonth, List.getD_eq_getElem _ _ hlength]
  simp only [monthLengths, List.mem_cons, List.not_mem_nil, or_false] at hmem
  simp only [monthLengths]
  omega

def firstOf (year : Int) (month : Nat) (h : month < 12) : Date :=
  ⟨year, month, 1, Nat.le_refl 1, one_le_daysInMonth h⟩

/-- The day before the first of a month is in another month. -/
theorem not_month_of_lt_firstOf {year : Int} {month : Nat} {h : month < 12} {d : Date}
    (hlt : d.number < (firstOf year month h).number) : ¬ (d.year = year ∧ d.month = month) := by
  rintro ⟨rfl, rfl⟩
  have hfirst := d.one_le_day
  simp only [Date.number, firstOf] at hlt
  omega

theorem not_year_of_lt_firstOf {year : Int} {d : Date}
    (hlt : d.number < (firstOf year 0 (by decide)).number) : d.year ≠ year := by
  rintro rfl
  have hbounds := d.number_bounds
  have hfirst : (firstOf d.year 0 (by decide)).number = dayFromYear d.year := by
    simp only [Date.number, firstOf, daysBefore, List.take_zero, List.sum_nil]
    omega
  omega

-- ---------------------------------------------------------------------------
-- Months
-- ---------------------------------------------------------------------------

theorem daysBefore_mono (year : Int) {month month' : Nat} (h : month ≤ month') :
    daysBefore year month ≤ daysBefore year month' := by
  obtain ⟨n, rfl⟩ := Nat.exists_eq_add_of_le h
  unfold daysBefore
  rw [List.take_add, List.sum_append]
  exact Nat.le_add_right ..

theorem daysBefore_succ (year : Int) (month : Nat) :
    daysBefore year (month + 1) = daysBefore year month + daysInMonth year month := by
  unfold daysBefore daysInMonth
  rw [List.take_add_one, List.sum_append, List.getD_eq_getElem?_getD]
  cases (monthLengths year)[month]? <;> simp

theorem daysBefore_le (year year' : Int) (month : Nat) :
    daysBefore year month ≤ daysBefore year' month + leapDay year := by
  rcases month with _ | _ | month <;> simp [daysBefore, monthLengths]
  omega

def Date.monthIndex (d : Date) : Int := 12 * d.year + d.month

/-- A later day is in no earlier month. -/
theorem monthIndex_mono {day day' : Int} (h : day ≤ day') :
    (dateOf day).monthIndex ≤ (dateOf day').monthIndex := by
  have hyear : (dateOf day).year ≤ (dateOf day').year :=
    le_yearFromDay _ (Int.le_trans (yearFromDay_spec day).1 h)
  have hmonth := (dateOf day).month_lt
  unfold Date.monthIndex
  rcases Int.lt_or_eq_of_le hyear with hlt | hsame
  · omega
  · suffices (dateOf day).month ≤ (dateOf day').month by omega
    by_contra hlater
    have hnumber := number_dateOf day
    have hnumber' := number_dateOf day'
    have hlast := (dateOf day').day_le
    have hfirst := (dateOf day).one_le_day
    have hmonths := daysBefore_mono (dateOf day').year (Nat.lt_of_not_le hlater)
    rw [daysBefore_succ] at hmonths
    unfold Date.number at hnumber hnumber'
    rw [hsame] at hnumber
    omega

theorem monthIndex_year_before (day : Int) :
    (dateOf day).monthIndex ≤ (dateOf (day - 365)).monthIndex + 12 := by
  have hfirst : (firstOf ((dateOf day).year - 1) (dateOf day).month (dateOf day).month_lt).number ≤
      day - 365 := by
    have hnumber := number_dateOf day
    have hday := (dateOf day).one_le_day
    have hyear := dayFromYear_succ ((dateOf day).year - 1)
    have hbefore := daysBefore_le ((dateOf day).year - 1) (dateOf day).year (dateOf day).month
    rw [Int.sub_add_cancel] at hyear
    unfold Date.number at hnumber
    simp only [Date.number, firstOf]
    omega
  have hmono := monthIndex_mono hfirst
  rw [Date.dateOf_number] at hmono
  simp only [Date.monthIndex, firstOf] at hmono ⊢
  omega

-- ---------------------------------------------------------------------------
-- Times
-- ---------------------------------------------------------------------------

def msPerMinute : Int := 60000
def msPerHour : Int := 3600000
def msPerDay : Int := 86400000

structure Time where
  hour : Nat
  minute : Nat
  second : Nat
  milli : Nat
  hour_lt : hour < 24
  minute_lt : minute < 60
  second_lt : second < 60
  milli_lt : milli < 1000
  deriving DecidableEq

def Time.number (t : Time) : Int :=
  t.hour * msPerHour + t.minute * msPerMinute + t.second * 1000 + t.milli

theorem Time.number_bounds (t : Time) : 0 ≤ t.number ∧ t.number < msPerDay := by
  have := t.hour_lt
  have := t.minute_lt
  have := t.second_lt
  have := t.milli_lt
  unfold number msPerHour msPerMinute msPerDay
  omega

def timeOf (ms : Int) : Time where
  hour := (ms % msPerDay / msPerHour).toNat
  minute := (ms % msPerHour / msPerMinute).toNat
  second := (ms % msPerMinute / 1000).toNat
  milli := (ms % 1000).toNat
  hour_lt := by
    unfold msPerDay msPerHour
    omega
  minute_lt := by
    unfold msPerHour msPerMinute
    omega
  second_lt := by
    unfold msPerMinute
    omega
  milli_lt := by omega

theorem Time.ext {t t' : Time} (hhour : t.hour = t'.hour) (hminute : t.minute = t'.minute)
    (hsecond : t.second = t'.second) (hmilli : t.milli = t'.milli) : t = t' := by
  cases t
  cases t'
  subst hhour hminute hsecond hmilli
  rfl

structure DateTime where
  date : Date
  time : Time
  deriving DecidableEq

/-- The milliseconds since the beginning of 1970. -/
def DateTime.number (dt : DateTime) : Int := dt.date.number * msPerDay + dt.time.number

def dateTimeOf (ms : Int) : DateTime := ⟨dateOf (ms / msPerDay), timeOf ms⟩

@[simp] theorem number_dateTimeOf (ms : Int) : (dateTimeOf ms).number = ms := by
  unfold DateTime.number dateTimeOf Time.number timeOf
  simp only [number_dateOf]
  unfold msPerDay msPerHour msPerMinute
  omega

theorem dateOf_number_div (dt : DateTime) : dateOf (dt.number / msPerDay) = dt.date := by
  obtain ⟨hnonneg, hlt⟩ := dt.time.number_bounds
  have hday : dt.number / msPerDay = dt.date.number := by
    unfold DateTime.number
    unfold msPerDay at hlt ⊢
    omega
  rw [hday, dt.date.dateOf_number]

@[simp] theorem DateTime.dateTimeOf_number (dt : DateTime) : dateTimeOf dt.number = dt := by
  have htime : timeOf dt.number = dt.time := by
    have := dt.time.hour_lt
    have := dt.time.minute_lt
    have := dt.time.second_lt
    have := dt.time.milli_lt
    unfold timeOf DateTime.number Time.number msPerDay msPerHour msPerMinute
    refine Time.ext ?_ ?_ ?_ ?_ <;> simp only <;> omega
  cases dt with
  | mk date time => exact congr (congrArg DateTime.mk (dateOf_number_div ⟨date, time⟩)) htime

def minuteStart (ms : Int) : Int := ms / msPerMinute * msPerMinute

theorem minuteStart_mono {ms ms' : Int} (h : ms ≤ ms') : minuteStart ms ≤ minuteStart ms' := by
  unfold minuteStart msPerMinute
  omega

theorem date_minuteStart (ms : Int) :
    (dateTimeOf (minuteStart ms)).date = (dateTimeOf ms).date := by
  have hday : minuteStart ms / msPerDay = ms / msPerDay := by
    unfold minuteStart msPerMinute msPerDay
    omega
  exact congrArg dateOf hday

theorem time_minuteStart (ms : Int) :
    (timeOf (minuteStart ms)).hour = (timeOf ms).hour ∧
      (timeOf (minuteStart ms)).minute = (timeOf ms).minute ∧
      (timeOf (minuteStart ms)).second = 0 ∧ (timeOf (minuteStart ms)).milli = 0 := by
  unfold timeOf minuteStart msPerDay msPerHour msPerMinute
  simp only
  omega

theorem DateTime.number_inj {dt dt' : DateTime} : dt.number = dt'.number ↔ dt = dt' :=
  ⟨fun h => by rw [← dt.dateTimeOf_number, h, dt'.dateTimeOf_number], congrArg DateTime.number⟩

end Calendar
