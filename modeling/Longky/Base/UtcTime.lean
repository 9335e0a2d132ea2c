import Longky.Base.Date
import Longky.Lib.Bytes

/-!
# UtcTime — broken-down time in UTC

`base/time/TimeZone.cpp` (`toUtcTime`, `fromUtcTime`, `fillHMS`) over `Base.Date`.

`utc_roundTrip`: the conversion of a `time_t` is the right day of the calendar and the right time of
the day, is converted back, and keeps the order.  `not_agreesWithGmtime`: it is not what `gmtime`
gives, since `memZero` writes -1 and two fields are never assigned.
-/

namespace Longky
namespace Base

open Lib Lib.MachineInt

/-! ## The source -/

/-- `struct tm`.  A zone is a text, or no valid pointer. -/
structure Tm where
  tm_sec : Int
  tm_min : Int
  tm_hour : Int
  tm_mday : Int
  tm_mon : Int
  tm_year : Int
  tm_wday : Int
  tm_yday : Int
  tm_isdst : Int
  tm_gmtoff : Int
  tm_zone : Option Bytes
  deriving DecidableEq, Repr

/-- `memset(p, -1, n)` on a `struct tm`. -/
def memZero : Tm := ⟨-1, -1, -1, -1, -1, -1, -1, -1, -1, -1, none⟩

def kSecondsPerDay : Int := 24 * 60 * 60

def fillHMS (seconds : Nat) (utc : Tm) : Tm :=
  let minutes := seconds / 60
  { utc with
    tm_sec := (seconds % 60 : Nat), tm_min := (minutes % 60 : Nat), tm_hour := (minutes / 60 : Nat) }

namespace TimeZone

/-- `seconds` and `days` of `toUtcTime`, once they have been corrected. -/
def secondsAndDays (secondsSinceEpoch : Int) : Option (Int × Int) :=
  let seconds := toInt (secondsSinceEpoch.tmod kSecondsPerDay)
  let days := toInt (secondsSinceEpoch.tdiv kSecondsPerDay)
  if seconds < 0 then do
    let seconds ← int (seconds + kSecondsPerDay)
    let days ← int (days - 1)
    return (seconds, days)
  else some (seconds, days)

def toUtcTime (secondsSinceEpoch : Int) (yday : Bool) : Option Tm := do
  let utc := { memZero with tm_zone := some (Bytes.ofString "GMT") }
  let (seconds, days) ← secondsAndDays secondsSinceEpoch
  let utc := fillHMS (toUnsigned seconds) utc
  let date : Date := ⟨← int (days + (← Date.kJulianDayOf1970_01_01))⟩
  let ymd ← date.yearMonthDay
  let utc := { utc with
    tm_year := ← int (ymd.year - 1900), tm_mon := ← int (ymd.month - 1), tm_mday := ymd.day,
    tm_wday := ← date.weekDay }
  if yday then
    let startOfYear ← Date.ofYearMonthDay ymd.year 1 1
    return { utc with tm_yday := ← int (date.julianDayNumber_ - startOfYear.julianDayNumber_) }
  else return utc

/-- `fromUtcTime` of six numbers.  The last line is computed in `time_t`. -/
def fromUtcFields (year month day hour minute seconds : Int) : Option Int := do
  let date ← Date.ofYearMonthDay year month day
  let secondsInDay ← int ((← int ((← int (hour * 3600)) + (← int (minute * 60)))) + seconds)
  let days ← int (date.julianDayNumber_ - (← Date.kJulianDayOf1970_01_01))
  return days * kSecondsPerDay + secondsInDay

def fromUtcTime (utc : Tm) : Option Int := do
  fromUtcFields (← int (utc.tm_year + 1900)) (← int (utc.tm_mon + 1)) utc.tm_mday utc.tm_hour
    utc.tm_min utc.tm_sec

end TimeZone

/-! ## UTC -/

/-- The first of January 1970, a Thursday. -/
def epoch : Gregorian.Date := ⟨1970, 1, 1, by constructor <;> decide⟩

/-- The broken-down time of `t`, on the day `date`. -/
structure IsUtcTime (t : Int) (date : Gregorian.Date) (tm : Tm) : Prop where
  day : date.dayNumber = epoch.dayNumber + t / 86400
  year : tm.tm_year = date.year - 1900
  mon : tm.tm_mon = date.month - 1
  mday : tm.tm_mday = date.day
  sec : 0 ≤ tm.tm_sec ∧ tm.tm_sec ≤ 59
  min : 0 ≤ tm.tm_min ∧ tm.tm_min ≤ 59
  hour : 0 ≤ tm.tm_hour ∧ tm.tm_hour ≤ 23
  time : tm.tm_hour * 3600 + tm.tm_min * 60 + tm.tm_sec = t % 86400
  wday : tm.tm_wday = date.weekDay

/-- `gmtime(3)`. -/
def IsGmtime (t : Int) (tm : Tm) : Prop :=
  ∃ date, IsUtcTime t date tm ∧ tm.tm_yday = date.dayOfYear - 1 ∧ tm.tm_isdst = 0 ∧
    tm.tm_gmtoff = 0

/-- The fields that are compared to say which time is earlier. -/
def Tm.fields (tm : Tm) : List Int :=
  [tm.tm_year, tm.tm_mon, tm.tm_mday, tm.tm_hour, tm.tm_min, tm.tm_sec]

/-- The times whose days have a Julian day number from 0 on that `getYearMonthDay` can take. -/
def InRange (t : Int) : Prop :=
  0 ≤ t / 86400 + 2440588 ∧ Convertible (t / 86400 + 2440588)

namespace TimeZone

/-! ## The conversion -/

theorem epoch_dayNumber : epoch.dayNumber = 719163 := by decide

theorem kJulianDayOf1970_01_01_eq : Date.kJulianDayOf1970_01_01 = some 2440588 := by decide

/-- The corrected numbers are the floor of the quotient and the remainder that goes with it. -/
theorem secondsAndDays_eq {t : Int} (h : InRange t) :
    secondsAndDays t = some (t % 86400, t / 86400) := by
  obtain ⟨hmin, -, hmax⟩ := h
  have hquot := Int.mul_tdiv_add_tmod t 86400
  have hlt := Int.tmod_lt_of_pos t (show (0 : Int) < 86400 by decide)
  have hgt := Int.lt_tmod_of_pos t (show (0 : Int) < 86400 by decide)
  have hseconds : toInt (t.tmod 86400) = t.tmod 86400 := toInt_eq_self (by omega) (by omega)
  have hdays : toInt (t.tdiv 86400) = t.tdiv 86400 := toInt_eq_self (by omega) (by omega)
  have hday : kSecondsPerDay = 86400 := rfl
  unfold secondsAndDays
  rw [hday, hseconds, hdays]
  by_cases hneg : t.tmod 86400 < 0
  · -- the quotient has been rounded up
    have hrem : t.tmod 86400 + 86400 = t % 86400 := by omega
    have hfloor : t.tdiv 86400 - 1 = t / 86400 := by omega
    rw [if_pos hneg, int_bind (by omega) (by omega), int_bind (by omega) (by omega), hrem, hfloor]
    rfl
  · have hrem : t.tmod 86400 = t % 86400 := by omega
    have hfloor : t.tdiv 86400 = t / 86400 := by omega
    rw [if_neg hneg, hrem, hfloor]

theorem fillHMS_eq (seconds : Nat) (utc : Tm) :
    fillHMS seconds utc = { utc with
      tm_sec := (seconds : Int) % 60, tm_min := (seconds : Int) / 60 % 60,
      tm_hour := (seconds : Int) / 60 / 60 } := by
  simp [fillHMS]

/-- The result of `toUtcTime` on the day `date`: what is not assigned is -1. -/
def brokenDown (t : Int) (date : Gregorian.Date) (yday : Bool) : Tm where
  tm_sec := t % 86400 % 60
  tm_min := t % 86400 / 60 % 60
  tm_hour := t % 86400 / 60 / 60
  tm_mday := date.day
  tm_mon := date.month - 1
  tm_year := date.year - 1900
  tm_wday := date.weekDay
  tm_yday := if yday then date.dayOfYear - 1 else -1
  tm_isdst := -1
  tm_gmtoff := -1
  tm_zone := some (Bytes.ofString "GMT")

variable {t : Int} {date : Gregorian.Date}

/-- The day of a time, by its Julian day number or counted from the epoch. -/
theorem julianDay_eq_iff : julianDay date = t / 86400 + 2440588 ↔
    date.dayNumber = epoch.dayNumber + t / 86400 := by
  rw [epoch_dayNumber]
  unfold julianDay
  omega

theorem newYear_bounds (h : InRange t) (hdate : julianDay date = t / 86400 + 2440588) :
    -1721791 ≤ Gregorian.newYear date.year ∧ Gregorian.newYear date.year ≤ 535117441 := by
  obtain ⟨hmin, -, hmax⟩ := h
  have hpos := date.dayOfYear_pos
  have hle := date.dayOfYear_le_366
  rw [← hdate] at hmin hmax
  unfold julianDay at hmin hmax
  rw [date.dayNumber_eq] at hmin hmax
  omega

theorem year_bounds (h : InRange t) (hdate : julianDay date = t / 86400 + 2440588) :
    -1000000 ≤ date.year ∧ date.year ≤ 2000000 := by
  have hbounds := newYear_bounds h hdate
  unfold Gregorian.newYear at hbounds
  omega

/-- The first day of the year can be before the first one of the range, but not by much. -/
theorem newYearsDay_convertible (h : InRange t) (hdate : julianDay date = t / 86400 + 2440588) :
    Convertible (julianDay (Gregorian.newYearsDay date.year)) := by
  have hbounds := newYear_bounds h hdate
  unfold Convertible julianDay
  rw [Gregorian.dayNumber_newYearsDay]
  omega

theorem startOfYear_eq (h : InRange t) (hdate : julianDay date = t / 86400 + 2440588) :
    Date.ofYearMonthDay date.year 1 1 = some ⟨julianDay (Gregorian.newYearsDay date.year)⟩ :=
  congrArg (Option.map Date.mk) (getJulianDayNumber_eq (newYearsDay_convertible h hdate))

theorem yday_eq (date : Gregorian.Date) :
    int (julianDay date - julianDay (Gregorian.newYearsDay date.year)) =
      some (date.dayOfYear - 1) := by
  have hdays : julianDay date - julianDay (Gregorian.newYearsDay date.year) =
      date.dayOfYear - 1 := by
    unfold julianDay
    rw [date.dayNumber_eq, Gregorian.dayNumber_newYearsDay]
    ring
  have hpos := date.dayOfYear_pos
  have hle := date.dayOfYear_le_366
  rw [hdays]
  exact int_eq_some (by omega) (by omega)

theorem weekDay_eq (hdate : 0 ≤ julianDay date) (hmax : julianDay date + 1 ≤ 2147483647) :
    (⟨julianDay date⟩ : Date).weekDay = some date.weekDay := by
  have hweek : (julianDay date + 1).tmod 7 = date.dayNumber % 7 := by
    rw [Int.tmod_eq_emod_of_nonneg (by omega)]
    unfold julianDay
    omega
  rw [Date.weekDay, int_bind (by omega) hmax]
  exact congrArg some hweek

theorem toUtcTime_eq (h : InRange t) (yday : Bool) :
    ∃ date, julianDay date = t / 86400 + 2440588 ∧
      toUtcTime t yday = some (brokenDown t date yday) := by
  have hymd := getYearMonthDay_eq h.2
  have hdate := julianDay_dateOfJulianDay (t / 86400 + 2440588)
  generalize dateOfJulianDay (t / 86400 + 2440588) = date at hymd hdate
  refine ⟨date, hdate, ?_⟩
  have hparts := secondsAndDays_eq h
  have hseconds : (toUnsigned (t % 86400) : Int) = t % 86400 :=
    toUnsigned_eq_self (by omega) (by omega)
  have hyear := year_bounds h hdate
  have hstart := startOfYear_eq h hdate
  have hmonth_pos := date.isDate.month_pos
  have hmonth_le := date.isDate.month_le
  obtain ⟨hmin, -, hmax⟩ := h
  -- none of the numbers that are put into the struct overflows
  have hday : int (julianDay date) = some (julianDay date) := int_eq_some (by omega) (by omega)
  have hmonth : int (date.month - 1) = some (date.month - 1) := int_eq_some (by omega) (by omega)
  have hyear' : int (date.year - 1900) = some (date.year - 1900) :=
    int_eq_some (by omega) (by omega)
  have hweek : (⟨julianDay date⟩ : Date).weekDay = some date.weekDay :=
    weekDay_eq (by omega) (by omega)
  rw [← hdate] at hymd
  cases yday with
  | false =>
      simp only [toUtcTime, hparts, kJulianDayOf1970_01_01_eq, Option.bind_eq_bind,
        Option.bind_some, ← hdate, hday, Date.yearMonthDay, hymd, YearMonthDay.ofDate, hmonth,
        hyear', hweek, fillHMS_eq, hseconds]
      rfl
  | true =>
      simp only [toUtcTime, hparts, kJulianDayOf1970_01_01_eq, Option.bind_eq_bind,
        Option.bind_some, ← hdate, hday, Date.yearMonthDay, hymd, YearMonthDay.ofDate, hmonth,
        hyear', hweek, fillHMS_eq, hseconds, hstart, yday_eq]
      rfl

/-! ## What the result is -/

theorem brokenDown_isUtcTime (hdate : julianDay date = t / 86400 + 2440588) (yday : Bool) :
    IsUtcTime t date (brokenDown t date yday) where
  day := julianDay_eq_iff.1 hdate
  year := rfl
  mon := rfl
  mday := rfl
  sec := by
    simp only [brokenDown]
    omega
  min := by
    simp only [brokenDown]
    omega
  hour := by
    simp only [brokenDown]
    omega
  time := by
    simp only [brokenDown]
    omega
  wday := rfl

theorem fromUtcFields_eq {hour minute seconds : Int} (h : Convertible (julianDay date))
    (hpos : 0 ≤ julianDay date) (hhour : 0 ≤ hour ∧ hour ≤ 23)
    (hminute : 0 ≤ minute ∧ minute ≤ 59) (hsecond : 0 ≤ seconds ∧ seconds ≤ 59) :
    fromUtcFields date.year date.month date.day hour minute seconds =
      some ((julianDay date - 2440588) * 86400 + (hour * 3600 + minute * 60 + seconds)) := by
  have hmax := h.2
  have hdate : Date.ofYearMonthDay date.year date.month date.day = some ⟨julianDay date⟩ :=
    congrArg (Option.map Date.mk) (getJulianDayNumber_eq h)
  have h₁ : int (hour * 3600) = some (hour * 3600) := int_eq_some (by omega) (by omega)
  have h₂ : int (minute * 60) = some (minute * 60) := int_eq_some (by omega) (by omega)
  have h₃ : int (hour * 3600 + minute * 60) = some (hour * 3600 + minute * 60) :=
    int_eq_some (by omega) (by omega)
  have h₄ : int (hour * 3600 + minute * 60 + seconds) =
      some (hour * 3600 + minute * 60 + seconds) := int_eq_some (by omega) (by omega)
  have h₅ : int (julianDay date - 2440588) = some (julianDay date - 2440588) :=
    int_eq_some (by omega) (by omega)
  simp only [fromUtcFields, hdate, h₁, h₂, h₃, h₄, kJulianDayOf1970_01_01_eq, h₅,
    Option.bind_eq_bind, Option.bind_some]
  rfl

/-- Any broken-down time of `t` is converted back to `t`. -/
theorem fromUtcTime_eq {tm : Tm} (h : InRange t) (htm : IsUtcTime t date tm) :
    fromUtcTime tm = some t := by
  have hdate := julianDay_eq_iff.2 htm.day
  have hyear := year_bounds h hdate
  have hmonth := date.isDate.month_pos
  have hmonth' := date.isDate.month_le
  -- what was taken off for the struct is put back
  have hback : date.year - 1900 + 1900 = date.year := by ring
  have hback' : date.month - 1 + 1 = date.month := by ring
  have hpos : 0 ≤ julianDay date := hdate ▸ h.1
  rw [fromUtcTime, htm.year, htm.mon, htm.mday, hback, hback', int_bind (by omega) (by omega),
    int_bind (by omega) (by omega), fromUtcFields_eq (hdate ▸ h.2) hpos htm.hour htm.min htm.sec,
    htm.time, hdate]
  have hsum : (t / 86400 + 2440588 - 2440588) * 86400 + t % 86400 = t := by omega
  rw [hsum]

/-! ## The order -/

theorem fields_lt_iff {tm tm' : Tm} : tm.fields < tm'.fields ↔
    tm.tm_year < tm'.tm_year ∨ tm.tm_year = tm'.tm_year ∧
    (tm.tm_mon < tm'.tm_mon ∨ tm.tm_mon = tm'.tm_mon ∧
    (tm.tm_mday < tm'.tm_mday ∨ tm.tm_mday = tm'.tm_mday ∧
    (tm.tm_hour < tm'.tm_hour ∨ tm.tm_hour = tm'.tm_hour ∧
    (tm.tm_min < tm'.tm_min ∨ tm.tm_min = tm'.tm_min ∧ tm.tm_sec < tm'.tm_sec)))) := by
  have hnil : ¬ ([] : List Int) < [] := List.not_lt_nil []
  simp only [Tm.fields, List.cons_lt_cons_iff, hnil, and_false, or_false]

/-- Of two times, the later one is on a later day, or at a later time of the same day. -/
theorem fields_lt {t' : Int} {date' : Gregorian.Date} {tm tm' : Tm} (h : IsUtcTime t date tm)
    (h' : IsUtcTime t' date' tm') (hlt : t < t') : tm.fields < tm'.fields := by
  have hday := h.day
  have hday' := h'.day
  have htime := h.time
  have htime' := h'.time
  have hsec := h.sec
  have hsec' := h'.sec
  have hmin := h.min
  have hmin' := h'.min
  -- the date decides first, and dates are ordered like their day numbers
  rw [fields_lt_iff, h.year, h.mon, h.mday, h'.year, h'.mon, h'.mday]
  rcases lt_or_ge (t / 86400) (t' / 86400) with hdays | hdays
  · have hdate : date < date' := by
      rw [Gregorian.Date.lt_iff_dayNumber_lt, hday, hday']
      omega
    rw [Gregorian.Date.lt_def] at hdate
    omega
  · have hdate : date = date' := by
      refine Gregorian.Date.dayNumber_injective ?_
      rw [hday, hday']
      omega
    subst hdate
    omega

/-- `toUtcTime` and `fromUtcTime`, in the range of `getYearMonthDay`. -/
theorem utc_roundTrip :
    (∀ t yday, InRange t → ∃ tm date, toUtcTime t yday = some tm ∧ IsUtcTime t date tm ∧
      fromUtcTime tm = some t) ∧
    ∀ t t' yday, InRange t → InRange t' → t < t' →
      ∃ tm tm', toUtcTime t yday = some tm ∧ toUtcTime t' yday = some tm' ∧
        tm.fields < tm'.fields := by
  constructor
  · intro t yday h
    rcases toUtcTime_eq h yday with ⟨date, hdate, htm⟩
    have hutc := brokenDown_isUtcTime hdate yday
    exact ⟨_, date, htm, hutc, fromUtcTime_eq h hutc⟩
  · intro t t' yday h h' hlt
    rcases toUtcTime_eq h yday with ⟨date, hdate, htm⟩
    rcases toUtcTime_eq h' yday with ⟨date', hdate', htm'⟩
    exact ⟨_, _, htm, htm', fields_lt (brokenDown_isUtcTime hdate yday)
      (brokenDown_isUtcTime hdate' yday) hlt⟩

/-! ## gmtime -/

/-- The struct of `gmtime` for any time. -/
def gmtime (t : Int) : Tm :=
  { brokenDown t (dateOfJulianDay (t / 86400 + 2440588)) true with tm_isdst := 0, tm_gmtoff := 0 }

theorem isGmtime_gmtime (t : Int) : IsGmtime t (gmtime t) := by
  have hutc := brokenDown_isUtcTime (julianDay_dateOfJulianDay (t / 86400 + 2440588)) true
  exact ⟨_, ⟨hutc.day, rfl, rfl, rfl, hutc.sec, hutc.min, hutc.hour, hutc.time, rfl⟩, rfl, rfl, rfl⟩

/-- The time of a struct whose month is one of the twelve. -/
def timegm (tm : Tm) : Int :=
  let a := (14 - (tm.tm_mon + 1)).tdiv 12
  (sinceMarch (tm.tm_year + 1900 + 4800 - a) (tm.tm_mon + 1 + 12 * a - 3) tm.tm_mday - 2440588)
    * 86400 + (tm.tm_hour * 3600 + tm.tm_min * 60 + tm.tm_sec)

theorem timegm_gmtime (t : Int) : timegm (gmtime t) = t := by
  have hdate := julianDay_dateOfJulianDay (t / 86400 + 2440588)
  have htime := (brokenDown_isUtcTime hdate true).time
  have hyear : (gmtime t).tm_year + 1900 = (dateOfJulianDay (t / 86400 + 2440588)).year :=
    Int.sub_add_cancel _ _
  have hmonth : (gmtime t).tm_mon + 1 = (dateOfJulianDay (t / 86400 + 2440588)).month :=
    Int.sub_add_cancel _ _
  have hday : (gmtime t).tm_mday = (dateOfJulianDay (t / 86400 + 2440588)).day := rfl
  have htime' : (gmtime t).tm_hour * 3600 + (gmtime t).tm_min * 60 + (gmtime t).tm_sec =
      t % 86400 := htime
  simp only [timegm]
  rw [hyear, hmonth, hday, htime', sinceMarch_eq_julianDay _ rfl, hdate]
  omega

/-- The whole of the struct is what `gmtime` gives. -/
def AgreesWithGmtime (t : Int) : Prop := ∃ tm, toUtcTime t true = some tm ∧ IsGmtime t tm

/-- Two fields are left at -1, and the others are as they should be. -/
theorem not_agreesWithGmtime (h : InRange t) :
    ¬ AgreesWithGmtime t ∧ ∃ tm date, toUtcTime t true = some tm ∧ IsUtcTime t date tm ∧
      tm.tm_yday = date.dayOfYear - 1 ∧ 0 ≤ tm.tm_yday ∧ tm.tm_yday ≤ 365 ∧
      tm.tm_isdst = -1 ∧ tm.tm_gmtoff = -1 := by
  rcases toUtcTime_eq h true with ⟨date, hdate, htm⟩
  have hpos := date.dayOfYear_pos
  have hle := date.dayOfYear_le_366
  constructor
  · rintro ⟨tm, htm', _, _, _, hisdst, -⟩
    rw [htm] at htm'
    cases htm'
    -- `tm_isdst` is as `memZero` left it
    have hassigned : (-1 : Int) = 0 := hisdst
    omega
  · refine ⟨_, date, htm, brokenDown_isUtcTime hdate true, rfl, ?_, ?_, rfl, rfl⟩
    · simp only [brokenDown, if_true]
      omega
    · simp only [brokenDown, if_true]
      omega

theorem not_agreesWithGmtime_leapDay : InRange 951782400 ∧ ¬ AgreesWithGmtime 951782400 :=
  ⟨⟨by decide, by decide, by decide⟩,
    (not_agreesWithGmtime ⟨by decide, by decide, by decide⟩).1⟩

/-- The epoch itself. -/
theorem epoch_isdst : (toUtcTime 0 true).map Tm.tm_isdst = some (-1) ∧
    (toUtcTime 0 true).map Tm.tm_gmtoff = some (-1) ∧ ¬ AgreesWithGmtime 0 := by
  have hisdst : (toUtcTime 0 true).map Tm.tm_isdst = some (-1) := by decide
  refine ⟨hisdst, by decide, ?_⟩
  rintro ⟨tm, htm, _, _, _, hzero, -⟩
  rw [htm, Option.map_some, hzero] at hisdst
  exact absurd hisdst (by decide)

end TimeZone
end Base
end Longky
