import Longky.Lib.Gregorian
import Longky.Lib.MachineInt
import Mathlib.Tactic.IntervalCases

/-!
# Date — the days of the calendar by their Julian day number

`base/time/Date.cpp` and `Date.h`.  The years of the computation begin on the first of March, so that
the leap day is the last one of its year, and are counted from -4800, so that nothing is negative.

`calendar_bijection`: between -4800-03-01 and the last day at which `4 * a + 3` is an `int`, the two
conversions are inverse to each other and follow the calendar, and no `int` overflows.
-/

namespace Longky
namespace Base

open Lib Lib.MachineInt

/-! ## The source -/

structure YearMonthDay where
  year : Int
  month : Int
  day : Int
  deriving DecidableEq, Repr

def getJulianDayNumber (year month day : Int) : Option Int := do
  let a ← int ((← int (14 - month)).tdiv 12)
  let y ← int ((← int (year + 4800)) - a)
  let m ← int ((← int (month + (← int (12 * a)))) - 3)
  -- the sum, from left to right
  let sum ← int (day + (← int ((← int ((← int (153 * m)) + 2)).tdiv 5)))
  let sum ← int (sum + (← int (y * 365)))
  let sum ← int (sum + (← int (y.tdiv 4)))
  let sum ← int (sum - (← int (y.tdiv 100)))
  let sum ← int (sum + (← int (y.tdiv 400)))
  int (sum - 32045)

def getYearMonthDay (julianDayNumber : Int) : Option YearMonthDay := do
  let a ← int (julianDayNumber + 32044)
  let b ← int ((← int ((← int (4 * a)) + 3)).tdiv 146097)
  let c ← int (a - (← int ((← int (b * 146097)).tdiv 4)))
  let d ← int ((← int ((← int (4 * c)) + 3)).tdiv 1461)
  let e ← int (c - (← int ((← int (1461 * d)).tdiv 4)))
  let m ← int ((← int ((← int (5 * e)) + 2)).tdiv 153)
  let day ← int ((← int (e - (← int ((← int ((← int (153 * m)) + 2)).tdiv 5)))) + 1)
  let month ← int ((← int (m + 3)) - (← int (12 * (← int (m.tdiv 10)))))
  let year ← int ((← int ((← int ((← int (b * 100)) + d)) - 4800)) + (← int (m.tdiv 10)))
  return { year, month, day }

structure Date where
  julianDayNumber_ : Int
  deriving DecidableEq, Repr

namespace Date

def ofYearMonthDay (year month day : Int) : Option Date :=
  (getJulianDayNumber year month day).map Date.mk

def kJulianDayOf1970_01_01 : Option Int := getJulianDayNumber 1970 1 1

def kDaysPerWeek : Int := 7

def yearMonthDay (date : Date) : Option YearMonthDay := getYearMonthDay date.julianDayNumber_

def weekDay (date : Date) : Option Int := do
  return (← int (date.julianDayNumber_ + 1)).tmod kDaysPerWeek

end Date

/-! ## Days of the calendar -/

/-- What the source calls a date, for one of the calendar. -/
def YearMonthDay.ofDate (date : Gregorian.Date) : YearMonthDay :=
  ⟨date.year, date.month, date.day⟩

/-- The Julian day number that a day of the calendar has. -/
def julianDay (date : Gregorian.Date) : Int := date.dayNumber + 1721425

/-- The days whose numbers `getYearMonthDay` can take. -/
def Convertible (j : Int) : Prop := -32044 ≤ j ∧ 4 * (j + 32044) + 3 ≤ 2147483647

theorem julianDay_injective {date date' : Gregorian.Date}
    (h : julianDay date = julianDay date') : date = date' :=
  Gregorian.Date.dayNumber_injective (add_right_cancel h)

theorem julianDay_next (date : Gregorian.Date) : julianDay date.next = julianDay date + 1 := by
  unfold julianDay
  rw [Gregorian.Date.dayNumber_next]
  ring

/-- The first day of the count. -/
def march4800 : Gregorian.Date := ⟨-4800, 3, 1, by constructor <;> decide⟩

theorem julianDay_march4800 : julianDay march4800 = -32044 := by decide

theorem not_lt_march4800 {date : Gregorian.Date} :
    ¬ date < march4800 ↔ -32044 ≤ julianDay date := by
  rw [Gregorian.Date.lt_iff_dayNumber_lt, ← julianDay_march4800, Int.not_lt]
  exact (Int.add_le_add_iff_right _).symm

/-! ## From a date to its number -/

/-- The lengths of the months from March on are 31, 30, 31, 30, 31 over and over. -/
theorem daysInFirst_eq (year : Int) {month : Int} (hmarch : 3 ≤ month) (hmonth : month ≤ 12) :
    Gregorian.daysInFirst year (month - 1).toNat =
      (153 * (month - 3) + 2) / 5 + Gregorian.daysInFirst year 2 := by
  interval_cases month <;> simp [Gregorian.daysInFirst, Gregorian.daysInMonth] <;> ring

theorem daysInFirst_two (year : Int) :
    Gregorian.daysInFirst year 2 = Gregorian.daysInYear year - 306 := by
  unfold Gregorian.daysInYear
  split_ifs with hleap <;> simp [Gregorian.daysInFirst, Gregorian.daysInMonth, hleap]

/-- The day number of a date of the year `y` that began in March, as the source sums it up. -/
def sinceMarch (y m day : Int) : Int :=
  day + (153 * m + 2) / 5 + y * 365 + y / 4 - y / 100 + y / 400 - 32045

theorem getJulianDayNumber_eq_sinceMarch {year month day a y m : Int}
    (ha : (14 - month).tdiv 12 = a) (hy : year + 4800 - a = y) (hm : month + 12 * a - 3 = m)
    (hyear : 0 ≤ y ∧ y ≤ 2000000) (hmonth : 0 ≤ m ∧ m ≤ 11) (ha' : 0 ≤ a ∧ a ≤ 1)
    (hday : 1 ≤ day ∧ day ≤ 31) :
    getJulianDayNumber year month day = some (sinceMarch y m day) := by
  -- the quotients of the source round towards zero, and nothing is negative here
  have hdays : (153 * m + 2).tdiv 5 = (153 * m + 2) / 5 :=
    Int.tdiv_eq_ediv_of_nonneg (by omega)
  have hquot : ∀ k, y.tdiv k = y / k := fun _ => Int.tdiv_eq_ediv_of_nonneg hyear.1
  rw [getJulianDayNumber, int_bind, int_bind, ha, int_bind, int_bind, hy, hquot 4, hquot 100,
    hquot 400, int_bind, int_bind, int_bind, hm, int_bind, int_bind, int_bind, hdays, int_bind,
    int_bind, int_bind, int_bind, int_bind, int_bind, int_bind, int_bind, int_bind, int_eq_some]
  · rfl
  all_goals omega

/-- 4800 years are twelve times 400, so they shift the count and leave the leap years in place. -/
theorem sinceMarch_eq_newYear (year m day : Int) : sinceMarch (year + 4800) m day =
    Gregorian.newYear (year + 1) + (153 * m + 2) / 5 + day + 1721119 := by
  have hfour : (year + 4800) / 4 = year / 4 + 1200 := by omega
  have hhundred : (year + 4800) / 100 = year / 100 + 48 := by omega
  have hfourhundred : (year + 4800) / 400 = year / 400 + 12 := by omega
  have hyear : year + 1 - 1 = year := by ring
  unfold sinceMarch Gregorian.newYear
  rw [hfour, hhundred, hfourhundred, hyear]
  ring

/-- The year that began in March, for a date and the `a` of the source. -/
theorem sinceMarch_eq_julianDay (date : Gregorian.Date) {a : Int}
    (ha : (14 - date.month).tdiv 12 = a) :
    sinceMarch (date.year + 4800 - a) (date.month + 12 * a - 3) date.day = julianDay date := by
  have hpos := date.isDate.month_pos
  have hle := date.isDate.month_le
  have hquot : (14 - date.month).tdiv 12 = (14 - date.month) / 12 :=
    Int.tdiv_eq_ediv_of_nonneg (by omega)
  have hyear : date.year + 4800 - a = date.year - a + 4800 := by ring
  rw [hyear, sinceMarch_eq_newYear]
  unfold julianDay Gregorian.Date.dayNumber Gregorian.Date.dayOfYear
  rcases lt_or_ge date.month 3 with hwinter | hmarch
  · -- January and February end the year that began in March before
    obtain rfl : a = 1 := by omega
    have hfirst : Gregorian.daysInFirst date.year (date.month - 1).toNat =
        31 * (date.month - 1) := by
      have hmonth : date.month = 1 ∨ date.month = 2 := by omega
      rcases hmonth with hmonth | hmonth <;> rw [hmonth] <;> rfl
    have hsame : date.year - 1 + 1 = date.year := by ring
    rw [hfirst, hsame]
    omega
  · -- the other months have the days of this year's February before them
    obtain rfl : a = 0 := by omega
    rw [daysInFirst_eq date.year hmarch hle, daysInFirst_two, sub_zero, Gregorian.newYear_succ]
    omega

/-- What `getJulianDayNumber` computes. -/
theorem getJulianDayNumber_eq {date : Gregorian.Date} (h : Convertible (julianDay date)) :
    getJulianDayNumber date.year date.month date.day = some (julianDay date) := by
  have hpos := date.isDate.month_pos
  have hle := date.isDate.month_le
  have hquot : (14 - date.month).tdiv 12 = (14 - date.month) / 12 :=
    Int.tdiv_eq_ediv_of_nonneg (by omega)
  have hfirst := date.isDate.day_pos
  have hday : date.day ≤ 31 := by
    have hlength := date.isDate.day_le
    unfold Gregorian.daysInMonth at hlength
    split_ifs at hlength <;> omega
  -- the year that began in March is not before the first one of the count
  have hstart : -4800 < date.year ∨ date.year = -4800 ∧ 3 ≤ date.month := by
    have hnot := not_lt_march4800.2 h.1
    rw [Gregorian.Date.lt_def] at hnot
    simp only [march4800] at hnot
    omega
  obtain ⟨a, ha⟩ : ∃ a, (14 - date.month).tdiv 12 = a := ⟨_, rfl⟩
  rw [← sinceMarch_eq_julianDay date ha] at h ⊢
  refine getJulianDayNumber_eq_sinceMarch ha rfl rfl ?_ ?_ ?_ ⟨hfirst, hday⟩
  · unfold Convertible sinceMarch at h
    omega
  · omega
  · omega

/-! ## From a number to its date -/

/-- A count of days from -4800-03-01, taken apart by the steps of `getYearMonthDay`: the centuries
before the day, the years of the century, and the months of the year. -/
structure Parts (a b c d e m : Int) : Prop where
  century : (4 * a + 3) / 146097 = b
  inCentury : a - b * 146097 / 4 = c
  year : (4 * c + 3) / 1461 = d
  inYear : c - 1461 * d / 4 = e
  month : (5 * e + 2) / 153 = m

namespace Parts

variable {a b c d e m : Int}

theorem inCentury_nonneg (h : Parts a b c d e m) : 0 ≤ c ∧ c ≤ 36524 := by
  have hb := h.century
  have hc := h.inCentury
  omega

theorem year_le (h : Parts a b c d e m) : 0 ≤ d ∧ d ≤ 99 := by
  have hc := h.inCentury_nonneg
  have hd := h.year
  omega

theorem inYear_le (h : Parts a b c d e m) : 0 ≤ e ∧ e ≤ 365 := by
  have hd := h.year
  have he := h.inYear
  omega

theorem month_le (h : Parts a b c d e m) : 0 ≤ m ∧ m ≤ 11 := by
  have he := h.inYear_le
  have hm := h.month
  omega

/-- In 146097 days there are four centuries of 36524 days, and a day more. -/
theorem days_eq (h : Parts a b c d e m) : a = 36524 * b + b / 4 + c := by
  have hc := h.inCentury
  have hcenturies : b * 146097 / 4 = 36524 * b + b / 4 := by omega
  omega

/-- In 1461 days there are four years of 365 days, and a day more. -/
theorem daysInCentury_eq (h : Parts a b c d e m) : c = 365 * d + d / 4 + e := by
  have he := h.inYear
  have hyears : 1461 * d / 4 = 365 * d + d / 4 := by omega
  omega

/-- The parts make up the count again. -/
theorem sum_eq (h : Parts a b c d e m) :
    (100 * b + d) * 365 + (100 * b + d) / 4 - (100 * b + d) / 100 + (100 * b + d) / 400 + e = a := by
  have ha := h.days_eq
  have hc := h.daysInCentury_eq
  have hd := h.year_le
  have hfour : (100 * b + d) / 4 = 25 * b + d / 4 := by omega
  have hhundred : (100 * b + d) / 100 = b := by omega
  have hfourhundred : (100 * b + d) / 400 = b / 4 := by omega
  rw [hfour, hhundred, hfourhundred]
  omega

/-- Of four years the last one can have a 366th day. -/
theorem year_mod_four (h : Parts a b c d e m) (he : e = 365) : d % 4 = 3 := by
  have hd := h.year
  have hc := h.daysInCentury_eq
  omega

/-- A year of 366 days is one that ends with a leap day. -/
theorem isLeap (h : Parts a b c d e m) (he : e = 365) :
    Gregorian.IsLeap (100 * b + d + 1 - 4800) := by
  have hfour := h.year_mod_four he
  have hle := h.year_le
  -- the last year of a century has a leap day in the last century of four only
  have hlast : d = 99 → b % 4 = 3 := by
    intro hd
    have hc := h.daysInCentury_eq
    have ha := h.days_eq
    have hb := h.century
    omega
  constructor
  · omega
  · intro hhundred
    have hd : d = 99 := by omega
    have hb := hlast hd
    omega

/-- The months from March to December, and the two of the next year. -/
theorem month_cases (h : Parts a b c d e m) :
    m ≤ 9 ∧ m / 10 = 0 ∨ m = 10 ∧ m / 10 = 1 ∨ m = 11 ∧ m / 10 = 1 := by
  have hm := h.month_le
  omega

theorem day_pos (h : Parts a b c d e m) : 1 ≤ e - (153 * m + 2) / 5 + 1 := by
  have hmonth := h.month
  omega

theorem day_le (h : Parts a b c d e m) : e - (153 * m + 2) / 5 + 1 ≤
    Gregorian.daysInMonth (100 * b + d - 4800 + m / 10) (m + 3 - 12 * (m / 10)) := by
  have he := h.inYear_le
  have hm := h.month_le.1
  have hmonth := h.month
  rcases h.month_cases with ⟨hle, hten⟩ | ⟨rfl, -⟩ | ⟨rfl, -⟩
  · rw [hten]
    -- March to December: the length of each month is in the formula
    interval_cases m <;> simp [Gregorian.daysInMonth] <;> omega
  · simp only [Gregorian.daysInMonth, Int.reduceAdd, Int.reduceDiv, Int.reduceMul, Int.reduceSub]
    simp
    omega
  · -- February: a year of 366 days is needed for the 29th
    have hyear : 100 * b + d - 4800 + 11 / 10 = 100 * b + d + 1 - 4800 := by omega
    have hfebruary : (11 : Int) + 3 - 12 * (11 / 10) = 2 := by decide
    rw [hyear, hfebruary, Gregorian.daysInMonth, if_pos rfl]
    split_ifs with hleap
    · omega
    · have hshort : e ≠ 365 := fun he' => hleap (h.isLeap he')
      omega

theorem isDate (h : Parts a b c d e m) :
    Gregorian.IsDate (100 * b + d - 4800 + m / 10) (m + 3 - 12 * (m / 10))
      (e - (153 * m + 2) / 5 + 1) := by
  have hm := h.month_le
  have hmonth : 1 ≤ m + 3 - 12 * (m / 10) ∧ m + 3 - 12 * (m / 10) ≤ 12 := by
    rcases h.month_cases with hten | hten | hten <;> omega
  exact ⟨hmonth.1, hmonth.2, h.day_pos, h.day_le⟩

/-- The date whose parts these are. -/
def date (h : Parts a b c d e m) : Gregorian.Date := ⟨_, _, _, h.isDate⟩

theorem julianDay_date (h : Parts a b c d e m) : julianDay h.date = a - 32044 := by
  have hm := h.month_le
  have hsum := h.sum_eq
  -- the `a` of the other conversion is 1 for the two months of the next year
  have hquot : (14 - (m + 3 - 12 * (m / 10))).tdiv 12 = m / 10 := by
    rw [Int.tdiv_eq_ediv_of_nonneg (by omega)]
    omega
  rw [← sinceMarch_eq_julianDay h.date hquot]
  have hyear : h.date.year + 4800 - m / 10 = 100 * b + d := by
    simp only [date]
    ring
  have hmonth : h.date.month + 12 * (m / 10) - 3 = m := by
    simp only [date]
    ring
  rw [hyear, hmonth]
  simp only [sinceMarch, date]
  omega

theorem getYearMonthDay_eq (h : Parts a b c d e m) (ha : 0 ≤ a) (hmax : 4 * a + 3 ≤ 2147483647) :
    getYearMonthDay (a - 32044) = some (.ofDate h.date) := by
  have hc := h.inCentury_nonneg
  have hd := h.year_le
  have he := h.inYear_le
  have hm := h.month_le
  have hb : 0 ≤ b ∧ b ≤ 14699 := by
    have hcentury := h.century
    omega
  -- the quotients of the source round towards zero, and nothing is negative here
  have h₁ : a - 32044 + 32044 = a := by ring
  have h₂ : (4 * a + 3).tdiv 146097 = b :=
    (Int.tdiv_eq_ediv_of_nonneg (by omega)).trans h.century
  have h₃ : (b * 146097).tdiv 4 = b * 146097 / 4 := Int.tdiv_eq_ediv_of_nonneg (by omega)
  have h₄ : (4 * c + 3).tdiv 1461 = d := (Int.tdiv_eq_ediv_of_nonneg (by omega)).trans h.year
  have h₅ : (1461 * d).tdiv 4 = 1461 * d / 4 := Int.tdiv_eq_ediv_of_nonneg (by omega)
  have h₆ : (5 * e + 2).tdiv 153 = m := (Int.tdiv_eq_ediv_of_nonneg (by omega)).trans h.month
  have h₇ : (153 * m + 2).tdiv 5 = (153 * m + 2) / 5 := Int.tdiv_eq_ediv_of_nonneg (by omega)
  have h₈ : m.tdiv 10 = m / 10 := Int.tdiv_eq_ediv_of_nonneg hm.1
  rw [getYearMonthDay, int_bind, h₁, int_bind, int_bind, h₂, int_bind, int_bind, h₃, int_bind,
    h.inCentury, int_bind, int_bind, int_bind, h₄, int_bind, int_bind, h₅, int_bind, h.inYear,
    int_bind, int_bind, int_bind, h₆, int_bind, h₈, int_bind, int_bind, h₇, int_bind,
    int_bind, int_bind, int_bind, int_bind, int_bind, int_bind, int_bind, int_bind, int_bind,
    int_bind, int_bind]
  -- the operations in the order of the source, each of them within the range of `int`
  · rw [mul_comm b 100]
    rfl
  all_goals omega

end Parts

/-- The day of the calendar with a Julian day number, of any size. -/
def dateOfJulianDay (j : Int) : Gregorian.Date :=
  Parts.date (a := j + 32044) ⟨rfl, rfl, rfl, rfl, rfl⟩

theorem julianDay_dateOfJulianDay (j : Int) : julianDay (dateOfJulianDay j) = j := by
  refine (Parts.julianDay_date ⟨rfl, rfl, rfl, rfl, rfl⟩).trans ?_
  ring

/-- What `getYearMonthDay` computes. -/
theorem getYearMonthDay_eq {j : Int} (hj : Convertible j) :
    getYearMonthDay j = some (.ofDate (dateOfJulianDay j)) := by
  have ha : 0 ≤ j + 32044 := by
    have hmin := hj.1
    omega
  have hback : j + 32044 - 32044 = j := by ring
  have heq := Parts.getYearMonthDay_eq ⟨rfl, rfl, rfl, rfl, rfl⟩ ha hj.2
  rw [hback] at heq
  exact heq

theorem getYearMonthDay_julianDay {date : Gregorian.Date} (h : Convertible (julianDay date)) :
    getYearMonthDay (julianDay date) = some (.ofDate date) := by
  rw [getYearMonthDay_eq h, julianDay_injective (julianDay_dateOfJulianDay (julianDay date))]

/-- Both conversions, on the days from -4800-03-01 on whose numbers are convertible. -/
theorem calendar_bijection :
    (∀ j, Convertible j → ∃ date : Gregorian.Date,
      getYearMonthDay j = some (.ofDate date) ∧
      getJulianDayNumber date.year date.month date.day = some j ∧
      (Convertible (j + 1) → getYearMonthDay (j + 1) = some (.ofDate date.next))) ∧
    ∀ date : Gregorian.Date, ¬ date < march4800 →
      4 * (julianDay date + 32044) + 3 ≤ 2147483647 →
      ∃ j, getJulianDayNumber date.year date.month date.day = some j ∧ Convertible j ∧
        getYearMonthDay j = some (.ofDate date) := by
  constructor
  · intro j hj
    have hdate := julianDay_dateOfJulianDay j
    have hback := getJulianDayNumber_eq (hdate.symm ▸ hj)
    refine ⟨dateOfJulianDay j, getYearMonthDay_eq hj, hback.trans (congrArg some hdate), ?_⟩
    intro hnext
    -- the next day has the next number, and the number says which day it is
    have hday : julianDay (dateOfJulianDay j).next = j + 1 := by rw [julianDay_next, hdate]
    rw [← hday] at hnext ⊢
    exact getYearMonthDay_julianDay hnext
  · intro date hstart hmax
    have hconvertible : Convertible (julianDay date) := ⟨not_lt_march4800.1 hstart, hmax⟩
    exact ⟨julianDay date, getJulianDayNumber_eq hconvertible, hconvertible,
      getYearMonthDay_julianDay hconvertible⟩

end Base
end Longky
