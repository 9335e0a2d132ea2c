import Mathlib.Data.Nat.Init
import Mathlib.Tactic.Ring

/-!
# Gregorian — the proleptic Gregorian calendar

Years are integers, counted as astronomers do (the year 0 is the year before 1), and the leap rule
holds for all of them.  `dayNumber` counts days, and 0001-01-01, a Monday, is day 1.

The count goes up by one from a date to the `next` one and keeps the order of the dates
(`dayNumber_next`, `lt_iff_dayNumber_lt`), so a date is known from its number.
-/

namespace Longky
namespace Lib
namespace Gregorian

/-! ## The calendar -/

def IsLeap (year : Int) : Prop := year % 4 = 0 ∧ (year % 100 = 0 → year % 400 = 0)

instance (year : Int) : Decidable (IsLeap year) := inferInstanceAs (Decidable (_ ∧ _))

def daysInMonth (year month : Int) : Int :=
  if month = 2 then if IsLeap year then 29 else 28
  else if month = 4 ∨ month = 6 ∨ month = 9 ∨ month = 11 then 30
  else 31

def daysInYear (year : Int) : Int := if IsLeap year then 366 else 365

structure IsDate (year month day : Int) : Prop where
  month_pos : 1 ≤ month
  month_le : month ≤ 12
  day_pos : 1 ≤ day
  day_le : day ≤ daysInMonth year month

@[ext]
structure Date where
  year : Int
  month : Int
  day : Int
  isDate : IsDate year month day

theorem daysInMonth_pos (year month : Int) : 1 ≤ daysInMonth year month := by
  unfold daysInMonth
  split_ifs <;> decide

theorem daysInMonth_le (year month : Int) : daysInMonth year month ≤ 31 := by
  unfold daysInMonth
  split_ifs <;> decide

namespace Date

/-- The date of the day after. -/
def next (d : Date) : Date :=
  if hday : d.day < daysInMonth d.year d.month then
    ⟨d.year, d.month, d.day + 1,
      d.isDate.month_pos, d.isDate.month_le, by have := d.isDate.day_pos; omega, by omega⟩
  else if hmonth : d.month < 12 then
    ⟨d.year, d.month + 1, 1,
      by have := d.isDate.month_pos; omega, by omega, by omega, daysInMonth_pos _ _⟩
  else ⟨d.year + 1, 1, 1, by omega, by omega, by omega, daysInMonth_pos _ _⟩

instance : LT Date where
  lt d d' := d.year < d'.year ∨ d.year = d'.year ∧
    (d.month < d'.month ∨ d.month = d'.month ∧ d.day < d'.day)

theorem lt_def {d d' : Date} : d < d' ↔ d.year < d'.year ∨ d.year = d'.year ∧
    (d.month < d'.month ∨ d.month = d'.month ∧ d.day < d'.day) := Iff.rfl

theorem lt_or_eq_or_gt (d d' : Date) : d < d' ∨ d = d' ∨ d' < d := by
  rcases lt_trichotomy d.year d'.year with hyear | hyear | hyear
  · exact .inl (.inl hyear)
  · rcases lt_trichotomy d.month d'.month with hmonth | hmonth | hmonth
    · exact .inl (.inr ⟨hyear, .inl hmonth⟩)
    · rcases lt_trichotomy d.day d'.day with hday | hday | hday
      · exact .inl (.inr ⟨hyear, .inr ⟨hmonth, hday⟩⟩)
      · exact .inr (.inl (Date.ext hyear hmonth hday))
      · exact .inr (.inr (.inr ⟨hyear.symm, .inr ⟨hmonth.symm, hday⟩⟩))
    · exact .inr (.inr (.inr ⟨hyear.symm, .inl hmonth⟩))
  · exact .inr (.inr (.inl hyear))

end Date

/-! ## Counting days -/

/-- The days in the first `n` months of a year. -/
def daysInFirst (year : Int) : Nat → Int
  | 0 => 0
  | n + 1 => daysInFirst year n + daysInMonth year (n + 1)

/-- The days from 0001-01-01 to the first day of a year. -/
def newYear (year : Int) : Int :=
  365 * (year - 1) + (year - 1) / 4 - (year - 1) / 100 + (year - 1) / 400

namespace Date

/-- 1 on the first of January. -/
def dayOfYear (d : Date) : Int := daysInFirst d.year (d.month - 1).toNat + d.day

def dayNumber (d : Date) : Int := newYear d.year + d.dayOfYear

/-- 0 is Sunday. -/
def weekDay (d : Date) : Int := d.dayNumber % 7

end Date

theorem daysInFirst_twelve (year : Int) : daysInFirst year 12 = daysInYear year := by
  unfold daysInYear
  split_ifs with hleap <;> simp [daysInFirst, daysInMonth, hleap]

theorem daysInFirst_mono (year : Int) {m n : Nat} (h : m ≤ n) :
    daysInFirst year m ≤ daysInFirst year n := by
  induction n, h using Nat.le_induction with
  | base => exact le_refl _
  | succ n _ ih =>
      have hpos := daysInMonth_pos year (n + 1)
      simp only [daysInFirst]
      omega

theorem newYear_succ (year : Int) : newYear (year + 1) = newYear year + daysInYear year := by
  unfold newYear daysInYear IsLeap
  split_ifs <;> omega

theorem newYear_mono {year year' : Int} (h : year ≤ year') : newYear year ≤ newYear year' := by
  unfold newYear
  omega

/-- The first of January. -/
def newYearsDay (year : Int) : Date :=
  ⟨year, 1, 1, by omega, by omega, by omega, daysInMonth_pos year 1⟩

theorem dayNumber_newYearsDay (year : Int) : (newYearsDay year).dayNumber = newYear year + 1 :=
  rfl

namespace Date

variable {d d' : Date}

theorem dayNumber_eq (d : Date) : d.dayNumber = newYear d.year + d.dayOfYear := rfl

theorem dayOfYear_pos (d : Date) : 1 ≤ d.dayOfYear := by
  have hfirst : daysInFirst d.year 0 ≤ daysInFirst d.year (d.month - 1).toNat :=
    daysInFirst_mono d.year (Nat.zero_le _)
  have hzero : daysInFirst d.year 0 = 0 := rfl
  have hday := d.isDate.day_pos
  unfold dayOfYear
  omega

/-- A day is counted before the months that come after its own. -/
theorem dayOfYear_le {n : Nat} (h : d.month ≤ n) : d.dayOfYear ≤ daysInFirst d.year n := by
  have hmonth : (((d.month - 1).toNat + 1 : Nat) : Int) = d.month := by
    have := d.isDate.month_pos
    omega
  have hfirst : daysInFirst d.year ((d.month - 1).toNat + 1) ≤ daysInFirst d.year n :=
    daysInFirst_mono d.year (by omega)
  have hday := d.isDate.day_le
  rw [← hmonth] at hday
  simp only [daysInFirst, Nat.cast_add, Nat.cast_one] at hfirst hday
  unfold dayOfYear
  omega

theorem dayOfYear_le_daysInYear (d : Date) : d.dayOfYear ≤ daysInYear d.year :=
  (dayOfYear_le d.isDate.month_le).trans_eq (daysInFirst_twelve d.year)

theorem dayOfYear_le_366 (d : Date) : d.dayOfYear ≤ 366 := by
  refine d.dayOfYear_le_daysInYear.trans ?_
  unfold daysInYear
  split_ifs <;> decide

theorem dayNumber_lt (h : d < d') : d.dayNumber < d'.dayNumber := by
  unfold dayNumber
  rcases h with hyear | ⟨hyear, hmonth | ⟨hmonth, hday⟩⟩
  · -- the whole of the year of `d` lies before the one of `d'`
    have hle := newYear_mono (Int.add_one_le_of_lt hyear)
    have hend := d.dayOfYear_le_daysInYear
    have hstart := d'.dayOfYear_pos
    rw [newYear_succ] at hle
    omega
  · have hend : d.dayOfYear ≤ daysInFirst d.year (d'.month - 1).toNat := by
      refine dayOfYear_le ?_
      omega
    have hday' := d'.isDate.day_pos
    rw [hyear] at hend ⊢
    unfold dayOfYear at hend ⊢
    omega
  · unfold dayOfYear
    rw [hyear, hmonth]
    omega

theorem lt_iff_dayNumber_lt : d < d' ↔ d.dayNumber < d'.dayNumber := by
  refine ⟨dayNumber_lt, fun h => ?_⟩
  rcases lt_or_eq_or_gt d d' with hlt | rfl | hgt
  · exact hlt
  · exact absurd h (lt_irrefl _)
  · exact absurd (dayNumber_lt hgt) h.asymm

theorem dayNumber_injective (h : d.dayNumber = d'.dayNumber) : d = d' := by
  rcases lt_or_eq_or_gt d d' with hlt | heq | hgt
  · exact absurd h (dayNumber_lt hlt).ne
  · exact heq
  · exact absurd h (dayNumber_lt hgt).ne'

theorem dayNumber_next (d : Date) : d.next.dayNumber = d.dayNumber + 1 := by
  have hpos := d.isDate.month_pos
  have hle := d.isDate.day_le
  have hmonth : (((d.month - 1).toNat : Nat) : Int) + 1 = d.month := by omega
  unfold next
  split_ifs with hday hlast
  · simp only [dayNumber, dayOfYear]
    omega
  · -- the first of the next month comes after all days of this one
    have hsucc : (d.month + 1 - 1).toNat = (d.month - 1).toNat + 1 := by omega
    simp only [dayNumber, dayOfYear, hsucc, daysInFirst, hmonth]
    omega
  · -- after the 31st of December a year has passed
    have htwelve := daysInFirst_twelve d.year
    have hdec : d.month = 12 := by
      have := d.isDate.month_le
      omega
    have hsucc : (12 : Nat) = (d.month - 1).toNat + 1 := by omega
    rw [hsucc, daysInFirst, hmonth] at htwelve
    simp only [dayNumber, dayOfYear, newYear_succ]
    have hfirst : daysInFirst (d.year + 1) (1 - 1 : Int).toNat = 0 := rfl
    omega

end Date
end Gregorian
end Lib
end Longky
