import Longky.Base.UtcTime
import Longky.Lib.Numeral

/-!
# Timestamp — the text of an instant

`toFormattedString` in `base/time/Timestamp.cpp`.  The seconds are the remainder by
`kMicroSecondsPerSecond` and not the quotient, and `tm_year` and `tm_mon` are printed as they are.

`not_identified`: the text is the right one for no instant, and every instant shares it with another.
-/

namespace Longky
namespace Base

open Lib Lib.Numeral

/-! ## The source -/

/-- `snprintf`: the text that the array holds, and the length of the whole text. -/
def snprintf (n : Nat) (text : Bytes) : Bytes × Nat := (text.take (n - 1), text.length)

/-- `"%4d%02d%02d %02d:%02d:%02d"`, with the width of the first number. -/
def dateTimeText (width : Nat) (year mon mday hour min sec : Int) : Bytes :=
  spacePadded width year ++ zeroPadded 2 mon ++ zeroPadded 2 mday ++ [32] ++
    (zeroPadded 2 hour ++ ([58] ++ zeroPadded 2 min ++ [58] ++ zeroPadded 2 sec))

structure Timestamp where
  microSecondsSinceEpoch_ : Int
  deriving DecidableEq, Repr

namespace Timestamp

def kMicroSecondsPerSecond : Int := 1000 * 1000

def secondsSinceEpoch (t : Timestamp) : Int :=
  t.microSecondsSinceEpoch_.tdiv kMicroSecondsPerSecond

def toFormattedString (t : Timestamp) (showMicroseconds : Bool) : Bytes :=
  let seconds := t.microSecondsSinceEpoch_.tmod kMicroSecondsPerSecond
  let tm_time := TimeZone.gmtime seconds
  let dateTime := dateTimeText 3 tm_time.tm_year tm_time.tm_mon tm_time.tm_mday tm_time.tm_hour
    tm_time.tm_min tm_time.tm_sec
  if showMicroseconds then
    let microseconds := t.microSecondsSinceEpoch_.tmod kMicroSecondsPerSecond
    (snprintf 64 (dateTime ++ ([46] ++ zeroPadded 6 microseconds))).1
  else (snprintf 64 dateTime).1

end Timestamp

/-! ## The text of the calendar -/

/-- The year of the calendar that a second is in. -/
def yearOf (seconds : Int) : Int := (TimeZone.gmtime seconds).tm_year + 1900

/-- The date and the time of a second, in UTC. -/
def calendarTime (seconds : Int) : Bytes :=
  let tm := TimeZone.gmtime seconds
  dateTimeText 4 (yearOf seconds) (tm.tm_mon + 1) tm.tm_mday tm.tm_hour tm.tm_min tm.tm_sec

/-- The text cut into pieces. -/
def fields : List Nat → Bytes → List Bytes
  | [], _ => []
  | width :: widths, text => text.take width :: fields widths (text.drop width)

instance (year month day : Int) : Decidable (Gregorian.IsDate year month day) :=
  decidable_of_iff
    (1 ≤ month ∧ month ≤ 12 ∧ 1 ≤ day ∧ day ≤ Gregorian.daysInMonth year month)
    ⟨fun h => ⟨h.1, h.2.1, h.2.2.1, h.2.2.2⟩, fun h => ⟨h.1, h.2, h.3, h.4⟩⟩

namespace Timestamp

def calendarText (t : Timestamp) : Bytes :=
  calendarTime (t.microSecondsSinceEpoch_ / 1000000) ++
    ([46] ++ zeroPadded 6 (t.microSecondsSinceEpoch_ % 1000000))

/-- The instant of a date and a time. -/
def ofFields (year month day hour min sec microseconds : Int) : Option Timestamp :=
  if h : Gregorian.IsDate year month day then
    let days := (⟨year, month, day, h⟩ : Gregorian.Date).dayNumber - epoch.dayNumber
    some ⟨(days * 86400 + hour * 3600 + min * 60 + sec) * 1000000 + microseconds⟩
  else none

/-- The text is read from the end, where the widths are known. -/
def parse (text : Bytes) : Option Timestamp :=
  match (fields [text.length - 20, 2, 2, 1, 2, 1, 2, 1, 2, 1, 6] text).map readDigits with
  | [year, month, day, _, hour, _, min, _, sec, _, microseconds] =>
      ofFields year month day hour min sec microseconds
  | _ => none

/-- The instants from the epoch to the end of the year 9999. -/
structure Printable (t : Timestamp) : Prop where
  nonneg : 0 ≤ t.microSecondsSinceEpoch_
  year_le : yearOf (t.microSecondsSinceEpoch_ / 1000000) ≤ 9999

end Timestamp

/-! ## Reading the text -/

theorem fields_flatten (pieces : List Bytes) :
    fields (pieces.map List.length) pieces.flatten = pieces := by
  induction pieces with
  | nil => rfl
  | cons piece pieces ih =>
      rw [List.map_cons, List.flatten_cons, fields, List.take_left, List.drop_left, ih]

/-- The numbers that `"%02d"` gives two digits. -/
def TwoDigits (i : Int) : Prop := 0 ≤ i ∧ i < 100

theorem TwoDigits.length {i : Int} (h : TwoDigits i) : (zeroPadded 2 i).length = 2 := by
  have hpos := h.1
  have hlt := h.2
  exact length_zeroPadded_of_lt (by decide) hpos (by omega)

theorem TwoDigits.readDigits {i : Int} (h : TwoDigits i) :
    (readDigits (zeroPadded 2 i) : Int) = i :=
  readDigits_zeroPadded 2 h.1

/-- The broken-down time prints with two digits. -/
structure TwoDigitFields (mon mday hour min sec : Int) : Prop where
  mon : TwoDigits mon
  mday : TwoDigits mday
  hour : TwoDigits hour
  min : TwoDigits min
  sec : TwoDigits sec

theorem TwoDigitFields.length_text {mon mday hour min sec : Int}
    (h : TwoDigitFields mon mday hour min sec) (width : Nat) (year : Int) :
    (dateTimeText width year mon mday hour min sec).length =
      (spacePadded width year).length + 13 := by
  simp only [dateTimeText, List.length_append, h.mon.length, h.mday.length, h.hour.length,
    h.min.length, h.sec.length, List.length_singleton]

namespace Timestamp

theorem parse_text {width : Nat} {year mon mday hour min sec microseconds : Int}
    (hyear : 0 ≤ year) (h : TwoDigitFields mon mday hour min sec) (hmicro : 0 ≤ microseconds)
    (hmicro' : microseconds < 1000000) :
    parse (dateTimeText width year mon mday hour min sec ++ ([46] ++ zeroPadded 6 microseconds)) =
      ofFields year mon mday hour min sec microseconds := by
  have hlen : (zeroPadded 6 microseconds).length = 6 :=
    length_zeroPadded_of_lt (by decide) hmicro (by omega)
  let pieces : List Bytes := [spacePadded width year, zeroPadded 2 mon, zeroPadded 2 mday, [32],
    zeroPadded 2 hour, [58], zeroPadded 2 min, [58], zeroPadded 2 sec, [46],
    zeroPadded 6 microseconds]
  have htext : dateTimeText width year mon mday hour min sec ++
      ([46] ++ zeroPadded 6 microseconds) = pieces.flatten := by
    simp [pieces, dateTimeText]
  have hwidths : pieces.map List.length =
      [pieces.flatten.length - 20, 2, 2, 1, 2, 1, 2, 1, 2, 1, 6] := by
    simp [pieces, h.mon.length, h.mday.length, h.hour.length, h.min.length, h.sec.length, hlen]
  rw [htext, parse, ← hwidths, fields_flatten]
  simp only [pieces, List.map_cons, List.map_nil, h.mon.readDigits, h.mday.readDigits,
    h.hour.readDigits, h.min.readDigits, h.sec.readDigits, readDigits_spacePadded _ hyear,
    readDigits_zeroPadded 6 hmicro]

end Timestamp

theorem twoDigitFields_gmtime (t : Int) {mon : Int} (h : mon = (TimeZone.gmtime t).tm_mon ∨
    mon = (TimeZone.gmtime t).tm_mon + 1) :
    TwoDigitFields mon (TimeZone.gmtime t).tm_mday (TimeZone.gmtime t).tm_hour
      (TimeZone.gmtime t).tm_min (TimeZone.gmtime t).tm_sec := by
  obtain ⟨date, hutc, -⟩ := TimeZone.isGmtime_gmtime t
  have hmon := hutc.mon
  have hmday := hutc.mday
  have hmonth_pos := date.isDate.month_pos
  have hmonth_le := date.isDate.month_le
  have hday_pos := date.isDate.day_pos
  have hday_le := date.isDate.day_le.trans (Gregorian.daysInMonth_le _ _)
  have hhour := hutc.hour
  have hmin := hutc.min
  have hsec := hutc.sec
  constructor
  all_goals
    constructor
    all_goals omega

theorem yearOf_mono {t t' : Int} (h : t ≤ t') : yearOf t ≤ yearOf t' := by
  obtain rfl | hlt := h.eq_or_lt
  · exact le_rfl
  · obtain ⟨date, hutc, -⟩ := TimeZone.isGmtime_gmtime t
    obtain ⟨date', hutc', -⟩ := TimeZone.isGmtime_gmtime t'
    have hfields := TimeZone.fields_lt hutc hutc' hlt
    rw [TimeZone.fields_lt_iff] at hfields
    unfold yearOf
    omega

theorem yearOf_zero : yearOf 0 = 1970 := by decide

namespace Timestamp

variable {t : Timestamp}

/-! ## The right text can be read -/

theorem ofFields_gmtime (seconds microseconds : Int) :
    ofFields (yearOf seconds) ((TimeZone.gmtime seconds).tm_mon + 1)
      (TimeZone.gmtime seconds).tm_mday (TimeZone.gmtime seconds).tm_hour
      (TimeZone.gmtime seconds).tm_min (TimeZone.gmtime seconds).tm_sec microseconds =
      some ⟨seconds * 1000000 + microseconds⟩ := by
  obtain ⟨date, hutc, -⟩ := TimeZone.isGmtime_gmtime seconds
  have hday := hutc.day
  have htime := hutc.time
  have hyear : yearOf seconds = date.year := by
    rw [yearOf, hutc.year]
    ring
  have hmonth : (TimeZone.gmtime seconds).tm_mon + 1 = date.month := by
    rw [hutc.mon]
    ring
  have hdate : (⟨date.year, date.month, date.day, date.isDate⟩ : Gregorian.Date) = date := rfl
  rw [hyear, hmonth, hutc.mday, ofFields, dif_pos date.isDate, hdate]
  refine congrArg some (congrArg Timestamp.mk ?_)
  omega

theorem parse_calendarText (h : Printable t) : parse (calendarText t) = some t := by
  have hpos := h.nonneg
  have hyear : 0 ≤ yearOf (t.microSecondsSinceEpoch_ / 1000000) := by
    have hmono := yearOf_mono (show 0 ≤ t.microSecondsSinceEpoch_ / 1000000 by omega)
    rw [yearOf_zero] at hmono
    omega
  have hsplit : t.microSecondsSinceEpoch_ / 1000000 * 1000000 +
      t.microSecondsSinceEpoch_ % 1000000 = t.microSecondsSinceEpoch_ := by omega
  rw [calendarText, calendarTime,
    parse_text hyear (twoDigitFields_gmtime _ (.inr rfl)) (by omega) (by omega),
    ofFields_gmtime, hsplit]

/-! ## What is printed -/

/-- The remainder is in the first days of 1970. -/
theorem gmtime_early {seconds : Int} (hpos : 0 ≤ seconds) (hlt : seconds < 1000000) :
    (TimeZone.gmtime seconds).tm_year = 70 ∧ (TimeZone.gmtime seconds).tm_mon = 0 := by
  obtain ⟨date, hutc, -⟩ := TimeZone.isGmtime_gmtime seconds
  have hdays : Gregorian.daysInMonth 1970 1 = 31 := by decide
  let early : Gregorian.Date := ⟨1970, 1, 1 + seconds / 86400, by constructor <;> omega⟩
  have hdate : date = early := by
    refine Gregorian.Date.dayNumber_injective ?_
    rw [hutc.day, TimeZone.epoch_dayNumber]
    have hnumber : early.dayNumber = Gregorian.newYear 1970 + (0 + (1 + seconds / 86400)) := rfl
    have hyear : Gregorian.newYear 1970 = 719162 := by decide
    omega
  rw [hutc.year, hutc.mon, hdate]
  exact ⟨rfl, rfl⟩

theorem twoDigitFields_early {seconds : Int} (hpos : 0 ≤ seconds) (hlt : seconds < 1000000) :
    TwoDigitFields 0 (TimeZone.gmtime seconds).tm_mday (TimeZone.gmtime seconds).tm_hour
      (TimeZone.gmtime seconds).tm_min (TimeZone.gmtime seconds).tm_sec :=
  twoDigitFields_gmtime seconds (.inl (gmtime_early hpos hlt).2.symm)

theorem toFormattedString_eq (h : Printable t) : toFormattedString t true =
    dateTimeText 3 70 0 (TimeZone.gmtime (t.microSecondsSinceEpoch_ % 1000000)).tm_mday
      (TimeZone.gmtime (t.microSecondsSinceEpoch_ % 1000000)).tm_hour
      (TimeZone.gmtime (t.microSecondsSinceEpoch_ % 1000000)).tm_min
      (TimeZone.gmtime (t.microSecondsSinceEpoch_ % 1000000)).tm_sec ++
      ([46] ++ zeroPadded 6 (t.microSecondsSinceEpoch_ % 1000000)) := by
  have hrem : t.microSecondsSinceEpoch_.tmod kMicroSecondsPerSecond =
      t.microSecondsSinceEpoch_ % 1000000 := Int.tmod_eq_emod_of_nonneg h.nonneg
  have hpos : 0 ≤ t.microSecondsSinceEpoch_ % 1000000 := by omega
  have hlt : t.microSecondsSinceEpoch_ % 1000000 < 1000000 := by omega
  obtain ⟨hyear, hmon⟩ := gmtime_early hpos hlt
  have hdigits := twoDigitFields_early hpos hlt
  have hmicro : (zeroPadded 6 (t.microSecondsSinceEpoch_ % 1000000)).length = 6 :=
    length_zeroPadded_of_lt (by decide) hpos (by omega)
  simp only [toFormattedString, hrem, hyear, hmon, if_true, snprintf]
  refine List.take_of_length_le ?_
  rw [List.length_append, hdigits.length_text, List.length_append, hmicro]
  decide

/-- The month is not one of the twelve. -/
theorem parse_toFormattedString (h : Printable t) : parse (toFormattedString t true) = none := by
  rw [toFormattedString_eq h, parse_text (by decide)
    (twoDigitFields_early (by omega) (by omega)) (by omega) (by omega)]
  exact dif_neg fun hdate => absurd hdate.month_pos (by decide)

/-- Whole seconds make no difference. -/
theorem toFormattedString_congr {t' : Timestamp} (h : Printable t) (h' : Printable t')
    (hrem : t.microSecondsSinceEpoch_ % 1000000 = t'.microSecondsSinceEpoch_ % 1000000) :
    toFormattedString t true = toFormattedString t' true := by
  rw [toFormattedString_eq h, toFormattedString_eq h', hrem]

/-- The first second of the epoch, or the one behind it. -/
def twin (t : Timestamp) : Timestamp :=
  if t.microSecondsSinceEpoch_ / 1000000 = 0 then ⟨t.microSecondsSinceEpoch_ + 1000000⟩
  else ⟨t.microSecondsSinceEpoch_ % 1000000⟩

theorem twin_spec (h : Printable t) : Printable (twin t) ∧ twin t ≠ t ∧
    (twin t).microSecondsSinceEpoch_ % 1000000 = t.microSecondsSinceEpoch_ % 1000000 := by
  obtain ⟨us⟩ := t
  have hpos := h.nonneg
  simp only at hpos
  have hone : yearOf 1 ≤ 9999 := by decide
  have hzero : yearOf 0 ≤ 9999 := by decide
  unfold twin
  split_ifs with hfirst
  all_goals simp only at hfirst
  · have hnext : (us + 1000000) / 1000000 = 1 := by omega
    refine ⟨⟨by simp only; omega, by simp only [hnext, hone]⟩, ?_, by simp only; omega⟩
    simp only [ne_eq, Timestamp.mk.injEq]
    omega
  · have hnext : us % 1000000 / 1000000 = 0 := by omega
    refine ⟨⟨by simp only; omega, by simp only [hnext, hzero]⟩, ?_, Int.emod_emod_of_dvd us dvd_rfl⟩
    simp only [ne_eq, Timestamp.mk.injEq]
    omega

/-- The text is never that of the instant, cannot be read back, and is that of another instant as
well. -/
theorem not_identified (t : Timestamp) (h : Printable t) :
    toFormattedString t true ≠ calendarText t ∧ parse (toFormattedString t true) ≠ some t ∧
      ∃ t', Printable t' ∧ t' ≠ t ∧ toFormattedString t' true = toFormattedString t true := by
  have hparse := parse_toFormattedString h
  refine ⟨?_, ?_, ?_⟩
  · intro htext
    rw [htext, parse_calendarText h] at hparse
    cases hparse
  · rw [hparse]
    exact Option.some_ne_none t ∘ Eq.symm
  · obtain ⟨hprintable, hne, hrem⟩ := twin_spec h
    exact ⟨twin t, hprintable, hne, toFormattedString_congr hprintable h hrem⟩

theorem not_identified_newYear :
    toFormattedString ⟨1577836800000000⟩ true ≠ calendarText ⟨1577836800000000⟩ ∧
      parse (toFormattedString ⟨1577836800000000⟩ true) ≠ some ⟨1577836800000000⟩ ∧
      ∃ t', Printable t' ∧ t' ≠ ⟨1577836800000000⟩ ∧
        toFormattedString t' true = toFormattedString ⟨1577836800000000⟩ true :=
  not_identified ⟨1577836800000000⟩ ⟨by decide, by decide⟩

/-- The first of January 2020 looks like the epoch, and both like no date at all. -/
theorem text_newYear : Printable ⟨1577836800000000⟩ ∧
    toFormattedString ⟨1577836800000000⟩ true = Bytes.ofString " 700001 00:00:00.000000" ∧
    calendarText ⟨1577836800000000⟩ = Bytes.ofString "20200101 00:00:00.000000" ∧
    parse (toFormattedString ⟨1577836800000000⟩ true) = none ∧
    toFormattedString ⟨0⟩ true = toFormattedString ⟨1577836800000000⟩ true :=
  ⟨⟨by decide, by decide⟩, by decide, by decide, by decide, by decide⟩

end Timestamp

end Base
end Longky
