import Longky.Base.LocalTime
import Longky.Base.LogStream
import Longky.Base.Timestamp
import Longky.Lib.Reach

/-!
# LogTime — the time at the start of a log line

`Logger::Impl::formatTime` in `base/log/Logging.cpp`, with the text of the last second that each
thread keeps.  `timeZone_` is added to the hour of the broken-down time only.

`showsLocalTime_iff`: when the line begins with the local time.
-/

namespace Longky
namespace Base
namespace Logger

open Lib Lib.Numeral Lib.MachineInt Net

/-! ## The source -/

/-- `T`: a C string with its length, which is asserted. -/
structure T where
  str_ : Bytes
  len_ : Nat
  strlen_eq : str_.length = len_

def T.construct (str : Bytes) (len : Nat) : Option T :=
  if h : str.length = len then some ⟨str, len, h⟩ else none

/-- `operator<<(LogStream&, T)`. -/
def insertT (s : LogStream) (v : T) : Option LogStream := s.append v.str_ (toInt32 v.len_)

structure Globals where
  timeZone_ : Int := 0
  g_logTimeZone : TimeZone := ⟨none⟩

structure ThreadLocals where
  t_time : Bytes := []
  t_lastSecond : Int := 0
  deriving DecidableEq, Repr

/-- What is done in a new second. -/
def newSecond (g : Globals) (seconds : Int) : Option ThreadLocals := do
  let tm_time ← if g.g_logTimeZone.valid then g.g_logTimeZone.toLocalTime TimeZone.gmtime seconds
    else some (TimeZone.gmtime seconds)
  let (t_time, len) := snprintf 64 (dateTimeText 4 (← int (tm_time.tm_year + 1900))
    (← int (tm_time.tm_mon + 1)) tm_time.tm_mday (← int (tm_time.tm_hour + g.timeZone_))
    tm_time.tm_min tm_time.tm_sec)
  -- assert(len == 17)
  if len = 17 then some { t_time, t_lastSecond := seconds } else none

/-- What is kept of the last second is made anew if another one has come. -/
def kept (g : Globals) (seconds : Int) (th : ThreadLocals) : Option ThreadLocals :=
  if seconds ≠ th.t_lastSecond then newSecond g seconds else some th

/-- The fraction of the second, with the length that is asserted. -/
def fraction (g : Globals) (microseconds : Int) : Option T := do
  let (suffix, len) := if g.g_logTimeZone.valid then ([32], 8) else ([90, 32], 9)
  let us ← Fmt.construct ([46] ++ zeroPadded 6 microseconds ++ suffix)
  T.construct us.data len

def formatTime (g : Globals) (time_ : Timestamp) (th : ThreadLocals) (stream_ : LogStream) :
    Option (ThreadLocals × LogStream) := do
  let seconds := time_.microSecondsSinceEpoch_.tdiv Timestamp.kMicroSecondsPerSecond
  let microseconds := time_.microSecondsSinceEpoch_.tmod Timestamp.kMicroSecondsPerSecond
  let th ← kept g seconds th
  let us ← fraction g microseconds
  let stream_ ← insertT stream_ (← T.construct th.t_time 17)
  return (th, ← insertT stream_ us)

/-! ## One thread -/

/-- The state that a thread sees, and the zone in which its text has been made. -/
structure Clock where
  timeZone_ : Int := 0
  locals : ThreadLocals := {}
  zone : Option Int := none

def Clock.globals (s : Clock) : Globals := { timeZone_ := s.timeZone_ }

inductive ClockAction where
  | setTimeZone (tz : Int)
  | formatTime (time_ : Timestamp) (memory : Memory kSmallBuffer)

/-- The times of four-digit years. -/
structure InYears (t : Timestamp) : Prop where
  le : 1000 ≤ yearOf (t.microSecondsSinceEpoch_ / 1000000)
  year_le : yearOf (t.microSecondsSinceEpoch_ / 1000000) ≤ 9999

inductive Clock.Step : Clock → ClockAction → Clock → Prop where
  | setTimeZone {s : Clock} {tz : Int} : -12 ≤ tz → tz ≤ 14 →
      Step s (.setTimeZone tz) { s with timeZone_ := tz }
  | formatTime {s : Clock} {time_ : Timestamp} {memory : Memory kSmallBuffer}
      {locals : ThreadLocals} {stream_ : LogStream} : InYears time_ →
      Logger.formatTime s.globals time_ s.locals (.construct memory) = some (locals, stream_) →
      Step s (.formatTime time_ memory) { s with
        locals := locals
        zone := if locals = s.locals then s.zone else some s.timeZone_ }

/-- A thread that has not logged anything, and all that can follow. -/
def clockSystem : System Clock ClockAction where
  init := (· = {})
  step := Clock.Step

/-- The line begins with the date and the time of the instant in the zone. -/
def ShowsLocalTime (s : Clock) (t : Timestamp) : Prop :=
  ∀ memory, ∃ locals stream_,
    formatTime s.globals t s.locals (.construct memory) = some (locals, stream_) ∧
      stream_.buffer_.contents.take 17 =
        calendarTime (t.microSecondsSinceEpoch_ / 1000000 + s.timeZone_ * 3600)

/-- No hour is carried over, and no part of a second before the epoch.  A text that is used again
has been made in the zone that is set now. -/
structure Carryless (s : Clock) (t : Timestamp) : Prop where
  whole : 0 ≤ t.microSecondsSinceEpoch_ ∨ t.microSecondsSinceEpoch_ % 1000000 = 0
  hour_nonneg : 0 ≤ (TimeZone.gmtime (t.microSecondsSinceEpoch_ / 1000000)).tm_hour + s.timeZone_
  hour_le : (TimeZone.gmtime (t.microSecondsSinceEpoch_ / 1000000)).tm_hour + s.timeZone_ ≤ 23
  cached : t.microSecondsSinceEpoch_ / 1000000 = s.locals.t_lastSecond →
    s.zone = some s.timeZone_

/-! ## The text of a second -/

/-- The text that is made of a second, with the zone added to the hour. -/
def madeText (tz seconds : Int) : Bytes :=
  dateTimeText 4 (yearOf seconds) ((TimeZone.gmtime seconds).tm_mon + 1)
    (TimeZone.gmtime seconds).tm_mday ((TimeZone.gmtime seconds).tm_hour + tz)
    (TimeZone.gmtime seconds).tm_min (TimeZone.gmtime seconds).tm_sec

variable {tz seconds : Int}

/-- Within a day the hour is the only field that changes. -/
theorem gmtime_shift (hpos : 0 ≤ (TimeZone.gmtime seconds).tm_hour + tz)
    (hle : (TimeZone.gmtime seconds).tm_hour + tz ≤ 23) :
    TimeZone.gmtime (seconds + tz * 3600) =
      { TimeZone.gmtime seconds with tm_hour := (TimeZone.gmtime seconds).tm_hour + tz } := by
  simp only [TimeZone.gmtime, TimeZone.brokenDown] at hpos hle ⊢
  have hday : (seconds + tz * 3600) / 86400 = seconds / 86400 := by omega
  have hsec : (seconds + tz * 3600) % 86400 % 60 = seconds % 86400 % 60 := by omega
  have hmin : (seconds + tz * 3600) % 86400 / 60 % 60 = seconds % 86400 / 60 % 60 := by omega
  have hhour : (seconds + tz * 3600) % 86400 / 60 / 60 = seconds % 86400 / 60 / 60 + tz := by omega
  rw [hday, hsec, hmin, hhour]

theorem yearOf_shift (hpos : 0 ≤ (TimeZone.gmtime seconds).tm_hour + tz)
    (hle : (TimeZone.gmtime seconds).tm_hour + tz ≤ 23) :
    yearOf (seconds + tz * 3600) = yearOf seconds := by
  rw [yearOf, gmtime_shift hpos hle]
  rfl

theorem madeText_eq (hpos : 0 ≤ (TimeZone.gmtime seconds).tm_hour + tz)
    (hle : (TimeZone.gmtime seconds).tm_hour + tz ≤ 23) :
    madeText tz seconds = calendarTime (seconds + tz * 3600) := by
  rw [calendarTime, yearOf_shift hpos hle, gmtime_shift hpos hle]
  rfl

/-- A year of four digits, and an hour that has been made with two. -/
theorem length_madeText (tz : Int) (hyear : 1000 ≤ yearOf seconds) (hyear' : yearOf seconds ≤ 9999) :
    (madeText tz seconds).length =
      15 + (zeroPadded 2 ((TimeZone.gmtime seconds).tm_hour + tz)).length := by
  have hdigits := twoDigitFields_gmtime seconds (.inr rfl)
  have hlen : (spacePadded 4 (yearOf seconds)).length = 4 :=
    length_spacePadded_of_lt (by decide) (by omega) (by omega)
  simp only [madeText, dateTimeText, List.length_append, hdigits.mon.length, hdigits.mday.length,
    hdigits.min.length, hdigits.sec.length, hlen, List.length_singleton]
  omega

/-- The hours of two texts that are the same are the same. -/
theorem hour_eq {other : Int} (hyear : 1000 ≤ yearOf seconds) (hyear' : yearOf seconds ≤ 9999)
    (hlen : (madeText tz seconds).length = 17) (h : madeText tz seconds = calendarTime other) :
    (TimeZone.gmtime seconds).tm_hour + tz = (TimeZone.gmtime other).tm_hour := by
  have hdigits := twoDigitFields_gmtime seconds (.inr rfl)
  have hdigits' := twoDigitFields_gmtime other (.inr rfl)
  have hhour := length_madeText tz hyear hyear'
  -- the texts end with the hour and five more pieces of the same lengths
  have hsame : (zeroPadded 2 ((TimeZone.gmtime seconds).tm_hour + tz)).length =
      (zeroPadded 2 (TimeZone.gmtime other).tm_hour).length := by
    rw [hdigits'.hour.length]
    omega
  simp only [madeText, calendarTime, dateTimeText] at h
  have htail := List.append_inj_right' h (by
    simp only [List.length_append, hsame, hdigits.min.length, hdigits'.min.length,
      hdigits.sec.length, hdigits'.sec.length])
  exact zeroPadded_inj.1 (List.append_inj_left htail hsame)

theorem calendarTime_injective {other : Int} (h : 0 ≤ yearOf seconds) (h' : 0 ≤ yearOf other)
    (htext : calendarTime seconds = calendarTime other) : seconds = other := by
  have hparse : ∀ t, 0 ≤ yearOf t →
      Timestamp.parse (calendarTime t ++ ([46] ++ zeroPadded 6 0)) = some ⟨t * 1000000 + 0⟩ := by
    intro t ht
    rw [calendarTime, Timestamp.parse_text ht (twoDigitFields_gmtime t (.inr rfl)) le_rfl
      (by decide), Timestamp.ofFields_gmtime]
  have hsame := hparse seconds h
  rw [htext, hparse other h', Option.some.injEq, Timestamp.mk.injEq] at hsame
  omega

/-- The text is right for one other second at most. -/
theorem madeText_eq_iff {other : Int} (hyear : 1000 ≤ yearOf seconds)
    (hyear' : yearOf seconds ≤ 9999) (hother : 0 ≤ yearOf other)
    (hlen : (madeText tz seconds).length = 17) :
    madeText tz seconds = calendarTime other ↔ 0 ≤ (TimeZone.gmtime seconds).tm_hour + tz ∧
      (TimeZone.gmtime seconds).tm_hour + tz ≤ 23 ∧ seconds + tz * 3600 = other := by
  constructor
  · intro h
    -- the hour that is printed is one of the calendar, so nothing had to be carried
    have hhour := hour_eq hyear hyear' hlen h
    obtain ⟨date, hutc, -⟩ := TimeZone.isGmtime_gmtime other
    have hbounds := hutc.hour
    have hpos : 0 ≤ (TimeZone.gmtime seconds).tm_hour + tz := by omega
    have hle : (TimeZone.gmtime seconds).tm_hour + tz ≤ 23 := by omega
    rw [madeText_eq hpos hle] at h
    refine ⟨hpos, hle, calendarTime_injective ?_ hother h⟩
    rw [yearOf_shift hpos hle]
    omega
  · rintro ⟨hpos, hle, rfl⟩
    exact madeText_eq hpos hle

/-! ## What is written -/

/-- Without a zone of its own a second gives its text, if that has the length that is asserted. -/
theorem newSecond_eq (hyear : 1000 ≤ yearOf seconds) (hyear' : yearOf seconds ≤ 9999)
    (htz : -12 ≤ tz) (htz' : tz ≤ 14) :
    newSecond { timeZone_ := tz } seconds =
      if (madeText tz seconds).length = 17 then some ⟨madeText tz seconds, seconds⟩ else none := by
  have hdigits := twoDigitFields_gmtime seconds (.inr rfl)
  obtain ⟨hmon, hmon'⟩ := hdigits.mon
  obtain ⟨hhour, hhour'⟩ := hdigits.hour
  -- none of the three sums leaves the range of `int`
  have hyears : int ((TimeZone.gmtime seconds).tm_year + 1900) = some (yearOf seconds) := by
    unfold yearOf at hyear hyear' ⊢
    exact int_eq_some (by omega) (by omega)
  have hmonths : int ((TimeZone.gmtime seconds).tm_mon + 1) =
      some ((TimeZone.gmtime seconds).tm_mon + 1) := int_eq_some (by omega) (by omega)
  have hhours : int ((TimeZone.gmtime seconds).tm_hour + tz) =
      some ((TimeZone.gmtime seconds).tm_hour + tz) := int_eq_some (by omega) (by omega)
  have hmade : dateTimeText 4 (yearOf seconds) ((TimeZone.gmtime seconds).tm_mon + 1)
      (TimeZone.gmtime seconds).tm_mday ((TimeZone.gmtime seconds).tm_hour + tz)
      (TimeZone.gmtime seconds).tm_min (TimeZone.gmtime seconds).tm_sec = madeText tz seconds := rfl
  simp only [newSecond, TimeZone.valid, Option.isSome_none, Bool.false_eq_true, if_false,
    Option.bind_eq_bind, Option.bind_some, hyears, hmonths, hhours, snprintf, hmade]
  by_cases hlen : (madeText tz seconds).length = 17
  · rw [if_pos hlen, if_pos hlen, List.take_of_length_le (by omega)]
  · rw [if_neg hlen, if_neg hlen]

/-- A fraction that is not negative has the length that is asserted. -/
theorem fraction_eq (tz : Int) {microseconds : Int} (hpos : 0 ≤ microseconds)
    (hlt : microseconds < 1000000) :
    ∃ us : T, fraction { timeZone_ := tz } microseconds = some us ∧ us.len_ = 9 := by
  have hlen : ([46] ++ zeroPadded 6 microseconds ++ [90, 32]).length = 9 := by
    rw [List.length_append, List.length_append,
      length_zeroPadded_of_lt (by decide) hpos (by omega)]
    rfl
  have hfmt : Fmt.construct ([46] ++ zeroPadded 6 microseconds ++ [90, 32]) =
      some ⟨_, by rw [hlen]; decide⟩ := dif_pos (by rw [hlen]; decide)
  refine ⟨⟨_, 9, hlen⟩, ?_, rfl⟩
  simp only [fraction, TimeZone.valid, Option.isSome_none, Bool.false_eq_true, if_false, hfmt,
    Option.bind_eq_bind, Option.bind_some]
  exact dif_pos hlen

/-- A short text is appended. -/
theorem insertT_eq {s : LogStream} {v : T} (h : v.len_ < s.buffer_.avail) :
    insertT s v = some (s.appendText v.str_) := by
  have hsmall : s.buffer_.avail ≤ kSmallBuffer := Nat.sub_le _ _
  have hsize : kSmallBuffer = 4000 := rfl
  have hlen : v.str_.length = v.len_ := v.strlen_eq
  rw [insertT, LogStream.append, Buffer.toSizeT_toInt32 (by omega), FixedBuffer.appendData, if_pos h,
    if_pos hlen.ge, ← hlen, List.take_length]
  rfl

theorem avail_of_contents {s : LogStream} {text : Bytes} (h : s.buffer_.contents = text) :
    s.buffer_.avail = 4000 - text.length := by
  rw [← h, FixedBuffer.length_contents]
  rfl

theorem contents_construct (memory : Memory kSmallBuffer) :
    (LogStream.construct memory).buffer_.contents = [] := FixedBuffer.contents_eq_nil rfl

/-- The first text of a line. -/
theorem contents_first (memory : Memory kSmallBuffer) {text : Bytes} (h : text.length < 4000) :
    ((LogStream.construct memory).appendText text).buffer_.contents = text := by
  have hroom := avail_of_contents (contents_construct memory)
  rw [List.length_nil] at hroom
  rw [LogStream.appendText, FixedBuffer.contents_append (by omega), contents_construct,
    List.nil_append]

/-- Whatever is appended, what was there stays in front. -/
theorem prefix_insertT {s s' : LogStream} {v : T} (h : insertT s v = some s') :
    s.buffer_.contents <+: s'.buffer_.contents := by
  unfold insertT LogStream.append FixedBuffer.appendData at h
  split_ifs at h with hfits hlen
  · cases h
    rw [FixedBuffer.contents_append (by rw [List.length_take, min_eq_left hlen]; exact hfits)]
    exact List.prefix_append _ _
  · cases h
  · cases h
    exact List.prefix_rfl

variable {g : Globals} {t : Timestamp} {th th' : ThreadLocals} {memory : Memory kSmallBuffer}
  {stream_ : LogStream}

/-- A line that is written begins with the text of its second. -/
theorem formatTime_spec (h : formatTime g t th (.construct memory) = some (th', stream_)) :
    kept g t.secondsSinceEpoch th = some th' ∧ th'.t_time.length = 17 ∧
      stream_.buffer_.contents.take 17 = th'.t_time := by
  simp only [formatTime, Option.bind_eq_bind, Option.bind_eq_some_iff] at h
  obtain ⟨locals, hkept, us, -, text, htext, s₁, hfirst, s₂, hsecond, hpair⟩ := h
  cases hpair
  have hlen : th'.t_time.length = 17 := by
    by_contra hne
    rw [T.construct, dif_neg hne] at htext
    cases htext
  rw [T.construct, dif_pos hlen, Option.some.injEq] at htext
  subst htext
  have hroom := avail_of_contents (contents_construct memory)
  rw [List.length_nil] at hroom
  rw [insertT_eq (by simp only; omega), Option.some.injEq] at hfirst
  subst hfirst
  refine ⟨hkept, hlen, ?_⟩
  -- the text is all there is before the fraction
  have hprefix := prefix_insertT hsecond
  have hshort : th'.t_time.length < 4000 := by omega
  rw [contents_first memory hshort, List.prefix_iff_eq_take, hlen] at hprefix
  exact hprefix.symm

/-- A line is written if the text and the fraction have their lengths. -/
theorem formatTime_eq (memory : Memory kSmallBuffer)
    (hkept : kept { timeZone_ := tz } t.secondsSinceEpoch th = some th')
    (hlen : th'.t_time.length = 17)
    (hpos : 0 ≤ t.microSecondsSinceEpoch_.tmod Timestamp.kMicroSecondsPerSecond) :
    ∃ stream_ us, formatTime { timeZone_ := tz } t th (.construct memory) = some (th', stream_) ∧
      stream_.buffer_.contents = th'.t_time ++ us ∧ us.length = 9 := by
  have hlt : t.microSecondsSinceEpoch_.tmod Timestamp.kMicroSecondsPerSecond < 1000000 :=
    Int.tmod_lt_of_pos _ (by decide)
  obtain ⟨us, hus, hus_len⟩ := fraction_eq tz hpos hlt
  have htext : T.construct th'.t_time 17 = some ⟨th'.t_time, 17, hlen⟩ := dif_pos hlen
  have hroom := avail_of_contents (contents_construct memory)
  rw [List.length_nil] at hroom
  have hshort : th'.t_time.length < 4000 := by omega
  have hroom' := avail_of_contents (contents_first memory hshort)
  have hfirst : insertT (.construct memory) ⟨th'.t_time, 17, hlen⟩ = some _ :=
    insertT_eq (by simp only; omega)
  have hsecond := insertT_eq (s := (LogStream.construct memory).appendText th'.t_time) (v := us)
    (by omega)
  rw [Timestamp.secondsSinceEpoch] at hkept
  refine ⟨((LogStream.construct memory).appendText th'.t_time).appendText us.str_, us.str_, ?_, ?_,
    us.strlen_eq.trans hus_len⟩
  · simp only [formatTime, Option.bind_eq_bind, Option.bind_eq_some_iff]
    exact ⟨th', hkept, us, hus, _, htext, _, hfirst, _, hsecond, rfl⟩
  · have hus_str := us.strlen_eq
    rw [LogStream.appendText, FixedBuffer.contents_append (by omega),
      contents_first memory hshort]

/-! ## Seconds before the epoch -/

/-- The quotient is rounded towards the epoch. -/
theorem secondsSinceEpoch_cases (t : Timestamp) :
    (t.secondsSinceEpoch = t.microSecondsSinceEpoch_ / 1000000 ∧
      (0 ≤ t.microSecondsSinceEpoch_ ∨ t.microSecondsSinceEpoch_ % 1000000 = 0)) ∨
    (t.secondsSinceEpoch = t.microSecondsSinceEpoch_ / 1000000 + 1 ∧
      t.microSecondsSinceEpoch_ < 0 ∧ t.microSecondsSinceEpoch_ % 1000000 ≠ 0) := by
  have hquot := Int.mul_tdiv_add_tmod t.microSecondsSinceEpoch_ 1000000
  have hlt := Int.tmod_lt_of_pos t.microSecondsSinceEpoch_ (show (0 : Int) < 1000000 by decide)
  have hgt := Int.lt_tmod_of_pos t.microSecondsSinceEpoch_ (show (0 : Int) < 1000000 by decide)
  have hunit : Timestamp.kMicroSecondsPerSecond = 1000000 := rfl
  rw [Timestamp.secondsSinceEpoch, hunit]
  rcases lt_or_ge t.microSecondsSinceEpoch_ 0 with hneg | hpos
  · have hrem := Int.tmod_nonneg 1000000 (neg_nonneg.2 hneg.le)
    rw [Int.neg_tmod] at hrem
    omega
  · have hrem := Int.tmod_nonneg 1000000 hpos
    omega

theorem yearOf_secondsSinceEpoch (h : InYears t) :
    1000 ≤ yearOf t.secondsSinceEpoch ∧ yearOf t.secondsSinceEpoch ≤ 9999 := by
  have hle := h.le
  have hyear_le := h.year_le
  obtain ⟨hsecond, -⟩ | ⟨hsecond, hneg, -⟩ := secondsSinceEpoch_cases t
  · rw [hsecond]
    exact ⟨hle, hyear_le⟩
  · -- the second behind the instant, and not behind the epoch
    have hup := yearOf_mono (show t.microSecondsSinceEpoch_ / 1000000 ≤ t.secondsSinceEpoch by
      omega)
    have hdown := yearOf_mono (show t.secondsSinceEpoch ≤ 0 by omega)
    rw [yearOf_zero] at hdown
    omega

/-- Half a day before the year 1000 is still a year that can be read. -/
theorem yearOf_local_nonneg (h : InYears t) (htz : -12 ≤ tz) :
    0 ≤ yearOf (t.microSecondsSinceEpoch_ / 1000000 + tz * 3600) := by
  have hstart : yearOf (-30610224001) = 999 := by decide
  have hzero : yearOf (-62167219200) = 0 := by decide
  have hbehind : -30610224001 < t.microSecondsSinceEpoch_ / 1000000 := by
    by_contra hle
    have hmono := yearOf_mono (not_lt.1 hle)
    have hyear := h.le
    omega
  calc 0 = yearOf (-62167219200) := hzero.symm
    _ ≤ yearOf (t.microSecondsSinceEpoch_ / 1000000 + tz * 3600) := yearOf_mono (by omega)

/-! ## Any run -/

/-- What is kept has been made of its second in some zone, once there has been one. -/
structure Clock.Inv (s : Clock) : Prop where
  tz_ge : -12 ≤ s.timeZone_
  tz_le : s.timeZone_ ≤ 14
  fresh : s.zone = none → s.locals = {}
  made : ∀ tz, s.zone = some tz → s.locals.t_time = madeText tz s.locals.t_lastSecond

theorem Clock.Inv.step {s s' : Clock} {a : ClockAction} (hinv : s.Inv) (hstep : s.Step a s') :
    s'.Inv := by
  cases hstep with
  | setTimeZone htz htz' => exact ⟨htz, htz', hinv.fresh, hinv.made⟩
  | @formatTime t memory locals stream_ hyears hformat =>
      obtain ⟨hkept, -, -⟩ := formatTime_spec hformat
      by_cases hsame : locals = s.locals
      · -- the text is used again
        refine ⟨hinv.tz_ge, hinv.tz_le, ?_, ?_⟩
        · simp only [hsame, if_true]
          exact hinv.fresh
        · simp only [hsame, if_true]
          exact hinv.made
      · refine ⟨hinv.tz_ge, hinv.tz_le, ?_, ?_⟩
        · simp [hsame]
        · intro tz htz
          simp only [hsame, if_false, Option.some.injEq] at htz
          subst htz
          obtain ⟨hyear, hyear'⟩ := yearOf_secondsSinceEpoch hyears
          unfold kept at hkept
          split_ifs at hkept with hnew
          · rw [Clock.globals, newSecond_eq hyear hyear' hinv.tz_ge hinv.tz_le] at hkept
            split_ifs at hkept
            cases hkept
            rfl
          · cases hkept
            exact absurd rfl hsame

theorem Clock.inv_of_reachable {s : Clock} (h : clockSystem.Reachable s) : s.Inv :=
  h.invariant (fun s hs => hs ▸ ⟨by decide, by decide, fun _ => rfl, fun _ hzone => by cases hzone⟩)
    fun _ _ _ hinv hstep => hinv.step hstep

/-! ## When the line begins with the local time -/

variable {s : Clock} {locals : ThreadLocals}

/-- The text of a line is that of its second in the zone of the call, or in the one of the call that
has made it. -/
theorem Clock.Inv.text_kept (hinv : s.Inv) (ht : InYears t)
    (hkept : kept s.globals t.secondsSinceEpoch s.locals = some locals)
    (hlen : locals.t_time.length = 17) : ∃ tz, locals.t_time = madeText tz t.secondsSinceEpoch ∧
      (t.secondsSinceEpoch = s.locals.t_lastSecond → s.zone = some tz) ∧
      (t.secondsSinceEpoch ≠ s.locals.t_lastSecond → tz = s.timeZone_) := by
  unfold kept at hkept
  split_ifs at hkept with hnew
  · obtain ⟨hyear, hyear'⟩ := yearOf_secondsSinceEpoch ht
    rw [Clock.globals, newSecond_eq hyear hyear' hinv.tz_ge hinv.tz_le] at hkept
    split_ifs at hkept
    cases hkept
    exact ⟨s.timeZone_, rfl, fun hsame => absurd hsame hnew, fun _ => rfl⟩
  · cases hkept
    have hsame := not_not.1 hnew
    cases hzone : s.zone with
    | none =>
        -- nothing has been kept yet, and the assertion on the length fails
        rw [hinv.fresh hzone] at hlen
        cases hlen
    | some tz =>
        refine ⟨tz, ?_, fun _ => rfl, fun hne => absurd hsame hne⟩
        rw [hinv.made tz hzone, hsame]

theorem Carryless.of_shows (hinv : s.Inv) (ht : InYears t) (h : ShowsLocalTime s t) :
    Carryless s t := by
  obtain ⟨locals, stream_, hformat, htext⟩ := h ⟨List.replicate kSmallBuffer 0, by simp⟩
  obtain ⟨hkept, hlen, htake⟩ := formatTime_spec hformat
  obtain ⟨hyear, hyear'⟩ := yearOf_secondsSinceEpoch ht
  obtain ⟨tz, hmade, hagain, hnew⟩ := hinv.text_kept ht hkept hlen
  rw [htake, hmade] at htext
  rw [hmade] at hlen
  -- the second that the text shows is the second of the line, moved by the zone it was made in
  obtain ⟨hpos, hle, hother⟩ := (madeText_eq_iff hyear hyear'
    (yearOf_local_nonneg ht hinv.tz_ge) hlen).1 htext
  obtain ⟨hsecond, hwhole⟩ | ⟨hsecond, -⟩ := secondsSinceEpoch_cases t
  · have htz : tz = s.timeZone_ := by omega
    rw [hsecond, htz] at hpos hle
    refine ⟨hwhole, hpos, hle, fun hsame => ?_⟩
    rw [← htz]
    exact hagain (hsecond.trans hsame)
  · -- a second too much is not made up for by any zone
    omega

theorem Carryless.shows (hinv : s.Inv) (ht : InYears t) (h : Carryless s t) :
    ShowsLocalTime s t := by
  obtain ⟨hyear, hyear'⟩ := yearOf_secondsSinceEpoch ht
  have hpos := h.hour_nonneg
  have hle := h.hour_le
  have hsecond : t.secondsSinceEpoch = t.microSecondsSinceEpoch_ / 1000000 := by
    have hwhole := h.whole
    obtain ⟨hsecond, -⟩ | ⟨-, hneg, hrem⟩ := secondsSinceEpoch_cases t
    · exact hsecond
    · omega
  rw [← hsecond] at hpos hle
  -- both length assertions hold: of the text, and of the fraction
  have hlen : (madeText s.timeZone_ t.secondsSinceEpoch).length = 17 := by
    rw [length_madeText _ hyear hyear', length_zeroPadded_of_lt (by decide) hpos (by omega)]
  have hrem : 0 ≤ t.microSecondsSinceEpoch_.tmod Timestamp.kMicroSecondsPerSecond := by
    have hquot := Int.mul_tdiv_add_tmod t.microSecondsSinceEpoch_ 1000000
    have hunit : Timestamp.kMicroSecondsPerSecond = 1000000 := rfl
    rw [Timestamp.secondsSinceEpoch, hunit] at hsecond
    rw [hunit]
    omega
  have hkept : kept s.globals t.secondsSinceEpoch s.locals =
      some ⟨madeText s.timeZone_ t.secondsSinceEpoch, t.secondsSinceEpoch⟩ := by
    unfold kept
    split_ifs with hnew
    · rw [Clock.globals, newSecond_eq hyear hyear' hinv.tz_ge hinv.tz_le, if_pos hlen]
    · -- the text that is used again was made in this zone
      have hsame := not_not.1 hnew
      have hmade := hinv.made s.timeZone_ (h.cached (hsecond.symm.trans hsame))
      rw [hsame, ← hmade]
  intro memory
  obtain ⟨stream_, -, hformat, -⟩ := formatTime_eq memory hkept hlen hrem
  obtain ⟨-, -, htake⟩ := formatTime_spec hformat
  refine ⟨_, stream_, hformat, ?_⟩
  rw [htake, madeText_eq hpos hle, hsecond]

theorem showsLocalTime_iff (s : Clock) (t : Timestamp) (h : clockSystem.Reachable s)
    (ht : InYears t) : ShowsLocalTime s t ↔ Carryless s t :=
  have hinv := Clock.inv_of_reachable h
  ⟨Carryless.of_shows hinv ht, Carryless.shows hinv ht⟩

/-- A thread that has logged a line at noon with `timeZone_` 8, which is -5 now. -/
def moved : Clock where
  timeZone_ := -5
  locals := { t_time := Bytes.ofString "20200101 20:00:00", t_lastSecond := 1577880000 }
  zone := some 8

theorem moved_reachable : clockSystem.Reachable moved := by
  have heast : clockSystem.Reachable { timeZone_ := 8 } :=
    .step (.init rfl) (.setTimeZone (by decide) (by decide))
  have hyears : InYears ⟨1577880000000000⟩ := ⟨by decide, by decide⟩
  have hkept : kept { timeZone_ := 8 } (Timestamp.secondsSinceEpoch ⟨1577880000000000⟩) {} =
      some moved.locals := by decide
  let memory : Memory kSmallBuffer := ⟨List.replicate kSmallBuffer 0, List.length_replicate⟩
  obtain ⟨stream_, -, hformat, -⟩ := formatTime_eq memory hkept (by decide) (by decide)
  have hnoon : clockSystem.Reachable { timeZone_ := 8, locals := moved.locals, zone := some 8 } :=
    .step heast (.formatTime hyears hformat)
  exact .step hnoon (.setTimeZone (by decide) (by decide))

/-- In the same second the old text is used again, and a second later the line is right. -/
theorem showsLocalTime_noon : ¬ ShowsLocalTime moved ⟨1577880000500000⟩ ∧
    ShowsLocalTime moved ⟨1577880001000000⟩ := by
  constructor
  · rw [showsLocalTime_iff moved _ moved_reachable ⟨by decide, by decide⟩]
    intro h
    exact absurd (h.cached (by decide)) (by decide)
  · rw [showsLocalTime_iff moved _ moved_reachable ⟨by decide, by decide⟩]
    exact ⟨.inl (by decide), by decide, by decide, fun hsame => absurd hsame (by decide)⟩

/-- The last evening of 2019, eight hours east of Greenwich. -/
theorem text_lastEvening : clockSystem.Reachable { timeZone_ := 8 } ∧
    InYears ⟨1577835000000000⟩ ∧
    (∀ memory locals stream_,
      formatTime { timeZone_ := 8 } ⟨1577835000000000⟩ {} (.construct memory) =
        some (locals, stream_) →
      stream_.buffer_.contents.take 17 = Bytes.ofString "20191231 31:30:00") ∧
    calendarTime (1577835000 + 8 * 3600) = Bytes.ofString "20200101 07:30:00" ∧
    ¬ ShowsLocalTime { timeZone_ := 8 } ⟨1577835000000000⟩ := by
  have hreach : clockSystem.Reachable { timeZone_ := 8 } :=
    .step (.init rfl) (.setTimeZone (by decide) (by decide))
  have hyears : InYears ⟨1577835000000000⟩ := ⟨by decide, by decide⟩
  refine ⟨hreach, hyears, ?_, by decide, ?_⟩
  · intro memory locals stream_ hformat
    obtain ⟨hkept, -, htake⟩ := formatTime_spec hformat
    have hsecond : Timestamp.secondsSinceEpoch ⟨1577835000000000⟩ = 1577835000 := by decide
    have hmade : kept { timeZone_ := 8 } 1577835000 {} =
        some ⟨Bytes.ofString "20191231 31:30:00", 1577835000⟩ := by decide
    rw [hsecond, hmade, Option.some.injEq] at hkept
    rw [htake, ← hkept]
  · intro hshows
    have hcarryless := Carryless.of_shows (Clock.inv_of_reachable hreach) hyears hshows
    exact absurd hcarryless.hour_le (by decide)

end Logger
end Base
end Longky
