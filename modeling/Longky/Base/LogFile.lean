import Longky.Lib.Bytes
import Longky.Lib.MachineInt
import Longky.Lib.Reach

/-!
# LogFile — rolled log files

`base/log/LogFile.cpp`, `AppendFile` of `base/log/FileUtil.cpp`, and the start of
`AsyncLogging::threadFunc`, which takes the time zone off the configured time before it makes its
`LogFile`.

* `dailyRoll_iff`: the delay to the daily roll is brought into a day by one correction, and that is
  enough unless the configured time in UTC lies in another day.
* `wholeLines_of_reachable`: whenever the file is rolled, no line is lost and none is cut in two.

Nothing in the source runs `loop_`; the timers that it is given are steps of their own here.  The
clock is an argument wherever the source asks for the time.  Files can be opened and written: `fopen`
returns a stream, and `fwrite_unlocked` takes what it is given.
-/

namespace Longky
namespace Base

open Lib

/-! ## The source -/

/-- An open file, and what has been written through it. -/
structure AppendFile where
  filename : Bytes
  contents : Bytes := []
  deriving DecidableEq, Repr

namespace AppendFile

def append (file : AppendFile) (logline : Bytes) : AppendFile :=
  { file with contents := file.contents ++ logline }

def writtenBytes (file : AppendFile) : Int := file.contents.length

end AppendFile

/-- What `loop_` has been asked for. -/
inductive RollTimer where
  /-- `runAfter`, with `setTimer`. -/
  | after (delay : Int)
  /-- `runEvery`, with `rollFile`. -/
  | every (interval : Int)
  deriving DecidableEq, Repr

structure LogFile where
  basename_ : Bytes
  rollSize_ : Int
  startOfPeriod_ : Int := 0
  lastRoll_ : Int := 0
  lastFlush_ : Int := 0
  file_ : Option AppendFile := none
  /-- The files that `file_.reset` has closed. -/
  closed : List AppendFile := []
  timers : List RollTimer := []
  /-- The lines whose `append` has returned, in this order. -/
  appended : List Bytes := []
  deriving DecidableEq, Repr

/-- A call of a member function, with the time of the clock. -/
inductive LogFileAction where
  | append (logline : Bytes) (now : Int)
  | setTimer (now : Int)
  | rollFile (now : Int)
  deriving DecidableEq, Repr

namespace LogFile

def kRollPerSeconds_ : Int := 60 * 60 * 24

/-- `dif` of the constructor, where `time` is the time in seconds. -/
def delay (rollTime time : Int) : Int :=
  let now := time.tmod kRollPerSeconds_
  let dif := rollTime - now
  if dif < 0 then dif + kRollPerSeconds_ else dif

section Names

/-! The name of a file: the base name, the local time, the host and the process. -/

variable (getLogFileName : Bytes → Int → Bytes)

def rollFile (s : LogFile) (now : Int) : LogFile × Bool :=
  let filename := getLogFileName s.basename_ now
  let start := now.tdiv kRollPerSeconds_ * kRollPerSeconds_
  if s.lastRoll_ < now then
    ({ s with
      lastRoll_ := now
      lastFlush_ := now
      startOfPeriod_ := start
      file_ := some ⟨filename, []⟩
      closed := s.closed ++ s.file_.toList }, true)
  else (s, false)

/-- The clock is read twice, for the name of the first file and for the delay. -/
def construct (basename : Bytes) (rollSize rollTime opened time : Int) : LogFile :=
  let s := (rollFile getLogFileName { basename_ := basename, rollSize_ := rollSize } opened).1
  { s with timers := s.timers ++ [.after (delay rollTime time)] }

def setTimer (s : LogFile) (now : Int) : LogFile :=
  let s₁ := (rollFile getLogFileName s now).1
  { s₁ with timers := s₁.timers ++ [.every kRollPerSeconds_] }

/-- `append_unlocked`; `none` where `file_` is null. -/
def append (s : LogFile) (logline : Bytes) (now : Int) : Option LogFile := do
  let file ← s.file_
  let file' := file.append logline
  let s₁ := { s with file_ := some file', appended := s.appended ++ [logline] }
  return if s.rollSize_ < file'.writtenBytes then (rollFile getLogFileName s₁ now).1 else s₁

def next (s : LogFile) : LogFileAction → Option LogFile
  | .append logline now => append getLogFileName s logline now
  | .setTimer now => some (setTimer getLogFileName s now)
  | .rollFile now => some (rollFile getLogFileName s now).1

/-- From a constructor that is called after the epoch. -/
def runs : System LogFile LogFileAction where
  init s := ∃ basename rollSize rollTime opened time, 0 < opened ∧
    s = construct getLogFileName basename rollSize rollTime opened time
  step s a s' := next getLogFileName s a = some s'

/-- The start of `AsyncLogging::threadFunc`. -/
def threadFuncOutput (basename_ : Bytes) (rollSize_ rollTime_ timeZone_ opened time : Int) :
    Option LogFile := do
  let shift ← MachineInt.int (timeZone_ * 3600)
  let rollTime ← MachineInt.int (rollTime_ - shift)
  return construct getLogFileName basename_ rollSize_ rollTime opened time

end Names

/-! ## The daily roll -/

/-- The time of the day is what is left of whole days. -/
theorem add_delay_emod (rollTime time : Int) :
    (time + delay rollTime time) % kRollPerSeconds_ = rollTime % kRollPerSeconds_ := by
  have hdays : time.tmod kRollPerSeconds_ + kRollPerSeconds_ * time.tdiv kRollPerSeconds_ = time :=
    Int.tmod_add_mul_tdiv time kRollPerSeconds_
  have hdelay : delay rollTime time % kRollPerSeconds_ =
      (rollTime - time.tmod kRollPerSeconds_) % kRollPerSeconds_ := by
    unfold delay
    dsimp only
    split_ifs
    · exact Int.add_emod_right _ _
    · rfl
  calc (time + delay rollTime time) % kRollPerSeconds_
      = (time + (rollTime - time.tmod kRollPerSeconds_)) % kRollPerSeconds_ := by
        rw [Int.add_emod, hdelay, ← Int.add_emod]
    _ = (rollTime + kRollPerSeconds_ * time.tdiv kRollPerSeconds_) % kRollPerSeconds_ := by
        congr 1
        omega
    _ = rollTime % kRollPerSeconds_ := Int.add_mul_emod_self_left _ _ _

/-- One correction is enough where a day up or down is. -/
theorem delay_range_iff (rollTime time : Int) :
    0 ≤ delay rollTime time ∧ delay rollTime time < kRollPerSeconds_ ↔
      time.tmod kRollPerSeconds_ - kRollPerSeconds_ ≤ rollTime ∧
      rollTime < time.tmod kRollPerSeconds_ + kRollPerSeconds_ := by
  unfold delay
  dsimp only
  generalize time.tmod kRollPerSeconds_ = now
  unfold kRollPerSeconds_
  split_ifs with hdif
  · omega
  · omega

/-- After `delay` seconds the configured time comes for the first time in the time zone. -/
structure NextRoll (rollTime timeZone time delay : Int) : Prop where
  nonneg : 0 ≤ delay
  lt_day : delay < kRollPerSeconds_
  timeOfDay : (time + delay + timeZone * 3600) % kRollPerSeconds_ = rollTime

/-- Whatever the zone, the instant has the configured local time. -/
theorem localTime_delay {rollTime : Int} (hmin : 0 ≤ rollTime) (hmax : rollTime < kRollPerSeconds_)
    (timeZone time : Int) :
    (time + delay (rollTime - timeZone * 3600) time + timeZone * 3600) % kRollPerSeconds_ =
      rollTime := by
  calc (time + delay (rollTime - timeZone * 3600) time + timeZone * 3600) % kRollPerSeconds_
      = (rollTime - timeZone * 3600 + timeZone * 3600) % kRollPerSeconds_ := by
        rw [Int.add_emod, add_delay_emod, ← Int.add_emod]
    _ = rollTime % kRollPerSeconds_ := by rw [sub_add_cancel]
    _ = rollTime := Int.emod_eq_of_lt hmin hmax

theorem nextRoll_iff {rollTime : Int} (hmin : 0 ≤ rollTime) (hmax : rollTime < kRollPerSeconds_)
    (timeZone time : Int) :
    NextRoll rollTime timeZone time (delay (rollTime - timeZone * 3600) time) ↔
      time.tmod kRollPerSeconds_ - kRollPerSeconds_ ≤ rollTime - timeZone * 3600 ∧
      rollTime - timeZone * 3600 < time.tmod kRollPerSeconds_ + kRollPerSeconds_ := by
  rw [← delay_range_iff]
  constructor
  · intro h
    exact ⟨h.nonneg, h.lt_day⟩
  · rintro ⟨hnonneg, hlt⟩
    exact ⟨hnonneg, hlt, localTime_delay hmin hmax timeZone time⟩

section Names

variable {getLogFileName : Bytes → Int → Bytes}

theorem rollFile_timers (s : LogFile) (now : Int) :
    (rollFile getLogFileName s now).1.timers = s.timers := by
  unfold rollFile
  dsimp only
  split_ifs
  · rfl
  · rfl

theorem construct_timers (basename : Bytes) (rollSize rollTime opened time : Int) :
    (construct getLogFileName basename rollSize rollTime opened time).timers =
      [.after (delay rollTime time)] := by
  simp only [construct, rollFile_timers, List.nil_append]

/-- The shifts of the time zones fit into an `int`. -/
theorem threadFuncOutput_eq {rollTime_ timeZone_ : Int} (hmin : 0 ≤ rollTime_)
    (hmax : rollTime_ < 86400) (hwest : -12 ≤ timeZone_) (heast : timeZone_ ≤ 14) (basename_ : Bytes)
    (rollSize_ opened time : Int) :
    threadFuncOutput getLogFileName basename_ rollSize_ rollTime_ timeZone_ opened time =
      some (construct getLogFileName basename_ rollSize_ (rollTime_ - timeZone_ * 3600) opened
        time) := by
  unfold threadFuncOutput
  rw [MachineInt.int_bind (by omega) (by omega), MachineInt.int_bind (by omega) (by omega)]
  rfl

/-- The delay is right where the configured time in UTC is at most a day before the time of the day
and less than a day behind it. -/
theorem dailyRoll_iff {rollTime_ timeZone_ : Int} (hmin : 0 ≤ rollTime_)
    (hmax : rollTime_ < 86400) (hwest : -12 ≤ timeZone_) (heast : timeZone_ ≤ 14) (basename_ : Bytes)
    (rollSize_ opened time : Int) :
    (∃ output delay,
      threadFuncOutput getLogFileName basename_ rollSize_ rollTime_ timeZone_ opened time =
        some output ∧
      output.timers = [.after delay] ∧ NextRoll rollTime_ timeZone_ time delay) ↔
    time.tmod 86400 - 86400 ≤ rollTime_ - timeZone_ * 3600 ∧
      rollTime_ - timeZone_ * 3600 < time.tmod 86400 + 86400 := by
  refine Iff.trans ?_ (nextRoll_iff hmin hmax timeZone_ time)
  rw [threadFuncOutput_eq hmin hmax hwest heast]
  constructor
  · rintro ⟨output, delay, houtput, htimers, hnext⟩
    obtain rfl := Option.some.inj houtput
    rw [construct_timers] at htimers
    cases htimers
    exact hnext
  · intro hnext
    exact ⟨_, _, rfl, construct_timers _ _ _ _ _, hnext⟩

end Names

/-- The roll at ten past one in the afternoon, Chinese time, from noon in UTC on. -/
theorem dailyRoll_iff_config :
    (∃ output delay,
      threadFuncOutput (fun basename _ => basename) [] 1000 47400 8 1577880000 1577880000 =
        some output ∧
      output.timers = [.after delay] ∧ NextRoll 47400 8 1577880000 delay) ↔
    (1577880000 : Int).tmod 86400 - 86400 ≤ 47400 - 8 * 3600 ∧
      47400 - 8 * 3600 < (1577880000 : Int).tmod 86400 + 86400 :=
  dailyRoll_iff (by decide) (by decide) (by decide) (by decide) [] 1000 1577880000 1577880000

/-- At eight in the evening in UTC the next midnight in China is twenty hours away, but the delay is
minus four hours. -/
theorem dailyRoll_midnight :
    ¬ ∃ output delay,
      threadFuncOutput (fun basename _ => basename) [] 1000 0 8 1577908800 1577908800 =
        some output ∧
      output.timers = [.after delay] ∧ NextRoll 0 8 1577908800 delay := by
  rintro ⟨output, delay, houtput, htimers, hnext⟩
  have hdelay : (threadFuncOutput (fun basename _ => basename) [] 1000 0 8 1577908800
      1577908800).map timers = some [.after (-14400)] := by decide
  rw [houtput, Option.map_some, htimers] at hdelay
  cases hdelay
  exact absurd hnext.nonneg (by decide)

/-! ## The files -/

/-- `groups` are the lines of the closed files, and `last` those of `file`, which is open. -/
structure Holds (s : LogFile) (file : AppendFile) (groups : List (List Bytes)) (last : List Bytes) :
    Prop where
  file_ : s.file_ = some file
  closed : s.closed.map AppendFile.contents = groups.map List.flatten
  contents : file.contents = last.flatten
  appended : groups.flatten ++ last = s.appended

/-- Every file consists of whole lines, and no line is missing. -/
def WholeLines (s : LogFile) : Prop := ∃ file groups last, s.Holds file groups last

section Names

variable (getLogFileName : Bytes → Int → Bytes) {s s' : LogFile}

/-- What `rollFile` does to the files. -/
theorem rollFile_cases (s : LogFile) (now : Int) :
    (∃ filename, (rollFile getLogFileName s now).1.file_ = some ⟨filename, []⟩ ∧
      (rollFile getLogFileName s now).1.closed = s.closed ++ s.file_.toList ∧
      (rollFile getLogFileName s now).1.appended = s.appended) ∨
    (rollFile getLogFileName s now).1 = s := by
  unfold rollFile
  dsimp only
  split_ifs
  · exact .inl ⟨_, rfl, rfl, rfl⟩
  · exact .inr rfl

theorem WholeLines.rollFile (h : s.WholeLines) (now : Int) :
    (rollFile getLogFileName s now).1.WholeLines := by
  rcases rollFile_cases getLogFileName s now with
    ⟨filename, hfile, hclosed, happended⟩ | hsame
  · rcases h with ⟨file, groups, last, hs⟩
    refine ⟨_, groups ++ [last], [], hfile, ?_, rfl, ?_⟩
    · simp only [hclosed, hs.file_, Option.toList_some, List.map_append, List.map_cons,
        List.map_nil, hs.closed, hs.contents]
    · calc (groups ++ [last]).flatten ++ []
          = groups.flatten ++ last := by simp
        _ = s.appended := hs.appended
        _ = _ := happended.symm
  · rw [hsame]
    exact h

theorem WholeLines.setTimer (h : s.WholeLines) (now : Int) :
    (setTimer getLogFileName s now).WholeLines := by
  rcases h.rollFile getLogFileName now with ⟨file, groups, last, hs⟩
  exact ⟨file, groups, last, hs.file_, hs.closed, hs.contents, hs.appended⟩

/-- `append` works, and keeps the lines whole, whether it rolls the file or not. -/
theorem WholeLines.append (h : s.WholeLines) (logline : Bytes) (now : Int) :
    ∃ s', append getLogFileName s logline now = some s' ∧ s'.WholeLines := by
  rcases h with ⟨file, groups, last, hs⟩
  have hwritten : WholeLines
      { s with file_ := some (file.append logline), appended := s.appended ++ [logline] } := by
    refine ⟨_, groups, last ++ [logline], rfl, hs.closed, ?_, ?_⟩
    · calc file.contents ++ logline
          = last.flatten ++ logline := by rw [hs.contents]
        _ = (last ++ [logline]).flatten := by simp
    · calc groups.flatten ++ (last ++ [logline])
          = groups.flatten ++ last ++ [logline] := (List.append_assoc _ _ _).symm
        _ = s.appended ++ [logline] := by rw [hs.appended]
  simp only [LogFile.append, hs.file_, Option.bind_eq_bind, Option.bind_some, Option.pure_def]
  refine ⟨_, rfl, ?_⟩
  split_ifs
  · exact hwritten.rollFile getLogFileName now
  · exact hwritten

theorem WholeLines.next (h : s.WholeLines) (a : LogFileAction) :
    ∃ s', next getLogFileName s a = some s' ∧ s'.WholeLines := by
  cases a with
  | append logline now => exact h.append getLogFileName logline now
  | setTimer now => exact ⟨_, rfl, h.setTimer getLogFileName now⟩
  | rollFile now => exact ⟨_, rfl, h.rollFile getLogFileName now⟩

theorem construct_wholeLines (basename : Bytes) (rollSize rollTime time : Int) {opened : Int}
    (hopened : 0 < opened) :
    (construct getLogFileName basename rollSize rollTime opened time).WholeLines := by
  -- the first roll always opens a file
  simp only [construct, LogFile.rollFile, if_pos hopened]
  exact ⟨_, [], [], rfl, rfl, rfl, rfl⟩

/-- Whatever is rolled when, in every run. -/
theorem wholeLines_of_reachable {getLogFileName : Bytes → Int → Bytes}
    (h : (runs getLogFileName).Reachable s) : s.WholeLines := by
  refine System.Reachable.invariant ?_ ?_ h
  · rintro s ⟨basename, rollSize, rollTime, opened, time, hopened, rfl⟩
    exact construct_wholeLines getLogFileName basename rollSize rollTime time hopened
  · intro s a s' hs hstep
    rcases hs.next getLogFileName a with ⟨s₁, hnext, hs₁⟩
    obtain rfl : s₁ = s' := Option.some.inj (hnext.symm.trans hstep)
    exact hs₁

end Names
end LogFile
end Base
end Longky
