import Longky.Base.LogTime

/-!
# Logging — one log line

`Logger` in `base/log/Logging.cpp` and `Logging.h`: the time, the thread, the level and the error are
written by the constructor, then come the items of the statement, and the destructor writes the file
and the line and passes everything to the output.  Each of these is left out if it does not fit.

`line_ends_iff`: when the line ends with a newline.
-/

namespace Longky
namespace Base

open Lib Lib.Numeral Lib.MachineInt Net

/-! ## The source -/

/-- The thread-local numbers of `CurrentThread`. -/
structure CurrentThread where
  t_cacheTid : Int := 0
  t_tidString : Bytes := []
  t_tidStringLength : Int := 6

namespace CurrentThread

def cacheTid (gettid : Int) (th : CurrentThread) : CurrentThread :=
  if th.t_cacheTid = 0 then
    let (t_tidString, length) := snprintf 32 (spacePadded 5 gettid)
    ⟨gettid, t_tidString, length⟩
  else th

def tid (gettid : Int) (th : CurrentThread) : CurrentThread :=
  if th.t_cacheTid = 0 then th.cacheTid gettid else th

end CurrentThread

namespace Logger

inductive LogLevel where
  | TRACE
  | DEBUG
  | INFO
  | WARN
  | ERROR
  | FATAL
  deriving DecidableEq, Repr

def LogLevelName : LogLevel → Bytes
  | .TRACE => Bytes.ofString "[TRACE] "
  | .DEBUG => Bytes.ofString "[DEBUG] "
  | .INFO => Bytes.ofString "[INFO]  "
  | .WARN => Bytes.ofString "[WARN]  "
  | .ERROR => Bytes.ofString "[ERROR] "
  | .FATAL => Bytes.ofString "[FATAL] "

/-- `data_`, up to `size_`. -/
structure SourceFile where
  data_ : Bytes
  size_lt : data_.length < 2 ^ 31

namespace SourceFile

def size_ (file : SourceFile) : Nat := file.data_.length

/-- What is behind the last slash. -/
def construct (filename : Bytes) (h : filename.length < 2 ^ 31) : SourceFile where
  data_ := (filename.reverse.takeWhile (· ≠ 47)).reverse
  size_lt := by
    have hle := (List.takeWhile_prefix (· ≠ 47) (l := filename.reverse)).length_le
    rw [List.length_reverse] at hle ⊢
    omega

def toPiece (file : SourceFile) : Piece where
  piece := ⟨file.data_, file.size_⟩
  min_le := by
    simp only
    omega
  lt_max := by
    have hlt := file.size_lt
    simp only [size_]
    omega
  length_le := le_rfl

end SourceFile

/-- `operator<<(LogStream&, const Logger::SourceFile&)`. -/
def insertSourceFile (s : LogStream) (v : SourceFile) : Option LogStream :=
  s.append v.toPiece.piece.ptr_ v.toPiece.piece.length_

/-- What a statement finds in its process. -/
structure Process where
  globals : Globals
  floats : Floats
  now : Timestamp
  gettid : Int
  errno : Integral.int.Value
  strerror_tl : Int → Bytes

/-- The thread-local variables. -/
structure Thread where
  time : ThreadLocals := {}
  current : CurrentThread := {}

structure Impl where
  time_ : Timestamp
  stream_ : LogStream
  level_ : LogLevel
  line_ : Integral.int.Value
  basename_ : SourceFile

namespace Impl

def insertAll (floats : Floats) (impl : Impl) (items : List Item) : Option Impl :=
  (impl.stream_.insertAll floats items).map fun stream_ => { impl with stream_ }

/-- The text of an error. -/
def errorItems (p : Process) (savedErrno : Integral.int.Value) : List Item :=
  [.cString (some (p.strerror_tl savedErrno.val)), .cString (some (Bytes.ofString " (errno=")),
    .integer .int savedErrno, .cString (some (Bytes.ofString ") "))]

def construct (p : Process) (th : Thread) (memory : Memory kSmallBuffer) (level : LogLevel)
    (savedErrno : Integral.int.Value) (file : SourceFile) (line : Integral.int.Value) :
    Option (Thread × Impl) := do
  let (time, stream_) ← formatTime p.globals p.now th.time (.construct memory)
  let current := th.current.tid p.gettid
  let stream_ ← insertT stream_
    (← T.construct current.t_tidString (toUnsigned current.t_tidStringLength))
  let stream_ ← insertT stream_ (← T.construct (LogLevelName level) 8)
  let impl : Impl := ⟨p.now, stream_, level, line, file⟩
  let impl ← impl.insertAll p.floats (if savedErrno.val ≠ 0 then errorItems p savedErrno else [])
  return (⟨time, current⟩, impl)

def finish (floats : Floats) (impl : Impl) : Option Impl := do
  let stream_ ← impl.stream_.insert floats (.cString (some (Bytes.ofString " - ")))
  let stream_ ← insertSourceFile stream_ impl.basename_
  let stream_ ← stream_.insertAll floats [.char 58, .integer .int impl.line_, .char 10]
  return { impl with stream_ }

end Impl

/-- The constructors of `Logger`, as the statements call them. -/
inductive Statement where
  | plain
  | function (level : LogLevel) (func : Bytes)
  | level (level : LogLevel)
  | error (toAbort : Bool)

def construct (p : Process) (th : Thread) (memory : Memory kSmallBuffer) (file : SourceFile)
    (line : Integral.int.Value) : Statement → Option (Thread × Impl)
  | .plain => Impl.construct p th memory .INFO ⟨0, by decide⟩ file line
  | .function level func => do
      let (th, impl) ← Impl.construct p th memory level ⟨0, by decide⟩ file line
      return (th, ← impl.insertAll p.floats [.cString (some func), .char 32])
  | .level level => Impl.construct p th memory level ⟨0, by decide⟩ file line
  | .error toAbort =>
      Impl.construct p th memory (if toAbort then .FATAL else .ERROR) p.errno file line

/-- What `g_output` is called with, and whether the process ends then. -/
structure Output where
  msg : Bytes
  abort : Bool

/-- `~Logger`. -/
def destroy (floats : Floats) (impl : Impl) : Option Output := do
  let impl ← impl.finish floats
  return ⟨impl.stream_.buffer_.contents, impl.level_ = .FATAL⟩

/-- A whole statement with its items. -/
def log (p : Process) (th : Thread) (memory : Memory kSmallBuffer) (file : SourceFile)
    (line : Integral.int.Value) (statement : Statement) (items : List Item) :
    Option (Thread × Output) := do
  let (th, impl) ← construct p th memory file line statement
  let impl ← impl.insertAll p.floats items
  return (th, ← destroy p.floats impl)

/-! ## When there is space for the newline -/

/-- The space that is left after `" - "`. -/
def afterDash (room : Nat) : Nat := if 3 < room then room - 3 else room

/-- With this space, and this length of the name, there is none left for the newline. -/
def Cramped (room size : Nat) : Prop :=
  afterDash room = size + 1 ∨ afterDash room = size + 2 ∨ afterDash room ≤ size ∧ afterDash room ≤ 2

instance (room size : Nat) : Decidable (Cramped room size) := inferInstanceAs (Decidable (_ ∨ _))

/-- The newline fits, or it is missed and another one happens to be the last byte: of the items, with
nothing written behind them, or of the name. -/
def LineFits (impl : Impl) : Prop :=
  ¬ Cramped impl.stream_.buffer_.avail impl.basename_.size_ ∨
    impl.stream_.buffer_.avail ≤ 1 ∧ impl.stream_.buffer_.contents.getLast? = some 10 ∨
    afterDash impl.stream_.buffer_.avail = impl.basename_.size_ + 1 ∧
      impl.basename_.data_.getLast? = some 10

variable {s s' : LogStream} {floats : Floats}

/-- The space that is left, beside the contents. -/
theorem takes_cases {fits : Prop} {text : Bytes} (h : s.Takes fits text s') :
    fits ∧ s'.buffer_.contents = s.buffer_.contents ++ text ∧
        s'.buffer_.avail = s.buffer_.avail - text.length ∨
      ¬ fits ∧ s'.buffer_.contents = s.buffer_.contents ∧ s'.buffer_.avail = s.buffer_.avail := by
  obtain ⟨hfits, hcontents⟩ | ⟨hfits, rfl⟩ := h
  · refine .inl ⟨hfits, hcontents, ?_⟩
    rw [avail_of_contents hcontents, avail_of_contents (s := s) rfl, List.length_append]
    omega
  · exact .inr ⟨hfits, rfl, rfl⟩

theorem insertSourceFile_spec (s : LogStream) (file : SourceFile) : ∃ s',
    insertSourceFile s file = some s' ∧ s.Takes (file.size_ < s.buffer_.avail) file.data_ s' := by
  obtain ⟨s', hinsert, htakes⟩ := s.takes_append file.toPiece
  refine ⟨s', hinsert, ?_⟩
  have hsize : toSizeT file.toPiece.piece.length_ = file.size_ :=
    file.toPiece.toSizeT_of_nonneg (Int.natCast_nonneg _)
  have htext : file.toPiece.text = file.data_ := List.take_length
  rwa [hsize, htext] at htakes

/-- What is written before the colon. -/
theorem name_spec (floats : Floats) (s : LogStream) (file : SourceFile) : ∃ s₁ s₂,
    s.insert floats (.cString (some (Bytes.ofString " - "))) = some s₁ ∧
    insertSourceFile s₁ file = some s₂ ∧
    (3 < s.buffer_.avail → s₁.buffer_.contents = s.buffer_.contents ++ [32, 45, 32]) ∧
    (s.buffer_.avail ≤ 3 → s₁.buffer_.contents = s.buffer_.contents) ∧
    (file.size_ < afterDash s.buffer_.avail →
      s₂.buffer_.contents = s₁.buffer_.contents ++ file.data_ ∧
        s₂.buffer_.avail = afterDash s.buffer_.avail - file.size_) ∧
    (afterDash s.buffer_.avail ≤ file.size_ →
      s₂.buffer_.contents = s₁.buffer_.contents ∧
        s₂.buffer_.avail = afterDash s.buffer_.avail) := by
  have hdash : Bytes.cStr (Bytes.ofString " - ") = [32, 45, 32] := by decide
  have hfirst := s.takes_appendText (Bytes.cStr (Bytes.ofString " - "))
  obtain ⟨s₂, hsecond, htakes⟩ :=
    insertSourceFile_spec (s.appendText (Bytes.cStr (Bytes.ofString " - "))) file
  refine ⟨_, s₂, rfl, hsecond, ?_⟩
  rw [hdash] at hfirst htakes ⊢
  have hlen : ([32, 45, 32] : Bytes).length = 3 := rfl
  have hsize : file.data_.length = file.size_ := rfl
  unfold afterDash
  rw [hlen] at hfirst
  obtain ⟨hroom, hcontents, havail⟩ | ⟨hroom, hcontents, havail⟩ := takes_cases hfirst
  · rw [if_pos hroom]
    obtain ⟨hname, hcontents', havail'⟩ | ⟨hname, hcontents', havail'⟩ := takes_cases htakes
    · exact ⟨fun _ => hcontents, fun _ => by omega, fun _ => ⟨hcontents', by omega⟩,
        fun _ => by omega⟩
    · exact ⟨fun _ => hcontents, fun _ => by omega, fun _ => by omega,
        fun _ => ⟨hcontents', by omega⟩⟩
  · rw [if_neg hroom]
    obtain ⟨hname, hcontents', havail'⟩ | ⟨hname, hcontents', havail'⟩ := takes_cases htakes
    · exact ⟨fun _ => by omega, fun _ => hcontents, fun _ => ⟨hcontents', by omega⟩,
        fun _ => by omega⟩
    · exact ⟨fun _ => by omega, fun _ => hcontents, fun _ => by omega,
        fun _ => ⟨hcontents', by omega⟩⟩

/-- A number leaves more than one byte, if there has been more. -/
theorem number_spec (s : LogStream) (line : Integral.int.Value) : ∃ s',
    s.formatInteger .int line.val = some s' ∧ (2 ≤ s.buffer_.avail → 2 ≤ s'.buffer_.avail) ∧
    (s.buffer_.avail ≤ 31 → s'.buffer_.contents = s.buffer_.contents ∧
      s'.buffer_.avail = s.buffer_.avail) := by
  have hlen := length_decimal_value line
  have hmax : kMaxNumericSize = 32 := rfl
  obtain ⟨s', hinsert, htakes⟩ := s.takes_formatInteger line
  refine ⟨s', hinsert, ?_⟩
  obtain ⟨hfits, -, havail⟩ | ⟨hfits, hcontents, havail⟩ := takes_cases htakes
  · exact ⟨fun _ => by omega, fun _ => by omega⟩
  · exact ⟨fun _ => by omega, fun _ => ⟨hcontents, havail⟩⟩

/-- What is written from the colon on. -/
theorem line_spec (floats : Floats) (s : LogStream) (line : Integral.int.Value) : ∃ s',
    s.insertAll floats [.char 58, .integer .int line, .char 10] = some s' ∧
    (2 < s.buffer_.avail → s'.buffer_.contents.getLast? = some 10) ∧
    (s.buffer_.avail = 2 → s'.buffer_.contents.getLast? = some 58) ∧
    (s.buffer_.avail ≤ 1 → s'.buffer_.contents = s.buffer_.contents) := by
  have hcolon := s.takes_appendText [58]
  obtain ⟨s₂, hinsert, hmore, hless⟩ := number_spec (s.appendText [58]) line
  have hnewline := s₂.takes_appendText [10]
  have hone : ∀ b : UInt8, [b].length = 1 := fun _ => rfl
  rw [hone] at hcolon hnewline
  refine ⟨s₂.appendText [10], ?_, ?_, ?_, ?_⟩
  · have hformat : (s.appendText [58]).insert floats (.integer .int line) = some s₂ := hinsert
    rw [LogStream.insertAll, List.foldlM_cons, LogStream.insert, Option.bind_eq_bind,
      Option.bind_some, List.foldlM_cons, hformat]
    rfl
  · intro hroom
    obtain ⟨-, -, havail⟩ | ⟨hfits, -⟩ := takes_cases hcolon
    · rw [hone] at havail
      have hleft := hmore (by omega)
      obtain ⟨-, hcontents⟩ | ⟨hfits, -⟩ := hnewline
      · rw [hcontents, List.getLast?_concat]
      · omega
    · omega
  · intro hroom
    obtain ⟨-, hcontents, havail⟩ | ⟨hfits, -⟩ := takes_cases hcolon
    · rw [hone] at havail
      obtain ⟨hcontents', havail'⟩ := hless (by omega)
      obtain ⟨hfits, -⟩ | ⟨-, hsame⟩ := hnewline
      · omega
      · rw [hsame, hcontents', hcontents, List.getLast?_concat]
    · omega
  · intro hroom
    obtain ⟨hfits, -⟩ | ⟨-, hcontents, havail⟩ := takes_cases hcolon
    · omega
    · obtain ⟨hcontents', havail'⟩ := hless (by omega)
      obtain ⟨hfits, -⟩ | ⟨-, hsame⟩ := hnewline
      · omega
      · rw [hsame, hcontents', hcontents]

/-! ## The end of the line -/

theorem afterDash_cases (room : Nat) :
    3 < room ∧ afterDash room = room - 3 ∨ room ≤ 3 ∧ afterDash room = room := by
  unfold afterDash
  split_ifs <;> omega

/-- The last byte of a text that another one has been appended to. -/
theorem getLast?_append_of_ne {xs ys : Bytes} (h : ys ≠ []) :
    (xs ++ ys).getLast? = ys.getLast? := by
  rw [List.getLast?_append, List.getLast?_eq_some_getLast h, Option.some_or]

/-- With one byte left after the dash, it has been written or nothing at all. -/
theorem getLast?_dash {s s₁ : LogStream} (hwritten : 3 < s.buffer_.avail →
      s₁.buffer_.contents = s.buffer_.contents ++ [32, 45, 32])
    (hsame : s.buffer_.avail ≤ 3 → s₁.buffer_.contents = s.buffer_.contents)
    (hone : afterDash s.buffer_.avail ≤ 1) : s₁.buffer_.contents.getLast? = some 10 ↔
      s.buffer_.avail ≤ 1 ∧ s.buffer_.contents.getLast? = some 10 := by
  obtain ⟨hroom, -⟩ | ⟨hroom, hroom'⟩ := afterDash_cases s.buffer_.avail
  · rw [hwritten hroom, getLast?_append_of_ne (by decide)]
    refine iff_of_false (by decide) ?_
    rintro ⟨hle, -⟩
    omega
  · rw [hsame hroom]
    exact ⟨fun h => ⟨by omega, h⟩, fun h => h.2⟩

/-- Before the colon: the space that is left, and the last byte if there is no more than one. -/
theorem name_end (floats : Floats) (s : LogStream) (file : SourceFile) : ∃ s₁ s₂,
    s.insert floats (.cString (some (Bytes.ofString " - "))) = some s₁ ∧
    insertSourceFile s₁ file = some s₂ ∧
    s₂.buffer_.avail = (if file.size_ < afterDash s.buffer_.avail
      then afterDash s.buffer_.avail - file.size_ else afterDash s.buffer_.avail) ∧
    (s₂.buffer_.avail ≤ 1 → (s₂.buffer_.contents.getLast? = some 10 ↔
      s.buffer_.avail ≤ 1 ∧ s.buffer_.contents.getLast? = some 10 ∨
        afterDash s.buffer_.avail = file.size_ + 1 ∧ file.data_.getLast? = some 10)) := by
  obtain ⟨s₁, s₂, hdash, hname, hwritten, hsame, htaken, hleft⟩ := name_spec floats s file
  have hlast := getLast?_dash hwritten hsame
  refine ⟨s₁, s₂, hdash, hname, ?_, fun hone => ?_⟩
  · split_ifs with hfits
    · exact (htaken hfits).2
    · exact (hleft (not_lt.1 hfits)).2
  · rcases lt_or_ge file.size_ (afterDash s.buffer_.avail) with hfits | hfits
    · obtain ⟨hcontents, havail⟩ := htaken hfits
      rw [hcontents]
      by_cases hempty : file.data_ = []
      · have hsize : file.size_ = 0 := by rw [SourceFile.size_, hempty, List.length_nil]
        have hnone : (none : Option UInt8) ≠ some 10 := by decide
        rw [hempty, List.append_nil, hlast (by omega), List.getLast?_nil]
        simp only [hnone, and_false, or_false]
      · have hsize : file.size_ ≠ 0 := by
          rw [SourceFile.size_]
          exact fun h => hempty (List.length_eq_zero_iff.1 h)
        -- a name that has been written is followed by nothing
        rw [getLast?_append_of_ne hempty]
        refine ⟨fun h => .inr ⟨by omega, h⟩, ?_⟩
        rintro (⟨hle, -⟩ | ⟨-, h⟩)
        · have hafter := afterDash_cases s.buffer_.avail
          omega
        · exact h
    · obtain ⟨hcontents, havail⟩ := hleft hfits
      rw [hcontents, hlast (by omega)]
      refine ⟨.inl, ?_⟩
      rintro (h | ⟨heq, -⟩)
      · exact h
      · omega

theorem getLast?_destroy (floats : Floats) (impl : Impl) : ∃ output,
    destroy floats impl = some output ∧
      (output.msg.getLast? = some 10 ↔ LineFits impl) := by
  obtain ⟨s₁, s₂, hdash, hname, havail, hlast⟩ := name_end floats impl.stream_ impl.basename_
  obtain ⟨s₃, hline, hnewline, hcolon, hsame⟩ := line_spec floats s₂ impl.line_
  have hfinish : impl.finish floats = some { impl with stream_ := s₃ } := by
    simp only [Impl.finish, Option.bind_eq_bind, Option.bind_eq_some_iff]
    exact ⟨s₁, hdash, s₂, hname, s₃, hline, rfl⟩
  refine ⟨⟨s₃.buffer_.contents, impl.level_ = .FATAL⟩, ?_, ?_⟩
  · rw [destroy, hfinish]
    rfl
  have hafter := afterDash_cases impl.stream_.buffer_.avail
  unfold LineFits Cramped
  rcases lt_trichotomy s₂.buffer_.avail 2 with hone | htwo | hmore
  · -- neither the colon nor the newline fits
    rw [hsame (by omega), hlast (by omega)]
    refine ⟨.inr, fun h => h.resolve_left ?_⟩
    split_ifs at havail <;> omega
  · -- the colon is the last byte
    rw [hcolon htwo]
    refine iff_of_false (by decide) ?_
    split_ifs at havail <;> omega
  · refine iff_of_true (hnewline hmore) (.inl ?_)
    split_ifs at havail <;> omega

/-! ## Whole statements -/

theorem insertAll_eq (hshort : floats.Short) (impl : Impl) (items : List Item) : ∃ stream_,
    impl.insertAll floats items = some { impl with stream_ } := by
  obtain ⟨stream_, hall, -⟩ := LogStream.insertAll_spec hshort items impl.stream_
  refine ⟨stream_, ?_⟩
  rw [Impl.insertAll, hall, Option.map_some]

theorem insertAll_string (floats : Floats) (impl : Impl) (text : Bytes) :
    impl.insertAll floats [.string text] =
      some { impl with stream_ := impl.stream_.appendText text } := rfl

theorem length_logLevelName (level : LogLevel) : (LogLevelName level).length = 8 := by
  cases level <;> decide

/-- The start of a line without an error, on a thread that has not logged anything. -/
theorem Impl.construct_eq {p : Process} {tz : Int} {time : ThreadLocals}
    (hglobals : p.globals = { timeZone_ := tz })
    (hkept : kept { timeZone_ := tz } p.now.secondsSinceEpoch {} = some time)
    (hlen : time.t_time.length = 17)
    (hpos : 0 ≤ p.now.microSecondsSinceEpoch_.tmod Timestamp.kMicroSecondsPerSecond)
    (htid : (spacePadded 5 p.gettid).length < 32) (memory : Memory kSmallBuffer) (level : LogLevel)
    (file : SourceFile) (line : Integral.int.Value) : ∃ th impl,
    Impl.construct p {} memory level ⟨0, by decide⟩ file line = some (th, impl) ∧
      impl.basename_ = file ∧
      impl.stream_.buffer_.contents.length = 34 + (spacePadded 5 p.gettid).length := by
  obtain ⟨s₁, us, hformat, hcontents, hus⟩ := formatTime_eq memory hkept hlen hpos
  have hlen₁ : s₁.buffer_.contents.length = 26 := by
    rw [hcontents, List.length_append, hlen, hus]
  -- the identifier of the thread has the length that comes with it
  have hcurrent : ({} : CurrentThread).tid p.gettid =
      ⟨p.gettid, spacePadded 5 p.gettid, (spacePadded 5 p.gettid).length⟩ := by
    have htake : (spacePadded 5 p.gettid).take 31 = spacePadded 5 p.gettid :=
      List.take_of_length_le (by omega)
    simp only [CurrentThread.tid, CurrentThread.cacheTid, if_true, snprintf, Nat.reduceSub, htake]
  have hunsigned : toUnsigned (spacePadded 5 p.gettid).length = (spacePadded 5 p.gettid).length := by
    have hself := toUnsigned_eq_self (x := (spacePadded 5 p.gettid).length) (by omega) (by omega)
    omega
  have htext : T.construct (spacePadded 5 p.gettid)
      (toUnsigned (spacePadded 5 p.gettid).length) = some ⟨_, _, hunsigned.symm⟩ :=
    dif_pos hunsigned.symm
  have hname : T.construct (LogLevelName level) 8 = some ⟨_, 8, length_logLevelName level⟩ :=
    dif_pos (length_logLevelName level)
  have hroom₁ := avail_of_contents (s := s₁) rfl
  have hsecond := insertT_eq (s := s₁) (v := ⟨_, _, hunsigned.symm⟩) (by
    simp only
    omega)
  have hcontents₂ : (s₁.appendText (spacePadded 5 p.gettid)).buffer_.contents =
      s₁.buffer_.contents ++ spacePadded 5 p.gettid := FixedBuffer.contents_append (by omega)
  have hroom₂ := avail_of_contents hcontents₂
  rw [List.length_append] at hroom₂
  have hthird := insertT_eq (s := s₁.appendText (spacePadded 5 p.gettid))
    (v := ⟨_, 8, length_logLevelName level⟩) (by
      simp only
      omega)
  have hfits : (LogLevelName level).length <
      (s₁.appendText (spacePadded 5 p.gettid)).buffer_.avail := by
    rw [length_logLevelName]
    omega
  have hcontents₃ := FixedBuffer.contents_append hfits
  refine ⟨⟨time, ⟨p.gettid, spacePadded 5 p.gettid, (spacePadded 5 p.gettid).length⟩⟩,
    ⟨p.now, (s₁.appendText (spacePadded 5 p.gettid)).appendText (LogLevelName level), level, line,
      file⟩, ?_, rfl, ?_⟩
  · simp only [Impl.construct, Option.bind_eq_bind, Option.bind_eq_some_iff, hcurrent]
    rw [hglobals]
    exact ⟨_, hformat, _, htext, _, hsecond, _, hname, _, hthird, _, rfl, rfl⟩
  · rw [LogStream.appendText, hcontents₃, hcontents₂, List.length_append, List.length_append,
      length_logLevelName]
    omega

/-- Whatever the items of a statement are, its line ends as the state before the destructor says. -/
theorem line_ends_iff (p : Process) (hshort : p.floats.Short) (th : Thread)
    (memory : Memory kSmallBuffer) (file : SourceFile) (line : Integral.int.Value)
    (statement : Statement) (items : List Item) {th' : Thread} {impl : Impl}
    (h : construct p th memory file line statement = some (th', impl)) : ∃ before output,
    impl.insertAll p.floats items = some before ∧
      log p th memory file line statement items = some (th', output) ∧
      (output.msg.getLast? = some 10 ↔ LineFits before) := by
  obtain ⟨stream_, hall⟩ := insertAll_eq hshort impl items
  obtain ⟨output, hdestroy, hends⟩ := getLast?_destroy p.floats { impl with stream_ }
  refine ⟨_, output, hall, ?_, hends⟩
  simp only [log, Option.bind_eq_bind, Option.bind_eq_some_iff]
  exact ⟨_, h, _, hall, output, hdestroy, rfl⟩

/-! ## A line -/

/-- Noon of the first of January 2020. -/
def noon : Process where
  globals := { timeZone_ := 8 }
  floats := ⟨fun _ => 0, fun _ => [48]⟩
  now := ⟨1577880000000000⟩
  gettid := 1000
  errno := ⟨0, by decide⟩
  strerror_tl := fun _ => Bytes.ofString "Success"

def mainFile : SourceFile := .construct (Bytes.ofString "webServer/main.cc") (by decide)

/-- Memory of zeros. -/
def zeros : Memory kSmallBuffer := ⟨List.replicate kSmallBuffer 0, List.length_replicate⟩

theorem construct_noon : ∃ th impl,
    construct noon {} zeros mainFile ⟨1, by decide⟩ .plain = some (th, impl) ∧
      impl.basename_ = mainFile ∧ impl.stream_.buffer_.contents.length = 39 := by
  have hkept : kept { timeZone_ := 8 } (Timestamp.secondsSinceEpoch ⟨1577880000000000⟩) {} =
      some ⟨Bytes.ofString "20200101 20:00:00", 1577880000⟩ := by decide
  have hlen : (Bytes.ofString "20200101 20:00:00").length = 17 := by decide
  have htid : (spacePadded 5 1000).length = 5 := by decide
  obtain ⟨th, impl, hconstruct, hfile, hcontents⟩ := Impl.construct_eq (p := noon) rfl hkept hlen
    (by decide) (by decide) zeros .INFO mainFile ⟨1, by decide⟩
  refine ⟨th, impl, hconstruct, hfile, ?_⟩
  rw [hcontents]
  show 34 + (spacePadded 5 1000).length = 39
  rw [htid]

theorem line_ends_noon : ∃ th impl before output,
    construct noon {} zeros mainFile ⟨1, by decide⟩ .plain = some (th, impl) ∧
    impl.insertAll noon.floats [.bool true] = some before ∧
      log noon {} zeros mainFile ⟨1, by decide⟩ .plain [.bool true] = some (th, output) ∧
      (output.msg.getLast? = some 10 ↔ LineFits before) := by
  obtain ⟨th, impl, hconstruct, -⟩ := construct_noon
  have hshort : noon.floats.Short := fun _ => by simp [noon, kMaxNumericSize]
  obtain ⟨before, output, h⟩ :=
    line_ends_iff noon hshort {} zeros mainFile ⟨1, by decide⟩ .plain [.bool true] hconstruct
  exact ⟨th, impl, before, output, hconstruct, h⟩

/-- A text that fills the buffer up to one byte is the end of the line. -/
theorem not_lineFits {impl : Impl} {text : Bytes}
    (hroom : impl.stream_.buffer_.avail = text.length + 1) (hne : text ≠ [])
    (hlast : text.getLast? ≠ some 10) (hsize : 0 < impl.basename_.size_) :
    ¬ LineFits { impl with stream_ := impl.stream_.appendText text } := by
  have hcontents : (impl.stream_.appendText text).buffer_.contents =
      impl.stream_.buffer_.contents ++ text := FixedBuffer.contents_append (by omega)
  have havail : (impl.stream_.appendText text).buffer_.avail = 1 := by
    have hbefore := avail_of_contents (s := impl.stream_) rfl
    rw [avail_of_contents hcontents, List.length_append]
    omega
  have hafter : afterDash 1 = 1 := rfl
  simp only [LineFits, Cramped, havail, hafter, hcontents, getLast?_append_of_ne hne]
  rintro (hcramped | ⟨-, hnewline⟩ | ⟨hone, -⟩)
  · omega
  · exact hlast hnewline
  · omega

theorem line_full : ∃ th output,
    log noon {} zeros mainFile ⟨1, by decide⟩ .plain [.string (List.replicate 3960 120)] =
      some (th, output) ∧ output.msg.getLast? ≠ some 10 := by
  obtain ⟨th, impl, hconstruct, hfile, hlen⟩ := construct_noon
  have hroom := avail_of_contents (s := impl.stream_) rfl
  rw [hlen] at hroom
  have hsize : impl.basename_.size_ = 7 := by
    rw [hfile]
    decide
  have hall := insertAll_string noon.floats impl (List.replicate 3960 120)
  have hroom' : impl.stream_.buffer_.avail = (List.replicate 3960 (120 : UInt8)).length + 1 := by
    rw [hroom, List.length_replicate]
  have hends := not_lineFits hroom'
    (fun hnil => absurd ((List.replicate_eq_nil_iff (120 : UInt8)).1 hnil) (by decide))
    (by rw [List.getLast?_replicate, if_neg (by decide)]; decide) (by omega)
  obtain ⟨output, hdestroy, hiff⟩ := getLast?_destroy noon.floats
    { impl with stream_ := impl.stream_.appendText (List.replicate 3960 120) }
  refine ⟨th, output, ?_, fun hnewline => hends (hiff.1 hnewline)⟩
  simp only [log, Option.bind_eq_bind, Option.bind_eq_some_iff]
  exact ⟨_, hconstruct, _, hall, output, hdestroy, rfl⟩

end Logger
end Base
end Longky
