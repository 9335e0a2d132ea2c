import Longky.Base.Convert
import Longky.Net.Buffer

/-!
# LogStream — the text of one log line

`LogStream` in `base/log/LogStream.h` and `LogStream.cpp`.  Texts are appended whole or not at all;
numbers are written in place, before their length is known, once there are `kMaxNumericSize` bytes
left.

`stream_sound`: nothing is written outside the buffer, whatever is streamed, and the contents are
the texts of the items that have been accepted.
-/

namespace Longky
namespace Base

open Lib Lib.Numeral Net

def kMaxNumericSize : Nat := 32

/-! ## The source -/

/-- `snprintf` to a position: what does not fit into `n` bytes is cut off, and the result has the
length of the whole text. -/
def Memory.snprintf {size : Nat} (mem : Memory size) (pos n : Nat) (text : Bytes) :
    Option (Memory size × Nat) :=
  (mem.write pos (text.take (n - 1) ++ [0])).map (·, text.length)

/-- A pointer with a length of type `int`, which is not longer than what is there. -/
structure Piece where
  piece : StringPiece
  min_le : -2 ^ 31 ≤ piece.length_
  lt_max : piece.length_ < 2 ^ 31
  length_le : piece.length_ ≤ piece.ptr_.length

/-- `buf_`, up to `length_`. -/
structure Fmt where
  data : Bytes
  length_lt : data.length < 32

/-- The assertion of the constructor. -/
def Fmt.construct (text : Bytes) : Option Fmt :=
  if h : text.length < 32 then some ⟨text, h⟩ else none

/-- The data with its length. -/
def Fmt.toPiece (v : Fmt) : Piece where
  piece := ⟨v.data, v.data.length⟩
  min_le := by
    simp only
    omega
  lt_max := by
    have hlen := v.length_lt
    simp only
    omega
  length_le := le_rfl

namespace FixedBuffer

variable {size : Nat}

/-- `append(buf, len)`, which reads `len` bytes only if they are appended. -/
def appendData (b : FixedBuffer size) (data : Bytes) (len : Nat) : Option (FixedBuffer size) :=
  if len < b.avail then
    if len ≤ data.length then some (b.append (data.take len)) else none
  else some b

/-- `toStringPiece()`. -/
def toPiece (b : FixedBuffer kSmallBuffer) : Piece where
  piece := ⟨b.data_.1, b.cur_⟩
  min_le := by
    simp only
    omega
  lt_max := by
    have hle := b.cur_le
    simp only [kSmallBuffer] at hle ⊢
    omega
  length_le := by
    have hle := b.cur_le
    simp only [b.data_.2]
    omega

end FixedBuffer

/-- The type a number is formatted in. -/
def Integral.formatted : Integral → Integral
  | .short => .int
  | .unsignedShort => .unsignedInt
  | T => T

/-- The overloads of `operator<<` with their arguments. -/
inductive Item where
  | bool (v : Bool)
  | integer (T : Integral) (v : T.Value)
  /-- `const void*`. -/
  | pointer (v : Integral.unsignedLong.Value)
  | float (v : BitVec 32)
  | double (v : BitVec 64)
  | char (v : UInt8)
  /-- `const char*` and `const unsigned char*`, which can be null. -/
  | cString (str : Option Bytes)
  | string (v : Bytes)
  | stringPiece (v : Piece)
  | buffer (v : FixedBuffer kSmallBuffer)
  | fmt (v : Fmt)

/-- What the platform makes of floating-point numbers. -/
structure Floats where
  toDouble : BitVec 32 → BitVec 64
  /-- The text of `"%.12g"`. -/
  format : BitVec 64 → Bytes

structure LogStream where
  buffer_ : FixedBuffer kSmallBuffer

namespace LogStream

def construct (memory : Memory kSmallBuffer) : LogStream := ⟨.construct memory⟩

/-- `buffer_.append` of a text. -/
def appendText (s : LogStream) (text : Bytes) : LogStream := ⟨s.buffer_.append text⟩

/-- `append(const char* data, int len)`, whose length becomes a `size_t`. -/
def append (s : LogStream) (data : Bytes) (len : Int) : Option LogStream :=
  (s.buffer_.appendData data (toSizeT len)).map LogStream.mk

/-- What has been stored through `current()` is added. -/
def added (s : LogStream) (stored : Option (Memory kSmallBuffer × Nat)) : Option LogStream := do
  let (data, len) ← stored
  let b ← (s.buffer_.withData data).add len
  return ⟨b⟩

def formatInteger (s : LogStream) (T : Integral) (v : Int) : Option LogStream :=
  if kMaxNumericSize ≤ s.buffer_.avail then
    s.added (convert T s.buffer_.data_ s.buffer_.current v)
  else some s

def formatPointer (s : LogStream) (v : Int) : Option LogStream :=
  if kMaxNumericSize ≤ s.buffer_.avail then
    let buf := s.buffer_.current
    s.added do
      let data ← s.buffer_.data_.write buf [48]
      let data ← data.write (buf + 1) [120]
      let (data, len) ← convertHex data (buf + 2) v
      return (data, len + 2)
  else some s

def formatDouble (s : LogStream) (text : Bytes) : Option LogStream :=
  if kMaxNumericSize ≤ s.buffer_.avail then
    s.added (s.buffer_.data_.snprintf s.buffer_.current kMaxNumericSize text)
  else some s

/-- `operator<<`. -/
def insert (floats : Floats) (s : LogStream) : Item → Option LogStream
  | .bool v => some (s.appendText (if v then [49] else [48]))
  | .integer T v => s.formatInteger T.formatted v.val
  | .pointer v => s.formatPointer v.val
  | .float v => s.formatDouble (floats.format (floats.toDouble v))
  | .double v => s.formatDouble (floats.format v)
  | .char v => some (s.appendText [v])
  | .cString none => some (s.appendText (Bytes.ofString "(null)"))
  | .cString (some str) => some (s.appendText (Bytes.cStr str))
  | .string v => some (s.appendText v)
  | .stringPiece v => s.append v.piece.ptr_ v.piece.length_
  | .buffer v => s.append v.toPiece.piece.ptr_ v.toPiece.piece.length_
  | .fmt v => s.append v.toPiece.piece.ptr_ v.toPiece.piece.length_

def insertAll (floats : Floats) (s : LogStream) (items : List Item) : Option LogStream :=
  items.foldlM (insert floats) s

end LogStream

/-! ## What is to be seen of the items -/

namespace Piece

/-- The bytes of the piece. -/
def text (p : Piece) : Bytes := p.piece.ptr_.take p.piece.length_.toNat

end Piece

namespace Item

/-- The full text of an item. -/
def text (floats : Floats) : Item → Bytes
  | .bool v => if v then [49] else [48]
  | .integer _ v => decimal v.val
  | .pointer v => [48, 120] ++ upperHex v.val.natAbs
  | .float v => floats.format (floats.toDouble v)
  | .double v => floats.format v
  | .char v => [v]
  | .cString none => Bytes.ofString "(null)"
  | .cString (some str) => Bytes.cStr str
  | .string v => v
  | .stringPiece v => v.text
  | .buffer v => v.contents
  | .fmt v => v.data

/-- Numbers are written in place. -/
def numeric : Item → Bool
  | .integer _ _ | .pointer _ | .float _ | .double _ => true
  | _ => false

/-- The length that is compared with the space left.  A negative length is a very large one. -/
def size (floats : Floats) : Item → Nat
  | .stringPiece v => toSizeT v.piece.length_
  | item => (item.text floats).length

/-- The tests for the space that is left. -/
def Fits (floats : Floats) (room : Nat) (item : Item) : Prop :=
  if item.numeric then kMaxNumericSize ≤ room else item.size floats < room

instance (floats : Floats) (room : Nat) (item : Item) : Decidable (item.Fits floats room) :=
  inferInstanceAs (Decidable (if item.numeric then _ else _))

/-- The items that are accepted once `used` bytes have been written. -/
def accepted (floats : Floats) (used : Nat) : List Item → List Item
  | [] => []
  | item :: items =>
      if item.Fits floats (kSmallBuffer - used) then
        item :: accepted floats (used + (item.text floats).length) items
      else accepted floats used items

end Item

/-- What is assumed of `snprintf`. -/
def Floats.Short (floats : Floats) : Prop := ∀ v, (floats.format v).length < kMaxNumericSize

/-! ## One item -/

namespace Piece

/-- A length that is not negative passes through `size_t`. -/
theorem toSizeT_of_nonneg (p : Piece) (h : 0 ≤ p.piece.length_) :
    toSizeT p.piece.length_ = p.piece.length_.toNat := by
  have hmax := p.lt_max
  unfold toSizeT
  omega

theorem le_toSizeT_of_neg (p : Piece) (h : p.piece.length_ < 0) :
    2 ^ 63 ≤ toSizeT p.piece.length_ := by
  have hmin := p.min_le
  unfold toSizeT
  omega

end Piece

theorem FixedBuffer.toSizeT_toPiece (b : FixedBuffer kSmallBuffer) :
    toSizeT b.toPiece.piece.length_ = b.contents.length := by
  rw [b.toPiece.toSizeT_of_nonneg (Int.natCast_nonneg _), b.length_contents]
  rfl

theorem FixedBuffer.text_toPiece (b : FixedBuffer kSmallBuffer) : b.toPiece.text = b.contents := rfl

theorem Fmt.toSizeT_toPiece (v : Fmt) : toSizeT v.toPiece.piece.length_ = v.data.length :=
  v.toPiece.toSizeT_of_nonneg (Int.natCast_nonneg _)

theorem Fmt.text_toPiece (v : Fmt) : v.toPiece.text = v.data := List.take_length

namespace LogStream

variable {s : LogStream} {floats : Floats}

theorem avail_eq (s : LogStream) : s.buffer_.avail = kSmallBuffer - s.buffer_.length := rfl

/-- An item has been appended in full, or nothing has changed. -/
def Takes (s : LogStream) (fits : Prop) (text : Bytes) (s' : LogStream) : Prop :=
  fits ∧ s'.buffer_.contents = s.buffer_.contents ++ text ∨ ¬ fits ∧ s' = s

theorem takes_appendText (s : LogStream) (text : Bytes) :
    s.Takes (text.length < s.buffer_.avail) text (s.appendText text) := by
  by_cases hfits : text.length < s.buffer_.avail
  · exact .inl ⟨hfits, FixedBuffer.contents_append hfits⟩
  · refine .inr ⟨hfits, ?_⟩
    rw [appendText, FixedBuffer.append_of_not_lt hfits]

theorem takes_append (s : LogStream) (p : Piece) : ∃ s',
    s.append p.piece.ptr_ p.piece.length_ = some s' ∧
      s.Takes (toSizeT p.piece.length_ < s.buffer_.avail) p.text s' := by
  by_cases hfits : toSizeT p.piece.length_ < s.buffer_.avail
  · -- a negative length would not have fitted
    have hnonneg : 0 ≤ p.piece.length_ := by
      by_contra hneg
      have hlarge := p.le_toSizeT_of_neg (by omega)
      have hsmall : s.buffer_.avail ≤ kSmallBuffer := Nat.sub_le _ _
      have hsize : kSmallBuffer = 4000 := rfl
      omega
    have hlen := p.toSizeT_of_nonneg hnonneg
    have hle : toSizeT p.piece.length_ ≤ p.piece.ptr_.length := by
      have := p.length_le
      omega
    have htext : p.text.length = toSizeT p.piece.length_ := by
      rw [Piece.text, List.length_take, ← hlen, min_eq_left hle]
    refine ⟨s.appendText p.text, ?_, .inl ⟨hfits, ?_⟩⟩
    · rw [append, FixedBuffer.appendData, if_pos hfits, if_pos hle, Option.map_some, hlen]
      rfl
    · exact FixedBuffer.contents_append (by rwa [htext])
  · refine ⟨s, ?_, .inr ⟨hfits, rfl⟩⟩
    rw [append, FixedBuffer.appendData, if_neg hfits]
    rfl

/-- A number that has been stored in place with a NUL behind it. -/
theorem takes_added {text : Bytes} {stored : Option (Memory kSmallBuffer × Nat)}
    (hlen : text.length < kMaxNumericSize)
    (hstored : stored =
      (s.buffer_.data_.write s.buffer_.current (text ++ [0])).map (·, text.length)) :
    ∃ s', (if kMaxNumericSize ≤ s.buffer_.avail then s.added stored else some s) = some s' ∧
      s.Takes (kMaxNumericSize ≤ s.buffer_.avail) text s' := by
  by_cases hroom : kMaxNumericSize ≤ s.buffer_.avail
  · have hfits : text.length < s.buffer_.avail := by omega
    obtain ⟨data, b, hwrite, hadd, hcontents⟩ := FixedBuffer.add_written hfits 0
    refine ⟨⟨b⟩, ?_, .inl ⟨hroom, hcontents⟩⟩
    rw [if_pos hroom, hstored, hwrite, Option.map_some, added]
    simp only [Option.bind_eq_bind, Option.bind_some, hadd]
    rfl
  · exact ⟨s, if_neg hroom, .inr ⟨hroom, rfl⟩⟩

theorem holds_formatted {T : Integral} {x : Int} (h : T.Holds x) : T.formatted.Holds x := by
  cases T with
  | short =>
      have hmin : Integral.int.min ≤ Integral.short.min := by decide
      have hmax : Integral.short.max ≤ Integral.int.max := by decide
      exact ⟨hmin.trans h.1, h.2.trans hmax⟩
  | unsignedShort =>
      have hmax : Integral.unsignedShort.max ≤ Integral.unsignedInt.max := by decide
      exact ⟨h.1, h.2.trans hmax⟩
  | _ => exact h

theorem takes_formatInteger (s : LogStream) {T : Integral} (v : T.Value) : ∃ s',
    s.formatInteger T.formatted v.val = some s' ∧
      s.Takes (kMaxNumericSize ≤ s.buffer_.avail) (decimal v.val) s' := by
  have hlen := length_decimal_value v
  have hmax : kMaxNumericSize = 32 := rfl
  exact takes_added (by omega) (convert_eq _ _ (holds_formatted v.holds))

/-- The prefix is stored first, and the digits behind it. -/
theorem takes_formatPointer (s : LogStream) (v : Integral.unsignedLong.Value) : ∃ s',
    s.formatPointer v.val = some s' ∧ s.Takes (kMaxNumericSize ≤ s.buffer_.avail)
      ([48, 120] ++ upperHex v.val.natAbs) s' := by
  have hlen := length_upperHex_value v
  have hmax : kMaxNumericSize = 32 := rfl
  have hshort : ([48, 120] ++ upperHex v.val.natAbs).length < kMaxNumericSize := by
    rw [List.length_append, List.length_cons, List.length_singleton]
    omega
  have hpieces : [48, 120] ++ upperHex v.val.natAbs ++ [0] =
      [48] ++ ([120] ++ (upperHex v.val.natAbs ++ [0])) := rfl
  refine takes_added hshort ?_
  -- if one of the three writes leaves the memory, so does the whole text
  rw [hpieces, Memory.write_append]
  cases s.buffer_.data_.write s.buffer_.current [48] with
  | none => rfl
  | some data =>
      simp only [Option.bind_eq_bind, Option.bind_some, List.length_singleton,
        data.write_append (s.buffer_.current + 1) [120]]
      cases data.write (s.buffer_.current + 1) [120] with
      | none => rfl
      | some data =>
          simp only [Option.bind_some, convertHex_eq _ _ v.holds, Nat.add_assoc, Nat.reduceAdd]
          cases data.write (s.buffer_.current + 2) (upperHex v.val.natAbs ++ [0]) with
          | none => rfl
          | some data =>
              rw [Option.map_some, Option.map_some, Option.bind_some, List.length_append,
                Nat.add_comm]
              rfl

theorem takes_formatDouble (s : LogStream) {text : Bytes} (h : text.length < kMaxNumericSize) :
    ∃ s', s.formatDouble text = some s' ∧
      s.Takes (kMaxNumericSize ≤ s.buffer_.avail) text s' := by
  refine takes_added h ?_
  rw [Memory.snprintf, List.take_of_length_le (by omega)]

/-- The step lemma: an item is taken in full, or not at all. -/
theorem takes_insert (hshort : floats.Short) (s : LogStream) (item : Item) : ∃ s',
    s.insert floats item = some s' ∧
      s.Takes (item.Fits floats s.buffer_.avail) (item.text floats) s' := by
  cases item with
  | bool v => exact ⟨_, rfl, s.takes_appendText _⟩
  | integer T v => exact s.takes_formatInteger v
  | pointer v => exact s.takes_formatPointer v
  | float v => exact s.takes_formatDouble (hshort _)
  | double v => exact s.takes_formatDouble (hshort _)
  | char v => exact ⟨_, rfl, s.takes_appendText _⟩
  | cString str =>
      cases str with
      | none => exact ⟨_, rfl, s.takes_appendText _⟩
      | some str => exact ⟨_, rfl, s.takes_appendText _⟩
  | string v => exact ⟨_, rfl, s.takes_appendText _⟩
  | stringPiece v => exact s.takes_append v
  | buffer v =>
      obtain ⟨s', hinsert, htakes⟩ := s.takes_append v.toPiece
      refine ⟨s', hinsert, ?_⟩
      rwa [v.toSizeT_toPiece, v.text_toPiece] at htakes
  | fmt v =>
      obtain ⟨s', hinsert, htakes⟩ := s.takes_append v.toPiece
      refine ⟨s', hinsert, ?_⟩
      rwa [v.toSizeT_toPiece, v.text_toPiece] at htakes

/-! ## All items -/

/-- The run lemma: the texts of the accepted items follow what was there. -/
theorem insertAll_spec (hshort : floats.Short) (items : List Item) (s : LogStream) : ∃ s',
    s.insertAll floats items = some s' ∧ s'.buffer_.contents = s.buffer_.contents ++
      (Item.accepted floats s.buffer_.length items).flatMap (Item.text floats) := by
  induction items generalizing s with
  | nil => exact ⟨s, rfl, (List.append_nil _).symm⟩
  | cons item items ih =>
      obtain ⟨s₁, hinsert, htakes⟩ := takes_insert hshort s item
      obtain ⟨s₂, hall, hcontents⟩ := ih s₁
      refine ⟨s₂, ?_, ?_⟩
      · rw [insertAll, List.foldlM_cons, hinsert]
        exact hall
      · rw [avail_eq] at htakes
        obtain ⟨hfits, hgrown⟩ | ⟨hfits, rfl⟩ := htakes
        · -- the position has moved by the length of the text
          have hused : s₁.buffer_.length = s.buffer_.length + (item.text floats).length := by
            have hlen := congrArg List.length hgrown
            rwa [List.length_append, FixedBuffer.length_contents,
              FixedBuffer.length_contents] at hlen
          rw [hcontents, hgrown, hused, Item.accepted, if_pos hfits, List.flatMap_cons,
            List.append_assoc]
        · rw [hcontents, Item.accepted, if_neg hfits]

/-- No write leaves the buffer, and it holds what has been accepted. -/
theorem stream_sound (floats : Floats) (hshort : floats.Short) (memory : Memory kSmallBuffer)
    (items : List Item) : ∃ s, (construct memory).insertAll floats items = some s ∧
      s.buffer_.length ≤ kSmallBuffer ∧
      s.buffer_.contents = (Item.accepted floats 0 items).flatMap (Item.text floats) := by
  obtain ⟨s, hall, hcontents⟩ := insertAll_spec hshort items (construct memory)
  refine ⟨s, hall, s.buffer_.cur_le, ?_⟩
  rw [hcontents, FixedBuffer.contents_eq_nil rfl, List.nil_append]
  rfl

/-- A platform on which every floating-point number looks the same. -/
def zeroFloats : Floats := ⟨fun _ => 0, fun _ => [48]⟩

/-- Items for the last 40 bytes: the numbers stop when 31 are left, which a text of 31 bytes does not
fit into, and a character does. -/
def lastBytes : List Item :=
  [.string (List.replicate 3960 120), .integer .int ⟨-42, by decide⟩, .pointer ⟨255, by decide⟩,
    .double 0, .integer .unsignedShort ⟨7, by decide⟩, .double 0,
    .string (List.replicate 31 121), .integer .int ⟨1, by decide⟩, .char 122]

/-- What is taken of them. -/
def lastContents : Bytes := List.replicate 3960 120 ++ Bytes.ofString "-420xFF07z"

theorem stream_sound_lastBytes : ∃ s,
    (construct ⟨List.replicate kSmallBuffer 0, List.length_replicate⟩).insertAll zeroFloats
        lastBytes = some s ∧
      s.buffer_.length ≤ kSmallBuffer ∧ s.buffer_.contents = lastContents := by
  have hshort : zeroFloats.Short := fun _ => by simp [zeroFloats, kMaxNumericSize]
  obtain ⟨s, hall, hlength, hcontents⟩ := stream_sound zeroFloats hshort
    ⟨List.replicate kSmallBuffer 0, List.length_replicate⟩ lastBytes
  have htexts : (Item.accepted zeroFloats 0 lastBytes).flatMap (Item.text zeroFloats) =
      lastContents := by
    decide +kernel
  exact ⟨s, hall, hlength, hcontents.trans htexts⟩

end LogStream

end Base
end Longky
