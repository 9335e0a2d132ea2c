import Longky.Lib.Storage
import Longky.Lib.Bytes

/-!
# Buffer — the reactor's byte buffer

`netLayer/Buffer.h`: a vector of bytes with two indices,

```
+-------------------+------------------+------------------+
| prependable bytes |  readable bytes  |  writable bytes  |
+-------------------+------------------+------------------+
0      <=      readerIndex_   <=   writerIndex_    <=    size
```

Every function below follows its source function.  The result `none` means that one of the
function's `assert`s failed (or that it would have read past the vector); the `assert`s are kept
where the source has them, also those inside `makeSpace` and `ensureWritableBytes`.

The module then states the representation invariant `Buffer.Inv` and proves, one lemma for each
function, what the function does to the readable bytes.
-/

namespace Longky
namespace Net

open Lib Lib.Storage

/-- `StringPiece`: the memory from `ptr_` on, and a length of C++ type `int`. -/
structure StringPiece where
  ptr_ : Bytes
  length_ : Int
  deriving DecidableEq, Repr

/-- `static_cast<int>` of a `size_t`. -/
def toInt32 (n : Nat) : Int :=
  (n : Int).bmod (2 ^ 32)

/-- The implicit conversion of an `int` to `size_t`. -/
def toSizeT (i : Int) : Nat :=
  (i % 2 ^ 64).toNat

structure Buffer where
  buffer_ : Bytes
  readerIndex_ : Nat
  writerIndex_ : Nat
  deriving DecidableEq, Repr

namespace Buffer

/-! ## The functions of `Buffer.h` -/

def kCheapPrepend : Nat := 8

def kInitialSize : Nat := 1024

/-- The constructor `Buffer(initialSize)`; the vector is value-initialised. -/
def construct (initialSize : Nat) : Buffer :=
  { buffer_ := List.replicate (kCheapPrepend + initialSize) 0
    readerIndex_ := kCheapPrepend
    writerIndex_ := kCheapPrepend }

def readableBytes (b : Buffer) : Nat :=
  b.writerIndex_ - b.readerIndex_

def writableBytes (b : Buffer) : Nat :=
  b.buffer_.length - b.writerIndex_

def prependableBytes (b : Buffer) : Nat :=
  b.readerIndex_

/-- The bytes in `[peek(), beginWrite())`. -/
def readable (b : Buffer) : Bytes :=
  slice b.buffer_ b.readerIndex_ b.writerIndex_

def toStringPiece (b : Buffer) : StringPiece :=
  { ptr_ := b.buffer_.drop b.readerIndex_
    length_ := toInt32 b.readableBytes }

def retrieveAll (b : Buffer) : Buffer :=
  { b with readerIndex_ := kCheapPrepend, writerIndex_ := kCheapPrepend }

def retrieve (b : Buffer) (len : Nat) : Option Buffer := do
  guard (len ≤ b.readableBytes)
  if len < b.readableBytes then
    return { b with readerIndex_ := b.readerIndex_ + len }
  else
    return b.retrieveAll

/-- `end` is a pointer into the vector; here it is an index. -/
def retrieveUntil (b : Buffer) (endIndex : Nat) : Option Buffer := do
  guard (b.readerIndex_ ≤ endIndex)
  guard (endIndex ≤ b.writerIndex_)
  b.retrieve (endIndex - b.readerIndex_)

def retrieveAsString (b : Buffer) (len : Nat) : Option (Bytes × Buffer) := do
  guard (len ≤ b.readableBytes)
  let result := slice b.buffer_ b.readerIndex_ (b.readerIndex_ + len)
  let b' ← b.retrieve len
  return (result, b')

def retrieveAllAsString (b : Buffer) : Option (Bytes × Buffer) :=
  b.retrieveAsString b.readableBytes

def hasWritten (b : Buffer) (len : Nat) : Option Buffer := do
  guard (len ≤ b.writableBytes)
  return { b with writerIndex_ := b.writerIndex_ + len }

def unwrite (b : Buffer) (len : Nat) : Option Buffer := do
  guard (len ≤ b.readableBytes)
  return { b with writerIndex_ := b.writerIndex_ - len }

def makeSpace (b : Buffer) (len : Nat) : Option Buffer := do
  if b.writableBytes + b.prependableBytes < len + kCheapPrepend then
    -- grow; nothing moves, also when the space in front of the reader would help
    return { b with buffer_ := resize b.buffer_ (b.writerIndex_ + len) 0 }
  else
    -- move readable data to the front, make space inside buffer
    guard (kCheapPrepend < b.readerIndex_)
    let readable := b.readableBytes
    let b' : Buffer :=
      { buffer_ := copyWithin b.buffer_ b.readerIndex_ kCheapPrepend readable
        readerIndex_ := kCheapPrepend
        writerIndex_ := kCheapPrepend + readable }
    guard (readable = b'.readableBytes)
    return b'

def ensureWritableBytes (b : Buffer) (len : Nat) : Option Buffer := do
  let b' ← if b.writableBytes < len then b.makeSpace len else some b
  guard (len ≤ b'.writableBytes)
  return b'

/-- Bytes stored through the pointer `beginWrite()`, by `std::copy` or by a client. -/
def writeAtEnd (b : Buffer) (data : Bytes) : Buffer :=
  { b with buffer_ := overwrite b.buffer_ b.writerIndex_ data }

/-- `append(data, len)`. -/
def append (b : Buffer) (data : Bytes) : Option Buffer := do
  let b' ← b.ensureWritableBytes data.length
  (b'.writeAtEnd data).hasWritten data.length

/-- `append(const StringPiece&)`: the piece's length goes through `int` to `size_t`.  A negative one
becomes larger than any vector, and nothing is appended. -/
def appendPiece (b : Buffer) (str : StringPiece) : Option Buffer := do
  guard (toSizeT str.length_ ≤ str.ptr_.length)
  b.append (str.ptr_.take (toSizeT str.length_))

def prepend (b : Buffer) (data : Bytes) : Option Buffer := do
  guard (data.length ≤ b.prependableBytes)
  let readerIndex := b.readerIndex_ - data.length
  return { b with readerIndex_ := readerIndex, buffer_ := overwrite b.buffer_ readerIndex data }

/-- `shrink(reserve)`; the final `swap(other)` makes the local buffer the result. -/
def shrink (b : Buffer) (reserve : Nat) : Option Buffer := do
  -- `Buffer other;` starts at the default size, so a small buffer does not shrink below it
  let other ← (construct kInitialSize).ensureWritableBytes (b.readableBytes + reserve)
  other.appendPiece b.toStringPiece

/-! ### Integers in network byte order

`sockets::hostToNetworkN` and `networkToHostN` swap the bytes on the little-endian hosts the server
runs on, so an integer is stored most significant byte first.  The four widths differ only in the
number of bytes; a signed value is its two's-complement bit pattern. -/

def appendInt (w : Nat) (b : Buffer) (x : BitVec (8 * w)) : Option Buffer :=
  b.append (Bytes.bigEndian w x.toNat)

def peekInt (w : Nat) (b : Buffer) : Option (BitVec (8 * w)) := do
  guard (w ≤ b.readableBytes)
  return BitVec.ofNat (8 * w)
    (Bytes.ofBigEndian (slice b.buffer_ b.readerIndex_ (b.readerIndex_ + w)))

def readInt (w : Nat) (b : Buffer) : Option (BitVec (8 * w) × Buffer) := do
  let result ← b.peekInt w
  let b' ← b.retrieve w
  return (result, b')

def appendInt32 (b : Buffer) (x : BitVec 32) : Option Buffer := appendInt 4 b x

def peekInt8 (b : Buffer) : Option (BitVec 8) := peekInt 1 b

def readInt8 (b : Buffer) : Option (BitVec 8 × Buffer) := readInt 1 b

def readInt32 (b : Buffer) : Option (BitVec 32 × Buffer) := readInt 4 b

/-! ### Scatter read -/

/-- `readFd` when `readv` delivers `data`: the writable area is filled first, what is left went to
`extrabuf` and is appended. -/
def readFd (b : Buffer) (data : Bytes) : Option Buffer := do
  let writable := b.writableBytes
  let filled := b.writeAtEnd (data.take writable)
  if data.length ≤ writable then
    return { filled with writerIndex_ := filled.writerIndex_ + data.length }
  else
    -- only the part in `extrabuf` can make the vector grow
    ({ filled with writerIndex_ := filled.buffer_.length }).append (data.drop writable)

@[simp] theorem readableBytes_mk (v : Bytes) (r w : Nat) :
    (Buffer.mk v r w).readableBytes = w - r := rfl

@[simp] theorem writableBytes_mk (v : Bytes) (r w : Nat) :
    (Buffer.mk v r w).writableBytes = v.length - w := rfl

/-! ## The representation invariant -/

/-- The order of the indices that the picture in `Buffer.h` promises, and room for the cheap
prepend area. -/
structure Inv (b : Buffer) : Prop where
  reader_le_writer : b.readerIndex_ ≤ b.writerIndex_
  writer_le_size : b.writerIndex_ ≤ b.buffer_.length
  prepend_le_size : kCheapPrepend ≤ b.buffer_.length

theorem construct_inv (n : Nat) : (construct n).Inv := by
  constructor <;> simp [construct, kCheapPrepend]

@[simp] theorem readable_construct (n : Nat) : (construct n).readable = [] := by
  simp [readable, construct]

theorem Inv.length_readable {b : Buffer} (h : b.Inv) : b.readable.length = b.readableBytes := by
  simp [readable, readableBytes, length_slice h.writer_le_size]

/-! ## Taking bytes out -/

theorem retrieveAll_inv {b : Buffer} (h : b.Inv) : b.retrieveAll.Inv :=
  { reader_le_writer := Nat.le_refl _
    writer_le_size := h.prepend_le_size
    prepend_le_size := h.prepend_le_size }

@[simp] theorem readable_retrieveAll (b : Buffer) : b.retrieveAll.readable = [] := by
  simp [readable, retrieveAll]

theorem retrieve_spec {b : Buffer} (h : b.Inv) {len : Nat} (hlen : len ≤ b.readableBytes) :
    ∃ b', b.retrieve len = some b' ∧ b'.Inv ∧ b'.readable = b.readable.drop len := by
  by_cases hlt : len < b.readableBytes
  · refine ⟨{ b with readerIndex_ := b.readerIndex_ + len }, ?_, ?_, ?_⟩
    · simp [retrieve, hlen, hlt]
    · have := h.reader_le_writer
      unfold readableBytes at hlt
      exact ⟨by simp only; omega, h.writer_le_size, h.prepend_le_size⟩
    · simp [readable, drop_slice]
  · refine ⟨b.retrieveAll, ?_, retrieveAll_inv h, ?_⟩
    · simp [retrieve, hlen, hlt]
    · rw [readable_retrieveAll, List.drop_eq_nil_of_le]
      rw [h.length_readable]
      omega

theorem readableBytes_of_retrieve {b b' : Buffer} {len : Nat} (h : b.retrieve len = some b') :
    b'.readableBytes = b.readableBytes - len ∧ len ≤ b.readableBytes := by
  unfold retrieve at h
  by_cases hle : len ≤ b.readableBytes
  · by_cases hlt : len < b.readableBytes
    · simp only [hle, hlt, guard_true, if_true] at h
      cases h
      refine ⟨?_, hle⟩
      simp only [readableBytes]
      omega
    · simp only [hle, hlt, guard_true, if_false] at h
      cases h
      refine ⟨?_, hle⟩
      simp only [retrieveAll, readableBytes] at *
      omega
  · simp [hle] at h

theorem retrieveUntil_spec {b : Buffer} (h : b.Inv) {e : Nat} (h₁ : b.readerIndex_ ≤ e)
    (h₂ : e ≤ b.writerIndex_) :
    ∃ b', b.retrieveUntil e = some b' ∧ b'.Inv ∧
      b'.readable = b.readable.drop (e - b.readerIndex_) := by
  have hlen : e - b.readerIndex_ ≤ b.readableBytes := by
    unfold readableBytes
    omega
  rcases retrieve_spec h hlen with ⟨b', hb', hinv, hread⟩
  exact ⟨b', by simp [retrieveUntil, h₁, h₂, hb'], hinv, hread⟩

theorem retrieveAsString_spec {b : Buffer} (h : b.Inv) {len : Nat}
    (hlen : len ≤ b.readableBytes) :
    ∃ b', b.retrieveAsString len = some (b.readable.take len, b') ∧ b'.Inv ∧
      b'.readable = b.readable.drop len := by
  rcases retrieve_spec h hlen with ⟨b', hb', hinv, hread⟩
  have hle : b.readerIndex_ + len ≤ b.writerIndex_ := by
    have := h.reader_le_writer
    unfold readableBytes at hlen
    omega
  refine ⟨b', ?_, hinv, hread⟩
  simp [retrieveAsString, hlen, hb', readable, take_slice hle]

theorem unwrite_spec {b : Buffer} (h : b.Inv) {len : Nat} (hlen : len ≤ b.readableBytes) :
    ∃ b', b.unwrite len = some b' ∧ b'.Inv ∧
      b'.readable = b.readable.take (b.readable.length - len) := by
  have hrw := h.reader_le_writer
  have hws := h.writer_le_size
  have hlen' := hlen
  unfold readableBytes at hlen'
  refine ⟨{ b with writerIndex_ := b.writerIndex_ - len }, ?_, ?_, ?_⟩
  · simp [unwrite, hlen]
  · exact ⟨by simp only; omega, by simp only; omega, h.prepend_le_size⟩
  · have hk : b.readerIndex_ + (b.readable.length - len) = b.writerIndex_ - len := by
      rw [h.length_readable, readableBytes]
      omega
    rw [readable, readable, ← hk, take_slice]
    · rfl
    · rw [← readable]
      omega

/-! ## Making room -/

/-- The compaction branch is entered only with more than `kCheapPrepend` bytes in front of the
reader, because otherwise the growth test would have succeeded. -/
theorem makeSpace_spec {b : Buffer} (h : b.Inv) {len : Nat} (hlen : b.writableBytes < len) :
    ∃ b', b.makeSpace len = some b' ∧ b'.Inv ∧ b'.readable = b.readable ∧
      len ≤ b'.writableBytes := by
  have hrw := h.reader_le_writer
  have hws := h.writer_le_size
  have hps := h.prepend_le_size
  have hlen' := hlen
  unfold writableBytes at hlen'
  by_cases hgrow : b.writableBytes + b.prependableBytes < len + kCheapPrepend
  · refine ⟨{ b with buffer_ := resize b.buffer_ (b.writerIndex_ + len) 0 }, ?_, ?_, ?_, ?_⟩
    · simp [makeSpace, hgrow]
    · exact ⟨hrw, by simp, by simp only [length_resize]; omega⟩
    · simp only [readable]
      exact slice_resize 0 hws (by omega)
    · simp [writableBytes]
  · have hreader : kCheapPrepend < b.readerIndex_ := by
      unfold writableBytes prependableBytes at hgrow
      omega
    -- source and target may overlap; the copy runs front to back and the target is lower
    have hcopy : copyWithin b.buffer_ b.readerIndex_ kCheapPrepend b.readableBytes =
        overwrite b.buffer_ kCheapPrepend b.readable := by
      have hfit : b.readerIndex_ + b.readableBytes = b.writerIndex_ := by
        unfold readableBytes
        omega
      rw [copyWithin_eq_overwrite (Nat.le_of_lt hreader) (by omega), hfit, readable]
    have hend : kCheapPrepend + b.readableBytes ≤ b.buffer_.length := by
      unfold readableBytes
      omega
    refine ⟨{ buffer_ := overwrite b.buffer_ kCheapPrepend b.readable
              readerIndex_ := kCheapPrepend
              writerIndex_ := kCheapPrepend + b.readableBytes }, ?_, ?_, ?_, ?_⟩
    · simp [makeSpace, hgrow, hreader, hcopy]
    · have hsize : (overwrite b.buffer_ kCheapPrepend b.readable).length = b.buffer_.length :=
        length_overwrite (by rw [h.length_readable]; exact hend)
      exact ⟨Nat.le_add_right _ _, by simp only [hsize]; exact hend, by simp only [hsize]; exact hps⟩
    · conv_lhs => rw [readable, ← h.length_readable]
      exact slice_overwrite_self hps
    · have hsize : (overwrite b.buffer_ kCheapPrepend b.readable).length = b.buffer_.length :=
        length_overwrite (by rw [h.length_readable]; exact hend)
      unfold writableBytes prependableBytes at hgrow
      simp only [writableBytes, hsize, readableBytes]
      omega

theorem ensureWritableBytes_spec {b : Buffer} (h : b.Inv) (len : Nat) :
    ∃ b', b.ensureWritableBytes len = some b' ∧ b'.Inv ∧ b'.readable = b.readable ∧
      len ≤ b'.writableBytes := by
  by_cases hlen : b.writableBytes < len
  · rcases makeSpace_spec h hlen with ⟨b', hb', hinv, hread, hroom⟩
    exact ⟨b', by simp [ensureWritableBytes, hlen, hb', hroom], hinv, hread, hroom⟩
  · have hroom : len ≤ b.writableBytes := by omega
    exact ⟨b, by simp [ensureWritableBytes, hlen, hroom], h, rfl, hroom⟩

/-! ## Putting bytes in -/

/-- The buffer once `data` has been stored at `beginWrite()` and the writer has moved behind it. -/
def written (b : Buffer) (data : Bytes) : Buffer :=
  { b.writeAtEnd data with writerIndex_ := b.writerIndex_ + data.length }

theorem length_writeAtEnd {b : Buffer} (h : b.Inv) {data : Bytes}
    (hdata : data.length ≤ b.writableBytes) :
    (b.writeAtEnd data).buffer_.length = b.buffer_.length := by
  have := h.writer_le_size
  unfold writableBytes at hdata
  exact length_overwrite (by omega)

theorem written_inv {b : Buffer} (h : b.Inv) {data : Bytes}
    (hdata : data.length ≤ b.writableBytes) : (b.written data).Inv := by
  have hws := h.writer_le_size
  have hsize := length_writeAtEnd h hdata
  unfold writableBytes at hdata
  refine ⟨?_, ?_, ?_⟩
  · exact Nat.le_trans h.reader_le_writer (Nat.le_add_right _ _)
  · simp only [written, hsize]
    omega
  · simp only [written, hsize]
    exact h.prepend_le_size

theorem readable_written {b : Buffer} (h : b.Inv) (data : Bytes) :
    (b.written data).readable = b.readable ++ data :=
  slice_overwrite_end h.reader_le_writer h.writer_le_size

/-- A client that has stored `data` at `beginWrite()` and reports it. -/
theorem hasWritten_spec {b : Buffer} (h : b.Inv) {data : Bytes}
    (hdata : data.length ≤ b.writableBytes) :
    ∃ b', (b.writeAtEnd data).hasWritten data.length = some b' ∧ b'.Inv ∧
      b'.readable = b.readable ++ data := by
  refine ⟨b.written data, ?_, written_inv h hdata, readable_written h data⟩
  have hroom : data.length ≤ (b.writeAtEnd data).writableBytes := by
    rw [writableBytes, length_writeAtEnd h hdata]
    exact hdata
  simp only [hasWritten, hroom, guard_true]
  rfl

theorem append_spec {b : Buffer} (h : b.Inv) (data : Bytes) :
    ∃ b', b.append data = some b' ∧ b'.Inv ∧ b'.readable = b.readable ++ data := by
  rcases ensureWritableBytes_spec h data.length with ⟨b₁, hb₁, hinv₁, hread₁, hroom⟩
  rcases hasWritten_spec hinv₁ hroom with ⟨b₂, hb₂, hinv₂, hread₂⟩
  exact ⟨b₂, by simp [append, hb₁, hb₂], hinv₂, by rw [hread₂, hread₁]⟩

theorem readFd_spec {b : Buffer} (h : b.Inv) (data : Bytes) :
    ∃ b', b.readFd data = some b' ∧ b'.Inv ∧ b'.readable = b.readable ++ data := by
  by_cases hlen : data.length ≤ b.writableBytes
  · refine ⟨b.written data, ?_, written_inv h hlen, readable_written h data⟩
    simp [readFd, hlen, List.take_of_length_le hlen, written, writeAtEnd]
  · -- The writable area is full before `extrabuf` is appended.
    have htake : (data.take b.writableBytes).length = b.writableBytes := by
      rw [List.length_take]
      omega
    have hend : b.writerIndex_ + (data.take b.writableBytes).length =
        (b.writeAtEnd (data.take b.writableBytes)).buffer_.length := by
      have := h.writer_le_size
      rw [length_writeAtEnd h (Nat.le_of_eq htake), htake, writableBytes]
      omega
    obtain ⟨b', hb', hinv, hread⟩ :=
      append_spec (written_inv h (Nat.le_of_eq htake)) (data.drop b.writableBytes)
    refine ⟨b', ?_, hinv, ?_⟩
    · rw [written, hend] at hb'
      simpa [readFd, hlen] using hb'
    · calc
        b'.readable
            = (b.written (data.take b.writableBytes)).readable ++ data.drop b.writableBytes := hread
        _ = (b.readable ++ data.take b.writableBytes) ++ data.drop b.writableBytes := by
          rw [readable_written h]
        _ = b.readable ++ data := by rw [List.append_assoc, List.take_append_drop]

theorem prepend_spec {b : Buffer} (h : b.Inv) {data : Bytes}
    (hdata : data.length ≤ b.prependableBytes) :
    ∃ b', b.prepend data = some b' ∧ b'.Inv ∧ b'.readable = data ++ b.readable := by
  have hrw := h.reader_le_writer
  have hws := h.writer_le_size
  have hdata' := hdata
  unfold prependableBytes at hdata'
  have hback : b.readerIndex_ - data.length + data.length = b.readerIndex_ := by omega
  have hsize : (overwrite b.buffer_ (b.readerIndex_ - data.length) data).length =
      b.buffer_.length := length_overwrite (by omega)
  refine ⟨{ b with
              readerIndex_ := b.readerIndex_ - data.length
              buffer_ := overwrite b.buffer_ (b.readerIndex_ - data.length) data }, ?_, ?_, ?_⟩
  · simp [prepend, hdata]
  · exact ⟨by simp only; omega, by simp only [hsize]; exact hws,
      by simp only [hsize]; exact h.prepend_le_size⟩
  · have hslice : slice (overwrite b.buffer_ (b.readerIndex_ - data.length) data)
        (b.readerIndex_ - data.length) b.writerIndex_ =
          data ++ slice b.buffer_ (b.readerIndex_ - data.length + data.length) b.writerIndex_ :=
      slice_overwrite_start (by omega) (by omega)
    simpa [readable, hback] using hslice

/-! ## Shrinking -/

theorem toInt32_of_lt {n : Nat} (h : n < 2 ^ 31) : toInt32 n = n := by
  unfold toInt32
  rw [Int.bmod_eq_of_le]
  · omega
  · omega

theorem toSizeT_toInt32 {n : Nat} (h : n < 2 ^ 31) : toSizeT (toInt32 n) = n := by
  rw [toInt32_of_lt h, toSizeT]
  omega

theorem appendPiece_toStringPiece {b : Buffer} (h : b.Inv) (hsmall : b.readableBytes < 2 ^ 31)
    (other : Buffer) : other.appendPiece b.toStringPiece = other.append b.readable := by
  have hlen : toSizeT b.toStringPiece.length_ = b.readableBytes := by
    simp only [toStringPiece, toSizeT_toInt32 hsmall]
  have hfit : b.readableBytes ≤ b.toStringPiece.ptr_.length := by
    have := h.writer_le_size
    simp only [toStringPiece, List.length_drop, readableBytes]
    omega
  -- `slice` is a `take` of a `drop`, so the piece is the readable part as it stands
  have hpiece : b.toStringPiece.ptr_.take b.readableBytes = b.readable := rfl
  rw [appendPiece, hlen, hpiece]
  simp [hfit]

/-- The length passes through `int`, so `shrink` keeps the contents of buffers below 2 GiB. -/
theorem shrink_spec {b : Buffer} (h : b.Inv) (reserve : Nat) (hsmall : b.readableBytes < 2 ^ 31) :
    ∃ b', b.shrink reserve = some b' ∧ b'.Inv ∧ b'.readable = b.readable := by
  obtain ⟨b₁, hb₁, hinv₁, hread₁, -⟩ :=
    ensureWritableBytes_spec (construct_inv kInitialSize) (b.readableBytes + reserve)
  rcases append_spec hinv₁ b.readable with ⟨b₂, hb₂, hinv₂, hread₂⟩
  refine ⟨b₂, ?_, hinv₂, by rw [hread₂, hread₁, readable_construct, List.nil_append]⟩
  rw [shrink, hb₁, Option.bind_eq_bind, Option.bind_some, appendPiece_toStringPiece h hsmall, hb₂]

end Buffer
end Net
end Longky
