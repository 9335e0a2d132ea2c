import Longky.Net.Buffer

/-!
# ScatterRead — one read into two areas

`Buffer::readFd` in `netLayer/Buffer.cpp` with the areas that it passes to `readv`: the writable part
of the buffer and, unless that is large, an array on the stack.  `Buffer.readFd` is told what has
been read; here the kernel stores it, and the second area is appended.

`readFd_exact`: what has been read follows what was readable, and a failure changes neither the
readable bytes nor the indices.
-/

namespace Longky
namespace Net
namespace ScatterRead

open Lib Lib.Storage

/-! ## The source -/

def extrabufSize : Nat := 65536

/-- The pointers that are passed: into the vector, or to the array. -/
inductive IovBase where
  | buffer (pos : Nat)
  | extrabuf
  deriving DecidableEq, Repr

structure Iovec where
  iov_base : IovBase
  iov_len : Nat
  deriving DecidableEq, Repr

/-- What the pointers point to. -/
structure Areas where
  buffer_ : Bytes
  extrabuf : Bytes

namespace Areas

def store (m : Areas) (base : IovBase) (data : Bytes) : Areas :=
  match base with
  | .buffer pos => { m with buffer_ := overwrite m.buffer_ pos data }
  | .extrabuf => { m with extrabuf := overwrite m.extrabuf 0 data }

/-- The areas are filled one after the other. -/
def scatter (m : Areas) : List Iovec → Bytes → Areas
  | [], _ => m
  | vec :: vecs, data =>
      (m.store vec.iov_base (data.take vec.iov_len)).scatter vecs (data.drop vec.iov_len)

end Areas

/-- What `readv` returns, with what it has stored.  A call that fails can have stored something. -/
inductive Readv (capacity : Nat) where
  | failed (n : Int) (errno : Int) (stored : Bytes) (neg : n < 0) (le : stored.length ≤ capacity)
  | read (data : Bytes) (le : data.length ≤ capacity)

namespace Readv

variable {capacity : Nat}

def stored : Readv capacity → Bytes
  | .failed _ _ stored _ _ => stored
  | .read data _ => data

/-- The value that is returned. -/
def n : Readv capacity → Int
  | .failed n _ _ _ _ => n
  | .read data _ => data.length

end Readv

/-- The areas for a buffer, the first `iovcnt` of the two. -/
def vec (b : Buffer) : List Iovec :=
  let writable := b.writableBytes
  let iovcnt := if writable < extrabufSize then 2 else 1
  [⟨.buffer b.writerIndex_, writable⟩, ⟨.extrabuf, extrabufSize⟩].take iovcnt

/-- The most that can be read. -/
def capacity (b : Buffer) : Nat := ((vec b).map Iovec.iov_len).sum

/-- The value that `readFd` returns, with what is saved of an error, and the buffer. -/
structure Result where
  n : Int
  savedErrno : Option Int
  buffer : Buffer
  deriving DecidableEq, Repr

/-- The array on the stack, which is not initialised. -/
abbrev Extrabuf := { data : Bytes // data.length = extrabufSize }

def readFd (b : Buffer) (extrabuf : Extrabuf) (result : Readv (capacity b)) : Option Result := do
  let writable := b.writableBytes
  let areas := (Areas.mk b.buffer_ extrabuf).scatter (vec b) result.stored
  let filled := { b with buffer_ := areas.buffer_ }
  match result with
  | .failed n errno _ _ _ => return ⟨n, some errno, filled⟩
  | .read data _ =>
      if data.length ≤ writable then
        return ⟨data.length, none, { filled with writerIndex_ := b.writerIndex_ + data.length }⟩
      else
        let b' : Buffer := { filled with writerIndex_ := filled.buffer_.length }
        guard (data.length - writable ≤ areas.extrabuf.length)
        let b' ← b'.append (areas.extrabuf.take (data.length - writable))
        return ⟨data.length, none, b'⟩

/-! ## What the kernel stores -/

variable {b : Buffer} {data : Bytes}

theorem vec_eq (b : Buffer) : vec b = ⟨.buffer b.writerIndex_, b.writableBytes⟩ ::
    if b.writableBytes < extrabufSize then [⟨.extrabuf, extrabufSize⟩] else [] := by
  by_cases hsmall : b.writableBytes < extrabufSize
  · simp only [vec, if_pos hsmall, List.take]
  · simp only [vec, if_neg hsmall, List.take]

/-- Whatever is stored begins with the writable part of the buffer. -/
theorem buffer_scatter (b : Buffer) (extrabuf data : Bytes) :
    ((Areas.mk b.buffer_ extrabuf).scatter (vec b) data).buffer_ =
      (b.writeAtEnd (data.take b.writableBytes)).buffer_ := by
  rw [vec_eq]
  split_ifs <;> rfl

theorem capacity_eq (b : Buffer) : capacity b =
    b.writableBytes + if b.writableBytes < extrabufSize then extrabufSize else 0 := by
  rw [capacity, vec_eq]
  split_ifs <;> simp

/-- What does not fit is at the start of the array. -/
theorem extrabuf_scatter (extrabuf : Bytes) (hle : data.length ≤ capacity b)
    (hmore : b.writableBytes < data.length) :
    ∃ rest, ((Areas.mk b.buffer_ extrabuf).scatter (vec b) data).extrabuf =
      data.drop b.writableBytes ++ rest := by
  -- otherwise the array would not have been passed, and no more than the first area been filled
  have hsmall : b.writableBytes < extrabufSize := by
    rw [capacity_eq] at hle
    split_ifs at hle with hsmall
    · exact hsmall
    · omega
  have htake : (data.drop b.writableBytes).take extrabufSize = data.drop b.writableBytes := by
    rw [capacity_eq, if_pos hsmall] at hle
    refine List.take_of_length_le ?_
    rw [List.length_drop]
    omega
  refine ⟨extrabuf.drop (data.drop b.writableBytes).length, ?_⟩
  calc ((Areas.mk b.buffer_ extrabuf).scatter (vec b) data).extrabuf
      = overwrite extrabuf 0 ((data.drop b.writableBytes).take extrabufSize) := by
        rw [vec_eq, if_pos hsmall]
        rfl
    _ = data.drop b.writableBytes ++ extrabuf.drop (data.drop b.writableBytes).length := by
        rw [htake, overwrite, List.take_zero, List.nil_append, Nat.zero_add]

/-! ## What is readable then -/

/-- Storing behind the writer changes nothing that can be read. -/
theorem readable_writeAtEnd (h : b.Inv) (data : Bytes) :
    (b.writeAtEnd data).readable = b.readable :=
  slice_overwrite_before h.writer_le_size le_rfl

theorem readFd_failed (extrabuf : Extrabuf) {n errno : Int} {stored : Bytes} (hneg : n < 0)
    (hle : stored.length ≤ capacity b) :
    readFd b extrabuf (.failed n errno stored hneg hle) =
      some ⟨n, some errno, b.writeAtEnd (stored.take b.writableBytes)⟩ := by
  simp only [readFd, Readv.stored, buffer_scatter]
  rfl

/-- What `Buffer.readFd` says of the bytes that have been read is what becomes of the areas. -/
theorem readFd_read (extrabuf : Extrabuf) (hle : data.length ≤ capacity b) :
    readFd b extrabuf (.read data hle) =
      (b.readFd data).map fun b' => ⟨data.length, none, b'⟩ := by
  by_cases hfits : data.length ≤ b.writableBytes
  · simp only [readFd, Readv.stored, buffer_scatter, if_pos hfits, Buffer.readFd]
    rfl
  · -- the vector is full, and the rest is appended from the array
    obtain ⟨rest, hrest⟩ := extrabuf_scatter extrabuf.1 hle (not_le.1 hfits)
    have hlen : data.length - b.writableBytes = (data.drop b.writableBytes).length := by
      rw [List.length_drop]
    have htake : (data.drop b.writableBytes ++ rest).take (data.length - b.writableBytes) =
        data.drop b.writableBytes := by rw [hlen, List.take_left]
    have hguard : data.length - b.writableBytes ≤
        (data.drop b.writableBytes ++ rest).length := by
      rw [hlen, List.length_append]
      exact Nat.le_add_right _ _
    simp only [readFd, Readv.stored, buffer_scatter, if_neg hfits, Buffer.readFd, hrest, hguard,
      guard_true, htake]
    rw [Option.map_eq_bind]
    rfl

/-- For every buffer, and every result of `readv`. -/
theorem readFd_exact (b : Buffer) (h : b.Inv) (extrabuf : Extrabuf)
    (result : Readv (capacity b)) : ∃ r,
    readFd b extrabuf result = some r ∧ r.buffer.Inv ∧ r.n = result.n ∧
      (result.n < 0 → r.buffer.readable = b.readable ∧
        r.buffer.readerIndex_ = b.readerIndex_ ∧ r.buffer.writerIndex_ = b.writerIndex_) ∧
      (0 ≤ result.n → r.buffer.readable = b.readable ++ result.stored) := by
  cases result with
  | failed n errno stored hneg hle =>
      -- what the kernel may have stored is behind the writer
      refine ⟨_, readFd_failed extrabuf hneg hle, ?_, rfl, fun _ => ?_, fun hpos => ?_⟩
      · have hfits : (stored.take b.writableBytes).length ≤ b.writableBytes :=
          List.length_take_le _ _
        have hsize := Buffer.length_writeAtEnd h hfits
        exact ⟨h.reader_le_writer, hsize ▸ h.writer_le_size, hsize ▸ h.prepend_le_size⟩
      · exact ⟨readable_writeAtEnd h _, rfl, rfl⟩
      · exact absurd hpos (not_le.2 hneg)
  | read data hle =>
      obtain ⟨b', hread, hinv, hreadable⟩ := Buffer.readFd_spec h data
      refine ⟨⟨data.length, none, b'⟩, ?_, hinv, rfl, fun hneg => ?_, fun _ => hreadable⟩
      · rw [readFd_read extrabuf hle, hread, Option.map_some]
      · exact absurd hneg (not_lt.2 (Int.natCast_nonneg _))

/-- A read that spills over. -/
theorem readFd_exact_spill : ∃ r,
    readFd ⟨[0, 0, 0, 0, 0, 0, 0, 0, 97, 0], 8, 9⟩
        ⟨List.replicate extrabufSize 0, List.length_replicate⟩ (.read [98, 99] (by decide)) =
          some r ∧ r.buffer.Inv ∧ r.n = 2 ∧
      ((2 : Int) < 0 → r.buffer.readable = [97] ∧ r.buffer.readerIndex_ = 8 ∧
        r.buffer.writerIndex_ = 9) ∧
      ((0 : Int) ≤ 2 → r.buffer.readable = [97] ++ [98, 99]) :=
  readFd_exact ⟨[0, 0, 0, 0, 0, 0, 0, 0, 97, 0], 8, 9⟩ ⟨by decide, by decide, by decide⟩
    ⟨List.replicate extrabufSize 0, List.length_replicate⟩ (.read [98, 99] (by decide))

end ScatterRead
end Net
end Longky
