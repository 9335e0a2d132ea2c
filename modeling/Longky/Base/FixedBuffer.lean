import Longky.Lib.Bytes
import Longky.Lib.Storage

/-!
# FixedBuffer — memory of a fixed size, filled from the front

`FixedBuffer` in `base/log/LogStream.h`.  The write position is never behind the end, and what is
stored through a pointer goes through `Memory.write`, which is none outside the memory.

* `append` takes a text whole or not at all;
* `current`, `add` — the client stores its text itself and says how long it is.
-/

namespace Longky
namespace Base

open Lib

def kSmallBuffer : Nat := 4000

def kLargeBuffer : Nat := 4000 * 1000

/-! ## Memory -/

/-- The contents of memory that nobody has written. -/
abbrev Memory (size : Nat) := { data : Bytes // data.length = size }

namespace Memory

variable {size : Nat}

/-- Bytes stored from a position on. -/
def write (mem : Memory size) (pos : Nat) (buf : Bytes) : Option (Memory size) :=
  if h : pos + buf.length ≤ size then
    some ⟨Storage.overwrite mem.1 pos buf, by
      rw [Storage.length_overwrite (by rw [mem.2]; exact h), mem.2]⟩
  else none

/-- `std::reverse(first, last)`. -/
def reverse (mem : Memory size) (first last : Nat) : Option (Memory size) :=
  if first ≤ last ∧ last ≤ size then mem.write first (Storage.slice mem.1 first last).reverse
  else none

variable {mem mem' : Memory size} {pos : Nat} {buf : Bytes}

theorem write_eq_some (mem : Memory size) (h : pos + buf.length ≤ size) :
    ∃ mem', mem.write pos buf = some mem' ∧ mem'.1 = Storage.overwrite mem.1 pos buf :=
  ⟨_, dif_pos h, rfl⟩

theorem write_eq_none (h : ¬ pos + buf.length ≤ size) : mem.write pos buf = none := dif_neg h

/-- Storing a text is storing its parts one behind the other. -/
theorem write_append (mem : Memory size) (pos : Nat) (xs ys : Bytes) :
    mem.write pos (xs ++ ys) = mem.write pos xs >>= fun m => m.write (pos + xs.length) ys := by
  by_cases hall : pos + (xs ++ ys).length ≤ size
  · have hlen := hall
    rw [List.length_append] at hlen
    have hfirst : pos + xs.length ≤ size := by omega
    have hsecond : pos + xs.length + ys.length ≤ size := by omega
    obtain ⟨m₁, h₁, hdata₁⟩ := write_eq_some mem hfirst
    obtain ⟨m₂, h₂, hdata₂⟩ := write_eq_some m₁ hsecond
    obtain ⟨m₃, h₃, hdata₃⟩ := write_eq_some mem hall
    rw [h₁, h₃, Option.bind_eq_bind, Option.bind_some, h₂]
    refine congrArg some (Subtype.ext ?_)
    rw [hdata₃, hdata₂, hdata₁]
    exact Storage.overwrite_append (by rw [mem.2]; omega) ys
  · rw [write_eq_none hall]
    by_cases hfirst : pos + xs.length ≤ size
    · obtain ⟨m₁, h₁, -⟩ := write_eq_some mem hfirst
      rw [List.length_append] at hall
      rw [h₁, Option.bind_eq_bind, Option.bind_some, write_eq_none (by omega)]
    · rw [write_eq_none hfirst]
      rfl

/-- The first part of what has been stored is reversed in place. -/
theorem reverse_write (mem : Memory size) (pos : Nat) (xs ys : Bytes) :
    (mem.write pos (xs ++ ys) >>= fun m => m.reverse pos (pos + xs.length)) =
      mem.write pos (xs.reverse ++ ys) := by
  by_cases hall : pos + (xs ++ ys).length ≤ size
  · have hlen := hall
    rw [List.length_append] at hlen
    obtain ⟨m₁, h₁, hdata₁⟩ := write_eq_some mem hall
    have hwhole : Storage.slice m₁.1 pos (pos + (xs ++ ys).length) = xs ++ ys := by
      rw [hdata₁]
      exact Storage.slice_overwrite_self (by rw [mem.2]; omega)
    have hslice : Storage.slice m₁.1 pos (pos + xs.length) = xs :=
      calc Storage.slice m₁.1 pos (pos + xs.length)
          = (Storage.slice m₁.1 pos (pos + (xs ++ ys).length)).take xs.length :=
            (Storage.take_slice (by rw [List.length_append]; omega)).symm
        _ = (xs ++ ys).take xs.length := by rw [hwhole]
        _ = xs := List.take_left
    -- a text and its reversal take the same space
    have hreverse : pos + xs.reverse.length ≤ size := by
      rw [List.length_reverse]
      omega
    have hboth : pos + (xs.reverse ++ ys).length ≤ size := by
      rw [List.length_append, List.length_reverse]
      omega
    obtain ⟨m₂, h₂, hdata₂⟩ := write_eq_some m₁ hreverse
    obtain ⟨m₃, h₃, hdata₃⟩ := write_eq_some mem hboth
    rw [h₁, Option.bind_eq_bind, Option.bind_some, reverse, if_pos (by omega), hslice, h₂, h₃]
    refine congrArg some (Subtype.ext ?_)
    rw [hdata₃, hdata₂, hdata₁]
    exact Storage.overwrite_overwrite (List.length_reverse) (by rw [mem.2]; omega)
  · rw [write_eq_none hall, write_eq_none]
    · rfl
    · rw [List.length_append, List.length_reverse, ← List.length_append]
      exact hall

end Memory

/-! ## FixedBuffer -/

structure FixedBuffer (size : Nat) where
  data_ : Memory size
  cur_ : Nat := 0
  cur_le : cur_ ≤ size

namespace FixedBuffer

variable {size : Nat}

def construct (memory : Memory size) : FixedBuffer size := ⟨memory, 0, Nat.zero_le _⟩

def avail (b : FixedBuffer size) : Nat := size - b.cur_

def length (b : FixedBuffer size) : Nat := b.cur_

/-- `data()`, up to `length()`. -/
def contents (b : FixedBuffer size) : Bytes := Storage.slice b.data_.1 0 b.cur_

theorem length_overwrite (b : FixedBuffer size) {buf : Bytes} (h : b.cur_ + buf.length ≤ size) :
    (Storage.overwrite b.data_.1 b.cur_ buf).length = size := by
  rw [Storage.length_overwrite (by rw [b.data_.2]; exact h), b.data_.2]

theorem cur_add_le {b : FixedBuffer size} {buf : Bytes} (h : buf.length < b.avail) :
    b.cur_ + buf.length ≤ size := by
  unfold avail at h
  omega

def append (b : FixedBuffer size) (buf : Bytes) : FixedBuffer size :=
  if h : buf.length < b.avail then
    { data_ := ⟨Storage.overwrite b.data_.1 b.cur_ buf, b.length_overwrite (cur_add_le h)⟩
      cur_ := b.cur_ + buf.length
      cur_le := cur_add_le h }
  else b

/-- Where a client stores through `current()`. -/
def current (b : FixedBuffer size) : Nat := b.cur_

/-- `add`, which does not look for the end. -/
def add (b : FixedBuffer size) (len : Nat) : Option (FixedBuffer size) :=
  if h : b.cur_ + len ≤ size then some { b with cur_ := b.cur_ + len, cur_le := h } else none

/-- The client has stored through `current()`. -/
def withData (b : FixedBuffer size) (data : Memory size) : FixedBuffer size :=
  { b with data_ := data }

def reset (b : FixedBuffer size) : FixedBuffer size := { b with cur_ := 0, cur_le := Nat.zero_le _ }

theorem contents_eq_nil {b : FixedBuffer size} (h : b.length = 0) : b.contents = [] := by
  rw [contents, show b.cur_ = 0 from h, Storage.slice_self]

theorem length_contents (b : FixedBuffer size) : b.contents.length = b.cur_ := by
  rw [contents, Storage.length_slice (by rw [b.data_.2]; exact b.cur_le), Nat.sub_zero]

theorem contents_append {b : FixedBuffer size} {buf : Bytes} (h : buf.length < b.avail) :
    (b.append buf).contents = b.contents ++ buf := by
  have hpos : b.cur_ ≤ b.data_.1.length := by
    rw [b.data_.2]
    exact b.cur_le
  rw [append, dif_pos h]
  exact Storage.slice_overwrite_end (Nat.zero_le _) hpos

theorem append_of_not_lt {b : FixedBuffer size} {buf : Bytes} (h : ¬ buf.length < b.avail) :
    b.append buf = b := dif_neg h

/-- A text stored through `current()`, with a byte more behind it, and then added. -/
theorem add_written {b : FixedBuffer size} {buf : Bytes} (h : buf.length < b.avail) (last : UInt8) :
    ∃ data b', b.data_.write b.current (buf ++ [last]) = some data ∧
      (b.withData data).add buf.length = some b' ∧ b'.contents = b.contents ++ buf := by
  have hfit := cur_add_le h
  have hlen : b.cur_ + (buf ++ [last]).length ≤ size := by
    unfold avail at h
    rw [List.length_append, List.length_singleton]
    omega
  have hpos : b.cur_ ≤ b.data_.1.length := by
    rw [b.data_.2]
    exact b.cur_le
  obtain ⟨data, hwrite, hdata⟩ := b.data_.write_eq_some hlen
  refine ⟨data, _, hwrite, dif_pos hfit, ?_⟩
  calc Storage.slice data.1 0 (b.cur_ + buf.length)
      = (Storage.slice data.1 0 (b.cur_ + (buf ++ [last]).length)).take (b.cur_ + buf.length) := by
        rw [Storage.take_slice (by rw [List.length_append]; omega), Nat.zero_add]
    _ = ((b.contents ++ buf) ++ [last]).take (b.cur_ + buf.length) := by
        rw [hdata, Storage.slice_overwrite_end (Nat.zero_le _) hpos, ← List.append_assoc]
        rfl
    _ = b.contents ++ buf := by
        refine List.take_left' ?_
        rw [List.length_append, length_contents]

theorem avail_eq {b : FixedBuffer size} (h : b.length = 0) : b.avail = size := by
  rw [avail, show b.cur_ = 0 from h, Nat.sub_zero]

end FixedBuffer

end Base
end Longky
