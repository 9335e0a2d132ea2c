import Longky.Net.Buffer

/-!
# WfBuffer — buffers that carry their invariant

The modules above the buffer (connections, codecs, request parsers) never see a buffer that breaks
`Buffer.Inv`.  `WfBuffer` packs a buffer with the proof of its invariant; each operation below is
the operation of `Buffer`, made total by the facts proved about it, and takes the source's `assert`
as an argument where there is one.  What an operation does is given by its effect on `readable`.
-/

namespace Longky
namespace Net

open Lib Lib.Storage

structure WfBuffer where
  raw : Buffer
  inv : raw.Inv

namespace WfBuffer

/-! ## Reading -/

def readable (b : WfBuffer) : Bytes := b.raw.readable

def readableBytes (b : WfBuffer) : Nat := b.raw.readableBytes

theorem readableBytes_eq (b : WfBuffer) : b.readableBytes = b.readable.length :=
  b.inv.length_readable.symm

theorem readableBytes_eq_zero {b : WfBuffer} : b.readableBytes = 0 ↔ b.readable = [] := by
  rw [readableBytes_eq, List.length_eq_zero_iff]

/-! ## Total operations -/

/-- The buffer a successful operation leaves. -/
def ofSpec (o : Option Buffer) {bs : Bytes}
    (h : ∃ b', o = some b' ∧ b'.Inv ∧ b'.readable = bs) : WfBuffer :=
  match o, h with
  | some b, h => ⟨b, by obtain ⟨b', hb, hinv, -⟩ := h; cases hb; exact hinv⟩
  | none, h => absurd h (by simp)

theorem readable_ofSpec (o : Option Buffer) {bs : Bytes}
    (h : ∃ b', o = some b' ∧ b'.Inv ∧ b'.readable = bs) : (ofSpec o h).readable = bs := by
  rcases id h with ⟨b, hb, -, hread⟩
  subst hb
  exact hread

theorem some_raw_ofSpec (o : Option Buffer) {bs : Bytes}
    (h : ∃ b', o = some b' ∧ b'.Inv ∧ b'.readable = bs) : o = some (ofSpec o h).raw := by
  rcases id h with ⟨b, hb, -, -⟩
  subst hb
  rfl

def construct (initialSize : Nat) : WfBuffer :=
  ⟨Buffer.construct initialSize, Buffer.construct_inv initialSize⟩

def append (b : WfBuffer) (data : Bytes) : WfBuffer :=
  ofSpec (b.raw.append data) (Buffer.append_spec b.inv data)

def readFd (b : WfBuffer) (data : Bytes) : WfBuffer :=
  ofSpec (b.raw.readFd data) (Buffer.readFd_spec b.inv data)

def retrieveAll (b : WfBuffer) : WfBuffer :=
  ⟨b.raw.retrieveAll, Buffer.retrieveAll_inv b.inv⟩

def retrieve (b : WfBuffer) (len : Nat) (h : len ≤ b.readableBytes) : WfBuffer :=
  ofSpec (b.raw.retrieve len) (Buffer.retrieve_spec b.inv h)

def retrieveAsString (b : WfBuffer) (len : Nat) (h : len ≤ b.readableBytes) : Bytes × WfBuffer :=
  (b.readable.take len, b.retrieve len h)

def retrieveAllAsString (b : WfBuffer) : Bytes × WfBuffer :=
  b.retrieveAsString b.readableBytes (Nat.le_refl _)

@[simp] theorem readable_construct (n : Nat) : (construct n).readable = [] :=
  Buffer.readable_construct n

@[simp] theorem readable_append (b : WfBuffer) (data : Bytes) :
    (b.append data).readable = b.readable ++ data :=
  readable_ofSpec _ _

@[simp] theorem readable_readFd (b : WfBuffer) (data : Bytes) :
    (b.readFd data).readable = b.readable ++ data :=
  readable_ofSpec _ _

@[simp] theorem readable_retrieveAll (b : WfBuffer) : b.retrieveAll.readable = [] :=
  Buffer.readable_retrieveAll b.raw

@[simp] theorem readable_retrieve (b : WfBuffer) (len : Nat) (h : len ≤ b.readableBytes) :
    (b.retrieve len h).readable = b.readable.drop len :=
  readable_ofSpec _ _

theorem raw_append (b : WfBuffer) (data : Bytes) :
    b.raw.append data = some (b.append data).raw :=
  some_raw_ofSpec _ _

theorem raw_readFd (b : WfBuffer) (data : Bytes) :
    b.raw.readFd data = some (b.readFd data).raw :=
  some_raw_ofSpec _ _

theorem raw_retrieve (b : WfBuffer) (len : Nat) (h : len ≤ b.readableBytes) :
    b.raw.retrieve len = some (b.retrieve len h).raw :=
  some_raw_ofSpec _ _

/-- `retrieveAsString` is the source's function on the underlying buffer. -/
theorem raw_retrieveAsString (b : WfBuffer) (len : Nat) (h : len ≤ b.readableBytes) :
    b.raw.retrieveAsString len =
      some ((b.retrieveAsString len h).1, (b.retrieveAsString len h).2.raw) := by
  rcases Buffer.retrieveAsString_spec b.inv h with ⟨b', hb', -, -⟩
  have hret := raw_retrieve b len h
  have hguard : len ≤ b.raw.readableBytes := h
  simp only [Buffer.retrieveAsString, hguard, guard_true, hret] at hb'
  rw [Buffer.retrieveAsString]
  simp only [hguard, guard_true, hret]
  simp only [Option.pure_def, Option.bind_eq_bind, Option.bind_some, Option.some.injEq,
    Prod.mk.injEq] at hb' ⊢
  exact ⟨hb'.1, rfl⟩

@[simp] theorem retrieveAllAsString_fst (b : WfBuffer) :
    b.retrieveAllAsString.1 = b.readable := by
  simp [retrieveAllAsString, retrieveAsString, readableBytes_eq]

@[simp] theorem readable_retrieveAllAsString (b : WfBuffer) :
    b.retrieveAllAsString.2.readable = [] := by
  simp [retrieveAllAsString, retrieveAsString, readableBytes_eq]

/-! ## Integers -/

def appendInt (w : Nat) (b : WfBuffer) (x : BitVec (8 * w)) : WfBuffer :=
  b.append (Bytes.bigEndian w x.toNat)

def peekInt (w : Nat) (b : WfBuffer) (_h : w ≤ b.readableBytes) : BitVec (8 * w) :=
  BitVec.ofNat (8 * w) (Bytes.ofBigEndian (b.readable.take w))

def readInt (w : Nat) (b : WfBuffer) (h : w ≤ b.readableBytes) : BitVec (8 * w) × WfBuffer :=
  (b.peekInt w h, b.retrieve w h)

/-- The source's `peekIntN` reads the first bytes of the readable part. -/
theorem raw_peekInt (w : Nat) (b : WfBuffer) (h : w ≤ b.readableBytes) :
    b.raw.peekInt w = some (b.peekInt w h) := by
  have hguard : w ≤ b.raw.readableBytes := h
  have hend : b.raw.readerIndex_ + w ≤ b.raw.writerIndex_ := by
    have := b.inv.reader_le_writer
    unfold Buffer.readableBytes at hguard
    omega
  simp [Buffer.peekInt, hguard, peekInt, readable, Buffer.readable, take_slice hend]

def appendInt32 (b : WfBuffer) (x : BitVec 32) : WfBuffer := appendInt 4 b x

def peekInt8 (b : WfBuffer) (h : 1 ≤ b.readableBytes) : BitVec 8 := b.peekInt 1 h

def readInt8 (b : WfBuffer) (h : 1 ≤ b.readableBytes) : BitVec 8 × WfBuffer := b.readInt 1 h

def readInt32 (b : WfBuffer) (h : 4 ≤ b.readableBytes) : BitVec 32 × WfBuffer := b.readInt 4 h

end WfBuffer
end Net
end Longky
