import Longky.Net.Buffer

/-!
# NetworkOrder — integers in the buffer

The integer functions of `netLayer/Buffer.h` over `netLayer/socket/Endian.h`, on a host of either
byte order: a value is swapped, if the host is little-endian, and copied as the host stores it.
`Buffer.appendInt` and `Buffer.peekInt` are what comes of it on any host.

`codec_roundTrip`: integers that have been appended are read back, in any mix of the four widths, and
so is one that has been put in front.
-/

namespace Longky
namespace Net
namespace NetworkOrder

open Lib Lib.Storage

/-! ## The host -/

inductive Endian where
  | little
  | big
  deriving DecidableEq, Repr

namespace Endian

/-- The memory of an integer of `w` bytes. -/
def memory (host : Endian) (w : Nat) (x : BitVec (8 * w)) : Bytes :=
  match host with
  | .little => (Bytes.bigEndian w x.toNat).reverse
  | .big => Bytes.bigEndian w x.toNat

/-- The integer with this memory. -/
def ofMemory (host : Endian) (w : Nat) (bs : Bytes) : BitVec (8 * w) :=
  match host with
  | .little => BitVec.ofNat (8 * w) (Bytes.ofBigEndian bs.reverse)
  | .big => BitVec.ofNat (8 * w) (Bytes.ofBigEndian bs)

end Endian

/-- The bytes of a word in the other order. -/
def byteSwap (w : Nat) (x : BitVec (8 * w)) : BitVec (8 * w) :=
  BitVec.ofNat (8 * w) (Bytes.ofBigEndian (Bytes.bigEndian w x.toNat).reverse)

/-- `htobe16` and its like, which are their own inverses. -/
def htobe (host : Endian) (w : Nat) (x : BitVec (8 * w)) : BitVec (8 * w) :=
  match host with
  | .little => byteSwap w x
  | .big => x

/-! ## The source -/

def hostToNetwork64 (host : Endian) (host64 : BitVec 64) : BitVec 64 := htobe host 8 host64

def hostToNetwork32 (host : Endian) (host32 : BitVec 32) : BitVec 32 := htobe host 4 host32

def hostToNetwork16 (host : Endian) (host16 : BitVec 16) : BitVec 16 := htobe host 2 host16

def networkToHost64 (host : Endian) (net64 : BitVec 64) : BitVec 64 := htobe host 8 net64

def networkToHost32 (host : Endian) (net32 : BitVec 32) : BitVec 32 := htobe host 4 net32

def networkToHost16 (host : Endian) (net16 : BitVec 16) : BitVec 16 := htobe host 2 net16

section Buffer

variable (host : Endian) (b : Buffer)

/-! The four widths differ in the number of bytes and in the swap, and `int8_t` has none. -/

def appendWord (w : Nat) (toNetwork : BitVec (8 * w) → BitVec (8 * w)) (x : BitVec (8 * w)) :
    Option Buffer :=
  b.append (host.memory w (toNetwork x))

def appendInt64 : BitVec 64 → Option Buffer := appendWord host b 8 (hostToNetwork64 host)

def appendInt32 : BitVec 32 → Option Buffer := appendWord host b 4 (hostToNetwork32 host)

def appendInt16 : BitVec 16 → Option Buffer := appendWord host b 2 (hostToNetwork16 host)

def appendInt8 : BitVec 8 → Option Buffer := appendWord host b 1 id

/-- The bytes are copied from `peek()`, and there have to be enough of them. -/
def peekWord (w : Nat) (toHost : BitVec (8 * w) → BitVec (8 * w)) : Option (BitVec (8 * w)) := do
  guard (w ≤ b.readableBytes)
  return toHost (host.ofMemory w (slice b.buffer_ b.readerIndex_ (b.readerIndex_ + w)))

def peekInt64 : Option (BitVec 64) := peekWord host b 8 (networkToHost64 host)

def peekInt32 : Option (BitVec 32) := peekWord host b 4 (networkToHost32 host)

def peekInt16 : Option (BitVec 16) := peekWord host b 2 (networkToHost16 host)

def peekInt8 : Option (BitVec 8) := peekWord host b 1 id

/-- `peekInt` and `retrieveInt`. -/
def readWord (w : Nat) (peek : Option (BitVec (8 * w))) : Option (BitVec (8 * w) × Buffer) := do
  let result ← peek
  return (result, ← b.retrieve w)

def readInt64 : Option (BitVec 64 × Buffer) := readWord b 8 (peekInt64 host b)

def readInt32 : Option (BitVec 32 × Buffer) := readWord b 4 (peekInt32 host b)

def readInt16 : Option (BitVec 16 × Buffer) := readWord b 2 (peekInt16 host b)

def readInt8 : Option (BitVec 8 × Buffer) := readWord b 1 (peekInt8 host b)

def prependWord (w : Nat) (toNetwork : BitVec (8 * w) → BitVec (8 * w)) (x : BitVec (8 * w)) :
    Option Buffer :=
  b.prepend (host.memory w (toNetwork x))

def prependInt64 : BitVec 64 → Option Buffer := prependWord host b 8 (hostToNetwork64 host)

def prependInt32 : BitVec 32 → Option Buffer := prependWord host b 4 (hostToNetwork32 host)

def prependInt16 : BitVec 16 → Option Buffer := prependWord host b 2 (hostToNetwork16 host)

def prependInt8 : BitVec 8 → Option Buffer := prependWord host b 1 id

end Buffer

/-! ## Integers of any width -/

inductive Width where
  | int8
  | int16
  | int32
  | int64
  deriving DecidableEq, Repr

def Width.bytes : Width → Nat
  | .int8 => 1
  | .int16 => 2
  | .int32 => 4
  | .int64 => 8

/-- An integer of one of the widths.  Its value is `toInt` of the bits. -/
structure Signed where
  width : Width
  bits : BitVec (8 * width.bytes)

namespace Signed

/-- The two's complement, most significant byte first. -/
def bytes (x : Signed) : Bytes :=
  Bytes.bigEndian x.width.bytes (x.bits.toInt % 2 ^ (8 * x.width.bytes)).toNat

def append (host : Endian) (b : Buffer) : Signed → Option Buffer
  | ⟨.int8, bits⟩ => appendInt8 host b bits
  | ⟨.int16, bits⟩ => appendInt16 host b bits
  | ⟨.int32, bits⟩ => appendInt32 host b bits
  | ⟨.int64, bits⟩ => appendInt64 host b bits

def prepend (host : Endian) (b : Buffer) : Signed → Option Buffer
  | ⟨.int8, bits⟩ => prependInt8 host b bits
  | ⟨.int16, bits⟩ => prependInt16 host b bits
  | ⟨.int32, bits⟩ => prependInt32 host b bits
  | ⟨.int64, bits⟩ => prependInt64 host b bits

def read (host : Endian) (b : Buffer) : Width → Option (Signed × Buffer)
  | .int8 => (readInt8 host b).map fun (bits, b) => (⟨.int8, bits⟩, b)
  | .int16 => (readInt16 host b).map fun (bits, b) => (⟨.int16, bits⟩, b)
  | .int32 => (readInt32 host b).map fun (bits, b) => (⟨.int32, bits⟩, b)
  | .int64 => (readInt64 host b).map fun (bits, b) => (⟨.int64, bits⟩, b)

def appendAll (host : Endian) (b : Buffer) (xs : List Signed) : Option Buffer :=
  xs.foldlM (append host) b

def readAll (host : Endian) (b : Buffer) : List Width → Option (List Signed × Buffer)
  | [] => some ([], b)
  | width :: widths => do
      let (x, b) ← read host b width
      let (xs, b) ← readAll host b widths
      return (x :: xs, b)

end Signed

/-! ## The bytes of a word -/

variable {host : Endian} {w : Nat}

theorem bigEndian_ofNat {bs : Bytes} (h : bs.length = w) :
    Bytes.bigEndian w (BitVec.ofNat (8 * w) (Bytes.ofBigEndian bs)).toNat = bs := by
  have hlt : Bytes.ofBigEndian bs < 2 ^ (8 * bs.length) := by
    rw [Nat.pow_mul]
    exact Bytes.ofBigEndian_lt bs
  subst h
  rw [BitVec.toNat_ofNat, Nat.mod_eq_of_lt hlt, Bytes.bigEndian_ofBigEndian]

theorem ofNat_bigEndian (x : BitVec (8 * w)) :
    BitVec.ofNat (8 * w) (Bytes.ofBigEndian (Bytes.bigEndian w x.toNat)) = x := by
  have hlt : x.toNat < 256 ^ w := by
    have hbits := x.isLt
    rwa [Nat.pow_mul] at hbits
  rw [Bytes.ofBigEndian_bigEndian_of_lt hlt, BitVec.ofNat_toNat, BitVec.setWidth_eq]

/-- A conversion after which the host's memory is in network order, and the other way round. -/
structure NetworkConversion (host : Endian) (w : Nat) (f : BitVec (8 * w) → BitVec (8 * w)) :
    Prop where
  memory : ∀ x, host.memory w (f x) = Bytes.bigEndian w x.toNat
  ofMemory : ∀ bs, bs.length = w →
    f (host.ofMemory w bs) = BitVec.ofNat (8 * w) (Bytes.ofBigEndian bs)

theorem networkConversion_htobe (host : Endian) (w : Nat) :
    NetworkConversion host w (htobe host w) := by
  cases host with
  | big => exact ⟨fun _ => rfl, fun _ _ => rfl⟩
  | little =>
      -- the bytes are turned round by the host and by the swap
      constructor
      · intro x
        have hlen : (Bytes.bigEndian w x.toNat).reverse.length = w := by
          rw [List.length_reverse, Bytes.length_bigEndian]
        simp only [Endian.memory, htobe, byteSwap]
        rw [bigEndian_ofNat hlen, List.reverse_reverse]
      · intro bs h
        have hlen : bs.reverse.length = w := by rw [List.length_reverse, h]
        simp only [Endian.ofMemory, htobe, byteSwap]
        rw [bigEndian_ofNat hlen, List.reverse_reverse]

/-- One byte has no order. -/
theorem networkConversion_id (host : Endian) : NetworkConversion host 1 id := by
  cases host with
  | big => exact ⟨fun _ => rfl, fun _ _ => rfl⟩
  | little =>
      refine ⟨fun _ => rfl, fun bs h => ?_⟩
      obtain ⟨c, rfl⟩ := List.length_eq_one_iff.1 h
      rfl

namespace Width

/-- The conversion of a width. -/
def convert (host : Endian) : (width : Width) → BitVec (8 * width.bytes) → BitVec (8 * width.bytes)
  | .int8 => id
  | .int16 => htobe host 2
  | .int32 => htobe host 4
  | .int64 => htobe host 8

theorem networkConversion (host : Endian) (width : Width) :
    NetworkConversion host width.bytes (width.convert host) := by
  cases width with
  | int8 => exact networkConversion_id host
  | int16 => exact networkConversion_htobe host 2
  | int32 => exact networkConversion_htobe host 4
  | int64 => exact networkConversion_htobe host 8

end Width

/-! ## The functions on any host -/

namespace Signed

variable {b : Buffer}

/-- The residue of the value is the number that the bits make. -/
theorem bytes_eq (x : Signed) : x.bytes = Bytes.bigEndian x.width.bytes x.bits.toNat := by
  have hmod : x.bits.toInt % ((2 ^ (8 * x.width.bytes) : Nat) : Int) = x.bits.toNat := by
    rw [BitVec.toInt_eq_toNat_bmod, Int.bmod_emod, ← Int.natCast_mod,
      Nat.mod_eq_of_lt x.bits.isLt]
  have hpow : ((2 ^ (8 * x.width.bytes) : Nat) : Int) = 2 ^ (8 * x.width.bytes) := by
    rw [Nat.cast_pow]
    rfl
  rw [bytes, ← hpow, hmod, Int.toNat_natCast]

theorem append_eq (host : Endian) (b : Buffer) (x : Signed) : append host b x =
    b.append x.bytes := by
  have hword : append host b x =
      b.append (host.memory x.width.bytes (x.width.convert host x.bits)) := by
    obtain ⟨width, bits⟩ := x
    cases width <;> rfl
  rw [hword, (x.width.networkConversion host).memory, bytes_eq]

theorem prepend_eq (host : Endian) (b : Buffer) (x : Signed) : prepend host b x =
    b.prepend x.bytes := by
  have hword : prepend host b x =
      b.prepend (host.memory x.width.bytes (x.width.convert host x.bits)) := by
    obtain ⟨width, bits⟩ := x
    cases width <;> rfl
  rw [hword, (x.width.networkConversion host).memory, bytes_eq]

theorem read_eq (host : Endian) (b : Buffer) (width : Width) : read host b width =
    (readWord b width.bytes (peekWord host b width.bytes (width.convert host))).map
      fun (bits, b) => (⟨width, bits⟩, b) := by
  cases width <;> rfl

theorem length_bytes (x : Signed) : x.bytes.length = x.width.bytes := by
  rw [bytes_eq, Bytes.length_bigEndian]

/-- Reading an integer takes its bytes, and nothing else. -/
theorem read_spec (host : Endian) (h : b.Inv) {x : Signed} {rest : Bytes}
    (hread : b.readable = x.bytes ++ rest) :
    ∃ b', read host b x.width = some (x, b') ∧ b'.Inv ∧ b'.readable = rest := by
  have hle : x.width.bytes ≤ b.readableBytes := by
    rw [← h.length_readable, hread, List.length_append, length_bytes]
    exact Nat.le_add_right _ _
  -- what the pointer of the reader points to is the start of what is readable
  have hslice : slice b.buffer_ b.readerIndex_ (b.readerIndex_ + x.width.bytes) = x.bytes := by
    have hprefix : b.readable.take x.width.bytes =
        slice b.buffer_ b.readerIndex_ (b.readerIndex_ + x.width.bytes) := by
      have hindex := h.reader_le_writer
      unfold Buffer.readableBytes at hle
      exact take_slice (by omega)
    rw [← hprefix, hread, ← length_bytes, List.take_left]
  have hpeek : peekWord host b x.width.bytes (x.width.convert host) = some x.bits := by
    rw [peekWord, hslice, (x.width.networkConversion host).ofMemory _ x.length_bytes, bytes_eq,
      ofNat_bigEndian]
    simp only [hle, guard_true]
    rfl
  obtain ⟨b', hretrieve, hinv, hrest⟩ := Buffer.retrieve_spec h hle
  refine ⟨b', ?_, hinv, ?_⟩
  · rw [read_eq, readWord, hpeek, hretrieve]
    rfl
  · rw [hrest, hread, ← length_bytes, List.drop_left]

/-! ## Lists -/

theorem appendAll_spec (host : Endian) (xs : List Signed) (h : b.Inv) :
    ∃ b', appendAll host b xs = some b' ∧ b'.Inv ∧
      b'.readable = b.readable ++ xs.flatMap bytes := by
  -- each integer is appended to what the ones before it have left
  induction xs generalizing b with
  | nil => exact ⟨b, rfl, h, (List.append_nil _).symm⟩
  | cons x xs ih =>
      obtain ⟨b₁, happend, hinv₁, hreadable₁⟩ := Buffer.append_spec h x.bytes
      obtain ⟨b₂, hall, hinv₂, hreadable₂⟩ := ih hinv₁
      refine ⟨b₂, ?_, hinv₂, ?_⟩
      · rw [appendAll, List.foldlM_cons, append_eq, happend]
        exact hall
      · rw [hreadable₂, hreadable₁, List.flatMap_cons, List.append_assoc]

theorem readAll_spec (host : Endian) (xs : List Signed) (h : b.Inv) {rest : Bytes}
    (hread : b.readable = xs.flatMap bytes ++ rest) :
    ∃ b', readAll host b (xs.map width) = some (xs, b') ∧ b'.Inv ∧ b'.readable = rest := by
  induction xs generalizing b with
  | nil => exact ⟨b, rfl, h, hread⟩
  | cons x xs ih =>
      rw [List.flatMap_cons, List.append_assoc] at hread
      obtain ⟨b₁, hfirst, hinv₁, hreadable₁⟩ := read_spec host h hread
      obtain ⟨b₂, hall, hinv₂, hreadable₂⟩ := ih hinv₁ hreadable₁
      refine ⟨b₂, ?_, hinv₂, hreadable₂⟩
      simp only [List.map_cons, readAll, hfirst, hall, Option.bind_eq_bind, Option.bind_some]
      rfl

/-- What has been appended is read back behind what was there before, and an integer that has been
put in front is read first. -/
theorem codec_roundTrip (host : Endian) (b : Buffer) (h : b.Inv) :
    (∀ xs, ∃ b₁ b₂ b₃, appendAll host b xs = some b₁ ∧
      b₁.readable = b.readable ++ xs.flatMap bytes ∧
      b₁.retrieve b.readableBytes = some b₂ ∧
      readAll host b₂ (xs.map width) = some (xs, b₃) ∧ b₃.readableBytes = 0) ∧
    ∀ x : Signed, x.width.bytes ≤ b.prependableBytes → ∃ b₁ b₂, prepend host b x = some b₁ ∧
      b₁.readable = x.bytes ++ b.readable ∧ read host b₁ x.width = some (x, b₂) ∧
      b₂.readable = b.readable := by
  constructor
  · intro xs
    obtain ⟨b₁, happend, hinv₁, hreadable₁⟩ := appendAll_spec host xs h
    have hle : b.readableBytes ≤ b₁.readableBytes := by
      rw [← h.length_readable, ← hinv₁.length_readable, hreadable₁, List.length_append]
      exact Nat.le_add_right _ _
    obtain ⟨b₂, hretrieve, hinv₂, hreadable₂⟩ := Buffer.retrieve_spec hinv₁ hle
    -- once the earlier contents are retrieved, only the integers are left
    have hbytes : b₂.readable = xs.flatMap bytes ++ [] := by
      rw [hreadable₂, hreadable₁, ← h.length_readable, List.drop_left, List.append_nil]
    obtain ⟨b₃, hread, hinv₃, hreadable₃⟩ := readAll_spec host xs hinv₂ hbytes
    refine ⟨b₁, b₂, b₃, happend, hreadable₁, hretrieve, hread, ?_⟩
    rw [← hinv₃.length_readable, hreadable₃, List.length_nil]
  · intro x hroom
    rw [← length_bytes] at hroom
    obtain ⟨b₁, hprepend, hinv₁, hreadable₁⟩ := Buffer.prepend_spec h hroom
    obtain ⟨b₂, hread, -, hreadable₂⟩ := read_spec host hinv₁ hreadable₁
    exact ⟨b₁, b₂, by rw [prepend_eq, hprepend], hreadable₁, hread, hreadable₂⟩

/-- One integer of each width, three of them negative. -/
def mixed : List Signed := [⟨.int8, -1⟩, ⟨.int64, -1099511627776⟩, ⟨.int16, -2⟩, ⟨.int32, 7⟩]

/-- They are appended to what a small buffer holds already, and one more is put in front. -/
theorem codec_roundTrip_negative : ∃ b, (Buffer.construct 4).append [1, 2, 3] = some b ∧
    (∃ b₁ b₂ b₃, appendAll .little b mixed = some b₁ ∧
      b₁.readable = b.readable ++ mixed.flatMap bytes ∧
      b₁.retrieve b.readableBytes = some b₂ ∧
      readAll .little b₂ [.int8, .int64, .int16, .int32] = some (mixed, b₃) ∧
      b₃.readableBytes = 0) ∧
    ∃ b₁ b₂, prepend .little b ⟨.int64, -9⟩ = some b₁ ∧
      b₁.readable = bytes ⟨.int64, -9⟩ ++ b.readable ∧
      read .little b₁ .int64 = some (⟨.int64, -9⟩, b₂) ∧ b₂.readable = b.readable := by
  obtain ⟨b, hb, hinv, -⟩ := Buffer.append_spec (Buffer.construct_inv 4) [1, 2, 3]
  have hroom : ((Buffer.construct 4).append [1, 2, 3]).map
      (fun b => decide (8 ≤ b.prependableBytes)) = some true := by decide
  rw [hb, Option.map_some, Option.some.injEq, decide_eq_true_iff] at hroom
  obtain ⟨hall, hfront⟩ := codec_roundTrip .little b hinv
  exact ⟨b, hb, hall mixed, hfront ⟨.int64, -9⟩ hroom⟩

example : mixed.flatMap bytes =
    [255] ++ [255, 255, 255, 0, 0, 0, 0, 0] ++ [255, 254] ++ [0, 0, 0, 7] := by decide

end Signed
end NetworkOrder
end Net
end Longky
