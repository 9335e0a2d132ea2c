import Longky.Lib.Bytes
import Longky.Lib.Framing

/-!
# Record — FastCGI records

The record format of `cgiServer/fastcgi.cpp`: an 8-byte header, the content and the padding.
`Record.framing` is the record decoder; `first_toBytes` says that it finds a record that has been
written.
-/

namespace Longky
namespace Cgi

open Lib

/-- `struct FastCgiCodec::RecordHeader`, with `id` and `length` in host order. -/
structure RecordHeader where
  version : UInt8
  type : UInt8
  id : Nat
  length : Nat
  padding : UInt8
  unused : UInt8
  deriving DecidableEq, Repr

/-- `sizeof(RecordHeader)`. -/
def kRecordHeader : Nat := 8

/-! ## Record types -/

def kFcgiBeginRequest : UInt8 := 1

def kFcgiEndRequest : UInt8 := 3

def kFcgiParams : UInt8 := 4

def kFcgiStdin : UInt8 := 5

def kFcgiStdout : UInt8 := 6

namespace RecordHeader

/-- The header as it lies in memory and on the wire. -/
def toBytes (h : RecordHeader) : Bytes :=
  [h.version, h.type] ++ Bytes.bigEndian 2 h.id ++ Bytes.bigEndian 2 h.length ++
    [h.padding, h.unused]

/-- `memcpy(&header, ..., kRecordHeader)` followed by the two `networkToHost16`. -/
def ofBytes (bs : Bytes) : RecordHeader where
  version := bs.getD 0 0
  type := bs.getD 1 0
  id := Bytes.ofBigEndian [bs.getD 2 0, bs.getD 3 0]
  length := Bytes.ofBigEndian [bs.getD 4 0, bs.getD 5 0]
  padding := bs.getD 6 0
  unused := bs.getD 7 0

@[simp] theorem length_toBytes (h : RecordHeader) : h.toBytes.length = kRecordHeader := by
  simp [toBytes, kRecordHeader]

theorem ofBytes_append {xs : Bytes} (h : kRecordHeader ≤ xs.length) (ys : Bytes) :
    ofBytes (xs ++ ys) = ofBytes xs := by
  have hget : ∀ i, i < 8 → (xs ++ ys).getD i 0 = xs.getD i 0 := by
    intro i hi
    rw [List.getD_eq_getElem?_getD, List.getElem?_append_left (Nat.lt_of_lt_of_le hi h),
      List.getD_eq_getElem?_getD]
  rw [ofBytes, ofBytes, hget 0 (by decide), hget 1 (by decide), hget 2 (by decide),
    hget 3 (by decide), hget 4 (by decide), hget 5 (by decide), hget 6 (by decide),
    hget 7 (by decide)]

theorem bigEndian_two (n : Nat) :
    Bytes.bigEndian 2 n = [UInt8.ofNat (n / 256), UInt8.ofNat n] := by
  simp [Bytes.bigEndian]

theorem ofBytes_toBytes {h : RecordHeader} (hid : h.id < 65536) (hlen : h.length < 65536)
    (ys : Bytes) : ofBytes (h.toBytes ++ ys) = h := by
  have hback : ∀ n, n < 65536 → Bytes.ofBigEndian [UInt8.ofNat (n / 256), UInt8.ofNat n] = n := by
    intro n hn
    rw [← bigEndian_two]
    exact Bytes.ofBigEndian_bigEndian_of_lt (by simpa using hn)
  cases h
  simp only [toBytes, bigEndian_two] at *
  simp [ofBytes, hback _ hid, hback _ hlen]

theorem length_ofBytes_lt (bs : Bytes) : (ofBytes bs).length < 65536 := by
  have h₁ := (bs.getD 4 0).toNat_lt
  have h₂ := (bs.getD 5 0).toNat_lt
  simp only [ofBytes, Bytes.ofBigEndian, List.foldl_cons, List.foldl_nil]
  omega

end RecordHeader

/-- A record; its lengths fit their header fields. -/
structure Record where
  version : UInt8 := 1
  type : UInt8
  id : UInt16
  content : Bytes
  padding : Bytes
  unused : UInt8 := 0
  content_lt : content.length < 65536
  padding_lt : padding.length < 256

namespace Record

theorem no_content_lt : ([] : Bytes).length < 65536 := by decide

theorem no_padding_lt : ([] : Bytes).length < 256 := by decide

def header (r : Record) : RecordHeader where
  version := r.version
  type := r.type
  id := r.id.toNat
  length := r.content.length
  padding := UInt8.ofNat r.padding.length
  unused := r.unused

def toBytes (r : Record) : Bytes :=
  r.header.toBytes ++ r.content ++ r.padding

/-- The size of the record on the wire. -/
def size (r : Record) : Nat := kRecordHeader + r.content.length + r.padding.length

theorem length_toBytes (r : Record) : r.toBytes.length = r.size := by
  simp [toBytes, size, Nat.add_assoc]

/-- The first record of a stream, with its size `total`. -/
def first (bs : Bytes) : Option (Record × Nat) :=
  let header := RecordHeader.ofBytes bs
  let total := kRecordHeader + header.length + header.padding.toNat
  if kRecordHeader ≤ bs.length ∧ total ≤ bs.length then
    some ({
      version := header.version
      type := header.type
      id := UInt16.ofNat header.id
      content := (bs.drop kRecordHeader).take header.length
      padding := (bs.drop (kRecordHeader + header.length)).take header.padding.toNat
      unused := header.unused
      content_lt := Nat.lt_of_le_of_lt (List.length_take_le _ _) (RecordHeader.length_ofBytes_lt bs)
      padding_lt := Nat.lt_of_le_of_lt (List.length_take_le _ _) header.padding.toNat_lt }, total)
  else none

theorem first_eq_some {bs : Bytes} {r : Record} {n : Nat} (h : first bs = some (r, n)) :
    kRecordHeader ≤ bs.length ∧
      n = kRecordHeader + (RecordHeader.ofBytes bs).length + (RecordHeader.ofBytes bs).padding.toNat ∧
      n ≤ bs.length := by
  unfold first at h
  dsimp only at h
  split at h
  · rename_i hle
    cases h
    exact ⟨hle.1, rfl, hle.2⟩
  · cases h

theorem first_append {xs : Bytes} {r : Record} {n : Nat} (ys : Bytes)
    (h : first xs = some (r, n)) : first (xs ++ ys) = some (r, n) := by
  rcases first_eq_some h with ⟨hhead, hn, hle⟩
  rw [← h]
  unfold first
  have hlen : kRecordHeader + (RecordHeader.ofBytes xs).length ≤ xs.length := by omega
  -- content and padding lie within `xs`, so what follows does not show
  have hcontent : ((xs ++ ys).drop kRecordHeader).take (RecordHeader.ofBytes xs).length =
      (xs.drop kRecordHeader).take (RecordHeader.ofBytes xs).length := by
    rw [List.drop_append_of_le_length hhead, List.take_append_of_le_length]
    rw [List.length_drop]
    omega
  have hpadding : ((xs ++ ys).drop (kRecordHeader + (RecordHeader.ofBytes xs).length)).take
        (RecordHeader.ofBytes xs).padding.toNat =
      (xs.drop (kRecordHeader + (RecordHeader.ofBytes xs).length)).take
        (RecordHeader.ofBytes xs).padding.toNat := by
    rw [List.drop_append_of_le_length hlen, List.take_append_of_le_length]
    rw [List.length_drop]
    omega
  simp only [RecordHeader.ofBytes_append hhead, hcontent, hpadding, List.length_append]
  rw [if_pos (by omega), if_pos (by omega)]

/-- A written record is found at the front of any stream. -/
theorem first_toBytes (r : Record) (ys : Bytes) :
    first (r.toBytes ++ ys) = some (r, r.toBytes.length) := by
  have hheader : RecordHeader.ofBytes (r.toBytes ++ ys) = r.header := by
    rw [toBytes, List.append_assoc, List.append_assoc]
    exact RecordHeader.ofBytes_toBytes r.id.toNat_lt r.content_lt _
  have hpad : (UInt8.ofNat r.padding.length).toNat = r.padding.length := by
    rw [UInt8.toNat_ofNat']
    exact Nat.mod_eq_of_lt r.padding_lt
  have hcontent : (r.toBytes ++ ys).drop kRecordHeader = r.content ++ (r.padding ++ ys) := by
    rw [toBytes, List.append_assoc, List.append_assoc, ← RecordHeader.length_toBytes r.header,
      List.drop_left]
  have hpadding : (r.toBytes ++ ys).drop (kRecordHeader + r.content.length) = r.padding ++ ys := by
    calc
      (r.toBytes ++ ys).drop (kRecordHeader + r.content.length)
          = ((r.toBytes ++ ys).drop kRecordHeader).drop r.content.length := List.drop_drop.symm
      _ = (r.content ++ (r.padding ++ ys)).drop r.content.length := by rw [hcontent]
      _ = r.padding ++ ys := List.drop_left
  have hlen : (r.toBytes ++ ys).length = r.size + ys.length := by
    rw [List.length_append, length_toBytes]
  unfold first
  simp only [hheader, header, hpad, hcontent, hpadding, hlen, List.take_left, length_toBytes]
  rw [if_pos (by unfold size; omega)]
  simp [size]

def framing : Framing UInt8 Record where
  first := first
  first_pos h := by
    rcases first_eq_some h with ⟨-, hn, -⟩
    unfold kRecordHeader at hn
    omega
  first_le h := (first_eq_some h).2.2
  first_append ys h := first_append ys h

/-- The decoder splits a stream of written records completely. -/
theorem decode_toBytes (rs : List Record) : framing.decode (rs.flatMap toBytes) = (rs, []) := by
  have hall := Framing.decode_flatMap (F := framing) first_toBytes rs []
  rwa [List.append_nil, Framing.decode_nil, List.append_nil] at hall

end Record
end Cgi
end Longky
