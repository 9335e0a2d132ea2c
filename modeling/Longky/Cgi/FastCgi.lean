import Mathlib.Logic.Function.Basic
import Longky.Net.WfBuffer
import Longky.Cgi.Record

/-!
# FastCgi — the request side of the codec

`FastCgiCodec` of `cgiServer/fastcgi.{h,cpp}`: one object per connection, fed by `onMessage` with
the connection's input buffer.
-/

namespace Longky
namespace Cgi

open Lib Net

/-- `typedef std::map<string, string> ParamMap`. -/
abbrev ParamMap := Bytes → Option Bytes

def kFcgiResponder : Nat := 1

def kFcgiKeepConn : UInt8 := 1

structure FastCgiCodec where
  gotRequest_ : Bool := false
  keepConn_ : Bool := false
  stdin_ : WfBuffer := WfBuffer.construct Buffer.kInitialSize
  paramsStream_ : WfBuffer := WfBuffer.construct Buffer.kInitialSize
  params_ : ParamMap := fun _ => none

namespace FastCgiCodec

/-! ## Parameters -/

/-- `static_cast<uint32_t>(-1)`. -/
def lenFailed : BitVec 32 := -1#32

def readLen (s : WfBuffer) : BitVec 32 × WfBuffer :=
  if h : 1 ≤ s.readableBytes then
    -- the top bit of the first byte selects the four-byte form
    if s.peekInt8 h &&& 0x80#8 ≠ 0#8 then
      if h₄ : 4 ≤ s.readableBytes then
        ((s.readInt32 h₄).1 &&& 0x7fffffff#32, (s.readInt32 h₄).2)
      else (lenFailed, s)
    -- an `int8_t` becomes a `uint32_t`; here its sign bit is clear
    else ((s.readInt8 h).1.signExtend 32, (s.readInt8 h).2)
  else (lenFailed, s)

theorem readInt_readableBytes (w : Nat) (s : WfBuffer) (h : w ≤ s.readableBytes) :
    (s.readInt w h).2.readableBytes = s.readableBytes - w := by
  rw [WfBuffer.readInt, WfBuffer.readableBytes_eq, WfBuffer.readable_retrieve, List.length_drop,
    WfBuffer.readableBytes_eq]

theorem readLen_le (s : WfBuffer) : (readLen s).2.readableBytes ≤ s.readableBytes := by
  unfold readLen
  split
  · split
    · split
      · rename_i h₄
        have := readInt_readableBytes 4 s h₄
        simp only [WfBuffer.readInt32]
        omega
      · exact Nat.le_refl _
    · rename_i h _
      have := readInt_readableBytes 1 s h
      simp only [WfBuffer.readInt8]
      omega
  · exact Nat.le_refl _

/-- A length that was read is below 2^31 and has been taken off the stream. -/
theorem readLen_of_ne {s : WfBuffer} (h : (readLen s).1 ≠ lenFailed) :
    (readLen s).1.toNat < 2 ^ 31 ∧ (readLen s).2.readableBytes < s.readableBytes := by
  unfold readLen at h ⊢
  split at h
  · rename_i h₁
    rw [dif_pos h₁]
    split at h
    · rename_i hbit
      rw [if_pos hbit]
      split at h
      · rename_i h₄
        have hlt := readInt_readableBytes 4 s h₄
        rw [dif_pos h₄]
        refine ⟨?_, by simp only [WfBuffer.readInt32]; omega⟩
        rw [BitVec.toNat_and]
        exact Nat.lt_of_le_of_lt Nat.and_le_right (by decide)
      · exact absurd rfl h
    · rename_i hbit
      have hlt := readInt_readableBytes 1 s h₁
      rw [if_neg hbit]
      refine ⟨?_, by simp only [WfBuffer.readInt8]; omega⟩
      have hzero : s.peekInt8 h₁ &&& 0x80#8 = 0#8 := by simpa using hbit
      -- sign extension adds nothing to a byte whose top bit is clear
      have hall : ∀ b : BitVec 8, b &&& 0x80#8 = 0#8 → (b.signExtend 32).toNat < 2 ^ 31 := by
        decide +kernel
      exact hall _ hzero
  · exact absurd rfl h

/-- `nameLen + valueLen` does not wrap, so both strings are there when their sum is. -/
theorem lengths_fit {m n : BitVec 32} {k : Nat} (hm : m.toNat < 2 ^ 31) (hn : n.toNat < 2 ^ 31)
    (h : (m + n).toNat ≤ k) : m.toNat + n.toNat ≤ k := by
  rw [BitVec.toNat_add, Nat.mod_eq_of_lt (by omega)] at h
  exact h

/-- The lengths of a pair that passed all tests of `parseAllParams` fit what is left. -/
theorem pair_fits (s : WfBuffer) (hname : (readLen s).1 ≠ lenFailed)
    (hvalue : (readLen (readLen s).2).1 ≠ lenFailed)
    (hfit : ((readLen s).1 + (readLen (readLen s).2).1).toNat ≤
      (readLen (readLen s).2).2.readableBytes) :
    (readLen s).1.toNat + (readLen (readLen s).2).1.toNat ≤
      (readLen (readLen s).2).2.readableBytes :=
  lengths_fit (readLen_of_ne hname).1 (readLen_of_ne hvalue).1 hfit

theorem name_fits (s : WfBuffer) (nameLen valueLen : Nat)
    (h : nameLen + valueLen ≤ s.readableBytes) : nameLen ≤ s.readableBytes :=
  Nat.le_of_add_right_le h

theorem value_fits (s : WfBuffer) (nameLen valueLen : Nat)
    (h : nameLen + valueLen ≤ s.readableBytes) :
    valueLen ≤ (s.retrieveAsString nameLen (name_fits s nameLen valueLen h)).2.readableBytes := by
  rw [WfBuffer.retrieveAsString, WfBuffer.readableBytes_eq, WfBuffer.readable_retrieve,
    List.length_drop, ← WfBuffer.readableBytes_eq]
  omega

/-- `retrieveAsString(nameLen)` followed by `retrieveAsString(valueLen)`. -/
def retrievePair (s : WfBuffer) (nameLen valueLen : Nat)
    (h : nameLen + valueLen ≤ s.readableBytes) : (Bytes × Bytes) × WfBuffer :=
  let name := s.retrieveAsString nameLen (name_fits s nameLen valueLen h)
  let value := name.2.retrieveAsString valueLen (value_fits s nameLen valueLen h)
  ((name.1, value.1), value.2)

theorem retrievePair_eq (s : WfBuffer) (nameLen valueLen : Nat)
    (h : nameLen + valueLen ≤ s.readableBytes) :
    (retrievePair s nameLen valueLen h).1 =
        (s.readable.take nameLen, (s.readable.drop nameLen).take valueLen) ∧
      (retrievePair s nameLen valueLen h).2.readable = s.readable.drop (nameLen + valueLen) := by
  unfold retrievePair
  simp [WfBuffer.retrieveAsString, List.drop_drop]

theorem retrievePair_le (s : WfBuffer) (nameLen valueLen : Nat)
    (h : nameLen + valueLen ≤ s.readableBytes) :
    (retrievePair s nameLen valueLen h).2.readableBytes ≤ s.readableBytes := by
  rw [WfBuffer.readableBytes_eq, (retrievePair_eq s nameLen valueLen h).2, List.length_drop,
    ← WfBuffer.readableBytes_eq]
  exact Nat.sub_le _ _

/-- The loop of `parseAllParams` over `paramsStream_` and `params_`. -/
def parseAllParams (s : WfBuffer) (params : ParamMap) : Bool × WfBuffer × ParamMap :=
  if 0 < s.readableBytes then
    if hname : (readLen s).1 = lenFailed then (false, (readLen s).2, params)
    else
      let s₁ := (readLen s).2
      if hvalue : (readLen s₁).1 = lenFailed then (false, (readLen s₁).2, params)
      else
        let nameLen := (readLen s).1
        let valueLen := (readLen s₁).1
        let s₂ := (readLen s₁).2
        -- the sum is computed in `uint32_t`
        if hfit : (nameLen + valueLen).toNat ≤ s₂.readableBytes then
          let pair := retrievePair s₂ nameLen.toNat valueLen.toNat (pair_fits s hname hvalue hfit)
          parseAllParams pair.2 (Function.update params pair.1.1 (some pair.1.2))
        else (false, s₂, params)
  else (true, s, params)
termination_by s.readableBytes
decreasing_by
  have h₁ := (readLen_of_ne hname).2
  have h₂ := readLen_le (readLen s).2
  exact Nat.lt_of_le_of_lt (retrievePair_le _ _ _ _) (Nat.lt_of_le_of_lt h₂ h₁)

/-! ## Records -/

def onParams (c : FastCgiCodec) (content : Bytes) : Bool × FastCgiCodec :=
  if 0 < content.length then
    (true, { c with paramsStream_ := c.paramsStream_.append content })
  else
    -- an empty record ends the stream; a failed parse keeps what it has entered
    let r := parseAllParams c.paramsStream_ c.params_
    (r.1, { c with paramsStream_ := r.2.1, params_ := r.2.2 })

def onStdin (c : FastCgiCodec) (content : Bytes) : FastCgiCodec :=
  if 0 < content.length then { c with stdin_ := c.stdin_.append content }
  else { c with gotRequest_ := true }

/-- `onBeginRequest`; its two assertions restate the tests of its caller. -/
def onBeginRequest (c : FastCgiCodec) (content : Bytes) : Bool × FastCgiCodec :=
  if kRecordHeader ≤ content.length then
    -- `readInt16` on the content
    let role := Bytes.ofBigEndian (content.take 2)
    let flags := content.getD 2 0
    if role = kFcgiResponder then (true, { c with keepConn_ := flags == kFcgiKeepConn })
    else (false, c)
  else (false, c)

/-- The `switch` of `parseRequest`, which ignores what the handlers return. -/
def onRecord (c : FastCgiCodec) (type : UInt8) (content : Bytes) : FastCgiCodec :=
  if type = kFcgiBeginRequest then (c.onBeginRequest content).2
  else if type = kFcgiParams then (c.onParams content).2
  else if type = kFcgiStdin then c.onStdin content
  else c

def parseRequest (c : FastCgiCodec) (buf : WfBuffer) : FastCgiCodec × WfBuffer :=
  if kRecordHeader ≤ buf.readableBytes then
    let header := RecordHeader.ofBytes buf.readable
    let total := kRecordHeader + header.length + header.padding.toNat
    if h : total ≤ buf.readableBytes then
      -- the padding is skipped with the record
      (c.onRecord header.type ((buf.readable.drop kRecordHeader).take header.length)).parseRequest
        (buf.retrieve total h)
    else (c, buf)
  else (c, buf)
termination_by buf.readableBytes
decreasing_by
  rw [WfBuffer.readableBytes_eq, WfBuffer.readable_retrieve, List.length_drop,
    ← WfBuffer.readableBytes_eq]
  unfold kRecordHeader at *
  omega

/-! ## Messages -/

/-- What one call of `onMessage` leaves and does. -/
structure Handled where
  codec : FastCgiCodec
  buf : WfBuffer
  /-- The arguments of the callback, when it is called. -/
  request : Option (ParamMap × Bytes)
  /-- `conn->shutdown()` is called. -/
  shutdown : Bool

def onMessage (c : FastCgiCodec) (buf : WfBuffer) : Handled :=
  let (c₁, buf₁) := c.parseRequest buf
  if c₁.gotRequest_ then
    { codec := { c₁ with
        stdin_ := c₁.stdin_.retrieveAll
        paramsStream_ := c₁.paramsStream_.retrieveAll
        params_ := fun _ => none
        gotRequest_ := false }
      buf := buf₁
      request := some (c₁.params_, c₁.stdin_.readable)
      shutdown := !c₁.keepConn_ }
  else { codec := c₁, buf := buf₁, request := none, shutdown := false }

/-- `shutdown` follows the callback unless the connection is kept. -/
theorem onMessage_shutdown (c : FastCgiCodec) (buf : WfBuffer) :
    (c.onMessage buf).shutdown =
      ((c.onMessage buf).request.isSome && !(c.onMessage buf).codec.keepConn_) := by
  unfold onMessage
  dsimp only
  split
  · rfl
  · rfl

/-- `parseRequest` handles the complete records of the buffer and leaves the rest. -/
theorem parseRequest_eq (c : FastCgiCodec) (buf : WfBuffer) :
    (c.parseRequest buf).1 =
        (Record.framing.decode buf.readable).1.foldl (fun c r => c.onRecord r.type r.content) c ∧
      (c.parseRequest buf).2.readable = (Record.framing.decode buf.readable).2 := by
  induction c, buf using parseRequest.induct with
  | case1 c buf hhead header total h ih =>
      -- the test of the loop is the one that finds the first record of the stream
      have hfirst : ∃ r, Record.framing.first buf.readable = some (r, total) ∧
          r.type = header.type ∧
          r.content = (buf.readable.drop kRecordHeader).take header.length := by
        rw [WfBuffer.readableBytes_eq] at hhead h
        refine ⟨_, if_pos ⟨hhead, h⟩, rfl, rfl⟩
      rcases hfirst with ⟨r, hfirst, htype, hcontent⟩
      rw [parseRequest, if_pos hhead, dif_pos h, Framing.decode_of_some hfirst]
      simpa [htype, hcontent] using ih
  | case2 c buf hhead header total h =>
      have hfirst : Record.framing.first buf.readable = none := by
        rw [WfBuffer.readableBytes_eq] at h
        exact if_neg (fun hle => h hle.2)
      rw [parseRequest, if_pos hhead, dif_neg h, Framing.decode_of_none hfirst]
      exact ⟨rfl, rfl⟩
  | case3 c buf hhead =>
      have hfirst : Record.framing.first buf.readable = none := by
        rw [WfBuffer.readableBytes_eq] at hhead
        exact if_neg (fun hle => hhead hle.1)
      rw [parseRequest, if_neg hhead, Framing.decode_of_none hfirst]
      exact ⟨rfl, rfl⟩

end FastCgiCodec
end Cgi
end Longky
