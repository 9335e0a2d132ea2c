import Longky.Cgi.Requests

/-!
# CodecChecks — the codec with its assertions

`FastCgiCodec` of `cgiServer/fastcgi.{h,cpp}` once more, over plain buffers: an `assert` that fails
and a read outside the readable part of a buffer are failures, `none`.

`onMessage_safe`: from a fresh connection no sequence of reads fails, and what waits in the input
buffer between the calls is less than a record.  The proof is a refinement: on buffers that keep
their invariant each function does what the total one of `FastCgi` does.
-/

namespace Longky
namespace Cgi

open Lib Lib.Storage Net

/-- The bytes at `peek() + offset`, all of which have to be readable. -/
def peekBytes (b : Buffer) (offset len : Nat) : Option Bytes := do
  guard (offset + len ≤ b.readableBytes)
  return slice b.buffer_ (b.readerIndex_ + offset) (b.readerIndex_ + offset + len)

theorem peekBytes_raw (b : WfBuffer) {offset len : Nat} (h : offset + len ≤ b.readableBytes) :
    peekBytes b.raw offset len = some ((b.readable.drop offset).take len) := by
  have hguard : offset + len ≤ b.raw.readableBytes := h
  have hend : b.raw.readerIndex_ + offset + len ≤ b.raw.writerIndex_ := by
    have hle := b.inv.reader_le_writer
    unfold Buffer.readableBytes at hguard
    omega
  simp only [peekBytes, hguard, guard_true, WfBuffer.readable, Buffer.readable, drop_slice]
  rw [take_slice hend]
  rfl

/-! ## The functions of the codec -/

structure RawCodec where
  gotRequest_ : Bool
  keepConn_ : Bool
  stdin_ : Buffer
  paramsStream_ : Buffer
  params_ : ParamMap

namespace RawCodec

def construct : RawCodec where
  gotRequest_ := false
  keepConn_ := false
  stdin_ := Buffer.construct Buffer.kInitialSize
  paramsStream_ := Buffer.construct Buffer.kInitialSize
  params_ := fun _ => none

def readLen (s : Buffer) : Option (BitVec 32 × Buffer) := do
  if 1 ≤ s.readableBytes then
    let byte ← s.peekInt8
    if byte &&& 0x80#8 ≠ 0#8 then
      if 4 ≤ s.readableBytes then
        let (x, s') ← s.readInt32
        return (x &&& 0x7fffffff#32, s')
      else
        return (FastCgiCodec.lenFailed, s)
    else
      let (x, s') ← s.readInt8
      return (x.signExtend 32, s')
  else
    return (FastCgiCodec.lenFailed, s)

/-- How a round of the loop of `parseAllParams` ends. -/
inductive Round where
  | failed (s : Buffer)
  | entered (s : Buffer) (name value : Bytes)

/-- The body of the loop of `parseAllParams`. -/
def parseParam (s : Buffer) : Option Round := do
  let (nameLen, s₁) ← readLen s
  if nameLen = FastCgiCodec.lenFailed then
    return .failed s₁
  else
    let (valueLen, s₂) ← readLen s₁
    if valueLen = FastCgiCodec.lenFailed then
      return .failed s₂
    else if (nameLen + valueLen).toNat ≤ s₂.readableBytes then
      let (name, s₃) ← s₂.retrieveAsString nameLen.toNat
      let (value, s₄) ← s₃.retrieveAsString valueLen.toNat
      return .entered s₄ name value
    else
      return .failed s₂

theorem readableBytes_of_readInt {w : Nat} {b b' : Buffer} {x : BitVec (8 * w)}
    (h : b.readInt w = some (x, b')) : b'.readableBytes = b.readableBytes - w := by
  unfold Buffer.readInt at h
  rcases Option.bind_eq_some_iff.1 h with ⟨y, -, h⟩
  rcases Option.bind_eq_some_iff.1 h with ⟨b₁, hret, h⟩
  cases h
  exact (Buffer.readableBytes_of_retrieve hret).1

theorem readableBytes_of_retrieveAsString {len : Nat} {b b' : Buffer} {bs : Bytes}
    (h : b.retrieveAsString len = some (bs, b')) : b'.readableBytes ≤ b.readableBytes := by
  unfold Buffer.retrieveAsString at h
  rcases Option.bind_eq_some_iff.1 h with ⟨-, -, h⟩
  rcases Option.bind_eq_some_iff.1 h with ⟨b₁, hret, h⟩
  cases h
  have := (Buffer.readableBytes_of_retrieve hret).1
  omega

theorem readableBytes_of_readLen {s s' : Buffer} {n : BitVec 32} (h : readLen s = some (n, s')) :
    s'.readableBytes ≤ s.readableBytes ∧
      (n ≠ FastCgiCodec.lenFailed → s'.readableBytes < s.readableBytes) := by
  unfold readLen at h
  split at h
  · rcases Option.bind_eq_some_iff.1 h with ⟨byte, -, h⟩
    dsimp only at h
    split at h
    · split at h
      · rcases Option.bind_eq_some_iff.1 h with ⟨⟨x, s₁⟩, hread, h⟩
        cases h
        have hlen : s₁.readableBytes = _ := readableBytes_of_readInt hread
        dsimp only
        omega
      · cases h
        exact ⟨Nat.le_refl _, fun hne => absurd rfl hne⟩
    · rcases Option.bind_eq_some_iff.1 h with ⟨⟨x, s₁⟩, hread, h⟩
      cases h
      have hlen : s₁.readableBytes = _ := readableBytes_of_readInt hread
      dsimp only
      omega
  · cases h
    exact ⟨Nat.le_refl _, fun hne => absurd rfl hne⟩

/-- A pair that is entered has been taken off the stream. -/
theorem readableBytes_of_parseParam {s s' : Buffer} {name value : Bytes}
    (h : parseParam s = some (.entered s' name value)) : s'.readableBytes < s.readableBytes := by
  unfold parseParam at h
  rcases Option.bind_eq_some_iff.1 h with ⟨⟨nameLen, s₁⟩, hname, h⟩
  dsimp only at h
  split at h
  · cases h
  · rename_i hne
    rcases Option.bind_eq_some_iff.1 h with ⟨⟨valueLen, s₂⟩, hvalue, h⟩
    dsimp only at h
    split at h
    · cases h
    · split at h
      · rcases Option.bind_eq_some_iff.1 h with ⟨⟨_, s₃⟩, hget₁, h⟩
        rcases Option.bind_eq_some_iff.1 h with ⟨⟨_, s₄⟩, hget₂, h⟩
        cases h
        have h₁ := (readableBytes_of_readLen hname).2 hne
        have h₂ := (readableBytes_of_readLen hvalue).1
        have h₃ : s₃.readableBytes ≤ s₂.readableBytes := readableBytes_of_retrieveAsString hget₁
        have h₄ : s₄.readableBytes ≤ s₃.readableBytes := readableBytes_of_retrieveAsString hget₂
        dsimp only
        omega
      · cases h

def parseAllParams (s : Buffer) (params : ParamMap) : Option (Bool × Buffer × ParamMap) :=
  if 0 < s.readableBytes then
    match _h : parseParam s with
    | none => none
    | some (.failed s') => some (false, s', params)
    | some (.entered s' name value) =>
        parseAllParams s' (Function.update params name (some value))
  else some (true, s, params)
termination_by s.readableBytes
decreasing_by exact readableBytes_of_parseParam _h

def onParams (c : RawCodec) (content : Bytes) : Option (Bool × RawCodec) := do
  if 0 < content.length then
    let s ← c.paramsStream_.append content
    return (true, { c with paramsStream_ := s })
  else
    let (ok, s, params) ← parseAllParams c.paramsStream_ c.params_
    return (ok, { c with paramsStream_ := s, params_ := params })

def onStdin (c : RawCodec) (content : Bytes) : Option RawCodec := do
  if 0 < content.length then
    let s ← c.stdin_.append content
    return { c with stdin_ := s }
  else
    return { c with gotRequest_ := true }

def onBeginRequest (c : RawCodec) (header : RecordHeader) (buf : Buffer) :
    Option (Bool × RawCodec) := do
  guard (header.length ≤ buf.readableBytes)
  guard (header.type = kFcgiBeginRequest)
  if kRecordHeader ≤ header.length then
    let role ← peekBytes buf kRecordHeader 2
    let flags ← peekBytes buf (kRecordHeader + 2) 1
    if Bytes.ofBigEndian role = kFcgiResponder then
      return (true, { c with keepConn_ := flags.getD 0 0 == kFcgiKeepConn })
    else
      return (false, c)
  else
    return (false, c)

/-- The `switch` of `parseRequest`. -/
def onRecord (c : RawCodec) (header : RecordHeader) (buf : Buffer) : Option RawCodec := do
  if header.type = kFcgiBeginRequest then
    let (_, c') ← c.onBeginRequest header buf
    return c'
  else if header.type = kFcgiParams then
    let content ← peekBytes buf kRecordHeader header.length
    let (_, c') ← c.onParams content
    return c'
  else if header.type = kFcgiStdin then
    let content ← peekBytes buf kRecordHeader header.length
    c.onStdin content
  else
    return c

def parseRequest (c : RawCodec) (buf : Buffer) : Option (RawCodec × Buffer) :=
  if kRecordHeader ≤ buf.readableBytes then
    match peekBytes buf 0 kRecordHeader with
    | none => none
    | some bs =>
        let header := RecordHeader.ofBytes bs
        let total := kRecordHeader + header.length + header.padding.toNat
        if total ≤ buf.readableBytes then
          match c.onRecord header buf, _h : buf.retrieve total with
          | some c', some buf' => c'.parseRequest buf'
          | _, _ => none
        else some (c, buf)
  else some (c, buf)
termination_by buf.readableBytes
decreasing_by
  have hlen := Buffer.readableBytes_of_retrieve _h
  have hpos : 8 ≤ total := by
    simp only [total, kRecordHeader]
    omega
  omega

/-- What one call of `onMessage` leaves and does. -/
structure Handled where
  codec : RawCodec
  buf : Buffer
  request : Option (ParamMap × Bytes)
  shutdown : Bool

def onMessage (c : RawCodec) (buf : Buffer) : Option Handled := do
  let (c₁, buf₁) ← c.parseRequest buf
  if c₁.gotRequest_ then
    return {
      codec := { c₁ with
        stdin_ := c₁.stdin_.retrieveAll
        paramsStream_ := c₁.paramsStream_.retrieveAll
        params_ := fun _ => none
        gotRequest_ := false }
      buf := buf₁
      request := some (c₁.params_, c₁.stdin_.readable)
      shutdown := !c₁.keepConn_ }
  else
    return { codec := c₁, buf := buf₁, request := none, shutdown := false }

/-! ## Refinement of the codec without assertions -/

/-- The codec of `FastCgi` without the proofs its buffers carry. -/
def ofCodec (c : FastCgiCodec) : RawCodec where
  gotRequest_ := c.gotRequest_
  keepConn_ := c.keepConn_
  stdin_ := c.stdin_.raw
  paramsStream_ := c.paramsStream_.raw
  params_ := c.params_

theorem readInt_raw (w : Nat) (b : WfBuffer) (h : w ≤ b.readableBytes) :
    b.raw.readInt w = some ((b.readInt w h).1, (b.readInt w h).2.raw) := by
  simp [Buffer.readInt, WfBuffer.raw_peekInt w b h, WfBuffer.raw_retrieve b w h, WfBuffer.readInt]

theorem readLen_raw (s : WfBuffer) :
    readLen s.raw = some ((FastCgiCodec.readLen s).1, (FastCgiCodec.readLen s).2.raw) := by
  unfold readLen FastCgiCodec.readLen
  by_cases h₁ : 1 ≤ s.readableBytes
  · have hone : 1 ≤ s.raw.readableBytes := h₁
    have hpeek : s.raw.peekInt8 = some (s.peekInt8 h₁) := WfBuffer.raw_peekInt 1 s h₁
    rw [if_pos hone, dif_pos h₁, hpeek, Option.bind_eq_bind, Option.bind_some]
    by_cases hbit : s.peekInt8 h₁ &&& 0x80#8 ≠ 0#8
    · rw [if_pos hbit, if_pos hbit]
      by_cases h₄ : 4 ≤ s.readableBytes
      · have hfour : 4 ≤ s.raw.readableBytes := h₄
        rw [if_pos hfour, dif_pos h₄, Buffer.readInt32, readInt_raw 4 s h₄]
        rfl
      · have hfour : ¬ 4 ≤ s.raw.readableBytes := h₄
        rw [if_neg hfour, dif_neg h₄]
        rfl
    · rw [if_neg hbit, if_neg hbit, Buffer.readInt8, readInt_raw 1 s h₁]
      rfl
  · have hone : ¬ 1 ≤ s.raw.readableBytes := h₁
    rw [if_neg hone, dif_neg h₁]
    rfl

theorem parseAllParams_raw (s : WfBuffer) (params : ParamMap) :
    parseAllParams s.raw params =
      some ((FastCgiCodec.parseAllParams s params).1, (FastCgiCodec.parseAllParams s params).2.1.raw,
        (FastCgiCodec.parseAllParams s params).2.2) := by
  -- along the rounds of the codec without assertions: each round is one of `parseParam`
  induction s, params using FastCgiCodec.parseAllParams.induct with
  | case1 s params hpos hname =>
      have hround : parseParam s.raw = some (.failed (FastCgiCodec.readLen s).2.raw) := by
        simp [parseParam, readLen_raw, hname]
      have hraw : 0 < s.raw.readableBytes := hpos
      rw [parseAllParams, if_pos hraw, hround, FastCgiCodec.parseAllParams, if_pos hpos,
        dif_pos hname]
  | case2 s params hpos hname s₁ hvalue =>
      have hround : parseParam s.raw = some (.failed (FastCgiCodec.readLen s₁).2.raw) := by
        simp [parseParam, readLen_raw, hname, s₁, hvalue]
      have hraw : 0 < s.raw.readableBytes := hpos
      rw [parseAllParams, if_pos hraw, hround, FastCgiCodec.parseAllParams, if_pos hpos,
        dif_neg hname]
      dsimp only
      rw [dif_pos hvalue]
  | case3 s params hpos hname s₁ hvalue nameLen valueLen s₂ hfit pair ih =>
      -- the test of the two lengths is what makes both `retrieveAsString` safe
      have hsum := FastCgiCodec.pair_fits s hname hvalue hfit
      have hround : parseParam s.raw = some (.entered pair.2.raw pair.1.1 pair.1.2) := by
        have hfitRaw : ((FastCgiCodec.readLen s).1 + (FastCgiCodec.readLen s₁).1).toNat ≤
            s₂.raw.readableBytes := hfit
        have hget₁ := WfBuffer.raw_retrieveAsString s₂ nameLen.toNat
          (FastCgiCodec.name_fits s₂ _ _ hsum)
        have hget₂ := WfBuffer.raw_retrieveAsString _ valueLen.toNat
          (FastCgiCodec.value_fits s₂ _ _ hsum)
        simp only [parseParam, readLen_raw, Option.bind_eq_bind, Option.bind_some]
        rw [if_neg hname]
        dsimp only [s₁] at hvalue hfitRaw
        rw [if_neg hvalue, if_pos hfitRaw]
        change (s₂.raw.retrieveAsString nameLen.toNat).bind _ = _
        rw [hget₁, Option.bind_some]
        change (Buffer.retrieveAsString _ valueLen.toNat).bind _ = _
        rw [hget₂, Option.bind_some]
        rfl
      have hraw : 0 < s.raw.readableBytes := hpos
      rw [parseAllParams, if_pos hraw, hround, FastCgiCodec.parseAllParams, if_pos hpos,
        dif_neg hname]
      dsimp only
      rw [dif_neg hvalue, dif_pos hfit]
      exact ih
  | case4 s params hpos hname s₁ hvalue nameLen valueLen s₂ hfit =>
      have hround : parseParam s.raw = some (.failed s₂.raw) := by
        have hfitRaw : ¬ ((FastCgiCodec.readLen s).1 + (FastCgiCodec.readLen s₁).1).toNat ≤
            s₂.raw.readableBytes := hfit
        simp only [parseParam, readLen_raw, Option.bind_eq_bind, Option.bind_some]
        rw [if_neg hname]
        dsimp only [s₁] at hvalue hfitRaw
        rw [if_neg hvalue, if_neg hfitRaw]
        rfl
      have hraw : 0 < s.raw.readableBytes := hpos
      rw [parseAllParams, if_pos hraw, hround, FastCgiCodec.parseAllParams, if_pos hpos,
        dif_neg hname]
      dsimp only
      rw [dif_neg hvalue, dif_neg hfit]
  | case5 s params hpos =>
      have hraw : ¬ 0 < s.raw.readableBytes := hpos
      rw [parseAllParams, if_neg hraw, FastCgiCodec.parseAllParams, if_neg hpos]

theorem onParams_ofCodec (c : FastCgiCodec) (content : Bytes) :
    (ofCodec c).onParams content =
      some ((c.onParams content).1, ofCodec (c.onParams content).2) := by
  unfold onParams FastCgiCodec.onParams
  by_cases hpos : 0 < content.length
  · simp [hpos, ofCodec, WfBuffer.raw_append]
  · simp [hpos, ofCodec, parseAllParams_raw]

theorem onStdin_ofCodec (c : FastCgiCodec) (content : Bytes) :
    (ofCodec c).onStdin content = some (ofCodec (c.onStdin content)) := by
  unfold onStdin FastCgiCodec.onStdin
  by_cases hpos : 0 < content.length
  · simp [hpos, ofCodec, WfBuffer.raw_append]
  · simp [hpos, ofCodec]

/-- The content of a record that is complete can be read. -/
theorem onBeginRequest_ofCodec (c : FastCgiCodec) {header : RecordHeader} {buf : WfBuffer}
    (htype : header.type = kFcgiBeginRequest)
    (hlen : kRecordHeader + header.length ≤ buf.readableBytes) :
    (ofCodec c).onBeginRequest header buf.raw =
      some ((c.onBeginRequest ((buf.readable.drop kRecordHeader).take header.length)).1,
        ofCodec (c.onBeginRequest ((buf.readable.drop kRecordHeader).take header.length)).2) := by
  have hassert : header.length ≤ buf.raw.readableBytes := Nat.le_of_add_left_le hlen
  -- the role and the flags lie inside the content
  have hcontent : ((buf.readable.drop kRecordHeader).take header.length).length =
      header.length := by
    rw [WfBuffer.readableBytes_eq] at hlen
    rw [List.length_take, List.length_drop]
    omega
  unfold onBeginRequest FastCgiCodec.onBeginRequest
  simp only [hassert, htype, guard_true, Option.pure_def, Option.bind_eq_bind, Option.bind_some]
  by_cases hfull : kRecordHeader ≤ header.length
  · have htake : ((buf.readable.drop kRecordHeader).take header.length).take 2 =
        (buf.readable.drop kRecordHeader).take 2 := by
      rw [List.take_take, Nat.min_eq_left (Nat.le_trans (by decide) hfull)]
    have hflags : ((buf.readable.drop kRecordHeader).take header.length).getD 2 0 =
        ((buf.readable.drop (kRecordHeader + 2)).take 1).getD 0 0 := by
      have hlt : 2 < header.length := Nat.lt_of_lt_of_le (by decide) hfull
      simp [List.getD_eq_getElem?_getD, hlt]
    have height : 8 ≤ header.length := hfull
    have hrole : peekBytes buf.raw kRecordHeader 2 = _ := peekBytes_raw buf (by omega)
    have hflag : peekBytes buf.raw (kRecordHeader + 2) 1 = _ := peekBytes_raw buf (by omega)
    rw [if_pos hfull, hrole, Option.bind_some, hflag, Option.bind_some, hcontent, if_pos hfull,
      htake, hflags]
    split <;> rfl
  · rw [if_neg hfull, hcontent, if_neg hfull]

theorem onRecord_ofCodec (c : FastCgiCodec) {header : RecordHeader} {buf : WfBuffer}
    (hlen : kRecordHeader + header.length ≤ buf.readableBytes) :
    (ofCodec c).onRecord header buf.raw =
      some (ofCodec (c.onRecord header.type
        ((buf.readable.drop kRecordHeader).take header.length))) := by
  unfold onRecord FastCgiCodec.onRecord
  by_cases hbegin : header.type = kFcgiBeginRequest
  · rw [if_pos hbegin, if_pos hbegin, onBeginRequest_ofCodec c hbegin hlen]
    rfl
  · rw [if_neg hbegin, if_neg hbegin]
    by_cases hparams : header.type = kFcgiParams
    · rw [if_pos hparams, if_pos hparams, peekBytes_raw buf hlen, Option.bind_eq_bind,
        Option.bind_some, onParams_ofCodec]
      rfl
    · rw [if_neg hparams, if_neg hparams]
      by_cases hstdin : header.type = kFcgiStdin
      · rw [if_pos hstdin, if_pos hstdin, peekBytes_raw buf hlen, Option.bind_eq_bind,
          Option.bind_some, onStdin_ofCodec]
      · rw [if_neg hstdin, if_neg hstdin]
        rfl

theorem peekHeader_raw (buf : WfBuffer) (h : kRecordHeader ≤ buf.readableBytes) :
    peekBytes buf.raw 0 kRecordHeader = some (buf.readable.take kRecordHeader) := by
  rw [peekBytes_raw buf (by omega), List.drop_zero]

theorem header_take (buf : WfBuffer) (h : kRecordHeader ≤ buf.readableBytes) :
    RecordHeader.ofBytes (buf.readable.take kRecordHeader) = RecordHeader.ofBytes buf.readable := by
  have hlen : kRecordHeader ≤ (buf.readable.take kRecordHeader).length := by
    rw [WfBuffer.readableBytes_eq] at h
    rw [List.length_take]
    omega
  have happend := RecordHeader.ofBytes_append hlen (buf.readable.drop kRecordHeader)
  rw [List.take_append_drop] at happend
  exact happend.symm

theorem parseRequest_ofCodec (c : FastCgiCodec) (buf : WfBuffer) :
    (ofCodec c).parseRequest buf.raw =
      some (ofCodec (c.parseRequest buf).1, (c.parseRequest buf).2.raw) := by
  -- along the records: a record is handled only when it is complete, so every access is readable
  induction c, buf using FastCgiCodec.parseRequest.induct with
  | case1 c buf hhead header total h ih =>
      have hraw : kRecordHeader ≤ buf.raw.readableBytes := hhead
      have htotal : total ≤ buf.raw.readableBytes := h
      have hrecord : (ofCodec c).onRecord header buf.raw = _ :=
        onRecord_ofCodec c (Nat.le_trans (Nat.le_add_right _ header.padding.toNat) h)
      have hretrieve := WfBuffer.raw_retrieve buf total h
      rw [parseRequest, if_pos hraw, peekHeader_raw buf hhead]
      dsimp only
      rw [header_take buf hhead, if_pos htotal, FastCgiCodec.parseRequest, if_pos hhead]
      dsimp only
      rw [dif_pos h]
      split
      · rename_i c' buf' hc' hbuf'
        rw [hrecord] at hc'
        rw [hretrieve] at hbuf'
        cases hc'
        cases hbuf'
        exact ih
      · rename_i hnone
        exact absurd hretrieve (hnone _ _ hrecord)
  | case2 c buf hhead header total h =>
      have hraw : kRecordHeader ≤ buf.raw.readableBytes := hhead
      have htotal : ¬ total ≤ buf.raw.readableBytes := h
      rw [parseRequest, if_pos hraw, peekHeader_raw buf hhead]
      dsimp only
      rw [header_take buf hhead, if_neg htotal, FastCgiCodec.parseRequest, if_pos hhead]
      dsimp only
      rw [dif_neg h]
  | case3 c buf hhead =>
      have hraw : ¬ kRecordHeader ≤ buf.raw.readableBytes := hhead
      rw [parseRequest, if_neg hraw, FastCgiCodec.parseRequest, if_neg hhead]

theorem onMessage_ofCodec (c : FastCgiCodec) (buf : WfBuffer) :
    (ofCodec c).onMessage buf.raw = some {
      codec := ofCodec (c.onMessage buf).codec
      buf := (c.onMessage buf).buf.raw
      request := (c.onMessage buf).request
      shutdown := (c.onMessage buf).shutdown } := by
  unfold onMessage FastCgiCodec.onMessage
  rw [parseRequest_ofCodec, Option.bind_eq_bind, Option.bind_some]
  cases hgot : (c.parseRequest buf).1.gotRequest_ with
  | true => simp [ofCodec, hgot, WfBuffer.retrieveAll, WfBuffer.readable]
  | false => simp [ofCodec, hgot]

end RawCodec

/-! ## Runs -/

/-- A connection's codec and input buffer. -/
structure RawEndpoint where
  codec : RawCodec := RawCodec.construct
  inputBuffer_ : Buffer := Buffer.construct Buffer.kInitialSize

namespace RawEndpoint

/-- One read: the bytes are appended to the input buffer and `onMessage` is called. -/
def receive (e : RawEndpoint) (data : Bytes) : Option RawEndpoint := do
  let buf ← e.inputBuffer_.readFd data
  let h ← e.codec.onMessage buf
  return { codec := h.codec, inputBuffer_ := h.buf }

def receiveAll (e : RawEndpoint) (reads : List Bytes) : Option RawEndpoint :=
  reads.foldlM receive e

/-- The endpoint of `Requests` without the proofs its buffers carry. -/
def ofEndpoint (e : Endpoint) : RawEndpoint where
  codec := RawCodec.ofCodec e.codec
  inputBuffer_ := e.inputBuffer_.raw

theorem receive_ofEndpoint (e : Endpoint) (data : Bytes) :
    (ofEndpoint e).receive data = some (ofEndpoint (e.receive data)) := by
  unfold receive
  rw [ofEndpoint, WfBuffer.raw_readFd, Option.bind_eq_bind, Option.bind_some,
    RawCodec.onMessage_ofCodec]
  rfl

theorem receiveAll_ofEndpoint (e : Endpoint) (reads : List Bytes) :
    (ofEndpoint e).receiveAll reads = some (ofEndpoint (e.receiveAll reads)) := by
  induction reads generalizing e with
  | nil => rfl
  | cons data reads ih =>
      rw [receiveAll, List.foldlM_cons, receive_ofEndpoint]
      exact ih (e.receive data)

/-- The bytes are fewer than the record that they begin. -/
def Incomplete (bs : Bytes) : Prop :=
  bs.length < kRecordHeader ∨
    bs.length < kRecordHeader + (RecordHeader.ofBytes bs).length +
      (RecordHeader.ofBytes bs).padding.toNat

theorem incomplete_of_decode {bs : Bytes} (h : Record.framing.decode bs = ([], bs)) :
    Incomplete bs := by
  by_cases hhead : bs.length < kRecordHeader
  · exact Or.inl hhead
  · refine Or.inr (Nat.lt_of_not_le fun hle => ?_)
    -- otherwise the decoder would find a record
    have hfirst : ∃ r n, Record.framing.first bs = some (r, n) :=
      ⟨_, _, if_pos ⟨Nat.le_of_not_lt hhead, hle⟩⟩
    rcases hfirst with ⟨r, n, hfirst⟩
    rw [Framing.decode_of_some hfirst] at h
    cases congrArg Prod.fst h

theorem incomplete_receive (e : Endpoint) (data : Bytes) :
    Incomplete (e.receive data).inputBuffer_.readable := by
  have hrest := Framing.decode_rest (F := Record.framing) (e.inputBuffer_.readable ++ data)
  rw [← (Endpoint.receive_spec e data rfl).1] at hrest
  exact incomplete_of_decode hrest

theorem incomplete_receiveAll (e : Endpoint) (h : Incomplete e.inputBuffer_.readable)
    (reads : List Bytes) : Incomplete (e.receiveAll reads).inputBuffer_.readable := by
  induction reads generalizing e with
  | nil => exact h
  | cons data reads ih => exact ih (e.receive data) (incomplete_receive e data)

/-- No read makes an assertion fail or a byte be read that is not readable, and after each an
incomplete record is left. -/
theorem onMessage_safe (reads : List Bytes) :
    ∃ e : RawEndpoint, receiveAll {} reads = some e ∧ Incomplete e.inputBuffer_.readable := by
  refine ⟨ofEndpoint (Endpoint.receiveAll {} reads), receiveAll_ofEndpoint {} reads, ?_⟩
  refine incomplete_receiveAll {} (Or.inl ?_) reads
  rw [WfBuffer.readable_construct]
  decide

end RawEndpoint
end Cgi
end Longky
