import Longky.Net.WfBuffer
import Longky.Cgi.Record

/-!
# Respond — the response side of the codec

`FastCgiCodec::respond` of `cgiServer/fastcgi.cpp` writes the output of a program as STDOUT records
of at most 65535 bytes, an empty STDOUT record and an END_REQUEST record.  `respond_decodes`: the
record decoder splits what it appended into exactly these records.
-/

namespace Longky
namespace Cgi

open Lib Net

def FCGI_MAX_LENGTH : Nat := 0xffff

/-- `static_cast<uint8_t>(-n & 7)` for an unsigned `n` of 64 bits. -/
def paddingFor (n : Nat) : UInt8 :=
  UInt8.ofNat (-(BitVec.ofNat 64 n) &&& 7#64).toNat

/-- `static_cast<uint8_t>(-FCGI_MAX_LENGTH & 7)`, where the macro is an `int`. -/
def paddingForMax : UInt8 :=
  UInt8.ofNat (-(BitVec.ofNat 32 FCGI_MAX_LENGTH) &&& 7#32).toNat

/-- The header of a record that the codec writes: version 1, request 1. -/
def responseHeader (type : UInt8) (length : Nat) (padding : UInt8) : RecordHeader where
  version := 1
  type := type
  id := 1
  length := length
  padding := padding
  unused := 0

namespace FastCgiCodec

/-- `response->append(&header, ...)`, the data, and `padding` bytes of the zero string. -/
def appendStdout (response : WfBuffer) (out : Bytes) (padding : UInt8) : WfBuffer :=
  ((response.append (responseHeader kFcgiStdout out.length padding).toBytes).append out).append
    ((List.replicate 8 0).take padding.toNat)

def endStdout (buf : WfBuffer) : WfBuffer :=
  buf.append (responseHeader kFcgiStdout 0 0).toBytes

def endRequest (buf : WfBuffer) : WfBuffer :=
  ((buf.append (responseHeader kFcgiEndRequest kRecordHeader 0).toBytes).appendInt32 0#32).appendInt32
    0#32

/-- The page sent in place of an empty output. -/
def emptyResult : Bytes :=
  Bytes.ofString
    "Content-Type: text/html; charset=UTF-8\r\nContent-Length: 13\r\n\r\nEmpty Result!"

/-- The loop over the substrings of full length, from the `i`-th on. -/
def appendFull (response : WfBuffer) (out : Bytes) (i : Nat) : Nat → WfBuffer
  | 0 => response
  | n + 1 =>
      appendFull
        (appendStdout response ((out.drop (i * FCGI_MAX_LENGTH)).take FCGI_MAX_LENGTH) paddingForMax)
        out (i + 1) n

/-- `respond`; `out` is replaced when it is empty. -/
def respond (out : Bytes) (response : WfBuffer) : Bytes × WfBuffer :=
  let out := if out = [] then emptyResult else out
  let response₁ :=
    if out.length ≤ FCGI_MAX_LENGTH then appendStdout response out (paddingFor out.length)
    else
      let numSubstrings := out.length / FCGI_MAX_LENGTH
      -- longer outputs are cut into records of the greatest length and one with the rest
      let response₂ := appendFull response out 0 numSubstrings
      if out.length % FCGI_MAX_LENGTH ≠ 0 then
        let outSubString := out.drop (FCGI_MAX_LENGTH * numSubstrings)
        appendStdout response₂ outSubString (paddingFor outSubString.length)
      else response₂
  (out, endRequest (endStdout response₁))

/-! ## The records written -/

theorem paddingFor_toNat {n : Nat} (h : n < 65536) : (paddingFor n).toNat = (8 - n % 8) % 8 := by
  have hand : (-(BitVec.ofNat 64 n) &&& 7#64).toNat = (2 ^ 64 - n) % 8 := by
    rw [BitVec.toNat_and, BitVec.toNat_neg, BitVec.toNat_ofNat]
    have hmask : ∀ m : Nat, m &&& (7#64).toNat = m % 8 := fun m =>
      Nat.and_two_pow_sub_one_eq_mod m 3
    rw [hmask]
    omega
  rw [paddingFor, UInt8.toNat_ofNat', hand]
  omega

theorem paddingForMax_eq : paddingForMax = paddingFor FCGI_MAX_LENGTH := by
  decide

/-- A STDOUT record as the codec pads it. -/
def stdoutRecord (content : Bytes) (h : content.length < 65536) : Record where
  type := kFcgiStdout
  id := 1
  content := content
  padding := List.replicate (paddingFor content.length).toNat 0
  content_lt := h
  padding_lt := by
    rw [List.length_replicate, paddingFor_toNat h]
    omega

def endRequestRecord : Record where
  type := kFcgiEndRequest
  id := 1
  content := List.replicate 8 0
  padding := []
  content_lt := by decide
  padding_lt := Record.no_padding_lt

theorem size_stdoutRecord (content : Bytes) (h : content.length < 65536) :
    (stdoutRecord content h).size % 8 = 0 := by
  simp only [Record.size, stdoutRecord, List.length_replicate, paddingFor_toNat h, kRecordHeader]
  omega

theorem readable_appendStdout (response : WfBuffer) {content : Bytes}
    (h : content.length < 65536) :
    (appendStdout response content (paddingFor content.length)).readable =
      response.readable ++ (stdoutRecord content h).toBytes := by
  have hpad : (paddingFor content.length).toNat ≤ 8 := by
    rw [paddingFor_toNat h]
    omega
  have hheader : (stdoutRecord content h).header =
      responseHeader kFcgiStdout content.length (paddingFor content.length) := by
    simp [Record.header, stdoutRecord, responseHeader]
  simp only [appendStdout, WfBuffer.readable_append, Record.toBytes, hheader, List.append_assoc]
  rw [List.take_replicate, Nat.min_eq_left hpad]
  rfl

theorem readable_endStdout (buf : WfBuffer) :
    (endStdout buf).readable = buf.readable ++ (stdoutRecord [] (by decide)).toBytes := by
  rw [endStdout, WfBuffer.readable_append]
  rfl

theorem readable_endRequest (buf : WfBuffer) :
    (endRequest buf).readable = buf.readable ++ endRequestRecord.toBytes := by
  simp only [endRequest, WfBuffer.appendInt32, WfBuffer.appendInt, WfBuffer.readable_append,
    List.append_assoc]
  rfl

/-- Records with the given non-empty contents. -/
structure Carries (rs : List Record) (out : Bytes) : Prop where
  content : rs.flatMap Record.content = out
  stdout : ∀ r ∈ rs, r.type = kFcgiStdout ∧ r.id = 1 ∧ r.content ≠ [] ∧ r.size % 8 = 0

theorem Carries.append {rs rs' : List Record} {out out' : Bytes} (h : Carries rs out)
    (h' : Carries rs' out') : Carries (rs ++ rs') (out ++ out') where
  content := by rw [List.flatMap_append, h.content, h'.content]
  stdout r hr := (List.mem_append.1 hr).elim (h.stdout r) (h'.stdout r)

theorem carries_one {content : Bytes} (hlen : content.length < 65536) (hne : content ≠ []) :
    Carries [stdoutRecord content hlen] content where
  content := by simp [stdoutRecord]
  stdout r hr := by
    rcases List.mem_singleton.1 hr with rfl
    exact ⟨rfl, rfl, hne, size_stdoutRecord content hlen⟩

/-- The loop writes the substrings in order, each in a record of its own. -/
theorem appendFull_carries (response : WfBuffer) (out : Bytes) (i n : Nat)
    (hn : (i + n) * FCGI_MAX_LENGTH ≤ out.length) :
    ∃ rs, (appendFull response out i n).readable =
        response.readable ++ rs.flatMap Record.toBytes ∧
      Carries rs ((out.drop (i * FCGI_MAX_LENGTH)).take (n * FCGI_MAX_LENGTH)) := by
  induction n generalizing response i with
  | zero =>
      refine ⟨[], by simp [appendFull], ?_⟩
      exact { content := by simp, stdout := by simp }
  | succ n ih =>
      let chunk := (out.drop (i * FCGI_MAX_LENGTH)).take FCGI_MAX_LENGTH
      have hchunk : chunk.length = FCGI_MAX_LENGTH := by
        simp only [chunk, List.length_take, List.length_drop]
        rw [Nat.add_mul, Nat.add_mul] at hn
        omega
      have hlen : chunk.length < 65536 := by
        rw [hchunk]
        decide
      have hne : chunk ≠ [] := by
        intro hnil
        rw [hnil] at hchunk
        exact absurd hchunk (by decide)
      obtain ⟨rs, hread, hrs⟩ :=
        ih (appendStdout response chunk paddingForMax) (i + 1) (by rwa [Nat.add_assoc, Nat.add_comm 1])
      refine ⟨stdoutRecord chunk hlen :: rs, ?_, ?_⟩
      · have hfirst : (appendStdout response chunk paddingForMax).readable =
            response.readable ++ (stdoutRecord chunk hlen).toBytes := by
          rw [paddingForMax_eq, ← hchunk]
          exact readable_appendStdout response hlen
        rw [appendFull, hread, hfirst]
        simp
      -- the induction is on the number of substrings left; `i` counts those written
      · have hsplit : (out.drop (i * FCGI_MAX_LENGTH)).take ((n + 1) * FCGI_MAX_LENGTH) =
            chunk ++ (out.drop ((i + 1) * FCGI_MAX_LENGTH)).take (n * FCGI_MAX_LENGTH) := by
          rw [Nat.succ_mul, Nat.succ_mul, Nat.add_comm, List.take_add, List.drop_drop]
        rw [hsplit]
        exact (carries_one hlen hne).append hrs

/-- The STDOUT records of a non-empty output. -/
theorem respond_stdout (out : Bytes) (hne : out ≠ []) (response : WfBuffer) :
    ∃ rs, (respond out response).2.readable = response.readable ++
        (rs ++ [stdoutRecord [] (by decide), endRequestRecord]).flatMap Record.toBytes ∧
      Carries rs out := by
  unfold respond
  simp only [if_neg hne, readable_endRequest, readable_endStdout]
  split
  · rename_i hshort
    have hlen : out.length < 65536 := Nat.lt_of_le_of_lt hshort (by decide)
    refine ⟨[stdoutRecord out hlen], ?_, carries_one hlen hne⟩
    rw [readable_appendStdout response hlen]
    simp
  · obtain ⟨rs, hread, hrs⟩ := appendFull_carries response out 0 (out.length / FCGI_MAX_LENGTH)
      (by rw [Nat.zero_add]; exact Nat.div_mul_le_self _ _)
    rw [Nat.zero_mul, List.drop_zero] at hrs
    split
    · rename_i hmod
      -- the rest is not empty, so its record is not taken for the end of the stream
      let tail := out.drop (FCGI_MAX_LENGTH * (out.length / FCGI_MAX_LENGTH))
      have htail : tail.length = out.length % FCGI_MAX_LENGTH := by
        simp only [tail, List.length_drop]
        have := Nat.div_add_mod out.length FCGI_MAX_LENGTH
        omega
      have hlen : tail.length < 65536 := by
        rw [htail]
        exact Nat.lt_trans (Nat.mod_lt _ (by decide)) (by decide)
      have htailne : tail ≠ [] := by
        intro hnil
        rw [hnil] at htail
        exact hmod htail.symm
      refine ⟨rs ++ [stdoutRecord tail hlen], ?_, ?_⟩
      · rw [readable_appendStdout _ hlen, hread]
        simp
      · have hall := hrs.append (carries_one hlen htailne)
        rwa [Nat.mul_comm, List.take_append_drop] at hall
    · rename_i hmod
      refine ⟨rs, ?_, ?_⟩
      · rw [hread]
        simp
      -- the output is a multiple of the greatest length and no rest is written
      · have hfull : out.length / FCGI_MAX_LENGTH * FCGI_MAX_LENGTH = out.length := by
          have := Nat.div_add_mod out.length FCGI_MAX_LENGTH
          rw [Nat.mul_comm] at this
          have hzero : out.length % FCGI_MAX_LENGTH = 0 := by simpa using hmod
          omega
        rwa [hfull, List.take_length] at hrs

/-- What `respond` appends is split by the record decoder into STDOUT records of request 1 with
non-empty contents that concatenate to the output, one empty STDOUT record and one END_REQUEST
record with eight zero bytes, with nothing left over; every record is a multiple of 8 bytes. -/
theorem respond_decodes (out : Bytes) (hne : out ≠ []) (response : WfBuffer) :
    ∃ appended rs endOfStdout endOfRequest,
      (respond out response).2.readable = response.readable ++ appended ∧
      Record.framing.decode appended = (rs ++ [endOfStdout, endOfRequest], []) ∧
      (∀ r ∈ rs, r.type = kFcgiStdout ∧ r.id = 1 ∧ r.content ≠ []) ∧
      rs.flatMap Record.content = out ∧
      (endOfStdout.type = kFcgiStdout ∧ endOfStdout.id = 1 ∧ endOfStdout.content = []) ∧
      (endOfRequest.type = kFcgiEndRequest ∧ endOfRequest.id = 1 ∧
        endOfRequest.content = List.replicate 8 0) ∧
      ∀ r ∈ rs ++ [endOfStdout, endOfRequest], r.size % 8 = 0 := by
  rcases respond_stdout out hne response with ⟨rs, hread, hrs⟩
  refine ⟨_, rs, _, _, hread, Record.decode_toBytes _, ?_, hrs.content, ⟨rfl, rfl, rfl⟩,
    ⟨rfl, rfl, rfl⟩, ?_⟩
  · intro r hr
    rcases hrs.stdout r hr with ⟨htype, hid, hcontent, -⟩
    exact ⟨htype, hid, hcontent⟩
  · intro r hr
    rcases List.mem_append.1 hr with hr | hr
    · exact (hrs.stdout r hr).2.2.2
    · simp only [List.mem_cons, List.not_mem_nil, or_false] at hr
      rcases hr with rfl | rfl
      · exact size_stdoutRecord [] (by decide)
      · decide

theorem respond_decodes_hello :
    ∃ rs endOfStdout endOfRequest,
      Record.framing.decode (respond [104, 105] (WfBuffer.construct 0)).2.readable =
        (rs ++ [endOfStdout, endOfRequest], []) ∧ rs.flatMap Record.content = [104, 105] := by
  obtain ⟨appended, rs, e₁, e₂, hread, hdecode, -, hcontent, -⟩ :=
    respond_decodes [104, 105] (by decide) (WfBuffer.construct 0)
  rw [WfBuffer.readable_construct, List.nil_append] at hread
  exact ⟨rs, e₁, e₂, by rw [hread]; exact hdecode, hcontent⟩

end FastCgiCodec
end Cgi
end Longky
