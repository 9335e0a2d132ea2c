import Longky.Cgi.Requests

/-!
# ParamsFormat — `parseAllParams` accepts exactly the name-value format

`Params` shows that what was encoded is decoded.  Here is the other direction: a length that
`readLen` returns is the one written at the front of the stream, so a stream that `parseAllParams`
accepts is a concatenation of encoded pairs.  `params_decoding` puts both together, with the
records the stream arrives in.
-/

namespace Longky
namespace Cgi

open Lib Net

/-- The value of the last pair with this name. -/
def Param.lastValue (ps : List Param) (name : Bytes) : Option Bytes :=
  (ps.reverse.find? (fun p => p.name = name)).map Param.value

/-- Entering pairs in order leaves the last value of each name, and other names alone. -/
theorem Param.foldl_enter (ps : List Param) (params : ParamMap) (name : Bytes) :
    ps.foldl Param.enter params name = (Param.lastValue ps name).or (params name) := by
  induction ps generalizing params with
  | nil => rfl
  | cons p ps ih =>
      rw [List.foldl_cons, ih, lastValue, lastValue, List.reverse_cons, List.find?_append]
      cases hfind : ps.reverse.find? (fun q => q.name = name) with
      | some q => rfl
      | none =>
          -- only the first pair can carry the name
          by_cases hname : p.name = name
          · simp [Param.enter, hname]
          · simp [Param.enter, hname, Function.update_of_ne (Ne.symm hname)]

namespace FastCgiCodec

/-! ## Lengths -/

/-- The stream starts with a written length. -/
def StartsWithLen (bs : Bytes) (n : Nat) (rest : Bytes) : Prop :=
  ∃ long, LenFits long n ∧ bs = encodeLen long n ++ rest

theorem StartsWithLen.readLen {s : WfBuffer} {n : Nat} {rest : Bytes}
    (h : StartsWithLen s.readable n rest) :
    (readLen s).1 = BitVec.ofNat 32 n ∧ (readLen s).2.readable = rest ∧ n < 2 ^ 31 := by
  rcases h with ⟨long, hfits, hs⟩
  rcases readLen_encodeLen hfits hs with ⟨hn, hrest⟩
  exact ⟨hn, hrest, hfits.lt⟩

/-- One byte below 128 is a length in the short form. -/
theorem startsWithLen_short {b : UInt8} (hb : b.toNat < 128) (rest : Bytes) :
    StartsWithLen (b :: rest) b.toNat rest := by
  refine ⟨false, hb, ?_⟩
  simp [encodeLen]

/-- Four bytes of which the first is at least 128 are a length in the long form. -/
theorem startsWithLen_long {b₀ b₁ b₂ b₃ : UInt8} (hb : 128 ≤ b₀.toNat) (rest : Bytes) :
    ∃ n, StartsWithLen (b₀ :: b₁ :: b₂ :: b₃ :: rest) n rest := by
  have h₀ := b₀.toNat_lt
  have h₁ := b₁.toNat_lt
  have h₂ := b₂.toNat_lt
  have h₃ := b₃.toNat_lt
  have hvalue : Bytes.ofBigEndian [b₀, b₁, b₂, b₃] =
      ((b₀.toNat * 256 + b₁.toNat) * 256 + b₂.toNat) * 256 + b₃.toNat := by
    simp [Bytes.ofBigEndian]
  refine ⟨Bytes.ofBigEndian [b₀, b₁, b₂, b₃] - 2 ^ 31, true, ?_, ?_⟩
  · change Bytes.ofBigEndian [b₀, b₁, b₂, b₃] - 2 ^ 31 < 2 ^ 31
    omega
  · have hback : 2 ^ 31 + (Bytes.ofBigEndian [b₀, b₁, b₂, b₃] - 2 ^ 31) =
        Bytes.ofBigEndian [b₀, b₁, b₂, b₃] := by omega
    have hbytes : Bytes.bigEndian 4 (Bytes.ofBigEndian [b₀, b₁, b₂, b₃]) = [b₀, b₁, b₂, b₃] :=
      Bytes.bigEndian_ofBigEndian [b₀, b₁, b₂, b₃]
    rw [encodeLen, if_pos rfl, hback, hbytes]
    rfl

theorem topBit_iff (b : UInt8) : BitVec.ofNat 8 b.toNat &&& 0x80#8 ≠ 0#8 ↔ 128 ≤ b.toNat := by
  have hall : ∀ n : Fin 256, BitVec.ofNat 8 n &&& 0x80#8 ≠ 0#8 ↔ 128 ≤ n.val := by
    decide +kernel
  exact hall ⟨b.toNat, b.toNat_lt⟩

/-- `readLen` fails exactly where no length is written. -/
theorem readLen_eq_failed_iff (s : WfBuffer) :
    (readLen s).1 = lenFailed ↔ ∀ n rest, ¬ StartsWithLen s.readable n rest := by
  constructor
  · intro hfail n rest hstart
    rcases hstart.readLen with ⟨hn, -, hlt⟩
    exact length_ne_failed hlt (hn.symm.trans hfail)
  · intro hnone
    cases hs : s.readable with
    | nil =>
        have hempty : s.readableBytes = 0 := WfBuffer.readableBytes_eq_zero.2 hs
        rw [readLen, dif_neg (by omega)]
    | cons b rest =>
        have hpos : 1 ≤ s.readableBytes := by
          rw [WfBuffer.readableBytes_eq, hs]
          exact Nat.succ_pos _
        rw [hs] at hnone
        by_cases hb : b.toNat < 128
        · exact absurd (startsWithLen_short hb rest) (hnone _ _)
        · have htop : s.peekInt8 hpos &&& 0x80#8 ≠ 0#8 := by
            rw [peekInt8_eq hs, topBit_iff]
            omega
          rcases rest with _ | ⟨b₁, _ | ⟨b₂, _ | ⟨b₃, rest⟩⟩⟩
          -- with fewer than four bytes the long form cannot be read
          case cons.cons.cons =>
            have hlong : 128 ≤ b.toNat := Nat.le_of_not_lt hb
            rcases startsWithLen_long hlong rest with ⟨n, hn⟩
            exact absurd hn (hnone _ _)
          all_goals
            have hshort : ¬ 4 ≤ s.readableBytes := by
              rw [WfBuffer.readableBytes_eq, hs]
              simp
            rw [readLen, dif_pos hpos, if_pos htop, dif_neg hshort]

theorem startsWithLen_of_ne {s : WfBuffer} (h : (readLen s).1 ≠ lenFailed) :
    ∃ n rest, StartsWithLen s.readable n rest := by
  by_contra hnone
  push Not at hnone
  exact h ((readLen_eq_failed_iff s).2 hnone)

/-- The 32-bit sum of two lengths that were read is their sum. -/
theorem lengths_add (s s' : WfBuffer) (h : (readLen s).1 ≠ lenFailed)
    (h' : (readLen s').1 ≠ lenFailed) :
    ((readLen s).1 + (readLen s').1).toNat = (readLen s).1.toNat + (readLen s').1.toNat := by
  have hlt := (readLen_of_ne h).1
  have hlt' := (readLen_of_ne h').1
  rw [BitVec.toNat_add, Nat.mod_eq_of_lt (by omega)]

/-! ## Pairs -/

/-- What passes the tests of one round is an encoded pair. -/
theorem exists_param {s : WfBuffer} (hname : (readLen s).1 ≠ lenFailed)
    (hvalue : (readLen (readLen s).2).1 ≠ lenFailed)
    (hfit : (readLen s).1.toNat + (readLen (readLen s).2).1.toNat ≤
      (readLen (readLen s).2).2.readableBytes) :
    ∃ p : Param,
      s.readable = p.toBytes ++ (readLen (readLen s).2).2.readable.drop
        ((readLen s).1.toNat + (readLen (readLen s).2).1.toNat) := by
  rcases startsWithLen_of_ne hname with ⟨m, rest, hm⟩
  rcases hm.readLen with ⟨hmlen, hmrest, hmlt⟩
  rcases startsWithLen_of_ne hvalue with ⟨n, rest', hn⟩
  rcases hn.readLen with ⟨hnlen, hnrest, hnlt⟩
  rw [WfBuffer.readableBytes_eq] at hfit
  rw [hmlen, hnlen, toNat_length hmlt, toNat_length hnlt, hnrest] at hfit ⊢
  rcases hm with ⟨nameLong, hmfits, hsm⟩
  rcases hn with ⟨valueLong, hnfits, hsn⟩
  have hnamelen : (rest'.take m).length = m := by
    rw [List.length_take]
    omega
  have hvaluelen : ((rest'.drop m).take n).length = n := by
    rw [List.length_take, List.length_drop]
    omega
  refine ⟨⟨rest'.take m, (rest'.drop m).take n, nameLong, valueLong, ?_, ?_⟩, ?_⟩
  · rwa [hnamelen]
  · rwa [hvaluelen]
  · -- the two strings and what follows them are the stream behind the lengths
    have hsplit : rest'.take m ++ ((rest'.drop m).take n ++ rest'.drop (m + n)) = rest' := by
      rw [← List.drop_drop, List.take_append_drop, List.take_append_drop]
    calc s.readable = encodeLen nameLong m ++ rest := hsm
      _ = encodeLen nameLong m ++ (encodeLen valueLong n ++ rest') := by rw [← hsn, hmrest]
      _ = _ := by
        simp only [Param.toBytes, hnamelen, hvaluelen, List.append_assoc, hsplit]

/-- `parseAllParams` returns true only on concatenations of encoded pairs. -/
theorem parseAllParams_sound (s : WfBuffer) (params : ParamMap)
    (h : (parseAllParams s params).1 = true) :
    ∃ ps : List Param, s.readable = ps.flatMap Param.toBytes := by
  induction hn : s.readableBytes using Nat.strong_induction_on generalizing s params with
  | _ k ih =>
      subst hn
      by_cases hpos : 0 < s.readableBytes
      · have hname : (readLen s).1 ≠ lenFailed := by
          intro hfail
          rw [parseAllParams, if_pos hpos, dif_pos hfail] at h
          cases h
        have hvalue : (readLen (readLen s).2).1 ≠ lenFailed := by
          intro hfail
          rw [parseAllParams, if_pos hpos, dif_neg hname] at h
          dsimp only at h
          rw [dif_pos hfail] at h
          cases h
        have hfit : (readLen s).1.toNat + (readLen (readLen s).2).1.toNat ≤
            (readLen (readLen s).2).2.readableBytes := by
          by_contra hlong
          rw [parseAllParams, if_pos hpos, dif_neg hname] at h
          dsimp only at h
          rw [dif_neg hvalue, dif_neg (by rw [lengths_add _ _ hname hvalue]; exact hlong)] at h
          cases h
        rcases parseAllParams_step params hpos hname hvalue hfit with ⟨s', hs', hstep⟩
        rw [hstep] at h
        rcases exists_param hname hvalue hfit with ⟨p, hp⟩
        have hlt : s'.readableBytes < s.readableBytes := by
          have h₁ := (readLen_of_ne hname).2
          have h₂ := readLen_le (readLen s).2
          have h₃ : s'.readableBytes ≤ (readLen (readLen s).2).2.readableBytes := by
            rw [WfBuffer.readableBytes_eq, WfBuffer.readableBytes_eq, hs', List.length_drop]
            exact Nat.sub_le _ _
          omega
        rcases ih _ hlt s' _ h rfl with ⟨ps, hps⟩
        exact ⟨p :: ps, by rw [hp, ← hs', hps]; rfl⟩
      · have hempty : s.readableBytes = 0 := by omega
        exact ⟨[], WfBuffer.readableBytes_eq_zero.1 hempty⟩

/-! ## Records -/

/-- The pairs `ps`, cut into PARAMS records at any points and ended by an empty one. -/
structure Delivers (rs : List Record) (last : Record) (ps : List Param) : Prop where
  cut : ∀ r ∈ rs, r.type = kFcgiParams ∧ r.content ≠ []
  content : rs.flatMap Record.content = ps.flatMap Param.toBytes
  ended : last.type = kFcgiParams ∧ last.content = []

theorem Delivers.decoded {rs : List Record} {last : Record} {ps : List Param}
    (h : Delivers rs last ps) (c : FastCgiCodec) (hc : c.paramsStream_.readable = []) :
    (onParams (rs.foldl handle c) last.content).1 = true ∧
      ((rs ++ [last]).foldl handle c).paramsStream_.readable = [] ∧
      ∀ name, ((rs ++ [last]).foldl handle c).params_ name =
        (Param.lastValue ps name).or (c.params_ name) := by
  have hcol : c.Collected c.gotRequest_ c.stdin_.readable [] c.params_ := ⟨rfl, rfl, hc, rfl⟩
  have hstream := hcol.paramsRecords h.cut
  rw [List.nil_append, h.content] at hstream
  have hend := hstream.endParams h.ended
  refine ⟨?_, ?_, ?_⟩
  · rcases parseAllParams_encode ps (rs.foldl handle c).params_ hstream.stream with ⟨s', -, hparse⟩
    rw [h.ended.2]
    simp [onParams, hparse]
  · rw [List.foldl_append]
    exact hend.stream
  · intro name
    rw [List.foldl_append, ← Param.foldl_enter]
    exact congrFun hend.params name

/-- `parseAllParams` inverts the encoding and accepts nothing else; the failure value of `readLen`
is no length, and the sum of two lengths is computed without wrapping. -/
theorem params_decoding :
    (∀ (c : FastCgiCodec) (rs : List Record) (last : Record) (ps : List Param),
      c.paramsStream_.readable = [] → Delivers rs last ps →
        (onParams (rs.foldl handle c) last.content).1 = true ∧
          ((rs ++ [last]).foldl handle c).paramsStream_.readable = [] ∧
          ∀ name, ((rs ++ [last]).foldl handle c).params_ name =
            (Param.lastValue ps name).or (c.params_ name)) ∧
      (∀ s params, (parseAllParams s params).1 = true →
        ∃ ps : List Param, s.readable = ps.flatMap Param.toBytes) ∧
      (∀ s, (readLen s).1 = lenFailed ↔ ∀ n rest, ¬ StartsWithLen s.readable n rest) ∧
      (∀ s n rest, StartsWithLen s.readable n rest → (readLen s).1.toNat = n) ∧
      ∀ s s', (readLen s).1 ≠ lenFailed → (readLen s').1 ≠ lenFailed →
        ((readLen s).1 + (readLen s').1).toNat = (readLen s).1.toNat + (readLen s').1.toNat := by
  refine ⟨?_, parseAllParams_sound, readLen_eq_failed_iff, ?_, lengths_add⟩
  · exact fun c _ _ _ hc h => h.decoded c hc
  · intro s n rest hstart
    rcases hstart.readLen with ⟨hn, -, hlt⟩
    rw [hn, toNat_length hlt]

/-- Two values of one name, the second with a length in the long form, cut inside that length. -/
def twoValues : List Record :=
  [⟨1, 4, 1, [1, 1, 65, 66, 1, 128], [], 0, by decide, Record.no_padding_lt⟩,
    ⟨1, 4, 1, [0, 0, 1, 65, 67], [], 0, by decide, Record.no_padding_lt⟩]

def endOfParams : Record := ⟨1, 4, 1, [], [], 0, Record.no_content_lt, Record.no_padding_lt⟩

theorem delivers_twoValues :
    Delivers twoValues endOfParams
      [⟨[65], [66], false, false, by decide, by decide⟩,
        ⟨[65], [67], false, true, by decide, by decide⟩] where
  cut := by simp [twoValues, kFcgiParams]
  content := by decide
  ended := ⟨rfl, rfl⟩

theorem params_decoding_twoValues :
    ((twoValues ++ [endOfParams]).foldl handle {}).params_ [65] =
      some [67] :=
  ((params_decoding.1 {} twoValues _ _ (WfBuffer.readable_construct _) delivers_twoValues).2.2
    [65]).trans rfl

end FastCgiCodec
end Cgi
end Longky
