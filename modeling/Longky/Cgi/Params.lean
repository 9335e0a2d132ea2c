import Longky.Cgi.FastCgi

/-!
# Params — the name-value pairs of PARAMS records

A pair is the two lengths, each in one byte or in four bytes with the top bit set, then the name
and the value.  `parseAllParams_encode`: parsing the concatenation of pairs takes every byte off
the stream and enters the pairs into the map in order.
-/

namespace Longky
namespace Cgi

open Lib Net

/-- Whether a length can be written in the long or in the short form. -/
def LenFits (long : Bool) (n : Nat) : Prop :=
  if long then n < 2 ^ 31 else n < 128

instance (long : Bool) (n : Nat) : Decidable (LenFits long n) :=
  inferInstanceAs (Decidable (if long then n < 2 ^ 31 else n < 128))

/-- A pair with the forms its lengths are written in. -/
structure Param where
  name : Bytes
  value : Bytes
  nameLong : Bool
  valueLong : Bool
  name_fits : LenFits nameLong name.length
  value_fits : LenFits valueLong value.length

def encodeLen (long : Bool) (n : Nat) : Bytes :=
  if long then Bytes.bigEndian 4 (2 ^ 31 + n) else [UInt8.ofNat n]

namespace Param

def toBytes (p : Param) : Bytes :=
  encodeLen p.nameLong p.name.length ++ encodeLen p.valueLong p.value.length ++ p.name ++ p.value

/-- `params_[name] = value`. -/
def enter (params : ParamMap) (p : Param) : ParamMap :=
  Function.update params p.name (some p.value)

/-- The map of a parameter list: the last value of each name. -/
def toMap (ps : List Param) : ParamMap :=
  ps.foldl enter (fun _ => none)

end Param

theorem LenFits.lt {long : Bool} {n : Nat} (h : LenFits long n) : n < 2 ^ 31 := by
  cases long with
  | true => exact h
  | false => exact Nat.lt_trans h (by decide)

namespace FastCgiCodec

/-! ## Lengths -/

theorem peekInt8_eq {s : WfBuffer} {b : UInt8} {rest : Bytes} (hs : s.readable = b :: rest)
    (h : 1 ≤ s.readableBytes) : s.peekInt8 h = BitVec.ofNat 8 b.toNat := by
  simp [WfBuffer.peekInt8, WfBuffer.peekInt, hs, Bytes.ofBigEndian]

theorem readLen_short {s : WfBuffer} {n : Nat} {rest : Bytes} (hn : n < 128)
    (hs : s.readable = UInt8.ofNat n :: rest) :
    (readLen s).1 = BitVec.ofNat 32 n ∧ (readLen s).2.readable = rest := by
  have hpos : 1 ≤ s.readableBytes := by
    rw [WfBuffer.readableBytes_eq, hs]
    exact Nat.succ_pos _
  have hbyte : s.peekInt8 hpos = BitVec.ofNat 8 n := by
    rw [peekInt8_eq hs, UInt8.toNat_ofNat', Nat.mod_eq_of_lt (by omega)]
  -- one byte: the top bit is clear and the extension keeps the value
  have hclear : ∀ n : Fin 128, BitVec.ofNat 8 n &&& 0x80#8 = 0#8 ∧
      (BitVec.ofNat 8 n).signExtend 32 = BitVec.ofNat 32 n := by
    decide +kernel
  rcases hclear ⟨n, hn⟩ with ⟨hbit, hext⟩
  unfold readLen
  rw [dif_pos hpos, hbyte, if_neg (by simpa using hbit)]
  refine ⟨?_, ?_⟩
  · have hread : (s.readInt8 hpos).1 = s.peekInt8 hpos := rfl
    rw [hread, hbyte]
    exact hext
  · simp [WfBuffer.readInt8, WfBuffer.readInt, hs]

theorem readLen_long {s : WfBuffer} {n : Nat} {rest : Bytes} (hn : n < 2 ^ 31)
    (hs : s.readable = Bytes.bigEndian 4 (2 ^ 31 + n) ++ rest) :
    (readLen s).1 = BitVec.ofNat 32 n ∧ (readLen s).2.readable = rest := by
  have hlen : s.readableBytes = 4 + rest.length := by
    rw [WfBuffer.readableBytes_eq, hs, List.length_append, Bytes.length_bigEndian]
  have hpos : 1 ≤ s.readableBytes := by omega
  have h₄ : 4 ≤ s.readableBytes := by omega
  have hfirst : s.readable = UInt8.ofNat ((2 ^ 31 + n) / 256 ^ 3) ::
      (Bytes.bigEndian 3 (2 ^ 31 + n) ++ rest) := hs
  -- the first of the four bytes carries the 2^31 that was added
  have hbit : s.peekInt8 hpos &&& 0x80#8 ≠ 0#8 := by
    have htop : ∀ b : Fin 256, 128 ≤ b.val → BitVec.ofNat 8 b &&& 0x80#8 ≠ 0#8 := by
      decide +kernel
    rw [peekInt8_eq hfirst, UInt8.toNat_ofNat']
    refine htop ⟨(2 ^ 31 + n) / 256 ^ 3 % 256, Nat.mod_lt _ (by decide)⟩ ?_
    dsimp only
    omega
  unfold readLen
  rw [dif_pos hpos, if_pos hbit, dif_pos h₄]
  refine ⟨?_, ?_⟩
  · have hread : (s.readInt32 h₄).1 = BitVec.ofNat 32 (2 ^ 31 + n) := by
      have htake : s.readable.take 4 = Bytes.bigEndian 4 (2 ^ 31 + n) := by
        rw [hs]
        exact List.take_left' (Bytes.length_bigEndian 4 _)
      simp only [WfBuffer.readInt32, WfBuffer.readInt, WfBuffer.peekInt, htake]
      rw [Bytes.ofBigEndian_bigEndian_of_lt (by omega)]
    rw [hread]
    apply BitVec.eq_of_toNat_eq
    -- masking with 0x7fffffff takes it off again
    have hmask : (2 ^ 31 + n) &&& 0x7fffffff = (2 ^ 31 + n) % 2 ^ 31 :=
      Nat.and_two_pow_sub_one_eq_mod (2 ^ 31 + n) 31
    have hlow : (2 ^ 31 + n) % 2 ^ 32 = 2 ^ 31 + n := Nat.mod_eq_of_lt (by omega)
    rw [BitVec.toNat_and, BitVec.toNat_ofNat, BitVec.toNat_ofNat, BitVec.toNat_ofNat, hlow]
    rw [show 0x7fffffff % 2 ^ 32 = 0x7fffffff from rfl, hmask]
    omega
  · have hdrop : s.readable.drop 4 = rest := by
      rw [hs]
      exact List.drop_left' (Bytes.length_bigEndian 4 _)
    simpa [WfBuffer.readInt32, WfBuffer.readInt] using hdrop

/-- A written length is read back. -/
theorem readLen_encodeLen {s : WfBuffer} {long : Bool} {n : Nat} {rest : Bytes}
    (hn : LenFits long n) (hs : s.readable = encodeLen long n ++ rest) :
    (readLen s).1 = BitVec.ofNat 32 n ∧ (readLen s).2.readable = rest := by
  cases long with
  | true => exact readLen_long hn hs
  | false => exact readLen_short hn hs

/-! ## Pairs -/

/-- One round of `parseAllParams`. -/
theorem parseAllParams_step {s : WfBuffer} (params : ParamMap) (hpos : 0 < s.readableBytes)
    (hname : (readLen s).1 ≠ lenFailed) (hvalue : (readLen (readLen s).2).1 ≠ lenFailed)
    (hfit : (readLen s).1.toNat + (readLen (readLen s).2).1.toNat ≤
      (readLen (readLen s).2).2.readableBytes) :
    ∃ s', s'.readable = (readLen (readLen s).2).2.readable.drop
        ((readLen s).1.toNat + (readLen (readLen s).2).1.toNat) ∧
      parseAllParams s params = parseAllParams s' (Function.update params
        ((readLen (readLen s).2).2.readable.take (readLen s).1.toNat)
        (some (((readLen (readLen s).2).2.readable.drop (readLen s).1.toNat).take
          (readLen (readLen s).2).1.toNat))) := by
  have hsum : ((readLen s).1 + (readLen (readLen s).2).1).toNat ≤
      (readLen (readLen s).2).2.readableBytes := by
    rw [BitVec.toNat_add]
    exact Nat.le_trans (Nat.mod_le _ _) hfit
  rw [parseAllParams, if_pos hpos, dif_neg hname]
  dsimp only
  rw [dif_neg hvalue, dif_pos hsum]
  obtain ⟨hpair, hrest⟩ := retrievePair_eq (readLen (readLen s).2).2 (readLen s).1.toNat
    (readLen (readLen s).2).1.toNat (pair_fits s hname hvalue hsum)
  refine ⟨_, hrest, ?_⟩
  rw [hpair]

theorem toNat_length {n : Nat} (h : n < 2 ^ 31) : (BitVec.ofNat 32 n).toNat = n := by
  rw [BitVec.toNat_ofNat]
  exact Nat.mod_eq_of_lt (by omega)

theorem length_ne_failed {n : Nat} (h : n < 2 ^ 31) : BitVec.ofNat 32 n ≠ lenFailed := by
  intro heq
  have := congrArg BitVec.toNat heq
  rw [toNat_length h] at this
  have hfail : lenFailed.toNat = 2 ^ 32 - 1 := by decide
  omega

theorem encodeLen_ne_nil (long : Bool) (n : Nat) : encodeLen long n ≠ [] := by
  cases long <;> simp [encodeLen, Bytes.bigEndian]

theorem parseAllParams_encode {s : WfBuffer} (ps : List Param) (params : ParamMap)
    (hs : s.readable = ps.flatMap Param.toBytes) :
    ∃ s', s'.readable = [] ∧ parseAllParams s params = (true, s', ps.foldl Param.enter params) := by
  induction ps generalizing s params with
  | nil =>
      have hempty : s.readableBytes = 0 := WfBuffer.readableBytes_eq_zero.2 (by simpa using hs)
      refine ⟨s, by simpa using hs, ?_⟩
      rw [parseAllParams, if_neg (by omega)]
      rfl
  | cons p ps ih =>
      -- both lengths come first, then both strings
      have hstream : s.readable = encodeLen p.nameLong p.name.length ++
          (encodeLen p.valueLong p.value.length ++
            (p.name ++ (p.value ++ ps.flatMap Param.toBytes))) := by
        simpa [Param.toBytes] using hs
      rcases readLen_encodeLen p.name_fits hstream with ⟨hn, hrest₁⟩
      rcases readLen_encodeLen p.value_fits hrest₁ with ⟨hv, hrest₂⟩
      have hpos : 0 < s.readableBytes := by
        rw [WfBuffer.readableBytes_eq, List.length_pos_iff, hstream]
        simp [encodeLen_ne_nil]
      have hnlen := toNat_length p.name_fits.lt
      have hvlen := toNat_length p.value_fits.lt
      obtain ⟨s', hs', hstep⟩ := parseAllParams_step params hpos
        (by rw [hn]; exact length_ne_failed p.name_fits.lt)
        (by rw [hv]; exact length_ne_failed p.value_fits.lt)
        (by
          rw [hn, hv, hnlen, hvlen, WfBuffer.readableBytes_eq, hrest₂]
          simp only [List.length_append]
          omega)
      rw [hn, hv, hnlen, hvlen, hrest₂] at hstep hs'
      rw [← List.drop_drop, List.drop_left, List.drop_left] at hs'
      rw [List.take_left, List.drop_left, List.take_left] at hstep
      rw [hstep]
      exact ih _ hs'

end FastCgiCodec
end Cgi
end Longky
