import Longky.Base.FixedBuffer
import Longky.Lib.MachineInt
import Longky.Lib.Numeral

/-!
# Convert — integers as texts

`convert` and `convertHex` in `base/log/LogStream.cpp`.  Both take the digits from the low end,
store them one behind the other and reverse them in place; the digits of a negative number come out
negative, and a table that is read in both directions from its middle turns them into characters.
The loop returns, besides what it has stored, the values that it has computed on the way.

`formatting_exact`: what is stored is the canonical text of the value and a NUL, and no value on the way
is farther from zero than the number, or on its other side.
-/

namespace Longky
namespace Base

open Lib Lib.MachineInt Lib.Numeral

/-! ## Integer types -/

inductive Integral where
  | short
  | unsignedShort
  | int
  | unsignedInt
  | long
  | unsignedLong
  | longLong
  | unsignedLongLong
  deriving DecidableEq, Repr

namespace Integral

def signed : Integral → Bool
  | .short | .int | .long | .longLong => true
  | .unsignedShort | .unsignedInt | .unsignedLong | .unsignedLongLong => false

def bits : Integral → Nat
  | .short | .unsignedShort => 16
  | .int | .unsignedInt => 32
  | .long | .unsignedLong | .longLong | .unsignedLongLong => 64

def min (T : Integral) : Int := if T.signed then -2 ^ (T.bits - 1) else 0

def max (T : Integral) : Int := if T.signed then 2 ^ (T.bits - 1) - 1 else 2 ^ T.bits - 1

/-- A value of the type.  An operation with another result overflows. -/
def Holds (T : Integral) (x : Int) : Prop := T.min ≤ x ∧ x ≤ T.max

instance (T : Integral) (x : Int) : Decidable (T.Holds x) :=
  inferInstanceAs (Decidable (_ ∧ _))

structure Value (T : Integral) where
  val : Int
  holds : T.Holds val

end Integral

/-! ## The source -/

/-- `zero[lsd]`, where `zero` points to the middle of `digits`. -/
def zero (lsd : Int) : Option UInt8 :=
  if 0 ≤ 9 + lsd then (Bytes.ofString "9876543210123456789" ++ [0])[(9 + lsd).toNat]? else none

def digitsHex (lsd : Int) : Option UInt8 :=
  if 0 ≤ lsd then (Bytes.ofString "0123456789ABCDEF" ++ [0])[lsd.toNat]? else none

theorem natAbs_tdiv_lt (base : Radix) {i : Int} (h : i.tdiv base.val ≠ 0) :
    (i.tdiv base.val).natAbs < i.natAbs := by
  have hne : i.natAbs ≠ 0 := by
    intro hzero
    rw [Int.natAbs_eq_zero.1 hzero, Int.zero_tdiv] at h
    exact h rfl
  rw [Int.natAbs_tdiv, Int.natAbs_natCast]
  exact Nat.div_lt_self (Nat.pos_of_ne_zero hne) base.one_lt

section Convert

variable {size : Nat}

/-- The loop of both functions: from `p` on, the last digit of `i` comes first.  The result has the
position behind the digits, and what `i % base` and `i /= base` have given in each turn. -/
def emitDigits (T : Integral) (base : Radix) (table : Int → Option UInt8) (mem : Memory size)
    (p : Nat) (i : Int) : Option (Memory size × Nat × List Int) := do
  guard (T.Holds (i.tmod base.val) ∧ T.Holds (i.tdiv base.val))
  let c ← table (toInt (i.tmod base.val))
  let mem ← mem.write p [c]
  if h : i.tdiv base.val = 0 then return (mem, p + 1, [i.tmod base.val, i.tdiv base.val])
  else
    let (mem, p, values) ← emitDigits T base table mem (p + 1) (i.tdiv base.val)
    return (mem, p, i.tmod base.val :: i.tdiv base.val :: values)
termination_by i.natAbs
decreasing_by exact natAbs_tdiv_lt base h

/-- The text of `value` from `buf` on, and its length, with the values that are computed for it. -/
def convertValues (T : Integral) (mem : Memory size) (buf : Nat) (value : Int) :
    Option (Memory size × Nat × List Int) := do
  let (mem, p, values) ← emitDigits T .ten zero mem buf value
  let (mem, p) ← if value < 0 then (mem.write p [minus]).map (·, p + 1) else some (mem, p)
  let mem ← mem.write p [0]
  let mem ← mem.reverse buf p
  return (mem, p - buf, value :: values)

/-- What `convert` leaves and returns. -/
def convert (T : Integral) (mem : Memory size) (buf : Nat) (value : Int) :
    Option (Memory size × Nat) :=
  (convertValues T mem buf value).map fun (mem, length, _) => (mem, length)

/-- `uintptr_t` is `unsigned long`. -/
def convertHex (mem : Memory size) (buf : Nat) (value : Int) : Option (Memory size × Nat) := do
  let (mem, p, _) ← emitDigits .unsignedLong .sixteen digitsHex mem buf value
  let mem ← mem.write p [0]
  let mem ← mem.reverse buf p
  return (mem, p - buf)

end Convert

/-! ## The values that are computed -/

/-- On the same side of zero, and not farther from it. -/
def Within (x value : Int) : Prop :=
  (0 ≤ value → 0 ≤ x ∧ x ≤ value) ∧ (value ≤ 0 → value ≤ x ∧ x ≤ 0)

theorem Within.refl (x : Int) : Within x x := ⟨fun h => ⟨h, le_rfl⟩, fun h => ⟨le_rfl, h⟩⟩

theorem Within.trans {x y z : Int} (h : Within x y) (h' : Within y z) : Within x z := by
  unfold Within at *
  omega

theorem Within.of_natAbs {x value : Int} (hpos : 0 ≤ value → 0 ≤ x) (hneg : value ≤ 0 → x ≤ 0)
    (hle : x.natAbs ≤ value.natAbs) : Within x value := by
  unfold Within
  omega

/-- The quotient and the remainder have the sign of the value. -/
theorem within_tdiv (base : Radix) (i : Int) : Within (i.tdiv base.val) i := by
  have hbase : (0 : Int) ≤ base.val := Int.natCast_nonneg _
  refine .of_natAbs (fun h => Int.tdiv_nonneg h hbase) (fun h => ?_)
    (Int.natAbs_tdiv_le_natAbs i base.val)
  have hneg := Int.tdiv_nonneg (a := -i) (by omega) hbase
  rw [Int.neg_tdiv] at hneg
  omega

theorem within_tmod (base : Radix) (i : Int) : Within (i.tmod base.val) i := by
  refine .of_natAbs (fun h => Int.tmod_nonneg _ h) (fun h => ?_) ?_
  · have hneg := Int.tmod_nonneg (a := -i) base.val (by omega)
    rw [Int.neg_tmod] at hneg
    omega
  · rw [Int.natAbs_tmod]
    exact Nat.mod_le _ _

namespace Integral

variable {T : Integral} {x i : Int}

theorem min_le_zero (T : Integral) : T.min ≤ 0 := by cases T <;> decide

theorem zero_le_max (T : Integral) : 0 ≤ T.max := by cases T <;> decide

/-- Nothing that is nearer to zero overflows. -/
theorem Holds.of_within (h : T.Holds i) (hx : Within x i) : T.Holds x := by
  have hmin := T.min_le_zero
  have hmax := T.zero_le_max
  unfold Holds Within at *
  omega

theorem Holds.bounds (h : T.Holds i) :
    i.natAbs < 10 ^ 20 ∧ (i < 0 → i.natAbs < 10 ^ 19) := by
  have hmin : -2 ^ 63 ≤ T.min := by cases T <;> decide
  have hmax : T.max < 2 ^ 64 := by cases T <;> decide
  unfold Holds at h
  omega

end Integral

/-! ## The tables -/

theorem zero_eq {lsd : Int} (hmin : -9 ≤ lsd) (hmax : lsd ≤ 9) :
    zero lsd = some (decimalDigit lsd.natAbs) := by
  interval_cases lsd <;> decide

theorem digitsHex_eq {lsd : Int} (hmin : 0 ≤ lsd) (hmax : lsd ≤ 15) :
    digitsHex lsd = some (upperHexDigit lsd.natAbs) := by
  interval_cases lsd <;> decide

/-- The remainder of a negative number is read to the left of the middle. -/
theorem zero_tmod (i : Int) :
    zero (toInt (i.tmod Radix.ten.val)) = some (decimalDigit (i.natAbs % Radix.ten.val)) := by
  have habs := Int.natAbs_tmod i Radix.ten.val
  have hlt := Nat.mod_lt i.natAbs (show 0 < 10 by decide)
  rw [Int.natAbs_natCast] at habs
  have hten : Radix.ten.val = 10 := rfl
  rw [hten] at habs ⊢
  rw [toInt_eq_self (by omega) (by omega), zero_eq (by omega) (by omega), habs]

theorem digitsHex_tmod {i : Int} (hi : 0 ≤ i) :
    digitsHex (toInt (i.tmod Radix.sixteen.val)) =
      some (upperHexDigit (i.natAbs % Radix.sixteen.val)) := by
  have habs := Int.natAbs_tmod i Radix.sixteen.val
  have hlt := Nat.mod_lt i.natAbs (show 0 < 16 by decide)
  have hpos := Int.tmod_nonneg Radix.sixteen.val hi
  rw [Int.natAbs_natCast] at habs
  have hsixteen : Radix.sixteen.val = 16 := rfl
  rw [hsixteen] at habs hpos ⊢
  rw [toInt_eq_self (by omega) (by omega), digitsHex_eq (by omega) (by omega), habs]

/-! ## The loop -/

section Loop

variable {T : Integral} {base : Radix} {table : Int → Option UInt8} {digit : Nat → UInt8}

/-- One turn of the loop. -/
theorem emitDigits_step {i : Int} (hi : T.Holds i)
    (htable : table (toInt (i.tmod base.val)) = some (digit (i.natAbs % base.val))) {size : Nat}
    (mem : Memory size) (p : Nat) :
    emitDigits T base table mem p i =
      mem.write p [digit (i.natAbs % base.val)] >>= fun mem =>
        if i.tdiv base.val = 0 then some (mem, p + 1, [i.tmod base.val, i.tdiv base.val])
        else (emitDigits T base table mem (p + 1) (i.tdiv base.val)).map fun (mem, p, values) =>
          (mem, p, i.tmod base.val :: i.tdiv base.val :: values) := by
  have hholds : T.Holds (i.tmod base.val) ∧ T.Holds (i.tdiv base.val) :=
    ⟨hi.of_within (within_tmod base i), hi.of_within (within_tdiv base i)⟩
  rw [emitDigits]
  simp only [hholds, and_self, guard_true, htable, Option.pure_def, Option.bind_eq_bind,
    Option.bind_some, dite_eq_ite]
  congr 1
  funext mem
  split
  · rfl
  · cases emitDigits T base table mem (p + 1) (i.tdiv base.val) <;> rfl

/-- The loop stores the numeral from its end to its start, and computes the same values wherever it
stores it, none of them beyond the number or zero. -/
theorem emitDigits_eq
    (htable : ∀ i, T.Holds i →
      table (toInt (i.tmod base.val)) = some (digit (i.natAbs % base.val)))
    {i : Int} (hi : T.Holds i) :
    ∃ values, (∀ x ∈ values, Within x i) ∧ ∀ {size : Nat} (mem : Memory size) (p : Nat),
      emitDigits T base table mem p i =
        (mem.write p ((numeral base i.natAbs).map digit).reverse).map fun mem =>
          (mem, p + (numeral base i.natAbs).length, values) := by
  -- the quotient is nearer to zero, and its numeral is the one in front of the last digit
  induction hn : i.natAbs using Nat.strongRecOn generalizing i with
  | ind n ih =>
      subst hn
      have hquot : (i.tdiv base.val).natAbs = i.natAbs / base.val := by
        rw [Int.natAbs_tdiv, Int.natAbs_natCast]
        rfl
      by_cases hzero : i.tdiv base.val = 0
      -- the last turn stores the digit in front
      · refine ⟨[i.tmod base.val, i.tdiv base.val], ?_, fun mem p => ?_⟩
        · simp [within_tmod, within_tdiv]
        rw [emitDigits_step hi (htable i hi), numeral_eq]
        rw [hzero, Int.natAbs_zero] at hquot
        simp only [hzero, if_true, ← hquot, List.nil_append, List.map_cons, List.map_nil,
          List.reverse_singleton, List.length_singleton]
        cases mem.write p [digit (i.natAbs % base.val)] with
        | none => rfl
        | some mem => rfl
      · have hne : i.natAbs / base.val ≠ 0 := by
          rw [← hquot]
          exact Int.natAbs_ne_zero.2 hzero
        obtain ⟨values, hwithin, hrest⟩ := ih _ (natAbs_tdiv_lt base hzero)
          (hi.of_within (within_tdiv base i)) rfl
        rw [hquot] at hrest
        refine ⟨i.tmod base.val :: i.tdiv base.val :: values, ?_, fun mem p => ?_⟩
        · simp only [List.forall_mem_cons]
          exact ⟨within_tmod base i, within_tdiv base i,
            fun x hx => (hwithin x hx).trans (within_tdiv base i)⟩
        rw [emitDigits_step hi (htable i hi), numeral_eq]
        simp only [if_neg hzero, if_neg hne, List.map_append, List.map_cons, List.map_nil,
          List.reverse_append, List.reverse_singleton, Memory.write_append, List.length_append,
          List.length_singleton]
        cases mem.write p [digit (i.natAbs % base.val)] with
        | none => rfl
        | some mem =>
            rw [Option.bind_eq_bind, Option.bind_some, Option.bind_eq_bind, Option.bind_some, hrest,
              Option.map_map]
            have hlen : p + 1 + (numeral base (i.natAbs / base.val)).length =
                p + ((numeral base (i.natAbs / base.val)).length + 1) := by omega
            rw [hlen]
            rfl

end Loop

/-! ## The texts -/

section Texts

variable {size : Nat} {T : Integral}

/-- What has been stored backwards is stored forwards by `std::reverse`, in front of the NUL. -/
theorem reverse_stored {α : Type} (mem : Memory size) (buf : Nat) (text : Bytes)
    (result : Memory size → Nat → α) :
    (mem.write buf (text.reverse ++ [0]) >>= fun mem => do
      let mem ← mem.reverse buf (buf + text.length)
      return result mem (buf + text.length - buf)) =
        (mem.write buf (text ++ [0])).map fun mem => result mem text.length := by
  have hreverse := Memory.reverse_write mem buf text.reverse [0]
  rw [List.length_reverse, List.reverse_reverse] at hreverse
  rw [← hreverse, Nat.add_sub_cancel_left]
  cases mem.write buf (text.reverse ++ [0]) with
  | none => rfl
  | some mem =>
      rw [Option.bind_eq_bind, Option.bind_some, Option.bind_eq_bind, Option.bind_some]
      cases mem.reverse buf (buf + text.length) with
      | none => rfl
      | some mem => rfl

/-- `convert` stores the canonical text and a NUL, and returns the length of the text.  The values it
computes do not depend on the memory. -/
theorem convertValues_eq {value : Int} (h : T.Holds value) :
    ∃ values, (∀ x ∈ values, Within x value) ∧ ∀ {size : Nat} (mem : Memory size) (buf : Nat),
      convertValues T mem buf value =
        (mem.write buf (decimal value ++ [0])).map fun mem =>
          (mem, (decimal value).length, values) := by
  obtain ⟨values, hwithin, hloop⟩ := emitDigits_eq (fun i _ => zero_tmod i) h
  refine ⟨value :: values, ?_, fun mem buf => ?_⟩
  · rw [List.forall_mem_cons]
    exact ⟨.refl value, hwithin⟩
  have hlen : ((numeral .ten value.natAbs).map decimalDigit).reverse.length =
      (numeral .ten value.natAbs).length := by
    rw [List.length_reverse, List.length_map]
  have hstored := reverse_stored mem buf (decimal value) fun mem length =>
    (mem, length, value :: values)
  rw [convertValues, hloop, ← hstored, length_decimal]
  by_cases hneg : value < 0
  · -- the sign is stored last, so it comes to the front
    have htext : (decimal value).reverse =
        ((numeral .ten value.natAbs).map decimalDigit).reverse ++ [minus] := by
      rw [decimal, if_pos hneg, List.reverse_append, List.reverse_singleton]
    have hend : buf + (numeral .ten value.natAbs).length + 1 =
        buf + (1 + (numeral .ten value.natAbs).length) := by omega
    rw [htext, Memory.write_append, Memory.write_append, List.length_append, hlen]
    simp only [hneg, if_true]
    cases mem.write buf ((numeral .ten value.natAbs).map decimalDigit).reverse with
    | none => rfl
    | some mem =>
        simp only [Option.map_some, Option.bind_eq_bind, Option.bind_some]
        cases mem.write (buf + (numeral .ten value.natAbs).length) [minus] with
        | none => rfl
        | some mem =>
            simp only [Option.map_some, Option.bind_some, List.length_singleton, hend,
              Nat.add_comm 1]
  · have htext : (decimal value).reverse =
        ((numeral .ten value.natAbs).map decimalDigit).reverse := by
      rw [decimal, if_neg hneg, List.nil_append]
    rw [htext, Memory.write_append, hlen]
    simp only [hneg, if_false, Nat.zero_add]
    cases mem.write buf ((numeral .ten value.natAbs).map decimalDigit).reverse with
    | none => rfl
    | some mem => rfl

theorem convert_eq (mem : Memory size) (buf : Nat) {value : Int} (h : T.Holds value) :
    convert T mem buf value =
      (mem.write buf (decimal value ++ [0])).map fun mem => (mem, (decimal value).length) := by
  obtain ⟨values, -, heq⟩ := convertValues_eq h
  rw [convert, heq, Option.map_map]
  rfl

theorem convertHex_eq (mem : Memory size) (buf : Nat) {value : Int}
    (h : Integral.unsignedLong.Holds value) :
    convertHex mem buf value =
      (mem.write buf (upperHex value.natAbs ++ [0])).map fun mem =>
        (mem, (upperHex value.natAbs).length) := by
  have htable : ∀ i, Integral.unsignedLong.Holds i →
      digitsHex (toInt (i.tmod Radix.sixteen.val)) =
        some (upperHexDigit (i.natAbs % Radix.sixteen.val)) :=
    fun i hi => digitsHex_tmod (i := i) hi.1
  obtain ⟨values, -, hloop⟩ := emitDigits_eq htable h
  have hlen : ((numeral .sixteen value.natAbs).map upperHexDigit).reverse.length =
      (numeral .sixteen value.natAbs).length := by
    rw [List.length_reverse, List.length_map]
  have hstored := reverse_stored mem buf (upperHex value.natAbs) Prod.mk
  rw [convertHex, hloop, ← hstored, upperHex, Memory.write_append, hlen, List.length_map]
  cases mem.write buf ((numeral .sixteen value.natAbs).map upperHexDigit).reverse with
  | none => rfl
  | some mem => rfl

/-- At most 19 digits and a sign, or 20 digits. -/
theorem length_decimal_value (v : T.Value) : (decimal v.val).length ≤ 20 := by
  have hbounds := v.holds.bounds
  by_cases hneg : v.val < 0
  · have hle := length_decimal_le (by decide) (hbounds.2 hneg)
    rwa [if_pos hneg] at hle
  · have hle := length_decimal_le (by decide) hbounds.1
    rwa [if_neg hneg, Nat.zero_add] at hle

theorem length_upperHex_value (v : Integral.unsignedLong.Value) :
    (upperHex v.val.natAbs).length ≤ 16 := by
  refine length_upperHex_le (by decide) ?_
  have hmax : v.val ≤ 2 ^ 64 - 1 := v.holds.2
  have hmin : 0 ≤ v.val := v.holds.1
  omega

/-- Integer formatting is exact: the canonical text of every value is stored in front of a NUL, its
length is returned, and nothing that is computed on the way is negated. -/
theorem formatting_exact :
    (∀ (T : Integral) (v : T.Value), ∃ text values, IsDecimal text v.val ∧ text.length ≤ 20 ∧
      (∀ size (mem : Memory size) buf, convert T mem buf v.val =
        (mem.write buf (text ++ [0])).map fun mem => (mem, text.length)) ∧
      (∀ size (mem : Memory size) buf, convertValues T mem buf v.val =
        (mem.write buf (text ++ [0])).map fun mem => (mem, text.length, values)) ∧
      ∀ x ∈ values, Within x v.val ∧ T.Holds x) ∧
    ∀ v : Integral.unsignedLong.Value, ∃ text, IsUpperHex text v.val.natAbs ∧ text.length ≤ 16 ∧
      ∀ size (mem : Memory size) buf, convertHex mem buf v.val =
        (mem.write buf (text ++ [0])).map fun mem => (mem, text.length) := by
  constructor
  · intro T v
    obtain ⟨values, hwithin, heq⟩ := convertValues_eq v.holds
    exact ⟨decimal v.val, values, isDecimal_iff.2 rfl, length_decimal_value v,
      fun _ mem buf => convert_eq mem buf v.holds, fun _ mem buf => heq mem buf,
      fun x hx => ⟨hwithin x hx, v.holds.of_within (hwithin x hx)⟩⟩
  · intro v
    exact ⟨upperHex v.val.natAbs, isUpperHex_iff.2 rfl, length_upperHex_value v,
      fun _ mem buf => convertHex_eq mem buf v.holds⟩

end Texts

/-- The least value of a 64-bit type, whose negation overflows. -/
example : (convert .long ⟨List.replicate 22 120, rfl⟩ 0 (-9223372036854775808)).map (·.2) =
    some 20 := by
  rw [convert_eq _ _ (by decide)]
  decide

end Base
end Longky
