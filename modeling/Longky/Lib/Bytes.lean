import Mathlib.Data.List.Basic
import Mathlib.Data.List.TakeWhile
import Mathlib.Tactic.Common
import Mathlib.Tactic.Ring

/-!
# Bytes — byte strings, texts and big-endian numbers

Fixed-width numbers in network byte order: `bigEndian w n` writes the low `w` bytes of `n`, most
significant byte first, and `ofBigEndian` reads a byte string back.  The two are inverse on
numbers below `256 ^ w`.
-/

namespace Longky
namespace Lib

abbrev Bytes := List UInt8

instance : LawfulBEq Bytes := inferInstance

namespace Bytes

/-! ## Definitions -/

/-- The low `w` bytes of `n`, most significant first. -/
def bigEndian : Nat → Nat → Bytes
  | 0, _ => []
  | w + 1, n => UInt8.ofNat (n / 256 ^ w) :: bigEndian w n

/-- The number a byte string denotes, most significant byte first. -/
def ofBigEndian (bs : Bytes) : Nat :=
  bs.foldl (fun acc b => acc * 256 + b.toNat) 0

/-- The bytes of a text. -/
def ofString (s : String) : Bytes := s.toByteArray.data.toList

/-- What `c_str()` shows of a string: the bytes in front of the first NUL. -/
def cStr (bs : Bytes) : Bytes := bs.takeWhile (· != 0)

/-- `isspace` in the "C" locale. -/
def isspace (b : UInt8) : Bool := b == 32 || (9 ≤ b && b ≤ 13)

def tolower (b : UInt8) : UInt8 := if 65 ≤ b ∧ b ≤ 90 then b + 32 else b

/-- `strcasecmp(s, t) == 0`. -/
def caseEq (s t : Bytes) : Bool := (cStr s).map tolower == (cStr t).map tolower

/-- The position of the first carriage return that a line feed follows. -/
def findCRLF : Bytes → Option Nat
  | 13 :: 10 :: _ => some 0
  | _ :: t => (findCRLF t).map (· + 1)
  | [] => none

/-! ## Reading back what was written -/

@[simp] theorem length_bigEndian (w n : Nat) : (bigEndian w n).length = w := by
  induction w with
  | zero => rfl
  | succ w ih => simp [bigEndian, ih]

theorem foldl_bigEndian (w n acc : Nat) :
    (bigEndian w n).foldl (fun acc b => acc * 256 + b.toNat) acc =
      acc * 256 ^ w + n % 256 ^ w := by
  induction w generalizing acc with
  | zero => simp [bigEndian, Nat.mod_one]
  | succ w ih =>
      have hsplit : n % 256 ^ (w + 1) = n % 256 ^ w + 256 ^ w * (n / 256 ^ w % 256) := by
        rw [Nat.pow_succ, Nat.mod_mul]
      simp only [bigEndian, List.foldl_cons, ih, UInt8.toNat_ofNat', hsplit]
      ring

theorem ofBigEndian_bigEndian (w n : Nat) : ofBigEndian (bigEndian w n) = n % 256 ^ w := by
  simpa [ofBigEndian] using foldl_bigEndian w n 0

theorem ofBigEndian_bigEndian_of_lt {w n : Nat} (h : n < 256 ^ w) :
    ofBigEndian (bigEndian w n) = n := by
  rw [ofBigEndian_bigEndian, Nat.mod_eq_of_lt h]

theorem foldl_div (bs : Bytes) (acc : Nat) :
    bs.foldl (fun acc b => acc * 256 + b.toNat) acc / 256 ^ bs.length = acc := by
  induction bs generalizing acc with
  | nil => simp
  | cons b bs ih =>
      have hb : b.toNat < 256 := b.toNat_lt
      rw [List.foldl_cons, List.length_cons, Nat.pow_succ, ← Nat.div_div_eq_div_mul, ih]
      omega

/-- Writing what was read gives the bytes back. -/
theorem bigEndian_ofBigEndian (bs : Bytes) : bigEndian bs.length (ofBigEndian bs) = bs := by
  have hall : ∀ acc, bigEndian bs.length
      (bs.foldl (fun acc b => acc * 256 + b.toNat) acc) = bs := by
    induction bs with
    | nil => exact fun _ => rfl
    | cons b bs ih =>
        intro acc
        rw [List.foldl_cons, List.length_cons, bigEndian, foldl_div, ih]
        congr 1
        apply UInt8.toNat_inj.1
        rw [UInt8.toNat_ofNat', Nat.mul_add_mod_of_lt b.toNat_lt]
  exact hall 0

theorem ofBigEndian_lt (bs : Bytes) : ofBigEndian bs < 256 ^ bs.length := by
  have hread := ofBigEndian_bigEndian bs.length (ofBigEndian bs)
  rw [bigEndian_ofBigEndian] at hread
  rw [hread]
  exact Nat.mod_lt _ (Nat.pow_pos (by decide))

/-! ## C strings -/

theorem cStr_eq_self {text : Bytes} (h : 0 ∉ text) : cStr text = text := by
  unfold cStr
  rw [List.takeWhile_eq_self_iff]
  intro c hc
  simp only [bne_iff_ne, ne_eq]
  rintro rfl
  exact h hc

end Bytes
end Lib
end Longky
