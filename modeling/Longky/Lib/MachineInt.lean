import Mathlib.Tactic.Common

/-!
# MachineInt — arithmetic in `int`

Integers stand for the values.  An operation whose result an `int` of 32 bits cannot hold has no
defined behaviour, so the operations of a function go through `int`, which is `none` there.
-/

namespace Longky
namespace Lib
namespace MachineInt

/-- The result of an operation in `int`. -/
def int (x : Int) : Option Int :=
  if -2147483648 ≤ x ∧ x ≤ 2147483647 then some x else none

theorem int_eq_some {x : Int} (hmin : -2147483648 ≤ x) (hmax : x ≤ 2147483647) :
    int x = some x := if_pos ⟨hmin, hmax⟩

/-- A function goes on with the result of an operation. -/
theorem int_bind {T : Type} {x : Int} {f : Int → Option T} (hmin : -2147483648 ≤ x)
    (hmax : x ≤ 2147483647) : (int x >>= f) = f x := by
  rw [int_eq_some hmin hmax]
  rfl

/-- `static_cast<int>` of a wider integer. -/
def toInt (x : Int) : Int := (x + 2147483648) % 4294967296 - 2147483648

theorem toInt_eq_self {x : Int} (hmin : -2147483648 ≤ x) (hmax : x ≤ 2147483647) :
    toInt x = x := by
  unfold toInt
  omega

/-- The conversion to `unsigned`. -/
def toUnsigned (x : Int) : Nat := (x % 4294967296).toNat

theorem toUnsigned_eq_self {x : Int} (hmin : 0 ≤ x) (hmax : x ≤ 4294967295) :
    (toUnsigned x : Int) = x := by
  unfold toUnsigned
  omega

end MachineInt
end Lib
end Longky
