import Mathlib.Tactic.Common

/-!
# LowerBound — binary search for the first element that is not below

`lowerBound` is `std::lower_bound` as it is usually implemented.  Its result lies between an element
that is below the wanted one and an element that is not (`lowerBound_spec`), whether the list is
sorted or not.

`scanLast` is the plain scan that such a search is compared with.
-/

namespace Longky
namespace Lib

variable {T : Type*}

/-- The search among the `len` elements from `first` on. -/
def lowerBoundIn (below : T → Bool) (xs : List T) (first len : Nat) : Nat :=
  if hlen : len = 0 then first
  else
    let half := len / 2
    if (xs[first + half]?).any below then
      lowerBoundIn below xs (first + half + 1) (len - half - 1)
    else lowerBoundIn below xs first half
termination_by len
decreasing_by all_goals omega

def lowerBound (below : T → Bool) (xs : List T) : Nat := lowerBoundIn below xs 0 xs.length

/-- The element in front of `first` is below, and the one at `last` is not. -/
structure Brackets (below : T → Bool) (xs : List T) (first last : Nat) : Prop where
  le_length : last ≤ xs.length
  before : ∀ i x, i + 1 = first → xs[i]? = some x → below x = true
  behind : ∀ x, xs[last]? = some x → below x = false

theorem Brackets.lowerBoundIn {below : T → Bool} {xs : List T} {first len : Nat}
    (h : Brackets below xs first (first + len)) :
    Brackets below xs (lowerBoundIn below xs first len) (lowerBoundIn below xs first len) := by
  fun_induction Lib.lowerBoundIn below xs first len with
  | case1 first => exact h
  | case2 first len hlen half hbelow ih =>
      -- the search goes on behind the element in the middle
      have hlast : first + half + 1 + (len - half - 1) = first + len := by omega
      refine ih ⟨hlast ▸ h.le_length, ?_, hlast ▸ h.behind⟩
      intro i x hi hx
      obtain rfl : i = first + half := by omega
      simpa [hx] using hbelow
  | case3 first len hlen half hbelow ih =>
      refine ih ⟨?_, h.before, ?_⟩
      · have hle := h.le_length
        omega
      · intro x hx
        simpa [hx] using hbelow

theorem lowerBound_spec (below : T → Bool) (xs : List T) :
    Brackets below xs (lowerBound below xs) (lowerBound below xs) := by
  refine Brackets.lowerBoundIn ⟨Nat.le_of_eq (Nat.zero_add _), ?_, ?_⟩
  · intro i x hi
    omega
  · intro x hx
    simp at hx

/-! ## The scan from front to back -/

variable {S : Type*}

/-- What `f` makes of the last element with `p`, or `init`. -/
def scanLast (p : T → Bool) (f : T → S) (init : S) (xs : List T) : S :=
  xs.foldl (fun last x => if p x then f x else last) init

variable {p : T → Bool} {f : T → S}

theorem scanLast_cons (init : S) (x : T) (xs : List T) :
    scanLast p f init (x :: xs) = scanLast p f (if p x then f x else init) xs := rfl

theorem scanLast_of_forall_not {xs : List T} (h : ∀ x ∈ xs, p x = false) (init : S) :
    scanLast p f init xs = init := by
  induction xs generalizing init with
  | nil => rfl
  | cons x xs ih =>
      have hx : p x = false := h x List.mem_cons_self
      have hxs : ∀ y ∈ xs, p y = false := fun y hy => h y (List.mem_cons_of_mem x hy)
      calc scanLast p f init (x :: xs)
          = scanLast p f init xs := by simp only [scanLast_cons, hx, Bool.false_eq_true, if_false]
        _ = init := ih hxs init

/-- The element at `i` is the last one with `p`. -/
theorem scanLast_eq {xs : List T} {i : Nat} {x : T} (hget : xs[i]? = some x) (hx : p x = true)
    (hlater : ∀ j y, i < j → xs[j]? = some y → p y = false) (init : S) :
    scanLast p f init xs = f x := by
  induction xs generalizing i init with
  | nil => cases hget
  | cons y ys ih =>
      rw [scanLast_cons]
      cases i with
      | zero =>
          obtain rfl : y = x := Option.some.inj hget
          -- nothing behind the head has `p`
          have hrest : ∀ z ∈ ys, p z = false := by
            intro z hz
            rcases List.getElem?_of_mem hz with ⟨j, hj⟩
            exact hlater (j + 1) z (Nat.succ_pos j) hj
          rw [scanLast_of_forall_not hrest, if_pos hx]
      | succ i => exact ih hget (fun j z hij hz => hlater (j + 1) z (Nat.succ_lt_succ hij) hz) _

end Lib
end Longky
