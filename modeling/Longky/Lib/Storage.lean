import Mathlib.Data.List.Basic
import Mathlib.Tactic.Common

/-!
# Storage — windows into a flat vector

A vector of cells is a list.  A *window* is a half-open index range `[lo, hi)`.  This module has
the three ways a program rewrites such a vector in place (store from outside, copy inside, resize)
and says what each of them leaves in a window.

* `slice v lo hi` — the contents of the window;
* `overwrite v pos data` — the vector after `data` has been stored at `pos`;
* `copyWithin v src dst n` — the vector after a front-to-back copy of `n` cells inside `v`, one cell
  at a time, so that the ranges may overlap;
* `resize v n x` — the vector cut or filled up with `x` to `n` cells.
-/

namespace Longky
namespace Lib
namespace Storage

variable {α : Type*}

/-! ## Definitions -/

/-- The cells of `v` with index in `[lo, hi)`. -/
def slice (v : List α) (lo hi : Nat) : List α :=
  (v.drop lo).take (hi - lo)

/-- Store `data` over the cells that start at `pos`. -/
def overwrite (v : List α) (pos : Nat) (data : List α) : List α :=
  v.take pos ++ data ++ v.drop (pos + data.length)

/-- Copy `n` cells from `src` to `dst`, front to back, each read from the vector as it then is. -/
def copyWithin (v : List α) (src dst : Nat) : Nat → List α
  | 0 => v
  | n + 1 =>
      match v[src]? with
      | some x => copyWithin (v.set dst x) (src + 1) (dst + 1) n
      | none => v

/-- Cut `v` to `n` cells, or fill it up to `n` cells with `x`. -/
def resize (v : List α) (n : Nat) (x : α) : List α :=
  v.take n ++ List.replicate (n - v.length) x

/-! ## Cells -/

theorem getElem?_slice (v : List α) (lo hi i : Nat) :
    (slice v lo hi)[i]? = if i < hi - lo then v[lo + i]? else none := by
  simp [slice, List.getElem?_take, List.getElem?_drop]

theorem getElem?_overwrite {v data : List α} {pos : Nat} (h : pos ≤ v.length) (i : Nat) :
    (overwrite v pos data)[i]? =
      if i < pos then v[i]?
      else if i < pos + data.length then data[i - pos]?
      else v[i]? := by
  have hmin : min pos v.length = pos := Nat.min_eq_left h
  simp only [overwrite, List.append_assoc, List.getElem?_append, List.length_take, hmin,
    List.getElem?_take, List.getElem?_drop]
  split_ifs with h₁ h₂ h₃ h₄
  · rfl
  · rfl
  · omega
  · omega
  · congr 1
    omega

theorem getElem?_resize {v : List α} {n : Nat} (x : α) {i : Nat} (hi : i < v.length)
    (hn : v.length ≤ n) : (resize v n x)[i]? = v[i]? := by
  simp [resize, List.take_of_length_le hn, List.getElem?_append, hi]

/-! ## Windows -/

theorem length_slice {v : List α} {lo hi : Nat} (h : hi ≤ v.length) :
    (slice v lo hi).length = hi - lo := by
  simp only [slice, List.length_take, List.length_drop]
  omega

@[simp] theorem slice_self (v : List α) (lo : Nat) : slice v lo lo = [] := by
  simp [slice]

theorem slice_append_slice {v : List α} {lo mid hi : Nat} (h₁ : lo ≤ mid) (h₂ : mid ≤ hi) :
    slice v lo mid ++ slice v mid hi = slice v lo hi := by
  have hdrop : v.drop mid = (v.drop lo).drop (mid - lo) := by
    rw [List.drop_drop]
    congr 1
    omega
  have hlen : hi - lo = (mid - lo) + (hi - mid) := by omega
  simp only [slice, hdrop, hlen, List.take_add]

theorem drop_slice (v : List α) (lo hi k : Nat) :
    (slice v lo hi).drop k = slice v (lo + k) hi := by
  simp only [slice, List.drop_take, List.drop_drop, Nat.sub_add_eq]

theorem take_slice {v : List α} {lo hi k : Nat} (h : lo + k ≤ hi) :
    (slice v lo hi).take k = slice v lo (lo + k) := by
  have hk : min k (hi - lo) = lo + k - lo := by omega
  simp only [slice, List.take_take, hk]

/-! ## Windows after a store -/

theorem length_overwrite {v data : List α} {pos : Nat} (h : pos + data.length ≤ v.length) :
    (overwrite v pos data).length = v.length := by
  simp only [overwrite, List.length_append, List.length_take, List.length_drop]
  omega

theorem slice_overwrite_before {v data : List α} {pos lo hi : Nat} (hpos : pos ≤ v.length)
    (h : hi ≤ pos) : slice (overwrite v pos data) lo hi = slice v lo hi := by
  apply List.ext_getElem?
  intro i
  rw [getElem?_slice, getElem?_slice, getElem?_overwrite hpos]
  split_ifs <;> first | rfl | omega

theorem slice_overwrite_after {v data : List α} {pos lo hi : Nat} (hpos : pos ≤ v.length)
    (h : pos + data.length ≤ lo) : slice (overwrite v pos data) lo hi = slice v lo hi := by
  apply List.ext_getElem?
  intro i
  rw [getElem?_slice, getElem?_slice, getElem?_overwrite hpos]
  split_ifs <;> first | rfl | omega

theorem slice_overwrite_self {v data : List α} {pos : Nat} (hpos : pos ≤ v.length) :
    slice (overwrite v pos data) pos (pos + data.length) = data := by
  apply List.ext_getElem?
  intro i
  rw [getElem?_slice, getElem?_overwrite hpos]
  split_ifs with h₁ h₂ h₃
  · omega
  · simp
  · omega
  · rw [List.getElem?_eq_none]
    omega

/-- Storing right behind a window extends it. -/
theorem slice_overwrite_end {v data : List α} {lo pos : Nat} (hlo : lo ≤ pos)
    (hpos : pos ≤ v.length) :
    slice (overwrite v pos data) lo (pos + data.length) = slice v lo pos ++ data := by
  calc
    slice (overwrite v pos data) lo (pos + data.length)
        = slice (overwrite v pos data) lo pos ++
            slice (overwrite v pos data) pos (pos + data.length) :=
          (slice_append_slice hlo (Nat.le_add_right pos data.length)).symm
    _ = slice v lo pos ++ data := by
          rw [slice_overwrite_before hpos (Nat.le_refl pos), slice_overwrite_self hpos]

/-- Storing right in front of a window extends it. -/
theorem slice_overwrite_start {v data : List α} {pos hi : Nat} (hhi : pos + data.length ≤ hi)
    (hpos : pos ≤ v.length) :
    slice (overwrite v pos data) pos hi = data ++ slice v (pos + data.length) hi := by
  calc
    slice (overwrite v pos data) pos hi
        = slice (overwrite v pos data) pos (pos + data.length) ++
            slice (overwrite v pos data) (pos + data.length) hi :=
          (slice_append_slice (Nat.le_add_right pos data.length) hhi).symm
    _ = data ++ slice v (pos + data.length) hi := by
          rw [slice_overwrite_self hpos, slice_overwrite_after hpos (Nat.le_refl _)]

/-- Two stores one behind the other are one store. -/
theorem overwrite_append {v xs : List α} {pos : Nat} (h : pos + xs.length ≤ v.length)
    (ys : List α) :
    overwrite v pos (xs ++ ys) = overwrite (overwrite v pos xs) (pos + xs.length) ys := by
  have hlen : pos + xs.length ≤ (overwrite v pos xs).length := by rwa [length_overwrite h]
  apply List.ext_getElem?
  intro i
  rw [getElem?_overwrite (by omega), getElem?_overwrite hlen, getElem?_overwrite (by omega),
    List.length_append]
  -- the cells in front of both stores, in the first, in the second and behind them
  split_ifs <;> first
    | rfl
    | omega
    | rw [List.getElem?_append_left (by omega)]
    | rw [List.getElem?_append_right (by omega), Nat.sub_add_eq]

/-- A store over the first part of another one. -/
theorem overwrite_overwrite {v xs ys zs : List α} {pos : Nat} (hlen : zs.length = xs.length)
    (h : pos + xs.length ≤ v.length) :
    overwrite (overwrite v pos (xs ++ ys)) pos zs = overwrite v pos (zs ++ ys) := by
  have hpos : pos ≤ (overwrite v pos (xs ++ ys)).length := by
    simp only [overwrite, List.length_append, List.length_take]
    omega
  apply List.ext_getElem?
  intro i
  rw [getElem?_overwrite hpos, getElem?_overwrite (by omega), getElem?_overwrite (by omega),
    List.length_append, List.length_append, hlen]
  split_ifs <;> first
    | rfl
    | omega
    | rw [List.getElem?_append_left (by omega)]
    | rw [List.getElem?_append_right (by omega), List.getElem?_append_right (by omega), hlen]

/-! ## The in-place copy -/

@[simp] theorem length_copyWithin (v : List α) (src dst n : Nat) :
    (copyWithin v src dst n).length = v.length := by
  induction n generalizing v src dst with
  | zero => rfl
  | succ n ih =>
      unfold copyWithin
      cases v[src]? with
      | none => rfl
      | some x => simp [ih]

/-- A front-to-back copy towards the front reads no cell it has already written, so it has the
effect of storing a snapshot of the source range, also when the ranges overlap. -/
theorem copyWithin_eq_overwrite {v : List α} {src dst n : Nat} (hdst : dst ≤ src)
    (hsrc : src + n ≤ v.length) :
    copyWithin v src dst n = overwrite v dst (slice v src (src + n)) := by
  induction n generalizing v src dst with
  | zero => simp [copyWithin, overwrite]
  | succ n ih =>
      have hlt : src < v.length := by omega
      have hlen : (slice v src (src + (n + 1))).length = n + 1 := by
        rw [length_slice hsrc]
        omega
      have hlen' : (slice (v.set dst v[src]) (src + 1) (src + 1 + n)).length = n := by
        rw [length_slice (by simp; omega)]
        omega
      rw [copyWithin, List.getElem?_eq_getElem hlt]
      simp only
      rw [ih (v := v.set dst v[src]) (by omega) (by simp; omega)]
      apply List.ext_getElem?
      intro i
      rw [getElem?_overwrite (by simp; omega), getElem?_overwrite (by omega), hlen, hlen',
        getElem?_slice, getElem?_slice, List.getElem?_set, List.getElem?_set]
      -- The cell `dst` is the one this round writes; all others are read unchanged.
      rcases Nat.lt_trichotomy i dst with hi | hi | hi
      · simp [hi, Nat.lt_succ_of_lt hi, Nat.ne_of_gt hi]
      · subst hi
        simp [hlt, show i < v.length by omega]
      · have e : src + 1 + (i - (dst + 1)) = src + (i - dst) := by omega
        have hne : dst ≠ src + (i - dst) := by omega
        have hne' : dst ≠ i := by omega
        simp only [e, hne, hne', if_false]
        split_ifs <;> first | rfl | omega

/-! ## Resizing -/

@[simp] theorem length_resize (v : List α) (n : Nat) (x : α) : (resize v n x).length = n := by
  simp only [resize, List.length_append, List.length_take, List.length_replicate]
  omega

theorem slice_resize {v : List α} {lo hi n : Nat} (x : α) (hhi : hi ≤ v.length)
    (hn : v.length ≤ n) : slice (resize v n x) lo hi = slice v lo hi := by
  apply List.ext_getElem?
  intro i
  rw [getElem?_slice, getElem?_slice]
  split_ifs with h
  · exact getElem?_resize x (by omega) hn
  · rfl

end Storage
end Lib
end Longky
