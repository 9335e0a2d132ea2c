import Mathlib.Data.List.Basic
import Mathlib.Logic.Function.Basic
import Mathlib.Tactic.Common

/-!
# Positions — a vector whose elements know their index

Each element of a vector carries its own index, so that it can be taken out in constant time: the
last element moves into the gap.

* `Positioned pos l` — `pos` is the index of each element of `l`;
* `swap l i j` — the vector after an exchange of two cells;
* `swapRemove l i` — the vector after cell `i` has been exchanged with the last and dropped.
-/

namespace Longky
namespace Lib
namespace Positions

variable {α β : Type*}

/-- What is found in a list with one more element at its end. -/
theorem getElem?_concat {l : List α} {x y : α} {k : Nat}
    (h : (l ++ [x])[k]? = some y) : l[k]? = some y ∨ k = l.length ∧ y = x := by
  rcases Nat.lt_or_ge k l.length with hlt | hge
  · rw [List.getElem?_append_left hlt] at h
    exact .inl h
  · rw [List.getElem?_append_right hge, List.getElem?_singleton] at h
    split at h
    · rename_i hzero
      cases h
      exact .inr ⟨by omega, rfl⟩
    · cases h

def Positioned (pos : α → Int) (l : List α) : Prop :=
  ∀ (i : Nat) (x : α), l[i]? = some x → pos x = i

def swap (l : List α) (i j : Nat) : List α :=
  match l[i]?, l[j]? with
  | some x, some y => (l.set i y).set j x
  | _, _ => l

def swapRemove (l : List α) (i : Nat) : List α :=
  (swap l i (l.length - 1)).dropLast

/-! ## Cells -/

@[simp] theorem length_swap (l : List α) (i j : Nat) : (swap l i j).length = l.length := by
  unfold swap
  split <;> simp

theorem swap_self (l : List α) (i : Nat) : swap l i i = l := by
  unfold swap
  cases hi : l[i]? with
  | none => rfl
  | some x =>
      rcases List.getElem?_eq_some_iff.1 hi with ⟨hlt, rfl⟩
      simp

theorem getElem?_swapRemove {l : List α} {i : Nat} (hi : i < l.length) (j : Nat) :
    (swapRemove l i)[j]? =
      if j < l.length - 1 then if j = i then l[l.length - 1]? else l[j]? else none := by
  have hlast : l.length - 1 < l.length := by omega
  simp only [swapRemove, swap, List.getElem?_eq_getElem hi, List.getElem?_eq_getElem hlast,
    List.getElem?_dropLast, List.length_set]
  split_ifs with hj heq
  · subst heq
    rw [List.getElem?_set_ne (by omega), List.getElem?_set_self hi]
  · rw [List.getElem?_set_ne (by omega), List.getElem?_set_ne (by omega)]
  · rfl

theorem swapRemove_last {l : List α} : swapRemove l (l.length - 1) = l.dropLast := by
  rw [swapRemove, swap_self]

theorem map_swap (f : α → β) (l : List α) (i j : Nat) :
    (swap l i j).map f = swap (l.map f) i j := by
  unfold swap
  simp only [List.getElem?_map]
  cases l[i]? <;> cases l[j]? <;> simp [List.map_set]

theorem map_swapRemove (f : α → β) (l : List α) (i : Nat) :
    (swapRemove l i).map f = swapRemove (l.map f) i := by
  rw [swapRemove, swapRemove, List.map_dropLast, map_swap, List.length_map]

/-! ## Indices -/

section Indices

variable {pos : α → Int} {l : List α} {i : Nat} {x y : α}

theorem positioned_nil : Positioned pos ([] : List α) := by
  simp [Positioned]

theorem Positioned.cell (h : Positioned pos l) (hx : x ∈ l) :
    ∃ i : Nat, l[i]? = some x ∧ pos x = i := by
  rcases List.mem_iff_getElem?.1 hx with ⟨i, hi⟩
  exact ⟨i, hi, h i x hi⟩

/-- An element stands in one cell only. -/
theorem Positioned.index_eq (h : Positioned pos l) {j : Nat} (hi : l[i]? = some x)
    (hj : l[j]? = some x) : i = j := by
  have hij : (i : Int) = j := (h i x hi).symm.trans (h j x hj)
  exact_mod_cast hij

/-- Writing one cell of a mapped list is mapping with a function that differs there only. -/
theorem Positioned.map_set {f g : α → β} (h : Positioned pos l)
    (hi : l[i]? = some x) (hsame : ∀ y ∈ l, y ≠ x → g y = f y) :
    (l.map f).set i (g x) = l.map g := by
  apply List.ext_getElem?
  intro j
  by_cases hji : j = i
  · subst hji
    have hlt : j < (l.map f).length := by
      rw [List.length_map]
      exact (List.getElem?_eq_some_iff.1 hi).1
    rw [List.getElem?_set_self hlt, List.getElem?_map, hi, Option.map_some]
  · rw [List.getElem?_set_ne (Ne.symm hji), List.getElem?_map, List.getElem?_map]
    cases hj : l[j]? with
    | none => rfl
    | some y =>
        have hne : y ≠ x := fun heq => hji (h.index_eq hj (heq ▸ hi))
        rw [Option.map_some, Option.map_some, hsame y (List.mem_of_getElem? hj) hne]

theorem Positioned.congr {pos' : α → Int} (h : Positioned pos l) (heq : ∀ x ∈ l, pos' x = pos x) :
    Positioned pos' l := fun i x hi => (heq x (List.mem_of_getElem? hi)).trans (h i x hi)

theorem Positioned.dropLast (h : Positioned pos l) : Positioned pos l.dropLast := by
  intro i x hi
  rw [List.getElem?_dropLast] at hi
  split_ifs at hi
  exact h i x hi

theorem Positioned.mem_swapRemove (h : Positioned pos l) (hi : l[i]? = some x) :
    y ∈ Positions.swapRemove l i ↔ y ∈ l ∧ y ≠ x := by
  have hlt : i < l.length := (List.getElem?_eq_some_iff.1 hi).1
  constructor
  · intro hy
    rcases List.mem_iff_getElem?.1 hy with ⟨j, hj⟩
    rw [getElem?_swapRemove hlt] at hj
    split_ifs at hj with hjlt heq
    · refine ⟨List.mem_of_getElem? hj, ?_⟩
      rintro rfl
      have := h.index_eq hi hj
      omega
    · refine ⟨List.mem_of_getElem? hj, ?_⟩
      rintro rfl
      exact heq (h.index_eq hj hi)
  · rintro ⟨hy, hne⟩
    rcases List.mem_iff_getElem?.1 hy with ⟨j, hj⟩
    have hjlt : j < l.length := (List.getElem?_eq_some_iff.1 hj).1
    have hji : j ≠ i := by
      rintro rfl
      exact hne (Option.some.inj (hj.symm.trans hi))
    -- the last element has moved to `i`
    by_cases hjlast : j = l.length - 1
    · refine List.mem_of_getElem? (i := i) ?_
      rw [getElem?_swapRemove hlt, if_pos (by omega), if_pos rfl, ← hjlast, hj]
    · refine List.mem_of_getElem? (i := j) ?_
      rw [getElem?_swapRemove hlt, if_pos (by omega), if_neg hji, hj]

variable [DecidableEq α]

theorem Positioned.concat (h : Positioned pos l) (hx : x ∉ l) :
    Positioned (Function.update pos x l.length) (l ++ [x]) := by
  intro i y hi
  rcases getElem?_concat hi with hold | ⟨rfl, rfl⟩
  · have hne : y ≠ x := fun heq => hx (heq ▸ List.mem_of_getElem? hold)
    rw [Function.update_of_ne hne]
    exact h i y hold
  · rw [Function.update_self]

theorem Positioned.swapRemove (h : Positioned pos l) (hi : i < l.length)
    (hlast : l[l.length - 1]? = some y) :
    Positioned (Function.update pos y i) (swapRemove l i) := by
  intro j z hj
  rw [getElem?_swapRemove hi] at hj
  split_ifs at hj with hlt heq
  · obtain rfl : y = z := Option.some.inj (hlast.symm.trans hj)
    rw [Function.update_self, heq]
  · have hzy : z ≠ y := by
      rintro rfl
      have := h.index_eq hj hlast
      omega
    rw [Function.update_of_ne hzy]
    exact h j z hj

end Indices

end Positions
end Lib
end Longky
