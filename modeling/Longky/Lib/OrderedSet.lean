import Mathlib.Data.Finset.Sort

/-!
# OrderedSet — ordered iteration over finite sets

The part of `std::set`'s interface that depends on the order: iteration, the first element, and the
split of a set at a lower bound.
-/

namespace Longky
namespace Lib

namespace OrderedSet

variable {α : Type*} [LinearOrder α]

/-- The elements in order.  Unlike `Finset.sort`, which sorts by merging, this evaluates. -/
def toList (s : Finset α) : List α :=
  Quot.liftOn s.val (List.insertionSort (· ≤ ·)) fun l₁ l₂ h =>
    ((List.perm_insertionSort _ l₁).trans (h.trans (List.perm_insertionSort _ l₂).symm)).eq_of_pairwise'
      (List.pairwise_insertionSort _ l₁) (List.pairwise_insertionSort _ l₂)

theorem toList_eq_sort (s : Finset α) : toList s = s.sort (· ≤ ·) := by
  rcases s with ⟨⟨l⟩, hl⟩
  exact (List.mergeSort_eq_insertionSort (· ≤ ·) l).symm

/-- The smallest element, `*begin()`. -/
def first? (s : Finset α) : Option α :=
  (toList s).head?

/-- The elements in front of `lower_bound(b)`, in order. -/
def below (s : Finset α) (b : α) : List α :=
  toList (s.filter (· < b))

/-- The elements from `lower_bound(b)` on. -/
def atLeast (s : Finset α) (b : α) : Finset α :=
  s.filter (¬ · < b)

variable {s : Finset α} {a b : α}

@[simp] theorem mem_toList : a ∈ toList s ↔ a ∈ s := by
  rw [toList_eq_sort, Finset.mem_sort]

theorem mem_of_first? (h : first? s = some a) : a ∈ s :=
  mem_toList.1 (List.mem_of_mem_head? h)

theorem le_of_first? (h : first? s = some a) {b : α} (hb : b ∈ s) : a ≤ b := by
  rw [← mem_toList] at hb
  have hsorted : (toList s).Pairwise (· ≤ ·) := by
    rw [toList_eq_sort]
    exact Finset.pairwise_sort _ _
  unfold first? at h
  cases hl : toList s with
  | nil => simp [hl] at hb
  | cons c l =>
      rw [hl, List.head?_cons, Option.some.injEq] at h
      subst h
      rw [hl] at hb hsorted
      rcases List.mem_cons.1 hb with rfl | hb
      · exact le_refl _
      · exact (List.pairwise_cons.1 hsorted).1 b hb

theorem not_mem_of_first?_eq_none (h : first? s = none) (b : α) : b ∉ s := by
  rw [← mem_toList, List.head?_eq_none_iff.1 h]
  exact List.not_mem_nil

@[simp] theorem mem_below : a ∈ below s b ↔ a ∈ s ∧ a < b := by
  simp [below]

@[simp] theorem mem_atLeast : a ∈ atLeast s b ↔ a ∈ s ∧ b ≤ a := by
  simp [atLeast]

theorem pairwise_below (s : Finset α) (b : α) : (below s b).Pairwise (· ≤ ·) := by
  rw [below, toList_eq_sort]
  exact Finset.pairwise_sort _ _

theorem nodup_below (s : Finset α) (b : α) : (below s b).Nodup := by
  rw [below, toList_eq_sort]
  exact Finset.sort_nodup _ _

end OrderedSet
end Lib
end Longky
