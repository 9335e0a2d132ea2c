import Mathlib.Data.List.Basic
import Mathlib.Tactic.Common

/-!
# Pending — work that waits in a list

A loop keeps what it still has to do in a list, adds at the end and takes out at some position.
These lemmas count the occurrences of one piece of work.
-/

namespace Longky
namespace Lib
namespace Pending

variable {α : Type*} [DecidableEq α] {l : List α} {i : Nat} {x y : α}

theorem count_quiet {quiet : α → Bool} (h : ∀ y ∈ l, quiet y = true) (hx : quiet x = false) :
    l.count x = 0 := by
  apply List.count_eq_zero_of_not_mem
  intro hmem
  simp [h x hmem] at hx

theorem count_eraseIdx_self (h : l[i]? = some x) : l.count x = (l.eraseIdx i).count x + 1 := by
  rcases List.getElem?_eq_some_iff.1 h with ⟨hlt, rfl⟩
  have hpos : 0 < l.count l[i] := List.count_pos_iff.2 (List.getElem_mem hlt)
  rw [← (List.erase_getElem hlt).count_eq, List.count_erase_self]
  omega

theorem count_eraseIdx_of_ne (h : l[i]? = some x) (hne : x ≠ y) :
    (l.eraseIdx i).count y = l.count y := by
  rcases List.getElem?_eq_some_iff.1 h with ⟨hlt, rfl⟩
  rw [← (List.erase_getElem hlt).count_eq, List.count_erase_of_ne hne.symm]

theorem count_concat_self : (l ++ [x]).count x = l.count x + 1 := by
  rw [List.count_append, List.count_singleton_self]

theorem count_concat_of_ne (h : x ≠ y) : (l ++ [x]).count y = l.count y := by
  rw [List.count_append, List.count_singleton, if_neg (by simpa using h), Nat.add_zero]

end Pending
end Lib
end Longky
