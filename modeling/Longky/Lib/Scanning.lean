import Mathlib.Data.List.TakeWhile

/-!
# Scanning — scanners that look one element ahead

A scanner that stops at the first element it does not want has looked at one element of what it
leaves.  Whatever it leaves may therefore be replaced by any list that starts with the same element:
the scanner consumes the same prefix and leaves the replacement.
-/

namespace Longky
namespace Lib

/-! ## Fallible steps -/

theorem bind_eq_ok {ε : Type*} {α β : Type} {x : Except ε α} {f : α → Except ε β} {b : β}
    (h : x >>= f = .ok b) : ∃ a, x = .ok a ∧ f a = .ok b := by
  cases x with
  | error e => cases h
  | ok a => exact ⟨a, rfl, h⟩

/-! ## Lookahead -/

theorem head?_append_congr {α : Type*} (xs : List α) {ys zs : List α} (h : ys.head? = zs.head?) :
    (xs ++ ys).head? = (xs ++ zs).head? := by
  cases xs with
  | nil => exact h
  | cons x xs => rfl

theorem dropWhile_lookahead {α : Type*} (p : α → Bool) (xs : List α) :
    ∃ ws, xs = ws ++ xs.dropWhile p ∧
      ∀ ys, ys.head? = (xs.dropWhile p).head? → (ws ++ ys).dropWhile p = ys := by
  refine ⟨xs.takeWhile p, List.takeWhile_append_dropWhile.symm, ?_⟩
  intro ys hys
  have hws : ∀ w ∈ xs.takeWhile p, p w = true := fun w hw => List.mem_takeWhile_imp hw
  rw [List.dropWhile_append_of_pos hws]
  cases ys with
  | nil => rfl
  | cons y ys =>
      have hy : p y = false := by
        have hhead := List.head?_dropWhile_not p xs
        rw [← hys] at hhead
        simpa using hhead
      rw [List.dropWhile_cons_of_neg (by simp [hy])]

/-- A scan that also stops after `n` elements. -/
theorem take_takeWhile_lookahead {α : Type*} (p : α → Bool) (n : Nat) (xs ys : List α)
    (h : ys.head? = (xs.drop ((xs.takeWhile p).take n).length).head?) :
    (((xs.takeWhile p).take n ++ ys).takeWhile p).take n = (xs.takeWhile p).take n := by
  have hall : ∀ x ∈ (xs.takeWhile p).take n, p x = true :=
    fun x hx => List.mem_takeWhile_imp (List.mem_of_mem_take hx)
  rw [List.takeWhile_append_of_pos hall]
  by_cases hlen : n ≤ (xs.takeWhile p).length
  · have hfull : ((xs.takeWhile p).take n).length = n := List.length_take_of_le hlen
    rw [List.take_append_of_le_length (by omega), List.take_of_length_le (by omega)]
  · -- the scan ends where `p` fails or with the list, and so does the new one
    have hwhole : (xs.takeWhile p).take n = xs.takeWhile p := List.take_of_length_le (by omega)
    have hrest : xs.drop (xs.takeWhile p).length = xs.dropWhile p :=
      (congrArg (List.drop _) List.takeWhile_append_dropWhile.symm).trans List.drop_left
    rw [hwhole, hrest] at h
    have hnil : ys.takeWhile p = [] := by
      cases ys with
      | nil => rfl
      | cons y ys =>
          have hhead := List.head?_dropWhile_not p xs
          rw [← h] at hhead
          exact List.takeWhile_cons_of_neg (by simpa using hhead)
    rw [hnil, List.append_nil, hwhole, hwhole]

end Lib
end Longky
