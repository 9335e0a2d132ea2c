import Mathlib.Logic.Function.Basic
import Mathlib.Tactic.Common

/-!
# Slots — a table of numbered slots with a limit

A slot is taken by giving it an owner, and the slot that is given out is always the one with the
lowest number.  The table is `Full` when every slot below the limit has an owner.

`Owns` says that one party, who owns everything that is `mine`, has exactly the listed slots.
Whatever the others take and release leaves it true.
-/

namespace Longky
namespace Lib

abbrev Slots (Owner : Type*) := Nat → Option Owner

namespace Slots

variable {Owner : Type*}

def lowestFree (t : Slots Owner) (limit : Nat) : Option Nat :=
  (List.range limit).find? fun i => (t i).isNone

def take (t : Slots Owner) (i : Nat) (o : Owner) : Slots Owner :=
  Function.update t i (some o)

def release (t : Slots Owner) (i : Nat) : Slots Owner :=
  Function.update t i none

def Full (t : Slots Owner) (limit : Nat) : Prop :=
  ∀ i < limit, t i ≠ none

variable {t : Slots Owner} {limit i j : Nat} {o o' : Owner}

theorem lowestFree_eq_none : t.lowestFree limit = none ↔ t.Full limit := by
  simp [lowestFree, Full]

theorem free_of_lowestFree (h : t.lowestFree limit = some i) : i < limit ∧ t i = none := by
  have hmem := List.mem_of_find?_eq_some h
  have hfree := List.find?_some h
  exact ⟨List.mem_range.1 hmem, Option.isNone_iff_eq_none.1 hfree⟩

theorem lowestFree_of_not_full (h : ¬ t.Full limit) : ∃ j, t.lowestFree limit = some j := by
  cases hlow : t.lowestFree limit with
  | some j => exact ⟨j, rfl⟩
  | none => exact absurd (lowestFree_eq_none.1 hlow) h

theorem Full.of_release (h : (t.release i).Full limit) : t.Full limit := by
  intro j hj hfree
  refine h j hj ?_
  by_cases hij : j = i
  · simp [release, hij]
  · simpa [release, hij] using hfree

theorem not_full_release (hi : i < limit) : ¬ (t.release i).Full limit := by
  intro hfull
  exact hfull i hi (by simp [release])

@[simp] theorem take_self : t.take i o i = some o := by
  simp [take]

@[simp] theorem release_self : t.release i i = none := by
  simp [release]

theorem take_of_ne (h : j ≠ i) : t.take i o j = t j := by
  simp [take, h]

theorem release_of_ne (h : j ≠ i) : t.release i j = t j := by
  simp [release, h]

/-- Who owns what after a free slot was taken. -/
theorem take_eq_some (hfree : t i = none) :
    t.take i o j = some o' ↔ (j = i ∧ o' = o) ∨ t j = some o' := by
  by_cases hj : j = i
  · subst hj
    rw [take_self, hfree, Option.some.injEq]
    simp [eq_comm]
  · rw [take_of_ne hj]
    simp [hj]

theorem release_eq_some : t.release i j = some o ↔ j ≠ i ∧ t j = some o := by
  by_cases hj : j = i
  · subst hj
    simp
  · rw [release_of_ne hj]
    simp [hj]

/-! ## The slots of one party -/

def Owns (t : Slots Owner) (mine : Owner → Prop) (own : List (Nat × Owner)) : Prop :=
  ∀ i o, mine o → (t i = some o ↔ (i, o) ∈ own)

section Owns

variable {mine : Owner → Prop} {own own' : List (Nat × Owner)}

theorem Owns.congr (h : t.Owns mine own) (heq : ∀ i o, (i, o) ∈ own' ↔ (i, o) ∈ own) :
    t.Owns mine own' := by
  intro i o ho
  rw [heq]
  exact h i o ho

theorem Owns.take_foreign (h : t.Owns mine own) (hfree : t i = none) (ho : ¬ mine o) :
    (t.take i o).Owns mine own := by
  intro j o' ho'
  have hne : ¬(j = i ∧ o' = o) := by
    rintro ⟨-, rfl⟩
    exact ho ho'
  rw [take_eq_some hfree, h j o' ho']
  exact or_iff_right hne

theorem Owns.release_foreign (h : t.Owns mine own) (hi : t i = some o) (ho : ¬ mine o) :
    (t.release i).Owns mine own := by
  intro j o' ho'
  rw [release_eq_some, ← h j o' ho']
  refine and_iff_right_of_imp ?_
  rintro hj rfl
  rw [hi, Option.some.injEq] at hj
  exact ho (hj ▸ ho')

theorem Owns.take_mine (h : t.Owns mine own) (hfree : t i = none) :
    (t.take i o).Owns mine ((i, o) :: own) := by
  intro j o' ho'
  rw [take_eq_some hfree, h j o' ho', List.mem_cons, Prod.mk.injEq]

/-- Giving up a slot leaves the rest, when no other entry is about the same slot. -/
theorem Owns.release_mine (h : t.Owns mine ((i, o) :: own)) (ho : mine o)
    (hnot : (i, o) ∉ own) : (t.release i).Owns mine own := by
  have hi : t i = some o := (h i o ho).2 (by simp)
  intro j o' ho'
  rw [release_eq_some, h j o' ho', List.mem_cons, Prod.mk.injEq]
  constructor
  · rintro ⟨hj, ⟨rfl, -⟩ | hmem⟩
    · exact absurd rfl hj
    · exact hmem
  · intro hmem
    refine ⟨?_, Or.inr hmem⟩
    rintro rfl
    -- the slot has one owner
    have hj : t j = some o' := (h j o' ho').2 (List.mem_cons_of_mem _ hmem)
    rw [hi, Option.some.injEq] at hj
    exact hnot (hj ▸ hmem)

end Owns

end Slots
end Lib
end Longky
