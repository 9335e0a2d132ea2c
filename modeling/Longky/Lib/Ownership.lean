import Mathlib.Data.List.Basic
import Mathlib.Logic.Function.Basic
import Mathlib.Tactic.Common

/-!
# Ownership — objects with one owner each

Objects are numbered in the order in which they are created.  `Owned` says that every object that
somebody holds is alive and held by nobody else, and that no object has been deleted twice.

A holder without an object can take a new one, and a holder can delete its own and forget it.
`Owned.change` is the rule for both.
-/

namespace Longky
namespace Lib
namespace Ownership

/-- The number of objects, and those that have been deleted, the last one first. -/
structure Heap where
  created : Nat := 0
  deleted : List Nat := []
  deriving DecidableEq, Repr

namespace Heap

/-- The object that is created next. -/
def next (h : Heap) : Nat := h.created

def create (h : Heap) : Heap := { h with created := h.created + 1 }

def delete (h : Heap) (id : Nat) : Heap := { h with deleted := id :: h.deleted }

structure Live (h : Heap) (id : Nat) : Prop where
  created : id < h.created
  not_deleted : id ∉ h.deleted

end Heap

/-- `owner w` is what `w` holds. -/
structure Owned {W : Type*} (h : Heap) (owner : W → Option Nat) : Prop where
  live : ∀ w id, owner w = some id → h.Live id
  apart : ∀ w w' id, owner w = some id → owner w' = some id → w = w'
  deleted_created : ∀ id ∈ h.deleted, id < h.created
  nodup : h.deleted.Nodup

/-- What one holder may do: nothing, take a new object, or delete its own. -/
inductive Change (h : Heap) : Option Nat → Heap → Option Nat → Prop where
  | keep (held : Option Nat) : Change h held h held
  | create : Change h none h.create (some h.next)
  | delete (id : Nat) : Change h (some id) (h.delete id) none

namespace Owned

variable {W : Type*} {h : Heap} {owner : W → Option Nat}

theorem empty : Owned {} fun _ : W => none where
  live _ _ hid := by cases hid
  apart _ _ _ hid := by cases hid
  deleted_created _ hid := by cases hid
  nodup := List.nodup_nil

variable [DecidableEq W]

theorem create (ho : Owned h owner) (w : W) :
    Owned h.create (Function.update owner w (some h.next)) where
  live w' id hid := by
    by_cases hw : w' = w
    · subst hw
      rw [Function.update_self, Option.some.injEq] at hid
      subst hid
      -- a new number is above those of all deleted objects
      exact ⟨Nat.lt_succ_self _, fun hmem => absurd (ho.deleted_created _ hmem) (Nat.lt_irrefl _)⟩
    · rw [Function.update_of_ne hw] at hid
      have hlive := ho.live w' id hid
      exact ⟨Nat.lt_succ_of_lt hlive.created, hlive.not_deleted⟩
  apart w₁ w₂ id h₁ h₂ := by
    have hnew : ∀ w', w' ≠ w → Function.update owner w (some h.next) w' = some h.next → False := by
      intro w' hne hid
      rw [Function.update_of_ne hne] at hid
      exact absurd (ho.live w' _ hid).created (Nat.lt_irrefl _)
    by_cases hw₁ : w₁ = w
    · subst hw₁
      rw [Function.update_self, Option.some.injEq] at h₁
      subst h₁
      by_contra hne
      exact hnew w₂ (Ne.symm hne) h₂
    · by_cases hw₂ : w₂ = w
      · subst hw₂
        rw [Function.update_self, Option.some.injEq] at h₂
        subst h₂
        exact absurd h₁ (hnew w₁ hw₁)
      · rw [Function.update_of_ne hw₁] at h₁
        rw [Function.update_of_ne hw₂] at h₂
        exact ho.apart w₁ w₂ id h₁ h₂
  deleted_created id hid := Nat.lt_succ_of_lt (ho.deleted_created id hid)
  nodup := ho.nodup

theorem delete (ho : Owned h owner) {w : W} {id : Nat} (hw : owner w = some id) :
    Owned (h.delete id) (Function.update owner w none) where
  live w' id' hid := by
    by_cases hne : w' = w
    · subst hne
      rw [Function.update_self] at hid
      cases hid
    · rw [Function.update_of_ne hne] at hid
      have hlive := ho.live w' id' hid
      refine ⟨hlive.created, fun hmem => ?_⟩
      -- the object of another holder is another object
      obtain rfl | hmem := List.mem_cons.1 hmem
      · exact hne (ho.apart w' w id' hid hw)
      · exact hlive.not_deleted hmem
  apart w₁ w₂ id' h₁ h₂ := by
    have hkept : ∀ w', Function.update owner w none w' = some id' → owner w' = some id' := by
      intro w' hid
      by_cases hne : w' = w
      · subst hne
        rw [Function.update_self] at hid
        cases hid
      · rwa [Function.update_of_ne hne] at hid
    exact ho.apart w₁ w₂ id' (hkept w₁ h₁) (hkept w₂ h₂)
  deleted_created id' hid := by
    obtain rfl | hmem := List.mem_cons.1 hid
    · exact (ho.live w id' hw).created
    · exact ho.deleted_created id' hmem
  nodup := List.nodup_cons.2 ⟨(ho.live w id hw).not_deleted, ho.nodup⟩

theorem change {w : W} {h' : Heap} {held : Option Nat} (ho : Owned h owner)
    (hchange : Change h (owner w) h' held) : Owned h' (Function.update owner w held) := by
  generalize hw : owner w = before at hchange
  cases hchange with
  | keep =>
      rw [← hw, Function.update_eq_self]
      exact ho
  | create => exact ho.create w
  | delete id => exact ho.delete hw

end Owned

end Ownership
end Lib
end Longky
