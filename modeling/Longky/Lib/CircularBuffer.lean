import Mathlib.Data.List.Basic

/-!
# CircularBuffer — a bounded queue that overwrites its front

The part of `boost::circular_buffer` that a timing wheel needs: growing a new buffer, pushing at the
back, where a full buffer loses the element at its front, and changing the element at the back.
-/

namespace Longky
namespace Lib

structure CircularBuffer (α : Type*) where
  capacity : Nat
  /-- The elements from the back to the front. -/
  elements : List α
  length_le : elements.length ≤ capacity

namespace CircularBuffer

variable {α : Type*}

def empty : CircularBuffer α where
  capacity := 0
  elements := []
  length_le := Nat.le_refl 0

theorem length_resized (b : CircularBuffer α) (n : Nat) (x : α) :
    (List.replicate (n - b.elements.length) x ++
      b.elements.drop (b.elements.length - n)).length ≤ max b.capacity n := by
  have := b.length_le
  rw [List.length_append, List.length_replicate, List.length_drop]
  omega

/-- Copies of `x` are inserted at the back, or elements are removed there. -/
def resize (b : CircularBuffer α) (n : Nat) (x : α) : CircularBuffer α where
  capacity := max b.capacity n
  elements := List.replicate (n - b.elements.length) x ++ b.elements.drop (b.elements.length - n)
  length_le := length_resized b n x

/-- A full buffer loses the element at its front. -/
def pushBack (b : CircularBuffer α) (x : α) : CircularBuffer α where
  capacity := b.capacity
  elements := (x :: b.elements).take b.capacity
  length_le := List.length_take_le _ _

theorem length_modified (b : CircularBuffer α) (f : α → α) :
    (b.elements.modifyHead f).length ≤ b.capacity := by
  rw [List.length_modifyHead]
  exact b.length_le

/-- Change the element at the back. -/
def modifyBack (b : CircularBuffer α) (f : α → α) : CircularBuffer α where
  capacity := b.capacity
  elements := b.elements.modifyHead f
  length_le := length_modified b f

/-- The buffer holds as many elements as it can. -/
def Full (b : CircularBuffer α) : Prop := b.elements.length = b.capacity

variable {b : CircularBuffer α} {x : α} {f : α → α} {k : Nat}

theorem full_resize_empty (n : Nat) : ((empty : CircularBuffer α).resize n x).Full := by
  simp [Full, resize, empty]

theorem Full.pushBack (h : b.Full) : (b.pushBack x).Full := by
  unfold Full CircularBuffer.pushBack at *
  simp [h]

theorem Full.modifyBack (h : b.Full) : (b.modifyBack f).Full := by
  unfold Full CircularBuffer.modifyBack at *
  simp [h]

@[simp] theorem capacity_pushBack : (b.pushBack x).capacity = b.capacity := rfl

@[simp] theorem capacity_modifyBack : (b.modifyBack f).capacity = b.capacity := rfl

/-- What was at the back is one place further away, unless it was pushed out. -/
theorem getElem?_pushBack_succ :
    (b.pushBack x).elements[k + 1]? = if k + 1 < b.capacity then b.elements[k]? else none := by
  rw [pushBack, List.getElem?_take]
  rfl

theorem getElem?_modifyBack_zero : (b.modifyBack f).elements[0]? = b.elements[0]?.map f := by
  change (b.elements.modifyHead f)[0]? = _
  cases b.elements <;> rfl

theorem getElem?_modifyBack_succ : (b.modifyBack f).elements[k + 1]? = b.elements[k + 1]? := by
  change (b.elements.modifyHead f)[k + 1]? = _
  cases b.elements <;> rfl

theorem getElem?_pushBack_zero (h : 0 < b.capacity) : (b.pushBack x).elements[0]? = some x := by
  rw [pushBack, List.getElem?_take, if_pos h]
  rfl

end CircularBuffer
end Lib
end Longky
