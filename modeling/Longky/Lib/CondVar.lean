import Mathlib.Data.Finset.Card
import Mathlib.Tactic.Common

/-!
# CondVar — condition variables under one mutex

The threads at a condition variable are of two kinds: those that wait, and those that have been woken
but have not got the mutex back yet.  What a monitor has to keep is `Covers n`: unless nobody waits,
at least `n` threads have been woken, where `n` counts the things a woken thread could take.  Each
new thing comes with one `notify`, and each woken thread takes at most one.
-/

namespace Longky
namespace Lib

structure CondVar (T : Type*) where
  waiting : Finset T
  woken : Finset T
  disjoint : Disjoint waiting woken

namespace CondVar

variable {T : Type*}

def empty : CondVar T := ⟨∅, ∅, Finset.disjoint_empty_left _⟩

variable [DecidableEq T]

theorem disjoint_wait (cv : CondVar T) (t : T) :
    Disjoint (insert t cv.waiting) (cv.woken.erase t) := by
  refine Finset.disjoint_insert_left.2 ⟨Finset.notMem_erase t _, ?_⟩
  exact Finset.disjoint_of_subset_right (Finset.erase_subset t _) cv.disjoint

/-- A thread with the mutex gives it up and waits. -/
def wait (cv : CondVar T) (t : T) : CondVar T :=
  ⟨insert t cv.waiting, cv.woken.erase t, cv.disjoint_wait t⟩

theorem disjoint_leave (cv : CondVar T) (t : T) : Disjoint cv.waiting (cv.woken.erase t) :=
  Finset.disjoint_of_subset_right (Finset.erase_subset t _) cv.disjoint

/-- A thread with the mutex goes on with its work. -/
def leave (cv : CondVar T) (t : T) : CondVar T :=
  ⟨cv.waiting, cv.woken.erase t, cv.disjoint_leave t⟩

theorem disjoint_wake (cv : CondVar T) (t : T) :
    Disjoint (cv.waiting.erase t) (insert t cv.woken) := by
  refine Finset.disjoint_insert_right.2 ⟨Finset.notMem_erase t _, ?_⟩
  exact Finset.disjoint_of_subset_left (Finset.erase_subset t _) cv.disjoint

/-- A waiting thread wakes, for whatever reason. -/
def wake (cv : CondVar T) (t : T) : CondVar T :=
  ⟨cv.waiting.erase t, insert t cv.woken, cv.disjoint_wake t⟩

/-- One waiting thread of the system's choice wakes, if there is any. -/
def notify (cv : CondVar T) : Option T → Option (CondVar T)
  | some t => if t ∈ cv.waiting then some (cv.wake t) else none
  | none => if cv.waiting = ∅ then some cv else none

def notifyAll (cv : CondVar T) : CondVar T :=
  ⟨∅, cv.waiting ∪ cv.woken, Finset.disjoint_empty_left _⟩

theorem notify_eq_some {cv cv' : CondVar T} {choice : Option T}
    (h : cv.notify choice = some cv') :
    (cv.waiting = ∅ ∧ cv' = cv) ∨ ∃ t ∈ cv.waiting, cv' = cv.wake t := by
  cases choice with
  | some t =>
      simp only [notify] at h
      split_ifs at h with ht
      exact Or.inr ⟨t, ht, (Option.some.inj h).symm⟩
  | none =>
      simp only [notify] at h
      split_ifs at h with hnone
      exact Or.inl ⟨hnone, (Option.some.inj h).symm⟩

/-! ## No lost wake-up -/

/-- Unless nobody waits, `n` threads have been woken. -/
def Covers (n : Nat) (cv : CondVar T) : Prop := cv.waiting.Nonempty → n ≤ cv.woken.card

variable {cv cv' : CondVar T} {n m : Nat} {t : T}

omit [DecidableEq T] in
theorem covers_zero (cv : CondVar T) : cv.Covers 0 := fun _ => Nat.zero_le _

omit [DecidableEq T] in
theorem Covers.mono (h : cv.Covers n) (hmn : m ≤ n) : cv.Covers m :=
  fun hw => hmn.trans (h hw)

/-- A thread that goes on takes one thing away. -/
theorem Covers.leave (h : cv.Covers n) (t : T) : (cv.leave t).Covers (n - 1) := by
  intro hw
  have hn := h hw
  have hcard := Finset.pred_card_le_card_erase (s := cv.woken) (a := t)
  exact (Nat.sub_le_sub_right hn 1).trans hcard

/-- A new thing comes with a notification. -/
theorem Covers.notify (h : cv.Covers n) {choice : Option T} (hn : cv.notify choice = some cv') :
    cv'.Covers (n + 1) := by
  intro hw
  rcases notify_eq_some hn with ⟨hempty, rfl⟩ | ⟨t, ht, rfl⟩
  · rw [hempty] at hw
    exact absurd hw Finset.not_nonempty_empty
  · have hnot : t ∉ cv.woken := Finset.disjoint_left.1 cv.disjoint ht
    calc
      n + 1 ≤ cv.woken.card + 1 := Nat.succ_le_succ (h ⟨t, ht⟩)
      _ = (insert t cv.woken).card := (Finset.card_insert_of_notMem hnot).symm

/-- A spurious wake-up does no harm. -/
theorem Covers.wake (h : cv.Covers n) (t : T) : (cv.wake t).Covers n := by
  intro hw
  have hn := h (hw.mono (Finset.erase_subset t _))
  exact hn.trans (Finset.card_le_card (Finset.subset_insert t _))

theorem covers_notifyAll (n : Nat) (cv : CondVar T) : cv.notifyAll.Covers n :=
  fun hw => absurd hw Finset.not_nonempty_empty

omit [DecidableEq T] in
/-- Where somebody waits and nobody has been woken, there is nothing to take. -/
theorem Covers.eq_zero (h : cv.Covers n) (hw : cv.waiting.Nonempty) (hwoken : cv.woken = ∅) :
    n = 0 := by
  have hn := h hw
  rwa [hwoken, Finset.card_empty, Nat.le_zero] at hn

/-! ## Who is at the condition variable -/

def threads (cv : CondVar T) : Finset T := cv.waiting ∪ cv.woken

theorem mem_threads_wait {x : T} : x ∈ (cv.wait t).threads ↔ x = t ∨ x ∈ cv.threads := by
  by_cases hx : x = t <;> simp [threads, wait, hx]

theorem mem_threads_leave {x : T} (h : x ∈ (cv.leave t).threads) : x ∈ cv.threads := by
  rcases Finset.mem_union.1 h with h | h
  · exact Finset.mem_union_left _ h
  · exact Finset.mem_union_right _ (Finset.mem_of_mem_erase h)

theorem not_mem_threads_leave (h : t ∉ cv.waiting) : t ∉ (cv.leave t).threads := by
  intro ht
  rcases Finset.mem_union.1 ht with ht | ht
  · exact h ht
  · exact Finset.notMem_erase t _ ht

theorem threads_wake (h : t ∈ cv.waiting) : (cv.wake t).threads = cv.threads := by
  ext x
  by_cases hx : x = t
  · subst hx
    simp [threads, wake, h]
  · simp [threads, wake, hx]

theorem threads_notify {choice : Option T} (h : cv.notify choice = some cv') :
    cv'.threads = cv.threads := by
  rcases notify_eq_some h with ⟨-, rfl⟩ | ⟨t, ht, rfl⟩
  · rfl
  · exact threads_wake ht

theorem threads_notifyAll : cv.notifyAll.threads = cv.threads := Finset.empty_union _

end CondVar
end Lib
end Longky
