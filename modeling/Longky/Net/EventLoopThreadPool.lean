import Mathlib.Data.List.Basic
import Mathlib.Tactic.Common

/-!
# EventLoopThreadPool — the loops of a server, in turn

`netLayer/event/eventloop/EventLoopThreadPool.{h,cpp}`.  `start` makes a loop for each thread, and
`getNextLoop` hands them out in turn; without threads it is the base loop every time.

`getNextLoop_rotated`: after `k` calls the next loop is that of thread `k % n`.
-/

namespace Longky
namespace Net

structure EventLoopThreadPool (Loop : Type) where
  baseLoop_ : Loop
  started_ : Bool := false
  numThreads_ : Nat := 0
  next_ : Nat := 0
  loops_ : List Loop := []

namespace EventLoopThreadPool

variable {Loop : Type}

def setThreadNum (p : EventLoopThreadPool Loop) (numThreads : Nat) : EventLoopThreadPool Loop :=
  { p with numThreads_ := numThreads }

/-- `start`, with the loop that each thread starts; it asserts that it is called once. -/
def start (p : EventLoopThreadPool Loop) (startLoop : Nat → Loop) :
    Option (EventLoopThreadPool Loop) :=
  if p.started_ then none
  else
    some { p with
      started_ := true
      loops_ := p.loops_ ++ (List.range p.numThreads_).map startLoop }

def getNextLoop (p : EventLoopThreadPool Loop) : Option (Loop × EventLoopThreadPool Loop) :=
  if !p.started_ then none
  else if p.loops_ = [] then some (p.baseLoop_, p)
  else do
    let loop ← p.loops_[p.next_]?
    let next_ := p.next_ + 1
    return (loop, { p with next_ := if p.loops_.length ≤ next_ then 0 else next_ })

/-! ## Round robin -/

/-- A started pool of `n` threads, `k` calls of `getNextLoop` later. -/
def rotated (baseLoop : Loop) (startLoop : Nat → Loop) (n k : Nat) : EventLoopThreadPool Loop where
  baseLoop_ := baseLoop
  started_ := true
  numThreads_ := n
  next_ := if n = 0 then 0 else k % n
  loops_ := (List.range n).map startLoop

variable {baseLoop : Loop} {startLoop : Nat → Loop} {n : Nat}

theorem start_eq (baseLoop : Loop) (startLoop : Nat → Loop) (n : Nat) :
    (setThreadNum { baseLoop_ := baseLoop } n).start startLoop =
      some (rotated baseLoop startLoop n 0) := by
  simp [setThreadNum, start, rotated]

theorem getNextLoop_rotated (hn : 1 ≤ n) (k : Nat) :
    (rotated baseLoop startLoop n k).getNextLoop =
      some (startLoop (k % n), rotated baseLoop startLoop n (k + 1)) := by
  have hlt : k % n < n := Nat.mod_lt k hn
  have hnext : (if n ≤ k % n + 1 then 0 else k % n + 1) = (k + 1) % n := by
    rw [← Nat.mod_add_mod]
    split
    · rename_i hwrap
      have hlast : k % n + 1 = n := by omega
      rw [hlast, Nat.mod_self]
    · exact (Nat.mod_eq_of_lt (by omega)).symm
  have hzero : n ≠ 0 := by omega
  have hne : (List.range n).map startLoop ≠ [] := by simp [hzero]
  have hloop : ((List.range n).map startLoop)[k % n]? = some (startLoop (k % n)) := by
    rw [List.getElem?_map, List.getElem?_range hlt]
    rfl
  simp only [getNextLoop, rotated, Bool.not_true, Bool.false_eq_true, if_false, hne, hzero, hloop,
    List.length_map, List.length_range, hnext, Option.bind_eq_bind, Option.bind_some]
  rfl

/-- Without threads it is always the base loop. -/
theorem getNextLoop_rotated_zero (k : Nat) :
    (rotated baseLoop startLoop 0 k).getNextLoop =
      some (baseLoop, rotated baseLoop startLoop 0 (k + 1)) := rfl

end EventLoopThreadPool
end Net
end Longky
