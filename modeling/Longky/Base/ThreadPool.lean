import Mathlib.Algebra.BigOperators.Group.Finset.Piecewise
import Mathlib.Logic.Function.Basic
import Longky.Lib.CondVar
import Longky.Lib.Reach

/-!
# ThreadPool — tasks for a set of threads

`base/thread/ThreadPool.cpp`, and `ThreadPl` in `base/thread/threadPool.h`, which has the same
functions.  A critical section of `mutex_` is one step.  A thread that waits at a condition variable
is woken by a notification or without any, and has to get the mutex back before it looks again.

The tasks are those `std::function`s that are not empty.
-/

namespace Longky
namespace Base

open Lib

/-- Where a thread of the pool is in `runInThread`. -/
inductive Worker (Task : Type) where
  /-- At the test of `while (isRunning_)`. -/
  | loop
  | take
  | run (task : Task)
  | exited
  deriving DecidableEq

structure ThreadPool (W P Task : Type) where
  threads_ : Finset W
  maxQueueSize_ : Nat
  isRunning_ : Bool := true
  queue_ : List Task := []
  notEmpty_ : CondVar W := CondVar.empty
  notFull_ : CondVar P := CondVar.empty
  worker : W → Worker Task := fun _ => .loop
  /-- The threads inside `put`, each with its task. -/
  putting : P → Option Task := fun _ => none
  /-- The tasks in the order in which `put` has queued them, -/
  accepted : List Task := []
  /-- and in the order in which they have left the queue. -/
  taken : List Task := []
  ran : List Task := []

namespace ThreadPool

variable {W P Task : Type}

def isFull (s : ThreadPool W P Task) : Bool :=
  decide (0 < s.maxQueueSize_ ∧ s.maxQueueSize_ ≤ s.queue_.length)

theorem isFull_eq_true {s : ThreadPool W P Task} : s.isFull = true ↔
    0 < s.maxQueueSize_ ∧ s.maxQueueSize_ ≤ s.queue_.length := decide_eq_true_iff

theorem length_lt_of_not_full {s : ThreadPool W P Task} (h : s.isFull = false)
    (hmax : 0 < s.maxQueueSize_) : s.queue_.length < s.maxQueueSize_ := by
  by_contra hge
  simp [isFull, hmax, Nat.not_lt.1 hge] at h

variable [DecidableEq W]

def setWorker (s : ThreadPool W P Task) (w : W) (pc : Worker Task) : ThreadPool W P Task :=
  { s with worker := Function.update s.worker w pc }

theorem setWorker_self (s : ThreadPool W P Task) (w : W) (pc : Worker Task) :
    (s.setWorker w pc).worker w = pc := Function.update_self _ _ _

theorem setWorker_of_ne {s : ThreadPool W P Task} {w w' : W} (h : w' ≠ w) (pc : Worker Task) :
    (s.setWorker w pc).worker w' = s.worker w' := Function.update_of_ne h _ _

variable [DecidableEq P]

/-- `put` up to its mutex.  A pool without threads runs the task at once. -/
def callPut (s : ThreadPool W P Task) (p : P) (f : Task) : ThreadPool W P Task :=
  if s.threads_ = ∅ then
    { s with accepted := s.accepted ++ [f], taken := s.taken ++ [f], ran := s.ran ++ [f] }
  else { s with putting := Function.update s.putting p (some f) }

/-- `put` from the mutex on; `woken` is the thread that `notEmpty_.notify()` wakes. -/
def put (s : ThreadPool W P Task) (p : P) (f : Task) (woken : Option W) :
    Option (ThreadPool W P Task) :=
  if s.isFull then some { s with notFull_ := s.notFull_.wait p }
  else do
    let notEmpty ← s.notEmpty_.notify woken
    some { s with
      queue_ := s.queue_ ++ [f]
      accepted := s.accepted ++ [f]
      notEmpty_ := notEmpty
      notFull_ := s.notFull_.leave p
      putting := Function.update s.putting p none }

/-- `if (maxQueueSize_ > 0) notFull_.notify();` -/
def notifyNotFull (s : ThreadPool W P Task) (woken : Option P) : Option (CondVar P) :=
  if 0 < s.maxQueueSize_ then s.notFull_.notify woken else some s.notFull_

/-- `take` from the mutex on; `woken` is the thread that `notFull_.notify()` wakes. -/
def take (s : ThreadPool W P Task) (w : W) (woken : Option P) : Option (ThreadPool W P Task) :=
  match s.queue_ with
  | [] =>
      if s.isRunning_ then some { s with notEmpty_ := s.notEmpty_.wait w }
      else some ({ s with notEmpty_ := s.notEmpty_.leave w }.setWorker w .loop)
  | task :: queue => do
      let notFull ← s.notifyNotFull woken
      some ({ s with
        queue_ := queue
        taken := s.taken ++ [task]
        notEmpty_ := s.notEmpty_.leave w
        notFull_ := notFull }.setWorker w (.run task))

theorem take_nil {s : ThreadPool W P Task} (h : s.queue_ = []) (w : W) (woken : Option P) :
    s.take w woken =
      if s.isRunning_ then some { s with notEmpty_ := s.notEmpty_.wait w }
      else some ({ s with notEmpty_ := s.notEmpty_.leave w }.setWorker w .loop) := by
  unfold take
  split
  · rfl
  · rename_i hcons
    rw [h] at hcons
    cases hcons

theorem take_cons {s : ThreadPool W P Task} {task : Task} {queue : List Task}
    (h : s.queue_ = task :: queue) (w : W) (woken : Option P) :
    s.take w woken =
      (s.notifyNotFull woken).bind fun notFull =>
        some ({ s with
          queue_ := queue
          taken := s.taken ++ [task]
          notEmpty_ := s.notEmpty_.leave w
          notFull_ := notFull }.setWorker w (.run task)) := by
  unfold take
  split
  · rename_i hnil
    rw [h] at hnil
    cases hnil
  · rename_i task' queue' hcons
    rw [h] at hcons
    cases hcons
    rfl

/-- `stop` up to the joins. -/
def stop (s : ThreadPool W P Task) : ThreadPool W P Task :=
  { s with isRunning_ := false, notEmpty_ := s.notEmpty_.notifyAll }

inductive PoolAction (W P Task : Type) where
  | callPut (p : P) (f : Task)
  | put (p : P) (woken : Option W)
  /-- The test of `while (isRunning_)`. -/
  | check (w : W)
  | take (w : W) (woken : Option P)
  /-- The task of a thread returns. -/
  | ran (w : W)
  | wakeWorker (w : W)
  | wakeProducer (p : P)
  | stop

/-- The next state, where the action can happen. -/
def next (s : ThreadPool W P Task) : PoolAction W P Task → Option (ThreadPool W P Task)
  | .callPut p f => if s.putting p = none then some (s.callPut p f) else none
  | .put p woken =>
      if p ∈ s.notFull_.waiting then none
      else s.putting p >>= fun f => s.put p f woken
  | .check w =>
      if w ∈ s.threads_ then
        match s.worker w with
        | .loop => some (s.setWorker w (if s.isRunning_ then .take else .exited))
        | .take | .run _ | .exited => none
      else none
  | .take w woken =>
      if w ∈ s.notEmpty_.waiting then none
      else
        match s.worker w with
        | .take => s.take w woken
        | .loop | .run _ | .exited => none
  | .ran w =>
      match s.worker w with
      | .run task => some ({ s with ran := s.ran ++ [task] }.setWorker w .loop)
      | .loop | .take | .exited => none
  | .wakeWorker w =>
      if w ∈ s.notEmpty_.waiting then some { s with notEmpty_ := s.notEmpty_.wake w } else none
  | .wakeProducer p =>
      if p ∈ s.notFull_.waiting then some { s with notFull_ := s.notFull_.wake p } else none
  | .stop => some s.stop

/-! ## What a step does -/

section Cases

variable {s s' : ThreadPool W P Task}

theorem put_cases {p : P} {f : Task} {woken : Option W} (hs : s.put p f woken = some s') :
    (s.isFull = true ∧ s' = { s with notFull_ := s.notFull_.wait p }) ∨
      s.isFull = false ∧ ∃ notEmpty, s.notEmpty_.notify woken = some notEmpty ∧ s' = { s with
        queue_ := s.queue_ ++ [f]
        accepted := s.accepted ++ [f]
        notEmpty_ := notEmpty
        notFull_ := s.notFull_.leave p
        putting := Function.update s.putting p none } := by
  unfold put at hs
  split at hs
  · rename_i hfull
    cases hs
    exact .inl ⟨hfull, rfl⟩
  · rename_i hfull
    rcases Option.bind_eq_some_iff.1 hs with ⟨notEmpty, hnotify, hs⟩
    cases hs
    exact .inr ⟨by simpa using hfull, notEmpty, hnotify, rfl⟩

theorem next_callPut {p : P} {f : Task} (hs : s.next (.callPut p f) = some s') :
    s.putting p = none ∧ s' = s.callPut p f := by
  simp only [next] at hs
  split_ifs at hs with hp
  cases hs
  exact ⟨hp, rfl⟩

theorem next_put {p : P} {woken : Option W} (hs : s.next (.put p woken) = some s') :
    p ∉ s.notFull_.waiting ∧ ∃ f, s.putting p = some f ∧ s.put p f woken = some s' := by
  simp only [next] at hs
  split_ifs at hs with hp
  exact ⟨hp, Option.bind_eq_some_iff.1 hs⟩

theorem next_check {w : W} (hs : s.next (.check w) = some s') :
    w ∈ s.threads_ ∧ s.worker w = .loop ∧
      s' = s.setWorker w (if s.isRunning_ then .take else .exited) := by
  simp only [next] at hs
  by_cases hw : w ∈ s.threads_
  · rw [if_pos hw] at hs
    cases hpc : s.worker w <;> rw [hpc] at hs <;> cases hs
    exact ⟨hw, rfl, rfl⟩
  · rw [if_neg hw] at hs
    cases hs

theorem next_take {w : W} {woken : Option P} (hs : s.next (.take w woken) = some s') :
    w ∉ s.notEmpty_.waiting ∧ s.worker w = .take ∧ s.take w woken = some s' := by
  simp only [next] at hs
  split_ifs at hs with hw
  cases hpc : s.worker w <;> rw [hpc] at hs <;> first | exact ⟨hw, rfl, hs⟩ | cases hs

theorem next_ran {w : W} (hs : s.next (.ran w) = some s') :
    ∃ task, s.worker w = .run task ∧
      s' = { s with ran := s.ran ++ [task] }.setWorker w .loop := by
  simp only [next] at hs
  cases hpc : s.worker w <;> rw [hpc] at hs <;> cases hs
  exact ⟨_, rfl, rfl⟩

theorem next_wakeWorker {w : W} (hs : s.next (.wakeWorker w) = some s') :
    w ∈ s.notEmpty_.waiting ∧ s' = { s with notEmpty_ := s.notEmpty_.wake w } := by
  simp only [next] at hs
  split_ifs at hs with hw
  cases hs
  exact ⟨hw, rfl⟩

theorem next_wakeProducer {p : P} (hs : s.next (.wakeProducer p) = some s') :
    p ∈ s.notFull_.waiting ∧ s' = { s with notFull_ := s.notFull_.wake p } := by
  simp only [next] at hs
  split_ifs at hs with hp
  cases hs
  exact ⟨hp, rfl⟩

end Cases

/-- The runs of a pool that has been started with `threads_`. -/
def runs (threads_ : Finset W) (maxQueueSize_ : Nat) :
    System (ThreadPool W P Task) (PoolAction W P Task) where
  init s := s = { threads_, maxQueueSize_ }
  step s a s' := s.next a = some s'

/-! ## The invariant -/

section Invariant

variable [DecidableEq Task]

/-- The threads that hold a task. -/
def holders (s : ThreadPool W P Task) (task : Task) : Finset W :=
  s.threads_.filter fun w => s.worker w = .run task

/-- What every run keeps. -/
structure Inv (s : ThreadPool W P Task) : Prop where
  order : s.accepted = s.taken ++ s.queue_
  held : ∀ task, s.taken.count task = (s.holders task).card + s.ran.count task
  bound : 0 < s.maxQueueSize_ → s.queue_.length ≤ s.maxQueueSize_
  notEmpty : s.notEmpty_.Covers s.queue_.length
  notFull : s.notFull_.Covers (s.maxQueueSize_ - s.queue_.length)
  bounded : s.notFull_.waiting.Nonempty → 0 < s.maxQueueSize_
  workers : ∀ w ∈ s.notEmpty_.threads, s.worker w = .take
  producers : ∀ p ∈ s.notFull_.threads, s.putting p ≠ none
  inside : ∀ w, w ∉ s.threads_ → s.worker w = .loop
  noThreads : s.threads_ = ∅ → s.queue_ = [] ∧ ∀ p, s.putting p = none

variable {s s' : ThreadPool W P Task}

theorem inv_start (threads_ : Finset W) (maxQueueSize_ : Nat) :
    ({ threads_, maxQueueSize_ } : ThreadPool W P Task).Inv where
  order := rfl
  held task := by simp [holders]
  bound _ := Nat.zero_le _
  notEmpty := CondVar.covers_zero _
  notFull h := absurd h (by simp [CondVar.empty])
  bounded h := absurd h (by simp [CondVar.empty])
  workers w h := absurd h (by simp [CondVar.empty, CondVar.threads])
  producers p h := absurd h (by simp [CondVar.empty, CondVar.threads])
  inside _ _ := rfl
  noThreads _ := ⟨rfl, fun _ => rfl⟩

omit [DecidableEq P] in
/-- A thread goes from one place to another: the holders of a task before and after. -/
theorem card_holders_setWorker {w : W} (hw : w ∈ s.threads_) (pc : Worker Task) (task : Task) :
    ((s.setWorker w pc).holders task).card + (if s.worker w = .run task then 1 else 0) =
      (s.holders task).card + if pc = .run task then 1 else 0 := by
  have hrest : ∑ w' ∈ s.threads_.erase w,
      (if (s.setWorker w pc).worker w' = .run task then 1 else 0) =
        ∑ w' ∈ s.threads_.erase w, if s.worker w' = .run task then 1 else 0 :=
    Finset.sum_congr rfl fun w' hw' => by rw [setWorker_of_ne (Finset.ne_of_mem_erase hw')]
  have hafter := Finset.add_sum_erase s.threads_
    (fun w' => if (s.setWorker w pc).worker w' = .run task then 1 else 0) hw
  have hbefore := Finset.add_sum_erase s.threads_
    (fun w' => if s.worker w' = .run task then 1 else 0) hw
  rw [hrest, setWorker_self] at hafter
  rw [holders, holders, Finset.card_filter, Finset.card_filter,
    show (s.setWorker w pc).threads_ = s.threads_ from rfl]
  omega

theorem Inv.mem_threads (h : s.Inv) {w : W} (hw : s.worker w ≠ .loop) : w ∈ s.threads_ := by
  by_contra hout
  exact hw (h.inside w hout)

/-- What a step of one thread has to show: where it goes, and what becomes of its task. -/
theorem Inv.move (h : s.Inv) {w : W} {pc : Worker Task} {ran : List Task} (hw : w ∈ s.threads_)
    (hout : w ∉ s.notEmpty_.threads)
    (hheld : ∀ task, (if s.worker w = .run task then 1 else 0) + s.ran.count task =
      (if pc = .run task then 1 else 0) + ran.count task) :
    ({ s with ran }.setWorker w pc).Inv where
  order := h.order
  held task := by
    have hcard := card_holders_setWorker (s := { s with ran }) hw pc task
    have hbefore := h.held task
    have hmove := hheld task
    change s.taken.count task = (({ s with ran }.setWorker w pc).holders task).card + ran.count task
    change _ = (s.holders task).card + _ at hcard
    dsimp only at hcard
    omega
  bound := h.bound
  notEmpty := h.notEmpty
  notFull := h.notFull
  bounded := h.bounded
  workers w' hw' := by
    have hne : w' ≠ w := fun heq => hout (heq ▸ hw')
    rw [setWorker_of_ne hne]
    exact h.workers w' hw'
  producers := h.producers
  inside w' hw' := by
    have hne : w' ≠ w := fun heq => hw' (heq ▸ hw)
    rw [setWorker_of_ne hne]
    exact h.inside w' hw'
  noThreads := h.noThreads

theorem Inv.callPut (h : s.Inv) (p : P) (f : Task) : (s.callPut p f).Inv := by
  unfold ThreadPool.callPut
  split
  · rename_i hnone
    rcases h.noThreads hnone with ⟨hqueue, hputting⟩
    exact { h with
      order := by
        change s.accepted ++ [f] = s.taken ++ [f] ++ s.queue_
        simp [h.order, hqueue]
      held := by
        intro task
        change (s.taken ++ [f]).count task = (s.holders task).card + (s.ran ++ [f]).count task
        rw [List.count_append, List.count_append, h.held task, Nat.add_assoc] }
  · rename_i hsome
    refine { h with producers := ?_, noThreads := fun hnone => absurd hnone hsome }
    intro p' hp'
    by_cases heq : p' = p
    · subst heq
      simp
    · simpa [Function.update_of_ne heq] using h.producers p' hp'

theorem Inv.put (h : s.Inv) {p : P} {f : Task} {woken : Option W}
    (hp : p ∉ s.notFull_.waiting) (hf : s.putting p = some f)
    (hs : s.put p f woken = some s') : s'.Inv := by
  rcases put_cases hs with ⟨hfull, rfl⟩ | ⟨hfull, notEmpty, hnotify, rfl⟩
  case inl =>
      -- a full queue has no room that a waiting producer could miss
      rcases isFull_eq_true.1 hfull with ⟨hmax, hlen⟩
      refine { h with notFull := ?_, bounded := fun _ => hmax, producers := ?_ }
      · rw [Nat.sub_eq_zero_of_le hlen]
        exact CondVar.covers_zero _
      · intro p' hp'
        rcases CondVar.mem_threads_wait.1 hp' with rfl | hp'
        · simp [hf]
        · exact h.producers p' hp'
  case inr =>
      -- one task more, and one worker woken for it; `p` is no longer among the producers
      refine { h with
        order := ?_, bound := ?_, notEmpty := ?_, notFull := ?_, workers := ?_, producers := ?_,
        noThreads := ?_ }
      · change s.accepted ++ [f] = s.taken ++ (s.queue_ ++ [f])
        rw [h.order, List.append_assoc]
      · intro hmax
        rw [List.length_append]
        exact length_lt_of_not_full hfull hmax
      · rw [List.length_append]
        exact h.notEmpty.notify hnotify
      · rw [List.length_append, Nat.sub_add_eq]
        exact h.notFull.leave p
      · intro w hw
        rw [CondVar.threads_notify hnotify] at hw
        exact h.workers w hw
      · intro p' hp'
        have hne : p' ≠ p := fun heq => CondVar.not_mem_threads_leave hp (heq ▸ hp')
        change Function.update s.putting p none p' ≠ none
        rw [Function.update_of_ne hne]
        exact h.producers p' (CondVar.mem_threads_leave hp')
      · intro hnone
        rw [(h.noThreads hnone).2 p] at hf
        cases hf

/-- What the invariant says of the rest of the pool, when `take` has found a task. -/
theorem Inv.dequeue (h : s.Inv) {w : W} {task : Task} {queue : List Task} {notFull : CondVar P}
    (hpc : s.worker w = .take) (hw : w ∉ s.notEmpty_.waiting) (hqueue : s.queue_ = task :: queue)
    (hcovers : notFull.Covers (s.maxQueueSize_ - queue.length))
    (hthreads : notFull.threads = s.notFull_.threads)
    (hbounded : notFull.waiting.Nonempty → 0 < s.maxQueueSize_) :
    ({ s with
      queue_ := queue
      taken := s.taken ++ [task]
      notEmpty_ := s.notEmpty_.leave w
      notFull_ := notFull }.setWorker w (.run task)).Inv := by
  have hin : w ∈ s.threads_ := h.mem_threads (by simp [hpc])
  refine { h with
    order := ?_, held := ?_, bound := ?_, notEmpty := ?_, notFull := hcovers, bounded := hbounded,
    workers := ?_, producers := ?_, inside := ?_, noThreads := ?_ }
  · change s.accepted = s.taken ++ [task] ++ queue
    rw [h.order, hqueue, List.append_assoc, List.singleton_append]
  · -- the task is no longer in the queue, and `w` holds it
    intro task'
    have hcard := card_holders_setWorker hin (.run task) task'
    rw [hpc, if_neg nofun, Nat.add_zero] at hcard
    have hheld := h.held task'
    change (s.taken ++ [task]).count task' =
      ((s.setWorker w (.run task)).holders task').card + s.ran.count task'
    rw [hcard, List.count_append, hheld, List.count_singleton]
    simp only [Worker.run.injEq, beq_iff_eq]
    omega
  · intro hmax
    have hlen := h.bound hmax
    rw [hqueue, List.length_cons] at hlen
    exact Nat.le_of_succ_le hlen
  · have hcover := h.notEmpty.leave w
    rwa [hqueue, List.length_cons, Nat.add_sub_cancel] at hcover
  · intro w' hw'
    have hne : w' ≠ w := fun heq => CondVar.not_mem_threads_leave hw (heq ▸ hw')
    rw [setWorker_of_ne hne]
    exact h.workers w' (CondVar.mem_threads_leave hw')
  · intro p hp
    change p ∈ notFull.threads at hp
    rw [hthreads] at hp
    exact h.producers p hp
  · intro w' hw'
    have hne : w' ≠ w := fun heq => hw' (heq ▸ hin)
    rw [setWorker_of_ne hne]
    exact h.inside w' hw'
  · intro hnone
    rw [(h.noThreads hnone).1] at hqueue
    cases hqueue

/-- A thread leaves `take` without a task, after `stop`. -/
theorem Inv.leave (h : s.Inv) {w : W} (hpc : s.worker w = .take) (hw : w ∉ s.notEmpty_.waiting)
    (hqueue : s.queue_ = []) :
    ({ s with notEmpty_ := s.notEmpty_.leave w }.setWorker w .loop).Inv := by
  have hleft : ({ s with notEmpty_ := s.notEmpty_.leave w } : ThreadPool W P Task).Inv := by
    refine { h with
      notEmpty := ?_, workers := fun w' hw' => h.workers w' (CondVar.mem_threads_leave hw') }
    rw [hqueue]
    exact CondVar.covers_zero _
  exact hleft.move (h.mem_threads (by simp [hpc])) (CondVar.not_mem_threads_leave hw)
    fun task => by simp [hpc]

theorem Inv.take (h : s.Inv) {w : W} {woken : Option P} (hpc : s.worker w = .take)
    (hw : w ∉ s.notEmpty_.waiting) (hs : s.take w woken = some s') : s'.Inv := by
  cases hqueue : s.queue_ with
  | nil =>
      rw [take_nil hqueue] at hs
      split_ifs at hs
      · cases hs
        refine { h with notEmpty := ?_, workers := ?_ }
        · rw [hqueue]
          exact CondVar.covers_zero _
        · intro w' hw'
          rcases CondVar.mem_threads_wait.1 hw' with rfl | hw'
          · exact hpc
          · exact h.workers w' hw'
      · cases hs
        exact h.leave hpc hw hqueue
  | cons task queue =>
      rw [take_cons hqueue] at hs
      have hlen : s.queue_.length = queue.length + 1 := by rw [hqueue, List.length_cons]
      have hcovers := h.notFull
      rw [hlen] at hcovers
      rcases Option.bind_eq_some_iff.1 hs with ⟨notFull, hnotify, hs⟩
      cases hs
      unfold notifyNotFull at hnotify
      -- without a bound nobody is notified, and nobody waits on `notFull_`
      split_ifs at hnotify with hmax
      · refine h.dequeue hpc hw hqueue ((hcovers.notify hnotify).mono ?_)
          (CondVar.threads_notify hnotify) (fun _ => hmax)
        omega
      · cases hnotify
        refine h.dequeue hpc hw hqueue ?_ rfl h.bounded
        intro hwait
        exact absurd (h.bounded hwait) hmax

theorem Inv.stop (h : s.Inv) : s.stop.Inv :=
  { h with
    notEmpty := CondVar.covers_notifyAll _ _
    workers := fun w hw => by
      change w ∈ s.notEmpty_.notifyAll.threads at hw
      rw [CondVar.threads_notifyAll] at hw
      exact h.workers w hw }

/-- The step lemma. -/
theorem Inv.next (h : s.Inv) {a : PoolAction W P Task} (hs : s.next a = some s') : s'.Inv := by
  cases a with
  | callPut p f =>
      rcases next_callPut hs with ⟨-, rfl⟩
      exact h.callPut p f
  | put p woken =>
      rcases next_put hs with ⟨hp, f, hf, hput⟩
      exact h.put hp hf hput
  | check w =>
      rcases next_check hs with ⟨hw, hpc, rfl⟩
      -- a thread of `notEmpty_` is inside `take`, so `w` is none
      refine h.move hw (fun hin => ?_) fun task => ?_
      · cases (h.workers w hin).symm.trans hpc
      · have hnew : (if s.isRunning_ then Worker.take else .exited) ≠ .run task := by
          cases s.isRunning_ <;> nofun
        rw [hpc, if_neg nofun, if_neg hnew]
  | take w woken =>
      rcases next_take hs with ⟨hw, hpc, htake⟩
      exact h.take hpc hw htake
  | ran w =>
      rcases next_ran hs with ⟨task, hpc, rfl⟩
      refine h.move (h.mem_threads (by simp [hpc])) (fun hin => ?_) fun task' => ?_
      · cases (h.workers w hin).symm.trans hpc
      · rw [hpc, List.count_append, List.count_singleton]
        simp only [Worker.run.injEq, beq_iff_eq, reduceCtorEq, if_false]
        omega
  | wakeWorker w =>
      rcases next_wakeWorker hs with ⟨hw, rfl⟩
      refine { h with notEmpty := h.notEmpty.wake w, workers := fun w' hw' => ?_ }
      rw [CondVar.threads_wake hw] at hw'
      exact h.workers w' hw'
  | wakeProducer p =>
      rcases next_wakeProducer hs with ⟨hp, rfl⟩
      refine { h with
        notFull := h.notFull.wake p
        bounded := fun _ => h.bounded ⟨p, hp⟩
        producers := fun p' hp' => ?_ }
      rw [CondVar.threads_wake hp] at hp'
      exact h.producers p' hp'
  | stop =>
      cases hs
      exact h.stop

theorem reachable_inv {threads_ : Finset W} {maxQueueSize_ : Nat}
    (h : (runs threads_ maxQueueSize_).Reachable s) : s.Inv := by
  refine h.invariant ?_ ?_
  · rintro s rfl
    exact inv_start threads_ maxQueueSize_
  · intro s a s' hs hstep
    exact hs.next hstep

/-- Every worker waits on `notEmpty_`, and none has been woken. -/
def WorkersWait (s : ThreadPool W P Task) : Prop := ∀ w ∈ s.threads_, w ∈ s.notEmpty_.waiting

/-- There are threads inside `put`; all of them wait on `notFull_`, and none has been woken. -/
def ProducersWait (s : ThreadPool W P Task) : Prop :=
  (∃ p, s.putting p ≠ none) ∧ ∀ p, s.putting p ≠ none → p ∈ s.notFull_.waiting

theorem Inv.queue_of_workersWait (h : s.Inv) (hthreads : s.threads_.Nonempty)
    (hwait : s.WorkersWait) : s.queue_ = [] := by
  have hwoken : s.notEmpty_.woken = ∅ := by
    refine Finset.eq_empty_of_forall_notMem fun w hw => ?_
    have hin := h.mem_threads (w := w) (by simp [h.workers w (Finset.mem_union_right _ hw)])
    exact Finset.disjoint_left.1 s.notEmpty_.disjoint (hwait w hin) hw
  rcases hthreads with ⟨w, hw⟩
  exact List.length_eq_zero_iff.1 (h.notEmpty.eq_zero ⟨w, hwait w hw⟩ hwoken)

theorem Inv.full_of_producersWait (h : s.Inv) (hwait : s.ProducersWait) : s.isFull = true := by
  have hwoken : s.notFull_.woken = ∅ := by
    refine Finset.eq_empty_of_forall_notMem fun p hp => ?_
    have hin := h.producers p (Finset.mem_union_right _ hp)
    exact Finset.disjoint_left.1 s.notFull_.disjoint (hwait.2 p hin) hp
  rcases hwait with ⟨⟨p, hp⟩, hall⟩
  have hwaiting : s.notFull_.waiting.Nonempty := ⟨p, hall p hp⟩
  refine isFull_eq_true.2 ⟨h.bounded hwaiting, ?_⟩
  exact Nat.sub_eq_zero_iff_le.1 (h.notFull.eq_zero hwaiting hwoken)

/-- In every run, with any number of threads and any bound, before and after `stop`: the tasks leave
the queue in their order, each is in the queue, with one thread, or done, the bound is kept, and
no thread sleeps while there is something for it to do. -/
theorem queue_discipline {threads_ : Finset W} {maxQueueSize_ : Nat}
    (h : (runs threads_ maxQueueSize_).Reachable s) :
    s.accepted = s.taken ++ s.queue_ ∧
      (∀ task, s.accepted.count task =
        s.queue_.count task + (s.holders task).card + s.ran.count task) ∧
      (0 < s.maxQueueSize_ → s.queue_.length ≤ s.maxQueueSize_) ∧
      (s.threads_.Nonempty → s.WorkersWait → s.queue_ = []) ∧
      (s.ProducersWait → s.isFull = true) := by
  have hinv := reachable_inv h
  refine ⟨hinv.order, fun task => ?_, hinv.bound, hinv.queue_of_workersWait,
    hinv.full_of_producersWait⟩
  calc
    s.accepted.count task = s.taken.count task + s.queue_.count task := by
          rw [hinv.order, List.count_append]
    _ = (s.holders task).card + s.ran.count task + s.queue_.count task := by rw [hinv.held task]
    _ = s.queue_.count task + (s.holders task).card + s.ran.count task := by omega

end Invariant

/-- Two threads wait for work, one of them gets the first task, and the second task has to wait for
the queue of length one. -/
def smallPool : List (PoolAction Bool Bool Nat) :=
  [.check true, .check false, .take true none, .take false none, .callPut true 7, .callPut false 8,
    .put true (some false), .put false none, .take false (some false), .put false (some true),
    .ran false]

def smallPoolEnd : Option (ThreadPool Bool Bool Nat) :=
  System.runAll next { threads_ := {true, false}, maxQueueSize_ := 1 } smallPool

theorem queue_discipline_smallPool : ∃ s, smallPoolEnd = some s ∧ s.queue_ = [8] ∧ s.ran = [7] ∧
    s.accepted = s.taken ++ s.queue_ ∧ ¬ s.WorkersWait := by
  obtain ⟨s, hs, hthreads, hqueue, hran⟩ : ∃ s, smallPoolEnd = some s ∧
      s.threads_ = {true, false} ∧ s.queue_ = [8] ∧ s.ran = [7] := by
    have hrun : smallPoolEnd.map (fun s => decide (s.threads_ = {true, false} ∧ s.queue_ = [8] ∧
        s.ran = [7])) = some true := by decide +kernel
    rcases Option.map_eq_some_iff.1 hrun with ⟨s, hs, hend⟩
    exact ⟨s, hs, of_decide_eq_true hend⟩
  have hreach : (runs {true, false} 1).Reachable s :=
    .of_runAll (fun _ _ _ hnext => hnext) (.init rfl) hs
  have hd := queue_discipline hreach
  refine ⟨s, hs, hqueue, hran, hd.1, fun hwait => ?_⟩
  have hnil := hd.2.2.2.1 (by simp [hthreads]) hwait
  rw [hqueue] at hnil
  cases hnil

end ThreadPool
end Base
end Longky
