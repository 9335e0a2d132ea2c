import Longky.Base.ThreadPool

/-!
# PoolStop — what `stop` leaves behind

`base/thread/ThreadPool.cpp` and `base/thread/threadPool.h`.  A thread of the pool looks at
`isRunning_` before each task, so after `stop` it comes out of `take` once more at most.  `stop` wakes
the threads at `notEmpty_`; the producers at `notFull_` are woken by the tasks that leave the queue.

`stop_strands_nobody_iff`: nobody is left behind in the runs in which `stop` and the calls of `put`
after it come in time, and a call that comes too late can leave a task in the queue or a producer
asleep for good.
-/

namespace Longky
namespace Base

open Lib

namespace ThreadPool

variable {W P Task : Type}

/-- `stop` can return: all threads have been joined. -/
def StopReturned (s : ThreadPool W P Task) : Prop :=
  s.isRunning_ = false ∧ ∀ w ∈ s.threads_, s.worker w = .exited

variable [DecidableEq W] [DecidableEq P] [DecidableEq Task]

/-- Once `stop` has returned, every task that `put` has accepted has been run, and no producer waits
on `notFull_`. -/
def NobodyStranded (s : ThreadPool W P Task) : Prop :=
  s.StopReturned → (∀ task, s.accepted.count task = s.ran.count task) ∧ s.notFull_.waiting = ∅

/-- The threads that come out of `take` once more. -/
def inTake (s : ThreadPool W P Task) : Finset W := s.threads_.filter fun w => s.worker w = .take

/-- For each waiting producer there is a task in the queue, and for each task a thread. -/
def Balanced (s : ThreadPool W P Task) : Prop :=
  s.notFull_.waiting.card ≤ s.queue_.length ∧ s.queue_.length ≤ s.inTake.card

instance (s : ThreadPool W P Task) : Decidable s.Balanced := inferInstanceAs (Decidable (_ ∧ _))

/-- `stop` comes when the queue is balanced; behind it, `put` finds a thread in `take` for its task,
or a task in the queue that will wake it. -/
def Timely (s : ThreadPool W P Task) : PoolAction W P Task → Prop
  | .stop => s.Balanced
  | .put _ _ => s.isRunning_ = false →
      if s.isFull then s.notFull_.waiting.card < s.queue_.length
      else s.queue_.length < s.inTake.card
  | .callPut _ _ | .check _ | .take _ _ | .ran _ | .wakeWorker _ | .wakeProducer _ => True

instance (s : ThreadPool W P Task) : (a : PoolAction W P Task) → Decidable (s.Timely a)
  | .stop => inferInstanceAs (Decidable s.Balanced)
  | .put _ _ => inferInstanceAs (Decidable (_ → _))
  | .callPut _ _ | .check _ | .take _ _ | .ran _ | .wakeWorker _ | .wakeProducer _ =>
      inferInstanceAs (Decidable True)

/-! ## Threads in `take` -/

variable {s s' : ThreadPool W P Task}

omit [DecidableEq P] in
theorem inTake_setWorker {w : W} {pc : Worker Task} (hpc : pc ≠ .take) :
    (s.setWorker w pc).inTake = s.inTake.erase w := by
  ext w'
  have hthreads : (s.setWorker w pc).threads_ = s.threads_ := rfl
  by_cases hw : w' = w
  · subst hw
    simp [inTake, hthreads, setWorker_self, hpc]
  · simp [inTake, hthreads, setWorker_of_ne hw, hw]

omit [DecidableEq W] [DecidableEq P] in
theorem mem_inTake {w : W} : w ∈ s.inTake ↔ w ∈ s.threads_ ∧ s.worker w = .take :=
  Finset.mem_filter

omit [DecidableEq P] in
/-- A thread that is somewhere else goes somewhere else. -/
theorem inTake_of_ne {w : W} {pc : Worker Task} (hpc : pc ≠ .take) (hw : s.worker w ≠ .take) :
    (s.setWorker w pc).inTake = s.inTake := by
  rw [inTake_setWorker hpc]
  exact Finset.erase_eq_of_notMem fun hmem => hw (mem_inTake.1 hmem).2

omit [DecidableEq P] in
/-- A thread comes out of `take`. -/
theorem card_inTake_leave {w : W} {pc : Worker Task} (hin : w ∈ s.threads_)
    (hw : s.worker w = .take) (hpc : pc ≠ .take) :
    (s.setWorker w pc).inTake.card + 1 = s.inTake.card := by
  rw [inTake_setWorker hpc]
  exact Finset.card_erase_add_one (mem_inTake.2 ⟨hin, hw⟩)

/-! ## The invariant after `stop` -/

/-- After `stop` no thread sleeps at `notEmpty_`, in any run. -/
structure Stopped (s : ThreadPool W P Task) : Prop where
  inv : s.Inv
  awake : s.isRunning_ = false → s.notEmpty_.waiting = ∅

theorem waiting_wake_card_le (cv : CondVar P) (p : P) :
    (cv.wake p).waiting.card ≤ cv.waiting.card :=
  Finset.card_le_card (Finset.erase_subset p _)

/-- A notification does not put anybody to sleep. -/
theorem waiting_notify {T : Type} [DecidableEq T] {cv cv' : CondVar T} {choice : Option T}
    (h : cv.notify choice = some cv') : cv'.waiting ⊆ cv.waiting := by
  rcases CondVar.notify_eq_some h with ⟨-, rfl⟩ | ⟨t, -, rfl⟩
  · exact Finset.Subset.refl _
  · exact Finset.erase_subset t _

/-- The cases of `take` with a task in the queue. -/
structure Took (s s' : ThreadPool W P Task) (w : W) : Prop where
  queue : s'.queue_.length + 1 = s.queue_.length
  worker : ∃ task, s'.worker w = .run task
  others : ∀ w', w' ≠ w → s'.worker w' = s.worker w'
  threads : s'.threads_ = s.threads_
  running : s'.isRunning_ = s.isRunning_
  inTake : s'.inTake.card + 1 = s.inTake.card
  notEmpty : s'.notEmpty_.waiting = s.notEmpty_.waiting
  /-- A waiting producer has been woken, if there was any. -/
  notFull : s'.notFull_.waiting.card = s.notFull_.waiting.card - 1

theorem Inv.took (h : s.Inv) {w : W} {woken : Option P} {task : Task} {queue : List Task}
    (hpc : s.worker w = .take) (hqueue : s.queue_ = task :: queue)
    (hs : s.take w woken = some s') : s.Took s' w := by
  have hin : w ∈ s.threads_ := h.mem_threads (by simp [hpc])
  rw [take_cons hqueue] at hs
  rcases Option.bind_eq_some_iff.1 hs with ⟨notFull, hnotify, hs⟩
  have hwaiting : notFull.waiting.card = s.notFull_.waiting.card - 1 := by
    unfold notifyNotFull at hnotify
    split_ifs at hnotify with hmax
    · rcases CondVar.notify_eq_some hnotify with ⟨hnone, rfl⟩ | ⟨p, hp, rfl⟩
      · rw [hnone, Finset.card_empty]
      · exact Finset.card_erase_of_mem hp
    · -- without a bound nobody waits on `notFull_`
      cases hnotify
      have hnone : s.notFull_.waiting = ∅ := by
        by_contra hne
        exact hmax (h.bounded (Finset.nonempty_iff_ne_empty.2 hne))
      rw [hnone, Finset.card_empty]
  cases hs
  refine ⟨by simp [setWorker, hqueue], ⟨task, setWorker_self _ _ _⟩, fun w' hw' =>
    setWorker_of_ne hw' _, rfl, rfl, ?_, rfl, hwaiting⟩
  exact card_inTake_leave (s := { s with
    queue_ := queue
    taken := s.taken ++ [task]
    notEmpty_ := s.notEmpty_.leave w
    notFull_ := notFull }) hin hpc (by simp)

theorem Stopped.next (h : s.Stopped) {a : PoolAction W P Task} (hs : s.next a = some s') :
    s'.Stopped := by
  refine ⟨h.inv.next hs, ?_⟩
  cases a with
  | callPut p f =>
      rcases next_callPut hs with ⟨-, rfl⟩
      unfold ThreadPool.callPut
      split <;> exact h.awake
  | put p woken =>
      rcases next_put hs with ⟨-, f, -, hput⟩
      rcases put_cases hput with ⟨-, rfl⟩ | ⟨-, notEmpty, hnotify, rfl⟩
      · exact h.awake
      · intro hstop
        exact Finset.subset_empty.1 (h.awake hstop ▸ waiting_notify hnotify)
  | check w =>
      rcases next_check hs with ⟨-, -, rfl⟩
      exact h.awake
  | take w woken =>
      rcases next_take hs with ⟨-, hpc, htake⟩
      cases hqueue : s.queue_ with
      | nil =>
          rw [take_nil hqueue] at htake
          split_ifs at htake with hrunning
          · cases htake
            intro hstop
            cases hrunning.symm.trans hstop
          · cases htake
            exact h.awake
      | cons task queue =>
          have htook := h.inv.took hpc hqueue htake
          rw [htook.running, htook.notEmpty]
          exact h.awake
  | ran w =>
      rcases next_ran hs with ⟨task, -, rfl⟩
      exact h.awake
  | wakeWorker w =>
      rcases next_wakeWorker hs with ⟨hw, rfl⟩
      intro hstop
      -- nobody is there to be woken
      rw [h.awake hstop] at hw
      exact absurd hw (Finset.notMem_empty w)
  | wakeProducer p =>
      rcases next_wakeProducer hs with ⟨-, rfl⟩
      exact h.awake
  | stop =>
      cases hs
      exact fun _ => rfl

theorem reachable_stopped {threads_ : Finset W} {maxQueueSize_ : Nat}
    (h : (runs threads_ maxQueueSize_).Reachable s) : s.Stopped := by
  refine h.invariant ?_ ?_
  · rintro s rfl
    exact ⟨inv_start threads_ maxQueueSize_, fun hstop => by cases hstop⟩
  · intro s a s' hs hstep
    exact hs.next hstep

/-! ## Runs in which every call is timely -/

omit [DecidableEq W] [DecidableEq P] in
/-- Nothing that the balance depends on has changed. -/
theorem Balanced.of_eq (h : s.Balanced) (hwaiting : s'.notFull_.waiting = s.notFull_.waiting)
    (hqueue : s'.queue_ = s.queue_) (hin : s'.inTake = s.inTake) : s'.Balanced := by
  unfold Balanced
  rw [hwaiting, hqueue, hin]
  exact h

omit [DecidableEq W] [DecidableEq P] in
/-- `take` finds a task: one task less, one thread less, and one producer less, if there was any. -/
theorem Took.balanced_iff {w : W} (h : s.Took s' w) : s'.Balanced ↔ s.Balanced := by
  have hqueue := h.queue
  have hin := h.inTake
  have hwaiting := h.notFull
  unfold Balanced
  omega

/-- The step: after `stop`, a timely step keeps the balance. -/
theorem Stopped.balanced (h : s.Stopped) (hbalanced : s.isRunning_ = false → s.Balanced)
    {a : PoolAction W P Task} (ha : s.Timely a) (hs : s.next a = some s') :
    s'.isRunning_ = false → s'.Balanced := by
  cases a with
  | callPut p f =>
      rcases next_callPut hs with ⟨-, rfl⟩
      unfold ThreadPool.callPut
      split <;> exact fun hstop => (hbalanced hstop).of_eq rfl rfl rfl
  | put p woken =>
      rcases next_put hs with ⟨hp, f, -, hput⟩
      rcases put_cases hput with ⟨hfull, rfl⟩ | ⟨hfull, notEmpty, -, rfl⟩
      -- the producer goes to sleep beside a task that will wake it
      · intro hstop
        have hroom := ha hstop
        rw [if_pos hfull] at hroom
        refine ⟨?_, (hbalanced hstop).2⟩
        calc
          (insert p s.notFull_.waiting).card ≤ s.notFull_.waiting.card + 1 :=
            Finset.card_insert_le _ _
          _ ≤ s.queue_.length := hroom
      -- the task finds a thread that comes out of `take` with it
      · intro hstop
        have hroom := ha hstop
        rw [if_neg (by simp [hfull])] at hroom
        have hlen : (s.queue_ ++ [f]).length = s.queue_.length + 1 := by simp
        refine ⟨?_, hlen.trans_le hroom⟩
        exact (hbalanced hstop).1.trans (hlen ▸ Nat.le_succ _)
  | check w =>
      rcases next_check hs with ⟨-, hpc, rfl⟩
      -- the thread exits: it was not in `take`
      intro hstop
      have hrunning : s.isRunning_ = false := hstop
      refine (hbalanced hrunning).of_eq rfl rfl ?_
      simp only [hrunning, Bool.false_eq_true, if_false]
      exact inTake_of_ne (by simp) (by simp [hpc])
  | take w woken =>
      rcases next_take hs with ⟨-, hpc, htake⟩
      have hin : w ∈ s.threads_ := h.inv.mem_threads (by simp [hpc])
      cases hqueue : s.queue_ with
      | nil =>
          rw [take_nil hqueue] at htake
          split_ifs at htake with hrunning
          · cases htake
            intro hstop
            cases hrunning.symm.trans hstop
          · cases htake
            intro hstop
            -- nothing is left to take, and nobody waits
            have hwaiting := (hbalanced hstop).1
            refine ⟨hwaiting, ?_⟩
            change s.queue_.length ≤ _
            rw [hqueue]
            exact Nat.zero_le _
      | cons task queue =>
          have htook := h.inv.took hpc hqueue htake
          intro hstop
          exact htook.balanced_iff.2 (hbalanced (htook.running ▸ hstop))
  | ran w =>
      rcases next_ran hs with ⟨task, hpc, rfl⟩
      intro hstop
      refine (hbalanced hstop).of_eq rfl rfl ?_
      exact inTake_of_ne (s := { s with ran := s.ran ++ [task] }) (by simp) (by simp [hpc])
  | wakeWorker w =>
      rcases next_wakeWorker hs with ⟨-, rfl⟩
      exact fun hstop => (hbalanced hstop).of_eq rfl rfl rfl
  | wakeProducer p =>
      rcases next_wakeProducer hs with ⟨-, rfl⟩
      intro hstop
      exact ⟨(waiting_wake_card_le _ p).trans (hbalanced hstop).1, (hbalanced hstop).2⟩
  | stop =>
      cases hs
      exact fun _ => ha

theorem reachable_balanced {threads_ : Finset W} {maxQueueSize_ : Nat}
    (h : ((runs threads_ maxQueueSize_).restrict Timely).Reachable s) :
    s.Stopped ∧ (s.isRunning_ = false → s.Balanced) := by
  refine System.Reachable.invariant
    (P := fun s => s.Stopped ∧ (s.isRunning_ = false → s.Balanced)) ?_ ?_ h
  · rintro s rfl
    exact ⟨reachable_stopped (.init rfl), fun hstop => by cases hstop⟩
  · rintro s a s' ⟨hs, hbalanced⟩ ⟨ha, hstep⟩
    exact ⟨hs.next hstep, hs.balanced hbalanced ha hstep⟩

/-- When all threads have exited, the balance says that nothing and nobody is left. -/
theorem Stopped.nobodyStranded_iff (h : s.Stopped) (hreturned : s.StopReturned) :
    s.NobodyStranded ↔ s.Balanced := by
  have hin : s.inTake = ∅ := by
    refine Finset.eq_empty_of_forall_notMem fun w hw => ?_
    rcases mem_inTake.1 hw with ⟨hthread, htake⟩
    cases (hreturned.2 w hthread).symm.trans htake
  have hholders : ∀ task, s.holders task = ∅ := by
    intro task
    refine Finset.eq_empty_of_forall_notMem fun w hw => ?_
    rcases Finset.mem_filter.1 hw with ⟨hthread, hrun⟩
    cases (hreturned.2 w hthread).symm.trans hrun
  have hcount : ∀ task, s.accepted.count task = s.ran.count task + s.queue_.count task := by
    intro task
    rw [h.inv.order, List.count_append, h.inv.held task, hholders task, Finset.card_empty,
      Nat.zero_add]
  constructor
  · intro hnobody
    rcases hnobody hreturned with ⟨hran, hwaiting⟩
    have hqueue : s.queue_ = [] := by
      refine List.eq_nil_iff_forall_not_mem.2 fun task hmem => ?_
      have hpos := List.count_pos_iff.2 hmem
      have hsum := hcount task
      have heq := hran task
      omega
    unfold Balanced
    rw [hwaiting, hqueue]
    exact ⟨le_refl _, Nat.zero_le _⟩
  · rintro ⟨hwaiting, hqueue⟩ -
    rw [hin, Finset.card_empty, Nat.le_zero, List.length_eq_zero_iff] at hqueue
    rw [hqueue, List.length_nil, Nat.le_zero, Finset.card_eq_zero] at hwaiting
    refine ⟨fun task => ?_, hwaiting⟩
    rw [hcount task, hqueue, List.count_nil, Nat.add_zero]

/-! ## Calls that come too late -/

/-- The threads alone take the pool from `s` to `s'`, and leave it unbalanced. -/
structure Drains (s s' : ThreadPool W P Task) : Prop where
  stopped : s'.Stopped
  running : s'.isRunning_ = false
  threads : s'.threads_ = s.threads_
  unbalanced : ¬ s'.Balanced
  reach : ∀ {threads_ : Finset W} {maxQueueSize_ : Nat},
    ((runs threads_ maxQueueSize_).startAt s).Reachable s'

theorem Drains.refl (h : s.Stopped) (hrunning : s.isRunning_ = false) (hbad : ¬ s.Balanced) :
    s.Drains s :=
  ⟨h, hrunning, rfl, hbad, .init rfl⟩

theorem Drains.step {s₁ : ThreadPool W P Task} (h : s.Drains s₁) {a : PoolAction W P Task}
    (hs : s₁.next a = some s') (hrunning : s'.isRunning_ = s₁.isRunning_)
    (hthreads : s'.threads_ = s₁.threads_) (hbad : ¬ s'.Balanced) : s.Drains s' :=
  ⟨h.stopped.next hs, hrunning.trans h.running, hthreads.trans h.threads, hbad, .step h.reach hs⟩

theorem notify_total (cv : CondVar P) : ∃ choice cv', cv.notify choice = some cv' := by
  rcases cv.waiting.eq_empty_or_nonempty with hnone | ⟨p, hp⟩
  · exact ⟨none, cv, if_pos hnone⟩
  · exact ⟨some p, cv.wake p, if_pos hp⟩

omit [DecidableEq W] [DecidableEq Task] in
theorem notifyNotFull_total (s : ThreadPool W P Task) :
    ∃ woken notFull, s.notifyNotFull woken = some notFull := by
  unfold notifyNotFull
  split
  · exact notify_total _
  · exact ⟨none, _, rfl⟩

/-- From the test of `isRunning_` the thread exits. -/
theorem Drains.exit_loop {s₁ : ThreadPool W P Task} (h : s.Drains s₁) {w : W}
    (hw : w ∈ s₁.threads_) (hpc : s₁.worker w = .loop) :
    ∃ s₂, s.Drains s₂ ∧ s₂.worker w = .exited ∧ ∀ w', w' ≠ w → s₂.worker w' = s₁.worker w' := by
  have hnext : s₁.next (.check w) = some (s₁.setWorker w .exited) := by
    simp [ThreadPool.next, hw, hpc, h.running]
  have hin : (s₁.setWorker w .exited).inTake = s₁.inTake := inTake_of_ne (by simp) (by simp [hpc])
  refine ⟨_, h.step hnext rfl rfl ?_, setWorker_self _ _ _, fun w' hw' => setWorker_of_ne hw' _⟩
  exact fun hbalanced => h.unbalanced (hbalanced.of_eq rfl rfl hin.symm)

theorem Drains.exit_run {s₁ : ThreadPool W P Task} (h : s.Drains s₁) {w : W} {task : Task}
    (hpc : s₁.worker w = .run task) :
    ∃ s₂, s.Drains s₂ ∧ s₂.worker w = .exited ∧ ∀ w', w' ≠ w → s₂.worker w' = s₁.worker w' := by
  have hw := h.stopped.inv.mem_threads (w := w) (by simp [hpc])
  have hnext : s₁.next (.ran w) =
      some ({ s₁ with ran := s₁.ran ++ [task] }.setWorker w .loop) := by
    simp [ThreadPool.next, hpc]
  have hin : ({ s₁ with ran := s₁.ran ++ [task] }.setWorker w .loop).inTake = s₁.inTake :=
    inTake_of_ne (s := { s₁ with ran := s₁.ran ++ [task] }) (by simp) (by simp [hpc])
  have hdone := h.step hnext rfl rfl fun hbalanced =>
    h.unbalanced (hbalanced.of_eq rfl rfl hin.symm)
  rcases hdone.exit_loop hw (setWorker_self _ _ _) with ⟨s₂, hs₂, hexited, hothers⟩
  exact ⟨s₂, hs₂, hexited, fun w' hw' => (hothers w' hw').trans (setWorker_of_ne hw' _)⟩

/-- A thread in `take` comes out of it, with a task or without, and exits. -/
theorem Drains.exit_take {s₁ : ThreadPool W P Task} (h : s.Drains s₁) {w : W}
    (hpc : s₁.worker w = .take) :
    ∃ s₂, s.Drains s₂ ∧ s₂.worker w = .exited ∧ ∀ w', w' ≠ w → s₂.worker w' = s₁.worker w' := by
  have hw := h.stopped.inv.mem_threads (w := w) (by simp [hpc])
  have hawake : w ∉ s₁.notEmpty_.waiting := by
    rw [h.stopped.awake h.running]
    exact Finset.notMem_empty w
  cases hqueue : s₁.queue_ with
  | nil =>
      have hnext : s₁.next (.take w none) =
          some ({ s₁ with notEmpty_ := s₁.notEmpty_.leave w }.setWorker w .loop) := by
        simp [ThreadPool.next, hawake, hpc, take_nil hqueue, h.running]
      have hleft := h.step hnext rfl rfl (fun hbalanced => h.unbalanced ⟨hbalanced.1, by
        rw [hqueue]
        exact Nat.zero_le _⟩)
      rcases hleft.exit_loop hw (setWorker_self _ _ _) with ⟨s₂, hs₂, hexited, hothers⟩
      exact ⟨s₂, hs₂, hexited, fun w' hw' => (hothers w' hw').trans (setWorker_of_ne hw' _)⟩
  | cons task queue =>
      rcases notifyNotFull_total s₁ with ⟨woken, notFull, hnotify⟩
      obtain ⟨s', htake⟩ : ∃ s', s₁.take w woken = some s' := by
        rw [take_cons hqueue, hnotify]
        exact ⟨_, rfl⟩
      have hnext : s₁.next (.take w woken) = some s' := by
        simp [ThreadPool.next, hawake, hpc, htake]
      have htook := h.stopped.inv.took hpc hqueue htake
      have hrun := h.step hnext htook.running htook.threads fun hbalanced =>
        h.unbalanced (htook.balanced_iff.1 hbalanced)
      rcases htook.worker with ⟨task', htask⟩
      rcases hrun.exit_run htask with ⟨s₂, hs₂, hexited, hothers⟩
      exact ⟨s₂, hs₂, hexited, fun w' hw' => (hothers w' hw').trans (htook.others w' hw')⟩

/-- One thread after the other exits; the balance is never made good. -/
theorem Drains.exit_all (h : s.Drains s) (ws : Finset W) (hws : ws ⊆ s.threads_) :
    ∃ s', s.Drains s' ∧ ∀ w ∈ ws, s'.worker w = .exited := by
  induction ws using Finset.induction_on with
  | empty => exact ⟨s, h, by simp⟩
  | insert w ws hnot ih =>
      rcases ih ((Finset.subset_insert w ws).trans hws) with ⟨s₁, h₁, hexited⟩
      have hw : w ∈ s₁.threads_ := h₁.threads ▸ hws (Finset.mem_insert_self w ws)
      obtain ⟨s₂, h₂, hw₂, hothers⟩ : ∃ s₂, s.Drains s₂ ∧ s₂.worker w = .exited ∧
          ∀ w', w' ≠ w → s₂.worker w' = s₁.worker w' := by
        cases hpc : s₁.worker w with
        | loop => exact h₁.exit_loop hw hpc
        | take => exact h₁.exit_take hpc
        | run task => exact h₁.exit_run hpc
        | exited => exact ⟨s₁, h₁, hpc, fun _ _ => rfl⟩
      refine ⟨s₂, h₂, fun w' hw' => ?_⟩
      rcases Finset.mem_insert.1 hw' with rfl | hw'
      · exact hw₂
      · have hne : w' ≠ w := fun heq => hnot (heq ▸ hw')
        exact (hothers w' hne).trans (hexited w' hw')

/-- After a step that is not timely the pool has stopped without balance. -/
theorem unbalanced_of_not_timely {a : PoolAction W P Task} (ha : ¬ s.Timely a)
    (hs : s.next a = some s') : s'.isRunning_ = false ∧ ¬ s'.Balanced := by
  cases a with
  | stop =>
      cases hs
      exact ⟨rfl, ha⟩
  | put p woken =>
      simp only [Timely, Classical.not_imp] at ha
      rcases ha with ⟨hstop, hroom⟩
      rcases next_put hs with ⟨hp, f, -, hput⟩
      rcases put_cases hput with ⟨hfull, rfl⟩ | ⟨hfull, notEmpty, -, rfl⟩
      · rw [if_pos hfull] at hroom
        refine ⟨hstop, fun hbalanced => hroom ?_⟩
        have hcard : (insert p s.notFull_.waiting).card = s.notFull_.waiting.card + 1 :=
          Finset.card_insert_of_notMem hp
        exact hcard.symm.trans_le hbalanced.1
      · rw [if_neg (by simp [hfull])] at hroom
        refine ⟨hstop, fun hbalanced => hroom ?_⟩
        have hlen : (s.queue_ ++ [f]).length = s.queue_.length + 1 := by simp
        exact hlen.symm.trans_le hbalanced.2
  | _ => exact absurd trivial ha

/-- Nobody is stranded in the runs whose steps are all timely; and any other step leads, by steps of
the threads alone, to a state in which `stop` returns and somebody is. -/
theorem stop_strands_nobody_iff (threads_ : Finset W) (maxQueueSize_ : Nat) :
    (∀ s : ThreadPool W P Task, ((runs threads_ maxQueueSize_).restrict Timely).Reachable s →
      s.NobodyStranded) ∧
    ∀ (s : ThreadPool W P Task) (a : PoolAction W P Task) (s' : ThreadPool W P Task),
      (runs threads_ maxQueueSize_).Reachable s → s.next a = some s' → ¬ s.Timely a →
      ∃ s'', ((runs threads_ maxQueueSize_).startAt s').Reachable s'' ∧ s''.StopReturned ∧
        ¬ s''.NobodyStranded := by
  constructor
  · intro s hs hreturned
    rcases reachable_balanced hs with ⟨hstopped, hbalanced⟩
    exact (hstopped.nobodyStranded_iff hreturned).2 (hbalanced hreturned.1) hreturned
  · intro s a s' hs hnext ha
    have hstopped := (reachable_stopped hs).next hnext
    rcases unbalanced_of_not_timely ha hnext with ⟨hrunning, hbad⟩
    have hdrains := Drains.refl hstopped hrunning hbad
    rcases hdrains.exit_all s'.threads_ (Finset.Subset.refl _) with ⟨s'', hs'', hexited⟩
    have hreturned : s''.StopReturned := ⟨hs''.running, hs''.threads ▸ hexited⟩
    exact ⟨s'', hs''.reach, hreturned, fun hnobody =>
      hs''.unbalanced ((hs''.stopped.nobodyStranded_iff hreturned).1 hnobody)⟩

/-- One thread is busy with the first task, the second one is in the queue, and the pool is
stopped. -/
def stopWhileBusy : List (PoolAction Unit Bool Nat) :=
  [.check (), .callPut true 7, .put true none, .take () none, .callPut false 8, .put false none,
    .stop, .ran (), .check ()]

theorem stopWhileBusy_strands :
    ∃ s : ThreadPool Unit Bool Nat, (runs {()} 2).Reachable s ∧ s.StopReturned ∧
      s.accepted = [7, 8] ∧ s.ran = [7] ∧ ¬ s.NobodyStranded := by
  obtain ⟨s, hs, hrunning, hworker, haccepted, hran⟩ :
      ∃ s, System.runAll next ({ threads_ := {()}, maxQueueSize_ := 2 } :
        ThreadPool Unit Bool Nat) stopWhileBusy = some s ∧ s.isRunning_ = false ∧
        s.worker () = .exited ∧ s.accepted = [7, 8] ∧ s.ran = [7] := by
    have hrun : (System.runAll next ({ threads_ := {()}, maxQueueSize_ := 2 } :
        ThreadPool Unit Bool Nat) stopWhileBusy).map (fun s => decide (s.isRunning_ = false ∧
        s.worker () = .exited ∧ s.accepted = [7, 8] ∧ s.ran = [7])) =
        some true := by decide +kernel
    rcases Option.map_eq_some_iff.1 hrun with ⟨s, hs, hend⟩
    exact ⟨s, hs, of_decide_eq_true hend⟩
  have hreturned : s.StopReturned := by
    exact ⟨hrunning, fun w _ => hworker⟩
  refine ⟨s, .of_runAll (fun _ _ _ hnext => hnext) (.init rfl) hs, hreturned, haccepted, hran, ?_⟩
  intro hnobody
  have hlost := (hnobody hreturned).1 8
  rw [haccepted, hran] at hlost
  revert hlost
  decide

end ThreadPool
end Base
end Longky
