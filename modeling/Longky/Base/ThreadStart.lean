import Longky.Base.CountDownLatch

/-!
# ThreadStart — a thread that starts another one

`base/thread/Thread.cpp`.  `start` hands the new thread a `ThreadData` with pointers to `tid_` and
`latch_` of the `Thread`, and waits on the latch; the new thread writes its id, counts down, runs its
function and deletes the `ThreadData`.  The owner of the `Thread` may destroy it as soon as `start`
has returned, and the new thread runs on without it.

The steps of the latch are its instructions.  A step is `none` when an assertion fails or when it
uses something that has been destroyed.
-/

namespace Longky
namespace Base

open Lib

/-- The thread that owns the `Thread`, and the new one. -/
inductive Party where
  | starter
  | worker
  deriving DecidableEq, Repr

inductive StarterPc where
  /-- In no member of the `Thread`. -/
  | outside
  /-- In `start`, before `pthread_create`, -/
  | pthreadCreate
  /-- before `latch_.wait()`, -/
  | callWait
  /-- and in it. -/
  | inWait
  /-- In `pthread_join`. -/
  | joining
  deriving DecidableEq, Repr

/-- Where the new thread is in `runInThread`. -/
inductive WorkerPc where
  | notCreated
  /-- `*tid_ = tid()`. -/
  | setTid
  /-- `latch_->countDown()`. -/
  | callCountDown
  | inCountDown
  /-- `func_()`. -/
  | func
  /-- `delete data`. -/
  | deleteData
  | exited
  deriving DecidableEq, Repr

structure Thread where
  /-- The `Thread` has not been destroyed. -/
  alive : Bool := true
  started_ : Bool := false
  joined_ : Bool := false
  tid_ : Int := 0
  latch_ : CountDownLatch Party := { count_ := 1 }
  /-- There is a `ThreadData`. -/
  data : Bool := false
  starter : StarterPc := .outside
  worker : WorkerPc := .notCreated

inductive ThreadAction where
  | start
  | pthreadCreate (ok : Bool)
  | callWait
  /-- `assert(tid_ > 0)`, and the return of `start`. -/
  | startReturns
  | setTid
  | callCountDown
  | countDownReturns
  | func
  | deleteData
  /-- An instruction in the latch. -/
  | latch (p : Party)
  /-- A wake-up without a notification. -/
  | wakeUp (p : Party)
  | join
  | joinReturns
  | destroy
  deriving DecidableEq, Repr

namespace Thread

variable (ids : ThreadIds Party)

/-- Where the threads are, and what the owner of a `Thread` has to keep to: it calls `start` again
only when it has failed, `join` once and behind `start`, and destroys the `Thread` when it is in none
of them. -/
def enabled (s : Thread) : ThreadAction → Prop
  | .start => s.starter = .outside ∧ s.alive = true ∧ s.started_ = false
  | .pthreadCreate _ => s.starter = .pthreadCreate
  | .callWait => s.starter = .callWait
  | .startReturns => s.starter = .inWait ∧ s.latch_.pc .starter = .outside
  | .setTid => s.worker = .setTid
  | .callCountDown => s.worker = .callCountDown
  | .countDownReturns => s.worker = .inCountDown ∧ s.latch_.pc .worker = .outside
  | .func => s.worker = .func
  | .deleteData => s.worker = .deleteData
  | .latch p => (s.latch_.instruction ids p).isSome = true
  | .wakeUp p => s.latch_.pc p = .blocked
  | .join => s.starter = .outside ∧ s.alive = true ∧ s.started_ = true ∧ s.joined_ = false
  | .joinReturns => s.starter = .joining ∧ s.worker = .exited
  | .destroy => s.starter = .outside ∧ s.alive = true

instance (s : Thread) : (a : ThreadAction) → Decidable (s.enabled ids a)
  | .start => inferInstanceAs (Decidable (_ ∧ _ ∧ _))
  | .pthreadCreate _ => inferInstanceAs (Decidable (s.starter = .pthreadCreate))
  | .callWait => inferInstanceAs (Decidable (s.starter = .callWait))
  | .startReturns => inferInstanceAs (Decidable (_ ∧ _))
  | .setTid => inferInstanceAs (Decidable (s.worker = .setTid))
  | .callCountDown => inferInstanceAs (Decidable (s.worker = .callCountDown))
  | .countDownReturns => inferInstanceAs (Decidable (_ ∧ _))
  | .func => inferInstanceAs (Decidable (s.worker = .func))
  | .deleteData => inferInstanceAs (Decidable (s.worker = .deleteData))
  | .latch p => inferInstanceAs (Decidable ((s.latch_.instruction ids p).isSome = true))
  | .wakeUp p => inferInstanceAs (Decidable (s.latch_.pc p = .blocked))
  | .join => inferInstanceAs (Decidable (_ ∧ _ ∧ _ ∧ _))
  | .joinReturns => inferInstanceAs (Decidable (_ ∧ _))
  | .destroy => inferInstanceAs (Decidable (_ ∧ _))

/-- A step in the latch of a `Thread` that is still there. -/
def useLatch (s : Thread) (a : LatchAction Party) : Option Thread :=
  if s.alive then (s.latch_.next ids a).map fun latch => { s with latch_ := latch } else none

def perform (s : Thread) : ThreadAction → Option Thread
  | .start => some { s with started_ := true, data := true, starter := .pthreadCreate }
  | .pthreadCreate true => some { s with starter := .callWait, worker := .setTid }
  | .pthreadCreate false =>
      if s.data then some { s with started_ := false, data := false, starter := .outside } else none
  | .callWait =>
      (s.useLatch ids (.call .starter .wait)).map fun s => { s with starter := .inWait }
  | .startReturns => if 0 < s.tid_ then some { s with starter := .outside } else none
  | .setTid =>
      if s.data = true ∧ s.alive = true then
        some { s with tid_ := ids.tid .worker, worker := .callCountDown }
      else none
  | .callCountDown =>
      if s.data then
        (s.useLatch ids (.call .worker .countDown)).map fun s => { s with worker := .inCountDown }
      else none
  -- `latch_ = nullptr`
  | .countDownReturns => if s.data then some { s with worker := .func } else none
  | .func => if s.data then some { s with worker := .deleteData } else none
  | .deleteData => if s.data then some { s with data := false, worker := .exited } else none
  | .latch p => s.useLatch ids (.instruction p)
  | .wakeUp p => s.useLatch ids (.wakeUp p)
  | .join => some { s with joined_ := true, starter := .joining }
  | .joinReturns => some { s with starter := .outside }
  -- `~MutexLock` asserts that nobody holds the mutex, and nobody may be at the condition
  | .destroy =>
      if s.latch_.holder_ = 0 ∧ s.latch_.pc .starter = .outside ∧ s.latch_.pc .worker = .outside then
        some { s with alive := false }
      else none

/-- All interleavings of the two threads. -/
def runs : System Thread ThreadAction where
  init s := s = {}
  step s a s' := s.enabled ids a ∧ s.perform ids a = some s'

/-! ## The invariant -/

/-- The new thread has returned from `countDown`. -/
def Counted (s : Thread) : Prop :=
  (s.worker = .inCountDown ∨ s.worker = .func ∨ s.worker = .deleteData ∨ s.worker = .exited) ∧
    s.latch_.pc .worker = .outside

structure Inv (s : Thread) : Prop where
  latch : (CountDownLatch.runs ids 1).Reachable s.latch_
  starterCall : ∀ c, (s.latch_.pc .starter).inCall = some c → c = .wait ∧ s.starter = .inWait
  workerCall : ∀ c, (s.latch_.pc .worker).inCall = some c →
    c = .countDown ∧ s.worker = .inCountDown
  returned : ∀ q ∈ s.latch_.returned, q = (.starter, .wait) ∨ q = (.worker, .countDown) ∧ s.Counted
  counted : s.Counted → (.worker, .countDown) ∈ s.latch_.returned
  waited : s.starter = .inWait → s.latch_.pc .starter = .outside →
    (.starter, .wait) ∈ s.latch_.returned
  created : s.worker = .notCreated ↔ s.started_ = false ∨ s.starter = .pthreadCreate
  started : s.starter ≠ .outside → s.started_ = true ∧ s.alive = true
  data : s.data = true ↔
    s.starter = .pthreadCreate ∨ s.worker ≠ .notCreated ∧ s.worker ≠ .exited
  tid : s.worker ≠ .notCreated → s.worker ≠ .setTid → s.tid_ = ids.tid .worker
  /-- `start` has returned. -/
  behind : s.starter = .outside ∨ s.starter = .joining → s.started_ = true → s.Counted

variable {ids} {s s' : Thread}

theorem Inv.starter_outside (h : s.Inv ids) (hne : s.starter ≠ .inWait) :
    s.latch_.pc .starter = .outside := by
  cases hcall : (s.latch_.pc .starter).inCall with
  | none => exact LatchPc.inCall_eq_none.1 hcall
  | some c => exact absurd (h.starterCall c hcall).2 hne

theorem Inv.worker_outside (h : s.Inv ids) (hne : s.worker ≠ .inCountDown) :
    s.latch_.pc .worker = .outside := by
  cases hcall : (s.latch_.pc .worker).inCall with
  | none => exact LatchPc.inCall_eq_none.1 hcall
  | some c => exact absurd (h.workerCall c hcall).2 hne

/-- Where `wait` has returned, the new thread has returned from `countDown`. -/
theorem Inv.counted_of_waited (h : s.Inv ids) (hwait : (.starter, .wait) ∈ s.latch_.returned) :
    s.Counted := by
  obtain ⟨before, after, hsplit⟩ := List.append_of_mem hwait
  have hone : (1 : Int) ≤ CountDownLatch.countDowns before :=
    (CountDownLatch.reachable_inv h.latch).le_countDowns hsplit
  have hpos : 0 < before.countP (·.2 = .countDown) := Int.natCast_pos.1 hone
  obtain ⟨q, hq, hcount⟩ := List.countP_pos_iff.1 hpos
  have hmem : q ∈ s.latch_.returned := by
    rw [hsplit]
    exact List.mem_append_left _ hq
  rcases h.returned q hmem with rfl | ⟨-, hcounted⟩
  · simp at hcount
  · exact hcounted

/-- Until the new thread has counted down, `start` has not returned. -/
theorem Inv.alive_of_not_counted (h : s.Inv ids) (hworker : s.worker ≠ .notCreated)
    (hnot : ¬ s.Counted) : s.alive = true := by
  have hstarted : s.started_ = true := by
    cases hs : s.started_ with
    | true => rfl
    | false => exact absurd (h.created.2 (.inl hs)) hworker
  have hinside : s.starter ≠ .outside := fun hout => hnot (h.behind (.inl hout) hstarted)
  exact (h.started hinside).2

theorem inv_init : ({} : Thread).Inv ids where
  latch := .init rfl
  starterCall c hc := by cases hc
  workerCall c hc := by cases hc
  returned q hq := by cases hq
  counted hc := by simp [Counted] at hc
  waited hw := by cases hw
  created := by simp
  started hne := absurd rfl hne
  data := by simp
  tid hne := absurd rfl hne
  behind _ hs := by cases hs

/-- The new thread goes on, outside the latch. -/
theorem Inv.moveWorker (h : s.Inv ids) {w : WorkerPc} {k : Int} {d : Bool}
    (hbefore : s.worker ≠ .notCreated) (hcall : s.latch_.pc .worker = .outside)
    (hw : w ≠ .notCreated) (htid : w ≠ .setTid → k = ids.tid .worker)
    (hdata : d = true ↔ w ≠ .exited)
    (hcounted : ({ s with worker := w } : Thread).Counted ↔ s.Counted) :
    ({ s with worker := w, tid_ := k, data := d } : Thread).Inv ids := by
  have hstarted := mt h.created.2 hbefore
  rw [not_or] at hstarted
  refine ⟨h.latch, h.starterCall, fun c hc => ?_, fun q hq => ?_, fun hc => ?_, h.waited, ?_,
    h.started, ?_, fun _ hne => htid hne, fun hout hs => ?_⟩
  · rw [hcall] at hc
    cases hc
  · exact (h.returned q hq).imp_right fun hq => ⟨hq.1, hcounted.2 hq.2⟩
  · exact h.counted (hcounted.1 hc)
  · simp [hw, hstarted]
  · simp [hw, hstarted, hdata]
  · exact hcounted.2 (h.behind hout hs)

/-- An instruction in the latch. -/
theorem Inv.latchStep (h : s.Inv ids) {a : LatchAction Party} (ha : a.isCall = false)
    {latch : CountDownLatch Party} (hs : s.latch_.next ids a = some latch) :
    ({ s with latch_ := latch } : Thread).Inv ids := by
  have hreach : (CountDownLatch.runs ids 1).Reachable latch := .step h.latch hs
  obtain ⟨p, hothers, hself⟩ := CountDownLatch.next_inCall ha hs
  rcases hself with ⟨hsame, hreturned⟩ | ⟨r, hcall, hout, hreturned⟩
  · have hall : ∀ u, (latch.pc u).inCall = (s.latch_.pc u).inCall := by
      intro u
      by_cases hu : u = p
      · exact hu ▸ hsame
      · exact hothers u hu
    have houtside : ∀ u, latch.pc u = .outside ↔ s.latch_.pc u = .outside := by
      intro u
      rw [← LatchPc.inCall_eq_none, hall u, LatchPc.inCall_eq_none]
    have hcounted : ({ s with latch_ := latch } : Thread).Counted ↔ s.Counted :=
      and_congr_right fun _ => houtside .worker
    refine ⟨hreach, fun c hc => h.starterCall c (hall _ ▸ hc), fun c hc =>
      h.workerCall c (hall _ ▸ hc), ?_, ?_, ?_, h.created, h.started, h.data, h.tid, ?_⟩
    · intro q hq
      rw [hreturned] at hq
      exact (h.returned q hq).imp_right fun hq => ⟨hq.1, hcounted.2 hq.2⟩
    · intro hc
      rw [hreturned]
      exact h.counted (hcounted.1 hc)
    · intro hin hpc
      rw [hreturned]
      exact h.waited hin ((houtside .starter).1 hpc)
    · exact fun hout hstarted => hcounted.2 (h.behind hout hstarted)
  · cases p with
    | starter =>
        obtain ⟨hr, hin⟩ := h.starterCall _ hcall
        have hworker := hothers .worker (by simp)
        have hcounted : ({ s with latch_ := latch } : Thread).Counted ↔ s.Counted := by
          refine and_congr_right fun _ => ?_
          rw [← LatchPc.inCall_eq_none, hworker, LatchPc.inCall_eq_none]
        have hwait : r = .wait := by
          cases r with
          | wait => rfl
          | countDown | getCount => cases hr
        subst hwait
        refine ⟨hreach, ?_, fun c hc => h.workerCall c (hworker ▸ hc), ?_, ?_, ?_, h.created,
          h.started, h.data, h.tid, ?_⟩
        · intro c hc
          rw [hout] at hc
          cases hc
        · intro q hq
          rw [hreturned] at hq
          rcases List.mem_append.1 hq with hold | hnew
          · exact (h.returned q hold).imp_right fun hq => ⟨hq.1, hcounted.2 hq.2⟩
          · exact .inl (List.mem_singleton.1 hnew)
        · intro hc
          rw [hreturned]
          exact List.mem_append_left _ (h.counted (hcounted.1 hc))
        · intro _ _
          rw [hreturned]
          exact List.mem_append_right _ (List.mem_singleton_self _)
        · intro houtside
          simp [hin] at houtside
    | worker =>
        obtain ⟨hr, hin⟩ := h.workerCall _ hcall
        have hstarter := hothers .starter (by simp)
        have hcounted : ({ s with latch_ := latch } : Thread).Counted := ⟨.inl hin, hout⟩
        have hcount : r = .countDown := by
          cases r with
          | countDown => rfl
          | wait | getCount => cases hr
        subst hcount
        refine ⟨hreach, fun c hc => h.starterCall c (hstarter ▸ hc), ?_, ?_, ?_, ?_, h.created,
          h.started, h.data, h.tid, fun _ _ => hcounted⟩
        · intro c hc
          rw [hout] at hc
          cases hc
        · intro q hq
          rw [hreturned] at hq
          rcases List.mem_append.1 hq with hold | hnew
          · exact (h.returned q hold).imp_right fun hq => ⟨hq.1, hcounted⟩
          · exact .inr ⟨List.mem_singleton.1 hnew, hcounted⟩
        · intro _
          rw [hreturned]
          exact List.mem_append_right _ (List.mem_singleton_self _)
        · intro hwait hpc
          rw [← LatchPc.inCall_eq_none, hstarter, LatchPc.inCall_eq_none] at hpc
          rw [hreturned]
          exact List.mem_append_left _ (h.waited hwait hpc)

/-! ## The two calls -/

theorem Inv.callWait (h : s.Inv ids) (hstarter : s.starter = .callWait) :
    ∃ s', s.perform ids .callWait = some s' ∧ s'.Inv ids := by
  have hout : s.latch_.pc .starter = .outside := h.starter_outside (by simp [hstarter])
  obtain ⟨hstarted, halive⟩ := h.started (by simp [hstarter])
  have hnext : s.latch_.next ids (.call .starter .wait) =
      some (s.latch_.setPc .starter (.lock .wait)) := if_pos hout
  refine ⟨{ s with latch_ := s.latch_.setPc .starter (.lock .wait), starter := .inWait },
    by simp [perform, useLatch, halive, hnext], .step h.latch hnext, ?_, h.workerCall, h.returned,
    h.counted, ?_, ?_, fun _ => ⟨hstarted, halive⟩, ?_, h.tid, ?_⟩
  · intro c hc
    exact ⟨(Option.some.inj hc).symm, rfl⟩
  · intro _ hpc
    cases hpc
  · simpa [hstarter, hstarted] using h.created
  · simpa [hstarter] using h.data
  · intro houtside
    simp at houtside

theorem Inv.callCountDown (h : s.Inv ids) (hworker : s.worker = .callCountDown) :
    ∃ s', s.perform ids .callCountDown = some s' ∧ s'.Inv ids := by
  have hout : s.latch_.pc .worker = .outside := h.worker_outside (by simp [hworker])
  have hnot : ¬ s.Counted := by simp [Counted, hworker]
  have halive := h.alive_of_not_counted (by simp [hworker]) hnot
  have hdata : s.data = true := h.data.2 (.inr (by simp [hworker]))
  have hnext : s.latch_.next ids (.call .worker .countDown) =
      some (s.latch_.setPc .worker (.lock .countDown)) := if_pos hout
  have hnone : ¬ ({ s with
      latch_ := s.latch_.setPc .worker (.lock .countDown), worker := .inCountDown } :
        Thread).Counted := by
    rintro ⟨-, hpc⟩
    cases hpc
  refine ⟨{ s with
      latch_ := s.latch_.setPc .worker (.lock .countDown), worker := .inCountDown },
    by simp [perform, useLatch, halive, hdata, hnext], .step h.latch hnext, h.starterCall, ?_, ?_,
    fun hc => absurd hc hnone, h.waited, ?_, h.started, ?_, ?_, ?_⟩
  · intro c hc
    exact ⟨(Option.some.inj hc).symm, rfl⟩
  · intro q hq
    exact (h.returned q hq).imp_right fun hq => absurd hq.2 hnot
  · simpa [hworker] using h.created
  · simpa [hworker] using h.data
  · exact fun _ _ => h.tid (by simp [hworker]) (by simp [hworker])
  · exact fun houtside hstarted => absurd (h.behind houtside hstarted) hnot

/-! ## No step goes wrong -/

theorem Inv.useLatch (h : s.Inv ids) {a : LatchAction Party} (ha : a.isCall = false) {p : Party}
    (hpc : s.latch_.pc p ≠ .outside) {latch : CountDownLatch Party}
    (hs : s.latch_.next ids a = some latch) :
    ∃ s', s.useLatch ids a = some s' ∧ s'.Inv ids := by
  have halive : s.alive = true := by
    cases p with
    | starter =>
        have hstarter : s.starter = .inWait := by
          by_contra hne
          exact hpc (h.starter_outside hne)
        exact (h.started (by simp [hstarter])).2
    | worker =>
        have hworker : s.worker = .inCountDown := by
          by_contra hne
          exact hpc (h.worker_outside hne)
        exact h.alive_of_not_counted (by simp [hworker]) fun hc => hpc hc.2
  exact ⟨{ s with latch_ := latch }, by simp [Thread.useLatch, halive, hs], h.latchStep ha hs⟩

theorem Inv.latchInstruction (h : s.Inv ids) {p : Party} {latch : CountDownLatch Party}
    (hs : s.latch_.instruction ids p = some latch) :
    ∃ s', s.useLatch ids (.instruction p) = some s' ∧ s'.Inv ids := by
  have hpc : s.latch_.pc p ≠ .outside := by
    intro hout
    simp [CountDownLatch.instruction, hout] at hs
  exact h.useLatch (a := .instruction p) rfl hpc hs

theorem Inv.wakeUp (h : s.Inv ids) {p : Party} (hblocked : s.latch_.pc p = .blocked) :
    ∃ s', s.useLatch ids (.wakeUp p) = some s' ∧ s'.Inv ids := by
  have hpc : s.latch_.pc p ≠ .outside := by simp [hblocked]
  exact h.useLatch (a := .wakeUp p) rfl hpc (if_pos hblocked)

/-! ## The owner of the `Thread` -/

theorem Inv.start (h : s.Inv ids) (hout : s.starter = .outside) (halive : s.alive = true)
    (hstarted : s.started_ = false) :
    ({ s with started_ := true, data := true, starter := .pthreadCreate } : Thread).Inv ids := by
  have hworker : s.worker = .notCreated := h.created.2 (.inl hstarted)
  refine ⟨h.latch, ?_, h.workerCall, h.returned, h.counted, ?_, ?_, ?_, ?_, h.tid, ?_⟩
  · intro c hc
    rw [h.starter_outside (by simp [hout])] at hc
    cases hc
  · simp
  · simp [hworker]
  · exact fun _ => ⟨rfl, halive⟩
  · simp
  · simp

theorem Inv.pthreadCreate_ok (h : s.Inv ids) (hstarter : s.starter = .pthreadCreate) :
    ({ s with starter := .callWait, worker := .setTid } : Thread).Inv ids := by
  have hout : s.latch_.pc .starter = .outside := h.starter_outside (by simp [hstarter])
  have hworker : s.worker = .notCreated := h.created.2 (.inr hstarter)
  have hdata : s.data = true := h.data.2 (.inl hstarter)
  have hnot : ¬ s.Counted := by simp [Counted, hworker]
  obtain ⟨hstarted, halive⟩ := h.started (by simp [hstarter])
  refine ⟨h.latch, ?_, ?_, ?_, ?_, ?_, ?_, ?_, ?_, ?_, ?_⟩
  · intro c hc
    rw [hout] at hc
    cases hc
  · intro c hc
    rw [h.worker_outside (by simp [hworker])] at hc
    cases hc
  · exact fun q hq => (h.returned q hq).imp_right fun hq => absurd hq.2 hnot
  · simp [Counted]
  · simp
  · simp [hstarted]
  · exact fun _ => ⟨hstarted, halive⟩
  · simp [hdata]
  · simp
  · simp

theorem Inv.pthreadCreate_fails (h : s.Inv ids) (hstarter : s.starter = .pthreadCreate) :
    ({ s with started_ := false, data := false, starter := .outside } : Thread).Inv ids := by
  have hout : s.latch_.pc .starter = .outside := h.starter_outside (by simp [hstarter])
  have hworker : s.worker = .notCreated := h.created.2 (.inr hstarter)
  refine ⟨h.latch, ?_, h.workerCall, h.returned, h.counted, ?_, ?_, ?_, ?_, h.tid, ?_⟩
  · intro c hc
    rw [hout] at hc
    cases hc
  · simp
  · simp [hworker]
  · exact fun hne => absurd rfl hne
  · simp [hworker]
  · simp

theorem Inv.pthreadCreate (h : s.Inv ids) (ok : Bool) (hstarter : s.starter = .pthreadCreate) :
    ∃ s', s.perform ids (.pthreadCreate ok) = some s' ∧ s'.Inv ids := by
  cases ok with
  | true => exact ⟨_, rfl, h.pthreadCreate_ok hstarter⟩
  | false =>
      have hdata : s.data = true := h.data.2 (.inl hstarter)
      exact ⟨_, if_pos hdata, h.pthreadCreate_fails hstarter⟩

/-- The owner goes on, outside the latch. -/
theorem Inv.moveStarter (h : s.Inv ids) {p : StarterPc} {joined : Bool}
    (hbefore : s.starter ≠ .pthreadCreate) (hcall : s.latch_.pc .starter = .outside)
    (hp : p ≠ .pthreadCreate ∧ p ≠ .inWait)
    (hlive : p ≠ .outside → s.started_ = true ∧ s.alive = true)
    (hbehind : s.started_ = true → s.Counted) :
    ({ s with starter := p, joined_ := joined } : Thread).Inv ids := by
  refine ⟨h.latch, fun c hc => ?_, h.workerCall, h.returned, h.counted,
    fun hin => absurd hin hp.2, ?_, hlive, ?_, h.tid, fun _ => hbehind⟩
  · rw [hcall] at hc
    cases hc
  · simpa [hbefore, hp.1] using h.created
  · simpa [hbefore, hp.1] using h.data

theorem Inv.startReturns (h : s.Inv ids) (hin : s.starter = .inWait)
    (hout : s.latch_.pc .starter = .outside) :
    ∃ s', s.perform ids .startReturns = some s' ∧ s'.Inv ids := by
  have hcounted := h.counted_of_waited (h.waited hin hout)
  have hworker : s.worker ≠ .notCreated ∧ s.worker ≠ .setTid := by
    rcases hcounted.1 with hw | hw | hw | hw <;> simp [hw]
  -- the assertion behind `wait`
  have hpos : 0 < s.tid_ := by
    rw [h.tid hworker.1 hworker.2]
    exact ids.pos .worker
  refine ⟨_, if_pos hpos, h.moveStarter (by simp [hin]) hout (by simp) ?_ fun _ => hcounted⟩
  exact fun hne => absurd rfl hne

theorem Inv.join (h : s.Inv ids) (hout : s.starter = .outside) (halive : s.alive = true)
    (hstarted : s.started_ = true) :
    ({ s with joined_ := true, starter := .joining } : Thread).Inv ids :=
  h.moveStarter (by simp [hout]) (h.starter_outside (by simp [hout])) (by simp)
    (fun _ => ⟨hstarted, halive⟩) (h.behind (.inl hout))

theorem Inv.joinReturns (h : s.Inv ids) (hjoining : s.starter = .joining) :
    ({ s with starter := .outside } : Thread).Inv ids :=
  h.moveStarter (by simp [hjoining]) (h.starter_outside (by simp [hjoining])) (by simp)
    (fun hne => absurd rfl hne) (h.behind (.inr hjoining))

/-- Nobody is in the latch that the `Thread` takes with it. -/
theorem Inv.destroy (h : s.Inv ids) (hout : s.starter = .outside) :
    ∃ s', s.perform ids .destroy = some s' ∧ s'.Inv ids := by
  have hstarter := h.starter_outside (by simp [hout])
  have hworker : s.latch_.pc .worker = .outside := by
    cases hs : s.started_ with
    | true => exact (h.behind (.inl hout) hs).2
    | false => exact h.worker_outside (by simp [h.created.2 (.inl hs)])
  have hall : ∀ p, s.latch_.pc p = .outside := by
    intro p
    cases p with
    | starter => exact hstarter
    | worker => exact hworker
  have hholder := ((CountDownLatch.reachable_inv h.latch).free_outside hall).2
  exact ⟨_, if_pos ⟨hholder, hstarter, hworker⟩, h.latch, h.starterCall, h.workerCall, h.returned,
    h.counted, h.waited, h.created, fun hne => absurd hout hne, h.data, h.tid, h.behind⟩

/-! ## The new thread -/

theorem Inv.setTid (h : s.Inv ids) (hworker : s.worker = .setTid) :
    ∃ s', s.perform ids .setTid = some s' ∧ s'.Inv ids := by
  have hnot : ¬ s.Counted := by simp [Counted, hworker]
  have halive := h.alive_of_not_counted (by simp [hworker]) hnot
  have hdata : s.data = true := h.data.2 (.inr (by simp [hworker]))
  refine ⟨{ s with tid_ := ids.tid .worker, worker := .callCountDown }, if_pos ⟨hdata, halive⟩, ?_⟩
  exact h.moveWorker (by simp [hworker]) (h.worker_outside (by simp [hworker])) (by simp)
    (fun _ => rfl) (by simp [hdata]) (by simp [Counted, hworker])

theorem Inv.countDownReturns (h : s.Inv ids) (hworker : s.worker = .inCountDown)
    (hout : s.latch_.pc .worker = .outside) :
    ∃ s', s.perform ids .countDownReturns = some s' ∧ s'.Inv ids := by
  have hdata : s.data = true := h.data.2 (.inr (by simp [hworker]))
  have htid := h.tid (by simp [hworker]) (by simp [hworker])
  refine ⟨{ s with worker := .func }, if_pos hdata, ?_⟩
  exact h.moveWorker (by simp [hworker]) hout (by simp) (fun _ => htid) (by simp [hdata])
    (by simp [Counted, hworker])

theorem Inv.func (h : s.Inv ids) (hworker : s.worker = .func) :
    ∃ s', s.perform ids .func = some s' ∧ s'.Inv ids := by
  have hdata : s.data = true := h.data.2 (.inr (by simp [hworker]))
  have htid := h.tid (by simp [hworker]) (by simp [hworker])
  refine ⟨{ s with worker := .deleteData }, if_pos hdata, ?_⟩
  exact h.moveWorker (by simp [hworker]) (h.worker_outside (by simp [hworker])) (by simp)
    (fun _ => htid) (by simp [hdata]) (by simp [Counted, hworker])

theorem Inv.deleteData (h : s.Inv ids) (hworker : s.worker = .deleteData) :
    ∃ s', s.perform ids .deleteData = some s' ∧ s'.Inv ids := by
  have hdata : s.data = true := h.data.2 (.inr (by simp [hworker]))
  have htid := h.tid (by simp [hworker]) (by simp [hworker])
  refine ⟨{ s with data := false, worker := .exited }, if_pos hdata, ?_⟩
  exact h.moveWorker (by simp [hworker]) (h.worker_outside (by simp [hworker])) (by simp)
    (fun _ => htid) (by simp) (by simp [Counted, hworker])

/-- The step lemma: whatever a thread is about to do is possible. -/
theorem Inv.perform (h : s.Inv ids) {a : ThreadAction} (he : s.enabled ids a) :
    ∃ s', s.perform ids a = some s' ∧ s'.Inv ids := by
  cases a with
  | start =>
      obtain ⟨hout, halive, hstarted⟩ := he
      exact ⟨_, rfl, h.start hout halive hstarted⟩
  | pthreadCreate ok => exact h.pthreadCreate ok he
  | callWait => exact h.callWait he
  | startReturns => exact h.startReturns he.1 he.2
  | setTid => exact h.setTid he
  | callCountDown => exact h.callCountDown he
  | countDownReturns => exact h.countDownReturns he.1 he.2
  | func => exact h.func he
  | deleteData => exact h.deleteData he
  | latch p =>
      obtain ⟨latch, hs⟩ := Option.isSome_iff_exists.1 he
      exact h.latchInstruction hs
  | wakeUp p => exact h.wakeUp he
  | join =>
      obtain ⟨hout, halive, hstarted, -⟩ := he
      exact ⟨_, rfl, h.join hout halive hstarted⟩
  | joinReturns => exact ⟨_, rfl, h.joinReturns he.1⟩
  | destroy => exact h.destroy he.1

theorem reachable_inv (h : (runs ids).Reachable s) : s.Inv ids := by
  refine h.invariant ?_ ?_
  · rintro s rfl
    exact inv_init
  · rintro s a s' hs ⟨he, hperform⟩
    obtain ⟨s₁, hs₁, hinv⟩ := hs.perform he
    cases hs₁.symm.trans hperform
    exact hinv

/-! ## `start` and `join` return -/

/-- Behind `countDown`, the new thread goes on by itself. -/
theorem Counted.goes_on (h : s.Counted) (hne : s.worker ≠ .exited) :
    ∃ a, (∀ p, a ≠ .wakeUp p) ∧ s.enabled ids a := by
  rcases h.1 with hw | hw | hw | hw
  · exact ⟨.countDownReturns, by simp, hw, h.2⟩
  · exact ⟨.func, by simp, hw⟩
  · exact ⟨.deleteData, by simp, hw⟩
  · exact absurd hw hne

/-- With both threads in the latch, one of them has an instruction. -/
theorem Inv.latch_goes_on (h : s.Inv ids) (hstarter : s.latch_.pc .starter ≠ .outside)
    (hworker : s.worker = .inCountDown ∨ s.Counted) :
    ∃ p, (s.latch_.instruction ids p).isSome = true := by
  by_contra hnone
  have hlatch := CountDownLatch.reachable_inv h.latch
  have hstuck : ∀ p, s.latch_.instruction ids p = none := by
    intro p
    by_contra hsome
    exact hnone ⟨p, Option.isSome_iff_ne_none.2 hsome⟩
  have hpos : 0 < s.latch_.count_ :=
    ((hlatch.stuck hstuck .starter).resolve_left hstarter).2
  have hcounted : s.Counted := by
    rcases hworker with hin | hcounted
    · refine ⟨.inl hin, (hlatch.stuck hstuck .worker).resolve_right fun hblocked => ?_⟩
      -- only `wait` sleeps
      have hcall : (s.latch_.pc .worker).inCall = some .wait := by
        rw [hblocked.1]
        rfl
      cases (h.workerCall _ hcall).1
    · exact hcounted
  have hone : (1 : Int) ≤ CountDownLatch.countDowns s.latch_.returned := by
    have hmem : 0 < s.latch_.returned.countP (·.2 = .countDown) :=
      List.countP_pos_iff.2 ⟨_, h.counted hcounted, by simp⟩
    exact Int.natCast_pos.2 hmem
  have hdown : s.latch_.count_ ≤ 0 := hlatch.count_le.trans (sub_nonpos.2 hone)
  exact absurd hpos (not_lt.2 hdown)

theorem Inv.goes_on (h : s.Inv ids) (hin : s.starter ≠ .outside) :
    ∃ a, (∀ p, a ≠ .wakeUp p) ∧ s.enabled ids a := by
  obtain ⟨hstarted, -⟩ := h.started hin
  cases hstarter : s.starter with
  | outside => exact absurd hstarter hin
  | pthreadCreate => exact ⟨.pthreadCreate true, by simp, hstarter⟩
  | callWait => exact ⟨.callWait, by simp, hstarter⟩
  | joining =>
      have hcounted := h.behind (.inr hstarter) hstarted
      by_cases hexited : s.worker = .exited
      · exact ⟨.joinReturns, by simp, hstarter, hexited⟩
      · exact hcounted.goes_on hexited
  | inWait =>
      by_cases hout : s.latch_.pc .starter = .outside
      · exact ⟨.startReturns, by simp, hstarter, hout⟩
      · have hlatch : ∀ hw : s.worker = .inCountDown ∨ s.Counted,
            ∃ a, (∀ p, a ≠ .wakeUp p) ∧ s.enabled ids a := by
          intro hw
          obtain ⟨p, hp⟩ := h.latch_goes_on hout hw
          exact ⟨.latch p, by simp, hp⟩
        cases hworker : s.worker with
        | notCreated =>
            have hcreated := h.created.1 hworker
            simp [hstarted, hstarter] at hcreated
        | setTid => exact ⟨.setTid, by simp, hworker⟩
        | callCountDown => exact ⟨.callCountDown, by simp, hworker⟩
        | inCountDown => exact hlatch (.inl hworker)
        | func => exact ⟨.func, by simp, hworker⟩
        | deleteData => exact ⟨.deleteData, by simp, hworker⟩
        | exited =>
            exact hlatch (.inr ⟨by simp [hworker], h.worker_outside (by simp [hworker])⟩)

/-- However the two threads take turns, and whenever the owner destroys the `Thread`: no assertion
of `start` or of the mutex fails, neither thread uses what has been destroyed or deletes the
`ThreadData` twice; when `start` has returned, `tid_` is the id of the new thread; and a call of
`start` or `join` always leaves some thread with a step to take. -/
theorem start_safe (h : (runs ids).Reachable s) :
    (∀ a, s.enabled ids a → (s.perform ids a).isSome = true) ∧
      (s.starter = .outside → s.started_ = true → s.tid_ = ids.tid .worker) ∧
        (s.starter ≠ .outside → ∃ a, (∀ p, a ≠ .wakeUp p) ∧ s.enabled ids a) := by
  have hinv := reachable_inv h
  refine ⟨fun a he => ?_, fun hout hstarted => ?_, hinv.goes_on⟩
  · obtain ⟨s', hs', -⟩ := hinv.perform he
    exact Option.isSome_iff_exists.2 ⟨s', hs'⟩
  · have hcounted := hinv.behind (.inl hout) hstarted
    have hworker : s.worker ≠ .notCreated ∧ s.worker ≠ .setTid := by
      rcases hcounted.1 with hw | hw | hw | hw <;> simp [hw]
    exact hinv.tid hworker.1 hworker.2

def partyIds : ThreadIds Party where
  tid p := match p with
    | .starter => 1
    | .worker => 2
  pos p := by cases p <;> decide
  injective := by
    rintro (_ | _) (_ | _) hp
    all_goals first | rfl | cases hp

def next (ids : ThreadIds Party) (s : Thread) (a : ThreadAction) : Option Thread :=
  if s.enabled ids a then s.perform ids a else none

theorem step_of_next {a : ThreadAction} (h : s.next ids a = some s') : (runs ids).step s a s' :=
  Option.ite_none_right_eq_some.1 h

/-- The owner destroys the `Thread` when `start` has returned, and the new thread runs on. -/
def destroyedBeforeFunc : List ThreadAction :=
  [.start, .pthreadCreate false, .start, .pthreadCreate true, .callWait] ++
    List.replicate 5 (.latch .starter) ++ [.wakeUp .starter, .setTid, .callCountDown] ++
      List.replicate 7 (.latch .worker) ++ List.replicate 5 (.latch .starter) ++
        [.startReturns, .destroy, .countDownReturns]

theorem start_safe_destroyedBeforeFunc : ∃ s,
    System.runAll (Thread.next partyIds) {} destroyedBeforeFunc = some s ∧ s.alive = false ∧
      s.tid_ = 2 ∧ (s.perform partyIds .func).isSome = true := by
  have hrun : (System.runAll (Thread.next partyIds) {} destroyedBeforeFunc).map
      (fun s => (s.alive, s.starter, s.started_, s.worker)) =
        some (false, .outside, true, .func) := by
    decide +kernel
  obtain ⟨s, hs, hfields⟩ := Option.map_eq_some_iff.1 hrun
  simp only [Prod.mk.injEq] at hfields
  obtain ⟨halive, hout, hstarted, hworker⟩ := hfields
  have hreach : (runs partyIds).Reachable s := .of_runAll (fun _ _ _ => step_of_next) (.init rfl) hs
  have hsafe := start_safe hreach
  exact ⟨s, hs, halive, hsafe.2.1 hout hstarted, hsafe.1 .func hworker⟩

end Thread
end Base
end Longky
