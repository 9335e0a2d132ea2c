import Mathlib.Data.List.Chain
import Longky.Net.TimerArming

/-!
# TimerFiring — when the callbacks run

The runs of the timer queue with a record of the callbacks: which timer, when it was due, and the
time at which `handleRead` took its batch.  No callback runs before its timer is due, and a
repeating timer is due again one interval after the batch of its last callback, so it never runs in
quicker succession.  When every timer is added before it is due, the callbacks run in the order in
which their timers are due, whatever callbacks add and cancel.
-/

namespace Longky
namespace Net

open Lib OrderedSet

/-- A callback that has run. -/
structure Firing (S : Type) where
  sequence : Nat
  /-- The timer's `expiration_`. -/
  due : Timestamp
  interval : S
  /-- The `now` of its batch. -/
  time : Timestamp
  deriving DecidableEq, Repr

namespace TimerQueue

variable {S : Type}

/-! ## What a step does -/

/-- The callback that a step runs. -/
def firing (q : TimerQueue S) : TimerAction S → Option (Firing S)
  | .runNext => do
      let e ← q.toRun.head?
      let t ← q.heap e.timer
      return { sequence := t.sequence_, due := t.expiration_, interval := t.interval_, time := q.now }
  | _ => none

/-- Adding and cancelling leave the batch alone. -/
structure Quiet (q : TimerQueue S) (action : TimerAction S) (q' : TimerQueue S) : Prop where
  firing : q.firing action = none
  now : q'.now = q.now
  expired : q'.expired = q.expired
  toRun : q'.toRun = q.toRun
  numCreated : q.numCreated ≤ q'.numCreated
  heap : ∀ a t, q'.heap a = some t →
    q.heap a = some t ∨ q.heap a = none ∧ q.numCreated < t.sequence_
  timers : ∀ e ∈ q'.timers_, e ∈ q.timers_ ∨
    ∃ a clock t, action = .addTimerInLoop a clock ∧ q.heap a = some t ∧ e = t.entry a

/-- The end of `handleRead`. -/
structure Finished [Seconds S] (q q' : TimerQueue S) : Prop where
  now : q'.now = q.now
  expired : q'.expired = []
  toRun : q'.toRun = []
  numCreated : q'.numCreated = q.numCreated
  heap : ∀ a, q'.heap a = if a ∈ q.batch then q.afterReset a else q.heap a

variable {q q' : TimerQueue S}

theorem quiet_newTimer [Seconds S] (q : TimerQueue S) {a : Address} (ha : q.heap a = none)
    (when : Timestamp) (interval : S) :
    q.Quiet (.newTimer a when interval) (q.newTimer a when interval) where
  firing := rfl
  now := rfl
  expired := rfl
  toRun := rfl
  numCreated := Nat.le_succ _
  heap b t hb := by
    by_cases hba : b = a
    · subst hba
      have hnew : some (Timer.construct when interval (q.numCreated + 1)) = some t := by
        simpa [TimerQueue.newTimer] using hb
      cases hnew
      exact .inr ⟨ha, Nat.lt_succ_self _⟩
    · exact .inl (by simpa [TimerQueue.newTimer, hba] using hb)
  timers _ he := .inl he

theorem quiet_addTimerInLoop (h : q.RunInv) {a : Address} {clock : Timestamp} (ha : a ∈ q.toAdd)
    (hs : q.addTimerInLoop a clock = some q') : q.Quiet (.addTimerInLoop a clock) q' := by
  obtain ⟨t, fd, ht, heq, -⟩ := h.owned.addTimerInLoop ha clock
  cases heq.symm.trans hs
  refine ⟨rfl, rfl, rfl, rfl, le_refl _, fun _ _ hb => .inl hb, ?_⟩
  intro e he
  rcases Finset.mem_insert.1 he with rfl | hold
  · exact .inr ⟨a, clock, t, rfl, ht, rfl⟩
  · exact .inl hold

theorem quiet_cancelInLoop (h : q.RunInv) {id : ActiveTimer}
    (hs : q.cancelInLoop id = some q') : q.Quiet (.cancelInLoop id) q' := by
  obtain ⟨q₁, heq, -, hcases⟩ := h.owned.cancelInLoop id
  cases heq.symm.trans hs
  rcases hcases with ⟨t, -, -, -, rfl⟩ | ⟨-, rfl⟩
  · refine ⟨rfl, rfl, rfl, rfl, le_refl _, ?_, fun e he => .inl (Finset.mem_of_mem_erase he)⟩
    intro b u hb
    by_cases hba : b = id.1
    · subst hba
      simp [deleted] at hb
    · exact .inl (by simpa [deleted, hba] using hb)
  · obtain ⟨canceling, hframe⟩ := cancelExpired_frame q id
    rw [hframe]
    exact ⟨rfl, rfl, rfl, rfl, le_refl _, fun _ _ hb => .inl hb, fun _ he => .inl he⟩

theorem handleRead_eq (h : q.RunInv) (hidle : q.callingExpiredTimers_ = false) {now : Timestamp}
    (hs : q.handleRead now = some q') :
    q' = { q.afterExpiry now with
      now := now
      toRun := (q.afterExpiry now).expired
      callingExpiredTimers_ := true
      cancelingTimers_ := ∅ } := by
  have hexpired := h.owned.getExpired (h.idle hidle).1 now
  simp only [TimerQueue.handleRead, hexpired, Option.bind_eq_bind, Option.bind_some] at hs
  exact (Option.some.inj hs).symm

theorem finished_of_finish [Seconds S] (h : q.RunInv) {clock : Timestamp} (hrun : q.toRun = [])
    (hs : q.finish clock = some q') : q.Finished q' := by
  have hheap := finish_heap h hs
  have hcreated := finish_numCreated h hs
  obtain ⟨q₁, hreset, hrearm⟩ := Option.bind_eq_some_iff.1 hs
  obtain ⟨fd, rfl⟩ := rearm_frame hrearm
  have howned : ({ q with callingExpiredTimers_ := false }).Owned none := { h.owned with }
  obtain ⟨q₂, heq, -, ⟨heap, timers, active, freed, rfl⟩, -⟩ := howned.resetAll rfl
  cases heq.symm.trans hreset
  exact ⟨rfl, rfl, hrun, hcreated, hheap⟩

/-! ## Runs with a record -/

/-- A queue, its clock and the callbacks that have run. -/
structure Firings (S : Type) where
  timed : Timed S
  log : List (Firing S)

def firingRuns (S : Type) [Seconds S] : System (Firings S) (TimerAction S) where
  init s := (timedRuns S).init s.timed ∧ s.log = []
  step s a s' := (timedRuns S).step s.timed a s'.timed ∧
    s'.log = s.log ++ (s.timed.queue.firing a).toList

/-- The callbacks of one timer. -/
def ofTimer (log : List (Firing S)) (sequence : Nat) : List (Firing S) :=
  log.filter (·.sequence = sequence)

theorem ofTimer_concat (log : List (Firing S)) (f : Firing S) (n : Nat) :
    ofTimer (log ++ [f]) n = if f.sequence = n then ofTimer log n ++ [f] else ofTimer log n := by
  by_cases hn : f.sequence = n
  · simp [ofTimer, hn]
  · simp [ofTimer, hn]

/-- The next callback of a timer is due one interval after the batch of the last one. -/
def Follows [Seconds S] (f g : Firing S) : Prop := g.due = Seconds.addTime f.time f.interval

namespace Firings

variable [Seconds S] {s s' : Firings S}

structure Inv (s : Firings S) : Prop where
  run : s.timed.queue.RunInv
  read : s.timed.queue.now ≤ s.timed.clock
  batched : ∀ e ∈ s.timed.queue.expired, e.when ≤ s.timed.queue.now
  early : ∀ f ∈ s.log, f.due ≤ f.time ∧ f.time ≤ s.timed.queue.now
  times : s.log.Pairwise (·.time ≤ ·.time)
  created : ∀ f ∈ s.log, f.sequence ≤ s.timed.queue.numCreated
  spaced : ∀ n, (ofTimer s.log n).IsChain Follows
  /-- The last callback of a timer in the batch that has had its turn is this one. -/
  done : ∀ a t, s.timed.queue.heap a = some t → a ∈ s.timed.queue.batch →
    a ∉ s.timed.queue.toRun.map Entry.timer →
      ∃ f, (ofTimer s.log t.sequence_).getLast? = some f ∧ f.time = s.timed.queue.now ∧
        f.interval = t.interval_
  /-- Any other timer has been restarted since its last callback. -/
  waiting : ∀ a t f, s.timed.queue.heap a = some t →
    (a ∈ s.timed.queue.batch → a ∈ s.timed.queue.toRun.map Entry.timer) →
      (ofTimer s.log t.sequence_).getLast? = some f →
        t.expiration_ = Seconds.addTime f.time f.interval

theorem Inv.quiet (h : s.Inv) {a : TimerAction S} (hq : s.timed.queue.Quiet a s'.timed.queue)
    (hrun : s'.timed.queue.RunInv) (hforward : s.timed.clock ≤ s'.timed.clock)
    (hlog : s'.log = s.log) : s'.Inv := by
  have hbatch : s'.timed.queue.batch = s.timed.queue.batch := by
    rw [TimerQueue.batch, hq.expired, TimerQueue.batch]
  -- a new timer has a number that no callback carries
  have hfresh : ∀ n, s.timed.queue.numCreated < n → ofTimer s.log n = [] := by
    intro n hn
    refine List.filter_eq_nil_iff.2 fun f hf => ?_
    have hle := h.created f hf
    simpa using (Nat.lt_of_le_of_lt hle hn).ne
  refine ⟨hrun, ?_, ?_, ?_, ?_, ?_, ?_, ?_, ?_⟩
  · rw [hq.now]
    exact h.read.trans hforward
  · rw [hq.expired, hq.now]
    exact h.batched
  · rw [hlog, hq.now]
    exact h.early
  · rw [hlog]
    exact h.times
  · rw [hlog]
    exact fun f hf => (h.created f hf).trans hq.numCreated
  · rw [hlog]
    exact h.spaced
  · rw [hbatch, hq.toRun, hq.now, hlog]
    intro a t ht hin hout
    rcases hq.heap a t ht with hold | ⟨hnone, -⟩
    · exact h.done a t hold hin hout
    · -- the timers of the batch are alive
      obtain ⟨e, he, rfl⟩ := List.mem_map.1 hin
      obtain ⟨u, hu, -⟩ := h.run.owned.batched e he
      rw [hnone] at hu
      cases hu
  · rw [hbatch, hq.toRun, hlog]
    intro a t f ht hin hlast
    rcases hq.heap a t ht with hold | ⟨-, hnew⟩
    · exact h.waiting a t f hold hin hlast
    · rw [hfresh _ hnew] at hlast
      cases hlast

theorem Inv.handleRead (h : s.Inv) (hidle : s.timed.queue.callingExpiredTimers_ = false)
    {now : Timestamp} (hnow : s.timed.queue.now ≤ now) (hclock : now ≤ s'.timed.clock)
    (hrun : s'.timed.queue.RunInv) (hs : s.timed.queue.handleRead now = some s'.timed.queue)
    (hlog : s'.log = s.log) : s'.Inv := by
  have heq := handleRead_eq h.run hidle hs
  have hexpired := (h.run.idle hidle).1
  have hbatch : s.timed.queue.batch = [] := by
    rw [TimerQueue.batch, hexpired, List.map_nil]
  refine ⟨hrun, ?_, ?_, ?_, ?_, ?_, ?_, ?_, ?_⟩
  · rw [heq]
    exact hclock
  · rw [heq]
    exact fun e he => ((h.run.owned.splitAt now).expired_iff e).1 he |>.2
  · rw [hlog, heq]
    exact fun f hf => ⟨(h.early f hf).1, (h.early f hf).2.trans hnow⟩
  · rw [hlog]
    exact h.times
  · rw [hlog, heq]
    exact h.created
  · rw [hlog]
    exact h.spaced
  · -- nobody has had his turn
    rw [heq]
    exact fun a t _ hin hout => absurd hin hout
  · rw [hlog]
    intro a t f ht _ hlast
    rw [heq] at ht
    exact h.waiting a t f ht (by simp [hbatch]) hlast

/-- A callback runs: it is recorded as the last one of its timer. -/
theorem Inv.runNext (h : s.Inv) {e : Entry} {es : List Entry} {t : Timer S}
    (htoRun : s.timed.queue.toRun = e :: es) (ht : s.timed.queue.heap e.timer = some t)
    (hs : s'.timed.queue = { s.timed.queue with
      toRun := es, ran := s.timed.queue.ran ++ [(t.sequence_, t.repeat_)] })
    (hrun : s'.timed.queue.RunInv) (hforward : s.timed.clock ≤ s'.timed.clock)
    (hlog : s'.log = s.log ++ [⟨t.sequence_, t.expiration_, t.interval_, s.timed.queue.now⟩]) :
    s'.Inv := by
  have hsuffix : e :: es <:+ s.timed.queue.expired := htoRun ▸ h.run.suffix
  have hmem : e ∈ s.timed.queue.expired := hsuffix.subset List.mem_cons_self
  have hin : e.timer ∈ s.timed.queue.batch := List.mem_map_of_mem hmem
  have hnodup : (s.timed.queue.toRun.map Entry.timer).Nodup := by
    rw [htoRun]
    exact h.run.owned.batch_nodup.sublist (hsuffix.map Entry.timer).sublist
  rw [htoRun, List.map_cons, List.nodup_cons] at hnodup
  have hdue : t.expiration_ = e.when := by
    obtain ⟨u, hu, hwhen, -⟩ := h.run.owned.batched e hmem
    obtain rfl : t = u := Option.some.inj (ht.symm.trans hu)
    exact hwhen
  -- the record of every other timer is as it was
  have hother : ∀ a u, s.timed.queue.heap a = some u → a ≠ e.timer →
      ofTimer s'.log u.sequence_ = ofTimer s.log u.sequence_ := by
    intro a u hu hne
    rw [hlog, ofTimer_concat, if_neg]
    exact fun heq => hne (h.run.owned.unique a e.timer u t hu ht heq.symm)
  have hown : ofTimer s'.log t.sequence_ = ofTimer s.log t.sequence_ ++
      [⟨t.sequence_, t.expiration_, t.interval_, s.timed.queue.now⟩] := by
    rw [hlog, ofTimer_concat, if_pos rfl]
  refine ⟨hrun, ?_, ?_, ?_, ?_, ?_, ?_, ?_, ?_⟩
  · rw [hs]
    exact h.read.trans hforward
  · rw [hs]
    exact h.batched
  · rw [hlog, hs]
    intro f hf
    rcases List.mem_append.1 hf with hold | hnew
    · exact h.early f hold
    · cases List.mem_singleton.1 hnew
      exact ⟨hdue ▸ h.batched e hmem, le_refl _⟩
  · rw [hlog, List.pairwise_append]
    refine ⟨h.times, List.pairwise_singleton _ _, ?_⟩
    intro f hf g hg
    cases List.mem_singleton.1 hg
    exact (h.early f hf).2
  · rw [hlog, hs]
    intro f hf
    rcases List.mem_append.1 hf with hold | hnew
    · exact h.created f hold
    · cases List.mem_singleton.1 hnew
      exact (h.run.owned.bound _ t ht).2
  · intro n
    by_cases hn : t.sequence_ = n
    · subst hn
      rw [hown, List.isChain_append]
      refine ⟨h.spaced _, .singleton _, ?_⟩
      intro f hf g hg
      cases hg
      -- this was not its turn yet, so it has been restarted since
      exact h.waiting e.timer t f ht (fun _ => by simp [htoRun]) hf
    · rw [hlog, ofTimer_concat, if_neg hn]
      exact h.spaced n
  · rw [hs]
    intro a u hu hain haout
    by_cases hae : a = e.timer
    · subst hae
      obtain rfl : t = u := Option.some.inj (ht.symm.trans hu)
      exact ⟨_, by rw [hown, List.getLast?_concat], rfl, rfl⟩
    · rw [hother a u hu hae]
      refine h.done a u hu hain ?_
      rw [htoRun]
      simpa [hae] using haout
  · rw [hs]
    intro a u f hu hain hlast
    have hae : a ≠ e.timer := by
      rintro rfl
      exact hnodup.1 (hain hin)
    rw [hother a u hu hae] at hlast
    refine h.waiting a u f hu (fun hb => ?_) hlast
    rw [htoRun]
    exact List.mem_cons_of_mem _ (hain hb)

theorem Inv.finish (h : s.Inv) (htoRun : s.timed.queue.toRun = [])
    (hq : s.timed.queue.Finished s'.timed.queue) (hrun : s'.timed.queue.RunInv)
    (hforward : s.timed.clock ≤ s'.timed.clock) (hlog : s'.log = s.log) : s'.Inv := by
  have hbatch : s'.timed.queue.batch = [] := by
    rw [TimerQueue.batch, hq.expired, List.map_nil]
  refine ⟨hrun, ?_, ?_, ?_, ?_, ?_, ?_, ?_, ?_⟩
  · rw [hq.now]
    exact h.read.trans hforward
  · simp [hq.expired]
  · rw [hlog, hq.now]
    exact h.early
  · rw [hlog]
    exact h.times
  · rw [hlog, hq.numCreated]
    exact h.created
  · rw [hlog]
    exact h.spaced
  · simp [hbatch]
  · rw [hlog]
    intro a t f ht _ hlast
    rw [hq.heap] at ht
    by_cases ha : a ∈ s.timed.queue.batch
    · -- restarted at the time of the batch, in which its callback has run
      rw [if_pos ha] at ht
      obtain ⟨u, hu, hrest⟩ := Option.bind_eq_some_iff.1 ht
      obtain ⟨hrep, heq⟩ := Option.ite_none_right_eq_some.1 hrest
      cases heq
      have hseq : (u.restart s.timed.queue.now).sequence_ = u.sequence_ := by
        simp [Timer.restart, hrep.1]
      obtain ⟨g, hg, htime, hinterval⟩ := h.done a u hu ha (by simp [htoRun])
      rw [hseq, hg, Option.some.injEq] at hlast
      subst hlast
      simp [Timer.restart, hrep.1, htime, hinterval]
    · rw [if_neg ha] at ht
      exact h.waiting a t f ht (fun hb => absurd hb ha) hlast

theorem log_eq {a : TimerAction S} (hs : (firingRuns S).step s a s')
    (hnone : s.timed.queue.firing a = none) : s'.log = s.log := by
  have hlog := hs.2
  rw [hnone] at hlog
  simpa using hlog

/-- The four kinds of steps. -/
inductive StepKind (s s' : Firings S) (a : TimerAction S) : Prop where
  | quiet (hq : s.timed.queue.Quiet a s'.timed.queue) (hlog : s'.log = s.log)
  | handleRead (now : Timestamp) (hidle : s.timed.queue.callingExpiredTimers_ = false)
      (hnow : s.timed.clock ≤ now) (hclock : s'.timed.clock = now)
      (hq : s.timed.queue.handleRead now = some s'.timed.queue) (hlog : s'.log = s.log)
  | runNext (e : Entry) (es : List Entry) (t : Timer S) (htoRun : s.timed.queue.toRun = e :: es)
      (ht : s.timed.queue.heap e.timer = some t)
      (hq : s'.timed.queue = { s.timed.queue with
        toRun := es, ran := s.timed.queue.ran ++ [(t.sequence_, t.repeat_)] })
      (hlog : s'.log = s.log ++ [⟨t.sequence_, t.expiration_, t.interval_, s.timed.queue.now⟩])
  | finish (clock : Timestamp) (htoRun : s.timed.queue.toRun = [])
      (hs : s.timed.queue.finish clock = some s'.timed.queue)
      (hq : s.timed.queue.Finished s'.timed.queue) (hlog : s'.log = s.log)

theorem stepKind (hinv : s.timed.queue.RunInv) {a : TimerAction S}
    (hs : (firingRuns S).step s a s') : StepKind s s' a := by
  have hkeep := log_eq hs
  obtain ⟨⟨⟨he, hperform⟩, hforward, hclock⟩, hlog⟩ := hs
  cases a with
  | newTimer a when interval =>
      have hfree : s.timed.queue.heap a = none := by
        simp only [enabled, Bool.and_eq_true, Option.isNone_iff_eq_none] at he
        exact he.1
      have hq := quiet_newTimer s.timed.queue hfree when interval
      rw [Option.some.inj hperform] at hq
      exact .quiet hq (hkeep rfl)
  | addTimerInLoop a clock =>
      exact .quiet (quiet_addTimerInLoop hinv (of_decide_eq_true he) hperform) (hkeep rfl)
  | cancelInLoop id => exact .quiet (quiet_cancelInLoop hinv hperform) (hkeep rfl)
  | handleRead now =>
      have hnow := hclock now rfl
      exact .handleRead now (by simpa [enabled] using he) (hnow ▸ hforward) hnow hperform (hkeep rfl)
  | runNext =>
      cases htoRun : s.timed.queue.toRun with
      | nil => simp [enabled, htoRun] at he
      | cons e es =>
          simp only [TimerQueue.perform, TimerQueue.runNext, htoRun] at hperform
          obtain ⟨t, ht, heq⟩ := Option.bind_eq_some_iff.1 hperform
          refine .runNext e es t htoRun ht (Option.some.inj heq).symm ?_
          simpa [firing, htoRun, ht] using hlog
  | finish clock =>
      simp only [enabled, Bool.and_eq_true, List.isEmpty_iff] at he
      exact .finish clock he.2 hperform (finished_of_finish hinv he.2 hperform) (hkeep rfl)

/-- The step lemma. -/
theorem Inv.step (h : s.Inv) {a : TimerAction S} (hs : (firingRuns S).step s a s') : s'.Inv := by
  have hrun := h.run.step hs.1.1
  have hforward := hs.1.2.1
  cases stepKind h.run hs with
  | quiet hq hlog => exact h.quiet hq hrun hforward hlog
  | handleRead now hidle hnow hclock hq hlog =>
      exact h.handleRead hidle (h.read.trans hnow) hclock.ge hrun hq hlog
  | runNext e es t htoRun ht hq hlog => exact h.runNext htoRun ht hq hrun hforward hlog
  | finish clock htoRun _ hq hlog => exact h.finish htoRun hq hrun hforward hlog

theorem reachable_inv (h : (firingRuns S).Reachable s) : s.Inv := by
  refine h.invariant (P := Inv) ?_ fun s a s' hs hstep => hs.step hstep
  rintro s ⟨⟨hqueue, hclock⟩, hlog⟩
  refine ⟨hqueue ▸ RunInv.init, ?_, ?_, ?_, ?_, ?_, ?_, ?_, ?_⟩
  · rw [hqueue]
    exact hclock.le
  all_goals simp [hqueue, hlog, ofTimer]

/-- In every run, whatever callbacks add and cancel: no callback runs before its timer is due, the
batches go forward in time, and each callback of a repeating timer is due one interval after the
batch of the one before. -/
theorem never_early (h : (firingRuns S).Reachable s) :
    (∀ f ∈ s.log, f.due ≤ f.time ∧ f.time ≤ s.timed.clock) ∧
      s.log.Pairwise (·.time ≤ ·.time) ∧ ∀ n, (ofTimer s.log n).IsChain Follows := by
  have hinv := reachable_inv h
  exact ⟨fun f hf => ⟨(hinv.early f hf).1, (hinv.early f hf).2.trans hinv.read⟩, hinv.times,
    hinv.spaced⟩

/-! ## In the order of the due times -/

/-- A timer that is added is not due yet. -/
def OnTime (s : Firings S) : TimerAction S → Prop
  | .addTimerInLoop a clock => ∀ t, s.timed.queue.heap a = some t → clock ≤ t.expiration_
  | _ => True

structure Ordered (s : Firings S) : Prop where
  inv : s.Inv
  timers : ∀ e ∈ s.timed.queue.timers_, s.timed.queue.now ≤ e.when
  toRun : s.timed.queue.toRun.Pairwise (·.when ≤ ·.when)
  ahead : ∀ f ∈ s.log, ∀ e ∈ s.timed.queue.toRun, f.due ≤ e.when
  order : s.log.Pairwise (·.due ≤ ·.due)

/-- The step lemma. -/
theorem Ordered.step (h : s.Ordered)
    (hseconds : ∀ t (x : S), Seconds.positive x = true → t ≤ Seconds.addTime t x)
    (hrepeats : s.timed.queue.RepeatsPositive) {a : TimerAction S} (honTime : OnTime s a)
    (hs : (firingRuns S).step s a s') : s'.Ordered := by
  have hinv := h.inv.step hs
  cases stepKind h.inv.run hs with
  | quiet hq hlog =>
      refine ⟨hinv, ?_, by rw [hq.toRun]; exact h.toRun, by rw [hlog, hq.toRun]; exact h.ahead,
        by rw [hlog]; exact h.order⟩
      rw [hq.now]
      intro e he
      rcases hq.timers e he with hold | ⟨b, clock, t, rfl, ht, rfl⟩
      · exact h.timers e hold
      · have hclock := hs.1.2.2 clock rfl
        calc s.timed.queue.now
            ≤ s.timed.clock := h.inv.read
          _ ≤ s'.timed.clock := hs.1.2.1
          _ = clock := hclock
          _ ≤ t.expiration_ := honTime t ht
  | handleRead now hidle hnow hclock hq hlog =>
      have hsplit := h.inv.run.owned.splitAt now
      have heq := handleRead_eq h.inv.run hidle hq
      refine ⟨hinv, ?_, ?_, ?_, by rw [hlog]; exact h.order⟩
      · rw [heq]
        exact fun e he => ((hsplit.kept_iff e).1 he).2.le
      · rw [heq]
        exact hsplit.ordered
      · rw [heq, hlog]
        intro f hf e he
        calc f.due
            ≤ f.time := (h.inv.early f hf).1
          _ ≤ s.timed.queue.now := (h.inv.early f hf).2
          _ ≤ e.when := h.timers e ((hsplit.expired_iff e).1 he).1
  | runNext e es t htoRun ht hq hlog =>
      have hsorted := h.toRun
      have hahead := h.ahead
      rw [htoRun] at hsorted hahead
      have hdue : t.expiration_ = e.when := by
        have hmem : e ∈ s.timed.queue.expired :=
          (htoRun ▸ h.inv.run.suffix).subset List.mem_cons_self
        obtain ⟨u, hu, hwhen, -⟩ := h.inv.run.owned.batched e hmem
        obtain rfl : t = u := Option.some.inj (ht.symm.trans hu)
        exact hwhen
      refine ⟨hinv, by rw [hq]; exact h.timers, by rw [hq]; exact hsorted.of_cons, ?_, ?_⟩
      · rw [hq, hlog]
        intro f hf e' he'
        rcases List.mem_append.1 hf with hold | hnew
        · exact hahead f hold e' (List.mem_cons_of_mem _ he')
        · cases List.mem_singleton.1 hnew
          exact hdue ▸ List.rel_of_pairwise_cons hsorted he'
      · rw [hlog, List.pairwise_append]
        refine ⟨h.order, List.pairwise_singleton _ _, ?_⟩
        intro f hf g hg
        cases List.mem_singleton.1 hg
        exact hdue ▸ hahead f hf e List.mem_cons_self
  | finish clock htoRun hfinish hq hlog =>
      refine ⟨hinv, ?_, by simp [hq.toRun], by simp [hq.toRun], by rw [hlog]; exact h.order⟩
      -- what `reset` puts back is due after the batch
      obtain ⟨q₁, hall, hrearm⟩ := Option.bind_eq_some_iff.1 hfinish
      obtain ⟨fd, heq⟩ := rearm_frame hrearm
      have hreset : ResetTimers { s.timed.queue with callingExpiredTimers_ := false } q₁ :=
        resetTimers_resetAll hrepeats hall
      rw [hq.now, heq]
      intro e he
      rcases hreset.added e he with hold | ⟨interval, hpos, hwhen⟩
      · exact h.timers e hold
      · exact hwhen ▸ hseconds _ interval hpos

theorem timed_reachable (h : (firingRuns S).Reachable s) : (timedRuns S).Reachable s.timed := by
  induction h with
  | init hs => exact .init hs.1
  | step _ hs ih => exact .step ih hs.1

/-- When every timer is added before it is due, the callbacks run in the order in which they are
due, over all batches and through every restart. -/
theorem in_due_order
    (hseconds : ∀ t (x : S), Seconds.positive x = true → t ≤ Seconds.addTime t x)
    (h : ((firingRuns S).restrict OnTime).Reachable s) : s.log.Pairwise (·.due ≤ ·.due) := by
  have hordered : s.Ordered := by
    induction h with
    | init hs =>
        have hinv := reachable_inv (.init hs)
        obtain ⟨⟨hqueue, -⟩, hlog⟩ := hs
        exact ⟨hinv, by simp [hqueue], by simp [hqueue], by simp [hlog], by simp [hlog]⟩
    | step hreach hs ih =>
        have htimed := timed_reachable hreach.of_restrict
        exact ih.step hseconds (Timed.reachable_inv hseconds htimed).repeats hs.1 hs.2
  exact hordered.order

def isOnTime (s : Firings Nat) : TimerAction Nat → Bool
  | .addTimerInLoop a clock => (s.timed.queue.heap a).all fun t => decide (clock ≤ t.expiration_)
  | _ => true

/-- The next state, if the action is possible and adds no timer that is overdue. -/
def next (s : Firings Nat) (a : TimerAction Nat) : Option (Firings Nat) :=
  if s.isOnTime a = true then
    (s.timed.next a).map fun timed => ⟨timed, s.log ++ (s.timed.queue.firing a).toList⟩
  else none

theorem step_of_next {s s' : Firings Nat} {a : TimerAction Nat} (h : s.next a = some s') :
    OnTime s a ∧ (firingRuns Nat).step s a s' := by
  obtain ⟨honTime, h⟩ := Option.ite_none_right_eq_some.1 h
  obtain ⟨timed, htimed, rfl⟩ := Option.map_eq_some_iff.1 h
  refine ⟨?_, Timed.step_of_next htimed, rfl⟩
  cases a with
  | addTimerInLoop a clock =>
      intro t ht
      simpa [isOnTime, ht] using honTime
  | newTimer | cancelInLoop | handleRead | runNext | finish => trivial

/-- A timer of one second and a one-shot timer run in one batch; a third timer is added behind it,
and runs in the next batch, which comes late, before the second turn of the first. -/
def lateBatch : List (TimerAction Nat) :=
  [.newTimer 8 50 1, .addTimerInLoop 8 10, .newTimer 16 60 0, .addTimerInLoop 16 10,
    .handleRead 100, .runNext, .runNext, .finish 120, .newTimer 24 500 0, .addTimerInLoop 24 130,
    .handleRead 1000200, .runNext, .runNext, .finish 1000300]

theorem lateBatch_run : ∃ s, System.runAll next ⟨⟨{}, 1⟩, []⟩ lateBatch = some s ∧
    s.log = [⟨1, 50, 1, 100⟩, ⟨2, 60, 0, 100⟩, ⟨3, 500, 0, 1000200⟩, ⟨1, 1000100, 1, 1000200⟩] := by
  have hrun : (System.runAll next ⟨⟨{}, 1⟩, []⟩ lateBatch).map (·.log) =
      some [⟨1, 50, 1, 100⟩, ⟨2, 60, 0, 100⟩, ⟨3, 500, 0, 1000200⟩, ⟨1, 1000100, 1, 1000200⟩] := by
    decide +kernel
  exact Option.map_eq_some_iff.1 hrun

theorem reachable_of_next {as : List (TimerAction Nat)} {s : Firings Nat}
    (h : System.runAll next ⟨⟨{}, 1⟩, []⟩ as = some s) :
    ((firingRuns Nat).restrict OnTime).Reachable s := by
  refine .of_runAll (fun _ _ _ => step_of_next) (.init ?_) h
  exact ⟨⟨rfl, by decide⟩, rfl⟩

theorem never_early_lateBatch :
    ∃ s, System.runAll next ⟨⟨{}, 1⟩, []⟩ lateBatch = some s ∧
      (ofTimer s.log 1).length = 2 ∧ (ofTimer s.log 1).IsChain Follows := by
  obtain ⟨s, hs, hlog⟩ := lateBatch_run
  refine ⟨s, hs, by rw [hlog]; rfl, ?_⟩
  exact (never_early (reachable_of_next hs).of_restrict).2.2 1

theorem in_due_order_lateBatch :
    ∃ s, System.runAll next ⟨⟨{}, 1⟩, []⟩ lateBatch = some s ∧ s.log.length = 4 ∧
      s.log.Pairwise (·.due ≤ ·.due) := by
  obtain ⟨s, hs, hlog⟩ := lateBatch_run
  have hseconds : ∀ (t : Timestamp) (n : Nat), Seconds.positive n = true →
      t ≤ Seconds.addTime t n := by
    intro t n _
    change t ≤ t + 1000000 * (n : Int)
    exact Int.le_add_of_nonneg_right (Int.mul_nonneg (by decide) (Int.natCast_nonneg n))
  exact ⟨s, hs, by rw [hlog]; rfl, in_due_order hseconds (reachable_of_next hs)⟩

end Firings
end TimerQueue
end Net
end Longky
