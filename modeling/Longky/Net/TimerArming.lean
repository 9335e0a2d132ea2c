import Longky.Net.TimerCancel

/-!
# TimerArming — the alarm of the timer queue

`netLayer/timer/TimerQueue.cpp`.  `timerfd_` is armed when a timer becomes the earliest one, and at
the end of `handleRead`; a cancelled timer leaves its alarm behind.  The clock only moves forward.

The descriptor goes off at `it_value` after it was armed and then again and again, and it is readable
from there on until `readTimerfd`, at the start of `handleRead`, reads it.

The clock of `timerfd_` is `CLOCK_MONOTONIC`, and `Timestamp::now` asks `gettimeofday`.  Here the two
are one clock that nobody sets, and the descriptor is armed at the time at which
`howMuchTimeFromNow` has read it.

`no_timer_stranded`: outside `handleRead` there is always an alarm in time for the earliest timer.
-/

namespace Longky
namespace Net

open Lib OrderedSet

/-- The first expiry after `t` of a descriptor that goes off periodically. -/
def Itimerspec.nextExpiry (fd : Itimerspec) (t : Timestamp) : Timestamp :=
  fd.armedAt + (max 0 ((t - fd.armedAt) / fd.it_value) + 1) * fd.it_value

theorem Itimerspec.nextExpiry_eq {fd : Itimerspec} (hpos : 0 < fd.it_value) {t : Timestamp}
    (h : t < fd.armedAt + fd.it_value) : fd.nextExpiry t = fd.armedAt + fd.it_value := by
  simp only [Timestamp] at *
  have hfirst : (t - fd.armedAt) / fd.it_value < 1 := Int.ediv_lt_of_lt_mul hpos (by omega)
  have hnone : (t - fd.armedAt) / fd.it_value ≤ 0 := Int.lt_add_one_iff.1 hfirst
  rw [nextExpiry, max_eq_left hnone]
  simp only [Timestamp]
  omega

/-- The alarm for an expiration comes no earlier than in 100 microseconds, and else in time. -/
theorem howMuchTimeFromNow_bounds (expiration clock : Timestamp) :
    100 ≤ howMuchTimeFromNow expiration clock ∧
      clock + howMuchTimeFromNow expiration clock ≤ max expiration (clock + 100) := by
  unfold howMuchTimeFromNow
  simp only [Timestamp]
  split <;> omega

/-- The clock reading of an action. -/
def TimerAction.clock {S : Type} : TimerAction S → Option Timestamp
  | .addTimerInLoop _ clock | .handleRead clock | .finish clock => some clock
  | .newTimer _ _ _ | .cancelInLoop _ | .runNext => none

namespace TimerQueue

variable {S : Type}

/-- An expiry has come since the descriptor was read, which `handleRead` did last at `now`. -/
def readable (q : TimerQueue S) (t : Timestamp) : Bool :=
  match q.timerfd_ with
  | none => false
  | some fd => decide (fd.nextExpiry q.now ≤ t)

/-- The first expiry since the descriptor was armed is not behind the last reading, and comes no
later than `when` or 100 microseconds after the arming. -/
def Covers (q : TimerQueue S) (when : Timestamp) : Prop :=
  ∃ fd, q.timerfd_ = some fd ∧ 100 ≤ fd.it_value ∧ q.now < fd.armedAt + fd.it_value ∧
    fd.armedAt + fd.it_value ≤ max when (fd.armedAt + 100)

theorem Covers.mono {q : TimerQueue S} {when later : Timestamp} (h : q.Covers when)
    (hle : when ≤ later) : q.Covers later := by
  rcases h with ⟨fd, hfd, hlow, hnow, hmax⟩
  exact ⟨fd, hfd, hlow, hnow, hmax.trans (max_le_max_right _ hle)⟩

/-- The descriptor and the time of its last reading are the same. -/
theorem Covers.of_eq {q q' : TimerQueue S} {when : Timestamp} (h : q.Covers when)
    (hfd : q'.timerfd_ = q.timerfd_) (hnow : q'.now = q.now) : q'.Covers when := by
  unfold Covers
  rw [hfd, hnow]
  exact h

/-- `resetTimerfd`, at or after the last reading. -/
theorem covers_resetTimerfd (q : TimerQueue S) (expiration : Timestamp) {clock : Timestamp}
    (h : q.now ≤ clock) : (q.resetTimerfd expiration clock).Covers expiration := by
  rcases howMuchTimeFromNow_bounds expiration clock with ⟨hlow, hmax⟩
  refine ⟨⟨clock, howMuchTimeFromNow expiration clock⟩, rfl, hlow, ?_, hmax⟩
  change q.now < clock + howMuchTimeFromNow expiration clock
  simp only [Timestamp] at *
  omega

/-! ## The functions of the queue -/

theorem insert_eq_some {q q' : TimerQueue S} {a : Address} {changed : Bool}
    (h : q.insert a = some (changed, q')) :
    ∃ t, q.heap a = some t ∧ changed = q.earliestChanged t.expiration_ ∧ q' = q.inserted a t := by
  simp only [TimerQueue.insert, Option.bind_eq_bind, Option.bind_eq_some_iff] at h
  rcases h with ⟨-, -, t, ht, -, -, -, -, -, -, heq⟩
  cases heq
  exact ⟨t, ht, rfl, rfl⟩

/-- An entry that does not become the earliest comes after one that was there. -/
theorem not_earliestChanged {q : TimerQueue S} {when : Timestamp}
    (h : q.earliestChanged when = false) : ∃ e ∈ q.timers_, e.when ≤ when := by
  unfold earliestChanged at h
  split at h
  · cases h
  · rename_i e he
    exact ⟨e, mem_of_first? he, by simpa using h⟩

theorem earliestChanged_le {q : TimerQueue S} {when : Timestamp}
    (h : q.earliestChanged when = true) {e : Entry} (he : e ∈ q.timers_) : when ≤ e.when := by
  unfold earliestChanged at h
  split at h
  · rename_i hnone
    exact absurd he (not_mem_of_first?_eq_none hnone e)
  · rename_i f hf
    have hlt : when < f.when := of_decide_eq_true h
    rcases Entry.le_iff.1 (le_of_first? hf he) with hlt' | ⟨heq, -⟩
    · exact (hlt.trans hlt').le
    · exact heq ▸ hlt.le

/-- Every timer has an alarm in time; while callbacks run, only those at or before the epoch need
one, for `reset` arms the descriptor for the others. -/
def Armed (q : TimerQueue S) : Prop :=
  ∀ e ∈ q.timers_, (q.callingExpiredTimers_ = true → e.when ≤ 0) → q.Covers e.when

theorem Armed.addTimerInLoop {q q' : TimerQueue S} (h : q.Armed) {a : Address} {clock : Timestamp}
    (hclock : q.now ≤ clock) (hs : q.addTimerInLoop a clock = some q') : q'.Armed := by
  simp only [TimerQueue.addTimerInLoop, Option.bind_eq_bind, Option.bind_eq_some_iff] at hs
  rcases hs with ⟨⟨changed, q₁⟩, hinsert, u, hu, heq⟩
  rcases insert_eq_some hinsert with ⟨t, ht, hchanged, rfl⟩
  -- `insert` leaves the object as it is
  have htu : t = u := Option.some.inj (ht.symm.trans hu)
  subst htu
  cases hearliest : changed with
  | true =>
      rw [hearliest] at hchanged
      simp only [hearliest, if_true] at heq
      cases heq
      have hcovers := covers_resetTimerfd
        (({ q with toAdd := q.toAdd.erase a }).inserted a t) t.expiration_ hclock
      intro e he _
      rcases Finset.mem_insert.1 he with rfl | hold
      · exact hcovers
      · exact hcovers.mono (earliestChanged_le hchanged.symm hold)
  | false =>
      rw [hearliest] at hchanged
      simp only [hearliest, Bool.false_eq_true, if_false] at heq
      cases heq
      intro e he hcalling
      rcases Finset.mem_insert.1 he with rfl | hold
      · rcases not_earliestChanged hchanged.symm with ⟨f, hf, hle⟩
        have hcovers : q.Covers f.when := h f hf fun hc => hle.trans (hcalling hc)
        exact (hcovers.mono hle).of_eq rfl rfl
      · exact (h e hold hcalling).of_eq rfl rfl

/-- A smaller set of timers, with the same descriptor. -/
theorem Armed.subset {q q' : TimerQueue S} (h : q.Armed) (hsub : q'.timers_ ⊆ q.timers_)
    (hcalling : q'.callingExpiredTimers_ = q.callingExpiredTimers_)
    (hfd : q'.timerfd_ = q.timerfd_) (hnow : q'.now = q.now) : q'.Armed := by
  intro e he hc
  rw [hcalling] at hc
  exact (h e (hsub he) hc).of_eq hfd hnow

theorem Armed.cancelInLoop {q q' : TimerQueue S} (h : q.Armed) (hinv : q.RunInv) {id : ActiveTimer}
    (hs : q.cancelInLoop id = some q') : q'.Armed := by
  rcases hinv.owned.cancelInLoop id with ⟨q₁, heq, -, hcases⟩
  rw [heq, Option.some.injEq] at hs
  subst hs
  rcases hcases with ⟨t, -, -, -, rfl⟩ | ⟨-, rfl⟩
  · exact h.subset (Finset.erase_subset _ _) rfl rfl rfl
  · unfold cancelExpired
    split
    · exact h.subset (Finset.Subset.refl _) rfl rfl rfl
    · exact h

/-- What is left in `timers_` is due later than `now`, and so after the epoch. -/
theorem armed_handleRead {q q' : TimerQueue S} (hinv : q.RunInv)
    (hidle : q.callingExpiredTimers_ = false) {now : Timestamp} (hnow : 0 < now)
    (hs : q.handleRead now = some q') : q'.Armed := by
  have hexpired := hinv.owned.getExpired (hinv.idle hidle).1 now
  simp only [TimerQueue.handleRead, hexpired, Option.bind_eq_bind, Option.bind_some] at hs
  cases hs
  intro e he hc
  have hlate : now < e.when := ((hinv.owned.splitAt now).kept_iff e).1 he |>.2
  exact absurd (hnow.trans hlate) (not_lt.2 (hc rfl))

theorem runNext_frame {q q' : TimerQueue S} (hs : q.runNext = some q') :
    q'.timers_ = q.timers_ ∧ q'.callingExpiredTimers_ = q.callingExpiredTimers_ ∧
      q'.timerfd_ = q.timerfd_ ∧ q'.now = q.now ∧ q'.heap = q.heap := by
  unfold TimerQueue.runNext at hs
  split at hs
  · cases hs
    exact ⟨rfl, rfl, rfl, rfl, rfl⟩
  · rcases Option.bind_eq_some_iff.1 hs with ⟨t, -, heq⟩
    cases heq
    exact ⟨rfl, rfl, rfl, rfl, rfl⟩

/-! ## Reset -/

variable [Seconds S]

/-- The timers that repeat have a positive interval, as `Timer::Timer` has tested. -/
def RepeatsPositive (q : TimerQueue S) : Prop :=
  ∀ a t, q.heap a = some t → t.repeat_ = true → Seconds.positive t.interval_ = true

/-- `reset` keeps the entries that it finds, and those that it adds are restarted timers. -/
structure ResetTimers (q q' : TimerQueue S) : Prop where
  kept : q.timers_ ⊆ q'.timers_
  added : ∀ e ∈ q'.timers_, e ∈ q.timers_ ∨
    ∃ interval : S, Seconds.positive interval = true ∧ e.when = Seconds.addTime q.now interval
  repeats : q'.RepeatsPositive
  timerfd : q'.timerfd_ = q.timerfd_
  now : q'.now = q.now

theorem RepeatsPositive.update {q : TimerQueue S} (h : q.RepeatsPositive) (a : Address)
    {t : Option (Timer S)}
    (ht : ∀ u, t = some u → u.repeat_ = true → Seconds.positive u.interval_ = true) :
    RepeatsPositive { q with heap := Function.update q.heap a t } := by
  intro b u hu hrep
  change Function.update q.heap a t b = some u at hu
  by_cases hba : b = a
  · subst hba
    rw [Function.update_self] at hu
    exact ht u hu hrep
  · rw [Function.update_of_ne hba] at hu
    exact h b u hu hrep

theorem RepeatsPositive.of_heap {q q' : TimerQueue S} (h : q.RepeatsPositive)
    (hheap : q'.heap = q.heap) : q'.RepeatsPositive := by
  unfold RepeatsPositive
  rw [hheap]
  exact h

theorem resetTimers_resetOne {q q' : TimerQueue S} (h : q.RepeatsPositive) {e : Entry}
    (hs : q.resetOne e = some q') : q.ResetTimers q' := by
  rcases Option.bind_eq_some_iff.1 hs with ⟨t, ht, hrest⟩
  split at hrest
  · rename_i hrep
    rcases Option.bind_eq_some_iff.1 hrest with ⟨⟨changed, q₁⟩, hinsert, heq⟩
    cases heq
    rcases insert_eq_some hinsert with ⟨u, hu, -, rfl⟩
    have hself : Function.update q.heap e.timer (some (t.restart q.now)) e.timer = some u := hu
    rw [Function.update_self, Option.some.injEq] at hself
    subst hself
    have hpos := h _ t ht hrep.1
    refine ⟨Finset.subset_insert _ _, ?_, ?_, rfl, rfl⟩
    · intro f hf
      rcases Finset.mem_insert.1 hf with rfl | hold
      · refine .inr ⟨t.interval_, hpos, ?_⟩
        simp [Timer.entry, Timer.restart, hrep.1]
      · exact .inl hold
    · refine h.update e.timer ?_
      intro u hu _
      cases hu
      simpa [Timer.restart, hrep.1] using hpos
  · rcases Option.bind_eq_some_iff.1 hrest with ⟨u, -, heq⟩
    cases heq
    exact ⟨Finset.Subset.refl _, fun f hf => .inl hf, h.update e.timer (by simp), rfl, rfl⟩

theorem resetTimers_resetAll {q q' : TimerQueue S} (h : q.RepeatsPositive) {es : List Entry}
    (hs : q.resetAll es = some q') : q.ResetTimers q' := by
  induction es generalizing q with
  | nil =>
      cases hs
      exact ⟨Finset.Subset.refl _, fun f hf => .inl hf, h, rfl, rfl⟩
  | cons e es ih =>
      rcases Option.bind_eq_some_iff.1 hs with ⟨q₁, hone, hrest⟩
      have hfirst := resetTimers_resetOne (q := { q with expired := es }) h hone
      have hall := ih hfirst.repeats hrest
      refine ⟨hfirst.kept.trans hall.kept, ?_, hall.repeats, hall.timerfd.trans hfirst.timerfd,
        hall.now.trans hfirst.now⟩
      intro f hf
      rcases hall.added f hf with hold | ⟨interval, hpos, hwhen⟩
      · exact hfirst.added f hold
      · exact .inr ⟨interval, hpos, by rw [hwhen, hfirst.now]⟩

/-- The end of `handleRead`: the descriptor is armed for the earliest timer, unless that one is due
at or before the epoch, and such a timer has been added by a callback, which has armed it. -/
theorem Armed.finish {q q' : TimerQueue S} (h : q.Armed) (hinv : q.RunInv)
    (hrepeats : q.RepeatsPositive)
    (hseconds : ∀ t (s : S), Seconds.positive s = true → t ≤ Seconds.addTime t s)
    (hnow : 0 < q.now) {clock : Timestamp} (hclock : q.now ≤ clock)
    (hs : q.finish clock = some q') : q'.Armed := by
  have howned : ({ q with callingExpiredTimers_ := false }).Owned none := { hinv.owned with }
  rcases howned.resetAll rfl with ⟨q₁, hall, howned₁, ⟨heap, timers, active, freed, hq₁⟩, -⟩
  have hreset : ResetTimers { q with callingExpiredTimers_ := false } q₁ :=
    resetTimers_resetAll hrepeats hall
  simp only [TimerQueue.finish, hall, Option.bind_eq_bind, Option.bind_some] at hs
  have hnow₁ : q₁.now = q.now := hreset.now
  -- what `reset` adds is due after `now`
  have hold : ∀ e ∈ q₁.timers_, e.when ≤ 0 → e ∈ q.timers_ := by
    intro e he hepoch
    rcases hreset.added e he with hmem | ⟨interval, hpos, hwhen⟩
    · exact hmem
    · have hlate : q.now ≤ e.when := hwhen ▸ hseconds q.now interval hpos
      exact absurd (hnow.trans_le hlate) (not_lt.2 hepoch)
  unfold rearm at hs
  split at hs
  · rename_i hnone
    cases hs
    intro e he
    exact absurd he (not_mem_of_first?_eq_none hnone e)
  · rename_i f hf
    rcases Option.bind_eq_some_iff.1 hs with ⟨t, ht, heq⟩
    rcases (howned₁.timers f).1 (mem_of_first? hf) with ⟨u, hu, hexpiration, -⟩
    have htu : t = u := Option.some.inj (ht.symm.trans hu)
    subst htu
    have hfirst : ∀ e ∈ q₁.timers_, f.when ≤ e.when := by
      intro e he
      rcases Entry.le_iff.1 (le_of_first? hf he) with hlt | ⟨heq, -⟩
      · exact hlt.le
      · exact heq.le
    split at heq
    · cases heq
      intro e he _
      have hcovers := covers_resetTimerfd q₁ t.expiration_ (hnow₁ ▸ hclock)
      exact hcovers.mono (hexpiration ▸ hfirst e he)
    · rename_i hvalid
      cases heq
      have hepoch : f.when ≤ 0 := by
        rw [← hexpiration]
        simpa [Timestamp.valid] using hvalid
      intro e he _
      have hcovers : q.Covers f.when :=
        h f (hold f (mem_of_first? hf) hepoch) fun _ => hepoch
      exact (hcovers.mono (hfirst e he)).of_eq hreset.timerfd hnow₁

/-! ## Runs with a clock -/

/-- A queue and the last reading of the clock. -/
structure Timed (S : Type) where
  queue : TimerQueue S
  clock : Timestamp

/-- The runs in which the clock, which starts after the epoch, is not set back. -/
def timedRuns (S : Type) [Seconds S] : System (Timed S) (TimerAction S) where
  init s := s.queue = {} ∧ 0 < s.clock
  step s a s' := (runs S).step s.queue a s'.queue ∧ s.clock ≤ s'.clock ∧
    ∀ clock ∈ a.clock, s'.clock = clock

namespace Timed

structure Inv (s : Timed S) : Prop where
  run : s.queue.RunInv
  clock : 0 < s.clock
  read : s.queue.now ≤ s.clock
  calling : s.queue.callingExpiredTimers_ = true → 0 < s.queue.now
  repeats : s.queue.RepeatsPositive
  armed : s.queue.Armed

variable {s s' : Timed S}

/-- A step outside the two ends of `handleRead`. -/
theorem Inv.of_frame (h : s.Inv) (hforward : s.clock ≤ s'.clock) (hrun : s'.queue.RunInv)
    (hnow : s'.queue.now = s.queue.now)
    (hcalling : s'.queue.callingExpiredTimers_ = s.queue.callingExpiredTimers_)
    (hrepeats : s'.queue.RepeatsPositive) (harmed : s'.queue.Armed) : s'.Inv where
  run := hrun
  clock := h.clock.trans_le hforward
  read := hnow ▸ h.read.trans hforward
  calling hc := hnow ▸ h.calling (hcalling ▸ hc)
  repeats := hrepeats
  armed := harmed

theorem Inv.newTimer (h : s.Inv) (hrun : s'.queue.RunInv) (hforward : s.clock ≤ s'.clock)
    {a : Address} {when : Timestamp} {interval : S}
    (hq' : s'.queue = s.queue.newTimer a when interval) : s'.Inv := by
  refine h.of_frame hforward hrun (by rw [hq']; rfl) (by rw [hq']; rfl) ?_ ?_
  · rw [hq']
    -- the constructor tests the interval
    have hnew : ∀ u : Timer S,
        some (Timer.construct when interval (s.queue.numCreated + 1)) = some u →
        u.repeat_ = true → Seconds.positive u.interval_ = true := by
      rintro u hu hrep
      cases hu
      exact hrep
    exact (h.repeats.update a hnew).of_heap rfl
  · rw [hq']
    exact h.armed.subset (Finset.Subset.refl _) rfl rfl rfl

theorem Inv.addTimerInLoop (h : s.Inv) (hrun : s'.queue.RunInv) {a : Address}
    (ha : s.queue.enabled (.addTimerInLoop a s'.clock) = true) (hforward : s.clock ≤ s'.clock)
    (hperform : s.queue.addTimerInLoop a s'.clock = some s'.queue) : s'.Inv := by
  have harmed := h.armed.addTimerInLoop (h.read.trans hforward) hperform
  rcases h.run.owned.addTimerInLoop (of_decide_eq_true ha) s'.clock with ⟨t, fd, -, heq, -⟩
  have hq' := (Option.some.inj (heq.symm.trans hperform)).symm
  refine h.of_frame hforward hrun (by rw [hq']; rfl) (by rw [hq']; rfl) ?_ harmed
  exact h.repeats.of_heap (by rw [hq']; rfl)

theorem Inv.cancelInLoop (h : s.Inv) (hrun : s'.queue.RunInv) (hforward : s.clock ≤ s'.clock)
    {id : ActiveTimer} (hperform : s.queue.cancelInLoop id = some s'.queue) : s'.Inv := by
  have harmed := h.armed.cancelInLoop h.run hperform
  rcases h.run.owned.cancelInLoop id with ⟨q₁, heq, -, hcases⟩
  have hq' : s'.queue = q₁ := (Option.some.inj (heq.symm.trans hperform)).symm
  rcases hcases with ⟨t, -, -, -, hq₁⟩ | ⟨-, hq₁⟩
  · refine h.of_frame hforward hrun (by rw [hq', hq₁]; rfl) (by rw [hq', hq₁]; rfl) ?_ harmed
    rw [hq', hq₁]
    have hnone : ∀ u : Timer S, none = some u → u.repeat_ = true →
        Seconds.positive u.interval_ = true := by simp
    exact (h.repeats.update id.1 hnone).of_heap rfl
  · rcases cancelExpired_frame s.queue id with ⟨canceling, hframe⟩
    refine h.of_frame hforward hrun (by rw [hq', hq₁, hframe]) (by rw [hq', hq₁, hframe]) ?_ harmed
    exact h.repeats.of_heap (by rw [hq', hq₁, hframe])

theorem Inv.handleRead (h : s.Inv) (hrun : s'.queue.RunInv)
    (hidle : s.queue.callingExpiredTimers_ = false) (hforward : s.clock ≤ s'.clock)
    (hperform : s.queue.perform (.handleRead s'.clock) = some s'.queue) : s'.Inv := by
  have hpos : 0 < s'.clock := h.clock.trans_le hforward
  have hexpired := h.run.owned.getExpired (h.run.idle hidle).1 s'.clock
  have harmed := armed_handleRead h.run hidle hpos hperform
  simp only [TimerQueue.perform, TimerQueue.handleRead, hexpired, Option.bind_eq_bind,
    Option.bind_some] at hperform
  have hq' := (Option.some.inj hperform).symm
  refine ⟨hrun, hpos, ?_, ?_, ?_, harmed⟩
  · rw [hq']
  · rw [hq']
    exact fun _ => hpos
  · exact h.repeats.of_heap (by rw [hq']; rfl)

theorem Inv.finish (h : s.Inv) (hrun : s'.queue.RunInv)
    (hseconds : ∀ t (x : S), Seconds.positive x = true → t ≤ Seconds.addTime t x)
    (hcalling : s.queue.callingExpiredTimers_ = true) (hforward : s.clock ≤ s'.clock)
    (hperform : s.queue.perform (.finish s'.clock) = some s'.queue) : s'.Inv := by
  have harmed := h.armed.finish h.run h.repeats hseconds (h.calling hcalling)
    (h.read.trans hforward) hperform
  have howned : ({ s.queue with callingExpiredTimers_ := false }).Owned none :=
    { h.run.owned with }
  rcases howned.resetAll rfl with ⟨q₁, hall, -, ⟨heap, timers, active, freed, hq₁⟩, -⟩
  have hreset : ResetTimers { s.queue with callingExpiredTimers_ := false } q₁ :=
    resetTimers_resetAll h.repeats hall
  simp only [TimerQueue.perform, TimerQueue.finish, hall, Option.bind_eq_bind,
    Option.bind_some] at hperform
  rcases rearm_frame hperform with ⟨fd, hq'⟩
  refine ⟨hrun, h.clock.trans_le hforward, ?_, ?_, ?_, harmed⟩
  · rw [hq']
    exact hreset.now ▸ h.read.trans hforward
  · rw [hq', hq₁]
    intro hc
    cases hc
  · exact hreset.repeats.of_heap (by rw [hq'])

/-- The step. -/
theorem Inv.step (h : s.Inv)
    (hseconds : ∀ t (x : S), Seconds.positive x = true → t ≤ Seconds.addTime t x)
    {a : TimerAction S} (hs : (timedRuns S).step s a s') : s'.Inv := by
  rcases hs with ⟨hstep, hforward, hclock⟩
  have hrun := h.run.step hstep
  rcases hstep with ⟨henabled, hperform⟩
  cases a with
  | newTimer a when interval => exact h.newTimer hrun hforward (Option.some.inj hperform).symm
  | addTimerInLoop a clock =>
      obtain rfl := hclock clock rfl
      exact h.addTimerInLoop hrun henabled hforward hperform
  | cancelInLoop id => exact h.cancelInLoop hrun hforward hperform
  | handleRead now =>
      obtain rfl := hclock now rfl
      exact h.handleRead hrun (by simpa [enabled] using henabled) hforward hperform
  | runNext =>
      rcases runNext_frame hperform with ⟨htimers, hcalling, hfd, hnow, hheap⟩
      exact h.of_frame hforward hrun hnow hcalling (h.repeats.of_heap hheap)
        (h.armed.subset htimers.subset hcalling hfd hnow)
  | finish clock =>
      obtain rfl := hclock clock rfl
      simp only [enabled, Bool.and_eq_true] at henabled
      exact h.finish hrun hseconds henabled.1 hforward hperform

theorem reachable_inv (hseconds : ∀ t (x : S), Seconds.positive x = true → t ≤ Seconds.addTime t x)
    (h : (timedRuns S).Reachable s) : s.Inv := by
  refine System.Reachable.invariant (P := Inv) ?_ ?_ h
  · rintro s ⟨hq, hclock⟩
    refine ⟨hq ▸ RunInv.init, hclock, ?_, ?_, ?_, ?_⟩
    · rw [hq]
      exact hclock.le
    · rw [hq]
      intro hc
      cases hc
    · rw [hq]
      intro a t ht
      cases ht
    · rw [hq]
      intro e he
      simp at he
  · intro s a s' hs hstep
    exact hs.step hseconds hstep

/-- Outside `handleRead` the descriptor is readable, at a time `t`, or goes off after it in time for
the earliest timer. -/
theorem no_timer_stranded
    (hseconds : ∀ t (x : S), Seconds.positive x = true → t ≤ Seconds.addTime t x)
    (h : (timedRuns S).Reachable s) (hidle : s.queue.callingExpiredTimers_ = false) {e : Entry}
    (he : first? s.queue.timers_ = some e) (t : Timestamp) :
    s.queue.readable t = true ∨
      ∃ fd, s.queue.timerfd_ = some fd ∧ fd.nextExpiry t ≤ max e.when (fd.armedAt + 100) := by
  have hinv := reachable_inv hseconds h
  rcases hinv.armed e (mem_of_first? he) (by simp [hidle]) with ⟨fd, hfd, hvalue, hread, hmax⟩
  have hpos : 0 < fd.it_value := lt_of_lt_of_le (by decide) hvalue
  rcases lt_or_ge t (fd.armedAt + fd.it_value) with hbefore | hafter
  · exact .inr ⟨fd, hfd, by rwa [fd.nextExpiry_eq hpos hbefore]⟩
  · refine .inl ?_
    rw [readable, hfd]
    exact decide_eq_true ((fd.nextExpiry_eq hpos hread).symm ▸ hafter)

/-- The next state, if the action is enabled and the clock is not set back. -/
def next (s : Timed Nat) (a : TimerAction Nat) : Option (Timed Nat) :=
  if s.queue.enabled a = true ∧ ∀ clock ∈ a.clock, s.clock ≤ clock then
    (s.queue.perform a).map fun q => ⟨q, a.clock.getD s.clock⟩
  else none

theorem step_of_next {s s' : Timed Nat} {a : TimerAction Nat} (h : s.next a = some s') :
    (timedRuns Nat).step s a s' := by
  unfold next at h
  split at h
  · rename_i ha
    rcases Option.map_eq_some_iff.1 h with ⟨q, hq, rfl⟩
    refine ⟨⟨ha.1, hq⟩, ?_, ?_⟩
    · cases hclock : a.clock with
      | none => exact le_refl _
      | some clock => exact ha.2 clock hclock
    · intro clock hclock
      rw [Option.mem_def.1 hclock]
      rfl
  · cases h

theorem no_timer_stranded_cancellations :
    ∃ s, System.runAll next ⟨{}, 1⟩ cancellations = some s ∧
      (s.queue.readable 400 = true ∨ ∃ fd, s.queue.timerfd_ = some fd ∧
        fd.nextExpiry 400 ≤ max 500 (fd.armedAt + 100)) := by
  obtain ⟨s, hs, hend⟩ : ∃ s, System.runAll next ⟨{}, 1⟩ cancellations = some s ∧
      (s.queue.callingExpiredTimers_, first? s.queue.timers_) = (false, some ⟨500, 32⟩) := by
    rw [← Option.map_eq_some_iff]
    decide +kernel
  have hreach : (timedRuns Nat).Reachable s :=
    .of_runAll (fun _ _ _ => step_of_next) (.init ⟨rfl, by decide⟩) hs
  have hseconds : ∀ (t : Timestamp) (n : Nat), Seconds.positive n = true →
      t ≤ Seconds.addTime t n := by
    intro t n _
    change t ≤ t + 1000000 * (n : Int)
    simp only [Timestamp]
    omega
  exact ⟨s, hs, no_timer_stranded hseconds hreach (congrArg Prod.fst hend)
    (congrArg Prod.snd hend) 400⟩

end Timed
end TimerQueue
end Net
end Longky
