import Mathlib.Logic.Function.Basic
import Longky.Lib.Reach

/-!
# EventLoop — the functor queue and its wakeup descriptor

`loop`, `queueInLoop`, `wakeup`, `handleRead`, `doPendingFunctors` and `quit` of
`netLayer/event/eventloop/EventLoop.cpp`.  The loop thread and any number of other threads take
turns; a call of `queueInLoop` is two steps, the push under the lock and the write to the eventfd,
and so is `doPendingFunctors` up to its swap.

* `functor_queue`: functors run in the order they were pushed, none is lost, and the loop never
  goes to sleep on a functor that nobody is going to wake it for.
-/

namespace Longky
namespace Net

open Lib

/-- Where the loop thread is. -/
inductive LoopPhase where
  /-- At `while (!quit_)`. -/
  | top
  /-- In `poller_->poll`. -/
  | polling
  /-- In the loop over `activeChannels_`. -/
  | handling
  /-- `callingPendingFunctors_` is set, the swap is still to be made. -/
  | swapping
  /-- In the loop over the swapped functors, between two of them. -/
  | running
  | inFunctor
  /-- `loop` has returned. -/
  | stopped
  deriving DecidableEq, Repr

/-- Where another thread is: a write to the eventfd is due after a push and after `quit`. -/
inductive CallerPhase where
  | idle
  | pushed
  | quitting
  deriving DecidableEq, Repr

/-- The largest value of an eventfd; a write that would exceed it fails. -/
def eventfdMax : Nat := 0xfffffffffffffffe

structure EventLoop (T F : Type*) where
  phase : LoopPhase := .top
  pendingFunctors_ : List F := []
  /-- What is left of `doPendingFunctors`' own vector. -/
  functors : List F := []
  callingPendingFunctors_ : Bool := false
  quit_ : Bool := false
  /-- The counter behind `wakeupFd_`. -/
  eventfd : Nat := 0
  /-- The wakeup channel is active and its `handleRead` has not been called. -/
  wakeupActive : Bool := false
  /-- The loop thread is in `queueInLoop`, behind the push, with the write to be done. -/
  wakeupDue : Bool := false
  caller : T → CallerPhase := fun _ => .idle
  /-- All functors that have been pushed, and those that have been started. -/
  pushed : List F := []
  ran : List F := []

inductive LoopAction (T F : Type*) where
  | push (t : T) (f : F)
  | quit (t : T)
  | write (t : T)
  | enterPoll
  | pollReturn (wakeupActive : Bool)
  | handleRead
  | queueInLoop (f : F)
  | quitInLoop
  | wakeup
  | callPending
  | swap
  | runNext
  | functorDone
  | pendingDone

namespace EventLoop

variable {T F : Type*}

/-- `pendingFunctors_.push_back(std::move(cb))`. -/
def pushBack (s : EventLoop T F) (f : F) : EventLoop T F :=
  { s with pendingFunctors_ := s.pendingFunctors_ ++ [f], pushed := s.pushed ++ [f] }

/-- `wakeup`: the descriptor does not block, so a full counter stays as it is. -/
def wakeup (s : EventLoop T F) : EventLoop T F :=
  { s with eventfd := if s.eventfd + 1 ≤ eventfdMax then s.eventfd + 1 else s.eventfd }

/-- `queueInLoop` on the loop thread, up to the test of `callingPendingFunctors_`. -/
def queueInLoop (s : EventLoop T F) (f : F) : EventLoop T F :=
  { s.pushBack f with wakeupDue := s.callingPendingFunctors_ }

/-- `handleRead`: a read takes the whole counter, whatever number of writes it stands for. -/
def handleRead (s : EventLoop T F) : EventLoop T F :=
  { s with eventfd := 0, wakeupActive := false }

/-- `functors.swap(pendingFunctors_)`. -/
def swap (s : EventLoop T F) : EventLoop T F :=
  { s with functors := s.pendingFunctors_, pendingFunctors_ := [], phase := .running }

/-- Call the next functor. -/
def runNext (s : EventLoop T F) : EventLoop T F :=
  { s with functors := s.functors.tail, ran := s.ran ++ s.functors.head?.toList, phase := .inFunctor }

/-- When an action can happen.  Event handlers, timer callbacks and functors may queue functors and
quit; the loop thread does nothing else while a write is due. -/
def enabled (s : EventLoop T F) : LoopAction T F → Prop
  | .push t _ => s.caller t = .idle
  | .quit t => s.caller t = .idle
  | .write t => s.caller t ≠ .idle
  | .enterPoll => s.phase = .top
  -- the poller reports the descriptor only when it can be read; it may leave it for the next time
  | .pollReturn wakeupActive => s.phase = .polling ∧ (wakeupActive = true → s.eventfd ≠ 0)
  | .handleRead => s.phase = .handling ∧ s.wakeupActive = true
  | .queueInLoop _ => (s.phase = .handling ∨ s.phase = .inFunctor) ∧ s.wakeupDue = false
  | .quitInLoop => (s.phase = .handling ∨ s.phase = .inFunctor) ∧ s.wakeupDue = false
  | .wakeup => s.wakeupDue = true
  | .callPending => s.phase = .handling ∧ s.wakeupActive = false
  | .swap => s.phase = .swapping
  | .runNext => s.phase = .running ∧ s.functors ≠ []
  | .functorDone => s.phase = .inFunctor ∧ s.wakeupDue = false
  | .pendingDone => s.phase = .running ∧ s.functors = []

instance [DecidableEq F] (s : EventLoop T F) : (a : LoopAction T F) → Decidable (s.enabled a)
  | .push t _ | .quit t => inferInstanceAs (Decidable (s.caller t = .idle))
  | .write t => inferInstanceAs (Decidable (s.caller t ≠ .idle))
  | .enterPoll => inferInstanceAs (Decidable (s.phase = .top))
  | .pollReturn w => inferInstanceAs (Decidable (s.phase = .polling ∧ (w = true → s.eventfd ≠ 0)))
  | .handleRead => inferInstanceAs (Decidable (s.phase = .handling ∧ s.wakeupActive = true))
  | .queueInLoop _ | .quitInLoop =>
      inferInstanceAs (Decidable ((s.phase = .handling ∨ s.phase = .inFunctor) ∧ s.wakeupDue = false))
  | .wakeup => inferInstanceAs (Decidable (s.wakeupDue = true))
  | .callPending => inferInstanceAs (Decidable (s.phase = .handling ∧ s.wakeupActive = false))
  | .swap => inferInstanceAs (Decidable (s.phase = .swapping))
  | .runNext => inferInstanceAs (Decidable (s.phase = .running ∧ s.functors ≠ []))
  | .functorDone => inferInstanceAs (Decidable (s.phase = .inFunctor ∧ s.wakeupDue = false))
  | .pendingDone => inferInstanceAs (Decidable (s.phase = .running ∧ s.functors = []))

def perform [DecidableEq T] (s : EventLoop T F) : LoopAction T F → EventLoop T F
  | .push t f => { s.pushBack f with caller := Function.update s.caller t .pushed }
  | .quit t => { s with quit_ := true, caller := Function.update s.caller t .quitting }
  | .write t => { s.wakeup with caller := Function.update s.caller t .idle }
  | .enterPoll => { s with phase := if s.quit_ then .stopped else .polling }
  | .pollReturn wakeupActive => { s with phase := .handling, wakeupActive := wakeupActive }
  | .handleRead => s.handleRead
  | .queueInLoop f => s.queueInLoop f
  | .quitInLoop => { s with quit_ := true }
  | .wakeup => { s.wakeup with wakeupDue := false }
  | .callPending => { s with phase := .swapping, callingPendingFunctors_ := true }
  | .swap => s.swap
  | .runNext => s.runNext
  | .functorDone => { s with phase := .running }
  | .pendingDone => { s with phase := .top, callingPendingFunctors_ := false }

/-- The runs from the start of `loop`. -/
def runs (T F : Type*) [DecidableEq T] : System (EventLoop T F) (LoopAction T F) where
  init s := s = {}
  step s a s' := s.enabled a ∧ s' = s.perform a

/-! ## The invariant -/

/-- Somebody is going to wake the loop, or has done so. -/
def Awake (s : EventLoop T F) : Prop :=
  s.eventfd ≠ 0 ∨ (∃ t, s.caller t = .pushed) ∨ s.wakeupDue = true

structure Inv (s : EventLoop T F) : Prop where
  order : s.pushed = s.ran ++ s.functors ++ s.pendingFunctors_
  functors : s.phase ≠ .running → s.phase ≠ .inFunctor → s.functors = []
  calling : s.callingPendingFunctors_ = true ↔
    s.phase = .swapping ∨ s.phase = .running ∨ s.phase = .inFunctor
  due : s.wakeupDue = true → s.phase = .inFunctor
  stopped : s.phase = .stopped → s.quit_ = true
  /-- Between the swap and the next poll a pending functor has a wakeup. -/
  awake : s.phase ≠ .handling → s.phase ≠ .swapping → s.pendingFunctors_ ≠ [] → s.Awake

theorem Inv.init : ({} : EventLoop T F).Inv where
  order := rfl
  functors := fun _ _ => rfl
  calling := by simp
  due := by simp
  stopped := by simp
  awake := fun _ _ hne => absurd rfl hne

theorem wakeup_eventfd (s : EventLoop T F) : s.wakeup.eventfd ≠ 0 := by
  simp only [wakeup]
  split
  · exact Nat.succ_ne_zero _
  · unfold eventfdMax at *
    omega

theorem Inv.pushBack {s : EventLoop T F} (h : s.Inv) (f : F) : (s.pushBack f).pushed =
    (s.pushBack f).ran ++ (s.pushBack f).functors ++ (s.pushBack f).pendingFunctors_ := by
  simp [EventLoop.pushBack, h.order]

/-- A write of the loop thread is due only inside a functor. -/
theorem Inv.not_due {s : EventLoop T F} (h : s.Inv) (hphase : s.phase ≠ .inFunctor) :
    s.wakeupDue ≠ true :=
  fun hdue => hphase (h.due hdue)

/-- Outside the pending functors the flag is not set. -/
theorem Inv.not_calling {s : EventLoop T F} (h : s.Inv)
    (hphase : s.phase = .top ∨ s.phase = .polling) :
    s.callingPendingFunctors_ ≠ true := by
  rw [Ne, h.calling]
  rcases hphase with hphase | hphase <;> simp [hphase]

section Steps

variable [DecidableEq T] {s : EventLoop T F}

theorem Inv.push (h : s.Inv) (t : T) (f : F) : (s.perform (.push t f)).Inv :=
  { order := h.pushBack f, functors := h.functors, calling := h.calling, due := h.due,
    stopped := h.stopped
    awake := fun _ _ _ => Or.inr (Or.inl ⟨t, Function.update_self _ _ _⟩) }

theorem Inv.quit (h : s.Inv) {t : T} (hidle : s.caller t = .idle) : (s.perform (.quit t)).Inv := by
  refine { order := h.order, functors := h.functors, calling := h.calling, due := h.due,
           stopped := fun _ => rfl, awake := ?_ }
  intro h₁ h₂ hne
  -- the thread was idle, so it is not the one a wakeup is expected from
  rcases h.awake h₁ h₂ hne with hfd | ⟨u, hu⟩ | hdue
  · exact Or.inl hfd
  · refine Or.inr (Or.inl ⟨u, ?_⟩)
    have hut : u ≠ t := by
      rintro rfl
      rw [hidle] at hu
      cases hu
    simpa [EventLoop.perform, Function.update_of_ne hut] using hu
  · exact Or.inr (Or.inr hdue)

theorem Inv.write (h : s.Inv) (t : T) : (s.perform (.write t)).Inv :=
  { order := h.order, functors := h.functors, calling := h.calling, due := h.due
    stopped := h.stopped
    awake := fun _ _ _ => Or.inl s.wakeup_eventfd }

theorem Inv.enterPoll (h : s.Inv) (hphase : s.phase = .top) : (s.perform .enterPoll).Inv := by
  have hcalling := h.not_calling (.inl hphase)
  refine { order := h.order, functors := ?_, calling := ?_, due := ?_, stopped := ?_, awake := ?_ }
  · intro _ _
    exact h.functors (by simp [hphase]) (by simp [hphase])
  · simp only [EventLoop.perform]
    split <;> simpa using hcalling
  · exact fun hdue => absurd hdue (h.not_due (by simp [hphase]))
  · intro hstop
    simpa [EventLoop.perform] using hstop
  · intro _ _ hne
    exact h.awake (by simp [hphase]) (by simp [hphase]) hne

theorem Inv.pollReturn (h : s.Inv) (hphase : s.phase = .polling) (wakeupActive : Bool) :
    (s.perform (.pollReturn wakeupActive)).Inv := by
  have hcalling := h.not_calling (.inr hphase)
  refine { order := h.order, functors := ?_, calling := ?_, due := ?_, stopped := nofun,
           awake := fun hne => absurd rfl hne }
  · intro _ _
    exact h.functors (by simp [hphase]) (by simp [hphase])
  · simpa [EventLoop.perform] using hcalling
  · exact fun hdue => absurd hdue (h.not_due (by simp [hphase]))

theorem Inv.queueInLoop (h : s.Inv) (hphase : s.phase = .handling ∨ s.phase = .inFunctor) (f : F) :
    (s.perform (.queueInLoop f)).Inv := by
  refine { order := h.pushBack f, functors := h.functors, calling := h.calling, due := ?_,
           stopped := h.stopped, awake := ?_ }
  · intro hdue
    have hcalling : s.callingPendingFunctors_ = true := hdue
    rcases hphase with hphase | hphase
    · rw [h.calling, hphase] at hcalling
      simp at hcalling
    · exact hphase
  · intro hhandling _ _
    -- in a functor `callingPendingFunctors_` is set, so the write follows
    have hin : s.phase = .inFunctor := hphase.resolve_left hhandling
    exact Or.inr (Or.inr (h.calling.2 (Or.inr (Or.inr hin))))

theorem Inv.callPending (h : s.Inv) (hphase : s.phase = .handling) :
    (s.perform .callPending).Inv := by
  refine { order := h.order, functors := ?_, calling := ?_, due := ?_, stopped := nofun,
           awake := fun _ hne => absurd rfl hne }
  · intro _ _
    exact h.functors (by simp [hphase]) (by simp [hphase])
  · simp [EventLoop.perform]
  · exact fun hdue => absurd hdue (h.not_due (by simp [hphase]))

theorem Inv.swap (h : s.Inv) (hphase : s.phase = .swapping) : (s.perform .swap).Inv := by
  have hnil : s.functors = [] := h.functors (by simp [hphase]) (by simp [hphase])
  refine { order := ?_, functors := fun hne => absurd rfl hne, calling := ?_, due := ?_,
           stopped := nofun, awake := fun _ _ hne => absurd rfl hne }
  · simp [EventLoop.perform, EventLoop.swap, h.order, hnil]
  · simpa [EventLoop.perform, EventLoop.swap, hphase] using h.calling
  · exact fun hdue => absurd hdue (h.not_due (by simp [hphase]))

theorem Inv.runNext (h : s.Inv) (hphase : s.phase = .running) (hne : s.functors ≠ []) :
    (s.perform .runNext).Inv := by
  rcases List.exists_cons_of_ne_nil hne with ⟨f, fs, hfs⟩
  refine { order := ?_, functors := fun _ hne => absurd rfl hne, calling := ?_,
           due := fun _ => rfl, stopped := nofun, awake := ?_ }
  · simp [EventLoop.perform, EventLoop.runNext, h.order, hfs]
  · simpa [EventLoop.perform, EventLoop.runNext, hphase] using h.calling
  · intro _ _ hpending
    exact h.awake (by simp [hphase]) (by simp [hphase]) hpending

theorem Inv.functorDone (h : s.Inv) (hphase : s.phase = .inFunctor) (hdue : s.wakeupDue = false) :
    (s.perform .functorDone).Inv := by
  refine { order := h.order, functors := fun hne => absurd rfl hne, calling := ?_, due := ?_,
           stopped := nofun, awake := ?_ }
  · simpa [EventLoop.perform, hphase] using h.calling
  · exact fun hd => absurd hd (by simp [EventLoop.perform, hdue])
  · intro _ _ hpending
    exact h.awake (by simp [hphase]) (by simp [hphase]) hpending

theorem Inv.pendingDone (h : s.Inv) (hphase : s.phase = .running) (hnil : s.functors = []) :
    (s.perform .pendingDone).Inv := by
  refine { order := h.order, functors := fun _ _ => hnil, calling := ?_, due := ?_,
           stopped := nofun, awake := ?_ }
  · simp [EventLoop.perform]
  · exact fun hdue => absurd hdue (h.not_due (by simp [hphase]))
  · intro _ _ hpending
    exact h.awake (by simp [hphase]) (by simp [hphase]) hpending

/-- The step lemma. -/
theorem Inv.perform (h : s.Inv) {a : LoopAction T F} (he : s.enabled a) : (s.perform a).Inv := by
  cases a with
  | push t f => exact h.push t f
  | quit t => exact h.quit he
  | write t => exact h.write t
  | enterPoll => exact h.enterPoll he
  | pollReturn wakeupActive => exact h.pollReturn he.1 wakeupActive
  | handleRead =>
      -- the read may take wakeups away, but the swap is still to come
      exact { order := h.order, functors := h.functors, calling := h.calling, due := h.due,
              stopped := h.stopped, awake := fun hne => absurd he.1 hne }
  | queueInLoop f => exact h.queueInLoop he.1 f
  | quitInLoop =>
      exact { order := h.order, functors := h.functors, calling := h.calling, due := h.due,
              stopped := fun _ => rfl, awake := h.awake }
  | wakeup =>
      exact { order := h.order, functors := h.functors, calling := h.calling, due := nofun,
              stopped := h.stopped, awake := fun _ _ _ => Or.inl s.wakeup_eventfd }
  | callPending => exact h.callPending he.1
  | swap => exact h.swap he
  | runNext => exact h.runNext he.1 he.2
  | functorDone => exact h.functorDone he.1 he.2
  | pendingDone => exact h.pendingDone he.1 he.2

end Steps

theorem reachable_inv [DecidableEq T] {s : EventLoop T F} (h : (runs T F).Reachable s) : s.Inv := by
  refine h.invariant ?_ ?_
  · rintro s rfl
    exact Inv.init
  · rintro s a s' hs ⟨he, rfl⟩
    exact hs.perform he

/-! ## The queue is worked off -/

section Drain

variable [DecidableEq T] {s : EventLoop T F}

/-- What the loop thread has left to do, when nobody queues anything else, leads to the state `s'`,
where `doPendingFunctors` has returned and `ran` has been run. -/
def DrainsTo (s : EventLoop T F) (ran : List F) : Prop :=
  ∃ s', ((runs T F).startAt s).Reachable s' ∧ s'.Inv ∧ s'.phase = .top ∧ s'.quit_ = s.quit_ ∧
    s'.pushed = s.pushed ∧ s'.ran = ran

theorem DrainsTo.of_step {ran : List F} (a : LoopAction T F) (he : s.enabled a)
    (hpushed : (s.perform a).pushed = s.pushed) (hquit : (s.perform a).quit_ = s.quit_)
    (h : (s.perform a).DrainsTo ran) : s.DrainsTo ran := by
  rcases h with ⟨s', hreach, hinv, htop, hquit', hpushed', hran⟩
  have hstep : ((runs T F).startAt s).Reachable (s.perform a) :=
    .step (.init rfl) (a := a) ⟨he, rfl⟩
  exact ⟨s', hstep.trans hreach, hinv, htop, hquit'.trans hquit, hpushed'.trans hpushed, hran⟩

/-- The loop of `doPendingFunctors` runs all of its vector. -/
theorem Inv.drain_running (h : s.Inv) (hphase : s.phase = .running) :
    s.DrainsTo (s.ran ++ s.functors) := by
  induction hfs : s.functors generalizing s with
  | nil =>
      refine .of_step .pendingDone ⟨hphase, hfs⟩ rfl rfl ?_
      exact ⟨_, .init rfl, h.pendingDone hphase hfs, rfl, rfl, rfl, by simp [EventLoop.perform]⟩
  | cons f fs ih =>
      have hdue : s.wakeupDue = false := Bool.eq_false_iff.2 (h.not_due (by simp [hphase]))
      have hrun : s.enabled .runNext := ⟨hphase, by simp [hfs]⟩
      have hdone : (s.perform .runNext).enabled .functorDone := ⟨rfl, hdue⟩
      refine .of_step .runNext hrun rfl rfl (.of_step .functorDone hdone rfl rfl ?_)
      have hnext := ih ((h.perform hrun).perform hdone) rfl
        (by simp [EventLoop.perform, EventLoop.runNext, hfs])
      simpa [EventLoop.perform, EventLoop.runNext, hfs] using hnext

theorem Inv.drain_swapping (h : s.Inv) (hphase : s.phase = .swapping) :
    s.DrainsTo s.pushed := by
  refine .of_step .swap hphase rfl rfl ?_
  have hnil : s.functors = [] := h.functors (by simp [hphase]) (by simp [hphase])
  have hnext := (h.swap hphase).drain_running rfl
  simpa [EventLoop.perform, EventLoop.swap, h.order, hnil] using hnext

theorem Inv.drain_handling (h : s.Inv) (hphase : s.phase = .handling) :
    s.DrainsTo s.pushed := by
  have hcall : ∀ s : EventLoop T F, s.Inv → s.phase = .handling → s.wakeupActive = false →
      s.DrainsTo s.pushed := by
    intro s h hphase hactive
    have he : s.enabled .callPending := ⟨hphase, hactive⟩
    exact .of_step .callPending he rfl rfl ((h.perform he).drain_swapping rfl)
  cases hactive : s.wakeupActive with
  | false => exact hcall s h hphase hactive
  | true =>
      have he : s.enabled .handleRead := ⟨hphase, hactive⟩
      exact .of_step .handleRead he rfl rfl (hcall _ (h.perform he) hphase rfl)

theorem Inv.drain_top (h : s.Inv) (hphase : s.phase = .top) (hquit : s.quit_ = false) :
    s.DrainsTo s.pushed := by
  have hpoll : (s.perform .enterPoll).enabled (.pollReturn false) :=
    ⟨by simp [EventLoop.perform, hquit], nofun⟩
  refine .of_step .enterPoll hphase rfl rfl (.of_step (.pollReturn false) hpoll rfl rfl ?_)
  exact ((h.perform (a := .enterPoll) hphase).perform hpoll).drain_handling rfl

/-- From any point of the loop, what has been pushed is run. -/
theorem Inv.drain (h : s.Inv) (hquit : s.quit_ = false) : s.DrainsTo s.pushed := by
  have hrunning : ∀ s : EventLoop T F, s.Inv → s.quit_ = false → s.phase = .running →
      s.DrainsTo s.pushed := by
    intro s h hquit hphase
    -- the rest of this vector, then one more round
    rcases h.drain_running hphase with ⟨s₁, hreach, hinv, htop, hquit₁, hpushed₁, -⟩
    rcases hinv.drain_top htop (hquit₁.trans hquit) with
      ⟨s₂, hreach₂, hinv₂, htop₂, hquit₂, hpushed₂, hran₂⟩
    exact ⟨s₂, hreach.trans hreach₂, hinv₂, htop₂, hquit₂.trans hquit₁, hpushed₂.trans hpushed₁,
      hran₂.trans hpushed₁⟩
  have hfunctor : ∀ s : EventLoop T F, s.Inv → s.quit_ = false → s.phase = .inFunctor →
      s.wakeupDue = false → s.DrainsTo s.pushed := by
    intro s h hquit hphase hdue
    have he : s.enabled .functorDone := ⟨hphase, hdue⟩
    exact .of_step .functorDone he rfl rfl (hrunning _ (h.perform he) hquit rfl)
  cases hphase : s.phase with
  | top => exact h.drain_top hphase hquit
  | polling =>
      have he : s.enabled (.pollReturn false) := ⟨hphase, nofun⟩
      exact .of_step (.pollReturn false) he rfl rfl ((h.perform he).drain_handling rfl)
  | handling => exact h.drain_handling hphase
  | swapping => exact h.drain_swapping hphase
  | running => exact hrunning s h hquit hphase
  | inFunctor =>
      cases hdue : s.wakeupDue with
      | false => exact hfunctor s h hquit hphase hdue
      | true =>
          have he : s.enabled .wakeup := hdue
          exact .of_step .wakeup he rfl rfl (hfunctor _ (h.perform he) hquit hphase rfl)
  | stopped =>
      rw [h.stopped hphase] at hquit
      cases hquit

end Drain

/-- In every run: what was pushed has been run, in that order, or is still to be run, and is run if
the loop goes on; and when the loop is about to sleep on a pending functor, its descriptor can be
read or another thread is about to write to it. -/
theorem functor_queue [DecidableEq T] {s : EventLoop T F} (h : (runs T F).Reachable s) :
    s.pushed = s.ran ++ s.functors ++ s.pendingFunctors_ ∧
      (s.phase = .polling → s.functors = []) ∧
      (s.phase = .polling → s.pendingFunctors_ ≠ [] →
        s.eventfd ≠ 0 ∨ ∃ t, s.caller t = .pushed) ∧
      (s.quit_ = false → ∃ s', ((runs T F).startAt s).Reachable s' ∧ s'.ran = s.pushed) := by
  have hinv := reachable_inv h
  refine ⟨hinv.order, ?_, ?_, ?_⟩
  · intro hphase
    exact hinv.functors (by simp [hphase]) (by simp [hphase])
  · intro hphase hne
    rcases hinv.awake (by simp [hphase]) (by simp [hphase]) hne with hfd | hcaller | hdue
    · exact Or.inl hfd
    · exact Or.inr hcaller
    · have := hinv.due hdue
      rw [hphase] at this
      cases this
  · intro hquit
    rcases hinv.drain hquit with ⟨s', hreach, -, -, -, -, hran⟩
    exact ⟨s', hreach, hran⟩

/-- A thread pushes while the loop handles events; the loop takes the functor before the thread has
written, and the late write only makes it turn once more.  A second functor is pushed while the
first runs. -/
def latePush : List (LoopAction Nat Nat) :=
  [.enterPoll, .pollReturn false, .push 0 7, .callPending, .swap, .runNext, .queueInLoop 8, .wakeup,
    .functorDone, .pendingDone, .write 0, .enterPoll]

/-- The enabled actions, as a partial step function. -/
def latePushNext (s : EventLoop Nat Nat) (a : LoopAction Nat Nat) : Option (EventLoop Nat Nat) :=
  if s.enabled a then some (s.perform a) else none

theorem functor_queue_latePush :
    ∃ s, System.runAll latePushNext {} latePush = some s ∧ s.phase = .polling ∧
      s.pushed = [7, 8] ∧ s.ran = [7] ∧ s.pendingFunctors_ = [8] ∧
      (s.eventfd ≠ 0 ∨ ∃ t, s.caller t = .pushed) := by
  obtain ⟨s, hs, hphase, hpushed, hran, hpending⟩ :
      ∃ s, System.runAll latePushNext {} latePush = some s ∧ s.phase = .polling ∧
        s.pushed = [7, 8] ∧ s.ran = [7] ∧ s.pendingFunctors_ = [8] := by
    have hrun : ((System.runAll latePushNext {} latePush).map fun s => decide (s.phase = .polling ∧
        s.pushed = [7, 8] ∧ s.ran = [7] ∧ s.pendingFunctors_ = [8])) = some true := by
      decide +kernel
    rcases Option.map_eq_some_iff.1 hrun with ⟨s, hs, hall⟩
    exact ⟨s, hs, of_decide_eq_true hall⟩
  have hreach : (runs Nat Nat).Reachable s := by
    refine .of_guarded ?_ (.init rfl) hs
    intro s a he
    exact ⟨he, rfl⟩
  refine ⟨s, hs, hphase, hpushed, hran, hpending, ?_⟩
  exact (functor_queue hreach).2.2.1 hphase (by simp [hpending])

end EventLoop
end Net
end Longky
