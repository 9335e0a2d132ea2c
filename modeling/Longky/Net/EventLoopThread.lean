import Longky.Net.EventLoop

/-!
# EventLoopThread — a loop in a thread of its own, and the requests to quit it

`netLayer/event/eventloop/EventLoopThread.cpp`, and the start of `EventLoop::loop`.

`threadFunc` publishes the address of its loop before it calls `loop.loop()`, which begins with
`quit_ = false`.  `startLoop` returns as soon as the address is there, and whoever gets the loop from
it may ask it to quit.

`quit_kept_iff`: a request is kept when `loop` has cleared `quit_` before, and lost otherwise.
-/

namespace Longky
namespace Net

open Lib

/-- Where `threadFunc` is. -/
inductive ThreadPhase where
  | notStarted
  /-- `EventLoop loop`, and then `callback_(&loop)`. -/
  | initialising
  /-- `loop_` is set, and `loop.loop()` has not come to `quit_ = false`. -/
  | published
  /-- In the loop of `EventLoop::loop`. -/
  | looping
  | exited
  deriving DecidableEq, Repr

/-- Where the thread is that calls `startLoop`. -/
inductive StarterPhase where
  | notCalled
  /-- `while (loop_ == NULL) cond_.wait()`. -/
  | waiting
  | returned
  deriving DecidableEq, Repr

structure EventLoopThread (T F : Type*) where
  /-- `loop_ != NULL`. -/
  loop_ : Bool := false
  thread : ThreadPhase := .notStarted
  starter : StarterPhase := .notCalled
  loop : EventLoop T F := {}
  /-- The polls that have been started. -/
  polls : Nat := 0
  /-- Their number at the first call of `quit` by a thread that `startLoop` has given the loop. -/
  quitAt : Option Nat := none

inductive ThreadAction (T F : Type*) where
  | startLoop
  | startLoopReturns
  /-- What `callback_` may do to the loop. -/
  | callbackQueues (f : F)
  | callbackQuits
  | publish
  /-- `looping_ = true; quit_ = false`. -/
  | enterLoop
  | inLoop (a : LoopAction T F)
  | loopReturns

/-- The calls of other threads. -/
def LoopAction.isCall {T F : Type*} : LoopAction T F → Bool
  | .push _ _ | .quit _ | .write _ => true
  | .enterPoll | .pollReturn _ | .handleRead | .queueInLoop _ | .quitInLoop | .wakeup
  | .callPending | .swap | .runNext | .functorDone | .pendingDone => false

def LoopAction.isQuit {T F : Type*} : LoopAction T F → Bool
  | .quit _ => true
  | _ => false

namespace EventLoopThread

variable {T F : Type*}

/-- `while (!quit_)` lets the next poll begin. -/
def startsPoll (s : EventLoopThread T F) : LoopAction T F → Bool
  | .enterPoll => !s.loop.quit_
  | _ => false

/-- The other threads have the loop from `startLoop`. -/
def enabled (s : EventLoopThread T F) : ThreadAction T F → Prop
  | .startLoop => s.starter = .notCalled
  | .startLoopReturns => s.starter = .waiting ∧ s.loop_ = true
  | .callbackQueues _ => s.thread = .initialising
  | .callbackQuits => s.thread = .initialising
  | .publish => s.thread = .initialising
  | .enterLoop => s.thread = .published
  | .inLoop a => s.loop.enabled a ∧
      if a.isCall = true then s.starter = .returned else s.thread = .looping
  | .loopReturns => s.thread = .looping ∧ s.loop.phase = .stopped

instance [DecidableEq F] (s : EventLoopThread T F) :
    (a : ThreadAction T F) → Decidable (s.enabled a)
  | .startLoop => inferInstanceAs (Decidable (s.starter = .notCalled))
  | .startLoopReturns => inferInstanceAs (Decidable (s.starter = .waiting ∧ s.loop_ = true))
  | .callbackQueues _ | .callbackQuits | .publish =>
      inferInstanceAs (Decidable (s.thread = .initialising))
  | .enterLoop => inferInstanceAs (Decidable (s.thread = .published))
  | .inLoop a => inferInstanceAs (Decidable (s.loop.enabled a ∧
      if a.isCall = true then s.starter = .returned else s.thread = .looping))
  | .loopReturns => inferInstanceAs (Decidable (s.thread = .looping ∧ s.loop.phase = .stopped))

def perform [DecidableEq T] (s : EventLoopThread T F) : ThreadAction T F → EventLoopThread T F
  | .startLoop => { s with starter := .waiting, thread := .initialising }
  | .startLoopReturns => { s with starter := .returned }
  | .callbackQueues f => { s with loop := s.loop.queueInLoop f }
  | .callbackQuits => { s with loop := { s.loop with quit_ := true } }
  | .publish => { s with loop_ := true, thread := .published }
  -- what anybody has written to `quit_` by now is gone
  | .enterLoop => { s with loop := { s.loop with quit_ := false }, thread := .looping }
  | .inLoop a =>
      { s with
        loop := s.loop.perform a
        polls := s.polls + (s.startsPoll a).toNat
        quitAt := if a.isQuit = true then s.quitAt <|> some s.polls else s.quitAt }
  | .loopReturns => { s with loop_ := false, thread := .exited }

/-- The interleavings of `startLoop`, `threadFunc` and the calls of other threads. -/
def runs (T F : Type*) [DecidableEq T] : System (EventLoopThread T F) (ThreadAction T F) where
  init s := s = {}
  step s a s' := s.enabled a ∧ s' = s.perform a

/-! ## Where the threads can be -/

/-- `loop` has cleared `quit_`. -/
def Entered (s : EventLoopThread T F) : Prop := s.thread = .looping ∨ s.thread = .exited

instance (s : EventLoopThread T F) : Decidable s.Entered := inferInstanceAs (Decidable (_ ∨ _))

structure Inv (s : EventLoopThread T F) : Prop where
  published : s.loop_ = true → s.thread = .published ∨ s.thread = .looping
  starter : s.starter = .notCalled ↔ s.thread = .notStarted
  returned : s.starter = .returned → s.thread = .published ∨ s.Entered
  /-- The loop is where its constructor has left it, and nobody else has touched it. -/
  fresh : ¬ s.Entered → s.loop.phase = .top

/-- The thread is there since `startLoop` was called. -/
theorem Inv.called {s : EventLoopThread T F} (h : s.Inv) (hthread : s.thread ≠ .notStarted) :
    ¬ s.starter = .notCalled := fun hcalled => hthread (h.starter.1 hcalled)

theorem inv_init : ({} : EventLoopThread T F).Inv where
  published := by simp
  starter := by simp
  returned := by simp
  fresh _ := rfl

section Steps

variable [DecidableEq T] {s : EventLoopThread T F}

/-- The calls of other threads leave the loop thread where it is. -/
theorem perform_phase {l : EventLoop T F} {a : LoopAction T F} (ha : a.isCall = true) :
    (l.perform a).phase = l.phase := by
  cases a with
  | push t f => rfl
  | quit t => rfl
  | write t => rfl
  | _ => cases ha

theorem Inv.perform (h : s.Inv) {a : ThreadAction T F} (he : s.enabled a) : (s.perform a).Inv := by
  cases a with
  | startLoop =>
      have hthread := h.starter.1 he
      refine ⟨fun hloop => ?_, ?_, ?_, fun _ => h.fresh (by simp [Entered, hthread])⟩
      · have hpublished := h.published hloop
        simp [hthread] at hpublished
      · simp [EventLoopThread.perform]
      · simp [EventLoopThread.perform]
  | startLoopReturns =>
      refine ⟨h.published, ?_, ?_, h.fresh⟩
      · have hstarted : s.thread ≠ .notStarted := fun hne => by
          simp [h.starter.2 hne, enabled] at he
        simpa [EventLoopThread.perform] using hstarted
      · intro _
        -- it waits for `loop_`, which is not set before the thread has published it
        exact (h.published he.2).imp_right .inl
  | callbackQueues f => exact ⟨h.published, h.starter, h.returned, h.fresh⟩
  | callbackQuits => exact ⟨h.published, h.starter, h.returned, h.fresh⟩
  | publish =>
      have hthread : s.thread = .initialising := he
      refine ⟨fun _ => .inl rfl, ?_, fun _ => .inl rfl, fun _ => h.fresh ?_⟩
      · simpa [EventLoopThread.perform] using h.called (by simp [hthread])
      · simp [Entered, hthread]
  | enterLoop =>
      have hthread : s.thread = .published := he
      refine ⟨fun _ => .inr rfl, ?_, fun _ => .inr (.inl rfl), fun hne => absurd (.inl rfl) hne⟩
      simpa [EventLoopThread.perform] using h.called (by simp [hthread])
  | inLoop a =>
      refine ⟨h.published, h.starter, h.returned, fun hne => ?_⟩
      cases hcall : a.isCall with
      | true => exact (perform_phase hcall).trans (h.fresh hne)
      | false =>
          have hlooping := he.2
          rw [hcall] at hlooping
          exact absurd (.inl hlooping) hne
  | loopReturns =>
      refine ⟨by simp [EventLoopThread.perform], ?_, fun _ => .inr (.inr rfl),
        fun hne => absurd (.inr rfl) hne⟩
      simpa [EventLoopThread.perform] using h.called (by simp [he.1])

theorem reachable_inv (h : (runs T F).Reachable s) : s.Inv := by
  refine h.invariant ?_ ?_
  · rintro s rfl
    exact inv_init
  · rintro s a s' hs ⟨he, rfl⟩
    exact hs.perform he

/-! ## A request that is kept -/

/-- The request stands: nothing in the loop withdraws it. -/
def Quitting (s : EventLoopThread T F) : Prop := s.Entered ∧ s.loop.quit_ = true

theorem perform_quit {l : EventLoop T F} (hquit : l.quit_ = true) (a : LoopAction T F) :
    (l.perform a).quit_ = true := by
  cases a with
  | quit t => rfl
  | quitInLoop => rfl
  | _ => exact hquit

theorem Quitting.perform (h : s.Quitting) (hinv : s.Inv) {a : ThreadAction T F}
    (he : s.enabled a) : (s.perform a).Quitting ∧ (s.perform a).polls = s.polls := by
  rcases h with ⟨hentered, hquit⟩
  cases a with
  | startLoop =>
      have hthread := hinv.starter.1 he
      simp [Entered, hthread] at hentered
  | startLoopReturns => exact ⟨⟨hentered, hquit⟩, rfl⟩
  | callbackQueues f => exact ⟨⟨hentered, hquit⟩, rfl⟩
  | callbackQuits => exact ⟨⟨hentered, rfl⟩, rfl⟩
  | publish =>
      have hthread : s.thread = .initialising := he
      simp [Entered, hthread] at hentered
  | enterLoop =>
      have hthread : s.thread = .published := he
      simp [Entered, hthread] at hentered
  | inLoop a =>
      refine ⟨⟨hentered, perform_quit hquit a⟩, ?_⟩
      -- `while (!quit_)` ends the loop before the next poll
      have hnone : s.startsPoll a = false := by
        cases a with
        | enterPoll => simp [startsPoll, hquit]
        | _ => rfl
      simp [EventLoopThread.perform, hnone]
  | loopReturns => exact ⟨⟨.inr rfl, hquit⟩, rfl⟩

/-- No poll begins any more, whatever the threads do. -/
theorem Quitting.polls_eq (h : s.Quitting) (hinv : s.Inv) {s' : EventLoopThread T F}
    (hrun : ((runs T F).startAt s).Reachable s') : s'.polls = s.polls := by
  have hkeep : (s'.Inv ∧ s'.Quitting) ∧ s'.polls = s.polls := by
    refine System.Reachable.invariant (P := fun v => (v.Inv ∧ v.Quitting) ∧ v.polls = s.polls)
      ?_ ?_ hrun
    · rintro _ rfl
      exact ⟨⟨hinv, h⟩, rfl⟩
    · rintro v a v' ⟨⟨hv, hquitting⟩, hpolls⟩ ⟨he, rfl⟩
      have hstep := hquitting.perform hv he
      exact ⟨⟨hv.perform he, hstep.1⟩, hstep.2.trans hpolls⟩
  exact hkeep.2

/-- After this call of `quit` no poll begins. -/
def Keeps (s : EventLoopThread T F) (t : T) : Prop :=
  ∀ s', ((runs T F).startAt (s.perform (.inLoop (.quit t)))).Reachable s' → s'.polls = s.polls

theorem Inv.keeps (h : s.Inv) {t : T} (he : s.enabled (.inLoop (.quit t))) (hentered : s.Entered) :
    s.Keeps t := by
  have hquitting : (s.perform (.inLoop (.quit t))).Quitting := ⟨hentered, rfl⟩
  intro s' hrun
  exact hquitting.polls_eq (h.perform he) hrun

/-- The thread goes on from where it is: it clears the flag, and polls. -/
theorem Inv.entered_of_keeps (h : s.Inv) {t : T} (he : s.enabled (.inLoop (.quit t)))
    (hkeeps : s.Keeps t) : s.Entered := by
  by_contra hne
  -- `startLoop` has returned, so the thread is on its way into `loop`
  have hpublished : s.thread = .published := (h.returned he.2).resolve_right hne
  have htop : s.loop.phase = .top := h.fresh hne
  have henter : (s.perform (.inLoop (.quit t))).enabled .enterLoop := hpublished
  have hfirst : ((runs T F).startAt (s.perform (.inLoop (.quit t)))).Reachable
      ((s.perform (.inLoop (.quit t))).perform .enterLoop) :=
    .step (.init rfl) ⟨henter, rfl⟩
  have hpoll : ((s.perform (.inLoop (.quit t))).perform .enterLoop).enabled (.inLoop .enterPoll) :=
    ⟨htop, rfl⟩
  have hsecond := hkeeps _ (.step hfirst ⟨hpoll, rfl⟩)
  simp [EventLoopThread.perform, startsPoll] at hsecond

end Steps

/-! ## Requests in a run -/

/-- Since the first request no poll has begun. -/
def QuitKept (s : EventLoopThread T F) : Prop := ∀ n ∈ s.quitAt, s.polls = n

/-- `quit` is called when `loop` has cleared the flag. -/
def InTime (s : EventLoopThread T F) (a : ThreadAction T F) : Prop :=
  ∀ t, a = .inLoop (.quit t) → s.Entered

section Runs

variable [DecidableEq T] {s : EventLoopThread T F}

/-- What is to be said of every state of a run: the first request, if it has come, stands. -/
structure KeptInv (s : EventLoopThread T F) : Prop where
  inv : s.Inv
  kept : s.QuitKept
  quitting : s.quitAt.isSome = true → s.Quitting

theorem quitAt_of_not_quit {a : ThreadAction T F} (ha : ∀ t, a ≠ .inLoop (.quit t)) :
    (s.perform a).quitAt = s.quitAt := by
  cases a with
  | inLoop a =>
      cases a with
      | quit t => exact absurd rfl (ha t)
      | _ => rfl
  | _ => rfl

theorem KeptInv.perform (h : s.KeptInv) {a : ThreadAction T F} (he : s.enabled a)
    (hintime : s.InTime a) : (s.perform a).KeptInv := by
  have hinv := h.inv.perform he
  by_cases hquit : ∃ t, a = .inLoop (.quit t)
  · rcases hquit with ⟨t, rfl⟩
    refine ⟨hinv, ?_, fun _ => ⟨hintime t rfl, rfl⟩⟩
    intro n hn
    have hn' : (s.quitAt <|> some s.polls) = some n := hn
    cases hat : s.quitAt with
    | none =>
        rw [hat] at hn'
        cases hn'
        rfl
    | some m =>
        rw [hat] at hn'
        cases hn'
        exact h.kept n hat
  · have hsame := quitAt_of_not_quit (s := s) (a := a) fun t ht => hquit ⟨t, ht⟩
    refine ⟨hinv, ?_, ?_⟩
    · intro n hn
      rw [hsame] at hn
      have hquitting := h.quitting (Option.isSome_of_mem hn)
      exact (hquitting.perform h.inv he).2.trans (h.kept n hn)
    · rw [hsame]
      exact fun hsome => ((h.quitting hsome).perform h.inv he).1

theorem reachable_kept (h : ((runs T F).restrict InTime).Reachable s) : s.KeptInv := by
  refine h.invariant ?_ ?_
  · rintro s rfl
    exact ⟨inv_init, by simp [QuitKept], by simp⟩
  · rintro s a s' hs ⟨hintime, he, rfl⟩
    exact hs.perform he hintime

end Runs

/-- In every run in which `quit` is called in time, no poll begins after the first call; and of the
calls in any run, those in time are the ones after which no poll begins. -/
theorem quit_kept_iff [DecidableEq T] :
    (∀ s : EventLoopThread T F, ((runs T F).restrict InTime).Reachable s → s.QuitKept) ∧
      ∀ s : EventLoopThread T F, (runs T F).Reachable s →
        ∀ t, s.enabled (.inLoop (.quit t)) → (s.Keeps t ↔ s.Entered) := by
  refine ⟨fun s hs => (reachable_kept hs).kept, ?_⟩
  intro s hs t he
  have hinv := reachable_inv hs
  exact ⟨hinv.entered_of_keeps he, hinv.keeps he⟩

/-- The enabled actions, as a partial step function. -/
def next (s : EventLoopThread Nat Nat) (a : ThreadAction Nat Nat) :
    Option (EventLoopThread Nat Nat) :=
  if s.enabled a then some (s.perform a) else none

/-- The starter gets the loop and asks it to quit while the new thread is still on its way from
`threadFunc` into `loop`. -/
def quitEarly : List (ThreadAction Nat Nat) :=
  [.startLoop, .publish, .startLoopReturns, .inLoop (.quit 0), .enterLoop, .inLoop .enterPoll]

theorem quitEarly_lost :
    ∃ s, System.runAll next {} quitEarly = some s ∧ (runs Nat Nat).Reachable s ∧
      s.quitAt = some 0 ∧ s.polls = 1 ∧ ¬ s.QuitKept := by
  obtain ⟨s, hs, hend⟩ : ∃ s, System.runAll next {} quitEarly = some s ∧
      (s.quitAt, s.polls) = (some 0, 1) := by
    rw [← Option.map_eq_some_iff]
    decide +kernel
  have hreach : (runs Nat Nat).Reachable s := by
    refine .of_guarded ?_ (.init rfl) hs
    intro s a he
    exact ⟨he, rfl⟩
  have hat : s.quitAt = some 0 := congrArg Prod.fst hend
  have hpolls : s.polls = 1 := congrArg Prod.snd hend
  refine ⟨s, hs, hreach, hat, hpolls, fun hkept => ?_⟩
  have hzero := hkept 0 hat
  omega

end EventLoopThread
end Net
end Longky
