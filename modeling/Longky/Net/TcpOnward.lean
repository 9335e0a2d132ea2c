import Longky.Net.TcpRuns

/-!
# TcpOnward — what never goes back in a connection

`state_` only moves on, from `kConnecting` to `kDisconnected`, and a message gets into the loop's
queue only by a `send` of another thread.  `Onward` says both, of each function of
`netLayer/tcp/TcpConnection.cpp` and so of every action.
-/

namespace Longky
namespace Net

open Lib

/-- The order in which a connection takes its states. -/
def StateE.rank : StateE → Nat
  | .kConnecting => 0
  | .kConnected => 1
  | .kDisconnecting => 2
  | .kDisconnected => 3

theorem StateE.rank_le_three (s : StateE) : s.rank ≤ StateE.kDisconnected.rank := by
  cases s <;> decide

namespace World

structure Onward (w w' : World) : Prop where
  state : w.state_.rank ≤ w'.state_.rank
  sends : ∀ message, .sendInLoop message ∈ w'.pendingFunctors_ →
    .sendInLoop message ∈ w.pendingFunctors_

namespace Onward

variable {w w' w'' : World}

theorem trans (h : w.Onward w') (h' : w'.Onward w'') : w.Onward w'' where
  state := Nat.le_trans h.state h'.state
  sends message hm := h.sends message (h'.sends message hm)

theorem of_eq (hs : w'.state_ = w.state_) (hp : w'.pendingFunctors_ = w.pendingFunctors_) :
    w.Onward w' where
  state := (congrArg StateE.rank hs).ge
  sends _ hm := hp ▸ hm

theorem refl (w : World) : w.Onward w := of_eq rfl rfl

theorem moved (hs : w.state_.rank ≤ w'.state_.rank)
    (hp : w'.pendingFunctors_ = w.pendingFunctors_) : w.Onward w' where
  state := hs
  sends _ hm := hp ▸ hm

theorem queueInLoop (w : World) {f : Functor} (hf : ∀ message, f ≠ .sendInLoop message) :
    w.Onward (w.queueInLoop f) where
  state := Nat.le_refl _
  sends message hm := by
    rcases List.mem_append.1 hm with hold | hnew
    · exact hold
    · exact absurd (List.mem_singleton.1 hnew).symm (hf message)

end Onward

theorem rank_of_isOpen {w : World} (h : w.isOpen = true) :
    w.state_.rank ≤ StateE.kDisconnecting.rank := by
  cases hs : w.state_ with
  | kDisconnected => simp [isOpen, hs] at h
  | _ => decide

/-! ## The functions -/

theorem onward_queueWriteComplete (w : World) : w.Onward w.queueWriteComplete := by
  unfold queueWriteComplete
  split
  · exact .queueInLoop w (by simp)
  · exact .refl w

theorem onward_appendRemaining (w : World) (data : Bytes) : w.Onward (w.appendRemaining data) := by
  unfold appendRemaining
  dsimp only
  split
  · split
    · split
      · exact (Onward.queueInLoop w (by simp)).trans (.of_eq rfl rfl)
      · exact (Onward.queueInLoop w (by simp)).trans (.of_eq rfl rfl)
    · split
      · exact .of_eq rfl rfl
      · exact .of_eq rfl rfl
  · exact .refl w

theorem onward_sendInLoop (w : World) (data : Bytes) (r : WriteResult) :
    w.Onward (w.sendInLoop data r) := by
  unfold sendInLoop
  split
  · exact .refl w
  · split
    · cases r with
      | room n =>
          have hwrote : w.Onward (w.emit (.wrote (data.take n))) := .of_eq rfl rfl
          dsimp only
          split
          · exact hwrote.trans (onward_queueWriteComplete _)
          · exact hwrote.trans (onward_appendRemaining _ _)
      | fail e =>
          dsimp only
          split
          · exact .of_eq rfl rfl
          · exact onward_appendRemaining _ _
    · exact onward_appendRemaining _ _

theorem onward_closeNow (w : World) : w.Onward w.closeNow :=
  .moved (StateE.rank_le_three _) rfl

theorem onward_handleClose (w : World) : w.Onward w.handleClose := by
  by_cases hopen : w.isOpen = true
  · cases hflag : w.closeFlag_ with
    | true =>
        rw [handleClose_of_closeFlag hopen hflag]
        exact onward_closeNow w
    | false =>
        let w₁ : World :=
          { w with dissByPeer_ := true, closeFlag_ := true, state_ := .kDisconnecting }
        have hset : w.Onward w₁ := .moved (rank_of_isOpen hopen) rfl
        rw [handleClose_of_not_closeFlag hopen hflag]
        dsimp only
        split
        · split
          · exact hset
          · have hshut : w₁.Onward w₁.shutdownWrite := .of_eq rfl rfl
            exact hset.trans (hshut.trans (onward_closeNow _))
        · exact .of_eq rfl rfl
  · rw [handleClose]
    simp only [hopen]
    exact .of_eq rfl rfl

theorem onward_shutdownInLoop (w : World) : w.Onward w.shutdownInLoop := by
  have hshut : w.Onward w.shutdownWrite := .of_eq rfl rfl
  cases hw : w.channel_.isWriting with
  | true =>
      rw [shutdownInLoop_of_writing hw]
      exact .refl w
  | false =>
      rw [shutdownInLoop_of_not_writing hw]
      split
      · exact hshut.trans (onward_handleClose _)
      · exact hshut

theorem onward_shutdown (w : World) (t : Thread) : w.Onward (w.shutdown t) := by
  let w₁ : World := { w with closeFlag_ := true, state_ := .kDisconnecting }
  have hset : w.state_ = .kConnected → w.Onward w₁ := by
    intro hst
    have hrank : w.state_.rank ≤ StateE.kDisconnecting.rank := by
      rw [hst]
      decide
    exact .moved hrank rfl
  cases t with
  | loop =>
      rw [shutdown_loop]
      split
      next hst => exact (hset hst).trans (onward_shutdownInLoop w₁)
      next => exact .refl w
  | other =>
      rw [shutdown_other]
      split
      next hst => exact (hset hst).trans (.queueInLoop w₁ (by simp))
      next => exact .refl w

theorem onward_forceClose (w : World) : w.Onward w.forceClose := by
  unfold forceClose
  split
  next hopen =>
    have hset : w.Onward (w.setState .kDisconnecting) := .moved (rank_of_isOpen hopen) rfl
    exact hset.trans (.queueInLoop _ (by simp))
  next => exact .refl w

theorem onward_forceCloseWithDelay (w : World) : w.Onward w.forceCloseWithDelay := by
  unfold forceCloseWithDelay
  split
  next hopen => exact .moved (rank_of_isOpen hopen) rfl
  next => exact .refl w

theorem onward_forceCloseInLoop (w : World) : w.Onward w.forceCloseInLoop := by
  unfold forceCloseInLoop
  split
  · exact (Onward.of_eq rfl rfl : w.Onward
      { w with closeFlag_ := true, forceFlag_ := true, setSolinger_ := true }).trans
      (onward_handleClose _)
  · exact .refl w

/-- Switching an event on or off. -/
theorem onward_interest (w : World) : w.Onward w.startReadInLoop ∧ w.Onward w.stopReadInLoop ∧
    w.Onward w.startWriteInLoop ∧ w.Onward w.stopWriteInLoop := by
  unfold startReadInLoop stopReadInLoop startWriteInLoop stopWriteInLoop
  refine ⟨?_, ?_, ?_, ?_⟩
  all_goals
    split
    · exact .of_eq rfl rfl
    · exact .refl w

theorem onward_runInLoop {w : World} {now : World → World} (h : w.Onward (now w)) (t : Thread)
    {f : Functor} (hf : ∀ message, f ≠ .sendInLoop message) : w.Onward (w.runInLoop t f now) := by
  cases t with
  | loop => exact h
  | other => exact .queueInLoop w hf

theorem onward_call (w : World) {t : Thread} {c : Call}
    (hc : t = .other → ∀ message r, c ≠ .send message r) : w.Onward (w.call t c) := by
  obtain ⟨hstartRead, hstopRead, hstartWrite, hstopWrite⟩ := onward_interest w
  cases c with
  | send message r =>
      cases t with
      | other => exact absurd rfl (hc rfl message r)
      | loop =>
          simp only [call, send]
          split
          · exact onward_sendInLoop w message r
          · exact .refl w
  | shutdown => exact onward_shutdown w t
  | forceClose => exact onward_forceClose w
  | forceCloseWithDelay => exact onward_forceCloseWithDelay w
  | startRead => exact onward_runInLoop hstartRead t (by simp)
  | stopRead => exact onward_runInLoop hstopRead t (by simp)
  | startWrite => exact onward_runInLoop hstartWrite t (by simp)
  | stopWrite => exact onward_runInLoop hstopWrite t (by simp)

theorem onward_connectEstablished (w : World) : w.Onward w.connectEstablished := by
  unfold connectEstablished
  split
  next hst => exact .moved (by rw [hst]; exact Nat.zero_le _) rfl
  next => exact .of_eq rfl rfl

theorem onward_removeChannel (w : World) : w.Onward w.removeChannel := by
  unfold removeChannel
  split
  · dsimp only
    split
    · exact .of_eq rfl rfl
    · exact .of_eq rfl rfl
  · exact .of_eq rfl rfl

theorem onward_connectDestroyed (w : World) : w.Onward w.connectDestroyed := by
  unfold connectDestroyed
  split
  · exact .moved (StateE.rank_le_three _) rfl
  · exact onward_removeChannel w

theorem onward_destruct (w : World) : w.Onward w.destruct := by
  unfold destruct
  dsimp only
  split
  · split
    · exact .of_eq rfl rfl
    · exact .of_eq rfl rfl
  · split
    · exact .of_eq rfl rfl
    · exact .of_eq rfl rfl

theorem onward_handleRead (w : World) (r : ReadResult) : w.Onward (w.handleRead r) := by
  cases r with
  | fail => exact .refl w
  | ok data =>
      simp only [handleRead]
      split
      · exact .of_eq rfl rfl
      · exact onward_handleClose w

theorem onward_outputDrained (w : World) : w.Onward w.outputDrained := by
  have hdrained : w.Onward { w with channel_ := w.channel_.disableWriting } := .of_eq rfl rfl
  unfold outputDrained
  dsimp only
  split
  · exact hdrained.trans ((onward_queueWriteComplete _).trans (onward_shutdownInLoop _))
  · exact hdrained.trans (onward_queueWriteComplete _)

theorem onward_handleWrite (w : World) (r : WriteResult) : w.Onward (w.handleWrite r) := by
  unfold handleWrite
  split
  · cases r with
    | fail e => exact .refl w
    | room k =>
        dsimp only
        split
        · have htaken : w.Onward (w.retrieveWritten (min k w.outputBuffer_.readableBytes)
              (Nat.min_le_right _ _)) := .of_eq rfl rfl
          split
          · exact htaken.trans (onward_outputDrained _)
          · exact htaken
        · exact .refl w
  · exact .refl w

theorem onward_handleEventWithGuard (w : World) (revents : Revents) (r : ReadResult)
    (wr : WriteResult) : w.Onward (w.handleEventWithGuard revents r wr) := by
  have hpush : w.Onward (w.push (readWriteCallbacks revents r wr)) := .of_eq rfl rfl
  unfold handleEventWithGuard
  dsimp only [handleError]
  rw [ite_self]
  split
  · exact hpush.trans (onward_handleClose _)
  · exact hpush

theorem onward_runFunctor (w : World) (f : Functor) (wr : WriteResult) :
    w.Onward (w.runFunctor f wr) := by
  obtain ⟨hstartRead, hstopRead, hstartWrite, hstopWrite⟩ := onward_interest w
  cases f with
  | sendInLoop message => exact onward_sendInLoop w message wr
  | shutdownInLoop => exact onward_shutdownInLoop w
  | forceCloseInLoop => exact onward_forceCloseInLoop w
  | startReadInLoop => exact hstartRead
  | stopReadInLoop => exact hstopRead
  | startWriteInLoop => exact hstartWrite
  | stopWriteInLoop => exact hstopWrite
  | writeCompleteCallback | highWaterMarkCallback => exact .of_eq rfl rfl
  | connectDestroyed => exact onward_connectDestroyed w

theorem onward_resume (w : World) (f : Frame) : w.Onward (w.resume f) := by
  cases f with
  | userCode => exact .refl w
  | closeCallback =>
      exact (Onward.of_eq rfl rfl : w.Onward (w.emit .closeCallback)).trans
        (.queueInLoop _ (by simp))
  | removeChannel => exact onward_removeChannel w
  | readCallback r => exact onward_handleRead w r
  | writeCallback r => exact onward_handleWrite w r

/-- The step lemma. -/
theorem perform_onward (w : World) {a : Action}
    (ha : ∀ message r, a ≠ .call .other (.send message r)) : w.Onward (w.perform a) := by
  cases a with
  | connectEstablished => exact onward_connectEstablished w
  | event revents r wr => exact onward_handleEventWithGuard w revents r wr
  | resume =>
      simp only [perform]
      split
      next => exact .refl w
      next f fs hf =>
        have hpop : w.Onward { w with frames := fs } := .of_eq rfl rfl
        exact hpop.trans (onward_resume _ f)
  | call t c =>
      refine onward_call w ?_
      rintro rfl message r rfl
      exact ha message r rfl
  | runFunctor i wr =>
      simp only [perform]
      split
      next => exact .refl w
      next f hf =>
        have htake : w.Onward { w with pendingFunctors_ := w.pendingFunctors_.eraseIdx i } :=
          ⟨Nat.le_refl _, fun message hm => List.mem_of_mem_eraseIdx hm⟩
        exact htake.trans (onward_runFunctor _ f wr)
  | delayedClose =>
      have hfire : w.Onward { w with delayedCloses := w.delayedCloses - 1 } := .of_eq rfl rfl
      exact hfire.trans (onward_forceClose _)
  | destroy => exact onward_destruct w

end World
end Net
end Longky
