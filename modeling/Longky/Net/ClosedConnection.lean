import Longky.Net.PolledConnection
import Longky.Net.TcpLife

/-!
# ClosedConnection — what registers a closed connection again

`netLayer/tcp/TcpConnection.cpp`.  Closing empties the interest set of the channel, and
`connectDestroyed` takes the channel out of the poller.  The calls and the functors of a connection
can come in any order, before the close and after it.

* `Moves` — no action leaves `kDisconnected`, and only a disconnected connection is removed;
* `unregistered_iff` — along a run a closed connection stays out of the poller as long as each step
  is careful, and no longer.
-/

namespace Longky
namespace Net

open Lib

/-- What the loop thread runs only for a disconnected connection. -/
def Frame.isClosing : Frame → Bool
  | .closeCallback | .removeChannel => true
  | .userCode | .readCallback _ | .writeCallback _ => false

namespace World

/-! ## What every action does to the life of a connection -/

/-- `w'` is no further from the end than `w`; the channel is not removed. -/
structure Moves (w w' : World) : Prop where
  state : w.state_ = .kDisconnected → w'.state_ = .kDisconnected
  removed : w'.channelRemoved = w.channelRemoved
  frames : ∀ f ∈ w'.frames, f.isClosing = true → f ∈ w.frames ∨ w'.state_ = .kDisconnected
  pending : .connectDestroyed ∈ w'.pendingFunctors_ →
    .connectDestroyed ∈ w.pendingFunctors_ ∨ w'.state_ = .kDisconnected

namespace Moves

variable {w w' w'' : World}

theorem refl (w : World) : w.Moves w where
  state := id
  removed := rfl
  frames _ hf _ := Or.inl hf
  pending := Or.inl

theorem trans (h : w.Moves w') (h' : w'.Moves w'') : w.Moves w'' where
  state hst := h'.state (h.state hst)
  removed := h'.removed.trans h.removed
  frames f hf hclosing :=
    (h'.frames f hf hclosing).elim (fun hm => (h.frames f hm hclosing).imp_right h'.state) Or.inr
  pending hp := (h'.pending hp).elim (fun hm => (h.pending hm).imp_right h'.state) Or.inr

/-- A step that ends in `kDisconnected`. -/
theorem of_disconnected (h : w'.state_ = .kDisconnected)
    (hrem : w'.channelRemoved = w.channelRemoved) : w.Moves w' where
  state _ := h
  removed := hrem
  frames _ _ _ := Or.inr h
  pending _ := Or.inr h

/-- A step of a connection that is not yet disconnected, with the same functors and frames. -/
theorem of_ne (h : w.state_ ≠ .kDisconnected) (hrem : w'.channelRemoved = w.channelRemoved)
    (hframes : w'.frames = w.frames) (hpending : w'.pendingFunctors_ = w.pendingFunctors_) :
    w.Moves w' where
  state hst := absurd hst h
  removed := hrem
  frames _ hf _ := Or.inl (hframes ▸ hf)
  pending hp := Or.inl (hpending ▸ hp)

end Moves

theorem moves_emit (w : World) (e : Effect) : w.Moves (w.emit e) :=
  { Moves.refl w with }

theorem moves_channel (w : World) (c : Channel) (rd : Bool) :
    w.Moves { w with channel_ := c, reading_ := rd } :=
  { Moves.refl w with }

theorem moves_buffers (w : World) (c : Channel) (i o : WfBuffer) :
    w.Moves { w with channel_ := c, inputBuffer_ := i, outputBuffer_ := o } :=
  { Moves.refl w with }

theorem moves_queueInLoop (w : World) {f : Functor} (hf : f ≠ .connectDestroyed) :
    w.Moves (w.queueInLoop f) :=
  { Moves.refl w with
    pending := by
      intro hp
      refine Or.inl ?_
      simpa [queueInLoop, hf.symm] using hp }

theorem moves_push (w : World) {fs : List Frame} (hfs : ∀ f ∈ fs, f.isClosing = false) :
    w.Moves (w.push fs) :=
  { Moves.refl w with
    frames := by
      intro f hf hclosing
      rcases List.mem_append.1 hf with hnew | hold
      · rw [hfs f hnew] at hclosing
        cases hclosing
      · exact Or.inl hold }

theorem moves_appendRemaining (w : World) (data : Bytes) : w.Moves (w.appendRemaining data) := by
  unfold appendRemaining
  dsimp only
  split
  · split
    · split
      · exact (moves_queueInLoop w (by simp)).trans (moves_buffers _ _ _ _)
      · exact (moves_queueInLoop w (by simp)).trans (moves_buffers _ _ _ _)
    · split
      · exact moves_buffers w _ _ _
      · exact moves_buffers w _ _ _
  · exact .refl w

theorem moves_queueWriteComplete (w : World) : w.Moves w.queueWriteComplete := by
  unfold queueWriteComplete
  split
  · exact moves_queueInLoop w (by simp)
  · exact .refl w

theorem moves_sendInLoop (w : World) (data : Bytes) (r : WriteResult) :
    w.Moves (w.sendInLoop data r) := by
  unfold sendInLoop
  split
  · exact .refl w
  · split
    · cases r with
      | room n =>
          dsimp only
          split
          · exact (moves_emit w _).trans (moves_queueWriteComplete _)
          · exact (moves_emit w _).trans (moves_appendRemaining _ _)
      | fail e =>
          dsimp only
          split
          · exact moves_emit w _
          · exact moves_appendRemaining w data
    · exact moves_appendRemaining w data

theorem moves_send (w : World) (t : Thread) (message : Bytes) (r : WriteResult) :
    w.Moves (w.send t message r) := by
  unfold send
  split
  · cases t with
    | loop => exact moves_sendInLoop w message r
    | other => exact moves_queueInLoop w (by simp)
  · exact .refl w

theorem moves_closeNow (w : World) : w.Moves w.closeNow := .of_disconnected rfl rfl

theorem moves_handleClose (w : World) : w.Moves w.handleClose := by
  cases hopen : w.isOpen with
  | false =>
      rw [handleClose, if_neg (by simp [hopen])]
      exact moves_emit w _
  | true =>
      cases hflag : w.closeFlag_ with
      | true =>
          rw [handleClose_of_closeFlag hopen hflag]
          exact moves_closeNow w
      | false =>
          rw [handleClose_of_not_closeFlag hopen hflag]
          split
          · rename_i hst
            dsimp only
            split
            · exact .of_ne (by simp [hst]) rfl rfl rfl
            · exact .of_disconnected rfl rfl
          · exact { Moves.refl w with }

theorem moves_shutdownInLoop (w : World) : w.Moves w.shutdownInLoop := by
  cases hwr : w.channel_.isWriting with
  | true =>
      rw [shutdownInLoop_of_writing hwr]
      exact .refl w
  | false =>
      rw [shutdownInLoop_of_not_writing hwr]
      have hwrite : w.Moves w.shutdownWrite := moves_emit w _
      split
      · exact hwrite.trans (moves_handleClose _)
      · exact hwrite

theorem moves_shutdown (w : World) (t : Thread) : w.Moves (w.shutdown t) := by
  cases t with
  | loop =>
      rw [shutdown_loop]
      split
      · rename_i hst
        refine Moves.trans ?_ (moves_shutdownInLoop _)
        exact .of_ne (by simp [hst]) rfl rfl rfl
      · exact .refl w
  | other =>
      rw [shutdown_other]
      split
      · rename_i hst
        refine Moves.trans ?_ (moves_queueInLoop _ (by simp))
        exact .of_ne (by simp [hst]) rfl rfl rfl
      · exact .refl w

theorem moves_forceClose (w : World) : w.Moves w.forceClose := by
  unfold forceClose
  split
  · rename_i hopen
    refine Moves.trans ?_ (moves_queueInLoop _ (by simp))
    exact .of_ne (isOpen_ne_disconnected hopen) rfl rfl rfl
  · exact .refl w

theorem moves_forceCloseWithDelay (w : World) : w.Moves w.forceCloseWithDelay := by
  unfold forceCloseWithDelay
  split
  · rename_i hopen
    exact .of_ne (isOpen_ne_disconnected hopen) rfl rfl rfl
  · exact .refl w

theorem moves_forceCloseInLoop (w : World) : w.Moves w.forceCloseInLoop := by
  unfold forceCloseInLoop
  split
  · rename_i hopen
    refine Moves.trans ?_ (moves_handleClose _)
    exact .of_ne (isOpen_ne_disconnected hopen) rfl rfl rfl
  · exact .refl w

theorem moves_startReadInLoop (w : World) : w.Moves w.startReadInLoop := by
  unfold startReadInLoop
  split
  · exact moves_channel w _ _
  · exact .refl w

theorem moves_stopReadInLoop (w : World) : w.Moves w.stopReadInLoop := by
  unfold stopReadInLoop
  split
  · exact moves_channel w _ _
  · exact .refl w

theorem moves_startWriteInLoop (w : World) : w.Moves w.startWriteInLoop := by
  unfold startWriteInLoop
  split
  · exact moves_channel w _ w.reading_
  · exact .refl w

theorem moves_stopWriteInLoop (w : World) : w.Moves w.stopWriteInLoop := by
  unfold stopWriteInLoop
  split
  · exact moves_channel w _ w.reading_
  · exact .refl w

theorem moves_runInLoop {w : World} {now : World → World} (h : w.Moves (now w)) (t : Thread)
    {f : Functor} (hf : f ≠ .connectDestroyed) : w.Moves (w.runInLoop t f now) := by
  cases t with
  | loop => exact h
  | other => exact moves_queueInLoop w hf

theorem moves_call (w : World) (t : Thread) (c : Call) : w.Moves (w.call t c) := by
  cases c with
  | send message r => exact moves_send w t message r
  | shutdown => exact moves_shutdown w t
  | forceClose => exact moves_forceClose w
  | forceCloseWithDelay => exact moves_forceCloseWithDelay w
  | startRead => exact moves_runInLoop (moves_startReadInLoop w) t (by simp)
  | stopRead => exact moves_runInLoop (moves_stopReadInLoop w) t (by simp)
  | startWrite => exact moves_runInLoop (moves_startWriteInLoop w) t (by simp)
  | stopWrite => exact moves_runInLoop (moves_stopWriteInLoop w) t (by simp)

theorem moves_connectEstablished (w : World) : w.Moves w.connectEstablished := by
  unfold connectEstablished
  split
  · rename_i hst
    refine Moves.trans ?_ (moves_push _ (by simp [Frame.isClosing]))
    exact .of_ne (by simp [hst]) rfl rfl rfl
  · exact moves_emit w _

theorem moves_handleRead (w : World) (r : ReadResult) : w.Moves (w.handleRead r) := by
  cases r with
  | ok data =>
      unfold handleRead
      dsimp only
      split
      · refine (moves_buffers w w.channel_ _ w.outputBuffer_).trans
          ((moves_emit _ _).trans (moves_push _ ?_))
        simp [Frame.isClosing]
      · exact moves_handleClose w
  | fail => exact .refl w

theorem moves_outputDrained (w : World) : w.Moves w.outputDrained := by
  have hwrite := (moves_channel w w.channel_.disableWriting w.reading_).trans
    (moves_queueWriteComplete _)
  unfold outputDrained
  dsimp only
  split
  · exact hwrite.trans (moves_shutdownInLoop _)
  · exact hwrite

theorem moves_handleWrite (w : World) (r : WriteResult) : w.Moves (w.handleWrite r) := by
  unfold handleWrite
  split
  · cases r with
    | room k =>
        have hwritten : ∀ h, w.Moves (w.retrieveWritten (min k w.outputBuffer_.readableBytes) h) :=
          fun h => (moves_buffers w w.channel_ w.inputBuffer_ _).trans (moves_emit _ _)
        dsimp only
        split
        · split
          · exact (hwritten _).trans (moves_outputDrained _)
          · exact hwritten _
        · exact .refl w
    | fail e => exact .refl w
  · exact .refl w

theorem moves_handleEventWithGuard (w : World) (revents : Revents) (r : ReadResult)
    (wr : WriteResult) : w.Moves (w.handleEventWithGuard revents r wr) := by
  have hpush : w.Moves (w.push (readWriteCallbacks revents r wr)) := by
    refine moves_push w ?_
    intro f hf
    have hne := ne_of_mem_readWriteCallbacks hf
    cases f <;> simp_all [Frame.isClosing]
  unfold handleEventWithGuard handleError
  dsimp only
  split <;> split <;> first | exact hpush | exact hpush.trans (moves_handleClose _)

/-- What `runFunctor` does, `connectDestroyed` apart. -/
theorem moves_runFunctor (w : World) {f : Functor} (hf : f ≠ .connectDestroyed) (wr : WriteResult) :
    w.Moves (w.runFunctor f wr) := by
  cases f with
  | sendInLoop message => exact moves_sendInLoop w message wr
  | shutdownInLoop => exact moves_shutdownInLoop w
  | forceCloseInLoop => exact moves_forceCloseInLoop w
  | startReadInLoop => exact moves_startReadInLoop w
  | stopReadInLoop => exact moves_stopReadInLoop w
  | startWriteInLoop => exact moves_startWriteInLoop w
  | stopWriteInLoop => exact moves_stopWriteInLoop w
  | writeCompleteCallback => exact moves_push w (by simp [Frame.isClosing])
  | highWaterMarkCallback len => exact moves_push w (by simp [Frame.isClosing])
  | connectDestroyed => exact absurd rfl hf

/-- What `resume` does, `Channel::remove` apart. -/
theorem moves_resume (w : World) {f : Frame} (hf : f ≠ .removeChannel)
    (hclosing : f.isClosing = true → w.state_ = .kDisconnected) : w.Moves (w.resume f) := by
  cases f with
  | userCode => exact .refl w
  | closeCallback => exact .of_disconnected (hclosing rfl) rfl
  | removeChannel => exact absurd rfl hf
  | readCallback r => exact moves_handleRead w r
  | writeCallback r => exact moves_handleWrite w r

theorem moves_pop {w : World} {f : Frame} {fs : List Frame} (hf : w.frames = f :: fs) :
    w.Moves { w with frames := fs } :=
  { Moves.refl w with
    frames := fun _ hg _ => Or.inl (hf ▸ List.mem_cons_of_mem f hg) }

theorem moves_take (w : World) (i : Nat) :
    w.Moves { w with pendingFunctors_ := w.pendingFunctors_.eraseIdx i } :=
  { Moves.refl w with
    pending := fun hp => Or.inl (List.mem_of_mem_eraseIdx hp) }

theorem moves_destruct (w : World) : w.Moves w.destruct := by
  unfold destruct
  dsimp only
  split <;> split <;> exact { Moves.refl w with }

/-! ## The invariant -/

structure Ended (w : World) : Prop where
  settled : w.Settled
  removed : w.channelRemoved = true → w.state_ = .kDisconnected
  frames : ∀ f ∈ w.frames, f.isClosing = true → w.state_ = .kDisconnected
  pending : .connectDestroyed ∈ w.pendingFunctors_ → w.state_ = .kDisconnected
  detached : w.channelRemoved = true → w.channel_.addedToLoop_ = false

theorem constructed_ended (wc hw : Bool) (mark : Nat) : (constructed wc hw mark).Ended where
  settled := settled_of_ne (by simp [constructed])
  removed := by simp [constructed]
  frames := by simp [constructed]
  pending := by simp [constructed]
  detached := by simp [constructed]

theorem Ended.of_moves {w w' : World} (h : w.Ended) (hm : w.Moves w') (hsettled : w'.Settled)
    (hdetached : w.channelRemoved = true → w'.channel_.addedToLoop_ = false) : w'.Ended where
  settled := hsettled
  removed hrem := by
    rw [hm.removed] at hrem
    exact hm.state (h.removed hrem)
  frames f hf hclosing :=
    (hm.frames f hf hclosing).elim (fun hold => hm.state (h.frames f hold hclosing)) id
  pending hp := (hm.pending hp).elim (fun hold => hm.state (h.pending hold)) id
  detached hrem := by
    rw [hm.removed] at hrem
    exact hdetached hrem

theorem Ended.removeChannel {w : World} (h : w.Ended) (hst : w.state_ = .kDisconnected) :
    w.removeChannel.Ended := by
  have hstate := (removeChannel_state w).trans hst
  refine ⟨h.settled.removeChannel, fun _ => hstate, fun _ _ _ => hstate, fun _ => hstate, ?_⟩
  unfold World.removeChannel
  rw [if_pos (h.settled hst)]
  dsimp only
  split <;> exact fun _ => rfl

theorem Ended.connectDestroyed {w : World} (h : w.Ended)
    (hst : w.state_ = .kConnected ∨ w.state_ = .kDisconnected) : w.connectDestroyed.Ended := by
  unfold World.connectDestroyed
  rcases hst with hst | hst
  · rw [if_pos hst]
    refine h.of_moves (.of_disconnected rfl rfl) (fun _ => rfl) ?_
    intro hrem
    simp [h.removed hrem] at hst
  · rw [if_neg (by simp [hst])]
    exact h.removeChannel hst

/-! ## Careful actions -/

/-- `stopRead` runs in the loop. -/
def stopsReadInLoop (w : World) : Action → Bool
  | .call .loop .stopRead => true
  | .runFunctor i _ => w.pendingFunctors_[i]? == some .stopReadInLoop
  | _ => false

/-- Reading and writing are not started once the connection is disconnected, and reading is not
stopped once the channel is removed, unless it had been stopped before. -/
def Careful (w : World) (a : Action) : Prop :=
  (w.startsInLoop a = true → w.state_ ≠ .kDisconnected) ∧
    (w.stopsReadInLoop a = true → w.channelRemoved = true → w.reading_ = false)

instance (w : World) (a : Action) : Decidable (w.Careful a) := inferInstanceAs (Decidable (_ ∧ _))

/-- No call of `Channel::update`. -/
def NoUpdate (ops : List ChannelOp) : Prop := ∀ op, ChannelOp.update op ∉ ops

theorem noUpdate_nil : NoUpdate [] := fun _ => List.not_mem_nil

theorem NoUpdate.addedToLoop {ops : List ChannelOp} (h : NoUpdate ops) {c : Channel}
    (hc : c.addedToLoop_ = false) : (ops.foldl ChannelOp.apply c).addedToLoop_ = false := by
  -- `remove` clears the flag, and only `update` could set it
  induction ops generalizing c with
  | nil => exact hc
  | cons o ops ih =>
      have hrest : NoUpdate ops := fun op hop => h op (List.mem_cons_of_mem _ hop)
      rw [List.foldl_cons]
      cases o with
      | update op => exact absurd List.mem_cons_self (h op)
      | remove => exact ih hrest rfl

section Disconnected

variable {w : World} (hst : w.state_ = .kDisconnected)

include hst

theorem handleCloseOps_of_disconnected : w.handleCloseOps = [] := by
  simp [handleCloseOps, isOpen_of_disconnected hst]

theorem shutdownInLoopOps_of_disconnected : w.shutdownInLoopOps = [] := by
  simp [shutdownInLoopOps, handleCloseOps_of_disconnected hst]

theorem noUpdate_connectDestroyedOps : NoUpdate w.connectDestroyedOps := by
  unfold connectDestroyedOps removeChannelOps
  rw [if_neg (by simp [hst])]
  split
  · intro op
    simp
  · exact noUpdate_nil

variable (hnone : w.channel_.isNoneEvent = true)

include hnone

theorem noUpdate_resumeOps (f : Frame) : NoUpdate (w.resumeOps f) := by
  have hwriting := Channel.not_writing_of_isNoneEvent hnone
  cases f with
  | userCode => exact noUpdate_nil
  | closeCallback => exact noUpdate_nil
  | removeChannel =>
      intro op
      simp [resumeOps, removeChannelOps, hnone]
  | readCallback r =>
      cases r with
      | ok data =>
          intro op
          simp [resumeOps, handleReadOps, handleCloseOps_of_disconnected hst]
      | fail => exact noUpdate_nil
  | writeCallback r =>
      cases r with
      | room k =>
          intro op
          simp [resumeOps, handleWriteOps, hwriting]
      | fail e => exact noUpdate_nil

/-- Of the functors, only those that start, and `stopReadInLoop`, update the channel. -/
theorem noUpdate_runFunctorOps {f : Functor} (wr : WriteResult)
    (hstart : f ≠ .startReadInLoop ∧ f ≠ .startWriteInLoop)
    (hstop : f = .stopReadInLoop → w.reading_ = false) : NoUpdate (w.runFunctorOps f wr) := by
  have hwriting := Channel.not_writing_of_isNoneEvent hnone
  have hreading := Channel.not_reading_of_isNoneEvent hnone
  intro op
  cases f with
  | sendInLoop message => simp [runFunctorOps, sendInLoopOps, hst]
  | shutdownInLoop => simp [runFunctorOps, shutdownInLoopOps_of_disconnected hst]
  | forceCloseInLoop =>
      simp [runFunctorOps, forceCloseInLoopOps, isOpen_of_disconnected hst]
  | startReadInLoop => exact absurd rfl hstart.1
  | stopReadInLoop => simp [runFunctorOps, stopReadInLoopOps, hstop rfl, hreading]
  | startWriteInLoop => exact absurd rfl hstart.2
  | stopWriteInLoop => simp [runFunctorOps, stopWriteInLoopOps, hwriting]
  | connectDestroyed => exact noUpdate_connectDestroyedOps hst op
  | writeCompleteCallback => exact List.not_mem_nil
  | highWaterMarkCallback len => exact List.not_mem_nil

theorem noUpdate_callOps (t : Thread) {c : Call} (hstart : w.startsInLoop (.call t c) = false)
    (hstop : w.stopsReadInLoop (.call t c) = true → w.reading_ = false) :
    NoUpdate (w.callOps t c) := by
  -- a call of the loop thread does what its functor does, and another thread only queues that
  cases t with
  | other =>
      intro op
      cases c <;> simp [callOps, sendOps, shutdownOps, runInLoopOps]
  | loop =>
      intro op
      cases c with
      | send message r => simp [callOps, sendOps, hst]
      | shutdown => simp [callOps, shutdownOps, hst]
      | forceClose => exact List.not_mem_nil
      | forceCloseWithDelay => exact List.not_mem_nil
      | startRead => simp [startsInLoop] at hstart
      | stopRead =>
          exact noUpdate_runFunctorOps hst hnone (f := .stopReadInLoop) (.room 0) (by simp)
            (fun _ => hstop rfl) op
      | startWrite => simp [startsInLoop] at hstart
      | stopWrite =>
          exact noUpdate_runFunctorOps hst hnone (f := .stopWriteInLoop) (.room 0) (by simp)
            (by simp) op

/-- For a disconnected connection the flags and the tests of `state_` hold everything else back. -/
theorem noUpdate_channelOps {a : Action} (hstart : w.startsInLoop a = false)
    (hstop : w.stopsReadInLoop a = true → w.reading_ = false) : NoUpdate (w.channelOps a) := by
  cases a with
  | connectEstablished =>
      intro op
      simp [channelOps, connectEstablishedOps, hst]
  | event revents r wr =>
      intro op
      simp [channelOps, handleEventOps, handleCloseOps_of_disconnected hst]
  | resume =>
      simp only [channelOps]
      cases w.frames with
      | nil => exact noUpdate_nil
      | cons f fs => exact noUpdate_resumeOps hst hnone f
  | call t c => exact noUpdate_callOps hst hnone t hstart hstop
  | runFunctor i wr =>
      simp only [channelOps]
      cases hi : w.pendingFunctors_[i]? with
      | none => exact noUpdate_nil
      | some f =>
          -- the functor that is taken is none of those that start
          refine noUpdate_runFunctorOps hst hnone wr ?_ ?_
          · constructor
            · rintro rfl
              simp [startsInLoop, hi] at hstart
            · rintro rfl
              simp [startsInLoop, hi] at hstart
          · rintro rfl
            exact hstop (by simp [stopsReadInLoop, hi])
  | delayedClose => exact noUpdate_nil
  | destroy => exact noUpdate_nil

end Disconnected

theorem Ended.noUpdate {w : World} (h : w.Ended) (hrem : w.channelRemoved = true) {a : Action}
    (hc : w.Careful a) : NoUpdate (w.channelOps a) := by
  have hst := h.removed hrem
  refine noUpdate_channelOps hst (h.settled hst) ?_ fun hstop => hc.2 hstop hrem
  rw [← Bool.not_eq_true]
  exact fun hstart => hc.1 hstart hst

/-- The step. -/
theorem Ended.perform {w : World} (h : w.Ended) {a : Action} (hc : w.Careful a) :
    (w.perform a).Ended := by
  have hsettled : (w.perform a).Settled := h.settled.perform hc.1
  have hdetached : w.channelRemoved = true → (w.perform a).channel_.addedToLoop_ = false := by
    intro hrem
    rw [calls_perform w a]
    exact (h.noUpdate hrem hc).addedToLoop (h.detached hrem)
  have hmoves : w.Moves (w.perform a) → (w.perform a).Ended := fun hm =>
    h.of_moves hm hsettled hdetached
  cases a with
  | connectEstablished => exact hmoves (moves_connectEstablished w)
  | event revents r wr => exact hmoves (moves_handleEventWithGuard w revents r wr)
  | resume =>
      cases hf : w.frames with
      | nil =>
          simp only [World.perform, hf]
          exact h
      | cons f fs =>
          have hclosing : f.isClosing = true → w.state_ = .kDisconnected :=
            h.frames f (hf ▸ List.mem_cons_self)
          simp only [World.perform, hf] at hmoves ⊢
          -- `Channel::remove` is the one frame that takes the channel out of the loop
          by_cases hremove : f = .removeChannel
          · subst hremove
            have hpopped : ({ w with frames := fs } : World).Ended :=
              h.of_moves (moves_pop hf) (h.settled.of_eq rfl rfl) h.detached
            exact hpopped.removeChannel (hclosing rfl)
          · exact hmoves ((moves_pop hf).trans (moves_resume _ hremove hclosing))
  | call t c => exact hmoves (moves_call w t c)
  | runFunctor i wr =>
      cases hi : w.pendingFunctors_[i]? with
      | none =>
          simp only [World.perform, hi]
          exact h
      | some f =>
          simp only [World.perform, hi] at hmoves ⊢
          -- `connectDestroyed` is queued only when the connection is disconnected
          by_cases hdestroy : f = .connectDestroyed
          · subst hdestroy
            have hrest : ({ w with pendingFunctors_ := w.pendingFunctors_.eraseIdx i } :
                World).Ended :=
              h.of_moves (moves_take w i) (h.settled.of_eq rfl rfl) h.detached
            exact hrest.connectDestroyed (Or.inr (h.pending (List.mem_of_getElem? hi)))
          · exact hmoves ((moves_take w i).trans (moves_runFunctor _ hdestroy wr))
  | delayedClose =>
      refine hmoves (Moves.trans ?_ (moves_forceClose _))
      exact { Moves.refl w with }
  | destroy => exact hmoves (moves_destruct w)

/-! ## Steps in any order -/

/-- A step of the connection, or the server's destructor, which runs `connectDestroyed` for each
connection that it still has. -/
inductive EndStep where
  | action (a : Action)
  | serverDestroyed
  deriving DecidableEq, Repr

def endOps (w : World) : EndStep → List ChannelOp
  | .action a => w.channelOps a
  | .serverDestroyed => w.connectDestroyedOps

def advance (w : World) : EndStep → World
  | .action a => w.perform a
  | .serverDestroyed => w.connectDestroyed

/-- Steps in any order, also in those that the loop never takes. -/
def anyOrder : System World EndStep where
  init w := ∃ wc hw mark, w = constructed wc hw mark
  step w l w' := w' = w.advance l

/-- The actions are careful, and the server's destructor finds no connection that is about to be
disconnected: `connectDestroyed` leaves such a connection in its state. -/
def AllowedEnd (w : World) : EndStep → Prop
  | .action a => w.Careful a
  | .serverDestroyed => w.state_ = .kConnected ∨ w.state_ = .kDisconnected

instance (w : World) : DecidablePred (AllowedEnd w)
  | .action a => inferInstanceAs (Decidable (w.Careful a))
  | .serverDestroyed => inferInstanceAs (Decidable (_ ∨ _))

theorem reachable_ended {w : World} (h : (anyOrder.restrict AllowedEnd).Reachable w) : w.Ended := by
  refine h.invariant ?_ ?_
  · rintro w ⟨wc, hw, mark, rfl⟩
    exact constructed_ended wc hw mark
  · rintro w l w' hw ⟨hallowed, rfl⟩
    cases l with
    | action a => exact hw.perform hallowed
    | serverDestroyed => exact hw.connectDestroyed hallowed

/-- A closed connection asks for nothing, and a removed channel is not in the loop. -/
structure Unregistered (w : World) : Prop where
  interest : w.state_ = .kDisconnected → w.channel_.isNoneEvent = true
  removed : w.channelRemoved = true → w.channel_.addedToLoop_ = false

theorem Ended.unregistered {w : World} (h : w.Ended) : w.Unregistered := ⟨h.settled, h.detached⟩

/-- The step registers nothing again. -/
structure Keeps (w : World) (l : EndStep) : Prop where
  unregistered : (w.advance l).Unregistered
  noUpdate : w.channelRemoved = true → NoUpdate (w.endOps l)

theorem Ended.keeps {w : World} (h : w.Ended) {l : EndStep} (hl : w.AllowedEnd l) : w.Keeps l := by
  cases l with
  | action a => exact ⟨(h.perform hl).unregistered, fun hrem => h.noUpdate hrem hl⟩
  | serverDestroyed =>
      exact ⟨(h.connectDestroyed hl).unregistered,
        fun hrem => noUpdate_connectDestroyedOps (h.removed hrem)⟩

/-- An empty interest set does not hold back what starts. -/
theorem channelOps_of_starts {w : World} (hnone : w.channel_.isNoneEvent = true) {a : Action}
    (ha : w.startsInLoop a = true) :
    w.channelOps a = [.update .enableReading] ∨ w.channelOps a = [.update .enableWriting] := by
  have hwriting := Channel.not_writing_of_isNoneEvent hnone
  have hreading := Channel.not_reading_of_isNoneEvent hnone
  have hread : w.startReadInLoopOps = [.update .enableReading] := by
    simp [startReadInLoopOps, hreading]
  have hwrite : w.startWriteInLoopOps = [.update .enableWriting] := by
    simp [startWriteInLoopOps, hwriting]
  cases a with
  | call t c => cases t <;> cases c <;> simp_all [startsInLoop, channelOps, callOps, runInLoopOps]
  | runFunctor i wr =>
      rcases Bool.or_eq_true_iff.1 ha with hi | hi
      · simp [channelOps, beq_iff_eq.1 hi, runFunctorOps, hread]
      · simp [channelOps, beq_iff_eq.1 hi, runFunctorOps, hwrite]
  | _ => cases ha

/-- `reading_` stays true when the connection is closed, and lets `stopRead` through. -/
theorem channelOps_of_stops {w : World} (hreading : w.reading_ = true) {a : Action}
    (ha : w.stopsReadInLoop a = true) : w.channelOps a = [.update .disableReading] := by
  have hstop : w.stopReadInLoopOps = [.update .disableReading] := by
    simp [stopReadInLoopOps, hreading]
  cases a with
  | call t c => cases t <;> cases c <;> simp_all [stopsReadInLoop, channelOps, callOps, runInLoopOps]
  | runFunctor i wr => simp [channelOps, beq_iff_eq.1 ha, runFunctorOps, hstop]
  | _ => cases ha

@[simp] theorem startReadInLoop_state (w : World) : w.startReadInLoop.state_ = w.state_ := by
  unfold startReadInLoop
  split <;> rfl

@[simp] theorem startWriteInLoop_state (w : World) : w.startWriteInLoop.state_ = w.state_ := by
  unfold startWriteInLoop
  split <;> rfl

theorem startsInLoop_state {w : World} {a : Action} (ha : w.startsInLoop a = true) :
    (w.perform a).state_ = w.state_ := by
  cases a with
  | call t c =>
      cases t <;> cases c <;>
        simp_all [startsInLoop, World.perform, World.call, startRead, startWrite, runInLoop]
  | runFunctor i wr =>
      rcases Bool.or_eq_true_iff.1 ha with hi | hi
      · simp [World.perform, beq_iff_eq.1 hi, World.runFunctor]
      · simp [World.perform, beq_iff_eq.1 hi, World.runFunctor]
  | _ => cases ha

theorem Ended.careful {w : World} (h : w.Ended) {a : Action} (hk : w.Keeps (.action a)) :
    w.Careful a := by
  constructor
  · intro hstart hst
    -- a start while disconnected enables an event and leaves `state_` as it is
    have hinterest := hk.unregistered.interest ((startsInLoop_state hstart).trans hst)
    rw [advance, calls_perform w a] at hinterest
    rcases channelOps_of_starts (h.settled hst) hstart with hops | hops
    · simp [hops, ChannelOp.apply, UpdateOp.apply, Channel.enableReading, Channel.update,
        Channel.isNoneEvent] at hinterest
    · simp [hops, ChannelOp.apply, UpdateOp.apply, Channel.enableWriting, Channel.update,
        Channel.isNoneEvent] at hinterest
  · intro hstop hrem
    by_contra hreading
    -- `stopReadInLoop` with `reading_` still set updates the removed channel
    have hno := hk.noUpdate hrem .disableReading
    rw [endOps, channelOps_of_stops (by simpa using hreading) hstop] at hno
    exact hno (List.mem_singleton_self _)

/-- Along a run of careful actions a closed connection is not registered again, and the first
action that is not careful registers it. -/
theorem unregistered_iff (w : World) (h : (anyOrder.restrict AllowedEnd).Reachable w) :
    w.Unregistered ∧ (∀ l, w.AllowedEnd l → w.Keeps l) ∧
      ∀ a, w.Keeps (.action a) ↔ w.Careful a := by
  have hended := reachable_ended h
  exact ⟨hended.unregistered, fun l hl => hended.keeps hl,
    fun a => ⟨hended.careful, fun hc => hended.keeps (l := .action a) hc⟩⟩

/-! ## Calls that come too late -/

/-- When a step can happen; the server has established a connection before it destroys it. -/
def possible (w : World) : EndStep → Bool
  | .action a => w.enabled a
  | .serverDestroyed => !w.destructed && w.frames == [] && w.state_ != .kConnecting

/-- The end of possible steps, those that are not allowed included. -/
def endOf (steps : List EndStep) : Option World :=
  System.runAll (fun w l => if w.possible l then some (w.advance l) else none)
    (constructed false false 64) steps

def carefulEndOf (steps : List EndStep) : Option World :=
  System.runAll (fun w l => if w.possible l ∧ w.AllowedEnd l then some (w.advance l) else none)
    (constructed false false 64) steps

theorem reachable_of_carefulEndOf {steps : List EndStep} {w : World}
    (h : carefulEndOf steps = some w) : (anyOrder.restrict AllowedEnd).Reachable w := by
  refine .of_guarded ?_ (.init ⟨false, false, 64, rfl⟩) h
  intro s l hl
  exact ⟨hl.2, rfl⟩

/-- The peer closes the connection, and `handleClose` returns. -/
def peerCloses : List EndStep :=
  [.action (.event { POLLIN := true } (.ok []) (.room 0)), .action .resume, .action .resume,
    .action .resume]

def established : List EndStep := [.action .connectEstablished, .action .resume]

def nextFunctor : EndStep := .action (.runFunctor 0 (.room 0))

/-- Reading is stopped and started again, and `startWrite` is called after the end. -/
def inTime : List EndStep :=
  established ++ [.action (.call .other .stopRead), nextFunctor, .action (.call .loop .startRead)] ++
    peerCloses ++ [nextFunctor, .action (.call .other .startWrite)]

theorem unregistered_iff_inTime : ∃ w, carefulEndOf inTime = some w ∧ w.channelRemoved = true ∧
    w.Unregistered ∧ ¬ w.Keeps nextFunctor := by
  obtain ⟨w, hw, hend⟩ : ∃ w, carefulEndOf inTime = some w ∧
      (w.channelRemoved = true ∧ ¬ w.Careful (.runFunctor 0 (.room 0))) := by
    have hrun : (carefulEndOf inTime).map (fun w => decide (w.channelRemoved = true ∧
        ¬ w.Careful (.runFunctor 0 (.room 0)))) = some true := by decide +kernel
    rcases Option.map_eq_some_iff.1 hrun with ⟨w, hw, hall⟩
    exact ⟨w, hw, of_decide_eq_true hall⟩
  rcases unregistered_iff w (reachable_of_carefulEndOf hw) with ⟨hunregistered, -, hkeeps⟩
  exact ⟨w, hw, hend.1, hunregistered, fun hk => hend.2 ((hkeeps _).1 hk)⟩

/-- Another thread has called `startRead` before the peer closes the connection. -/
def startedLate : List EndStep :=
  established ++ [.action (.call .other .startRead)] ++ peerCloses ++ [nextFunctor]

/-- Another thread calls `stopRead` before `connectDestroyed` has run. -/
def stoppedLate : List EndStep :=
  established ++ peerCloses ++ [.action (.call .other .stopRead), nextFunctor, nextFunctor]

/-- The server is destroyed while `forceCloseWithDelay` waits. -/
def destroyedEarly : List EndStep :=
  established ++ [.action (.call .loop .stopRead), .action (.call .loop .forceCloseWithDelay),
    .serverDestroyed, .action .delayedClose, nextFunctor]

theorem registered_again :
    (∃ w, endOf startedLate = some w ∧ w.state_ = .kDisconnected ∧
      w.channel_.isNoneEvent = false) ∧
    (∃ w, endOf stoppedLate = some w ∧ w.channelRemoved = true ∧
      w.channel_.addedToLoop_ = true) ∧
    ∃ w, endOf destroyedEarly = some w ∧ w.channelRemoved = true ∧
      w.channel_.addedToLoop_ = true := by
  have hstarted : (endOf startedLate).map (fun w => decide (w.state_ = .kDisconnected ∧
      w.channel_.isNoneEvent = false)) = some true := by decide +kernel
  have hstopped : (endOf stoppedLate).map (fun w => decide (w.channelRemoved = true ∧
      w.channel_.addedToLoop_ = true)) = some true := by decide +kernel
  have hdestroyed : (endOf destroyedEarly).map (fun w => decide (w.channelRemoved = true ∧
      w.channel_.addedToLoop_ = true)) = some true := by decide +kernel
  rcases Option.map_eq_some_iff.1 hstarted with ⟨w₁, hw₁, h₁⟩
  rcases Option.map_eq_some_iff.1 hstopped with ⟨w₂, hw₂, h₂⟩
  rcases Option.map_eq_some_iff.1 hdestroyed with ⟨w₃, hw₃, h₃⟩
  exact ⟨⟨w₁, hw₁, of_decide_eq_true h₁⟩, ⟨w₂, hw₂, of_decide_eq_true h₂⟩,
    ⟨w₃, hw₃, of_decide_eq_true h₃⟩⟩

end World
end Net
end Longky
