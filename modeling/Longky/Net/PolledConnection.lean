import Longky.Net.EPollPoller
import Longky.Net.TcpRuns

/-!
# PolledConnection — a connection and the poller that reports its events

`TcpConnection` asks for events by way of its channel, and the loop's `EPollPoller` carries the
request on to the kernel.  Here the two run side by side, together with any other channels of the
same loop: an event reaches the connection when the kernel lists its channel, and not when the
connection itself thinks that it asked for one.
-/

namespace Longky
namespace Net

open Lib

/-! ## The calls that a connection makes on its channel -/

namespace World

/-- `handleClose` comes to `disableAll` at once when `closeFlag_` is set; else by way of `shutdown`,
which sets it, unless something is still being written. -/
def handleCloseOps (w : World) : List ChannelOp :=
  if w.isOpen && (w.closeFlag_ || w.state_ == .kConnected && !w.channel_.isWriting) then
    [.update .disableAll]
  else []

def shutdownInLoopOps (w : World) : List ChannelOp :=
  if !w.channel_.isWriting && w.dissByPeer_ then w.handleCloseOps else []

def shutdownOps (w : World) : Thread → List ChannelOp
  | .loop =>
      if w.state_ = .kConnected then
        shutdownInLoopOps { w with closeFlag_ := true, state_ := .kDisconnecting }
      else []
  | .other => []

def forceCloseInLoopOps (w : World) : List ChannelOp :=
  if w.isOpen then handleCloseOps { w with closeFlag_ := true } else []

def appendRemainingOps (w : World) (data : Bytes) : List ChannelOp :=
  if 0 < data.length ∧ w.channel_.isWriting = false then [.update .enableWriting] else []

def sendInLoopOps (w : World) (data : Bytes) (r : WriteResult) : List ChannelOp :=
  if w.state_ = .kDisconnected then []
  else if w.writesDirectly then
    match r with
    | .room n => w.appendRemainingOps (data.drop n)
    | .fail e => if e.isFault then [] else w.appendRemainingOps data
  else w.appendRemainingOps data

def startReadInLoopOps (w : World) : List ChannelOp :=
  if !w.reading_ || !w.channel_.isReading then [.update .enableReading] else []

def stopReadInLoopOps (w : World) : List ChannelOp :=
  if w.reading_ || w.channel_.isReading then [.update .disableReading] else []

def startWriteInLoopOps (w : World) : List ChannelOp :=
  if !w.channel_.isWriting then [.update .enableWriting] else []

def stopWriteInLoopOps (w : World) : List ChannelOp :=
  if w.channel_.isWriting then [.update .disableWriting] else []

def connectEstablishedOps (w : World) : List ChannelOp :=
  if w.state_ = .kConnecting then [.update .enableReading] else []

def removeChannelOps (w : World) : List ChannelOp :=
  if w.channel_.isNoneEvent then [.remove] else []

def connectDestroyedOps (w : World) : List ChannelOp :=
  if w.state_ = .kConnected then [.update .disableAll] else w.removeChannelOps

def handleReadOps (w : World) : ReadResult → List ChannelOp
  | .ok data => if 0 < data.length then [] else w.handleCloseOps
  | .fail => []

def outputDrainedOps (w : World) : List ChannelOp :=
  .update .disableWriting ::
    if w.state_ = .kDisconnecting then
      shutdownInLoopOps { w with channel_ := w.channel_.disableWriting }
    else []

def handleWriteOps (w : World) : WriteResult → List ChannelOp
  | .room k =>
      if w.channel_.isWriting ∧ 0 < min k w.outputBuffer_.readableBytes ∧
          w.outputBuffer_.readableBytes ≤ k then w.outputDrainedOps
      else []
  | .fail _ => []

def handleEventOps (w : World) (revents : Revents) : List ChannelOp :=
  if revents.POLLHUP && !revents.POLLIN then w.handleCloseOps else []

def runFunctorOps (w : World) (f : Functor) (wr : WriteResult) : List ChannelOp :=
  match f with
  | .sendInLoop message => w.sendInLoopOps message wr
  | .shutdownInLoop => w.shutdownInLoopOps
  | .forceCloseInLoop => w.forceCloseInLoopOps
  | .startReadInLoop => w.startReadInLoopOps
  | .stopReadInLoop => w.stopReadInLoopOps
  | .startWriteInLoop => w.startWriteInLoopOps
  | .stopWriteInLoop => w.stopWriteInLoopOps
  | .connectDestroyed => w.connectDestroyedOps
  | .writeCompleteCallback | .highWaterMarkCallback _ => []

def resumeOps (w : World) : Frame → List ChannelOp
  | .removeChannel => w.removeChannelOps
  | .readCallback r => w.handleReadOps r
  | .writeCallback r => w.handleWriteOps r
  | .userCode | .closeCallback => []

def sendOps (w : World) (t : Thread) (message : Bytes) (r : WriteResult) : List ChannelOp :=
  if w.state_ = .kConnected ∧ t = .loop then w.sendInLoopOps message r else []

/-- `loop_->runInLoop(f)`. -/
def runInLoopOps (t : Thread) (now : List ChannelOp) : List ChannelOp :=
  match t with
  | .loop => now
  | .other => []

def callOps (w : World) (t : Thread) : Call → List ChannelOp
  | .send message r => w.sendOps t message r
  | .shutdown => w.shutdownOps t
  | .forceClose | .forceCloseWithDelay => []
  | .startRead => runInLoopOps t w.startReadInLoopOps
  | .stopRead => runInLoopOps t w.stopReadInLoopOps
  | .startWrite => runInLoopOps t w.startWriteInLoopOps
  | .stopWrite => runInLoopOps t w.stopWriteInLoopOps

/-- What an action of the connection calls on its channel, in this order. -/
def channelOps (w : World) : Action → List ChannelOp
  | .connectEstablished => w.connectEstablishedOps
  | .event revents _ _ => w.handleEventOps revents
  | .resume =>
      match w.frames with
      | [] => []
      | f :: _ => w.resumeOps f
  | .call t c => w.callOps t c
  | .runFunctor i wr =>
      match w.pendingFunctors_[i]? with
      | none => []
      | some f => w.runFunctorOps f wr
  | .delayedClose | .destroy => []

/-! ## The calls explain the channel -/

/-- `w'` has the channel that the calls `ops` leave. -/
def Calls (w : World) (ops : List ChannelOp) (w' : World) : Prop :=
  w'.channel_ = ops.foldl ChannelOp.apply w.channel_

theorem calls_handleClose (w : World) : w.Calls w.handleCloseOps w.handleClose := by
  unfold Calls handleCloseOps
  cases hopen : w.isOpen with
  | false =>
      rw [handleClose]
      simp [hopen, emit]
  | true =>
      cases hflag : w.closeFlag_ with
      | true =>
          rw [handleClose_of_closeFlag hopen hflag]
          simp [closeNow, push, emit, ChannelOp.apply, UpdateOp.apply]
      | false =>
          rw [handleClose_of_not_closeFlag hopen hflag]
          cases hwr : w.channel_.isWriting <;> by_cases hst : w.state_ = .kConnected <;>
            simp [hst, closeNow, push, emit, shutdownWrite, ChannelOp.apply, UpdateOp.apply]

theorem calls_shutdownInLoop (w : World) : w.Calls w.shutdownInLoopOps w.shutdownInLoop := by
  unfold shutdownInLoopOps
  cases hwr : w.channel_.isWriting with
  | true =>
      rw [shutdownInLoop_of_writing hwr]
      rfl
  | false =>
      rw [shutdownInLoop_of_not_writing hwr]
      cases hd : w.dissByPeer_ with
      | true => exact calls_handleClose w.shutdownWrite
      | false => rfl

theorem calls_shutdown (w : World) (t : Thread) : w.Calls (w.shutdownOps t) (w.shutdown t) := by
  cases t with
  | loop =>
      rw [shutdown_loop]
      unfold shutdownOps
      dsimp only
      split
      · exact calls_shutdownInLoop _
      · rfl
  | other =>
      rw [shutdown_other]
      split <;> rfl

theorem calls_forceCloseInLoop (w : World) :
    w.Calls w.forceCloseInLoopOps w.forceCloseInLoop := by
  unfold forceCloseInLoopOps forceCloseInLoop
  split
  · exact calls_handleClose { w with closeFlag_ := true, forceFlag_ := true, setSolinger_ := true }
  · rfl

theorem calls_appendRemaining (w : World) (data : Bytes) :
    w.Calls (w.appendRemainingOps data) (w.appendRemaining data) := by
  unfold Calls appendRemainingOps appendRemaining
  cases hwr : w.channel_.isWriting <;> by_cases hlen : 0 < data.length <;> dsimp only <;>
    split_ifs <;> simp_all [queueInLoop, ChannelOp.apply, UpdateOp.apply]

theorem queueWriteComplete_channel (w : World) : w.queueWriteComplete.channel_ = w.channel_ := by
  unfold queueWriteComplete
  split <;> rfl

theorem calls_sendInLoop (w : World) (data : Bytes) (r : WriteResult) :
    w.Calls (w.sendInLoopOps data r) (w.sendInLoop data r) := by
  unfold sendInLoopOps sendInLoop
  split
  · rfl
  · split
    · cases r with
      | room n =>
          dsimp only
          split
          · rename_i hlen
            simp [Calls, appendRemainingOps, hlen, queueWriteComplete_channel, emit]
          · exact calls_appendRemaining (w.emit _) (data.drop n)
      | fail e =>
          dsimp only
          split
          · rfl
          · exact calls_appendRemaining w data
    · exact calls_appendRemaining w data

theorem calls_send (w : World) (t : Thread) (message : Bytes) (r : WriteResult) :
    w.Calls (w.sendOps t message r) (w.send t message r) := by
  unfold sendOps send
  cases t with
  | loop =>
      by_cases hst : w.state_ = .kConnected
      · simpa [hst] using calls_sendInLoop w message r
      · simp [hst, Calls]
  | other => by_cases hst : w.state_ = .kConnected <;> simp [hst, Calls, queueInLoop]

theorem calls_startReadInLoop (w : World) :
    w.Calls w.startReadInLoopOps w.startReadInLoop := by
  unfold startReadInLoopOps startReadInLoop
  split <;> rfl

theorem calls_stopReadInLoop (w : World) : w.Calls w.stopReadInLoopOps w.stopReadInLoop := by
  unfold stopReadInLoopOps stopReadInLoop
  split <;> rfl

theorem calls_startWriteInLoop (w : World) :
    w.Calls w.startWriteInLoopOps w.startWriteInLoop := by
  unfold startWriteInLoopOps startWriteInLoop
  split <;> rfl

theorem calls_stopWriteInLoop (w : World) : w.Calls w.stopWriteInLoopOps w.stopWriteInLoop := by
  unfold stopWriteInLoopOps stopWriteInLoop
  split <;> rfl

theorem calls_runInLoop {w : World} {ops : List ChannelOp} {now : World → World}
    (h : w.Calls ops (now w)) (t : Thread) (f : Functor) :
    w.Calls (runInLoopOps t ops) (w.runInLoop t f now) := by
  cases t with
  | loop => exact h
  | other => rfl

theorem calls_removeChannel (w : World) : w.Calls w.removeChannelOps w.removeChannel := by
  unfold removeChannelOps removeChannel
  split
  · dsimp only
    split <;> rfl
  · rfl

theorem calls_connectEstablished (w : World) :
    w.Calls w.connectEstablishedOps w.connectEstablished := by
  unfold connectEstablishedOps connectEstablished
  split <;> rfl

theorem calls_connectDestroyed (w : World) :
    w.Calls w.connectDestroyedOps w.connectDestroyed := by
  unfold connectDestroyedOps connectDestroyed
  split
  · rfl
  · exact calls_removeChannel w

theorem calls_handleRead (w : World) (r : ReadResult) :
    w.Calls (w.handleReadOps r) (w.handleRead r) := by
  cases r with
  | ok data =>
      unfold handleReadOps handleRead
      dsimp only
      split
      · rfl
      · exact calls_handleClose w
  | fail => rfl

theorem calls_outputDrained (w : World) : w.Calls w.outputDrainedOps w.outputDrained := by
  let w₁ : World := { w with channel_ := w.channel_.disableWriting }.queueWriteComplete
  have hchannel : w₁.channel_ = w.channel_.disableWriting := queueWriteComplete_channel _
  have hlife : w₁.state_ = w.state_ ∧ w₁.closeFlag_ = w.closeFlag_ ∧
      w₁.dissByPeer_ = w.dissByPeer_ := by
    simp only [w₁, queueWriteComplete]
    split <;> exact ⟨rfl, rfl, rfl⟩
  have hops : shutdownInLoopOps { w with channel_ := w.channel_.disableWriting } =
      w₁.shutdownInLoopOps := by
    simp [shutdownInLoopOps, handleCloseOps, isOpen, hchannel, hlife]
  change w.Calls w.outputDrainedOps (if w₁.state_ = .kDisconnecting then w₁.shutdownInLoop else w₁)
  unfold outputDrainedOps
  rw [hops, hlife.1]
  split
  · have hshutdown := calls_shutdownInLoop w₁
    rw [Calls, hchannel] at hshutdown
    exact hshutdown
  · exact hchannel

theorem calls_handleWrite (w : World) (r : WriteResult) :
    w.Calls (w.handleWriteOps r) (w.handleWrite r) := by
  unfold handleWriteOps handleWrite
  cases hwr : w.channel_.isWriting with
  | false => cases r <;> simp [Calls]
  | true =>
      cases r with
      | fail e => rfl
      | room k =>
          have hleft : ∀ h, (w.retrieveWritten (min k w.outputBuffer_.readableBytes)
              h).outputBuffer_.readableBytes = 0 ↔ w.outputBuffer_.readableBytes ≤ k := by
            intro h
            simp only [retrieveWritten, emit, WfBuffer.readableBytes_eq,
              WfBuffer.readable_retrieve, List.length_drop]
            omega
          by_cases htaken : 0 < min k w.outputBuffer_.readableBytes
          · by_cases hall : w.outputBuffer_.readableBytes ≤ k
            · simp only [htaken, hall, hleft, and_self, if_true]
              exact calls_outputDrained (w.retrieveWritten _ _)
            · simp only [htaken, hall, hleft, and_false, if_true, if_false]
              rfl
          · simp only [htaken, false_and, and_false, if_true, if_false]
            rfl

theorem calls_handleEvent (w : World) (revents : Revents) (r : ReadResult) (wr : WriteResult) :
    w.Calls (w.handleEventOps revents) (w.handleEventWithGuard revents r wr) := by
  unfold handleEventOps handleEventWithGuard handleError
  dsimp only
  split <;> split <;> first | rfl | exact calls_handleClose (w.push _)

theorem calls_runFunctor (w : World) (f : Functor) (wr : WriteResult) :
    w.Calls (w.runFunctorOps f wr) (w.runFunctor f wr) := by
  cases f with
  | sendInLoop message => exact calls_sendInLoop w message wr
  | shutdownInLoop => exact calls_shutdownInLoop w
  | forceCloseInLoop => exact calls_forceCloseInLoop w
  | startReadInLoop => exact calls_startReadInLoop w
  | stopReadInLoop => exact calls_stopReadInLoop w
  | startWriteInLoop => exact calls_startWriteInLoop w
  | stopWriteInLoop => exact calls_stopWriteInLoop w
  | connectDestroyed => exact calls_connectDestroyed w
  | writeCompleteCallback => rfl
  | highWaterMarkCallback len => rfl

theorem calls_resume (w : World) (f : Frame) : w.Calls (w.resumeOps f) (w.resume f) := by
  cases f with
  | userCode => rfl
  | closeCallback => rfl
  | removeChannel => exact calls_removeChannel w
  | readCallback r => exact calls_handleRead w r
  | writeCallback r => exact calls_handleWrite w r

theorem forceClose_channel (w : World) : w.forceClose.channel_ = w.channel_ := by
  unfold forceClose
  split <;> rfl

theorem calls_call (w : World) (t : Thread) (c : Call) : w.Calls (w.callOps t c) (w.call t c) := by
  cases c with
  | send message r => exact calls_send w t message r
  | shutdown => exact calls_shutdown w t
  | forceClose => exact forceClose_channel w
  | forceCloseWithDelay =>
      simp only [Calls, callOps, call, forceCloseWithDelay]
      split <;> rfl
  | startRead => exact calls_runInLoop (calls_startReadInLoop w) t .startReadInLoop
  | stopRead => exact calls_runInLoop (calls_stopReadInLoop w) t .stopReadInLoop
  | startWrite => exact calls_runInLoop (calls_startWriteInLoop w) t .startWriteInLoop
  | stopWrite => exact calls_runInLoop (calls_stopWriteInLoop w) t .stopWriteInLoop

/-- Whatever an action does, it changes the channel by these calls alone. -/
theorem calls_perform (w : World) (a : Action) : w.Calls (w.channelOps a) (w.perform a) := by
  cases a with
  | connectEstablished => exact calls_connectEstablished w
  | event revents r wr => exact calls_handleEvent w revents r wr
  | resume =>
      simp only [channelOps, World.perform]
      cases w.frames with
      | nil => rfl
      | cons f fs =>
          have hresume := calls_resume { w with frames := fs } f
          cases f <;> exact hresume
  | call t c => exact calls_call w t c
  | runFunctor i wr =>
      simp only [channelOps, World.perform]
      cases w.pendingFunctors_[i]? with
      | none => rfl
      | some f =>
          have hrun := calls_runFunctor
            { w with pendingFunctors_ := w.pendingFunctors_.eraseIdx i } f wr
          cases f <;> exact hrun
  | delayedClose => exact forceClose_channel _
  | destroy =>
      simp only [Calls, channelOps, World.perform, destruct]
      split <;> split <;> rfl

/-! ## A disconnected connection asks for nothing -/

/-- A disconnected connection has an empty interest set. -/
def Settled (w : World) : Prop := w.state_ = .kDisconnected → w.channel_.isNoneEvent = true

theorem settled_of_ne {w : World} (h : w.state_ ≠ .kDisconnected) : w.Settled :=
  fun hst => absurd hst h

/-- Neither the state nor the channel has changed. -/
theorem Settled.of_eq {w w' : World} (h : w.Settled) (hst : w'.state_ = w.state_)
    (hch : w'.channel_ = w.channel_) : w'.Settled := by
  rw [Settled, hst, hch]
  exact h

theorem settled_closeNow (w : World) : w.closeNow.Settled := fun _ => rfl

theorem Settled.handleClose {w : World} (h : w.Settled) : w.handleClose.Settled := by
  cases hopen : w.isOpen with
  | false =>
      rw [World.handleClose, if_neg (by simp [hopen])]
      exact h.of_eq rfl rfl
  | true =>
      cases hflag : w.closeFlag_ with
      | true =>
          rw [handleClose_of_closeFlag hopen hflag]
          exact settled_closeNow w
      | false =>
          rw [handleClose_of_not_closeFlag hopen hflag]
          split
          · dsimp only
            split
            · exact settled_of_ne (by simp)
            · exact settled_closeNow _
          · exact h.of_eq rfl rfl

theorem Settled.shutdownInLoop {w : World} (h : w.Settled) : w.shutdownInLoop.Settled := by
  cases hwr : w.channel_.isWriting with
  | true => rwa [shutdownInLoop_of_writing hwr]
  | false =>
      rw [shutdownInLoop_of_not_writing hwr]
      have hs : w.shutdownWrite.Settled := h.of_eq rfl rfl
      split
      · exact hs.handleClose
      · exact hs

theorem Settled.shutdown {w : World} (h : w.Settled) (t : Thread) : (w.shutdown t).Settled := by
  cases t with
  | loop =>
      rw [shutdown_loop]
      split
      · exact Settled.shutdownInLoop (settled_of_ne (by simp))
      · exact h
  | other =>
      rw [shutdown_other]
      split
      · exact settled_of_ne (by simp [queueInLoop])
      · exact h

theorem Settled.forceClose {w : World} (h : w.Settled) : w.forceClose.Settled := by
  unfold World.forceClose
  split
  · exact settled_of_ne (by simp [queueInLoop, setState])
  · exact h

theorem Settled.forceCloseWithDelay {w : World} (h : w.Settled) :
    w.forceCloseWithDelay.Settled := by
  unfold World.forceCloseWithDelay
  split
  · exact settled_of_ne (by simp [setState])
  · exact h

theorem Settled.forceCloseInLoop {w : World} (h : w.Settled) : w.forceCloseInLoop.Settled := by
  unfold World.forceCloseInLoop
  split
  · exact Settled.handleClose (h.of_eq rfl rfl)
  · exact h

theorem appendRemaining_state (w : World) (data : Bytes) :
    (w.appendRemaining data).state_ = w.state_ := by
  unfold appendRemaining
  dsimp only
  split_ifs <;> rfl

theorem sendInLoop_of_disconnected {w : World} (h : w.state_ = .kDisconnected) (data : Bytes)
    (r : WriteResult) : w.sendInLoop data r = w := if_pos h

theorem sendInLoop_state (w : World) (data : Bytes) (r : WriteResult) :
    (w.sendInLoop data r).state_ = w.state_ := by
  unfold sendInLoop queueWriteComplete
  cases r <;> dsimp only <;> split_ifs <;> simp [appendRemaining_state, emit, queueInLoop]

theorem Settled.sendInLoop {w : World} (h : w.Settled) (data : Bytes) (r : WriteResult) :
    (w.sendInLoop data r).Settled := by
  by_cases hst : w.state_ = .kDisconnected
  · rwa [sendInLoop_of_disconnected hst]
  · exact settled_of_ne (by rwa [sendInLoop_state])

theorem Settled.send {w : World} (h : w.Settled) (t : Thread) (message : Bytes)
    (r : WriteResult) : (w.send t message r).Settled := by
  unfold World.send
  split
  · cases t with
    | loop => exact h.sendInLoop message r
    | other => exact h.of_eq rfl rfl
  · exact h

/-- Taking an event away keeps an empty interest set empty. -/
theorem Settled.disable {w w' : World} (h : w.Settled) (hst : w'.state_ = w.state_)
    (hch : w'.channel_ = w.channel_ ∨ w'.channel_ = w.channel_.disableReading ∨
      w'.channel_ = w.channel_.disableWriting) : w'.Settled := by
  intro hdis
  have hnone := h (hst.symm.trans hdis)
  rcases hch with hch | hch | hch
  · rwa [hch]
  · rw [hch]
    simp_all [Channel.isNoneEvent, Channel.disableReading, Channel.update]
  · rw [hch]
    exact Channel.isNoneEvent_disableWriting hnone

theorem Settled.stopReadInLoop {w : World} (h : w.Settled) : w.stopReadInLoop.Settled := by
  unfold World.stopReadInLoop
  split
  · exact h.disable rfl (Or.inr (Or.inl rfl))
  · exact h

theorem Settled.stopWriteInLoop {w : World} (h : w.Settled) : w.stopWriteInLoop.Settled := by
  unfold World.stopWriteInLoop
  split
  · exact h.disable rfl (Or.inr (Or.inr rfl))
  · exact h

theorem settled_startReadInLoop {w : World} (h : w.state_ ≠ .kDisconnected) :
    w.startReadInLoop.Settled := by
  unfold startReadInLoop
  split <;> exact settled_of_ne h

theorem settled_startWriteInLoop {w : World} (h : w.state_ ≠ .kDisconnected) :
    w.startWriteInLoop.Settled := by
  unfold startWriteInLoop
  split <;> exact settled_of_ne h

theorem Settled.removeChannel {w : World} (h : w.Settled) : w.removeChannel.Settled := by
  unfold World.removeChannel
  split
  · rename_i hnone
    dsimp only
    split <;> exact fun _ => hnone
  · exact h.of_eq rfl rfl

theorem Settled.connectDestroyed {w : World} (h : w.Settled) : w.connectDestroyed.Settled := by
  unfold World.connectDestroyed
  split
  · exact fun _ => rfl
  · exact h.removeChannel

theorem Settled.connectEstablished {w : World} (h : w.Settled) :
    w.connectEstablished.Settled := by
  unfold World.connectEstablished
  split
  · exact settled_of_ne (by simp [push, emit, setState])
  · exact h.of_eq rfl rfl

theorem Settled.handleRead {w : World} (h : w.Settled) (r : ReadResult) :
    (w.handleRead r).Settled := by
  cases r with
  | ok data =>
      unfold World.handleRead
      dsimp only
      split
      · exact h.of_eq rfl rfl
      · exact h.handleClose
  | fail => exact h

theorem Settled.outputDrained {w : World} (h : w.Settled) : w.outputDrained.Settled := by
  unfold World.outputDrained
  have hs : ({ w with channel_ := w.channel_.disableWriting }.queueWriteComplete).Settled := by
    unfold queueWriteComplete
    split <;> exact h.disable rfl (Or.inr (Or.inr rfl))
  dsimp only
  split
  · exact hs.shutdownInLoop
  · exact hs

theorem Settled.handleWrite {w : World} (h : w.Settled) (r : WriteResult) :
    (w.handleWrite r).Settled := by
  unfold World.handleWrite
  split
  · cases r with
    | room k =>
        have hs : ∀ hk, (w.retrieveWritten (min k w.outputBuffer_.readableBytes) hk).Settled :=
          fun _ => h.of_eq rfl rfl
        dsimp only
        split
        · split
          · exact (hs _).outputDrained
          · exact hs _
        · exact h
    | fail e => exact h
  · exact h

theorem Settled.handleEventWithGuard {w : World} (h : w.Settled) (revents : Revents)
    (r : ReadResult) (wr : WriteResult) : (w.handleEventWithGuard revents r wr).Settled := by
  have hpush : (w.push (readWriteCallbacks revents r wr)).Settled := h.of_eq rfl rfl
  unfold World.handleEventWithGuard handleError
  dsimp only
  split <;> split <;> first | exact hpush | exact hpush.handleClose

/-- `startRead` or `startWrite` runs in the loop. -/
def startsInLoop (w : World) : Action → Bool
  | .call .loop .startRead | .call .loop .startWrite => true
  | .runFunctor i _ =>
      w.pendingFunctors_[i]? == some .startReadInLoop ||
        w.pendingFunctors_[i]? == some .startWriteInLoop
  | _ => false

theorem Settled.call {w : World} (h : w.Settled) {t : Thread} {c : Call}
    (hstart : w.startsInLoop (.call t c) = true → w.state_ ≠ .kDisconnected) :
    (w.call t c).Settled := by
  cases c with
  | send message r => exact h.send t message r
  | shutdown => exact h.shutdown t
  | forceClose => exact h.forceClose
  | forceCloseWithDelay => exact h.forceCloseWithDelay
  | startRead =>
      cases t with
      | loop => exact settled_startReadInLoop (hstart rfl)
      | other => exact h.of_eq rfl rfl
  | stopRead =>
      cases t with
      | loop => exact h.stopReadInLoop
      | other => exact h.of_eq rfl rfl
  | startWrite =>
      cases t with
      | loop => exact settled_startWriteInLoop (hstart rfl)
      | other => exact h.of_eq rfl rfl
  | stopWrite =>
      cases t with
      | loop => exact h.stopWriteInLoop
      | other => exact h.of_eq rfl rfl

theorem Settled.runFunctor {w : World} (h : w.Settled) {f : Functor} (wr : WriteResult)
    (hstart : f = .startReadInLoop ∨ f = .startWriteInLoop → w.state_ ≠ .kDisconnected) :
    (w.runFunctor f wr).Settled := by
  cases f with
  | sendInLoop message => exact h.sendInLoop message wr
  | shutdownInLoop => exact h.shutdownInLoop
  | forceCloseInLoop => exact h.forceCloseInLoop
  | startReadInLoop => exact settled_startReadInLoop (hstart (Or.inl rfl))
  | stopReadInLoop => exact h.stopReadInLoop
  | startWriteInLoop => exact settled_startWriteInLoop (hstart (Or.inr rfl))
  | stopWriteInLoop => exact h.stopWriteInLoop
  | writeCompleteCallback => exact h.of_eq rfl rfl
  | highWaterMarkCallback len => exact h.of_eq rfl rfl
  | connectDestroyed => exact h.connectDestroyed

theorem Settled.resume {w : World} (h : w.Settled) (f : Frame) : (w.resume f).Settled := by
  cases f with
  | userCode => exact h
  | closeCallback => exact h.of_eq rfl rfl
  | removeChannel => exact h.removeChannel
  | readCallback r => exact h.handleRead r
  | writeCallback r => exact h.handleWrite r

theorem Settled.perform {w : World} (h : w.Settled) {a : Action}
    (hstart : w.startsInLoop a = true → w.state_ ≠ .kDisconnected) : (w.perform a).Settled := by
  cases a with
  | connectEstablished => exact h.connectEstablished
  | event revents r wr => exact h.handleEventWithGuard revents r wr
  | resume =>
      simp only [World.perform]
      cases w.frames with
      | nil => exact h
      | cons f fs =>
          have hw : ({ w with frames := fs } : World).Settled := h.of_eq rfl rfl
          exact hw.resume f
  | call t c => exact h.call hstart
  | runFunctor i wr =>
      simp only [World.perform]
      cases hi : w.pendingFunctors_[i]? with
      | none => exact h
      | some f =>
          have hw : ({ w with pendingFunctors_ := w.pendingFunctors_.eraseIdx i } : World).Settled :=
            h.of_eq rfl rfl
          refine hw.runFunctor wr fun hf => hstart ?_
          rcases hf with rfl | rfl <;> simp [startsInLoop, hi]
  | delayedClose => exact Settled.forceClose (h.of_eq rfl rfl)
  | destroy =>
      refine h.of_eq ?_ ?_
      all_goals
        simp only [World.perform, destruct]
        split <;> split <;> rfl

end World

/-! ## The connection beside the poller -/

structure PolledConnection (C : Type) where
  conn : World
  poller : EPollPoller C := {}

/-- An action of the connection, or a member function of another channel of the loop. -/
inductive LoopStep (C : Type) where
  | conn (a : Action)
  | other (c : C) (o : ChannelOp)

namespace PolledConnection

variable {C : Type} (fd : C → Nat) (c₀ : C)

/-- What every run keeps whose calls on channels are careful. -/
structure Inv (s : PolledConnection C) : Prop where
  poller : EPollPoller.Inv fd s.poller
  quiet : s.poller.Quiet fd
  channel : (s.poller.channel c₀).toChannel = s.conn.channel_
  settled : s.conn.Settled

theorem inv_start (wc hw : Bool) (mark : Nat) :
    Inv fd c₀ { conn := World.constructed wc hw mark } where
  poller := .start fd
  quiet := EPollPoller.quiet_start fd
  channel := rfl
  settled := World.settled_of_ne (by simp [World.constructed])

variable [DecidableEq C]

/-- When an action can happen.  `epoll_wait` reports what the kernel lists, even with an empty
mask. -/
def enabled (s : PolledConnection C) : Action → Bool
  | .event revents _ _ =>
      !s.conn.destructed && s.conn.frames == [] &&
        decide ((s.poller.interest (fd c₀)).map Prod.snd = some c₀) &&
          (!(revents.POLLHUP && !revents.POLLIN) || !(revents.POLLPRI || revents.POLLRDHUP))
  | a => s.conn.enabled a

def advance (s : PolledConnection C) :
    LoopStep C → Except PollerFailure (PolledConnection C)
  | .conn a => do
      let poller ← s.poller.performAll fd ((s.conn.channelOps a).map (c₀, ·))
      return { conn := s.conn.perform a, poller }
  | .other c o => do
      let poller ← s.poller.perform fd c o
      return { s with poller }

def possible (s : PolledConnection C) : LoopStep C → Bool
  | .conn a => s.enabled fd c₀ a
  | .other c _ => decide (c ≠ c₀)

/-- The runs of a connection whose channel is `c₀` among all channels of the loop. -/
def runs : System (PolledConnection C) (LoopStep C) where
  init s := ∃ wc hw mark, s = { conn := World.constructed wc hw mark }
  step s l s' := s.possible fd c₀ l = true ∧ s.advance fd c₀ l = .ok s'

/-- Every update that empties an interest set finds its channel in the kernel's list, and neither
`startRead` nor `startWrite` runs in the loop for a disconnected connection. -/
def Allowed (s : PolledConnection C) : LoopStep C → Prop
  | .conn a =>
      s.poller.CarefulAll fd ((s.conn.channelOps a).map (c₀, ·)) ∧
        (s.conn.startsInLoop a = true → s.conn.state_ ≠ .kDisconnected)
  | .other c o => s.poller.Careful c o

instance (s : PolledConnection C) (l : LoopStep C) : Decidable (s.Allowed fd c₀ l) :=
  match l with
  | .conn _ => inferInstanceAs (Decidable (_ ∧ _))
  | .other c o => inferInstanceAs (Decidable (s.poller.Careful c o))

variable {fd c₀} {s s' : PolledConnection C}

/-- The connection's calls leave its channel, as the poller sees it, where they leave it in the
connection. -/
theorem channel_performAll {p p' : EPollPoller C} (h : EPollPoller.Inv fd p)
    (hfd : Function.Injective fd) {ops : List ChannelOp}
    (hs : p.performAll fd (ops.map (c₀, ·)) = .ok p') :
    (p'.channel c₀).toChannel = ops.foldl ChannelOp.apply (p.channel c₀).toChannel := by
  induction ops generalizing p with
  | nil =>
      cases hs
      rfl
  | cons o ops ih =>
      rcases EPollPoller.performAll_cons.1 hs with ⟨p₁, hp₁, hrest⟩
      rw [ih (h.perform hfd hp₁) hrest, h.channel_perform hp₁, if_pos rfl, List.foldl_cons]

theorem Inv.step (h : Inv fd c₀ s) (hfd : Function.Injective fd) {l : LoopStep C}
    (hallowed : s.Allowed fd c₀ l) (hs : (runs fd c₀).step s l s') : Inv fd c₀ s' := by
  rcases hs with ⟨hpossible, hs⟩
  cases l with
  | conn a =>
      cases hp : s.poller.performAll fd ((s.conn.channelOps a).map (c₀, ·)) with
      | error e => simp [advance, hp, bind, Except.bind] at hs
      | ok p =>
          obtain rfl : ⟨s.conn.perform a, p⟩ = s' := by
            simpa [advance, hp, bind, Except.bind, pure, Except.pure] using hs
          refine ⟨h.poller.performAll hfd hp, h.quiet.performAll h.poller hfd hallowed.1 hp, ?_,
            h.settled.perform hallowed.2⟩
          calc
            (p.channel c₀).toChannel
                = (s.conn.channelOps a).foldl ChannelOp.apply (s.poller.channel c₀).toChannel :=
                  channel_performAll h.poller hfd hp
            _ = (s.conn.channelOps a).foldl ChannelOp.apply s.conn.channel_ := by rw [h.channel]
            _ = (s.conn.perform a).channel_ := (World.calls_perform s.conn a).symm
  | other c o =>
      cases hp : s.poller.perform fd c o with
      | error e => simp [advance, hp, bind, Except.bind] at hs
      | ok p =>
          obtain rfl : { s with poller := p } = s' := by
            simpa [advance, hp, bind, Except.bind, pure, Except.pure] using hs
          refine ⟨h.poller.perform hfd hp, (h.quiet.perform_iff h.poller hfd hp).2 hallowed, ?_,
            h.settled⟩
          have hne : c₀ ≠ c := fun heq => by simp [possible, heq] at hpossible
          rw [h.poller.channel_perform hp, if_neg hne, h.channel]

theorem reachable_inv (hfd : Function.Injective fd)
    (h : ((runs fd c₀).restrict (Allowed fd c₀)).Reachable s) : Inv fd c₀ s := by
  refine h.invariant ?_ ?_
  · rintro s ⟨wc, hw, mark, rfl⟩
    exact inv_start fd c₀ wc hw mark
  · rintro s l s' hs ⟨hallowed, hstep⟩
    exact hs.step hfd hallowed hstep

theorem Inv.no_event (h : Inv fd c₀ s) (hst : s.conn.state_ = .kDisconnected) (revents : Revents)
    (r : ReadResult) (wr : WriteResult) : s.enabled fd c₀ (.event revents r wr) = false := by
  have hnone : (s.poller.channel c₀).isNoneEvent = true := by
    rw [h.channel]
    exact h.settled hst
  simp [enabled, h.quiet c₀ hnone]

/-- In a sequence of calls on any channels the kernel's list is free of channels without interest
as long as each call is careful, and no longer.  In a run whose calls are, no event comes to a
disconnected connection. -/
theorem quiet_iff (hfd : Function.Injective fd) (c₀ : C) :
    (∀ ops, (∀ ops' s', ops' <+: ops → EPollPoller.performAll fd {} ops' = .ok s' →
        s'.Quiet fd) ↔ EPollPoller.CarefulAll fd {} ops) ∧
      ∀ s, ((runs fd c₀).restrict (Allowed fd c₀)).Reachable s → s.poller.Quiet fd ∧
        (s.conn.state_ = .kDisconnected →
          ∀ revents r wr, s.enabled fd c₀ (.event revents r wr) = false) := by
  refine ⟨(EPollPoller.quiet_start fd).along_iff (.start fd) hfd, ?_⟩
  intro s hs
  have hinv := reachable_inv hfd hs
  exact ⟨hinv.quiet, hinv.no_event⟩

/-! ## A forced close with and without `stopRead` -/

open EPollPoller in
def next (s : PolledConnection Bool) (l : LoopStep Bool) : Option (PolledConnection Bool) :=
  if s.possible twoFds true l then (s.advance twoFds true l).toOption else none

def polledStart : PolledConnection Bool := { conn := World.constructed false false 64 }

/-- The user stops reading when the connection comes up, and forces it closed. -/
def stopThenClose : List (LoopStep Bool) :=
  [.conn .connectEstablished, .conn (.call .loop .stopRead), .conn (.call .loop .forceClose),
    .conn .resume, .conn (.runFunctor 0 (.room 0)), .conn .resume, .conn .resume]

def hangUp : Revents := { POLLHUP := true }

def stopThenCloseEnd : Option (PolledConnection Bool) :=
  System.runAll next polledStart stopThenClose

theorem step_of_next {s s' : PolledConnection Bool} {l : LoopStep Bool} (h : next s l = some s') :
    (runs EPollPoller.twoFds true).step s l s' := by
  unfold next at h
  split at h
  · rename_i hpossible
    cases hs : s.advance EPollPoller.twoFds true l with
    | error e => simp [hs, Except.toOption] at h
    | ok s₁ =>
        rw [hs] at h
        cases h
        exact ⟨hpossible, hs⟩
  · cases h

/-- `handleClose` disables a channel that `stopRead` has taken out of the list, and so puts it back;
the next hang-up runs `handleClose` again. -/
theorem hangUp_reenters : ∃ s, (runs EPollPoller.twoFds true).Reachable s ∧
    s.conn.state_ = .kDisconnected ∧ s.conn.channel_.isNoneEvent = true ∧
    s.poller.interest 4 = some ((false, false), true) ∧
    s.enabled EPollPoller.twoFds true (.event hangUp .fail (.room 0)) = true ∧
    (s.conn.perform (.event hangUp .fail (.room 0))).effects.getLast? = some .assertionFailed := by
  obtain ⟨s, hs, hend⟩ : ∃ s, stopThenCloseEnd = some s ∧ (s.conn.state_ = .kDisconnected ∧
      s.conn.channel_.isNoneEvent = true ∧
      s.poller.interest 4 = some ((false, false), true) ∧
      s.enabled EPollPoller.twoFds true (.event hangUp .fail (.room 0)) = true ∧
      (s.conn.perform (.event hangUp .fail (.room 0))).effects.getLast? =
        some .assertionFailed) := by
    have hrun : stopThenCloseEnd.map (fun s => decide (s.conn.state_ = .kDisconnected ∧
        s.conn.channel_.isNoneEvent = true ∧
        s.poller.interest 4 = some ((false, false), true) ∧
        s.enabled EPollPoller.twoFds true (.event hangUp .fail (.room 0)) = true ∧
        (s.conn.perform (.event hangUp .fail (.room 0))).effects.getLast? =
          some .assertionFailed)) = some true := by decide +kernel
    rcases Option.map_eq_some_iff.1 hrun with ⟨s, hs, hall⟩
    exact ⟨s, hs, of_decide_eq_true hall⟩
  exact ⟨s, .of_runAll (fun _ _ _ => step_of_next) (.init ⟨false, false, 64, rfl⟩) hs, hend⟩

def nextAllowed (s : PolledConnection Bool) (l : LoopStep Bool) : Option (PolledConnection Bool) :=
  if s.Allowed EPollPoller.twoFds true l then next s l else none

def forceClose : List (LoopStep Bool) :=
  [.conn .connectEstablished, .other false (.update .enableReading),
    .conn (.call .loop .forceClose), .conn .resume, .conn (.runFunctor 0 (.room 0)), .conn .resume]

def forceCloseEnd : Option (PolledConnection Bool) :=
  System.runAll nextAllowed polledStart forceClose

/-- Without `stopRead` the hang-up does not arrive. -/
theorem quiet_forceClose : ∃ s, forceCloseEnd = some s ∧ s.conn.state_ = .kDisconnected ∧
    s.poller.Quiet EPollPoller.twoFds ∧
    s.enabled EPollPoller.twoFds true (.event hangUp .fail (.room 0)) = false := by
  obtain ⟨s, hs, hst⟩ : ∃ s, forceCloseEnd = some s ∧ s.conn.state_ = .kDisconnected := by
    have hrun : forceCloseEnd.map (fun s => s.conn.state_) = some .kDisconnected := by
      decide +kernel
    exact Option.map_eq_some_iff.1 hrun
  have hreach : ((runs EPollPoller.twoFds true).restrict
      (Allowed EPollPoller.twoFds true)).Reachable s := by
    refine .of_runAll ?_ (.init ⟨false, false, 64, rfl⟩) hs
    intro s l s' hnext
    rcases Option.ite_none_right_eq_some.1 hnext with ⟨hallowed, hs'⟩
    exact ⟨hallowed, step_of_next hs'⟩
  have hquiet := (quiet_iff EPollPoller.twoFds_injective true).2 s hreach
  exact ⟨s, hs, hst, hquiet.1, hquiet.2 hst hangUp .fail (.room 0)⟩

end PolledConnection
end Net
end Longky
