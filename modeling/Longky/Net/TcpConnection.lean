import Longky.Net.WfBuffer

/-!
# TcpConnection — one connection and its event loop

`netLayer/tcp/TcpConnection.cpp`, `netLayer/event/Channel.{h,cpp}` and `netLayer/socket/Socket.cpp`.

The object's members are `TcpConnection`.  Around it, `World` keeps what the object's functions
touch outside: the functors it has queued in its loop, the timers of `forceCloseWithDelay`, the
part of the loop thread's call stack that is still to run after a user callback returns, and the
list of effects it has had so far (calls of user callbacks and system calls on its socket).

Kernel answers are arguments: `sockets::write` and `readv` return what the environment chooses.
-/

namespace Longky
namespace Net

open Lib

/-! ## Answers of the kernel -/

inductive Errno where
  | EWOULDBLOCK
  | EPIPE
  | ECONNRESET
  | other (code : Nat)
  deriving DecidableEq, Repr

/-- `errno == EPIPE || errno == ECONNRESET`. -/
def Errno.isFault : Errno → Bool
  | EPIPE | ECONNRESET => true
  | EWOULDBLOCK | other _ => false

/-- The answer of `write(2)`: the kernel has room for `n` bytes, so it takes `min n count` of the
`count` bytes it is offered (all, some or none of them), or it reports an error. -/
inductive WriteResult where
  | room (n : Nat)
  | fail (e : Errno)
  deriving DecidableEq, Repr

/-- The answer of `readv(2)`: the bytes read (none at end of file), or an error. -/
inductive ReadResult where
  | ok (data : Bytes)
  | fail
  deriving DecidableEq, Repr

/-! ## Channel -/

/-- The interest set `events_` of a channel; it is only ever a union of `kReadEvent` and
`kWriteEvent`. -/
structure Channel where
  readEvent : Bool := false
  writeEvent : Bool := false
  addedToLoop_ : Bool := false
  deriving DecidableEq, Repr

namespace Channel

def isNoneEvent (c : Channel) : Bool := !c.readEvent && !c.writeEvent

def isWriting (c : Channel) : Bool := c.writeEvent

def isReading (c : Channel) : Bool := c.readEvent

/-- `update()` hands the new interest set to the poller. -/
def update (c : Channel) : Channel := { c with addedToLoop_ := true }

def enableReading (c : Channel) : Channel := { c with readEvent := true }.update

def disableReading (c : Channel) : Channel := { c with readEvent := false }.update

def enableWriting (c : Channel) : Channel := { c with writeEvent := true }.update

def disableWriting (c : Channel) : Channel := { c with writeEvent := false }.update

def disableAll (c : Channel) : Channel := { c with readEvent := false, writeEvent := false }.update

@[simp] theorem isWriting_enableWriting (c : Channel) : c.enableWriting.isWriting = true := rfl

@[simp] theorem isWriting_disableWriting (c : Channel) : c.disableWriting.isWriting = false := rfl

@[simp] theorem isWriting_disableAll (c : Channel) : c.disableAll.isWriting = false := rfl

@[simp] theorem isWriting_enableReading (c : Channel) :
    c.enableReading.isWriting = c.isWriting := rfl

@[simp] theorem isWriting_disableReading (c : Channel) :
    c.disableReading.isWriting = c.isWriting := rfl

@[simp] theorem isNoneEvent_disableAll (c : Channel) : c.disableAll.isNoneEvent = true := rfl

theorem not_reading_of_isNoneEvent {c : Channel} (h : c.isNoneEvent = true) :
    c.isReading = false := by
  cases hc : c.readEvent <;> simp_all [isNoneEvent, isReading]

theorem not_writing_of_isNoneEvent {c : Channel} (h : c.isNoneEvent = true) :
    c.isWriting = false := by
  cases hc : c.writeEvent <;> simp_all [isNoneEvent, isWriting]

/-- Disabling an event of an empty interest set leaves it empty. -/
theorem isNoneEvent_disableWriting {c : Channel} (h : c.isNoneEvent = true) :
    c.disableWriting.isNoneEvent = true := by
  simp_all [isNoneEvent, disableWriting, update]

end Channel

/-- The event mask that the poller reports for a channel. -/
structure Revents where
  POLLIN : Bool := false
  POLLPRI : Bool := false
  POLLRDHUP : Bool := false
  POLLOUT : Bool := false
  POLLHUP : Bool := false
  POLLERR : Bool := false
  POLLNVAL : Bool := false
  deriving DecidableEq, Repr

/-! ## The connection and its surroundings -/

inductive StateE where
  | kDisconnected
  | kConnecting
  | kConnected
  | kDisconnecting
  deriving DecidableEq, Repr

/-- Which thread makes a call. -/
inductive Thread where
  | loop
  | other
  deriving DecidableEq, Repr

/-- The functors a connection puts into `EventLoop::pendingFunctors_`. -/
inductive Functor where
  | sendInLoop (message : Bytes)
  | shutdownInLoop
  | forceCloseInLoop
  | startReadInLoop
  | stopReadInLoop
  | startWriteInLoop
  | stopWriteInLoop
  | writeCompleteCallback
  | highWaterMarkCallback (len : Nat)
  | connectDestroyed
  deriving DecidableEq, Repr

/-- What the loop thread still has to do once the innermost user callback has returned. -/
inductive Frame where
  /-- A user callback is running. -/
  | userCode
  /-- `handleClose` is about to call `closeCallback_`. -/
  | closeCallback
  /-- `connectDestroyed` is about to remove the channel. -/
  | removeChannel
  /-- `Channel::handleEventWithGuard` is about to call `readCallback_`. -/
  | readCallback (r : ReadResult)
  /-- `Channel::handleEventWithGuard` is about to call `writeCallback_`. -/
  | writeCallback (r : WriteResult)
  deriving DecidableEq, Repr

/-- What can be seen of a connection from outside. -/
inductive Effect where
  /-- The kernel accepted bytes. -/
  | wrote (bytes : Bytes)
  /-- The direct write of `sendInLoop` failed with `EPIPE` or `ECONNRESET`. -/
  | faultError
  /-- `socket_->shutdownWrite()`, with the bytes that were in `outputBuffer_` at the time. -/
  | shutdownWrite (unsent : Bytes)
  /-- `connectionCallback_`, with `state_` at the time. -/
  | connectionCallback (state : StateE)
  | messageCallback
  | closeCallback
  /-- `sockets::close(sockfd_)`. -/
  | close
  | assertionFailed
  deriving DecidableEq, Repr

/-- The members of `class TcpConnection` (callbacks are `true` when set), with its `Socket`'s
`setSolinger_`. -/
structure TcpConnection where
  state_ : StateE := .kConnecting
  reading_ : Bool := true
  channel_ : Channel := {}
  setSolinger_ : Bool := false
  writeCompleteCallback_ : Bool := false
  highWaterMarkCallback_ : Bool := false
  highWaterMark_ : Nat := 64 * 1024 * 1024
  inputBuffer_ : WfBuffer := WfBuffer.construct Buffer.kInitialSize
  outputBuffer_ : WfBuffer := WfBuffer.construct Buffer.kInitialSize
  closeFlag_ : Bool := false
  forceFlag_ : Bool := false
  dissByPeer_ : Bool := false

/-- A connection with the parts of the loop and of the kernel that it uses. -/
structure World extends TcpConnection where
  pendingFunctors_ : List Functor := []
  /-- Timers of `forceCloseWithDelay` that have not fired. -/
  delayedCloses : Nat := 0
  frames : List Frame := []
  effects : List Effect := []
  /-- `connectDestroyed` has removed the channel. -/
  channelRemoved : Bool := false
  /-- `~TcpConnection` has run. -/
  destructed : Bool := false

namespace World

def emit (w : World) (e : Effect) : World :=
  { w with effects := w.effects ++ [e] }

def queueInLoop (w : World) (f : Functor) : World :=
  { w with pendingFunctors_ := w.pendingFunctors_ ++ [f] }

def setState (w : World) (s : StateE) : World :=
  { w with state_ := s }

def push (w : World) (fs : List Frame) : World :=
  { w with frames := fs ++ w.frames }

/-! ## Sending -/

/-- The test of `sendInLoop` for writing to the socket at once. -/
def writesDirectly (w : World) : Bool :=
  !w.channel_.isWriting && w.outputBuffer_.readableBytes == 0

/-- The second half of `sendInLoop`: keep what was not written and ask for write events. -/
def appendRemaining (w : World) (data : Bytes) : World :=
  if 0 < data.length then
    let oldLen := w.outputBuffer_.readableBytes
    -- the callback is due only when this append crosses the mark
    let w₁ :=
      if w.highWaterMark_ ≤ oldLen + data.length ∧ oldLen < w.highWaterMark_ ∧
          w.highWaterMarkCallback_ = true then
        w.queueInLoop (.highWaterMarkCallback (oldLen + data.length))
      else w
    let w₂ := { w₁ with outputBuffer_ := w₁.outputBuffer_.append data }
    if !w₂.channel_.isWriting then
      { w₂ with channel_ := w₂.channel_.enableWriting }
    else w₂
  else w

/-- `if (writeCompleteCallback_) loop_->queueInLoop(...)`. -/
def queueWriteComplete (w : World) : World :=
  if w.writeCompleteCallback_ then w.queueInLoop .writeCompleteCallback else w

def sendInLoop (w : World) (data : Bytes) (r : WriteResult) : World :=
  if w.state_ = .kDisconnected then
    -- "disconnected, give up writing"
    w
  else if w.writesDirectly then
    match r with
    | .room n =>
        -- `nwrote >= 0`: the kernel took a first part of the message, possibly all or none of it
        let w₁ := w.emit (.wrote (data.take n))
        let remaining := data.drop n
        if remaining.length = 0 then w₁.queueWriteComplete else w₁.appendRemaining remaining
    | .fail e =>
        -- a fault drops the whole message; any other error leaves it for `handleWrite`
        if e.isFault then w.emit .faultError else w.appendRemaining data
  else
    w.appendRemaining data

/-- All `send` overloads; the message has been copied out of the caller's buffer. -/
def send (w : World) (t : Thread) (message : Bytes) (r : WriteResult) : World :=
  if w.state_ = .kConnected then
    match t with
    | .loop => w.sendInLoop message r
    | .other => w.queueInLoop (.sendInLoop message)
  else w

/-! ## Closing -/

/-- `socket_->shutdownWrite()`. -/
def shutdownWrite (w : World) : World :=
  w.emit (.shutdownWrite w.outputBuffer_.readable)

/-- The branch of `handleClose` that closes; `closeCallback_` follows when the user's
`connectionCallback_` has returned. -/
def closeNow (w : World) : World :=
  (({ w with state_ := .kDisconnected, channel_ := w.channel_.disableAll }).emit
    (.connectionCallback .kDisconnected)).push [.userCode, .closeCallback]

/-- `handleClose`'s `assert(state_ == kConnected || state_ == kDisconnecting)`. -/
def isOpen (w : World) : Bool :=
  w.state_ == .kConnected || w.state_ == .kDisconnecting

mutual

def handleClose (w : World) : World :=
  if w.isOpen then
    if w.closeFlag_ then
      w.closeNow
    else
      -- "connect Finish request from peer"
      { w with dissByPeer_ := true }.shutdown .loop
  else w.emit .assertionFailed
termination_by (if w.state_ = .kConnected then 3 else 0) + 1
decreasing_by all_goals simp_all

def shutdown (w : World) (t : Thread) : World :=
  if w.state_ = .kConnected then
    let w₁ := { w with closeFlag_ := true }.setState .kDisconnecting
    match t with
    | .loop => w₁.shutdownInLoop
    | .other => w₁.queueInLoop .shutdownInLoop
  else w
termination_by if w.state_ = .kConnected then 3 else 0
decreasing_by all_goals simp_all [setState]

def shutdownInLoop (w : World) : World :=
  if !w.channel_.isWriting then
    let w₁ := w.shutdownWrite
    -- the peer closed first, so nothing more will come in: close both ways
    if w₁.dissByPeer_ then w₁.handleClose else w₁
  else w
termination_by (if w.state_ = .kConnected then 3 else 0) + 2
decreasing_by exact Nat.lt_succ_self _

end

theorem shutdown_loop (w : World) :
    w.shutdown .loop =
      if w.state_ = .kConnected then
        shutdownInLoop { w with closeFlag_ := true, state_ := .kDisconnecting }
      else w := by
  rw [shutdown]
  rfl

theorem shutdown_other (w : World) :
    w.shutdown .other =
      if w.state_ = .kConnected then
        queueInLoop { w with closeFlag_ := true, state_ := .kDisconnecting } .shutdownInLoop
      else w := by
  rw [shutdown]
  rfl

theorem shutdownInLoop_of_writing {w : World} (h : w.channel_.isWriting = true) :
    w.shutdownInLoop = w := by
  rw [shutdownInLoop]
  simp [h]

theorem shutdownInLoop_of_not_writing {w : World} (h : w.channel_.isWriting = false) :
    w.shutdownInLoop =
      if w.dissByPeer_ then w.shutdownWrite.handleClose else w.shutdownWrite := by
  rw [shutdownInLoop]
  simp only [h, Bool.not_false, if_true]
  rfl

theorem handleClose_of_closeFlag {w : World} (hopen : w.isOpen = true)
    (hflag : w.closeFlag_ = true) : w.handleClose = w.closeNow := by
  rw [handleClose]
  simp [hopen, hflag]

/-- The recursion `handleClose`, `shutdown`, `shutdownInLoop`, `handleClose` unrolled: the inner
`handleClose` finds `closeFlag_` set by `shutdown`. -/
theorem handleClose_of_not_closeFlag {w : World} (hopen : w.isOpen = true)
    (hflag : w.closeFlag_ = false) :
    w.handleClose =
      if w.state_ = .kConnected then
        let w₁ := { w with dissByPeer_ := true, closeFlag_ := true, state_ := .kDisconnecting }
        if w.channel_.isWriting then w₁ else w₁.shutdownWrite.closeNow
      else { w with dissByPeer_ := true } := by
  rw [handleClose]
  simp only [hopen, hflag, if_true, Bool.false_eq_true, if_false, shutdown_loop]
  split
  · cases hwr : w.channel_.isWriting with
    | true =>
        rw [shutdownInLoop_of_writing (by exact hwr)]
        simp
    | false =>
        rw [shutdownInLoop_of_not_writing (by exact hwr)]
        simp only [if_true, Bool.false_eq_true, if_false]
        rw [handleClose_of_closeFlag]
        · rfl
        · rfl
  · rfl

def forceClose (w : World) : World :=
  if w.isOpen then (w.setState .kDisconnecting).queueInLoop .forceCloseInLoop else w

def forceCloseWithDelay (w : World) : World :=
  if w.isOpen then
    -- the timer runs `forceClose`, "not forceCloseInLoop to avoid race condition"
    { w.setState .kDisconnecting with delayedCloses := w.delayedCloses + 1 }
  else w

def forceCloseInLoop (w : World) : World :=
  if w.isOpen then
    -- "as if we received 0 byte in handleRead()"
    handleClose { w with closeFlag_ := true, forceFlag_ := true, setSolinger_ := true }
  else w

/-! ## Reading and writing on or off -/

def startReadInLoop (w : World) : World :=
  if !w.reading_ || !w.channel_.isReading then
    { w with channel_ := w.channel_.enableReading, reading_ := true }
  else w

def stopReadInLoop (w : World) : World :=
  if w.reading_ || w.channel_.isReading then
    { w with channel_ := w.channel_.disableReading, reading_ := false }
  else w

def startWriteInLoop (w : World) : World :=
  if !w.channel_.isWriting then { w with channel_ := w.channel_.enableWriting } else w

def stopWriteInLoop (w : World) : World :=
  if w.channel_.isWriting then { w with channel_ := w.channel_.disableWriting } else w

/-- `loop_->runInLoop(f)`: at once on the loop thread, queued from another. -/
def runInLoop (w : World) (t : Thread) (f : Functor) (now : World → World) : World :=
  match t with
  | .loop => now w
  | .other => w.queueInLoop f

def startRead (w : World) (t : Thread) : World :=
  w.runInLoop t .startReadInLoop startReadInLoop

def stopRead (w : World) (t : Thread) : World :=
  w.runInLoop t .stopReadInLoop stopReadInLoop

def startWrite (w : World) (t : Thread) : World :=
  w.runInLoop t .startWriteInLoop startWriteInLoop

def stopWrite (w : World) (t : Thread) : World :=
  w.runInLoop t .stopWriteInLoop stopWriteInLoop

/-! ## Birth and death -/

def connectEstablished (w : World) : World :=
  if w.state_ = .kConnecting then
    let w₁ := w.setState .kConnected
    let w₂ := { w₁ with channel_ := w₁.channel_.enableReading }
    (w₂.emit (.connectionCallback w₂.state_)).push [.userCode]
  else w.emit .assertionFailed

/-- The end of `connectDestroyed`: `channel_->remove()` and, after a forced close, the socket. -/
def removeChannel (w : World) : World :=
  if w.channel_.isNoneEvent then
    let w₁ := { w with channel_ := { w.channel_ with addedToLoop_ := false }, channelRemoved := true }
    -- after `setSolinger` the destructor of `Socket` leaves the descriptor open
    if w₁.forceFlag_ then w₁.emit .close else w₁
  else w.emit .assertionFailed

def connectDestroyed (w : World) : World :=
  if w.state_ = .kConnected then
    let w₁ := { w with state_ := .kDisconnected, channel_ := w.channel_.disableAll }
    (w₁.emit (.connectionCallback w₁.state_)).push [.userCode, .removeChannel]
  else w.removeChannel

/-- `~TcpConnection`, and with it `~Socket`. -/
def destruct (w : World) : World :=
  let w₁ := if w.state_ = .kDisconnected then w else w.emit .assertionFailed
  let w₂ := if !w₁.setSolinger_ then w₁.emit .close else w₁
  { w₂ with destructed := true }

/-! ## Event handlers -/

/-- `handleError` reads and logs `SO_ERROR`. -/
def handleError (w : World) : World := w

def handleRead (w : World) (r : ReadResult) : World :=
  match r with
  | .ok data =>
      if 0 < data.length then
        ({ w with inputBuffer_ := w.inputBuffer_.readFd data }.emit .messageCallback).push [.userCode]
      -- `n == 0` is the end of file
      else w.handleClose
  | .fail => w.handleError

/-- `outputBuffer_.retrieve(n)` after the kernel took `n` bytes. -/
def retrieveWritten (w : World) (n : Nat) (h : n ≤ w.outputBuffer_.readableBytes) : World :=
  { w with outputBuffer_ := w.outputBuffer_.retrieve n h }.emit
    (.wrote (w.outputBuffer_.readable.take n))

/-- The part of `handleWrite` that runs when `outputBuffer_` has become empty. -/
def outputDrained (w : World) : World :=
  let w₁ := { w with channel_ := w.channel_.disableWriting }.queueWriteComplete
  if w₁.state_ = .kDisconnecting then w₁.shutdownInLoop else w₁

def handleWrite (w : World) (r : WriteResult) : World :=
  if w.channel_.isWriting then
    match r with
    | .room k =>
        if 0 < min k w.outputBuffer_.readableBytes then
          let w₁ := w.retrieveWritten (min k w.outputBuffer_.readableBytes) (Nat.min_le_right _ _)
          if w₁.outputBuffer_.readableBytes = 0 then w₁.outputDrained else w₁
        else w
    | .fail _ => w
  else
    -- "is down, no more writing"
    w

/-- The last two tests of `Channel::handleEventWithGuard`. -/
def readWriteCallbacks (revents : Revents) (r : ReadResult) (wr : WriteResult) : List Frame :=
  (if revents.POLLIN || revents.POLLPRI || revents.POLLRDHUP then [.readCallback r] else []) ++
    if revents.POLLOUT then [.writeCallback wr] else []

theorem ne_of_mem_readWriteCallbacks {revents : Revents} {r : ReadResult} {wr : WriteResult}
    {f : Frame} (h : f ∈ readWriteCallbacks revents r wr) :
    f ≠ .closeCallback ∧ f ≠ .removeChannel := by
  rcases List.mem_append.1 h with hread | hwrite
  · split at hread <;> simp_all
  · split at hwrite <;> simp_all

/-- `Channel::handleEventWithGuard`.  The close callback runs first; the read and write callbacks
follow, each once the user code of the one before has returned. -/
def handleEventWithGuard (w : World) (revents : Revents) (r : ReadResult) (wr : WriteResult) :
    World :=
  -- what `handleClose` pushes must run before the read and write callbacks
  let w₁ := w.push (readWriteCallbacks revents r wr)
  let w₂ := if revents.POLLHUP && !revents.POLLIN then w₁.handleClose else w₁
  if revents.POLLERR || revents.POLLNVAL then w₂.handleError else w₂

/-! ## Steps of the loop thread -/

/-- Run the functor that the loop has taken out of its queue. -/
def runFunctor (w : World) (f : Functor) (wr : WriteResult) : World :=
  match f with
  | .sendInLoop message => w.sendInLoop message wr
  | .shutdownInLoop => w.shutdownInLoop
  | .forceCloseInLoop => w.forceCloseInLoop
  | .startReadInLoop => w.startReadInLoop
  | .stopReadInLoop => w.stopReadInLoop
  | .startWriteInLoop => w.startWriteInLoop
  | .stopWriteInLoop => w.stopWriteInLoop
  | .writeCompleteCallback => w.push [.userCode]
  | .highWaterMarkCallback _ => w.push [.userCode]
  | .connectDestroyed => w.connectDestroyed

/-- Continue with the innermost frame, which has been taken off the stack. -/
def resume (w : World) (f : Frame) : World :=
  match f with
  | .userCode => w
  | .closeCallback =>
      -- `TcpServer::removeConnection` ends in `queueInLoop(connectDestroyed)`
      (w.emit .closeCallback).queueInLoop .connectDestroyed
  | .removeChannel => w.removeChannel
  | .readCallback r => w.handleRead r
  | .writeCallback r => w.handleWrite r

end World
end Net
end Longky
