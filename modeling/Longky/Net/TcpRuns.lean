import Longky.Lib.Reach
import Longky.Net.TcpConnection

/-!
# TcpRuns — the runs of one connection

The loop thread delivers channel events, runs queued functors and fires the timers of
`forceCloseWithDelay`; user code calls the connection from inside its callbacks, from elsewhere on
the loop thread, or from another thread.

A handler runs without interruption up to the next user callback: the header declares the calls of
another thread "NOT thread safe, no simultaneous calling", so each of them is one step, between two
handlers or while a user callback runs.
-/

namespace Longky
namespace Net

open Lib

/-- The public calls that change a connection. -/
inductive Call where
  | send (message : Bytes) (r : WriteResult)
  | shutdown
  | forceClose
  | forceCloseWithDelay
  | startRead
  | stopRead
  | startWrite
  | stopWrite
  deriving DecidableEq, Repr

inductive Action where
  | connectEstablished
  /-- `Channel::handleEvent`, with what `readv` and `write` will answer. -/
  | event (revents : Revents) (r : ReadResult) (wr : WriteResult)
  /-- The innermost user callback returns, or the handler below it goes on. -/
  | resume
  | call (t : Thread) (c : Call)
  /-- The loop runs the functor at a position of its queue. -/
  | runFunctor (i : Nat) (wr : WriteResult)
  /-- A timer of `forceCloseWithDelay` fires. -/
  | delayedClose
  /-- The last `TcpConnectionPtr` goes away. -/
  | destroy
  deriving DecidableEq, Repr

/-- A queued functor that holds a `TcpConnectionPtr`; the others are bound to a bare `this`. -/
def Functor.owns : Functor → Bool
  | .forceCloseInLoop | .writeCompleteCallback | .highWaterMarkCallback _ | .connectDestroyed => true
  | .sendInLoop _ | .shutdownInLoop | .startReadInLoop | .stopReadInLoop | .startWriteInLoop
  | .stopWriteInLoop => false

namespace World

def call (w : World) (t : Thread) : Call → World
  | .send message r => w.send t message r
  | .shutdown => w.shutdown t
  | .forceClose => w.forceClose
  | .forceCloseWithDelay => w.forceCloseWithDelay
  | .startRead => w.startRead t
  | .stopRead => w.stopRead t
  | .startWrite => w.startWrite t
  | .stopWrite => w.stopWrite t

/-- User code runs on the loop thread when no handler is in the middle of its own work. -/
def userMayCall (w : World) : Bool :=
  w.frames.head? == none || w.frames.head? == some .userCode

/-- When an action can happen.  No event reaches an empty interest set, and `POLLHUP` without
`POLLIN` comes without `POLLPRI` and `POLLRDHUP`. -/
def enabled (w : World) (a : Action) : Bool :=
  !w.destructed && match a with
    | .connectEstablished => w.frames == [] && w.state_ == .kConnecting
    | .event revents _ _ =>
        w.frames == [] && !w.channel_.isNoneEvent &&
          (!(revents.POLLHUP && !revents.POLLIN) || !(revents.POLLPRI || revents.POLLRDHUP))
    | .resume => w.frames != []
    | .call t _ => t == .other || w.userMayCall
    | .runFunctor i _ => w.frames == [] && w.pendingFunctors_[i]?.isSome
    | .delayedClose => w.frames == [] && decide (0 < w.delayedCloses)
    | .destroy => w.frames == [] && w.channelRemoved && !w.pendingFunctors_.any Functor.owns

def perform (w : World) : Action → World
  | .connectEstablished => w.connectEstablished
  | .event revents r wr => w.handleEventWithGuard revents r wr
  | .resume =>
      match w.frames with
      | [] => w
      | f :: fs => { w with frames := fs }.resume f
  | .call t c => w.call t c
  | .runFunctor i wr =>
      match w.pendingFunctors_[i]? with
      | none => w
      | some f => { w with pendingFunctors_ := w.pendingFunctors_.eraseIdx i }.runFunctor f wr
  | .delayedClose => { w with delayedCloses := w.delayedCloses - 1 }.forceClose
  | .destroy => w.destruct

/-- The next state, when an action is enabled and permitted. -/
def next (allowed : World → Action → Bool) (w : World) (a : Action) : Option World :=
  if w.enabled a && allowed w a then some (w.perform a) else none

theorem next_eq_some {allowed : World → Action → Bool} {w w' : World} {a : Action}
    (h : next allowed w a = some w') :
    allowed w a = true ∧ w.enabled a = true ∧ w' = w.perform a := by
  rcases Option.ite_none_right_eq_some.1 h with ⟨ha, heq⟩
  rw [Bool.and_eq_true] at ha
  exact ⟨ha.2, ha.1, (Option.some.inj heq).symm⟩

/-- A connection as its constructor leaves it, with any callbacks and any high water mark. -/
def constructed (writeComplete highWater : Bool) (mark : Nat) : World where
  writeCompleteCallback_ := writeComplete
  highWaterMarkCallback_ := highWater
  highWaterMark_ := mark

/-- The runs of one connection. -/
def runs : System World Action where
  init w := ∃ wc hw mark, w = constructed wc hw mark
  step w a w' := w.enabled a = true ∧ w' = w.perform a

end World
end Net
end Longky
