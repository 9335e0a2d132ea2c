import Longky.Lib.Bytes
import Longky.Net.ClosedConnection

/-!
# ServerDestroy — the connections of a server that is destroyed

`netLayer/tcp/s/server/TcpServer.cpp`.  `~TcpServer` runs `connectDestroyed` for each connection in
`connections_`, and `connectDestroyed` looks for `kConnected` alone.

* `served` — the runs of a connection up to its removal from `connections_`;
* `Accounts` — whatever happens to a connection, it gets a down notification exactly when it moves
  to `kDisconnected`;
* `safelyDestroyed_iff` — the connections that the destructor leaves in order.

Connections share no state.  What the callbacks of the others do to a connection is a call like any
other, and an `EventLoop` of its own takes further steps of the connection before the queued
`connectDestroyed`: both belong to the run that ends in the state in which the destructor's call
finds it.
-/

namespace Longky
namespace Net

open Lib

namespace World

/-! ## Connections in the map -/

/-- A step of a connection in `connections_`: what `closeCallback_` asks for, the removal from the
map with `connectDestroyed` after it, has not come yet. -/
def serve (w : World) (a : Action) : World :=
  match a, w.frames with
  | .resume, .closeCallback :: fs => { w with frames := fs }.emit .closeCallback
  | a, _ => w.perform a

/-- The runs of a connection up to its removal from `connections_`. -/
def served : System World Action where
  init w := ∃ wc hw mark, w = constructed wc hw mark
  step w a w' := w.enabled a = true ∧ w' = w.serve a

theorem serve_eq (w : World) (a : Action) :
    w.serve a = w.perform a ∨
      ∃ fs, w.frames = .closeCallback :: fs ∧
        w.serve a = { w with frames := fs }.emit .closeCallback := by
  unfold serve
  split
  · rename_i fs hf
    exact .inr ⟨fs, hf, rfl⟩
  · exact .inl rfl

/-! ## The destructor -/

/-- `connectDestroyed` to its end, when user code makes `calls` in the down notification. -/
def connectDestroyedWith (w : World) (calls : List (Thread × Call)) : World :=
  if w.state_ = .kConnected then
    let w₁ := calls.foldl (fun w c => w.call c.1 c.2) w.connectDestroyed
    -- the callback returns, and `channel_->remove()` follows
    (w₁.perform .resume).perform .resume
  else w.connectDestroyed

/-- `TcpServer::~TcpServer`. -/
def serverDestroyed (connections_ : Bytes → Option World)
    (calls : Bytes → List (Thread × Call)) : Bytes → Option World :=
  fun name => (connections_ name).map fun conn => conn.connectDestroyedWith (calls name)

/-! ## Down notifications -/

/-- The times that `connectionCallback_` has run with `disconnected()`. -/
def downs (w : World) : Nat := w.effects.count (.connectionCallback .kDisconnected)

/-- The notification that goes with `kDisconnected`. -/
def due (w : World) : Nat := if w.state_ = .kDisconnected then 1 else 0

/-- From `w` to `w'` there are as many down notifications as moves to `kDisconnected`. -/
def Accounts (w w' : World) : Prop := w'.downs + w.due = w.downs + w'.due

namespace Accounts

variable {w w' w'' : World}

theorem refl (w : World) : w.Accounts w := rfl

theorem trans (h : w.Accounts w') (h' : w'.Accounts w'') : w.Accounts w'' := by
  unfold Accounts at *
  omega

theorem of_eq (hst : w'.state_ = w.state_) (hdowns : w'.downs = w.downs) : w.Accounts w' := by
  simp only [Accounts, due, hst, hdowns]

/-- A step between states that are not disconnected. -/
theorem of_ne (h : w.state_ ≠ .kDisconnected) (h' : w'.state_ ≠ .kDisconnected)
    (hdowns : w'.downs = w.downs) : w.Accounts w' := by
  simp only [Accounts, due, if_neg h, if_neg h', hdowns]

end Accounts

theorem downs_emit {e : Effect} (he : e ≠ .connectionCallback .kDisconnected) (w : World) :
    (w.emit e).downs = w.downs := by
  simp [downs, emit, he]

theorem accounts_emit {e : Effect} (he : e ≠ .connectionCallback .kDisconnected) (w : World) :
    w.Accounts (w.emit e) :=
  .of_eq rfl (downs_emit he w)

theorem downs_closing (w : World) (c : Channel) :
    (({ w with state_ := .kDisconnected, channel_ := c }).emit
      (.connectionCallback .kDisconnected)).downs = w.downs + 1 := by
  simp [downs, emit]

theorem accounts_closing {w : World} (h : w.state_ ≠ .kDisconnected) (c : Channel)
    (fs : List Frame) : w.Accounts ((({ w with state_ := .kDisconnected, channel_ := c }).emit
      (.connectionCallback .kDisconnected)).push fs) := by
  have hdowns := downs_closing w c
  unfold Accounts due
  rw [if_neg h]
  exact hdowns

theorem accounts_closeNow {w : World} (h : w.isOpen = true) : w.Accounts w.closeNow :=
  accounts_closing (isOpen_ne_disconnected h) _ _

theorem accounts_shutdownWrite (w : World) : w.Accounts w.shutdownWrite :=
  accounts_emit (by simp) w

theorem accounts_handleClose (w : World) : w.Accounts w.handleClose := by
  cases hopen : w.isOpen with
  | false =>
      rw [handleClose, if_neg (by simp [hopen])]
      exact accounts_emit (by simp) w
  | true =>
      cases hflag : w.closeFlag_ with
      | true =>
          rw [handleClose_of_closeFlag hopen hflag]
          exact accounts_closeNow hopen
      | false =>
          have hne := isOpen_ne_disconnected hopen
          rw [handleClose_of_not_closeFlag hopen hflag]
          dsimp only
          split_ifs
          · exact .of_ne hne (by simp) rfl
          · -- `shutdown` on the way has moved the connection to `kDisconnecting`
            have hmoved : w.Accounts { w with
                dissByPeer_ := true, closeFlag_ := true, state_ := .kDisconnecting } :=
              .of_ne hne (by simp) rfl
            exact hmoved.trans ((accounts_shutdownWrite _).trans (accounts_closeNow rfl))
          · exact .of_eq rfl rfl

theorem accounts_shutdownInLoop (w : World) : w.Accounts w.shutdownInLoop := by
  cases hwr : w.channel_.isWriting with
  | true =>
      rw [shutdownInLoop_of_writing hwr]
      exact .refl w
  | false =>
      rw [shutdownInLoop_of_not_writing hwr]
      split
      · exact (accounts_shutdownWrite w).trans (accounts_handleClose _)
      · exact accounts_shutdownWrite w

theorem accounts_shutdown (w : World) (t : Thread) : w.Accounts (w.shutdown t) := by
  cases t with
  | loop =>
      rw [shutdown_loop]
      split
      · rename_i hst
        refine Accounts.trans ?_ (accounts_shutdownInLoop _)
        exact .of_ne (by simp [hst]) (by simp) rfl
      · exact .refl w
  | other =>
      rw [shutdown_other]
      split
      · rename_i hst
        exact .of_ne (by simp [hst]) (by simp [queueInLoop]) rfl
      · exact .refl w

theorem accounts_forceClose (w : World) : w.Accounts w.forceClose := by
  unfold forceClose
  split
  · rename_i hopen
    exact .of_ne (isOpen_ne_disconnected hopen) (by simp [queueInLoop, setState]) rfl
  · exact .refl w

theorem accounts_forceCloseWithDelay (w : World) : w.Accounts w.forceCloseWithDelay := by
  unfold forceCloseWithDelay
  split
  · rename_i hopen
    exact .of_ne (isOpen_ne_disconnected hopen) (by simp [setState]) rfl
  · exact .refl w

theorem accounts_forceCloseInLoop (w : World) : w.Accounts w.forceCloseInLoop := by
  unfold forceCloseInLoop
  split
  · refine Accounts.trans ?_ (accounts_handleClose _)
    exact .of_eq rfl rfl
  · exact .refl w

theorem downs_appendRemaining (w : World) (data : Bytes) :
    (w.appendRemaining data).downs = w.downs := by
  unfold appendRemaining
  dsimp only
  split_ifs <;> rfl

theorem downs_queueWriteComplete (w : World) : w.queueWriteComplete.downs = w.downs := by
  unfold queueWriteComplete
  split <;> rfl

theorem downs_sendInLoop (w : World) (data : Bytes) (r : WriteResult) :
    (w.sendInLoop data r).downs = w.downs := by
  unfold sendInLoop
  cases r <;> dsimp only <;> split_ifs <;>
    simp [downs_appendRemaining, downs_queueWriteComplete, downs_emit]

theorem accounts_sendInLoop (w : World) (data : Bytes) (r : WriteResult) :
    w.Accounts (w.sendInLoop data r) :=
  .of_eq (sendInLoop_state w data r) (downs_sendInLoop w data r)

theorem accounts_runInLoop {w : World} {now : World → World} (h : w.Accounts (now w)) (t : Thread)
    (f : Functor) : w.Accounts (w.runInLoop t f now) := by
  cases t with
  | loop => exact h
  | other => exact .of_eq rfl rfl

theorem accounts_startReadInLoop (w : World) : w.Accounts w.startReadInLoop := by
  unfold startReadInLoop
  split <;> exact .of_eq rfl rfl

theorem accounts_stopReadInLoop (w : World) : w.Accounts w.stopReadInLoop := by
  unfold stopReadInLoop
  split <;> exact .of_eq rfl rfl

theorem accounts_startWriteInLoop (w : World) : w.Accounts w.startWriteInLoop := by
  unfold startWriteInLoop
  split <;> exact .of_eq rfl rfl

theorem accounts_stopWriteInLoop (w : World) : w.Accounts w.stopWriteInLoop := by
  unfold stopWriteInLoop
  split <;> exact .of_eq rfl rfl

theorem accounts_call (w : World) (t : Thread) (c : Call) : w.Accounts (w.call t c) := by
  cases c with
  | send message r =>
      simp only [World.call, send]
      split
      · cases t with
        | loop => exact accounts_sendInLoop w message r
        | other => exact .of_eq rfl rfl
      · exact .refl w
  | shutdown => exact accounts_shutdown w t
  | forceClose => exact accounts_forceClose w
  | forceCloseWithDelay => exact accounts_forceCloseWithDelay w
  | startRead => exact accounts_runInLoop (accounts_startReadInLoop w) t _
  | stopRead => exact accounts_runInLoop (accounts_stopReadInLoop w) t _
  | startWrite => exact accounts_runInLoop (accounts_startWriteInLoop w) t _
  | stopWrite => exact accounts_runInLoop (accounts_stopWriteInLoop w) t _

theorem accounts_connectEstablished (w : World) : w.Accounts w.connectEstablished := by
  unfold connectEstablished
  split
  · rename_i hst
    refine .of_ne (by simp [hst]) (by simp [push, emit, setState]) ?_
    simp [downs, push, emit, setState]
  · exact accounts_emit (by simp) w

theorem accounts_removeChannel (w : World) : w.Accounts w.removeChannel := by
  unfold removeChannel
  dsimp only
  split_ifs
  · exact Accounts.trans (.of_eq rfl rfl) (accounts_emit (by simp) _)
  · exact .of_eq rfl rfl
  · exact accounts_emit (by simp) w

theorem accounts_connectDestroyed (w : World) : w.Accounts w.connectDestroyed := by
  unfold connectDestroyed
  split
  · rename_i hst
    exact accounts_closing (by simp [hst]) _ _
  · exact accounts_removeChannel w

theorem accounts_handleRead (w : World) (r : ReadResult) : w.Accounts (w.handleRead r) := by
  cases r with
  | ok data =>
      simp only [handleRead]
      split
      · refine .of_eq rfl ?_
        simp [downs, push, emit]
      · exact accounts_handleClose w
  | fail => exact .refl w

theorem accounts_outputDrained (w : World) : w.Accounts w.outputDrained := by
  have hdrained : w.Accounts { w with channel_ := w.channel_.disableWriting }.queueWriteComplete := by
    refine .of_eq ?_ (downs_queueWriteComplete _)
    unfold queueWriteComplete
    split <;> rfl
  unfold outputDrained
  dsimp only
  split
  · exact hdrained.trans (accounts_shutdownInLoop _)
  · exact hdrained

theorem accounts_handleWrite (w : World) (r : WriteResult) : w.Accounts (w.handleWrite r) := by
  unfold handleWrite
  split
  · cases r with
    | room k =>
        have hwritten : ∀ n h, w.Accounts (w.retrieveWritten n h) := fun n h =>
          .of_eq rfl (by simp [downs, retrieveWritten, emit])
        dsimp only
        split_ifs
        · exact (hwritten _ _).trans (accounts_outputDrained _)
        · exact hwritten _ _
        · exact .refl w
    | fail e => exact .refl w
  · exact .refl w

theorem accounts_handleEventWithGuard (w : World) (revents : Revents) (r : ReadResult)
    (wr : WriteResult) : w.Accounts (w.handleEventWithGuard revents r wr) := by
  have hpush : w.Accounts (w.push (readWriteCallbacks revents r wr)) := .of_eq rfl rfl
  unfold handleEventWithGuard handleError
  dsimp only
  split <;> split <;> first | exact hpush | exact hpush.trans (accounts_handleClose _)

theorem accounts_runFunctor (w : World) (f : Functor) (wr : WriteResult) :
    w.Accounts (w.runFunctor f wr) := by
  cases f with
  | sendInLoop message => exact accounts_sendInLoop w message wr
  | shutdownInLoop => exact accounts_shutdownInLoop w
  | forceCloseInLoop => exact accounts_forceCloseInLoop w
  | startReadInLoop => exact accounts_startReadInLoop w
  | stopReadInLoop => exact accounts_stopReadInLoop w
  | startWriteInLoop => exact accounts_startWriteInLoop w
  | stopWriteInLoop => exact accounts_stopWriteInLoop w
  | writeCompleteCallback => exact .of_eq rfl rfl
  | highWaterMarkCallback len => exact .of_eq rfl rfl
  | connectDestroyed => exact accounts_connectDestroyed w

theorem accounts_resume (w : World) (f : Frame) : w.Accounts (w.resume f) := by
  cases f with
  | userCode => exact .refl w
  | closeCallback => exact (accounts_emit (by simp) w).trans (.of_eq rfl rfl)
  | removeChannel => exact accounts_removeChannel w
  | readCallback r => exact accounts_handleRead w r
  | writeCallback r => exact accounts_handleWrite w r

theorem accounts_destruct (w : World) : w.Accounts w.destruct := by
  unfold destruct
  dsimp only
  split_ifs <;> refine .of_eq rfl ?_ <;> simp [downs, emit]

theorem accounts_perform (w : World) (a : Action) : w.Accounts (w.perform a) := by
  cases a with
  | connectEstablished => exact accounts_connectEstablished w
  | event revents r wr => exact accounts_handleEventWithGuard w revents r wr
  | resume =>
      simp only [World.perform]
      cases w.frames with
      | nil => exact .refl w
      | cons f fs =>
          have hpop : w.Accounts { w with frames := fs } := .of_eq rfl rfl
          exact hpop.trans (accounts_resume _ f)
  | call t c => exact accounts_call w t c
  | runFunctor i wr =>
      simp only [World.perform]
      cases w.pendingFunctors_[i]? with
      | none => exact .refl w
      | some f =>
          have htake : w.Accounts
              { w with pendingFunctors_ := w.pendingFunctors_.eraseIdx i } := .of_eq rfl rfl
          exact htake.trans (accounts_runFunctor _ f wr)
  | delayedClose =>
      have hfired : w.Accounts { w with delayedCloses := w.delayedCloses - 1 } := .of_eq rfl rfl
      exact hfired.trans (accounts_forceClose _)
  | destroy => exact accounts_destruct w

theorem accounts_serve (w : World) (a : Action) : w.Accounts (w.serve a) := by
  rcases serve_eq w a with h | ⟨fs, -, h⟩
  · rw [h]
    exact accounts_perform w a
  · rw [h]
    have hpop : w.Accounts { w with frames := fs } := .of_eq rfl rfl
    exact hpop.trans (accounts_emit (by simp) _)

/-- One down notification for a disconnected connection, none for the others. -/
def Notified (w : World) : Prop := w.downs = w.due

theorem Accounts.notified {w w' : World} (h : w.Accounts w') (hw : w.Notified) : w'.Notified := by
  unfold Accounts Notified at *
  omega

theorem served_notified {w : World} (h : served.Reachable w) : w.Notified := by
  refine System.Reachable.invariant (P := Notified) ?_ ?_ h
  · rintro w ⟨wc, hw, mark, rfl⟩
    rfl
  · rintro w a w' hw ⟨-, rfl⟩
    exact (accounts_serve w a).notified hw

/-! ## The state after the end -/

theorem connectDestroyed_of_disconnected {w : World} (h : w.state_ = .kDisconnected) :
    w.connectDestroyed = w.removeChannel := by
  rw [connectDestroyed, if_neg (by simp [h])]

/-- No action leaves `kDisconnected`. -/
theorem perform_disconnected {w : World} (h : w.state_ = .kDisconnected) (a : Action) :
    (w.perform a).state_ = .kDisconnected := by
  cases a with
  | connectEstablished => exact (moves_connectEstablished w).state h
  | event revents r wr => exact (moves_handleEventWithGuard w revents r wr).state h
  | resume =>
      simp only [World.perform]
      cases hf : w.frames with
      | nil => exact h
      | cons f fs =>
          by_cases hremove : f = .removeChannel
          · subst hremove
            exact (removeChannel_state _).trans h
          · exact ((moves_pop hf).trans (moves_resume _ hremove (fun _ => h))).state h
  | call t c => exact (moves_call w t c).state h
  | runFunctor i wr =>
      simp only [World.perform]
      cases w.pendingFunctors_[i]? with
      | none => exact h
      | some f =>
          by_cases hdestroy : f = .connectDestroyed
          · subst hdestroy
            simp only [World.runFunctor]
            rw [connectDestroyed_of_disconnected (by exact h)]
            exact (removeChannel_state _).trans h
          · exact ((moves_take w i).trans (moves_runFunctor _ hdestroy wr)).state h
  | delayedClose => exact (moves_forceClose _).state h
  | destroy => exact (moves_destruct w).state h

theorem serve_disconnected {w : World} (h : w.state_ = .kDisconnected) (a : Action) :
    (w.serve a).state_ = .kDisconnected := by
  rcases serve_eq w a with hs | ⟨fs, -, hs⟩
  · rw [hs]
    exact perform_disconnected h a
  · rw [hs]
    exact h

/-- A connection that has been notified of its end hears of it no more. -/
theorem served_once {w w' : World} (h : w.state_ = .kDisconnected) (hnotified : w.Notified)
    (hrun : (served.startAt w).Reachable w') : w'.downs = 1 := by
  have hkeep : w'.state_ = .kDisconnected ∧ w'.Notified := by
    refine System.Reachable.invariant (P := fun w => w.state_ = .kDisconnected ∧ w.Notified)
      ?_ ?_ hrun
    · rintro _ rfl
      exact ⟨h, hnotified⟩
    · rintro w a w' ⟨hst, hd⟩ ⟨-, rfl⟩
      exact ⟨serve_disconnected hst a, (accounts_serve w a).notified hd⟩
  exact hkeep.2.trans (if_pos hkeep.1)

/-! ## Calls in the down notification -/

/-- The interest in reading and in writing that the calls of the loop thread leave. -/
def wanted : Bool × Bool → Thread × Call → Bool × Bool
  | (_, wr), (.loop, .startRead) => (true, wr)
  | (_, wr), (.loop, .stopRead) => (false, wr)
  | (rd, _), (.loop, .startWrite) => (rd, true)
  | (rd, _), (.loop, .stopWrite) => (rd, false)
  | interest, _ => interest

/-- The callback ends with reading or writing started. -/
def leavesStarted (calls : List (Thread × Call)) : Bool :=
  let interest := calls.foldl wanted (false, false)
  interest.1 || interest.2

/-- A call on a disconnected connection: it can change the channel, and `other` threads queue. -/
structure CalledLate (w w' : World) (interest : Bool × Bool) : Prop where
  state : w'.state_ = w.state_
  frames : w'.frames = w.frames
  effects : w'.effects = w.effects
  channel : (w'.channel_.readEvent, w'.channel_.writeEvent) = interest

theorem calledLate {w : World} (h : w.state_ = .kDisconnected) (c : Thread × Call) :
    w.CalledLate (w.call c.1 c.2) (wanted (w.channel_.readEvent, w.channel_.writeEvent) c) := by
  rcases c with ⟨t, c⟩
  have hopen := isOpen_of_disconnected h
  -- the calls that send or close look at the state first; only the four that change the interest set
  -- do anything to a connection that is down
  cases c with
  | send message r =>
      have hsend : w.call t (.send message r) = w := if_neg (by simp [h])
      rw [hsend]
      cases t <;> exact ⟨rfl, rfl, rfl, rfl⟩
  | shutdown =>
      cases t with
      | loop =>
          rw [World.call, shutdown_loop, if_neg (by simp [h])]
          exact ⟨rfl, rfl, rfl, rfl⟩
      | other =>
          rw [World.call, shutdown_other, if_neg (by simp [h])]
          exact ⟨rfl, rfl, rfl, rfl⟩
  | forceClose =>
      rw [World.call, forceClose, if_neg (by simp [hopen])]
      cases t <;> exact ⟨rfl, rfl, rfl, rfl⟩
  | forceCloseWithDelay =>
      rw [World.call, forceCloseWithDelay, if_neg (by simp [hopen])]
      cases t <;> exact ⟨rfl, rfl, rfl, rfl⟩
  | startRead =>
      cases t with
      | loop =>
          simp only [World.call, startRead, runInLoop, startReadInLoop, wanted]
          split
          · exact ⟨rfl, rfl, rfl, rfl⟩
          · rename_i hreading
            refine ⟨rfl, rfl, rfl, ?_⟩
            simp only [Bool.or_eq_true, Bool.not_eq_true', not_or, Bool.not_eq_false] at hreading
            exact congrArg (·, w.channel_.writeEvent) hreading.2
      | other => exact ⟨rfl, rfl, rfl, rfl⟩
  | stopRead =>
      cases t with
      | loop =>
          simp only [World.call, stopRead, runInLoop, stopReadInLoop, wanted]
          split
          · exact ⟨rfl, rfl, rfl, rfl⟩
          · rename_i hreading
            refine ⟨rfl, rfl, rfl, ?_⟩
            simp only [Bool.or_eq_true, not_or, Bool.not_eq_true] at hreading
            exact congrArg (·, w.channel_.writeEvent) hreading.2
      | other => exact ⟨rfl, rfl, rfl, rfl⟩
  | startWrite =>
      cases t with
      | loop =>
          simp only [World.call, startWrite, runInLoop, startWriteInLoop, wanted]
          split
          · exact ⟨rfl, rfl, rfl, rfl⟩
          · rename_i hwriting
            refine ⟨rfl, rfl, rfl, ?_⟩
            simp only [Bool.not_eq_true', Bool.not_eq_false] at hwriting
            exact congrArg (w.channel_.readEvent, ·) hwriting
      | other => exact ⟨rfl, rfl, rfl, rfl⟩
  | stopWrite =>
      cases t with
      | loop =>
          simp only [World.call, stopWrite, runInLoop, stopWriteInLoop, wanted]
          split
          · exact ⟨rfl, rfl, rfl, rfl⟩
          · rename_i hwriting
            refine ⟨rfl, rfl, rfl, ?_⟩
            simp only [Bool.not_eq_true] at hwriting
            exact congrArg (w.channel_.readEvent, ·) hwriting
      | other => exact ⟨rfl, rfl, rfl, rfl⟩

theorem calledLate_all {w : World} (h : w.state_ = .kDisconnected) (calls : List (Thread × Call)) :
    w.CalledLate (calls.foldl (fun w c => w.call c.1 c.2) w)
      (calls.foldl wanted (w.channel_.readEvent, w.channel_.writeEvent)) := by
  induction calls generalizing w with
  | nil => exact ⟨rfl, rfl, rfl, rfl⟩
  | cons c calls ih =>
      have hfirst := calledLate h c
      have hrest := ih (hfirst.state.trans h)
      rw [hfirst.channel] at hrest
      exact ⟨hrest.state.trans hfirst.state, hrest.frames.trans hfirst.frames,
        hrest.effects.trans hfirst.effects, hrest.channel⟩

/-! ## One connection -/

/-- What the destructor should leave: the connection is down, `Channel::remove` has not failed its
assertion, and the connection has one down notification, however it goes on. -/
structure SafelyDestroyed (w w' : World) : Prop where
  state : w'.state_ = .kDisconnected
  remove : w'.effects.count .assertionFailed = w.effects.count .assertionFailed
  once : ∀ w'', (served.startAt w').Reachable w'' → w''.downs = 1

/-- A connection that `connectDestroyed` is written for: a connected one, if the callback does not
start what it finds stopped, or a disconnected one with an empty interest set. -/
def Destroyable (w : World) (calls : List (Thread × Call)) : Prop :=
  w.state_ = .kConnected ∧ leavesStarted calls = false ∨
    w.state_ = .kDisconnected ∧ w.channel_.isNoneEvent = true

instance (w : World) (calls : List (Thread × Call)) : Decidable (w.Destroyable calls) :=
  inferInstanceAs (Decidable (_ ∨ _))

theorem removeChannel_asserts (w : World) :
    w.removeChannel.effects.count .assertionFailed = w.effects.count .assertionFailed ↔
      w.channel_.isNoneEvent = true := by
  unfold removeChannel
  dsimp only
  split_ifs with hnone hforce
  · simp [emit, hnone]
  · simp [hnone]
  · simp [emit, hnone]

theorem isNoneEvent_eq (c : Channel) : c.isNoneEvent = !(c.readEvent || c.writeEvent) := by
  simp [Channel.isNoneEvent]

/-- A connected connection is notified, and then its channel is removed. -/
theorem connectDestroyedWith_connected {w : World} (h : w.state_ = .kConnected)
    (calls : List (Thread × Call)) :
    ∃ w₂ : World, w.connectDestroyedWith calls = w₂.removeChannel ∧ w₂.state_ = .kDisconnected ∧
      w₂.effects = w.effects ++ [.connectionCallback .kDisconnected] ∧
      w₂.channel_.isNoneEvent = !leavesStarted calls := by
  have hdown : w.connectDestroyed.state_ = .kDisconnected := by
    rw [connectDestroyed, if_pos h]
    rfl
  have hframes : w.connectDestroyed.frames = [.userCode, .removeChannel] ++ w.frames := by
    rw [connectDestroyed, if_pos h]
    rfl
  have heffects :
      w.connectDestroyed.effects = w.effects ++ [.connectionCallback .kDisconnected] := by
    rw [connectDestroyed, if_pos h]
    rfl
  have hchannel : (w.connectDestroyed.channel_.readEvent, w.connectDestroyed.channel_.writeEvent) =
      (false, false) := by
    rw [connectDestroyed, if_pos h]
    rfl
  have hcalled := calledLate_all hdown calls
  rw [hchannel] at hcalled
  generalize hw₁ : calls.foldl (fun w c => w.call c.1 c.2) w.connectDestroyed = w₁ at hcalled
  refine ⟨{ w₁ with frames := w.frames }, ?_, hcalled.state.trans hdown,
    hcalled.effects.trans heffects, ?_⟩
  · have hstack := hcalled.frames.trans hframes
    rw [connectDestroyedWith, if_pos h, hw₁]
    simp only [World.perform, hstack, List.cons_append, List.nil_append, World.resume]
  · rw [isNoneEvent_eq, leavesStarted, ← hcalled.channel]

theorem safelyDestroyed_connected {w : World} (h : w.state_ = .kConnected) (hnotified : w.Notified)
    (calls : List (Thread × Call)) :
    w.SafelyDestroyed (w.connectDestroyedWith calls) ↔ leavesStarted calls = false := by
  rcases connectDestroyedWith_connected h calls with ⟨w₂, hw₂, hst, heffects, hnone⟩
  have hcount : w₂.effects.count .assertionFailed = w.effects.count .assertionFailed := by
    simp [heffects]
  rw [hw₂]
  constructor
  · intro hsafe
    have hremoved := (removeChannel_asserts w₂).1 (hsafe.remove.trans hcount.symm)
    simpa [hnone] using hremoved
  · intro hcalls
    have hnotified₂ : w₂.Notified := by
      have hzero : w.downs = 0 := by
        rw [hnotified, due, if_neg (by simp [h])]
      rw [Notified, due, if_pos hst]
      simpa [downs, heffects] using hzero
    have hstate := (removeChannel_state w₂).trans hst
    refine ⟨hstate, ?_, fun w'' hrun => ?_⟩
    · rw [(removeChannel_asserts w₂).2 (by simp [hnone, hcalls]), hcount]
    · exact served_once hstate ((accounts_removeChannel w₂).notified hnotified₂) hrun

theorem safelyDestroyed_disconnected {w : World} (h : w.state_ = .kDisconnected)
    (hnotified : w.Notified) (calls : List (Thread × Call)) :
    w.SafelyDestroyed (w.connectDestroyedWith calls) ↔ w.channel_.isNoneEvent = true := by
  have hstate := (removeChannel_state w).trans h
  rw [connectDestroyedWith, if_neg (by simp [h]), connectDestroyed_of_disconnected h]
  constructor
  · exact fun hsafe => (removeChannel_asserts w).1 hsafe.remove
  · intro hnone
    exact ⟨hstate, (removeChannel_asserts w).2 hnone, fun w'' hrun =>
      served_once hstate ((accounts_removeChannel w).notified hnotified) hrun⟩

/-- `connectDestroyed` does not bring any other connection down. -/
theorem connectDestroyedWith_state {w : World} (hconnected : w.state_ ≠ .kConnected)
    (calls : List (Thread × Call)) : (w.connectDestroyedWith calls).state_ = w.state_ := by
  rw [connectDestroyedWith, if_neg hconnected, connectDestroyed, if_neg hconnected]
  exact removeChannel_state w

theorem connectDestroyedWith_safe_iff {w : World} (hnotified : w.Notified)
    (calls : List (Thread × Call)) :
    w.SafelyDestroyed (w.connectDestroyedWith calls) ↔ w.Destroyable calls := by
  unfold Destroyable
  by_cases hconnected : w.state_ = .kConnected
  · rw [safelyDestroyed_connected hconnected hnotified]
    simp [hconnected]
  · by_cases hdisconnected : w.state_ = .kDisconnected
    · rw [safelyDestroyed_disconnected hdisconnected hnotified]
      simp [hdisconnected]
    · have hnot : ¬ w.SafelyDestroyed (w.connectDestroyedWith calls) := by
        intro hsafe
        exact hdisconnected ((connectDestroyedWith_state hconnected calls).symm.trans hsafe.state)
      simp [hnot, hconnected, hdisconnected]

/-! ## The whole map -/

/-- The destructor leaves exactly the destroyable ones of its connections in order, in whatever
states it finds them and whatever user code does in the notifications. -/
theorem safelyDestroyed_iff (connections_ : Bytes → Option World)
    (calls : Bytes → List (Thread × Call))
    (hserved : ∀ name w, connections_ name = some w → served.Reachable w) (name : Bytes)
    {w w' : World} (hw : connections_ name = some w)
    (hw' : serverDestroyed connections_ calls name = some w') :
    w.SafelyDestroyed w' ↔ w.Destroyable (calls name) := by
  have hdestroyed : w.connectDestroyedWith (calls name) = w' := by
    simpa [serverDestroyed, hw] using hw'
  rw [← hdestroyed]
  exact connectDestroyedWith_safe_iff (served_notified (hserved name w hw)) (calls name)

/-- The end of a run of a connection of the server. -/
def servedEnd (actions : List Action) : Option World :=
  System.runAll (fun w a => if w.enabled a = true then some (w.serve a) else none)
    (constructed false false 64) actions

theorem served_of_end {actions : List Action} {w : World} (h : servedEnd actions = some w) :
    served.Reachable w := by
  refine .of_guarded ?_ (.init ⟨false, false, 64, rfl⟩) h
  intro s a ha
  exact ⟨ha, rfl⟩

/-- A connection is established. -/
def justEstablished : List Action := [.connectEstablished, .resume]

theorem safelyDestroyed_iff_established :
    ∃ w w', served.Reachable w ∧ serverDestroyed (fun _ => some w) (fun _ => []) [] = some w' ∧
      (w.SafelyDestroyed w' ↔ w.Destroyable []) := by
  obtain ⟨w, hw⟩ : ∃ w, servedEnd justEstablished = some w :=
    Option.isSome_iff_exists.1 (by decide +kernel)
  have hserved := served_of_end hw
  refine ⟨w, w.connectDestroyedWith [], hserved, rfl, ?_⟩
  refine safelyDestroyed_iff (fun _ => some w) (fun _ => []) ?_ [] rfl rfl
  intro name v hv
  cases hv
  exact hserved

/-- The connection has called `shutdown` and waits for the peer to close. -/
def halfClosed : List Action := justEstablished ++ [.call .loop .shutdown]

/-- `connectDestroyed` passes over a connection in `kDisconnecting`: it keeps its state, the
assertion of `Channel::remove` fails, and the user is not notified. -/
theorem halfClosed_not_safelyDestroyed :
    ∃ w w', servedEnd halfClosed = some w ∧ served.Reachable w ∧
      serverDestroyed (fun _ => some w) (fun _ => []) [] = some w' ∧
      w'.state_ = .kDisconnecting ∧ .assertionFailed ∈ w'.effects ∧ w'.downs = 0 ∧
      ¬ w.SafelyDestroyed w' := by
  have hrun : (servedEnd halfClosed).map (fun w => decide (
      (w.connectDestroyedWith []).state_ = .kDisconnecting ∧
      .assertionFailed ∈ (w.connectDestroyedWith []).effects ∧
      (w.connectDestroyedWith []).downs = 0)) = some true := by decide +kernel
  rcases Option.map_eq_some_iff.1 hrun with ⟨w, hw, hend⟩
  rcases of_decide_eq_true hend with ⟨hst, hassert, hdowns⟩
  refine ⟨w, w.connectDestroyedWith [], hw, served_of_end hw, rfl, hst, hassert, hdowns, ?_⟩
  intro hsafe
  have := hsafe.state
  simp [hst] at this

end World
end Net
end Longky
