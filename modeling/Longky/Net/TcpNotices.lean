import Longky.Net.TcpBytes

/-!
# TcpNotices — what an action of a connection queues for the user

`netLayer/tcp/TcpConnection.cpp` queues `writeCompleteCallback_` when everything handed to it has
been written, and `highWaterMarkCallback_` when `outputBuffer_` grows to its mark or over it.

Most functions are `Apart` from both: they leave the output and the settings, and what they queue is
no notice.  `sendInLoop` and `handleWrite` are the others, and `notices_eq` puts them together: an
action queues a notice when it crosses the mark, and one when it writes the last byte.
-/

namespace Longky
namespace Net

open Lib

/-- A functor that tells the user how much is pending. -/
def Functor.isNotice : Functor → Bool
  | .writeCompleteCallback | .highWaterMarkCallback _ => true
  | .sendInLoop _ | .shutdownInLoop | .forceCloseInLoop | .startReadInLoop | .stopReadInLoop
  | .startWriteInLoop | .stopWriteInLoop | .connectDestroyed => false

namespace World

/-- How many bytes are pending. -/
def size (w : World) : Nat := w.outputBuffer_.readableBytes

/-- What is left of the queue when the action's own functor has been taken out. -/
def leftInQueue (w : World) : Action → List Functor
  | .runFunctor i _ => w.pendingFunctors_.eraseIdx i
  | _ => w.pendingFunctors_

/-- The functors that an action queues. -/
def queued (w : World) (a : Action) : List Functor :=
  (w.perform a).pendingFunctors_.drop (w.leftInQueue a).length

def notices (w : World) (a : Action) : List Functor := (w.queued a).filter Functor.isNotice

/-! ## Functions that touch neither the output nor the notices -/

/-- The user's callbacks and the mark are as they were. -/
structure SameSettings (w w' : World) : Prop where
  complete : w'.writeCompleteCallback_ = w.writeCompleteCallback_
  high : w'.highWaterMarkCallback_ = w.highWaterMarkCallback_
  mark : w'.highWaterMark_ = w.highWaterMark_

structure Apart (w w' : World) : Prop where
  settings : w.SameSettings w'
  output : w'.outputBuffer_ = w.outputBuffer_
  queue : ∃ fs, w'.pendingFunctors_ = w.pendingFunctors_ ++ fs ∧ ∀ f ∈ fs, f.isNotice = false

variable {w w' w'' : World}

theorem SameSettings.refl (w : World) : w.SameSettings w := ⟨rfl, rfl, rfl⟩

theorem SameSettings.trans (h : w.SameSettings w') (h' : w'.SameSettings w'') :
    w.SameSettings w'' :=
  ⟨h'.complete.trans h.complete, h'.high.trans h.high, h'.mark.trans h.mark⟩

namespace Apart

theorem of_eq (hs : w.SameSettings w') (ho : w'.outputBuffer_ = w.outputBuffer_)
    (hp : w'.pendingFunctors_ = w.pendingFunctors_) : w.Apart w' :=
  ⟨hs, ho, [], by rw [hp, List.append_nil], by simp⟩

theorem refl (w : World) : w.Apart w := of_eq (.refl w) rfl rfl

theorem trans (h : w.Apart w') (h' : w'.Apart w'') : w.Apart w'' := by
  obtain ⟨fs, hfs, hnone⟩ := h.queue
  obtain ⟨fs', hfs', hnone'⟩ := h'.queue
  refine ⟨h.settings.trans h'.settings, h'.output.trans h.output, fs ++ fs', ?_, ?_⟩
  · rw [hfs', hfs, List.append_assoc]
  · intro f hf
    rcases List.mem_append.1 hf with hold | hnew
    · exact hnone f hold
    · exact hnone' f hnew

theorem queueInLoop (w : World) {f : Functor} (hf : f.isNotice = false) :
    w.Apart (w.queueInLoop f) :=
  ⟨⟨rfl, rfl, rfl⟩, rfl, [f], rfl, by simpa using hf⟩

end Apart

theorem apart_closeNow (w : World) : w.Apart w.closeNow := .of_eq ⟨rfl, rfl, rfl⟩ rfl rfl

theorem apart_handleClose (w : World) : w.Apart w.handleClose := by
  by_cases hopen : w.isOpen = true
  · cases hflag : w.closeFlag_ with
    | true =>
        rw [handleClose_of_closeFlag hopen hflag]
        exact apart_closeNow w
    | false =>
        rw [handleClose_of_not_closeFlag hopen hflag]
        dsimp only
        split
        · split
          · exact .of_eq ⟨rfl, rfl, rfl⟩ rfl rfl
          · exact .of_eq ⟨rfl, rfl, rfl⟩ rfl rfl
        · exact .of_eq ⟨rfl, rfl, rfl⟩ rfl rfl
  · rw [handleClose]
    simp only [hopen]
    exact .of_eq ⟨rfl, rfl, rfl⟩ rfl rfl

theorem apart_shutdownInLoop (w : World) : w.Apart w.shutdownInLoop := by
  have hshut : w.Apart w.shutdownWrite := .of_eq ⟨rfl, rfl, rfl⟩ rfl rfl
  cases hw : w.channel_.isWriting with
  | true =>
      rw [shutdownInLoop_of_writing hw]
      exact .refl w
  | false =>
      rw [shutdownInLoop_of_not_writing hw]
      split
      · exact hshut.trans (apart_handleClose _)
      · exact hshut

theorem apart_shutdown (w : World) (t : Thread) : w.Apart (w.shutdown t) := by
  let w₁ : World := { w with closeFlag_ := true, state_ := .kDisconnecting }
  have hset : w.Apart w₁ := .of_eq ⟨rfl, rfl, rfl⟩ rfl rfl
  cases t with
  | loop =>
      rw [shutdown_loop]
      split
      · exact hset.trans (apart_shutdownInLoop w₁)
      · exact .refl w
  | other =>
      rw [shutdown_other]
      split
      · exact hset.trans (.queueInLoop w₁ rfl)
      · exact .refl w

theorem apart_forceClose (w : World) : w.Apart w.forceClose := by
  have hset : w.Apart (w.setState .kDisconnecting) := .of_eq ⟨rfl, rfl, rfl⟩ rfl rfl
  unfold forceClose
  split
  · exact hset.trans (.queueInLoop _ rfl)
  · exact .refl w

theorem apart_forceCloseWithDelay (w : World) : w.Apart w.forceCloseWithDelay := by
  unfold forceCloseWithDelay
  split
  · exact .of_eq ⟨rfl, rfl, rfl⟩ rfl rfl
  · exact .refl w

theorem apart_forceCloseInLoop (w : World) : w.Apart w.forceCloseInLoop := by
  let w₁ : World := { w with closeFlag_ := true, forceFlag_ := true, setSolinger_ := true }
  have hset : w.Apart w₁ := .of_eq ⟨rfl, rfl, rfl⟩ rfl rfl
  unfold forceCloseInLoop
  split
  · exact hset.trans (apart_handleClose w₁)
  · exact .refl w

/-- Switching an event on or off. -/
theorem apart_interest (w : World) : w.Apart w.startReadInLoop ∧ w.Apart w.stopReadInLoop ∧
    w.Apart w.startWriteInLoop ∧ w.Apart w.stopWriteInLoop := by
  unfold startReadInLoop stopReadInLoop startWriteInLoop stopWriteInLoop
  refine ⟨?_, ?_, ?_, ?_⟩
  all_goals
    split
    · exact .of_eq ⟨rfl, rfl, rfl⟩ rfl rfl
    · exact .refl w

theorem apart_runInLoop {now : World → World} (h : w.Apart (now w)) (t : Thread) {f : Functor}
    (hf : f.isNotice = false) : w.Apart (w.runInLoop t f now) := by
  cases t with
  | loop => exact h
  | other => exact .queueInLoop w hf

theorem apart_connectEstablished (w : World) : w.Apart w.connectEstablished := by
  unfold connectEstablished
  split
  · exact .of_eq ⟨rfl, rfl, rfl⟩ rfl rfl
  · exact .of_eq ⟨rfl, rfl, rfl⟩ rfl rfl

theorem apart_removeChannel (w : World) : w.Apart w.removeChannel := by
  unfold removeChannel
  split
  · dsimp only
    split
    · exact .of_eq ⟨rfl, rfl, rfl⟩ rfl rfl
    · exact .of_eq ⟨rfl, rfl, rfl⟩ rfl rfl
  · exact .of_eq ⟨rfl, rfl, rfl⟩ rfl rfl

theorem apart_connectDestroyed (w : World) : w.Apart w.connectDestroyed := by
  unfold connectDestroyed
  split
  · exact .of_eq ⟨rfl, rfl, rfl⟩ rfl rfl
  · exact apart_removeChannel w

theorem apart_destruct (w : World) : w.Apart w.destruct := by
  unfold destruct
  dsimp only
  split
  all_goals
    split
    · exact .of_eq ⟨rfl, rfl, rfl⟩ rfl rfl
    · exact .of_eq ⟨rfl, rfl, rfl⟩ rfl rfl

theorem apart_handleRead (w : World) (r : ReadResult) : w.Apart (w.handleRead r) := by
  cases r with
  | fail => exact .refl w
  | ok data =>
      simp only [handleRead]
      split
      · exact .of_eq ⟨rfl, rfl, rfl⟩ rfl rfl
      · exact apart_handleClose w

theorem apart_handleEventWithGuard (w : World) (revents : Revents) (r : ReadResult)
    (wr : WriteResult) : w.Apart (w.handleEventWithGuard revents r wr) := by
  have hpush : w.Apart (w.push (readWriteCallbacks revents r wr)) :=
    .of_eq ⟨rfl, rfl, rfl⟩ rfl rfl
  unfold handleEventWithGuard
  dsimp only [handleError]
  rw [ite_self]
  split
  · exact hpush.trans (apart_handleClose _)
  · exact hpush

theorem apart_call {t : Thread} {c : Call}
    (hsend : ∀ message r, c = .send message r → t = .loop → w.state_ ≠ .kConnected) :
    w.Apart (w.call t c) := by
  obtain ⟨hstartRead, hstopRead, hstartWrite, hstopWrite⟩ := apart_interest w
  cases c with
  | send message r =>
      simp only [call, send]
      split
      next hst =>
        cases t with
        | loop => exact absurd hst (hsend message r rfl rfl)
        | other => exact .queueInLoop w rfl
      next => exact .refl w
  | shutdown => exact apart_shutdown w t
  | forceClose => exact apart_forceClose w
  | forceCloseWithDelay => exact apart_forceCloseWithDelay w
  | startRead => exact apart_runInLoop hstartRead t rfl
  | stopRead => exact apart_runInLoop hstopRead t rfl
  | startWrite => exact apart_runInLoop hstartWrite t rfl
  | stopWrite => exact apart_runInLoop hstopWrite t rfl

theorem apart_runFunctor {f : Functor} (wr : WriteResult)
    (hsend : ∀ message, f = .sendInLoop message → w.state_ = .kDisconnected) :
    w.Apart (w.runFunctor f wr) := by
  obtain ⟨hstartRead, hstopRead, hstartWrite, hstopWrite⟩ := apart_interest w
  cases f with
  | sendInLoop message =>
      simp only [runFunctor, sendInLoop]
      rw [if_pos (hsend message rfl)]
      exact .refl w
  | shutdownInLoop => exact apart_shutdownInLoop w
  | forceCloseInLoop => exact apart_forceCloseInLoop w
  | startReadInLoop => exact hstartRead
  | stopReadInLoop => exact hstopRead
  | startWriteInLoop => exact hstartWrite
  | stopWriteInLoop => exact hstopWrite
  | writeCompleteCallback | highWaterMarkCallback => exact .of_eq ⟨rfl, rfl, rfl⟩ rfl rfl
  | connectDestroyed => exact apart_connectDestroyed w

theorem apart_resume {f : Frame} (hf : ∀ r, f ≠ .writeCallback r) : w.Apart (w.resume f) := by
  cases f with
  | userCode => exact .refl w
  | closeCallback =>
      have hemit : w.Apart (w.emit .closeCallback) := .of_eq ⟨rfl, rfl, rfl⟩ rfl rfl
      exact hemit.trans (.queueInLoop _ rfl)
  | removeChannel => exact apart_removeChannel w
  | readCallback r => exact apart_handleRead w r
  | writeCallback r => exact absurd rfl (hf r)

/-- An action that neither sends nor writes. -/
theorem apart_perform {a : Action} (hout : w.outputPart a = none) :
    ({ w with pendingFunctors_ := w.leftInQueue a } : World).Apart (w.perform a) := by
  cases a with
  | connectEstablished => exact apart_connectEstablished w
  | event revents r wr => exact apart_handleEventWithGuard w revents r wr
  | resume =>
      change w.Apart (w.perform .resume)
      simp only [perform]
      cases hfs : w.frames with
      | nil => exact .refl w
      | cons f fs =>
          have hpop : w.Apart { w with frames := fs } := .of_eq ⟨rfl, rfl, rfl⟩ rfl rfl
          refine hpop.trans (apart_resume ?_)
          rintro r rfl
          simp [outputPart, hfs] at hout
  | call t c =>
      refine apart_call ?_
      rintro message r rfl rfl
      simpa [outputPart] using hout
  | runFunctor i wr =>
      simp only [perform, leftInQueue]
      cases hi : w.pendingFunctors_[i]? with
      | none =>
          have hlen : w.pendingFunctors_.length ≤ i := List.getElem?_eq_none_iff.1 hi
          rw [List.eraseIdx_of_length_le hlen]
          exact .refl w
      | some f =>
          refine apart_runFunctor wr ?_
          rintro message rfl
          simpa [outputPart, hi] using hout
  | delayedClose =>
      have hset : w.Apart { w with delayedCloses := w.delayedCloses - 1 } :=
        .of_eq ⟨rfl, rfl, rfl⟩ rfl rfl
      exact hset.trans (apart_forceClose _)
  | destroy => exact apart_destruct w

/-! ## What sending and writing queue -/

/-- The callback for a buffer that has grown over the mark. -/
def highNotice (w : World) (after : Nat) : List Functor :=
  if w.highWaterMarkCallback_ = true ∧ w.size < w.highWaterMark_ ∧ w.highWaterMark_ ≤ after then
    [.highWaterMarkCallback after]
  else []

def completeNotice (w : World) (completes : Bool) : List Functor :=
  if completes = true ∧ w.writeCompleteCallback_ = true then [.writeCompleteCallback] else []

/-- The operation writes the last byte that was handed over. -/
def finishes (v : World) : OutputOp → Bool
  | .sendInLoop message (.room n) => v.writesDirectly && decide (message.length ≤ n)
  | .handleWrite (.room k) => v.channel_.isWriting && decide (0 < v.size ∧ v.size ≤ k)
  | _ => false

/-- The settings stay, and the queue grows by these notices. -/
structure Noticed (w w' : World) (fs : List Functor) : Prop where
  settings : w.SameSettings w'
  queue : ∃ gs, w'.pendingFunctors_ = w.pendingFunctors_ ++ gs ∧ gs.filter Functor.isNotice = fs

theorem Apart.noticed (h : w.Apart w') : w.Noticed w' [] := by
  obtain ⟨fs, hfs, hnone⟩ := h.queue
  refine ⟨h.settings, fs, hfs, List.filter_eq_nil_iff.2 fun f hf => ?_⟩
  simp [hnone f hf]

theorem Noticed.of_eq (hs : w.SameSettings w')
    (hp : w'.pendingFunctors_ = w.pendingFunctors_) : w.Noticed w' [] :=
  ⟨hs, [], by rw [hp, List.append_nil], rfl⟩

theorem Noticed.trans {fs gs : List Functor} (h : w.Noticed w' fs) (h' : w'.Noticed w'' gs) :
    w.Noticed w'' (fs ++ gs) := by
  obtain ⟨as, has, hfs⟩ := h.queue
  obtain ⟨bs, hbs, hgs⟩ := h'.queue
  refine ⟨h.settings.trans h'.settings, as ++ bs, ?_, ?_⟩
  · rw [hbs, has, List.append_assoc]
  · rw [List.filter_append, hfs, hgs]

theorem noticed_queueWriteComplete (w : World) :
    w.Noticed w.queueWriteComplete (w.completeNotice true) := by
  unfold queueWriteComplete
  cases hc : w.writeCompleteCallback_ with
  | true =>
      have hone : w.completeNotice true = [.writeCompleteCallback] := if_pos ⟨rfl, hc⟩
      rw [hone]
      exact ⟨⟨rfl, rfl, rfl⟩, _, rfl, rfl⟩
  | false =>
      have hnone : w.completeNotice true = [] := by simp [completeNotice, hc]
      rw [hnone]
      exact (Apart.refl w).noticed

theorem size_of_readable (w : World) : w.size = w.outputBuffer_.readable.length :=
  WfBuffer.readableBytes_eq w.outputBuffer_

/-- A buffer that has not grown crosses nothing. -/
theorem highNotice_of_le {after : Nat} (h : after ≤ w.size) : w.highNotice after = [] :=
  if_neg fun hcross => absurd (hcross.2.2.trans h) (not_le.2 hcross.2.1)

theorem noticed_appendRemaining (w : World) (data : Bytes) :
    w.Noticed (w.appendRemaining data) (w.highNotice (w.size + data.length)) := by
  unfold appendRemaining
  dsimp only
  split
  next hdata =>
    split
    next hcross =>
      have hnotice : w.highNotice (w.size + data.length) =
          [.highWaterMarkCallback (w.size + data.length)] :=
        if_pos ⟨hcross.2.2, hcross.2.1, hcross.1⟩
      rw [hnotice]
      split
      · exact ⟨⟨rfl, rfl, rfl⟩, _, rfl, rfl⟩
      · exact ⟨⟨rfl, rfl, rfl⟩, _, rfl, rfl⟩
    next hcross =>
      have hnotice : w.highNotice (w.size + data.length) = [] :=
        if_neg fun h => hcross ⟨h.2.2, h.2.1, h.1⟩
      rw [hnotice]
      split
      · exact .of_eq ⟨rfl, rfl, rfl⟩ rfl
      · exact .of_eq ⟨rfl, rfl, rfl⟩ rfl
  next hdata =>
    have hzero : data.length = 0 := Nat.eq_zero_of_not_pos hdata
    rw [highNotice_of_le (by rw [hzero, Nat.add_zero])]
    exact (Apart.refl w).noticed

theorem size_appendRemaining (w : World) (data : Bytes) :
    (w.appendRemaining data).size = w.size + data.length := by
  rw [size_of_readable, (appendRemaining_output w data).1, List.length_append, size_of_readable]

theorem size_queueWriteComplete (w : World) : w.queueWriteComplete.size = w.size := by
  rw [size, (queueWriteComplete_output w).1, size]

/-- What `sendInLoop` queues on a connection that is not disconnected. -/
theorem noticed_sendInLoop {message : Bytes} {r : WriteResult} (hst : w.state_ ≠ .kDisconnected) :
    w.Noticed (w.sendInLoop message r) (w.highNotice (w.sendInLoop message r).size ++
      w.completeNotice (w.finishes (.sendInLoop message r))) := by
  -- a message that is kept, from a connection that differs in its effects alone
  have hkept : ∀ v data, w.Noticed v [] → v.size = w.size → v.highNotice = w.highNotice →
      w.finishes (.sendInLoop message r) = false →
        w.Noticed (v.appendRemaining data) (w.highNotice (v.appendRemaining data).size ++
          w.completeNotice (w.finishes (.sendInLoop message r))) := by
    intro v data hv hsize hhigh hnot
    have hnone : w.completeNotice false = [] := by simp [completeNotice]
    rw [hnot, hnone, List.append_nil, size_appendRemaining, ← hhigh]
    simpa using hv.trans (noticed_appendRemaining v data)
  have hsame : w.Noticed w [] := (Apart.refl w).noticed
  unfold sendInLoop
  rw [if_neg hst]
  cases hdirect : w.writesDirectly with
  | false =>
      simp only [Bool.false_eq_true, if_false]
      exact hkept w message hsame rfl rfl (by cases r <;> simp [finishes, hdirect])
  | true =>
      simp only [if_true]
      cases r with
      | room n =>
          have hwrote : w.Apart (w.emit (.wrote (message.take n))) := .of_eq ⟨rfl, rfl, rfl⟩ rfl rfl
          dsimp only
          split
          next hall =>
            have hcomplete : w.finishes (.sendInLoop message (.room n)) = true := by
              rw [List.length_drop] at hall
              simpa [finishes, hdirect] using Nat.sub_eq_zero_iff_le.1 hall
            rw [hcomplete, size_queueWriteComplete, highNotice_of_le (by exact Nat.le_refl _)]
            exact hwrote.noticed.trans (noticed_queueWriteComplete _)
          next hrest =>
            refine hkept _ _ hwrote.noticed rfl rfl ?_
            rw [List.length_drop] at hrest
            have hless : ¬ message.length ≤ n := fun hle => hrest (Nat.sub_eq_zero_iff_le.2 hle)
            simp [finishes, hless]
      | fail e =>
          dsimp only
          split
          · have hfault : w.Apart (w.emit .faultError) := .of_eq ⟨rfl, rfl, rfl⟩ rfl rfl
            rw [highNotice_of_le (by exact Nat.le_refl _)]
            exact hfault.noticed
          · exact hkept w message hsame rfl rfl rfl

theorem noticed_outputDrained (w : World) :
    w.Noticed w.outputDrained (w.completeNotice true) := by
  have hset : w.Noticed { w with channel_ := w.channel_.disableWriting } [] :=
    .of_eq ⟨rfl, rfl, rfl⟩ rfl
  have hqueue := hset.trans (noticed_queueWriteComplete _)
  unfold outputDrained
  dsimp only
  split
  · have hshut := hqueue.trans (apart_shutdownInLoop _).noticed
    rw [List.append_nil] at hshut
    exact hshut
  · exact hqueue

theorem size_outputDrained (w : World) : w.outputDrained.size = w.size := by
  rw [size, (outputDrained_output w).1, size]

theorem size_retrieveWritten (w : World) (n : Nat) (h : n ≤ w.outputBuffer_.readableBytes) :
    (w.retrieveWritten n h).size = w.size - n := by
  have hread : (w.retrieveWritten n h).outputBuffer_.readable =
      w.outputBuffer_.readable.drop n := WfBuffer.readable_retrieve w.outputBuffer_ n h
  rw [size_of_readable, hread, List.length_drop, size_of_readable]

/-- What `handleWrite` does to the notices and to the number of pending bytes. -/
structure Written (w w' : World) (finished : Bool) : Prop where
  noticed : w.Noticed w' (w.completeNotice finished)
  le : w'.size ≤ w.size
  empty : w'.size = 0 ↔ w.size = 0 ∨ finished = true

theorem Written.refl (w : World) : w.Written w false where
  noticed := by simpa [completeNotice] using (Apart.refl w).noticed
  le := Nat.le_refl _
  empty := by simp

theorem written_handleWrite (w : World) (r : WriteResult) :
    w.Written (w.handleWrite r) (w.finishes (.handleWrite r)) := by
  cases hw : w.channel_.isWriting with
  | false =>
      have hnot : w.finishes (.handleWrite r) = false := by cases r <;> simp [finishes, hw]
      have hstay : w.handleWrite r = w := by simp [handleWrite, hw]
      rw [hnot, hstay]
      exact .refl w
  | true =>
      cases r with
      | fail e =>
          have hstay : w.handleWrite (.fail e) = w := by simp [handleWrite]
          rw [hstay]
          exact .refl w
      | room k =>
          by_cases hpos : 0 < min k w.size
          · -- the kernel takes some of what is pending
            let w₁ := w.retrieveWritten (min k w.size) (Nat.min_le_right _ _)
            have hsize : w₁.size = w.size - min k w.size := size_retrieveWritten w _ _
            have htaken : w.Noticed w₁ [] := .of_eq ⟨rfl, rfl, rfl⟩ rfl
            have heq : w.handleWrite (.room k) =
                if w₁.size = 0 then w₁.outputDrained else w₁ := by
              have hif : 0 < min k w.outputBuffer_.readableBytes := hpos
              simp only [handleWrite, hw, if_true]
              rw [if_pos hif]
              rfl
            have hsome : 0 < w.size := hpos.trans_le (Nat.min_le_right _ _)
            rw [heq]
            split
            next hall =>
              have hk : w.size ≤ k := by
                rw [hsize, Nat.sub_eq_zero_iff_le] at hall
                exact hall.trans (Nat.min_le_left _ _)
              have hfinished : w.finishes (.handleWrite (.room k)) = true := by
                simp [finishes, hw, hk, hsome]
              rw [hfinished]
              refine ⟨htaken.trans (noticed_outputDrained w₁), ?_, ?_⟩
              · rw [size_outputDrained, hall]
                exact Nat.zero_le _
              · simp [size_outputDrained, hall]
            next hrest =>
              have hk : ¬ w.size ≤ k := by
                intro hk
                rw [hsize, Nat.min_eq_right hk, Nat.sub_self] at hrest
                exact hrest rfl
              have hnot : w.finishes (.handleWrite (.room k)) = false := by simp [finishes, hk]
              rw [hnot]
              refine ⟨by simpa [completeNotice] using htaken, ?_, ?_⟩
              · rw [hsize]
                exact Nat.sub_le _ _
              · simp [hrest, hsome.ne']
          · have hstay : w.handleWrite (.room k) = w := by
              have hif : ¬ 0 < min k w.outputBuffer_.readableBytes := hpos
              simp only [handleWrite, hw, if_true]
              rw [if_neg hif]
            have hnot : w.finishes (.handleWrite (.room k)) = false := by
              have hless : ¬ (0 < w.size ∧ w.size ≤ k) := fun hk =>
                hpos (by rw [Nat.min_eq_right hk.2]; exact hk.1)
              simp [finishes, hless]
            rw [hnot, hstay]
            exact .refl w

/-! ## Every action -/

/-- What an action does with `outputPart` it does on a connection with as much output. -/
theorem outputPart_frame {v : World} {a : Action} {op : OutputOp}
    (h : w.outputPart a = some (v, op)) :
    v.pendingFunctors_ = w.leftInQueue a ∧ v.size = w.size ∧ w.SameSettings v := by
  cases a with
  | call t c =>
      cases t <;> cases c <;> simp only [outputPart, Option.ite_none_right_eq_some, reduceCtorEq,
        Option.some.injEq, Prod.mk.injEq] at h
      obtain ⟨-, rfl, -⟩ := h
      exact ⟨rfl, rfl, .refl w⟩
  | runFunctor i wr =>
      simp only [outputPart] at h
      split at h
      · obtain ⟨-, heq⟩ := Option.ite_none_left_eq_some.1 h
        cases heq
        exact ⟨rfl, rfl, ⟨rfl, rfl, rfl⟩⟩
      · cases h
  | resume =>
      simp only [outputPart] at h
      split at h
      · cases h
        exact ⟨rfl, rfl, ⟨rfl, rfl, rfl⟩⟩
      · cases h
  | _ => cases h

def completes (w : World) (a : Action) : Bool :=
  match w.outputPart a with
  | some (v, op) => v.finishes op
  | none => false

/-- The message that an action hands to the connection, unless the kernel's fault drops it. -/
def takes (w : World) (a : Action) : Option Bytes :=
  match w.outputPart a with
  | some (v, .sendInLoop message r) => if v.directFault r then none else some message
  | _ => none

theorem SameSettings.highNotice_eq (h : w.SameSettings w') (hsize : w'.size = w.size) :
    w'.highNotice = w.highNotice := by
  funext after
  simp only [highNotice, h.high, h.mark, hsize]

theorem SameSettings.completeNotice_eq (h : w.SameSettings w') :
    w'.completeNotice = w.completeNotice := by
  funext finished
  simp only [completeNotice, h.complete]

/-- An action queues the notice of a mark that it crosses, then that of a last byte it writes. -/
theorem noticed_perform (w : World) (a : Action) :
    ({ w with pendingFunctors_ := w.leftInQueue a } : World).Noticed (w.perform a)
      (w.highNotice (w.perform a).size ++ w.completeNotice (w.completes a)) := by
  cases hout : w.outputPart a with
  | none =>
      have hapart := apart_perform hout
      have hsize : (w.perform a).size = w.size := by
        have hbuf : (w.perform a).outputBuffer_ = w.outputBuffer_ := hapart.output
        rw [size, hbuf, size]
      have hnot : w.completes a = false := by simp [completes, hout]
      rw [highNotice_of_le hsize.le, hnot]
      simpa [completeNotice] using hapart.noticed
  | some part =>
      obtain ⟨v, op⟩ := part
      obtain ⟨hqueue, hsize, hset⟩ := outputPart_frame hout
      obtain ⟨-, -, -, -, happly, hop⟩ := outputPart_spec hout
      have hcompletes : w.completes a = v.finishes op := by simp [completes, hout]
      have hstart : ({ w with pendingFunctors_ := w.leftInQueue a } : World).Noticed v [] :=
        .of_eq ⟨hset.complete, hset.high, hset.mark⟩ hqueue
      rw [← happly, hcompletes, ← hset.highNotice_eq hsize, ← hset.completeNotice_eq]
      rcases hop with ⟨message, r, rfl, hst⟩ | ⟨r, rfl⟩
      · exact hstart.trans (noticed_sendInLoop hst)
      · have hwritten := written_handleWrite v r
        have hnone : v.highNotice (OutputOp.apply v (.handleWrite r)).size = [] :=
          highNotice_of_le hwritten.le
        rw [hnone]
        exact hstart.trans hwritten.noticed

theorem notices_eq (w : World) (a : Action) :
    w.notices a = w.highNotice (w.perform a).size ++ w.completeNotice (w.completes a) := by
  obtain ⟨gs, hgs, hfilter⟩ := (noticed_perform w a).queue
  have hqueued : w.queued a = gs := by
    have happend : (w.perform a).pendingFunctors_ = w.leftInQueue a ++ gs := hgs
    rw [queued, happend, List.drop_left]
  rw [notices, hqueued, hfilter]

theorem sameSettings_perform (w : World) (a : Action) : w.SameSettings (w.perform a) :=
  have h := (noticed_perform w a).settings
  ⟨h.complete, h.high, h.mark⟩

/-- When a message leaves nothing pending. -/
theorem size_sendInLoop {message : Bytes} {r : WriteResult} (hst : w.state_ ≠ .kDisconnected) :
    (w.sendInLoop message r).size = 0 ↔
      w.finishes (.sendInLoop message r) = true ∨
        w.size = 0 ∧ (w.directFault r = false → message = []) := by
  -- a message that is kept whole
  have hkept : (w.appendRemaining message).size = 0 ↔ w.size = 0 ∧ message = [] := by
    rw [size_appendRemaining, Nat.add_eq_zero_iff, List.length_eq_zero_iff]
  cases hdirect : w.writesDirectly with
  | false =>
      have heq : w.sendInLoop message r = w.appendRemaining message := by
        simp [sendInLoop, hst, hdirect]
      have hnot : w.finishes (.sendInLoop message r) = false := by
        cases r <;> simp [finishes, hdirect]
      simp [heq, hkept, hnot, directFault, hdirect]
  | true =>
      have hempty : w.size = 0 := by
        have hread := ((writesDirectly_iff w).1 hdirect).2
        rw [size_of_readable, hread, List.length_nil]
      cases r with
      | room n =>
          by_cases hall : message.length ≤ n
          · have hrest : message.length - n = 0 := Nat.sub_eq_zero_iff_le.2 hall
            have heq : w.sendInLoop message (.room n) =
                (w.emit (.wrote (message.take n))).queueWriteComplete := by
              simp [sendInLoop, hst, hdirect, hrest]
            have hsize : (w.sendInLoop message (.room n)).size = 0 := by
              rw [heq, size_queueWriteComplete]
              exact hempty
            simp [hsize, finishes, hdirect, hall]
          · have hrest : message.length - n ≠ 0 := fun h => hall (Nat.sub_eq_zero_iff_le.1 h)
            have hne : message ≠ [] := by
              rintro rfl
              exact hall (Nat.zero_le n)
            have heq : w.sendInLoop message (.room n) =
                (w.emit (.wrote (message.take n))).appendRemaining (message.drop n) := by
              simp [sendInLoop, hst, hdirect, hrest]
            have hsize : (w.sendInLoop message (.room n)).size ≠ 0 := by
              rw [heq, size_appendRemaining, List.length_drop]
              exact fun h => hrest (Nat.add_eq_zero_iff.1 h).2
            simp [hsize, finishes, hall, directFault, hne]
      | fail e =>
          cases he : e.isFault with
          | true =>
              have hsize : (w.sendInLoop message (.fail e)).size = 0 := by
                have heq : w.sendInLoop message (.fail e) = w.emit .faultError := by
                  simp [sendInLoop, hst, hdirect, he]
                rw [heq]
                exact hempty
              simp [hsize, hempty, directFault, hdirect, he]
          | false =>
              have heq : w.sendInLoop message (.fail e) = w.appendRemaining message := by
                simp [sendInLoop, hst, hdirect, he]
              simp [heq, hkept, finishes, directFault, he]

/-- Nothing is pending after an action that writes the last byte, or when nothing was and nothing
comes. -/
theorem size_perform (w : World) (a : Action) :
    (w.perform a).size = 0 ↔
      w.completes a = true ∨ w.size = 0 ∧ ∀ message, w.takes a = some message → message = [] := by
  cases hout : w.outputPart a with
  | none =>
      have hbuf : (w.perform a).outputBuffer_ = w.outputBuffer_ := (perform_output hout).1
      simp [size, hbuf, completes, takes, hout]
  | some part =>
      obtain ⟨v, op⟩ := part
      obtain ⟨-, hsize, -⟩ := outputPart_frame hout
      obtain ⟨-, -, -, -, happly, hop⟩ := outputPart_spec hout
      rw [← happly, ← hsize]
      rcases hop with ⟨message, r, rfl, hst⟩ | ⟨r, rfl⟩
      · simpa [completes, takes, hout, OutputOp.apply] using size_sendInLoop hst
      · simpa [completes, takes, hout, OutputOp.apply, or_comm] using
          (written_handleWrite v r).empty

/-- The last byte written was pending or has just been handed over. -/
theorem completes_cause {a : Action} (h : w.completes a = true) :
    0 < w.size ∨ ∃ message, w.takes a = some message := by
  cases hout : w.outputPart a with
  | none => simp [completes, hout] at h
  | some part =>
      obtain ⟨v, op⟩ := part
      obtain ⟨-, hsize, -⟩ := outputPart_frame hout
      obtain ⟨-, -, -, -, -, hop⟩ := outputPart_spec hout
      have hfinishes : v.finishes op = true := by simpa [completes, hout] using h
      rcases hop with ⟨message, r, rfl, -⟩ | ⟨r, rfl⟩
      · cases r with
        | room n => exact .inr ⟨message, by simp [takes, hout, directFault]⟩
        | fail e => cases hfinishes
      · cases r with
        | room k =>
            have hpending : 0 < v.size ∧ v.size ≤ k := by
              simpa [finishes] using (Bool.and_eq_true_iff.1 hfinishes).2
            exact .inl (hsize ▸ hpending.1)
        | fail e => cases hfinishes

end World
end Net
end Longky
