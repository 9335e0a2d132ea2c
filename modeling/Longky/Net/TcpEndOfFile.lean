import Longky.Net.TcpLife
import Longky.Net.TcpStream

/-!
# TcpEndOfFile — the end of file comes after every message

An end that never stops writing keeps its pending output being written (`World.Tidy`) for as long as
it is not disconnected, whatever else happens to it.  When such an end, still live, shuts its socket
down, nothing is pending; so when `read` returns 0 at the other end, the other end has received
exactly the messages that were handed over before the shutdown.

A connection that disconnects with output pending (`closeNow`) loses that output by design, and the
shutdown that another thread had queued then finds it unsent; such a shutdown is not counted.
-/

namespace Longky
namespace Net

open Lib

namespace World

/-! ## What an action of a tidy connection leaves behind -/

/-- The socket was shut down clean, and a connection that is still live has its output written. -/
def Leaves (w : World) : Prop :=
  w.ShutDownClean ∧ (w.state_ ≠ .kDisconnected → w.WritesPending)

theorem Tidy.leaves {w : World} (h : w.Tidy) : w.Leaves :=
  ⟨h.2, fun _ => h.1⟩

/-- The same effects, and output, channel and state as far as they matter. -/
theorem Tidy.of_eq {w w' : World} (h : w.Tidy) (ho : w'.outputBuffer_ = w.outputBuffer_)
    (hc : w'.channel_.isWriting = w.channel_.isWriting) (he : w'.effects = w.effects) : w'.Tidy := by
  refine ⟨?_, ?_⟩
  · intro hne
    rw [hc]
    exact h.1 (ho ▸ hne)
  · intro unsent hmem
    exact h.2 unsent (he ▸ hmem)

theorem Tidy.leaves_of_eq {w w' : World} (h : w.Tidy) (ho : w'.outputBuffer_ = w.outputBuffer_)
    (hc : w'.channel_.isWriting = w.channel_.isWriting) (he : w'.effects = w.effects) :
    w'.Leaves :=
  (h.of_eq ho hc he).leaves

theorem leaves_closeNow {w : World} (h : w.ShutDownClean) : w.closeNow.Leaves := by
  refine ⟨?_, fun hst => absurd rfl hst⟩
  intro unsent hmem
  apply h
  simpa [closeNow, push, emit] using hmem

theorem leaves_handleClose {w : World} (h : w.Tidy) : w.handleClose.Leaves := by
  by_cases hopen : w.isOpen = true
  · cases hflag : w.closeFlag_ with
    | true =>
        rw [handleClose_of_closeFlag hopen hflag]
        exact leaves_closeNow h.2
    | false =>
        rw [handleClose_of_not_closeFlag hopen hflag]
        dsimp only
        split
        · split
          · exact h.leaves_of_eq rfl rfl rfl
          · rename_i hw
            -- nothing is being written, so nothing is pending
            have hempty : w.outputBuffer_.readable = [] := by
              by_contra hne
              exact hw (h.1 hne)
            exact leaves_closeNow (shutdownWrite_clean hempty h.2)
        · exact h.leaves_of_eq rfl rfl rfl
  · rw [handleClose]
    simp only [hopen]
    exact (emit_tidy h (by simp)).leaves

theorem leaves_forceCloseInLoop {w : World} (h : w.Tidy) : w.forceCloseInLoop.Leaves := by
  unfold forceCloseInLoop
  split
  · exact leaves_handleClose (h.of_eq rfl rfl rfl)
  · exact h.leaves

theorem tidy_forceClose {w : World} (h : w.Tidy) : w.forceClose.Tidy := by
  unfold forceClose
  split
  · exact h.of_eq rfl rfl rfl
  · exact h

theorem tidy_connectEstablished {w : World} (h : w.Tidy) : w.connectEstablished.Tidy := by
  unfold connectEstablished
  split
  · let w₁ : World := { w.setState .kConnected with channel_ := w.channel_.enableReading }
    have hset : w₁.Tidy := h.of_eq rfl rfl rfl
    exact (emit_tidy hset (e := .connectionCallback .kConnected) (by simp)).of_eq rfl rfl rfl
  · exact emit_tidy h (by simp)

theorem tidy_removeChannel {w : World} (h : w.Tidy) : w.removeChannel.Tidy := by
  let w₁ : World :=
    { w with channel_ := { w.channel_ with addedToLoop_ := false }, channelRemoved := true }
  have hset : w₁.Tidy := h.of_eq rfl rfl rfl
  unfold removeChannel
  split
  · dsimp only
    split
    · exact emit_tidy hset (e := .close) (by simp)
    · exact hset
  · exact emit_tidy h (by simp)

theorem leaves_connectDestroyed {w : World} (h : w.Tidy) : w.connectDestroyed.Leaves := by
  unfold connectDestroyed
  split
  · refine ⟨?_, fun hst => absurd rfl hst⟩
    intro unsent hmem
    apply h.2
    simpa [push, emit] using hmem
  · exact (tidy_removeChannel h).leaves

theorem tidy_destruct {w : World} (h : w.Tidy) : w.destruct.Tidy := by
  let w₁ : World := if w.state_ = .kDisconnected then w else w.emit .assertionFailed
  have hstate : w₁.Tidy := by
    show (if w.state_ = .kDisconnected then w else w.emit .assertionFailed).Tidy
    split
    · exact h
    · exact emit_tidy h (by simp)
  have hclose : (if !w₁.setSolinger_ then w₁.emit .close else w₁).Tidy := by
    split
    · exact emit_tidy hstate (by simp)
    · exact hstate
  exact hclose.of_eq rfl rfl rfl

theorem leaves_handleEventWithGuard {w : World} (h : w.Tidy) (revents : Revents) (r : ReadResult)
    (wr : WriteResult) : (w.handleEventWithGuard revents r wr).Leaves := by
  have hpush : (w.push (readWriteCallbacks revents r wr)).Tidy := h.of_eq rfl rfl rfl
  unfold handleEventWithGuard
  dsimp only [handleError]
  split <;> split
  · exact leaves_handleClose hpush
  · exact hpush.leaves
  · exact leaves_handleClose hpush
  · exact hpush.leaves

theorem tidy_startReadInLoop {w : World} (h : w.Tidy) : w.startReadInLoop.Tidy := by
  unfold startReadInLoop
  split
  · exact h.of_eq rfl rfl rfl
  · exact h

theorem tidy_stopReadInLoop {w : World} (h : w.Tidy) : w.stopReadInLoop.Tidy := by
  unfold stopReadInLoop
  split
  · exact h.of_eq rfl rfl rfl
  · exact h

theorem leaves_handleRead {w : World} (h : w.Tidy) (r : ReadResult) : (w.handleRead r).Leaves := by
  cases r with
  | fail => exact h.leaves
  | ok data =>
      unfold handleRead
      dsimp only
      split
      · have hread : ({ w with inputBuffer_ := w.inputBuffer_.readFd data } : World).Tidy :=
          h.of_eq rfl rfl rfl
        exact ((emit_tidy hread (e := .messageCallback) (by simp)).of_eq rfl rfl rfl).leaves
      · exact leaves_handleClose h

theorem tidy_runInLoop {w : World} (h : w.Tidy) (t : Thread) {f : Functor} {now : World → World}
    (hnow : (now w).Tidy) : (w.runInLoop t f now).Tidy := by
  cases t with
  | loop => exact hnow
  | other => exact h.of_eq rfl rfl rfl

theorem tidy_call {w : World} (h : w.Tidy) {t : Thread} {c : Call} (hc : c ≠ .stopWrite) :
    (w.call t c).Tidy := by
  cases c with
  | send message r =>
      show (w.send t message r).Tidy
      unfold send
      split
      · cases t with
        | loop => exact sendInLoop_tidy h message r
        | other => exact h.of_eq rfl rfl rfl
      · exact h
  | shutdown => exact shutdown_tidy h t
  | forceClose => exact tidy_forceClose h
  | forceCloseWithDelay =>
      show w.forceCloseWithDelay.Tidy
      unfold forceCloseWithDelay
      split
      · exact h.of_eq rfl rfl rfl
      · exact h
  | startRead => exact tidy_runInLoop h t (tidy_startReadInLoop h)
  | stopRead => exact tidy_runInLoop h t (tidy_stopReadInLoop h)
  | startWrite => exact tidy_runInLoop h t (startWriteInLoop_tidy h)
  | stopWrite => exact absurd rfl hc

theorem leaves_runFunctor {w : World} (h : w.Tidy) {f : Functor} (wr : WriteResult)
    (hf : f ≠ .stopWriteInLoop) : (w.runFunctor f wr).Leaves := by
  cases f with
  | sendInLoop message => exact (sendInLoop_tidy h message wr).leaves
  | shutdownInLoop => exact (shutdownInLoop_tidy h).leaves
  | forceCloseInLoop => exact leaves_forceCloseInLoop h
  | startReadInLoop => exact (tidy_startReadInLoop h).leaves
  | stopReadInLoop => exact (tidy_stopReadInLoop h).leaves
  | startWriteInLoop => exact (startWriteInLoop_tidy h).leaves
  | stopWriteInLoop => exact absurd rfl hf
  | writeCompleteCallback => exact h.leaves_of_eq rfl rfl rfl
  | highWaterMarkCallback len => exact h.leaves_of_eq rfl rfl rfl
  | connectDestroyed => exact leaves_connectDestroyed h

/-- The step lemma for an action that does not stop writing. -/
theorem leaves_perform {w : World} {a : Action} (h : w.Tidy)
    (ha : ∀ t, a ≠ .call t .stopWrite) (hq : .stopWriteInLoop ∉ w.pendingFunctors_) :
    (w.perform a).Leaves := by
  cases a with
  | connectEstablished => exact (tidy_connectEstablished h).leaves
  | event revents r wr => exact leaves_handleEventWithGuard h revents r wr
  | resume =>
      simp only [perform]
      cases hfs : w.frames with
      | nil => exact h.leaves
      | cons f fs =>
          have hpop : ({ w with frames := fs } : World).Tidy := h.of_eq rfl rfl rfl
          cases f with
          | userCode => exact hpop.leaves
          | closeCallback =>
              exact ((emit_tidy hpop (e := .closeCallback) (by simp)).of_eq rfl rfl rfl).leaves
          | removeChannel => exact (tidy_removeChannel hpop).leaves
          | readCallback r => exact leaves_handleRead hpop r
          | writeCallback r => exact (handleWrite_tidy hpop r).leaves
  | call t c =>
      refine (tidy_call h ?_).leaves
      rintro rfl
      exact ha t rfl
  | runFunctor i wr =>
      simp only [perform]
      cases hi : w.pendingFunctors_[i]? with
      | none => exact h.leaves
      | some f =>
          have herase : ({ w with
              pendingFunctors_ := w.pendingFunctors_.eraseIdx i } : World).Tidy :=
            h.of_eq rfl rfl rfl
          refine leaves_runFunctor herase wr ?_
          rintro rfl
          exact hq (List.mem_of_getElem? hi)
  | delayedClose =>
      have hset : ({ w with delayedCloses := w.delayedCloses - 1 } : World).Tidy :=
        h.of_eq rfl rfl rfl
      exact (tidy_forceClose hset).leaves
  | destroy => exact (tidy_destruct h).leaves

/-! ## A disconnected connection stays so -/

theorem handleClose_state_of_disconnected {w : World} (h : w.state_ = .kDisconnected) :
    w.handleClose.state_ = .kDisconnected := by
  rw [handleClose]
  simpa [isOpen_of_disconnected h, emit] using h

theorem shutdownInLoop_state_of_disconnected {w : World} (h : w.state_ = .kDisconnected) :
    w.shutdownInLoop.state_ = .kDisconnected := by
  cases hw : w.channel_.isWriting with
  | true => rwa [shutdownInLoop_of_writing hw]
  | false =>
      rw [shutdownInLoop_of_not_writing hw]
      split
      · exact handleClose_state_of_disconnected h
      · exact h

theorem outputDrained_state_of_disconnected {w : World} (h : w.state_ = .kDisconnected) :
    w.outputDrained.state_ = .kDisconnected := by
  have hqueue : ({ w with channel_ := w.channel_.disableWriting }.queueWriteComplete).state_ =
      .kDisconnected := by
    unfold queueWriteComplete
    split <;> exact h
  simp [outputDrained, hqueue]

theorem handleWrite_state_of_disconnected {w : World} (h : w.state_ = .kDisconnected)
    (r : WriteResult) : (w.handleWrite r).state_ = .kDisconnected := by
  unfold handleWrite
  split
  · cases r with
    | fail e => exact h
    | room k =>
        dsimp only
        split
        · split
          · exact outputDrained_state_of_disconnected h
          · exact h
        · exact h
  · exact h

theorem call_state_of_disconnected {w : World} (h : w.state_ = .kDisconnected) (t : Thread)
    (c : Call) : (w.call t c).state_ = .kDisconnected := by
  have hread : ∀ (f : Functor) (now : World → World), (now w).state_ = w.state_ →
      (w.runInLoop t f now).state_ = .kDisconnected := by
    intro f now hnow
    cases t with
    | loop => exact hnow.trans h
    | other => exact h
  cases c with
  | startRead =>
      refine hread _ _ ?_
      unfold startReadInLoop
      split <;> rfl
  | stopRead =>
      refine hread _ _ ?_
      unfold stopReadInLoop
      split <;> rfl
  | startWrite =>
      refine hread _ _ ?_
      unfold startWriteInLoop
      split <;> rfl
  | _ => exact call_of_disconnected h t (by simp)

theorem runFunctor_state_of_disconnected {w : World} (h : w.state_ = .kDisconnected) (f : Functor)
    (wr : WriteResult) : (w.runFunctor f wr).state_ = .kDisconnected := by
  cases f with
  | sendInLoop message => simp [runFunctor, sendInLoop, h]
  | shutdownInLoop => exact shutdownInLoop_state_of_disconnected h
  | forceCloseInLoop => simp [runFunctor, forceCloseInLoop, isOpen_of_disconnected h, h]
  | startReadInLoop => exact call_state_of_disconnected h .loop .startRead
  | stopReadInLoop => exact call_state_of_disconnected h .loop .stopRead
  | startWriteInLoop => exact call_state_of_disconnected h .loop .startWrite
  | stopWriteInLoop => exact call_state_of_disconnected h .loop .stopWrite
  | writeCompleteCallback => exact h
  | highWaterMarkCallback len => exact h
  | connectDestroyed => simp [runFunctor, connectDestroyed, h, removeChannel_state]

theorem perform_state_of_disconnected {w : World} {a : Action} (h : w.state_ = .kDisconnected)
    (he : w.enabled a = true) : (w.perform a).state_ = .kDisconnected := by
  cases a with
  | connectEstablished => simp [enabled, h] at he
  | event revents r wr =>
      simp only [perform, handleEventWithGuard, handleError]
      split <;> split <;> first | exact h | exact handleClose_state_of_disconnected h
  | resume =>
      simp only [perform]
      cases w.frames with
      | nil => exact h
      | cons f fs =>
          cases f with
          | userCode => exact h
          | closeCallback => exact h
          | removeChannel => exact (removeChannel_state _).trans h
          | readCallback r =>
              cases r with
              | fail => exact h
              | ok data =>
                  simp only [resume, handleRead]
                  split
                  · exact h
                  · exact handleClose_state_of_disconnected h
          | writeCallback r =>
              refine handleWrite_state_of_disconnected ?_ r
              exact h
  | call t c => exact call_state_of_disconnected h t c
  | runFunctor i wr =>
      simp only [perform]
      cases w.pendingFunctors_[i]? with
      | none => exact h
      | some f =>
          refine runFunctor_state_of_disconnected ?_ f wr
          exact h
  | delayedClose => simp [perform, forceClose, isOpen, h]
  | destroy =>
      simp only [perform, destruct, h, if_true]
      split <;> exact h

end World

/-! ## The sending end -/

/-- What holds of an end that never stops writing. -/
structure Settled (e : Endpoint) : Prop where
  noStop : .stopWriteInLoop ∉ e.out.conn.pendingFunctors_
  tidy : e.out.conn.state_ ≠ .kDisconnected → e.out.conn.Tidy
  /-- Nothing has followed the messages that the shutdown came after. -/
  closed : ∀ m, e.shutAfter = some m → e.out.conn.fin = true ∧ e.out.conn.accepted = m

namespace Settled

variable {e : Endpoint}

/-- With nothing pending the kernel has taken every message before the first fault. -/
theorem accepted_of_empty {o : Output} (h : o.Inv) (hempty : o.conn.outputBuffer_.readable = []) :
    o.conn.accepted = o.before := by
  cases hf : o.faulted with
  | true => exact (h.1.2 hf).1
  | false =>
      have hstream := h.1.1 hf
      rwa [Output.stream, hempty, List.append_nil] at hstream

theorem advance {d : Endpoint} {reset : Bool} {a : Action} (h : Settled e) (hinv : e.out.Inv)
    (he : e.out.conn.enabled a = true) (hk : kernelAllows e d reset a = true)
    (ha : ∀ t, a ≠ .call t .stopWrite) : Settled (e.advance a) := by
  have hconn := Output.conn_advance e.out a
  have hinv' : (e.out.advance a).Inv := Output.advance_inv hinv fun hb => answer_fails hk (Or.inl hb)
  have hleaves : e.out.conn.state_ ≠ .kDisconnected → (e.out.conn.perform a).Leaves := fun hst =>
    World.leaves_perform (h.tidy hst) ha h.noStop
  refine ⟨?_, ?_, ?_⟩
  · simp only [Endpoint.advance, hconn]
    exact World.perform_noStop (ha _) h.noStop
  · simp only [Endpoint.advance, hconn]
    intro hst
    -- a connection that is live now was live before
    have hlive : e.out.conn.state_ ≠ .kDisconnected := fun hd =>
      hst (World.perform_state_of_disconnected hd he)
    exact ⟨(hleaves hlive).2 hst, (hleaves hlive).1⟩
  · intro m hm
    simp only [Endpoint.advance, hconn] at hm ⊢
    cases hfin : e.out.conn.fin with
    | true =>
        rw [hfin, if_pos rfl] at hm
        refine ⟨World.fin_of_prefix (World.perform_kept a) hfin, ?_⟩
        rw [World.perform_accepted_of_fail (answer_fails hk (Or.inr hfin))]
        exact (h.closed m hm).2
    | false =>
        rw [hfin, if_neg (by simp)] at hm
        rcases Option.ite_none_right_eq_some.1 hm with ⟨hshut, hm⟩
        simp only [Bool.and_eq_true, bne_iff_ne] at hshut
        refine ⟨World.fin_of_shut hshut.1, ?_⟩
        -- this action shut the socket down, with nothing left to send
        have hempty : (e.out.conn.perform a).outputBuffer_.readable = [] := by
          rcases World.mem_of_shut hshut.1 with ⟨u, hu⟩
          rcases World.perform_unsent (ha _) hu with hold | hnew
          · have hshutOld : e.out.conn.shut = true := List.any_eq_true.2 ⟨_, hold, rfl⟩
            simp [World.fin_of_shut hshutOld] at hfin
          · rw [← hnew]
            exact (hleaves hshut.2).1 u hu
        rw [← hconn] at hempty ⊢
        rw [accepted_of_empty hinv' hempty]
        exact Option.some.inj hm

theorem retrieve (h : Settled e) (n : Nat) : Settled (e.retrieve n) := by
  unfold Endpoint.retrieve
  split
  · exact ⟨h.noStop, fun hst => (h.tidy hst).of_eq rfl rfl rfl, h.closed⟩
  · exact h

theorem handOver (h : Settled e) (n : Nat) : Settled (e.handOver n) :=
  ⟨h.noStop, h.tidy, h.closed⟩

end Settled

namespace Joint

/-- The end `s` never calls `stopWrite`. -/
def keepsWriting (s : Side) (_ : Joint) (m : Move) : Prop :=
  m ≠ .act s (.call .loop .stopWrite) ∧ m ≠ .act s (.call .other .stopWrite)

instance (s : Side) (j : Joint) (m : Move) : Decidable (keepsWriting s j m) :=
  inferInstanceAs (Decidable (_ ∧ _))

theorem perform_settled {j : Joint} {s : Side} {m : Move} (h : Settled (j.ends s))
    (hflows : j.Flows) (hm : j.enabled m = true) (hs : keepsWriting s j m) :
    Settled ((j.perform m).ends s) := by
  cases m with
  | reset => exact h
  | retrieve t n =>
      by_cases hst : s = t
      · simpa [perform, hst] using (hst ▸ h).retrieve n
      · simpa [perform, hst] using h
  | act t a =>
      by_cases hst : s = t
      · subst hst
        obtain ⟨he, hk⟩ := Bool.and_eq_true_iff.1 hm
        have ha : ∀ t, a ≠ .call t .stopWrite := by
          rintro t rfl
          cases t with
          | loop => exact hs.1 rfl
          | other => exact hs.2 rfl
        simpa [perform] using h.advance (hflows s).account he hk ha
      · simpa [perform, hst] using h.handOver _

/-- The end of file comes after every message: when `read` has returned 0 at one end and the other,
which never stops writing, shut its socket down while it was live, then what was received is exactly
what had been handed over before that shutdown. -/
theorem eof_after_every_message {s : Side} {j : Joint}
    (h : (system.restrict (keepsWriting s)).Reachable j) :
    (j.ends s.peer).eof = true → ∀ m, (j.ends s).shutAfter = some m →
      (j.ends s.peer).received = m := by
  have hboth : j.Flows ∧ Settled (j.ends s) := by
    refine h.invariant (P := fun j => j.Flows ∧ Settled (j.ends s)) ?_ ?_
    · rintro j ⟨w, hw, rfl⟩
      refine ⟨flows_constructed w hw, ?_⟩
      rcases hw s with ⟨wc, hm, mark, heq⟩
      refine ⟨by simp [heq, World.constructed], ?_, by simp⟩
      intro _
      simp only [heq]
      exact ⟨fun hne => absurd (WfBuffer.readable_construct _) hne,
        by simp [World.ShutDownClean, World.constructed]⟩
    · rintro j m j' ⟨hflows, hsettled⟩ ⟨hs, hm, rfl⟩
      exact ⟨perform_flows hflows hm, perform_settled hsettled hflows hm hs⟩
  intro heof m hm
  have hflow := hboth.1 s
  calc
    (j.ends s.peer).received
        = (j.ends s.peer).received ++ (j.ends s).wire := by
          rw [(hflow.ended heof).1, List.append_nil]
    _ = (j.ends s).out.conn.accepted := hflow.conserved
    _ = m := (hboth.2.closed m hm).2

/-- The exchange is such a run. -/
def exchangeKept : Option Joint :=
  System.runAll (fun j m => if keepsWriting .client j m ∧ j.enabled m = true
    then some (j.perform m) else none) connected exchange

theorem eof_after_every_message_exchange :
    ∃ j, exchangeKept = some j ∧ (j.ends .server).received = [1, 2, 3, 4, 5] := by
  obtain ⟨j, hj, heof, hshut⟩ : ∃ j, exchangeKept = some j ∧ (j.ends .server).eof = true ∧
      (j.ends .client).shutAfter = some [1, 2, 3, 4, 5] := by
    have hs : (exchangeKept.map fun j => ((j.ends .server).eof, (j.ends .client).shutAfter)) =
        some (true, some [1, 2, 3, 4, 5]) := by decide +kernel
    simpa [Option.map_eq_some_iff] using hs
  have hreach : (system.restrict (keepsWriting .client)).Reachable j := by
    refine .of_guarded ?_ (.init ⟨_, fun _ => ⟨false, false, 64, rfl⟩, rfl⟩) hj
    intro j m hm
    exact ⟨hm.1, hm.2, rfl⟩
  exact ⟨j, hj, eof_after_every_message hreach heof _ hshut⟩

end Joint

end Net
end Longky
