import Longky.Net.TcpOutput
import Longky.Net.TcpRuns

/-!
# TcpBytes — what an action of a connection does to the bytes

Every action of `TcpRuns` is one of three kinds: it calls `sendInLoop` or `handleWrite`
(`outputPart`), it hands what `read` returned to `inputBuffer_` (`fed`), or it is `Still` — both
buffers stay as they are and no effect carries a byte.

Whatever the kind, effects are only added, and the read buffer grows by exactly what was read.
-/

namespace Longky
namespace Net

open Lib

/-! ## Functions that move no byte -/

/-- An effect that carries no byte; a shutdown leaves `pending` unsent. -/
def Effect.Silent (pending : Bytes) : Effect → Prop
  | .wrote _ => False
  | .shutdownWrite unsent => unsent = pending
  | _ => True

theorem Effect.Silent.bytes_eq {pending : Bytes} {e : Effect} (h : e.Silent pending) :
    e.bytes = [] := by
  cases e with
  | wrote bytes => exact h.elim
  | _ => rfl

namespace World

/-- Both buffers are as they were, and nothing but silent effects has happened. -/
structure Still (w w' : World) : Prop where
  input : w'.inputBuffer_ = w.inputBuffer_
  output : w'.outputBuffer_ = w.outputBuffer_
  effects : ∃ es, w'.effects = w.effects ++ es ∧ ∀ e ∈ es, e.Silent w.outputBuffer_.readable
  noStop : .stopWriteInLoop ∈ w'.pendingFunctors_ → .stopWriteInLoop ∈ w.pendingFunctors_

namespace Still

variable {w w' w'' : World}

theorem refl (w : World) : w.Still w :=
  ⟨rfl, rfl, ⟨[], (List.append_nil _).symm, by simp⟩, id⟩

theorem trans (h : w.Still w') (h' : w'.Still w'') : w.Still w'' := by
  rcases h.effects with ⟨es, hes, hsilent⟩
  rcases h'.effects with ⟨es', hes', hsilent'⟩
  refine ⟨h'.input.trans h.input, h'.output.trans h.output, ⟨es ++ es', ?_, ?_⟩, ?_⟩
  · rw [hes', hes, List.append_assoc]
  · intro e he
    rcases List.mem_append.1 he with hold | hnew
    · exact hsilent e hold
    · exact h.output ▸ hsilent' e hnew
  · exact fun hstop => h.noStop (h'.noStop hstop)

/-- No effect at all. -/
theorem of_eq (hi : w'.inputBuffer_ = w.inputBuffer_) (ho : w'.outputBuffer_ = w.outputBuffer_)
    (he : w'.effects = w.effects)
    (hp : .stopWriteInLoop ∈ w'.pendingFunctors_ → .stopWriteInLoop ∈ w.pendingFunctors_) :
    w.Still w' :=
  ⟨hi, ho, ⟨[], by rw [he, List.append_nil], by simp⟩, hp⟩

theorem emit (w : World) {e : Effect} (he : e.Silent w.outputBuffer_.readable) :
    w.Still (w.emit e) :=
  ⟨rfl, rfl, ⟨[e], rfl, by simpa using he⟩, id⟩

theorem push (w : World) (fs : List Frame) : w.Still (w.push fs) :=
  of_eq rfl rfl rfl id

theorem queueInLoop (w : World) {f : Functor} (hf : f ≠ .stopWriteInLoop) :
    w.Still (w.queueInLoop f) := by
  refine of_eq rfl rfl rfl ?_
  intro hmem
  rcases List.mem_append.1 hmem with hold | hnew
  · exact hold
  · exact absurd (List.mem_singleton.1 hnew).symm hf

theorem accepted (h : w.Still w') : w'.accepted = w.accepted := by
  rcases h.effects with ⟨es, hes, hsilent⟩
  have hnone : es.flatMap Effect.bytes = [] :=
    List.flatMap_eq_nil_iff.2 fun e he => (hsilent e he).bytes_eq
  rw [World.accepted, hes, List.flatMap_append, hnone, List.append_nil, World.accepted]

end Still

theorem still_closeNow (w : World) : w.Still w.closeNow := by
  let w₁ : World := { w with state_ := .kDisconnected, channel_ := w.channel_.disableAll }
  have hset : w.Still w₁ := .of_eq rfl rfl rfl id
  have hcall : w₁.Still (w₁.emit (.connectionCallback .kDisconnected)) := .emit w₁ trivial
  exact hset.trans (hcall.trans (.push _ _))

theorem still_shutdownWrite (w : World) : w.Still w.shutdownWrite :=
  .emit w rfl

theorem still_handleClose (w : World) : w.Still w.handleClose := by
  by_cases hopen : w.isOpen = true
  · cases hflag : w.closeFlag_ with
    | true =>
        rw [handleClose_of_closeFlag hopen hflag]
        exact still_closeNow w
    | false =>
        let w₁ : World :=
          { w with dissByPeer_ := true, closeFlag_ := true, state_ := .kDisconnecting }
        have hset : w.Still w₁ := .of_eq rfl rfl rfl id
        rw [handleClose_of_not_closeFlag hopen hflag]
        dsimp only
        split
        · split
          · exact hset
          · exact hset.trans ((still_shutdownWrite w₁).trans (still_closeNow _))
        · exact .of_eq rfl rfl rfl id
  · rw [handleClose]
    simp only [hopen]
    exact .emit w trivial

theorem still_shutdownInLoop (w : World) : w.Still w.shutdownInLoop := by
  cases hw : w.channel_.isWriting with
  | true =>
      rw [shutdownInLoop_of_writing hw]
      exact .refl w
  | false =>
      rw [shutdownInLoop_of_not_writing hw]
      split
      · exact (still_shutdownWrite w).trans (still_handleClose _)
      · exact still_shutdownWrite w

theorem still_shutdown (w : World) (t : Thread) : w.Still (w.shutdown t) := by
  let w₁ : World := { w with closeFlag_ := true, state_ := .kDisconnecting }
  have hset : w.Still w₁ := .of_eq rfl rfl rfl id
  cases t with
  | loop =>
      rw [shutdown_loop]
      split
      · exact hset.trans (still_shutdownInLoop w₁)
      · exact .refl w
  | other =>
      rw [shutdown_other]
      split
      · exact hset.trans (.queueInLoop w₁ (by simp))
      · exact .refl w

theorem still_forceClose (w : World) : w.Still w.forceClose := by
  unfold forceClose
  split
  · have hset : w.Still (w.setState .kDisconnecting) := .of_eq rfl rfl rfl id
    exact hset.trans (.queueInLoop _ (by simp))
  · exact .refl w

theorem still_forceCloseWithDelay (w : World) : w.Still w.forceCloseWithDelay := by
  unfold forceCloseWithDelay
  split
  · exact .of_eq rfl rfl rfl id
  · exact .refl w

theorem still_forceCloseInLoop (w : World) : w.Still w.forceCloseInLoop := by
  unfold forceCloseInLoop
  split
  · let w₁ : World := { w with closeFlag_ := true, forceFlag_ := true, setSolinger_ := true }
    have hset : w.Still w₁ := .of_eq rfl rfl rfl id
    exact hset.trans (still_handleClose w₁)
  · exact .refl w

theorem still_connectEstablished (w : World) : w.Still w.connectEstablished := by
  unfold connectEstablished
  split
  · let w₁ : World := { w.setState .kConnected with channel_ := w.channel_.enableReading }
    have hset : w.Still w₁ := .of_eq rfl rfl rfl id
    have hcall : w₁.Still (w₁.emit (.connectionCallback .kConnected)) := .emit w₁ trivial
    exact hset.trans (hcall.trans (.push _ _))
  · exact .emit w trivial

theorem still_removeChannel (w : World) : w.Still w.removeChannel := by
  let w₁ : World :=
    { w with channel_ := { w.channel_ with addedToLoop_ := false }, channelRemoved := true }
  have hset : w.Still w₁ := .of_eq rfl rfl rfl id
  unfold removeChannel
  split
  · dsimp only
    split
    · exact hset.trans (.emit w₁ trivial)
    · exact hset
  · exact .emit w trivial

theorem still_connectDestroyed (w : World) : w.Still w.connectDestroyed := by
  unfold connectDestroyed
  split
  · let w₁ : World := { w with state_ := .kDisconnected, channel_ := w.channel_.disableAll }
    have hset : w.Still w₁ := .of_eq rfl rfl rfl id
    have hcall : w₁.Still (w₁.emit (.connectionCallback .kDisconnected)) := .emit w₁ trivial
    exact hset.trans (hcall.trans (.push _ _))
  · exact still_removeChannel w

theorem still_destruct (w : World) : w.Still w.destruct := by
  let w₁ : World := if w.state_ = .kDisconnected then w else w.emit .assertionFailed
  have hstate : w.Still w₁ := by
    show w.Still (if w.state_ = .kDisconnected then w else w.emit .assertionFailed)
    split
    · exact .refl w
    · exact .emit w trivial
  let w₂ : World := if !w₁.setSolinger_ then w₁.emit .close else w₁
  have hclose : w₁.Still w₂ := by
    show w₁.Still (if !w₁.setSolinger_ then w₁.emit .close else w₁)
    split
    · exact .emit w₁ trivial
    · exact .refl w₁
  have hset : w₂.Still w.destruct := .of_eq rfl rfl rfl id
  exact hstate.trans (hclose.trans hset)

theorem still_handleEventWithGuard (w : World) (revents : Revents) (r : ReadResult)
    (wr : WriteResult) : w.Still (w.handleEventWithGuard revents r wr) := by
  let w₁ : World := w.push (readWriteCallbacks revents r wr)
  have hclose : w₁.Still (if revents.POLLHUP && !revents.POLLIN then w₁.handleClose else w₁) := by
    split
    · exact still_handleClose w₁
    · exact .refl w₁
  have hpush : w.Still w₁ := .push w _
  unfold handleEventWithGuard
  -- `handleError` only logs
  dsimp only [handleError]
  split <;> exact hpush.trans hclose

theorem still_runInLoop (w : World) (t : Thread) {f : Functor} {now : World → World}
    (hf : f ≠ .stopWriteInLoop) (hnow : w.Still (now w)) : w.Still (w.runInLoop t f now) := by
  cases t with
  | loop => exact hnow
  | other => exact .queueInLoop w hf

theorem still_startReadInLoop (w : World) : w.Still w.startReadInLoop := by
  unfold startReadInLoop
  split <;> exact .of_eq rfl rfl rfl id

theorem still_stopReadInLoop (w : World) : w.Still w.stopReadInLoop := by
  unfold stopReadInLoop
  split <;> exact .of_eq rfl rfl rfl id

theorem still_startWriteInLoop (w : World) : w.Still w.startWriteInLoop := by
  unfold startWriteInLoop
  split <;> exact .of_eq rfl rfl rfl id

theorem still_stopWriteInLoop (w : World) : w.Still w.stopWriteInLoop := by
  unfold stopWriteInLoop
  split <;> exact .of_eq rfl rfl rfl id

/-! ## The part of an action that moves bytes -/

/-- What an action hands to `handleRead`. -/
def reads (w : World) : Action → Option ReadResult
  | .resume =>
      match w.frames with
      | .readCallback r :: _ => some r
      | _ => none
  | _ => none

/-- The bytes that an action adds to `inputBuffer_`. -/
def fed (w : World) (a : Action) : Bytes :=
  match w.reads a with
  | some (.ok data) => data
  | _ => []

/-- The call of `sendInLoop` or `handleWrite` that an action makes, with the connection it is made
on.  A message that `send` or `sendInLoop` drops on a closed connection is not handed over. -/
def outputPart (w : World) : Action → Option (World × OutputOp)
  | .call .loop (.send message r) =>
      if w.state_ = .kConnected then some (w, .sendInLoop message r) else none
  | .runFunctor i wr =>
      match w.pendingFunctors_[i]? with
      | some (.sendInLoop message) =>
          if w.state_ = .kDisconnected then none
          else some ({ w with pendingFunctors_ := w.pendingFunctors_.eraseIdx i },
            .sendInLoop message wr)
      | _ => none
  | .resume =>
      match w.frames with
      | .writeCallback r :: fs => some ({ w with frames := fs }, .handleWrite r)
      | _ => none
  | _ => none

/-- What `outputPart` finds is a `sendInLoop` on a live connection or a `handleWrite`, and it is
all that the action does. -/
theorem outputPart_spec {w v : World} {a : Action} {op : OutputOp}
    (h : w.outputPart a = some (v, op)) :
    w.Still v ∧ v.effects = w.effects ∧ v.state_ = w.state_ ∧ v.channel_ = w.channel_ ∧
      op.apply v = w.perform a ∧
      ((∃ message r, op = .sendInLoop message r ∧ v.state_ ≠ .kDisconnected) ∨
        ∃ r, op = .handleWrite r) := by
  cases a with
  | call t c =>
      cases t <;> cases c <;> simp only [outputPart, Option.ite_none_right_eq_some, reduceCtorEq,
        Option.some.injEq, Prod.mk.injEq] at h
      rename_i message r
      rcases h with ⟨hst, rfl, rfl⟩
      refine ⟨.refl w, rfl, rfl, rfl, ?_, Or.inl ⟨message, r, rfl, by simp [hst]⟩⟩
      simp [OutputOp.apply, perform, call, send, hst]
  | runFunctor i wr =>
      simp only [outputPart] at h
      split at h
      · rename_i message hi
        rcases Option.ite_none_left_eq_some.1 h with ⟨hst, heq⟩
        cases heq
        refine ⟨.of_eq rfl rfl rfl List.mem_of_mem_eraseIdx, rfl, rfl, rfl, ?_,
          Or.inl ⟨message, wr, rfl, hst⟩⟩
        simp [OutputOp.apply, perform, hi, runFunctor]
      · exact absurd h (by simp)
  | resume =>
      simp only [outputPart] at h
      split at h
      · rename_i r fs hfs
        cases h
        refine ⟨.of_eq rfl rfl rfl id, rfl, rfl, rfl, ?_, Or.inr ⟨r, rfl⟩⟩
        simp [OutputOp.apply, perform, hfs, resume]
      · exact absurd h (by simp)
  | _ => exact absurd h (by simp [outputPart])

/-- `handleRead` with at least one byte. -/
theorem handleRead_of_ne {w : World} {data : Bytes} (h : data ≠ []) :
    w.handleRead (.ok data) =
      ({ w with inputBuffer_ := w.inputBuffer_.readFd data }.emit .messageCallback).push
        [.userCode] := by
  have hpos : 0 < data.length := List.length_pos_of_ne_nil h
  simp [handleRead, hpos]

theorem still_handleRead {w : World} {r : ReadResult} (h : ∀ data, r = .ok data → data = []) :
    w.Still (w.handleRead r) := by
  cases r with
  | fail => exact .refl w
  | ok data =>
      rw [h data rfl]
      exact still_handleClose w

theorem still_call {w : World} {t : Thread} {c : Call}
    (hsend : ∀ message r, c = .send message r → t = .loop → w.state_ ≠ .kConnected)
    (hstop : c = .stopWrite → t = .loop) : w.Still (w.call t c) := by
  cases c with
  | send message r =>
      show w.Still (w.send t message r)
      unfold send
      split
      · rename_i hst
        cases t with
        | loop => exact absurd hst (hsend message r rfl rfl)
        | other => exact .queueInLoop w (by simp)
      · exact .refl w
  | shutdown => exact still_shutdown w t
  | forceClose => exact still_forceClose w
  | forceCloseWithDelay => exact still_forceCloseWithDelay w
  | startRead => exact still_runInLoop w t (by simp) (still_startReadInLoop w)
  | stopRead => exact still_runInLoop w t (by simp) (still_stopReadInLoop w)
  | startWrite => exact still_runInLoop w t (by simp) (still_startWriteInLoop w)
  | stopWrite =>
      cases hstop rfl
      exact still_stopWriteInLoop w

theorem still_runFunctor {w : World} {f : Functor} {wr : WriteResult}
    (hsend : ∀ message, f = .sendInLoop message → w.state_ = .kDisconnected) :
    w.Still (w.runFunctor f wr) := by
  cases f with
  | sendInLoop message =>
      show w.Still (w.sendInLoop message wr)
      unfold sendInLoop
      rw [if_pos (hsend message rfl)]
      exact .refl w
  | shutdownInLoop => exact still_shutdownInLoop w
  | forceCloseInLoop => exact still_forceCloseInLoop w
  | startReadInLoop => exact still_startReadInLoop w
  | stopReadInLoop => exact still_stopReadInLoop w
  | startWriteInLoop => exact still_startWriteInLoop w
  | stopWriteInLoop => exact still_stopWriteInLoop w
  | writeCompleteCallback => exact .push w _
  | highWaterMarkCallback len => exact .push w _
  | connectDestroyed => exact still_connectDestroyed w

/-- Every other action leaves the bytes where they are. -/
theorem still_perform {w : World} {a : Action} (hout : w.outputPart a = none)
    (hin : w.fed a = []) (hstop : a ≠ .call .other .stopWrite) : w.Still (w.perform a) := by
  cases a with
  | connectEstablished => exact still_connectEstablished w
  | event revents r wr => exact still_handleEventWithGuard w revents r wr
  | resume =>
      simp only [perform]
      cases hfs : w.frames with
      | nil => exact .refl w
      | cons f fs =>
          have hpop : w.Still { w with frames := fs } := .of_eq rfl rfl rfl id
          refine hpop.trans ?_
          cases f with
          | userCode => exact .refl _
          | closeCallback =>
              have hemit := Still.emit { w with frames := fs } (e := .closeCallback) trivial
              exact hemit.trans (.queueInLoop _ (by simp))
          | removeChannel => exact still_removeChannel _
          | readCallback r =>
              refine still_handleRead ?_
              rintro data rfl
              simpa [fed, reads, hfs] using hin
          | writeCallback r => simp [outputPart, hfs] at hout
  | call t c =>
      refine still_call ?_ ?_
      · rintro message r rfl rfl
        simpa [outputPart] using hout
      · rintro rfl
        cases t with
        | loop => rfl
        | other => exact absurd rfl hstop
  | runFunctor i wr =>
      simp only [perform]
      cases hi : w.pendingFunctors_[i]? with
      | none => exact .refl w
      | some f =>
          have herase : w.Still { w with pendingFunctors_ := w.pendingFunctors_.eraseIdx i } :=
            .of_eq rfl rfl rfl List.mem_of_mem_eraseIdx
          refine herase.trans (still_runFunctor ?_)
          rintro message rfl
          simpa [outputPart, hi] using hout
  | delayedClose =>
      have hset : w.Still { w with delayedCloses := w.delayedCloses - 1 } := .of_eq rfl rfl rfl id
      exact hset.trans (still_forceClose _)
  | destroy => exact still_destruct w

/-! ## What every action keeps -/

/-- `socket_->shutdownWrite()` or the close of the descriptor. -/
def fin (w : World) : Bool :=
  w.effects.any fun
    | .shutdownWrite _ | .close => true
    | _ => false

/-- The socket has been shut down, possibly with output pending. -/
def shut (w : World) : Bool :=
  w.effects.any fun
    | .shutdownWrite _ => true
    | _ => false

/-- Effects are only added; a new shutdown leaves unsent what is pending afterwards; `stopWrite`
does not come out of nowhere. -/
structure Carries (w w' : World) : Prop where
  input : w'.inputBuffer_ = w.inputBuffer_
  kept : w.effects <+: w'.effects
  unsent : ∀ u, .shutdownWrite u ∈ w'.effects →
    .shutdownWrite u ∈ w.effects ∨ u = w'.outputBuffer_.readable
  noStop : .stopWriteInLoop ∈ w'.pendingFunctors_ → .stopWriteInLoop ∈ w.pendingFunctors_

theorem Still.carries {w w' : World} (h : w.Still w') : w.Carries w' := by
  rcases h.effects with ⟨es, hes, hsilent⟩
  refine ⟨h.input, hes ▸ List.prefix_append _ _, ?_, h.noStop⟩
  intro u hu
  rw [hes] at hu
  rcases List.mem_append.1 hu with hold | hnew
  · exact Or.inl hold
  · exact Or.inr (h.output ▸ hsilent _ hnew)

/-- A step without a shutdown, then a silent one. -/
theorem Carries.of_still {w w₁ w' : World} (hin : w₁.inputBuffer_ = w.inputBuffer_)
    (hkept : w.effects <+: w₁.effects)
    (hshut : ∀ u, .shutdownWrite u ∈ w₁.effects → .shutdownWrite u ∈ w.effects)
    (hstop : .stopWriteInLoop ∈ w₁.pendingFunctors_ → .stopWriteInLoop ∈ w.pendingFunctors_)
    (h : w₁.Still w') : w.Carries w' where
  input := h.input.trans hin
  kept := hkept.trans h.carries.kept
  unsent u hu := (h.carries.unsent u hu).imp_left (hshut u)
  noStop hmem := hstop (h.noStop hmem)

theorem still_queueWriteComplete (w : World) : w.Still w.queueWriteComplete := by
  unfold queueWriteComplete
  split
  · exact .queueInLoop w (by simp)
  · exact .refl w

theorem still_outputDrained (w : World) : w.Still w.outputDrained := by
  have hset : w.Still { w with channel_ := w.channel_.disableWriting } := .of_eq rfl rfl rfl id
  have hqueue := hset.trans (still_queueWriteComplete { w with channel_ := w.channel_.disableWriting })
  unfold outputDrained
  dsimp only
  split
  · exact hqueue.trans (still_shutdownInLoop _)
  · exact hqueue

theorem carries_handleWrite (w : World) (r : WriteResult) : w.Carries (w.handleWrite r) := by
  unfold handleWrite
  split
  · cases r with
    | fail e => exact (Still.refl w).carries
    | room k =>
        dsimp only
        split
        · have hwrote : ∀ w', Still (w.retrieveWritten (min k w.outputBuffer_.readableBytes)
              (Nat.min_le_right _ _)) w' → w.Carries w' := by
            intro w' hw'
            refine .of_still ?_ ?_ ?_ ?_ hw'
            · rfl
            · exact List.prefix_append _ _
            · intro u hu
              simpa [retrieveWritten, emit] using hu
            · exact id
          split
          · exact hwrote _ (still_outputDrained _)
          · exact hwrote _ (.refl _)
        · exact (Still.refl w).carries
  · exact (Still.refl w).carries

/-- The second half of `sendInLoop` adds no effect; of the input side it touches nothing. -/
theorem appendRemaining_frame (w : World) (data : Bytes) :
    (w.appendRemaining data).inputBuffer_ = w.inputBuffer_ ∧
      (.stopWriteInLoop ∈ (w.appendRemaining data).pendingFunctors_ →
        .stopWriteInLoop ∈ w.pendingFunctors_) := by
  unfold appendRemaining
  split
  · dsimp only
    split <;> split <;> simp [queueInLoop]
  · exact ⟨rfl, id⟩

theorem carries_appendRemaining {w v : World} (data : Bytes) (hin : w.inputBuffer_ = v.inputBuffer_)
    (hkept : v.effects <+: w.effects)
    (hshut : ∀ u, .shutdownWrite u ∈ w.effects → .shutdownWrite u ∈ v.effects)
    (hstop : w.pendingFunctors_ = v.pendingFunctors_) : v.Carries (w.appendRemaining data) := by
  rcases appendRemaining_output w data with ⟨-, heff, -⟩
  rcases appendRemaining_frame w data with ⟨hinput, hpending⟩
  refine ⟨hinput.trans hin, heff ▸ hkept, ?_, ?_⟩
  · intro u hu
    rw [heff] at hu
    exact Or.inl (hshut u hu)
  · intro hmem
    rw [← hstop]
    exact hpending hmem

theorem carries_sendInLoop (w : World) (message : Bytes) (r : WriteResult) :
    w.Carries (w.sendInLoop message r) := by
  have hrest : ∀ data, w.Carries (w.appendRemaining data) := fun data =>
    carries_appendRemaining data rfl (List.prefix_refl _) (fun _ hu => hu) rfl
  unfold sendInLoop
  split
  · exact (Still.refl w).carries
  · split
    · cases r with
      | room n =>
          have hshut : ∀ u, .shutdownWrite u ∈ (w.emit (.wrote (message.take n))).effects →
              Effect.shutdownWrite u ∈ w.effects := by
            intro u hu
            simpa [emit] using hu
          dsimp only
          split
          · have hstill := still_queueWriteComplete (w.emit (.wrote (message.take n)))
            refine .of_still ?_ ?_ hshut ?_ hstill
            · rfl
            · exact List.prefix_append _ _
            · exact id
          · exact carries_appendRemaining _ rfl (List.prefix_append _ _) hshut rfl
      | fail e =>
          dsimp only
          split
          · exact (Still.emit w (e := .faultError) trivial).carries
          · exact hrest message
    · exact hrest message

theorem carries_outputPart {w v : World} {a : Action} {op : OutputOp}
    (h : w.outputPart a = some (v, op)) : w.Carries (w.perform a) := by
  rcases outputPart_spec h with ⟨hstill, heff, -, -, happly, hop⟩
  have hcarries : v.Carries (op.apply v) := by
    rcases hop with ⟨message, r, rfl, -⟩ | ⟨r, rfl⟩
    · exact carries_sendInLoop v message r
    · exact carries_handleWrite v r
  rw [happly] at hcarries
  exact ⟨hcarries.input.trans hstill.input, heff ▸ hcarries.kept,
    fun u hu => (hcarries.unsent u hu).imp_left (heff ▸ ·),
    fun hmem => hstill.noStop (hcarries.noStop hmem)⟩

/-- An action that reads bytes appends them to `inputBuffer_` and does nothing else to a byte. -/
theorem perform_of_fed {w : World} {a : Action} (h : w.fed a ≠ []) :
    ∃ v : World, v.inputBuffer_ = w.inputBuffer_.readFd (w.fed a) ∧
      v.outputBuffer_ = w.outputBuffer_ ∧ v.effects = w.effects ∧
      v.pendingFunctors_ = w.pendingFunctors_ ∧ v.Still (w.perform a) := by
  have hread : ∃ data fs, a = .resume ∧ w.frames = .readCallback (.ok data) :: fs ∧
      w.fed a = data ∧ data ≠ [] := by
    cases a with
    | resume =>
        cases hfs : w.frames with
        | nil => simp [fed, reads, hfs] at h
        | cons f fs =>
            cases f with
            | readCallback r =>
                cases r with
                | ok data => exact ⟨data, fs, rfl, rfl, by simp [fed, reads, hfs],
                    by simpa [fed, reads, hfs] using h⟩
                | fail => simp [fed, reads, hfs] at h
            | _ => simp [fed, reads, hfs] at h
    | _ => simp [fed, reads] at h
  rcases hread with ⟨data, fs, rfl, hfs, hfed, hne⟩
  let v : World := { w with frames := fs, inputBuffer_ := w.inputBuffer_.readFd data }
  have hperform : w.perform .resume = (v.emit .messageCallback).push [.userCode] := by
    simp only [perform, hfs, resume]
    exact handleRead_of_ne hne
  refine ⟨v, by rw [hfed], rfl, rfl, rfl, ?_⟩
  rw [hperform]
  exact (Still.emit v (e := .messageCallback) trivial).trans (.push _ _)

theorem fin_of_prefix {w w' : World} (h : w.effects <+: w'.effects) (hf : w.fin = true) :
    w'.fin = true := by
  rcases h with ⟨es, hes⟩
  rw [fin, ← hes, List.any_append]
  exact Bool.or_eq_true_iff.2 (Or.inl hf)

theorem fin_of_shut {w : World} (h : w.shut = true) : w.fin = true := by
  rcases List.any_eq_true.1 h with ⟨e, he, hshut⟩
  refine List.any_eq_true.2 ⟨e, he, ?_⟩
  cases e with
  | shutdownWrite unsent => rfl
  | _ => simp at hshut

theorem mem_of_shut {w : World} (h : w.shut = true) : ∃ u, .shutdownWrite u ∈ w.effects := by
  rcases List.any_eq_true.1 h with ⟨e, he, hshut⟩
  cases e with
  | shutdownWrite unsent => exact ⟨unsent, he⟩
  | _ => simp at hshut

theorem accepted_of_prefix {w w' : World} (h : w.effects <+: w'.effects) :
    w.accepted <+: w'.accepted := by
  rcases h with ⟨es, hes⟩
  refine ⟨es.flatMap Effect.bytes, ?_⟩
  rw [accepted, accepted, ← hes, List.flatMap_append]

/-- Whatever an action does, it does after appending what it read to `inputBuffer_`. -/
theorem perform_carries (w : World) {a : Action} (hstop : a ≠ .call .other .stopWrite) :
    ∃ v : World, v.inputBuffer_.readable = w.inputBuffer_.readable ++ w.fed a ∧
      v.effects = w.effects ∧ v.pendingFunctors_ = w.pendingFunctors_ ∧
      v.Carries (w.perform a) := by
  by_cases hfed : w.fed a = []
  · have hcarries : w.Carries (w.perform a) := by
      cases hout : w.outputPart a with
      | some part => exact carries_outputPart hout
      | none => exact (still_perform hout hfed hstop).carries
    exact ⟨w, by rw [hfed, List.append_nil], rfl, rfl, hcarries⟩
  · rcases perform_of_fed hfed with ⟨v, hin, -, heff, hpending, hstill⟩
    exact ⟨v, by rw [hin, WfBuffer.readable_readFd], heff, hpending, hstill.carries⟩

/-- Effects are never taken back. -/
theorem perform_kept {w : World} (a : Action) : w.effects <+: (w.perform a).effects := by
  by_cases hstop : a = .call .other .stopWrite
  · subst hstop
    exact List.prefix_refl _
  · rcases perform_carries w hstop with ⟨v, -, heff, -, hcarries⟩
    exact heff ▸ hcarries.kept

/-- The read buffer grows by what was read, whatever else the action does. -/
theorem perform_input (w : World) (a : Action) :
    (w.perform a).inputBuffer_.readable = w.inputBuffer_.readable ++ w.fed a := by
  by_cases hstop : a = .call .other .stopWrite
  · subst hstop
    simp [perform, call, stopWrite, runInLoop, queueInLoop, fed, reads]
  · rcases perform_carries w hstop with ⟨v, hin, -, -, hcarries⟩
    rw [hcarries.input, hin]

/-- What a new shutdown leaves unsent is what is pending after the action. -/
theorem perform_unsent {w : World} {a : Action} (hstop : a ≠ .call .other .stopWrite) {u : Bytes}
    (hu : .shutdownWrite u ∈ (w.perform a).effects) :
    .shutdownWrite u ∈ w.effects ∨ u = (w.perform a).outputBuffer_.readable := by
  rcases perform_carries w hstop with ⟨v, -, heff, -, hcarries⟩
  exact heff ▸ hcarries.unsent u hu

theorem perform_noStop {w : World} {a : Action} (hstop : a ≠ .call .other .stopWrite)
    (h : .stopWriteInLoop ∉ w.pendingFunctors_) :
    .stopWriteInLoop ∉ (w.perform a).pendingFunctors_ := by
  rcases perform_carries w hstop with ⟨v, -, -, hpending, hcarries⟩
  intro hmem
  exact h (hpending ▸ hcarries.noStop hmem)

/-- Without an `outputPart` the output side is as it was. -/
theorem perform_output {w : World} {a : Action} (hout : w.outputPart a = none) :
    (w.perform a).outputBuffer_ = w.outputBuffer_ ∧ (w.perform a).accepted = w.accepted := by
  by_cases hstop : a = .call .other .stopWrite
  · subst hstop
    exact ⟨rfl, rfl⟩
  · by_cases hfed : w.fed a = []
    · have hstill := still_perform hout hfed hstop
      exact ⟨hstill.output, hstill.accepted⟩
    · rcases perform_of_fed hfed with ⟨v, -, hvout, heff, -, hstill⟩
      refine ⟨hstill.output.trans hvout, ?_⟩
      rw [hstill.accepted, accepted, heff, accepted]

/-- The kernel's answer, when the action calls `sockets::write`. -/
def answer (w : World) (a : Action) : Option WriteResult :=
  (w.outputPart a).bind fun part => part.2.answer part.1

/-- An action whose writes all fail hands no byte to the kernel. -/
theorem perform_accepted_of_fail {w : World} {a : Action}
    (h : ∀ r, w.answer a = some r → ∃ e, r = .fail e) :
    (w.perform a).accepted = w.accepted := by
  cases hout : w.outputPart a with
  | none => exact (perform_output hout).2
  | some part =>
      rcases part with ⟨v, op⟩
      rcases outputPart_spec hout with ⟨hstill, -, -, -, happly, hop⟩
      have hanswer : ∀ r, op.answer v = some r → ∃ e, r = .fail e := by
        intro r hr
        exact h r (by simpa [answer, hout] using hr)
      rw [← happly, ← hstill.accepted]
      rcases hop with ⟨message, r, rfl, -⟩ | ⟨r, rfl⟩
      · refine (sendInLoop_output_of_fail message ?_).1
        intro hd
        exact hanswer r (by simp [OutputOp.answer, hd])
      · rcases handleWrite_output v r with ⟨n, hacc, -, hzero⟩
        have hn : n = 0 := by
          apply hzero
          cases hw : v.channel_.isWriting with
          | false => exact Or.inr rfl
          | true => exact Or.inl (hanswer r (by simp [OutputOp.answer, hw]))
        subst hn
        simpa [OutputOp.apply] using hacc

end World

end Net
end Longky
