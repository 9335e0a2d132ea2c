import Longky.Net.TcpRuns

/-!
# TcpHalfClose — closing after the peer has finished sending

When the peer closes its sending side while output is pending, `handleClose` sets `dissByPeer_` and
`closeFlag_` and leaves the close to `handleWrite`.  The channel keeps reading, so a level-triggered
poller reports the end of file again; that second report finds `closeFlag_` set and closes at once.

The results are about runs without `forceClose` and `forceCloseWithDelay`.
-/

namespace Longky
namespace Net

open Lib

/-- Functors that neither close nor shut down. -/
def Functor.isCalm : Functor → Bool
  | .shutdownInLoop | .forceCloseInLoop | .connectDestroyed => false
  | _ => true

namespace World

/-! ## The invariant -/

structure Half (w : World) : Prop where
  flags : w.closeFlag_ = true ∨ w.dissByPeer_ = true →
    w.state_ ≠ .kConnecting ∧ w.state_ ≠ .kConnected
  shutdowns : Functor.shutdownInLoop ∈ w.pendingFunctors_ →
    w.closeFlag_ = true ∧ w.dissByPeer_ = false
  disconnecting : w.state_ = .kDisconnecting → w.closeFlag_ = true
  drained : w.state_ = .kDisconnected → w.outputBuffer_.readable = []
  connecting : w.state_ = .kConnecting →
    w.outputBuffer_.readable = [] ∧ ∀ m, Functor.sendInLoop m ∉ w.pendingFunctors_
  unforced : Functor.forceCloseInLoop ∉ w.pendingFunctors_
  undelayed : w.delayedCloses = 0
  closing : Frame.closeCallback ∈ w.frames → w.state_ = .kDisconnected
  destroying : Functor.connectDestroyed ∈ w.pendingFunctors_ → w.state_ = .kDisconnected
  removing : Frame.removeChannel ∉ w.frames

theorem constructed_half (wc hw : Bool) (mark : Nat) : (constructed wc hw mark).Half := by
  have hempty : (WfBuffer.construct Buffer.kInitialSize).readable = [] := by decide +kernel
  constructor <;> simp [constructed, hempty]

/-! ## Calm updates -/

/-- `w'` differs from `w` only in ways that bring no close nearer. -/
structure Calm (w w' : World) : Prop where
  state : w'.state_ = w.state_
  closeFlag : w'.closeFlag_ = w.closeFlag_
  dissByPeer : w'.dissByPeer_ = w.dissByPeer_
  delayed : w'.delayedCloses = w.delayedCloses
  pending : ∀ f ∈ w'.pendingFunctors_, f ∈ w.pendingFunctors_ ∨
    f.isCalm = true ∧ (w.state_ = .kConnecting → ∀ m, f ≠ .sendInLoop m)
  frames : ∀ f ∈ w'.frames, f ∈ w.frames ∨ f ≠ .closeCallback ∧ f ≠ .removeChannel
  output : w.isOpen = false → w'.outputBuffer_.readable = w.outputBuffer_.readable

theorem isOpen_eq_false {w : World} (h : w.state_ = .kConnecting ∨ w.state_ = .kDisconnected) :
    w.isOpen = false := by
  rcases h with h | h <;> simp [isOpen, h]

namespace Calm

variable {w w' w'' : World}

theorem refl (w : World) : w.Calm w where
  state := rfl
  closeFlag := rfl
  dissByPeer := rfl
  delayed := rfl
  pending _ := Or.inl
  frames _ := Or.inl
  output _ := rfl

theorem trans (h : w.Calm w') (h' : w'.Calm w'') : w.Calm w'' where
  state := h'.state.trans h.state
  closeFlag := h'.closeFlag.trans h.closeFlag
  dissByPeer := h'.dissByPeer.trans h.dissByPeer
  delayed := h'.delayed.trans h.delayed
  pending f hf := by
    rcases h'.pending f hf with hold | hnew
    · exact h.pending f hold
    · exact Or.inr (h.state ▸ hnew)
  frames f hf := (h'.frames f hf).elim (h.frames f) Or.inr
  output ho := by
    have ho' : w'.isOpen = false := by
      rw [isOpen, h.state]
      exact ho
    rw [h'.output ho', h.output ho]

end Calm

theorem Half.of_calm {w w' : World} (h : w.Half) (hc : w.Calm w') : w'.Half where
  flags := by
    rw [hc.closeFlag, hc.dissByPeer, hc.state]
    exact h.flags
  shutdowns hm := by
    rw [hc.closeFlag, hc.dissByPeer]
    exact (hc.pending _ hm).elim h.shutdowns (fun hn => absurd hn.1 (by decide))
  disconnecting := by
    rw [hc.state, hc.closeFlag]
    exact h.disconnecting
  drained hs := by
    rw [hc.state] at hs
    rw [hc.output (isOpen_eq_false (Or.inr hs))]
    exact h.drained hs
  connecting hs := by
    rw [hc.state] at hs
    rw [hc.output (isOpen_eq_false (Or.inl hs))]
    refine ⟨(h.connecting hs).1, ?_⟩
    intro m hm
    exact (hc.pending _ hm).elim ((h.connecting hs).2 m) (fun hn => hn.2 hs m rfl)
  unforced hm := (hc.pending _ hm).elim h.unforced (fun hn => absurd hn.1 (by decide))
  undelayed := hc.delayed.trans h.undelayed
  closing hm := by
    rw [hc.state]
    exact (hc.frames _ hm).elim h.closing (fun hn => absurd rfl hn.1)
  destroying hm := by
    rw [hc.state]
    exact (hc.pending _ hm).elim h.destroying (fun hn => absurd hn.1 (by decide))
  removing hm := (hc.frames _ hm).elim h.removing (fun hn => absurd rfl hn.2)

theorem calm_emit (w : World) (e : Effect) : w.Calm (w.emit e) :=
  { Calm.refl w with }

theorem calm_buffers (w : World) (c : Channel) (rd : Bool) (i o : WfBuffer)
    (ho : w.isOpen = false → o.readable = w.outputBuffer_.readable) :
    w.Calm { w with channel_ := c, reading_ := rd, inputBuffer_ := i, outputBuffer_ := o } :=
  { Calm.refl w with output := ho }

theorem calm_channel (w : World) (c : Channel) (rd : Bool) :
    w.Calm { w with channel_ := c, reading_ := rd } :=
  { Calm.refl w with }

theorem calm_queueInLoop (w : World) {f : Functor} (hf : f.isCalm = true)
    (hs : w.state_ = .kConnecting → ∀ m, f ≠ .sendInLoop m) : w.Calm (w.queueInLoop f) :=
  { Calm.refl w with
    pending := by
      intro g hg
      have hg' : g ∈ w.pendingFunctors_ ∨ g = f := by simpa [queueInLoop] using hg
      rcases hg' with hold | rfl
      · exact Or.inl hold
      · exact Or.inr ⟨hf, hs⟩ }

theorem calm_push (w : World) {fs : List Frame}
    (hfs : ∀ f ∈ fs, f ≠ .closeCallback ∧ f ≠ .removeChannel) : w.Calm (w.push fs) :=
  { Calm.refl w with
    frames := by
      intro f hf
      exact (List.mem_append.1 hf).elim (fun hn => Or.inr (hfs f hn)) Or.inl }

theorem calm_appendRemaining {w : World} (ho : w.isOpen = true) (data : Bytes) :
    w.Calm (w.appendRemaining data) := by
  have hwrite : ∀ v : World, v.isOpen = true →
      v.Calm (if !v.channel_.isWriting then
        { v with outputBuffer_ := v.outputBuffer_.append data, channel_ := v.channel_.enableWriting }
        else { v with outputBuffer_ := v.outputBuffer_.append data }) := by
    intro v hv
    split
    · exact calm_buffers v _ v.reading_ v.inputBuffer_ _ (fun hno => by simp [hv] at hno)
    · exact calm_buffers v v.channel_ v.reading_ v.inputBuffer_ _ (fun hno => by simp [hv] at hno)
  unfold appendRemaining
  split
  · dsimp only
    split
    · exact (calm_queueInLoop w rfl (by simp)).trans (hwrite _ ho)
    · exact hwrite w ho
  · exact Calm.refl w

theorem calm_queueWriteComplete (w : World) : w.Calm w.queueWriteComplete := by
  unfold queueWriteComplete
  split
  · exact calm_queueInLoop w rfl (by simp)
  · exact Calm.refl w

theorem calm_sendInLoop {w : World} (h : w.state_ ≠ .kConnecting) (data : Bytes)
    (r : WriteResult) : w.Calm (w.sendInLoop data r) := by
  unfold sendInLoop
  split
  · exact Calm.refl w
  · rename_i hst
    have ho : w.isOpen = true := by
      cases hs : w.state_ <;> simp_all [isOpen]
    split
    · cases r with
      | room n =>
          have hemit : w.Calm (w.emit (.wrote (data.take n))) := calm_emit w _
          dsimp only
          split
          · exact hemit.trans (calm_queueWriteComplete _)
          · exact hemit.trans (calm_appendRemaining (w := w.emit _) ho _)
      | fail e =>
          dsimp only
          split
          · exact calm_emit w _
          · exact calm_appendRemaining ho data
    · exact calm_appendRemaining ho data

theorem calm_startReadInLoop (w : World) : w.Calm w.startReadInLoop := by
  unfold startReadInLoop
  split
  · exact calm_channel w _ _
  · exact Calm.refl w

theorem calm_stopReadInLoop (w : World) : w.Calm w.stopReadInLoop := by
  unfold stopReadInLoop
  split
  · exact calm_channel w _ _
  · exact Calm.refl w

theorem calm_startWriteInLoop (w : World) : w.Calm w.startWriteInLoop := by
  unfold startWriteInLoop
  split
  · exact calm_channel w _ w.reading_
  · exact Calm.refl w

theorem calm_stopWriteInLoop (w : World) : w.Calm w.stopWriteInLoop := by
  unfold stopWriteInLoop
  split
  · exact calm_channel w _ w.reading_
  · exact Calm.refl w

theorem calm_runInLoop (w : World) (t : Thread) {f : Functor} {now : World → World}
    (hnow : w.Calm (now w)) (hf : f.isCalm = true) (hs : ∀ m, f ≠ .sendInLoop m) :
    w.Calm (w.runInLoop t f now) := by
  cases t with
  | loop => exact hnow
  | other => exact calm_queueInLoop w hf (fun _ => hs)

/-! ## Transitions -/

/-- Pending output is only left waiting by a first end of file on a writing channel. -/
def EofWaits (w : World) : Prop :=
  w.outputBuffer_.readable ≠ [] → w.closeFlag_ = false ∧ w.channel_.isWriting = true

theorem Half.closeNow {w : World} (h : w.Half) (hempty : w.outputBuffer_.readable = []) :
    w.closeNow.Half where
  flags _ := by simp [World.closeNow, push, emit]
  shutdowns := h.shutdowns
  disconnecting hs := by simp [World.closeNow, push, emit] at hs
  drained _ := hempty
  connecting hs := by simp [World.closeNow, push, emit] at hs
  unforced := h.unforced
  undelayed := h.undelayed
  closing _ := rfl
  destroying _ := rfl
  removing hm := h.removing (by simpa [World.closeNow, push, emit] using hm)

/-- Moving a connected connection to `kDisconnecting` with `closeFlag_` set. -/
theorem Half.toDisconnecting {w : World} (h : w.Half) (hst : w.state_ = .kConnected) (dp : Bool)
    (hs : .shutdownInLoop ∈ w.pendingFunctors_ → dp = false) :
    ({ w with state_ := .kDisconnecting, closeFlag_ := true, dissByPeer_ := dp }).Half where
  flags _ := by simp
  shutdowns hm := ⟨rfl, hs hm⟩
  disconnecting _ := rfl
  drained hd := by simp at hd
  connecting hc := by simp at hc
  unforced := h.unforced
  undelayed := h.undelayed
  closing hm := by simp [h.closing hm] at hst
  destroying hm := by simp [h.destroying hm] at hst
  removing := h.removing

/-- Only a forced close leaves `kConnected` without setting `closeFlag_`. -/
theorem Half.connected_of_not_closeFlag {w : World} (h : w.Half) (ho : w.isOpen = true)
    (hflag : w.closeFlag_ = false) : w.state_ = .kConnected := by
  have hor : w.state_ = .kConnected ∨ w.state_ = .kDisconnecting := by
    simpa [isOpen] using ho
  refine hor.resolve_right ?_
  intro hd
  simp [h.disconnecting hd] at hflag

theorem Half.handleClose {w : World} (h : w.Half) (hw : w.EofWaits) : w.handleClose.Half := by
  -- both ways to `closeNow` in this call are open only with nothing pending
  have hempty : w.closeFlag_ = true ∨ w.channel_.isWriting = false →
      w.outputBuffer_.readable = [] := by
    intro hor
    by_contra hne
    rcases hw hne with ⟨h₁, h₂⟩
    simp [h₁, h₂] at hor
  by_cases ho : w.isOpen = true
  · cases hflag : w.closeFlag_ with
    | true =>
        rw [handleClose_of_closeFlag ho hflag]
        exact h.closeNow (hempty (Or.inl hflag))
    | false =>
        have hnone : Functor.shutdownInLoop ∉ w.pendingFunctors_ := by
          intro hm
          simp [(h.shutdowns hm).1] at hflag
        have hst : w.state_ = .kConnected := h.connected_of_not_closeFlag ho hflag
        have hd := h.toDisconnecting hst true (fun hm => absurd hm hnone)
        rw [handleClose_of_not_closeFlag ho hflag, if_pos hst]
        dsimp only
        split
        · exact hd
        · rename_i hwr
          exact (hd.of_calm (calm_emit _ _)).closeNow (hempty (Or.inr (by simpa using hwr)))
  · rw [World.handleClose, if_neg ho]
    exact h.of_calm (calm_emit w _)

theorem Half.shutdownInLoop {w : World} (h : w.Half)
    (hd : w.dissByPeer_ = true → w.outputBuffer_.readable = []) : w.shutdownInLoop.Half := by
  have hq : w.shutdownWrite.Half := h.of_calm (calm_emit w _)
  cases hw : w.channel_.isWriting with
  | true => rwa [shutdownInLoop_of_writing hw]
  | false =>
      rw [shutdownInLoop_of_not_writing hw]
      split
      · rename_i hdp
        exact hq.handleClose (fun hne => absurd (hd hdp) hne)
      · exact hq

theorem Half.not_dissByPeer {w : World} (h : w.Half) (hst : w.state_ = .kConnected) :
    w.dissByPeer_ = false := by
  by_contra hne
  exact (h.flags (Or.inr (by simpa using hne))).2 hst

theorem Half.shutdown {w : World} (h : w.Half) (t : Thread) : (w.shutdown t).Half := by
  by_cases hst : w.state_ = .kConnected
  · have hdp := h.not_dissByPeer hst
    have hd := h.toDisconnecting hst w.dissByPeer_ (fun _ => hdp)
    cases t with
    | loop =>
        rw [shutdown_loop, if_pos hst]
        refine hd.shutdownInLoop ?_
        intro hdp'
        simp [hdp] at hdp'
    | other =>
        rw [shutdown_other, if_pos hst]
        exact
          { hd with
            shutdowns := fun _ => ⟨rfl, hdp⟩
            connecting := fun hc => by simp [queueInLoop] at hc
            unforced := fun hm => h.unforced (by simpa [queueInLoop] using hm)
            destroying := fun hm => hd.destroying (by simpa [queueInLoop] using hm) }
  · cases t with
    | loop => rwa [shutdown_loop, if_neg hst]
    | other => rwa [shutdown_other, if_neg hst]

/-- Pending output belongs to an open connection: before `connectEstablished` nothing is appended,
and the last close found the buffer drained. -/
theorem Half.isOpen_of_pending {w : World} (h : w.Half) (hne : w.outputBuffer_.readable ≠ []) :
    w.isOpen = true := by
  cases hs : w.state_ with
  | kConnecting => exact absurd (h.connecting hs).1 hne
  | kDisconnected => exact absurd (h.drained hs) hne
  | kConnected => simp [isOpen, hs]
  | kDisconnecting => simp [isOpen, hs]

theorem Half.handleWrite {w : World} (h : w.Half) (r : WriteResult) : (w.handleWrite r).Half := by
  unfold World.handleWrite
  split
  · cases r with
    | fail e => exact h
    | room k =>
        dsimp only
        split
        · rename_i hpos
          -- a positive count was written, so output is pending and the connection is open
          have hne : w.outputBuffer_.readable ≠ [] := by
            intro hnil
            rw [WfBuffer.readableBytes_eq_zero.2 hnil] at hpos
            simp at hpos
          have ho : w.isOpen = true := h.isOpen_of_pending hne
          have hr : w.Calm (w.retrieveWritten (min k w.outputBuffer_.readableBytes)
              (Nat.min_le_right _ _)) :=
            (calm_buffers w w.channel_ w.reading_ w.inputBuffer_ _
              (fun hno => by simp [ho] at hno)).trans (calm_emit _ _)
          split
          · rename_i hempty
            have hd : w.Calm ({ w.retrieveWritten (min k w.outputBuffer_.readableBytes)
                (Nat.min_le_right _ _) with
                channel_ := w.channel_.disableWriting }.queueWriteComplete) :=
              (hr.trans (calm_channel _ _ w.reading_)).trans (calm_queueWriteComplete _)
            unfold outputDrained
            dsimp only
            split
            · refine (h.of_calm hd).shutdownInLoop ?_
              intro _
              have := WfBuffer.readableBytes_eq_zero.1 hempty
              unfold queueWriteComplete
              split <;> exact this
            · exact h.of_calm hd
          · exact h.of_calm hr
        · exact h
  · exact h

/-! ## Steps -/

/-- Nobody forces the connection closed. -/
def noForce (_ : World) : Action → Prop
  | .call _ c => c ≠ .forceClose ∧ c ≠ .forceCloseWithDelay
  | _ => True

/-- An end of file or a hang-up that meets pending output finds `closeFlag_` unset and the channel
writing. -/
def Spares (w : World) : Action → Prop
  | .resume => w.frames.head? = some (.readCallback (.ok [])) → w.EofWaits
  | .event revents _ _ => (revents.POLLHUP && !revents.POLLIN) = true → w.EofWaits
  | _ => True

instance (w : World) : DecidablePred (noForce w)
  | .call _ c => inferInstanceAs (Decidable (c ≠ .forceClose ∧ c ≠ .forceCloseWithDelay))
  | .connectEstablished | .event _ _ _ | .resume | .runFunctor _ _ | .delayedClose | .destroy =>
      isTrue trivial

instance (w : World) : Decidable w.EofWaits :=
  inferInstanceAs (Decidable (_ → _))

instance (w : World) : DecidablePred w.Spares
  | .resume => inferInstanceAs (Decidable (_ → _))
  | .event _ _ _ => inferInstanceAs (Decidable (_ → _))
  | .connectEstablished | .call _ _ | .runFunctor _ _ | .delayedClose | .destroy => isTrue trivial

theorem Half.pop {w : World} {f : Frame} {fs : List Frame} (h : w.Half) (hf : w.frames = f :: fs) :
    ({ w with frames := fs }).Half :=
  { h with
    closing := fun hm => h.closing (by rw [hf]; exact List.mem_cons_of_mem _ hm)
    removing := fun hm => h.removing (by rw [hf]; exact List.mem_cons_of_mem _ hm) }

theorem Half.dequeue {w : World} (h : w.Half) (i : Nat) :
    ({ w with pendingFunctors_ := w.pendingFunctors_.eraseIdx i }).Half :=
  { h with
    shutdowns := fun hm => h.shutdowns (List.mem_of_mem_eraseIdx hm)
    connecting := fun hs =>
      ⟨(h.connecting hs).1, fun m hm => (h.connecting hs).2 m (List.mem_of_mem_eraseIdx hm)⟩
    unforced := fun hm => h.unforced (List.mem_of_mem_eraseIdx hm)
    destroying := fun hm => h.destroying (List.mem_of_mem_eraseIdx hm) }

theorem Half.call {w : World} (h : w.Half) (t : Thread) {c : Call}
    (hc : c ≠ .forceClose ∧ c ≠ .forceCloseWithDelay) : (w.call t c).Half := by
  cases c with
  | send message r =>
      refine h.of_calm ?_
      simp only [World.call, send]
      split
      · rename_i hst
        have hne : w.state_ ≠ .kConnecting := by simp [hst]
        cases t with
        | loop => exact calm_sendInLoop hne message r
        | other => exact calm_queueInLoop w rfl (fun hk => absurd hk hne)
      · exact Calm.refl w
  | shutdown => exact h.shutdown t
  | startRead => exact h.of_calm (calm_runInLoop w t (calm_startReadInLoop w) rfl (by simp))
  | stopRead => exact h.of_calm (calm_runInLoop w t (calm_stopReadInLoop w) rfl (by simp))
  | startWrite => exact h.of_calm (calm_runInLoop w t (calm_startWriteInLoop w) rfl (by simp))
  | stopWrite => exact h.of_calm (calm_runInLoop w t (calm_stopWriteInLoop w) rfl (by simp))
  | _ => simp at hc

theorem Half.connectEstablished {w : World} (h : w.Half) (hst : w.state_ = .kConnecting) :
    w.connectEstablished.Half := by
  have hno : ¬ (w.closeFlag_ = true ∨ w.dissByPeer_ = true) := fun hor => (h.flags hor).1 hst
  have heq : w.connectEstablished =
      (({ w with state_ := .kConnected, channel_ := w.channel_.enableReading }).emit
        (.connectionCallback .kConnected)).push [.userCode] := by
    simp [World.connectEstablished, hst, setState]
  rw [heq]
  exact
    { flags := fun hor => absurd hor hno
      shutdowns := fun hm => absurd (Or.inl (h.shutdowns hm).1) hno
      disconnecting := fun hs => by simp [push, emit] at hs
      drained := fun hs => by simp [push, emit] at hs
      connecting := fun hs => by simp [push, emit] at hs
      unforced := h.unforced
      undelayed := h.undelayed
      closing := fun hm => by
        have := h.closing (by simpa [push, emit] using hm)
        simp [hst] at this
      destroying := fun hm => by
        have := h.destroying hm
        simp [hst] at this
      removing := fun hm => h.removing (by simpa [push, emit] using hm) }

theorem Half.handleRead {w : World} (h : w.Half) {r : ReadResult}
    (hr : r = .ok [] → w.EofWaits) : (w.handleRead r).Half := by
  cases r with
  | fail => exact h
  | ok data =>
      unfold World.handleRead
      dsimp only
      split
      · have hbuf := calm_buffers w w.channel_ w.reading_ (w.inputBuffer_.readFd data)
          w.outputBuffer_ (fun _ => rfl)
        exact h.of_calm ((hbuf.trans (calm_emit _ _)).trans (calm_push _ (by simp)))
      · rename_i hlen
        have hnil : data = [] := List.eq_nil_of_length_eq_zero (by omega)
        exact h.handleClose (hr (by rw [hnil]))

theorem Half.event {w : World} (h : w.Half) {revents : Revents} (r : ReadResult)
    (wr : WriteResult) (hup : (revents.POLLHUP && !revents.POLLIN) = true → w.EofWaits) :
    (w.handleEventWithGuard revents r wr).Half := by
  unfold World.handleEventWithGuard handleError
  dsimp only
  rw [ite_self]
  have hp : (w.push (readWriteCallbacks revents r wr)).Half :=
    h.of_calm (calm_push w (fun _ => ne_of_mem_readWriteCallbacks))
  split
  · rename_i hclose
    exact hp.handleClose (hup hclose)
  · exact hp

theorem Half.resume {w : World} (h : w.Half) {f : Frame} {fs : List Frame}
    (hf : w.frames = f :: fs) (hs : w.Spares .resume) :
    (({ w with frames := fs }).resume f).Half := by
  have hp := h.pop hf
  cases f with
  | userCode => exact hp
  | closeCallback =>
      -- `removeConnection` queues `connectDestroyed` and nothing else
      have hst : w.state_ = .kDisconnected := h.closing (by rw [hf]; exact List.mem_cons_self)
      have hnew : ∀ g : Functor, g ≠ .connectDestroyed →
          g ∈ (({ w with frames := fs }).resume .closeCallback).pendingFunctors_ →
          g ∈ w.pendingFunctors_ := by
        intro g hg hm
        simpa [World.resume, queueInLoop, emit, hg] using hm
      exact
        { hp with
          shutdowns := fun hm => h.shutdowns (hnew _ (by simp) hm)
          connecting := fun hs => by simp [World.resume, queueInLoop, emit, hst] at hs
          unforced := fun hm => h.unforced (hnew _ (by simp) hm)
          destroying := fun _ => hst }
  | removeChannel => exact absurd (by rw [hf]; exact List.mem_cons_self) h.removing
  | readCallback r =>
      refine hp.handleRead ?_
      intro hr
      exact hs (by rw [hf, hr]; rfl)
  | writeCallback r => exact hp.handleWrite r

theorem Half.runFunctor {w v : World} (h : w.Half) (hv : v.Half) {f : Functor}
    (hf : f ∈ w.pendingFunctors_) (hst : v.state_ = w.state_)
    (hdp : v.dissByPeer_ = w.dissByPeer_) (wr : WriteResult) : (v.runFunctor f wr).Half := by
  cases f with
  | sendInLoop message =>
      refine hv.of_calm (calm_sendInLoop ?_ message wr)
      -- no message is queued before the connection is up
      intro hk
      exact (h.connecting (hst ▸ hk)).2 message hf
  | shutdownInLoop =>
      refine hv.shutdownInLoop ?_
      intro hd
      simp [hdp, (h.shutdowns hf).2] at hd
  | forceCloseInLoop => exact absurd hf h.unforced
  | startReadInLoop => exact hv.of_calm (calm_startReadInLoop v)
  | stopReadInLoop => exact hv.of_calm (calm_stopReadInLoop v)
  | startWriteInLoop => exact hv.of_calm (calm_startWriteInLoop v)
  | stopWriteInLoop => exact hv.of_calm (calm_stopWriteInLoop v)
  | writeCompleteCallback => exact hv.of_calm (calm_push v (by simp))
  | highWaterMarkCallback len => exact hv.of_calm (calm_push v (by simp))
  | connectDestroyed =>
      -- `closeNow` came first, so only the channel is removed
      have hne : v.state_ ≠ .kConnected := by simp [hst, h.destroying hf]
      simp only [World.runFunctor, World.connectDestroyed, if_neg hne, removeChannel]
      split
      · split
        · exact { hv with }
        · exact { hv with }
      · exact hv.of_calm (calm_emit v _)

/-- The step lemma. -/
theorem Half.perform {w : World} {a : Action} (h : w.Half) (he : w.enabled a = true)
    (hn : noForce w a) (hs : w.Spares a) : (w.perform a).Half := by
  obtain ⟨-, he⟩ : w.destructed = false ∧ _ := by
    simpa only [enabled, Bool.and_eq_true, Bool.not_eq_true'] using he
  cases a with
  | connectEstablished =>
      simp only [Bool.and_eq_true, beq_iff_eq] at he
      exact h.connectEstablished he.2
  | event revents r wr => exact h.event r wr hs
  | resume =>
      simp only [World.perform]
      cases hf : w.frames with
      | nil => exact h
      | cons f fs => exact h.resume hf hs
  | call t c => exact h.call t hn
  | runFunctor i wr =>
      simp only [World.perform]
      split
      · exact h
      · rename_i f hi
        exact h.runFunctor (h.dequeue i) (List.mem_of_getElem? hi) rfl rfl wr
  | delayedClose => simp [h.undelayed] at he
  | destroy =>
      simp only [World.perform, destruct]
      split <;> split <;> exact { h with }

/-! ## Runs -/

theorem reachable_half {w : World} (h : ((runs.restrict noForce).restrict Spares).Reachable w) :
    w.Half := by
  refine h.invariant ?_ ?_
  · rintro s ⟨wc, hw, mark, rfl⟩
    exact constructed_half wc hw mark
  · rintro s a s' hs ⟨hsp, hn, he, rfl⟩
    exact hs.perform he hn hsp

/-- An end of file or hang-up that does not spare the pending output closes at once. -/
theorem Half.handleClose_early {w : World} (h : w.Half) (hw : ¬ w.EofWaits) :
    w.handleClose.state_ = .kDisconnected ∧ w.handleClose.outputBuffer_.readable ≠ [] := by
  obtain ⟨hne, hor⟩ : w.outputBuffer_.readable ≠ [] ∧
      (w.closeFlag_ = false → w.channel_.isWriting = false) := by
    simpa [EofWaits] using hw
  have ho : w.isOpen = true := h.isOpen_of_pending hne
  cases hflag : w.closeFlag_ with
  | true =>
      rw [handleClose_of_closeFlag ho hflag]
      exact ⟨rfl, hne⟩
  | false =>
      have hst : w.state_ = .kConnected := h.connected_of_not_closeFlag ho hflag
      rw [handleClose_of_not_closeFlag ho hflag, if_pos hst]
      simp only [hor hflag, Bool.false_eq_true, if_false]
      exact ⟨rfl, hne⟩

theorem Half.perform_early {w : World} {a : Action} (h : w.Half) (hs : ¬ w.Spares a) :
    (w.perform a).state_ = .kDisconnected ∧ (w.perform a).outputBuffer_.readable ≠ [] := by
  cases a with
  | resume =>
      obtain ⟨hhead, hw⟩ : w.frames.head? = some (.readCallback (.ok [])) ∧ ¬ w.EofWaits := by
        simpa [Spares] using hs
      simp only [World.perform]
      cases hf : w.frames with
      | nil => simp [hf] at hhead
      | cons f fs =>
          have hframe : f = .readCallback (.ok []) := by simpa [hf] using hhead
          subst hframe
          exact (h.pop hf).handleClose_early hw
  | event revents r wr =>
      obtain ⟨hclose, hw⟩ : (revents.POLLHUP && !revents.POLLIN) = true ∧ ¬ w.EofWaits := by
        simpa only [Spares, Classical.not_imp] using hs
      simp only [World.perform, handleEventWithGuard, handleError, ite_self, hclose, if_true]
      exact Half.handleClose_early
        (h.of_calm (calm_push w (fun _ => ne_of_mem_readWriteCallbacks))) hw
  | _ => exact absurd trivial hs

/-- When no end of file or hang-up meets pending output with `closeFlag_` set or the channel not
writing, a connection is disconnected only after all its output has been written; and each step
that breaks this rule, after a run that kept it, closes the connection with output pending. -/
theorem deferred_close {w : World}
    (h : ((runs.restrict noForce).restrict Spares).Reachable w) :
    (w.state_ = .kDisconnected → w.outputBuffer_.readable = []) ∧
      ∀ a w', (runs.restrict noForce).step w a w' →
        ((w'.state_ = .kDisconnected → w'.outputBuffer_.readable = []) ↔ w.Spares a) := by
  have hhalf := reachable_half h
  refine ⟨hhalf.drained, ?_⟩
  rintro a w' ⟨hn, he, rfl⟩
  refine ⟨?_, fun hs => (hhalf.perform he hn hs).drained⟩
  intro hd
  by_contra hs
  rcases hhalf.perform_early hs with ⟨hst, hne⟩
  exact hne (hd hst)

/-- A send that the kernel does not take, then an end of file. -/
def eofWhilePending : List Action :=
  [.connectEstablished, .resume,
    .call .loop (.send [1] (.room 0)),
    .event { POLLIN := true } (.ok []) (.room 0), .resume]

/-- The output drains, and the close follows. -/
def drainAfterEof : List Action :=
  eofWhilePending ++ [.event { POLLOUT := true } .fail (.room 1), .resume]

/-- The poller reports the end of file again. -/
def secondEof : List Action :=
  eofWhilePending ++ [.event { POLLIN := true } (.ok []) (.room 0), .resume]

/-- No read, write or poll reports an error. -/
def noError (_ : World) : Action → Prop
  | .event revents r wr =>
      revents.POLLERR = false ∧ revents.POLLNVAL = false ∧ r ≠ .fail ∧ ∀ e, wr ≠ .fail e
  | .call _ (.send _ r) => ∀ e, r ≠ .fail e
  | .runFunctor _ wr => ∀ e, wr ≠ .fail e
  | _ => True

/-- The end of a run of `actions` in which nobody forces a close and all output is spared. -/
def sparingEnd (actions : List Action) : Option World :=
  System.runAll (next fun w a => decide (noForce w a) && decide (w.Spares a))
    (constructed false false 64) actions

theorem deferred_close_drainAfterEof :
    ∃ w, sparingEnd drainAfterEof = some w ∧ w.state_ = .kDisconnected ∧
      w.outputBuffer_.readable = [] := by
  obtain ⟨w, hrun, hst⟩ :
      ∃ w, sparingEnd drainAfterEof = some w ∧ w.state_ = .kDisconnected := by
    rw [← Option.map_eq_some_iff]
    decide +kernel
  refine ⟨w, hrun, hst, (deferred_close ?_).1 hst⟩
  refine System.Reachable.of_runAll ?_ (.init ⟨false, false, 64, rfl⟩) hrun
  intro s a s' hs
  rcases next_eq_some hs with ⟨ha, he, heq⟩
  simp only [Bool.and_eq_true, decide_eq_true_eq] at ha
  exact ⟨ha.2, ha.1, he, heq⟩

/-- A repeated end of file closes the connection with output pending. -/
theorem secondEof_closes_early :
    ¬ ∀ w, ((runs.restrict noForce).restrict noError).Reachable w →
      w.state_ = .kDisconnected → w.outputBuffer_.readable = [] := by
  intro hall
  let run := System.runAll (next fun _ a => decide (a ∈ secondEof)) (constructed false false 64)
    secondEof
  have hend : run.map (fun w => (w.state_, w.outputBuffer_.readable)) =
      some (.kDisconnected, [1]) := by
    decide +kernel
  rcases Option.map_eq_some_iff.1 hend with ⟨w, hrun, hw⟩
  have hreach : ((runs.restrict noForce).restrict noError).Reachable w := by
    refine System.Reachable.of_runAll ?_ (.init ⟨false, false, 64, rfl⟩) hrun
    intro s a s' hs
    rcases next_eq_some hs with ⟨hm, he, heq⟩
    have hgood : noForce s a ∧ noError s a := by
      simp only [decide_eq_true_eq, secondEof, eofWhilePending, List.cons_append, List.nil_append,
        List.mem_cons, List.not_mem_nil, or_false] at hm
      rcases hm with rfl | rfl | rfl | rfl | rfl | rfl | rfl <;> simp [noForce, noError]
    exact ⟨hgood.2, hgood.1, he, heq⟩
  have hempty := hall w hreach (congrArg Prod.fst hw)
  rw [show w.outputBuffer_.readable = [1] from congrArg Prod.snd hw] at hempty
  exact absurd hempty (by simp)

end World
end Net
end Longky
