import Longky.Lib.Pending
import Longky.Net.TcpRuns

/-!
# TcpLife — the life cycle of a connection

`Life` is the invariant of `TcpConnection`'s state machine with its three flags.  Most functions
only add bytes, harmless effects or user code to a connection: `Inert` says so once, and
`Life.of_inert` turns it into preservation.  What is left are the transitions that move `state_` or
a flag, run `closeCallback_`, remove the channel or close the socket.
-/

namespace Longky
namespace Net

open Lib

/-! ## What has been observed -/

def Effect.connectionState : Effect → Option StateE
  | .connectionCallback s => some s
  | _ => none

/-- The states in which `connectionCallback_` has run once a connection is in a given state. -/
def StateE.callbacksSeen : StateE → List StateE
  | .kConnecting => []
  | .kConnected => [.kConnected]
  | .kDisconnecting => [.kConnected]
  | .kDisconnected => [.kConnected, .kDisconnected]

/-- Effects that say nothing about the life cycle. -/
def Effect.isQuiet : Effect → Bool
  | .wrote _ | .faultError | .shutdownWrite _ | .messageCallback => true
  | .connectionCallback _ | .closeCallback | .close | .assertionFailed => false

/-- Functors that may be queued without consequence for the life cycle. -/
def Functor.isQuiet : Functor → Bool
  | .sendInLoop _ | .forceCloseInLoop | .stopWriteInLoop | .writeCompleteCallback
  | .highWaterMarkCallback _ => true
  | .shutdownInLoop | .startReadInLoop | .stopReadInLoop | .startWriteInLoop
  | .connectDestroyed => false

namespace World

/-- The states in which `connectionCallback_` has run so far. -/
def connectionCallbacks (w : World) : List StateE :=
  w.effects.filterMap Effect.connectionState

/-! ## The invariant -/

structure Life (w : World) : Prop where
  asserts : Effect.assertionFailed ∉ w.effects
  interest : w.channel_.isNoneEvent = false → w.isOpen = true
  flags : w.closeFlag_ = true ∨ w.dissByPeer_ = true →
    w.state_ ≠ .kConnecting ∧ w.state_ ≠ .kConnected
  shutdowns : Functor.shutdownInLoop ∈ w.pendingFunctors_ →
    w.closeFlag_ = true ∧ w.dissByPeer_ = false
  callbacks : w.connectionCallbacks = w.state_.callbacksSeen
  closing : w.effects.count .closeCallback + w.frames.count .closeCallback =
    if w.state_ = .kDisconnected then 1 else 0
  destroying : w.pendingFunctors_.count .connectDestroyed + w.channelRemoved.toNat =
    w.effects.count .closeCallback
  linger : w.setSolinger_ = w.forceFlag_
  closes : w.effects.count .close =
    (w.channelRemoved && w.forceFlag_).toNat + (w.destructed && !w.setSolinger_).toNat
  removing : Frame.removeChannel ∉ w.frames
  connecting : w.state_ = .kConnecting →
    w.frames = [] ∧ ∀ f ∈ w.pendingFunctors_, f = .stopWriteInLoop
  functors : ∀ f ∈ w.pendingFunctors_,
    f.isQuiet = true ∨ f = .shutdownInLoop ∨ f = .connectDestroyed
  destroyed : w.destructed = true → w.channelRemoved = true

theorem constructed_life (wc hw : Bool) (mark : Nat) : (constructed wc hw mark).Life := by
  constructor <;> simp [constructed, connectionCallbacks, StateE.callbacksSeen, Channel.isNoneEvent]

/-! ## Inert updates -/

/-- `w'` differs from `w` only in bytes, quiet effects and functors, and user code to run. -/
structure Inert (w w' : World) : Prop where
  state : w'.state_ = w.state_
  closeFlag : w'.closeFlag_ = w.closeFlag_
  forceFlag : w'.forceFlag_ = w.forceFlag_
  dissByPeer : w'.dissByPeer_ = w.dissByPeer_
  setSolinger : w'.setSolinger_ = w.setSolinger_
  removed : w'.channelRemoved = w.channelRemoved
  destructed : w'.destructed = w.destructed
  channel : w'.channel_.isNoneEvent = false → w.channel_.isNoneEvent = false ∨ w.isOpen = true
  effects : ∃ es, w'.effects = w.effects ++ es ∧ ∀ e ∈ es, e.isQuiet = true
  pending : ∃ ps, w'.pendingFunctors_ = w.pendingFunctors_ ++ ps ∧
    ∀ f ∈ ps, f.isQuiet = true ∧ (w.state_ = .kConnecting → f = .stopWriteInLoop)
  frames : ∃ n, w'.frames = List.replicate n .userCode ++ w.frames ∧
    (w.state_ = .kConnecting → n = 0)

namespace Inert

variable {w w' w'' : World}

theorem refl (w : World) : w.Inert w := by
  constructor
  case channel => exact Or.inl
  case effects => exact ⟨[], by simp⟩
  case pending => exact ⟨[], by simp⟩
  case frames => exact ⟨0, by simp⟩
  all_goals rfl

theorem isOpen_eq (h : w.Inert w') : w'.isOpen = w.isOpen := by
  simp [isOpen, h.state]

theorem trans (h : w.Inert w') (h' : w'.Inert w'') : w.Inert w'' := by
  rcases h.effects with ⟨es, hes, hesq⟩
  rcases h'.effects with ⟨es', hes', hesq'⟩
  rcases h.pending with ⟨ps, hps, hpsq⟩
  rcases h'.pending with ⟨ps', hps', hpsq'⟩
  rcases h.frames with ⟨n, hn, hnz⟩
  rcases h'.frames with ⟨n', hn', hnz'⟩
  rw [h.state] at hnz' hpsq'
  constructor
  case channel =>
    intro hc
    rcases h'.channel hc with hc | ho
    · exact h.channel hc
    · exact Or.inr (h.isOpen_eq ▸ ho)
  case effects =>
    refine ⟨es ++ es', by rw [hes', hes, List.append_assoc], ?_⟩
    intro e he
    exact (List.mem_append.1 he).elim (hesq e) (hesq' e)
  case pending =>
    refine ⟨ps ++ ps', by rw [hps', hps, List.append_assoc], ?_⟩
    intro f hf
    exact (List.mem_append.1 hf).elim (hpsq f) (hpsq' f)
  case frames =>
    refine ⟨n' + n, by rw [hn', hn, List.replicate_add, List.append_assoc], ?_⟩
    intro hk
    rw [hnz hk, hnz' hk]
  case state => rw [h'.state, h.state]
  case closeFlag => rw [h'.closeFlag, h.closeFlag]
  case forceFlag => rw [h'.forceFlag, h.forceFlag]
  case dissByPeer => rw [h'.dissByPeer, h.dissByPeer]
  case setSolinger => rw [h'.setSolinger, h.setSolinger]
  case removed => rw [h'.removed, h.removed]
  case destructed => rw [h'.destructed, h.destructed]

/-- An update that leaves the life cycle's own fields alone and appends to the three lists. -/
theorem mk_of_lists {w w' : World} (es : List Effect) (ps : List Functor) (n : Nat)
    (hw : w' = { w with
      inputBuffer_ := w'.inputBuffer_
      outputBuffer_ := w'.outputBuffer_
      channel_ := w'.channel_
      delayedCloses := w'.delayedCloses
      effects := w.effects ++ es
      pendingFunctors_ := w.pendingFunctors_ ++ ps
      frames := List.replicate n .userCode ++ w.frames })
    (hch : w'.channel_.isNoneEvent = false → w.channel_.isNoneEvent = false ∨ w.isOpen = true)
    (hes : ∀ e ∈ es, e.isQuiet = true)
    (hps : ∀ f ∈ ps, f.isQuiet = true ∧ (w.state_ = .kConnecting → f = .stopWriteInLoop))
    (hn : w.state_ = .kConnecting → n = 0) : w.Inert w' := by
  constructor
  case channel => exact hch
  case effects => exact ⟨es, by rw [hw], hes⟩
  case pending => exact ⟨ps, by rw [hw], hps⟩
  case frames => exact ⟨n, by rw [hw], hn⟩
  all_goals rw [hw]

end Inert

theorem Life.of_inert {w w' : World} (h : w.Life) (hi : w.Inert w') : w'.Life := by
  rcases hi.effects with ⟨es, hes, hesq⟩
  rcases hi.pending with ⟨ps, hps, hpsq⟩
  rcases hi.frames with ⟨n, hn, hnz⟩
  -- `connectionCallback_` is not a quiet effect, so the user has seen no further state
  have hcallbacks : es.filterMap Effect.connectionState = [] := by
    rw [List.filterMap_eq_nil_iff]
    intro e he
    have := hesq e he
    cases e <;> simp_all [Effect.isQuiet, Effect.connectionState]
  have hquiet : ∀ f ∈ ps, f.isQuiet = true := fun f hf => (hpsq f hf).1
  constructor
  case asserts =>
    rw [hes, List.mem_append]
    rintro (hold | hnew)
    · exact h.asserts hold
    · exact absurd (hesq _ hnew) (by decide)
  case interest =>
    intro hc
    rw [hi.isOpen_eq]
    exact (hi.channel hc).elim h.interest id
  case flags =>
    rw [hi.closeFlag, hi.dissByPeer, hi.state]
    exact h.flags
  case shutdowns =>
    rw [hps, hi.closeFlag, hi.dissByPeer, List.mem_append]
    rintro (hold | hnew)
    · exact h.shutdowns hold
    · exact absurd (hquiet _ hnew) (by decide)
  case callbacks =>
    rw [connectionCallbacks, hes, List.filterMap_append, hcallbacks, List.append_nil, hi.state]
    exact h.callbacks
  case closing =>
    have hframe : (List.replicate n Frame.userCode).count .closeCallback = 0 := by
      simp [List.count_replicate]
    rw [hes, hn, List.count_append, List.count_append, hi.state, hframe,
      Pending.count_quiet hesq (by decide), Nat.add_zero, Nat.zero_add]
    exact h.closing
  case destroying =>
    rw [hps, hes, hi.removed, List.count_append, List.count_append, Pending.count_quiet hesq (by decide),
      Pending.count_quiet hquiet (by decide), Nat.add_zero, Nat.add_zero]
    exact h.destroying
  case linger => rw [hi.setSolinger, hi.forceFlag, h.linger]
  case closes =>
    rw [hes, List.count_append, Pending.count_quiet hesq (by decide), hi.removed, hi.forceFlag,
      hi.destructed, hi.setSolinger]
    exact h.closes
  case removing =>
    rw [hn, List.mem_append]
    rintro (huser | hold)
    · exact absurd (List.eq_of_mem_replicate huser) (by decide)
    · exact h.removing hold
  case connecting =>
    rw [hi.state]
    intro hk
    rcases h.connecting hk with ⟨hf, hp⟩
    refine ⟨by rw [hn, hnz hk, hf]; rfl, ?_⟩
    rw [hps]
    intro f hfm
    exact (List.mem_append.1 hfm).elim (hp f) (fun hnew => (hpsq f hnew).2 hk)
  case functors =>
    rw [hps]
    intro f hf
    exact (List.mem_append.1 hf).elim (h.functors f) (fun hnew => Or.inl (hquiet f hnew))
  case destroyed =>
    rw [hi.destructed, hi.removed]
    exact h.destroyed

theorem Life.not_removed {w : World} (h : w.Life) (ho : w.state_ ≠ .kDisconnected) :
    w.channelRemoved = false := by
  -- once removed, a `closeCallback` has been seen; an open connection has seen none
  have hc := h.closing
  have hd := h.destroying
  rw [if_neg ho] at hc
  cases hr : w.channelRemoved with
  | false => rfl
  | true =>
      rw [hr] at hd
      simp only [Bool.toNat_true] at hd
      omega

theorem isOpen_iff (w : World) :
    w.isOpen = true ↔ w.state_ = .kConnected ∨ w.state_ = .kDisconnecting := by
  simp [isOpen]

theorem isOpen_of_ne {w : World} (h₁ : w.state_ ≠ .kDisconnected) (h₂ : w.state_ ≠ .kConnecting) :
    w.isOpen = true := by
  rw [isOpen_iff]
  cases hs : w.state_ <;> simp_all

theorem isOpen_ne_connecting {w : World} (h : w.isOpen = true) : w.state_ ≠ .kConnecting := by
  rw [isOpen_iff] at h
  rcases h with h | h <;> simp [h]

theorem isOpen_ne_disconnected {w : World} (h : w.isOpen = true) : w.state_ ≠ .kDisconnected := by
  rw [isOpen_iff] at h
  rcases h with h | h <;> simp [h]

/-- Only an open connection has a writing channel. -/
theorem Life.isOpen_of_writing {w : World} (h : w.Life) (hw : w.channel_.isWriting = true) :
    w.isOpen = true := by
  apply h.interest
  by_contra hne
  simp [Channel.not_writing_of_isNoneEvent (by simpa using hne)] at hw

/-! ## Inert functions -/

theorem inert_emit (w : World) {e : Effect} (he : e.isQuiet = true) : w.Inert (w.emit e) :=
  Inert.mk_of_lists [e] [] 0 (by simp [emit]) Or.inl (by simpa using he)
    (by simp) (by simp)

theorem inert_queueInLoop (w : World) {f : Functor} (hf : f.isQuiet = true)
    (hk : w.state_ = .kConnecting → f = .stopWriteInLoop) : w.Inert (w.queueInLoop f) :=
  Inert.mk_of_lists [] [f] 0 (by simp [queueInLoop]) Or.inl (by simp)
    (by simpa using ⟨hf, hk⟩) (by simp)

theorem inert_userCode {w : World} (h : w.state_ ≠ .kConnecting) : w.Inert (w.push [.userCode]) :=
  Inert.mk_of_lists [] [] 1 (by simp [push, List.replicate]) Or.inl (by simp)
    (by simp) (fun hk => absurd hk h)

/-- Buffers may change freely, and the channel as long as the connection is open. -/
theorem inert_buffers (w : World) (c : Channel) (i o : WfBuffer)
    (hc : c.isNoneEvent = false → w.channel_.isNoneEvent = false ∨ w.isOpen = true) :
    w.Inert { w with channel_ := c, inputBuffer_ := i, outputBuffer_ := o } :=
  Inert.mk_of_lists [] [] 0 (by simp) hc (by simp) (by simp) (by simp)

theorem inert_delayedCloses (w : World) (n : Nat) : w.Inert { w with delayedCloses := n } :=
  Inert.mk_of_lists [] [] 0 (by simp) Or.inl (by simp) (by simp) (by simp)

theorem inert_appendRemaining {w : World} (ho : w.isOpen = true) (data : Bytes) :
    w.Inert (w.appendRemaining data) := by
  have hne := isOpen_ne_connecting ho
  have hwrite : ∀ v : World, v.isOpen = true →
      v.Inert (if !v.channel_.isWriting then
        { v with outputBuffer_ := v.outputBuffer_.append data, channel_ := v.channel_.enableWriting }
        else { v with outputBuffer_ := v.outputBuffer_.append data }) := by
    intro v hv
    split
    · exact inert_buffers v _ v.inputBuffer_ _ (fun _ => Or.inr hv)
    · exact inert_buffers v v.channel_ v.inputBuffer_ _ Or.inl
  unfold appendRemaining
  split
  · dsimp only
    split
    · exact (inert_queueInLoop w (by rfl) (fun hk => absurd hk hne)).trans (hwrite _ ho)
    · exact hwrite w ho
  · exact Inert.refl w

theorem inert_queueWriteComplete {w : World} (ho : w.isOpen = true) :
    w.Inert w.queueWriteComplete := by
  unfold queueWriteComplete
  split
  · exact inert_queueInLoop w (by rfl) (fun hk => absurd hk (isOpen_ne_connecting ho))
  · exact Inert.refl w

theorem inert_sendInLoop {w : World} (h : w.state_ ≠ .kConnecting) (data : Bytes)
    (r : WriteResult) : w.Inert (w.sendInLoop data r) := by
  unfold sendInLoop
  split
  · exact Inert.refl w
  · rename_i hst
    have ho : w.isOpen = true := isOpen_of_ne hst h
    split
    · cases r with
      | room n =>
          have hemit : w.Inert (w.emit (.wrote (data.take n))) := inert_emit w rfl
          dsimp only
          split
          · exact hemit.trans (inert_queueWriteComplete ho)
          · exact hemit.trans (inert_appendRemaining (w := w.emit _) ho _)
      | fail e =>
          dsimp only
          split
          · exact inert_emit w rfl
          · exact inert_appendRemaining ho data
    · exact inert_appendRemaining ho data

theorem inert_send (w : World) (t : Thread) (message : Bytes) (r : WriteResult) :
    w.Inert (w.send t message r) := by
  unfold send
  split
  · rename_i hst
    have hne : w.state_ ≠ .kConnecting := by simp [hst]
    cases t with
    | loop => exact inert_sendInLoop hne message r
    | other => exact inert_queueInLoop w rfl (fun hk => absurd hk hne)
  · exact Inert.refl w

theorem inert_disableWriting (w : World) :
    w.Inert { w with channel_ := w.channel_.disableWriting } := by
  refine inert_buffers w _ w.inputBuffer_ w.outputBuffer_ ?_
  intro hc
  cases hn : w.channel_.isNoneEvent with
  | false => exact Or.inl rfl
  | true => simp [Channel.isNoneEvent_disableWriting hn] at hc

theorem inert_stopWriteInLoop (w : World) : w.Inert w.stopWriteInLoop := by
  unfold stopWriteInLoop
  split
  · exact inert_disableWriting w
  · exact Inert.refl w

theorem inert_stopWrite (w : World) (t : Thread) : w.Inert (w.stopWrite t) := by
  cases t with
  | loop => exact inert_stopWriteInLoop w
  | other => exact inert_queueInLoop w rfl (fun _ => rfl)

theorem inert_retrieveWritten (w : World) (n : Nat) (h : n ≤ w.outputBuffer_.readableBytes) :
    w.Inert (w.retrieveWritten n h) :=
  (inert_buffers w w.channel_ w.inputBuffer_ (w.outputBuffer_.retrieve n h) Or.inl).trans
    (inert_emit _ rfl)

/-! ## Transitions -/

theorem Life.closeNow {w : World} (h : w.Life) (ho : w.isOpen = true) : w.closeNow.Life := by
  have hst := (isOpen_iff w).1 ho
  have hseen : w.connectionCallbacks = [.kConnected] := by
    rw [h.callbacks]
    rcases hst with hs | hs <;> rw [hs] <;> rfl
  have hopen := isOpen_ne_disconnected ho
  have hcount := h.closing
  rw [if_neg hopen] at hcount
  exact
    { h with
      asserts := by simpa [World.closeNow, push, emit] using h.asserts
      interest := by simp [World.closeNow, push, emit]
      flags := by simp [World.closeNow, push, emit]
      callbacks := by
        have : w.closeNow.connectionCallbacks = w.connectionCallbacks ++ [.kDisconnected] := by
          simp [connectionCallbacks, World.closeNow, push, emit, Effect.connectionState]
        rw [this, hseen]
        rfl
      -- the one `closeCallback` of the life now waits on the stack
      closing := by
        have hf : w.closeNow.frames.count .closeCallback = w.frames.count .closeCallback + 1 := by
          simp [World.closeNow, push, emit]
        have he : w.closeNow.effects.count .closeCallback = w.effects.count .closeCallback := by
          simp [World.closeNow, push, emit]
        rw [hf, he, ← Nat.add_assoc, hcount]
        rfl
      destroying := by simpa [World.closeNow, push, emit] using h.destroying
      closes := by simpa [World.closeNow, push, emit] using h.closes
      removing := by simpa [World.closeNow, push, emit] using h.removing
      connecting := by simp [World.closeNow, push, emit] }

/-- Moving an open connection to `kDisconnecting`, with new values of two flags. -/
theorem Life.disconnecting {w : World} (h : w.Life) (ho : w.isOpen = true) (cf dp : Bool)
    (hs : .shutdownInLoop ∈ w.pendingFunctors_ → cf = true ∧ dp = false) :
    ({ w with state_ := .kDisconnecting, closeFlag_ := cf, dissByPeer_ := dp }).Life := by
  have hst := (isOpen_iff w).1 ho
  have hopen := isOpen_ne_disconnected ho
  exact
    { h with
      interest := fun _ => rfl
      flags := by simp
      shutdowns := hs
      callbacks := by
        have hseen := h.callbacks
        rcases hst with hs | hs <;> rw [hs] at hseen <;> exact hseen
      closing := by simpa [hopen] using h.closing
      connecting := by simp }

theorem Life.queueShutdown {w : World} (h : w.Life) (hs : w.state_ ≠ .kConnecting)
    (hf : w.closeFlag_ = true ∧ w.dissByPeer_ = false) :
    (w.queueInLoop .shutdownInLoop).Life := by
  exact
    { h with
      shutdowns := fun _ => hf
      destroying := by simpa [queueInLoop] using h.destroying
      connecting := fun hk => absurd hk hs
      functors := by
        intro f hm
        have hm' : f ∈ w.pendingFunctors_ ∨ f = .shutdownInLoop := by simpa [queueInLoop] using hm
        exact hm'.elim (h.functors f) (fun hnew => Or.inr (Or.inl hnew)) }

theorem Life.handleClose {w : World} (h : w.Life) (ho : w.isOpen = true) : w.handleClose.Life := by
  cases hflag : w.closeFlag_ with
  | true =>
      rw [handleClose_of_closeFlag ho hflag]
      exact h.closeNow ho
  | false =>
      -- a queued `shutdownInLoop` comes from `shutdown`, which has set `closeFlag_`
      have hnone : Functor.shutdownInLoop ∉ w.pendingFunctors_ := by
        intro hm
        simp [(h.shutdowns hm).1] at hflag
      rw [handleClose_of_not_closeFlag ho hflag]
      dsimp only
      split
      -- `shutdown` ran inside `handleClose`; with nothing to write it came back to `closeNow`
      · have hd := h.disconnecting ho true true (fun hm => absurd hm hnone)
        split
        · exact hd
        · exact (hd.of_inert (inert_emit _ rfl)).closeNow rfl
      · rename_i hst
        -- `forceClose` has moved the state, so `shutdown` did nothing but note the peer
        have hdis : w.state_ = .kDisconnecting := ((isOpen_iff w).1 ho).resolve_left hst
        have hd := h.disconnecting ho w.closeFlag_ true (fun hm => absurd hm hnone)
        rwa [← hdis] at hd

theorem Life.shutdownInLoop {w : World} (h : w.Life)
    (hd : w.dissByPeer_ = true → w.isOpen = true) : w.shutdownInLoop.Life := by
  have hq : w.shutdownWrite.Life := h.of_inert (inert_emit w rfl)
  cases hw : w.channel_.isWriting with
  | true => rwa [shutdownInLoop_of_writing hw]
  | false =>
      rw [shutdownInLoop_of_not_writing hw]
      split
      · rename_i hdp
        exact hq.handleClose (hd hdp)
      · exact hq

theorem Life.shutdown {w : World} (h : w.Life) (t : Thread) : (w.shutdown t).Life := by
  by_cases hst : w.state_ = .kConnected
  · have ho : w.isOpen = true := (isOpen_iff w).2 (Or.inl hst)
    -- the peer's close would have left `kConnected`
    have hdp : w.dissByPeer_ = false := by
      by_contra hne
      exact (h.flags (Or.inr (by simpa using hne))).2 hst
    have hd := h.disconnecting ho true w.dissByPeer_ (fun _ => ⟨rfl, hdp⟩)
    cases t with
    | loop =>
        rw [shutdown_loop, if_pos hst]
        exact hd.shutdownInLoop (fun _ => rfl)
    | other =>
        rw [shutdown_other, if_pos hst]
        exact hd.queueShutdown (by simp) ⟨rfl, hdp⟩
  · cases t with
    | loop => rwa [shutdown_loop, if_neg hst]
    | other => rwa [shutdown_other, if_neg hst]

theorem Life.forceClose {w : World} (h : w.Life) : w.forceClose.Life := by
  unfold World.forceClose
  split
  · rename_i ho
    have hd := h.disconnecting ho w.closeFlag_ w.dissByPeer_ h.shutdowns
    exact hd.of_inert (inert_queueInLoop _ rfl (by simp))
  · exact h

theorem Life.forceCloseWithDelay {w : World} (h : w.Life) : w.forceCloseWithDelay.Life := by
  unfold World.forceCloseWithDelay
  split
  · rename_i ho
    have hd := h.disconnecting ho w.closeFlag_ w.dissByPeer_ h.shutdowns
    exact hd.of_inert (inert_delayedCloses _ _)
  · exact h

theorem Life.forceCloseInLoop {w : World} (h : w.Life) : w.forceCloseInLoop.Life := by
  unfold World.forceCloseInLoop
  split
  · rename_i ho
    have hrm := h.not_removed (isOpen_ne_disconnected ho)
    have hdes : w.destructed = false := by
      by_contra hne
      simp [h.destroyed (by simpa using hne)] at hrm
    rw [handleClose_of_closeFlag (by exact ho) rfl]
    -- the flags may be set after `disconnecting`: `closeNow` overwrites `state_` anyway
    have hd := (h.disconnecting ho true w.dissByPeer_
      (fun hm => ⟨rfl, (h.shutdowns hm).2⟩)).closeNow rfl
    exact
      { hd with
        linger := by rfl
        closes := by
          have hc := hd.closes
          simpa [World.closeNow, push, emit, hrm, hdes] using hc }
  · exact h

theorem Life.connectEstablished {w : World} (h : w.Life) (hst : w.state_ = .kConnecting) :
    w.connectEstablished.Life := by
  rcases h.connecting hst with ⟨hframes, hpending⟩
  have heq : w.connectEstablished =
      (({ w with state_ := .kConnected, channel_ := w.channel_.enableReading }).emit
        (.connectionCallback .kConnected)).push [.userCode] := by
    simp [World.connectEstablished, hst, setState]
  -- no call before `connectEstablished` sets a flag
  have hno : w.closeFlag_ = false ∧ w.dissByPeer_ = false := by
    by_contra hne
    have hor : w.closeFlag_ = true ∨ w.dissByPeer_ = true := by
      cases hc : w.closeFlag_ <;> cases hd : w.dissByPeer_ <;> simp_all
    exact (h.flags hor).1 hst
  rw [heq]
  exact
    { h with
      asserts := by simpa [push, emit] using h.asserts
      interest := fun _ => rfl
      flags := by simp [push, emit, hno]
      callbacks := by
        have hseen := h.callbacks
        rw [hst] at hseen
        simp only [connectionCallbacks, push, emit, List.filterMap_append] at hseen ⊢
        rw [hseen]
        rfl
      closing := by
        have hc := h.closing
        rw [hst] at hc
        simpa [push, emit] using hc
      destroying := by simpa [push, emit] using h.destroying
      closes := by simpa [push, emit] using h.closes
      removing := by simp [push, emit, hframes]
      connecting := by simp [push, emit] }

/-- Leaving a frame other than the one that stands for `closeCallback_`. -/
theorem Life.pop {w : World} {f : Frame} {fs : List Frame} (h : w.Life)
    (hf : w.frames = f :: fs) (hne : f ≠ .closeCallback) : ({ w with frames := fs }).Life := by
  exact
    { h with
      closing := by
        have hc := h.closing
        rwa [hf, List.count_cons_of_ne hne] at hc
      removing := by
        intro hm
        exact h.removing (by rw [hf]; exact List.mem_cons_of_mem _ hm)
      connecting := by
        intro hk
        have := (h.connecting hk).1
        simp [hf] at this }

theorem Life.closeCallback {w : World} {fs : List Frame} (h : w.Life)
    (hf : w.frames = .closeCallback :: fs) :
    (({ w with frames := fs }).resume .closeCallback).Life := by
  have hne : w.state_ ≠ .kConnecting := by
    intro hk
    have := (h.connecting hk).1
    simp [hf] at this
  exact
    { h with
      asserts := by simpa [resume, queueInLoop, emit] using h.asserts
      shutdowns := by
        intro hm
        exact h.shutdowns (by simpa [resume, queueInLoop, emit] using hm)
      callbacks := by
        have hc := h.callbacks
        simpa [connectionCallbacks, resume, queueInLoop, emit, List.filterMap,
          Effect.connectionState] using hc
      -- the callback moves from the stack to the effects; the sum stays one
      closing := by
        have hc := h.closing
        rw [hf, List.count_cons_self] at hc
        refine Eq.trans ?_ hc
        simp only [resume, queueInLoop, emit, List.count_append, List.count_singleton_self]
        omega
      destroying := by
        have hd := h.destroying
        simp only [resume, queueInLoop, emit, List.count_append, List.count_singleton_self]
        omega
      closes := by simpa [resume, queueInLoop, emit] using h.closes
      removing := by
        intro hm
        exact h.removing (by rw [hf]; exact List.mem_cons_of_mem _ hm)
      connecting := fun hk => absurd hk hne
      functors := by
        intro f hm
        have hm' : f ∈ w.pendingFunctors_ ∨ f = .connectDestroyed := by
          simpa [resume, queueInLoop, emit] using hm
        exact hm'.elim (h.functors f) (fun hnew => Or.inr (Or.inr hnew)) }

/-- Taking a functor other than `connectDestroyed` out of the queue. -/
theorem Life.dequeue {w : World} {i : Nat} {f : Functor} (h : w.Life)
    (hi : w.pendingFunctors_[i]? = some f) (hne : f ≠ .connectDestroyed) :
    ({ w with pendingFunctors_ := w.pendingFunctors_.eraseIdx i }).Life := by
  have hsub : ∀ g ∈ w.pendingFunctors_.eraseIdx i, g ∈ w.pendingFunctors_ :=
    fun g hg => List.mem_of_mem_eraseIdx hg
  exact
    { h with
      destroying := by
        have hd := h.destroying
        rw [Pending.count_eraseIdx_of_ne hi hne]
        exact hd
      shutdowns := fun hm => h.shutdowns (hsub _ hm)
      connecting := by
        intro hk
        rcases h.connecting hk with ⟨hfr, hp⟩
        exact ⟨hfr, fun g hg => hp g (hsub g hg)⟩
      functors := fun g hg => h.functors g (hsub g hg) }

theorem Life.connectDestroyed {w : World} {i : Nat} (h : w.Life) (hd : w.destructed = false)
    (hi : w.pendingFunctors_[i]? = some .connectDestroyed) :
    (({ w with pendingFunctors_ := w.pendingFunctors_.eraseIdx i }).connectDestroyed).Life := by
  have hsub : ∀ g ∈ w.pendingFunctors_.eraseIdx i, g ∈ w.pendingFunctors_ :=
    fun g hg => List.mem_of_mem_eraseIdx hg
  have hcount := Pending.count_eraseIdx_self hi
  have hdestroying := h.destroying
  have hclosing := h.closing
  -- a queued `connectDestroyed` follows a `closeCallback`, hence a `closeNow`
  have hst : w.state_ = .kDisconnected := by
    by_contra hne
    rw [if_neg hne] at hclosing
    omega
  rw [if_pos hst] at hclosing
  -- there is one `closeCallback` in a life, so this is the first removal
  have hrm : w.channelRemoved = false := by
    cases hr : w.channelRemoved with
    | false => rfl
    | true =>
        rw [hr, Bool.toNat_true] at hdestroying
        omega
  have hnone : w.channel_.isNoneEvent = true := by
    by_contra hne
    have := h.interest (by simpa using hne)
    simp [isOpen, hst] at this
  have hcloses := h.closes
  have heq : ({ w with pendingFunctors_ := w.pendingFunctors_.eraseIdx i }).connectDestroyed =
      { w with
        pendingFunctors_ := w.pendingFunctors_.eraseIdx i
        channel_ := { w.channel_ with addedToLoop_ := false }
        channelRemoved := true
        effects := w.effects ++ if w.forceFlag_ then [.close] else [] } := by
    simp only [World.connectDestroyed, hst, removeChannel, hnone, if_true, reduceCtorEq, if_false]
    split <;> simp [emit]
  rw [heq]
  exact
    { h with
      asserts := by
        cases w.forceFlag_ <;> simpa using h.asserts
      interest := by
        intro hc
        exact absurd hc (by simpa [Channel.isNoneEvent] using hnone)
      shutdowns := fun hm => h.shutdowns (hsub _ hm)
      callbacks := by
        have hc := h.callbacks
        cases w.forceFlag_ <;>
          simpa [connectionCallbacks, List.filterMap, Effect.connectionState] using hc
      closing := by
        rw [if_pos hst]
        cases w.forceFlag_ <;> simpa using hclosing
      destroying := by
        rw [hrm, Bool.toNat_false] at hdestroying
        cases w.forceFlag_ <;> simp <;> omega
      closes := by
        rw [hrm, hd] at hcloses
        cases w.forceFlag_ <;> simpa [hd] using hcloses
      connecting := by simp [hst]
      functors := fun g hg => h.functors g (hsub g hg)
      destroyed := fun _ => rfl }

theorem Life.destruct {w : World} (h : w.Life) (hd : w.destructed = false)
    (hr : w.channelRemoved = true) : w.destruct.Life := by
  have hst : w.state_ = .kDisconnected := by
    by_contra hne
    simp [h.not_removed hne] at hr
  have heq : w.destruct = { w with
      destructed := true
      effects := w.effects ++ if w.setSolinger_ then [] else [.close] } := by
    simp only [World.destruct, hst, if_true]
    cases w.setSolinger_ <;> simp [emit]
  have hcloses := h.closes
  rw [heq]
  exact
    { h with
      asserts := by cases w.setSolinger_ <;> simpa using h.asserts
      callbacks := by
        have hc := h.callbacks
        cases w.setSolinger_ <;>
          simpa [connectionCallbacks, List.filterMap, Effect.connectionState] using hc
      closing := by
        have hc := h.closing
        cases w.setSolinger_ <;> simpa using hc
      destroying := by
        have hc := h.destroying
        cases w.setSolinger_ <;> simpa using hc
      -- `~Socket` closes unless `setSolinger_` is set, and then `connectDestroyed` has closed
      closes := by
        rw [hd, hr] at hcloses
        rw [← h.linger] at hcloses ⊢
        cases hs : w.setSolinger_ <;> simp_all
      destroyed := fun _ => hr }

/-! ## Handlers -/

theorem Life.outputDrained {w : World} (h : w.Life) (ho : w.isOpen = true) :
    w.outputDrained.Life := by
  have hw : ({ w with channel_ := w.channel_.disableWriting }.queueWriteComplete).Life :=
    h.of_inert ((inert_disableWriting w).trans (inert_queueWriteComplete (by exact ho)))
  unfold World.outputDrained
  dsimp only
  split
  · rename_i hst
    exact hw.shutdownInLoop (fun _ => (isOpen_iff _).2 (Or.inr hst))
  · exact hw

theorem Life.handleWrite {w : World} (h : w.Life) (r : WriteResult) : (w.handleWrite r).Life := by
  unfold World.handleWrite
  split
  · rename_i hw
    have ho := h.isOpen_of_writing hw
    cases r with
    | fail e => exact h
    | room k =>
        dsimp only
        split
        · have hr := h.of_inert (inert_retrieveWritten w (min k w.outputBuffer_.readableBytes)
            (Nat.min_le_right _ _))
          split
          · exact hr.outputDrained ho
          · exact hr
        · exact h
  · exact h

theorem Life.handleRead {w : World} (h : w.Life) (ho : w.isOpen = true) (r : ReadResult) :
    (w.handleRead r).Life := by
  cases r with
  | fail => exact h
  | ok data =>
      unfold World.handleRead
      dsimp only
      split
      · have hbuf := inert_buffers w w.channel_ (w.inputBuffer_.readFd data) w.outputBuffer_ Or.inl
        refine h.of_inert ((hbuf.trans (inert_emit _ rfl)).trans (inert_userCode ?_))
        exact isOpen_ne_connecting ho
      · exact h.handleClose ho

/-- The handlers of an event wait on the stack. -/
theorem Life.pushHandlers {w : World} {fs : List Frame} (h : w.Life) (ho : w.isOpen = true)
    (hfs : ∀ f ∈ fs, f ≠ .closeCallback ∧ f ≠ .removeChannel) : (w.push fs).Life := by
  have hne := isOpen_ne_connecting ho
  exact
    { h with
      closing := by
        have hzero : fs.count .closeCallback = 0 :=
          List.count_eq_zero_of_not_mem (fun hm => (hfs _ hm).1 rfl)
        refine Eq.trans ?_ h.closing
        simp [push, hzero]
      removing := by
        intro hm
        rcases List.mem_append.1 hm with hnew | hold
        · exact (hfs _ hnew).2 rfl
        · exact h.removing hold
      connecting := fun hk => absurd hk hne }

theorem Life.handleEventWithGuard {w : World} (h : w.Life) (ho : w.isOpen = true)
    (revents : Revents) (r : ReadResult) (wr : WriteResult) :
    (w.handleEventWithGuard revents r wr).Life := by
  unfold World.handleEventWithGuard handleError
  dsimp only
  rw [ite_self]
  have hp : (w.push (readWriteCallbacks revents r wr)).Life :=
    h.pushHandlers ho (fun _ => ne_of_mem_readWriteCallbacks)
  split
  · exact hp.handleClose ho
  · exact hp

/-! ## The frame of a pending read -/

/-- No read handler is waiting on the stack. -/
def NoRead (w : World) : Prop :=
  ∀ r, Frame.readCallback r ∉ w.frames

theorem Inert.noRead {w w' : World} (hi : w.Inert w') (h : w.NoRead) : w'.NoRead := by
  rcases hi.frames with ⟨n, hn, -⟩
  intro r hm
  rw [hn, List.mem_append] at hm
  rcases hm with huser | hold
  · exact absurd (List.eq_of_mem_replicate huser) (by simp)
  · exact h r hold

theorem NoRead.closeNow {w : World} (h : w.NoRead) : w.closeNow.NoRead := by
  intro r hm
  exact h r (by simpa [World.closeNow, push, emit] using hm)

theorem NoRead.handleClose {w : World} (h : w.NoRead) : w.handleClose.NoRead := by
  by_cases ho : w.isOpen = true
  · cases hflag : w.closeFlag_ with
    | true =>
        rw [handleClose_of_closeFlag ho hflag]
        exact h.closeNow
    | false =>
        rw [handleClose_of_not_closeFlag ho hflag]
        dsimp only
        split
        · split
          · exact h
          · exact NoRead.closeNow (w := World.shutdownWrite _) h
        · exact h
  · rw [World.handleClose, if_neg ho]
    exact h

theorem NoRead.shutdownInLoop {w : World} (h : w.NoRead) : w.shutdownInLoop.NoRead := by
  cases hw : w.channel_.isWriting with
  | true => rwa [shutdownInLoop_of_writing hw]
  | false =>
      rw [shutdownInLoop_of_not_writing hw]
      split
      · exact NoRead.handleClose (w := w.shutdownWrite) h
      · exact h

theorem NoRead.shutdown {w : World} (h : w.NoRead) (t : Thread) : (w.shutdown t).NoRead := by
  cases t with
  | loop =>
      rw [shutdown_loop]
      split
      · exact NoRead.shutdownInLoop h
      · exact h
  | other =>
      rw [shutdown_other]
      split
      · exact h
      · exact h

theorem NoRead.forceClose {w : World} (h : w.NoRead) : w.forceClose.NoRead := by
  unfold World.forceClose
  split
  · exact h
  · exact h

theorem NoRead.forceCloseWithDelay {w : World} (h : w.NoRead) : w.forceCloseWithDelay.NoRead := by
  unfold World.forceCloseWithDelay
  split
  · exact h
  · exact h

theorem NoRead.forceCloseInLoop {w : World} (h : w.NoRead) : w.forceCloseInLoop.NoRead := by
  unfold World.forceCloseInLoop
  split
  · exact NoRead.handleClose h
  · exact h

theorem NoRead.handleWrite {w : World} (h : w.NoRead) (hl : w.Life) (r : WriteResult) :
    (w.handleWrite r).NoRead := by
  unfold World.handleWrite
  split
  · rename_i hw
    have ho := hl.isOpen_of_writing hw
    cases r with
    | fail e => exact h
    | room k =>
        dsimp only
        split
        · split
          · unfold World.outputDrained
            dsimp only
            have hq := (inert_disableWriting (w.retrieveWritten _ (Nat.min_le_right k _))).trans
              (inert_queueWriteComplete (by exact ho))
            split
            · exact NoRead.shutdownInLoop (hq.noRead h)
            · exact hq.noRead h
          · exact h
        · exact h
  · exact h

theorem NoRead.handleRead {w : World} (h : w.NoRead) (r : ReadResult) :
    (w.handleRead r).NoRead := by
  cases r with
  | fail => exact h
  | ok data =>
      unfold World.handleRead
      dsimp only
      split
      · intro r hm
        exact h r (by simpa [push, emit] using hm)
      · exact h.handleClose

/-! ## Steps -/

/-- The invariant of runs: a read handler waits only on top of the stack, and only on an open
connection. -/
structure LifeRun (w : World) : Prop extends Life w where
  readTail : ∀ r, Frame.readCallback r ∉ w.frames.tail
  readHead : ∀ r, w.frames.head? = some (.readCallback r) → w.isOpen = true

theorem LifeRun.of_noRead {w : World} (h : w.Life) (hr : w.NoRead) : w.LifeRun where
  toLife := h
  readTail r hm := hr r (List.mem_of_mem_tail hm)
  readHead r hm := absurd (List.mem_of_mem_head? hm) (hr r)

theorem noRead_of_nil {w : World} (h : w.frames = []) : w.NoRead := by
  intro r hm
  simp [h] at hm

theorem LifeRun.noRead_of_userMayCall {w : World} (h : w.LifeRun) (hu : w.userMayCall = true) :
    w.NoRead := by
  intro r hm
  have htail := h.readTail r
  cases hf : w.frames with
  | nil => simp [hf] at hm
  | cons f fs =>
      rw [hf] at hm htail
      rcases List.mem_cons.1 hm with heq | hfs
      · simp [userMayCall, hf, ← heq] at hu
      · exact htail hfs

/-- The calls of the life cycle; `startRead`, `stopRead` and `startWrite` have no test of `state_`
and are left to their callers. -/
def lifeCalls (_ : World) : Action → Prop
  | .call _ c => c ≠ .startRead ∧ c ≠ .stopRead ∧ c ≠ .startWrite
  | _ => True

instance (w : World) : DecidablePred (lifeCalls w)
  | .call _ c => inferInstanceAs (Decidable (c ≠ .startRead ∧ c ≠ .stopRead ∧ c ≠ .startWrite))
  | .connectEstablished | .event _ _ _ | .resume | .runFunctor _ _ | .delayedClose | .destroy =>
      isTrue trivial

theorem Life.call {w : World} (h : w.Life) (t : Thread) {c : Call}
    (hc : c ≠ .startRead ∧ c ≠ .stopRead ∧ c ≠ .startWrite) : (w.call t c).Life := by
  cases c with
  | send message r => exact h.of_inert (inert_send w t message r)
  | shutdown => exact h.shutdown t
  | forceClose => exact h.forceClose
  | forceCloseWithDelay => exact h.forceCloseWithDelay
  | stopWrite => exact h.of_inert (inert_stopWrite w t)
  | _ => simp at hc

theorem NoRead.call {w : World} (h : w.NoRead) (t : Thread) {c : Call}
    (hc : c ≠ .startRead ∧ c ≠ .stopRead ∧ c ≠ .startWrite) : (w.call t c).NoRead := by
  cases c with
  | send message r => exact (inert_send w t message r).noRead h
  | shutdown => exact h.shutdown t
  | forceClose => exact h.forceClose
  | forceCloseWithDelay => exact h.forceCloseWithDelay
  | stopWrite => exact (inert_stopWrite w t).noRead h
  | _ => simp at hc

/-- A call from another thread leaves the loop thread's stack alone and does not close. -/
theorem call_other (w : World) (c : Call) :
    (w.call .other c).frames = w.frames ∧ (w.isOpen = true → (w.call .other c).isOpen = true) := by
  cases c with
  | shutdown =>
      simp only [World.call, shutdown_other]
      split
      · exact ⟨rfl, fun _ => rfl⟩
      · exact ⟨rfl, id⟩
  | send message r =>
      simp only [World.call, send]
      split
      · exact ⟨rfl, id⟩
      · exact ⟨rfl, id⟩
  | forceClose =>
      simp only [World.call, forceClose]
      split
      · exact ⟨rfl, fun _ => rfl⟩
      · exact ⟨rfl, id⟩
  | forceCloseWithDelay =>
      simp only [World.call, forceCloseWithDelay]
      split
      · exact ⟨rfl, fun _ => rfl⟩
      · exact ⟨rfl, id⟩
  | _ => exact ⟨rfl, id⟩

theorem LifeRun.call {w : World} (h : w.LifeRun) {t : Thread} {c : Call}
    (ht : t = .other ∨ w.userMayCall = true)
    (hc : c ≠ .startRead ∧ c ≠ .stopRead ∧ c ≠ .startWrite) : (w.call t c).LifeRun := by
  rcases ht with rfl | hu
  -- the loop thread may be anywhere, also before a read handler that waits
  · rcases call_other w c with ⟨hframes, hopen⟩
    refine ⟨h.toLife.call .other hc, ?_, ?_⟩
    · rw [hframes]
      exact h.readTail
    · rw [hframes]
      exact fun r hm => hopen (h.readHead r hm)
  · exact .of_noRead (h.toLife.call t hc) ((h.noRead_of_userMayCall hu).call t hc)

theorem LifeRun.event {w : World} (h : w.LifeRun) (hf : w.frames = []) (ho : w.isOpen = true)
    {revents : Revents} (r : ReadResult) (wr : WriteResult)
    (hup : (revents.POLLHUP && !revents.POLLIN) = true →
      (revents.POLLPRI || revents.POLLRDHUP) = false) :
    (w.handleEventWithGuard revents r wr).LifeRun := by
  have hlife := h.toLife.handleEventWithGuard ho revents r wr
  by_cases hclose : (revents.POLLHUP && !revents.POLLIN) = true
  · -- the hang-up is handled first; no read handler waits
    have hreads : (revents.POLLIN || revents.POLLPRI || revents.POLLRDHUP) = false := by
      have h₁ := hup hclose
      simp_all
    refine .of_noRead hlife ?_
    simp only [handleEventWithGuard, readWriteCallbacks, hreads, hclose, handleError, ite_self,
      if_true, Bool.false_eq_true, if_false, List.nil_append]
    apply NoRead.handleClose
    intro r hm
    split at hm <;> simp [push, hf] at hm
  · refine ⟨hlife, ?_, ?_⟩
    · intro r' hm
      simp only [handleEventWithGuard, readWriteCallbacks, hclose, handleError, ite_self,
        Bool.false_eq_true, if_false, push, hf, List.append_nil] at hm
      split at hm <;> split at hm <;> simp at hm
    · intro r' _
      simp only [handleEventWithGuard, hclose, handleError, ite_self, Bool.false_eq_true, if_false]
      exact ho

theorem LifeRun.resume {w : World} (h : w.LifeRun) {f : Frame} {fs : List Frame}
    (hf : w.frames = f :: fs) : (({ w with frames := fs }).resume f).LifeRun := by
  have hno : ({ w with frames := fs } : World).NoRead := by
    intro r hm
    exact h.readTail r (by rw [hf]; exact hm)
  cases f with
  | userCode => exact .of_noRead (h.toLife.pop hf (by simp)) hno
  | closeCallback => exact .of_noRead (h.toLife.closeCallback hf) hno
  | removeChannel => exact absurd (by rw [hf]; exact List.mem_cons_self) h.removing
  | readCallback r =>
      have ho : w.isOpen = true := h.readHead r (by rw [hf]; rfl)
      exact .of_noRead ((h.toLife.pop hf (by simp)).handleRead ho r) (hno.handleRead r)
  | writeCallback r =>
      have hp := h.toLife.pop hf (by simp)
      exact .of_noRead (hp.handleWrite r) (hno.handleWrite hp r)

theorem LifeRun.runFunctor {w : World} (h : w.LifeRun) (hf : w.frames = [])
    (hd : w.destructed = false) {i : Nat} {f : Functor} (hi : w.pendingFunctors_[i]? = some f)
    (wr : WriteResult) :
    (({ w with pendingFunctors_ := w.pendingFunctors_.eraseIdx i }).runFunctor f wr).LifeRun := by
  have hmem : f ∈ w.pendingFunctors_ := List.mem_of_getElem? hi
  have hno : ({ w with pendingFunctors_ := w.pendingFunctors_.eraseIdx i } : World).NoRead :=
    noRead_of_nil hf
  have hne : f ≠ .stopWriteInLoop → w.state_ ≠ .kConnecting := by
    intro hf' hk
    exact hf' ((h.connecting hk).2 f hmem)
  have inert : ∀ v : World, f ≠ .connectDestroyed →
      ({ w with pendingFunctors_ := w.pendingFunctors_.eraseIdx i } : World).Inert v →
      v.LifeRun := by
    intro v hcd hiv
    exact .of_noRead ((h.toLife.dequeue hi hcd).of_inert hiv) (hiv.noRead hno)
  cases f with
  | sendInLoop message =>
      exact inert _ (by simp) (inert_sendInLoop (by exact hne (by simp)) message wr)
  | shutdownInLoop =>
      have hdp := (h.shutdowns hmem).2
      refine .of_noRead ((h.toLife.dequeue hi (by simp)).shutdownInLoop ?_) hno.shutdownInLoop
      -- the peer has not closed, or `shutdown` would have found another state
      intro hdp'
      simp [hdp] at hdp'
  | forceCloseInLoop =>
      exact .of_noRead (h.toLife.dequeue hi (by simp)).forceCloseInLoop hno.forceCloseInLoop
  | stopWriteInLoop => exact inert _ (by simp) (inert_stopWriteInLoop _)
  | writeCompleteCallback => exact inert _ (by simp) (inert_userCode (by exact hne (by simp)))
  | highWaterMarkCallback len => exact inert _ (by simp) (inert_userCode (by exact hne (by simp)))
  | connectDestroyed =>
      refine .of_noRead (h.toLife.connectDestroyed hd hi) ?_
      -- `connectDestroyed` of a connected connection is `TcpServer`'s destructor only
      have hst : w.state_ ≠ .kConnected := by
        intro hk
        have hc := h.closing
        have hd := h.destroying
        have := List.count_pos_iff.2 hmem
        rw [if_neg (by simp [hk])] at hc
        omega
      intro r hm
      simp only [World.runFunctor, World.connectDestroyed, if_neg hst, removeChannel] at hm
      split at hm
      · split at hm <;> exact hno r hm
      · exact hno r hm
  | startReadInLoop => exact absurd (h.functors _ hmem) (by simp [Functor.isQuiet])
  | stopReadInLoop => exact absurd (h.functors _ hmem) (by simp [Functor.isQuiet])
  | startWriteInLoop => exact absurd (h.functors _ hmem) (by simp [Functor.isQuiet])

/-- The step lemma. -/
theorem LifeRun.perform {w : World} {a : Action} (h : w.LifeRun) (he : w.enabled a = true)
    (ha : lifeCalls w a) : (w.perform a).LifeRun := by
  obtain ⟨hd, he⟩ : w.destructed = false ∧ _ := by
    simpa only [enabled, Bool.and_eq_true, Bool.not_eq_true'] using he
  cases a with
  | connectEstablished =>
      obtain ⟨hf, hst⟩ : w.frames = [] ∧ w.state_ = .kConnecting := by simpa using he
      refine .of_noRead (h.toLife.connectEstablished hst) ?_
      intro r hm
      simp [World.perform, World.connectEstablished, hst, push, emit, setState, hf] at hm
  | event revents r wr =>
      simp only [Bool.and_eq_true, beq_iff_eq, Bool.not_eq_true'] at he
      rcases he with ⟨⟨hf, hn⟩, hup⟩
      refine h.event hf (h.interest hn) r wr ?_
      intro hclose
      simpa [hclose] using hup
  | resume =>
      simp only [World.perform]
      cases hf : w.frames with
      | nil => simp [hf] at he
      | cons f fs => exact h.resume hf
  | call t c =>
      refine h.call ?_ ha
      simpa using he
  | runFunctor i wr =>
      simp only [Bool.and_eq_true, beq_iff_eq] at he
      rcases he with ⟨hf, hs⟩
      rcases Option.isSome_iff_exists.1 hs with ⟨f, hi⟩
      simp only [World.perform, hi]
      exact h.runFunctor hf hd hi wr
  | delayedClose =>
      simp only [Bool.and_eq_true, beq_iff_eq] at he
      have hlife := h.toLife.of_inert (inert_delayedCloses w (w.delayedCloses - 1))
      exact .of_noRead hlife.forceClose (NoRead.forceClose (noRead_of_nil he.1))
  | destroy =>
      simp only [Bool.and_eq_true, beq_iff_eq] at he
      refine .of_noRead (h.toLife.destruct hd he.1.2) ?_
      intro r hm
      simp only [World.perform, World.destruct] at hm
      split at hm <;> split at hm <;> simp [emit, he.1.1] at hm

theorem reachable_lifeRun {w : World} (h : (runs.restrict lifeCalls).Reachable w) : w.LifeRun := by
  refine h.invariant ?_ ?_
  · rintro s ⟨wc, hw, mark, rfl⟩
    exact .of_noRead (constructed_life wc hw mark) (noRead_of_nil rfl)
  · rintro s a s' hs ⟨ha, he, rfl⟩
    exact hs.perform he ha

/-! ## A disconnected connection stays so -/

theorem isOpen_of_disconnected {w : World} (h : w.state_ = .kDisconnected) : w.isOpen = false := by
  simp [isOpen, h]

theorem Life.not_writing_of_disconnected {w : World} (h : w.Life)
    (hst : w.state_ = .kDisconnected) : w.channel_.isWriting = false := by
  by_contra hw
  have hopen := h.isOpen_of_writing (by simpa using hw)
  simp [isOpen_of_disconnected hst] at hopen

theorem removeChannel_state (w : World) : w.removeChannel.state_ = w.state_ := by
  unfold removeChannel
  split
  · dsimp only
    split <;> rfl
  · rfl

theorem call_of_disconnected {w : World} (hst : w.state_ = .kDisconnected) (t : Thread)
    {c : Call} (hc : c ≠ .startRead ∧ c ≠ .stopRead ∧ c ≠ .startWrite) :
    (w.call t c).state_ = .kDisconnected := by
  have hopen := isOpen_of_disconnected hst
  cases c with
  | send message r => exact (inert_send w t message r).state.trans hst
  | shutdown => cases t <;> simp [World.call, shutdown_loop, shutdown_other, hst]
  | forceClose => simp [World.call, forceClose, hopen, hst]
  | forceCloseWithDelay => simp [World.call, forceCloseWithDelay, hopen, hst]
  | stopWrite => exact (inert_stopWrite w t).state.trans hst
  | _ => simp at hc

theorem LifeRun.runFunctor_of_disconnected {w v : World} (h : w.LifeRun)
    (hst : v.state_ = .kDisconnected) {f : Functor} (hf : f ∈ w.pendingFunctors_)
    (hdp : v.dissByPeer_ = w.dissByPeer_) (wr : WriteResult) :
    (v.runFunctor f wr).state_ = .kDisconnected := by
  have hne : v.state_ ≠ .kConnecting := by simp [hst]
  have hopen := isOpen_of_disconnected hst
  cases f with
  | sendInLoop message => exact (inert_sendInLoop hne message wr).state.trans hst
  | shutdownInLoop =>
      have hd : v.dissByPeer_ = false := by rw [hdp, (h.shutdowns hf).2]
      cases hw : v.channel_.isWriting with
      | true => simpa [World.runFunctor, shutdownInLoop_of_writing hw] using hst
      | false =>
          simpa [World.runFunctor, shutdownInLoop_of_not_writing hw, hd, shutdownWrite, emit]
            using hst
  | forceCloseInLoop => simp [World.runFunctor, forceCloseInLoop, hopen, hst]
  | stopWriteInLoop => exact (inert_stopWriteInLoop v).state.trans hst
  | writeCompleteCallback => exact hst
  | highWaterMarkCallback len => exact hst
  | connectDestroyed =>
      have hnot : v.state_ ≠ .kConnected := by simp [hst]
      rw [World.runFunctor, World.connectDestroyed, if_neg hnot, removeChannel_state, hst]
  | startReadInLoop => exact absurd (h.functors _ hf) (by simp [Functor.isQuiet])
  | stopReadInLoop => exact absurd (h.functors _ hf) (by simp [Functor.isQuiet])
  | startWriteInLoop => exact absurd (h.functors _ hf) (by simp [Functor.isQuiet])

theorem LifeRun.perform_of_disconnected {w : World} {a : Action} (h : w.LifeRun)
    (he : w.enabled a = true) (ha : lifeCalls w a) (hst : w.state_ = .kDisconnected) :
    (w.perform a).state_ = .kDisconnected := by
  have hopen := isOpen_of_disconnected hst
  obtain ⟨-, he⟩ : w.destructed = false ∧ _ := by
    simpa only [enabled, Bool.and_eq_true, Bool.not_eq_true'] using he
  cases a with
  | connectEstablished => simp [hst] at he
  | event revents r wr =>
      simp only [Bool.and_eq_true, beq_iff_eq, Bool.not_eq_true'] at he
      simp [h.interest he.1.2] at hopen
  | resume =>
      simp only [World.perform]
      cases hf : w.frames with
      | nil => exact hst
      | cons f fs =>
          cases f with
          | userCode => exact hst
          | closeCallback => exact hst
          | removeChannel => exact absurd (by rw [hf]; exact List.mem_cons_self) h.removing
          | readCallback r =>
              have := h.readHead r (by rw [hf]; rfl)
              simp [hopen] at this
          | writeCallback r =>
              -- `disableAll` came first: "is down, no more writing"
              have hw := h.toLife.not_writing_of_disconnected hst
              simp [World.resume, World.handleWrite, hw, hst]
  | call t c => exact call_of_disconnected hst t ha
  | runFunctor i wr =>
      simp only [World.perform]
      split
      · exact hst
      · rename_i f hi
        refine h.runFunctor_of_disconnected ?_ (List.mem_of_getElem? hi) ?_ wr
        · exact hst
        · rfl
  | delayedClose => simp [World.perform, forceClose, isOpen, hst]
  | destroy =>
      simp only [World.perform, World.destruct]
      split <;> split <;> exact hst

/-! ## The life cycle -/

/-- What holds at any time of a connection's life. -/
structure Lived (w : World) : Prop where
  /-- No assertion has failed. -/
  asserts : Effect.assertionFailed ∉ w.effects
  /-- `connectionCallback_` has run once when the connection came up and once when it went down. -/
  callbacks : w.connectionCallbacks = w.state_.callbacksSeen
  /-- `closeCallback_` runs only for a disconnected connection, -/
  closeCallback_le : w.effects.count .closeCallback ≤ if w.state_ = .kDisconnected then 1 else 0
  /-- and has run once `handleClose` has returned. -/
  closeCallback_eq : w.state_ = .kDisconnected → Frame.closeCallback ∉ w.frames →
    w.effects.count .closeCallback = 1
  close_le : w.effects.count .close ≤ 1
  close_eq : w.destructed = true → w.effects.count .close = 1

theorem LifeRun.lived {w : World} (h : w.LifeRun) : w.Lived where
  asserts := h.asserts
  callbacks := h.callbacks
  closeCallback_le := by
    rw [← h.closing]
    exact Nat.le_add_right _ _
  closeCallback_eq := by
    intro hst hf
    have hc := h.closing
    rwa [if_pos hst, List.count_eq_zero_of_not_mem hf, Nat.add_zero] at hc
  close_le := by
    rw [h.closes, h.linger]
    cases w.channelRemoved <;> cases w.forceFlag_ <;> cases w.destructed <;> decide
  close_eq := by
    intro hd
    rw [h.closes, h.linger, hd, h.destroyed hd]
    cases w.forceFlag_ <;> rfl

/-- Every run, in every order of events, calls, functors and timers, keeps the life cycle, and no
step leaves `kDisconnected`. -/
theorem life_cycle {w : World} (h : (runs.restrict lifeCalls).Reachable w) :
    w.Lived ∧ ∀ a w', (runs.restrict lifeCalls).step w a w' →
      w.state_ = .kDisconnected → w'.state_ = .kDisconnected := by
  have hrun := reachable_lifeRun h
  refine ⟨hrun.lived, ?_⟩
  rintro a w' ⟨ha, he, rfl⟩ hst
  exact hrun.perform_of_disconnected he ha hst

/-- A life: a message is answered with a send that fills the socket, the peer hangs up, another
thread forces the close, and the connection is destroyed. -/
def fullLife : List Action :=
  [.connectEstablished, .resume,
    .event { POLLIN := true } (.ok [7]) (.room 0), .resume,
    .call .loop (.send [1, 2] (.room 1)), .resume,
    .event { POLLIN := true } (.ok []) (.room 0), .resume,
    .call .other .forceClose, .call .other .shutdown,
    .runFunctor 0 (.room 0), .resume, .resume,
    .runFunctor 0 (.room 0), .destroy]

def fullLifeEnd : Option World :=
  System.runAll (next fun w a => decide (lifeCalls w a)) (constructed true true 64) fullLife

theorem life_cycle_fullLife : ∃ w, fullLifeEnd = some w ∧ w.Lived ∧ w.destructed = true := by
  obtain ⟨w, hw, hd⟩ : ∃ w, fullLifeEnd = some w ∧ w.destructed = true := by
    have hs : (fullLifeEnd.map (·.destructed)) = some true := by decide +kernel
    simpa [Option.map_eq_some_iff] using hs
  have hreach : (runs.restrict lifeCalls).Reachable w := by
    refine System.Reachable.of_runAll ?_ (.init ⟨true, true, 64, rfl⟩) hw
    intro s a s' hs
    rcases next_eq_some hs with ⟨ha, he, heq⟩
    exact ⟨of_decide_eq_true ha, he, heq⟩
  exact ⟨w, hw, (life_cycle hreach).1, hd⟩

end World
end Net
end Longky
