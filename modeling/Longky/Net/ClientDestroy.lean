import Longky.Net.TcpClient

/-!
# ClientDestroy — the end of a client and of its connector

`TcpClient::~TcpClient` on the loop thread.  The connector belongs to the client, to the timers of
`retry` and, for a second, to a timer of the destructor.  Its functors and the callbacks of its
channel know it by its bare address, and it knows the client so.

With a connection the destructor does not stop the connector.  `destroy_safe_iff` says when this
does no harm.
-/

namespace Longky
namespace Net

open Lib

inductive EndFault where
  /-- A functor runs for a connector that has been destroyed. -/
  | connectorGone
  /-- A client that has been destroyed is called. -/
  | clientGone
  /-- `assert(!channel_)` in `~Connector`. -/
  | channelLeft
  deriving DecidableEq, Repr

/-- A client with the owners of its connector and of its connection. -/
structure ClientEnd where
  client : TcpClient := {}
  /-- `~TcpClient` has run. -/
  destroyed : Bool := false
  /-- The destructor found `connection_.unique()`. -/
  unique : Bool := false
  /-- The connection whose `closeCallback_` is now `detail::removeConnection`. -/
  rebound : Option Nat := none
  /-- The timer of `detail::removeConnector` has not fired. -/
  held : Bool := false
  /-- `~Connector` has run. -/
  connectorGone : Bool := false
  /-- The connections whose `forceCloseInLoop` is queued. -/
  closes : List Nat := []
  faults : List EndFault := []

inductive EndAction where
  | client (a : ClientAction)
  /-- The user destroys the client, with the answer of `connection_.unique()`. -/
  | destroy (unique : Bool)
  /-- The destructor's timer fires. -/
  | removeConnector
  | forceCloseInLoop (conn : Nat)
  deriving DecidableEq, Repr

/-- The functors that have the bare address of the connector. -/
def ClientFunctor.isRaw : ClientFunctor → Bool
  | .stopInLoop | .resetChannel => true
  | .connectDestroyed _ => false

/-- The public functions of the client. -/
def ClientAction.isCall : ClientAction → Bool
  | .connect _ | .disconnect | .stop | .enableRetry => true
  | .timer .. | .event .. | .connectionDown _ | .closeCallback _ | .runFunctor _ => false

namespace ClientEnd

def setConnector (e : ClientEnd) (c : Connector) : ClientEnd :=
  { e with client := { e.client with connector_ := c } }

def fault (e : ClientEnd) (f : EndFault) : ClientEnd := { e with faults := e.faults ++ [f] }

/-- Some `ConnectorPtr` is left. -/
def owned (e : ClientEnd) : Bool :=
  !e.destroyed || e.held || !e.client.connector_.timers.isEmpty

/-- `~Connector`, when the last `ConnectorPtr` has gone. -/
def release (e : ClientEnd) : ClientEnd :=
  if e.owned || e.connectorGone then e
  else
    let c := e.client.connector_
    let e₁ := if c.channel_.isNone then e else e.fault .channelLeft
    { e₁.setConnector c.destroyChannel with connectorGone := true }

/-- `TcpClient::~TcpClient`. -/
def destroy (e : ClientEnd) (unique : Bool) : ClientEnd :=
  match e.client.connection_ with
  | some conn =>
      -- on the loop thread `runInLoop` sets the new `closeCallback_` at once
      { e with
        destroyed := true
        unique := unique
        rebound := some conn
        closes :=
          if unique && e.client.up.contains conn then e.closes ++ [conn] else e.closes }.release
  | none =>
      { e.setConnector e.client.connector_.stop with
        destroyed := true
        held := true }

/-- `Channel::handleEvent` for the channel of the attempt, when there is no client any more. -/
def handleEvent (e : ClientEnd) (pollErr pollOut err self : Bool) : ClientEnd :=
  let c := e.client.connector_
  let c₁ := if pollErr then c.handleError else c
  if pollOut then
    let (c₂, sockfd?) := c₁.handleWrite err self
    match sockfd? with
    | some _ => (e.setConnector c₂).fault .clientGone
    | none => e.setConnector c₂
  else e.setConnector c₁

/-- What happens on the loop thread after the destructor. -/
def orphan (e : ClientEnd) : ClientAction → ClientEnd
  | .timer i err =>
      let c := e.client.connector_
      let c₁ := { c with timers := c.timers.eraseIdx i }
      (e.setConnector (c₁.startInLoop err)).release
  | .event pollErr pollOut err self => e.handleEvent pollErr pollOut err self
  | .connectionDown conn => { e with client := e.client.perform (.connectionDown conn) }
  | .closeCallback _ =>
      match e.client.closing with
      | some conn =>
          let c := e.client.connector_
          let e₁ := { e with client := { e.client with closing := none } }
          if e.rebound = some conn then e₁.setConnector (c.queueInLoop (.connectDestroyed conn))
          else e₁.fault .clientGone
      | none => e
  | .runFunctor i =>
      let c := e.client.connector_
      match c.pendingFunctors_[i]? with
      | some f =>
          let c₁ := { c with pendingFunctors_ := c.pendingFunctors_.eraseIdx i }
          let e₁ := e.setConnector c₁
          if f.isRaw && e.connectorGone then e₁.fault .connectorGone
          else { e₁ with client := e₁.client.runFunctor f }
      | none => e
  | .connect _ | .disconnect | .stop | .enableRetry => e

def enabled (e : ClientEnd) : EndAction → Bool
  | .client a => e.client.enabled a && !(e.destroyed && a.isCall)
  -- in the middle of `handleClose` the connection has a second owner
  | .destroy unique => !e.destroyed && (!unique || e.client.closing.isNone)
  | .removeConnector => e.held && e.client.closing.isNone
  | .forceCloseInLoop conn => e.closes.contains conn && e.client.closing.isNone

def perform (e : ClientEnd) : EndAction → ClientEnd
  | .client a => if e.destroyed then e.orphan a else { e with client := e.client.perform a }
  | .destroy unique => e.destroy unique
  | .removeConnector => { e with held := false }.release
  | .forceCloseInLoop conn =>
      { e with
        closes := e.closes.erase conn
        client :=
          if e.client.up.contains conn then e.client.perform (.connectionDown conn)
          else e.client }

def runs : System ClientEnd EndAction where
  init e := e = {}
  step e a e' := e.enabled a = true ∧ e' = e.perform a

/-- The client is used as in `TcpClient.one_at_a_time`, and the loop gets to its functors before
the destructor's second is over. -/
def Allowed (e : ClientEnd) : EndAction → Prop
  | .client a => e.destroyed = false → e.client.Allowed a
  | .removeConnector => ∀ f ∈ e.client.connector_.pendingFunctors_, f.isRaw = false
  | .destroy _ | .forceCloseInLoop _ => True

/-- Nothing has gone wrong. -/
def Sound (e : ClientEnd) : Prop :=
  e.faults = [] ∧ e.client.connector_.faults = []

end ClientEnd

/-- With a connection, the connector has come to rest: no channel, no `stop` under way, and no
timer that will try again. -/
def TcpClient.Settled (c : TcpClient) : Prop :=
  c.connection_ ≠ none → c.connector_.channel_ = none ∧
    .stopInLoop ∉ c.connector_.pendingFunctors_ ∧
    (c.connector_.timers = [] ∨ c.connector_.connect_ = false)

instance (c : TcpClient) : Decidable c.Settled := by
  unfold TcpClient.Settled
  infer_instance

/-! ## A connector that is to connect no more -/

namespace Connector

variable {c c' c'' : Connector}

/-- No timer is added, and no functor is lost. -/
structure Off (c c' : Connector) : Prop where
  connect : c'.connect_ = false
  timers : c'.timers = c.timers
  functors : ∀ f ∈ c.pendingFunctors_, f ∈ c'.pendingFunctors_

theorem Off.refl (h : c.connect_ = false) : c.Off c := ⟨h, rfl, fun _ hf => hf⟩

theorem Off.trans (h : c.Off c') (h' : c'.Off c'') : c.Off c'' :=
  ⟨h'.connect, h'.timers.trans h.timers, fun f hf => h'.functors f (h.functors f hf)⟩

theorem off_retry (h : c.connect_ = false) (sockfd : Nat) : c.Off (c.retry sockfd) := by
  have hconnect : ((c.close sockfd).setState .kDisconnected).connect_ = false := h
  simp only [retry, hconnect]
  exact ⟨h, rfl, fun _ hf => hf⟩

theorem off_removeAndResetChannel (h : c.connect_ = false) :
    c.Off c.removeAndResetChannel.1 := by
  unfold removeAndResetChannel
  split
  · exact ⟨h, rfl, fun _ hf => List.mem_append_left _ hf⟩
  · exact ⟨h, rfl, fun _ hf => hf⟩

theorem off_handleError (h : c.connect_ = false) : c.Off c.handleError := by
  have hremove := off_removeAndResetChannel h
  unfold handleError
  split
  · exact hremove.trans (off_retry hremove.connect _)
  · exact .refl h

theorem off_handleWrite (h : c.connect_ = false) (err self : Bool) :
    c.Off (c.handleWrite err self).1 := by
  have hremove := off_removeAndResetChannel h
  have hretry := hremove.trans (off_retry hremove.connect c.removeAndResetChannel.2)
  unfold handleWrite
  split
  · dsimp only
    split
    · exact hretry
    · split
      · exact hretry
      · have hconnect : (c.removeAndResetChannel.1.setState .kConnected).connect_ = false :=
          hremove.connect
        rw [if_neg (by simp [hconnect])]
        exact ⟨hconnect, hremove.timers, hremove.functors⟩
  · split
    · exact .refl h
    · exact ⟨h, rfl, fun _ hf => hf⟩

theorem handleWrite_none (h : c.connect_ = false) (err self : Bool) :
    (c.handleWrite err self).2 = none := by
  cases hs : (c.handleWrite err self).2 with
  | none => rfl
  | some fd =>
      have hconnect := (handleWrite_some hs).2.2.2
      rw [h] at hconnect
      cases hconnect

theorem off_stopInLoop (h : c.connect_ = false) :
    c.Off c.stopInLoop ∧ c.stopInLoop.state_ ≠ .kConnecting := by
  unfold stopInLoop
  split
  · let c₁ := c.setState .kDisconnected
    have hremove : c₁.Off c₁.removeAndResetChannel.1 := off_removeAndResetChannel h
    have hretry : c₁.Off (c₁.removeAndResetChannel.1.retry c₁.removeAndResetChannel.2) :=
      hremove.trans (off_retry hremove.connect _)
    refine ⟨⟨hretry.connect, hretry.timers, hretry.functors⟩, ?_⟩
    have hstate := retry_state c₁.removeAndResetChannel.1 c₁.removeAndResetChannel.2
    exact fun hst => absurd (hstate.symm.trans hst) (by decide)
  next hst => exact ⟨.refl h, hst⟩

/-- No channel, and no functor with the bare address. -/
def Rest (c : Connector) : Prop := c.Idle ∧ .stopInLoop ∉ c.pendingFunctors_

end Connector

/-! ## After the destructor -/

namespace ClientEnd

variable {e e' : ClientEnd}

/-- The connector has been stopped, and the destructor's timer holds it. -/
structure Stopping (e : ClientEnd) : Prop where
  held : e.held = true
  alive : e.connectorGone = false
  off : e.client.connector_.connect_ = false
  stop : .stopInLoop ∈ e.client.connector_.pendingFunctors_ ∨
    e.client.connector_.state_ ≠ .kConnecting

/-- What holds while an owner of the connector may be about to go. -/
structure Ending (e : ClientEnd) : Prop where
  destroyed : e.destroyed = true
  connector : e.client.connector_.Inv
  inert : e.client.connector_.connect_ = false ∨ e.client.connector_.timers = []
  phase : e.Stopping ∨ e.client.connector_.Rest
  rebound : ∀ conn, conn ∈ e.client.up ∨ e.client.closing = some conn → e.rebound = some conn
  once : e.client.up.Nodup
  lone : e.unique = true → ∀ conn ∈ e.client.up, conn ∈ e.closes
  faults : e.faults = []

structure Ended (e : ClientEnd) : Prop extends Ending e where
  gone : e.owned = false → e.connectorGone = true

theorem Ending.release (h : e.Ending) : e.release.Ended := by
  by_cases hkeep : (e.owned || e.connectorGone) = true
  · have hsame : e.release = e := if_pos hkeep
    rw [hsame]
    refine ⟨h, fun howned => ?_⟩
    simpa [howned] using hkeep
  · -- the destructor's timer has fired, so the connector is at rest
    have hfree : e.owned = false ∧ e.connectorGone = false := by simpa using hkeep
    have hheld : e.held = false := by
      have hnot := hfree.1
      simp only [owned, h.destroyed, Bool.not_true, Bool.false_or, Bool.or_eq_false_iff] at hnot
      exact hnot.1
    have hrest : e.client.connector_.Rest := h.phase.resolve_left fun hstop => by
      rw [hstop.held] at hheld
      cases hheld
    have hchannel : e.client.connector_.channel_ = none := hrest.1.2.1
    have hsame : e.release = { e with connectorGone := true } := by
      simp [ClientEnd.release, hfree, hchannel, Connector.destroyChannel, setConnector]
    rw [hsame]
    exact ⟨⟨h.destroyed, h.connector, h.inert, .inr hrest, h.rebound, h.once, h.lone, h.faults⟩,
      fun _ => rfl⟩

/-- A step that leaves the owners as they are. -/
theorem Ending.ended (h : e'.Ending) (hbefore : e.Ended) (howned : e'.owned = e.owned)
    (hgone : e'.connectorGone = e.connectorGone) : e'.Ended := by
  refine ⟨h, fun hfree => ?_⟩
  rw [hgone]
  exact hbefore.gone (howned ▸ hfree)

/-- The phase depends on the connector and on the owners alone. -/
theorem Ending.phase_congr (h : e.Ending) (hheld : e'.held = e.held)
    (halive : e'.connectorGone = e.connectorGone)
    (hconnector : e'.client.connector_ = e.client.connector_) :
    e'.Stopping ∨ e'.client.connector_.Rest := by
  rcases h.phase with hstop | hrest
  · refine .inl ⟨hheld.trans hstop.held, halive.trans hstop.alive, ?_, ?_⟩
    · rw [hconnector]
      exact hstop.off
    · rw [hconnector]
      exact hstop.stop
  · rw [hconnector]
    exact .inr hrest

/-- The functors of the connector are gone when it is at rest. -/
theorem Rest.not_raw {c : Connector} (h : c.Rest) {f : ClientFunctor}
    (hf : f ∈ c.pendingFunctors_) : f.isRaw = false := by
  cases f with
  | stopInLoop => exact absurd hf h.2
  | resetChannel => exact absurd hf (List.count_eq_zero.1 h.1.2.2)
  | connectDestroyed conn => rfl

theorem Ended.timer (h : e.Ended) {i : Nat} {err : ConnectErrno}
    (hi : i < e.client.connector_.timers.length) : (e.orphan (.timer i err)).Ended := by
  have hoff : e.client.connector_.connect_ = false := h.inert.resolve_right fun hnone => by
    rw [hnone] at hi
    exact absurd hi (Nat.not_lt_zero i)
  refine Ending.release ?_
  have hstart : ({ e.client.connector_ with
      timers := e.client.connector_.timers.eraseIdx i } : Connector).startInLoop err =
        { e.client.connector_ with timers := e.client.connector_.timers.eraseIdx i } := by
    simp [Connector.startInLoop, hoff]
  rw [hstart]
  refine ⟨h.destroyed, h.connector.congr rfl rfl rfl rfl rfl rfl rfl, .inl hoff, ?_, h.rebound,
    h.once, h.lone, h.faults⟩
  exact h.phase.imp (fun hstop => ⟨hstop.held, hstop.alive, hstop.off, hstop.stop⟩) id

theorem Ended.event (h : e.Ended) {pollErr pollOut err self : Bool}
    (hadded : e.client.connector_.channel_.any (·.addedToLoop_) = true) :
    (e.orphan (.event pollErr pollOut err self)).Ended := by
  have hst := h.connector.connecting_of_added hadded
  have hstop : e.Stopping := h.phase.resolve_right fun hrest => hrest.1.1 hst
  -- the handlers find the connector stopped, and its `stopInLoop` is still to come
  have hwaits : .stopInLoop ∈ e.client.connector_.pendingFunctors_ :=
    hstop.stop.resolve_right fun hne => hne hst
  have hset : ∀ c : Connector, c.Inv → e.client.connector_.Off c → (e.setConnector c).Ended := by
    intro c hinv hoff
    refine Ending.ended ⟨h.destroyed, hinv, .inl hoff.connect, .inl ?_, h.rebound, h.once,
      h.lone, h.faults⟩ h ?_ rfl
    · exact ⟨hstop.held, hstop.alive, hoff.connect, .inl (hoff.functors _ hwaits)⟩
    · simp [owned, setConnector, hoff.timers]
  have herror := Connector.off_handleError hstop.off
  have hdis := Connector.handleError_state hst
  simp only [orphan, ClientEnd.handleEvent]
  cases pollErr with
  | true =>
      have hwrite := Connector.off_handleWrite herror.connect err self
      have hnone := Connector.handleWrite_none herror.connect err self
      cases pollOut with
      | true =>
          simp only [if_true, hnone]
          exact hset _ (h.connector.handleError.handleWrite (.inr hdis) err self)
            (herror.trans hwrite)
      | false => exact hset _ h.connector.handleError herror
  | false =>
      have hwrite := Connector.off_handleWrite hstop.off err self
      have hnone := Connector.handleWrite_none hstop.off err self
      cases pollOut with
      | true =>
          simp only [if_true, Bool.false_eq_true, if_false, hnone]
          exact hset _ (h.connector.handleWrite (.inl hst) err self) hwrite
      | false => exact hset _ h.connector (.refl hstop.off)

theorem Ended.connectionDown (h : e.Ended) {conn : Nat} (hup : conn ∈ e.client.up) :
    ({ e with client := e.client.perform (.connectionDown conn) } : ClientEnd).Ended := by
  refine Ending.ended ⟨h.destroyed, h.connector, h.inert, h.phase_congr rfl rfl rfl, ?_,
    h.once.erase conn, ?_, h.faults⟩ h rfl rfl
  · rintro conn' (hin | hclosing)
    · exact h.rebound conn' (.inl (List.mem_of_mem_erase hin))
    · cases hclosing
      exact h.rebound conn (.inl hup)
  · exact fun hunique conn' hin => h.lone hunique conn' (List.mem_of_mem_erase hin)

/-- `detail::removeConnection`. -/
theorem Ended.closeCallback (h : e.Ended) {err : ConnectErrno} :
    (e.orphan (.closeCallback err)).Ended := by
  simp only [orphan]
  cases hclosing : e.client.closing with
  | none => exact h
  | some conn =>
      have hrebound := h.rebound conn (.inr hclosing)
      dsimp only
      rw [if_pos hrebound]
      refine Ending.ended ⟨h.destroyed, h.connector.queueInLoop (by simp), h.inert, ?_, ?_, h.once,
        h.lone, h.faults⟩ h rfl rfl
      · refine h.phase.imp (fun hstop => ⟨hstop.held, hstop.alive, hstop.off, ?_⟩) fun hrest => ?_
        · exact hstop.stop.imp (fun hin => List.mem_append_left _ hin) id
        · refine ⟨⟨hrest.1.1, hrest.1.2.1, ?_⟩, ?_⟩
          · exact (Pending.count_concat_of_ne (by simp)).trans hrest.1.2.2
          · simpa [setConnector, Connector.queueInLoop] using hrest.2
      · rintro conn' (hin | hnone)
        · exact h.rebound conn' (.inl hin)
        · cases hnone

/-- A functor has been taken out of the queue. -/
theorem Rest.eraseIdx {c : Connector} (h : c.Rest) (i : Nat) :
    ({ c with pendingFunctors_ := c.pendingFunctors_.eraseIdx i } : Connector).Rest := by
  refine ⟨⟨h.1.1, h.1.2.1, ?_⟩, fun hin => h.2 (List.mem_of_mem_eraseIdx hin)⟩
  exact List.count_eq_zero.2 fun hin =>
    List.count_eq_zero.1 h.1.2.2 (List.mem_of_mem_eraseIdx hin)

theorem Ended.runFunctor (h : e.Ended) (i : Nat) : (e.orphan (.runFunctor i)).Ended := by
  simp only [orphan]
  cases hi : e.client.connector_.pendingFunctors_[i]? with
  | none => exact h
  | some f =>
      have hin := List.mem_of_getElem? hi
      let c₁ : Connector := { e.client.connector_ with
        pendingFunctors_ := e.client.connector_.pendingFunctors_.eraseIdx i }
      -- a functor of the connector is there in the destructor's second only
      have hstop : f.isRaw = true → e.Stopping := fun hraw => h.phase.resolve_right fun hrest => by
        rw [Rest.not_raw hrest hin] at hraw
        cases hraw
      have hkeep : f ≠ .stopInLoop → e.Stopping → .stopInLoop ∈ c₁.pendingFunctors_ ∨
          c₁.state_ ≠ .kConnecting := by
        refine fun hf hs => hs.stop.imp (fun hmem => ?_) id
        refine List.count_pos_iff.1 ?_
        rw [Pending.count_eraseIdx_of_ne hi hf]
        exact List.count_pos_iff.2 hmem
      have hother : f ≠ .resetChannel → c₁.Inv := fun hf =>
        h.connector.congr rfl rfl (Pending.count_eraseIdx_of_ne hi hf) rfl rfl rfl rfl
      cases f with
      | connectDestroyed conn =>
          refine Ending.ended ⟨h.destroyed, hother (by simp), h.inert, ?_, h.rebound, h.once,
            h.lone, h.faults⟩ h rfl rfl
          exact h.phase.imp (fun hs => ⟨hs.held, hs.alive, hs.off, hkeep (by simp) hs⟩)
            fun hrest => Rest.eraseIdx hrest i
      | stopInLoop =>
          have hs := hstop rfl
          obtain ⟨hoff, hstate⟩ := Connector.off_stopInLoop (c := c₁) hs.off
          simp only [ClientFunctor.isRaw, hs.alive, Bool.and_false, Bool.false_eq_true, if_false]
          refine Ending.ended ⟨h.destroyed, (hother (by simp)).stopInLoop, .inl hoff.connect,
            .inl ⟨hs.held, hs.alive, hoff.connect, .inr hstate⟩, h.rebound, h.once, h.lone,
            h.faults⟩ h ?_ rfl
          simp [owned, hs.held, setConnector]
      | resetChannel =>
          have hs := hstop rfl
          have hinv := h.connector.resetChannel_functor hi
          have hsame : c₁.resetChannel.connect_ = c₁.connect_ ∧
              c₁.resetChannel.pendingFunctors_ = c₁.pendingFunctors_ ∧
              c₁.resetChannel.state_ = c₁.state_ := by
            simp only [Connector.resetChannel, Connector.destroyChannel]
            split
            · split <;> exact ⟨rfl, rfl, rfl⟩
            · exact ⟨rfl, rfl, rfl⟩
          have hoff : c₁.resetChannel.connect_ = false := hsame.1.trans hs.off
          simp only [ClientFunctor.isRaw, hs.alive, Bool.and_false, Bool.false_eq_true, if_false]
          refine Ending.ended ⟨h.destroyed, hinv, .inl hoff, .inl ⟨hs.held, hs.alive, hoff, ?_⟩,
            h.rebound, h.once, h.lone, h.faults⟩ h ?_ rfl
          · rw [← hsame.2.1, ← hsame.2.2] at hkeep
            exact hkeep (by simp) hs
          · simp [owned, hs.held, setConnector]

/-- After its second the connector is at rest. -/
theorem Ended.removeConnector (h : e.Ended)
    (hrun : ∀ f ∈ e.client.connector_.pendingFunctors_, f.isRaw = false) :
    (e.perform .removeConnector).Ended := by
  have hnone : ∀ f : ClientFunctor, f.isRaw = true →
      f ∉ e.client.connector_.pendingFunctors_ := by
    intro f hf hin
    rw [hrun f hin] at hf
    cases hf
  have hrest : e.client.connector_.Rest := by
    refine h.phase.elim (fun hstop => ?_) id
    have hstate := hstop.stop.resolve_left (hnone .stopInLoop rfl)
    exact ⟨h.connector.idle hstate (List.count_eq_zero.2 (hnone .resetChannel rfl)),
      hnone .stopInLoop rfl⟩
  exact Ending.release
    ⟨h.destroyed, h.connector, h.inert, .inr hrest, h.rebound, h.once, h.lone, h.faults⟩

/-- A `forceCloseInLoop` that is queued for a connection that is down is not needed. -/
theorem Ended.erase_close (h : e.Ended) {conn : Nat} (hdown : conn ∉ e.client.up) :
    ({ e with closes := e.closes.erase conn } : ClientEnd).Ended := by
  refine Ending.ended ⟨h.destroyed, h.connector, h.inert, h.phase_congr rfl rfl rfl, h.rebound,
    h.once, ?_, h.faults⟩ h rfl rfl
  intro hunique conn' hin
  have hne : conn' ≠ conn := fun heq => hdown (heq ▸ hin)
  exact (List.mem_erase_of_ne hne).2 (h.lone hunique conn' hin)

theorem Ended.forceCloseInLoop (h : e.Ended) {conn : Nat} :
    (e.perform (.forceCloseInLoop conn)).Ended := by
  simp only [perform]
  by_cases hup : conn ∈ e.client.up
  · have hdown : conn ∉ e.client.up.erase conn := h.once.not_mem_erase
    rw [if_pos (List.contains_iff_mem.2 hup)]
    exact (h.connectionDown hup).erase_close hdown
  · rw [if_neg (mt List.contains_iff_mem.1 hup)]
    exact h.erase_close hup

/-- The step lemma. -/
theorem Ended.perform (h : e.Ended) {a : EndAction} (he : e.enabled a = true)
    (hallowed : e.Allowed a) : (e.perform a).Ended := by
  cases a with
  | client a =>
      obtain ⟨hen, hcall⟩ : e.client.enabled a = true ∧ a.isCall = false := by
        simpa [enabled, h.destroyed] using he
      rw [ClientEnd.perform, if_pos h.destroyed]
      cases a with
      | connect | disconnect | stop | enableRetry => cases hcall
      | timer i err => exact h.timer (of_decide_eq_true (Bool.and_eq_true_iff.1 hen).2)
      | event pollErr pollOut err self => exact h.event (Bool.and_eq_true_iff.1 hen).2
      | connectionDown conn =>
          exact h.connectionDown (List.contains_iff_mem.1 (Bool.and_eq_true_iff.1 hen).2)
      | closeCallback err => exact h.closeCallback
      | runFunctor i => exact h.runFunctor i
  | destroy unique => simp [enabled, h.destroyed] at he
  | removeConnector => exact h.removeConnector hallowed
  | forceCloseInLoop conn => exact h.forceCloseInLoop

/-- Until the destructor there is only the client. -/
structure Whole (e : ClientEnd) : Prop where
  only : e = { client := e.client }
  client : e.client.Inv

theorem Whole.destroy (h : e.Whole) (hsettled : e.client.Settled) {unique : Bool} :
    (e.destroy unique).Ended := by
  obtain ⟨honly, hclient⟩ := h
  have hunique : e.unique = false := by rw [honly]
  have halive : e.connectorGone = false := by rw [honly]
  have hfaults : e.faults = [] := by rw [honly]
  unfold ClientEnd.destroy
  cases hconn : e.client.connection_ with
  | none =>
      -- no connection is up, and the connector is stopped
      obtain ⟨hclosing, hup⟩ : e.client.closing = none ∧ e.client.up = [] := by
        rcases hclient.connection with ⟨hclosing, hup⟩ | ⟨conn, -, hsome, -⟩
        · exact ⟨hclosing, by rw [hup, hconn, Option.toList_none]⟩
        · rw [hconn] at hsome
          cases hsome
      refine ⟨⟨rfl, hclient.connector.stop, .inl rfl, .inl ⟨rfl, halive, rfl, .inl ?_⟩, ?_, ?_, ?_,
        hfaults⟩, ?_⟩
      · exact List.mem_append_right _ (List.mem_singleton_self _)
      · rintro conn (hin | hsome)
        · exact absurd (hup ▸ hin) List.not_mem_nil
        · exact absurd (hclosing.symm.trans hsome) (by simp)
      · exact hup ▸ List.nodup_nil
      · exact fun hu => absurd (hunique.symm.trans hu) (by decide)
      · simp [owned]
  | some conn =>
      obtain ⟨hchannel, hstop, htimers⟩ := hsettled (by simp [hconn])
      have hidle : e.client.connector_.Idle := by
        rcases hclient.connector.phase with hidle | ⟨fd, ⟨-, -, ch, hch, -⟩, -⟩ | ⟨-, -, ch, hch, -⟩
        · exact hidle
        all_goals exact absurd (hchannel.symm.trans hch) (by simp)
      have hup : ∀ conn', conn' ∈ e.client.up ∨ e.client.closing = some conn' → conn' = conn := by
        rcases hclient.connection with ⟨hnone, hup⟩ | ⟨conn₁, hsome, hconn₁, hup⟩
        · rintro conn' (hin | hclosing)
          · simpa [hup, hconn] using hin
          · exact absurd (hnone.symm.trans hclosing) (by simp)
        · have heq : conn₁ = conn := Option.some.inj (hconn₁.symm.trans hconn)
          rintro conn' (hin | hclosing)
          · exact absurd (hup ▸ hin) List.not_mem_nil
          · exact (Option.some.inj (hclosing.symm.trans hsome)).trans heq
      refine Ending.release ⟨rfl, hclient.connector, htimers.symm, .inr ⟨hidle, hstop⟩, ?_, ?_, ?_,
        hfaults⟩
      · exact fun conn' hin => congrArg some (hup conn' hin).symm
      · rcases hclient.connection with ⟨-, heq⟩ | ⟨-, -, -, heq⟩
        · simp [heq, hconn]
        · exact heq ▸ List.nodup_nil
      · intro hu conn' hin
        have heq := hup conn' (.inl hin)
        subst heq
        have hqueued : (unique && e.client.up.contains conn') = true := by
          rw [show unique = true from hu, List.contains_iff_mem.2 hin]
          rfl
        simp only [hqueued, if_true]
        exact List.mem_append_right _ (List.mem_singleton_self _)

/-- Until the destructor, a step is one of the client. -/
theorem Whole.perform (h : e.Whole) {a : EndAction} (he : e.enabled a = true)
    (hallowed : e.Allowed a) (hnot : ∀ unique, a ≠ .destroy unique) : (e.perform a).Whole := by
  have hbefore : e.destroyed = false := by rw [h.only]
  cases a with
  | client a =>
      have hen : e.client.enabled a = true := (Bool.and_eq_true_iff.1 he).1
      have hperform : e.perform (.client a) = { e with client := e.client.perform a } := by
        simp [ClientEnd.perform, hbefore]
      rw [hperform]
      refine ⟨?_, h.client.perform hen (hallowed hbefore)⟩
      conv_lhs => rw [h.only]
  | destroy unique => exact absurd rfl (hnot unique)
  | removeConnector =>
      have hheld : e.held = false := by rw [h.only]
      simp [enabled, hheld] at he
  | forceCloseInLoop conn =>
      have hcloses : e.closes = [] := by rw [h.only]
      simp [enabled, hcloses] at he

/-- Some way to go on ends badly. -/
def Doomed (e : ClientEnd) : Prop :=
  ∃ e', ((runs.restrict Allowed).startAt e).Reachable e' ∧ ¬ e'.Sound

theorem Doomed.now (h : ¬ e.Sound) : e.Doomed := ⟨e, .init rfl, h⟩

/-- A step behind the destructor needs nothing but to be enabled. -/
theorem Doomed.step {a : ClientAction} (hd : e.destroyed = true)
    (he : e.client.enabled a = true) (ha : a.isCall = false) (h : (e.orphan a).Doomed) :
    e.Doomed := by
  obtain ⟨e', hreach, hbad⟩ := h
  have hen : e.enabled (.client a) = true := by simp [enabled, he, ha]
  have hallowed : e.Allowed (.client a) := fun hnot => absurd (hd.symm.trans hnot) (by decide)
  have hperform : e.perform (.client a) = e.orphan a := if_pos hd
  have hfirst : ((runs.restrict Allowed).startAt e).Reachable (e.orphan a) :=
    .step (.init rfl) ⟨hallowed, hen, hperform.symm⟩
  exact ⟨e', hfirst.trans hreach, hbad⟩

/-- Runs in which the client is settled when the user destroys it. -/
def Careful (e : ClientEnd) (a : EndAction) : Prop :=
  e.Allowed a ∧ ∀ unique, a = .destroy unique → e.client.Settled

instance (e : ClientEnd) : (a : EndAction) → Decidable (e.Allowed a)
  | .client a => inferInstanceAs (Decidable (e.destroyed = false → e.client.Allowed a))
  | .removeConnector => inferInstanceAs (Decidable (∀ f ∈ _, ClientFunctor.isRaw f = false))
  | .destroy _ | .forceCloseInLoop _ => isTrue trivial

instance (e : ClientEnd) (a : EndAction) : Decidable (e.Careful a) :=
  inferInstanceAs (Decidable (_ ∧ _))

def next (e : ClientEnd) (a : EndAction) : Option ClientEnd :=
  if e.Careful a ∧ e.enabled a = true then some (e.perform a) else none

/-- An attempt succeeds. -/
def connected : List EndAction :=
  [.client (.connect .EINPROGRESS), .client (.event false true false false)]

/-- The client is destroyed in the middle of an attempt, and its timer fires. -/
def destroyedEarly : List EndAction :=
  [.client (.connect .EINPROGRESS), .destroy false, .client (.runFunctor 0),
    .client (.runFunctor 0), .removeConnector]

end ClientEnd
end Net
end Longky
