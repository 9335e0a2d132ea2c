import Longky.Lib.Reach
import Longky.Net.Connector

/-!
# TcpClient — a connector and its connection

`netLayer/tcp/c/client/TcpClient.cpp` on its loop thread.  A connection is named by its socket.  Its
`handleClose` first runs the user's `connectionCallback_`, which may call the client, and then
`removeConnection`.
-/

namespace Longky
namespace Net

open Lib

/-- The members of `class TcpClient`, with what it has to know of its connections. -/
structure TcpClient where
  connector_ : Connector := {}
  retry_ : Bool := false
  connect_ : Bool := true
  nextConnId_ : Nat := 1
  connection_ : Option Nat := none
  /-- The connections that are up. -/
  up : List Nat := []
  /-- The connection whose `handleClose` is in the user's `connectionCallback_`. -/
  closing : Option Nat := none

/-- What happens on the loop thread, with the answers of `sockets::connect` (`e`), `getSocketError`
(`err`) and `isSelfConnect` (`self`). -/
inductive ClientAction where
  | connect (e : ConnectErrno)
  | disconnect
  | stop
  | enableRetry
  | timer (i : Nat) (e : ConnectErrno)
  /-- The channel's handlers for `POLLERR` and for `POLLOUT`. -/
  | event (pollErr pollOut err self : Bool)
  | connectionDown (conn : Nat)
  /-- The user's `connectionCallback_` returns. -/
  | closeCallback (e : ConnectErrno)
  /-- The loop runs the functor at a position of its queue. -/
  | runFunctor (i : Nat)
  deriving DecidableEq, Repr

namespace TcpClient

/-- On the loop thread. -/
def connect (c : TcpClient) (e : ConnectErrno) : TcpClient :=
  { c with connect_ := true, connector_ := c.connector_.start e }

/-- `connection_->shutdown()` is the connection's own business. -/
def disconnect (c : TcpClient) : TcpClient := { c with connect_ := false }

def stop (c : TcpClient) : TcpClient :=
  { c with connect_ := false, connector_ := c.connector_.stop }

def newConnection (c : TcpClient) (sockfd : Nat) : TcpClient :=
  { c with
    nextConnId_ := c.nextConnId_ + 1
    connection_ := some sockfd
    up := c.up ++ [sockfd] }

def removeConnection (c : TcpClient) (conn : Nat) (e : ConnectErrno) : TcpClient :=
  let connector₁ :=
    if c.connection_ = some conn then c.connector_ else c.connector_.fault .otherConnection
  let connector₂ := connector₁.queueInLoop (.connectDestroyed conn)
  let c₁ := { c with connection_ := none, connector_ := connector₂ }
  if c₁.retry_ && c₁.connect_ then { c₁ with connector_ := c₁.connector_.restart e } else c₁

/-- `Channel::handleEvent` for the channel of the attempt. -/
def handleEvent (c : TcpClient) (pollErr pollOut err self : Bool) : TcpClient :=
  let connector₁ := if pollErr then c.connector_.handleError else c.connector_
  if pollOut then
    let (connector₂, sockfd?) := connector₁.handleWrite err self
    match sockfd? with
    | some sockfd => { c with connector_ := connector₂ }.newConnection sockfd
    | none => { c with connector_ := connector₂ }
  else { c with connector_ := connector₁ }

def runFunctor (c : TcpClient) : ClientFunctor → TcpClient
  | .stopInLoop => { c with connector_ := c.connector_.stopInLoop }
  | .resetChannel => { c with connector_ := c.connector_.resetChannel }
  | .connectDestroyed _ => c

/-- When an action can happen; inside the user's `connectionCallback_` these are the public calls. -/
def enabled (c : TcpClient) : ClientAction → Bool
  | .connect _ | .disconnect | .stop | .enableRetry => true
  | .timer i _ => c.closing.isNone && decide (i < c.connector_.timers.length)
  | .event .. => c.closing.isNone && c.connector_.channel_.any (·.addedToLoop_)
  | .connectionDown conn => c.closing.isNone && c.up.contains conn
  | .closeCallback _ => c.closing.isSome
  | .runFunctor i => c.closing.isNone && c.connector_.pendingFunctors_[i]?.isSome

def perform (c : TcpClient) : ClientAction → TcpClient
  | .connect e => c.connect e
  | .disconnect => c.disconnect
  | .stop => c.stop
  | .enableRetry => { c with retry_ := true }
  | .timer i e =>
      let connector := { c.connector_ with timers := c.connector_.timers.eraseIdx i }
      { c with connector_ := connector.startInLoop e }
  | .event pollErr pollOut err self => c.handleEvent pollErr pollOut err self
  | .connectionDown conn => { c with up := c.up.erase conn, closing := some conn }
  | .closeCallback e =>
      match c.closing with
      | some conn => { c with closing := none }.removeConnection conn e
      | none => c
  | .runFunctor i =>
      match c.connector_.pendingFunctors_[i]? with
      | some f =>
          let pending := c.connector_.pendingFunctors_.eraseIdx i
          { c with connector_ := { c.connector_ with pendingFunctors_ := pending } }.runFunctor f
      | none => c

def runs : System TcpClient ClientAction where
  init c := c = {}
  step c a c' := c.enabled a = true ∧ c' = c.perform a

/-! ## One connection at a time -/

/-- The event ends the attempt with a connection that is wanted. -/
def connects (c : TcpClient) (pollErr pollOut err self : Bool) : Bool :=
  !pollErr && pollOut && !err && !self && c.connector_.connect_

/-- Every start, be it a call, a timer or a restart, finds the connector ready, and every attempt
that succeeds finds no other connection. -/
def Allowed (c : TcpClient) : ClientAction → Prop
  | .connect e => c.connector_.Ready e
  | .timer _ e => c.connector_.connect_ = true → c.connector_.Ready e
  | .closeCallback e => c.retry_ = true ∧ c.connect_ = true →
      c.connector_.state_ ≠ .kConnecting ∧ c.connector_.Ready e
  | .event pollErr pollOut err self =>
      c.connects pollErr pollOut err self = true → c.connection_ = none
  | .disconnect | .stop | .enableRetry | .connectionDown _ | .runFunctor _ => True

instance (c : TcpClient) (a : ClientAction) : Decidable (c.Allowed a) := by
  cases a <;> unfold Allowed <;> infer_instance

structure Inv (c : TcpClient) : Prop where
  connector : c.connector_.Inv
  connection : c.closing = none ∧ c.up = c.connection_.toList ∨
    ∃ conn, c.closing = some conn ∧ c.connection_ = some conn ∧ c.up = []

variable {c c' : TcpClient}

theorem Inv.of_connector (h : c.Inv) {connector : Connector} (hk : connector.Inv) :
    ({ c with connector_ := connector } : TcpClient).Inv := ⟨hk, h.connection⟩

theorem Inv.newConnection (h : c.Inv) (hclosing : c.closing = none)
    (hconn : c.connection_ = none) {connector : Connector} (hk : connector.Inv) (sockfd : Nat) :
    ({ c with connector_ := connector }.newConnection sockfd).Inv := by
  have hup : c.up = [] := by
    rcases h.connection with ⟨-, hup⟩ | ⟨conn, hsome, -⟩
    · rw [hup, hconn, Option.toList_none]
    · rw [hclosing] at hsome
      cases hsome
  exact ⟨hk, Or.inl ⟨hclosing, by simp [TcpClient.newConnection, hup]⟩⟩

theorem Inv.handleEvent (h : c.Inv) {pollErr pollOut err self : Bool}
    (he : c.enabled (.event pollErr pollOut err self) = true)
    (hallowed : c.Allowed (.event pollErr pollOut err self)) :
    (c.handleEvent pollErr pollOut err self).Inv := by
  obtain ⟨hclosing, hadded⟩ : c.closing = none ∧ c.connector_.channel_.any (·.addedToLoop_) = true := by
    simpa [enabled] using he
  have hst := h.connector.connecting_of_added hadded
  unfold TcpClient.handleEvent
  cases pollErr with
  | true =>
      -- `handleError` leaves nothing to do for `handleWrite`
      have hk := h.connector.handleError
      have hdis := Connector.handleError_state hst
      cases pollOut with
      | false => exact h.of_connector hk
      | true =>
          have hw := hk.handleWrite (Or.inr hdis) err self
          cases hs : (c.connector_.handleError.handleWrite err self).2 with
          | none =>
              simp only [if_true, hs]
              exact h.of_connector hw
          | some fd => exact absurd (hdis.symm.trans (Connector.handleWrite_some hs).1) (by decide)
  | false =>
      cases pollOut with
      | false => exact h.of_connector h.connector
      | true =>
          have hw := h.connector.handleWrite (Or.inl hst) err self
          cases hs : (c.connector_.handleWrite err self).2 with
          | none =>
              simp only [if_true, Bool.false_eq_true, if_false, hs]
              exact h.of_connector hw
          | some fd =>
              rcases Connector.handleWrite_some hs with ⟨-, rfl, rfl, hc⟩
              simp only [if_true, Bool.false_eq_true, if_false, hs]
              exact h.newConnection hclosing (hallowed (by simp [connects, hc])) hw fd

/-- `removeConnection` for the connection that has just closed: its assertion holds. -/
theorem Inv.removeConnection (h : c.Inv) {conn : Nat} (hclosing : c.closing = some conn)
    {e : ConnectErrno} (hallowed : c.Allowed (.closeCallback e)) :
    ({ c with closing := none }.removeConnection conn e).Inv := by
  obtain ⟨hconn, hup⟩ : c.connection_ = some conn ∧ c.up = [] := by
    rcases h.connection with ⟨hnone, -⟩ | ⟨conn', hsome, hconn, hup⟩
    · rw [hclosing] at hnone
      cases hnone
    · rw [hclosing] at hsome
      cases hsome
      exact ⟨hconn, hup⟩
  have hne : ClientFunctor.connectDestroyed conn ≠ .resetChannel := nofun
  have hk : (c.connector_.queueInLoop (.connectDestroyed conn)).Inv := h.connector.queueInLoop hne
  simp only [TcpClient.removeConnection, hconn, if_true]
  split
  · rename_i hretry
    rcases hallowed (by simpa using hretry) with ⟨hst, hready⟩
    refine ⟨hk.restart hst ⟨fun hp => ⟨hst, ?_⟩, hready.2⟩, Or.inl ⟨rfl, hup⟩⟩
    have hres := (hready.1 hp).2
    simpa [Connector.queueInLoop] using hres
  · exact ⟨hk, Or.inl ⟨rfl, hup⟩⟩

theorem Inv.runFunctor (h : c.Inv) {i : Nat} {f : ClientFunctor}
    (hi : c.connector_.pendingFunctors_[i]? = some f) :
    ({ c with connector_ := { c.connector_ with
      pendingFunctors_ := c.connector_.pendingFunctors_.eraseIdx i } }.runFunctor f).Inv := by
  have hother : f ≠ .resetChannel → ({ c.connector_ with
      pendingFunctors_ := c.connector_.pendingFunctors_.eraseIdx i } : Connector).Inv :=
    fun hf => h.connector.congr rfl rfl (Pending.count_eraseIdx_of_ne hi hf) rfl rfl rfl rfl
  cases f with
  | stopInLoop => exact h.of_connector (hother nofun).stopInLoop
  | resetChannel => exact h.of_connector (h.connector.resetChannel_functor hi)
  | connectDestroyed conn => exact h.of_connector (hother nofun)

theorem Inv.connectionDown (h : c.Inv) {conn : Nat}
    (he : c.enabled (.connectionDown conn) = true) :
    (c.perform (.connectionDown conn)).Inv := by
  obtain ⟨hclosing, hin⟩ : c.closing = none ∧ conn ∈ c.up := by simpa [enabled] using he
  refine ⟨h.connector, Or.inr ⟨conn, rfl, ?_⟩⟩
  rcases h.connection with ⟨-, hup⟩ | ⟨conn', hsome, -⟩
  · rw [hup, Option.mem_toList] at hin
    simp [TcpClient.perform, hup, Option.mem_def.1 hin]
  · rw [hclosing] at hsome
    cases hsome

/-- The step lemma. -/
theorem Inv.perform (h : c.Inv) {a : ClientAction} (he : c.enabled a = true)
    (hallowed : c.Allowed a) : (c.perform a).Inv := by
  cases a with
  | connect e => exact ⟨h.connector.start hallowed, h.connection⟩
  | disconnect => exact ⟨h.connector, h.connection⟩
  | stop => exact ⟨h.connector.stop, h.connection⟩
  | enableRetry => exact ⟨h.connector, h.connection⟩
  | timer i e =>
      have hk : ({ c.connector_ with
          timers := c.connector_.timers.eraseIdx i } : Connector).Inv :=
        h.connector.congr rfl rfl rfl rfl rfl rfl rfl
      exact h.of_connector (hk.startInLoop hallowed)
  | event pollErr pollOut err self => exact h.handleEvent he hallowed
  | connectionDown conn => exact h.connectionDown he
  | closeCallback e =>
      obtain ⟨conn, hclosing⟩ := Option.isSome_iff_exists.1 he
      simp only [TcpClient.perform, hclosing]
      exact h.removeConnection hclosing hallowed
  | runFunctor i =>
      simp only [TcpClient.perform]
      cases hi : c.connector_.pendingFunctors_[i]? with
      | none => exact h
      | some f => exact h.runFunctor hi

theorem reachable_inv (h : (runs.restrict Allowed).Reachable c) : c.Inv := by
  refine h.invariant ?_ ?_
  · rintro c rfl
    exact ⟨Connector.inv_start, Or.inl ⟨rfl, rfl⟩⟩
  · rintro c a c' hc ⟨hallowed, he, rfl⟩
    exact hc.perform he hallowed

/-- In such a run no assertion of the connector, the client or a channel fails, and each socket is
closed once or handed on once, except for the one of the attempt in progress. -/
theorem one_at_a_time (h : (runs.restrict Allowed).Reachable c) :
    c.connector_.faults = [] ∧ c.connector_.SocketsKept :=
  ⟨(reachable_inv h).connector.faults, (reachable_inv h).connector.sockets⟩

def next (c : TcpClient) (a : ClientAction) : Option TcpClient :=
  if c.enabled a then some (c.perform a) else none

theorem step_of_next {a : ClientAction} (h : next c a = some c') : runs.step c a c' := by
  rcases Option.ite_none_right_eq_some.1 h with ⟨he, heq⟩
  exact ⟨he, (Option.some.inj heq).symm⟩

/-- The user connects again when the connection goes down, and so does the client itself. -/
def connectWhenDown : List ClientAction :=
  [.enableRetry, .connect .EINPROGRESS, .event false true false false, .runFunctor 0,
    .connectionDown 0, .connect .EINPROGRESS, .closeCallback .EINPROGRESS]

theorem restart_meets_attempt : ∃ c, runs.Reachable c ∧
    c.connector_.faults = [.channelSet, .destroyedInLoop] ∧ ¬ c.connector_.SocketsKept := by
  obtain ⟨c, hc, hfaults, hlost⟩ : ∃ c, System.runAll next {} connectWhenDown = some c ∧
      c.connector_.faults = [.channelSet, .destroyedInLoop] ∧ ¬ c.connector_.SocketsKept := by
    refine ⟨_, rfl, rfl, fun hkept => ?_⟩
    exact absurd (hkept 1) (by decide)
  exact ⟨c, .of_runAll (fun _ _ _ => step_of_next) (.init rfl) hc, hfaults, hlost⟩

/-- The same without `enableRetry`: one attempt fails and is retried, the connection goes down, and
the user connects again. -/
def connectAgain : List ClientAction :=
  [.connect .ECONNREFUSED, .timer 0 .EINPROGRESS, .event true true false false, .runFunctor 0,
    .timer 0 .success, .event false true false false, .runFunctor 0, .connectionDown 2,
    .connect .EINPROGRESS, .closeCallback .EINPROGRESS, .event false true false false]

theorem one_at_a_time_connectAgain :
    ∃ c, System.runAll (fun c a => if c.Allowed a then next c a else none) {} connectAgain = some c ∧
      c.connector_.handed = [2, 3] ∧ c.connector_.faults = [] ∧ c.connector_.SocketsKept := by
  obtain ⟨c, hc, hhanded⟩ : ∃ c, System.runAll (fun c a => if c.Allowed a then next c a else none)
      {} connectAgain = some c ∧ c.connector_.handed = [2, 3] := by
    have hrun : (System.runAll (fun c a => if c.Allowed a then next c a else none)
        {} connectAgain).map (·.connector_.handed) = some [2, 3] := by decide +kernel
    exact Option.map_eq_some_iff.1 hrun
  refine ⟨c, hc, hhanded, one_at_a_time (.of_runAll ?_ (.init rfl) hc)⟩
  intro c a c' hnext
  rcases Option.ite_none_right_eq_some.1 hnext with ⟨hallowed, hc'⟩
  exact ⟨hallowed, step_of_next hc'⟩

end TcpClient
end Net
end Longky
