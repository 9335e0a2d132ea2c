import Longky.Lib.Pending
import Longky.Net.TcpConnection

/-!
# Connector — attempts to connect

`netLayer/tcp/c/Connector.cpp`: one non-blocking `connect` after the other, each with a channel of
its own that waits for the socket to become writable.  The channel of a finished attempt is taken
out of the loop at once, and destroyed by a functor, since its own handler may be running.

The answers of the kernel are arguments.  Sockets are numbered in the order of their creation.
Assertions are recorded, and execution goes on behind them as it does with `NDEBUG`.
-/

namespace Longky
namespace Net

open Lib

/-- `savedErrno` after `sockets::connect`, `0` for success. -/
inductive ConnectErrno where
  | success
  | EINPROGRESS
  | EINTR
  | EISCONN
  | EAGAIN
  | EADDRINUSE
  | EADDRNOTAVAIL
  | ECONNREFUSED
  | ENETUNREACH
  | EACCES
  | EPERM
  | EAFNOSUPPORT
  | EALREADY
  | EBADF
  | EFAULT
  | ENOTSOCK
  | other (code : Nat)
  deriving DecidableEq, Repr

inductive States where
  | kDisconnected
  | kConnecting
  | kConnected
  deriving DecidableEq, Repr

structure ConnectorChannel extends Channel where
  fd : Nat
  deriving DecidableEq, Repr

/-- The functors that a connector and its client put into `EventLoop::pendingFunctors_`. -/
inductive ClientFunctor where
  | stopInLoop
  | resetChannel
  | connectDestroyed (conn : Nat)
  deriving DecidableEq, Repr

/-- What goes wrong in a connector or its client. -/
inductive ClientFault where
  /-- `assert(!channel_)` in `connecting`. -/
  | channelSet
  /-- `~Channel` for a channel that is still in the loop. -/
  | destroyedInLoop
  /-- `assert(state_ == kDisconnected)` in `handleWrite`. -/
  | unexpectedState
  /-- A member function of `*channel_` without a channel. -/
  | nullChannel
  /-- `assert(connection_ == conn)` in `TcpClient::removeConnection`. -/
  | otherConnection
  deriving DecidableEq, Repr

def kInitRetryDelayMs : Nat := 500

def kMaxRetryDelayMs : Nat := 30 * 1000

/-- The members of `class Connector`, with the parts of the loop and of the kernel that it uses. -/
structure Connector where
  connect_ : Bool := false
  state_ : States := .kDisconnected
  channel_ : Option ConnectorChannel := none
  retryDelayMs_ : Nat := kInitRetryDelayMs
  pendingFunctors_ : List ClientFunctor := []
  /-- The timers of `retry` that have not fired, each with its delay in milliseconds. -/
  timers : List Nat := []
  /-- How many sockets `createNonblockingOrDie` has made. -/
  created : Nat := 0
  closed : List Nat := []
  /-- The sockets given to `newConnectionCallback_`. -/
  handed : List Nat := []
  faults : List ClientFault := []

namespace Connector

def setState (c : Connector) (s : States) : Connector := { c with state_ := s }

def queueInLoop (c : Connector) (f : ClientFunctor) : Connector :=
  { c with pendingFunctors_ := c.pendingFunctors_ ++ [f] }

def close (c : Connector) (sockfd : Nat) : Connector := { c with closed := c.closed ++ [sockfd] }

def fault (c : Connector) (f : ClientFault) : Connector := { c with faults := c.faults ++ [f] }

/-- `channel_.reset()`, with `~Channel` for the one that was there. -/
def destroyChannel (c : Connector) : Connector :=
  match c.channel_ with
  | some ch =>
      let c₁ := if ch.addedToLoop_ then c.fault .destroyedInLoop else c
      { c₁ with channel_ := none }
  | none => c

def connecting (c : Connector) (sockfd : Nat) : Connector :=
  let c₁ := c.setState .kConnecting
  let c₂ := if c₁.channel_.isNone then c₁ else c₁.fault .channelSet
  { c₂.destroyChannel with
    channel_ := some { toChannel := ({} : Channel).enableWriting, fd := sockfd } }

/-- The channel leaves the loop; its destruction is left to `resetChannel`. -/
def removeAndResetChannel (c : Connector) : Connector × Nat :=
  match c.channel_ with
  | some ch =>
      let removed := { ch with toChannel := { ch.disableAll with addedToLoop_ := false } }
      ({ c with channel_ := some removed }.queueInLoop .resetChannel, ch.fd)
  | none => (c.fault .nullChannel, 0)

def resetChannel (c : Connector) : Connector := c.destroyChannel

def retry (c : Connector) (sockfd : Nat) : Connector :=
  let c₁ := (c.close sockfd).setState .kDisconnected
  if c₁.connect_ then
    { c₁ with
      timers := c₁.timers ++ [c₁.retryDelayMs_]
      retryDelayMs_ := min (c₁.retryDelayMs_ * 2) kMaxRetryDelayMs }
  else c₁

def connect (c : Connector) (savedErrno : ConnectErrno) : Connector :=
  let sockfd := c.created
  let c₁ := { c with created := c.created + 1 }
  match savedErrno with
  | .success | .EINPROGRESS | .EINTR | .EISCONN => c₁.connecting sockfd
  | .EAGAIN | .EADDRINUSE | .EADDRNOTAVAIL | .ECONNREFUSED | .ENETUNREACH => c₁.retry sockfd
  | .EACCES | .EPERM | .EAFNOSUPPORT | .EALREADY | .EBADF | .EFAULT | .ENOTSOCK | .other _ =>
      c₁.close sockfd

def startInLoop (c : Connector) (savedErrno : ConnectErrno) : Connector :=
  if c.connect_ then c.connect savedErrno else c

/-- On the loop thread. -/
def start (c : Connector) (savedErrno : ConnectErrno) : Connector :=
  { c with connect_ := true }.startInLoop savedErrno

def restart (c : Connector) (savedErrno : ConnectErrno) : Connector :=
  { c.setState .kDisconnected with
    retryDelayMs_ := kInitRetryDelayMs
    connect_ := true }.startInLoop savedErrno

def stop (c : Connector) : Connector := { c with connect_ := false }.queueInLoop .stopInLoop

def stopInLoop (c : Connector) : Connector :=
  if c.state_ = .kConnecting then
    let (c₁, sockfd) := (c.setState .kDisconnected).removeAndResetChannel
    c₁.retry sockfd
  else c

/-- `handleWrite` with the answers of `getSocketError` and `isSelfConnect`, and the socket for
`newConnectionCallback_`. -/
def handleWrite (c : Connector) (err self : Bool) : Connector × Option Nat :=
  if c.state_ = .kConnecting then
    let (c₁, sockfd) := c.removeAndResetChannel
    if err then (c₁.retry sockfd, none)
    else if self then (c₁.retry sockfd, none)
    else
      let c₂ := c₁.setState .kConnected
      if c₂.connect_ then ({ c₂ with handed := c₂.handed ++ [sockfd] }, some sockfd)
      else (c₂.close sockfd, none)
  else
    -- "what happened?"
    (if c.state_ = .kDisconnected then c else c.fault .unexpectedState, none)

def handleError (c : Connector) : Connector :=
  if c.state_ = .kConnecting then
    let (c₁, sockfd) := c.removeAndResetChannel
    c₁.retry sockfd
  else c

/-! ## One attempt at a time -/

/-- The socket of the attempt in progress. -/
def attempt (c : Connector) : Option Nat :=
  if c.state_ = .kConnecting then c.channel_.map (·.fd) else none

def resets (c : Connector) : Nat := c.pendingFunctors_.count .resetChannel

/-- There is no channel. -/
def Idle (c : Connector) : Prop :=
  c.state_ ≠ .kConnecting ∧ c.channel_ = none ∧ c.resets = 0

/-- The channel of `sockfd` waits in the loop. -/
def Trying (c : Connector) (sockfd : Nat) : Prop :=
  c.state_ = .kConnecting ∧ c.resets = 0 ∧
    ∃ ch, c.channel_ = some ch ∧ ch.fd = sockfd ∧ ch.addedToLoop_ = true

/-- The channel has left the loop and waits for its `resetChannel`. -/
def Leaving (c : Connector) : Prop :=
  c.state_ ≠ .kConnecting ∧ c.resets = 1 ∧ ∃ ch, c.channel_ = some ch ∧ ch.addedToLoop_ = false

/-- Each of `created` sockets is in one of the two lists once, except for `open_`. -/
def Kept (closed handed : List Nat) (created : Nat) (open_ : Option Nat) : Prop :=
  ∀ fd, closed.count fd + handed.count fd = if fd < created ∧ open_ ≠ some fd then 1 else 0

/-- Each socket is closed once or handed on once, except for the one of the attempt in progress. -/
def SocketsKept (c : Connector) : Prop := Kept c.closed c.handed c.created c.attempt

structure Inv (c : Connector) : Prop where
  phase : c.Idle ∨ (∃ sockfd, c.Trying sockfd ∧ sockfd < c.created) ∨ c.Leaving
  sockets : c.SocketsKept
  faults : c.faults = []

theorem inv_start : ({} : Connector).Inv where
  phase := Or.inl ⟨by simp, rfl, rfl⟩
  sockets fd := by simp
  faults := rfl

section Kept

variable {cl ha : List Nat} {n fd : Nat} {o : Option Nat}

theorem Kept.create (h : Kept cl ha n none) : Kept cl ha (n + 1) (some n) := by
  intro fd
  rw [h fd]
  by_cases heq : fd = n
  · simp [heq]
  · have hlt : fd < n + 1 ↔ fd < n := by omega
    simp [hlt, Ne.symm heq]

theorem Kept.close (h : Kept cl ha n (some fd)) (hfd : fd < n) : Kept (cl ++ [fd]) ha n none := by
  intro x
  by_cases heq : x = fd
  · subst heq
    have hx := h x
    simp only [ne_eq, not_true_eq_false, and_false, if_false] at hx
    rw [Pending.count_concat_self, if_pos ⟨hfd, nofun⟩]
    omega
  · rw [Pending.count_concat_of_ne (Ne.symm heq), h x]
    simp [Ne.symm heq]

theorem Kept.hand (h : Kept cl ha n (some fd)) (hfd : fd < n) : Kept cl (ha ++ [fd]) n none := by
  have hswap : Kept ha cl n (some fd) := fun x => (Nat.add_comm _ _).trans (h x)
  exact fun x => (Nat.add_comm _ _).trans (hswap.close hfd x)

/-- A socket that is closed as soon as it was made. -/
theorem Kept.create_close (h : Kept cl ha n o) (ho : ∀ fd, o = some fd → fd < n) :
    Kept (cl ++ [n]) ha (n + 1) o := by
  intro x
  by_cases heq : x = n
  · subst heq
    have hne : o ≠ some x := fun hx => Nat.lt_irrefl x (ho x hx)
    have hx := h x
    simp only [Nat.lt_irrefl, false_and, if_false] at hx
    rw [Pending.count_concat_self, if_pos ⟨Nat.lt_succ_self x, hne⟩]
    omega
  · have hlt : x < n + 1 ↔ x < n := by omega
    rw [Pending.count_concat_of_ne (Ne.symm heq), h x]
    simp only [hlt]

end Kept

variable {c : Connector} {sockfd : Nat}

theorem attempt_of_ne (h : c.state_ ≠ .kConnecting) : c.attempt = none := if_neg h

theorem Trying.attempt_eq (h : c.Trying sockfd) : c.attempt = some sockfd := by
  rcases h with ⟨hst, -, ch, hch, rfl, -⟩
  rw [attempt, if_pos hst, hch, Option.map_some]

/-- Between two attempts there is no channel, once its functor has run. -/
theorem Inv.idle (h : c.Inv) (hst : c.state_ ≠ .kConnecting) (hres : c.resets = 0) : c.Idle := by
  rcases h.phase with hidle | ⟨fd, htry, -⟩ | hleave
  · exact hidle
  · exact absurd htry.1 hst
  · rw [hleave.2.1] at hres
    cases hres

theorem Inv.trying (h : c.Inv) (hst : c.state_ = .kConnecting) :
    ∃ sockfd, c.Trying sockfd ∧ sockfd < c.created := by
  rcases h.phase with hidle | htry | hleave
  · exact absurd hst hidle.1
  · exact htry
  · exact absurd hst hleave.1

theorem Inv.attempt_lt (h : c.Inv) {fd : Nat} (hfd : c.attempt = some fd) : fd < c.created := by
  by_cases hst : c.state_ = .kConnecting
  · rcases h.trying hst with ⟨sockfd, htry, hlt⟩
    rw [htry.attempt_eq] at hfd
    cases hfd
    exact hlt
  · rw [attempt_of_ne hst] at hfd
    cases hfd

/-- Nothing that the invariant speaks of has changed. -/
theorem Inv.congr {c' : Connector} (h : c.Inv) (hstate : c'.state_ = c.state_)
    (hchannel : c'.channel_ = c.channel_) (hresets : c'.resets = c.resets)
    (hcreated : c'.created = c.created) (hclosed : c'.closed = c.closed)
    (hhanded : c'.handed = c.handed) (hfaults : c'.faults = c.faults) : c'.Inv where
  phase := by
    simp only [Idle, Trying, Leaving, hstate, hchannel, hresets, hcreated]
    exact h.phase
  sockets := by
    simp only [SocketsKept, attempt, hstate, hchannel, hcreated, hclosed, hhanded]
    exact h.sockets
  faults := hfaults.trans h.faults

/-! ## The end of an attempt -/

/-- The channel has been taken out of the loop, and the socket of the attempt is nobody's. -/
structure Parted (c : Connector) (sockfd : Nat) : Prop where
  resets : c.resets = 1
  channel : ∃ ch, c.channel_ = some ch ∧ ch.addedToLoop_ = false
  lt : sockfd < c.created
  sockets : Kept c.closed c.handed c.created (some sockfd)
  faults : c.faults = []

/-- `state_` plays no part in taking the channel out. -/
theorem Trying.parted (h : c.Trying sockfd) (hlt : sockfd < c.created) (hs : c.SocketsKept)
    (hf : c.faults = []) (s : States) :
    ∃ c', (c.setState s).removeAndResetChannel = (c', sockfd) ∧ c'.Parted sockfd := by
  have hatt := h.attempt_eq
  rcases h with ⟨hst, hres, ch, hch, rfl, hadded⟩
  refine ⟨{ c with
    state_ := s
    channel_ := some { ch with toChannel := { ch.disableAll with addedToLoop_ := false } }
    pendingFunctors_ := c.pendingFunctors_ ++ [.resetChannel] }, ?_, ?_⟩
  · simp [removeAndResetChannel, setState, hch, queueInLoop]
  rw [SocketsKept, hatt] at hs
  refine ⟨?_, ⟨_, rfl, rfl⟩, hlt, hs, hf⟩
  change (c.pendingFunctors_ ++ [ClientFunctor.resetChannel]).count .resetChannel = 1
  rw [Pending.count_concat_self, show c.pendingFunctors_.count .resetChannel = 0 from hres]

theorem Parted.inv (h : c.Parted sockfd) {closed handed : List Nat} {s : States}
    (hs : s ≠ .kConnecting) (hkept : Kept closed handed c.created none) (timers : List Nat)
    (delay : Nat) :
    ({ c with state_ := s, closed, handed, timers, retryDelayMs_ := delay } : Connector).Inv where
  phase := Or.inr (Or.inr ⟨hs, h.resets, h.channel⟩)
  sockets := by
    rw [SocketsKept, attempt_of_ne hs]
    exact hkept
  faults := h.faults

theorem Parted.retry (h : c.Parted sockfd) : (c.retry sockfd).Inv := by
  have hkept := h.sockets.close h.lt
  have hdis : States.kDisconnected ≠ .kConnecting := by decide
  unfold Connector.retry
  dsimp only
  split
  · exact h.inv hdis hkept _ _
  · exact h.inv hdis hkept _ _

theorem Inv.stopInLoop (h : c.Inv) : c.stopInLoop.Inv := by
  unfold Connector.stopInLoop
  split
  · rename_i hst
    rcases h.trying hst with ⟨fd, htry, hlt⟩
    rcases htry.parted hlt h.sockets h.faults .kDisconnected with ⟨c', hc', hparted⟩
    rw [hc']
    exact hparted.retry
  · exact h

theorem setState_self (h : c.state_ = .kConnecting) : c.setState .kConnecting = c := by
  rw [setState, ← h]

theorem Inv.handleError (h : c.Inv) : c.handleError.Inv := by
  unfold Connector.handleError
  split
  · rename_i hst
    rcases h.trying hst with ⟨fd, htry, hlt⟩
    rcases htry.parted hlt h.sockets h.faults .kConnecting with ⟨c', hc', hparted⟩
    rw [setState_self hst] at hc'
    rw [hc']
    exact hparted.retry
  · exact h

/-- `handleWrite` finds an attempt, or the disconnected state that `handleError` has left. -/
theorem Inv.handleWrite (h : c.Inv) (hst : c.state_ = .kConnecting ∨ c.state_ = .kDisconnected)
    (err self : Bool) : (c.handleWrite err self).1.Inv := by
  unfold Connector.handleWrite
  split
  · rename_i hst
    rcases h.trying hst with ⟨fd, htry, hlt⟩
    rcases htry.parted hlt h.sockets h.faults .kConnecting with ⟨c', hc', hparted⟩
    rw [setState_self hst] at hc'
    rw [hc']
    dsimp only
    split
    · exact hparted.retry
    · split
      · exact hparted.retry
      · have hne : States.kConnected ≠ .kConnecting := by decide
        split
        · exact hparted.inv hne (hparted.sockets.hand hparted.lt) _ _
        · exact hparted.inv hne (hparted.sockets.close hparted.lt) _ _
  · rename_i hne
    rw [if_pos (hst.resolve_left hne)]
    exact h

theorem retry_state (c : Connector) (sockfd : Nat) :
    (c.retry sockfd).state_ = .kDisconnected := by
  unfold Connector.retry
  dsimp only
  split <;> rfl

theorem handleError_state (h : c.state_ = .kConnecting) :
    c.handleError.state_ = .kDisconnected := by
  rw [handleError, if_pos h]
  exact retry_state _ _

/-- A socket is handed on when the attempt has succeeded and is still wanted. -/
theorem handleWrite_some {err self : Bool} {fd : Nat} (h : (c.handleWrite err self).2 = some fd) :
    c.state_ = .kConnecting ∧ err = false ∧ self = false ∧ c.connect_ = true := by
  have hconnect : c.removeAndResetChannel.1.connect_ = c.connect_ := by
    unfold removeAndResetChannel
    split <;> rfl
  unfold Connector.handleWrite at h
  by_cases hst : c.state_ = .kConnecting
  · cases err <;> cases self <;> simp only [hst, Bool.false_eq_true, if_false, if_true] at h
    · cases hc : c.connect_ with
      | true => exact ⟨hst, rfl, rfl, rfl⟩
      | false => simp [setState, hconnect, hc] at h
    all_goals cases h
  · rw [if_neg hst] at h
    cases h

/-- Only the channel of an attempt in progress is in the loop. -/
theorem Inv.connecting_of_added (h : c.Inv) (hc : c.channel_.any (·.addedToLoop_) = true) :
    c.state_ = .kConnecting := by
  rcases h.phase with hidle | ⟨fd, htry, -⟩ | ⟨-, -, ch, hch, hadded⟩
  · simp [hidle.2.1] at hc
  · exact htry.1
  · simp [hch, hadded] at hc

theorem Inv.resetChannel_functor (h : c.Inv) {i : Nat}
    (hi : c.pendingFunctors_[i]? = some .resetChannel) :
    ({ c with pendingFunctors_ := c.pendingFunctors_.eraseIdx i } : Connector).resetChannel.Inv := by
  have hcount : c.resets = (c.pendingFunctors_.eraseIdx i).count .resetChannel + 1 :=
    Pending.count_eraseIdx_self hi
  rcases h.phase with hidle | ⟨fd, htry, -⟩ | ⟨hst, hres, ch, hch, hadded⟩
  · rw [hidle.2.2] at hcount
    cases hcount
  · rw [htry.2.1] at hcount
    cases hcount
  · have hzero : (c.pendingFunctors_.eraseIdx i).count ClientFunctor.resetChannel = 0 := by omega
    have hkept := h.sockets
    rw [SocketsKept, attempt_of_ne hst] at hkept
    simp only [resetChannel, destroyChannel, hch, hadded, Bool.false_eq_true, if_false]
    refine ⟨Or.inl ⟨hst, rfl, hzero⟩, ?_, h.faults⟩
    unfold SocketsKept
    rw [attempt_of_ne (by exact hst)]
    exact hkept

/-! ## The start of an attempt -/

end Connector

namespace ConnectErrno

/-- The answers after which `connect` goes on to `connecting`. -/
def proceeds : ConnectErrno → Bool
  | success | EINPROGRESS | EINTR | EISCONN => true
  | _ => false

/-- The answers after which `connect` retries. -/
def retries : ConnectErrno → Bool
  | EAGAIN | EADDRINUSE | EADDRNOTAVAIL | ECONNREFUSED | ENETUNREACH => true
  | _ => false

end ConnectErrno

namespace Connector

variable {c : Connector} {e : ConnectErrno}

theorem connect_of_proceeds (h : e.proceeds = true) :
    c.connect e = { c with created := c.created + 1 }.connecting c.created := by
  cases e <;> first | rfl | cases h

theorem connect_of_retries (h : e.retries = true) :
    c.connect e = { c with created := c.created + 1 }.retry c.created := by
  cases e <;> first | rfl | cases h

theorem connect_of_fails (hp : e.proceeds = false) (hr : e.retries = false) :
    c.connect e = { c with created := c.created + 1 }.close c.created := by
  cases e <;> first | rfl | exact absurd hp (by decide) | exact absurd hr (by decide)

/-- An attempt begins when none is in progress and the channel of the last one has been destroyed;
one that fails at once does not come in the middle of another. -/
def Ready (c : Connector) (e : ConnectErrno) : Prop :=
  (e.proceeds = true → c.state_ ≠ .kConnecting ∧
    ClientFunctor.resetChannel ∉ c.pendingFunctors_) ∧
  (e.retries = true → c.state_ ≠ .kConnecting)

instance (c : Connector) (e : ConnectErrno) : Decidable (c.Ready e) :=
  inferInstanceAs (Decidable (_ ∧ _))

theorem Inv.connect (h : c.Inv) (hready : c.Ready e) : (c.connect e).Inv := by
  cases hp : e.proceeds with
  | true =>
      -- the guard leaves only the idle phase, and there `channel_` is null
      rcases hready.1 hp with ⟨hst, hres⟩
      have hidle := h.idle hst (List.count_eq_zero_of_not_mem hres)
      rw [connect_of_proceeds hp]
      simp only [connecting, setState, hidle.2.1, Option.isNone_none, if_true, destroyChannel]
      have hkept := h.sockets
      rw [SocketsKept, attempt_of_ne hst] at hkept
      refine ⟨Or.inr (Or.inl ⟨c.created, ⟨rfl, hidle.2.2, _, rfl, rfl, rfl⟩, Nat.lt_succ_self _⟩),
        ?_, h.faults⟩
      exact hkept.create
  | false =>
      cases hr : e.retries with
      | true =>
          -- `retry` closes the socket at once, so the books balance without an attempt
          have hst := hready.2 hr
          have hkept := h.sockets
          rw [SocketsKept, attempt_of_ne hst] at hkept
          have hclosed := hkept.create_close (by simp)
          have hphase : c.Idle ∨ c.Leaving := by
            rcases h.phase with hidle | ⟨fd, htry, -⟩ | hleave
            · exact Or.inl hidle
            · exact absurd htry.1 hst
            · exact Or.inr hleave
          have hdis : States.kDisconnected ≠ .kConnecting := by decide
          rw [connect_of_retries hr]
          unfold Connector.retry
          dsimp only
          split
          all_goals
            refine ⟨?_, ?_, h.faults⟩
            · exact hphase.elim (fun hi => Or.inl ⟨hdis, hi.2⟩)
                (fun hl => Or.inr (Or.inr ⟨hdis, hl.2⟩))
            · rw [SocketsKept, attempt_of_ne hdis]
              exact hclosed
      | false =>
          rw [connect_of_fails hp hr]
          refine ⟨?_, h.sockets.create_close fun fd => h.attempt_lt, h.faults⟩
          rcases h.phase with hidle | ⟨fd, htry, hlt⟩ | hleave
          · exact Or.inl hidle
          · exact Or.inr (Or.inl ⟨fd, htry, Nat.lt_succ_of_lt hlt⟩)
          · exact Or.inr (Or.inr hleave)

theorem Inv.startInLoop (h : c.Inv) (hready : c.connect_ = true → c.Ready e) :
    (c.startInLoop e).Inv := by
  unfold Connector.startInLoop
  split
  · rename_i hc
    exact h.connect (hready hc)
  · exact h

theorem Inv.start (h : c.Inv) (hready : c.Ready e) : (c.start e).Inv :=
  Inv.startInLoop (h.congr rfl rfl rfl rfl rfl rfl rfl) fun _ => hready

/-- `restart` forgets the state, so it must not meet an attempt, whatever comes of the new one. -/
theorem Inv.restart (h : c.Inv) (hst : c.state_ ≠ .kConnecting) (hready : c.Ready e) :
    (c.restart e).Inv := by
  have hdis : States.kDisconnected ≠ .kConnecting := by decide
  refine Inv.startInLoop ⟨?_, ?_, h.faults⟩ fun _ => ⟨fun hp => ⟨hdis, (hready.1 hp).2⟩, fun _ => hdis⟩
  · rcases h.phase with hidle | ⟨fd, htry, -⟩ | hleave
    · exact Or.inl ⟨hdis, hidle.2⟩
    · exact absurd htry.1 hst
    · exact Or.inr (Or.inr ⟨hdis, hleave.2⟩)
  · have hkept := h.sockets
    rw [SocketsKept, attempt_of_ne hst] at hkept
    rw [SocketsKept, attempt_of_ne hdis]
    exact hkept

theorem Inv.queueInLoop (h : c.Inv) {f : ClientFunctor} (hf : f ≠ .resetChannel) :
    (c.queueInLoop f).Inv :=
  h.congr rfl rfl (Pending.count_concat_of_ne hf) rfl rfl rfl rfl

theorem Inv.stop (h : c.Inv) : c.stop.Inv := by
  have hoff : ({ c with connect_ := false } : Connector).Inv := h.congr rfl rfl rfl rfl rfl rfl rfl
  exact hoff.queueInLoop (by decide)

end Connector
end Net
end Longky
