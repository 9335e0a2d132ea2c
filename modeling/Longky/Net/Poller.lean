import Mathlib.Logic.Function.Basic
import Longky.Net.TcpConnection

/-!
# Poller — channels with their place in a poller

`netLayer/event/Channel.{h,cpp}` and `netLayer/poller/Poller.{h,cpp}`: what the two pollers have in
common.  A poller serves the channels of one loop.  It keeps a map from descriptors to channels and
uses the member `index_` of each channel for itself.
-/

namespace Longky
namespace Net

/-- How a poller operation ends the process. -/
inductive PollerFailure where
  | assertion
  /-- A null pointer out of `channels_[fd]`. -/
  | nullPointer
  /-- `LOG_SYSFATAL` after `epoll_ctl`. -/
  | sysFatal
  deriving DecidableEq, Repr

/-- `assert(p)`. -/
def assertion (p : Prop) [Decidable p] : Except PollerFailure Unit :=
  if p then .ok () else .error .assertion

theorem assertion_of {p : Prop} [Decidable p] (h : p) : assertion p = .ok () := if_pos h

theorem assertion_of_not {p : Prop} [Decidable p] (h : ¬ p) : assertion p = .error .assertion :=
  if_neg h

/-- What may run behind an assertion fails as the assertion does. -/
theorem assertion_bind_error {p : Prop} [Decidable p] {α : Type}
    {k : Unit → Except PollerFailure α} (h : p → k () = .error .assertion) :
    (assertion p >>= k) = .error .assertion := by
  by_cases hp : p
  · rw [assertion_of hp]
    exact h hp
  · rw [assertion_of_not hp]
    rfl

/-- What runs behind an assertion has found it true. -/
theorem assertion_bind_eq_ok {p : Prop} [Decidable p] {α : Type}
    {f : Unit → Except PollerFailure α} {x : α} :
    (assertion p >>= f) = .ok x ↔ p ∧ f () = .ok x := by
  by_cases h : p
  · rw [assertion_of h]
    exact (and_iff_right h).symm
  · rw [assertion_of_not h]
    exact iff_of_false nofun fun hx => h hx.1

/-! ## Channels -/

structure PolledChannel extends Channel where
  index_ : Int := -1
  deriving DecidableEq, Repr

/-- `events_`, as it is handed to the kernel: for reading, for writing. -/
abbrev EventMask := Bool × Bool

namespace Channel

def events_ (c : Channel) : EventMask := (c.readEvent, c.writeEvent)

end Channel

/-- The member functions that change `events_` and call `update()`. -/
inductive UpdateOp where
  | enableReading
  | disableReading
  | enableWriting
  | disableWriting
  | disableAll
  deriving DecidableEq, Repr

def UpdateOp.apply (c : Channel) : UpdateOp → Channel
  | .enableReading => c.enableReading
  | .disableReading => c.disableReading
  | .enableWriting => c.enableWriting
  | .disableWriting => c.disableWriting
  | .disableAll => c.disableAll

inductive ChannelOp where
  | update (op : UpdateOp)
  | remove
  deriving DecidableEq, Repr

def ChannelOp.apply (c : Channel) : ChannelOp → Channel
  | .update op => op.apply c
  | .remove => { c with addedToLoop_ := false }

/-- The channels of a loop, and the map of its poller. -/
structure Poller (C : Type) where
  channel : C → PolledChannel := fun _ => {}
  channels_ : Nat → Option C := fun _ => none

namespace Poller

variable {C : Type} [DecidableEq C]

def setChannel (s : Poller C) (c : C) (ch : PolledChannel) : Poller C :=
  { s with channel := Function.update s.channel c ch }

def set_index (s : Poller C) (c : C) (index : Int) : Poller C :=
  s.setChannel c { s.channel c with index_ := index }

/-- `events_` after one of its member functions, with the call of `update()` still to come. -/
def applyOp (s : Poller C) (c : C) (op : UpdateOp) : Poller C :=
  s.setChannel c { s.channel c with toChannel := op.apply (s.channel c).toChannel }

/-- `Channel::remove` up to the call of the poller. -/
def detach (s : Poller C) (c : C) : Poller C :=
  s.setChannel c { s.channel c with addedToLoop_ := false }

def insert (s : Poller C) (fd : Nat) (c : C) : Poller C :=
  { s with channels_ := Function.update s.channels_ fd (some c) }

def erase (s : Poller C) (fd : Nat) : Poller C :=
  { s with channels_ := Function.update s.channels_ fd none }

end Poller
end Net
end Longky
