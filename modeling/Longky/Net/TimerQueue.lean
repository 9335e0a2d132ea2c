import Mathlib.Data.Prod.Lex
import Longky.Lib.OrderedSet
import Longky.Lib.Reach

/-!
# TimerQueue — timers, their two sets and their objects

`netLayer/timer/TimerQueue.cpp`, `Timer.{h,cpp}`, `TimerId.h` and `base/time/Timestamp.h`.

`Timer` objects live in a heap and are named by their address, which `new` may use again after
`delete`.  A function returns `none` where an assertion fails or an object is used that is not
alive.  `handleRead` calls back into user code between two timers, so it is cut there into steps.

Intervals are `double` seconds in the source; `Seconds` is what the queue needs of them.
-/

namespace Longky
namespace Net

open Lib OrderedSet

/-- Microseconds since the epoch. -/
abbrev Timestamp := Int

/-- `Timestamp::valid`. -/
def Timestamp.valid (t : Timestamp) : Bool := decide (0 < t)

/-- Intervals in seconds: the test `interval > 0.0` and `addTime`. -/
class Seconds (S : Type) where
  positive : S → Bool
  addTime : Timestamp → S → Timestamp

/-- The value of a `Timer*`. -/
abbrev Address := Nat

def UINTPTR_MAX : Address := 2 ^ 64 - 1

structure Timer (S : Type) where
  expiration_ : Timestamp
  interval_ : S
  repeat_ : Bool
  sequence_ : Nat

namespace Timer

variable {S : Type} [Seconds S]

/-- `Timer::Timer`, as the `numCreated`-th object. -/
def construct (when : Timestamp) (interval : S) (numCreated : Nat) : Timer S where
  expiration_ := when
  interval_ := interval
  repeat_ := Seconds.positive interval
  sequence_ := numCreated

def restart (t : Timer S) (now : Timestamp) : Timer S :=
  if t.repeat_ then { t with expiration_ := Seconds.addTime now t.interval_ }
  else { t with expiration_ := 0 }

end Timer

/-- `typedef std::pair<Timestamp, Timer*> Entry`, ordered as pairs are. -/
structure Entry where
  when : Timestamp
  timer : Address
  deriving DecidableEq, Repr

namespace Entry

def toPair (e : Entry) : Timestamp ×ₗ Address := toLex (e.when, e.timer)

theorem toPair_injective : Function.Injective toPair := by
  rintro ⟨w₁, t₁⟩ ⟨w₂, t₂⟩ h
  have hpair : (w₁, t₁) = (w₂, t₂) := toLex.injective h
  cases hpair
  rfl

instance : LinearOrder Entry :=
  LinearOrder.lift' toPair toPair_injective

theorem lt_iff {e f : Entry} : e < f ↔ e.when < f.when ∨ e.when = f.when ∧ e.timer < f.timer :=
  Prod.Lex.toLex_lt_toLex

theorem le_iff {e f : Entry} : e ≤ f ↔ e.when < f.when ∨ e.when = f.when ∧ e.timer ≤ f.timer :=
  Prod.Lex.toLex_le_toLex

end Entry

/-- `Entry(timer->expiration(), timer)`. -/
def Timer.entry {S : Type} (t : Timer S) (a : Address) : Entry := ⟨t.expiration_, a⟩

/-- `typedef std::pair<Timer*, int64_t> ActiveTimer`, which is also what a `TimerId` holds. -/
abbrev ActiveTimer := Address × Nat

/-- What `timerfd_settime` has been told; the interval is the same as the value. -/
structure Itimerspec where
  armedAt : Timestamp
  it_value : Int
  deriving DecidableEq, Repr

/-- `howMuchTimeFromNow`, in microseconds. -/
def howMuchTimeFromNow (when clock : Timestamp) : Int :=
  let microseconds := when - clock
  if microseconds < 100 then 100 else microseconds

/-- `assert(p)`. -/
def check (p : Prop) [Decidable p] : Option Unit :=
  if p then some () else none

@[simp] theorem check_eq_some {p : Prop} [Decidable p] : check p = some () ↔ p := by
  simp [check]

theorem check_of {p : Prop} [Decidable p] (h : p) : check p = some () := check_eq_some.2 h

/-- The members of `class TimerQueue` that change, with the heap, the queued `addTimerInLoop`
functors and the locals of `handleRead` between two callbacks. -/
structure TimerQueue (S : Type) where
  timers_ : Finset Entry := ∅
  activeTimers_ : Finset ActiveTimer := ∅
  callingExpiredTimers_ : Bool := false
  cancelingTimers_ : Finset ActiveTimer := ∅
  timerfd_ : Option Itimerspec := none
  heap : Address → Option (Timer S) := fun _ => none
  /-- `Timer::s_numCreated_`. -/
  numCreated : Nat := 0
  /-- Timers whose `addTimerInLoop` has been handed to `runInLoop` and has not run. -/
  toAdd : List Address := []
  /-- `handleRead`'s `expired`, as far as `reset` has not dealt with it. -/
  expired : List Entry := []
  /-- The part of `expired` whose callbacks are still to run. -/
  toRun : List Entry := []
  now : Timestamp := 0
  /-- The callbacks that have run: the timer's sequence number and whether it repeats. -/
  ran : List (Nat × Bool) := []
  /-- The sequence numbers of the deleted objects. -/
  freed : List Nat := []

namespace TimerQueue

variable {S : Type} [Seconds S]

/-! ## Objects -/

/-- `new Timer` in `addTimer`, at a free address. -/
def newTimer (q : TimerQueue S) (a : Address) (when : Timestamp) (interval : S) : TimerQueue S :=
  { q with
    heap := Function.update q.heap a (some (.construct when interval (q.numCreated + 1)))
    numCreated := q.numCreated + 1
    toAdd := q.toAdd ++ [a] }

/-- The heap without the object `t` at `a`. -/
def deleted (q : TimerQueue S) (a : Address) (t : Timer S) : TimerQueue S :=
  { q with heap := Function.update q.heap a none, freed := q.freed ++ [t.sequence_] }

/-- `delete timer`. -/
def delete (q : TimerQueue S) (a : Address) : Option (TimerQueue S) := do
  let t ← q.heap a
  return q.deleted a t

/-! ## Adding and cancelling -/

/-- `timers_.size() == activeTimers_.size()`. -/
def SizesAgree (q : TimerQueue S) : Prop := q.timers_.card = q.activeTimers_.card

instance (q : TimerQueue S) : Decidable q.SizesAgree := inferInstanceAs (Decidable (_ = _))

def resetTimerfd (q : TimerQueue S) (expiration clock : Timestamp) : TimerQueue S :=
  { q with timerfd_ := some ⟨clock, howMuchTimeFromNow expiration clock⟩ }

/-- `it == timers_.end() || when < it->first` for `it = timers_.begin()`. -/
def earliestChanged (q : TimerQueue S) (when : Timestamp) : Bool :=
  match first? q.timers_ with
  | none => true
  | some e => decide (when < e.when)

/-- The timer `t` at `a` in both sets. -/
def inserted (q : TimerQueue S) (a : Address) (t : Timer S) : TimerQueue S :=
  { q with
    timers_ := Insert.insert (t.entry a) q.timers_
    activeTimers_ := Insert.insert (a, t.sequence_) q.activeTimers_ }

def insert (q : TimerQueue S) (a : Address) : Option (Bool × TimerQueue S) := do
  check q.SizesAgree
  let t ← q.heap a
  -- `assert(result.second)` for each of the two sets
  check (t.entry a ∉ q.timers_)
  check ((a, t.sequence_) ∉ q.activeTimers_)
  check (q.inserted a t).SizesAgree
  return (q.earliestChanged t.expiration_, q.inserted a t)

/-- `addTimerInLoop`, taken out of the functors. -/
def addTimerInLoop (q : TimerQueue S) (a : Address) (clock : Timestamp) :
    Option (TimerQueue S) := do
  let (changed, q') ← { q with toAdd := q.toAdd.erase a }.insert a
  let t ← q'.heap a
  return if changed then q'.resetTimerfd t.expiration_ clock else q'

/-- The branch of `cancelInLoop` for a timer that is in `activeTimers_`. -/
def cancelActive (q : TimerQueue S) (id : ActiveTimer) : Option (TimerQueue S) := do
  let t ← q.heap id.1
  check (t.entry id.1 ∈ q.timers_)
  -- the object is deleted between the two erasures, so `id` is not looked up again
  let q' ← { q with timers_ := q.timers_.erase (t.entry id.1) }.delete id.1
  return { q' with activeTimers_ := q'.activeTimers_.erase id }

/-- The branch for any other timer: it is remembered while callbacks run. -/
def cancelExpired (q : TimerQueue S) (id : ActiveTimer) : TimerQueue S :=
  if q.callingExpiredTimers_ then
    { q with cancelingTimers_ := Insert.insert id q.cancelingTimers_ }
  else q

def cancelInLoop (q : TimerQueue S) (id : ActiveTimer) : Option (TimerQueue S) := do
  check q.SizesAgree
  let q' ← if id ∈ q.activeTimers_ then q.cancelActive id else some (q.cancelExpired id)
  check q'.SizesAgree
  return q'

/-! ## Expiring -/

/-- The loop of `getExpired` over the expired entries. -/
def eraseActive (q : TimerQueue S) : List Entry → Option (TimerQueue S)
  | [] => some q
  | e :: es => do
      let t ← q.heap e.timer
      check ((e.timer, t.sequence_) ∈ q.activeTimers_)
      { q with activeTimers_ := q.activeTimers_.erase (e.timer, t.sequence_) }.eraseActive es

/-- `getExpired`; the vector it returns is left in `expired`. -/
def getExpired (q : TimerQueue S) (now : Timestamp) : Option (TimerQueue S) := do
  check q.SizesAgree
  -- no timer lives at the last address, so the sentry is above every entry due at `now`
  let sentry : Entry := ⟨now, UINTPTR_MAX⟩
  let expired := below q.timers_ sentry
  let rest := atLeast q.timers_ sentry
  check (∀ e ∈ first? rest, now < e.when)
  let q' ← { q with timers_ := rest, expired := expired }.eraseActive expired
  check q'.SizesAgree
  return q'

/-- `handleRead` up to its first callback. -/
def handleRead (q : TimerQueue S) (now : Timestamp) : Option (TimerQueue S) := do
  let q' ← q.getExpired now
  return { q' with
    now := now
    toRun := q'.expired
    callingExpiredTimers_ := true
    cancelingTimers_ := ∅ }

/-- `it.second->run()` for the next entry of the loop. -/
def runNext (q : TimerQueue S) : Option (TimerQueue S) :=
  match q.toRun with
  | [] => some q
  | e :: es => do
      -- a callback that had deleted a timer of the batch would fail here
      let t ← q.heap e.timer
      return { q with toRun := es, ran := q.ran ++ [(t.sequence_, t.repeat_)] }

/-- The body of `reset`'s loop. -/
def resetOne (q : TimerQueue S) (e : Entry) : Option (TimerQueue S) := do
  let t ← q.heap e.timer
  if t.repeat_ ∧ (e.timer, t.sequence_) ∉ q.cancelingTimers_ then
    -- `restart` changes the expiration, so the entry that goes back in is a new one
    let q' := { q with heap := Function.update q.heap e.timer (some (t.restart q.now)) }
    let (_, q'') ← q'.insert e.timer
    return q''
  -- one-shot timers, and repeating ones cancelled while the callbacks ran
  else q.delete e.timer

/-- `reset`'s loop over the batch. -/
def resetAll (q : TimerQueue S) : List Entry → Option (TimerQueue S)
  | [] => some q
  | e :: es => do
      let q' ← { q with expired := es }.resetOne e
      q'.resetAll es

/-- The end of `reset`: arm the descriptor for the earliest timer. -/
def rearm (q : TimerQueue S) (clock : Timestamp) : Option (TimerQueue S) :=
  match first? q.timers_ with
  | none => some q
  | some e => do
      let t ← q.heap e.timer
      return if t.expiration_.valid then q.resetTimerfd t.expiration_ clock else q

/-- `handleRead` after its last callback. -/
def finish (q : TimerQueue S) (clock : Timestamp) : Option (TimerQueue S) := do
  let q' ← { q with callingExpiredTimers_ := false }.resetAll q.expired
  q'.rearm clock

/-! ## Runs -/

end TimerQueue

inductive TimerAction (S : Type) where
  | newTimer (a : Address) (when : Timestamp) (interval : S)
  | addTimerInLoop (a : Address) (clock : Timestamp)
  | cancelInLoop (id : ActiveTimer)
  | handleRead (now : Timestamp)
  | runNext
  | finish (clock : Timestamp)

namespace TimerQueue

variable {S : Type} [Seconds S]

/-- When an action can happen.  Adding and cancelling are also what callbacks do, so they may come
at any time. -/
def enabled (q : TimerQueue S) : TimerAction S → Bool
  | .newTimer a _ _ => (q.heap a).isNone && decide (a < UINTPTR_MAX)
  | .addTimerInLoop a _ => decide (a ∈ q.toAdd)
  | .cancelInLoop _ => true
  | .handleRead _ => !q.callingExpiredTimers_
  | .runNext => q.callingExpiredTimers_ && !q.toRun.isEmpty
  | .finish _ => q.callingExpiredTimers_ && q.toRun.isEmpty

def perform (q : TimerQueue S) : TimerAction S → Option (TimerQueue S)
  | .newTimer a when interval => some (q.newTimer a when interval)
  | .addTimerInLoop a clock => q.addTimerInLoop a clock
  | .cancelInLoop id => q.cancelInLoop id
  | .handleRead now => q.handleRead now
  | .runNext => q.runNext
  | .finish clock => q.finish clock

def runs (S : Type) [Seconds S] : System (TimerQueue S) (TimerAction S) where
  init q := q = {}
  step q a q' := q.enabled a = true ∧ q.perform a = some q'

end TimerQueue
end Net
end Longky
