import Mathlib.Algebra.BigOperators.Group.Finset.Basic
import Mathlib.Algebra.Order.BigOperators.Group.Finset
import Longky.Lib.Reach

/-!
# CountDownLatch — a mutex, a condition and a count, instruction by instruction

`base/thread/Mutex.h`, `base/thread/Condition.h` and `base/thread/CountDownLatch.cpp`.

A thread in a member of the latch is at one of the instructions below, and the threads take turns
after every one of them.  `pthread_mutex_lock` waits for the mutex to be free; `pthread_cond_wait`
gives it up and sleeps in one step, and takes it again when it has been woken, by `notifyAll` or for
no reason at all.  `count_` is an `int`; the calls of `countDown` are few enough not to take it below
`-2^31`.
-/

namespace Longky
namespace Base

open Lib

/-- The id of each thread, `CurrentThread::tid()`. -/
structure ThreadIds (T : Type) where
  tid : T → Int
  pos : ∀ t, 0 < tid t
  injective : Function.Injective tid

inductive LatchCall where
  | wait
  | countDown
  | getCount
  deriving DecidableEq, Repr

/-- A call that has returned. -/
inductive LatchReturn where
  | wait
  | countDown
  | getCount (count : Int)
  deriving DecidableEq, Repr

def LatchReturn.call : LatchReturn → LatchCall
  | .wait => .wait
  | .countDown => .countDown
  | .getCount _ => .getCount

/-- The next instruction of a thread. -/
inductive LatchPc where
  | outside
  /-- `pthread_mutex_lock`. -/
  | lock (call : LatchCall)
  /-- `assignHolder` of `MutexLock::lock`. -/
  | assignHolder (call : LatchCall)
  /-- `while (count_ > 0)`. -/
  | whileCount
  /-- The constructor of `UnassignGuard`. -/
  | unassignGuard
  /-- `pthread_cond_wait`. -/
  | condWait
  /-- Asleep in it. -/
  | blocked
  /-- Woken, and waiting for the mutex. -/
  | woken
  /-- The destructor of `UnassignGuard`. -/
  | assignGuard
  /-- `--count_`. -/
  | decrement
  /-- `if (count_ == 0)`. -/
  | ifZero
  /-- `pthread_cond_broadcast`. -/
  | notifyAll
  /-- `return count_`. -/
  | read
  /-- `unassignHolder` of `MutexLock::unlock`. -/
  | unassignHolder (r : LatchReturn)
  /-- `pthread_mutex_unlock`. -/
  | unlock (r : LatchReturn)
  deriving DecidableEq, Repr

namespace LatchPc

/-- Behind `MutexLockGuard lock(mutex_)`. -/
def body : LatchCall → LatchPc
  | .wait => .whileCount
  | .countDown => .decrement
  | .getCount => .read

/-- The call that a thread is in. -/
def inCall : LatchPc → Option LatchCall
  | .outside => none
  | .lock call | .assignHolder call => some call
  | .whileCount | .unassignGuard | .condWait | .blocked | .woken | .assignGuard => some .wait
  | .decrement | .ifZero | .notifyAll => some .countDown
  | .read => some .getCount
  | .unassignHolder r | .unlock r => some r.call

/-- The thread has the mutex. -/
def holds : LatchPc → Bool
  | .outside | .lock _ | .blocked | .woken => false
  | .assignHolder _ | .whileCount | .unassignGuard | .condWait | .assignGuard | .decrement
  | .ifZero | .notifyAll | .read | .unassignHolder _ | .unlock _ => true

/-- `holder_` has the thread's id. -/
def assigned : LatchPc → Bool
  | .whileCount | .unassignGuard | .decrement | .ifZero | .notifyAll | .read
  | .unassignHolder _ => true
  | .outside | .lock _ | .assignHolder _ | .condWait | .blocked | .woken | .assignGuard
  | .unlock _ => false

/-- 1 where the thread has counted down and is still inside. -/
def debt : LatchPc → Int
  | .ifZero | .notifyAll | .unassignHolder .countDown | .unlock .countDown => 1
  | _ => 0

/-- What a thread with the mutex knows of `count_`. -/
def Knows (count : Int) : LatchPc → Prop
  | .unassignGuard | .condWait => 0 < count
  | .notifyAll => count = 0
  | .unassignHolder .wait | .unlock .wait => count ≤ 0
  | .unassignHolder (.getCount n) | .unlock (.getCount n) => n = count
  | _ => True

theorem holds_body (call : LatchCall) : (body call).holds = true := by
  cases call <;> rfl

theorem assigned_body (call : LatchCall) : (body call).assigned = true := by
  cases call <;> rfl

theorem inCall_body (call : LatchCall) : (body call).inCall = some call := by
  cases call <;> rfl

theorem inCall_eq_none {pc : LatchPc} : pc.inCall = none ↔ pc = .outside := by
  cases pc <;> simp [inCall]

theorem holds_of_assigned {pc : LatchPc} (h : pc.assigned = true) : pc.holds = true := by
  cases pc with
  | outside | lock | blocked | woken => cases h
  | _ => rfl

theorem debt_body (call : LatchCall) : (body call).debt = 0 := by
  cases call <;> rfl

theorem debt_nonneg (pc : LatchPc) : 0 ≤ pc.debt := by
  cases pc with
  | unassignHolder r | unlock r => cases r <;> simp [debt]
  | _ => simp [debt]

theorem knows_body (count : Int) (call : LatchCall) : (body call).Knows count := by
  cases call <;> trivial

end LatchPc

structure CountDownLatch (T : Type) where
  /-- The thread that has locked the `pthread_mutex_t`. -/
  mutex_ : Option T := none
  holder_ : Int := 0
  count_ : Int
  pc : T → LatchPc := fun _ => .outside
  /-- The calls that have returned, in the order in which they have unlocked the mutex. -/
  returned : List (T × LatchReturn) := []

inductive LatchAction (T : Type) where
  | call (t : T) (call : LatchCall)
  /-- The thread's next instruction. -/
  | instruction (t : T)
  /-- A wake-up without a notification. -/
  | wakeUp (t : T)
  deriving DecidableEq, Repr

def LatchAction.isCall {T : Type} : LatchAction T → Bool
  | .call _ _ => true
  | .instruction _ | .wakeUp _ => false

namespace CountDownLatch

variable {T : Type} [DecidableEq T]

def setPc (s : CountDownLatch T) (t : T) (pc : LatchPc) : CountDownLatch T :=
  { s with pc := Function.update s.pc t pc }

/-- `pthread_cond_broadcast`. -/
def broadcast (s : CountDownLatch T) : CountDownLatch T :=
  { s with pc := fun t => if s.pc t = .blocked then .woken else s.pc t }

variable (ids : ThreadIds T)

/-- The next instruction of a thread, if it does not wait. -/
def instruction (s : CountDownLatch T) (t : T) : Option (CountDownLatch T) :=
  match s.pc t with
  | .outside => none
  | .lock call =>
      if s.mutex_ = none then some ({ s with mutex_ := some t }.setPc t (.assignHolder call))
      else none
  | .assignHolder call => some ({ s with holder_ := ids.tid t }.setPc t (.body call))
  | .whileCount =>
      some (s.setPc t (if 0 < s.count_ then .unassignGuard else .unassignHolder .wait))
  | .unassignGuard => some ({ s with holder_ := 0 }.setPc t .condWait)
  | .condWait => some ({ s with mutex_ := none }.setPc t .blocked)
  | .blocked => none
  | .woken =>
      if s.mutex_ = none then some ({ s with mutex_ := some t }.setPc t .assignGuard) else none
  | .assignGuard => some ({ s with holder_ := ids.tid t }.setPc t .whileCount)
  | .decrement => some ({ s with count_ := s.count_ - 1 }.setPc t .ifZero)
  | .ifZero =>
      some (s.setPc t (if s.count_ = 0 then .notifyAll else .unassignHolder .countDown))
  | .notifyAll => some (s.broadcast.setPc t (.unassignHolder .countDown))
  | .read => some (s.setPc t (.unassignHolder (.getCount s.count_)))
  | .unassignHolder r => some ({ s with holder_ := 0 }.setPc t (.unlock r))
  | .unlock r =>
      some ({ s with mutex_ := none, returned := s.returned ++ [(t, r)] }.setPc t .outside)

def next (s : CountDownLatch T) : LatchAction T → Option (CountDownLatch T)
  | .call t call => if s.pc t = .outside then some (s.setPc t (.lock call)) else none
  | .instruction t => s.instruction ids t
  | .wakeUp t => if s.pc t = .blocked then some (s.setPc t .woken) else none

/-- All interleavings of the calls on a latch that begins with `count`. -/
def runs (count : Int) : System (CountDownLatch T) (LatchAction T) where
  init s := s = { count_ := count }
  step s a s' := s.next ids a = some s'

/-- `MutexLock::isLockedByThisThread`. -/
def isLockedByThisThread (s : CountDownLatch T) (t : T) : Bool := s.holder_ = ids.tid t

/-! ## The latch without its instructions -/

/-- A call of a latch that does one call after the other: `wait` returns when the count is down. -/
def atomic (count : Int) : T × LatchReturn → Option Int
  | (_, .wait) => if count ≤ 0 then some count else none
  | (_, .countDown) => some (count - 1)
  | (_, .getCount n) => if n = count then some count else none

/-- The count without the calls that are still inside. -/
def committed (s : CountDownLatch T) : Int :=
  s.count_ + s.mutex_.elim 0 fun t => (s.pc t).debt

/-! ## The invariant -/

structure Inv (count : Int) (s : CountDownLatch T) : Prop where
  owner : ∀ t, (s.pc t).holds = true ↔ s.mutex_ = some t
  holder : s.holder_ = s.mutex_.elim 0 fun t => if (s.pc t).assigned then ids.tid t else 0
  knows : ∀ t, (s.pc t).Knows s.count_
  /-- Where nothing is left to count, the thread with the mutex has the sleepers still to wake. -/
  sleepers : ∀ t, s.pc t = .blocked → 0 < s.count_ ∨
    ∃ u, s.mutex_ = some u ∧ (s.pc u = .notifyAll ∨ s.pc u = .ifZero ∧ s.count_ = 0)
  history : System.runAll atomic count s.returned = some s.committed

variable {ids} {count : Int} {s s' : CountDownLatch T} {t : T}

@[simp] theorem setPc_mutex (s : CountDownLatch T) (t : T) (pc : LatchPc) :
    (s.setPc t pc).mutex_ = s.mutex_ := rfl

@[simp] theorem setPc_holder (s : CountDownLatch T) (t : T) (pc : LatchPc) :
    (s.setPc t pc).holder_ = s.holder_ := rfl

@[simp] theorem setPc_count (s : CountDownLatch T) (t : T) (pc : LatchPc) :
    (s.setPc t pc).count_ = s.count_ := rfl

@[simp] theorem setPc_returned (s : CountDownLatch T) (t : T) (pc : LatchPc) :
    (s.setPc t pc).returned = s.returned := rfl

@[simp] theorem setPc_self (s : CountDownLatch T) (t : T) (pc : LatchPc) :
    (s.setPc t pc).pc t = pc := Function.update_self ..

@[simp] theorem setPc_of_ne {u : T} (hu : u ≠ t) (s : CountDownLatch T) (pc : LatchPc) :
    (s.setPc t pc).pc u = s.pc u := Function.update_of_ne hu ..

omit [DecidableEq T] in
/-- Only the thread with the mutex knows anything. -/
theorem knows_of_not_holds {pc : LatchPc} (hpc : pc.holds = false) (n : Int) : pc.Knows n := by
  cases pc with
  | outside | lock | blocked | woken => trivial
  | _ => cases hpc

omit [DecidableEq T] in
theorem Inv.not_holds (h : s.Inv ids count) {u : T} (hu : s.mutex_ ≠ some u) :
    (s.pc u).holds = false := by
  cases hpc : (s.pc u).holds with
  | false => rfl
  | true => exact absurd ((h.owner u).1 hpc) hu

omit [DecidableEq T] in
theorem Inv.owns (h : s.Inv ids count) {pc : LatchPc} (hpc : s.pc t = pc)
    (hholds : pc.holds = true) : s.mutex_ = some t :=
  (h.owner t).1 (hpc.symm ▸ hholds)

/-- The thread with the mutex goes on with it. -/
theorem Inv.inside (h : s.Inv ids count) (hown : s.mutex_ = some t) {pc : LatchPc} {k n : Int}
    (hpc : pc.holds = true) (hk : k = if pc.assigned then ids.tid t else 0) (hknows : pc.Knows n)
    (hdebt : n + pc.debt = s.count_ + (s.pc t).debt)
    (hsleepers : ∀ u, s.pc u = .blocked → 0 < n ∨ pc = .notifyAll ∨ pc = .ifZero ∧ n = 0) :
    ({ s with holder_ := k, count_ := n }.setPc t pc).Inv ids count where
  owner u := by
    by_cases hu : u = t
    · subst hu
      simpa [hpc] using hown
    · simpa [hu] using h.owner u
  holder := by
    simpa [hown] using hk
  knows u := by
    by_cases hu : u = t
    · subst hu
      simpa using hknows
    · have hother : s.mutex_ ≠ some u := by simpa [hown] using Ne.symm hu
      rw [setPc_of_ne hu]
      exact knows_of_not_holds (h.not_holds hother) n
  sleepers u hu := by
    have hut : u ≠ t := by
      rintro rfl
      rw [setPc_self] at hu
      subst hu
      cases hpc
    rw [setPc_of_ne hut] at hu
    rcases hsleepers u hu with hn | hlast
    · exact .inl hn
    · exact .inr ⟨t, hown, by simpa using hlast⟩
  history := by
    simpa [committed, hown, hdebt] using h.history

/-- A thread gets the mutex. -/
theorem Inv.acquire (h : s.Inv ids count) (hfree : s.mutex_ = none) {pc : LatchPc}
    (hpc : pc.holds = true) (hassigned : pc.assigned = false) (hknows : pc.Knows s.count_)
    (hdebt : pc.debt = 0) : ({ s with mutex_ := some t }.setPc t pc).Inv ids count where
  owner u := by
    by_cases hu : u = t
    · subst hu
      simp [hpc]
    · have hnone : s.mutex_ ≠ some u := by simp [hfree]
      simpa [hu, h.not_holds hnone] using Ne.symm hu
  holder := by
    have hzero : s.holder_ = 0 := by simpa [hfree] using h.holder
    simpa [hassigned] using hzero
  knows u := by
    by_cases hu : u = t
    · subst hu
      simpa using hknows
    · simpa [hu] using h.knows u
  sleepers u hu := by
    have hut : u ≠ t := by
      rintro rfl
      rw [setPc_self] at hu
      subst hu
      cases hpc
    rw [setPc_of_ne hut] at hu
    rcases h.sleepers u hu with hn | ⟨v, hv, -⟩
    · exact .inl hn
    · simp [hfree] at hv
  history := by
    simpa [committed, hdebt, hfree] using h.history

/-- A thread gives the mutex up. -/
theorem Inv.release (h : s.Inv ids count) (hown : s.mutex_ = some t) {pc : LatchPc}
    {returned : List (T × LatchReturn)} (hpc : pc.holds = false)
    (hassigned : (s.pc t).assigned = false) (hsleepers : pc = .blocked → 0 < s.count_)
    (hnotify : s.pc t ≠ .notifyAll ∧ s.pc t ≠ .ifZero)
    (hhistory : System.runAll atomic count returned = some s.count_) :
    ({ s with mutex_ := none, returned := returned }.setPc t pc).Inv ids count where
  owner u := by
    by_cases hu : u = t
    · subst hu
      simp [hpc]
    · have hother : s.mutex_ ≠ some u := by simpa [hown] using Ne.symm hu
      simp [hu, h.not_holds hother]
  holder := by
    have hzero : s.holder_ = 0 := by simpa [hown, hassigned] using h.holder
    simpa using hzero
  knows u := by
    by_cases hu : u = t
    · subst hu
      rw [setPc_self]
      exact knows_of_not_holds hpc _
    · simpa [hu] using h.knows u
  sleepers u hu := by
    left
    by_cases hut : u = t
    · subst hut
      rw [setPc_self] at hu
      exact hsleepers hu
    · rw [setPc_of_ne hut] at hu
      rcases h.sleepers u hu with hn | ⟨v, hv, hlast⟩
      · exact hn
      · -- it is this one that has the mutex, and it is past the notification
        obtain rfl : t = v := by simpa [hown] using hv
        rcases hlast with hall | ⟨hzero, -⟩
        · exact absurd hall hnotify.1
        · exact absurd hzero hnotify.2
  history := by simpa [committed] using hhistory

/-- A thread without the mutex goes on without it. -/
theorem Inv.beside (h : s.Inv ids count) (hbefore : (s.pc t).holds = false) {pc : LatchPc}
    (hpc : pc.holds = false) (hne : pc ≠ .blocked) : (s.setPc t pc).Inv ids count := by
  have hother : s.mutex_ ≠ some t := fun hown => by
    simp [(h.owner t).2 hown] at hbefore
  have hkept : ∀ u, s.mutex_ = some u → (s.setPc t pc).pc u = s.pc u := by
    intro u hu
    refine setPc_of_ne ?_ s pc
    rintro rfl
    exact hother hu
  refine ⟨fun u => ?_, ?_, fun u => ?_, fun u hu => ?_, ?_⟩
  · by_cases hu : u = t
    · subst hu
      simpa [hpc] using hother
    · simpa [hu] using h.owner u
  · rw [setPc_holder, setPc_mutex, h.holder]
    cases hm : s.mutex_ with
    | none => rfl
    | some u => simp [hkept u hm]
  · by_cases hu : u = t
    · subst hu
      rw [setPc_self]
      exact knows_of_not_holds hpc _
    · simpa [hu] using h.knows u
  · have hut : u ≠ t := by
      rintro rfl
      exact hne ((setPc_self s u pc).symm.trans hu)
    rw [setPc_of_ne hut] at hu
    rcases h.sleepers u hu with hn | ⟨v, hv, hlast⟩
    · exact .inl hn
    · exact .inr ⟨v, hv, by rwa [hkept v hv]⟩
  · rw [setPc_returned, h.history, committed, committed, setPc_count, setPc_mutex]
    cases hm : s.mutex_ with
    | none => rfl
    | some u => simp [hkept u hm]

omit [DecidableEq T] in
theorem broadcast_pc (s : CountDownLatch T) (u : T) :
    s.broadcast.pc u = s.pc u ∨ s.pc u = .blocked ∧ s.broadcast.pc u = .woken := by
  by_cases hu : s.pc u = .blocked
  · exact .inr ⟨hu, if_pos hu⟩
  · exact .inl (if_neg hu)

omit [DecidableEq T] in
theorem broadcast_awake (s : CountDownLatch T) (u : T) : s.broadcast.pc u ≠ .blocked := by
  intro hu
  rcases s.broadcast_pc u with hsame | ⟨-, hnew⟩
  · have hnew : s.broadcast.pc u = .woken := if_pos (hsame.symm.trans hu)
    cases hnew.symm.trans hu
  · cases hnew.symm.trans hu

/-- Nobody is asleep behind a broadcast. -/
theorem Inv.broadcast (h : s.Inv ids count) (ht : s.pc t = .notifyAll) :
    (s.broadcast.setPc t (.unassignHolder .countDown)).Inv ids count := by
  have hown : s.mutex_ = some t := h.owns ht rfl
  have hself : s.broadcast.pc t = .notifyAll := by
    refine Eq.trans (if_neg ?_) ht
    simp [ht]
  have hholder : s.holder_ = ids.tid t := by
    simpa [hown, ht, LatchPc.assigned] using h.holder
  have hall : s.broadcast.Inv ids count := by
    refine ⟨fun u => ?_, ?_, fun u => ?_, fun u hu => absurd hu (s.broadcast_awake u), ?_⟩
    · change _ ↔ s.mutex_ = some u
      rcases s.broadcast_pc u with hsame | ⟨hold, hnew⟩
      · rw [hsame, h.owner u]
      · -- neither the sleeper nor the woken has the mutex
        rw [hnew, ← h.owner u, hold]
        rfl
    · change s.holder_ = s.mutex_.elim 0 _
      simp [hown, hself, hholder, LatchPc.assigned]
    · rcases s.broadcast_pc u with hsame | ⟨-, hnew⟩
      · exact hsame.symm ▸ h.knows u
      · rw [hnew]
        trivial
    · change System.runAll atomic count s.returned = some (s.count_ + s.mutex_.elim 0 _)
      rw [h.history, committed]
      simp [hown, hself, ht]
  have hdebt : s.count_ + (LatchPc.unassignHolder .countDown).debt =
      s.broadcast.count_ + (s.broadcast.pc t).debt := by
    rw [hself]
    rfl
  exact hall.inside hown rfl hholder trivial hdebt fun u hu => absurd hu (s.broadcast_awake u)

omit [DecidableEq T] in
/-- What the thread with the mutex leaves of the sleepers. -/
theorem Inv.sleepers_of_owner (h : s.Inv ids count) (hown : s.mutex_ = some t)
    (hnotify : s.pc t ≠ .notifyAll) {u : T} (hu : s.pc u = .blocked) :
    0 < s.count_ ∨ s.pc t = .ifZero ∧ s.count_ = 0 := by
  rcases h.sleepers u hu with hpos | ⟨v, hv, hlast⟩
  · exact .inl hpos
  · obtain rfl : t = v := Option.some.inj (hown.symm.trans hv)
    exact .inr (hlast.resolve_left hnotify)

omit [DecidableEq T] in
/-- Nobody sleeps for nothing, but around the notification. -/
theorem Inv.sleepers_wait (h : s.Inv ids count) (hown : s.mutex_ = some t)
    (hnotify : s.pc t ≠ .notifyAll) (hzero : s.pc t ≠ .ifZero) {u : T} (hu : s.pc u = .blocked) :
    0 < s.count_ :=
  (h.sleepers_of_owner hown hnotify hu).resolve_right fun hlast => hzero hlast.1

omit [DecidableEq T] in
theorem Inv.knows_at (h : s.Inv ids count) {pc : LatchPc} (hpc : s.pc t = pc) :
    pc.Knows s.count_ := hpc ▸ h.knows t

omit [DecidableEq T] in
theorem Inv.holder_at (h : s.Inv ids count) {pc : LatchPc} (hpc : s.pc t = pc)
    (hassigned : pc.assigned = true) : s.holder_ = ids.tid t := by
  have hown : s.mutex_ = some t := h.owns hpc (LatchPc.holds_of_assigned hassigned)
  simpa [hown, hpc, hassigned] using h.holder

/-! ## One lemma for each instruction -/

theorem Inv.lock (h : s.Inv ids count) (hfree : s.mutex_ = none) (call : LatchCall) :
    ({ s with mutex_ := some t }.setPc t (.assignHolder call)).Inv ids count :=
  h.acquire hfree rfl rfl trivial rfl

theorem Inv.woken (h : s.Inv ids count) (hfree : s.mutex_ = none) :
    ({ s with mutex_ := some t }.setPc t .assignGuard).Inv ids count :=
  h.acquire hfree rfl rfl trivial rfl

theorem Inv.assignHolder (h : s.Inv ids count) {call : LatchCall}
    (ht : s.pc t = .assignHolder call) :
    ({ s with holder_ := ids.tid t }.setPc t (.body call)).Inv ids count := by
  have hown : s.mutex_ = some t := h.owns ht rfl
  have hdebt : s.count_ + (LatchPc.body call).debt = s.count_ + (s.pc t).debt := by
    rw [ht, LatchPc.debt_body]
    rfl
  refine h.inside hown (LatchPc.holds_body call) ?_ (LatchPc.knows_body _ call) hdebt ?_
  · rw [if_pos (LatchPc.assigned_body call)]
  · exact fun u hu => .inl (h.sleepers_wait hown (by simp [ht]) (by simp [ht]) hu)

theorem Inv.whileCount (h : s.Inv ids count) (ht : s.pc t = .whileCount) :
    (s.setPc t (if 0 < s.count_ then .unassignGuard else .unassignHolder .wait)).Inv
      ids count := by
  have hown : s.mutex_ = some t := h.owns ht rfl
  have hholder : s.holder_ = ids.tid t := h.holder_at ht rfl
  by_cases hpos : 0 < s.count_
  · rw [if_pos hpos]
    exact h.inside hown rfl hholder hpos (by rw [ht]; rfl) fun _ _ => .inl hpos
  · rw [if_neg hpos]
    refine h.inside hown rfl hholder (not_lt.1 hpos) (by rw [ht]; rfl) ?_
    exact fun u hu => .inl (h.sleepers_wait hown (by simp [ht]) (by simp [ht]) hu)

theorem Inv.unassignGuard (h : s.Inv ids count) (ht : s.pc t = .unassignGuard) :
    ({ s with holder_ := 0 }.setPc t .condWait).Inv ids count := by
  have hpos : 0 < s.count_ := h.knows_at ht
  exact h.inside (h.owns ht rfl) rfl rfl hpos (by rw [ht]; rfl) fun _ _ => .inl hpos

theorem Inv.condWait (h : s.Inv ids count) (ht : s.pc t = .condWait) :
    ({ s with mutex_ := none }.setPc t .blocked).Inv ids count := by
  have hown : s.mutex_ = some t := h.owns ht rfl
  have hpos : 0 < s.count_ := h.knows_at ht
  have hhistory : System.runAll atomic count s.returned = some s.count_ := by
    simpa [committed, hown, ht, LatchPc.debt] using h.history
  exact h.release hown rfl (by rw [ht]; rfl) (fun _ => hpos) (by simp [ht]) hhistory

theorem Inv.assignGuard (h : s.Inv ids count) (ht : s.pc t = .assignGuard) :
    ({ s with holder_ := ids.tid t }.setPc t .whileCount).Inv ids count := by
  have hown : s.mutex_ = some t := h.owns ht rfl
  refine h.inside hown rfl rfl trivial (by rw [ht]; rfl) ?_
  exact fun u hu => .inl (h.sleepers_wait hown (by simp [ht]) (by simp [ht]) hu)

theorem Inv.decrement (h : s.Inv ids count) (ht : s.pc t = .decrement) :
    ({ s with count_ := s.count_ - 1 }.setPc t .ifZero).Inv ids count := by
  have hown : s.mutex_ = some t := h.owns ht rfl
  have hdebt : s.count_ - 1 + LatchPc.ifZero.debt = s.count_ + (s.pc t).debt := by
    rw [ht]
    exact (Int.sub_add_cancel s.count_ 1).trans (Int.add_zero s.count_).symm
  refine h.inside hown rfl (h.holder_at ht rfl) trivial hdebt ?_
  intro u hu
  have hpos : 0 < s.count_ := h.sleepers_wait hown (by simp [ht]) (by simp [ht]) hu
  -- there may have been one left
  rcases (Int.le_sub_one_of_lt hpos).lt_or_eq with hmore | hlast
  · exact .inl hmore
  · exact .inr (.inr ⟨rfl, hlast.symm⟩)

theorem Inv.ifZero (h : s.Inv ids count) (ht : s.pc t = .ifZero) :
    (s.setPc t (if s.count_ = 0 then .notifyAll else .unassignHolder .countDown)).Inv
      ids count := by
  have hown : s.mutex_ = some t := h.owns ht rfl
  have hholder : s.holder_ = ids.tid t := h.holder_at ht rfl
  by_cases hzero : s.count_ = 0
  · rw [if_pos hzero]
    exact h.inside hown rfl hholder hzero (by rw [ht]; rfl) fun _ _ => .inr (.inl rfl)
  · rw [if_neg hzero]
    refine h.inside hown rfl hholder trivial (by rw [ht]; rfl) fun u hu => .inl ?_
    have hsleeps := h.sleepers_of_owner hown (by simp [ht]) hu
    exact hsleeps.resolve_right fun hlast => hzero hlast.2

theorem Inv.read (h : s.Inv ids count) (ht : s.pc t = .read) :
    (s.setPc t (.unassignHolder (.getCount s.count_))).Inv ids count := by
  have hown : s.mutex_ = some t := h.owns ht rfl
  refine h.inside hown rfl (h.holder_at ht rfl) rfl (by rw [ht]; rfl) ?_
  exact fun u hu => .inl (h.sleepers_wait hown (by simp [ht]) (by simp [ht]) hu)

theorem Inv.unassignHolder (h : s.Inv ids count) {r : LatchReturn}
    (ht : s.pc t = .unassignHolder r) :
    ({ s with holder_ := 0 }.setPc t (.unlock r)).Inv ids count := by
  have hown : s.mutex_ = some t := h.owns ht rfl
  have hknows : (LatchPc.unassignHolder r).Knows s.count_ := h.knows_at ht
  refine h.inside hown rfl rfl ?_ ?_ ?_
  · cases r <;> exact hknows
  · rw [ht]
    cases r <;> rfl
  · exact fun u hu => .inl (h.sleepers_wait hown (by simp [ht]) (by simp [ht]) hu)

theorem Inv.unlock (h : s.Inv ids count) {r : LatchReturn} (ht : s.pc t = .unlock r) :
    ({ s with mutex_ := none, returned := s.returned ++ [(t, r)] }.setPc t .outside).Inv
      ids count := by
  have hown : s.mutex_ = some t := h.owns ht rfl
  refine h.release hown rfl (by rw [ht]; rfl) (by simp) (by simp [ht]) ?_
  have hknows := h.knows t
  rw [ht] at hknows
  have hcommitted : s.committed = s.count_ + (LatchPc.unlock r).debt := by
    simp [committed, hown, ht]
  rw [System.runAll_append, h.history, hcommitted]
  cases r with
  | wait =>
      have hdown : s.count_ ≤ 0 := hknows
      simp [System.runAll, atomic, LatchPc.debt, hdown]
  | countDown => simp [System.runAll, atomic, LatchPc.debt]
  | getCount n =>
      have hn : n = s.count_ := hknows
      simp [System.runAll, atomic, LatchPc.debt, hn]

/-- The step lemma. -/
theorem Inv.instruction (h : s.Inv ids count) (hs : s.instruction ids t = some s') :
    s'.Inv ids count := by
  unfold CountDownLatch.instruction at hs
  cases hpc : s.pc t <;> rw [hpc] at hs
  case outside | blocked => cases hs
  case lock call =>
    obtain ⟨hfree, heq⟩ := Option.ite_none_right_eq_some.1 hs
    cases heq
    exact h.lock hfree call
  case woken =>
    obtain ⟨hfree, heq⟩ := Option.ite_none_right_eq_some.1 hs
    cases heq
    exact h.woken hfree
  all_goals cases hs
  case assignHolder call => exact h.assignHolder hpc
  case whileCount => exact h.whileCount hpc
  case unassignGuard => exact h.unassignGuard hpc
  case condWait => exact h.condWait hpc
  case assignGuard => exact h.assignGuard hpc
  case decrement => exact h.decrement hpc
  case ifZero => exact h.ifZero hpc
  case notifyAll => exact h.broadcast hpc
  case read => exact h.read hpc
  case unassignHolder r => exact h.unassignHolder hpc
  case unlock r => exact h.unlock hpc

theorem Inv.next (h : s.Inv ids count) {a : LatchAction T} (hs : s.next ids a = some s') :
    s'.Inv ids count := by
  cases a with
  | call t call =>
      obtain ⟨hpc, heq⟩ := Option.ite_none_right_eq_some.1 hs
      cases heq
      exact h.beside (by rw [hpc]; rfl) rfl (by simp)
  | instruction t => exact h.instruction hs
  | wakeUp t =>
      obtain ⟨hpc, heq⟩ := Option.ite_none_right_eq_some.1 hs
      cases heq
      exact h.beside (by rw [hpc]; rfl) rfl (by simp)

theorem reachable_inv (h : (runs ids count).Reachable s) : s.Inv ids count := by
  refine h.invariant ?_ fun s a s' hs hstep => hs.next hstep
  rintro s rfl
  refine ⟨fun t => ?_, rfl, fun t => trivial, fun t ht => ?_, ?_⟩
  · simp [LatchPc.holds]
  · cases ht
  · simp [System.runAll, committed]

/-! ## From the call to its return -/

/-- An instruction stays in its call, or returns from it. -/
theorem instruction_inCall (hs : s.instruction ids t = some s') :
    (∀ u, u ≠ t → (s'.pc u).inCall = (s.pc u).inCall) ∧
      ((s'.pc t).inCall = (s.pc t).inCall ∧ s'.returned = s.returned ∨
        ∃ r, (s.pc t).inCall = some r.call ∧ s'.pc t = .outside ∧
          s'.returned = s.returned ++ [(t, r)]) := by
  unfold CountDownLatch.instruction at hs
  cases hpc : s.pc t with
  | outside | blocked =>
      rw [hpc] at hs
      cases hs
  | lock call | woken =>
      rw [hpc] at hs
      obtain ⟨-, heq⟩ := Option.ite_none_right_eq_some.1 hs
      cases heq
      exact ⟨fun u hu => by simp [hu], .inl ⟨by simp [LatchPc.inCall], rfl⟩⟩
  | assignHolder call =>
      rw [hpc] at hs
      cases hs
      refine ⟨fun u hu => by simp [hu], .inl ⟨?_, rfl⟩⟩
      rw [setPc_self, LatchPc.inCall_body]
      rfl
  | notifyAll =>
      rw [hpc] at hs
      cases hs
      refine ⟨fun u hu => ?_, .inl ⟨by simp [LatchPc.inCall, LatchReturn.call], rfl⟩⟩
      rw [setPc_of_ne hu]
      rcases s.broadcast_pc u with hsame | ⟨hold, hnew⟩
      · rw [hsame]
      · rw [hold, hnew]
        rfl
  | unlock r =>
      rw [hpc] at hs
      cases hs
      exact ⟨fun u hu => by simp [hu], .inr ⟨r, rfl, by simp, rfl⟩⟩
  | whileCount | ifZero =>
      rw [hpc] at hs
      cases hs
      refine ⟨fun u hu => by simp [hu], .inl ⟨?_, rfl⟩⟩
      split <;> simp [LatchPc.inCall, LatchReturn.call]
  | unassignGuard | condWait | assignGuard | decrement | read | unassignHolder r =>
      rw [hpc] at hs
      cases hs
      exact ⟨fun u hu => by simp [hu], .inl ⟨by simp [LatchPc.inCall, LatchReturn.call], rfl⟩⟩

/-- What a thread does inside. -/
theorem next_inCall {a : LatchAction T} (ha : a.isCall = false) (hs : s.next ids a = some s') :
    ∃ t, (∀ u, u ≠ t → (s'.pc u).inCall = (s.pc u).inCall) ∧
      ((s'.pc t).inCall = (s.pc t).inCall ∧ s'.returned = s.returned ∨
        ∃ r, (s.pc t).inCall = some r.call ∧ s'.pc t = .outside ∧
          s'.returned = s.returned ++ [(t, r)]) := by
  cases a with
  | call t call => cases ha
  | instruction t => exact ⟨t, instruction_inCall hs⟩
  | wakeUp t =>
      obtain ⟨hpc, heq⟩ := Option.ite_none_right_eq_some.1 hs
      cases heq
      exact ⟨t, fun u hu => by simp [hu], .inl ⟨by simp [hpc, LatchPc.inCall], rfl⟩⟩

/-! ## One call after the other -/

/-- The calls of `countDown` that have returned. -/
def countDowns (returned : List (T × LatchReturn)) : Int :=
  returned.countP (·.2 = .countDown)

omit [DecidableEq T] in
theorem atomic_eq {n n' : Int} {call : T × LatchReturn} (h : atomic n call = some n') :
    n' = n - countDowns [call] ∧ (call.2 = .wait → n ≤ 0) := by
  obtain ⟨t, r⟩ := call
  cases r with
  | wait =>
      obtain ⟨hdown, heq⟩ := Option.ite_none_right_eq_some.1 h
      cases heq
      exact ⟨by simp [countDowns], fun _ => hdown⟩
  | countDown =>
      cases h
      exact ⟨by simp [countDowns], by simp⟩
  | getCount m =>
      obtain ⟨-, heq⟩ := Option.ite_none_right_eq_some.1 h
      cases heq
      exact ⟨by simp [countDowns], by simp⟩

omit [DecidableEq T] in
theorem runAll_atomic_eq {n n' : Int} {returned : List (T × LatchReturn)}
    (h : System.runAll atomic n returned = some n') : n' = n - countDowns returned := by
  induction returned generalizing n with
  | nil =>
      cases h
      simp [countDowns]
  | cons call rest ih =>
      obtain ⟨m, hcall, hrest⟩ := Option.bind_eq_some_iff.1 h
      have hsplit : countDowns (call :: rest) = countDowns [call] + countDowns rest := by
        simp [countDowns, List.countP_cons, Int.add_comm]
      calc n'
          = m - countDowns rest := ih hrest
        _ = n - countDowns [call] - countDowns rest := by rw [(atomic_eq hcall).1]
        _ = n - countDowns (call :: rest) := by rw [hsplit, Int.sub_sub]

omit [DecidableEq T] in
theorem Inv.committed_eq (h : s.Inv ids count) : s.committed = count - countDowns s.returned :=
  runAll_atomic_eq h.history

omit [DecidableEq T] in
theorem Inv.count_le (h : s.Inv ids count) : s.count_ ≤ count - countDowns s.returned := by
  have hdebt : 0 ≤ s.mutex_.elim 0 fun t => (s.pc t).debt := by
    cases s.mutex_ with
    | none => exact Int.le_refl 0
    | some t => exact LatchPc.debt_nonneg (s.pc t)
  calc s.count_
      ≤ s.committed := Int.le_add_of_nonneg_right hdebt
    _ = count - countDowns s.returned := h.committed_eq

omit [DecidableEq T] in
theorem Inv.le_countDowns (h : s.Inv ids count) {before after : List (T × LatchReturn)}
    (hsplit : s.returned = before ++ (t, .wait) :: after) : count ≤ countDowns before := by
  have hhistory := h.history
  rw [hsplit, System.runAll_append] at hhistory
  obtain ⟨n, hbefore, hafter⟩ := Option.bind_eq_some_iff.1 hhistory
  obtain ⟨m, hwait, -⟩ := Option.bind_eq_some_iff.1 hafter
  have hdown : n ≤ 0 := (atomic_eq hwait).2 rfl
  rw [runAll_atomic_eq hbefore] at hdown
  exact sub_nonpos.1 hdown

/-- The calls return what a latch returns that does one call after the other, in the order in which
they unlock the mutex; and `wait` returns after as many calls of `countDown` as the latch was made
for. -/
theorem linearizable (h : (runs ids count).Reachable s) :
    System.runAll atomic count s.returned = some s.committed ∧
      ∀ (t : T) before after, s.returned = before ++ (t, .wait) :: after →
        count ≤ countDowns before :=
  ⟨(reachable_inv h).history, fun _ _ _ hsplit => (reachable_inv h).le_countDowns hsplit⟩

omit [DecidableEq T] in
theorem Inv.free_outside (h : s.Inv ids count) (hout : ∀ t, s.pc t = .outside) :
    s.mutex_ = none ∧ s.holder_ = 0 := by
  have hfree : s.mutex_ = none := by
    refine Option.eq_none_iff_forall_ne_some.2 fun u hu => ?_
    have hholds := (h.owner u).2 hu
    rw [hout u] at hholds
    cases hholds
  exact ⟨hfree, by simpa [hfree] using h.holder⟩

/-- `isLockedByThisThread` is right at every instruction of every thread, no two threads have the
mutex, and when nobody is inside, the assertion of `~MutexLock` holds. -/
theorem isLockedByThisThread_iff (h : (runs ids count).Reachable s) :
    (∀ t, s.isLockedByThisThread ids t = true ↔ (s.pc t).assigned = true) ∧
      (∀ t u, (s.pc t).holds = true → (s.pc u).holds = true → t = u) ∧
        ((∀ t, s.pc t = .outside) → s.holder_ = 0) := by
  have hinv := reachable_inv h
  refine ⟨fun t => ?_, fun t u ht hu => ?_, fun hout => (hinv.free_outside hout).2⟩
  · have hne : ids.tid t ≠ 0 := (ids.pos t).ne'
    rw [isLockedByThisThread, decide_eq_true_iff]
    constructor
    · intro hself
      cases hm : s.mutex_ with
      | none =>
          have hzero : s.holder_ = 0 := by simpa [hm] using hinv.holder
          exact absurd (hself.symm.trans hzero) hne
      | some u =>
          have hholder : s.holder_ = if (s.pc u).assigned then ids.tid u else 0 := by
            simpa [hm] using hinv.holder
          by_cases hu : (s.pc u).assigned = true
          · rw [if_pos hu] at hholder
            obtain rfl : t = u := ids.injective (hself.symm.trans hholder)
            exact hu
          · rw [if_neg hu] at hholder
            exact absurd (hself.symm.trans hholder) hne
    · intro hassigned
      have hown : s.mutex_ = some t := (hinv.owner t).1 (LatchPc.holds_of_assigned hassigned)
      simpa [hown, hassigned] using hinv.holder
  · exact Option.some.inj (((hinv.owner t).1 ht).symm.trans ((hinv.owner u).1 hu))

/-! ## No lost wake-up -/

/-- A bound on the instructions that a thread has before it, when the count is down. -/
def rank : LatchPc → Nat
  | .outside => 0
  | .unlock _ => 1
  | .unassignHolder _ => 2
  | .whileCount | .notifyAll | .read => 3
  | .assignGuard | .ifZero => 4
  | .woken | .decrement => 5
  | .assignHolder _ | .blocked => 6
  | .lock _ | .condWait => 7
  | .unassignGuard => 8

theorem rank_body (call : LatchCall) : rank (.body call) ≤ 5 := by
  cases call <;> decide

theorem rank_le (pc : LatchPc) : rank pc ≤ 8 := by
  cases pc <;> simp [rank]

def work [Fintype T] (s : CountDownLatch T) : Nat := ∑ t, rank (s.pc t)

omit [DecidableEq T] in
theorem work_lt [Fintype T] (hself : rank (s'.pc t) < rank (s.pc t))
    (hothers : ∀ u, u ≠ t → rank (s'.pc u) ≤ rank (s.pc u)) : s'.work < s.work := by
  refine Finset.sum_lt_sum (fun u _ => ?_) ⟨t, Finset.mem_univ t, hself⟩
  by_cases hu : u = t
  · exact hu ▸ hself.le
  · exact hothers u hu

theorem rank_setPc {u : T} (hu : u ≠ t) (s : CountDownLatch T) (pc : LatchPc) :
    rank ((s.setPc t pc).pc u) ≤ rank (s.pc u) := by
  rw [setPc_of_ne hu]

/-- When the count is down, every instruction is one less. -/
theorem Inv.work_instruction [Fintype T] (h : s.Inv ids count) (hdown : s.count_ ≤ 0)
    (hs : s.instruction ids t = some s') : s'.count_ ≤ 0 ∧ s'.work < s.work := by
  have hknows := h.knows t
  unfold CountDownLatch.instruction at hs
  cases hpc : s.pc t with
  | outside | blocked =>
      rw [hpc] at hs
      cases hs
  | lock call | woken =>
      rw [hpc] at hs
      obtain ⟨-, heq⟩ := Option.ite_none_right_eq_some.1 hs
      cases heq
      exact ⟨hdown, work_lt (by simp [hpc, rank]) fun u hu => rank_setPc hu _ _⟩
  | unassignGuard | condWait =>
      rw [hpc] at hknows
      exact absurd hknows (not_lt.2 hdown)
  | whileCount =>
      rw [hpc] at hs
      cases hs
      rw [if_neg (not_lt.2 hdown)]
      exact ⟨hdown, work_lt (by simp [hpc, rank]) fun u hu => rank_setPc hu _ _⟩
  | assignHolder call =>
      rw [hpc] at hs
      cases hs
      refine ⟨hdown, work_lt ?_ fun u hu => rank_setPc hu _ _⟩
      rw [setPc_self, hpc]
      exact Nat.lt_succ_of_le (rank_body call)
  | decrement =>
      rw [hpc] at hs
      cases hs
      have hless : s.count_ - 1 ≤ 0 := (Int.sub_le_self s.count_ Int.one_nonneg).trans hdown
      exact ⟨hless, work_lt (by simp [hpc, rank]) fun u hu => rank_setPc hu _ _⟩
  | ifZero =>
      rw [hpc] at hs
      cases hs
      refine ⟨hdown, work_lt ?_ fun u hu => rank_setPc hu _ _⟩
      split <;> simp [hpc, rank]
  | notifyAll =>
      rw [hpc] at hs
      cases hs
      refine ⟨hdown, work_lt (by simp [hpc, rank]) fun u hu => (rank_setPc hu _ _).trans ?_⟩
      rcases s.broadcast_pc u with hsame | ⟨hold, hnew⟩
      · rw [hsame]
      · rw [hold, hnew]
        decide
  | assignGuard | read | unassignHolder r | unlock r =>
      rw [hpc] at hs
      cases hs
      exact ⟨hdown, work_lt (by simp [hpc, rank]) fun u hu => rank_setPc hu _ _⟩

/-- Where no thread has an instruction, the threads inside sleep, and there is something to count. -/
theorem Inv.stuck (h : s.Inv ids count) (hstuck : ∀ t, s.instruction ids t = none) (t : T) :
    s.pc t = .outside ∨ s.pc t = .blocked ∧ 0 < s.count_ := by
  -- whoever has the mutex has an instruction
  have hfree : s.mutex_ = none := by
    refine Option.eq_none_iff_forall_ne_some.2 fun u hu => ?_
    have hholds := (h.owner u).2 hu
    have hnone := hstuck u
    unfold CountDownLatch.instruction at hnone
    cases hpc : s.pc u <;> simp_all [LatchPc.holds]
  have hnone := hstuck t
  unfold CountDownLatch.instruction at hnone
  cases hpc : s.pc t with
  | outside => exact .inl rfl
  | blocked =>
      rcases h.sleepers t hpc with hpos | ⟨u, hu, -⟩
      · exact .inr ⟨rfl, hpos⟩
      · simp [hfree] at hu
  | _ => simp [hpc, hfree] at hnone

theorem Inv.work_next [Fintype T] (h : s.Inv ids count) (hdown : s.count_ ≤ 0)
    {a : LatchAction T} (ha : a.isCall = false) (hs : s.next ids a = some s') :
    s'.count_ ≤ 0 ∧ s'.work < s.work := by
  cases a with
  | call t call => cases ha
  | instruction t => exact h.work_instruction hdown hs
  | wakeUp t =>
      obtain ⟨hpc, heq⟩ := Option.ite_none_right_eq_some.1 hs
      cases heq
      exact ⟨hdown, work_lt (by simp [hpc, rank]) fun u hu => rank_setPc hu _ _⟩

/-- The run lemma. -/
theorem Inv.work_run [Fintype T] (h : s.Inv ids count) (hdown : s.count_ ≤ 0)
    {as : List (LatchAction T)} (has : ∀ a ∈ as, a.isCall = false)
    (hrun : System.runAll (CountDownLatch.next ids) s as = some s') :
    s'.Inv ids count ∧ s'.count_ ≤ 0 ∧ as.length + s'.work ≤ s.work := by
  induction as generalizing s with
  | nil =>
      cases hrun
      exact ⟨h, hdown, by simp⟩
  | cons a as ih =>
      obtain ⟨s₁, hs, hrest⟩ := Option.bind_eq_some_iff.1 hrun
      obtain ⟨hdown₁, hless⟩ := h.work_next hdown (has a List.mem_cons_self) hs
      obtain ⟨hinv, hdown', hle⟩ :=
        ih (h.next hs) hdown₁ (fun b hb => has b (List.mem_cons_of_mem a hb)) hrest
      refine ⟨hinv, hdown', ?_⟩
      calc (a :: as).length + s'.work
          = as.length + s'.work + 1 := by rw [List.length_cons, Nat.add_right_comm]
        _ ≤ s₁.work + 1 := Nat.succ_le_succ hle
        _ ≤ s.work := hless

/-- When the count is down, every schedule of the calls that are inside comes to an end, after at
most eight instructions of each thread; and it can end nowhere but where all of them have
returned. -/
theorem drains [Fintype T] (h : (runs ids count).Reachable s) (hdown : s.count_ ≤ 0)
    {as : List (LatchAction T)} (has : ∀ a ∈ as, a.isCall = false)
    (hrun : System.runAll (CountDownLatch.next ids) s as = some s') :
    as.length ≤ 8 * Fintype.card T ∧
      ((∀ t, s'.instruction ids t = none) → ∀ t, s'.pc t = .outside) := by
  obtain ⟨hinv, hdown', hle⟩ := (reachable_inv h).work_run hdown has hrun
  constructor
  · calc as.length
        ≤ as.length + s'.work := Nat.le_add_right _ _
      _ ≤ s.work := hle
      _ ≤ ∑ _t : T, 8 := Finset.sum_le_sum fun t _ => rank_le (s.pc t)
      _ = Fintype.card T * 8 := Finset.sum_const_nat fun _ _ => rfl
      _ = 8 * Fintype.card T := Nat.mul_comm ..
  · intro hstuck t
    rcases hinv.stuck hstuck t with hout | ⟨-, hpos⟩
    · exact hout
    · exact absurd hpos (not_lt.2 hdown')

/-! ## Two threads -/

def twoThreads : ThreadIds Bool where
  tid t := if t then 2 else 1
  pos t := by cases t <;> decide
  injective := by decide

/-- One thread waits, and the other counts down. -/
def waitThenCountDown : List (LatchAction Bool) :=
  .call false .wait :: List.replicate 5 (.instruction false) ++
    .call true .countDown :: List.replicate 3 (.instruction true)

/-- What is left of both calls. -/
def bothReturn : List (LatchAction Bool) :=
  List.replicate 4 (.instruction true) ++ List.replicate 5 (.instruction false)

theorem waitThenCountDown_run : ∃ s s', System.runAll (CountDownLatch.next twoThreads)
    { count_ := 1 } waitThenCountDown = some s ∧ s.count_ = 0 ∧ s.pc false = .blocked ∧
      System.runAll (CountDownLatch.next twoThreads) s bothReturn = some s' ∧
        s'.returned = [(true, .countDown), (false, .wait)] := by
  have hrun : (System.runAll (CountDownLatch.next twoThreads) { count_ := 1 }
      waitThenCountDown >>= fun s => System.runAll (CountDownLatch.next twoThreads) s
        bothReturn >>= fun s' => some (s.count_, s.pc false, s'.returned)) =
      some (0, .blocked, [(true, .countDown), (false, .wait)]) := by
    decide +kernel
  obtain ⟨s, hs, hrest⟩ := Option.bind_eq_some_iff.1 hrun
  obtain ⟨s', hs', heq⟩ := Option.bind_eq_some_iff.1 hrest
  simp only [Option.some.injEq, Prod.mk.injEq] at heq
  exact ⟨s, s', hs, heq.1, heq.2.1, hs', heq.2.2⟩

theorem reachable_of_next {as : List (LatchAction T)}
    (hs : System.runAll (CountDownLatch.next ids) { count_ := count } as = some s) :
    (runs ids count).Reachable s :=
  .of_runAll (fun _ _ _ h => h) (.init rfl) hs

theorem linearizable_twoThreads : ∃ s s', System.runAll (CountDownLatch.next twoThreads)
    { count_ := 1 } waitThenCountDown = some s ∧
      System.runAll (CountDownLatch.next twoThreads) s bothReturn = some s' ∧
        (1 : Int) ≤ countDowns [(true, .countDown)] := by
  obtain ⟨s, s', hs, -, -, hs', hreturned⟩ := waitThenCountDown_run
  have hreach : (runs twoThreads 1).Reachable s' :=
    .of_runAll (fun _ _ _ h => h) (reachable_of_next hs) hs'
  exact ⟨s, s', hs, hs', (linearizable hreach).2 false [(true, .countDown)] [] hreturned⟩

theorem isLockedByThisThread_iff_twoThreads : ∃ s, System.runAll
    (CountDownLatch.next twoThreads) { count_ := 1 } waitThenCountDown = some s ∧
      (s.isLockedByThisThread twoThreads false = true ↔ (s.pc false).assigned = true) := by
  obtain ⟨s, s', hs, -⟩ := waitThenCountDown_run
  exact ⟨s, hs, (isLockedByThisThread_iff (reachable_of_next hs)).1 false⟩

theorem drains_twoThreads : ∃ s s', System.runAll (CountDownLatch.next twoThreads)
    { count_ := 1 } waitThenCountDown = some s ∧ s.pc false = .blocked ∧
      System.runAll (CountDownLatch.next twoThreads) s bothReturn = some s' ∧
        bothReturn.length ≤ 16 := by
  obtain ⟨s, s', hs, hzero, hblocked, hs', -⟩ := waitThenCountDown_run
  have hcalls : ∀ a ∈ bothReturn, a.isCall = false := by decide
  exact ⟨s, s', hs, hblocked, hs', (drains (reachable_of_next hs) hzero.le hcalls hs').1⟩

end CountDownLatch
end Base
end Longky
