import Longky.Net.EventLoopThreadPool
import Longky.Web.IdleWheel

/-!
# LoopWheels — the wheel of a connection's loop

`StaticServer::start` makes a wheel for each of the first `loopThreads_` loops that `getNextLoop` hands
out.  `onConnection` and `onMessage` look up the wheel of the connection's loop with `operator[]` and
dereference what they find.

`loops_have_wheels_iff`: whatever loops the later connections get, they have wheels, exactly when there
is a loop thread; without one all connections run in the base loop, which has none.
-/

namespace Longky
namespace Web

open Lib Net

/-- The loop that `StaticServer` is constructed with, and those of the threads. -/
inductive LoopId where
  | base
  | thread (i : Nat)
  deriving DecidableEq, Repr

abbrev Wheel := CircularBuffer (Finset ConnId)

structure LoopWheels where
  threadPool : EventLoopThreadPool LoopId
  /-- The entry of a loop, if there is one, is a pointer that may be null. -/
  map_ : LoopId → Option (Option Wheel)
  /-- `getLoop` of the connections that were accepted. -/
  getLoop : ConnId → Option LoopId

inductive LoopEvent where
  | newConnection (c : ConnId)
  /-- `getNextLoop` is called for something else. -/
  | getNextLoop
  /-- `onConnection` or `onMessage` inserts the connection's entry. -/
  | insertEntry (c : ConnId)
  | onTimer

namespace LoopWheels

/-! ## The server -/

/-- `std::unordered_map::insert` changes nothing when the key is there. -/
def insertWheel (m : LoopId → Option (Option Wheel)) (loop : LoopId) (buket : Wheel) :
    LoopId → Option (Option Wheel) :=
  if (m loop).isNone then Function.update m loop (some (some buket)) else m

/-- The loop of `start`, with the rounds that are left. -/
def registerWheels (idleExpiredTime_ : Nat) :
    Nat → EventLoopThreadPool LoopId → (LoopId → Option (Option Wheel)) →
      Option (EventLoopThreadPool LoopId × (LoopId → Option (Option Wheel)))
  | 0, pool, m => some (pool, m)
  | rounds + 1, pool, m => do
      let (loop, pool') ← pool.getNextLoop
      registerWheels idleExpiredTime_ rounds pool'
        (insertWheel m loop (CircularBuffer.empty.resize idleExpiredTime_ ∅))

/-- `StaticServer::start`. -/
def start (loopThreads_ idleExpiredTime_ : Nat) : Option LoopWheels := do
  let pool : EventLoopThreadPool LoopId := { baseLoop_ := .base }
  let started ← (pool.setThreadNum loopThreads_).start .thread
  let (pool', m) ← registerWheels idleExpiredTime_ loopThreads_ started fun _ => none
  return { threadPool := pool', map_ := m, getLoop := fun _ => none }

/-- `newConnection`, as far as it chooses a loop. -/
def newConnection (s : LoopWheels) (c : ConnId) : Option LoopWheels := do
  let (loop, pool) ← s.threadPool.getNextLoop
  return { s with threadPool := pool, getLoop := Function.update s.getLoop c (some loop) }

/-- `map_[conn->getLoop()]->back().insert(entry)`; a missing wheel is a null pointer. -/
def insertEntry (s : LoopWheels) (c : ConnId) : Option LoopWheels := do
  let loop ← s.getLoop c
  let buket ← (s.map_ loop).join
  return { s with
    map_ := Function.update s.map_ loop (some (some (buket.modifyBack (insert c)))) }

/-- `push_back` on the wheels of the map, none of which may be null. -/
def onTimer (s : LoopWheels) : LoopWheels :=
  { s with map_ := fun loop => (s.map_ loop).map fun buket => buket.map fun w => w.pushBack ∅ }

/-- A connection is accepted once, and has an entry only if it was accepted. -/
def enabled (s : LoopWheels) : LoopEvent → Prop
  | .newConnection c => s.getLoop c = none
  | .insertEntry c => s.getLoop c ≠ none
  | .getNextLoop | .onTimer => True

/-- None where a pointer is null or an assertion fails. -/
def perform (s : LoopWheels) : LoopEvent → Option LoopWheels
  | .newConnection c => s.newConnection c
  | .getNextLoop => do
      let (_, pool) ← s.threadPool.getNextLoop
      return { s with threadPool := pool }
  | .insertEntry c => s.insertEntry c
  | .onTimer => some s.onTimer

/-- The server after `start`. -/
def runs (loopThreads_ idleExpiredTime_ : Nat) : System LoopWheels LoopEvent where
  init s := start loopThreads_ idleExpiredTime_ = some s
  step s e s' := s.enabled e ∧ s.perform e = some s'

/-- The pointer to the wheel of the loop is not null. -/
def HasWheel (m : LoopId → Option (Option Wheel)) (loop : LoopId) : Prop :=
  ∃ buket, m loop = some (some buket)

/-- The loop of the next connection has a wheel, and so have those of the connections that were
accepted, whose entries can be inserted. -/
structure Safe (s : LoopWheels) : Prop where
  next : ∀ loop pool, s.threadPool.getNextLoop = some (loop, pool) → HasWheel s.map_ loop
  accepted : ∀ c loop, s.getLoop c = some loop → HasWheel s.map_ loop
  inserted : ∀ c, s.getLoop c ≠ none → s.insertEntry c ≠ none

/-! ## The wheels after `start` -/

/-- What `start` inserts. -/
def freshWheel (idleExpiredTime_ : Nat) : Wheel := CircularBuffer.empty.resize idleExpiredTime_ ∅

/-- A pool whose threads have the loops `thread 0`, …, after `k` calls. -/
abbrev pool (n k : Nat) : EventLoopThreadPool LoopId :=
  EventLoopThreadPool.rotated .base .thread n k

section Wheels

variable {m : LoopId → Option (Option Wheel)} {n N : Nat}

/-- The rounds of `start` from thread `k` on. -/
theorem registerWheels_eq (rounds : Nat) {k : Nat} (hn : k + rounds = n)
    (hbefore : ∀ i < k, m (.thread i) = some (some (freshWheel N)))
    (habsent : ∀ i, k ≤ i → m (.thread i) = none) :
    ∃ m', registerWheels N rounds (pool n k) m = some (pool n n, m') ∧
      ∀ i < n, m' (.thread i) = some (some (freshWheel N)) := by
  -- one round more has been made when `k` grows, so `k + rounds` stays the number of threads
  induction rounds generalizing k m with
  | zero =>
      cases hn
      exact ⟨m, rfl, hbefore⟩
  | succ rounds ih =>
      have hpos : 1 ≤ n := by omega
      -- the pool wraps around only behind the last round
      have hk : k % n = k := Nat.mod_eq_of_lt (by omega)
      have hinsert : insertWheel m (.thread k) (freshWheel N) =
          Function.update m (.thread k) (some (some (freshWheel N))) := by
        rw [insertWheel, habsent k (Nat.le_refl k)]
        rfl
      -- thread `k` has no wheel yet, so `insert` takes effect
      rw [registerWheels, EventLoopThreadPool.getNextLoop_rotated hpos, hk]
      change ∃ m', registerWheels N rounds _ (insertWheel m (.thread k) (freshWheel N)) = _ ∧ _
      rw [hinsert]
      refine ih (by omega) ?_ ?_
      · intro i hi
        by_cases hik : i = k
        · rw [hik, Function.update_self]
        · rw [Function.update_of_ne (by simpa using hik)]
          exact hbefore i (by omega)
      · intro i hi
        have hik : LoopId.thread i ≠ .thread k := by
          rw [ne_eq, LoopId.thread.injEq]
          omega
        rw [Function.update_of_ne hik]
        exact habsent i (by omega)

/-- Every thread has its wheel after `start`. -/
theorem start_eq (n N : Nat) :
    ∃ m, start n N = some { threadPool := pool n n, map_ := m, getLoop := fun _ => none } ∧
      ∀ i < n, m (.thread i) = some (some (freshWheel N)) := by
  rcases registerWheels_eq (m := fun _ => none) (N := N) n (Nat.zero_add n)
    (fun i hi => absurd hi (Nat.not_lt_zero i)) (fun _ _ => rfl) with ⟨m, hm, hwheels⟩
  refine ⟨m, ?_, hwheels⟩
  unfold start
  dsimp only
  rw [EventLoopThreadPool.start_eq]
  simp only [Option.bind_eq_bind, Option.bind_some]
  rw [hm]
  rfl

/-- The wheels are those that the timing wheel of as many loops starts with. -/
theorem map_start {L : Nat} (cfg : WheelConfig L) :
    ∃ s, start L cfg.idleExpiredTime_ = some s ∧
      ∀ i : Fin L, s.map_ (.thread i) = some (some ((IdleWheel.start cfg).map_ i)) := by
  rcases start_eq L cfg.idleExpiredTime_ with ⟨m, hstart, hwheels⟩
  exact ⟨_, hstart, fun i => hwheels i i.isLt⟩

end Wheels

/-! ## Runs -/

/-- The threads have wheels, and the connections run in threads. -/
structure Inv (n : Nat) (s : LoopWheels) : Prop where
  rotated : ∃ k, s.threadPool = pool n k
  wheels : ∀ i < n, HasWheel s.map_ (.thread i)
  threads : ∀ c loop, s.getLoop c = some loop → ∃ i < n, loop = .thread i

section Runs

variable {n N : Nat} {s s' : LoopWheels}

theorem Inv.hasWheel (h : Inv n s) {c : ConnId} {loop : LoopId} (hc : s.getLoop c = some loop) :
    HasWheel s.map_ loop := by
  rcases h.threads c loop hc with ⟨i, hi, rfl⟩
  exact h.wheels i hi

/-- The next loop is that of a thread. -/
theorem Inv.getNextLoop (h : Inv n s) (hn : 1 ≤ n) :
    ∃ i k, i < n ∧ s.threadPool.getNextLoop = some (.thread i, pool n k) := by
  rcases h.rotated with ⟨k, hk⟩
  rw [hk, EventLoopThreadPool.getNextLoop_rotated hn]
  exact ⟨_, _, Nat.mod_lt k hn, rfl⟩

theorem insertEntry_eq {c : ConnId} {loop : LoopId} {buket : Wheel} (hc : s.getLoop c = some loop)
    (hw : s.map_ loop = some (some buket)) :
    s.insertEntry c = some { s with
      map_ := Function.update s.map_ loop (some (some (buket.modifyBack (insert c)))) } := by
  simp [insertEntry, hc, hw]

theorem Inv.safe (h : Inv n s) (hn : 1 ≤ n) : Safe s where
  next := by
    intro loop pool hnext
    rcases h.getNextLoop hn with ⟨i, k, hi, heq⟩
    rw [heq] at hnext
    cases hnext
    exact h.wheels i hi
  accepted := fun c loop hc => h.hasWheel hc
  inserted := by
    intro c hc
    cases hloop : s.getLoop c with
    | none => exact absurd hloop hc
    | some loop =>
        rcases h.hasWheel hloop with ⟨buket, hbuket⟩
        rw [insertEntry_eq hloop hbuket]
        exact Option.some_ne_none _

theorem Inv.perform (h : Inv n s) (hn : 1 ≤ n) {e : LoopEvent} (he : s.enabled e)
    (hs' : s.perform e = some s') : Inv n s' := by
  cases e with
  | newConnection c =>
      rcases h.getNextLoop hn with ⟨i, k, hi, heq⟩
      have hperform : s.perform (.newConnection c) = some { s with
          threadPool := pool n k
          getLoop := Function.update s.getLoop c (some (.thread i)) } := by
        simp [LoopWheels.perform, newConnection, heq]
      rw [hperform] at hs'
      cases hs'
      refine ⟨⟨k, rfl⟩, h.wheels, ?_⟩
      intro c' loop hc'
      change Function.update s.getLoop c (some (.thread i)) c' = some loop at hc'
      by_cases hcc : c' = c
      · subst hcc
        rw [Function.update_self] at hc'
        cases hc'
        exact ⟨i, hi, rfl⟩
      · rw [Function.update_of_ne hcc] at hc'
        exact h.threads c' loop hc'
  | getNextLoop =>
      rcases h.getNextLoop hn with ⟨i, k, -, heq⟩
      have hperform : s.perform .getNextLoop = some { s with threadPool := pool n k } := by
        simp [LoopWheels.perform, heq]
      rw [hperform] at hs'
      cases hs'
      exact ⟨⟨k, rfl⟩, h.wheels, h.threads⟩
  | insertEntry c =>
      cases hloop : s.getLoop c with
      | none => exact absurd hloop he
      | some loop =>
          rcases h.hasWheel hloop with ⟨buket, hbuket⟩
          change s.insertEntry c = some s' at hs'
          rw [insertEntry_eq hloop hbuket] at hs'
          cases hs'
          -- the wheel of one loop changes and is still a wheel
          refine ⟨h.rotated, ?_, h.threads⟩
          intro i hi
          by_cases hl : LoopId.thread i = loop
          · exact ⟨_, by rw [hl]; exact Function.update_self _ _ _⟩
          · rcases h.wheels i hi with ⟨w, hw⟩
            exact ⟨w, (Function.update_of_ne hl _ _).trans hw⟩
  | onTimer =>
      cases hs'
      refine ⟨h.rotated, ?_, h.threads⟩
      intro i hi
      rcases h.wheels i hi with ⟨w, hw⟩
      refine ⟨w.pushBack ∅, ?_⟩
      simp [onTimer, hw]

theorem reachable_inv (hn : 1 ≤ n) (hs : (runs n N).Reachable s) : Inv n s := by
  rcases start_eq n N with ⟨m, hstart, hwheels⟩
  refine hs.invariant ?_ ?_
  · intro s hinit
    change start n N = some s at hinit
    rw [hstart] at hinit
    cases hinit
    exact ⟨⟨n, rfl⟩, fun i hi => ⟨_, hwheels i hi⟩, fun c loop hc => by cases hc⟩
  · rintro s e s' h ⟨he, hperform⟩
    exact h.perform hn he hperform

/-- Without threads the first connection runs in the base loop, which has no wheel. -/
theorem exists_null (N : Nat) : ∃ s s', start 0 N = some s ∧ s.newConnection 0 = some s' ∧
    s'.getLoop 0 = some .base ∧ s'.insertEntry 0 = none :=
  ⟨_, _, rfl, rfl, rfl, rfl⟩

/-- `start` succeeds for every number of threads, and the wheel of every later connection is found in
every run exactly when there is a thread. -/
theorem loops_have_wheels_iff (loopThreads_ idleExpiredTime_ : Nat) :
    (∃ s, start loopThreads_ idleExpiredTime_ = some s) ∧
      ((∀ s, (runs loopThreads_ idleExpiredTime_).Reachable s → Safe s) ↔ 1 ≤ loopThreads_) := by
  rcases start_eq loopThreads_ idleExpiredTime_ with ⟨m, hstart, -⟩
  refine ⟨⟨_, hstart⟩, ?_, ?_⟩
  · intro hsafe
    by_contra hzero
    have hn : loopThreads_ = 0 := by omega
    subst hn
    rcases exists_null idleExpiredTime_ with ⟨s, s', hs, hs', hbase, hnull⟩
    -- the shortest run: `start` and one connection
    have hreach : (runs 0 idleExpiredTime_).Reachable s' := by
      refine .step (.init hs) (a := .newConnection 0) ⟨?_, hs'⟩
      rw [hstart] at hs
      cases hs
      rfl
    have hloop : s'.getLoop 0 ≠ none := by
      rw [hbase]
      exact Option.some_ne_none _
    exact (hsafe s' hreach).inserted 0 hloop hnull
  · intro hn s hs
    exact (reachable_inv hn hs).safe hn

/-- The default number of threads: a null pointer for the first connection. -/
theorem base_loop_without_wheel : ∃ s s', start 0 600 = some s ∧
    s.perform (.newConnection 0) = some s' ∧ s'.enabled (.insertEntry 0) ∧
      s'.perform (.insertEntry 0) = none := by
  rcases exists_null 600 with ⟨s, s', hs, hs', hbase, hnull⟩
  refine ⟨s, s', hs, hs', ?_, hnull⟩
  change s'.getLoop 0 ≠ none
  rw [hbase]
  exact Option.some_ne_none _

end Runs

end LoopWheels

end Web
end Longky
