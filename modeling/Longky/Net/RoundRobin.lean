import Mathlib.Data.Int.CardIntervalMod
import Longky.Net.TcpServer

/-!
# RoundRobin — how a server spreads its connections

`TcpServer::newConnection` takes the loop of each connection from `EventLoopThreadPool::getNextLoop`.
Connections come and go in any order, and the turn goes on.  Each loop gets every `n`-th connection,
so the loops have been given equally many up to one; and what the server queues for a connection, it
queues in the connection's own loop.
-/

namespace Longky
namespace Net

open Lib

/-- A list that takes the values of `f` in turn has each of them equally often, up to one. -/
theorem count_of_turns {α : Type} [DecidableEq α] {f : Nat → α} {n : Nat} (hn : 0 < n)
    (hinj : ∀ i < n, ∀ j < n, f i = f j → i = j) {j : Nat} (hj : j < n) (l : List α)
    (hl : ∀ (i : Nat) a, l[i]? = some a → a = f (i % n)) :
    l.count (f j) = l.length / n + if j < l.length % n then 1 else 0 := by
  have hcount : l.count (f j) = l.length.count (· ≡ j [MOD n]) := by
    induction l using List.reverseRecOn with
    | nil => rfl
    | append_singleton l a ih =>
        have hold : ∀ (i : Nat) b, l[i]? = some b → b = f (i % n) := by
          intro i b hb
          have hi := (List.getElem?_eq_some_iff.1 hb).1
          exact hl i b (by rw [List.getElem?_append_left hi, hb])
        have hlast : a = f (l.length % n) := hl l.length a (by simp)
        have hturn : a = f j ↔ l.length ≡ j [MOD n] := by
          rw [hlast, Nat.ModEq, Nat.mod_eq_of_lt hj]
          exact ⟨hinj _ (Nat.mod_lt _ hn) j hj, fun h => by rw [h]⟩
        calc (l ++ [a]).count (f j)
            = l.count (f j) + [a].count (f j) := List.count_append
          _ = l.length.count (· ≡ j [MOD n]) + if l.length ≡ j [MOD n] then 1 else 0 := by
              rw [ih hold]
              simp [List.count_singleton, hturn]
          _ = (l ++ [a]).length.count (· ≡ j [MOD n]) := by
              rw [List.length_append, List.length_singleton, Nat.count_succ]
  rw [hcount, Nat.count_modEq_card l.length hn j, Nat.mod_eq_of_lt hj]

def ServerFunctor.conn : ServerFunctor → TcpConnectionPtr
  | .connectEstablished conn | .connectDestroyed conn => conn

namespace TcpServer

variable {Loop : Type} {baseLoop : Loop} {startLoop : Nat → Loop} {n : Nat}

/-- The loop whose turn it is after `k` connections. -/
def loopOf (baseLoop : Loop) (startLoop : Nat → Loop) (n k : Nat) : Loop :=
  if n = 0 then baseLoop else startLoop (k % n)

theorem getNextLoop_loopOf (k : Nat) :
    (EventLoopThreadPool.rotated baseLoop startLoop n k).getNextLoop =
      some (loopOf baseLoop startLoop n k,
        EventLoopThreadPool.rotated baseLoop startLoop n (k + 1)) := by
  rcases Nat.eq_zero_or_pos n with rfl | hn
  · exact EventLoopThreadPool.getNextLoop_rotated_zero k
  · rw [loopOf, if_neg hn.ne']
    exact EventLoopThreadPool.getNextLoop_rotated hn k

structure InTurn (baseLoop : Loop) (startLoop : Nat → Loop) (n : Nat) (s : TcpServer Loop) :
    Prop where
  pool : s.threadPool_ = EventLoopThreadPool.rotated baseLoop startLoop n s.accepted.length
  loops : ∀ (i : Nat) c, s.accepted[i]? = some c → c.loop_ = loopOf baseLoop startLoop n i
  functors : ∀ p ∈ s.functors, (s.accepted[p.2.conn]?).map (·.loop_) = some p.1

variable {s s' : TcpServer Loop}

theorem InTurn.newConnection (h : s.InTurn baseLoop startLoop n) {sockfd : Int}
    (hs : s.newConnection sockfd = some s') : s'.InTurn baseLoop startLoop n := by
  obtain ⟨ioLoop, threadPool_, hloop, rfl⟩ := newConnection_eq_some hs
  rw [h.pool, getNextLoop_loopOf, Option.some.injEq, Prod.mk.injEq] at hloop
  obtain ⟨rfl, rfl⟩ := hloop
  refine ⟨by simp, fun i c hc => ?_, fun p hp => ?_⟩
  · rcases Positions.getElem?_concat hc with hold | ⟨rfl, rfl⟩
    · exact h.loops i c hold
    · rfl
  · rcases List.mem_append.1 hp with hold | hnew
    · obtain ⟨c, hc, hloop⟩ := Option.map_eq_some_iff.1 (h.functors p hold)
      have hlt := (List.getElem?_eq_some_iff.1 hc).1
      simp [List.getElem?_append_left hlt, hc, hloop]
    · cases List.mem_singleton.1 hnew
      simp [ServerFunctor.conn]

theorem InTurn.removeConnectionInLoop (h : s.InTurn baseLoop startLoop n)
    {conn : TcpConnectionPtr} (hs : s.removeConnectionInLoop conn = some s') :
    s'.InTurn baseLoop startLoop n := by
  cases hc : s.accepted[conn]? with
  | none => simp [TcpServer.removeConnectionInLoop, hc] at hs
  | some c =>
      rw [removeConnectionInLoop_eq s hc, Option.some.injEq] at hs
      subst hs
      refine ⟨h.pool, h.loops, fun p hp => ?_⟩
      rcases List.mem_append.1 hp with hold | hnew
      · exact h.functors p hold
      · cases List.mem_singleton.1 hnew
        simp [ServerFunctor.conn, hc]

theorem InTurn.next (h : s.InTurn baseLoop startLoop n) {e : Event} (hs : s.next e = some s') :
    s'.InTurn baseLoop startLoop n := by
  cases e with
  | newConnection sockfd => exact h.newConnection hs
  | removeConnectionInLoop conn => exact h.removeConnectionInLoop hs

/-- Whatever connections come and go: each one gets the loop whose turn it is, and everything the
server queues for it goes to that loop; and of `n` different loops, each has been given the same
number of connections, up to one. -/
theorem evenly_spread [DecidableEq Loop] {name_ ip : Bytes} {port : UInt16}
    (h : (runs.startAt (started name_ ip port
      (EventLoopThreadPool.rotated baseLoop startLoop n 0))).Reachable s) :
    (∀ (i : Nat) c, s.accepted[i]? = some c → c.loop_ = loopOf baseLoop startLoop n i) ∧
      (∀ p ∈ s.functors, (s.accepted[p.2.conn]?).map (·.loop_) = some p.1) ∧
        (0 < n → (∀ i < n, ∀ j < n, startLoop i = startLoop j → i = j) → ∀ j < n,
          (s.accepted.map (·.loop_)).count (startLoop j) =
            s.accepted.length / n + if j < s.accepted.length % n then 1 else 0) := by
  have hturn : s.InTurn baseLoop startLoop n := by
    refine h.invariant (P := InTurn baseLoop startLoop n) ?_ fun s e s' hs hstep => hs.next hstep
    rintro s rfl
    exact ⟨rfl, by simp [started], by simp [started]⟩
  refine ⟨hturn.loops, hturn.functors, fun hn hinj j hj => ?_⟩
  have hcount := count_of_turns hn hinj hj (s.accepted.map (·.loop_)) ?_
  · rwa [List.length_map] at hcount
  · intro i loop hloop
    rw [List.getElem?_map] at hloop
    obtain ⟨c, hc, rfl⟩ := Option.map_eq_some_iff.1 hloop
    rw [hturn.loops i c hc, loopOf, if_neg hn.ne']

theorem evenly_spread_comeAndGo : ∃ s, System.runAll next smallServer comeAndGo = some s ∧
    s.accepted.length = 3 ∧ (s.accepted.map (·.loop_)).count 1 = 2 := by
  have hrun : (System.runAll next smallServer comeAndGo).map (·.accepted.length) = some 3 := by
    decide +kernel
  obtain ⟨s, hs, hlength⟩ := Option.map_eq_some_iff.1 hrun
  have hreach : (runs.startAt (started (Bytes.ofString "s") (Bytes.ofString "0.0.0.0") 80
      (EventLoopThreadPool.rotated 0 (· + 1) 2 0))).Reachable s :=
    .of_runAll (fun _ _ _ hstep => hstep) (.init rfl) hs
  have hinj : ∀ i < 2, ∀ j < 2, i + 1 = j + 1 → i = j := fun i _ j _ hij => Nat.succ.inj hij
  have hspread := (evenly_spread hreach).2.2 (by decide) hinj 0 (by decide)
  rw [hlength] at hspread
  exact ⟨s, hs, hlength, hspread⟩

end TcpServer
end Net
end Longky
