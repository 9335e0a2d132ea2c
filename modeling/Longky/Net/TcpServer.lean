import Longky.Lib.Message
import Longky.Lib.Positions
import Longky.Lib.Reach
import Longky.Net.EventLoopThreadPool

/-!
# TcpServer — the connection map of a server

`netLayer/tcp/s/server/TcpServer.{h,cpp}`, with the texts of `InetAddress::toIpPort`.

`newConnection` names a connection after the listening address and a counter and puts it into
`connections_` under its name; `removeConnectionInLoop` erases what stands under the name of the
connection that it is given.  `connections_exact`: as long as the counter has not wrapped, the map
has exactly the connections that have been accepted and not removed.
-/

namespace Longky
namespace Net

open Lib

/-! ## Texts in fixed buffers -/

/-- What `snprintf` leaves in a buffer of `size` bytes. -/
def snprintf (size : Nat) (text : Bytes) : Bytes := text.take (size - 1)

/-- `sockets::toIpPort` into a buffer of 64 bytes; `ip` is what `inet_ntop` has written. -/
def toIpPort (ip : Bytes) (port : UInt16) : Bytes :=
  let buf := Bytes.cStr ip
  buf ++ snprintf (64 - buf.length) (Bytes.ofString ":" ++ Bytes.ofString (toString port.toNat))

/-! ## The server -/

/-- A pointer to the connection object made at a given call of `newConnection`. -/
abbrev TcpConnectionPtr := Nat

/-- What the server and its loops know of a connection object. -/
structure ServerConnection (Loop : Type) where
  loop_ : Loop
  name_ : Bytes
  sockfd : Int

inductive ServerFunctor where
  | connectEstablished (conn : TcpConnectionPtr)
  | connectDestroyed (conn : TcpConnectionPtr)
  deriving DecidableEq, Repr

/-- The members of `class TcpServer` that the map depends on; a `std::map` of pointers is a partial
function, in which the pointer may be null. -/
structure TcpServer (Loop : Type) where
  name_ : Bytes
  ipPort_ : Bytes
  threadPool_ : EventLoopThreadPool Loop
  nextConnId_ : Int := 1
  connections_ : Bytes → Option (Option TcpConnectionPtr) := fun _ => none
  /-- The connection objects made so far. -/
  accepted : List (ServerConnection Loop) := []
  /-- The connections whose `removeConnectionInLoop` has run. -/
  removed : List TcpConnectionPtr := []
  /-- What the loops of the connections have been given to run. -/
  functors : List (Loop × ServerFunctor) := []

namespace TcpServer

variable {Loop : Type}

/-! ## The map -/

/-- `connections_[name] = conn`. -/
def assign (m : Bytes → Option (Option TcpConnectionPtr)) (name : Bytes) (conn : TcpConnectionPtr) :
    Bytes → Option (Option TcpConnectionPtr) :=
  fun name' => if name' = name then some (some conn) else m name'

/-- The map after reading `connections_[name]`, which inserts a null pointer for a new name. -/
def subscript (m : Bytes → Option (Option TcpConnectionPtr)) (name : Bytes) :
    Bytes → Option (Option TcpConnectionPtr) :=
  fun name' => if name' = name ∧ m name = none then some none else m name'

/-- `connections_.erase(name)`, with the number of elements that it has erased. -/
def erase (m : Bytes → Option (Option TcpConnectionPtr)) (name : Bytes) :
    (Bytes → Option (Option TcpConnectionPtr)) × Nat :=
  (fun name' => if name' = name then none else m name', if (m name).isSome then 1 else 0)

/-- After `operator[]` there is always something to erase. -/
theorem erase_subscript (m : Bytes → Option (Option TcpConnectionPtr)) (name : Bytes) :
    erase (subscript m name) name = (fun name' => if name' = name then none else m name', 1) := by
  have hsome : (subscript m name name).isSome = true := by
    unfold subscript
    split
    · rfl
    · rename_i h
      exact Option.isSome_iff_ne_none.2 fun hnone => h ⟨rfl, hnone⟩
  unfold erase
  rw [if_pos hsome, Prod.mk.injEq]
  refine ⟨funext fun name' => ?_, rfl⟩
  by_cases hname : name' = name
  · rw [if_pos hname, if_pos hname]
  · rw [if_neg hname, if_neg hname, subscript, if_neg fun h => hname h.1]

/-! ## Operations -/

/-- `++nextConnId_` of a 32-bit `int`. -/
def increment (n : Int) : Int := (n + 1).bmod (2 ^ 32)

/-- What is printed into `buf`. -/
def connText (ipPort_ : Bytes) (nextConnId_ : Int) : Bytes :=
  Bytes.ofString "-" ++ Bytes.cStr ipPort_ ++ Bytes.ofString "#" ++
    Bytes.ofString (toString nextConnId_)

def connName (name_ ipPort_ : Bytes) (nextConnId_ : Int) : Bytes :=
  let buf := snprintf 64 (connText ipPort_ nextConnId_)
  name_ ++ Bytes.cStr buf

def newConnection (s : TcpServer Loop) (sockfd : Int) : Option (TcpServer Loop) := do
  let (ioLoop, threadPool_) ← s.threadPool_.getNextLoop
  let connName := connName s.name_ s.ipPort_ s.nextConnId_
  let conn := s.accepted.length
  return { s with
    threadPool_ := threadPool_
    nextConnId_ := increment s.nextConnId_
    accepted := s.accepted ++ [⟨ioLoop, connName, sockfd⟩]
    connections_ := assign s.connections_ connName conn
    functors := s.functors ++ [(ioLoop, .connectEstablished conn)] }

def removeConnectionInLoop (s : TcpServer Loop) (conn : TcpConnectionPtr) :
    Option (TcpServer Loop) := do
  let c ← s.accepted[conn]?
  let (connections_, n) := erase (subscript s.connections_ c.name_) c.name_
  -- "assert(n == 1)"
  if n = 1 then
    return { s with
      connections_ := connections_
      removed := conn :: s.removed
      functors := s.functors ++ [(c.loop_, .connectDestroyed conn)] }
  else none

/-- The assertion holds whatever was in the map. -/
theorem removeConnectionInLoop_eq (s : TcpServer Loop) {conn : TcpConnectionPtr}
    {c : ServerConnection Loop} (hc : s.accepted[conn]? = some c) :
    s.removeConnectionInLoop conn = some { s with
      connections_ := fun name => if name = c.name_ then none else s.connections_ name
      removed := conn :: s.removed
      functors := s.functors ++ [(c.loop_, .connectDestroyed conn)] } := by
  simp only [removeConnectionInLoop, hc, erase_subscript, Option.bind_eq_bind, Option.bind_some,
    if_true, Option.pure_def]

theorem newConnection_eq_some {s s' : TcpServer Loop} {sockfd : Int}
    (h : s.newConnection sockfd = some s') :
    ∃ ioLoop threadPool_, s.threadPool_.getNextLoop = some (ioLoop, threadPool_) ∧ s' = { s with
      threadPool_ := threadPool_
      nextConnId_ := increment s.nextConnId_
      accepted := s.accepted ++ [⟨ioLoop, connName s.name_ s.ipPort_ s.nextConnId_, sockfd⟩]
      connections_ := assign s.connections_ (connName s.name_ s.ipPort_ s.nextConnId_)
        s.accepted.length
      functors := s.functors ++ [(ioLoop, .connectEstablished s.accepted.length)] } := by
  rcases Option.bind_eq_some_iff.1 h with ⟨⟨ioLoop, threadPool_⟩, hloop, hs'⟩
  cases hs'
  exact ⟨ioLoop, threadPool_, hloop, rfl⟩

/-! ## Runs -/

inductive Event where
  | newConnection (sockfd : Int)
  | removeConnectionInLoop (conn : TcpConnectionPtr)
  deriving DecidableEq, Repr

def next (s : TcpServer Loop) : Event → Option (TcpServer Loop)
  | .newConnection sockfd => s.newConnection sockfd
  | .removeConnectionInLoop conn => s.removeConnectionInLoop conn

/-- A server that has been started, of any name and on any address. -/
def started (name_ ip : Bytes) (port : UInt16) (threadPool_ : EventLoopThreadPool Loop) :
    TcpServer Loop where
  name_ := name_
  ipPort_ := toIpPort ip port
  threadPool_ := threadPool_

/-- The runs of a server, whose address has a text of at most 45 characters and a port. -/
def runs : System (TcpServer Loop) Event where
  init s := ∃ name_ ip port baseLoop startLoop n threadPool_, (Bytes.cStr ip).length ≤ 45 ∧
    (EventLoopThreadPool.setThreadNum { baseLoop_ := baseLoop } n).start startLoop =
      some threadPool_ ∧
    s = started name_ ip port threadPool_
  step s e s' := s.next e = some s'

/-! ## Names -/

theorem length_cStr_le (text : Bytes) : (Bytes.cStr text).length ≤ text.length :=
  (List.takeWhile_prefix _).length_le

theorem zero_not_mem_cStr (text : Bytes) : 0 ∉ Bytes.cStr text := by
  intro h
  simpa using List.mem_takeWhile_imp h

theorem length_toIpPort {ip : Bytes} (h : (Bytes.cStr ip).length ≤ 45) (port : UInt16) :
    (toIpPort ip port).length ≤ 51 := by
  have hport : (Bytes.ofString (toString port.toNat)).length ≤ 5 := by
    rw [Bytes.length_ofString_nat_le (by decide)]
    have := port.toNat_lt
    omega
  have hcolon : (Bytes.ofString ":").length = 1 := by decide
  simp only [toIpPort, snprintf, List.length_append, List.length_take, hcolon]
  omega

theorem zero_not_mem_int (n : Int) : 0 ∉ Bytes.ofString (toString n) := by
  have hdigits : ∀ m : Nat, 0 ∉ Bytes.ofString (toString m) := fun m h => by
    have hdigit := Bytes.isdigit_of_mem h
    revert hdigit
    decide
  rw [Bytes.ofString_int]
  split
  · exact hdigits _
  · rw [List.mem_cons, not_or]
    exact ⟨by decide, hdigits _⟩

theorem zero_not_mem_connText (ipPort_ : Bytes) (n : Int) : 0 ∉ connText ipPort_ n := by
  have hdash : 0 ∉ Bytes.ofString "-" := by decide
  have hsharp : 0 ∉ Bytes.ofString "#" := by decide
  simp only [connText, List.mem_append, not_or]
  exact ⟨⟨⟨hdash, zero_not_mem_cStr _⟩, hsharp⟩, zero_not_mem_int n⟩

/-- The buffer has room for the address and for each id that is not negative: the name is never
cut off. -/
theorem connName_eq (name_ : Bytes) {ipPort_ : Bytes} (h : ipPort_.length ≤ 51) {n : Nat}
    (hn : n < 2 ^ 31) : connName name_ ipPort_ n = name_ ++ connText ipPort_ n := by
  have hid : (Bytes.ofString (toString (n : Int))).length ≤ 10 := by
    rw [Bytes.ofString_int_eq_nat.2 rfl, Bytes.length_ofString_nat_le (by decide)]
    omega
  have hip := (length_cStr_le ipPort_).trans h
  have hdash : (Bytes.ofString "-").length = 1 := by decide
  have hsharp : (Bytes.ofString "#").length = 1 := by decide
  have hlength : (connText ipPort_ n).length ≤ 63 := by
    simp only [connText, List.length_append, hdash, hsharp]
    omega
  simp only [connName, snprintf]
  rw [List.take_of_length_le hlength, Bytes.cStr_eq_self (zero_not_mem_connText _ _)]

theorem connText_inj {ipPort_ : Bytes} {m n : Nat} :
    connText ipPort_ m = connText ipPort_ n ↔ m = n := by
  rw [connText, connText, List.append_cancel_left_eq, Bytes.ofString_int_eq_nat.2 rfl,
    Bytes.ofString_int_eq_nat.2 rfl, Bytes.ofString_nat_inj]

/-! ## The invariant -/

/-- The value of `nextConnId_` for the connection with this number. -/
def idOf (conn : Nat) : Int := ((conn : Int) + 1).bmod (2 ^ 32)

theorem idOf_succ (conn : Nat) : increment (idOf conn) = idOf (conn + 1) := by
  unfold increment idOf
  rw [Int.bmod_add_bmod]
  push_cast
  rfl

theorem idOf_eq {conn : Nat} (h : conn + 1 < 2 ^ 31) :
    idOf conn = ((conn + 1 : Nat) : Int) := by
  unfold idOf
  rw [Int.bmod_eq_of_le] <;> omega

structure Inv (s : TcpServer Loop) : Prop where
  threadPool : ∃ baseLoop startLoop n k,
    s.threadPool_ = EventLoopThreadPool.rotated baseLoop startLoop n k
  ipPort : s.ipPort_.length ≤ 51
  nextId : s.nextConnId_ = idOf s.accepted.length
  names : ∀ conn c, s.accepted[conn]? = some c →
    c.name_ = connName s.name_ s.ipPort_ (idOf conn)
  removed : ∀ conn : Nat, conn ∈ s.removed → conn < s.accepted.length
  connections : s.accepted.length < 2 ^ 31 → ∀ name conn, s.connections_ name = some conn ↔
    ∃ (k : Nat) (c : _), s.accepted[k]? = some c ∧ k ∉ s.removed ∧ c.name_ = name ∧ conn = some k

/-- While the ids are positive, a name belongs to one connection. -/
theorem Inv.unique {s : TcpServer Loop} (h : s.Inv) (hlen : s.accepted.length < 2 ^ 31)
    {i j : Nat} {c d : ServerConnection Loop} (hi : s.accepted[i]? = some c)
    (hj : s.accepted[j]? = some d) (hname : c.name_ = d.name_) : i = j := by
  have hilt := (List.getElem?_eq_some_iff.1 hi).1
  have hjlt := (List.getElem?_eq_some_iff.1 hj).1
  rw [h.names i c hi, h.names j d hj, idOf_eq (by omega), idOf_eq (by omega),
    connName_eq _ h.ipPort (by omega), connName_eq _ h.ipPort (by omega),
    List.append_cancel_left_eq, connText_inj] at hname
  omega

/-- A pool that has been started always has a loop to give. -/
theorem getNextLoop_rotated (baseLoop : Loop) (startLoop : Nat → Loop) (n k : Nat) :
    ∃ loop, (EventLoopThreadPool.rotated baseLoop startLoop n k).getNextLoop =
      some (loop, EventLoopThreadPool.rotated baseLoop startLoop n (k + 1)) := by
  rcases Nat.eq_zero_or_pos n with rfl | hn
  · exact ⟨_, EventLoopThreadPool.getNextLoop_rotated_zero k⟩
  · exact ⟨_, EventLoopThreadPool.getNextLoop_rotated hn k⟩

theorem started_inv (name_ : Bytes) {ip : Bytes} (h : (Bytes.cStr ip).length ≤ 45) (port : UInt16)
    (baseLoop : Loop) (startLoop : Nat → Loop) (n : Nat) :
    (started name_ ip port (EventLoopThreadPool.rotated baseLoop startLoop n 0)).Inv where
  threadPool := ⟨baseLoop, startLoop, n, 0, rfl⟩
  ipPort := length_toIpPort h port
  nextId := (idOf_eq (by decide)).symm
  names := by simp [started]
  removed := by simp [started]
  connections := by simp [started]

/-- The step that accepts a connection. -/
theorem Inv.newConnection {s s' : TcpServer Loop} (h : s.Inv) {sockfd : Int}
    (hs : s.newConnection sockfd = some s') : s'.Inv := by
  rcases newConnection_eq_some hs with ⟨ioLoop, threadPool_, hloop, rfl⟩
  rcases h.threadPool with ⟨baseLoop, startLoop, n, turn, hpool⟩
  rcases getNextLoop_rotated baseLoop startLoop n turn with ⟨loop, hnext⟩
  rw [hpool, hnext, Option.some.injEq, Prod.mk.injEq] at hloop
  generalize hnew : (⟨ioLoop, connName s.name_ s.ipPort_ s.nextConnId_, sockfd⟩ :
    ServerConnection Loop) = new
  have hnewName : new.name_ = connName s.name_ s.ipPort_ (idOf s.accepted.length) := by
    rw [← hnew, h.nextId]
  have hlast : (s.accepted ++ [new])[s.accepted.length]? = some new := by simp
  refine ⟨⟨baseLoop, startLoop, n, turn + 1, hloop.2.symm⟩, h.ipPort, ?_, ?_, ?_, ?_⟩
  · rw [h.nextId, idOf_succ]
    simp
  · intro conn c hc
    rcases Positions.getElem?_concat hc with hc | ⟨rfl, rfl⟩
    · exact h.names conn c hc
    · exact hnewName
  · intro conn hconn
    have hlt := h.removed conn hconn
    simp only [List.length_append, List.length_singleton]
    omega
  · intro hlen name conn
    simp only [List.length_append, List.length_singleton] at hlen
    -- the new name is none of those before it
    have hfresh : ∀ (k : Nat) (c : ServerConnection Loop), s.accepted[k]? = some c →
        c.name_ ≠ new.name_ := by
      intro k c hc hname
      have hk := (List.getElem?_eq_some_iff.1 hc).1
      rw [h.names k c hc, hnewName, idOf_eq (by omega), idOf_eq (by omega),
        connName_eq _ h.ipPort (by omega), connName_eq _ h.ipPort (by omega),
        List.append_cancel_left_eq, connText_inj] at hname
      omega
    rw [h.nextId, ← hnewName]
    simp only [assign]
    split
    · rename_i hname
      subst hname
      constructor
      · intro hconn
        cases hconn
        exact ⟨_, new, hlast, fun hmem => Nat.lt_irrefl _ (h.removed _ hmem), rfl, rfl⟩
      · rintro ⟨k, c, hc, -, hkname, rfl⟩
        rcases Positions.getElem?_concat hc with hc | ⟨rfl, -⟩
        · exact absurd hkname (hfresh k c hc)
        · rfl
    · rename_i hname
      rw [h.connections (by omega)]
      constructor
      · rintro ⟨k, c, hc, hrem, hkname, hconn⟩
        have hk := (List.getElem?_eq_some_iff.1 hc).1
        exact ⟨k, c, by rw [List.getElem?_append_left hk, hc], hrem, hkname, hconn⟩
      · rintro ⟨k, c, hc, hrem, hkname, hconn⟩
        rcases Positions.getElem?_concat hc with hc | ⟨rfl, rfl⟩
        · exact ⟨k, c, hc, hrem, hkname, hconn⟩
        · exact absurd hkname.symm hname

/-- The step that removes one. -/
theorem Inv.removeConnectionInLoop {s s' : TcpServer Loop} (h : s.Inv) {conn : TcpConnectionPtr}
    (hs : s.removeConnectionInLoop conn = some s') : s'.Inv := by
  cases hc : s.accepted[conn]? with
  | none => simp [TcpServer.removeConnectionInLoop, hc] at hs
  | some c =>
      rw [removeConnectionInLoop_eq s hc, Option.some.injEq] at hs
      subst hs
      refine ⟨h.threadPool, h.ipPort, h.nextId, h.names, ?_, ?_⟩
      · intro k hk
        rcases List.mem_cons.1 hk with rfl | hk
        · exact (List.getElem?_eq_some_iff.1 hc).1
        · exact h.removed k hk
      · intro hlen name k
        dsimp only
        split
        · rename_i hname
          refine iff_of_false (by simp) ?_
          rintro ⟨i, d, hi, hrem, hdname, -⟩
          rw [List.mem_cons, not_or] at hrem
          exact hrem.1 (h.unique hlen hi hc (hdname.trans hname))
        · rename_i hname
          rw [h.connections hlen]
          constructor
          · rintro ⟨i, d, hi, hrem, hdname, hk⟩
            refine ⟨i, d, hi, ?_, hdname, hk⟩
            rw [List.mem_cons, not_or]
            refine ⟨?_, hrem⟩
            rintro rfl
            rw [hc, Option.some.injEq] at hi
            exact hname (hi ▸ hdname).symm
          · rintro ⟨i, d, hi, hrem, hdname, hk⟩
            exact ⟨i, d, hi, fun hmem => hrem (List.mem_cons_of_mem _ hmem), hdname, hk⟩

theorem reachable_inv {s : TcpServer Loop} (h : runs.Reachable s) : s.Inv := by
  refine System.Reachable.invariant (P := Inv) ?_ ?_ h
  · rintro s ⟨name_, ip, port, baseLoop, startLoop, n, threadPool_, hip, hpool, rfl⟩
    rw [EventLoopThreadPool.start_eq, Option.some.injEq] at hpool
    exact hpool ▸ started_inv name_ hip port baseLoop startLoop n
  · intro s e s' hs hstep
    cases e with
    | newConnection sockfd => exact hs.newConnection hstep
    | removeConnectionInLoop conn => exact hs.removeConnectionInLoop hstep

/-! ## The map in a run -/

/-- No step of a started server fails. -/
theorem Inv.next_isSome {s : TcpServer Loop} (h : s.Inv) (e : Event)
    (he : ∀ conn, e = .removeConnectionInLoop conn → conn < s.accepted.length) :
    (s.next e).isSome = true := by
  cases e with
  | newConnection sockfd =>
      rcases h.threadPool with ⟨baseLoop, startLoop, n, turn, hpool⟩
      rcases getNextLoop_rotated baseLoop startLoop n turn with ⟨loop, hnext⟩
      simp [TcpServer.next, TcpServer.newConnection, hpool, hnext]
  | removeConnectionInLoop conn =>
      rw [TcpServer.next,
        removeConnectionInLoop_eq s (List.getElem?_eq_getElem (he conn rfl))]
      rfl

/-- The connections have different names, each with its whole id; the map has those that have been
accepted and not removed; and a removal takes away its own connection alone. -/
theorem connections_exact {s : TcpServer Loop} (h : runs.Reachable s)
    (hlen : s.accepted.length < 2 ^ 31) :
    (∀ (conn : Nat) (c : _), s.accepted[conn]? = some c →
      c.name_ = s.name_ ++ connText s.ipPort_ ((conn + 1 : Nat) : Int)) ∧
    (∀ (i j : Nat) (c d : _), s.accepted[i]? = some c → s.accepted[j]? = some d →
      c.name_ = d.name_ → i = j) ∧
    (∀ name conn, s.connections_ name = some conn ↔
      ∃ (k : Nat) (c : _), s.accepted[k]? = some c ∧ k ∉ s.removed ∧ c.name_ = name ∧
        conn = some k) ∧
    ∀ (conn : Nat) (c : _), s.accepted[conn]? = some c →
      ∃ s', s.removeConnectionInLoop conn = some s' ∧
        (conn ∉ s.removed → s.connections_ c.name_ = some (some conn)) ∧
        s'.connections_ c.name_ = none ∧
        ∀ name, name ≠ c.name_ → s'.connections_ name = s.connections_ name := by
  have hinv := reachable_inv h
  refine ⟨?_, fun i j c d hi hj => hinv.unique hlen hi hj, hinv.connections hlen, ?_⟩
  · intro conn c hc
    have hlt := (List.getElem?_eq_some_iff.1 hc).1
    rw [hinv.names conn c hc, idOf_eq (by omega), connName_eq _ hinv.ipPort (by omega)]
  · intro conn c hc
    refine ⟨_, removeConnectionInLoop_eq s hc, ?_, if_pos rfl, fun name hname => if_neg hname⟩
    intro hrem
    exact (hinv.connections hlen _ _).2 ⟨conn, c, hc, hrem, rfl, rfl⟩

/-- Two connections come, the first one goes, and a third one comes. -/
def comeAndGo : List Event :=
  [.newConnection 5, .newConnection 6, .removeConnectionInLoop 0, .newConnection 5]

def smallServer : TcpServer Nat :=
  started (Bytes.ofString "s") (Bytes.ofString "0.0.0.0") 80
    (EventLoopThreadPool.rotated 0 (· + 1) 2 0)

theorem connections_exact_comeAndGo : ∃ s, System.runAll next smallServer comeAndGo = some s ∧
    s.connections_ (Bytes.ofString "s-0.0.0.0:80#1") = none ∧
    s.connections_ (Bytes.ofString "s-0.0.0.0:80#3") = some (some 2) ∧
    ∃ s', s.removeConnectionInLoop 1 = some s' := by
  obtain ⟨s, hs, hend⟩ : ∃ s, System.runAll next smallServer comeAndGo = some s ∧
      (s.accepted.length = 3 ∧ s.connections_ (Bytes.ofString "s-0.0.0.0:80#1") = none ∧
        s.connections_ (Bytes.ofString "s-0.0.0.0:80#3") = some (some 2)) := by
    have hrun : (System.runAll next smallServer comeAndGo).map (fun s => decide
        (s.accepted.length = 3 ∧ s.connections_ (Bytes.ofString "s-0.0.0.0:80#1") = none ∧
          s.connections_ (Bytes.ofString "s-0.0.0.0:80#3") = some (some 2))) = some true := by
      decide +kernel
    rcases Option.map_eq_some_iff.1 hrun with ⟨s, hs, hall⟩
    exact ⟨s, hs, of_decide_eq_true hall⟩
  have hreach : runs.Reachable s := by
    refine .of_runAll (fun _ _ _ hstep => hstep) (.init ?_) hs
    exact ⟨_, _, _, 0, (· + 1), 2, _, by decide +kernel, EventLoopThreadPool.start_eq _ _ _, rfl⟩
  rcases connections_exact hreach (by omega) with ⟨-, -, -, hremove⟩
  have hsecond : s.accepted[1]? = some s.accepted[1] := List.getElem?_eq_getElem (by omega)
  rcases hremove 1 _ hsecond with ⟨s', hs', -⟩
  exact ⟨s, hs, hend.2.1, hend.2.2, s', hs'⟩

end TcpServer
end Net
end Longky
