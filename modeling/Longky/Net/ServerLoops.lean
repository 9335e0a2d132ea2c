import Longky.Lib.Mailboxes
import Longky.Net.TcpServer

/-!
# ServerLoops — a server and the loops of its connections

`newConnection`, `removeConnection` and `removeConnectionInLoop` of
`netLayer/tcp/s/server/TcpServer.cpp`, with the functors that they hand from loop to loop.  The
server lives in the base loop; each connection lives in the loop that the pool gave it, which may
be the base loop itself.  `runInLoop` calls on the spot in the loop's own thread and queues from
another; `queueInLoop` always queues.

A connection goes through `connectEstablished`, `handleClose`, `removeConnectionInLoop` and
`connectDestroyed`.  `due` is the one functor that it waits for at each stage, and the invariant is
that the queues hold exactly the functors that are due.
-/

namespace Longky
namespace Net

open Lib

inductive LoopFunctor where
  | connectEstablished (conn : TcpConnectionPtr)
  | removeConnectionInLoop (conn : TcpConnectionPtr)
  | connectDestroyed (conn : TcpConnectionPtr)
  deriving DecidableEq, Repr

def LoopFunctor.conn : LoopFunctor → TcpConnectionPtr
  | connectEstablished conn | removeConnectionInLoop conn | connectDestroyed conn => conn

/-- How far a connection has come. -/
inductive Stage where
  /-- `newConnection` has made it. -/
  | made
  /-- `connectEstablished` has put its channel into the poller. -/
  | established
  /-- `handleClose` has disabled the channel and called `closeCallback_`. -/
  | closing
  /-- `removeConnectionInLoop` has erased it from the map. -/
  | removed
  /-- `connectDestroyed` has taken the channel out of the poller. -/
  | destroyed
  deriving DecidableEq, Repr

structure ServerLoops (Loop : Type) where
  server : TcpServer Loop
  /-- `pendingFunctors_` of each loop. -/
  queue : Mailboxes Loop LoopFunctor := fun _ => []
  stage : TcpConnectionPtr → Option Stage := fun _ => none
  /-- The functors that have run, with the loop they ran in. -/
  ran : List (Loop × LoopFunctor) := []

inductive ServerAction (Loop : Type) where
  /-- The acceptor, in the base loop, has a new connection. -/
  | newConnection (sockfd : Int)
  /-- `handleClose` of an established connection, in its own loop. -/
  | handleClose (conn : TcpConnectionPtr)
  /-- A loop runs the first of its pending functors. -/
  | runNext (loop : Loop)

namespace ServerLoops

variable {Loop : Type} [DecidableEq Loop]

def baseLoop (s : ServerLoops Loop) : Loop := s.server.threadPool_.baseLoop_

def setStage (s : ServerLoops Loop) (conn : TcpConnectionPtr) (stage : Stage) : ServerLoops Loop :=
  { s with stage := Function.update s.stage conn (some stage) }

/-- Call a functor in the thread of `loop`; none when an assertion fails. -/
def call (s : ServerLoops Loop) (loop : Loop) (f : LoopFunctor) : Option (ServerLoops Loop) := do
  let c ← s.server.accepted[f.conn]?
  let s₁ := { s with ran := s.ran ++ [(loop, f)] }
  match f with
  | .connectEstablished conn =>
      -- `assertInLoopThread()` and `assert(state_ == kConnecting)`
      if loop = c.loop_ ∧ s.stage conn = some .made then some (s₁.setStage conn .established)
      else none
  | .removeConnectionInLoop conn =>
      if loop = s.baseLoop then do
        let server ← s.server.removeConnectionInLoop conn
        return { s₁.setStage conn .removed with
          server := server
          queue := s.queue.put c.loop_ (.connectDestroyed conn) }
      else none
  | .connectDestroyed conn =>
      -- the poller asserts that it has the channel
      if loop = c.loop_ ∧ (s.stage conn = some .established ∨ s.stage conn = some .closing ∨
          s.stage conn = some .removed) then
        some (s₁.setStage conn .destroyed)
      else none

/-- `target->runInLoop(f)` in the thread of `loop`. -/
def runInLoop (s : ServerLoops Loop) (loop target : Loop) (f : LoopFunctor) :
    Option (ServerLoops Loop) :=
  if loop = target then s.call loop f else some { s with queue := s.queue.put target f }

def next (s : ServerLoops Loop) : ServerAction Loop → Option (ServerLoops Loop)
  | .newConnection sockfd => do
      let server ← s.server.newConnection sockfd
      let conn := s.server.accepted.length
      let c ← server.accepted[conn]?
      ({ s with server := server }.setStage conn .made).runInLoop s.baseLoop c.loop_
        (.connectEstablished conn)
  | .handleClose conn => do
      let c ← s.server.accepted[conn]?
      if s.stage conn = some .established then
        (s.setStage conn .closing).runInLoop c.loop_ s.baseLoop (.removeConnectionInLoop conn)
      else none
  | .runNext loop =>
      match s.queue loop with
      | [] => none
      | f :: rest => { s with queue := Function.update s.queue loop rest }.call loop f

/-- The runs of a started server of any name, on any address, with any number of threads. -/
def runs : System (ServerLoops Loop) (ServerAction Loop) where
  init s := ∃ server, TcpServer.runs.init server ∧ s = { server := server }
  step s a s' := s.next a = some s'

/-! ## What is due -/

/-- The functor that a connection of `loop` waits for, with the loop that is to run it. -/
def dueAt (baseLoop loop : Loop) (conn : TcpConnectionPtr) : Stage → Option (Loop × LoopFunctor)
  | .made => some (loop, .connectEstablished conn)
  | .established => none
  | .closing => some (baseLoop, .removeConnectionInLoop conn)
  | .removed => some (loop, .connectDestroyed conn)
  | .destroyed => none

/-- The functors of a connection that have run, with the loops they ran in. -/
def ranAt (baseLoop loop : Loop) (conn : TcpConnectionPtr) : Stage → List (Loop × LoopFunctor)
  | .made => []
  | .established | .closing => [(loop, .connectEstablished conn)]
  | .removed => [(loop, .connectEstablished conn), (baseLoop, .removeConnectionInLoop conn)]
  | .destroyed => [(loop, .connectEstablished conn), (baseLoop, .removeConnectionInLoop conn),
      (loop, .connectDestroyed conn)]

def Due (s : ServerLoops Loop) (loop : Loop) (f : LoopFunctor) : Prop :=
  ∃ c stage, s.server.accepted[f.conn]? = some c ∧ s.stage f.conn = some stage ∧
    dueAt s.baseLoop c.loop_ f.conn stage = some (loop, f)

omit [DecidableEq Loop] in
theorem conn_of_dueAt {baseLoop loop loop' : Loop} {conn : TcpConnectionPtr} {stage : Stage}
    {f : LoopFunctor} (h : dueAt baseLoop loop conn stage = some (loop', f)) : f.conn = conn := by
  cases stage <;> simp only [dueAt, Option.some.injEq, Prod.mk.injEq, reduceCtorEq] at h
  all_goals
    rw [← h.2]
    rfl

/-- What the server, the stages and the record of the functors have to do with each other. -/
structure Books (s : ServerLoops Loop) : Prop where
  server : s.server.Inv
  stages : ∀ conn, s.stage conn = none ↔ s.server.accepted.length ≤ conn
  removed : ∀ conn, conn ∈ s.server.removed ↔
    s.stage conn = some .removed ∨ s.stage conn = some .destroyed
  ran : ∀ conn c stage, s.server.accepted[conn]? = some c → s.stage conn = some stage →
    s.ran.filter (fun e => e.2.conn = conn) = ranAt s.baseLoop c.loop_ conn stage
  known : ∀ e ∈ s.ran, e.2.conn < s.server.accepted.length

/-- `hand` is a functor that is due and in no queue. -/
def Inv (s : ServerLoops Loop) (hand : Option (Loop × LoopFunctor)) : Prop :=
  s.Books ∧ Mailboxes.Pending s.queue s.Due hand

/-! ## Moving a connection on -/

omit [DecidableEq Loop] in
/-- Another stage of one connection changes what is due for that connection alone. -/
theorem due_setStage {s s' : ServerLoops Loop} {conn : TcpConnectionPtr} {stage : Stage}
    {c : ServerConnection Loop} (hc : s.server.accepted[conn]? = some c)
    (hacc : s'.server.accepted = s.server.accepted) (hbase : s'.baseLoop = s.baseLoop)
    (hstage : s'.stage = Function.update s.stage conn (some stage)) (loop : Loop)
    (f : LoopFunctor) :
    s'.Due loop f ↔ (f.conn = conn ∧ dueAt s.baseLoop c.loop_ conn stage = some (loop, f)) ∨
      (f.conn ≠ conn ∧ s.Due loop f) := by
  unfold Due
  rw [hacc, hbase, hstage]
  by_cases hf : f.conn = conn
  · simp only [hf, Function.update_self, hc, Option.some.injEq, ne_eq, not_true_eq_false,
      false_and, or_false, true_and]
    constructor
    · rintro ⟨c', stage', rfl, rfl, hdue⟩
      exact hdue
    · intro hdue
      exact ⟨c, stage, rfl, rfl, hdue⟩
  · simp [hf]

omit [DecidableEq Loop] in
theorem due_iff_of_stage {s : ServerLoops Loop} {conn : TcpConnectionPtr} {stage : Stage}
    {c : ServerConnection Loop} (hc : s.server.accepted[conn]? = some c)
    (hstage : s.stage conn = some stage) {loop : Loop} {f : LoopFunctor} (hf : f.conn = conn) :
    s.Due loop f ↔ dueAt s.baseLoop c.loop_ conn stage = some (loop, f) := by
  unfold Due
  subst hf
  constructor
  · rintro ⟨c', stage', hc', hstage', hdue⟩
    rw [hc, Option.some.injEq] at hc'
    rw [hstage, Option.some.injEq] at hstage'
    rwa [hc', hstage']
  · exact fun hdue => ⟨c, stage, hc, hstage, hdue⟩

omit [DecidableEq Loop] in
/-- What a change of stage does to the functors that are due. -/
theorem due_move {s : ServerLoops Loop} (s' : ServerLoops Loop) {conn : TcpConnectionPtr}
    {stage stage' : Stage}
    {c : ServerConnection Loop} (hc : s.server.accepted[conn]? = some c)
    (hst : s.stage conn = some stage) (hacc : s'.server.accepted = s.server.accepted)
    (hbase : s'.baseLoop = s.baseLoop)
    (hstage : s'.stage = Function.update s.stage conn (some stage')) (loop : Loop)
    (f : LoopFunctor) :
    s'.Due loop f ↔ (s.Due loop f ∧ dueAt s.baseLoop c.loop_ conn stage ≠ some (loop, f)) ∨
      dueAt s.baseLoop c.loop_ conn stage' = some (loop, f) := by
  rw [due_setStage hc hacc hbase hstage]
  by_cases hf : f.conn = conn
  · simp [due_iff_of_stage hc hst hf, hf]
  · have hother : ∀ stage, dueAt s.baseLoop c.loop_ conn stage ≠ some (loop, f) := fun stage h =>
      hf (conn_of_dueAt h)
    simp [hf, hother]

omit [DecidableEq Loop] in
theorem Books.move {s s' : ServerLoops Loop} (h : s.Books) {conn : TcpConnectionPtr}
    {c : ServerConnection Loop} {stage stage' : Stage} {new : List (Loop × LoopFunctor)}
    (hc : s.server.accepted[conn]? = some c) (hst : s.stage conn = some stage)
    (hserver : s'.server.Inv) (hacc : s'.server.accepted = s.server.accepted)
    (hbase : s'.baseLoop = s.baseLoop)
    (hstage : s'.stage = Function.update s.stage conn (some stage'))
    (hran : s'.ran = s.ran ++ new) (hconn : ∀ e ∈ new, e.2.conn = conn)
    (hnew : ranAt s.baseLoop c.loop_ conn stage ++ new = ranAt s.baseLoop c.loop_ conn stage')
    (hremoved : ∀ k, k ∈ s'.server.removed ↔
      (k = conn ∧ (stage' = .removed ∨ stage' = .destroyed)) ∨ (k ≠ conn ∧ k ∈ s.server.removed)) :
    s'.Books where
  server := hserver
  stages k := by
    rw [hacc, hstage]
    by_cases hk : k = conn
    · subst hk
      rw [Function.update_self, ← h.stages, hst]
      simp
    · rw [Function.update_of_ne hk, h.stages]
  removed k := by
    rw [hremoved, hstage]
    by_cases hk : k = conn
    · subst hk
      simp
    · simp [hk, h.removed]
  ran k d stage₁ hd hst₁ := by
    rw [hacc] at hd
    rw [hstage] at hst₁
    rw [hran, List.filter_append, hbase]
    by_cases hk : k = conn
    · subst hk
      rw [hc, Option.some.injEq] at hd
      rw [Function.update_self, Option.some.injEq] at hst₁
      have hall : new.filter (fun e => e.2.conn = k) = new :=
        List.filter_eq_self.2 fun e he => by simpa using hconn e he
      rw [hall, h.ran k c stage hc hst, hnew, hst₁, hd]
    · rw [Function.update_of_ne hk] at hst₁
      have hnone : new.filter (fun e => e.2.conn = k) = [] := by
        refine List.filter_eq_nil_iff.2 fun e he => ?_
        simpa [hconn e he] using Ne.symm hk
      rw [hnone, List.append_nil, h.ran k d stage₁ hd hst₁]
  known e he := by
    rw [hacc]
    rw [hran] at he
    rcases List.mem_append.1 he with hold | hnew'
    · exact h.known e hold
    · rw [hconn e hnew']
      exact (List.getElem?_eq_some_iff.1 hc).1

/-! ## A functor is called -/

omit [DecidableEq Loop] in
/-- A functor has run that moves its connection to a stage in which nothing is due. -/
theorem Inv.settle {s : ServerLoops Loop} {loop : Loop} {f : LoopFunctor}
    {c : ServerConnection Loop} {stage stage' : Stage} (h : s.Inv (some (loop, f)))
    (hc : s.server.accepted[f.conn]? = some c) (hst : s.stage f.conn = some stage)
    (hdue : dueAt s.baseLoop c.loop_ f.conn stage = some (loop, f))
    (hnone : dueAt s.baseLoop c.loop_ f.conn stage' = none)
    (hran : ranAt s.baseLoop c.loop_ f.conn stage ++ [(loop, f)] =
      ranAt s.baseLoop c.loop_ f.conn stage')
    (hremoved : (stage' = .removed ∨ stage' = .destroyed) ↔
      (stage = .removed ∨ stage = .destroyed)) :
    ({ s with ran := s.ran ++ [(loop, f)] }.setStage f.conn stage').Inv none := by
  obtain ⟨hbooks, hpending⟩ := h
  refine ⟨hbooks.move hc hst hbooks.server rfl rfl rfl rfl (by simp) hran ?_, ?_⟩
  · intro k
    by_cases hk : k = f.conn
    · subst hk
      simp [setStage, hbooks.removed, hst, hremoved]
    · simp [setStage, hk]
  · refine hpending.done fun l g => ?_
    have hmove := due_move ({ s with ran := s.ran ++ [(loop, f)] }.setStage f.conn stage') hc hst
      rfl rfl rfl l g
    rw [hmove, hnone, hdue]
    simp [eq_comm]

/-- `removeConnectionInLoop` puts `connectDestroyed` into the connection's queue. -/
theorem Inv.callRemove {s : ServerLoops Loop} {conn : TcpConnectionPtr}
    {c : ServerConnection Loop} (h : s.Inv (some (s.baseLoop, .removeConnectionInLoop conn)))
    (hc : s.server.accepted[conn]? = some c) (hst : s.stage conn = some .closing) :
    ∃ s', s.call s.baseLoop (.removeConnectionInLoop conn) = some s' ∧ s'.Inv none := by
  obtain ⟨hbooks, hpending⟩ := h
  have hremove := TcpServer.removeConnectionInLoop_eq s.server hc
  let s₁ : ServerLoops Loop :=
    { s with ran := s.ran ++ [(s.baseLoop, LoopFunctor.removeConnectionInLoop conn)] }
  generalize hserver : ({ s.server with
    connections_ := fun name => if name = c.name_ then none else s.server.connections_ name
    removed := conn :: s.server.removed
    functors := s.server.functors ++ [(c.loop_, .connectDestroyed conn)] } :
      TcpServer Loop) = server at hremove
  refine ⟨{ s₁.setStage conn .removed with
    server := server
    queue := s.queue.put c.loop_ (.connectDestroyed conn) }, ?_, ?_, ?_⟩
  · simp [ServerLoops.call, LoopFunctor.conn, hc, hremove, s₁]
  · refine hbooks.move hc hst (hbooks.server.removeConnectionInLoop hremove) ?_ ?_ rfl rfl ?_ rfl ?_
    · subst hserver
      rfl
    · subst hserver
      rfl
    · simp [LoopFunctor.conn]
    · intro k
      subst hserver
      by_cases hk : k = conn
      · subst hk
        simp
      · simp [hk]
  · -- the functor is gone, and `connectDestroyed` is due and put into its queue
    have hgone : Mailboxes.Pending s.queue
        (fun l g => s.Due l g ∧ (l, g) ≠ (s.baseLoop, .removeConnectionInLoop conn)) none :=
      hpending.done fun _ _ => Iff.rfl
    refine Mailboxes.Pending.put (hgone.newly ?_ ?_)
    · rintro ⟨hd, -⟩
      rw [due_iff_of_stage hc hst rfl] at hd
      simp [dueAt] at hd
    · intro l g
      rw [due_move _ hc hst (by subst hserver; rfl) (by subst hserver; rfl) rfl]
      simp [dueAt, eq_comm]

/-- A functor that is due runs: no assertion fails, and what is due afterwards is queued. -/
theorem Inv.call {s : ServerLoops Loop} {loop : Loop} {f : LoopFunctor}
    (h : s.Inv (some (loop, f))) : ∃ s', s.call loop f = some s' ∧ s'.Inv none := by
  obtain ⟨c, stage, hc, hst, hdue⟩ := h.2.2.2 loop f rfl
  cases f with
  | connectEstablished conn =>
      change s.server.accepted[conn]? = some c at hc
      change s.stage conn = some stage at hst
      obtain ⟨rfl, rfl⟩ : stage = .made ∧ c.loop_ = loop := by
        cases stage <;> simp_all [dueAt, LoopFunctor.conn]
      refine ⟨{ s with ran := s.ran ++ [(c.loop_, LoopFunctor.connectEstablished conn)] }.setStage
        conn .established, ?_, h.settle hc hst hdue rfl rfl (by simp)⟩
      simp [ServerLoops.call, LoopFunctor.conn, hc, hst]
  | removeConnectionInLoop conn =>
      obtain ⟨rfl, rfl⟩ : stage = .closing ∧ s.baseLoop = loop := by
        cases stage <;> simp_all [dueAt, LoopFunctor.conn]
      exact h.callRemove hc hst
  | connectDestroyed conn =>
      change s.server.accepted[conn]? = some c at hc
      change s.stage conn = some stage at hst
      obtain ⟨rfl, rfl⟩ : stage = .removed ∧ c.loop_ = loop := by
        cases stage <;> simp_all [dueAt, LoopFunctor.conn]
      refine ⟨{ s with ran := s.ran ++ [(c.loop_, LoopFunctor.connectDestroyed conn)] }.setStage
        conn .destroyed, ?_, h.settle hc hst hdue rfl rfl (by simp)⟩
      simp [ServerLoops.call, LoopFunctor.conn, hc, hst]

/-- On the spot or through the queue: either way the functor is not lost. -/
theorem Inv.runInLoop {s : ServerLoops Loop} (loop : Loop) {target : Loop} {f : LoopFunctor}
    (h : s.Inv (some (target, f))) : ∃ s', s.runInLoop loop target f = some s' ∧ s'.Inv none := by
  unfold ServerLoops.runInLoop
  split
  · rename_i hloop
    exact hloop ▸ h.call
  · exact ⟨_, rfl, ⟨h.1.server, h.1.stages, h.1.removed, h.1.ran, h.1.known⟩, h.2.put⟩

/-! ## Steps -/

/-- A loop that has a pending functor can run it. -/
theorem Inv.runNext {s : ServerLoops Loop} (h : s.Inv none) {loop : Loop}
    (hne : s.queue loop ≠ []) : ∃ s', s.next (.runNext loop) = some s' ∧ s'.Inv none := by
  obtain ⟨f, rest, hq⟩ := List.exists_cons_of_ne_nil hne
  have htaken : ({ s with queue := Function.update s.queue loop rest } : ServerLoops Loop).Inv
      (some (loop, f)) := by
    refine ⟨⟨h.1.server, h.1.stages, h.1.removed, h.1.ran, h.1.known⟩, ?_⟩
    exact h.2.take hq
  simpa only [next, hq] using htaken.call

theorem Inv.handleClose {s : ServerLoops Loop} (h : s.Inv none) {conn : TcpConnectionPtr}
    (hst : s.stage conn = some .established) :
    ∃ s', s.next (.handleClose conn) = some s' ∧ s'.Inv none := by
  obtain ⟨hbooks, hpending⟩ := h
  have hlt : conn < s.server.accepted.length := by
    by_contra hge
    rw [(hbooks.stages conn).2 (Nat.le_of_not_lt hge)] at hst
    cases hst
  have hc : s.server.accepted[conn]? = some s.server.accepted[conn] :=
    List.getElem?_eq_getElem hlt
  have hclosing : (s.setStage conn .closing).Inv
      (some (s.baseLoop, .removeConnectionInLoop conn)) := by
    refine ⟨hbooks.move hc hst hbooks.server rfl rfl rfl (List.append_nil s.ran).symm (by simp) rfl
      ?_, ?_⟩
    · intro k
      by_cases hk : k = conn
      · subst hk
        simp [setStage, hbooks.removed, hst]
      · simp [setStage, hk]
    · refine Mailboxes.Pending.newly hpending ?_ ?_
      · intro hd
        rw [due_iff_of_stage hc hst rfl] at hd
        simp [dueAt] at hd
      · intro l g
        rw [due_move (s.setStage conn .closing) hc hst rfl rfl rfl]
        simp [dueAt, eq_comm]
  obtain ⟨s', hs', hinv⟩ := hclosing.runInLoop s.server.accepted[conn].loop_
  exact ⟨s', by simpa [next, hc, hst] using hs', hinv⟩

omit [DecidableEq Loop] in
/-- The pool hands out its loops and keeps its base loop. -/
theorem baseLoop_newConnection {server server' : TcpServer Loop} (h : server.Inv) {sockfd : Int}
    (hs : server.newConnection sockfd = some server') :
    server'.threadPool_.baseLoop_ = server.threadPool_.baseLoop_ := by
  rcases TcpServer.newConnection_eq_some hs with ⟨ioLoop, threadPool_, hloop, rfl⟩
  rcases h.threadPool with ⟨baseLoop, startLoop, n, k, hpool⟩
  rcases TcpServer.getNextLoop_rotated baseLoop startLoop n k with ⟨loop, hnext⟩
  rw [hpool, hnext, Option.some.injEq, Prod.mk.injEq] at hloop
  rw [← hloop.2, hpool]
  rfl

theorem Inv.newConnection {s : ServerLoops Loop} (h : s.Inv none) (sockfd : Int) :
    ∃ s', s.next (.newConnection sockfd) = some s' ∧ s'.Inv none := by
  obtain ⟨hbooks, hpending⟩ := h
  obtain ⟨server, hnew⟩ : ∃ server, s.server.newConnection sockfd = some server :=
    Option.isSome_iff_exists.1
      (hbooks.server.next_isSome (.newConnection sockfd) (fun _ he => by cases he))
  have hbase := baseLoop_newConnection hbooks.server hnew
  have hserver := hbooks.server.newConnection hnew
  rcases TcpServer.newConnection_eq_some hnew with ⟨ioLoop, threadPool_, -, heq⟩
  let c : ServerConnection Loop :=
    ⟨ioLoop, TcpServer.connName s.server.name_ s.server.ipPort_ s.server.nextConnId_, sockfd⟩
  have hacc : server.accepted = s.server.accepted ++ [c] := by rw [heq]
  have hrem : server.removed = s.server.removed := by rw [heq]
  have hc : server.accepted[s.server.accepted.length]? = some c := by simp [hacc]
  have hold : ∀ {k d}, k ≠ s.server.accepted.length →
      (server.accepted[k]? = some d ↔ s.server.accepted[k]? = some d) := by
    intro k d hk
    rw [hacc]
    constructor
    · intro hd
      exact (Lib.Positions.getElem?_concat hd).resolve_right fun hlast => hk hlast.1
    · intro hd
      rw [List.getElem?_append_left (List.getElem?_eq_some_iff.1 hd).1, hd]
  let s₁ : ServerLoops Loop :=
    { s with server := server }.setStage s.server.accepted.length .made
  have hmade : s₁.Inv (some (c.loop_, .connectEstablished s.server.accepted.length)) := by
    refine ⟨⟨hserver, ?_, ?_, ?_, ?_⟩, Mailboxes.Pending.newly hpending ?_ ?_⟩
    · intro k
      have hlen : server.accepted.length = s.server.accepted.length + 1 := by simp [hacc]
      by_cases hk : k = s.server.accepted.length
      · simp [s₁, setStage, hk, hlen]
      · simp only [s₁, setStage, Function.update_of_ne hk, hbooks.stages, hlen]
        exact ⟨fun hle => Nat.lt_of_le_of_ne hle (Ne.symm hk), Nat.le_of_succ_le⟩
    · intro k
      by_cases hk : k = s.server.accepted.length
      · subst hk
        have hnot : s.server.accepted.length ∉ s.server.removed := fun hmem =>
          Nat.lt_irrefl _ (hbooks.server.removed _ hmem)
        simp [s₁, setStage, hrem, hnot]
      · simp [s₁, setStage, hk, hrem, hbooks.removed]
    · intro k d stage hd hst
      by_cases hk : k = s.server.accepted.length
      · subst hk
        obtain rfl : Stage.made = stage := by simpa [s₁, setStage] using hst
        have hnone : s.ran.filter (fun e => e.2.conn = s.server.accepted.length) = [] := by
          refine List.filter_eq_nil_iff.2 fun e he => ?_
          rw [decide_eq_true_eq]
          exact Nat.ne_of_lt (hbooks.known e he)
        exact hnone
      · have hst' : s.stage k = some stage := by simpa [s₁, setStage, hk] using hst
        have hran := hbooks.ran k d stage ((hold hk).1 hd) hst'
        rw [show s₁.baseLoop = s.baseLoop from hbase]
        exact hran
    · intro e he
      simp only [s₁, setStage, hacc, List.length_append, List.length_singleton]
      exact Nat.lt_succ_of_lt (hbooks.known e he)
    · rintro ⟨d, stage, hd, hst, -⟩
      simp [LoopFunctor.conn] at hd
    · intro l g
      have hbase' : s₁.baseLoop = s.baseLoop := hbase
      unfold Due
      rw [hbase']
      by_cases hg : g.conn = s.server.accepted.length
      · simp [s₁, setStage, hg, hacc, dueAt, eq_comm]
      · have hne : (l, g) ≠ (c.loop_, .connectEstablished s.server.accepted.length) := by
          intro heq
          rw [Prod.mk.injEq] at heq
          exact hg (heq.2 ▸ rfl)
        simp [s₁, setStage, hg, hold, hne]
  obtain ⟨s', hs', hinv⟩ := hmade.runInLoop s.baseLoop
  refine ⟨s', ?_, hinv⟩
  simp only [next, hnew, Option.bind_eq_bind, Option.bind_some, hc]
  exact hs'

/-! ## Runs -/

omit [DecidableEq Loop] in
theorem inv_started {server : TcpServer Loop} (h : TcpServer.runs.init server) :
    ({ server := server } : ServerLoops Loop).Inv none := by
  have hserver : server.Inv := TcpServer.reachable_inv (.init h)
  have hnew : server.accepted = [] ∧ server.removed = [] := by
    obtain ⟨name_, ip, port, baseLoop, startLoop, n, threadPool_, -, -, rfl⟩ := h
    exact ⟨rfl, rfl⟩
  refine ⟨⟨hserver, ?_, ?_, ?_, ?_⟩, Mailboxes.Pending.empty ?_⟩
  · simp [hnew]
  · simp [hnew]
  · simp [hnew]
  · simp
  · rintro loop f ⟨c, stage, hc, -⟩
    simp [hnew] at hc

/-- The step lemma. -/
theorem Inv.next {s s' : ServerLoops Loop} (h : s.Inv none) {a : ServerAction Loop}
    (hs : s.next a = some s') : s'.Inv none := by
  have hgiven : (∃ s₁, s.next a = some s₁ ∧ s₁.Inv none) → s'.Inv none := by
    rintro ⟨s₁, hs₁, hinv⟩
    rw [hs, Option.some.injEq] at hs₁
    rwa [hs₁]
  cases a with
  | newConnection sockfd => exact hgiven (h.newConnection sockfd)
  | handleClose conn =>
      refine hgiven (h.handleClose ?_)
      by_contra hst
      simp [ServerLoops.next, hst] at hs
  | runNext loop =>
      refine hgiven (h.runNext ?_)
      intro hq
      simp [ServerLoops.next, hq] at hs

theorem reachable_inv {s : ServerLoops Loop} (h : runs.Reachable s) : s.Inv none := by
  refine h.invariant (P := fun s => s.Inv none) ?_ ?_
  · rintro s ⟨server, hserver, rfl⟩
    exact inv_started hserver
  · intro s a s' hs hstep
    exact hs.next hstep

omit [DecidableEq Loop] in
/-- A connection in the map is not removed, and the other way round. -/
theorem Books.mem_map {s : ServerLoops Loop} (h : s.Books)
    (hlen : s.server.accepted.length < 2 ^ 31) {conn : TcpConnectionPtr} {stage : Stage}
    (hst : s.stage conn = some stage) :
    (∃ name, s.server.connections_ name = some (some conn)) ↔
      stage ≠ .removed ∧ stage ≠ .destroyed := by
  have hlt : conn < s.server.accepted.length := by
    by_contra hge
    rw [(h.stages conn).2 (Nat.le_of_not_lt hge)] at hst
    cases hst
  have hnot : conn ∉ s.server.removed ↔ stage ≠ .removed ∧ stage ≠ .destroyed := by
    simp [h.removed, hst]
  rw [← hnot]
  constructor
  · rintro ⟨name, hname⟩
    rcases (h.server.connections hlen name _).1 hname with ⟨k, c, -, hk, -, heq⟩
    cases heq
    exact hk
  · intro hk
    refine ⟨(s.server.accepted[conn]).name_, (h.server.connections hlen _ _).2 ?_⟩
    exact ⟨conn, _, List.getElem?_eq_getElem hlt, hk, rfl, rfl⟩

/-- Somebody holds the connection: the map, or a functor in some loop's queue. -/
def Held (s : ServerLoops Loop) (conn : TcpConnectionPtr) : Prop :=
  (∃ name, s.server.connections_ name = some (some conn)) ∨
    ∃ loop, ∃ f ∈ s.queue loop, f.conn = conn

/-- The life of a connection across loops.  A loop can always run its next functor: no assertion
fails.  The functors of a connection run in their order, each once and each in the right loop.  A
connection is held until its channel is out of the poller.  When every queue is empty, the map has
exactly the connections that are established, and all others are destroyed. -/
theorem handed_over {s : ServerLoops Loop} (h : runs.Reachable s)
    (hlen : s.server.accepted.length < 2 ^ 31) :
    (∀ loop, s.queue loop ≠ [] → (s.next (.runNext loop)).isSome = true) ∧
    (∀ conn c stage, s.server.accepted[conn]? = some c → s.stage conn = some stage →
      s.ran.filter (fun e => e.2.conn = conn) = ranAt s.baseLoop c.loop_ conn stage) ∧
    (∀ conn stage, s.stage conn = some stage → stage ≠ .destroyed → s.Held conn) ∧
    ((∀ loop, s.queue loop = []) → ∀ conn stage, s.stage conn = some stage →
      (stage = .established ∧ ∃ name, s.server.connections_ name = some (some conn)) ∨
        (stage = .destroyed ∧ ∀ name, s.server.connections_ name ≠ some (some conn))) := by
  have hinv := reachable_inv h
  obtain ⟨hbooks, hpending⟩ := hinv
  have hdue : ∀ {conn stage} {c : ServerConnection Loop}, s.server.accepted[conn]? = some c →
      s.stage conn = some stage → ∀ {loop f}, dueAt s.baseLoop c.loop_ conn stage = some (loop, f) →
      f ∈ s.queue loop ∧ f.conn = conn := by
    intro conn stage c hc hst loop f hd
    have hf := conn_of_dueAt hd
    exact ⟨(hpending.1 loop f).2 ⟨(due_iff_of_stage hc hst hf).2 hd, by simp⟩, hf⟩
  have hmade : ∀ {conn stage}, s.stage conn = some stage → ∃ c, s.server.accepted[conn]? = some c := by
    intro conn stage hst
    by_contra hno
    have hnone : s.server.accepted[conn]? = none := by
      cases hc : s.server.accepted[conn]? with
      | none => rfl
      | some c => exact absurd ⟨c, hc⟩ hno
    rw [(hbooks.stages conn).2 (List.getElem?_eq_none_iff.1 hnone)] at hst
    cases hst
  refine ⟨?_, hbooks.ran, ?_, ?_⟩
  · intro loop hne
    obtain ⟨s', hs', -⟩ := Inv.runNext ⟨hbooks, hpending⟩ hne
    rw [hs']
    rfl
  · intro conn stage hst hne
    by_cases hrem : stage = .removed
    · -- out of the map, with `connectDestroyed` on its way
      subst hrem
      obtain ⟨c, hc⟩ := hmade hst
      exact Or.inr ⟨c.loop_, _, hdue hc hst rfl⟩
    · exact Or.inl ((hbooks.mem_map hlen hst).2 ⟨hrem, hne⟩)
  · intro hempty conn stage hst
    obtain ⟨c, hc⟩ := hmade hst
    have hnothing : dueAt s.baseLoop c.loop_ conn stage = none := by
      cases hd : dueAt s.baseLoop c.loop_ conn stage with
      | none => rfl
      | some e =>
          obtain ⟨loop, f⟩ := e
          have hmem := (hdue hc hst hd).1
          simp [hempty] at hmem
    cases stage with
    | established => exact Or.inl ⟨rfl, (hbooks.mem_map hlen hst).2 (by simp)⟩
    | destroyed =>
        refine Or.inr ⟨rfl, fun name hname => ?_⟩
        have := (hbooks.mem_map hlen hst).1 ⟨name, hname⟩
        simp at this
    | made => cases hnothing
    | closing => cases hnothing
    | removed => cases hnothing

/-- Two connections on two threads; one of them comes and goes. -/
def oneGoes : List (ServerAction Nat) :=
  [.newConnection 5, .newConnection 6, .runNext 1, .handleClose 0, .runNext 0, .runNext 2,
    .runNext 1]

def oneGoesEnd : Option (ServerLoops Nat) :=
  System.runAll next { server := TcpServer.smallServer } oneGoes

theorem handed_over_oneGoes : ∃ s, oneGoesEnd = some s ∧
    s.ran.filter (fun e => e.2.conn = 0) =
      [(1, .connectEstablished 0), (0, .removeConnectionInLoop 0), (1, .connectDestroyed 0)] := by
  obtain ⟨s, hs, hlen, hbase, hloop, hst⟩ : ∃ s, oneGoesEnd = some s ∧
      s.server.accepted.length = 2 ∧ s.baseLoop = 0 ∧
        (s.server.accepted[0]?.map (·.loop_)) = some 1 ∧ s.stage 0 = some .destroyed := by
    have hrun : (oneGoesEnd.map fun s => (s.server.accepted.length, s.baseLoop,
        s.server.accepted[0]?.map (·.loop_), s.stage 0)) = some (2, 0, some 1, some .destroyed) := by
      decide +kernel
    simpa [Option.map_eq_some_iff] using hrun
  have hreach : runs.Reachable s := by
    refine .of_runAll (fun _ _ _ hstep => hstep) (.init ⟨_, ?_, rfl⟩) hs
    exact ⟨_, _, _, 0, (· + 1), 2, _, by decide +kernel, EventLoopThreadPool.start_eq _ _ _, rfl⟩
  obtain ⟨c, hc, hc1⟩ := Option.map_eq_some_iff.1 hloop
  have hran := (handed_over hreach (by omega)).2.1 0 c _ hc hst
  rw [hbase, hc1] at hran
  exact ⟨s, hs, hran⟩

end ServerLoops
end Net
end Longky
