import Longky.Net.TcpRuns
import Longky.Cgi.CgiParser
import Longky.Cgi.Requests

/-!
# CgiServer — one request between the IO loop and the thread pool

`cgiServer/cgiserver.cpp` with `FastCgiCodec::onMessage` and `base/thread/ThreadPool.cpp`.  The IO
loop decodes a request and puts it into the pool; a pool thread answers it with
`TcpConnection::send`, which drops the answer unless the connection is still `kConnected`.  Without
`FCGI_KEEP_CONN` the IO loop goes on to call `shutdown`, and the two threads race.

`request_answered_iff`: every interleaving answers the request if and only if the connection is kept
or the pool has no threads, so that the callback itself answers.
-/

namespace Longky
namespace Cgi

open Lib Net

/-! ## The server -/

/-- One connection of the server with the pool's work for it. -/
structure CgiServer where
  conn : World
  codec : FastCgiCodec := {}
  /-- What the kernel is still to deliver, read by read. -/
  toRead : List Bytes
  /-- The arguments of the callbacks made so far. -/
  requests : List (ParamMap × Bytes) := []
  /-- `onMessage` is still to call `conn->shutdown()`. -/
  shutdownDue : Bool := false
  /-- The pool's `queue_`. -/
  queue_ : List Parser := []
  /-- The tasks that pool threads have taken. -/
  running : List Parser := []
  /-- The messages that `send` passed on to `sendInLoop`. -/
  handed : List Bytes := []
  /-- The messages that `send` dropped. -/
  discarded : List Bytes := []

/-- The steps of the IO loop and of the pool threads. -/
inductive ServerAction where
  /-- The next read arrives; `onMessage` runs up to the return of its callback. -/
  | handleRead (e : CgiEnv) (r : WriteResult)
  /-- `onMessage` calls `shutdown` when it has to, and returns. -/
  | onMessageReturns
  | handleWrite (r : WriteResult)
  | runFunctor (i : Nat) (r : WriteResult)
  /-- A free pool thread takes the first task. -/
  | take
  /-- A pool thread finishes the task at a position of `running`. -/
  | processCgi (i : Nat) (e : CgiEnv)

/-- The actions that carry a request on. -/
def ServerAction.serves : ServerAction → Bool
  | .handleRead _ _ | .onMessageReturns | .take | .processCgi _ _ => true
  | .handleWrite _ | .runFunctor _ _ => false

namespace CgiServer

def processCgi (s : CgiServer) (t : Thread) (p : Parser) (base : Bytes) (e : CgiEnv)
    (r : WriteResult) : CgiServer :=
  let message := p.accept_request base e
  let s₁ := { s with conn := s.conn.send t message r }
  -- `send` tests `state_` and says nothing when it drops the message
  if s.conn.state_ = .kConnected then { s₁ with handed := s.handed ++ [message] }
  else { s₁ with discarded := s.discarded ++ [message] }

/-- `ThreadPool::put`: without threads the caller runs the task; the queue is unbounded. -/
def put (s : CgiServer) (poolThreads_ : Nat) (p : Parser) (base : Bytes) (e : CgiEnv)
    (r : WriteResult) : CgiServer :=
  if poolThreads_ = 0 then s.processCgi .loop p base e r
  else { s with queue_ := s.queue_ ++ [p] }

/-- A read of `data`, and what `onMessage` does besides calling its callback. -/
def onData (s : CgiServer) (data : Bytes) (rest : List Bytes) : CgiServer :=
  let conn := s.conn.handleRead (.ok data)
  let h := s.codec.onMessage conn.inputBuffer_
  { s with
    conn := { conn with inputBuffer_ := h.buf }
    codec := h.codec
    toRead := rest
    requests := s.requests ++ h.request.toList
    shutdownDue := h.shutdown }

/-- A read of `data` and `onMessage` up to the return of its callback `onRequest`. -/
def handleRead (s : CgiServer) (poolThreads_ : Nat) (base data : Bytes) (rest : List Bytes)
    (e : CgiEnv) (r : WriteResult) : CgiServer :=
  match (s.codec.onMessage (s.conn.handleRead (.ok data)).inputBuffer_).request with
  | none => s.onData data rest
  | some (params, postData) => (s.onData data rest).put poolThreads_ ⟨params, postData⟩ base e r

def onMessageReturns (s : CgiServer) : CgiServer :=
  let conn := if s.shutdownDue then s.conn.shutdown .loop else s.conn
  -- `conn->shutdown()` comes after the callback, also when that has only queued the work
  { s with conn := conn.perform .resume, shutdownDue := false }

def next (poolThreads_ : Nat) (base : Bytes) (s : CgiServer) : ServerAction → Option CgiServer
  | .handleRead e r =>
      match s.toRead with
      | [] => none
      | data :: rest =>
          if s.conn.frames = [] then some (s.handleRead poolThreads_ base data rest e r) else none
  | .onMessageReturns => if s.conn.frames = [] then none else some s.onMessageReturns
  | .handleWrite r =>
      if s.conn.frames = [] then some { s with conn := s.conn.handleWrite r } else none
  | .runFunctor i r =>
      if s.conn.frames = [] then some { s with conn := s.conn.perform (.runFunctor i r) } else none
  | .take =>
      match s.queue_ with
      | [] => none
      | p :: ps =>
          -- a free thread takes the oldest task
          if s.running.length < poolThreads_ then
            some { s with queue_ := ps, running := s.running ++ [p] }
          else none
  | .processCgi i e =>
      match s.running[i]? with
      | none => none
      | some p =>
          some ({ s with running := s.running.eraseIdx i }.processCgi .other p base e (.room 0))

end CgiServer

/-! ## Runs that serve one request -/

/-- A request whose first record is complete and asks for a responder. -/
structure ResponderRequest extends Request where
  beginRequest_length : kRecordHeader ≤ beginRequest.content.length
  beginRequest_role : Bytes.ofBigEndian (beginRequest.content.take 2) = kFcgiResponder

namespace ResponderRequest

/-- The flags byte is `FCGI_KEEP_CONN`. -/
def keepConn (q : ResponderRequest) : Bool := q.beginRequest.content.getD 2 0 == kFcgiKeepConn

/-- The task that the pool is given for the request. -/
def task (q : ResponderRequest) : Parser := ⟨q.paramMap, q.stdin⟩

theorem keepConn_handle (q : ResponderRequest) (c : FastCgiCodec) :
    (c.handle q.beginRequest).keepConn_ = q.keepConn := by
  simp [FastCgiCodec.handle, FastCgiCodec.onRecord, FastCgiCodec.onBeginRequest,
    q.beginRequest_type, q.beginRequest_length, q.beginRequest_role, keepConn]

end ResponderRequest

/-- A connection on which nothing closes: what it has queued are answers to earlier requests, and
only user code is on the loop's stack. -/
structure Tame (w : World) : Prop where
  writeComplete : w.writeCompleteCallback_ = false
  highWater : w.highWaterMarkCallback_ = false
  dissByPeer : w.dissByPeer_ = false
  pending : ∀ f ∈ w.pendingFunctors_, ∃ m, f = .sendInLoop m
  frames : ∀ f ∈ w.frames, f = .userCode

namespace CgiServer

/-- A connected connection between two requests, with the request's bytes about to arrive in reads
of any size.  No read is empty: the peer does not close first. -/
structure Starts (q : ResponderRequest) (s : CgiServer) : Prop where
  state : s.conn.state_ = .kConnected
  tame : Tame s.conn
  frames : s.conn.frames = []
  codec : s.codec.Clean
  input : s.conn.inputBuffer_.readable = []
  toRead : s.toRead.flatten = q.toBytes
  reads : ∀ data ∈ s.toRead, data ≠ []
  requests : s.requests = []
  shutdownDue : s.shutdownDue = false
  queue : s.queue_ = []
  running : s.running = []
  handed : s.handed = []
  discarded : s.discarded = []

def serving (q : ResponderRequest) (poolThreads_ : Nat) (base : Bytes) :
    System CgiServer ServerAction where
  init := Starts q
  step s a s' := next poolThreads_ base s a = some s'

/-- Nothing can carry the request on any more. -/
def Settled (poolThreads_ : Nat) (base : Bytes) (s : CgiServer) : Prop :=
  ∀ a : ServerAction, a.serves = true → next poolThreads_ base s a = none

/-- Nothing has been dropped and, when all work is done, exactly the request's answer has been handed
over. -/
def Answered (q : ResponderRequest) (poolThreads_ : Nat) (base : Bytes) (s : CgiServer) : Prop :=
  s.discarded = [] ∧
    (s.Settled poolThreads_ base → ∃ e, s.handed = [q.task.accept_request base e])

end CgiServer

/-! ## What the steps do to a tame connection -/

/-- `w'` differs from `w` only in its output side. -/
def SameInput (w w' : World) : Prop :=
  ∃ c o es, w' = { w with channel_ := c, outputBuffer_ := o, effects := es }

theorem SameInput.trans {w w' w'' : World} (h : SameInput w w') (h' : SameInput w' w'') :
    SameInput w w'' := by
  rcases h with ⟨c, o, es, rfl⟩
  exact h'

namespace Tame

variable {w w' : World}

theorem of_sameInput (h : Tame w) (hs : SameInput w w') : Tame w' := by
  rcases hs with ⟨c, o, es, rfl⟩
  exact { h with }

theorem queueWriteComplete (h : Tame w) (c : Channel) (o : WfBuffer) (es : List Effect) :
    SameInput w (World.queueWriteComplete
      { w with channel_ := c, outputBuffer_ := o, effects := es }) := by
  unfold World.queueWriteComplete
  split
  · rename_i hwc
    simp [h.writeComplete] at hwc
  · exact ⟨_, _, _, rfl⟩

/-- `shutdownInLoop` shuts the writing side down, at most. -/
theorem shutdownInLoop (h : Tame w) : SameInput w w.shutdownInLoop := by
  cases hwr : w.channel_.isWriting with
  | true =>
      rw [World.shutdownInLoop_of_writing hwr]
      exact ⟨_, _, _, rfl⟩
  | false =>
      -- the peer has not closed, so `handleClose` is not called
      rw [World.shutdownInLoop_of_not_writing hwr, h.dissByPeer]
      exact ⟨_, _, _, rfl⟩

theorem sendInLoop (h : Tame w) (message : Bytes) (r : WriteResult) :
    SameInput w (w.sendInLoop message r) := by
  have happend : ∀ (es : List Effect) (data : Bytes),
      SameInput w (World.appendRemaining { w with effects := es } data) := by
    intro es data
    unfold World.appendRemaining
    dsimp only
    split
    · split
      · rename_i hmark
        simp [h.highWater] at hmark
      · split
        · exact ⟨_, _, _, rfl⟩
        · exact ⟨_, _, _, rfl⟩
    · exact ⟨_, _, _, rfl⟩
  unfold World.sendInLoop
  split
  · exact ⟨_, _, _, rfl⟩
  · split
    · cases r with
      | room n =>
          dsimp only
          split
          · exact h.queueWriteComplete w.channel_ w.outputBuffer_ _
          · exact happend _ _
      | fail e =>
          dsimp only
          split
          · exact ⟨_, _, _, rfl⟩
          · exact happend w.effects message
    · exact happend w.effects message

theorem handleWrite (h : Tame w) (r : WriteResult) : SameInput w (w.handleWrite r) := by
  have hdrained : ∀ (o : WfBuffer) (es : List Effect),
      SameInput w (World.outputDrained { w with outputBuffer_ := o, effects := es }) := by
    intro o es
    have hqueue := h.queueWriteComplete w.channel_.disableWriting o es
    unfold World.outputDrained
    dsimp only
    split
    · exact hqueue.trans (h.of_sameInput hqueue).shutdownInLoop
    · exact hqueue
  unfold World.handleWrite
  split
  · cases r with
    | room k =>
        dsimp only
        split
        · split
          · exact hdrained _ _
          · exact ⟨_, _, _, rfl⟩
        · exact ⟨_, _, _, rfl⟩
    | fail e => exact ⟨_, _, _, rfl⟩
  · exact ⟨_, _, _, rfl⟩

theorem shutdown (h : Tame w) (hst : w.state_ = .kConnected) :
    SameInput { w with closeFlag_ := true, state_ := .kDisconnecting } (w.shutdown .loop) := by
  rw [World.shutdown_loop, if_pos hst]
  exact Tame.shutdownInLoop { h with }

/-- A queued functor sends the answer to an earlier request. -/
theorem runFunctor (h : Tame w) (i : Nat) (r : WriteResult) :
    ∃ fs, (∀ f ∈ fs, f ∈ w.pendingFunctors_) ∧
      SameInput { w with pendingFunctors_ := fs } (w.perform (.runFunctor i r)) := by
  unfold World.perform
  dsimp only
  cases hf : w.pendingFunctors_[i]? with
  | none => exact ⟨w.pendingFunctors_, fun _ hm => hm, _, _, _, rfl⟩
  | some f =>
      rcases h.pending f (List.mem_of_getElem? hf) with ⟨m, rfl⟩
      have hsub : ∀ f ∈ w.pendingFunctors_.eraseIdx i, f ∈ w.pendingFunctors_ :=
        fun _ hm => List.mem_of_mem_eraseIdx hm
      have htame : Tame { w with pendingFunctors_ := w.pendingFunctors_.eraseIdx i } :=
        { h with pending := fun f hm => h.pending f (hsub f hm) }
      exact ⟨_, hsub, htame.sendInLoop m r⟩

theorem resume (h : Tame w) : w.perform .resume = { w with frames := w.frames.tail } := by
  unfold World.perform
  cases hf : w.frames with
  | nil =>
      dsimp only [List.tail]
      rw [← hf]
  | cons f fs =>
      have hcode : f = .userCode := h.frames f (by rw [hf]; exact List.mem_cons_self)
      subst hcode
      rfl

end Tame

/-! ## The invariant -/

namespace CgiServer

/-- The decoder's view of the server. -/
def endpoint (s : CgiServer) : Endpoint := ⟨s.codec, s.conn.inputBuffer_, s.requests⟩

/-- How far the request has come. -/
inductive Phase (q : ResponderRequest) (n : Nat) (base : Bytes) (s : CgiServer) : Prop where
  | reading (state : s.conn.state_ = .kConnected) (requests : s.requests = [])
      (due : s.shutdownDue = false) (queue : s.queue_ = []) (running : s.running = [])
      (handed : s.handed = [])
  | queued (state : s.conn.state_ = .kConnected) (requests : s.requests = [(q.paramMap, q.stdin)])
      (due : s.shutdownDue = false) (queue : s.queue_ = [q.task]) (running : s.running = [])
      (handed : s.handed = []) (threads : 0 < n)
  | running (state : s.conn.state_ = .kConnected) (requests : s.requests = [(q.paramMap, q.stdin)])
      (due : s.shutdownDue = false) (queue : s.queue_ = []) (running : s.running = [q.task])
      (handed : s.handed = [])
  | answered (requests : s.requests = [(q.paramMap, q.stdin)]) (queue : s.queue_ = [])
      (running : s.running = []) (handed : ∃ e, s.handed = [q.task.accept_request base e])

/-- What holds in every phase. -/
structure Decoding (q : ResponderRequest) (s : CgiServer) : Prop where
  tame : Tame s.conn
  mid : ∃ c₀ done todo, c₀.Clean ∧
    Endpoint.Mid q.toRequest c₀ [] s.endpoint s.toRead.flatten done todo
  reads : ∀ data ∈ s.toRead, data ≠ []
  discarded : s.discarded = []

structure Inv (q : ResponderRequest) (n : Nat) (base : Bytes) (s : CgiServer) : Prop
    extends Decoding q s where
  phase : s.Phase q n base

variable {q : ResponderRequest} {n : Nat} {base : Bytes} {s : CgiServer}

theorem Starts.inv (h : Starts q s) : s.Inv q n base where
  tame := h.tame
  mid := by
    have hidle : s.endpoint.Idle := ⟨h.codec, h.input⟩
    have hmid := hidle.mid q.toRequest h.toRead
    rw [show s.endpoint.requests = [] from h.requests] at hmid
    exact ⟨_, _, _, h.codec, hmid⟩
  reads := h.reads
  discarded := h.discarded
  phase := .reading h.state h.requests h.shutdownDue h.queue h.running h.handed

theorem Decoding.of_conn (h : s.Decoding q) {w : World} (htame : Tame w)
    (hinput : w.inputBuffer_ = s.conn.inputBuffer_) : Decoding q { s with conn := w } where
  tame := htame
  mid := by
    have hend : endpoint { s with conn := w } = s.endpoint := by
      simp only [endpoint, hinput]
    rw [hend]
    exact h.mid
  reads := h.reads
  discarded := h.discarded

/-- A step that keeps the connection's state and the input. -/
theorem Inv.of_conn (h : s.Inv q n base) {w : World} (htame : Tame w)
    (hinput : w.inputBuffer_ = s.conn.inputBuffer_) (hstate : w.state_ = s.conn.state_) :
    Inv q n base { s with conn := w } where
  toDecoding := h.toDecoding.of_conn htame hinput
  phase := by
    cases h.phase with
    | reading hst => exact .reading (hstate.trans hst) ‹_› ‹_› ‹_› ‹_› ‹_›
    | queued hst => exact .queued (hstate.trans hst) ‹_› ‹_› ‹_› ‹_› ‹_› ‹_›
    | running hst => exact .running (hstate.trans hst) ‹_› ‹_› ‹_› ‹_› ‹_›
    | answered => exact .answered ‹_› ‹_› ‹_› ‹_›

theorem Inv.of_sameInput (h : s.Inv q n base) {w : World} (hs : SameInput s.conn w) :
    Inv q n base { s with conn := w } := by
  have htame := h.tame.of_sameInput hs
  rcases hs with ⟨c, o, es, rfl⟩
  exact h.of_conn htame rfl rfl

theorem Inv.runFunctor (h : s.Inv q n base) (i : Nat) (r : WriteResult) :
    Inv q n base { s with conn := s.conn.perform (.runFunctor i r) } := by
  rcases h.tame.runFunctor i r with ⟨fs, hfs, hsame⟩
  have htame : Tame { s.conn with pendingFunctors_ := fs } :=
    { h.tame with pending := fun f hf => h.tame.pending f (hfs f hf) }
  have hmid : Inv q n base { s with conn := { s.conn with pendingFunctors_ := fs } } :=
    h.of_conn htame rfl rfl
  exact hmid.of_sameInput hsame

/-! ## The pool -/

theorem Inv.take (h : s.Inv q n base) {p : Parser} {ps : List Parser} (hq : s.queue_ = p :: ps) :
    Inv q n base { s with queue_ := ps, running := s.running ++ [p] } := by
  refine { h with phase := ?_ }
  cases h.phase with
  | reading _ _ _ hqueue => simp [hqueue] at hq
  | queued hst hreq hdue hqueue hrun hhanded =>
      rw [hqueue] at hq
      cases hq
      exact .running hst hreq hdue rfl (by simp [hrun]) hhanded
  | running _ _ _ hqueue => simp [hqueue] at hq
  | answered _ hqueue => simp [hqueue] at hq

/-- While the connection is connected an answer is handed over. -/
theorem processCgi_of_connected (hst : s.conn.state_ = .kConnected) (t : Thread) (p : Parser)
    (base : Bytes) (e : CgiEnv) (r : WriteResult) :
    s.processCgi t p base e r =
      { s with
        conn := s.conn.send t (p.accept_request base e) r
        handed := s.handed ++ [p.accept_request base e] } := by
  rw [processCgi, if_pos hst]

theorem Inv.processCgi (h : s.Inv q n base) {i : Nat} {p : Parser} (e : CgiEnv) (r : WriteResult)
    (hi : s.running[i]? = some p) :
    Inv q n base ({ s with running := s.running.eraseIdx i }.processCgi .other p base e r) := by
  cases h.phase with
  | reading _ _ _ _ hrun => simp [hrun] at hi
  | queued _ _ _ _ hrun => simp [hrun] at hi
  | running hst hreq hdue hqueue hrun hhanded =>
      obtain ⟨rfl, rfl⟩ : i = 0 ∧ q.task = p := by
        cases i with
        | zero => simpa [hrun] using hi
        | succ i => simp [hrun] at hi
      rw [processCgi_of_connected (by exact hst)]
      -- from a pool thread `send` queues a functor that carries the whole message
      have htame : Tame (s.conn.queueInLoop (.sendInLoop (q.task.accept_request base e))) :=
        { h.tame with
          pending := by
            intro f hf
            rcases List.mem_append.1 hf with hold | hnew
            · exact h.tame.pending f hold
            · exact ⟨_, List.mem_singleton.1 hnew⟩ }
      have hconn := h.of_conn htame rfl rfl
      have hsend : s.conn.send .other (q.task.accept_request base e) r =
          s.conn.queueInLoop (.sendInLoop (q.task.accept_request base e)) := by
        rw [World.send, if_pos hst]
      rw [hsend]
      refine { hconn with phase := .answered hreq hqueue ?_ ⟨e, ?_⟩ }
      · simp [hrun]
      · simp [hhanded]
  | answered _ _ hrun => simp [hrun] at hi

/-! ## The IO loop -/

theorem Inv.onMessageReturns (h : s.Inv q n base) : Inv q n base s.onMessageReturns := by
  have hresume : ∀ w : World, Tame w → Tame { w with frames := w.frames.tail } := by
    intro w hw
    exact { hw with frames := fun f hf => hw.frames f (List.mem_of_mem_tail hf) }
  cases hdue : s.shutdownDue with
  | false =>
      have heq : s.onMessageReturns =
          { s with conn := { s.conn with frames := s.conn.frames.tail } } := by
        rw [CgiServer.onMessageReturns, hdue, if_neg (by decide), h.tame.resume, ← hdue]
      rw [heq]
      exact h.of_conn (hresume _ h.tame) rfl rfl
  | true =>
      -- only an answered request leaves a shutdown to be made
      have hshut : Tame (s.conn.shutdown .loop) ∧
          (s.conn.shutdown .loop).inputBuffer_ = s.conn.inputBuffer_ := by
        by_cases hst : s.conn.state_ = .kConnected
        · have hsame := h.tame.shutdown hst
          have hclosing : Tame { s.conn with closeFlag_ := true, state_ := .kDisconnecting } :=
            { h.tame with }
          have htame := hclosing.of_sameInput hsame
          rcases hsame with ⟨c, o, es, heq⟩
          exact ⟨htame, by rw [heq]⟩
        · rw [World.shutdown_loop, if_neg hst]
          exact ⟨h.tame, rfl⟩
      have heq : s.onMessageReturns =
          { s with
            conn := { s.conn.shutdown .loop with frames := (s.conn.shutdown .loop).frames.tail }
            shutdownDue := false } := by
        rw [CgiServer.onMessageReturns, hdue, if_pos rfl, hshut.1.resume]
      have hend : s.onMessageReturns.endpoint = s.endpoint := by
        rw [heq]
        simp only [endpoint, hshut.2]
      cases h.phase with
      | reading _ _ hno => simp [hdue] at hno
      | queued _ _ hno => simp [hdue] at hno
      | running _ _ hno => simp [hdue] at hno
      | answered hreq hqueue hrun hhanded =>
          rcases h.mid with ⟨c₀, done, todo, hc₀, hmid⟩
          rw [← hend] at hmid
          rw [heq] at hmid ⊢
          exact
            { tame := hresume _ hshut.1
              mid := ⟨c₀, done, todo, hc₀, hmid⟩
              reads := h.reads
              discarded := h.discarded
              phase := .answered hreq hqueue hrun hhanded }

/-- What a read does to the connection. -/
theorem conn_onData {data : Bytes} (hdata : data ≠ []) (rest : List Bytes) :
    ∃ i, (s.onData data rest).conn =
      { s.conn with
        inputBuffer_ := i
        effects := s.conn.effects ++ [.messageCallback]
        frames := .userCode :: s.conn.frames } := by
  refine ⟨(s.codec.onMessage (s.conn.handleRead (.ok data)).inputBuffer_).buf, ?_⟩
  have hread : s.conn.handleRead (.ok data) =
      ({ s.conn with inputBuffer_ := s.conn.inputBuffer_.readFd data }.emit
        .messageCallback).push [.userCode] :=
    if_pos (List.length_pos_iff.2 hdata)
  rw [onData, hread]
  rfl

theorem endpoint_onData {data : Bytes} (hdata : data ≠ []) (rest : List Bytes) :
    (s.onData data rest).endpoint = s.endpoint.receive data := by
  unfold onData endpoint Endpoint.receive World.handleRead
  simp only [if_pos (List.length_pos_iff.2 hdata)]
  rfl

theorem tame_onData (h : Tame s.conn) {data : Bytes} (hdata : data ≠ []) (rest : List Bytes) :
    Tame (s.onData data rest).conn := by
  rcases conn_onData (s := s) hdata rest with ⟨i, hconn⟩
  rw [hconn]
  exact
    { h with
      frames := by
        intro f hf
        rcases List.mem_cons.1 hf with rfl | hf
        · rfl
        · exact h.frames f hf }

/-- A read that completes no request. -/
theorem Phase.onData (h : s.Phase q n base) {data : Bytes} (hdata : data ≠ []) (rest : List Bytes)
    (hnone : (s.codec.onMessage (s.conn.handleRead (.ok data)).inputBuffer_).request = none) :
    (s.onData data rest).Phase q n base := by
  rcases conn_onData (s := s) hdata rest with ⟨i, hconn⟩
  have hstate : (s.onData data rest).conn.state_ = s.conn.state_ := by rw [hconn]
  have hreqs : (s.onData data rest).requests = s.requests := by
    simp [CgiServer.onData, hnone]
  have hdue : (s.onData data rest).shutdownDue = false := by
    simp [CgiServer.onData, FastCgiCodec.onMessage_shutdown, hnone]
  cases h with
  | reading hst hreq => exact .reading (hstate.trans hst) (hreqs.trans hreq) hdue ‹_› ‹_› ‹_›
  | queued hst hreq => exact .queued (hstate.trans hst) (hreqs.trans hreq) hdue ‹_› ‹_› ‹_› ‹_›
  | running hst hreq => exact .running (hstate.trans hst) (hreqs.trans hreq) hdue ‹_› ‹_› ‹_›
  | answered hreq => exact .answered (hreqs.trans hreq) ‹_› ‹_› ‹_›

theorem Decoding.onData (h : s.Decoding q) {data : Bytes} {rest : List Bytes}
    (hread : s.toRead = data :: rest) : (s.onData data rest).Decoding q := by
  have hdata : data ≠ [] := h.reads data (by rw [hread]; exact List.mem_cons_self)
  rcases h.mid with ⟨c₀, done, todo, hc₀, hmid⟩
  rw [hread, List.flatten_cons] at hmid
  rcases hmid.receive hc₀ with ⟨rs, todo', -, hmid'⟩
  rw [← endpoint_onData hdata rest] at hmid'
  exact
    { tame := tame_onData h.tame hdata rest
      mid := ⟨c₀, _, _, hc₀, hmid'⟩
      reads := fun d hd => h.reads d (by rw [hread]; exact List.mem_cons_of_mem _ hd)
      discarded := h.discarded }

/-- A read completes the request only while it is still being read, and then the codec knows
whether the connection is kept. -/
theorem Decoding.request_of_handleRead (h : s.Decoding q) {data : Bytes} {rest : List Bytes}
    (hread : s.toRead = data :: rest) {x : ParamMap × Bytes}
    (hsome : (s.codec.onMessage (s.conn.handleRead (.ok data)).inputBuffer_).request = some x) :
    s.requests = [] ∧ x = (q.paramMap, q.stdin) ∧ (s.onData data rest).shutdownDue = !q.keepConn := by
  have hdata : data ≠ [] := h.reads data (by rw [hread]; exact List.mem_cons_self)
  rcases h.mid with ⟨c₀, done, todo, hc₀, hmid⟩
  rw [hread, List.flatten_cons] at hmid
  rcases hmid.receive hc₀ with ⟨rs, todo', -, hmid'⟩
  rw [← endpoint_onData hdata rest] at hmid'
  have hreqs : (s.onData data rest).endpoint.requests = s.requests ++ [x] := by
    simp [endpoint, CgiServer.onData, hsome]
  rcases hmid'.handled with ⟨-, -, hnone⟩ | ⟨-, -, hkeep, hone⟩
  · simp [hreqs] at hnone
  · rw [hreqs, List.nil_append] at hone
    -- one callback in all, so this read makes the first
    have hlen : s.requests = [] := by
      have := congrArg List.length hone
      simpa using this
    rw [hlen, List.nil_append, List.singleton_inj] at hone
    refine ⟨hlen, hone, ?_⟩
    rw [q.keepConn_handle] at hkeep
    rw [← hkeep]
    simp [CgiServer.onData, endpoint, FastCgiCodec.onMessage_shutdown, hsome]

theorem Inv.handleRead (h : s.Inv q n base) (hkept : q.keepConn = true ∨ n = 0) {data : Bytes}
    {rest : List Bytes} (hread : s.toRead = data :: rest) (e : CgiEnv) (r : WriteResult) :
    Inv q n base (s.handleRead n base data rest e r) := by
  have hdata : data ≠ [] := h.reads data (by rw [hread]; exact List.mem_cons_self)
  have hdec := h.toDecoding.onData hread
  unfold CgiServer.handleRead
  cases hreq : (s.codec.onMessage (s.conn.handleRead (.ok data)).inputBuffer_).request with
  | none => exact ⟨hdec, h.phase.onData hdata rest hreq⟩
  | some x =>
      rcases h.toDecoding.request_of_handleRead hread hreq with ⟨hnil, rfl, hdue⟩
      rcases conn_onData (s := s) hdata rest with ⟨i, hconn⟩
      have hreqs : (s.onData data rest).requests = [(q.paramMap, q.stdin)] := by
        simp [CgiServer.onData, hreq, hnil]
      cases h.phase with
      | reading hst _ _ hqueue hrun hhanded =>
          have hstate : (s.onData data rest).conn.state_ = .kConnected := by
            rw [hconn]
            exact hst
          dsimp only
          unfold put
          split
          · -- no pool threads: the callback itself answers
            have hsame := hdec.tame.sendInLoop (q.task.accept_request base e) r
            have htame := hdec.tame.of_sameInput hsame
            have hsend : (s.onData data rest).conn.send .loop (q.task.accept_request base e) r =
                (s.onData data rest).conn.sendInLoop (q.task.accept_request base e) r := by
              rw [World.send, if_pos hstate]
            have hinput : ((s.onData data rest).conn.sendInLoop (q.task.accept_request base e)
                r).inputBuffer_ = (s.onData data rest).conn.inputBuffer_ := by
              rcases hsame with ⟨c, o, es, heq⟩
              rw [heq]
            have hdec' := hdec.of_conn htame hinput
            rw [processCgi_of_connected hstate]
            change Inv q n base { s.onData data rest with
              conn := (s.onData data rest).conn.send .loop (q.task.accept_request base e) r
              handed := s.handed ++ [q.task.accept_request base e] }
            rw [hsend, hhanded]
            exact ⟨{ hdec' with }, .answered hreqs hqueue hrun ⟨e, rfl⟩⟩
          · rename_i hn
            -- the work is queued, and `onMessage` will not shut the connection down
            have hkeep : q.keepConn = true := hkept.resolve_right hn
            refine ⟨{ hdec with }, .queued hstate hreqs ?_ ?_ hrun hhanded (Nat.pos_of_ne_zero hn)⟩
            · rw [hkeep] at hdue
              exact hdue
            · change s.queue_ ++ [q.task] = [q.task]
              rw [hqueue, List.nil_append]
      | queued _ hone => simp [hone] at hnil
      | running _ hone => simp [hone] at hnil
      | answered hone => simp [hone] at hnil

/-! ## Whole runs -/

theorem Inv.next (hkept : q.keepConn = true ∨ n = 0) (h : s.Inv q n base) {a : ServerAction}
    {s' : CgiServer} (hstep : next n base s a = some s') : Inv q n base s' := by
  cases a with
  | handleRead e r =>
      simp only [CgiServer.next] at hstep
      split at hstep
      · cases hstep
      · rename_i data rest hread
        split at hstep
        · cases hstep
          exact h.handleRead hkept hread e r
        · cases hstep
  | onMessageReturns =>
      simp only [CgiServer.next] at hstep
      split at hstep
      · cases hstep
      · cases hstep
        exact h.onMessageReturns
  | handleWrite r =>
      simp only [CgiServer.next] at hstep
      split at hstep
      · cases hstep
        exact h.of_sameInput (h.tame.handleWrite r)
      · cases hstep
  | runFunctor i r =>
      simp only [CgiServer.next] at hstep
      split at hstep
      · cases hstep
        exact h.runFunctor i r
      · cases hstep
  | take =>
      simp only [CgiServer.next] at hstep
      split at hstep
      · cases hstep
      · rename_i p ps hq
        split at hstep
        · cases hstep
          exact h.take hq
        · cases hstep
  | processCgi i e =>
      simp only [CgiServer.next] at hstep
      split at hstep
      · cases hstep
      · rename_i p hp
        cases hstep
        exact h.processCgi e _ hp

/-- Some answers of the system, to make a step with. -/
def someEnv : CgiEnv := ⟨fun _ => none, true, true, true, []⟩

/-- Work on the request only ends when it is answered. -/
theorem Inv.answered (h : s.Inv q n base) : s.Answered q n base := by
  refine ⟨h.discarded, ?_⟩
  intro hsettled
  cases h.phase with
  | reading _ hreq =>
      -- nothing left to read means that the request has been decoded, against the phase
      have hframes : s.conn.frames = [] := by
        have := hsettled .onMessageReturns rfl
        simpa [CgiServer.next] using this
      have htoRead : s.toRead = [] := by
        have := hsettled (.handleRead someEnv (.room 0)) rfl
        cases hread : s.toRead with
        | nil => rfl
        | cons data rest => simp [CgiServer.next, hread, hframes] at this
      rcases h.mid with ⟨c₀, done, todo, -, hmid⟩
      rw [htoRead] at hmid
      have hone := hmid.finished.2.2
      rw [show s.endpoint.requests = s.requests from rfl, hreq] at hone
      simp at hone
  | queued _ _ _ hqueue hrun _ hn =>
      have := hsettled .take rfl
      simp [CgiServer.next, hqueue, hrun, hn] at this
  | running _ _ _ _ hrun =>
      have := hsettled (.processCgi 0 someEnv) rfl
      simp [CgiServer.next, hrun] at this
  | answered _ _ _ hhanded => exact hhanded

/-- The last read completes the request. -/
theorem Inv.request_of_last_read (h : s.Inv q n base) (hreq : s.requests = []) {data : Bytes}
    (hread : s.toRead = [data]) :
    (s.codec.onMessage (s.conn.handleRead (.ok data)).inputBuffer_).request =
      some (q.paramMap, q.stdin) := by
  rcases (h.toDecoding.onData hread).mid with ⟨c₀, done, todo, -, hmid⟩
  have hone : s.requests ++
      (s.codec.onMessage (s.conn.handleRead (.ok data)).inputBuffer_).request.toList =
        [(q.paramMap, q.stdin)] := hmid.finished.2.2
  rw [hreq, List.nil_append] at hone
  exact Option.toList_eq_singleton_iff.1 hone

/-- The IO loop may win: it reads the whole request and shuts the connection down before a pool
thread answers. -/
theorem Starts.exists_discarded (h : Starts q s) {data : Bytes} (hread : s.toRead = [data])
    (hkeep : q.keepConn = false) (hn : 0 < n) :
    ∃ s', (serving q n base).Reachable s' ∧ s'.discarded ≠ [] := by
  have hinv : s.Inv q n base := h.inv
  have hdata : data ≠ [] := h.reads data (by rw [hread]; exact List.mem_cons_self)
  rcases conn_onData (s := s) hdata [] with ⟨i, hconn⟩
  have hreq := hinv.request_of_last_read h.requests hread
  rcases hinv.toDecoding.request_of_handleRead hread hreq with ⟨-, -, hdue⟩
  -- the IO loop reads the request and queues its task
  let s₁ : CgiServer := { s.onData data [] with queue_ := [q.task] }
  have hstep₁ : next n base s (.handleRead someEnv (.room 0)) = some s₁ := by
    have hput : s.handleRead n base data [] someEnv (.room 0) = s₁ := by
      rw [CgiServer.handleRead, hreq]
      dsimp only
      rw [put, if_neg hn.ne']
      change { s.onData data [] with queue_ := s.queue_ ++ [q.task] } = s₁
      rw [h.queue, List.nil_append]
    simp only [CgiServer.next, hread, h.frames, if_true, hput]
  have htame₁ := (hinv.toDecoding.onData hread).tame
  have hstate₁ : s₁.conn.state_ = .kConnected := by
    change (s.onData data []).conn.state_ = _
    rw [hconn]
    exact h.state
  -- it shuts the connection down
  have hstep₂ : next n base s₁ .onMessageReturns = some s₁.onMessageReturns := by
    have hframes : s₁.conn.frames ≠ [] := by
      change (s.onData data []).conn.frames ≠ _
      rw [hconn]
      simp
    rw [CgiServer.next, if_neg hframes]
  have hstate₂ : s₁.onMessageReturns.conn.state_ = .kDisconnecting := by
    have htame : Tame { s₁.conn with closeFlag_ := true, state_ := .kDisconnecting } :=
      { htame₁ with }
    have hsame := Tame.shutdown (w := s₁.conn) htame₁ hstate₁
    have hresume := (htame.of_sameInput hsame).resume
    have hshut : s₁.shutdownDue = true := by
      change (s.onData data []).shutdownDue = true
      rw [hdue, hkeep]
      rfl
    rw [CgiServer.onMessageReturns, hshut, if_pos rfl]
    dsimp only
    rw [hresume]
    rcases hsame with ⟨c, o, es, heq⟩
    rw [heq]
  -- a pool thread takes the task and finishes it
  let s₃ : CgiServer := { s₁.onMessageReturns with queue_ := [], running := [q.task] }
  have hrun : s₁.onMessageReturns.running = [] := h.running
  have hstep₃ : next n base s₁.onMessageReturns .take = some s₃ := by
    have hqueue : s₁.onMessageReturns.queue_ = [q.task] := rfl
    simp only [CgiServer.next, hqueue, hrun, List.length_nil, hn, if_true, List.nil_append]
    rfl
  have hstep₄ : next n base s₃ (.processCgi 0 someEnv) =
      some ({ s₃ with running := [] }.processCgi .other q.task base someEnv (.room 0)) := rfl
  refine ⟨_, .step (.step (.step (.step (.init h) hstep₁) hstep₂) hstep₃) hstep₄, ?_⟩
  have hno : ¬ s₃.conn.state_ = .kConnected := by
    change ¬ s₁.onMessageReturns.conn.state_ = _
    rw [hstate₂]
    decide
  rw [CgiServer.processCgi, if_neg (by exact hno)]
  simp

theorem toBytes_ne_nil (q : Request) : q.toBytes ≠ [] := by
  have hmem : q.endStdin ∈ q.records.filter Record.known := by
    rw [q.records_known]
    simp
  intro hnil
  have hrecord := (List.flatMap_eq_nil_iff.1 hnil) q.endStdin (List.mem_filter.1 hmem).1
  have hlen := congrArg List.length hrecord
  rw [Record.length_toBytes, Record.size, kRecordHeader] at hlen
  simp at hlen

/-- A fresh connection that is about to receive a request in one read. -/
def fresh (q : ResponderRequest) : CgiServer where
  conn := { state_ := .kConnected }
  toRead := [q.toBytes]

theorem fresh_starts (q : ResponderRequest) : Starts q (fresh q) where
  state := rfl
  tame := ⟨rfl, rfl, rfl, by simp [fresh], by simp [fresh]⟩
  frames := rfl
  codec := FastCgiCodec.clean_construct
  input := WfBuffer.readable_construct _
  toRead := by simp [fresh]
  reads := by simp [fresh, toBytes_ne_nil]
  requests := rfl
  shutdownDue := rfl
  queue := rfl
  running := rfl
  handed := rfl
  discarded := rfl

/-- Every interleaving of the IO loop and the pool threads answers the request exactly when the
flags byte is `FCGI_KEEP_CONN` or the pool has no threads. -/
theorem request_answered_iff (q : ResponderRequest) (n : Nat) (base : Bytes) :
    (∀ s, (serving q n base).Reachable s → s.Answered q n base) ↔
      q.keepConn = true ∨ n = 0 := by
  refine ⟨?_, ?_⟩
  · intro hall
    by_contra hno
    rcases not_or.1 hno with ⟨hkeep, hn⟩
    obtain ⟨s, hs, hdisc⟩ := (fresh_starts q).exists_discarded rfl
      (Bool.eq_false_of_not_eq_true hkeep) (Nat.pos_of_ne_zero hn)
    exact hdisc (hall s hs).1
  · intro hkept s hs
    have hinv : s.Inv q n base :=
      hs.invariant (P := fun s => s.Inv q n base) (fun _ hinit => Starts.inv hinit)
        (fun _ _ _ h hstep => Inv.next hkept h hstep)
    exact hinv.answered

/-- The request `postRequest` does not ask to keep the connection; with one pool thread its answer
can be dropped. -/
def postResponder : ResponderRequest where
  toRequest := Endpoint.postRequest
  beginRequest_length := by decide
  beginRequest_role := by decide

theorem post_request_not_answered :
    ¬ ∀ s, (serving postResponder 1 []).Reachable s → s.Answered postResponder 1 [] := by
  intro hall
  obtain ⟨s, hs, hdisc⟩ : ∃ s, (serving postResponder 1 []).Reachable s ∧ s.discarded ≠ [] :=
    (fresh_starts postResponder).exists_discarded rfl rfl Nat.one_pos
  exact hdisc (hall s hs).1

end CgiServer
end Cgi
end Longky
