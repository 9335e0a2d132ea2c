import Longky.Web.Segmentation

/-!
# Scheduling — the requests of one connection on several threads

`StaticServer::onMessage`, `onParser` and `writeComplete` of `webServer/staticServer.cpp` step by
step.  The loop thread reads one whole request into `inputBuffer_`, sets the callback and puts a task
into the pool; the task has a pointer to the same buffer.  A worker takes all that is in the buffer
when it starts, and its calls act on the one `FILE*` and the one callback of the connection while
the loop goes on.

`Orderly` says what a client may expect, and `Allowed` which steps lead there.
-/

namespace Longky
namespace Web

open Lib Net

/-! ## Tasks -/

/-- What a worker has left to do for a task. -/
inductive TaskStep where
  | call (call : ParserCall)
  /-- `fread` of the first part of the file that has been put into the context. -/
  | fread (head : Bytes)
  deriving DecidableEq, Repr

/-- The steps behind `retrieveAllAsString`.  Once a file is open, what `fread` returns decides. -/
def taskSteps (head : Bytes) : List ParserCall → List TaskStep
  | [] => []
  | .setContextfp file :: _ => [.call (.setContextfp file), .fread head]
  | call :: calls => .call call :: taskSteps head calls

/-- The steps behind `fread`: `goto Sdown` when there is nothing to read. -/
def afterRead (head nread : Bytes) : List TaskStep :=
  if nread = [] then [.call .shutdown] else [.call (.send (head ++ nread))]

/-- A task that a worker has started. -/
structure Task (W : Type) where
  worker : W
  env : Environment
  /-- `state_` of the connection when the response is passed to `send`. -/
  state_ : StateE
  steps : List TaskStep
  /-- The complete response that is due. -/
  response : Bytes

/-- The response to a request by itself: the head and the whole file. -/
def completeResponse (cfg : Config) (p : Parser) (env : Environment) (q : HttpRequest) :
    Option Bytes :=
  match scan cfg env.stat q.text with
  | .error _ | .ok ⟨_, _, .page _⟩ => none
  | .ok ⟨_, assigned, .serve path mime⟩ =>
      let head := Parser.responseHead (p.assign assigned).paramMap_ cfg mime
      match p.toRedisState.fetch cfg env path with
      | .ok (_, _, .cached body fileSize) => some (head fileSize ++ body)
      | .ok (_, _, .streamed _ fileSize) => some (head fileSize ++ (env.fopen path).getD [])
      | _ => none

/-- A call of the parser, on the thread of a worker. -/
def StaticConn.call (c : StaticConn) (env : Environment) : ParserCall → StaticConn
  | .setContextkv key value =>
      if key = Bytes.ofString "connectionFlag" then c.perform (.setConnectionFlag value) else c
  | .setContextfp file => c.perform (.setContextfp ((env.fopen file).getD []))
  | .cancelWriteComplete => c.perform (.setWriteCompleteCallback false)
  | .send message => c.perform (.send message)
  | .shutdown => c.perform .shutdown
  | .forceClose => { c with toWorld := c.toWorld.forceClose }
  | .forceCloseWithDelay => { c with toWorld := c.toWorld.forceCloseWithDelay }
  | .recordSize _ _ | .exeSET _ _ _ | .retryInLoop => c

/-- The message that the steps pass to `send`, and the file with it before that is open. -/
def unsentIn (env : Environment) : List TaskStep → Option Bytes
  | [] => none
  | .fread head :: _ => some head
  | .call (.send message) :: _ => some message
  | .call (.setContextfp file) :: steps =>
      (unsentIn env steps).map (· ++ (env.fopen file).getD [])
  | .call _ :: steps => unsentIn env steps

namespace Task

variable {W : Type}

def unsent (t : Task W) : Option Bytes := unsentIn t.env t.steps

/-- `send` is next. -/
def sends (t : Task W) : Bool :=
  match t.steps with
  | .call (.send _) :: _ => true
  | _ => false

/-- `setContextfp` is next. -/
def opens (t : Task W) : Bool :=
  match t.steps with
  | .call (.setContextfp _) :: _ => true
  | _ => false

end Task

/-! ## The connection -/

/-- What `onMessage` does behind the read, in order. -/
inductive MessageStep where
  | setWriteCompleteCallback
  | put
  deriving DecidableEq, Repr

/-- A connection with the pool that serves it, and what has been asked of it. -/
structure Scheduled (W : Type) extends StaticConn where
  workers : W → Parser
  /-- What is left of `onMessage`. -/
  onMessage : List MessageStep := []
  /-- The tasks of this connection in the queue of `threadPool_`. -/
  queue_ : Nat := 0
  /-- The tasks that have been started, in order. -/
  tasks : List (Task W) := []
  /-- The requests that have been read. -/
  requests : List HttpRequest := []
  /-- Of the messages that `sendInLoop` has yet to handle, how many come before the file in the
  context. -/
  fileRank : Nat := 0

inductive SchedulerAction (W : Type) where
  /-- A read event brings one whole request. -/
  | readFd (q : HttpRequest)
  | onMessage
  /-- A worker takes a task out of the queue and the bytes out of the buffer. -/
  | take (w : W) (state_ : StateE)
  /-- The next step of the task with this number. -/
  | proceed (i : Nat)
  /-- A worker has served other connections. -/
  | elsewhere (w : W) (p : Parser)
  | handleWrite (r : WriteResult)
  | runFunctor (r : WriteResult)

/-- The messages in the queue of the loop. -/
def queued (fs : List Functor) : List Bytes :=
  fs.filterMap fun
    | .sendInLoop message => some message
    | _ => none

namespace Scheduled

variable {W : Type}

/-- What is left to read of the file in the context. -/
def rest (c : Scheduled W) : Bytes := c.fp.getD []

/-- The messages that `sendInLoop` has yet to handle. -/
def unwritten (c : Scheduled W) : List Bytes :=
  queued c.pendingFunctors_ ++ c.tasks.filterMap Task.unsent

/-- Up to and including the message of this task. -/
def rankOf (c : Scheduled W) (i : Nat) : Nat :=
  (queued c.pendingFunctors_).length + ((c.tasks.take i).filterMap Task.unsent).length + 1

def Idle (c : Scheduled W) (w : W) : Prop := ∀ t ∈ c.tasks, t.worker = w → t.steps = []

def isShutdownWrite : Effect → Bool
  | .shutdownWrite _ => true
  | _ => false

/-- After `shutdownWrite` the kernel takes no more bytes. -/
def Answers (w : World) : WriteResult → Prop
  | .room _ => w.effects.any isShutdownWrite = false
  | .fail _ => True

instance (w : World) : (r : WriteResult) → Decidable (Answers w r)
  | .room _ => inferInstanceAs (Decidable (w.effects.any isShutdownWrite = false))
  | .fail _ => .isTrue trivial

variable [DecidableEq W]

instance (c : Scheduled W) (w : W) : Decidable (c.Idle w) :=
  inferInstanceAs (Decidable (∀ t ∈ c.tasks, t.worker = w → t.steps = []))

/-- A worker starts a task that was put for the next request, if there is one. -/
def start (c : Scheduled W) (w : W) (env : Environment) (state_ : StateE) (served : Served)
    (response : Bytes) : Scheduled W :=
  { c with
    inputBuffer_ := c.inputBuffer_.retrieveAllAsString.2
    workers := Function.update c.workers w served.parser
    queue_ := c.queue_ - 1
    tasks := c.tasks ++
      [{ worker := w
         env := env
         state_ := state_
         steps := taskSteps ((c.workers w).response_.readable ++ served.head.getD []) served.calls
         response := response }] }

/-- The response that is due to the next request. -/
def due (cfg : Config) (c : Scheduled W) (w : W) (env : Environment) : Option Bytes :=
  c.requests[c.tasks.length]?.bind (completeResponse cfg (c.workers w) env)

/-- A worker goes on with a task. -/
def advance (c : Scheduled W) (i : Nat) (t : Task W) (steps : List TaskStep) :
    TaskStep → Scheduled W
  | .call call =>
      { c with
        toStaticConn := c.toStaticConn.call t.env call
        tasks := c.tasks.set i { t with steps := steps }
        fileRank := match call with
          | .setContextfp _ => c.rankOf i
          | _ => c.fileRank }
  | .fread head =>
      { c with
        fp := c.fp.map (List.drop kBufSize)
        tasks := c.tasks.set i { t with steps := afterRead head (c.rest.take kBufSize) } }

/-- The task with number `n` meets the environment `envs n`. -/
def perform (cfg : Config) (envs : Nat → Environment) (c : Scheduled W) :
    SchedulerAction W → Scheduled W
  | .readFd q =>
      { c with
        inputBuffer_ := c.inputBuffer_.readFd q.text
        onMessage := [.setWriteCompleteCallback, .put]
        requests := c.requests ++ [q] }
  | .onMessage =>
      match c.onMessage with
      | [] => c
      | .setWriteCompleteCallback :: steps =>
          { c with writeCompleteCallback_ := true, onMessage := steps }
      | .put :: steps => { c with queue_ := c.queue_ + 1, onMessage := steps }
  | .take w state_ =>
      let env := envs c.tasks.length
      match (c.workers w).parserRequest cfg
          { request := c.inputBuffer_.retrieveAllAsString.1, env := env, state_ := state_ } with
      | .error _ => c
      | .ok served => c.start w env state_ served ((c.due cfg w env).getD [])
  | .proceed i =>
      match c.tasks[i]? with
      | none => c
      | some t =>
          match t.steps with
          | [] => c
          | step :: steps => c.advance i t steps step
  | .elsewhere w p => { c with workers := Function.update c.workers w p }
  | .handleWrite r => { c with toWorld := c.toWorld.handleWrite r }
  | .runFunctor r =>
      { c with
        toStaticConn := c.toStaticConn.perform (.runFunctor r)
        -- the message in front is handled
        fileRank := match c.pendingFunctors_ with
          | .sendInLoop _ :: _ => c.fileRank - 1
          | _ => c.fileRank }

/-- `state_` at the `send` of a task is as it was foreseen. -/
def Meets (c : Scheduled W) (t : Task W) : Prop :=
  t.steps ≠ [] ∧ (t.sends = true → c.state_ = t.state_)

instance (c : Scheduled W) (t : Task W) : Decidable (c.Meets t) :=
  inferInstanceAs (Decidable (_ ∧ _))

/-- The loop thread is busy until `onMessage` returns, and a worker until its task has ended. -/
def ready (c : Scheduled W) : SchedulerAction W → Prop
  | .readFd _ => c.onMessage = [] ∧ c.channel_.isReading = true
  | .onMessage => c.onMessage ≠ []
  | .take w _ => c.queue_ ≠ 0 ∧ c.Idle w
  | .proceed i => ∃ t ∈ c.tasks[i]?, c.Meets t
  | .elsewhere w _ => c.Idle w
  | .handleWrite r => c.onMessage = [] ∧ c.channel_.isWriting = true ∧ Answers c.toWorld r
  | .runFunctor r => c.onMessage = [] ∧ c.pendingFunctors_ ≠ [] ∧ Answers c.toWorld r

instance (c : Scheduled W) : (a : SchedulerAction W) → Decidable (c.ready a)
  | .readFd _ => inferInstanceAs (Decidable (_ ∧ _))
  | .onMessage => inferInstanceAs (Decidable (c.onMessage ≠ []))
  | .take w _ => inferInstanceAs (Decidable (c.queue_ ≠ 0 ∧ c.Idle w))
  | .proceed i => inferInstanceAs (Decidable (∃ t ∈ c.tasks[i]?, c.Meets t))
  | .elsewhere w _ => inferInstanceAs (Decidable (c.Idle w))
  | .handleWrite r => inferInstanceAs (Decidable (_ ∧ _ ∧ Answers c.toWorld r))
  | .runFunctor r => inferInstanceAs (Decidable (_ ∧ _ ∧ Answers c.toWorld r))

/-- Each request by itself is answered with a file. -/
def Serves (cfg : Config) (envs : Nat → Environment) (c : Scheduled W) :
    SchedulerAction W → Prop
  | .take w state_ =>
      (∃ served, (c.workers w).parserRequest cfg
        { request := c.inputBuffer_.retrieveAllAsString.1
          env := envs c.tasks.length
          state_ := state_ } = .ok served) ∧
        (c.tasks.length < c.requests.length → (c.due cfg w (envs c.tasks.length)).isSome)
  | _ => True

/-- A connection after `connectEstablished`. -/
def established (workers : W → Parser) : Scheduled W where
  toStaticConn := StaticConn.established
  workers := workers

def runs (cfg : Config) (envs : Nat → Environment) : System (Scheduled W) (SchedulerAction W) where
  init c := ∃ workers, c = established workers
  step c a c' := (c.ready a ∧ c.Serves cfg envs a) ∧ c' = c.perform cfg envs a

/-! ## One response per request -/

/-- Nothing is left to do. -/
structure AtRest (c : Scheduled W) : Prop where
  onMessage : c.onMessage = []
  queue_ : c.queue_ = 0
  tasks : ∀ t ∈ c.tasks, t.steps = []
  pendingFunctors_ : c.pendingFunctors_ = []
  channel_ : c.channel_.isWriting = false

instance (c : Scheduled W) : Decidable c.AtRest :=
  decidable_of_iff (c.onMessage = [] ∧ c.queue_ = 0 ∧ (∀ t ∈ c.tasks, t.steps = []) ∧
      c.pendingFunctors_ = [] ∧ c.channel_.isWriting = false)
    ⟨fun ⟨honMessage, hqueue, htasks, hfunctors, hchannel⟩ =>
      ⟨honMessage, hqueue, htasks, hfunctors, hchannel⟩,
      fun h => ⟨h.onMessage, h.queue_, h.tasks, h.pendingFunctors_, h.channel_⟩⟩

/-- The write leaves nothing behind, so no `writeComplete` follows without the callback. -/
def Drains (w : World) : WriteResult → Prop
  | .room n => w.outputBuffer_.readable.length ≤ n
  | .fail _ => False

instance (w : World) : (r : WriteResult) → Decidable (Drains w r)
  | .room n => inferInstanceAs (Decidable (w.outputBuffer_.readable.length ≤ n))
  | .fail _ => .isFalse id

/-- The next step of a task: responses are sent in order, on an open connection, and a file is not
replaced before its end. -/
def AllowedTask (c : Scheduled W) (i : Nat) (t : Task W) : Prop :=
  (t.sends = true → c.state_ = .kConnected ∧ (c.tasks.take i).filterMap Task.unsent = []) ∧
    (t.opens = true → c.rest = [])

/-- The next functor: a message does not go into the middle of a file, nor a file in front of its
head; no write fails; the callback is set while there is more of the file; and writing is stopped
when all has been written. -/
def AllowedFunctor (c : Scheduled W) (r : WriteResult) : List Functor → Prop
  | .sendInLoop message :: _ =>
      (c.fileRank = 0 → c.rest = []) ∧ c.directFault r = false ∧
        (c.fileRank = 1 → c.rest ≠ [] → StaticConn.Leaves c.toWorld message r ∨
          c.writeCompleteCallback_ = true)
  | .writeCompleteCallback :: _ =>
      if c.rest = [] then c.outputBuffer_.readable = []
      else c.fileRank = 0 ∧ c.state_ = .kConnected ∧ c.directFault r = false ∧
        (c.rest.drop kBufSize ≠ [] →
          StaticConn.Leaves c.toWorld (c.rest.take kBufSize) r ∨ c.writeCompleteCallback_ = true)
  | _ => True

/-- The steps that keep the responses in order. -/
def Allowed (c : Scheduled W) : SchedulerAction W → Prop
  | .readFd _ => c.inputBuffer_.readable = []
  | .take w _ => (c.workers w).response_.readable = []
  | .proceed i => ∀ t ∈ c.tasks[i]?, c.AllowedTask i t
  | .handleWrite r =>
      c.fileRank = 0 → c.rest ≠ [] → Drains c.toWorld r → c.writeCompleteCallback_ = true
  | .runFunctor r => c.AllowedFunctor r c.pendingFunctors_
  | .onMessage | .elsewhere _ _ => True

instance (c : Scheduled W) (i : Nat) (t : Task W) : Decidable (c.AllowedTask i t) :=
  inferInstanceAs (Decidable (_ ∧ _))

instance (c : Scheduled W) (r : WriteResult) :
    (fs : List Functor) → Decidable (c.AllowedFunctor r fs)
  | .sendInLoop message :: _ => inferInstanceAs (Decidable ((c.fileRank = 0 → c.rest = []) ∧
      c.directFault r = false ∧ (c.fileRank = 1 → c.rest ≠ [] →
        StaticConn.Leaves c.toWorld message r ∨ c.writeCompleteCallback_ = true)))
  | .writeCompleteCallback :: _ => inferInstanceAs (Decidable (if c.rest = [] then _ else _))
  | [] | .shutdownInLoop :: _ | .forceCloseInLoop :: _ | .startReadInLoop :: _
  | .stopReadInLoop :: _ | .startWriteInLoop :: _ | .stopWriteInLoop :: _
  | .highWaterMarkCallback _ :: _ | .connectDestroyed :: _ => .isTrue trivial

instance (c : Scheduled W) : (a : SchedulerAction W) → Decidable (c.Allowed a)
  | .readFd _ => inferInstanceAs (Decidable (c.inputBuffer_.readable = []))
  | .take w _ => inferInstanceAs (Decidable ((c.workers w).response_.readable = []))
  | .proceed i => inferInstanceAs (Decidable (∀ t ∈ c.tasks[i]?, c.AllowedTask i t))
  | .handleWrite r => inferInstanceAs (Decidable (c.fileRank = 0 → c.rest ≠ [] →
      Drains c.toWorld r → c.writeCompleteCallback_ = true))
  | .runFunctor r => inferInstanceAs (Decidable (c.AllowedFunctor r c.pendingFunctors_))
  | .onMessage | .elsewhere _ _ => .isTrue trivial

end Scheduled

/-! ## The steps of a request that is answered with a file -/

/-- Calls that neither send nor open nor close. -/
def ParserCall.Quiet : ParserCall → Prop
  | .setContextkv _ _ => True
  | call => call.Caches

/-- The steps of such a request, from some step on, but not between `setContextfp` and `fread`. -/
inductive Regular (env : Environment) : List TaskStep → Prop where
  | done : Regular env []
  | shutdown : Regular env [.call .shutdown]
  | quiet {call : ParserCall} {steps : List TaskStep} :
      call.Quiet → Regular env steps → Regular env (.call call :: steps)
  | send {message : Bytes} {steps : List TaskStep} :
      message ≠ [] → unsentIn env steps = none → Regular env steps →
        Regular env (.call (.send message) :: steps)
  | setContextfp {file head : Bytes} :
      head ≠ [] → (env.fopen file).getD [] ≠ [] →
        Regular env [.call (.setContextfp file), .fread head]

variable {env : Environment}

theorem unsentIn_quiet {call : ParserCall} (h : call.Quiet) (steps : List TaskStep) :
    unsentIn env (.call call :: steps) = unsentIn env steps := by
  cases call <;> first | rfl | exact False.elim h

theorem taskSteps_quiet {calls : List ParserCall} (h : ∀ call ∈ calls, call.Quiet) (head : Bytes)
    (calls' : List ParserCall) :
    taskSteps head (calls ++ calls') = calls.map .call ++ taskSteps head calls' := by
  induction calls with
  | nil => rfl
  | cons call calls ih =>
      have hcall := h call List.mem_cons_self
      have hrest := ih fun c hc => h c (List.mem_cons_of_mem _ hc)
      cases call <;> first | exact False.elim hcall | exact congrArg (List.cons _) hrest

theorem regular_quiet {calls : List ParserCall} (h : ∀ call ∈ calls, call.Quiet)
    {steps : List TaskStep} (hsteps : Regular env steps) :
    Regular env (calls.map .call ++ steps) ∧
      unsentIn env (calls.map .call ++ steps) = unsentIn env steps := by
  induction calls with
  | nil => exact ⟨hsteps, rfl⟩
  | cons call calls ih =>
      have hcall := h call List.mem_cons_self
      rcases ih fun c hc => h c (List.mem_cons_of_mem _ hc) with ⟨hregular, hunsent⟩
      exact ⟨.quiet hcall hregular, (unsentIn_quiet hcall _).trans hunsent⟩

/-- Where a complete response comes from. -/
theorem completeResponse_eq_some {cfg : Config} {p : Parser} {q : HttpRequest} {response : Bytes}
    (h : completeResponse cfg p env q = some response) :
    ∃ s path mime redis calls body size, scan cfg env.stat q.text = .ok s ∧
      s.verdict = .serve path mime ∧
      p.toRedisState.fetch cfg env path = .ok (redis, calls, body) ∧
      ∃ b, response = Parser.responseHead (p.assign s.assigned).paramMap_ cfg mime size ++ b ∧
        (body = .cached b size ∨ ∃ part, body = .streamed part size ∧ b = (env.fopen path).getD []) := by
  unfold completeResponse at h
  split at h
  · cases h
  · cases h
  · rename_i file assigned path mime hscan
    dsimp only at h
    split at h
    · rename_i redis calls body size hfetch
      cases h
      exact ⟨_, path, mime, redis, calls, _, size, hscan, rfl, hfetch, body, rfl, Or.inl rfl⟩
    · rename_i redis calls part size hfetch
      cases h
      exact ⟨_, path, mime, redis, calls, _, size, hscan, rfl, hfetch, _, rfl,
        Or.inr ⟨part, rfl, rfl⟩⟩
    · cases h

/-- A streamed body is the first part of the file that has been put into the context. -/
theorem openFile_streamed {path part : Bytes} {size : Int}
    (h : (openFile env path).2 = .streamed part size) :
    (openFile env path).1 = [.setContextfp path] ∧ (env.fopen path).getD [] ≠ [] := by
  unfold openFile at h ⊢
  split at h
  · cases h
  · cases h
  · rename_i contents hcontents hfile
    rw [hfile]
    cases contents with
    | nil => exact absurd rfl hcontents
    | cons c contents => exact ⟨rfl, by simp⟩

/-- The end of `responseRequest` behind a body from the cache: one message, which may be the last. -/
theorem taskSteps_cached (env : Environment) {p : Parser} (hempty : p.response_.readable = [])
    (cfg : Config) (state_ : StateE) (mime b : Bytes) (size : Int) (head : Bytes) :
    let steps := taskSteps head (p.answerBody cfg state_ mime (.cached b size)).calls
    Regular env steps ∧
      unsentIn env steps = some (Parser.responseHead p.paramMap_ cfg mime size ++ b) := by
  have hmessage : (p.response_.append
      (Parser.responseHead p.paramMap_ cfg mime size ++ b)).readable =
        Parser.responseHead p.paramMap_ cfg mime size ++ b := by
    rw [WfBuffer.readable_append, hempty, List.nil_append]
  have hne : Parser.responseHead p.paramMap_ cfg mime size ++ b ≠ [] := by
    simp [Parser.responseHead_ne_nil]
  simp only [Parser.answerBody, Parser.respond, hmessage]
  split
  · exact ⟨.send hne rfl .shutdown, rfl⟩
  · exact ⟨.send hne rfl .done, rfl⟩

/-- The steps of a task whose request is answered with a file: they are regular, and what they send
is the complete response. -/
theorem taskSteps_spec {cfg : Config} {p : Parser} {q : HttpRequest} {response : Bytes}
    (h : completeResponse cfg p env q = some response) (hempty : p.response_.readable = [])
    {state_ : StateE} {served : Served}
    (hserved : p.parserRequest cfg { request := q.text, env := env, state_ := state_ } =
      .ok served) :
    let steps := taskSteps (p.response_.readable ++ served.head.getD []) served.calls
    Regular env steps ∧ unsentIn env steps = some response := by
  rcases completeResponse_eq_some h with
    ⟨s, path, mime, redis, calls, body, size, hscan, hserve, hfetch, b, rfl, hbody⟩
  rw [Parser.parserRequest_serve (v := { request := q.text, env := env, state_ := state_ })
    hscan hserve, hfetch] at hserved
  cases hserved
  rcases RedisState.fetch_calls hfetch with ⟨cached, hcached, hcases⟩
  -- the calls in front of the body
  have hquiet : ∀ flag, ∀ call ∈ Parser.setFile s ++
      .setContextkv (Bytes.ofString "connectionFlag") flag :: cached, call.Quiet := by
    intro flag call hcall
    rcases List.mem_append.1 hcall with hfile | hcall
    · rcases List.mem_map.1 hfile with ⟨file, -, rfl⟩
      trivial
    · rcases List.mem_cons.1 hcall with rfl | hcall
      · trivial
      · have hc := hcached call hcall
        cases call <;> first | exact hc | trivial
  have hsplit : ∀ flag rest, Parser.setFile s ++
      .setContextkv (Bytes.ofString "connectionFlag") flag :: (cached ++ rest) =
        (Parser.setFile s ++ .setContextkv (Bytes.ofString "connectionFlag") flag :: cached) ++
          rest := by
    intro flag rest
    simp
  rcases hbody with rfl | ⟨part, rfl, rfl⟩
  · rcases hcases with ⟨_, _, -, rfl⟩ | ⟨hopen, -⟩
    · dsimp only
      rw [hsplit, taskSteps_quiet (hquiet _)]
      rcases taskSteps_cached env (p := { p.assign s.assigned with toRedisState := redis }) hempty
        cfg state_ mime b size _ with ⟨hregular, hunsent⟩
      rcases regular_quiet (hquiet _) hregular with ⟨hall, hsame⟩
      exact ⟨hall, hsame.trans hunsent⟩
    · unfold openFile at hopen
      split at hopen <;> cases hopen
  · rcases hcases with ⟨_, _, heq, -⟩ | ⟨hopen, rfl⟩
    · cases heq
    · rcases openFile_streamed hopen.symm with ⟨hcalls, hne⟩
      dsimp only
      rw [hcalls, List.append_assoc, hsplit, taskSteps_quiet (hquiet _)]
      have hhead : Parser.responseHead (p.assign s.assigned).paramMap_ cfg mime size ≠ [] :=
        Parser.responseHead_ne_nil _ _ _ _
      rw [hempty]
      rcases regular_quiet (hquiet _) (.setContextfp hhead hne) with ⟨hall, hsame⟩
      exact ⟨hall, hsame⟩

end Web
end Longky
