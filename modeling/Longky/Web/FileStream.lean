import Longky.Web.Scheduling

/-!
# FileStream — one file on its way to the socket

A single request for a file on a connection that is otherwise at ease.  The worker puts the file into
the connection's context, reads its first part and passes it to `send` behind the head; from there on
every part is read and sent by a call of `StaticServer::writeComplete`, which `sendInLoop` queues when
the kernel takes a message at once, and `handleWrite` when it takes the last byte that was left.

`Stage` says where the file is.  `delivered` follows from it for every way in which the kernel takes
the bytes, and `remaining_decreases` that there is an end to it.
-/

namespace Longky
namespace Web

open Lib Net World

/-! ## The exchange -/

/-- What a call of `send` or of `writeComplete` does for the file; each call of `writeComplete` does
one of these. -/
inductive StreamEvent where
  /-- A message is passed to `send`. -/
  | chunk (message : Bytes)
  /-- `fclose` and `setContextfp(nullptr)`, with `shutdown` behind it or not. -/
  | fclose (shutdown : Bool)
  /-- There is no file in the context. -/
  | absent
  deriving DecidableEq, Repr

/-- A connection with the steps that the worker has left for its request, and what has been done. -/
structure Exchange extends StaticConn where
  env : Environment
  steps : List TaskStep
  log : List StreamEvent := []

inductive ExchangeAction where
  /-- The worker goes on. -/
  | proceed
  | handleWrite (r : WriteResult)
  | runFunctor (r : WriteResult)

namespace StaticConn

/-- What `writeComplete` is about to do. -/
def completion (c : StaticConn) : StreamEvent :=
  match c.fp with
  | none => .absent
  | some contents =>
      let buf := contents.take kBufSize
      if 0 < buf.length then .chunk buf
      else .fclose (c.connectionFlag = Bytes.ofString "close")

/-- The parts of a file in the order in which `writeComplete` reads them. -/
def chunkList : Nat → Bytes → List Bytes
  | 0, _ => []
  | n + 1, contents => contents.take kBufSize :: chunkList n (contents.drop kBufSize)

def chunks (contents : Bytes) : List Bytes := chunkList (parts (some contents)) contents

/-- Connected, with nothing to write, to run or to read from. -/
structure AtEase (c : StaticConn) : Prop where
  state_ : c.state_ = .kConnected
  outputBuffer_ : c.outputBuffer_.readable = []
  channel_ : c.channel_.isWriting = false
  pendingFunctors_ : c.pendingFunctors_ = []
  fp : c.fp = none
  highWaterMarkCallback_ : c.highWaterMarkCallback_ = false
  dissByPeer_ : c.dissByPeer_ = false

theorem atEase_established : AtEase established :=
  ⟨rfl, WfBuffer.readable_construct _, rfl, rfl, rfl, rfl, rfl⟩

end StaticConn

namespace Exchange

/-- What the parser's call does for the file. -/
def eventsOf : ParserCall → List StreamEvent
  | .send message => [.chunk message]
  | _ => []

/-- `onMessage` has set the callback, and the worker has parsed the request. -/
def start (c : StaticConn) (p : Parser) (env : Environment) (served : Served) : Exchange where
  toStaticConn := c.perform (.setWriteCompleteCallback true)
  env := env
  steps := taskSteps (p.response_.readable ++ served.head.getD []) served.calls

def perform (x : Exchange) : ExchangeAction → Exchange
  | .proceed =>
      match x.steps with
      | [] => x
      | .call call :: steps =>
          { x with
            toStaticConn := x.toStaticConn.call x.env call
            steps := steps
            log := x.log ++ eventsOf call }
      | .fread head :: _ =>
          { x with
            fp := x.fp.map (List.drop kBufSize)
            steps := afterRead head ((x.fp.getD []).take kBufSize) }
  | .handleWrite r => { x with toWorld := x.toWorld.handleWrite r }
  | .runFunctor r =>
      { x with
        toStaticConn := x.toStaticConn.perform (.runFunctor r)
        log := x.log ++
          match x.pendingFunctors_ with
          | .writeCompleteCallback :: _ => [x.toStaticConn.completion]
          | _ => [] }

/-- The kernel takes some of the bytes or none, but the connection is not broken. -/
def Sound : WriteResult → Prop
  | .room _ => True
  | .fail e => e.isFault = false

def enabled (x : Exchange) : ExchangeAction → Prop
  | .proceed => x.steps ≠ []
  | .handleWrite r => x.channel_.isWriting = true ∧ Sound r
  | .runFunctor r => x.pendingFunctors_ ≠ [] ∧ Sound r

instance : (r : WriteResult) → Decidable (Sound r)
  | .room _ => .isTrue trivial
  | .fail e => inferInstanceAs (Decidable (e.isFault = false))

instance (x : Exchange) : (a : ExchangeAction) → Decidable (x.enabled a)
  | .proceed => inferInstanceAs (Decidable (x.steps ≠ []))
  | .handleWrite r => inferInstanceAs (Decidable (_ ∧ Sound r))
  | .runFunctor r => inferInstanceAs (Decidable (_ ∧ Sound r))

/-- The exchange from a state on. -/
def runs (x₀ : Exchange) : System Exchange ExchangeAction where
  init x := x = x₀
  step x a x' := x.enabled a ∧ x' = x.perform a

/-- No step is left. -/
structure AtRest (x : Exchange) : Prop where
  steps : x.steps = []
  pendingFunctors_ : x.pendingFunctors_ = []
  channel_ : x.channel_.isWriting = false

/-- All that is done for a file, in order. -/
def record (head contents flag : Bytes) : List StreamEvent :=
  .chunk (head ++ contents.take kBufSize) ::
    (StaticConn.chunks (contents.drop kBufSize)).map .chunk ++
      [.fclose (flag = Bytes.ofString "close")]

/-- The bytes that have been passed to `send`. -/
def sentBytes (log : List StreamEvent) : Bytes :=
  log.flatMap fun
    | .chunk message => message
    | _ => []

end Exchange

/-! ## Parts of a file -/

namespace StaticConn

theorem chunks_of_ne {contents : Bytes} (h : contents ≠ []) :
    chunks contents = contents.take kBufSize :: chunks (contents.drop kBufSize) := by
  unfold chunks
  rw [← parts_drop h, chunkList]

theorem flatten_chunkList (n : Nat) (contents : Bytes) :
    (chunkList n contents).flatten = streamParts n contents := by
  induction n generalizing contents with
  | zero => rfl
  | succ n ih => rw [chunkList, List.flatten_cons, ih, streamParts]

theorem flatten_chunks (contents : Bytes) : (chunks contents).flatten = contents :=
  (flatten_chunkList _ contents).trans (streamRest_eq contents)

theorem completion_of_ne {c : StaticConn} {contents : Bytes} (hfp : c.fp = some contents)
    (hne : contents ≠ []) : c.completion = .chunk (contents.take kBufSize) := by
  have hpos : 0 < (contents.take kBufSize).length := List.length_pos_iff.2 (take_ne_nil hne)
  simp only [completion, hfp, if_pos hpos]

theorem completion_of_nil {c : StaticConn} (hfp : c.fp = some []) :
    c.completion = .fclose (c.connectionFlag = Bytes.ofString "close") := by
  simp only [completion, hfp, List.take_nil, List.length_nil, Nat.lt_irrefl, if_false]

end StaticConn

namespace Exchange

@[simp] theorem sentBytes_append (l l' : List StreamEvent) :
    sentBytes (l ++ l') = sentBytes l ++ sentBytes l' := List.flatMap_append

@[simp] theorem sentBytes_chunk (message : Bytes) (l : List StreamEvent) :
    sentBytes (.chunk message :: l) = message ++ sentBytes l := List.flatMap_cons

theorem sentBytes_chunks (messages : List Bytes) :
    sentBytes (messages.map .chunk) = messages.flatten := by
  induction messages with
  | nil => rfl
  | cons message messages ih => rw [List.map_cons, sentBytes_chunk, ih, List.flatten_cons]

theorem sentBytes_record (head contents flag : Bytes) :
    sentBytes (record head contents flag) = head ++ contents := by
  unfold record
  rw [sentBytes_append, sentBytes_chunk, sentBytes_chunks, StaticConn.flatten_chunks,
    List.append_assoc, List.append_assoc]
  congr 1
  rw [← List.append_assoc, List.take_append_drop]
  exact List.append_nil _

end Exchange

/-! ## Writing on a connection at ease -/

namespace Exchange

/-- Connected, with the callback, and without the callbacks and flags that the server never sets. -/
structure Ready (w : World) : Prop where
  state_ : w.state_ = .kConnected
  writeCompleteCallback_ : w.writeCompleteCallback_ = true
  highWaterMarkCallback_ : w.highWaterMarkCallback_ = false
  dissByPeer_ : w.dissByPeer_ = false

section Loop

variable {w : World}

theorem appendRemaining_eq (hhigh : w.highWaterMarkCallback_ = false)
    (hw : w.channel_.isWriting = false) {data : Bytes} (hne : data ≠ []) :
    w.appendRemaining data =
      { w with
        outputBuffer_ := w.outputBuffer_.append data
        channel_ := w.channel_.enableWriting } := by
  have hpos : 0 < data.length := List.length_pos_iff.2 hne
  unfold appendRemaining
  simp only [if_pos hpos, hhigh, Bool.false_eq_true, and_false, if_false, hw, Bool.not_false,
    if_true]

/-- A message with nothing in front of it: the kernel takes all of it, and `writeComplete` is queued,
or the rest waits for write events. -/
theorem sendInLoop_cases (hready : Ready w) (hout : w.outputBuffer_.readable = [])
    (hw : w.channel_.isWriting = false) {data : Bytes} (hne : data ≠ []) {r : WriteResult}
    (hr : Sound r) :
    (∃ effects, w.sendInLoop data r =
        { w with
          effects := effects
          pendingFunctors_ := w.pendingFunctors_ ++ [.writeCompleteCallback] } ∧
      effects.flatMap Effect.bytes = w.accepted ++ data) ∨
    ∃ effects out, w.sendInLoop data r =
        { w with effects := effects, outputBuffer_ := out, channel_ := w.channel_.enableWriting } ∧
      out.readable ≠ [] ∧ ∃ bytes, bytes ++ out.readable = data ∧
        effects.flatMap Effect.bytes = w.accepted ++ bytes := by
  have hst : w.state_ ≠ .kDisconnected := by
    rw [hready.state_]
    decide
  have hdirect : w.writesDirectly = true := (writesDirectly_iff w).2 ⟨hw, hout⟩
  unfold sendInLoop
  rw [if_neg hst, if_pos hdirect]
  cases r with
  | room n =>
      have hwrote : (w.emit (.wrote (data.take n))).effects.flatMap Effect.bytes =
          w.accepted ++ data.take n := accepted_emit w _
      dsimp only
      split
      · rename_i hall
        have htake : data.take n = data := by
          rw [List.length_drop] at hall
          exact List.take_of_length_le (by omega)
        rw [htake] at hwrote ⊢
        left
        refine ⟨_, ?_, hwrote⟩
        unfold queueWriteComplete
        rw [if_pos (by exact hready.writeCompleteCallback_)]
        rfl
      · rename_i hleft
        have hdrop : data.drop n ≠ [] := fun hnil => hleft (by rw [hnil]; rfl)
        -- what the socket has not taken is the new contents of the buffer
        right
        rw [appendRemaining_eq (w := w.emit _) hready.highWaterMarkCallback_ hw hdrop]
        have hread : ((w.emit (.wrote (data.take n))).outputBuffer_.append (data.drop n)).readable =
            data.drop n := by
          rw [WfBuffer.readable_append]
          change w.outputBuffer_.readable ++ _ = _
          rw [hout, List.nil_append]
        refine ⟨_, _, rfl, ?_, data.take n, ?_, hwrote⟩
        · rw [hread]
          exact hdrop
        · rw [hread, List.take_append_drop]
  | fail e =>
      -- an error that is no fault leaves everything to the buffer
      have hfault : e.isFault = false := hr
      dsimp only
      rw [hfault, if_neg Bool.false_ne_true, appendRemaining_eq hready.highWaterMarkCallback_ hw hne]
      right
      have hread : (w.outputBuffer_.append data).readable = data := by
        rw [WfBuffer.readable_append, hout, List.nil_append]
      refine ⟨_, _, rfl, ?_, [], ?_, (List.append_nil _).symm⟩
      · rw [hread]
        exact hne
      · rw [hread, List.nil_append]

theorem retrieveWritten_output (w : World) (n : Nat) (h : n ≤ w.outputBuffer_.readableBytes) :
    (w.retrieveWritten n h).outputBuffer_.readable = w.outputBuffer_.readable.drop n ∧
      (w.retrieveWritten n h).effects.flatMap Effect.bytes =
        w.accepted ++ w.outputBuffer_.readable.take n :=
  ⟨WfBuffer.readable_retrieve _ _ h, accepted_emit _ _⟩

theorem outputDrained_eq (hready : Ready w) :
    w.outputDrained =
      { w with
        channel_ := w.channel_.disableWriting
        pendingFunctors_ := w.pendingFunctors_ ++ [.writeCompleteCallback] } := by
  have hqueue : { w with channel_ := w.channel_.disableWriting }.queueWriteComplete =
      { w with
        channel_ := w.channel_.disableWriting
        pendingFunctors_ := w.pendingFunctors_ ++ [.writeCompleteCallback] } :=
    if_pos hready.writeCompleteCallback_
  have hst : w.state_ ≠ .kDisconnecting := by
    rw [hready.state_]
    decide
  unfold outputDrained
  rw [hqueue]
  exact if_neg hst

/-- A write event: the kernel takes nothing, some of what is left, or the last of it. -/
theorem handleWrite_cases (hready : Ready w) (hout : w.outputBuffer_.readable ≠ [])
    (hw : w.channel_.isWriting = true) (r : WriteResult) :
    w.handleWrite r = w ∨
    (∃ effects out, w.handleWrite r =
        { w with
          effects := effects
          outputBuffer_ := out
          channel_ := w.channel_.disableWriting
          pendingFunctors_ := w.pendingFunctors_ ++ [.writeCompleteCallback] } ∧
      out.readable = [] ∧
      effects.flatMap Effect.bytes = w.accepted ++ w.outputBuffer_.readable) ∨
    ∃ effects out, w.handleWrite r = { w with effects := effects, outputBuffer_ := out } ∧
      out.readable ≠ [] ∧ ∃ bytes, bytes ≠ [] ∧ bytes ++ out.readable = w.outputBuffer_.readable ∧
        effects.flatMap Effect.bytes = w.accepted ++ bytes := by
  unfold World.handleWrite
  rw [if_pos hw]
  cases r with
  | fail e => exact Or.inl rfl
  | room k =>
      dsimp only
      split
      · rename_i hpos
        right
        rcases retrieveWritten_output w (min k w.outputBuffer_.readableBytes)
          (Nat.min_le_right _ _) with ⟨hread, heffects⟩
        split
        · rename_i hempty
          have hnil := WfBuffer.readableBytes_eq_zero.1 hempty
          have htake : w.outputBuffer_.readable.take (min k w.outputBuffer_.readableBytes) =
              w.outputBuffer_.readable := by
            have hall := List.take_append_drop (min k w.outputBuffer_.readableBytes)
              w.outputBuffer_.readable
            rwa [← hread, hnil, List.append_nil] at hall
          left
          have hready' : Ready (w.retrieveWritten (min k w.outputBuffer_.readableBytes)
              (Nat.min_le_right _ _)) := { hready with }
          exact ⟨_, _, outputDrained_eq hready', hnil, heffects.trans (by rw [htake])⟩
        · rename_i hleft
          right
          refine ⟨(w.retrieveWritten (min k w.outputBuffer_.readableBytes)
            (Nat.min_le_right _ _)).effects, (w.retrieveWritten (min k w.outputBuffer_.readableBytes)
            (Nat.min_le_right _ _)).outputBuffer_, rfl, ?_, _, ?_, ?_, heffects⟩
          · exact fun hnil => hleft (WfBuffer.readableBytes_eq_zero.2 hnil)
          · rw [Ne, List.take_eq_nil_iff]
            exact fun hnil => hnil.elim (Nat.ne_of_gt hpos) hout
          · rw [hread, List.take_append_drop]
      · exact Or.inl rfl

end Loop

/-! ## Where the file is -/

/-- A file in its exchange. -/
structure Delivery where
  /-- What the kernel has taken before. -/
  before : Bytes
  head : Bytes
  path : Bytes
  contents : Bytes
  /-- The value of the `Connection` header. -/
  flag : Bytes
  nonempty : contents ≠ []

/-- Of the bytes that were sent, the kernel has taken all but what is left. -/
def Taken (before accepted left sent : Bytes) : Prop :=
  ∃ bytes, accepted = before ++ bytes ∧ bytes ++ left = sent

/-- What is done for the rest of a file. -/
def Delivery.tail (d : Delivery) (rest : Bytes) : List StreamEvent :=
  (StaticConn.chunks rest).map .chunk ++ [.fclose (d.flag = Bytes.ofString "close")]

/-- Nothing has been sent. -/
structure Unsent (d : Delivery) (x : Exchange) : Prop where
  ready : Ready x.toWorld
  file : x.env.fopen d.path = some d.contents
  accepted : x.accepted = d.before
  outputBuffer_ : x.outputBuffer_.readable = []
  channel_ : x.channel_.isWriting = false
  pendingFunctors_ : x.pendingFunctors_ = []
  log : x.log = []

/-- The head has been sent, and this is left of the file. -/
structure Sending (d : Delivery) (x : Exchange) (rest : Bytes) : Prop where
  ready : Ready x.toWorld
  steps : x.steps = []
  connectionFlag : x.connectionFlag = d.flag
  fp : x.fp = some rest
  log : x.log ++ d.tail rest = record d.head d.contents d.flag

/-- The file has been closed. -/
structure Done (d : Delivery) (x : Exchange) : Prop where
  steps : x.steps = []
  pendingFunctors_ : x.pendingFunctors_ = []
  outputBuffer_ : x.outputBuffer_.readable = []
  channel_ : x.channel_.isWriting = false
  fp : x.fp = none
  log : x.log = record d.head d.contents d.flag
  taken : Taken d.before x.accepted [] (sentBytes x.log)
  state_ : x.state_ = if d.flag = Bytes.ofString "close" then .kDisconnecting else .kConnected
  highWaterMarkCallback_ : x.highWaterMarkCallback_ = false
  dissByPeer_ : x.dissByPeer_ = false

inductive Stage (d : Delivery) (x : Exchange) : Prop
  /-- The worker stores names, the flag last. -/
  | parsed (unsent : Unsent d x) (names : List Bytes)
      (steps : x.steps =
        names.map (fun name => .call (.setContextkv (Bytes.ofString "file") name)) ++
          [.call (.setContextkv (Bytes.ofString "connectionFlag") d.flag),
            .call (.setContextfp d.path), .fread d.head])
      (fp : x.fp = none)
  | flagged (unsent : Unsent d x) (steps : x.steps = [.call (.setContextfp d.path), .fread d.head])
      (connectionFlag : x.connectionFlag = d.flag) (fp : x.fp = none)
  | opened (unsent : Unsent d x) (steps : x.steps = [.fread d.head])
      (connectionFlag : x.connectionFlag = d.flag) (fp : x.fp = some d.contents)
  | read (unsent : Unsent d x)
      (steps : x.steps = [.call (.send (d.head ++ d.contents.take kBufSize))])
      (connectionFlag : x.connectionFlag = d.flag) (fp : x.fp = some (d.contents.drop kBufSize))
  /-- The first message is in the queue of the loop. -/
  | queued (rest message : Bytes) (sending : Sending d x rest)
      (outputBuffer_ : x.outputBuffer_.readable = []) (channel_ : x.channel_.isWriting = false)
      (pendingFunctors_ : x.pendingFunctors_ = [.sendInLoop message]) (ne : message ≠ [])
      (taken : Taken d.before x.accepted message (sentBytes x.log))
  | writing (rest : Bytes) (sending : Sending d x rest)
      (outputBuffer_ : x.outputBuffer_.readable ≠ []) (channel_ : x.channel_.isWriting = true)
      (pendingFunctors_ : x.pendingFunctors_ = [])
      (taken : Taken d.before x.accepted x.outputBuffer_.readable (sentBytes x.log))
  /-- All that has been sent has left the output buffer. -/
  | written (rest : Bytes) (sending : Sending d x rest)
      (outputBuffer_ : x.outputBuffer_.readable = []) (channel_ : x.channel_.isWriting = false)
      (pendingFunctors_ : x.pendingFunctors_ = [.writeCompleteCallback])
      (taken : Taken d.before x.accepted [] (sentBytes x.log))
  | done (done : Done d x)

/-! ## How much is left -/

def stepWeight (env : Environment) : TaskStep → Nat
  | .call (.setContextfp file) => 3 * ((env.fopen file).getD []).length + 1
  | .call (.send message) => 2 * message.length + 3
  | .call _ => 1
  | .fread head => 2 * head.length + 4

def functorWeight : Functor → Nat
  | .sendInLoop message => 2 * message.length + 2
  | _ => 1

/-- A byte counts most in the file and less in the output buffer. -/
def remaining (x : Exchange) : Nat :=
  (x.steps.map (stepWeight x.env)).sum + (x.pendingFunctors_.map functorWeight).sum +
    2 * x.outputBuffer_.readable.length + 3 * (x.fp.getD []).length

/-- A step brings the exchange closer to its end. -/
def Advances (d : Delivery) (x y : Exchange) : Prop := Stage d y ∧ y.remaining < x.remaining

section Step

variable {d : Delivery} {x y : Exchange} {rest message : Bytes} {r : WriteResult}

theorem length_split (contents : Bytes) :
    (contents.take kBufSize).length + (contents.drop kBufSize).length = contents.length := by
  rw [← List.length_append, List.take_append_drop]

theorem taken_nil {before accepted sent : Bytes} :
    Taken before accepted [] sent ↔ accepted = before ++ sent := by
  unfold Taken
  simp

/-- The kernel takes more. -/
theorem Taken.next {before accepted accepted' left left' sent bytes : Bytes}
    (h : Taken before accepted left sent) (hleft : bytes ++ left' = left)
    (haccepted : accepted' = accepted ++ bytes) : Taken before accepted' left' sent := by
  rcases h with ⟨taken, rfl, rfl⟩
  refine ⟨taken ++ bytes, ?_, ?_⟩
  · rw [haccepted, List.append_assoc]
  · rw [List.append_assoc, hleft]

/-- More is sent. -/
theorem Taken.append {before accepted left sent : Bytes} (h : Taken before accepted left sent)
    (message : Bytes) : Taken before accepted (left ++ message) (sent ++ message) := by
  rcases h with ⟨taken, rfl, rfl⟩
  exact ⟨taken, rfl, (List.append_assoc _ _ _).symm⟩

/-- A message is written to a socket that nothing waits for. -/
theorem stage_of_send {w : World} (hworld : y.toWorld = w.sendInLoop message r) (hready : Ready w)
    (hout : w.outputBuffer_.readable = []) (hw : w.channel_.isWriting = false)
    (hpending : w.pendingFunctors_ = []) (hne : message ≠ []) (hr : Sound r)
    (hsteps : y.steps = []) (hflag : y.connectionFlag = d.flag) (hfp : y.fp = some rest)
    (hlog : y.log ++ d.tail rest = record d.head d.contents d.flag)
    (htaken : Taken d.before w.accepted message (sentBytes y.log)) :
    Stage d y ∧ y.remaining ≤ 2 * message.length + 1 + 3 * rest.length := by
  rcases sendInLoop_cases hready hout hw hne hr with ⟨effects, heq, heffects⟩ |
    ⟨effects, out, heq, hleft, bytes, hbytes, heffects⟩
  -- everything was written, and `writeComplete` is in the queue
  · rw [heq] at hworld
    have hready' : Ready y.toWorld := by
      rw [hworld]
      exact { hready with }
    have htaken' : Taken d.before y.accepted [] (sentBytes y.log) := by
      rw [hworld]
      exact htaken.next (List.append_nil _) heffects
    have hread : y.outputBuffer_.readable = [] := by
      rw [hworld]
      exact hout
    have hqueue : y.pendingFunctors_ = [.writeCompleteCallback] := by
      rw [hworld, hpending]
      rfl
    refine ⟨.written rest ⟨hready', hsteps, hflag, hfp, hlog⟩ hread ?_ hqueue htaken', ?_⟩
    · rw [hworld]
      exact hw
    · simp only [remaining, hsteps, hread, hqueue, hfp, functorWeight, List.map_nil, List.map_cons,
        List.sum_nil, List.sum_cons, List.length_nil, Option.getD_some]
      omega
  -- a rest stays in the output buffer, and the channel waits to write it
  · rw [heq] at hworld
    have hready' : Ready y.toWorld := by
      rw [hworld]
      exact { hready with }
    have hread : y.outputBuffer_.readable = out.readable := by rw [hworld]
    have hqueue : y.pendingFunctors_ = [] := by
      rw [hworld]
      exact hpending
    have htaken' : Taken d.before y.accepted y.outputBuffer_.readable (sentBytes y.log) := by
      rw [hread, hworld]
      exact htaken.next hbytes heffects
    refine ⟨.writing rest ⟨hready', hsteps, hflag, hfp, hlog⟩ ?_ ?_ hqueue htaken', ?_⟩
    · rw [hread]
      exact hleft
    · rw [hworld]
      rfl
    · have hlen := congrArg List.length hbytes
      rw [List.length_append] at hlen
      simp only [remaining, hsteps, hread, hqueue, hfp, List.map_nil, List.sum_nil, Option.getD_some]
      omega

theorem call_flag (c : StaticConn) (env : Environment) (flag : Bytes) :
    c.call env (.setContextkv (Bytes.ofString "connectionFlag") flag) =
      { c with connectionFlag := flag } := by
  rw [StaticConn.call, if_pos rfl]
  rfl

theorem call_name (c : StaticConn) (env : Environment) (name : Bytes) :
    c.call env (.setContextkv (Bytes.ofString "file") name) = c := by
  have hne : Bytes.ofString "file" ≠ Bytes.ofString "connectionFlag" := by decide
  rw [StaticConn.call, if_neg hne]

/-- What the worker stores does not count, as long as nothing is done for the file. -/
theorem Unsent.of_world_eq (h : Unsent d x) (hworld : y.toWorld = x.toWorld) (henv : y.env = x.env)
    (hlog : y.log = x.log) : Unsent d y where
  ready := hworld ▸ h.ready
  file := henv ▸ h.file
  accepted := (congrArg World.accepted hworld).trans h.accepted
  outputBuffer_ := hworld ▸ h.outputBuffer_
  channel_ := hworld ▸ h.channel_
  pendingFunctors_ := hworld ▸ h.pendingFunctors_
  log := hlog.trans h.log

/-- The worker's steps. -/
theorem Stage.proceed (h : Stage d x) (he : x.steps ≠ []) : Advances d x (x.perform .proceed) := by
  cases h with
  | parsed unsent names hsteps hfp =>
      cases names with
      | nil =>
          -- all names are stored, and the next call is the one for the flag
          have hperform : x.perform .proceed =
              { x with
                connectionFlag := d.flag
                steps := [.call (.setContextfp d.path), .fread d.head]
                log := x.log ++ [] } := by
            simp only [perform, hsteps, List.map_nil, List.nil_append, call_flag, eventsOf]
          rw [hperform, List.append_nil]
          refine ⟨.flagged (unsent.of_world_eq rfl rfl rfl) rfl rfl hfp, ?_⟩
          simp [remaining, hsteps, stepWeight]
      | cons name names =>
          have hperform : x.perform .proceed =
              { x with
                steps := names.map (fun name => .call (.setContextkv (Bytes.ofString "file") name)) ++
                  [.call (.setContextkv (Bytes.ofString "connectionFlag") d.flag),
                    .call (.setContextfp d.path), .fread d.head]
                log := x.log ++ [] } := by
            simp only [perform, hsteps, List.map_cons, List.cons_append, call_name, eventsOf]
          rw [hperform, List.append_nil]
          refine ⟨.parsed (unsent.of_world_eq rfl rfl rfl) names rfl hfp, ?_⟩
          simp [remaining, hsteps, stepWeight]
  | flagged unsent hsteps hflag hfp =>
      -- `setContextfp`: the whole file is still to be read, and none of it has been sent
      have hperform : x.perform .proceed =
          { x with fp := some d.contents, steps := [.fread d.head], log := x.log ++ [] } := by
        simp only [perform, hsteps, StaticConn.call, StaticConn.perform, unsent.file,
          Option.getD_some, eventsOf]
      rw [hperform, List.append_nil]
      refine ⟨.opened (unsent.of_world_eq rfl rfl rfl) rfl hflag rfl, ?_⟩
      simp only [remaining, hsteps, hfp, stepWeight, unsent.file, List.map_cons, List.sum_cons,
        Option.getD_some, Option.getD_none, List.length_nil]
      omega
  | opened unsent hsteps hflag hfp =>
      -- `fread`: the first part goes into one message with the head
      have hpart : d.contents.take kBufSize ≠ [] := StaticConn.take_ne_nil d.nonempty
      have hperform : x.perform .proceed =
          { x with
            fp := some (d.contents.drop kBufSize)
            steps := [.call (.send (d.head ++ d.contents.take kBufSize))] } := by
        simp only [perform, hsteps, hfp, afterRead, Option.getD_some, Option.map_some, if_neg hpart]
      rw [hperform]
      refine ⟨.read (unsent.of_world_eq rfl rfl rfl) rfl hflag rfl, ?_⟩
      have hlen := length_split d.contents
      simp only [remaining, hsteps, hfp, stepWeight, List.map_cons, List.map_nil, List.sum_cons,
        List.sum_nil, Option.getD_some, List.length_append]
      omega
  | read unsent hsteps hflag hfp =>
      -- `send` puts the message into the queue of the loop; from here on the task has nothing to do
      have hne : d.head ++ d.contents.take kBufSize ≠ [] := by
        intro hnil
        exact StaticConn.take_ne_nil d.nonempty (List.append_eq_nil_iff.1 hnil).2
      have hperform : x.perform .proceed =
          { x with
            pendingFunctors_ := [.sendInLoop (d.head ++ d.contents.take kBufSize)]
            steps := []
            log := [.chunk (d.head ++ d.contents.take kBufSize)] } := by
        simp only [perform, hsteps, StaticConn.call, StaticConn.perform, World.send,
          if_pos unsent.ready.state_, queueInLoop, unsent.pendingFunctors_, eventsOf, unsent.log,
          List.nil_append]
      have hlog : [.chunk (d.head ++ d.contents.take kBufSize)] ++ d.tail (d.contents.drop kBufSize) =
          record d.head d.contents d.flag := by
        rw [Delivery.tail, record, List.singleton_append, List.cons_append]
      rw [hperform]
      refine ⟨.queued (d.contents.drop kBufSize) (d.head ++ d.contents.take kBufSize)
        ⟨{ unsent.ready with }, rfl, hflag, hfp, hlog⟩ unsent.outputBuffer_ unsent.channel_ rfl hne
        ?_, ?_⟩
      · refine ⟨[], ?_, ?_⟩
        · rw [List.append_nil]
          exact unsent.accepted
        · rw [sentBytes_chunk]
          exact (List.append_nil _).symm
      · simp only [remaining, hsteps, hfp, unsent.pendingFunctors_, stepWeight, functorWeight,
          List.map_cons, List.map_nil, List.sum_cons, List.sum_nil]
        omega
  | queued rest message sending => exact absurd sending.steps he
  | writing rest sending => exact absurd sending.steps he
  | written rest sending => exact absurd sending.steps he
  | done done => exact absurd done.steps he

/-- A write event. -/
theorem Stage.handleWrite (h : Stage d x) (hw : x.channel_.isWriting = true) (r : WriteResult) :
    x.perform (.handleWrite r) = x ∨ Advances d x (x.perform (.handleWrite r)) := by
  cases h with
  | writing rest sending hout hwriting hpending htaken =>
      rcases handleWrite_cases sending.ready hout hwriting r with heq |
        ⟨effects, out, heq, hleft, heffects⟩ |
        ⟨effects, out, heq, hleft, bytes, hsome, hbytes, heffects⟩
      · left
        rw [perform, heq]
      · right
        rw [perform, heq]
        refine ⟨.written rest ⟨{ sending.ready with }, sending.steps, sending.connectionFlag,
          sending.fp, sending.log⟩ hleft rfl ?_ ?_, ?_⟩
        · rw [hpending]
          rfl
        · exact htaken.next (List.append_nil _) heffects
        · have := List.length_pos_iff.2 hout
          simp only [remaining, sending.steps, hleft, hpending, functorWeight, List.map_nil,
            List.map_cons, List.nil_append, List.sum_nil, List.sum_cons, List.length_nil]
          omega
      · right
        rw [perform, heq]
        refine ⟨.writing rest ⟨{ sending.ready with }, sending.steps, sending.connectionFlag,
          sending.fp, sending.log⟩ hleft hwriting hpending (htaken.next hbytes heffects), ?_⟩
        have hlen := congrArg List.length hbytes
        have hpos := List.length_pos_iff.2 hsome
        rw [List.length_append] at hlen
        simp only [remaining]
        omega
  | parsed unsent => simp [unsent.channel_] at hw
  | flagged unsent => simp [unsent.channel_] at hw
  | opened unsent => simp [unsent.channel_] at hw
  | read unsent => simp [unsent.channel_] at hw
  | queued _ _ _ _ hnot => simp [hnot] at hw
  | written _ _ _ hnot => simp [hnot] at hw
  | done done => simp [done.channel_] at hw

theorem shutdown_loop_of_ready {w : World} (hready : Ready w) (hw : w.channel_.isWriting = false) :
    w.shutdown .loop =
      { w with
        closeFlag_ := true
        state_ := .kDisconnecting
        effects := w.effects ++ [.shutdownWrite w.outputBuffer_.readable] } := by
  have hdiss : w.dissByPeer_ = false := hready.dissByPeer_
  rw [shutdown_loop, if_pos hready.state_, shutdownInLoop_of_not_writing (by exact hw), if_neg]
  · rfl
  · rw [hdiss]
    decide

/-- `writeComplete` while the file lasts. -/
theorem perform_part (hsending : Sending d x rest) (hrest : rest ≠ [])
    (hpending : x.pendingFunctors_ = [.writeCompleteCallback]) :
    x.perform (.runFunctor r) =
      { x with
        fp := some (rest.drop kBufSize)
        toWorld := { x.toWorld with pendingFunctors_ := [] }.sendInLoop (rest.take kBufSize) r
        log := x.log ++ [.chunk (rest.take kBufSize)] } := by
  have hcompletion := StaticConn.completion_of_ne hsending.fp hrest
  have hpart := StaticConn.writeComplete_part (c := x.toStaticConn.dequeue []) hsending.fp hrest r
  simp only [perform, hpending, hcompletion, StaticConn.perform, StaticConn.runFunctor]
  rw [hpart]
  simp only [World.send]
  rw [if_pos (by exact hsending.ready.state_)]
  rfl

theorem perform_end (hsending : Sending d x [])
    (hpending : x.pendingFunctors_ = [.writeCompleteCallback]) (hw : x.channel_.isWriting = false) :
    x.perform (.runFunctor r) =
      { x with
        fp := none
        toWorld := if d.flag = Bytes.ofString "close" then
            { x.toWorld with
              pendingFunctors_ := []
              closeFlag_ := true
              state_ := .kDisconnecting
              effects := x.effects ++ [.shutdownWrite x.outputBuffer_.readable] }
          else { x.toWorld with pendingFunctors_ := [] }
        log := x.log ++ [.fclose (d.flag = Bytes.ofString "close")] } := by
  have hcompletion := StaticConn.completion_of_nil hsending.fp
  have hend := StaticConn.writeComplete_end (c := x.toStaticConn.dequeue []) hsending.fp r
  have hstop : (x.toStaticConn.dequeue []).toWorld.stopWriteInLoop =
      { x.toWorld with pendingFunctors_ := [] } := by
    unfold stopWriteInLoop
    rw [if_neg (by exact ne_true_of_eq_false hw)]
    rfl
  have hshutdown := shutdown_loop_of_ready (w := { x.toWorld with pendingFunctors_ := [] })
    { hsending.ready with } hw
  simp only [perform, hpending, hcompletion, StaticConn.perform, StaticConn.runFunctor]
  rw [hend, hstop, hshutdown]
  simp only [StaticConn.dequeue, hsending.connectionFlag]

theorem remaining_written (hsending : Sending d x rest) (hout : x.outputBuffer_.readable = [])
    (hpending : x.pendingFunctors_ = [.writeCompleteCallback]) :
    x.remaining = 1 + 3 * rest.length := by
  simp [remaining, hsending.steps, hsending.fp, hpending, hout, functorWeight]

/-- `writeComplete` at the end of the file closes it, and the connection where the request asks for
it. -/
theorem advances_end (hsending : Sending d x []) (hout : x.outputBuffer_.readable = [])
    (hw : x.channel_.isWriting = false) (hpending : x.pendingFunctors_ = [.writeCompleteCallback])
    (htaken : Taken d.before x.accepted [] (sentBytes x.log)) :
    Advances d x (x.perform (.runFunctor r)) := by
  have hlog : x.log ++ [.fclose (d.flag = Bytes.ofString "close")] =
      record d.head d.contents d.flag := hsending.log
  have hsent : sentBytes (x.log ++ [.fclose (d.flag = Bytes.ofString "close")]) =
      sentBytes x.log := by
    rw [sentBytes_append]
    exact List.append_nil _
  have hwrote : (x.effects ++ [Effect.shutdownWrite x.outputBuffer_.readable]).flatMap
      Effect.bytes = x.accepted := by
    rw [List.flatMap_append]
    exact List.append_nil _
  rw [perform_end hsending hpending hw]
  unfold Advances
  rw [remaining_written hsending hout hpending]
  by_cases hclose : d.flag = Bytes.ofString "close"
  · rw [if_pos hclose]
    refine ⟨.done ⟨hsending.steps, rfl, hout, hw, rfl, hlog, ?_, (if_pos hclose).symm,
      hsending.ready.highWaterMarkCallback_, hsending.ready.dissByPeer_⟩, ?_⟩
    · rw [hsent]
      exact htaken.next (List.nil_append _) (hwrote.trans (List.append_nil _).symm)
    · simp [remaining, hsending.steps, hout]
  · rw [if_neg hclose]
    refine ⟨.done ⟨hsending.steps, rfl, hout, hw, rfl, hlog, ?_, ?_,
      hsending.ready.highWaterMarkCallback_, hsending.ready.dissByPeer_⟩, ?_⟩
    · rw [hsent]
      exact htaken
    · rw [if_neg hclose]
      exact hsending.ready.state_
    · simp [remaining, hsending.steps, hout]

/-- `writeComplete` sends the next part of the file. -/
theorem advances_part (hsending : Sending d x rest) (hrest : rest ≠ [])
    (hout : x.outputBuffer_.readable = []) (hw : x.channel_.isWriting = false)
    (hpending : x.pendingFunctors_ = [.writeCompleteCallback])
    (htaken : Taken d.before x.accepted [] (sentBytes x.log)) (hr : Sound r) :
    Advances d x (x.perform (.runFunctor r)) := by
  have hpart := StaticConn.take_ne_nil hrest
  have htail : d.tail rest = .chunk (rest.take kBufSize) :: d.tail (rest.drop kBufSize) := by
    rw [Delivery.tail, Delivery.tail, StaticConn.chunks_of_ne hrest, List.map_cons,
      List.cons_append]
  have htaken' : Taken d.before x.accepted (rest.take kBufSize)
      (sentBytes (x.log ++ [.chunk (rest.take kBufSize)])) := by
    rw [sentBytes_append, sentBytes_chunk]
    exact (List.append_nil (rest.take kBufSize)).symm ▸ htaken.append (rest.take kBufSize)
  have hlog := hsending.log
  rw [htail, ← List.singleton_append, ← List.append_assoc] at hlog
  rw [perform_part hsending hrest hpending]
  rcases stage_of_send (d := d) (w := { x.toWorld with pendingFunctors_ := [] })
    (y := { x with
      fp := some (rest.drop kBufSize)
      toWorld := { x.toWorld with pendingFunctors_ := [] }.sendInLoop (rest.take kBufSize) r
      log := x.log ++ [.chunk (rest.take kBufSize)] })
    rfl { hsending.ready with } hout hw rfl hpart hr hsending.steps hsending.connectionFlag rfl
    hlog htaken' with ⟨hstage, hremaining⟩
  refine ⟨hstage, Nat.lt_of_le_of_lt hremaining ?_⟩
  rw [remaining_written hsending hout hpending]
  have hlen := length_split rest
  have hpos := List.length_pos_iff.2 hpart
  omega

/-- A functor of the loop. -/
theorem Stage.runFunctor (h : Stage d x) (he : x.pendingFunctors_ ≠ []) (hr : Sound r) :
    Advances d x (x.perform (.runFunctor r)) := by
  cases h with
  | queued rest message sending hout hw hpending hne htaken =>
      have hperform : x.perform (.runFunctor r) =
          { x with
            toWorld := { x.toWorld with pendingFunctors_ := [] }.sendInLoop message r
            log := x.log ++ [] } := by
        simp only [perform, hpending, StaticConn.perform, StaticConn.runFunctor, World.runFunctor,
          StaticConn.dequeue]
      rw [hperform, List.append_nil]
      rcases stage_of_send (d := d) (w := { x.toWorld with pendingFunctors_ := [] })
        (y := { x with toWorld := { x.toWorld with pendingFunctors_ := [] }.sendInLoop message r })
        rfl { sending.ready with } hout hw rfl hne hr sending.steps sending.connectionFlag sending.fp
        sending.log htaken with ⟨hstage, hremaining⟩
      refine ⟨hstage, Nat.lt_of_le_of_lt hremaining ?_⟩
      simp only [remaining, sending.steps, sending.fp, hpending, hout, functorWeight, List.map_nil,
        List.map_cons, List.sum_nil, List.sum_cons, List.length_nil, Option.getD_some]
      omega
  | written rest sending hout hw hpending htaken =>
      by_cases hrest : rest = []
      · subst hrest
        exact advances_end sending hout hw hpending htaken
      · exact advances_part sending hrest hout hw hpending htaken hr
  | parsed unsent => exact absurd unsent.pendingFunctors_ he
  | flagged unsent => exact absurd unsent.pendingFunctors_ he
  | opened unsent => exact absurd unsent.pendingFunctors_ he
  | read unsent => exact absurd unsent.pendingFunctors_ he
  | writing _ _ _ _ hnone => exact absurd hnone he
  | done done => exact absurd done.pendingFunctors_ he

/-- The step lemma: a step changes nothing, or brings the exchange closer to its end. -/
theorem Stage.perform (h : Stage d x) {a : ExchangeAction} (ha : x.enabled a) :
    x.perform a = x ∨ Advances d x (x.perform a) := by
  cases a with
  | proceed => exact Or.inr (h.proceed ha)
  | handleWrite r => exact h.handleWrite ha.1 r
  | runFunctor r => exact Or.inr (h.runFunctor ha.1 ha.2)

theorem Stage.of_reachable {x₀ : Exchange} (h₀ : Stage d x₀) (h : (runs x₀).Reachable x) :
    Stage d x := by
  refine h.invariant ?_ ?_
  · rintro x rfl
    exact h₀
  · rintro x a x' hx ⟨ha, rfl⟩
    rcases hx.perform ha with heq | hadvances
    · rw [heq]
      exact hx
    · exact hadvances.1

end Step

/-! ## The start -/

theorem fetch_of_not_vip {redis : RedisState} {cfg : Config} {env : Environment} {path : Bytes}
    (h : path ∉ cfg.g_redis_vip) :
    redis.fetch cfg env path = .ok (redis, (openFile env path).1, (openFile env path).2) := by
  have hvip : redis.fetchVip cfg env path = .ok (redis, [], none) := by
    unfold RedisState.fetchVip
    rw [if_pos h]
  rw [RedisState.fetch, hvip]
  rfl

theorem empty_of_handleAll {cfg : Config} {p q : Parser} {history : List Parser.Event}
    (h : p.response_.readable = []) (hconnected : Parser.ConnectedAlong cfg p history)
    (hall : Parser.handleAll cfg p history = .ok q) : q.response_.readable = [] := by
  induction history generalizing p with
  | nil =>
      cases hall
      exact h
  | cons e es ih =>
      rw [Parser.handleAll, List.foldlM_cons] at hall
      rcases bind_eq_ok hall with ⟨p', hp', hall⟩
      exact ih ((Parser.empty_after_iff h hp').2 hconnected.1) (hconnected.2 p' hp') hall

section Start

variable {c : StaticConn} {p : Parser} {cfg : Config} {v : Visit} {s : Scan}
  {path mime contents : Bytes}

/-- The exchange of a request for a file with these contents. -/
def delivery (c : StaticConn) (p : Parser) (cfg : Config) (s : Scan) (path mime : Bytes)
    {contents : Bytes} (hne : contents ≠ []) : Delivery where
  before := c.accepted
  head := Parser.responseHead (p.assign s.assigned).paramMap_ cfg mime (toInt contents.length)
  path := path
  contents := contents
  flag := (p.assign s.assigned).paramMap_ (Bytes.ofString "Connection")
  nonempty := hne

theorem stage_start (hease : c.AtEase) (hempty : p.response_.readable = [])
    (hscan : scan cfg v.env.stat v.request = .ok s) (hserve : s.verdict = .serve path mime)
    (hvip : path ∉ cfg.g_redis_vip) (hopen : v.env.fopen path = some contents)
    (hne : contents ≠ []) {served : Served} (hserved : p.parserRequest cfg v = .ok served) :
    Stage (delivery c p cfg s path mime hne) (start c p v.env served) := by
  have hfile : openFile v.env path =
      ([.setContextfp path], .streamed (contents.take kBufSize) (toInt contents.length)) := by
    unfold openFile
    rw [hopen]
    cases contents with
    | nil => exact absurd rfl hne
    | cons b bs => rfl
  rw [Parser.parserRequest_serve hscan hserve, fetch_of_not_vip hvip, hfile] at hserved
  cases hserved
  refine .parsed ⟨⟨hease.state_, rfl, hease.highWaterMarkCallback_, hease.dissByPeer_⟩, hopen, rfl,
    hease.outputBuffer_, hease.channel_, hease.pendingFunctors_, rfl⟩ s.file.toList ?_ hease.fp
  have hquiet : ∀ call ∈ Parser.setFile s, call.Quiet := by
    intro call hcall
    rcases List.mem_map.1 hcall with ⟨name, -, rfl⟩
    trivial
  have hnames : (Parser.setFile s).map TaskStep.call = s.file.toList.map
      (fun name => .call (.setContextkv (Bytes.ofString "file") name)) := List.map_map
  simp only [start, hempty, List.nil_append]
  rw [taskSteps_quiet hquiet, hnames]
  rfl

/-! ## Delivery -/

/-- The file arrives in order, each part sent once, and behind it the file is closed once. -/
structure Delivered (d : Delivery) (x : Exchange) : Prop where
  inOrder : ∃ bytes, x.accepted = d.before ++ bytes ∧ bytes <+: d.head ++ d.contents
  /-- Each `send` and each `writeComplete` does what is next in the record of the file. -/
  log : x.log <+: record d.head d.contents d.flag
  /-- When `writeComplete` is due, all that has been sent has left the output buffer. -/
  drained : ∀ fs, x.pendingFunctors_ = .writeCompleteCallback :: fs →
    fs = [] ∧ x.outputBuffer_.readable = [] ∧ x.accepted = d.before ++ sentBytes x.log
  atRest : x.AtRest → x.log = record d.head d.contents d.flag ∧
    x.accepted = d.before ++ (d.head ++ d.contents) ∧ x.fp = none ∧
    x.state_ = if d.flag = Bytes.ofString "close" then .kDisconnecting else .kConnected
  /-- The connection can take the next request. -/
  again : x.AtRest → d.flag ≠ Bytes.ofString "close" → x.toStaticConn.AtEase

theorem isPrefix_sentBytes {l l' : List StreamEvent} (h : l <+: l') :
    sentBytes l <+: sentBytes l' := by
  rcases h with ⟨t, rfl⟩
  rw [sentBytes_append]
  exact List.prefix_append _ _

/-- What the kernel has taken is the front of what has been sent. -/
theorem Taken.inOrder {d : Delivery} {accepted left : Bytes} {log : List StreamEvent}
    (h : Taken d.before accepted left (sentBytes log))
    (hlog : log <+: record d.head d.contents d.flag) :
    ∃ bytes, accepted = d.before ++ bytes ∧ bytes <+: d.head ++ d.contents := by
  rcases h with ⟨bytes, haccepted, hsent⟩
  have hrecord := isPrefix_sentBytes hlog
  rw [sentBytes_record] at hrecord
  exact ⟨bytes, haccepted, List.IsPrefix.trans ⟨left, hsent⟩ hrecord⟩

theorem Sending.log_isPrefix {d : Delivery} {x : Exchange} {rest : Bytes} (h : Sending d x rest) :
    x.log <+: record d.head d.contents d.flag := ⟨_, h.log⟩

/-- An exchange without steps has come to its end. -/
theorem Stage.done_of_atRest {d : Delivery} {x : Exchange} (h : Stage d x) (hrest : x.AtRest) :
    Done d x := by
  cases h with
  | parsed unsent names hsteps => simp [hrest.steps] at hsteps
  | flagged unsent hsteps => simp [hrest.steps] at hsteps
  | opened unsent hsteps => simp [hrest.steps] at hsteps
  | read unsent hsteps => simp [hrest.steps] at hsteps
  | queued rest message sending _ _ hpending => simp [hrest.pendingFunctors_] at hpending
  | writing rest sending _ hwriting => simp [hrest.channel_] at hwriting
  | written rest sending _ _ hpending => simp [hrest.pendingFunctors_] at hpending
  | done done => exact done

/-- What has been done, and in which order the bytes have left. -/
theorem Stage.progress {d : Delivery} {x : Exchange} (h : Stage d x) :
    x.log <+: record d.head d.contents d.flag ∧
      ∃ left, Taken d.before x.accepted left (sentBytes x.log) := by
  have hunsent : Unsent d x → x.log <+: record d.head d.contents d.flag ∧
      ∃ left, Taken d.before x.accepted left (sentBytes x.log) := by
    intro unsent
    rw [unsent.log, unsent.accepted]
    exact ⟨List.nil_prefix, [], taken_nil.2 (List.append_nil _).symm⟩
  cases h with
  | parsed unsent => exact hunsent unsent
  | flagged unsent => exact hunsent unsent
  | opened unsent => exact hunsent unsent
  | read unsent => exact hunsent unsent
  | queued rest message sending _ _ _ _ htaken => exact ⟨sending.log_isPrefix, _, htaken⟩
  | writing rest sending _ _ _ htaken => exact ⟨sending.log_isPrefix, _, htaken⟩
  | written rest sending _ _ _ htaken => exact ⟨sending.log_isPrefix, _, htaken⟩
  | done done => exact ⟨⟨[], by rw [done.log, List.append_nil]⟩, _, done.taken⟩

/-- `writeComplete` is queued only behind the last byte of a part. -/
theorem Stage.drained {d : Delivery} {x : Exchange} (h : Stage d x) {fs : List Functor}
    (hfs : x.pendingFunctors_ = .writeCompleteCallback :: fs) :
    fs = [] ∧ x.outputBuffer_.readable = [] ∧ x.accepted = d.before ++ sentBytes x.log := by
  cases h with
  | parsed unsent => simp [unsent.pendingFunctors_] at hfs
  | flagged unsent => simp [unsent.pendingFunctors_] at hfs
  | opened unsent => simp [unsent.pendingFunctors_] at hfs
  | read unsent => simp [unsent.pendingFunctors_] at hfs
  | queued rest message sending _ _ hpending => simp [hpending] at hfs
  | writing rest sending _ _ hpending => simp [hpending] at hfs
  | written rest sending hout _ hpending htaken =>
      rw [hpending] at hfs
      cases hfs
      exact ⟨rfl, hout, taken_nil.1 htaken⟩
  | done done => simp [done.pendingFunctors_] at hfs

/-- Behind a file on a connection that stays open the connection is at ease again. -/
theorem Stage.atEase {d : Delivery} {x : Exchange} (h : Stage d x) (hrest : x.AtRest)
    (hopen : d.flag ≠ Bytes.ofString "close") : x.toStaticConn.AtEase := by
  have hdone := h.done_of_atRest hrest
  have hstate := hdone.state_
  rw [if_neg hopen] at hstate
  exact ⟨hstate, hdone.outputBuffer_, hdone.channel_, hdone.pendingFunctors_, hdone.fp,
    hdone.highWaterMarkCallback_, hdone.dissByPeer_⟩

theorem Stage.delivered {d : Delivery} {x : Exchange} (h : Stage d x) : Delivered d x := by
  rcases h.progress with ⟨hlog, left, htaken⟩
  refine ⟨htaken.inOrder hlog, hlog, fun fs hfs => h.drained hfs, ?_, h.atEase⟩
  intro hrest
  have hdone := h.done_of_atRest hrest
  have hall := hdone.taken
  rw [taken_nil, hdone.log, sentBytes_record] at hall
  exact ⟨hdone.log, hall, hdone.fp, hdone.state_⟩

/-- The exchange of a request for a file delivers the head and the file, whatever part of a message
the kernel takes each time; each part is sent once, by `responseRequest` or by the `writeComplete`
that follows the last byte of the part before, and every step that changes anything brings the
exchange closer to its end. -/
theorem file_delivered {connected : Bool} {history : List Parser.Event} {served : Served}
    {x : Exchange}
    (hworker : Parser.handleAll cfg (Parser.construct connected) history = .ok p)
    (hhistory : Parser.ConnectedAlong cfg (Parser.construct connected) history)
    (hease : c.AtEase) (hscan : scan cfg v.env.stat v.request = .ok s)
    (hserve : s.verdict = .serve path mime) (hvip : path ∉ cfg.g_redis_vip)
    (hopen : v.env.fopen path = some contents) (hne : contents ≠ [])
    (hserved : p.parserRequest cfg v = .ok served)
    (hx : (runs (start c p v.env served)).Reachable x) :
    Delivered (delivery c p cfg s path mime hne) x ∧
      ∀ a, x.enabled a → x.perform a = x ∨ (x.perform a).remaining < x.remaining := by
  have hempty := empty_of_handleAll (WfBuffer.readable_construct _) hhistory hworker
  have hstage := Stage.of_reachable
    (stage_start hease hempty hscan hserve hvip hopen hne hserved) hx
  exact ⟨hstage.delivered, fun a ha => (hstage.perform ha).imp_right fun h => h.2⟩

end Start

/-! The kernel takes three bytes of the first message, and the rest later. -/

def shortWrites : List ExchangeAction :=
  [.proceed, .proceed, .proceed, .proceed, .proceed, .runFunctor (.room 3), .handleWrite (.room 200),
    .runFunctor (.room 0)]

/-- The enabled actions, as a partial step function. -/
def next (x : Exchange) (a : ExchangeAction) : Option Exchange :=
  if x.enabled a then some (x.perform a) else none

theorem file_delivered_shortWrites :
    ∃ served x, (Parser.construct false).parserRequest Parser.htmlConfig Parser.plainRequest =
        .ok served ∧
      System.runAll next (start StaticConn.established (Parser.construct false)
        Parser.readableFiles served) shortWrites = some x ∧ x.fp = none ∧
      ∃ d, Delivered d x ∧ d.contents = Bytes.ofString "hello" := by
  have hscan := Parser.scan_plainRequest
  have hvip : Bytes.ofString "/www/a.html" ∉ Parser.htmlConfig.g_redis_vip := by
    intro hmem
    cases hmem
  obtain ⟨served, hserved, x, hrun, hfp⟩ : ∃ served,
      (Parser.construct false).parserRequest Parser.htmlConfig Parser.plainRequest = .ok served ∧
        ∃ x, System.runAll next (start StaticConn.established (Parser.construct false)
          Parser.readableFiles served) shortWrites = some x ∧ x.fp = none := by
    have hall : (((Parser.construct false).parserRequest Parser.htmlConfig
        Parser.plainRequest).toOption.bind fun served => (System.runAll next
          (start StaticConn.established (Parser.construct false) Parser.readableFiles served)
          shortWrites).map (·.fp)) = some none := by decide +kernel
    rcases Option.bind_eq_some_iff.1 hall with ⟨served, hserved, hrun⟩
    refine ⟨served, ?_, Option.map_eq_some_iff.1 hrun⟩
    cases hresult : (Parser.construct false).parserRequest Parser.htmlConfig
        Parser.plainRequest with
    | error e =>
        rw [hresult] at hserved
        cases hserved
    | ok result =>
        rw [hresult] at hserved
        cases hserved
        rfl
  have hreach : (runs (start StaticConn.established (Parser.construct false)
      Parser.plainRequest.env served)).Reachable x := by
    refine .of_guarded ?_ (.init rfl) hrun
    intro x a he
    exact ⟨he, rfl⟩
  have hhistory : Parser.ConnectedAlong Parser.htmlConfig (Parser.construct false) [] := trivial
  have hne : Bytes.ofString "hello" ≠ [] := by decide
  have hdelivered := (file_delivered rfl hhistory StaticConn.atEase_established hscan
    rfl hvip rfl hne hserved hreach).1
  exact ⟨served, x, hserved, hrun, hfp, _, hdelivered, rfl⟩

end Exchange

end Web
end Longky
