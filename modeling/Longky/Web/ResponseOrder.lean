import Longky.Lib.Positions
import Longky.Web.Scheduling

/-!
# ResponseOrder — one complete response per request

In every run of `Scheduling` inside the condition the bytes that are written are those of the
complete responses, in the order of the requests: `orderly`.

The invariant follows each byte from the file or the worker through the queue of the loop and the
output buffer: `Inv.stream`.  What is left of the file in the context stands behind the message with
its head, wherever that message is.
-/

namespace Longky
namespace Web

open Lib Net World

/-! ## Functions of the loop -/

/-- What the functions of the output side leave alone. -/
structure Keeps (w w' : World) : Prop where
  state_ : w'.state_ = w.state_ ∨ w'.state_ = .kDisconnecting
  inputBuffer_ : w'.inputBuffer_ = w.inputBuffer_
  writeCompleteCallback_ : w'.writeCompleteCallback_ = w.writeCompleteCallback_

/-- A function puts the message behind all that was written or pending. -/
structure Moves (w w' : World) (message : Bytes) : Prop
    extends Keeps w w', StaticConn.Flows w w' where
  stream : w'.accepted ++ w'.outputBuffer_.readable =
    w.accepted ++ w.outputBuffer_.readable ++ message

/-- There will be another `writeComplete`: it is queued, or the output buffer is being written. -/
def GoesOn (w : World) : Prop :=
  .writeCompleteCallback ∈ w.pendingFunctors_ ∨ w.channel_.isWriting = true

section Loop

variable {w : World}

theorem Keeps.trans {w₁ w₂ w₃ : World} (h : Keeps w₁ w₂) (h' : Keeps w₂ w₃) : Keeps w₁ w₃ where
  state_ := by
    rcases h'.state_ with heq | heq
    · rw [heq]
      exact h.state_
    · exact Or.inr heq
  inputBuffer_ := h'.inputBuffer_.trans h.inputBuffer_
  writeCompleteCallback_ := h'.writeCompleteCallback_.trans h.writeCompleteCallback_

theorem appendRemaining_keeps (w : World) (data : Bytes) : Keeps w (w.appendRemaining data) := by
  unfold appendRemaining
  split
  · dsimp only
    split <;> split <;> exact ⟨Or.inl rfl, rfl, rfl⟩
  · exact ⟨Or.inl rfl, rfl, rfl⟩

theorem queueWriteComplete_keeps (w : World) : Keeps w w.queueWriteComplete := by
  unfold queueWriteComplete
  split <;> exact ⟨Or.inl rfl, rfl, rfl⟩

theorem emit_keeps (w : World) (e : Effect) : Keeps w (w.emit e) := ⟨Or.inl rfl, rfl, rfl⟩

theorem sendInLoop_keeps (w : World) (data : Bytes) (r : WriteResult) :
    Keeps w (w.sendInLoop data r) := by
  unfold sendInLoop
  split
  · exact ⟨Or.inl rfl, rfl, rfl⟩
  · split
    · cases r with
      | room n =>
          dsimp only
          split
          · exact (emit_keeps w _).trans (queueWriteComplete_keeps _)
          · exact (emit_keeps w _).trans (appendRemaining_keeps _ _)
      | fail e =>
          dsimp only
          split
          · exact emit_keeps w _
          · exact appendRemaining_keeps w data
    · exact appendRemaining_keeps w data

theorem sendInLoop_moves (hplain : StaticConn.Plain w) (hst : w.state_ ≠ .kDisconnected)
    (data : Bytes) {r : WriteResult} (hf : w.directFault r = false) :
    Moves w (w.sendInLoop data r) data :=
  { sendInLoop_keeps w data r, StaticConn.sendInLoop_flows hplain.highWater data r with
    stream := sendInLoop_output hst data hf }

/-- Behind a message that is written whole `writeComplete` is queued. -/
theorem sendInLoop_goesOn (htidy : w.Tidy) (hst : w.state_ ≠ .kDisconnected) {data : Bytes}
    (hne : data ≠ []) {r : WriteResult} (hf : w.directFault r = false)
    (h : StaticConn.Leaves w data r ∨ w.writeCompleteCallback_ = true) :
    GoesOn (w.sendInLoop data r) := by
  have htidy' := sendInLoop_tidy htidy data r
  rcases StaticConn.sendInLoop_buffer w data r with ⟨hleft, -⟩
  by_cases hleaves : StaticConn.Leaves w data r
  · exact Or.inr (htidy'.1 (hleft hleaves))
  · have hcallback := h.resolve_left hleaves
    unfold StaticConn.Leaves at hleaves
    rw [not_and] at hleaves
    have hleaves := hleaves hst
    split at hleaves
    · rename_i hdirect
      unfold sendInLoop
      rw [if_neg hst, if_pos hdirect]
      cases r with
      | room n =>
          have hall : (data.drop n).length = 0 := by
            have hle : ¬ n < data.length := hleaves
            rw [List.length_drop]
            omega
          dsimp only
          rw [if_pos hall]
          left
          unfold queueWriteComplete
          rw [if_pos (by exact hcallback)]
          simp [queueInLoop]
      | fail e =>
          exfalso
          have hnofault : e.isFault = false := by simpa [directFault, hdirect] using hf
          exact hleaves ⟨hnofault, hne⟩
    · exact absurd hne hleaves

theorem shutdownInLoop_keeps (h : w.dissByPeer_ = false) : Keeps w w.shutdownInLoop := by
  rcases StaticConn.shutdownInLoop_frame h with ⟨effects, heq⟩
  rw [heq]
  exact ⟨Or.inl rfl, rfl, rfl⟩

theorem outputDrained_keeps (h : w.dissByPeer_ = false) : Keeps w w.outputDrained := by
  have hq := queueWriteComplete_keeps { w with channel_ := w.channel_.disableWriting }
  have hdiss : ({ w with channel_ := w.channel_.disableWriting }.queueWriteComplete).dissByPeer_ =
      false := by
    unfold queueWriteComplete
    split <;> exact h
  unfold outputDrained
  dsimp only
  split
  · exact Keeps.trans { hq with } (shutdownInLoop_keeps hdiss)
  · exact { hq with }

theorem handleWrite_keeps (h : w.dissByPeer_ = false) (r : WriteResult) :
    Keeps w (w.handleWrite r) := by
  unfold World.handleWrite
  split
  · cases r with
    | fail e => exact ⟨Or.inl rfl, rfl, rfl⟩
    | room k =>
        dsimp only
        split
        · split
          · have hret : Keeps w (w.retrieveWritten (min k w.outputBuffer_.readableBytes)
                (Nat.min_le_right _ _)) := ⟨Or.inl rfl, rfl, rfl⟩
            exact hret.trans (outputDrained_keeps (by exact h))
          · exact ⟨Or.inl rfl, rfl, rfl⟩
        · exact ⟨Or.inl rfl, rfl, rfl⟩
  · exact ⟨Or.inl rfl, rfl, rfl⟩

theorem handleWrite_moves (hplain : StaticConn.Plain w) (r : WriteResult) :
    Moves w (w.handleWrite r) [] := by
  refine { handleWrite_keeps hplain.dissByPeer r, StaticConn.handleWrite_flows hplain r with
    stream := ?_ }
  rcases handleWrite_output w r with ⟨n, hacc, hout, -⟩
  rw [hacc, hout]
  simp

theorem outputDrained_goesOn (h : w.dissByPeer_ = false) (hcallback : w.writeCompleteCallback_ = true) :
    GoesOn w.outputDrained := by
  have hq : ({ w with channel_ := w.channel_.disableWriting }.queueWriteComplete) =
      { w with
        channel_ := w.channel_.disableWriting
        pendingFunctors_ := w.pendingFunctors_ ++ [.writeCompleteCallback] } :=
    if_pos hcallback
  left
  unfold outputDrained
  rw [hq]
  dsimp only
  split
  · rcases StaticConn.shutdownInLoop_frame (w := { w with
      channel_ := w.channel_.disableWriting
      pendingFunctors_ := w.pendingFunctors_ ++ [.writeCompleteCallback] }) h with ⟨effects, heq⟩
    rw [heq]
    simp
  · simp

/-- A write that does not take all is followed by another; one that does, by `writeComplete`. -/
theorem handleWrite_goesOn (hplain : StaticConn.Plain w) (hwriting : w.channel_.isWriting = true)
    {r : WriteResult} (h : Scheduled.Drains w r → w.writeCompleteCallback_ = true) :
    GoesOn (w.handleWrite r) := by
  unfold World.handleWrite
  rw [if_pos hwriting]
  cases r with
  | fail e => exact Or.inr hwriting
  | room k =>
      dsimp only
      split
      · split
        · rename_i hempty
          have hdrains : Scheduled.Drains w (.room k) := by
            rw [WfBuffer.readableBytes_eq_zero] at hempty
            have hdrop : w.outputBuffer_.readable.drop (min k w.outputBuffer_.readableBytes) = [] :=
              (WfBuffer.readable_retrieve _ _ (Nat.min_le_right _ _)).symm.trans hempty
            rw [List.drop_eq_nil_iff, WfBuffer.readableBytes_eq] at hdrop
            exact hdrop.trans (Nat.min_le_left _ _)
          exact outputDrained_goesOn (by exact hplain.dissByPeer) (h hdrains)
        · exact Or.inr hwriting
      · exact Or.inr hwriting

end Loop
/-! ## Messages with a file among them -/

/-- The bytes of the messages, with the file behind the first `rank` of them. -/
def outstanding (messages : List Bytes) (rank : Nat) (file : Bytes) : Bytes :=
  (messages.take rank).flatten ++ file ++ (messages.drop rank).flatten

theorem outstanding_no_file (messages : List Bytes) (rank : Nat) :
    outstanding messages rank [] = messages.flatten := by
  rw [outstanding, List.append_nil, ← List.flatten_append, List.take_append_drop]

theorem outstanding_append {messages : List Bytes} {rank : Nat} (h : rank ≤ messages.length)
    (file message : Bytes) :
    outstanding (messages ++ [message]) rank file = outstanding messages rank file ++ message := by
  simp [outstanding, List.take_append_of_le_length h, List.drop_append_of_le_length h]

theorem outstanding_cons (message : Bytes) (messages : List Bytes) (rank : Nat) (file : Bytes) :
    outstanding (message :: messages) (rank + 1) file =
      message ++ outstanding messages rank file := by
  simp [outstanding]

theorem outstanding_behind {before : List Bytes} {rank : Nat} (h : rank = before.length + 1)
    (message : Bytes) (after : List Bytes) (file : Bytes) :
    outstanding (before ++ message :: after) rank file =
      before.flatten ++ (message ++ (file ++ after.flatten)) := by
  subst h
  have htake : before.take (before.length + 1) = before := List.take_of_length_le (Nat.le_succ _)
  have hdrop : before.drop (before.length + 1) = [] := List.drop_of_length_le (Nat.le_succ _)
  simp [outstanding, List.take_append, List.drop_append, htake, hdrop]

section FilterMap

variable {α β : Type} {l : List α} {i : Nat} {a : α}

theorem filterMap_split (f : α → Option β) (h : l[i]? = some a) :
    l.filterMap f = (l.take i).filterMap f ++ ((f a).toList ++ (l.drop (i + 1)).filterMap f) := by
  rcases List.getElem?_eq_some_iff.1 h with ⟨hlt, ha⟩
  have hl : l = l.take i ++ a :: l.drop (i + 1) := by
    rw [← ha, List.getElem_cons_drop, List.take_append_drop]
  conv_lhs => rw [hl]
  rw [List.filterMap_append, List.filterMap_cons]
  cases f a <;> rfl

theorem filterMap_set (f : α → Option β) (h : l[i]? = some a) (b : α) :
    (l.set i b).filterMap f =
      (l.take i).filterMap f ++ ((f b).toList ++ (l.drop (i + 1)).filterMap f) := by
  have hlt := (List.getElem?_eq_some_iff.1 h).1
  have hset : (l.set i b)[i]? = some b := by simp [hlt]
  rw [filterMap_split f hset, List.take_set_of_le (Nat.le_refl i),
    List.drop_set_of_lt (Nat.lt_succ_self i)]

end FilterMap

/-! ## The invariant -/

/-- What a call of a worker does to the connection: it queues functors. -/
structure Queues (w w' : World) (fs : List Functor) : Prop where
  pendingFunctors_ : w'.pendingFunctors_ = w.pendingFunctors_ ++ fs
  state_ : w'.state_ = w.state_ ∨ w'.state_ = .kDisconnecting
  channel_ : w'.channel_ = w.channel_
  inputBuffer_ : w'.inputBuffer_ = w.inputBuffer_
  outputBuffer_ : w'.outputBuffer_ = w.outputBuffer_
  effects : w'.effects = w.effects
  highWater : w'.highWaterMarkCallback_ = w.highWaterMarkCallback_
  dissByPeer : w'.dissByPeer_ = w.dissByPeer_

theorem Queues.refl (w : World) : Queues w w [] :=
  ⟨(List.append_nil _).symm, Or.inl rfl, rfl, rfl, rfl, rfl, rfl, rfl⟩

theorem GoesOn.of_queues {w w' : World} {fs : List Functor} (h : GoesOn w) (hworld : Queues w w' fs) :
    GoesOn w' := by
  rcases h with hmem | hwriting
  · left
    rw [hworld.pendingFunctors_]
    exact List.mem_append_left _ hmem
  · right
    rw [hworld.channel_]
    exact hwriting

theorem Queues.written {w w' : World} {fs : List Functor} (hworld : Queues w w' fs) :
    w'.accepted ++ w'.outputBuffer_.readable = w.accepted ++ w.outputBuffer_.readable := by
  unfold accepted
  rw [hworld.effects, hworld.outputBuffer_]

@[simp] theorem queued_append (fs gs : List Functor) : queued (fs ++ gs) = queued fs ++ queued gs :=
  List.filterMap_append

namespace Scheduled

variable {W : Type}

/-- A request that has been read and not taken is alone in the buffer, and there is one task for it. -/
inductive Pending (c : Scheduled W) : Prop where
  | none : c.inputBuffer_.readable = [] → c.tasks.length = c.requests.length → c.queue_ = 0 →
      c.onMessage = [] → Pending c
  | one (q : HttpRequest) : c.requests[c.tasks.length]? = some q →
      c.requests.length = c.tasks.length + 1 → c.inputBuffer_.readable = q.text →
      (c.queue_ = 1 ∧ c.onMessage = [] ∨ c.queue_ = 0 ∧
        (c.onMessage = [.put] ∨ c.onMessage = [.setWriteCompleteCallback, .put])) → Pending c

/-- What holds of the connection, the tasks and the requests by themselves. -/
structure Sound (cfg : Config) (c : Scheduled W) : Prop where
  plain : StaticConn.Plain c.toWorld
  tidy : c.toWorld.Tidy
  alive : c.state_ ≠ .kDisconnected
  pending : c.Pending
  regular : ∀ t ∈ c.tasks,
    (∃ head, head ≠ [] ∧ t.steps = [.fread head]) ∨ Regular t.env t.steps
  messages : ∀ message ∈ queued c.pendingFunctors_, message ≠ []
  complete : ∀ (i : Nat) (t : Task W), c.tasks[i]? = some t → ∃ q p, c.requests[i]? = some q ∧
    completeResponse cfg p t.env q = some t.response

/-- Where each byte is. -/
structure Streams (c : Scheduled W) : Prop where
  /-- A file that is open and not read belongs to the task that has opened it. -/
  opened : ∀ (i : Nat) (t : Task W) (head : Bytes), c.tasks[i]? = some t →
    t.steps = [.fread head] → c.fileRank = c.rankOf i ∧ c.rest ≠ []
  rank_le : c.fileRank ≤ c.unwritten.length
  stream : c.accepted ++ c.outputBuffer_.readable ++ outstanding c.unwritten c.fileRank c.rest =
    (c.tasks.map Task.response).flatten
  /-- A file whose head has been handled is read further. -/
  continues : c.fileRank = 0 → c.rest ≠ [] → GoesOn c.toWorld

variable {cfg : Config} {c c' : Scheduled W} {i : Nat} {t : Task W} {steps : List TaskStep}

theorem Pending.of_eq (h : c.Pending) (hbuffer : c'.inputBuffer_ = c.inputBuffer_)
    (htasks : c'.tasks.length = c.tasks.length) (hrequests : c'.requests = c.requests)
    (hqueue : c'.queue_ = c.queue_) (honMessage : c'.onMessage = c.onMessage) : c'.Pending := by
  cases h with
  | none hb ht hq hm =>
      exact .none (by rw [hbuffer, hb]) (by rw [htasks, hrequests, ht]) (hqueue.trans hq)
        (honMessage.trans hm)
  | one q hq hlen hb hput =>
      exact .one q (by rw [htasks, hrequests, hq]) (by rw [htasks, hrequests, hlen])
        (by rw [hbuffer, hb]) (by rwa [hqueue, honMessage])

/-- Any other part of the state may change with these. -/
theorem Sound.of_task (h : c.Sound cfg) (hi : c.tasks[i]? = some t) {fs : List Functor}
    (hworld : Queues c.toWorld c'.toWorld fs)
    (hfs : ∀ f ∈ fs, (∃ message, message ≠ [] ∧ f = .sendInLoop message) ∨ f = .shutdownInLoop)
    (htasks : c'.tasks = c.tasks.set i { t with steps := steps })
    (hregular : (∃ head, head ≠ [] ∧ steps = [.fread head]) ∨ Regular t.env steps)
    (hrequests : c'.requests = c.requests) (hqueue : c'.queue_ = c.queue_)
    (honMessage : c'.onMessage = c.onMessage) : c'.Sound cfg := by
  refine ⟨⟨?_, ?_, ?_⟩, ⟨?_, ?_⟩, ?_, ?_, ?_, ?_, ?_⟩
  · exact hworld.highWater.trans h.plain.highWater
  · exact hworld.dissByPeer.trans h.plain.dissByPeer
  · intro f hf
    rw [hworld.pendingFunctors_] at hf
    rcases List.mem_append.1 hf with hold | hnew
    · exact h.plain.queue f hold
    · rcases hfs f hnew with ⟨message, -, rfl⟩ | rfl
      · exact Or.inl ⟨message, rfl⟩
      · exact Or.inr (Or.inl rfl)
  -- a worker does not touch the buffer or the channel
  · unfold WritesPending
    rw [hworld.outputBuffer_, hworld.channel_]
    exact h.tidy.1
  · unfold ShutDownClean
    rw [hworld.effects]
    exact h.tidy.2
  · rcases hworld.state_ with heq | heq
    · rw [heq]
      exact h.alive
    · rw [heq]
      simp
  · exact h.pending.of_eq hworld.inputBuffer_ (by rw [htasks, List.length_set]) hrequests hqueue
      honMessage
  · intro t' ht'
    rw [htasks] at ht'
    rcases List.mem_or_eq_of_mem_set ht' with hold | rfl
    · exact h.regular t' hold
    · exact hregular
  · intro message hm
    rw [hworld.pendingFunctors_, queued_append] at hm
    rcases List.mem_append.1 hm with hold | hnew
    · exact h.messages message hold
    · rcases List.mem_filterMap.1 hnew with ⟨f, hf, hmessage⟩
      rcases hfs f hf with ⟨m, hne, rfl⟩ | rfl
      · cases hmessage
        exact hne
      · cases hmessage
  · intro j t' ht'
    rw [htasks, List.getElem?_set] at ht'
    rw [hrequests]
    split at ht'
    · rename_i hij
      subst hij
      rw [if_pos (List.getElem?_eq_some_iff.1 hi).1] at ht'
      cases ht'
      exact h.complete i t hi
    · exact h.complete j t' ht'

/-- A step of the loop leaves the tasks and the requests alone. -/
theorem Sound.of_loop (h : c.Sound cfg) {w : World} {message : Bytes}
    (hmoves : Moves w c'.toWorld message) (hplain : StaticConn.Plain w) (htidy : c'.toWorld.Tidy)
    (hstate : w.state_ = c.state_) (hbuffer : w.inputBuffer_ = c.inputBuffer_)
    (hmessages : ∀ m ∈ queued w.pendingFunctors_, m ∈ queued c.pendingFunctors_)
    (htasks : c'.tasks = c.tasks) (hrequests : c'.requests = c.requests)
    (hqueue : c'.queue_ = c.queue_) (honMessage : c'.onMessage = c.onMessage) : c'.Sound cfg := by
  refine ⟨hplain.of_flows hmoves.toFlows, htidy, ?_, ?_, ?_, ?_, ?_⟩
  · rcases hmoves.state_ with heq | heq
    · rw [heq, hstate]
      exact h.alive
    · rw [heq]
      simp
  · exact h.pending.of_eq (hmoves.inputBuffer_.trans hbuffer) (by rw [htasks]) hrequests hqueue
      honMessage
  · rw [htasks]
    exact h.regular
  · intro m hm
    apply h.messages m
    apply hmessages m
    rcases hmoves.queue with heq | ⟨-, heq⟩
    · rwa [heq] at hm
    · rwa [heq, queued_append, show queued [.writeCompleteCallback] = [] from rfl,
        List.append_nil] at hm
  · rw [htasks, hrequests]
    exact h.complete

/-! ## Steps of a task -/

theorem unsent_of_reads {head : Bytes} (h : t.steps = [.fread head]) : t.unsent = some head := by
  unfold Task.unsent
  rw [h]
  rfl

/-- Only what is left to do changes, so the same responses are due. -/
theorem map_set_of_eq {α : Type} (f : Task W → α) (hi : c.tasks[i]? = some t) {t' : Task W}
    (h : f t' = f t) : (c.tasks.set i t').map f = c.tasks.map f := by
  rcases List.getElem?_eq_some_iff.1 hi with ⟨hlt, rfl⟩
  rw [List.map_set, h, ← List.map_set, List.set_getElem_self hlt]

theorem responses_set (hi : c.tasks[i]? = some t) :
    (c.tasks.set i { t with steps := steps }).map Task.response = c.tasks.map Task.response :=
  map_set_of_eq Task.response hi rfl

theorem rankOf_lt (hi : c.tasks[i]? = some t) {message : Bytes} (ht : t.unsent = some message)
    {j : Nat} (hij : i < j) : c.rankOf i < c.rankOf j := by
  have hget : (c.tasks.take j)[i]? = some t := by
    rw [List.getElem?_take_of_lt hij, hi]
  have htake : (c.tasks.take j).take i = c.tasks.take i := by
    rw [List.take_take, Nat.min_eq_left (Nat.le_of_lt hij)]
  unfold rankOf
  rw [filterMap_split Task.unsent hget, htake, ht]
  simp only [Option.toList_some, List.length_append, List.length_cons, List.length_nil]
  omega

/-- Different tasks at `fread` have different ranks. -/
theorem eq_of_rankOf_eq {j : Nat} {t' : Task W} {head head' : Bytes} (hi : c.tasks[i]? = some t)
    (ht : t.steps = [.fread head]) (hj : c.tasks[j]? = some t') (ht' : t'.steps = [.fread head'])
    (h : c.rankOf i = c.rankOf j) : i = j := by
  rcases Nat.lt_trichotomy i j with hlt | heq | hgt
  · have hrank := rankOf_lt hi (unsent_of_reads ht) hlt
    omega
  · exact heq
  · have hrank := rankOf_lt hj (unsent_of_reads ht') hgt
    omega

/-- The messages, with that of one task in its place. -/
theorem unwritten_split (hi : c.tasks[i]? = some t) :
    c.unwritten = (queued c.pendingFunctors_ ++ (c.tasks.take i).filterMap Task.unsent) ++
      (t.unsent.toList ++ (c.tasks.drop (i + 1)).filterMap Task.unsent) := by
  rw [unwritten, filterMap_split Task.unsent hi, List.append_assoc]

theorem unwritten_set (hi : c.tasks[i]? = some t) {fs : List Functor}
    (hworld : Queues c.toWorld c'.toWorld fs)
    (htasks : c'.tasks = c.tasks.set i { t with steps := steps }) :
    c'.unwritten = queued c.pendingFunctors_ ++ (queued fs ++ ((c.tasks.take i).filterMap Task.unsent ++
      ((unsentIn t.env steps).toList ++ (c.tasks.drop (i + 1)).filterMap Task.unsent))) := by
  rw [unwritten, htasks, filterMap_set Task.unsent hi, hworld.pendingFunctors_, queued_append,
    List.append_assoc]
  rfl

/-- A step that leaves all messages in their places. -/
theorem Streams.of_unwritten_eq (h : c.Streams) (hi : c.tasks[i]? = some t) {fs : List Functor}
    (hworld : Queues c.toWorld c'.toWorld fs)
    (htasks : c'.tasks = c.tasks.set i { t with steps := steps })
    (hsteps : ∀ head, steps ≠ [.fread head]) (hfp : c'.fp = c.fp) (hrank : c'.fileRank = c.fileRank)
    (hunwritten : c'.unwritten = c.unwritten)
    (hrankOf : ∀ (j : Nat) (t' : Task W) (head : Bytes), j ≠ i → c.tasks[j]? = some t' →
      t'.steps = [.fread head] → c'.rankOf j = c.rankOf j) : c'.Streams := by
  have hrest : c'.rest = c.rest := by rw [rest, hfp, rest]
  refine ⟨?_, ?_, ?_, ?_⟩
  · intro j t' head hj ht'
    rw [htasks, List.getElem?_set] at hj
    split at hj
    · split at hj
      · cases hj
        exact absurd ht' (hsteps head)
      · cases hj
    · rename_i hij
      rw [hrank, hrest, hrankOf j t' head (Ne.symm hij) hj ht']
      exact h.opened j t' head hj ht'
  · rw [hrank, hunwritten]
    exact h.rank_le
  · rw [hworld.written, hunwritten, hrank, hrest, h.stream, htasks]
    rw [responses_set hi]
  · rw [hrank, hrest]
    intro hzero hne
    exact GoesOn.of_queues (h.continues hzero hne) hworld

/-- A step that neither sends nor opens nor reads. -/
theorem Streams.of_silent (h : c.Streams) (hi : c.tasks[i]? = some t) {fs : List Functor}
    (hworld : Queues c.toWorld c'.toWorld fs) (hfs : queued fs = [])
    (htasks : c'.tasks = c.tasks.set i { t with steps := steps })
    (hunsent : unsentIn t.env steps = t.unsent) (hsteps : ∀ head, steps ≠ [.fread head])
    (hfp : c'.fp = c.fp) (hrank : c'.fileRank = c.fileRank) : c'.Streams := by
  have hqueued : queued c'.pendingFunctors_ = queued c.pendingFunctors_ := by
    rw [hworld.pendingFunctors_, queued_append, hfs, List.append_nil]
  have hmap : c'.tasks.map Task.unsent = c.tasks.map Task.unsent := by
    rw [htasks]
    exact map_set_of_eq Task.unsent hi hunsent
  have hfilter : ∀ l : List (Task W), l.filterMap Task.unsent = (l.map Task.unsent).filterMap id := by
    intro l
    rw [List.filterMap_map]
    rfl
  refine h.of_unwritten_eq hi hworld htasks hsteps hfp hrank ?_ ?_
  · rw [unwritten, unwritten, hqueued, hfilter, hmap, ← hfilter]
  · intro j _ _ _ _ _
    rw [rankOf, rankOf, hqueued, hfilter, List.map_take, hmap, ← List.map_take, ← hfilter]

/-- `send` moves the message from the task to the queue of the loop. -/
theorem Streams.of_send (h : c.Streams) (hi : c.tasks[i]? = some t) {message : Bytes}
    (ht : t.unsent = some message) (hnone : unsentIn t.env steps = none)
    (hbefore : (c.tasks.take i).filterMap Task.unsent = [])
    (hworld : Queues c.toWorld c'.toWorld [.sendInLoop message])
    (htasks : c'.tasks = c.tasks.set i { t with steps := steps })
    (hfp : c'.fp = c.fp) (hrank : c'.fileRank = c.fileRank) : c'.Streams := by
  refine h.of_unwritten_eq hi hworld htasks ?_ hfp hrank ?_ ?_
  · rintro head rfl
    cases hnone
  · rw [unwritten_set hi hworld htasks, unwritten_split hi, hbefore, hnone, ht]
    simp [queued]
  · intro j t' head hne hj ht'
    have hlt : i < j := by
      by_contra hge
      have hlt : j < i := by omega
      have hget : (c.tasks.take i)[j]? = some t' := by
        rw [List.getElem?_take_of_lt hlt, hj]
      have hmem : head ∈ (c.tasks.take i).filterMap Task.unsent :=
        List.mem_filterMap.2 ⟨t', List.mem_of_getElem? hget, unsent_of_reads ht'⟩
      rw [hbefore] at hmem
      cases hmem
    have hget : (c.tasks.take j)[i]? = some t := by
      rw [List.getElem?_take_of_lt hlt, hi]
    rw [rankOf, rankOf, hworld.pendingFunctors_, htasks, List.take_set,
      filterMap_set Task.unsent hget, filterMap_split Task.unsent hget, ht,
      show Task.unsent { t with steps := steps } = none from hnone]
    simp [queued]
    omega

/-- The messages before that of a task, in number one less than its rank. -/
def before (c : Scheduled W) (i : Nat) : List Bytes :=
  queued c.pendingFunctors_ ++ (c.tasks.take i).filterMap Task.unsent

theorem rankOf_eq (c : Scheduled W) (i : Nat) : c.rankOf i = (c.before i).length + 1 := by
  rw [rankOf, before, List.length_append]

theorem unwritten_eq (hi : c.tasks[i]? = some t) {message : Bytes} (ht : t.unsent = some message) :
    c.unwritten = c.before i ++ message :: (c.tasks.drop (i + 1)).filterMap Task.unsent := by
  rw [unwritten_split hi, ht]
  rfl

/-- A task reads from its file, or opens it: the message grows or shrinks at the file. -/
theorem unwritten_replace (hi : c.tasks[i]? = some t) (hworld : Queues c.toWorld c'.toWorld [])
    (htasks : c'.tasks = c.tasks.set i { t with steps := steps }) {message : Bytes}
    (hmessage : unsentIn t.env steps = some message) :
    c'.unwritten = c.before i ++ message :: (c.tasks.drop (i + 1)).filterMap Task.unsent := by
  rw [unwritten_set hi hworld htasks, hmessage, before, List.append_assoc]
  rfl

/-- `setContextfp` parts the file from the message with its head. -/
theorem Streams.of_setContextfp (h : c.Streams) (hi : c.tasks[i]? = some t) {head contents : Bytes}
    (ht : t.unsent = some (head ++ contents)) (hne : contents ≠ []) (hnil : c.rest = [])
    (hworld : Queues c.toWorld c'.toWorld [])
    (htasks : c'.tasks = c.tasks.set i { t with steps := [.fread head] })
    (hfp : c'.fp = some contents) (hrank : c'.fileRank = c.rankOf i) : c'.Streams := by
  have hrest : c'.rest = contents := by rw [rest, hfp, Option.getD_some]
  have hunwritten := unwritten_replace hi hworld htasks rfl
  rw [rankOf_eq] at hrank
  refine ⟨?_, ?_, ?_, ?_⟩
  · intro j t' head' hj ht'
    rw [htasks, List.getElem?_set] at hj
    split at hj
    · rename_i hij
      subst hij
      rw [hrank, hrest, rankOf_eq, before, before, hworld.pendingFunctors_, htasks, List.append_nil,
        List.take_set_of_le (Nat.le_refl i)]
      exact ⟨rfl, hne⟩
    · exact absurd hnil (h.opened j t' head' hj ht').2
  · rw [hrank, hunwritten]
    simp
  · have hstream := h.stream
    rw [hnil, outstanding_no_file, unwritten_eq hi ht] at hstream
    rw [hworld.written, hunwritten, hrest, outstanding_behind hrank, htasks, responses_set hi,
      ← hstream]
    simp
  · rw [hrank]
    intro hzero
    omega

/-- `fread` moves the first part of the file into the message. -/
theorem Streams.of_fread (h : c.Streams) (hi : c.tasks[i]? = some t) {head : Bytes}
    (ht : t.steps = [.fread head]) (hworld : Queues c.toWorld c'.toWorld [])
    (htasks : c'.tasks =
      c.tasks.set i { t with steps := afterRead head (c.rest.take kBufSize) })
    (hfp : c'.fp = c.fp.map (List.drop kBufSize)) (hrank : c'.fileRank = c.fileRank) :
    c'.Streams := by
  rcases h.opened i t head hi ht with ⟨hrankOf, hne⟩
  have hrest : c'.rest = c.rest.drop kBufSize := by
    unfold rest
    rw [hfp]
    cases c.fp <;> simp
  have hafter : afterRead head (c.rest.take kBufSize) =
      [.call (.send (head ++ c.rest.take kBufSize))] := if_neg (StaticConn.take_ne_nil hne)
  rw [hafter] at htasks
  have hunwritten := unwritten_replace hi hworld htasks rfl
  rw [← hrank, rankOf_eq] at hrankOf
  refine ⟨?_, ?_, ?_, ?_⟩
  · intro j t' head' hj ht'
    rw [htasks, List.getElem?_set] at hj
    split at hj
    · split at hj
      · cases hj
        cases ht'
      · cases hj
    · rename_i hij
      have hj' := (h.opened j t' head' hj ht').1
      rw [← hrank, hrankOf, ← rankOf_eq] at hj'
      exact absurd (eq_of_rankOf_eq hi ht hj ht' hj') hij
  · rw [hrankOf, hunwritten]
    simp
  · have hstream := h.stream
    rw [← hrank, unwritten_eq hi (unsent_of_reads ht), outstanding_behind hrankOf] at hstream
    rw [hworld.written, hunwritten, hrest, outstanding_behind hrankOf, htasks, responses_set hi,
      ← hstream]
    have htake : c.rest = c.rest.take kBufSize ++ c.rest.drop kBufSize :=
      (List.take_append_drop _ _).symm
    conv_rhs => rw [htake]
    simp only [List.append_assoc]
  · rw [hrankOf]
    intro hzero
    omega

/-! ## Steps of the loop -/

/-- `writeComplete` is no message. -/
theorem Moves.queued_eq {w w' : World} {message : Bytes} (h : Moves w w' message) :
    queued w'.pendingFunctors_ = queued w.pendingFunctors_ := by
  rcases h.queue with heq | ⟨-, heq⟩
  · rw [heq]
  · rw [heq, queued_append]
    exact List.append_nil _

/-- A functor that takes no message and reads nothing, or a write event. -/
theorem Streams.of_moves_nil (h : c.Streams) {w : World} (hmoves : Moves w c'.toWorld [])
    (hwritten : w.accepted ++ w.outputBuffer_.readable = c.accepted ++ c.outputBuffer_.readable)
    (hqueued : queued w.pendingFunctors_ = queued c.pendingFunctors_) (htasks : c'.tasks = c.tasks)
    (hrest : c'.rest = c.rest) (hrank : c'.fileRank = c.fileRank)
    (hgoesOn : c.fileRank = 0 → c.rest ≠ [] → GoesOn c'.toWorld) : c'.Streams := by
  have hqueued' : queued c'.pendingFunctors_ = queued c.pendingFunctors_ :=
    Moves.queued_eq hmoves |>.trans hqueued
  have hunwritten : c'.unwritten = c.unwritten := by
    rw [unwritten, unwritten, hqueued', htasks]
  refine ⟨?_, ?_, ?_, ?_⟩
  · intro i t head hi ht
    rw [htasks] at hi
    rw [hrank, hrest, rankOf, hqueued', htasks]
    exact h.opened i t head hi ht
  · rw [hrank, hunwritten]
    exact h.rank_le
  · rw [hmoves.stream, hwritten, List.append_nil, hunwritten, hrank, hrest, htasks]
    exact h.stream
  · rw [hrank, hrest]
    exact hgoesOn

/-- `sendInLoop` handles the message in front; a file that comes before it has ended. -/
theorem Streams.of_sendInLoop (h : c.Streams) {w : World} {message : Bytes}
    (hmoves : Moves w c'.toWorld message)
    (hwritten : w.accepted ++ w.outputBuffer_.readable = c.accepted ++ c.outputBuffer_.readable)
    (hqueued : queued c.pendingFunctors_ = message :: queued w.pendingFunctors_)
    (htasks : c'.tasks = c.tasks) (hrest : c'.rest = c.rest) (hrank : c'.fileRank = c.fileRank - 1)
    (hended : c.fileRank = 0 → c.rest = [])
    (hgoesOn : c.fileRank = 1 → c.rest ≠ [] → GoesOn c'.toWorld) : c'.Streams := by
  have hqueued' : queued c.pendingFunctors_ = message :: queued c'.pendingFunctors_ := by
    rw [hqueued, Moves.queued_eq hmoves]
  have hunwritten : c.unwritten = message :: c'.unwritten := by
    rw [unwritten, unwritten, hqueued', htasks, List.cons_append]
  have hle := h.rank_le
  rw [hunwritten, List.length_cons] at hle
  refine ⟨?_, ?_, ?_, ?_⟩
  · intro i t head hi ht
    rw [htasks] at hi
    rcases h.opened i t head hi ht with ⟨hrankOf, hne⟩
    rw [rankOf, hqueued', List.length_cons] at hrankOf
    refine ⟨?_, by rwa [hrest]⟩
    rw [hrank, rankOf, htasks]
    omega
  · omega
  · have hstream := h.stream
    rw [hmoves.stream, hwritten, List.append_assoc, hrest, htasks, ← hstream]
    congr 1
    cases hzero : c.fileRank with
    | zero =>
        rw [hended hzero, outstanding_no_file, outstanding_no_file, hunwritten]
        rfl
    | succ rank =>
        rw [hunwritten, outstanding_cons, hrank, hzero]
        rfl
  · intro hzero hne
    rw [hrest] at hne
    have hone : c.fileRank = 1 := by
      by_contra hother
      exact hne (hended (by omega))
    exact hgoesOn hone hne

/-- `writeComplete` sends the next part of a file whose head has been handled. -/
theorem Streams.of_writeComplete (h : c.Streams) {w : World} {part : Bytes}
    (hmoves : Moves w c'.toWorld part)
    (hwritten : w.accepted ++ w.outputBuffer_.readable = c.accepted ++ c.outputBuffer_.readable)
    (hqueued : queued w.pendingFunctors_ = queued c.pendingFunctors_) (htasks : c'.tasks = c.tasks)
    (hrest : c.rest = part ++ c'.rest) (hrank : c'.fileRank = 0) (hzero : c.fileRank = 0)
    (hgoesOn : c'.rest ≠ [] → GoesOn c'.toWorld) : c'.Streams := by
  have hunwritten : c'.unwritten = c.unwritten := by
    rw [unwritten, unwritten, Moves.queued_eq hmoves, hqueued, htasks]
  refine ⟨?_, ?_, ?_, ?_⟩
  · intro i t head hi ht
    rw [htasks] at hi
    have hrankOf := (h.opened i t head hi ht).1
    rw [hzero, rankOf_eq] at hrankOf
    omega
  · omega
  · have hstream := h.stream
    rw [hmoves.stream, hwritten, hunwritten, hrank, htasks, ← hstream, hzero, hrest]
    simp [outstanding]
  · intro _ hne
    exact hgoesOn hne

/-! ## The step lemma -/

structure Inv (cfg : Config) (c : Scheduled W) : Prop extends Sound cfg c, Streams c

theorem Inv.established (workers : W → Parser) : Inv cfg (established workers) where
  plain := StaticConn.Inv.established.plain
  tidy := StaticConn.Inv.established.tidy
  alive := by simp [Scheduled.established, StaticConn.established]
  pending := .none (WfBuffer.readable_construct _) rfl rfl rfl
  regular := by simp [Scheduled.established]
  messages := by simp [Scheduled.established, StaticConn.established, queued]
  complete := by simp [Scheduled.established]
  opened := by simp [Scheduled.established]
  rank_le := Nat.zero_le _
  stream := by
    simp [Scheduled.established, StaticConn.established, accepted, outstanding, unwritten, rest, queued]
  continues := by simp [Scheduled.established, StaticConn.established, rest]

/-- Calls that neither send nor open nor close queue nothing. -/
theorem call_quiet (c : StaticConn) (env : Environment) {call : ParserCall} (h : call.Quiet) :
    Queues c.toWorld (c.call env call).toWorld [] ∧ (c.call env call).fp = c.fp := by
  cases call with
  | setContextkv key value =>
      unfold StaticConn.call
      dsimp only
      split <;> exact ⟨Queues.refl _, rfl⟩
  | cancelWriteComplete => exact ⟨{ Queues.refl c.toWorld with }, rfl⟩
  | recordSize md5 size => exact ⟨Queues.refl _, rfl⟩
  | exeSET md5 value length => exact ⟨Queues.refl _, rfl⟩
  | retryInLoop => exact ⟨Queues.refl _, rfl⟩
  | setContextfp file => exact False.elim h
  | send message => exact False.elim h
  | forceCloseWithDelay => exact False.elim h
  | forceClose => exact False.elim h
  | shutdown => exact False.elim h

theorem call_shutdown (c : StaticConn) (env : Environment) :
    ∃ fs, Queues c.toWorld (c.call env .shutdown).toWorld fs ∧ ∀ f ∈ fs, f = .shutdownInLoop := by
  have hcall : (c.call env .shutdown).toWorld = c.toWorld.shutdown .other := rfl
  rw [hcall, shutdown_other]
  split
  · refine ⟨[.shutdownInLoop], ⟨rfl, Or.inr rfl, rfl, rfl, rfl, rfl, rfl, rfl⟩, ?_⟩
    intro f hf
    exact List.mem_singleton.1 hf
  · exact ⟨[], Queues.refl _, by simp⟩

theorem call_send {c : StaticConn} (h : c.state_ = .kConnected) (env : Environment)
    (message : Bytes) :
    Queues c.toWorld (c.call env (.send message)).toWorld [.sendInLoop message] := by
  have hcall : (c.call env (.send message)).toWorld = c.toWorld.queueInLoop (.sendInLoop message) :=
    if_pos h
  rw [hcall]
  exact ⟨rfl, Or.inl rfl, rfl, rfl, rfl, rfl, rfl, rfl⟩

theorem Inv.advance (h : Inv cfg c) (hi : c.tasks[i]? = some t) {step : TaskStep}
    (hsteps : t.steps = step :: steps) (hallowed : c.AllowedTask i t) :
    Inv cfg (c.advance i t steps step) := by
  rcases h.regular t (List.mem_of_getElem? hi) with ⟨head, hne, hread⟩ | hregular
  · -- the file is open: its first part is read
    rw [hread] at hsteps
    cases hsteps
    have hrest := (h.opened i t head hi hread).2
    have hafter : afterRead head (c.rest.take kBufSize) =
        [.call (.send (head ++ c.rest.take kBufSize))] := if_neg (StaticConn.take_ne_nil hrest)
    refine ⟨h.toSound.of_task hi (Queues.refl _) (by simp) rfl (Or.inr ?_) rfl rfl rfl,
      h.toStreams.of_fread hi hread (Queues.refl _) rfl rfl rfl⟩
    rw [hafter]
    exact .send (by simp [hne]) rfl .done
  · rw [hsteps] at hregular
    have hunsent : t.unsent = unsentIn t.env (step :: steps) := by rw [← hsteps]; rfl
    cases hregular with
    | shutdown =>
        rcases call_shutdown c.toStaticConn t.env with ⟨fs, hworld, hfs⟩
        have hqueued : queued fs = [] := by
          rw [queued, List.filterMap_eq_nil_iff]
          intro f hf
          rw [hfs f hf]
        exact ⟨h.toSound.of_task hi hworld (fun f hf => Or.inr (hfs f hf)) rfl (Or.inr .done) rfl rfl
          rfl, h.toStreams.of_silent hi hworld hqueued rfl hunsent.symm (by simp) rfl rfl⟩
    | @quiet call steps hquiet hregular =>
        rcases call_quiet c.toStaticConn t.env hquiet with ⟨hworld, hfp⟩
        have hrank : (c.advance i t steps (.call call)).fileRank = c.fileRank := by
          cases call <;> first | rfl | exact False.elim hquiet
        refine ⟨h.toSound.of_task hi hworld (by simp) rfl (Or.inr hregular) rfl rfl rfl,
          h.toStreams.of_silent hi hworld rfl rfl ?_ ?_ hfp hrank⟩
        · rw [hunsent, unsentIn_quiet hquiet]
        · rintro head rfl
          cases hregular
    | @send message steps hne hnone hregular =>
        have hsends : t.sends = true := by
          unfold Task.sends
          rw [hsteps]
        rcases hallowed.1 hsends with ⟨hst, hbefore⟩
        have hworld := call_send hst t.env message
        refine ⟨h.toSound.of_task hi hworld ?_ rfl (Or.inr hregular) rfl rfl rfl,
          h.toStreams.of_send hi hunsent hnone hbefore hworld rfl rfl rfl⟩
        intro f hf
        exact Or.inl ⟨message, hne, List.mem_singleton.1 hf⟩
    | @setContextfp file head hne hcontents =>
        have hopens : t.opens = true := by
          unfold Task.opens
          rw [hsteps]
        have hrest := hallowed.2 hopens
        refine ⟨h.toSound.of_task hi (Queues.refl _) (by simp) rfl
            (Or.inl ⟨head, hne, rfl⟩) rfl rfl rfl,
          h.toStreams.of_setContextfp hi hunsent hcontents hrest (Queues.refl _) rfl rfl rfl⟩

theorem Inv.handleWrite (h : Inv cfg c) (hwriting : c.channel_.isWriting = true) {r : WriteResult}
    (hallowed : c.fileRank = 0 → c.rest ≠ [] → Drains c.toWorld r →
      c.writeCompleteCallback_ = true) :
    Inv cfg { c with toWorld := c.toWorld.handleWrite r } := by
  have hmoves := handleWrite_moves h.plain r
  refine ⟨h.toSound.of_loop hmoves h.plain (handleWrite_tidy h.tidy r) rfl rfl (fun _ hm => hm) rfl
    rfl rfl rfl, h.toStreams.of_moves_nil hmoves rfl rfl rfl rfl rfl ?_⟩
  intro hzero hne
  exact handleWrite_goesOn h.plain hwriting (hallowed hzero hne)

theorem shutdownInLoop_moves {w : World} (h : w.dissByPeer_ = false) :
    Moves w w.shutdownInLoop [] := by
  rcases shutdownInLoop_output w with ⟨hout, hacc⟩
  refine { shutdownInLoop_keeps h with highWater := ?_, dissByPeer := ?_, queue := ?_, stream := ?_ }
  · rcases StaticConn.shutdownInLoop_frame h with ⟨effects, heq⟩
    rw [heq]
  · rcases StaticConn.shutdownInLoop_frame h with ⟨effects, heq⟩
    rw [heq]
  · rcases StaticConn.shutdownInLoop_frame h with ⟨effects, heq⟩
    left
    rw [heq]
  · rw [hout, hacc, List.append_nil]

theorem stopWriteInLoop_moves (w : World) : Moves w w.stopWriteInLoop [] := by
  rcases StaticConn.stopWriteInLoop_frame w with ⟨channel, heq⟩
  rw [heq]
  exact ⟨⟨Or.inl rfl, rfl, rfl⟩, ⟨rfl, rfl, Or.inl rfl⟩, (List.append_nil _).symm⟩

theorem shutdown_moves {w : World} (h : w.dissByPeer_ = false) : Moves w (w.shutdown .loop) [] := by
  rw [shutdown_loop]
  split
  · have hmoves := shutdownInLoop_moves
      (w := { w with closeFlag_ := true, state_ := .kDisconnecting }) h
    refine { hmoves with state_ := ?_ }
    right
    rcases hmoves.state_ with heq | heq
    · exact heq
    · exact heq
  · exact ⟨⟨Or.inl rfl, rfl, rfl⟩, ⟨rfl, rfl, Or.inl rfl⟩, (List.append_nil _).symm⟩

/-- The end of a file, or none: writing is stopped, and the connection may be shut down. -/
theorem writeComplete_end_moves {s : StaticConn} (h : StaticConn.Plain s.toWorld)
    (htidy : s.toWorld.Tidy) (hfp : s.fp.getD [] = []) (hnil : s.outputBuffer_.readable = [])
    (r : WriteResult) :
    Moves s.toWorld (s.writeComplete r).toWorld [] ∧ (s.writeComplete r).toWorld.Tidy ∧
      (s.writeComplete r).fp = none := by
  have hstop := StaticConn.stopWriteInLoop_tidy htidy hnil
  have hmoves := stopWriteInLoop_moves s.toWorld
  cases hfile : s.fp with
  | none =>
      rw [StaticConn.writeComplete_absent hfile]
      exact ⟨hmoves, hstop, hfile⟩
  | some contents =>
      rw [hfile] at hfp
      have hempty : contents = [] := hfp
      rw [hempty] at hfile
      rw [StaticConn.writeComplete_end hfile]
      dsimp only
      split
      · refine ⟨?_, shutdown_tidy hstop .loop, rfl⟩
        rcases StaticConn.stopWriteInLoop_frame s.toWorld with ⟨channel, heq⟩
        rw [heq]
        have hshut := shutdown_moves (w := { s.toWorld with channel_ := channel }) h.dissByPeer
        exact { hshut with }
      · exact ⟨hmoves, hstop, rfl⟩

section Functors

variable {fs : List Functor} {r : WriteResult}

theorem queued_cons_sub {f : Functor} (hq : c.pendingFunctors_ = f :: fs) :
    ∀ m ∈ queued fs, m ∈ queued c.pendingFunctors_ := by
  intro m hm
  rw [hq, show f :: fs = [f] ++ fs from rfl, queued_append]
  exact List.mem_append_right _ hm

theorem Inv.sendInLoop (h : Inv cfg c) {message : Bytes}
    (hq : c.pendingFunctors_ = .sendInLoop message :: fs)
    (hallowed : c.AllowedFunctor r (.sendInLoop message :: fs)) :
    Inv cfg { c with
      toWorld := (c.dequeue fs).toWorld.sendInLoop message r, fileRank := c.fileRank - 1 } := by
  rcases hallowed with ⟨hended, hfault, hcallback⟩
  have hplain : StaticConn.Plain (c.dequeue fs).toWorld := h.plain.dequeue hq
  have htidy : (c.dequeue fs).toWorld.Tidy := h.tidy
  have hmessage : message ≠ [] := h.messages message (by rw [hq]; simp [queued])
  have hmoves := sendInLoop_moves hplain h.alive message hfault
  refine ⟨h.toSound.of_loop hmoves hplain (sendInLoop_tidy htidy message r) rfl rfl
    (queued_cons_sub hq) rfl rfl rfl rfl,
    h.toStreams.of_sendInLoop hmoves rfl ?_ rfl rfl rfl hended ?_⟩
  · rw [hq]
    rfl
  · intro hone hrest
    exact sendInLoop_goesOn htidy h.alive hmessage hfault (hcallback hone hrest)

theorem Inv.shutdownInLoop (h : Inv cfg c) (hq : c.pendingFunctors_ = .shutdownInLoop :: fs) :
    Inv cfg { c with toWorld := (c.dequeue fs).toWorld.shutdownInLoop } := by
  have hplain : StaticConn.Plain (c.dequeue fs).toWorld := h.plain.dequeue hq
  have hmoves := shutdownInLoop_moves hplain.dissByPeer
  refine ⟨h.toSound.of_loop hmoves hplain (shutdownInLoop_tidy h.tidy) rfl rfl (queued_cons_sub hq)
    rfl rfl rfl rfl, h.toStreams.of_moves_nil hmoves rfl ?_ rfl rfl rfl ?_⟩
  · rw [hq]
    rfl
  · intro hzero hrest
    rcases StaticConn.shutdownInLoop_frame hplain.dissByPeer with ⟨effects, heq⟩
    unfold GoesOn
    dsimp only
    rw [heq]
    rcases h.continues hzero hrest with hmem | hwriting
    · rw [hq] at hmem
      exact Or.inl ((List.mem_cons.1 hmem).resolve_left (by simp))
    · exact Or.inr hwriting

/-- The file has ended, or there is none. -/
theorem Inv.writeComplete_end (h : Inv cfg c)
    (hq : c.pendingFunctors_ = .writeCompleteCallback :: fs) (hrest : c.rest = [])
    (hnil : c.outputBuffer_.readable = []) :
    Inv cfg { c with toStaticConn := (c.dequeue fs).writeComplete r } := by
  have hplain : StaticConn.Plain (c.dequeue fs).toWorld := h.plain.dequeue hq
  rcases writeComplete_end_moves hplain h.tidy hrest hnil r with ⟨hmoves, htidy', hfp⟩
  have hrest' : Scheduled.rest { c with toStaticConn := (c.dequeue fs).writeComplete r } =
      c.rest := by
    rw [hrest, rest, hfp]
    rfl
  refine ⟨h.toSound.of_loop hmoves hplain htidy' rfl rfl (queued_cons_sub hq) rfl rfl rfl rfl,
    h.toStreams.of_moves_nil hmoves rfl ?_ rfl hrest' rfl ?_⟩
  · rw [hq]
    rfl
  · intro _ hne
    exact absurd hrest hne

/-- There is more of the file. -/
theorem Inv.writeComplete_part (h : Inv cfg c)
    (hq : c.pendingFunctors_ = .writeCompleteCallback :: fs) (hrest : c.rest ≠ [])
    (hzero : c.fileRank = 0) (hst : c.state_ = .kConnected) (hfault : c.directFault r = false)
    (hcallback : c.rest.drop kBufSize ≠ [] →
      StaticConn.Leaves c.toWorld (c.rest.take kBufSize) r ∨ c.writeCompleteCallback_ = true) :
    Inv cfg { c with toStaticConn := (c.dequeue fs).writeComplete r } := by
  have hplain : StaticConn.Plain (c.dequeue fs).toWorld := h.plain.dequeue hq
  have htidy : (c.dequeue fs).toWorld.Tidy := h.tidy
  have hst' : (c.dequeue fs).state_ = .kConnected := hst
  have hmoves := sendInLoop_moves hplain h.alive (c.rest.take kBufSize) hfault
  have hfile : c.fp = some c.rest := by
    cases hfp : c.fp with
    | none =>
        rw [rest, hfp] at hrest
        exact absurd rfl hrest
    | some contents => rw [rest, hfp, Option.getD_some]
  rw [StaticConn.writeComplete_part (c := c.dequeue fs) hfile hrest, World.send, if_pos hst']
  refine ⟨h.toSound.of_loop hmoves hplain (sendInLoop_tidy htidy _ r) rfl rfl (queued_cons_sub hq)
    rfl rfl rfl rfl, h.toStreams.of_writeComplete hmoves rfl ?_ rfl ?_ hzero hzero ?_⟩
  · rw [hq]
    rfl
  · exact (List.take_append_drop _ _).symm
  · intro hmore
    exact sendInLoop_goesOn htidy h.alive (StaticConn.take_ne_nil hrest) hfault (hcallback hmore)

variable [DecidableEq W]

theorem Inv.runFunctor (h : Inv cfg c) (hne : c.pendingFunctors_ ≠ [])
    (hallowed : c.AllowedFunctor r c.pendingFunctors_) (envs : Nat → Environment) :
    Inv cfg (c.perform cfg envs (.runFunctor r)) := by
  cases hq : c.pendingFunctors_ with
  | nil => exact absurd hq hne
  | cons f fs =>
      rw [hq] at hallowed
      simp only [Scheduled.perform, StaticConn.perform, hq]
      rcases h.plain.queue f (by rw [hq]; exact List.mem_cons_self) with ⟨message, rfl⟩ | rfl | rfl
      · exact h.sendInLoop hq hallowed
      · exact h.shutdownInLoop hq
      · simp only [AllowedFunctor] at hallowed
        split at hallowed
        · rename_i hrest
          exact h.writeComplete_end hq hrest hallowed
        · rename_i hrest
          rcases hallowed with ⟨hzero, hst, hfault, hcallback⟩
          exact h.writeComplete_part hq hrest hzero hst hfault hcallback

end Functors

/-- A read into the empty buffer brings the next request. -/
theorem Inv.readFd (h : Inv cfg c) (hempty : c.inputBuffer_.readable = []) (q : HttpRequest) :
    Inv cfg { c with
      inputBuffer_ := c.inputBuffer_.readFd q.text
      onMessage := [.setWriteCompleteCallback, .put]
      requests := c.requests ++ [q] } := by
  have hlen : c.tasks.length = c.requests.length ∧ c.queue_ = 0 := by
    cases h.pending with
    | none _ hlen hqueue _ => exact ⟨hlen, hqueue⟩
    | one q' _ _ htext _ =>
        rw [hempty] at htext
        exact absurd htext.symm q'.text_ne
  refine ⟨⟨{ h.plain with }, h.tidy, h.alive, ?_, h.regular, h.messages, ?_⟩, { h.toStreams with }⟩
  · refine .one q ?_ ?_ ?_ (Or.inr ⟨hlen.2, Or.inr rfl⟩)
    · simp [hlen.1]
    · simp [hlen.1]
    · simp [hempty]
  · intro i t hi
    rcases h.complete i t hi with ⟨q', p, hq', hresponse⟩
    have hlt := (List.getElem?_eq_some_iff.1 hq').1
    exact ⟨q', p, by rw [← hq', List.getElem?_append_left hlt], hresponse⟩

theorem Inv.onMessage (h : Inv cfg c) (hne : c.onMessage ≠ []) (envs : Nat → Environment)
    [DecidableEq W] : Inv cfg (c.perform cfg envs .onMessage) := by
  cases h.pending with
  | none _ _ _ hm => exact absurd hm hne
  | one q hq hlen htext hput =>
      rcases hput with ⟨-, hm⟩ | ⟨hqueue, hm | hm⟩
      · exact absurd hm hne
      · simp only [Scheduled.perform, hm]
        refine ⟨⟨{ h.plain with }, h.tidy, h.alive, ?_, h.regular, h.messages, h.complete⟩,
          { h.toStreams with }⟩
        exact .one q hq hlen htext (Or.inl ⟨by rw [hqueue], rfl⟩)
      · simp only [Scheduled.perform, hm]
        refine ⟨⟨{ h.plain with }, h.tidy, h.alive, ?_, h.regular, h.messages, h.complete⟩,
          { h.toStreams with }⟩
        exact .one q hq hlen htext (Or.inr ⟨hqueue, Or.inl rfl⟩)

variable [DecidableEq W]

/-- A worker takes the one request in the buffer: its complete response is now to be sent. -/
theorem Inv.start (h : Inv cfg c) {w : W} {env : Environment} {state_ : StateE} {served : Served}
    (hqueue : c.queue_ ≠ 0) (hempty : (c.workers w).response_.readable = [])
    (hserved : (c.workers w).parserRequest cfg
      { request := c.inputBuffer_.retrieveAllAsString.1, env := env, state_ := state_ } = .ok served)
    (hdue : c.tasks.length < c.requests.length → (c.due cfg w env).isSome) :
    Inv cfg (c.start w env state_ served ((c.due cfg w env).getD [])) := by
  -- the task that starts is the one that the last request is waiting for
  obtain ⟨q, hq, hlen, htext, hqueue', hm⟩ : ∃ q, c.requests[c.tasks.length]? = some q ∧
      c.requests.length = c.tasks.length + 1 ∧ c.inputBuffer_.readable = q.text ∧ c.queue_ = 1 ∧
        c.onMessage = [] := by
    cases h.pending with
    | none _ _ hzero _ => exact absurd hzero hqueue
    | one q hq hlen htext hput =>
        rcases hput with ⟨hone, hm⟩ | ⟨hzero, -⟩
        · exact ⟨q, hq, hlen, htext, hone, hm⟩
        · exact absurd hzero hqueue
  rcases Option.isSome_iff_exists.1 (hdue (by omega)) with ⟨response, hresponse⟩
  have hcomplete : completeResponse cfg (c.workers w) env q = some response := by
    rw [due, hq] at hresponse
    exact hresponse
  rw [WfBuffer.retrieveAllAsString_fst, htext] at hserved
  rcases taskSteps_spec hcomplete hempty hserved with ⟨hregular, hunsent⟩
  rw [hresponse, Option.getD_some]
  -- its response comes after all that is still to be written
  have hunwritten : (c.start w env state_ served response).unwritten = c.unwritten ++ [response] := by
    simp only [unwritten, Scheduled.start, List.filterMap_append, ← List.append_assoc]
    congr 1
    simp [Task.unsent, hunsent]
  refine ⟨⟨{ h.plain with }, h.tidy, h.alive, ?_, ?_, h.messages, ?_⟩, ⟨?_, ?_, ?_, h.continues⟩⟩
  · refine .none (WfBuffer.readable_retrieveAllAsString _) ?_ ?_ hm
    · simp [Scheduled.start, hlen]
    · simp [Scheduled.start, hqueue']
  · intro t ht
    rcases List.mem_append.1 ht with hold | hnew
    · exact h.regular t hold
    · rw [List.mem_singleton.1 hnew]
      exact Or.inr hregular
  · intro i t hi
    rcases Positions.getElem?_concat hi with hold | ⟨rfl, rfl⟩
    · exact h.complete i t hold
    · exact ⟨q, c.workers w, hq, hcomplete⟩
  · intro i t head hi ht
    rcases Positions.getElem?_concat hi with hold | ⟨rfl, rfl⟩
    · -- a task that was there keeps its place in the order of the files
      have hlt := (List.getElem?_eq_some_iff.1 hold).1
      have hrankOf : (c.start w env state_ served response).rankOf i = c.rankOf i := by
        simp only [rankOf, Scheduled.start, List.take_append_of_le_length (Nat.le_of_lt hlt)]
      rw [hrankOf]
      exact h.opened i t head hold ht
    · -- the new task still has to open its file
      have hsteps : taskSteps ((c.workers w).response_.readable ++ served.head.getD [])
        served.calls = [.fread head] := ht
      rw [hsteps] at hregular
      cases hregular
  · rw [hunwritten, List.length_append]
    exact Nat.le_add_right_of_le h.rank_le
  · rw [hunwritten]
    have hstream := h.stream
    change c.accepted ++ c.outputBuffer_.readable ++
      outstanding (c.unwritten ++ [response]) c.fileRank c.rest = _
    rw [outstanding_append h.rank_le, ← List.append_assoc, hstream]
    simp [Scheduled.start]

theorem Inv.perform (h : Inv cfg c) {envs : Nat → Environment} {a : SchedulerAction W}
    (hready : c.ready a) (hserves : c.Serves cfg envs a) (hallowed : c.Allowed a) :
    Inv cfg (c.perform cfg envs a) := by
  cases a with
  | readFd q => exact h.readFd hallowed q
  | onMessage => exact h.onMessage hready envs
  | take w state_ =>
      rcases hserves with ⟨⟨served, hserved⟩, hdue⟩
      simp only [Scheduled.perform, hserved]
      exact h.start hready.1 hallowed hserved hdue
  | proceed i =>
      rcases hready with ⟨t, hi, hne, -⟩
      cases hsteps : t.steps with
      | nil => exact absurd hsteps hne
      | cons step steps =>
          have hi' : c.tasks[i]? = some t := hi
          simp only [Scheduled.perform, hi', hsteps]
          exact h.advance hi hsteps (hallowed t hi)
  | elsewhere w p =>
      exact ⟨⟨{ h.plain with }, h.tidy, h.alive, h.pending.of_eq rfl rfl rfl rfl rfl, h.regular,
        h.messages, h.complete⟩, { h.toStreams with }⟩
  | handleWrite r => exact h.handleWrite hready.2.1 hallowed
  | runFunctor r => exact h.runFunctor hready.2.1 hallowed envs

theorem reachable_inv {envs : Nat → Environment}
    (h : ((runs cfg envs).restrict Allowed).Reachable c) : Inv cfg c := by
  refine h.invariant ?_ ?_
  · rintro c ⟨workers, rfl⟩
    exact Inv.established workers
  · rintro c a c' hc ⟨hallowed, ⟨hready, hserves⟩, rfl⟩
    exact hc.perform hready hserves hallowed

end Scheduled
end Web
end Longky
