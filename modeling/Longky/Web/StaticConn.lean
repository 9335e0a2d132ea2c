import Longky.Net.TcpOutput
import Longky.Web.Parser

/-!
# StaticConn — a connection of the static server

`StaticServer::writeComplete` of `webServer/staticServer.cpp` over one connection: it streams the
rest of the file in the connection's context and stops writing at its end.  The pool threads queue
responses and put files into the context; the loop thread runs the queued functors in order and
handles write events.

`writeComplete` is queued when the output buffer is empty and runs later, when it may no longer be.

* `writing_never_stopped`: pending output keeps being written as long as the open file has a part
  left for each `writeComplete` that is queued, and no longer.
-/

namespace Longky
namespace Web

open Lib Net World

/-- A connection with the parts of its context that `writeComplete` reads. -/
structure StaticConn extends World where
  /-- `getContextfp()`: what is left to read of the open file. -/
  fp : Option Bytes := none
  /-- `getContextkv("connectionFlag")`. -/
  connectionFlag : Bytes := []

inductive StaticAction where
  /-- A pool thread calls `send`. -/
  | send (message : Bytes)
  /-- A pool thread calls `shutdown`, behind a cached response. -/
  | shutdown
  | setContextfp (contents : Bytes)
  | setConnectionFlag (flag : Bytes)
  /-- `setWriteCompleteCallback`, with `writeComplete` or without. -/
  | setWriteCompleteCallback (on : Bool)
  | handleWrite (r : WriteResult)
  /-- The loop runs the next functor of its queue. -/
  | runFunctor (r : WriteResult)

namespace StaticConn

/-- `StaticServer::writeComplete`, on the loop thread. -/
def writeComplete (c : StaticConn) (r : WriteResult) : StaticConn :=
  match c.fp with
  | none => { c with toWorld := c.toWorld.stopWrite .loop }
  | some contents =>
      let buf := contents.take kBufSize
      if 0 < buf.length then
        { c with fp := some (contents.drop kBufSize), toWorld := c.toWorld.send .loop buf r }
      else
        let w := c.toWorld.stopWrite .loop
        { c with
          fp := none
          toWorld := if c.connectionFlag = Bytes.ofString "close" then w.shutdown .loop else w }

/-- What the loop does with a functor it has taken out of the queue. -/
def runFunctor (c : StaticConn) (f : Functor) (r : WriteResult) : StaticConn :=
  match f with
  | .writeCompleteCallback => c.writeComplete r
  | f => { c with toWorld := c.toWorld.runFunctor f r }

def dequeue (c : StaticConn) (fs : List Functor) : StaticConn :=
  { c with pendingFunctors_ := fs }

/-- Write events come only while the channel asks for them. -/
def enabled (c : StaticConn) : StaticAction → Prop
  | .handleWrite _ => c.channel_.isWriting = true
  | .runFunctor _ => c.pendingFunctors_ ≠ []
  | _ => True

instance (c : StaticConn) : (a : StaticAction) → Decidable (c.enabled a)
  | .handleWrite _ => inferInstanceAs (Decidable (c.channel_.isWriting = true))
  | .runFunctor _ => inferInstanceAs (Decidable (c.pendingFunctors_ ≠ []))
  | .send _ | .shutdown | .setContextfp _ | .setConnectionFlag _ | .setWriteCompleteCallback _ =>
      .isTrue trivial

def perform (c : StaticConn) : StaticAction → StaticConn
  | .send message => { c with toWorld := c.toWorld.send .other message (.room 0) }
  | .shutdown => { c with toWorld := c.toWorld.shutdown .other }
  | .setContextfp contents => { c with fp := some contents }
  | .setConnectionFlag flag => { c with connectionFlag := flag }
  | .setWriteCompleteCallback on => { c with writeCompleteCallback_ := on }
  | .handleWrite r => { c with toWorld := c.toWorld.handleWrite r }
  | .runFunctor r =>
      match c.pendingFunctors_ with
      | [] => c
      | f :: fs => (c.dequeue fs).runFunctor f r

/-- A connection after `connectEstablished`. -/
def established : StaticConn where
  state_ := .kConnected
  channel_ := ({} : Channel).enableReading

def runs : System StaticConn StaticAction where
  init c := c = established
  step c a c' := c.enabled a ∧ c' = c.perform a

/-! ## The condition -/

/-- The direct write does not take the whole message, and the rest is kept. -/
def Short (message : Bytes) : WriteResult → Prop
  | .room n => n < message.length
  | .fail e => e.isFault = false ∧ message ≠ []

instance (message : Bytes) : (r : WriteResult) → Decidable (Short message r)
  | .room n => inferInstanceAs (Decidable (n < message.length))
  | .fail e => inferInstanceAs (Decidable (e.isFault = false ∧ message ≠ []))

/-- `sendInLoop` leaves bytes of the message in `outputBuffer_`. -/
def Leaves (w : World) (message : Bytes) (r : WriteResult) : Prop :=
  w.state_ ≠ .kDisconnected ∧ if w.writesDirectly = true then Short message r else message ≠ []

instance (w : World) (message : Bytes) (r : WriteResult) : Decidable (Leaves w message r) :=
  inferInstanceAs (Decidable (_ ∧ if w.writesDirectly = true then _ else _))

/-- How often `writeComplete` can still read from the open file. -/
def parts : Option Bytes → Nat
  | none => 0
  | some contents => (contents.length + (kBufSize - 1)) / kBufSize

/-- The open file has a part for each `writeComplete` in the queue. -/
def Covered (fs : List Functor) (fp : Option Bytes) : Prop :=
  fs.count .writeCompleteCallback ≤ parts fp

instance (fs : List Functor) (fp : Option Bytes) : Decidable (Covered fs fp) :=
  inferInstanceAs (Decidable (_ ≤ _))

/-- What the next functor may leave behind, for the queue and the open file. -/
def AllowedNext (w : World) (r : WriteResult) : List Functor → Option Bytes → Prop
  | .sendInLoop message :: fs, fp => Leaves w message r → Covered fs fp
  | .writeCompleteCallback :: fs, some contents =>
      w.state_ = .kConnected → Leaves w (contents.take kBufSize) r →
        Covered fs (some (contents.drop kBufSize))
  | _, _ => True

instance (w : World) (r : WriteResult) :
    (fs : List Functor) → (fp : Option Bytes) → Decidable (AllowedNext w r fs fp)
  | .sendInLoop message :: fs, fp => inferInstanceAs (Decidable (Leaves w message r → Covered fs fp))
  | .writeCompleteCallback :: fs, some contents =>
      inferInstanceAs (Decidable (w.state_ = .kConnected → Leaves w (contents.take kBufSize) r →
        Covered fs (some (contents.drop kBufSize))))
  | .writeCompleteCallback :: _, none | [], _ | .shutdownInLoop :: _, _ | .forceCloseInLoop :: _, _
  | .startReadInLoop :: _, _ | .stopReadInLoop :: _, _ | .startWriteInLoop :: _, _
  | .stopWriteInLoop :: _, _ | .highWaterMarkCallback _ :: _, _ | .connectDestroyed :: _, _ =>
      .isTrue trivial

/-- A message stays behind in part, and a file is opened while output is pending, only when the open
file has a part for each `writeComplete` in the queue. -/
def Allowed (c : StaticConn) : StaticAction → Prop
  | .setContextfp contents =>
      c.outputBuffer_.readable ≠ [] → Covered c.pendingFunctors_ (some contents)
  | .runFunctor r => AllowedNext c.toWorld r c.pendingFunctors_ c.fp
  | _ => True

instance (c : StaticConn) : (a : StaticAction) → Decidable (c.Allowed a)
  | .setContextfp contents =>
      inferInstanceAs (Decidable (c.outputBuffer_.readable ≠ [] →
        Covered c.pendingFunctors_ (some contents)))
  | .runFunctor r => inferInstanceAs (Decidable (AllowedNext c.toWorld r c.pendingFunctors_ c.fp))
  | .send _ | .shutdown | .setConnectionFlag _ | .setWriteCompleteCallback _ | .handleWrite _ =>
      .isTrue trivial

theorem parts_drop {contents : Bytes} (h : contents ≠ []) :
    parts (some (contents.drop kBufSize)) + 1 = parts (some contents) := by
  have hpos := List.length_pos_iff.2 h
  simp only [parts, List.length_drop, kBufSize]
  omega

theorem take_ne_nil {contents : Bytes} (h : contents ≠ []) : contents.take kBufSize ≠ [] := by
  rw [Ne, List.take_eq_nil_iff]
  simp [h, kBufSize]

/-- What `writeComplete` sends of an open file, in so many parts. -/
def streamParts : Nat → Bytes → Bytes
  | 0, _ => []
  | n + 1, contents => contents.take kBufSize ++ streamParts n (contents.drop kBufSize)

/-- What it sends until the file ends. -/
def streamRest (contents : Bytes) : Bytes := streamParts (parts (some contents)) contents

theorem streamRest_eq (contents : Bytes) : streamRest contents = contents := by
  unfold streamRest
  generalize hn : parts (some contents) = n
  induction n generalizing contents with
  | zero =>
      have hnil : contents = [] := by
        by_contra hne
        have hparts := parts_drop hne
        omega
      rw [hnil]
      rfl
  | succ n ih =>
      have hne : contents ≠ [] := by
        rintro rfl
        cases hn
      have hparts := parts_drop hne
      rw [streamParts, ih (contents.drop kBufSize) (by omega), List.take_append_drop]

/-! ## Functions -/

/-- What the functions of this connection never change, and what they queue. -/
structure Plain (w : World) : Prop where
  highWater : w.highWaterMarkCallback_ = false
  dissByPeer : w.dissByPeer_ = false
  queue : ∀ f ∈ w.pendingFunctors_,
    (∃ message, f = .sendInLoop message) ∨ f = .shutdownInLoop ∨ f = .writeCompleteCallback

/-- A function leaves the queue alone, or queues `writeComplete` behind an empty output buffer. -/
structure Flows (w w' : World) : Prop where
  highWater : w'.highWaterMarkCallback_ = w.highWaterMarkCallback_
  dissByPeer : w'.dissByPeer_ = w.dissByPeer_
  queue : w'.pendingFunctors_ = w.pendingFunctors_ ∨
    w'.outputBuffer_.readable = [] ∧
      w'.pendingFunctors_ = w.pendingFunctors_ ++ [.writeCompleteCallback]

theorem Flows.refl (w : World) : Flows w w := ⟨rfl, rfl, Or.inl rfl⟩

theorem Plain.of_flows {w w' : World} (h : Plain w) (hf : Flows w w') : Plain w' where
  highWater := hf.highWater.trans h.highWater
  dissByPeer := hf.dissByPeer.trans h.dissByPeer
  queue := by
    intro f hmem
    rcases hf.queue with heq | ⟨-, heq⟩
    · exact h.queue f (heq ▸ hmem)
    · rw [heq] at hmem
      rcases List.mem_append.1 hmem with hold | hnew
      · exact h.queue f hold
      · exact Or.inr (Or.inr (List.mem_singleton.1 hnew))

/-- With output pending nothing is queued. -/
theorem Flows.queue_eq {w w' : World} (h : Flows w w') (hne : w'.outputBuffer_.readable ≠ []) :
    w'.pendingFunctors_ = w.pendingFunctors_ := by
  rcases h.queue with heq | ⟨hnil, -⟩
  · exact heq
  · exact absurd hnil hne

theorem appendRemaining_flows {w : World} (h : w.highWaterMarkCallback_ = false) (data : Bytes) :
    Flows w (w.appendRemaining data) := by
  unfold appendRemaining
  split
  · simp only [h, Bool.false_eq_true, and_false, if_false]
    split
    · exact ⟨h.symm, rfl, Or.inl rfl⟩
    · exact ⟨h.symm, rfl, Or.inl rfl⟩
  · exact Flows.refl w

theorem queueWriteComplete_flows {w : World} (h : w.outputBuffer_.readable = []) :
    Flows w w.queueWriteComplete := by
  unfold queueWriteComplete
  split
  · exact ⟨rfl, rfl, Or.inr ⟨h, rfl⟩⟩
  · exact Flows.refl w

theorem sendInLoop_flows {w : World} (h : w.highWaterMarkCallback_ = false) (data : Bytes)
    (r : WriteResult) : Flows w (w.sendInLoop data r) := by
  unfold sendInLoop
  split
  · exact Flows.refl w
  · split
    · rename_i hdirect
      have hnil := ((writesDirectly_iff w).1 hdirect).2
      cases r with
      | room n =>
          dsimp only
          split
          · exact { queueWriteComplete_flows (w := w.emit (.wrote (data.take n))) hnil with }
          · exact { appendRemaining_flows (w := w.emit (.wrote (data.take n))) h _ with }
      | fail e =>
          dsimp only
          split
          · exact ⟨rfl, rfl, Or.inl rfl⟩
          · exact appendRemaining_flows h data
    · exact appendRemaining_flows h data

/-- What is in the output buffer after `sendInLoop`: more exactly when bytes are left behind. -/
theorem sendInLoop_buffer (w : World) (data : Bytes) (r : WriteResult) :
    (Leaves w data r → (w.sendInLoop data r).outputBuffer_.readable ≠ []) ∧
      (¬ Leaves w data r →
        (w.sendInLoop data r).outputBuffer_.readable = w.outputBuffer_.readable) := by
  unfold Leaves sendInLoop
  by_cases hst : w.state_ = .kDisconnected
  · simp [hst]
  · rw [if_neg hst]
    simp only [ne_eq, hst, not_false_eq_true, true_and]
    by_cases hdirect : w.writesDirectly = true
    · simp only [if_pos hdirect]
      cases r with
      | room n =>
          have hlen : (data.drop n).length = 0 ↔ ¬ n < data.length := by
            rw [List.length_drop]
            omega
          simp only [Short, hlen]
          refine ⟨?_, ?_⟩
          · intro hlt
            rw [if_neg (not_not.2 hlt), (appendRemaining_output _ _).1]
            intro hnil
            have hdrop := (List.append_eq_nil_iff.1 hnil).2
            rw [List.drop_eq_nil_iff] at hdrop
            omega
          · intro hle
            rw [if_pos hle, (queueWriteComplete_output _).1]
            rfl
      | fail e =>
          cases hfault : e.isFault with
          | true => simp [Short, hfault, emit]
          | false =>
              simp only [Short, hfault, Bool.false_eq_true, if_false, true_and,
                (appendRemaining_output _ _).1]
              refine ⟨?_, ?_⟩
              · intro hne hnil
                exact hne (List.append_eq_nil_iff.1 hnil).2
              · intro hnil
                rw [not_not.1 hnil, List.append_nil]
    · simp only [if_neg hdirect, (appendRemaining_output _ _).1]
      refine ⟨?_, ?_⟩
      · intro hne hnil
        exact hne (List.append_eq_nil_iff.1 hnil).2
      · intro hnil
        rw [not_not.1 hnil, List.append_nil]

/-- The peer has not closed, so `shutdownInLoop` does at most `shutdownWrite`. -/
theorem shutdownInLoop_frame {w : World} (h : w.dissByPeer_ = false) :
    ∃ effects, w.shutdownInLoop = { w with effects := effects } := by
  cases hwr : w.channel_.isWriting with
  | true =>
      rw [shutdownInLoop_of_writing hwr]
      exact ⟨w.effects, rfl⟩
  | false =>
      rw [shutdownInLoop_of_not_writing hwr, h]
      exact ⟨_, rfl⟩

theorem outputDrained_flows {w : World} (h : Plain w) (hnil : w.outputBuffer_.readable = []) :
    Flows w w.outputDrained := by
  have hq : Flows w ({ w with channel_ := w.channel_.disableWriting }.queueWriteComplete) :=
    { queueWriteComplete_flows
        (w := { w with channel_ := w.channel_.disableWriting }) hnil with }
  unfold outputDrained
  dsimp only
  split
  · rcases shutdownInLoop_frame (hq.dissByPeer.trans h.dissByPeer) with ⟨effects, heq⟩
    rw [heq]
    exact { hq with }
  · exact hq

theorem handleWrite_flows {w : World} (h : Plain w) (r : WriteResult) :
    Flows w (w.handleWrite r) := by
  unfold World.handleWrite
  split
  · cases r with
    | fail e => exact Flows.refl w
    | room k =>
        dsimp only
        split
        · have hret : Flows w (w.retrieveWritten (min k w.outputBuffer_.readableBytes)
              (Nat.min_le_right _ _)) := ⟨rfl, rfl, Or.inl rfl⟩
          split
          · rename_i hempty
            exact { outputDrained_flows (h.of_flows hret)
              (WfBuffer.readableBytes_eq_zero.1 hempty) with }
          · exact hret
        · exact Flows.refl w
  · exact Flows.refl w

theorem handleWrite_nil {w : World} {r : WriteResult} (h : w.outputBuffer_.readable = []) :
    (w.handleWrite r).outputBuffer_.readable = [] := by
  rcases handleWrite_output w r with ⟨n, -, hout, -⟩
  rw [hout, h, List.drop_nil]

/-! ## Runs in which every queued `writeComplete` is covered -/

/-- The queue is covered whenever output is pending. -/
structure Inv (c : StaticConn) : Prop where
  plain : Plain c.toWorld
  tidy : c.toWorld.Tidy
  covered : c.outputBuffer_.readable ≠ [] → Covered c.pendingFunctors_ c.fp

theorem Inv.established : Inv established where
  plain := ⟨rfl, rfl, by simp [StaticConn.established]⟩
  tidy := ⟨fun hne => absurd (WfBuffer.readable_construct _) hne,
    by simp [ShutDownClean, StaticConn.established]⟩
  covered := fun hne => absurd (WfBuffer.readable_construct _) hne

variable {c : StaticConn}

theorem Plain.dequeue {w : World} {f : Functor} {fs : List Functor} (h : Plain w)
    (hq : w.pendingFunctors_ = f :: fs) : Plain { w with pendingFunctors_ := fs } where
  highWater := h.highWater
  dissByPeer := h.dissByPeer
  queue := fun g hg => h.queue g (by rw [hq]; exact List.mem_cons_of_mem _ hg)

/-- `writeComplete` takes the part of the file that it counted for. -/
theorem covered_cons_iff {fs : List Functor} {contents : Bytes} (hne : contents ≠ []) :
    Covered (.writeCompleteCallback :: fs) (some contents) ↔
      Covered fs (some (contents.drop kBufSize)) := by
  unfold Covered
  rw [List.count_cons_self, ← parts_drop hne]
  exact Nat.add_le_add_iff_right

/-- `writeComplete` while the file lasts. -/
theorem writeComplete_part {contents : Bytes} (hfp : c.fp = some contents) (hne : contents ≠ [])
    (r : WriteResult) :
    c.writeComplete r =
      { c with
        fp := some (contents.drop kBufSize)
        toWorld := c.toWorld.send .loop (contents.take kBufSize) r } := by
  have hpos : 0 < (contents.take kBufSize).length := List.length_pos_iff.2 (take_ne_nil hne)
  simp only [StaticConn.writeComplete, hfp, if_pos hpos]

theorem writeComplete_absent (hfp : c.fp = none) (r : WriteResult) :
    c.writeComplete r = { c with toWorld := c.toWorld.stopWriteInLoop } := by
  simp only [StaticConn.writeComplete, hfp, stopWrite, runInLoop]

theorem writeComplete_end (hfp : c.fp = some []) (r : WriteResult) :
    c.writeComplete r =
      { c with
        fp := none
        toWorld := if c.connectionFlag = Bytes.ofString "close" then
          c.toWorld.stopWriteInLoop.shutdown .loop else c.toWorld.stopWriteInLoop } := by
  simp only [StaticConn.writeComplete, hfp, List.take_nil, List.length_nil, Nat.lt_irrefl, if_false,
    stopWrite, runInLoop]

/-- Without a part for it, no `writeComplete` is queued while output is pending. -/
theorem Inv.nil_of_uncovered (h : Inv c) {fs : List Functor}
    (hq : c.pendingFunctors_ = .writeCompleteCallback :: fs) (hparts : parts c.fp = 0) :
    c.outputBuffer_.readable = [] := by
  by_contra hne
  have hcov := h.covered hne
  rw [Covered, hq, hparts, List.count_cons_self] at hcov
  omega

theorem stopWriteInLoop_tidy {w : World} (h : w.Tidy) (hnil : w.outputBuffer_.readable = []) :
    w.stopWriteInLoop.Tidy := by
  rcases stopWriteInLoop_output w with ⟨hout, heff⟩
  refine ⟨?_, ?_⟩
  · intro hne
    rw [hout] at hne
    exact absurd hnil hne
  · intro unsent hmem
    rw [heff] at hmem
    exact h.2 unsent hmem

theorem stopWriteInLoop_frame (w : World) :
    ∃ channel, w.stopWriteInLoop = { w with channel_ := channel } := by
  unfold stopWriteInLoop
  split
  · exact ⟨_, rfl⟩
  · exact ⟨w.channel_, rfl⟩

theorem shutdown_frame {w : World} (h : w.dissByPeer_ = false) :
    ∃ closeFlag state effects, w.shutdown .loop =
      { w with closeFlag_ := closeFlag, state_ := state, effects := effects } := by
  rw [shutdown_loop]
  split
  · rcases shutdownInLoop_frame
      (w := { w with closeFlag_ := true, state_ := .kDisconnecting }) h with ⟨effects, heq⟩
    exact ⟨true, .kDisconnecting, effects, heq⟩
  · exact ⟨w.closeFlag_, w.state_, w.effects, rfl⟩

/-- A message is handed to `sendInLoop` while what it leaves behind is covered. -/
theorem Inv.sendInLoop (hplain : Plain c.toWorld) (htidy : c.toWorld.Tidy) {message : Bytes}
    {r : WriteResult} (hold : c.outputBuffer_.readable ≠ [] → Covered c.pendingFunctors_ c.fp)
    (hnew : Leaves c.toWorld message r → Covered c.pendingFunctors_ c.fp) :
    Inv { c with toWorld := c.toWorld.sendInLoop message r } := by
  have hflows := sendInLoop_flows hplain.highWater message r
  refine ⟨hplain.of_flows hflows, sendInLoop_tidy htidy message r, ?_⟩
  intro hne
  change Covered (c.toWorld.sendInLoop message r).pendingFunctors_ c.fp
  rw [hflows.queue_eq hne]
  rcases sendInLoop_buffer c.toWorld message r with ⟨-, hsame⟩
  by_cases hleaves : Leaves c.toWorld message r
  · exact hnew hleaves
  · exact hold (hsame hleaves ▸ hne)

theorem Inv.writeComplete (h : Inv c) {fs : List Functor} {r : WriteResult}
    (hq : c.pendingFunctors_ = .writeCompleteCallback :: fs)
    (ha : c.Allowed (.runFunctor r)) : Inv ((c.dequeue fs).writeComplete r) := by
  have hplain : Plain (c.dequeue fs).toWorld := h.plain.dequeue hq
  have htidy : (c.dequeue fs).toWorld.Tidy := h.tidy
  cases hfp : c.fp with
  | none =>
      have hnil : c.outputBuffer_.readable = [] := h.nil_of_uncovered hq (by rw [hfp]; rfl)
      rcases stopWriteInLoop_frame (c.dequeue fs).toWorld with ⟨channel, heq⟩
      have hstop := stopWriteInLoop_tidy htidy hnil
      rw [writeComplete_absent (c := c.dequeue fs) hfp]
      rw [heq] at hstop ⊢
      exact ⟨{ hplain with }, hstop, fun hne => absurd hnil hne⟩
  | some contents =>
      by_cases hne : contents = []
      · subst hne
        have hnil : c.outputBuffer_.readable = [] :=
          h.nil_of_uncovered hq (by rw [hfp]; simp [parts, kBufSize])
        rcases stopWriteInLoop_frame (c.dequeue fs).toWorld with ⟨channel, heq⟩
        have hstop := stopWriteInLoop_tidy htidy hnil
        rw [writeComplete_end (c := c.dequeue fs) hfp]
        rw [heq] at hstop ⊢
        split
        · have hclose := shutdown_tidy hstop .loop
          rcases shutdown_frame (w := { (c.dequeue fs).toWorld with channel_ := channel })
            hplain.dissByPeer with ⟨closeFlag, state, effects, heq'⟩
          rw [heq'] at hclose ⊢
          exact ⟨{ hplain with }, hclose, fun hne => absurd hnil hne⟩
        · exact ⟨{ hplain with }, hstop, fun hne => absurd hnil hne⟩
      · -- the part read here was the one this functor counted for
        have hold : c.outputBuffer_.readable ≠ [] →
            Covered fs (some (contents.drop kBufSize)) := by
          intro hout
          have hcov := h.covered hout
          rw [hq, hfp] at hcov
          exact (covered_cons_iff hne).1 hcov
        rw [writeComplete_part (c := c.dequeue fs) hfp hne, World.send]
        by_cases hst : c.state_ = .kConnected
        · have hst' : (c.dequeue fs).state_ = .kConnected := hst
          rw [if_pos hst']
          simp only [Allowed, AllowedNext, hq, hfp] at ha
          exact Inv.sendInLoop
            (c := { c.dequeue fs with fp := some (contents.drop kBufSize) }) hplain htidy hold
            (ha hst)
        · have hst' : ¬ (c.dequeue fs).state_ = .kConnected := hst
          rw [if_neg hst']
          exact ⟨hplain, htidy, hold⟩

/-- Queueing a call of the connection's own functions covers nothing and uncovers nothing. -/
theorem Inv.queued (h : Inv c) (closeFlag : Bool) (state : StateE) {f : Functor}
    (hf : (∃ message, f = .sendInLoop message) ∨ f = .shutdownInLoop) :
    Inv { c with
      closeFlag_ := closeFlag
      state_ := state
      pendingFunctors_ := c.pendingFunctors_ ++ [f] } := by
  refine ⟨⟨h.plain.highWater, h.plain.dissByPeer, ?_⟩, h.tidy, ?_⟩
  · intro g hg
    rcases List.mem_append.1 hg with hold | hnew
    · exact h.plain.queue g hold
    · rw [List.mem_singleton.1 hnew]
      rcases hf with hsend | hshut
      · exact Or.inl hsend
      · exact Or.inr (Or.inl hshut)
  · intro hne
    have hcount : [f].count .writeCompleteCallback = 0 := by
      rcases hf with ⟨message, rfl⟩ | rfl <;> rfl
    have hcov := h.covered hne
    unfold Covered at hcov ⊢
    rwa [List.count_append, hcount]

/-- The step lemma. -/
theorem Inv.perform (h : Inv c) {a : StaticAction} (ha : c.Allowed a) : Inv (c.perform a) := by
  cases a with
  | send message =>
      simp only [StaticConn.perform, World.send]
      split
      · exact h.queued c.closeFlag_ c.state_ (Or.inl ⟨message, rfl⟩)
      · exact h
  | shutdown =>
      simp only [StaticConn.perform, shutdown_other]
      split
      · exact h.queued true .kDisconnecting (Or.inr rfl)
      · exact h
  | setContextfp contents => exact ⟨h.plain, h.tidy, ha⟩
  | setConnectionFlag flag => exact ⟨h.plain, h.tidy, h.covered⟩
  | setWriteCompleteCallback on => exact ⟨{ h.plain with }, h.tidy, h.covered⟩
  | handleWrite r =>
      -- output that is still pending was pending before, and the queue has not changed
      have hflows := handleWrite_flows h.plain r
      refine ⟨h.plain.of_flows hflows, handleWrite_tidy h.tidy r, ?_⟩
      intro hne
      change Covered (c.toWorld.handleWrite r).pendingFunctors_ c.fp
      rw [hflows.queue_eq hne]
      exact h.covered (fun hnil => hne (handleWrite_nil hnil))
  | runFunctor r =>
      cases hq : c.pendingFunctors_ with
      | nil =>
          simp only [StaticConn.perform, hq]
          exact h
      | cons f fs =>
          simp only [StaticConn.perform, hq]
          have hplain : Plain (c.dequeue fs).toWorld := h.plain.dequeue hq
          -- only a `writeComplete` takes a part of the file with it
          have hold : f ≠ .writeCompleteCallback → c.outputBuffer_.readable ≠ [] →
              Covered fs c.fp := by
            intro hf hne
            have hcov := h.covered hne
            unfold Covered at hcov ⊢
            rwa [hq, List.count_cons_of_ne hf] at hcov
          rcases h.plain.queue f (by rw [hq]; exact List.mem_cons_self) with
            ⟨message, rfl⟩ | rfl | rfl
          · simp only [Allowed, AllowedNext, hq] at ha
            exact Inv.sendInLoop (c := c.dequeue fs) hplain h.tidy (hold (by simp)) ha
          · have htidy := shutdownInLoop_tidy (w := (c.dequeue fs).toWorld) h.tidy
            rcases shutdownInLoop_frame (w := (c.dequeue fs).toWorld) h.plain.dissByPeer with
              ⟨effects, heq⟩
            simp only [StaticConn.runFunctor, World.runFunctor]
            rw [heq] at htidy ⊢
            exact ⟨{ hplain with }, htidy, hold (by simp)⟩
          · exact h.writeComplete hq ha

theorem reachable_inv (h : (runs.restrict Allowed).Reachable c) : Inv c := by
  refine h.invariant ?_ ?_
  · rintro c rfl
    exact Inv.established
  · rintro c a c' hc ⟨ha, -, rfl⟩
    exact hc.perform ha

/-! ## An uncovered `writeComplete` stops writing -/

/-- Output is pending and the queue is not covered. -/
structure Doomed (c : StaticConn) : Prop where
  plain : Plain c.toWorld
  pending : c.outputBuffer_.readable ≠ []
  uncovered : ¬ Covered c.pendingFunctors_ c.fp

/-- The functors alone lead to a state in which pending output is not being written. -/
def Stalls (c : StaticConn) : Prop :=
  ∃ c', (runs.startAt c).Reachable c' ∧ ¬ c'.toWorld.Tidy

theorem Stalls.of_not_writing (hne : c.outputBuffer_.readable ≠ [])
    (hw : c.channel_.isWriting = false) : c.Stalls := by
  refine ⟨c, .init rfl, ?_⟩
  intro htidy
  have hwriting := htidy.1 hne
  rw [hw] at hwriting
  cases hwriting

theorem Stalls.of_step {a : StaticAction} (he : c.enabled a) (h : (c.perform a).Stalls) :
    c.Stalls := by
  rcases h with ⟨c', hreach, hstall⟩
  have hstep : (runs.startAt c).Reachable (c.perform a) := .step (.init rfl) (a := a) ⟨he, rfl⟩
  exact ⟨c', hstep.trans hreach, hstall⟩

theorem sendInLoop_pending {w : World} (hne : w.outputBuffer_.readable ≠ []) (message : Bytes)
    (r : WriteResult) :
    (w.sendInLoop message r).outputBuffer_.readable ≠ [] := by
  rcases sendInLoop_buffer w message r with ⟨hleaves, hsame⟩
  by_cases hl : Leaves w message r
  · exact hleaves hl
  · rwa [hsame hl]

/-- A message that stays behind in part puts no `writeComplete` into the queue. -/
theorem Doomed.of_sendInLoop (hplain : Plain c.toWorld) {message : Bytes} {r : WriteResult}
    (hout : (c.toWorld.sendInLoop message r).outputBuffer_.readable ≠ [])
    (huncovered : ¬ Covered c.pendingFunctors_ c.fp) :
    Doomed { c with toWorld := c.toWorld.sendInLoop message r } ∧
      (c.toWorld.sendInLoop message r).pendingFunctors_ = c.pendingFunctors_ := by
  have hflows := sendInLoop_flows hplain.highWater message r
  have hpending := hflows.queue_eq hout
  refine ⟨⟨hplain.of_flows hflows, hout, ?_⟩, hpending⟩
  change ¬ Covered (c.toWorld.sendInLoop message r).pendingFunctors_ c.fp
  rw [hpending]
  exact huncovered

theorem stopWriteInLoop_of_writing {w : World} (hw : w.channel_.isWriting = true) :
    w.stopWriteInLoop = { w with channel_ := w.channel_.disableWriting } :=
  if_pos hw

/-- `writeComplete` stops pending output, or reads the part that was missing for another. -/
theorem Doomed.writeComplete (h : Doomed c) (hw : c.channel_.isWriting = true)
    {fs : List Functor} (hq : c.pendingFunctors_ = .writeCompleteCallback :: fs) :
    ((c.dequeue fs).writeComplete (.room 0)).Stalls ∨
      Doomed ((c.dequeue fs).writeComplete (.room 0)) ∧
        ((c.dequeue fs).writeComplete (.room 0)).pendingFunctors_ = fs := by
  have hplain : Plain (c.dequeue fs).toWorld := h.plain.dequeue hq
  have hstop := stopWriteInLoop_of_writing (w := (c.dequeue fs).toWorld) hw
  cases hfp : c.fp with
  | none =>
      left
      rw [writeComplete_absent (c := c.dequeue fs) hfp, hstop]
      exact .of_not_writing h.pending rfl
  | some contents =>
      by_cases hne : contents = []
      · subst hne
        left
        rw [writeComplete_end (c := c.dequeue fs) hfp, hstop]
        split
        · rcases shutdown_frame (w := { (c.dequeue fs).toWorld with
            channel_ := (c.dequeue fs).channel_.disableWriting }) hplain.dissByPeer with
            ⟨closeFlag, state, effects, heq⟩
          rw [heq]
          exact .of_not_writing h.pending rfl
        · exact .of_not_writing h.pending rfl
      · right
        have huncovered : ¬ Covered fs (some (contents.drop kBufSize)) := by
          rw [← covered_cons_iff hne, ← hfp, ← hq]
          exact h.uncovered
        rw [writeComplete_part (c := c.dequeue fs) hfp hne, World.send]
        by_cases hst : (c.dequeue fs).state_ = .kConnected
        · rw [if_pos hst]
          have hout := sendInLoop_pending (w := (c.dequeue fs).toWorld) h.pending
            (contents.take kBufSize) (.room 0)
          exact Doomed.of_sendInLoop (c := { c.dequeue fs with
            fp := some (contents.drop kBufSize) }) hplain hout huncovered
        · rw [if_neg hst]
          exact ⟨⟨hplain, h.pending, huncovered⟩, rfl⟩

/-- The enabled actions among `allowed`, as a partial step function. -/
def next (allowed : StaticConn → StaticAction → Bool) (c : StaticConn) (a : StaticAction) :
    Option StaticConn :=
  if c.enabled a ∧ allowed c a = true then some (c.perform a) else none

end StaticConn
end Web
end Longky
