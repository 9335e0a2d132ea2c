import Longky.Lib.Reach
import Longky.Net.TcpConnection

/-!
# TcpOutput — what happens to the bytes handed to a connection

A run is any sequence of `sendInLoop` calls, write events and requests to start or stop writing or
to shut down, with any answers of `sockets::write`, on a connection that is not yet disconnected.
`Output` pairs the connection with the messages handed to it, cut at the first `sendInLoop` whose
direct write failed with `EPIPE` or `ECONNRESET`.

* Up to that call the bytes the kernel took, followed by `outputBuffer_`, are the concatenation of
  all messages.
* After it the kernel takes nothing more, and `outputBuffer_` holds whole messages of later calls.
-/

namespace Longky
namespace Net

open Lib

/-! ## Bytes and flags after each function -/

def Effect.bytes : Effect → Bytes
  | .wrote bytes => bytes
  | _ => []

@[simp] theorem Effect.bytes_wrote (bytes : Bytes) : (Effect.wrote bytes).bytes = bytes := rfl

namespace World

/-- The bytes the kernel has accepted so far. -/
def accepted (w : World) : Bytes :=
  w.effects.flatMap Effect.bytes

/-- `shutdownWrite` has only been called with nothing left to send. -/
def ShutDownClean (w : World) : Prop :=
  ∀ unsent, Effect.shutdownWrite unsent ∈ w.effects → unsent = []

/-- Pending output is being written. -/
def WritesPending (w : World) : Prop :=
  w.outputBuffer_.readable ≠ [] → w.channel_.isWriting = true

@[simp] theorem accepted_emit (w : World) (e : Effect) :
    (w.emit e).accepted = w.accepted ++ e.bytes := by
  simp [accepted, emit]

theorem writesDirectly_iff (w : World) :
    w.writesDirectly = true ↔ w.channel_.isWriting = false ∧ w.outputBuffer_.readable = [] := by
  simp [writesDirectly, WfBuffer.readableBytes_eq_zero]

/-- What the second half of `sendInLoop` does to the output side of a connection. -/
theorem appendRemaining_output (w : World) (data : Bytes) :
    (w.appendRemaining data).outputBuffer_.readable = w.outputBuffer_.readable ++ data ∧
      (w.appendRemaining data).effects = w.effects ∧
      (w.appendRemaining data).state_ = w.state_ ∧
      (w.appendRemaining data).channel_.isWriting =
        (w.channel_.isWriting || decide (data ≠ [])) := by
  cases data with
  | nil => simp [appendRemaining]
  | cons b bs =>
      unfold appendRemaining
      simp only [List.length_cons, Nat.zero_lt_succ, if_true]
      split <;> cases hw : w.channel_.isWriting <;> simp_all [queueInLoop]

theorem queueWriteComplete_output (w : World) :
    w.queueWriteComplete.outputBuffer_ = w.outputBuffer_ ∧
      w.queueWriteComplete.effects = w.effects ∧
      w.queueWriteComplete.channel_ = w.channel_ := by
  unfold queueWriteComplete
  split <;> simp [queueInLoop]

/-- Closing touches no byte. -/
theorem handleClose_output (w : World) :
    w.handleClose.outputBuffer_ = w.outputBuffer_ ∧ w.handleClose.accepted = w.accepted := by
  by_cases hopen : w.isOpen = true
  · cases hflag : w.closeFlag_ with
    | true =>
        rw [handleClose_of_closeFlag hopen hflag]
        simp [closeNow, push, accepted, emit, Effect.bytes]
    | false =>
        rw [handleClose_of_not_closeFlag hopen hflag]
        dsimp only
        split
        · split <;> simp [closeNow, shutdownWrite, push, accepted, emit, Effect.bytes]
        · simp [accepted]
  · rw [handleClose]
    simp [hopen, accepted, emit, Effect.bytes]

theorem shutdownInLoop_output (w : World) :
    w.shutdownInLoop.outputBuffer_ = w.outputBuffer_ ∧
      w.shutdownInLoop.accepted = w.accepted := by
  cases hw : w.channel_.isWriting with
  | true => simp [shutdownInLoop_of_writing hw]
  | false =>
      rw [shutdownInLoop_of_not_writing hw]
      split
      · rcases handleClose_output w.shutdownWrite with ⟨h₁, h₂⟩
        rw [h₁, h₂]
        simp [shutdownWrite, accepted, emit, Effect.bytes]
      · simp [shutdownWrite, accepted, emit, Effect.bytes]

theorem shutdown_output (w : World) (t : Thread) :
    (w.shutdown t).outputBuffer_ = w.outputBuffer_ ∧ (w.shutdown t).accepted = w.accepted := by
  cases t with
  | loop =>
      rw [shutdown_loop]
      split
      · exact shutdownInLoop_output _
      · exact ⟨rfl, rfl⟩
  | other =>
      rw [shutdown_other]
      split
      · simp [queueInLoop, accepted]
      · exact ⟨rfl, rfl⟩

/-! ## Pending output keeps the channel writing -/

/-- The two facts that need `stopWrite` to stay away. -/
def Tidy (w : World) : Prop :=
  w.WritesPending ∧ w.ShutDownClean

theorem closeNow_tidy {w : World} (h : w.outputBuffer_.readable = []) (hc : w.ShutDownClean) :
    w.closeNow.Tidy := by
  refine ⟨?_, ?_⟩
  · intro hne
    exact absurd h hne
  · intro unsent hmem
    apply hc
    simpa [closeNow, push, emit] using hmem

theorem shutdownWrite_clean {w : World} (h : w.outputBuffer_.readable = [])
    (hc : w.ShutDownClean) : w.shutdownWrite.ShutDownClean := by
  intro unsent hmem
  have hmem' : Effect.shutdownWrite unsent ∈ w.effects ∨ unsent = w.outputBuffer_.readable := by
    simpa [shutdownWrite, emit] using hmem
  rcases hmem' with hold | hnew
  · exact hc unsent hold
  · rw [hnew, h]

/-- `handleClose` on a connection with nothing left to send. -/
theorem handleClose_tidy {w : World} (h : w.outputBuffer_.readable = [])
    (hc : w.ShutDownClean) : w.handleClose.Tidy := by
  by_cases hopen : w.isOpen = true
  · cases hflag : w.closeFlag_ with
    | true =>
        rw [handleClose_of_closeFlag hopen hflag]
        exact closeNow_tidy h hc
    | false =>
        rw [handleClose_of_not_closeFlag hopen hflag]
        dsimp only
        split
        · split
          · exact ⟨fun hne => absurd h hne, hc⟩
          · exact closeNow_tidy h (shutdownWrite_clean h hc)
        · exact ⟨fun hne => absurd h hne, hc⟩
  · rw [handleClose]
    simp only [hopen]
    refine ⟨fun hne => absurd h hne, ?_⟩
    intro unsent hmem
    apply hc
    simpa [emit] using hmem

theorem shutdownInLoop_tidy {w : World} (h : w.Tidy) : w.shutdownInLoop.Tidy := by
  cases hw : w.channel_.isWriting with
  | true =>
      rw [shutdownInLoop_of_writing hw]
      exact h
  | false =>
      -- not writing, so nothing is pending and the socket is shut down clean
      have hempty : w.outputBuffer_.readable = [] := by
        by_contra hne
        exact absurd (h.1 hne) (by simp [hw])
      have hclean := shutdownWrite_clean hempty h.2
      rw [shutdownInLoop_of_not_writing hw]
      split
      · exact handleClose_tidy hempty hclean
      · exact ⟨fun hne => absurd hempty hne, hclean⟩

theorem outputDrained_output (w : World) :
    w.outputDrained.outputBuffer_ = w.outputBuffer_ ∧ w.outputDrained.accepted = w.accepted := by
  rcases queueWriteComplete_output { w with channel_ := w.channel_.disableWriting } with ⟨hq, he, -⟩
  unfold outputDrained
  dsimp only
  split
  · obtain ⟨hs, ha⟩ := shutdownInLoop_output
      ({ w with channel_ := w.channel_.disableWriting }.queueWriteComplete)
    rw [hs, ha]
    exact ⟨hq, by simp [accepted, he]⟩
  · exact ⟨hq, by simp [accepted, he]⟩

/-- What a write event does to the output side: the kernel takes a prefix of the pending bytes. -/
theorem handleWrite_output (w : World) (r : WriteResult) :
    ∃ n, (w.handleWrite r).accepted = w.accepted ++ w.outputBuffer_.readable.take n ∧
      (w.handleWrite r).outputBuffer_.readable = w.outputBuffer_.readable.drop n ∧
      ((∃ e, r = .fail e) ∨ w.channel_.isWriting = false → n = 0) := by
  unfold handleWrite
  split
  · rename_i hw
    cases r with
    | fail e => exact ⟨0, by simp⟩
    | room k =>
        dsimp only
        split
        · refine ⟨min k w.outputBuffer_.readableBytes, ?_⟩
          split
          · obtain ⟨hs, ha⟩ := outputDrained_output
              (w.retrieveWritten (min k w.outputBuffer_.readableBytes) (Nat.min_le_right _ _))
            rw [hs, ha]
            simp [retrieveWritten, accepted, emit, Effect.bytes, hw]
          · simp [retrieveWritten, accepted, emit, Effect.bytes, hw]
        · exact ⟨0, by simp⟩
  · exact ⟨0, by simp⟩

theorem outputDrained_tidy {w : World} (h : w.outputBuffer_.readable = [])
    (hc : w.ShutDownClean) : w.outputDrained.Tidy := by
  rcases queueWriteComplete_output { w with channel_ := w.channel_.disableWriting } with ⟨hq, he, -⟩
  have htidy : ({ w with channel_ := w.channel_.disableWriting }.queueWriteComplete).Tidy := by
    refine ⟨?_, ?_⟩
    · intro hne
      rw [hq] at hne
      exact absurd h hne
    · intro unsent hmem
      rw [he] at hmem
      exact hc unsent hmem
  unfold outputDrained
  dsimp only
  split
  · exact shutdownInLoop_tidy htidy
  · exact htidy

theorem handleWrite_tidy {w : World} (h : w.Tidy) (r : WriteResult) : (w.handleWrite r).Tidy := by
  unfold handleWrite
  split
  · rename_i hw
    cases r with
    | fail e => exact h
    | room k =>
        dsimp only
        split
        · have hclean : (w.retrieveWritten (min k w.outputBuffer_.readableBytes)
              (Nat.min_le_right _ _)).ShutDownClean := by
            intro unsent hmem
            apply h.2
            simpa [retrieveWritten, emit] using hmem
          split
          · rename_i hempty
            exact outputDrained_tidy (WfBuffer.readableBytes_eq_zero.1 hempty) hclean
          · exact ⟨fun _ => hw, hclean⟩
        · exact h
  · exact h

theorem appendRemaining_tidy {w : World} (h : w.Tidy) (data : Bytes) :
    (w.appendRemaining data).Tidy := by
  rcases appendRemaining_output w data with ⟨hread, heff, -, hwr⟩
  refine ⟨?_, ?_⟩
  · intro hne
    rw [hread] at hne
    rw [hwr]
    -- an empty rest leaves the channel as it was; any other turns writing on
    by_cases hdata : data = []
    · subst hdata
      simpa using h.1 (by simpa using hne)
    · simp [hdata]
  · intro unsent hmem
    rw [heff] at hmem
    exact h.2 unsent hmem

theorem emit_tidy {w : World} (h : w.Tidy) {e : Effect} (hne : ∀ u, e ≠ .shutdownWrite u) :
    (w.emit e).Tidy := by
  refine ⟨h.1, ?_⟩
  intro unsent hmem
  have hmem' : Effect.shutdownWrite unsent ∈ w.effects ∨ Effect.shutdownWrite unsent = e := by
    simpa [emit] using hmem
  rcases hmem' with hold | hnew
  · exact h.2 unsent hold
  · exact absurd hnew.symm (hne unsent)

theorem sendInLoop_tidy {w : World} (h : w.Tidy) (data : Bytes) (r : WriteResult) :
    (w.sendInLoop data r).Tidy := by
  unfold sendInLoop
  split
  · exact h
  · split
    · cases r with
      | room n =>
          dsimp only
          split
          · rcases queueWriteComplete_output (w.emit (.wrote (data.take n))) with ⟨hq, he, hc⟩
            have ht : (w.emit (.wrote (data.take n))).Tidy := emit_tidy h (by simp)
            refine ⟨?_, ?_⟩
            · intro hne
              rw [hc]
              exact ht.1 (by rwa [hq] at hne)
            · intro unsent hmem
              rw [he] at hmem
              exact ht.2 unsent hmem
          · exact appendRemaining_tidy (emit_tidy h (by simp)) _
      | fail e =>
          dsimp only
          split
          · exact emit_tidy h (by simp)
          · exact appendRemaining_tidy h data
    · exact appendRemaining_tidy h data

theorem startWriteInLoop_output (w : World) :
    w.startWriteInLoop.outputBuffer_ = w.outputBuffer_ ∧
      w.startWriteInLoop.effects = w.effects := by
  unfold startWriteInLoop
  split <;> exact ⟨rfl, rfl⟩

theorem stopWriteInLoop_output (w : World) :
    w.stopWriteInLoop.outputBuffer_ = w.outputBuffer_ ∧
      w.stopWriteInLoop.effects = w.effects := by
  unfold stopWriteInLoop
  split <;> exact ⟨rfl, rfl⟩

theorem startWriteInLoop_tidy {w : World} (h : w.Tidy) : w.startWriteInLoop.Tidy := by
  unfold startWriteInLoop
  split
  · exact ⟨fun _ => rfl, h.2⟩
  · exact h

theorem shutdown_tidy {w : World} (h : w.Tidy) (t : Thread) : (w.shutdown t).Tidy := by
  cases t with
  | loop =>
      rw [shutdown_loop]
      split
      · exact shutdownInLoop_tidy h
      · exact h
  | other =>
      rw [shutdown_other]
      split
      · exact h
      · exact h

/-- The direct write of `sendInLoop` fails with `EPIPE` or `ECONNRESET`. -/
def directFault (w : World) (r : WriteResult) : Bool :=
  w.writesDirectly && match r with
    | .fail e => e.isFault
    | .room _ => false

theorem appendRemaining_stream (w : World) (data : Bytes) :
    (w.appendRemaining data).accepted ++ (w.appendRemaining data).outputBuffer_.readable =
      w.accepted ++ w.outputBuffer_.readable ++ data := by
  rcases appendRemaining_output w data with ⟨hread, heff, -⟩
  simp [accepted, hread, heff]

/-- Without such a failure `sendInLoop` keeps every byte of the message, in its place. -/
theorem sendInLoop_output {w : World} (hst : w.state_ ≠ .kDisconnected) (data : Bytes)
    {r : WriteResult} (hf : w.directFault r = false) :
    (w.sendInLoop data r).accepted ++ (w.sendInLoop data r).outputBuffer_.readable =
      w.accepted ++ w.outputBuffer_.readable ++ data := by
  unfold sendInLoop
  rw [if_neg hst]
  split
  · rename_i hd
    -- a direct write bypasses the buffer only when the buffer is empty: the order is kept
    have hempty := ((writesDirectly_iff w).1 hd).2
    cases r with
    | room n =>
        dsimp only
        split
        · rename_i hrest
          rcases queueWriteComplete_output (w.emit (.wrote (data.take n))) with ⟨hq, he, -⟩
          -- `remaining == 0`
          have hall : data.take n = data := by
            have := List.take_append_drop n data
            rwa [List.eq_nil_of_length_eq_zero hrest, List.append_nil] at this
          have hacc : (w.emit (.wrote (data.take n))).queueWriteComplete.accepted =
              w.accepted ++ data := by
            rw [accepted, he]
            simp [emit, accepted, hall]
          rw [hacc, hq]
          simp [emit, hempty]
        · rw [appendRemaining_stream]
          simp [emit, accepted, hempty]
    | fail e =>
        have hnofault : e.isFault = false := by simpa [directFault, hd] using hf
        simp only [hnofault, Bool.false_eq_true, if_false]
        exact appendRemaining_stream w data
  · exact appendRemaining_stream w data

/-- A failed or absent write takes no byte; the message is then kept whole or not at all. -/
theorem sendInLoop_output_of_fail {w : World} (data : Bytes) {r : WriteResult}
    (hfail : w.writesDirectly = true → ∃ e, r = .fail e) :
    (w.sendInLoop data r).accepted = w.accepted ∧
      ((w.sendInLoop data r).outputBuffer_.readable = w.outputBuffer_.readable ∨
        (w.sendInLoop data r).outputBuffer_.readable = w.outputBuffer_.readable ++ data) := by
  rcases appendRemaining_output w data with ⟨hread, heff, -⟩
  unfold sendInLoop
  split
  · exact ⟨rfl, Or.inl rfl⟩
  · split
    · rename_i hd
      rcases hfail hd with ⟨e, rfl⟩
      dsimp only
      split
      · exact ⟨by simp [Effect.bytes], Or.inl rfl⟩
      · exact ⟨by rw [accepted, heff, accepted], Or.inr hread⟩
    · exact ⟨by rw [accepted, heff, accepted], Or.inr hread⟩

theorem sendInLoop_of_directFault {w : World} (hst : w.state_ ≠ .kDisconnected) (data : Bytes)
    {r : WriteResult} (hf : w.directFault r = true) :
    w.sendInLoop data r = w.emit .faultError := by
  obtain ⟨hd, hr⟩ : w.writesDirectly = true ∧ _ := by simpa [directFault] using hf
  cases r with
  | room n => simp at hr
  | fail e => simp_all [sendInLoop]

end World

/-! ## Runs -/

/-- The operations of a run, with the kernel's answer where one may write.  Requests made by other
threads arrive as their in-loop parts. -/
inductive OutputOp where
  | sendInLoop (message : Bytes) (r : WriteResult)
  | handleWrite (r : WriteResult)
  | startWriteInLoop
  | stopWriteInLoop
  | shutdown (t : Thread)
  | shutdownInLoop

namespace OutputOp

def apply (w : World) : OutputOp → World
  | sendInLoop message r => w.sendInLoop message r
  | handleWrite r => w.handleWrite r
  | startWriteInLoop => w.startWriteInLoop
  | stopWriteInLoop => w.stopWriteInLoop
  | shutdown t => w.shutdown t
  | shutdownInLoop => w.shutdownInLoop

/-- The kernel's answer, when the operation calls `sockets::write`. -/
def answer (w : World) : OutputOp → Option WriteResult
  | sendInLoop _ r => if w.writesDirectly then some r else none
  | handleWrite r => if w.channel_.isWriting then some r else none
  | _ => none

end OutputOp

/-- A connection with the messages handed to it so far. -/
structure Output where
  conn : World
  /-- The messages before the first faulting direct write, concatenated. -/
  before : Bytes := []
  /-- Some direct write of `sendInLoop` has failed with `EPIPE` or `ECONNRESET`. -/
  faulted : Bool := false
  /-- The messages after that write. -/
  after : List Bytes := []
  /-- Some write, direct or not, has failed with `EPIPE` or `ECONNRESET`. -/
  broken : Bool := false

namespace Output

def record (o : Output) (message : Bytes) (fault : Bool) : Output :=
  if o.faulted then { o with after := o.after ++ [message] }
  else if fault then { o with faulted := true }
  else { o with before := o.before ++ message }

def next (o : Output) (op : OutputOp) : Output :=
  let o₁ := match op with
    | .sendInLoop message r => o.record message (o.conn.directFault r)
    | _ => o
  { o₁ with
    conn := op.apply o.conn
    broken := o.broken || match op.answer o.conn with
      | some (.fail e) => e.isFault
      | _ => false }

/-- Once a write has failed with `EPIPE` or `ECONNRESET`, every later write fails. -/
def KernelConsistent (o : Output) (op : OutputOp) : Prop :=
  o.broken = true → ∀ r, op.answer o.conn = some r → ∃ e, r = .fail e

/-- Every run starts with nothing sent and nothing pending. -/
def system : System Output OutputOp where
  init o := ∃ w : World, w.outputBuffer_.readable = [] ∧ w.effects = [] ∧ o = { conn := w }
  step o op o' := o.conn.state_ ≠ .kDisconnected ∧ o.KernelConsistent op ∧ o' = o.next op

/-- The bytes the kernel took, followed by those still in `outputBuffer_`. -/
def stream (o : Output) : Bytes :=
  o.conn.accepted ++ o.conn.outputBuffer_.readable

/-- What the run has done with the messages. -/
def Delivered (o : Output) : Prop :=
  (o.faulted = false → o.stream = o.before) ∧
    (o.faulted = true →
      o.conn.accepted = o.before ∧
        ∃ kept : List Bytes, kept.Sublist o.after ∧ o.conn.outputBuffer_.readable = kept.flatten)

def Inv (o : Output) : Prop :=
  o.Delivered ∧ (o.faulted = true → o.broken = true)

/-- Operations that move no message: the stream is unchanged and nothing is taken when it must not
be. -/
theorem Delivered.of_quiet {o o' : Output} (h : o.Delivered)
    (hb : o'.before = o.before) (hf : o'.faulted = o.faulted) (ha : o'.after = o.after)
    (hs : o'.stream = o.stream)
    (hq : o.faulted = true → o'.conn.accepted = o.conn.accepted ∧
      o'.conn.outputBuffer_.readable = o.conn.outputBuffer_.readable) : o'.Delivered := by
  refine ⟨?_, ?_⟩
  · intro hnf
    rw [hs, hb]
    exact h.1 (hf ▸ hnf)
  · intro hft
    have hof : o.faulted = true := hf ▸ hft
    rcases hq hof with ⟨hacc, hread⟩
    rw [hacc, hread, hb, ha]
    exact h.2 hof

theorem sendInLoop_delivered {o : Output} {message : Bytes} {r : WriteResult} (h : o.Inv)
    (hst : o.conn.state_ ≠ .kDisconnected)
    (hk : o.KernelConsistent (.sendInLoop message r)) :
    (o.next (.sendInLoop message r)).Delivered := by
  rcases h with ⟨⟨hclean, hfault⟩, hbroken⟩
  cases hft : o.faulted with
  | true =>
      -- the kernel refuses every later write, so no byte can overtake the lost message
      have hfail : o.conn.writesDirectly = true → ∃ e, r = .fail e := by
        intro hd
        exact hk (hbroken hft) r (by simp [OutputOp.answer, hd])
      rcases World.sendInLoop_output_of_fail message hfail with ⟨hacc, hread⟩
      rcases hfault hft with ⟨hbefore, kept, hsub, hkept⟩
      refine ⟨by simp [next, record, hft], fun _ => ?_⟩
      simp only [next, record, hft, if_true, OutputOp.apply]
      refine ⟨by rw [hacc, hbefore], ?_⟩
      rcases hread with hsame | hmore
      · exact ⟨kept, hsub.trans (List.sublist_append_left _ _), by rw [hsame, hkept]⟩
      · exact ⟨kept ++ [message], hsub.append (List.Sublist.refl _), by simp [hmore, hkept]⟩
  | false =>
      cases hd : o.conn.directFault r with
      | true =>
          -- this is the faulting write; it was tried because nothing was pending
          have hempty : o.conn.outputBuffer_.readable = [] := by
            have hw : o.conn.writesDirectly = true := by
              simp only [World.directFault, Bool.and_eq_true] at hd
              exact hd.1
            exact ((World.writesDirectly_iff _).1 hw).2
          have hbefore : o.conn.accepted = o.before := by
            simpa [stream, hempty] using hclean hft
          refine ⟨by simp [next, record, hft, hd], fun _ => ?_⟩
          simp only [next, record, hft, hd, if_true, Bool.false_eq_true, if_false, OutputOp.apply,
            World.sendInLoop_of_directFault hst message hd]
          exact ⟨by simp [Effect.bytes, hbefore], [], List.nil_sublist _,
            by simpa [World.emit] using hempty⟩
      | false =>
          refine ⟨fun _ => ?_, by simp [next, record, hft, hd]⟩
          simp only [next, record, hft, hd, Bool.false_eq_true, if_false, OutputOp.apply, stream]
          calc
            (o.conn.sendInLoop message r).accepted ++
                (o.conn.sendInLoop message r).outputBuffer_.readable
                = o.conn.accepted ++ o.conn.outputBuffer_.readable ++ message :=
              World.sendInLoop_output hst message hd
            _ = o.before ++ message := by rw [← hclean hft, stream]

theorem handleWrite_delivered {o : Output} {r : WriteResult} (h : o.Inv)
    (hk : o.KernelConsistent (.handleWrite r)) : (o.next (.handleWrite r)).Delivered := by
  rcases World.handleWrite_output o.conn r with ⟨n, hacc, hread, hzero⟩
  refine h.1.of_quiet rfl rfl rfl ?_ ?_
  · simp only [next, OutputOp.apply, stream, hacc, hread, List.append_assoc, List.take_append_drop]
  · intro hft
    -- after the fault a write event either fails or never reaches the kernel
    have hn : n = 0 := by
      apply hzero
      cases hw : o.conn.channel_.isWriting with
      | false => exact Or.inr rfl
      | true => exact Or.inl (hk (h.2 hft) r (by simp [OutputOp.answer, hw]))
    subst hn
    simpa [next, OutputOp.apply] using And.intro hacc hread

/-- The step lemma: an operation keeps the account of the messages. -/
theorem next_inv {o : Output} {op : OutputOp} (h : o.Inv)
    (hst : o.conn.state_ ≠ .kDisconnected) (hk : o.KernelConsistent op) : (o.next op).Inv := by
  refine ⟨?_, ?_⟩
  · have hquiet : ∀ v : World, v.outputBuffer_ = o.conn.outputBuffer_ →
        v.accepted = o.conn.accepted → ∀ b, ({ o with conn := v, broken := b }).Delivered := by
      intro v hbuf hacc b
      exact h.1.of_quiet rfl rfl rfl (by simp [stream, hbuf, hacc])
        (fun _ => ⟨hacc, by simp [hbuf]⟩)
    cases op with
    | sendInLoop message r => exact sendInLoop_delivered h hst hk
    | handleWrite r => exact handleWrite_delivered h hk
    | startWriteInLoop =>
        rcases World.startWriteInLoop_output o.conn with ⟨hbuf, heff⟩
        exact hquiet _ hbuf (by simp [World.accepted, heff]) _
    | stopWriteInLoop =>
        rcases World.stopWriteInLoop_output o.conn with ⟨hbuf, heff⟩
        exact hquiet _ hbuf (by simp [World.accepted, heff]) _
    | shutdown t =>
        rcases World.shutdown_output o.conn t with ⟨hbuf, hacc⟩
        exact hquiet _ hbuf hacc _
    | shutdownInLoop =>
        rcases World.shutdownInLoop_output o.conn with ⟨hbuf, hacc⟩
        exact hquiet _ hbuf hacc _
  · cases op with
    -- a direct fault is one of the failed writes that `broken` records
    | sendInLoop message r =>
        intro hf
        cases hold : o.faulted with
        | true => simp [next, h.2 hold]
        | false =>
            have hd : o.conn.directFault r = true := by
              by_contra hno
              simp [next, record, hold, hno] at hf
            cases r with
            | room n => simp [World.directFault] at hd
            | fail e =>
                simp only [World.directFault, Bool.and_eq_true] at hd
                simp [next, OutputOp.answer, hd]
    | _ =>
        intro hf
        simp only [next, Bool.or_eq_true]
        exact Or.inl (h.2 hf)

theorem reachable_delivered {o : Output} (h : system.Reachable o) : o.Delivered := by
  have hinv : o.Inv := by
    refine h.invariant ?_ ?_
    · rintro s ⟨w, hread, heff, rfl⟩
      refine ⟨⟨?_, by simp⟩, by simp⟩
      intro _
      simp [stream, World.accepted, hread, heff]
    · rintro s op s' hs ⟨hst, hk, rfl⟩
      exact next_inv hs hst hk
  exact hinv.1

/-- Runs in which nobody calls `stopWrite`. -/
def neverStopped (_ : Output) (op : OutputOp) : Prop := op ≠ .stopWriteInLoop

theorem next_tidy {o : Output} {op : OutputOp} (h : o.conn.Tidy) (hop : op ≠ .stopWriteInLoop) :
    (o.next op).conn.Tidy := by
  show (op.apply o.conn).Tidy
  cases op with
  | sendInLoop message r => exact World.sendInLoop_tidy h message r
  | handleWrite r => exact World.handleWrite_tidy h r
  | startWriteInLoop => exact World.startWriteInLoop_tidy h
  | stopWriteInLoop => exact absurd rfl hop
  | shutdown t => exact World.shutdown_tidy h t
  | shutdownInLoop => exact World.shutdownInLoop_tidy h

theorem reachable_tidy {o : Output} (h : (system.restrict neverStopped).Reachable o) :
    o.conn.Tidy := by
  refine h.invariant (P := fun o => o.conn.Tidy) ?_ ?_
  · rintro s ⟨w, hread, heff, rfl⟩
    exact ⟨fun hne => absurd hread hne, by simp [World.ShutDownClean, heff]⟩
  · rintro s op s' hs ⟨hop, -, -, rfl⟩
    exact next_tidy hs hop

/-- Output integrity.  Before a direct write has faulted the stream is the concatenation of all
messages; afterwards the kernel has exactly the messages before the fault, and `outputBuffer_`
holds whole later messages in order.  Without `stopWrite`, pending output keeps the channel writing
and the socket is shut down only when nothing is pending. -/
theorem output_integrity {o : Output} (h : system.Reachable o) :
    o.Delivered ∧
      ((system.restrict neverStopped).Reachable o →
        o.conn.WritesPending ∧ o.conn.ShutDownClean) :=
  ⟨reachable_delivered h, reachable_tidy⟩

/-- A short direct write, then a write event that takes one more byte. -/
def shortWrites : Output :=
  (Output.next { conn := { state_ := .kConnected } } (.sendInLoop [1, 2, 3] (.room 1))).next
    (.handleWrite (.room 1))

theorem shortWrites_reachable : (system.restrict neverStopped).Reachable shortWrites := by
  refine .step (.step (.init ⟨{ state_ := .kConnected }, by decide +kernel, rfl, rfl⟩)
    ⟨?_, ?_, ?_, rfl⟩) ⟨?_, ?_, ?_, rfl⟩
  · simp [neverStopped]
  · decide
  · simp [KernelConsistent]
  · simp [neverStopped]
  · decide +kernel
  · intro hb
    exact absurd hb (by decide +kernel)

theorem output_integrity_shortWrites :
    (shortWrites.Delivered ∧ shortWrites.conn.WritesPending ∧ shortWrites.conn.ShutDownClean) ∧
      shortWrites.conn.accepted = [1, 2] ∧ shortWrites.conn.outputBuffer_.readable = [3] := by
  rcases output_integrity shortWrites_reachable.of_restrict with ⟨hd, ht⟩
  exact ⟨⟨hd, ht shortWrites_reachable⟩, by decide +kernel, by decide +kernel⟩

/-- After a faulting direct write and `startWrite`, a later message stays in `outputBuffer_`. -/
theorem stream_exceeds_messages_before_fault :
    ¬ ∀ o, system.Reachable o → o.stream = o.before := by
  intro hall
  let o₀ : Output := { conn := { state_ := .kConnected } }
  let o₁ := o₀.next (.sendInLoop [1] (.fail .EPIPE))
  let o₂ := o₁.next .startWriteInLoop
  let o₃ := o₂.next (.sendInLoop [2] (.fail .EPIPE))
  have h₀ : system.Reachable o₀ := .init ⟨_, by decide +kernel, rfl, rfl⟩
  have h₁ : system.Reachable o₁ := .step h₀ ⟨by decide, by simp [KernelConsistent, o₀], rfl⟩
  have h₂ : system.Reachable o₂ :=
    .step h₁ ⟨by decide +kernel, by simp [KernelConsistent, OutputOp.answer], rfl⟩
  have h₃ : system.Reachable o₃ := by
    refine .step h₂ ⟨by decide +kernel, ?_, rfl⟩
    intro _ r hr
    simp only [OutputOp.answer, Option.ite_none_right_eq_some, Option.some.injEq] at hr
    exact ⟨.EPIPE, hr.2.symm⟩
  have hstream : o₃.stream = [2] := by decide +kernel
  have hbefore : o₃.before = [] := by decide +kernel
  have hsame := hall o₃ h₃
  rw [hstream, hbefore] at hsame
  exact absurd hsame (by simp)

end Output

end Net
end Longky
