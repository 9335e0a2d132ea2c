import Longky.Net.TcpBytes

/-!
# TcpStream — two connections and the bytes between them

Two `TcpConnection` objects are the two ends of one connection of the kernel.  Each end runs its
loop thread and its user code as in `TcpRuns`, in any interleaving with the other; the bytes that
the kernel took from an end and has not yet handed to the other are its `wire`.

What the kernel may answer is `kernelAllows`: a read returns bytes from the front of the other
end's wire, and 0 only when the wire is empty and the other end has shut down; a write fails once
the end has shut down, once an earlier write has failed with `EPIPE` or `ECONNRESET`, and once the
connection has been reset.
-/

namespace Longky
namespace Net

open Lib

/-! ## The messages handed to one end -/

namespace Output

/-- An action of the connection, with the account of the messages. -/
def advance (o : Output) (a : Action) : Output :=
  match o.conn.outputPart a with
  | some (w, op) => { o with conn := w }.next op
  | none => { o with conn := o.conn.perform a }

theorem conn_advance (o : Output) (a : Action) : (o.advance a).conn = o.conn.perform a := by
  unfold advance
  cases hout : o.conn.outputPart a with
  | none => rfl
  | some part =>
      rcases part with ⟨w, op⟩
      exact (World.outputPart_spec hout).2.2.2.2.1

/-- The account depends on the output side alone. -/
theorem Inv.of_conn {o : Output} (h : o.Inv) {w : World}
    (hbuf : w.outputBuffer_ = o.conn.outputBuffer_) (hacc : w.accepted = o.conn.accepted) :
    ({ o with conn := w }).Inv :=
  ⟨h.1.of_quiet rfl rfl rfl (by simp [stream, hbuf, hacc]) (fun _ => ⟨hacc, by simp [hbuf]⟩), h.2⟩

theorem advance_inv {o : Output} {a : Action} (h : o.Inv)
    (hk : o.broken = true → ∀ r, o.conn.answer a = some r → ∃ e, r = .fail e) :
    (o.advance a).Inv := by
  unfold advance
  cases hout : o.conn.outputPart a with
  | none =>
      rcases World.perform_output hout with ⟨hbuf, hacc⟩
      exact h.of_conn hbuf hacc
  | some part =>
      rcases part with ⟨w, op⟩
      rcases World.outputPart_spec hout with ⟨hstill, -, -, -, -, hop⟩
      have hpre : ({ o with conn := w }).Inv := h.of_conn hstill.output hstill.accepted
      have hconsistent : ({ o with conn := w }).KernelConsistent op := by
        intro hb r hr
        exact hk hb r (by simpa [World.answer, hout] using hr)
      rcases hop with ⟨message, r, rfl, hst⟩ | ⟨r, rfl⟩
      · exact next_inv hpre hst hconsistent
      · refine ⟨handleWrite_delivered hpre hconsistent, ?_⟩
        intro hf
        have hb : o.broken = true := h.2 hf
        simp [next, hb]

end Output

/-- One end: its connection with the messages handed to it, and what is on its way from it. -/
structure Endpoint where
  out : Output
  /-- What user code has retrieved from `inputBuffer_`. -/
  taken : Bytes := []
  /-- Bytes that the kernel has taken from this end and not yet handed to the other. -/
  wire : Bytes := []
  /-- `read` has returned 0 at this end. -/
  eof : Bool := false
  /-- The messages handed over before the live connection first shut its socket down, up to the
  first direct write that failed with `EPIPE` or `ECONNRESET` if there was one. -/
  shutAfter : Option Bytes := none

namespace Endpoint

/-- Every byte that `read` has returned: what the user took and what is still buffered. -/
def received (e : Endpoint) : Bytes :=
  e.taken ++ e.out.conn.inputBuffer_.readable

def advance (e : Endpoint) (a : Action) : Endpoint :=
  let o := e.out.advance a
  { e with
    out := o
    wire := e.wire ++ o.conn.accepted.drop e.out.conn.accepted.length
    eof := e.eof || e.out.conn.reads a == some (.ok [])
    shutAfter :=
      if e.out.conn.fin then e.shutAfter
      else if o.conn.shut && e.out.conn.state_ != .kDisconnected then some o.before
      else none }

/-- `inputBuffer_.retrieve(n)` in user code. -/
def retrieve (e : Endpoint) (n : Nat) : Endpoint :=
  if h : n ≤ e.out.conn.inputBuffer_.readableBytes then
    { e with
      out := { e.out with
        conn := { e.out.conn with inputBuffer_ := e.out.conn.inputBuffer_.retrieve n h } }
      taken := e.taken ++ e.out.conn.inputBuffer_.readable.take n }
  else e

/-- The other end has read `n` bytes. -/
def handOver (e : Endpoint) (n : Nat) : Endpoint :=
  { e with wire := e.wire.drop n }

theorem received_advance (e : Endpoint) (a : Action) :
    (e.advance a).received = e.received ++ e.out.conn.fed a := by
  simp only [received, advance, Output.conn_advance, World.perform_input, List.append_assoc]

theorem received_retrieve (e : Endpoint) (n : Nat) : (e.retrieve n).received = e.received := by
  unfold retrieve
  split
  · simp [received]
  · rfl

end Endpoint

/-! ## The kernel and the two ends -/

inductive Side where
  | client
  | server
  deriving DecidableEq, Repr

def Side.peer : Side → Side
  | client => server
  | server => client

theorem Side.peer_ne (s : Side) : s.peer ≠ s := by
  cases s <;> simp [peer]

/-- The answers that the kernel may give the end `e` for an action, when `d` is the other end. -/
def kernelAllows (e d : Endpoint) (reset : Bool) (a : Action) : Bool :=
  (match e.out.conn.reads a with
    | some (.ok data) =>
        -- the end of file comes after every byte
        !reset && data.isPrefixOf d.wire && (data != [] || d.wire == [] && d.out.conn.fin)
    | _ => true) &&
  match e.out.conn.answer a with
    | some (.room _) => !(e.out.broken || e.out.conn.fin || reset)
    | _ => true

theorem answer_fails {e d : Endpoint} {reset : Bool} {a : Action}
    (h : kernelAllows e d reset a = true) (hclosed : e.out.broken = true ∨ e.out.conn.fin = true) :
    ∀ r, e.out.conn.answer a = some r → ∃ err, r = .fail err := by
  intro r hr
  rw [kernelAllows, hr, Bool.and_eq_true] at h
  cases r with
  | fail err => exact ⟨err, rfl⟩
  | room n => rcases hclosed with hb | hf <;> simp_all

/-- What `read` may return: bytes from the front of the wire, and none of them at its end. -/
theorem fed_prefix {e d : Endpoint} {reset : Bool} {a : Action}
    (h : kernelAllows e d reset a = true) : e.out.conn.fed a <+: d.wire := by
  unfold World.fed
  split
  · rename_i data hread
    rw [kernelAllows, hread, Bool.and_eq_true] at h
    have hguard := h.1
    simp only [Bool.and_eq_true] at hguard
    exact List.isPrefixOf_iff_prefix.1 hguard.1.2
  · exact List.nil_prefix

theorem eof_guard {e d : Endpoint} {reset : Bool} {a : Action}
    (h : kernelAllows e d reset a = true) (heof : e.out.conn.reads a = some (.ok [])) :
    d.wire = [] ∧ d.out.conn.fin = true := by
  rw [kernelAllows, heof, Bool.and_eq_true] at h
  have hguard := h.1
  simp only [Bool.and_eq_true, bne_self_eq_false, Bool.false_or, beq_iff_eq] at hguard
  exact hguard.2

/-- One direction: `e` sends and `d` receives. -/
structure Flow (e d : Endpoint) : Prop where
  account : e.out.Inv
  conserved : d.received ++ e.wire = e.out.conn.accepted
  ended : d.eof = true → e.wire = [] ∧ e.out.conn.fin = true

namespace Flow

variable {e d : Endpoint} {reset : Bool} {a : Action}

/-- The sending end acts. -/
theorem send (h : Flow e d) (ha : kernelAllows e d reset a = true) : Flow (e.advance a) d where
  account := Output.advance_inv h.account fun hb => answer_fails ha (Or.inl hb)
  conserved := by
    have hconn := Output.conn_advance e.out a
    rcases World.accepted_of_prefix (World.perform_kept (w := e.out.conn) a) with ⟨new, hnew⟩
    calc
      d.received ++ (e.advance a).wire
          = d.received ++ e.wire ++ (e.out.conn.perform a).accepted.drop
              e.out.conn.accepted.length := by
            simp only [Endpoint.advance, hconn, List.append_assoc]
      _ = e.out.conn.accepted ++ new := by rw [h.conserved, ← hnew, List.drop_left]
      _ = (e.advance a).out.conn.accepted := by simp only [Endpoint.advance, hconn, hnew]
  ended := by
    intro heof
    rcases h.ended heof with ⟨hwire, hfin⟩
    have hacc : (e.out.advance a).conn.accepted = e.out.conn.accepted := by
      rw [Output.conn_advance]
      exact World.perform_accepted_of_fail (answer_fails ha (Or.inr hfin))
    refine ⟨?_, ?_⟩
    · simp [Endpoint.advance, hwire, hacc]
    · simp only [Endpoint.advance, Output.conn_advance]
      exact World.fin_of_prefix (World.perform_kept a) hfin

/-- The receiving end acts. -/
theorem receive (h : Flow e d) (ha : kernelAllows d e reset a = true) :
    Flow (e.handOver (d.out.conn.fed a).length) (d.advance a) where
  account := h.account
  conserved := by
    rcases fed_prefix ha with ⟨rest, hrest⟩
    rw [Endpoint.received_advance, Endpoint.handOver, ← hrest, List.drop_left, List.append_assoc,
      hrest, h.conserved]
  ended := by
    intro heof
    have hcases : d.eof = true ∨ d.out.conn.reads a = some (.ok []) := by
      simpa [Endpoint.advance] using heof
    have hwire : e.wire = [] ∧ e.out.conn.fin = true := by
      rcases hcases with hold | hnew
      · exact h.ended hold
      · exact eof_guard ha hnew
    exact ⟨by simp [Endpoint.handOver, hwire.1], hwire.2⟩

/-- User code takes bytes out of the read buffer of the sending end: that is the other direction. -/
theorem retrieve_sender (h : Flow e d) (n : Nat) : Flow (e.retrieve n) d := by
  unfold Endpoint.retrieve
  split
  · exact ⟨h.account.of_conn rfl rfl, h.conserved, h.ended⟩
  · exact h

theorem retrieve_receiver (h : Flow e d) (n : Nat) : Flow e (d.retrieve n) where
  account := h.account
  conserved := by rw [Endpoint.received_retrieve, h.conserved]
  ended heof := by
    refine h.ended ?_
    rw [← heof]
    unfold Endpoint.retrieve
    split <;> rfl

/-- What a direction has done with the messages. -/
theorem delivered (h : Flow e d) :
    d.received <+: e.out.before ∧
      (e.out.faulted = false →
        d.received ++ e.wire ++ e.out.conn.outputBuffer_.readable = e.out.before) := by
  have hconserved : e.out.faulted = false →
      d.received ++ e.wire ++ e.out.conn.outputBuffer_.readable = e.out.before := by
    intro hf
    rw [h.conserved]
    exact h.account.1.1 hf
  refine ⟨?_, hconserved⟩
  cases hf : e.out.faulted with
  | false =>
      rw [← hconserved hf, List.append_assoc]
      exact List.prefix_append _ _
  | true =>
      -- after a fault the kernel has exactly the messages before it
      rw [← (h.account.1.2 hf).1, ← h.conserved]
      exact List.prefix_append _ _

end Flow

/-! ## Both directions at once -/

structure Joint where
  ends : Side → Endpoint
  /-- The kernel has given the connection up. -/
  reset : Bool := false

inductive Move where
  | act (s : Side) (a : Action)
  /-- User code calls `inputBuffer_.retrieve(n)`. -/
  | retrieve (s : Side) (n : Nat)
  | reset
  deriving DecidableEq, Repr

namespace Joint

def enabled (j : Joint) : Move → Bool
  | .act s a =>
      (j.ends s).out.conn.enabled a && kernelAllows (j.ends s) (j.ends s.peer) j.reset a
  | .retrieve s n =>
      let w := (j.ends s).out.conn
      !w.destructed && w.userMayCall && decide (n ≤ w.inputBuffer_.readableBytes)
  | .reset => true

def perform (j : Joint) : Move → Joint
  | .act s a =>
      { j with
        ends := fun t =>
          if t = s then (j.ends t).advance a
          -- what `s` reads comes off the other end's wire
          else (j.ends t).handOver ((j.ends s).out.conn.fed a).length }
  | .retrieve s n => { j with ends := fun t => if t = s then (j.ends t).retrieve n else j.ends t }
  | .reset => { j with reset := true }

/-- Every run starts with two connections that have not sent or received anything. -/
def system : System Joint Move where
  init j := ∃ w : Side → World,
    (∀ s, ∃ wc hw mark, w s = World.constructed wc hw mark) ∧
      j = { ends := fun s => { out := { conn := w s } } }
  step j m j' := j.enabled m = true ∧ j' = j.perform m

/-- Both directions flow. -/
def Flows (j : Joint) : Prop :=
  ∀ s : Side, Flow (j.ends s) (j.ends s.peer)

theorem flows_constructed (w : Side → World)
    (hw : ∀ s, ∃ wc hw mark, w s = World.constructed wc hw mark) :
    Flows { ends := fun s => { out := { conn := w s } } } := by
  intro s
  have hnew : ∀ s, (w s).accepted = [] ∧ (w s).outputBuffer_.readable = [] ∧
      (w s).inputBuffer_.readable = [] := by
    intro s
    rcases hw s with ⟨wc, hm, mark, heq⟩
    rw [heq]
    exact ⟨rfl, WfBuffer.readable_construct _, WfBuffer.readable_construct _⟩
  refine ⟨⟨⟨?_, by simp⟩, by simp⟩, ?_, by simp⟩
  · intro _
    simp [Output.stream, hnew s]
  · simp [Endpoint.received, hnew s, hnew s.peer]

/-- The step lemma: every move keeps both directions. -/
theorem perform_flows {j : Joint} {m : Move} (h : j.Flows) (hm : j.enabled m = true) :
    (j.perform m).Flows := by
  intro t
  cases m with
  | reset => exact h t
  | retrieve s n =>
      by_cases ht : t = s
      · subst ht
        simpa [perform, t.peer_ne] using (h t).retrieve_sender n
      · have hs : t.peer = s := by cases s <;> cases t <;> simp_all [Side.peer]
        subst hs
        simpa [perform, ht] using (h t).retrieve_receiver n
  | act s a =>
      have hallowed : kernelAllows (j.ends s) (j.ends s.peer) j.reset a = true :=
        (Bool.and_eq_true_iff.1 hm).2
      by_cases ht : t = s
      · subst ht
        have hsend := (h t).send hallowed
        -- the other end only loses what was read from its wire, which this direction ignores
        refine ⟨?_, ?_, ?_⟩
        · simpa [perform] using hsend.account
        · simpa [perform, t.peer_ne, Endpoint.handOver, Endpoint.received] using hsend.conserved
        · simpa [perform, t.peer_ne, Endpoint.handOver] using hsend.ended
      · have hs : t.peer = s := by cases s <;> cases t <;> simp_all [Side.peer]
        subst hs
        rw [show t.peer.peer = t by cases t <;> rfl] at hallowed
        simpa [perform, ht] using (h t).receive hallowed

theorem reachable_flows {j : Joint} (h : system.Reachable j) : j.Flows := by
  refine h.invariant ?_ ?_
  · rintro s ⟨w, hw, rfl⟩
    exact flows_constructed w hw
  · rintro s m s' hs ⟨hm, rfl⟩
    exact perform_flows hs hm

/-- Stream integrity between two connections.  What an end has received is always a prefix of the
messages handed to the other end, in order; until a direct write of the sender has faulted,
received bytes, bytes on the wire and pending output are exactly these messages; and once `read`
has returned 0 nothing that the sender's kernel took is missing. -/
theorem stream_integrity {j : Joint} (h : system.Reachable j) (s : Side) :
    (j.ends s.peer).received <+: (j.ends s).out.before ∧
      ((j.ends s).out.faulted = false →
        (j.ends s.peer).received ++ (j.ends s).wire ++ (j.ends s).out.conn.outputBuffer_.readable =
          (j.ends s).out.before) ∧
      ((j.ends s.peer).eof = true →
        (j.ends s.peer).received = (j.ends s).out.conn.accepted ∧
          (j.ends s).out.conn.fin = true) := by
  have hflow := reachable_flows h s
  rcases hflow.delivered with ⟨hfront, hall⟩
  refine ⟨hfront, hall, ?_⟩
  intro heof
  rcases hflow.ended heof with ⟨hwire, hfin⟩
  have hconserved := hflow.conserved
  rw [hwire, List.append_nil] at hconserved
  exact ⟨hconserved, hfin⟩

/-- The client sends five bytes, of which the kernel takes two and then the rest; the server reads
in two pieces, its user code takes the first; the client shuts down and the server reads 0. -/
def exchange : List Move :=
  [.act .client .connectEstablished, .act .client .resume,
    .act .server .connectEstablished, .act .server .resume,
    .act .client (.call .loop (.send [1, 2, 3, 4, 5] (.room 2))),
    .act .server (.event { POLLIN := true } (.ok [1, 2]) (.room 0)), .act .server .resume,
    .retrieve .server 1, .act .server .resume,
    .act .client (.call .loop .shutdown),
    .act .client (.event { POLLOUT := true } .fail (.room 3)), .act .client .resume,
    .act .server (.event { POLLIN := true } (.ok [3, 4, 5]) (.room 0)), .act .server .resume,
    .act .server .resume,
    .act .server (.event { POLLIN := true } (.ok []) (.room 0)), .act .server .resume]

def connected : Joint where
  ends _ := { out := { conn := World.constructed false false 64 } }

def next (j : Joint) (m : Move) : Option Joint :=
  if j.enabled m = true then some (j.perform m) else none

def exchangeEnd : Option Joint :=
  System.runAll next connected exchange

theorem stream_integrity_exchange :
    ∃ j, exchangeEnd = some j ∧ (j.ends .server).received = [1, 2, 3, 4, 5] ∧
      (j.ends .server).received = (j.ends .client).out.conn.accepted := by
  obtain ⟨j, hj, hrec, heof⟩ : ∃ j, exchangeEnd = some j ∧
      (j.ends .server).received = [1, 2, 3, 4, 5] ∧ (j.ends .server).eof = true := by
    have hs : (exchangeEnd.map fun j => ((j.ends .server).received, (j.ends .server).eof)) =
        some ([1, 2, 3, 4, 5], true) := by decide +kernel
    simpa [Option.map_eq_some_iff] using hs
  have hreach : system.Reachable j := by
    refine .of_guarded ?_ (.init ⟨_, fun _ => ⟨false, false, 64, rfl⟩, rfl⟩) hj
    intro j m hm
    exact ⟨hm, rfl⟩
  exact ⟨j, hj, hrec, ((stream_integrity hreach .client).2.2 heof).1⟩

end Joint

end Net
end Longky
