import Longky.Http.KeepAlive
import Longky.Net.TcpLife
import Longky.Net.TcpOnward
import Longky.Net.TcpStream

/-!
# HttpExchange — an HTTP server at one end of a connection

`HttpServer::onMessage` of `netLayer/http/HttpServer.cpp` as the `messageCallback_` of the server's
end of two joined connections (`TcpStream`).  The callback parses what is in `inputBuffer_`, and
calls `send` and `shutdown` on the connection it was called for; each call is a step, with the
kernel's answer to its write, and anything may happen in between at the other end and in other
threads.  What a `send` takes is `appendToBuffer`, which is what the buffer holds when no string of
the response has 2 GiB (`output_short`).

* `onMessage_turn`: what one call makes of a stream of well-formed requests;
* `responses_in_order`: the client receives the responses to its requests, none of which has a body,
  in their order, whatever the two loops, the kernel and other callers do.
-/

namespace Longky
namespace Http

open Lib Net

/-! ## One call of the callback -/

namespace HttpContext

/-- What `parseRequest` returns for a run of the machine that does not see the time. -/
theorem parseRequest_of_run {c : HttpContext} (hc : c.Expects) (buf : WfBuffer) (t : Nat)
    {progress : Progress HttpContext}
    (hrun : (lineStep 0).run c.untimed buf.readable = progress) :
    (∃ c' rest, progress = .waiting c' rest ∧ ∃ c₁ buf', parseRequest c buf t = .ok (true, c₁, buf') ∧
      c₁.untimed = c' ∧ buf'.readable = rest ∧ c₁.Expects) ∨
    (∃ c' rest, progress = .done c' rest ∧ ∃ c₁ buf', parseRequest c buf t = .ok (true, c₁, buf') ∧
      c₁.untimed = c' ∧ buf'.readable = rest ∧ c₁.gotAll = true) ∨
    (∃ c' rest, progress = .failed c' rest) ∨ progress = .stopped := by
  have hreturns := parseRequest_run hc buf t
  rw [LineMachine.run_map (lineStep_untimed t)] at hrun
  cases hprogress : (lineStep t).run c buf.readable with
  | waiting c₁ rest =>
      rw [hprogress] at hrun hreturns
      obtain ⟨buf', hresult, hrest, hexpects⟩ := hreturns
      exact .inl ⟨_, _, hrun.symm, c₁, buf', hresult, rfl, hrest, hexpects⟩
  | done c₁ rest =>
      rw [hprogress] at hrun hreturns
      obtain ⟨buf', hresult, hrest, hgot⟩ := hreturns
      exact .inr (.inl ⟨_, _, hrun.symm, c₁, buf', hresult, rfl, hrest, hgot⟩)
  | failed c₁ rest =>
      rw [hprogress] at hrun
      exact .inr (.inr (.inl ⟨_, _, hrun.symm⟩))
  | stopped =>
      rw [hprogress] at hrun
      exact .inr (.inr (.inr hrun.symm))

end HttpContext

namespace HttpConnection

variable {httpCallback_ : HttpCallback}

/-- The context and the bytes in the buffer stand for the bytes `x`, which are read anew. -/
def Stands (c : HttpContext) (readable x : Bytes) : Prop :=
  c.Expects ∧ (HttpContext.lineStep 0).Represents {} (c.untimed, readable) x

/-- When the stream is one of known requests, `onMessage` either waits or answers the first of them,
and never complains. -/
theorem onMessage_turn {c : HttpContext} {buf : WfBuffer} {old data x : Bytes} {qs : List Request}
    (hstands : Stands c old x) (hbuf : buf.readable = old ++ data)
    (hknown : ∀ q ∈ qs, q.Known) (hstream : x ++ data <+: qs.flatMap Request.text) (t : Nat) :
    ∃ conn, onMessage httpCallback_ ⟨c, buf, []⟩ t = .ok conn ∧
      conn.inputBuffer_.readable <:+ buf.readable ∧
      ((conn.effects = [] ∧ Stands conn.context conn.inputBuffer_.readable (x ++ data)) ∨
        ∃ q rest request y, qs = q :: rest ∧ request.untimed = q.parsed ∧
          conn.effects = onRequest httpCallback_ request ∧ x ++ data = q.text ++ y ∧
          Stands conn.context conn.inputBuffer_.readable y) := by
  obtain ⟨hexpects, hrepresents⟩ := hstands
  have hrun : (HttpContext.lineStep 0).run c.untimed buf.readable =
      (HttpContext.lineStep 0).run {} (x ++ data) := by
    rw [hbuf]
    exact hrepresents data
  have hsuffix : ((HttpContext.lineStep 0).run c.untimed buf.readable).rest <:+ buf.readable :=
    LineMachine.rest_run_suffix _ _
  -- a run that waits leaves the effects alone
  have hwaits : ∀ s rest, (HttpContext.lineStep 0).run {} (x ++ data) = .waiting s rest →
      ∃ conn, onMessage httpCallback_ ⟨c, buf, []⟩ t = .ok conn ∧
        conn.inputBuffer_.readable <:+ buf.readable ∧ conn.effects = [] ∧
        Stands conn.context conn.inputBuffer_.readable (x ++ data) := by
    intro s rest hwait
    rw [hrun, hwait] at hsuffix
    rcases HttpContext.parseRequest_of_run hexpects buf t (hrun.trans hwait) with
      ⟨c', rest', heq, c₁, buf', hparse, hc', hrest, hexpects'⟩ | ⟨_, _, heq, _⟩ |
        ⟨_, _, heq⟩ | heq
    · cases heq
      refine ⟨⟨c₁, buf', []⟩, ?_, by rwa [hrest], rfl, hexpects', ?_⟩
      · simp [onMessage, hparse, hexpects'.not_gotAll]
      · rw [hc', hrest]
        exact LineMachine.Records.represents_waiting hwait
    all_goals cases heq
  cases qs with
  | nil =>
      have hnil : x ++ data = [] := by simpa using hstream
      have hwait : (HttpContext.lineStep 0).run {} (x ++ data) = .waiting {} [] := by
        rw [hnil]
        exact LineMachine.run_of_none rfl
      obtain ⟨conn, hconn, hsub, heffects, hs⟩ := hwaits _ _ hwait
      exact ⟨conn, hconn, hsub, .inl ⟨heffects, hs⟩⟩
  | cons q qs =>
      have hvalue : Request.records.value q = some ⟨.kGotAll, q.parsed⟩ :=
        if_pos (hknown q (List.mem_cons_self ..))
      obtain ⟨more, hmore⟩ := hstream
      rw [List.flatMap_cons] at hmore
      rcases LineMachine.cut_cases hmore with ⟨z, hz, htext⟩ | ⟨y, htext, -⟩
      · obtain ⟨s, rest, hwait⟩ := LineMachine.Records.run_short hvalue hz htext
        obtain ⟨conn, hconn, hsub, heffects, hs⟩ := hwaits _ _ hwait
        exact ⟨conn, hconn, hsub, .inl ⟨heffects, hs⟩⟩
      · have hdone : (HttpContext.lineStep 0).run {} (x ++ data) =
            .done ⟨.kGotAll, q.parsed⟩ y := by
          rw [htext]
          have htake := Request.records.run_text q y
          rwa [hvalue] at htake
        rw [hrun, hdone] at hsuffix
        rcases HttpContext.parseRequest_of_run hexpects buf t (hrun.trans hdone) with
          ⟨_, _, heq, _⟩ | ⟨c', rest', heq, c₁, buf', hparse, hc', hrest, hgot⟩ |
            ⟨_, _, heq⟩ | heq
        · cases heq
        · cases heq
          refine ⟨⟨c₁.reset, buf', onRequest httpCallback_ c₁.request_⟩, ?_, by rwa [hrest],
            .inr ⟨q, qs, c₁.request_, y, rfl, congrArg HttpContext.request_ hc', rfl, htext, ?_⟩⟩
          · simp [onMessage, hparse, hgot]
          · refine ⟨.inl rfl, ?_⟩
            rw [hrest]
            exact LineMachine.Records.represents_start y
        · cases heq
        · cases heq

end HttpConnection

/-! ## The server on its connection -/

structure HttpExchange where
  joint : Joint
  context : HttpContext := {}
  /-- The bytes for which `messageCallback_` is to be called. -/
  due : Option Bytes := none
  /-- What the running callback has still to do. -/
  todo : List HttpEffect := []
  /-- What all callbacks have found to be done, in this order. -/
  effects : List HttpEffect := []

inductive HttpMove where
  /-- A move of the two connections that is not the callback's. -/
  | move (m : Move)
  | onMessage (receiveTime : Nat)
  /-- The callback goes on; `r` is for the write of a `send`. -/
  | perform (r : WriteResult)

namespace HttpExchange

def client (x : HttpExchange) : Endpoint := x.joint.ends .client

def server (x : HttpExchange) : Endpoint := x.joint.ends .server

/-- No callback is due or running. -/
def idle (x : HttpExchange) : Bool := x.due.isNone && x.todo.isEmpty

/-- The server's loop waits for the callback.  Others may close the connection, and leave sending
and `inputBuffer_` to the callback. -/
def mayMove (x : HttpExchange) : Move → Bool
  | .act .server (.call _ (.send _ _)) | .retrieve .server _ => false
  | .act .server (.call t c) =>
      decide (World.lifeCalls x.server.out.conn (.call t c)) && (t == .other || x.idle)
  | .act .server _ => x.idle
  | _ => true

/-- What a move hands to `messageCallback_`. -/
def nextDue (x : HttpExchange) : Move → Option Bytes
  | .act .server a =>
      if x.server.out.conn.fed a = [] then x.due else some (x.server.out.conn.fed a)
  | _ => x.due

/-- The call that an effect is. -/
def callOf (r : WriteResult) : HttpEffect → Option Call
  | .httpCallback _ => none
  | .send message => some (.send message r)
  | .shutdown => some .shutdown

def next (httpCallback_ : HttpCallback) (x : HttpExchange) : HttpMove → Option HttpExchange
  | .move m =>
      if x.mayMove m then (x.joint.next m).map fun j => { x with joint := j, due := x.nextDue m }
      else none
  | .onMessage receiveTime =>
      let buf := x.server.out.conn.inputBuffer_
      match x.due with
      | none => none
      | some _ =>
        match HttpConnection.onMessage httpCallback_ ⟨x.context, buf, []⟩ receiveTime with
        | .error _ => none
        | .ok conn =>
            (x.joint.next (.retrieve .server
              (buf.readableBytes - conn.inputBuffer_.readableBytes))).map fun j =>
              { joint := j, context := conn.context, due := none, todo := conn.effects
                effects := x.effects ++ conn.effects }
  | .perform r =>
      match x.todo with
      | [] => none
      | e :: rest =>
        match callOf r e with
        | none => some { x with todo := rest }
        | some c => (x.joint.next (.act .server (.call .loop c))).map fun j =>
            { x with joint := j, todo := rest }

def runs (httpCallback_ : HttpCallback) : System HttpExchange HttpMove where
  init x := ∃ j, Joint.system.init j ∧ x = { joint := j }
  step x m x' := x.next httpCallback_ m = some x'

/-- The messages of the `send` calls. -/
def sends (effects : List HttpEffect) : List Bytes :=
  effects.filterMap fun
    | .send message => some message
    | _ => none

/-! ## The output of the server's end -/

/-- Only a `send` hands a message over. -/
theorem advance_kept {o : Output} {a : Action}
    (hnone : ∀ message, .sendInLoop message ∉ o.conn.pendingFunctors_)
    (ha : ∀ t message r, a ≠ .call t (.send message r)) :
    (o.advance a).before = o.before ∧ (o.advance a).faulted = o.faulted := by
  unfold Output.advance
  cases hpart : o.conn.outputPart a with
  | none => exact ⟨rfl, rfl⟩
  | some part =>
      obtain ⟨w, op⟩ := part
      cases op with
      | sendInLoop message r =>
          exfalso
          cases a with
          | call t c =>
              cases t <;> cases c <;> simp only [World.outputPart, reduceCtorEq] at hpart
              exact ha _ _ _ rfl
          | runFunctor i wr =>
              simp only [World.outputPart] at hpart
              split at hpart
              next m hm => exact hnone m (List.mem_of_getElem? hm)
              next => cases hpart
          | resume =>
              simp only [World.outputPart] at hpart
              split at hpart <;> simp at hpart
          | connectEstablished | event | delayedClose | destroy => cases hpart
      | _ => exact ⟨rfl, rfl⟩

/-- A `send` on the loop's thread hands its message over on a live connection, unless its write
faults or an earlier one has. -/
theorem advance_send (o : Output) (message : Bytes) (r : WriteResult) :
    ((o.advance (.call .loop (.send message r))).before = o.before ∧
      (o.conn.state_ = .kConnected →
        (o.advance (.call .loop (.send message r))).faulted = true)) ∨
    (o.conn.state_ = .kConnected ∧ o.faulted = false ∧
      (o.advance (.call .loop (.send message r))).before = o.before ++ message) := by
  by_cases hst : o.conn.state_ = .kConnected
  · simp only [Output.advance, World.outputPart, if_pos hst, Output.next, Output.record]
    split
    next hfaulted => exact .inl ⟨rfl, fun _ => hfaulted⟩
    next hfaulted =>
      split
      next => exact .inl ⟨rfl, fun _ => rfl⟩
      next => exact .inr ⟨hst, by simpa using hfaulted, rfl⟩
  · refine .inl ⟨?_, fun h => absurd h hst⟩
    simp [Output.advance, World.outputPart, hst]

theorem advance_faulted {o : Output} {a : Action} (h : (o.advance a).faulted = false) :
    o.faulted = false := by
  unfold Output.advance at h
  split at h
  next w op _ =>
    cases op <;> simp only [Output.next, Output.record] at h
    case sendInLoop message r =>
      split at h
      next hfaulted => exact absurd (hfaulted.symm.trans h) (by simp)
      next hfaulted => simpa using hfaulted
    all_goals exact h
  next => exact h

/-! ## The invariant -/

/-- `sent` are the messages of the `send` calls made so far. -/
structure Sent (x : HttpExchange) (sent : List Bytes) : Prop where
  split : sends x.effects = sent ++ sends x.todo
  handed : x.server.out.before <+: sent.flatten
  all : x.server.out.conn.state_ = .kConnected → x.server.out.faulted = false →
    x.server.out.before = sent.flatten

/-- The first of the requests have been answered, and what was received behind them waits. -/
def Answered (httpCallback_ : HttpCallback) (qs : List Request) (x : HttpExchange) : Prop :=
  ∃ (done rest : List Request) (requests : List HttpRequest) (old y : Bytes), qs = done ++ rest ∧
    requests.map HttpRequest.untimed = done.map Request.parsed ∧
    x.effects = requests.flatMap (HttpConnection.onRequest httpCallback_) ∧
    x.server.out.conn.inputBuffer_.readable = old ++ x.due.getD [] ∧
    HttpConnection.Stands x.context old y ∧
    x.server.received = done.flatMap Request.text ++ (y ++ x.due.getD [])

/-- What does not depend on the messages sent. -/
structure Core (httpCallback_ : HttpCallback) (x : HttpExchange) : Prop where
  joint : Joint.system.Reachable x.joint
  life : x.server.out.conn.LifeRun
  unqueued : ∀ message, .sendInLoop message ∉ x.server.out.conn.pendingFunctors_
  waiting : x.due ≠ none → x.todo = []
  started : x.effects ≠ [] ∨ x.due ≠ none → x.server.out.conn.state_ ≠ .kConnecting
  answered : ∀ qs, (∀ q ∈ qs, q.Known) → x.server.received <+: qs.flatMap Request.text →
    x.Answered httpCallback_ qs

def Inv (httpCallback_ : HttpCallback) (x : HttpExchange) : Prop :=
  x.Core httpCallback_ ∧ ∃ sent, x.Sent sent

variable {httpCallback_ : HttpCallback} {x x' : HttpExchange}

theorem resume_of_fed {w : World} {a : Action} (h : w.fed a ≠ []) :
    a = .resume ∧ ∃ r, w.frames.head? = some (.readCallback r) := by
  cases a with
  | resume =>
      refine ⟨rfl, ?_⟩
      cases hf : w.frames with
      | nil => simp [World.fed, World.reads, hf] at h
      | cons f fs =>
          cases f with
          | readCallback r => exact ⟨r, rfl⟩
          | _ => simp [World.fed, World.reads, hf] at h
  | _ => exact absurd rfl h

theorem joint_next {j j' : Joint} {m : Move} (h : j.next m = some j') :
    j.enabled m = true ∧ j' = j.perform m := by
  obtain ⟨hm, heq⟩ := Option.ite_none_right_eq_some.1 h
  exact ⟨hm, (Option.some.inj heq).symm⟩

/-- A move that the server's end does not notice. -/
theorem Inv.elsewhere (h : Inv httpCallback_ x) {m : Move} {j : Joint}
    (hm : x.joint.next m = some j) (hout : (j.ends .server).out = x.server.out)
    (htaken : (j.ends .server).taken = x.server.taken) :
    Inv httpCallback_ { x with joint := j } := by
  obtain ⟨hcore, sent, hsent⟩ := h
  have hreach : Joint.system.Reachable j := by
    exact .step hcore.joint (joint_next hm)
  have hserver : ({ x with joint := j } : HttpExchange).server.out = x.server.out := hout
  have hreceived : ({ x with joint := j } : HttpExchange).server.received = x.server.received := by
    show (j.ends .server).received = _
    rw [Endpoint.received, hout, htaken]
    rfl
  refine ⟨⟨hreach, ?_, ?_, hcore.waiting, ?_, ?_⟩, sent, hsent.split, ?_, ?_⟩
  · rw [hserver]
    exact hcore.life
  · rw [hserver]
    exact hcore.unqueued
  · rw [hserver]
    exact hcore.started
  · intro qs hknown hstream
    rw [hreceived] at hstream
    obtain ⟨done, rest, requests, old, y, hqs, hrequests, heffects, hbuf, hstands, hrec⟩ :=
      hcore.answered qs hknown hstream
    exact ⟨done, rest, requests, old, y, hqs, hrequests, heffects, by rw [hserver]; exact hbuf,
      hstands, hreceived.trans hrec⟩
  · rw [hserver]
    exact hsent.handed
  · rw [hserver]
    exact hsent.all

/-- The server's end acts, and what the callback has still to do is `todo`. -/
theorem Core.act (h : x.Core httpCallback_) {a : Action} {j : Joint}
    (hm : x.joint.next (.act .server a) = some j)
    (hlife : World.lifeCalls x.server.out.conn a)
    (hsend : ∀ message r, a ≠ .call .other (.send message r)) {todo : List HttpEffect}
    (htodo : x.due ≠ none → todo = [])
    (hfed : x.server.out.conn.fed a ≠ [] → x.due = none ∧ todo = []) :
    Core httpCallback_ { x with joint := j, due := x.nextDue (.act .server a), todo := todo } := by
  obtain ⟨henabled, rfl⟩ := joint_next hm
  have hworld : x.server.out.conn.enabled a = true := (Bool.and_eq_true_iff.1 henabled).1
  have honward := World.perform_onward x.server.out.conn hsend
  have hconn : (x.server.advance a).out.conn = x.server.out.conn.perform a :=
    Output.conn_advance _ _
  have hdue : x.nextDue (.act .server a) ≠ none → x.due ≠ none ∨ x.server.out.conn.fed a ≠ [] := by
    intro hne
    by_cases hnil : x.server.out.conn.fed a = []
    · simp only [nextDue, hnil, if_true] at hne
      exact .inl hne
    · exact .inr hnil
  refine ⟨.step h.joint ⟨henabled, rfl⟩, ?_, ?_, ?_, ?_, ?_⟩
  · show (x.server.advance a).out.conn.LifeRun
    rw [hconn]
    exact h.life.perform hworld hlife
  · intro message hmem
    change _ ∈ (x.server.advance a).out.conn.pendingFunctors_ at hmem
    rw [hconn] at hmem
    exact h.unqueued message (honward.sends message hmem)
  · intro hne
    rcases hdue hne with hold | hnew
    · exact htodo hold
    · exact (hfed hnew).2
  · intro hstarted
    show (x.server.advance a).out.conn.state_ ≠ _
    have hbefore : x.server.out.conn.state_ ≠ .kConnecting := by
      rcases hstarted with heffects | hne
      · exact h.started (.inl heffects)
      · rcases hdue hne with hold | hnew
        · exact h.started (.inr hold)
        · -- only an open connection reads
          obtain ⟨-, r, hread⟩ := resume_of_fed hnew
          exact World.isOpen_ne_connecting (h.life.readHead r hread)
    rw [hconn]
    intro hconnecting
    have hrank := honward.state
    rw [hconnecting] at hrank
    cases hst : x.server.out.conn.state_ <;> simp_all [StateE.rank]
  · intro qs hknown hstream
    have hreceived : (x.server.advance a).received = x.server.received ++ x.server.out.conn.fed a :=
      Endpoint.received_advance _ _
    change (x.server.advance a).received <+: _ at hstream
    obtain ⟨done, rest, requests, old, y, hqs, hrequests, heffects, hbuf, hstands, hrec⟩ :=
      h.answered qs hknown ((hreceived ▸ List.prefix_append _ _).trans hstream)
    refine ⟨done, rest, requests, old, y, hqs, hrequests, heffects, ?_, hstands, ?_⟩
    · show (x.server.advance a).out.conn.inputBuffer_.readable = _
      rw [hconn, World.perform_input, hbuf]
      by_cases hnil : x.server.out.conn.fed a = []
      · simp [nextDue, hnil]
      · simp [nextDue, hnil, (hfed hnil).1]
    · show (x.server.advance a).received = _
      rw [hreceived, hrec]
      by_cases hnil : x.server.out.conn.fed a = []
      · simp [nextDue, hnil]
      · simp [nextDue, hnil, (hfed hnil).1]

/-- The same with the messages: `more` is what a `send` has handed over or lost. -/
theorem Sent.act {sent : List Bytes} (h : x.Sent sent) (hcore : x.Core httpCallback_) {a : Action}
    {j : Joint} (hm : x.joint.next (.act .server a) = some j)
    (hother : ∀ message r, a ≠ .call .other (.send message r)) {todo : List HttpEffect}
    {more : List Bytes} (htodo : sends x.todo = more ++ sends todo)
    (hmore : (more = [] ∧ ∀ t message r, a ≠ .call t (.send message r)) ∨
      ∃ message r, more = [message] ∧ a = .call .loop (.send message r)) :
    Sent { x with joint := j, due := x.nextDue (.act .server a), todo := todo } (sent ++ more) := by
  obtain ⟨-, rfl⟩ := joint_next hm
  have hconn : (x.server.advance a).out.conn = x.server.out.conn.perform a :=
    Output.conn_advance _ _
  -- a connection that is connected afterwards was so before, or has had no request yet
  have hconnected : (x.server.advance a).out.conn.state_ = .kConnected →
      x.server.out.conn.state_ = .kConnected ∨ x.effects = [] := by
    intro hst
    have hrank := (World.perform_onward x.server.out.conn hother).state
    rw [← hconn, hst] at hrank
    by_cases heffects : x.effects = []
    · exact .inr heffects
    · have hne := hcore.started (.inl heffects)
      cases hs : x.server.out.conn.state_ <;> simp_all [StateE.rank]
  have hempty : x.effects = [] → x.server.out.before = [] ∧ sent.flatten = [] ∧ more = [] := by
    intro heffects
    have hsplit := h.split
    rw [heffects, sends, List.filterMap_nil, eq_comm, List.append_eq_nil_iff, htodo,
      List.append_eq_nil_iff] at hsplit
    obtain ⟨rfl, hnil, -⟩ := hsplit
    exact ⟨List.prefix_nil.1 h.handed, rfl, hnil⟩
  refine ⟨?_, ?_, ?_⟩
  · calc sends x.effects
        = sent ++ sends x.todo := h.split
      _ = sent ++ more ++ sends todo := by rw [htodo, List.append_assoc]
  · show (x.server.advance a).out.before <+: _
    rw [List.flatten_append]
    rcases hmore with ⟨rfl, hnot⟩ | ⟨message, r, rfl, rfl⟩
    · rw [show (x.server.advance a).out.before = _ from (advance_kept hcore.unqueued hnot).1]
      exact h.handed.trans (List.prefix_append _ _)
    · rcases advance_send x.server.out message r with ⟨hbefore, -⟩ | ⟨hst, hfaulted, hbefore⟩
      · rw [show (x.server.advance _).out.before = _ from hbefore]
        exact h.handed.trans (List.prefix_append _ _)
      · rw [show (x.server.advance _).out.before = _ from hbefore, h.all hst hfaulted]
        simp
  · intro hst hfaulted
    change (x.server.advance a).out.conn.state_ = _ at hst
    change (x.server.advance a).out.faulted = false at hfaulted
    show (x.server.advance a).out.before = _
    have hfaulted' : x.server.out.faulted = false := advance_faulted hfaulted
    rw [List.flatten_append]
    rcases hmore with ⟨rfl, hnot⟩ | ⟨message, r, rfl, rfl⟩
    · rw [show (x.server.advance a).out.before = _ from (advance_kept hcore.unqueued hnot).1]
      rcases hconnected hst with hold | heffects
      · simp [h.all hold hfaulted']
      · simp [hempty heffects]
    · rcases hconnected hst with hold | heffects
      · rcases advance_send x.server.out message r with ⟨-, hfault⟩ | ⟨-, -, hbefore⟩
        · exact absurd ((hfault hold).symm.trans hfaulted) (by simp)
        · rw [show (x.server.advance _).out.before = _ from hbefore, h.all hold hfaulted']
          simp
      · exact absurd (hempty heffects).2.2 (by simp)

theorem Inv.move (h : Inv httpCallback_ x) {m : Move} (hmay : x.mayMove m = true) {j : Joint}
    (hm : x.joint.next m = some j) :
    Inv httpCallback_ { x with joint := j, due := x.nextDue m } := by
  obtain ⟨hcore, sent, hsent⟩ := h
  obtain ⟨-, hj⟩ := joint_next hm
  cases m with
  | reset => exact Inv.elsewhere ⟨hcore, sent, hsent⟩ hm (by rw [hj]; rfl) (by rw [hj]; rfl)
  | retrieve side n =>
      cases side with
      | server => cases hmay
      | client => exact Inv.elsewhere ⟨hcore, sent, hsent⟩ hm (by rw [hj]; rfl) (by rw [hj]; rfl)
  | act side a =>
      cases side with
      | client => exact Inv.elsewhere ⟨hcore, sent, hsent⟩ hm (by rw [hj]; rfl) (by rw [hj]; rfl)
      | server =>
          have hnot : ∀ t message r, a ≠ .call t (.send message r) := by
            rintro t message r rfl
            cases hmay
          have hlife : World.lifeCalls x.server.out.conn a := by
            cases a with
            | call t c =>
                cases c with
                | send message r => exact absurd rfl (hnot t message r)
                | _ =>
                    simp only [mayMove, Bool.and_eq_true, decide_eq_true_eq] at hmay
                    exact hmay.1
            | _ => trivial
          have hidle : x.server.out.conn.fed a ≠ [] → x.due = none ∧ x.todo = [] := by
            intro hfed
            obtain ⟨rfl, -⟩ := resume_of_fed hfed
            simpa [mayMove, idle] using hmay
          refine ⟨hcore.act hm hlife (hnot .other) hcore.waiting hidle, sent ++ [], ?_⟩
          exact hsent.act hcore hm (hnot .other) rfl (.inl ⟨rfl, hnot⟩)

/-- The callback makes its next call. -/
theorem Inv.perform (h : Inv httpCallback_ x) {e : HttpEffect} {rest : List HttpEffect}
    (htodo : x.todo = e :: rest) {r : WriteResult} {c : Call} (hc : callOf r e = some c)
    {j : Joint} (hm : x.joint.next (.act .server (.call .loop c)) = some j) :
    Inv httpCallback_ { x with joint := j, todo := rest } := by
  obtain ⟨hcore, sent, hsent⟩ := h
  have hwaiting : x.due ≠ none → rest = [] := by
    intro hdue
    rw [hcore.waiting hdue] at htodo
    cases htodo
  have hother : ∀ message r', Action.call .loop c ≠ .call .other (.send message r') := by simp
  cases e with
  | httpCallback request => cases hc
  | send message =>
      cases hc
      refine ⟨hcore.act hm (by simp [World.lifeCalls]) hother hwaiting (absurd rfl),
        sent ++ [message], ?_⟩
      refine hsent.act hcore hm hother ?_ (.inr ⟨message, r, rfl, rfl⟩)
      rw [htodo]
      rfl
  | shutdown =>
      cases hc
      refine ⟨hcore.act hm (by simp [World.lifeCalls]) hother hwaiting (absurd rfl),
        sent ++ [], ?_⟩
      refine hsent.act hcore hm hother ?_ (.inl ⟨rfl, by simp⟩)
      rw [htodo]
      rfl

/-- `onMessage` parses the buffer and takes off it what it has parsed. -/
theorem Inv.onMessage (h : Inv httpCallback_ x) {data : Bytes} (hdue : x.due = some data) {t : Nat}
    {conn : HttpConnection} (hconn : HttpConnection.onMessage httpCallback_
      ⟨x.context, x.server.out.conn.inputBuffer_, []⟩ t = .ok conn) {j : Joint}
    (hm : x.joint.next (.retrieve .server (x.server.out.conn.inputBuffer_.readableBytes -
      conn.inputBuffer_.readableBytes)) = some j) :
    Inv httpCallback_ {
      joint := j, context := conn.context, due := none, todo := conn.effects
      effects := x.effects ++ conn.effects } := by
  obtain ⟨hcore, sent, hsent⟩ := h
  obtain ⟨henabled, rfl⟩ := joint_next hm
  have htodo : x.todo = [] := hcore.waiting (by simp [hdue])
  have hstarted : x.server.out.conn.state_ ≠ .kConnecting := hcore.started (.inr (by simp [hdue]))
  have hle : x.server.out.conn.inputBuffer_.readableBytes - conn.inputBuffer_.readableBytes ≤
      x.server.out.conn.inputBuffer_.readableBytes := Nat.sub_le _ _
  let w := x.server.out.conn
  have hout : (x.server.retrieve (w.inputBuffer_.readableBytes -
      conn.inputBuffer_.readableBytes)).out = { x.server.out with conn := { w with
        inputBuffer_ := w.inputBuffer_.retrieve _ hle } } := by
    rw [Endpoint.retrieve, dif_pos hle]
  refine ⟨⟨.step hcore.joint ⟨henabled, rfl⟩, ?_, ?_, nofun, fun _ => ?_, ?_⟩, sent, ?_, ?_, ?_⟩
  · show (x.server.retrieve _).out.conn.LifeRun
    rw [hout]
    exact ⟨hcore.life.toLife.of_inert (World.inert_buffers w w.channel_ _ w.outputBuffer_ .inl),
      hcore.life.readTail, hcore.life.readHead⟩
  · show ∀ message, _ ∉ (x.server.retrieve _).out.conn.pendingFunctors_
    rw [hout]
    exact hcore.unqueued
  · show (x.server.retrieve _).out.conn.state_ ≠ _
    rw [hout]
    exact hstarted
  · intro qs hknown hstream
    change (x.server.retrieve _).received <+: _ at hstream
    rw [Endpoint.received_retrieve] at hstream
    obtain ⟨done, rest, requests, old, y, hqs, hrequests, heffects, hbuf, hstands, hrec⟩ :=
      hcore.answered qs hknown hstream
    rw [hdue, Option.getD_some] at hbuf hrec
    have hrest : y ++ data <+: rest.flatMap Request.text := by
      rw [hrec, hqs, List.flatMap_append] at hstream
      exact (List.prefix_append_right_inj _).1 hstream
    obtain ⟨conn', hconn', hsuffix, hturn⟩ := HttpConnection.onMessage_turn hstands hbuf
      (fun q hq => hknown q (by simp [hqs, hq])) hrest t
    rw [hconn] at hconn'
    cases hconn'
    -- what is left in the buffer is what the parser leaves
    have hleft : (w.inputBuffer_.retrieve _ hle).readable = conn.inputBuffer_.readable := by
      obtain ⟨front, hfront⟩ := hsuffix
      rw [WfBuffer.readable_retrieve, WfBuffer.readableBytes_eq, WfBuffer.readableBytes_eq]
      show List.drop _ x.server.out.conn.inputBuffer_.readable = _
      rw [← hfront, List.length_append, Nat.add_sub_cancel, List.drop_left]
    have hbuf' : (x.server.retrieve (w.inputBuffer_.readableBytes -
        conn.inputBuffer_.readableBytes)).out.conn.inputBuffer_.readable =
        conn.inputBuffer_.readable ++ [] := by
      rw [hout, List.append_nil]
      exact hleft
    have hrec' : (x.server.retrieve (w.inputBuffer_.readableBytes -
        conn.inputBuffer_.readableBytes)).received = done.flatMap Request.text ++ (y ++ data) := by
      rw [Endpoint.received_retrieve, hrec]
    rcases hturn with ⟨hnone, hstands'⟩ | ⟨q, rest', request, y', rfl, hrequest, hsome, htext, hstands'⟩
    · refine ⟨done, rest, requests, _, y ++ data, hqs, hrequests, ?_, hbuf', hstands', ?_⟩
      · simp [hnone, heffects]
      · show (x.server.retrieve _).received = _
        rw [hrec']
        simp
    · refine ⟨done ++ [q], rest', requests ++ [request], _, y', ?_, ?_, ?_, hbuf', hstands', ?_⟩
      · simp [hqs]
      · simp [hrequests, hrequest]
      · simp [hsome, heffects]
      · show (x.server.retrieve _).received = _
        rw [hrec', htext]
        simp
  · have hsplit := hsent.split
    rw [htodo] at hsplit
    show sends (x.effects ++ conn.effects) = sent ++ sends conn.effects
    rw [sends, List.filterMap_append]
    change sends x.effects ++ _ = _
    rw [hsplit]
    simp [sends]
  · show (x.server.retrieve _).out.before <+: _
    rw [hout]
    exact hsent.handed
  · show (x.server.retrieve _).out.conn.state_ = _ → (x.server.retrieve _).out.faulted = false →
      (x.server.retrieve _).out.before = _
    rw [hout]
    exact hsent.all

theorem inv_step (h : Inv httpCallback_ x) {m : HttpMove} (hs : x.next httpCallback_ m = some x') :
    Inv httpCallback_ x' := by
  cases m with
  | move m =>
      obtain ⟨hmay, hs⟩ := Option.ite_none_right_eq_some.1 hs
      obtain ⟨j, hm, rfl⟩ := Option.map_eq_some_iff.1 hs
      exact h.move hmay hm
  | onMessage t =>
      simp only [next] at hs
      split at hs
      next => cases hs
      next data hdue =>
        split at hs
        next => cases hs
        next conn hconn =>
          obtain ⟨j, hm, rfl⟩ := Option.map_eq_some_iff.1 hs
          exact h.onMessage hdue hconn hm
  | perform r =>
      simp only [next] at hs
      split at hs
      next => cases hs
      next e rest htodo =>
        split at hs
        next hcall =>
          cases hs
          cases e with
          | httpCallback request =>
              obtain ⟨hcore, sent, hsent⟩ := h
              refine ⟨⟨hcore.joint, hcore.life, hcore.unqueued, ?_, hcore.started,
                hcore.answered⟩, sent, ?_, hsent.handed, hsent.all⟩
              · intro hdue
                have hnil := hcore.waiting hdue
                rw [htodo] at hnil
                cases hnil
              · rw [hsent.split, htodo]
                rfl
          | send message | shutdown => cases hcall
        next c hcall =>
          obtain ⟨j, hm, rfl⟩ := Option.map_eq_some_iff.1 hs
          exact h.perform htodo hcall hm

theorem inv_of_reachable (h : (runs httpCallback_).Reachable x) : Inv httpCallback_ x := by
  refine h.invariant (P := Inv httpCallback_) ?_ fun _ _ _ hx hs => inv_step hx hs
  rintro _ ⟨j, hj, rfl⟩
  obtain ⟨w, hw, rfl⟩ := id hj
  obtain ⟨wc, hm, mark, hserver⟩ := hw .server
  have hnew : (w .server).inputBuffer_.readable = [] := by
    rw [hserver]
    exact WfBuffer.readable_construct _
  refine ⟨⟨.init hj, ?_, ?_, fun _ => rfl, by simp, ?_⟩, [], rfl, List.nil_prefix, fun _ _ => rfl⟩
  · show (w .server).LifeRun
    rw [hserver]
    exact .of_noRead (World.constructed_life wc hm mark) (World.noRead_of_nil rfl)
  · show ∀ message, _ ∉ (w .server).pendingFunctors_
    rw [hserver]
    exact fun message => List.not_mem_nil
  · intro qs _ _
    refine ⟨[], qs, [], [], [], rfl, rfl, rfl, hnew, ⟨.inl rfl, ?_⟩, hnew⟩
    exact LineMachine.Records.represents_start []

/-! ## What the client receives -/

/-- The bytes of the responses to requests, as their buffers hold them. -/
def responses (httpCallback_ : HttpCallback) (requests : List HttpRequest) : Option Bytes :=
  ((requests.map (HttpConnection.response httpCallback_)).mapM HttpResponse.output).map List.flatten

theorem sends_append (front back : List HttpEffect) :
    sends (front ++ back) = sends front ++ sends back := List.filterMap_append

theorem sends_onRequest (request : HttpRequest) :
    sends (HttpConnection.onRequest httpCallback_ request) =
      [(HttpConnection.response httpCallback_ request).appendToBuffer] := by
  unfold HttpConnection.onRequest
  dsimp only
  -- a `shutdown` behind it sends nothing
  split <;> rfl

theorem sends_onRequests (requests : List HttpRequest) :
    sends (requests.flatMap (HttpConnection.onRequest httpCallback_)) =
      (requests.map (HttpConnection.response httpCallback_)).map HttpResponse.appendToBuffer := by
  induction requests with
  | nil => rfl
  | cons request requests ih =>
      calc sends ((request :: requests).flatMap (HttpConnection.onRequest httpCallback_))
          = sends (HttpConnection.onRequest httpCallback_ request) ++
              sends (requests.flatMap (HttpConnection.onRequest httpCallback_)) :=
            sends_append _ _
        _ = _ := by rw [sends_onRequest, ih]; rfl

/-- Short responses are sent as their buffers hold them. -/
theorem responses_short {requests : List HttpRequest} (hshort : ∀ request ∈ requests,
    (HttpConnection.response httpCallback_ request).ShorterThan (2 ^ 31)) :
    responses httpCallback_ requests =
      some (sends (requests.flatMap (HttpConnection.onRequest httpCallback_))).flatten := by
  have hall : ∀ r ∈ requests.map (HttpConnection.response httpCallback_),
      r.ShorterThan (2 ^ 31) := by
    intro r hr
    obtain ⟨request, hrequest, rfl⟩ := List.mem_map.1 hr
    exact hshort request hrequest
  rw [responses, HttpResponse.outputs_short hall, Option.map_some, sends_onRequests]

/-- While the client's messages are well-formed requests without a body or the beginning of such,
however they are cut, and no string of a response has 2 GiB, `httpCallback_` has been called for the
first of them, each once and in order, nothing else has been sent, and what the client has received
is the beginning of the responses.  On a connection that is up, what is missing of them is on the
wire or in `outputBuffer_`. -/
theorem responses_in_order (h : (runs httpCallback_).Reachable x) {qs : List Request}
    (hknown : ∀ q ∈ qs, q.Known)
    (hshort : ∀ request : HttpRequest, request.untimed ∈ qs.map Request.parsed →
      (HttpConnection.response httpCallback_ request).ShorterThan (2 ^ 31))
    (hsent : x.client.out.before <+: qs.flatMap Request.text) :
    ∃ (requests : List HttpRequest) (bytes : Bytes),
      requests.map HttpRequest.untimed <+: qs.map Request.parsed ∧
      x.effects = requests.flatMap (HttpConnection.onRequest httpCallback_) ∧
      responses httpCallback_ requests = some bytes ∧
      x.client.received <+: bytes ∧
      (x.todo = [] → x.server.out.conn.state_ = .kConnected → x.server.out.faulted = false →
        x.client.received ++ x.server.wire ++ x.server.out.conn.outputBuffer_.readable = bytes) := by
  obtain ⟨hcore, sent, hsends⟩ := inv_of_reachable h
  have hrequest : x.server.received <+: x.client.out.before :=
    (Joint.stream_integrity hcore.joint .client).1
  obtain ⟨hresponse, hall, -⟩ := Joint.stream_integrity hcore.joint .server
  obtain ⟨done, rest, requests, old, y, rfl, hrequests, heffects, -, -, -⟩ :=
    hcore.answered qs hknown (hrequest.trans hsent)
  have hfirst : requests.map HttpRequest.untimed <+: (done ++ rest).map Request.parsed := by
    rw [hrequests, List.map_append]
    exact List.prefix_append _ _
  have hbytes : responses httpCallback_ requests = some (sends x.effects).flatten := by
    rw [heffects]
    refine responses_short fun request hrequest => hshort request ?_
    exact hfirst.subset (List.mem_map_of_mem hrequest)
  have htexts : (sends x.effects).flatten = sent.flatten ++ (sends x.todo).flatten := by
    rw [hsends.split, List.flatten_append]
  refine ⟨requests, _, hfirst, heffects, hbytes, ?_, ?_⟩
  · rw [htexts]
    exact hresponse.trans (hsends.handed.trans (List.prefix_append _ _))
  · intro htodo hst hfaulted
    calc x.client.received ++ x.server.wire ++ x.server.out.conn.outputBuffer_.readable
        = x.server.out.before := hall hfaulted
      _ = sent.flatten := hsends.all hst hfaulted
      _ = (sends x.effects).flatten := by rw [htexts, htodo]; simp [sends]

/-- The request arrives in two pieces, and the client has the first bytes of the response. -/
theorem responses_in_order_root : ∃ x requests bytes,
    (runs fun _ response => response).Reachable x ∧
    x.client.received = Bytes.ofString "HTTP/" ∧
    requests.map HttpRequest.untimed <+: [HttpConnection.rootRequest.parsed] ∧
    responses (fun _ response => response) requests = some bytes ∧
    x.client.received <+: bytes := by
  let readable : Revents := { POLLIN := true }
  let act (s : Side) (a : Action) : HttpMove := .move (.act s a)
  have hrun : (System.runAll (next fun _ response => response) { joint := Joint.connected } [
      act .client .connectEstablished, act .client .resume,
      act .server .connectEstablished, act .server .resume,
      act .client (.call .loop (.send HttpConnection.rootRequest.text (.room 12))),
      act .server (.event readable (.ok (HttpConnection.rootRequest.text.take 12)) (.room 0)),
      act .server .resume, .onMessage 0, act .server .resume,
      act .client (.event { POLLOUT := true } .fail (.room 100)), act .client .resume,
      act .server (.event readable (.ok (HttpConnection.rootRequest.text.drop 12)) (.room 0)),
      act .server .resume, .onMessage 1, .perform (.room 0), .perform (.room 5),
      act .server .resume,
      act .client (.event readable (.ok (Bytes.ofString "HTTP/")) (.room 0)),
      act .client .resume]).map
      (fun x => (x.client.received, x.client.out.before)) =
      some (Bytes.ofString "HTTP/", HttpConnection.rootRequest.text) := by decide +kernel
  obtain ⟨x, hx, heq⟩ := Option.map_eq_some_iff.1 hrun
  simp only [Prod.mk.injEq] at heq
  have hreach : (runs fun _ response => response).Reachable x :=
    .of_runAll (fun _ _ _ h => h) (.init ⟨_, ⟨_, fun _ => ⟨false, false, 64, rfl⟩, rfl⟩, rfl⟩) hx
  have hsent : x.client.out.before <+: [HttpConnection.rootRequest].flatMap Request.text := by
    rw [heq.2]
    exact List.prefix_append _ _
  have hshort : ∀ request : HttpRequest,
      (HttpConnection.response (fun _ response => response) request).ShorterThan (2 ^ 31) :=
    fun request => ⟨Nat.two_pow_pos 31, fun header hheader => absurd hheader List.not_mem_nil,
      Nat.two_pow_pos 31⟩
  obtain ⟨requests, bytes, hrequests, -, hbytes, hreceived, -⟩ :=
    responses_in_order hreach (by decide) (fun request _ => hshort request) hsent
  exact ⟨x, requests, bytes, hreach, heq.1, hrequests, hbytes, hreceived⟩

end HttpExchange
end Http
end Longky
