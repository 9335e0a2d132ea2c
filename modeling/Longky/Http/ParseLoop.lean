import Longky.Http.HeadParsing

/-!
# ParseLoop — the loop of `parseRequest`, turn by turn

`HttpContext::parseRequest` of `netLayer/http/HttpContext.cpp` once more, as the `while` loop it is,
over plain buffers whose assertions can fail, and the runs of `HttpServer::onMessage` made of such
calls.

* `Loop.parseRequest`: from a context that expects lines the loop ends, with the result that
  `HttpContext` computes.
* `parseRequest_terminates`: in every run it is only entered there, and each turn that is not the
  last takes at least two bytes off the buffer.
-/

namespace Longky
namespace Http

open Lib Net

/-! ## The loop -/

/-- `hasMore`, `ok`, the context and the buffer after a turn of the loop. -/
structure Turn where
  hasMore : Bool
  ok : Bool
  context : HttpContext
  buf : Buffer

/-- The body of the `while` loop. -/
def turn (receiveTime : Nat) (ok : Bool) (c : HttpContext) (buf : Buffer) : Except Stop Turn :=
  match c.state_ with
  | .kExpectRequestLine =>
      match Bytes.findCRLF buf.readable with
      | none => .ok ⟨false, ok, c, buf⟩
      | some crlf =>
          match processRequestLine c.request_ (buf.readable.take crlf) with
          | .error stop => .error stop
          | .ok (true, r) =>
              match buf.retrieveUntil (buf.readerIndex_ + crlf + 2) with
              | none => .error .assertionFailed
              | some buf' =>
                  .ok ⟨true, true, ⟨.kExpectHeaders, { r with receiveTime_ := receiveTime }⟩, buf'⟩
          | .ok (false, r) => .ok ⟨false, false, { c with request_ := r }, buf⟩
  | .kExpectHeaders =>
      match Bytes.findCRLF buf.readable with
      | none => .ok ⟨false, ok, c, buf⟩
      | some crlf =>
          let line := buf.readable.take crlf
          match buf.retrieveUntil (buf.readerIndex_ + crlf + 2) with
          | none => .error .assertionFailed
          | some buf' =>
              if 58 ∈ line then .ok ⟨true, ok, { c with request_ := c.request_.addHeader line }, buf'⟩
              else .ok ⟨false, ok, { c with state_ := .kGotAll }, buf'⟩
  | .kExpectBody | .kGotAll => .ok ⟨true, ok, c, buf⟩

/-- The loop ends with a result. -/
inductive Loop (receiveTime : Nat) :
    Bool → HttpContext → Buffer → Except Stop (Bool × HttpContext × Buffer) → Prop where
  | stop {ok : Bool} {c : HttpContext} {buf : Buffer} {stop : Stop} :
      turn receiveTime ok c buf = .error stop → Loop receiveTime ok c buf (.error stop)
  | last {ok ok' : Bool} {c c' : HttpContext} {buf buf' : Buffer} :
      turn receiveTime ok c buf = .ok ⟨false, ok', c', buf'⟩ →
        Loop receiveTime ok c buf (.ok (ok', c', buf'))
  | more {ok ok' : Bool} {c c' : HttpContext} {buf buf' : Buffer}
      {result : Except Stop (Bool × HttpContext × Buffer)} :
      turn receiveTime ok c buf = .ok ⟨true, ok', c', buf'⟩ → Loop receiveTime ok' c' buf' result →
        Loop receiveTime ok c buf result

/-- The loop comes to the head of a turn. -/
inductive Visits (receiveTime : Nat) :
    Bool → HttpContext → Buffer → Bool → HttpContext → Buffer → Prop where
  | here {ok : Bool} {c : HttpContext} {buf : Buffer} : Visits receiveTime ok c buf ok c buf
  | more {ok ok' ok'' : Bool} {c c' c'' : HttpContext} {buf buf' buf'' : Buffer} :
      Visits receiveTime ok c buf ok' c' buf' →
        turn receiveTime ok' c' buf' = .ok ⟨true, ok'', c'', buf''⟩ →
          Visits receiveTime ok c buf ok'' c'' buf''

section Loop

variable {t : Nat} {ok ok' : Bool} {c c' : HttpContext} {buf buf' : Buffer}
  {result result' : Except Stop (Bool × HttpContext × Buffer)}

theorem Loop.unique (h : Loop t ok c buf result) (h' : Loop t ok c buf result') :
    result = result' := by
  -- a turn has one result, which fixes the constructor
  induction h with
  | stop hturn =>
      cases h' with
      | stop hturn' =>
          rw [hturn] at hturn'
          cases hturn'
          rfl
      | last hturn' =>
          rw [hturn] at hturn'
          cases hturn'
      | more hturn' _ =>
          rw [hturn] at hturn'
          cases hturn'
  | last hturn =>
      cases h' with
      | stop hturn' =>
          rw [hturn] at hturn'
          cases hturn'
      | last hturn' =>
          rw [hturn] at hturn'
          cases hturn'
          rfl
      | more hturn' _ =>
          rw [hturn] at hturn'
          cases hturn'
  | more hturn _ ih =>
      cases h' with
      | stop hturn' =>
          rw [hturn] at hturn'
          cases hturn'
      | last hturn' =>
          rw [hturn] at hturn'
          cases hturn'
      | more hturn' hloop =>
          rw [hturn] at hturn'
          cases hturn'
          exact ih hloop

/-- Neither state has a way out of the loop. -/
theorem not_loop (hc : c.state_ = .kExpectBody ∨ c.state_ = .kGotAll) : ¬ Loop t ok c buf result := by
  have hspin : ∀ ok buf, turn t ok c buf = .ok ⟨true, ok, c, buf⟩ := by
    intro ok buf
    rcases hc with hc | hc <;> rw [turn, hc]
  intro h
  induction h with
  | stop hturn =>
      rw [hspin] at hturn
      cases hturn
  | last hturn =>
      rw [hspin] at hturn
      cases hturn
  | more hturn _ ih =>
      rw [hspin] at hturn
      cases hturn
      exact ih hc hspin

/-- A turn after which the loop goes on has taken a line with its CRLF. -/
theorem turn_more (hc : c.Expects) (h : turn t ok c buf = .ok ⟨true, ok', c', buf'⟩) :
    c'.Expects ∧ buf'.readableBytes + 2 ≤ buf.readableBytes := by
  -- `retrieveUntil(crlf + 2)` takes two bytes at least
  have htaken : ∀ {crlf : Nat} {b : Buffer},
      buf.retrieveUntil (buf.readerIndex_ + crlf + 2) = some b →
        b.readableBytes + 2 ≤ buf.readableBytes := by
    intro crlf b hb
    unfold Buffer.retrieveUntil at hb
    rcases Option.bind_eq_some_iff.1 hb with ⟨-, -, hb⟩
    rcases Option.bind_eq_some_iff.1 hb with ⟨-, -, hb⟩
    rcases Buffer.readableBytes_of_retrieve hb with ⟨hlen, hle⟩
    omega
  unfold turn at h
  rcases hc with hc | hc
  · rw [hc] at h
    dsimp only at h
    split at h
    · cases h
    · split at h
      · cases h
      · split at h
        · cases h
        · rename_i hb
          cases h
          exact ⟨Or.inr rfl, htaken hb⟩
      · cases h
  · rw [hc] at h
    dsimp only at h
    split at h
    · cases h
    · split at h
      · cases h
      · rename_i hb
        split at h
        · cases h
          exact ⟨Or.inr rfl, htaken hb⟩
        · cases h

theorem Visits.expects (hc : c.Expects) (h : Visits t ok c buf ok' c' buf') : c'.Expects := by
  induction h with
  | here => exact hc
  | more _ hturn ih => exact (turn_more (ih hc) hturn).1

/-! ## The loop and `parseRequest` -/

/-- The result of `HttpContext.parseRequest` without the proofs its buffer carries. -/
def rawResult (result : Except Stop (Bool × HttpContext × WfBuffer)) :
    Except Stop (Bool × HttpContext × Buffer) :=
  result.map fun p => (p.1, p.2.1, p.2.2.raw)

/-- The line and its CRLF are in the buffer, so both assertions of `retrieveUntil` hold. -/
theorem retrieveUntil_raw (buf : WfBuffer) {crlf : Nat}
    (h : Bytes.findCRLF buf.readable = some crlf) :
    buf.raw.retrieveUntil (buf.raw.readerIndex_ + crlf + 2) =
      some (buf.retrieve (crlf + 2) (HttpContext.crlf_le h)).raw := by
  have hle : crlf + 2 ≤ buf.raw.readableBytes := HttpContext.crlf_le h
  have hstart : buf.raw.readerIndex_ ≤ buf.raw.readerIndex_ + crlf + 2 := by omega
  have hend : buf.raw.readerIndex_ + crlf + 2 ≤ buf.raw.writerIndex_ := by
    have hinv := buf.inv.reader_le_writer
    unfold Buffer.readableBytes at hle
    omega
  have hlen : buf.raw.readerIndex_ + crlf + 2 - buf.raw.readerIndex_ = crlf + 2 := by omega
  have hretrieve := WfBuffer.raw_retrieve buf (crlf + 2) (HttpContext.crlf_le h)
  simp [Buffer.retrieveUntil, hstart, hend, hlen, hretrieve]

theorem turn_of_none (hc : c.Expects) {buf : WfBuffer} (h : Bytes.findCRLF buf.readable = none) :
    turn t ok c buf.raw = .ok ⟨false, ok, c, buf.raw⟩ := by
  have hraw : Bytes.findCRLF buf.raw.readable = none := h
  rcases hc with hc | hc
  · rw [turn, hc, hraw]
  · rw [turn, hc, hraw]

theorem turn_requestLine (hc : c.state_ = .kExpectRequestLine) {buf : WfBuffer} {crlf : Nat}
    (h : Bytes.findCRLF buf.readable = some crlf) :
    turn t ok c buf.raw = match processRequestLine c.request_ (buf.readable.take crlf) with
      | .error stop => .error stop
      | .ok (true, r) => .ok ⟨true, true, ⟨.kExpectHeaders, { r with receiveTime_ := t }⟩,
          (buf.retrieve (crlf + 2) (HttpContext.crlf_le h)).raw⟩
      | .ok (false, r) => .ok ⟨false, false, { c with request_ := r }, buf.raw⟩ := by
  have hraw : Bytes.findCRLF buf.raw.readable = some crlf := h
  have htake : buf.raw.readable.take crlf = buf.readable.take crlf := rfl
  rw [turn, hc]
  dsimp only
  rw [hraw]
  dsimp only
  rw [htake]
  cases processRequestLine c.request_ (buf.readable.take crlf) with
  | error stop => rfl
  | ok result =>
      rcases result with ⟨_ | _, r⟩
      · rfl
      · dsimp only
        rw [retrieveUntil_raw buf h]

theorem turn_header (hc : c.state_ = .kExpectHeaders) {buf : WfBuffer} {crlf : Nat}
    (h : Bytes.findCRLF buf.readable = some crlf) :
    turn t ok c buf.raw =
      if 58 ∈ buf.readable.take crlf then
        .ok ⟨true, ok, { c with request_ := c.request_.addHeader (buf.readable.take crlf) },
          (buf.retrieve (crlf + 2) (HttpContext.crlf_le h)).raw⟩
      else .ok ⟨false, ok, { c with state_ := .kGotAll },
        (buf.retrieve (crlf + 2) (HttpContext.crlf_le h)).raw⟩ := by
  have hraw : Bytes.findCRLF buf.raw.readable = some crlf := h
  have htake : buf.raw.readable.take crlf = buf.readable.take crlf := rfl
  rw [turn, hc]
  dsimp only
  rw [hraw]
  dsimp only
  rw [retrieveUntil_raw buf h]
  dsimp only
  rw [htake]

theorem Loop.parseRequest (hc : c.Expects) (buf : WfBuffer) (t : Nat) :
    Loop t true c buf.raw (rawResult (c.parseRequest buf t)) := by
  induction hn : buf.readable.length using Nat.strong_induction_on generalizing c buf with
  | _ n ih =>
      cases hcrlf : Bytes.findCRLF buf.readable with
      | none =>
          rw [HttpContext.parseRequest_of_none hc t hcrlf]
          exact .last (turn_of_none hc hcrlf)
      | some crlf =>
          -- a turn that goes on leaves less
          have hshorter := Bytes.findCRLF_lt hcrlf
          have hrest : ∀ c', HttpContext.Expects c' →
              Loop t true c' (buf.retrieve (crlf + 2) (HttpContext.crlf_le hcrlf)).raw
                (rawResult (c'.parseRequest
                  (buf.retrieve (crlf + 2) (HttpContext.crlf_le hcrlf)) t)) := by
            intro c' hc'
            exact ih _ (by rw [WfBuffer.readable_retrieve, List.length_drop]; omega) hc' _ rfl
          rcases hc with hc | hc
          · have hturn : turn t true c buf.raw = _ := turn_requestLine hc hcrlf
            rw [HttpContext.parseRequest_requestLine hc t hcrlf]
            cases hline : processRequestLine c.request_ (buf.readable.take crlf) with
            | error stop =>
                rw [hline] at hturn
                exact .stop hturn
            | ok result =>
                rw [hline] at hturn
                rcases result with ⟨_ | _, r⟩
                · exact .last hturn
                · exact .more hturn
                    (hrest ⟨.kExpectHeaders, { r with receiveTime_ := t }⟩ (Or.inr rfl))
          · have hturn : turn t true c buf.raw = _ := turn_header hc hcrlf
            rw [HttpContext.parseRequest_header hc t hcrlf]
            by_cases hcolon : 58 ∈ buf.readable.take crlf
            · rw [if_pos hcolon] at hturn ⊢
              exact .more hturn (hrest _ (Or.inr hc))
            · rw [if_neg hcolon] at hturn ⊢
              exact .last hturn

/-- A call that returns leaves a context that expects lines, or one with the whole head. -/
theorem expects_of_parseRequest (hc : c.Expects) {buf buf' : WfBuffer}
    (h : c.parseRequest buf t = .ok (ok, c', buf')) : c'.Expects ∨ c'.gotAll = true := by
  have hreturns := HttpContext.parseRequest_run hc buf t
  rw [h] at hreturns
  cases hrun : (HttpContext.lineStep t).run c buf.readable with
  | waiting c₁ rest =>
      rw [hrun] at hreturns
      rcases hreturns with ⟨_, heq, -, hexpects⟩
      cases heq
      exact Or.inl hexpects
  | done c₁ rest =>
      rw [hrun] at hreturns
      rcases hreturns with ⟨_, heq, -, hgot⟩
      cases heq
      exact Or.inr hgot
  | failed c₁ rest =>
      rw [hrun] at hreturns
      rcases hreturns with ⟨_, heq, -, hexpects⟩
      cases heq
      exact Or.inl hexpects
  | stopped =>
      rw [hrun] at hreturns
      cases hreturns

end Loop

/-! ## Runs of the server -/

/-- A connection of `HttpServer` over a plain buffer. -/
structure RawConnection where
  context : HttpContext := {}
  inputBuffer_ : Buffer := Buffer.construct Buffer.kInitialSize
  effects : List HttpEffect := []

namespace RawConnection

open HttpConnection (badRequest onRequest Read handleReads handleRead onMessage)

/-- `onMessage` after `parseRequest` has returned. -/
def answered (httpCallback_ : HttpCallback) (conn : RawConnection) (ok : Bool)
    (context : HttpContext) (buf : Buffer) : RawConnection :=
  let effects := conn.effects ++ if ok then [] else badRequest
  if context.gotAll then
    ⟨context.reset, buf, effects ++ onRequest httpCallback_ context.request_⟩
  else ⟨context, buf, effects⟩

/-- The reads of a connection, up to one that does not return. -/
inductive Reads (httpCallback_ : HttpCallback) :
    RawConnection → List Read → Except Stop RawConnection → Prop where
  | nil {conn : RawConnection} : Reads httpCallback_ conn [] (.ok conn)
  /-- An assertion of the buffer fails when the bytes are put into it. -/
  | notRead {conn : RawConnection} {read : Read} {reads : List Read} :
      conn.inputBuffer_.readFd read.data = none →
        Reads httpCallback_ conn (read :: reads) (.error .assertionFailed)
  | stop {conn : RawConnection} {read : Read} {reads : List Read} {buf : Buffer} {stop : Stop} :
      conn.inputBuffer_.readFd read.data = some buf →
        Loop read.receiveTime true conn.context buf (.error stop) →
          Reads httpCallback_ conn (read :: reads) (.error stop)
  | read {conn : RawConnection} {read : Read} {reads : List Read} {buf buf' : Buffer} {ok : Bool}
      {context : HttpContext} {result : Except Stop RawConnection} :
      conn.inputBuffer_.readFd read.data = some buf →
        Loop read.receiveTime true conn.context buf (.ok (ok, context, buf')) →
          Reads httpCallback_ (conn.answered httpCallback_ ok context buf') reads result →
            Reads httpCallback_ conn (read :: reads) result

/-- The connection of `HttpServer` without the proofs its buffer carries. -/
def ofConnection (conn : HttpConnection) : RawConnection where
  context := conn.context
  inputBuffer_ := conn.inputBuffer_.raw
  effects := conn.effects

variable {httpCallback_ : HttpCallback}

theorem Reads.unique {conn : RawConnection} {reads : List Read}
    {result result' : Except Stop RawConnection} (h : Reads httpCallback_ conn reads result)
    (h' : Reads httpCallback_ conn reads result') : result = result' := by
  induction h with
  | nil =>
      cases h'
      rfl
  | notRead hbuf =>
      cases h' with
      | notRead _ => rfl
      | stop hbuf' _ => simp [hbuf] at hbuf'
      | read hbuf' _ _ => simp [hbuf] at hbuf'
  | stop hbuf hloop =>
      cases h' with
      | notRead hbuf' => simp [hbuf] at hbuf'
      | stop hbuf' hloop' =>
          rw [hbuf] at hbuf'
          cases hbuf'
          cases hloop.unique hloop'
          rfl
      | read hbuf' hloop' _ =>
          rw [hbuf] at hbuf'
          cases hbuf'
          cases hloop.unique hloop'
  | read hbuf hloop _ ih =>
      cases h' with
      | notRead hbuf' => simp [hbuf] at hbuf'
      | stop hbuf' hloop' =>
          rw [hbuf] at hbuf'
          cases hbuf'
          cases hloop.unique hloop'
      | read hbuf' hloop' hreads' =>
          rw [hbuf] at hbuf'
          cases hbuf'
          cases hloop.unique hloop'
          exact ih hreads'

theorem expects_handleRead {conn conn' : HttpConnection} {read : Read} (hc : conn.context.Expects)
    (h : conn.handleRead httpCallback_ read = .ok conn') : conn'.context.Expects := by
  unfold handleRead onMessage at h
  dsimp only at h
  split at h
  · cases h
  · rename_i ok context buf hparse
    rcases expects_of_parseRequest hc hparse with hexpects | hgot
    · rw [if_neg (by rw [hexpects.not_gotAll]; simp)] at h
      cases h
      exact hexpects
    · rw [if_pos hgot] at h
      cases h
      exact Or.inl rfl

/-- The reads of `HttpServer` are such runs. -/
theorem reads_handleReads (conn : HttpConnection) (hc : conn.context.Expects) (reads : List Read) :
    Reads httpCallback_ (ofConnection conn) reads
      ((handleReads httpCallback_ conn reads).map ofConnection) := by
  induction reads generalizing conn with
  | nil => exact .nil
  | cons read reads ih =>
      have hbuf : (ofConnection conn).inputBuffer_.readFd read.data = some _ :=
        WfBuffer.raw_readFd conn.inputBuffer_ read.data
      have hloop := Loop.parseRequest hc (conn.inputBuffer_.readFd read.data) read.receiveTime
      rw [handleReads]
      cases hread : conn.handleRead httpCallback_ read with
      | error stop =>
          have hparse : conn.context.parseRequest (conn.inputBuffer_.readFd read.data)
              read.receiveTime = .error stop := by
            unfold handleRead onMessage at hread
            dsimp only at hread
            split at hread
            · rename_i hparse
              cases hread
              exact hparse
            · split at hread <;> cases hread
          rw [hparse] at hloop
          exact .stop hbuf hloop
      | ok conn' =>
          have hrest := ih conn' (expects_handleRead hc hread)
          unfold handleRead onMessage at hread
          dsimp only at hread
          split at hread
          · cases hread
          · rename_i ok context buf hparse
            rw [hparse] at hloop
            refine .read hbuf hloop ?_
            have hanswered : answered httpCallback_ (ofConnection conn) ok context buf.raw =
                ofConnection conn' := by
              unfold answered
              by_cases hgot : context.gotAll = true
              · rw [if_pos hgot] at hread ⊢
                cases hread
                rfl
              · rw [if_neg hgot] at hread ⊢
                cases hread
                rfl
            rw [hanswered]
            exact hrest

theorem expects_handleReads {conn conn' : HttpConnection} {reads : List Read}
    (hc : conn.context.Expects) (h : handleReads httpCallback_ conn reads = .ok conn') :
    conn'.context.Expects := by
  induction reads generalizing conn with
  | nil =>
      cases h
      exact hc
  | cons read reads ih =>
      rw [handleReads] at h
      cases hread : conn.handleRead httpCallback_ read with
      | error stop =>
          rw [hread] at h
          cases h
      | ok conn₁ =>
          rw [hread] at h
          exact ih (expects_handleRead hc hread) h

/-- Between the reads of a run the context expects lines. -/
theorem Reads.reached {conn : RawConnection} {reads : List Read}
    (h : Reads httpCallback_ {} reads (.ok conn)) :
    ∃ conn', conn = ofConnection conn' ∧ handleReads httpCallback_ {} reads = .ok conn' ∧
      conn'.context.Expects := by
  have hreads : Reads httpCallback_ {} reads _ :=
    reads_handleReads {} (Or.inl rfl) reads
  cases hrun : handleReads httpCallback_ {} reads with
  | error stop =>
      rw [hrun] at hreads
      cases h.unique hreads
  | ok conn' =>
      rw [hrun] at hreads
      cases h.unique hreads
      exact ⟨conn', rfl, rfl, expects_handleReads (Or.inl rfl) hrun⟩

/-- Whatever has been read, the loop of the next call starts in a state it can leave, ends, and takes
two bytes or more off the buffer in each turn but the last. -/
theorem parseRequest_terminates (httpCallback_ : HttpCallback) (reads : List Read)
    (conn : RawConnection) (h : Reads httpCallback_ {} reads (.ok conn)) (read : Read) :
    ∃ buf, conn.inputBuffer_.readFd read.data = some buf ∧ conn.context.Expects ∧
      (∃ result, Loop read.receiveTime true conn.context buf result) ∧
      (∀ ok c b, Visits read.receiveTime true conn.context buf ok c b →
        ∀ ok' c' b', turn read.receiveTime ok c b = .ok ⟨true, ok', c', b'⟩ →
          b'.readableBytes + 2 ≤ b.readableBytes) ∧
      ∀ c : HttpContext, c.state_ = .kExpectBody ∨ c.state_ = .kGotAll →
        ∀ ok b, ¬ ∃ result, Loop read.receiveTime ok c b result := by
  rcases h.reached with ⟨conn', rfl, -, hc⟩
  refine ⟨_, WfBuffer.raw_readFd conn'.inputBuffer_ read.data, hc,
    ⟨_, Loop.parseRequest hc _ read.receiveTime⟩, ?_, ?_⟩
  · intro ok c b hvisits ok' c' b' hturn
    exact (turn_more (hvisits.expects hc) hturn).2
  · rintro c hc' ok b ⟨result, hloop⟩
    exact not_loop hc' hloop

theorem parseRequest_terminates_start :
    ∃ result, Loop 5 true ({} : RawConnection).context
      ((WfBuffer.construct Buffer.kInitialSize).readFd (Bytes.ofString "GET / HTTP")).raw result := by
  obtain ⟨buf, hbuf, -, hloop, -⟩ :=
    parseRequest_terminates (fun _ response => response) [] {} .nil
      { data := Bytes.ofString "GET / HTTP", receiveTime := 5 }
  have hraw := WfBuffer.raw_readFd (WfBuffer.construct Buffer.kInitialSize)
    (Bytes.ofString "GET / HTTP")
  rw [Option.some.inj (hbuf.symm.trans hraw)] at hloop
  exact hloop

end RawConnection
end Http
end Longky
