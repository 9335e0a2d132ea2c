import Longky.Http.ParseLoop

/-!
# Assertions — a rejected request line that comes back

`HttpServer::onMessage` answers a request line it cannot parse with 400 and leaves the line in the
buffer and the context as it is.  If the method was good, `HttpRequest::setMethod` has set it, and
asserts that it has not when the next read brings the parser back to the line.

`no_assertion_fails_iff`: the assertions of the server hold over a sequence of reads exactly when no
read but the last brings a line that is rejected behind its method.
-/

namespace Longky
namespace Http

open Lib Net

/-- The line begins with a known method and a blank. -/
def StartsWithMethod (line : Bytes) : Prop :=
  ∃ method rest, method ≠ Method.kInvalid ∧ line = method.methodString ++ 32 :: rest

/-- The first line is rejected, but its method is known. -/
def RejectedBehindMethod (bs : Bytes) : Prop :=
  ∃ line rest, bs = line ++ 13 :: 10 :: rest ∧ Bytes.findCRLF line = none ∧
    StartsWithMethod line ∧ ¬ HttpContext.ValidRequestLine line

/-- A request line is expected, and the read brings or completes one that is rejected so. -/
def RejectsBehindMethod (c : HttpContext) (waiting : Bytes) (read : HttpConnection.Read) : Prop :=
  c.state_ = .kExpectRequestLine ∧ RejectedBehindMethod (waiting ++ read.data)

theorem not_rejectedBehindMethod {bs : Bytes} (h : Bytes.findCRLF bs = none) :
    ¬ RejectedBehindMethod bs := by
  rintro ⟨line, rest, rfl, hline, -⟩
  rw [Bytes.findCRLF_of_none hline] at h
  cases h

theorem rejectedBehindMethod_iff {bs : Bytes} {n : Nat} (h : Bytes.findCRLF bs = some n) :
    RejectedBehindMethod bs ↔
      StartsWithMethod (bs.take n) ∧ ¬ HttpContext.ValidRequestLine (bs.take n) := by
  constructor
  · rintro ⟨line, rest, hbs, hline, hrejected⟩
    have hsplit := Bytes.findCRLF_split h
    rw [hbs] at hsplit
    rcases Bytes.line_cancel hline (Bytes.findCRLF_take (hbs ▸ h)) hsplit with ⟨hfirst, -⟩
    rw [hbs, ← hfirst]
    exact hrejected
  · exact fun hrejected =>
      ⟨bs.take n, bs.drop (n + 2), Bytes.findCRLF_split h, Bytes.findCRLF_take h, hrejected⟩

/-! ## Request lines -/

section Lines

variable {r r' : HttpRequest} {line rest : Bytes}

theorem method_processTarget : (processTarget r rest).2.method_ = r.method_ := by
  unfold processTarget
  dsimp only
  split_ifs <;> rfl

theorem startsWithMethod_iff : StartsWithMethod line ↔
    (line.takeWhile (· != 32)).length ≠ line.length ∧
      Method.ofText (line.takeWhile (· != 32)) ≠ .kInvalid := by
  constructor
  · rintro ⟨method, rest, hvalid, rfl⟩
    refine ⟨length_word method.not_mem_methodString rest, ?_⟩
    rw [Request.takeWhile_blank method.not_mem_methodString, Method.ofText_methodString _ hvalid]
    exact hvalid
  · rintro ⟨hlen, hvalid⟩
    have hcut := blank_cut hlen
    rw [← Method.methodString_ofText hvalid] at hcut
    exact ⟨_, _, hvalid, hcut⟩

/-- A line that is not accepted leaves the method set if it begins with one. -/
theorem processRequestLine_rejects (hr : r.method_ = .kInvalid)
    (hnot : ¬ HttpContext.ValidRequestLine line) :
    ∃ r', processRequestLine r line = .ok (false, r') ∧
      (r'.method_ ≠ .kInvalid ↔ StartsWithMethod line) := by
  rw [startsWithMethod_iff]
  rcases (processRequestLine_iff r hr line).2.2 with ⟨ok, r', hline⟩
  cases ok with
  | true => exact absurd (processRequestLine_sound hr hline) hnot
  | false =>
      refine ⟨r', hline, ?_⟩
      rw [processRequestLine_fresh hr] at hline
      by_cases hlen : (line.takeWhile (· != 32)).length = line.length
      · rw [if_pos hlen] at hline
        cases hline
        simp [hr, hlen]
      · rw [if_neg hlen] at hline
        by_cases hmethod : Method.ofText (line.takeWhile (· != 32)) = .kInvalid
        · rw [if_pos hmethod] at hline
          cases hline
          simp [hr, hmethod]
        · rw [if_neg hmethod] at hline
          -- `processTarget` has failed, but the method is in the request by now
          have hset := congrArg (fun p => p.2.method_) (Except.ok.inj hline)
          rw [← hset]
          simp [method_processTarget, hlen]

/-- With the method set, the assertion of `setMethod` fails on a line with a blank. -/
theorem processRequestLine_again (hr : r.method_ ≠ .kInvalid) (hline : StartsWithMethod line) :
    processRequestLine r line = .error .assertionFailed := by
  unfold processRequestLine
  dsimp only
  rw [if_neg (startsWithMethod_iff.1 hline).1, HttpRequest.setMethod, if_neg hr]

end Lines

/-! ## One read -/

namespace HttpConnection

variable {httpCallback_ : HttpCallback} {conn : HttpConnection} {read : Read}

/-- A request line that is expected is parsed for the first time. -/
structure Fresh (conn : HttpConnection) : Prop where
  expects : conn.context.Expects
  no_method : conn.context.state_ = .kExpectRequestLine → conn.context.request_.method_ = .kInvalid

/-- The buffer begins with a line that has been rejected behind its method. -/
structure Spent (conn : HttpConnection) : Prop where
  state : conn.context.state_ = .kExpectRequestLine
  method_set : conn.context.request_.method_ ≠ .kInvalid
  first_line : ∃ line rest, conn.inputBuffer_.readable = line ++ 13 :: 10 :: rest ∧
    Bytes.findCRLF line = none ∧ StartsWithMethod line

theorem handleRead_of_parse (httpCallback_ : HttpCallback) {ok : Bool} {c : HttpContext}
    {buf : WfBuffer}
    (h : conn.context.parseRequest (conn.inputBuffer_.readFd read.data) read.receiveTime =
      .ok (ok, c, buf)) :
    ∃ conn', conn.handleRead httpCallback_ read = .ok conn' ∧
      conn'.context = (if c.gotAll then {} else c) ∧ conn'.inputBuffer_ = buf := by
  unfold handleRead onMessage
  dsimp only
  rw [h]
  dsimp only
  by_cases hgot : c.gotAll = true
  · rw [if_pos hgot, if_pos hgot]
    exact ⟨_, rfl, rfl, rfl⟩
  · rw [if_neg hgot, if_neg hgot]
    exact ⟨_, rfl, rfl, rfl⟩

/-- The parser fails on no header line. -/
theorem parseRequest_headers {c : HttpContext} (hc : c.state_ = .kExpectHeaders) (buf : WfBuffer)
    (t : Nat) :
    ∃ c' buf', c.parseRequest buf t = .ok (true, c', buf') ∧
      (c'.state_ = .kExpectHeaders ∨ c'.gotAll = true) := by
  induction hn : buf.readable.length using Nat.strong_induction_on generalizing c buf with
  | _ n ih =>
      cases hcrlf : Bytes.findCRLF buf.readable with
      | none => exact ⟨c, buf, HttpContext.parseRequest_of_none (Or.inr hc) t hcrlf, Or.inl hc⟩
      | some crlf =>
          -- each line that is taken leaves less, so the induction is on what is readable
          have hshorter := Bytes.findCRLF_lt hcrlf
          rw [HttpContext.parseRequest_header hc t hcrlf]
          by_cases hcolon : 58 ∈ buf.readable.take crlf
          · rw [if_pos hcolon]
            exact ih _ (by rw [WfBuffer.readable_retrieve, List.length_drop]; omega)
              (c := { c with request_ := c.request_.addHeader (buf.readable.take crlf) }) hc _ rfl
          · rw [if_neg hcolon]
            exact ⟨_, _, rfl, Or.inr rfl⟩

/-- A context behind its request line is fresh, also when the head is complete. -/
theorem fresh_of_headers {c : HttpContext} {conn : HttpConnection}
    (hc : c.state_ = .kExpectHeaders ∨ c.gotAll = true)
    (hconn : conn.context = if c.gotAll then {} else c) : conn.Fresh := by
  by_cases hgot : c.gotAll = true
  · rw [if_pos hgot] at hconn
    exact ⟨by rw [hconn]; exact Or.inl rfl, fun _ => by rw [hconn]⟩
  · rw [if_neg hgot] at hconn
    have hheaders : conn.context.state_ = .kExpectHeaders := by
      rw [hconn]
      exact hc.resolve_right hgot
    exact ⟨Or.inr hheaders, fun hline => by rw [hheaders] at hline; cases hline⟩

theorem handleRead_headers (httpCallback_ : HttpCallback) (read : Read)
    (hc : conn.context.state_ = .kExpectHeaders) :
    ∃ conn', conn.handleRead httpCallback_ read = .ok conn' ∧ conn'.Fresh := by
  obtain ⟨c, buf, hparse, hstate⟩ :=
    parseRequest_headers hc (conn.inputBuffer_.readFd read.data) read.receiveTime
  rcases handleRead_of_parse httpCallback_ hparse with ⟨conn', hread, hconn, -⟩
  exact ⟨conn', hread, fresh_of_headers hstate hconn⟩

theorem Fresh.handleRead (h : conn.Fresh) (httpCallback_ : HttpCallback) (read : Read) :
    ∃ conn', conn.handleRead httpCallback_ read = .ok conn' ∧
      (RejectsBehindMethod conn.context conn.inputBuffer_.readable read → conn'.Spent) ∧
      (¬ RejectsBehindMethod conn.context conn.inputBuffer_.readable read → conn'.Fresh) := by
  rcases h.expects with hstate | hstate
  · have hr := h.no_method hstate
    have hbuf := WfBuffer.readable_readFd conn.inputBuffer_ read.data
    cases hcrlf : Bytes.findCRLF (conn.inputBuffer_.readFd read.data).readable with
    | none =>
        -- no line is complete
        have hparse := HttpContext.parseRequest_of_none h.expects read.receiveTime hcrlf
        rcases handleRead_of_parse httpCallback_ hparse with ⟨conn', hread, hconn, -⟩
        rw [if_neg (by rw [h.expects.not_gotAll]; simp)] at hconn
        refine ⟨conn', hread, fun hrej => ?_, fun _ => ?_⟩
        · rw [hbuf] at hcrlf
          exact absurd hrej.2 (not_rejectedBehindMethod hcrlf)
        · exact ⟨by rw [hconn]; exact h.expects, by rw [hconn]; exact h.no_method⟩
    | some crlf =>
        have hrej : RejectsBehindMethod conn.context conn.inputBuffer_.readable read ↔ _ :=
          and_iff_right hstate
        rw [← hbuf, rejectedBehindMethod_iff hcrlf] at hrej
        have hrun := HttpContext.parseRequest_requestLine hstate read.receiveTime hcrlf
        by_cases hvalid : HttpContext.ValidRequestLine
            ((conn.inputBuffer_.readFd read.data).readable.take crlf)
        · -- the line is taken and the headers follow
          rcases hvalid with ⟨method, target, version, hline⟩
          rw [processRequestLine_accepts hr hline] at hrun
          obtain ⟨c, buf, hparse, hheaders⟩ := parseRequest_headers (c := ⟨.kExpectHeaders, _⟩) rfl
            _ read.receiveTime
          rcases handleRead_of_parse httpCallback_ (hrun.trans hparse) with
            ⟨conn', hread, hconn, -⟩
          exact ⟨conn', hread, fun hr' => absurd ⟨method, target, version, hline⟩ (hrej.1 hr').2,
            fun _ => fresh_of_headers hheaders hconn⟩
        · -- the line stays, and with it what `setMethod` has done
          rcases processRequestLine_rejects hr hvalid with ⟨r', hline, hmethod⟩
          rw [hline] at hrun
          rcases handleRead_of_parse httpCallback_ hrun with ⟨conn', hread, hconn, hbuf'⟩
          have hnot : HttpContext.gotAll { conn.context with request_ := r' } = false :=
            HttpContext.Expects.not_gotAll (Or.inl hstate)
          rw [if_neg (by rw [hnot]; simp)] at hconn
          refine ⟨conn', hread, fun hr' => ?_, fun hr' => ?_⟩
          · refine ⟨by rw [hconn]; exact hstate, ?_, ?_⟩
            · rw [hconn]
              exact hmethod.2 (hrej.1 hr').1
            · rw [hbuf']
              exact ⟨_, _, Bytes.findCRLF_split hcrlf, Bytes.findCRLF_take hcrlf, (hrej.1 hr').1⟩
          · refine ⟨by rw [hconn]; exact Or.inl hstate, fun _ => ?_⟩
            rw [hconn]
            by_contra hset
            exact hr' (hrej.2 ⟨hmethod.1 hset, hvalid⟩)
  -- behind the request line nothing is rejected
  · rcases handleRead_headers httpCallback_ read hstate with ⟨conn', hread, hfresh⟩
    refine ⟨conn', hread, fun hrej => ?_, fun _ => hfresh⟩
    rw [RejectsBehindMethod, hstate] at hrej
    cases hrej.1

theorem Spent.handleRead (h : conn.Spent) (httpCallback_ : HttpCallback) (read : Read) :
    conn.handleRead httpCallback_ read = .error .assertionFailed := by
  rcases h.first_line with ⟨line, rest, hbuf, hline, hmethod⟩
  have hreadable : (conn.inputBuffer_.readFd read.data).readable =
      line ++ 13 :: 10 :: (rest ++ read.data) := by
    rw [WfBuffer.readable_readFd, hbuf]
    simp
  -- the same line is found again, whatever the read brings
  have hcrlf : Bytes.findCRLF (conn.inputBuffer_.readFd read.data).readable =
      some line.length := by
    rw [hreadable]
    exact Bytes.findCRLF_of_none hline _
  have hparse : conn.context.parseRequest (conn.inputBuffer_.readFd read.data) read.receiveTime =
      .error .assertionFailed := by
    rw [HttpContext.parseRequest_requestLine h.state read.receiveTime hcrlf, hreadable,
      List.take_left, processRequestLine_again h.method_set hmethod]
  unfold HttpConnection.handleRead onMessage
  dsimp only
  rw [hparse]

/-- No read but the last is rejected behind its method. -/
def RejectsOnlyLast (httpCallback_ : HttpCallback) (conn : HttpConnection) (reads : List Read) :
    Prop :=
  ∀ before read after conn', reads = before ++ read :: after → after ≠ [] →
    handleReads httpCallback_ conn before = .ok conn' →
      ¬ RejectsBehindMethod conn'.context conn'.inputBuffer_.readable read

theorem rejectsOnlyLast_cons {conn' : HttpConnection} {reads : List Read}
    (hread : conn.handleRead httpCallback_ read = .ok conn') :
    RejectsOnlyLast httpCallback_ conn (read :: reads) ↔
      (reads ≠ [] → ¬ RejectsBehindMethod conn.context conn.inputBuffer_.readable read) ∧
        RejectsOnlyLast httpCallback_ conn' reads := by
  constructor
  · intro h
    refine ⟨fun hne => h [] read reads conn rfl hne rfl, ?_⟩
    intro before read' after conn'' hsplit hne hbefore
    refine h (read :: before) read' after conn'' (by rw [hsplit]; rfl) hne ?_
    rw [handleReads, hread]
    exact hbefore
  · rintro ⟨hfirst, hrest⟩ before read' after conn'' hsplit hne hbefore
    cases before with
    | nil =>
        cases hsplit
        cases hbefore
        exact hfirst hne
    | cons r before =>
        cases hsplit
        rw [handleReads, hread] at hbefore
        exact hrest before read' after conn'' rfl hne hbefore

theorem Fresh.handleReads (h : conn.Fresh) (reads : List Read) :
    handleReads httpCallback_ conn reads ≠ .error .assertionFailed ↔
      RejectsOnlyLast httpCallback_ conn reads := by
  induction reads generalizing conn with
  | nil =>
      refine ⟨fun _ before read after conn' hsplit => ?_, fun _ hfail => by cases hfail⟩
      cases before <;> cases hsplit
  | cons read reads ih =>
      rcases h.handleRead httpCallback_ read with ⟨conn', hread, hspent, hfresh⟩
      have hreads : HttpConnection.handleReads httpCallback_ conn (read :: reads) =
          HttpConnection.handleReads httpCallback_ conn' reads := by
        rw [HttpConnection.handleReads, hread]
        rfl
      rw [hreads, rejectsOnlyLast_cons hread]
      by_cases hrej : RejectsBehindMethod conn.context conn.inputBuffer_.readable read
      -- this read is rejected behind its method: the next one, if there is one, aborts
      · cases reads with
        | nil =>
            refine ⟨fun _ => ⟨fun hne => absurd rfl hne, ?_⟩, fun _ hfail => by cases hfail⟩
            intro before read' after conn'' hsplit
            cases before <;> cases hsplit
        | cons read' reads =>
            have hfail : HttpConnection.handleReads httpCallback_ conn' (read' :: reads) =
                .error .assertionFailed := by
              rw [HttpConnection.handleReads, (hspent hrej).handleRead]
              rfl
            refine ⟨fun hok => absurd hfail hok, fun hcond => ?_⟩
            exact absurd hrej (hcond.1 (by simp))
      · rw [ih (hfresh hrej)]
        exact ⟨fun hrest => ⟨fun _ => hrej, hrest⟩, fun hcond => hcond.2⟩

theorem fresh_start : ({} : HttpConnection).Fresh := ⟨Or.inl rfl, fun _ => rfl⟩

end HttpConnection

/-! ## Runs -/

namespace RawConnection

open HttpConnection (Read handleReads)

variable {httpCallback_ : HttpCallback}

theorem reads_iff {reads : List Read} {result : Except Stop RawConnection} :
    Reads httpCallback_ {} reads result ↔
      result = (handleReads httpCallback_ {} reads).map ofConnection := by
  have hreads : Reads httpCallback_ {} reads _ := reads_handleReads {} (Or.inl rfl) reads
  constructor
  · exact fun h => h.unique hreads
  · rintro rfl
    exact hreads

theorem reads_fails_iff {reads : List Read} {stop : Stop} :
    Reads httpCallback_ {} reads (.error stop) ↔
      handleReads httpCallback_ {} reads = .error stop := by
  rw [reads_iff]
  cases handleReads httpCallback_ {} reads with
  | error stop' =>
      constructor
      · intro h
        cases h
        rfl
      · intro h
        cases h
        rfl
  | ok conn =>
      constructor
      · intro h
        cases h
      · intro h
        cases h

/-- No assertion fails in a sequence of reads if and only if no read before the last one brings a
request line that is rejected although it begins with a known method. -/
theorem no_assertion_fails_iff (httpCallback_ : HttpCallback) (reads : List Read) :
    ¬ Reads httpCallback_ {} reads (.error .assertionFailed) ↔
      ∀ before read after conn, reads = before ++ read :: after → after ≠ [] →
        Reads httpCallback_ {} before (.ok conn) →
          ¬ RejectsBehindMethod conn.context conn.inputBuffer_.readable read := by
  rw [reads_fails_iff]
  refine Iff.trans (HttpConnection.fresh_start.handleReads reads) ?_
  constructor
  · intro h before read after conn hsplit hne hbefore
    rcases hbefore.reached with ⟨conn', rfl, hrun, -⟩
    exact h before read after conn' hsplit hne hrun
  · intro h before read after conn hsplit hne hrun
    exact h before read after (ofConnection conn) hsplit hne
      (reads_iff.2 (by rw [hrun]; rfl))

/-- A line with a method and no version, and any byte behind it. -/
theorem rejected_line_aborts :
    Reads (fun _ response => response) {}
      [{ data := Bytes.ofString "GET /\r\n" }, { data := Bytes.ofString "x" }]
      (.error .assertionFailed) := by
  have hrejected : RejectsBehindMethod {} (WfBuffer.construct Buffer.kInitialSize).readable
      { data := Bytes.ofString "GET /\r\n" } := by
    refine ⟨rfl, ?_⟩
    rw [WfBuffer.readable_construct]
    refine ⟨Bytes.ofString "GET /", [], by decide, by decide, ?_, ?_⟩
    · exact ⟨.kGet, [47], by decide, by decide⟩
    · rintro ⟨method, target, version, hline⟩
      have hparse := processRequestLine_accepts (r := {}) rfl hline
      have hreject : processRequestLine {} (Bytes.ofString "GET /") =
          .ok (false, { method_ := .kGet }) := rfl
      rw [hreject] at hparse
      cases hparse
  obtain ⟨conn, hread, hspent, -⟩ := HttpConnection.fresh_start.handleRead
    (fun _ response => response) { data := Bytes.ofString "GET /\r\n" }
  rw [reads_fails_iff, handleReads, hread]
  change (conn.handleRead _ _).bind _ = _
  rw [(hspent hrejected).handleRead]
  rfl

end RawConnection
end Http
end Longky
