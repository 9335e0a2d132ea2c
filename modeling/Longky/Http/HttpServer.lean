import Longky.Http.HttpContext

/-!
# HttpServer — requests of one connection, cut into reads

`netLayer/http/HttpServer.cpp` and `netLayer/http/HttpResponse.{h,cpp}`.  `onMessage` answers at most
one request for each read; what it leaves in the buffer waits for the next read, if there is one.

`pipelined_iff` says for which cuttings every request is answered once all bytes have arrived.
-/

namespace Longky
namespace Http

open Lib Net

/-! ## Responses -/

structure HttpResponse where
  statusCode_ : Nat := 0
  statusMessage_ : Bytes := []
  closeConnection_ : Bool
  /-- In the order of the keys. -/
  headers_ : List (Bytes × Bytes) := []
  body_ : Bytes := []

namespace HttpResponse

/-- `snprintf` into `buf[32]`. -/
def intoBuf (text : Bytes) : Bytes := text.take 31

/-- What `appendToBuffer` appends while all strings are shorter than 2 GiB.  `StringPiece` has an
`int` for the length of a string; `HttpResponse.output` of `KeepAlive` has what comes of longer
ones. -/
def appendToBuffer (r : HttpResponse) : Bytes :=
  intoBuf (Bytes.ofString "HTTP/1.1 " ++ Bytes.ofString (toString r.statusCode_) ++ [32]) ++
    r.statusMessage_ ++ Bytes.ofString "\r\n" ++
    (if r.closeConnection_ then Bytes.ofString "Connection: close\r\n"
    else intoBuf (Bytes.ofString "Content-Length: " ++
        Bytes.ofString (toString r.body_.length) ++ Bytes.ofString "\r\n") ++
      Bytes.ofString "Connection: Keep-Alive\r\n") ++
    r.headers_.flatMap (fun header =>
      header.1 ++ Bytes.ofString ": " ++ header.2 ++ Bytes.ofString "\r\n") ++
    Bytes.ofString "\r\n" ++ r.body_

end HttpResponse

/-! ## The server -/

/-- What the server does for a connection. -/
inductive HttpEffect where
  | httpCallback (request : HttpRequest)
  | send (message : Bytes)
  | shutdown

/-- The callback fills in a response that is made for the request. -/
abbrev HttpCallback := HttpRequest → HttpResponse → HttpResponse

structure HttpConnection where
  context : HttpContext := {}
  inputBuffer_ : WfBuffer := WfBuffer.construct Buffer.kInitialSize
  effects : List HttpEffect := []

namespace HttpConnection

variable (httpCallback_ : HttpCallback)

/-- `response(close)`, filled in by the callback. -/
def response (request : HttpRequest) : HttpResponse :=
  let connection := request.getHeader (Bytes.ofString "Connection")
  let close := connection == Bytes.ofString "close" ||
    (request.version_ == .kHttp10 && connection != Bytes.ofString "Keep-Alive")
  httpCallback_ request { closeConnection_ := close }

def onRequest (request : HttpRequest) : List HttpEffect :=
  let response := response httpCallback_ request
  [.httpCallback request, .send response.appendToBuffer] ++
    if response.closeConnection_ then [.shutdown] else []

def badRequest : List HttpEffect :=
  [.send (Bytes.ofString "HTTP/1.1 400 Bad Request\r\n\r\n"), .shutdown]

def onMessage (conn : HttpConnection) (receiveTime : Nat) : Except Stop HttpConnection :=
  match conn.context.parseRequest conn.inputBuffer_ receiveTime with
  | .error stop => .error stop
  | .ok (ok, context, buf) =>
      let effects := conn.effects ++ if ok then [] else badRequest
      if context.gotAll then
        .ok ⟨context.reset, buf, effects ++ onRequest httpCallback_ context.request_⟩
      else .ok ⟨context, buf, effects⟩

/-- A read, with its time. -/
structure Read where
  data : Bytes
  receiveTime : Nat := 0

def handleRead (conn : HttpConnection) (read : Read) : Except Stop HttpConnection :=
  { conn with inputBuffer_ := conn.inputBuffer_.readFd read.data }.onMessage httpCallback_
    read.receiveTime

def handleReads : HttpConnection → List Read → Except Stop HttpConnection
  | conn, [] => .ok conn
  | conn, read :: reads => do
      let conn' ← conn.handleRead httpCallback_ read
      handleReads conn' reads

/-- The requests `httpCallback_` has been called for. -/
def called (conn : HttpConnection) : List HttpRequest :=
  conn.effects.filterMap fun
    | .httpCallback request => some request
    | _ => none

end HttpConnection

/-! ## Requests without their time -/

/-- Method, path, query, version and headers. -/
def HttpRequest.untimed (r : HttpRequest) : HttpRequest := { r with receiveTime_ := 0 }

def HttpContext.untimed (c : HttpContext) : HttpContext := { c with request_ := c.request_.untimed }

theorem processTarget_untimed (r : HttpRequest) (rest : Bytes) :
    processTarget r.untimed rest =
      ((processTarget r rest).1, (processTarget r rest).2.untimed) := by
  unfold processTarget HttpRequest.untimed
  dsimp only
  split_ifs <;> rfl

theorem setMethod_untimed (r : HttpRequest) (m : Bytes) :
    r.untimed.setMethod m = (r.setMethod m).map (Prod.map id HttpRequest.untimed) := by
  unfold HttpRequest.setMethod
  by_cases hm : r.method_ = .kInvalid
  · rw [if_pos hm, if_pos (by exact hm)]
    rfl
  · rw [if_neg hm, if_neg (by exact hm)]
    rfl

theorem processRequestLine_untimed (r : HttpRequest) (line : Bytes) :
    processRequestLine r.untimed line =
      (processRequestLine r line).map (Prod.map id HttpRequest.untimed) := by
  unfold processRequestLine
  dsimp only
  rw [setMethod_untimed]
  split
  · rfl
  · cases r.setMethod (line.takeWhile (· != 32)) with
    | error stop => rfl
    | ok result =>
        rcases result with ⟨_ | _, r₁⟩
        · rfl
        · exact congrArg Except.ok (processTarget_untimed r₁ _)

theorem lineStep_untimed (t : Nat) (c : HttpContext) (line : Bytes) :
    HttpContext.lineStep 0 c.untimed line =
      (HttpContext.lineStep t c line).map HttpContext.untimed := by
  rcases c with ⟨state, r⟩
  cases state with
  | kExpectRequestLine =>
      have hline := processRequestLine_untimed r line
      simp only [HttpContext.lineStep, HttpContext.untimed, hline]
      cases processRequestLine r line with
      | error stop => rfl
      | ok result => rcases result with ⟨_ | _, r₁⟩ <;> rfl
  | kExpectHeaders =>
      simp only [HttpContext.lineStep, HttpContext.untimed]
      split <;> rfl
  | kExpectBody => rfl
  | kGotAll => rfl

/-! ## Well-formed requests -/

/-- A header line; the value is all that follows the colon. -/
structure Header where
  name : Bytes
  value : Bytes
  name_ok : 58 ∉ name ∧ 13 ∉ name
  value_ok : 13 ∉ value

namespace Header

def text (h : Header) : Bytes := h.name ++ 58 :: h.value

theorem not_mem_text (h : Header) : 13 ∉ h.text := by
  simp [text, h.name_ok.2, h.value_ok]

end Header

/-- A request without a body. -/
structure Request where
  method : Bytes
  target : Bytes
  /-- Version 1.1, or else 1.0. -/
  http11 : Bool
  headers : List Header
  method_ok : 32 ∉ method ∧ 13 ∉ method
  target_ok : 32 ∉ target ∧ 13 ∉ target

namespace Request

def version (q : Request) : Bytes :=
  Bytes.ofString "HTTP/1." ++ [if q.http11 then 49 else 48]

def line (q : Request) : Bytes := q.method ++ 32 :: (q.target ++ 32 :: q.version)

def headerText (headers : List Header) : Bytes :=
  headers.flatMap fun h => h.text ++ [13, 10]

def text (q : Request) : Bytes := q.line ++ 13 :: 10 :: (headerText q.headers ++ [13, 10])

/-- The server knows five methods. -/
def Known (q : Request) : Prop := Method.ofText q.method ≠ .kInvalid

instance (q : Request) : Decidable q.Known := inferInstanceAs (Decidable (_ ≠ _))

/-- What a request says about itself in its first line. -/
def parsedLine (q : Request) : HttpRequest where
  method_ := Method.ofText q.method
  version_ := if q.http11 then .kHttp11 else .kHttp10
  path_ := q.target.takeWhile (· != 63)
  query_ := q.target.dropWhile (· != 63)

/-- What the callback is to be called with. -/
def parsed (q : Request) : HttpRequest :=
  q.headers.foldl (fun r h => r.addHeader h.text) q.parsedLine

theorem not_mem_version (q : Request) : 13 ∉ q.version := by
  have hhttp : 13 ∉ Bytes.ofString "HTTP/1." := by decide
  unfold version
  cases q.http11 <;> simp [hhttp]

theorem not_mem_line (q : Request) : 13 ∉ q.line := by
  simp [line, q.method_ok.2, q.target_ok.2, q.not_mem_version]

/-! ## What the parser makes of a request -/

theorem takeWhile_blank {word : Bytes} (h : 32 ∉ word) (t : Bytes) :
    (word ++ 32 :: t).takeWhile (· != 32) = word := by
  rw [List.takeWhile_append_of_pos]
  · simp
  · intro c hc
    simp only [bne_iff_ne, ne_eq]
    rintro rfl
    exact h hc

theorem version_accepted (q : Request) : q.version.length = 8 ∧
    q.version.take 7 = Bytes.ofString "HTTP/1." ∧
      q.version.getLast? = some (if q.http11 then 49 else 48) := by
  unfold version
  cases q.http11 <;> decide

/-- A target is cut at its first question mark. -/
theorem target_cut (target : Bytes) :
    target.drop (target.takeWhile (· != 63)).length = target.dropWhile (· != 63) ∧
      (¬ (target.takeWhile (· != 63)).length < target.length →
        target.takeWhile (· != 63) = target ∧ target.dropWhile (· != 63) = []) := by
  have hsplit : target.takeWhile (· != 63) ++ target.dropWhile (· != 63) = target :=
    List.takeWhile_append_dropWhile
  have hdrop : target.drop (target.takeWhile (· != 63)).length = target.dropWhile (· != 63) := by
    have hcut := congrArg (List.drop (target.takeWhile (· != 63)).length) hsplit
    rw [List.drop_left] at hcut
    exact hcut.symm
  refine ⟨hdrop, ?_⟩
  intro hlen
  have hnil : target.dropWhile (· != 63) = [] := by
    rw [← hdrop]
    exact List.drop_eq_nil_of_le (Nat.not_lt.1 hlen)
  rw [hnil, List.append_nil] at hsplit
  exact ⟨hsplit, hnil⟩

theorem processTarget_line (q : Request) :
    processTarget { method_ := Method.ofText q.method } (q.target ++ 32 :: q.version) =
      (true, q.parsedLine) := by
  have hdrop : (q.target ++ 32 :: q.version).drop (q.target.length + 1) = q.version := by simp
  rcases target_cut q.target with ⟨hquery, hwhole⟩
  rcases q.version_accepted with ⟨hlen, hhttp, hlast⟩
  unfold processTarget
  rw [takeWhile_blank q.target_ok.1]
  dsimp only
  rw [if_neg (by simp), hdrop, if_pos ⟨hlen, hhttp⟩, hlast, hquery]
  by_cases hmark : (q.target.takeWhile (· != 63)).length < q.target.length
  · rw [if_pos hmark]
    cases hv : q.http11 <;> simp [parsedLine, hv]
  · rw [if_neg hmark]
    rcases hwhole hmark with ⟨hpath, hnil⟩
    cases hv : q.http11 <;> simp [parsedLine, hv, hpath, hnil]

theorem processRequestLine_line (q : Request) :
    processRequestLine {} q.line = .ok (if q.Known then (true, q.parsedLine) else (false, {})) := by
  have hdrop : q.line.drop (q.method.length + 1) = q.target ++ 32 :: q.version := by simp [line]
  have hmethod : q.line.takeWhile (· != 32) = q.method := takeWhile_blank q.method_ok.1 _
  have hlen : ¬ q.method.length = q.line.length := by simp [line]
  unfold processRequestLine
  dsimp only
  rw [hmethod, if_neg hlen, HttpRequest.setMethod, if_pos rfl, hdrop]
  by_cases hknown : q.Known
  · have hvalid : (Method.ofText q.method != .kInvalid) = true := by simpa [Known] using hknown
    rw [hvalid, if_pos hknown]
    exact congrArg Except.ok q.processTarget_line
  · have hinvalid : Method.ofText q.method = .kInvalid := by simpa [Known] using hknown
    rw [hinvalid, if_neg hknown]
    rfl

/-- The machine on the header lines of a request. -/
theorem run_headers (headers : List Header) (r : HttpRequest) (t : Bytes) :
    (HttpContext.lineStep 0).run ⟨.kExpectHeaders, r⟩ (headerText headers ++ 13 :: 10 :: t) =
      .done ⟨.kGotAll, headers.foldl (fun r h => r.addHeader h.text) r⟩ t := by
  induction headers generalizing r with
  | nil =>
      have hblank : Bytes.findCRLF [] = none := rfl
      exact LineMachine.run_line hblank t
  | cons h headers ih =>
      have hline : Bytes.findCRLF h.text = none := Bytes.findCRLF_none_of_not_mem h.not_mem_text
      have hcolon : 58 ∈ h.text := by simp [Header.text]
      have hstream : headerText (h :: headers) ++ 13 :: 10 :: t =
          h.text ++ 13 :: 10 :: (headerText headers ++ 13 :: 10 :: t) := by
        simp [headerText]
      rw [hstream, LineMachine.run_line hline]
      simp only [HttpContext.lineStep, if_pos hcolon]
      exact ih _

def value (q : Request) : Option HttpContext :=
  if q.Known then some ⟨.kGotAll, q.parsed⟩ else none

/-- Requests with a known method are read to their end; the others fail on their first line. -/
theorem run_text (q : Request) (t : Bytes) :
    (HttpContext.lineStep 0).run {} (q.text ++ t) = LineMachine.ending {} q.text t q.value := by
  have hline : Bytes.findCRLF q.line = none := Bytes.findCRLF_none_of_not_mem q.not_mem_line
  have hstream : q.text ++ t = q.line ++ 13 :: 10 :: (headerText q.headers ++ 13 :: 10 :: t) := by
    simp [text]
  rw [hstream, LineMachine.run_line hline]
  simp only [HttpContext.lineStep, processRequestLine_line]
  unfold value
  by_cases hknown : q.Known
  · simp only [if_pos hknown]
    exact run_headers _ _ _
  · simp only [if_neg hknown, LineMachine.ending, hstream]

def records : LineMachine.Records (HttpContext.lineStep 0) {} Request where
  text := text
  value := value
  run_text := run_text

end Request

/-! ## Reads -/

namespace HttpConnection

variable {httpCallback_ : HttpCallback} {conn : HttpConnection}

theorem called_emit (c : HttpContext) (buf : WfBuffer) (effects more : List HttpEffect) :
    called ⟨c, buf, effects ++ more⟩ = called ⟨c, buf, effects⟩ ++ called ⟨c, buf, more⟩ :=
  List.filterMap_append

theorem called_badRequest (c : HttpContext) (buf : WfBuffer) : called ⟨c, buf, badRequest⟩ = [] := rfl

theorem called_onRequest (c : HttpContext) (buf : WfBuffer) (request : HttpRequest) :
    called ⟨c, buf, onRequest httpCallback_ request⟩ = [request] := by
  unfold called onRequest
  dsimp only
  split <;> rfl

/-- The connection as the machine sees it. -/
def view (conn : HttpConnection) : HttpContext × Bytes :=
  (conn.context.untimed, conn.inputBuffer_.readable)

/-- One read is one turn of a reader that takes at most one record. -/
theorem handleRead_serve (httpCallback_ : HttpCallback) (hc : conn.context.Expects) (read : Read)
    {taken : Option HttpContext} {p : HttpContext × Bytes}
    (h : (HttpContext.lineStep 0).serve {} conn.view read.data = some (taken, p)) :
    ∃ conn', conn.handleRead httpCallback_ read = .ok conn' ∧ conn'.context.Expects ∧
      conn'.view = p ∧ conn'.called.map HttpRequest.untimed =
        conn.called.map HttpRequest.untimed ++ taken.toList.map HttpContext.request_ := by
  have hrun := HttpContext.parseRequest_run hc (conn.inputBuffer_.readFd read.data) read.receiveTime
  have hview := LineMachine.run_map (lineStep_untimed read.receiveTime) conn.context
    (conn.inputBuffer_.readFd read.data).readable
  rw [WfBuffer.readable_readFd] at hrun hview
  -- the view has lost its receive time, which decides nothing
  unfold LineMachine.serve view at h
  dsimp only at h
  rw [hview] at h
  unfold handleRead onMessage
  dsimp only
  cases hprogress : (HttpContext.lineStep read.receiveTime).run conn.context
      (conn.inputBuffer_.readable ++ read.data) with
  | waiting c rest =>
      rw [hprogress] at h hrun
      rcases hrun with ⟨buf, hresult, rfl, hexpects⟩
      cases h
      simp only [hresult, hexpects.not_gotAll, Bool.false_eq_true, if_false, if_true,
        List.append_nil]
      exact ⟨_, rfl, hexpects, rfl, by simp [called]⟩
  | done c rest =>
      rw [hprogress] at h hrun
      rcases hrun with ⟨buf, hresult, rfl, hgot⟩
      cases h
      simp only [hresult, hgot, if_true, List.append_nil]
      refine ⟨_, rfl, Or.inl rfl, rfl, ?_⟩
      rw [called_emit, called_onRequest, List.map_append]
      rfl
  | failed c rest =>
      rw [hprogress] at h hrun
      rcases hrun with ⟨buf, hresult, rfl, hexpects⟩
      cases h
      simp only [hresult, hexpects.not_gotAll, Bool.false_eq_true, if_false]
      refine ⟨_, rfl, hexpects, rfl, ?_⟩
      rw [called_emit, called_badRequest, List.append_nil]
      simp [called]
  | stopped =>
      rw [hprogress] at h
      cases h

theorem handleReads_serveAll (httpCallback_ : HttpCallback) (hc : conn.context.Expects)
    {reads : List Read} {taken : List HttpContext}
    (h : (HttpContext.lineStep 0).serveAll {} conn.view (reads.map Read.data) = some taken) :
    ∃ conn', handleReads httpCallback_ conn reads = .ok conn' ∧
      conn'.called.map HttpRequest.untimed =
        conn.called.map HttpRequest.untimed ++ taken.map HttpContext.request_ := by
  induction reads generalizing conn taken with
  | nil =>
      cases h
      exact ⟨conn, rfl, by simp⟩
  | cons read reads ih =>
      rcases Option.bind_eq_some_iff.1 h with ⟨⟨first, p⟩, hfirst, hrest⟩
      rcases Option.bind_eq_some_iff.1 hrest with ⟨others, hothers, htaken⟩
      cases htaken
      rcases handleRead_serve httpCallback_ hc read hfirst with
        ⟨conn₁, hread, hexpects, rfl, hcalled⟩
      rcases ih hexpects hothers with ⟨conn', hreads, hall⟩
      refine ⟨conn', ?_, ?_⟩
      · rw [handleReads, hread]
        exact hreads
      · rw [hall, hcalled, List.map_append, List.append_assoc]

/-- Requests that arrive in pieces: the first of them are handed over, in order. -/
theorem handleReads_requests (httpCallback_ : HttpCallback) {qs : List Request} {reads : List Read}
    (h : (reads.map Read.data).flatten = qs.flatMap Request.text) :
    ∃ conn taken, handleReads httpCallback_ {} reads = .ok conn ∧
      (HttpContext.lineStep 0).serveAll {} ({}, []) (reads.map Read.data) = some taken ∧
      taken.map some <+: qs.map Request.value ∧
      conn.called.map HttpRequest.untimed = taken.map HttpContext.request_ := by
  have hview : view {} = ({}, []) := by
    unfold view
    rw [WfBuffer.readable_construct]
    rfl
  rcases Request.records.serveAll_isPrefix (LineMachine.Records.represents_start []) h with
    ⟨taken, htaken, hleading⟩
  rw [← hview] at htaken
  rcases handleReads_serveAll httpCallback_ (Or.inl rfl) htaken with ⟨conn, hconn, hcalled⟩
  rw [hview] at htaken
  exact ⟨conn, taken, hconn, htaken, hleading, hcalled⟩

/-- Each request in a read of its own. -/
def ownReads (qs : List Request) : List Read := qs.map fun q => { data := q.text }

/-- The callback has been called for every request, once and in order, with what it is called with
when each request arrives in its own read. -/
def ServedAsAlone (httpCallback_ : HttpCallback) (qs : List Request) (reads : List Read) : Prop :=
  ∃ conn own, handleReads httpCallback_ {} reads = .ok conn ∧
    handleReads httpCallback_ {} (ownReads qs) = .ok own ∧ own.called.length = qs.length ∧
    conn.called.map HttpRequest.untimed = own.called.map HttpRequest.untimed

/-- The requests that end within the first bytes of the stream. -/
def ended (qs : List Request) (bytes : Nat) : Nat := Request.records.complete qs bytes

theorem value_isSome (q : Request) : q.value.isSome = true ↔ q.Known := by
  unfold Request.value
  split
  · simp [*]
  · simp [*]

/-- Every request is served as it is alone if and only if the server knows all methods, and after
each read no more requests end than there are reads to come. -/
theorem pipelined_iff (httpCallback_ : HttpCallback) {qs : List Request} {reads : List Read}
    (hstream : (reads.map Read.data).flatten = qs.flatMap Request.text) :
    ServedAsAlone httpCallback_ qs reads ↔
      (∀ q ∈ qs, q.Known) ∧ ∀ j ≤ reads.length,
        qs.length ≤ ended qs ((reads.take j).map Read.data).flatten.length + (reads.length - j) := by
  have htexts : (ownReads qs).map Read.data = qs.map Request.text := by
    simp [ownReads]
  have hown : ((ownReads qs).map Read.data).flatten = qs.flatMap Request.text := by
    rw [htexts, List.flatMap_def]
  rcases handleReads_requests httpCallback_ hstream with
    ⟨conn, taken, hconn, hserve, hleading, hcalled⟩
  rcases handleReads_requests httpCallback_ hown with
    ⟨own, taken', hconn', hserve', hleading', hcalled'⟩
  have hlen : conn.called.length = taken.length := by
    simpa using congrArg List.length hcalled
  have hlen' : own.called.length = taken'.length := by
    simpa using congrArg List.length hcalled'
  -- all records are taken when enough are
  have hall : ∀ {vs : List HttpContext}, vs.map some <+: qs.map Request.value →
      vs.length = qs.length → vs.map some = qs.map Request.value := by
    intro vs hvs hcount
    exact hvs.eq_of_length (by simpa using hcount)
  have hrecords := Request.records.served_iff (LineMachine.Records.represents_start []) hstream
  have hrecords' := Request.records.served_iff (LineMachine.Records.represents_start []) hown
  rw [List.length_nil, LineMachine.Records.paced_zero, List.length_map] at hrecords
  simp only [← List.map_take] at hrecords
  constructor
  · rintro ⟨conn₁, own₁, hconn₁, hown₁, hcount, hsame⟩
    rw [hconn] at hconn₁
    rw [hconn'] at hown₁
    cases hconn₁
    cases hown₁
    have hcount' : taken.length = qs.length := by
      have hboth := congrArg List.length hsame
      rw [List.length_map, List.length_map] at hboth
      omega
    rcases hrecords.1 ⟨taken, hserve, (hall hleading hcount').symm⟩ with ⟨hknown, hpace⟩
    exact ⟨fun q hq => (value_isSome q).1 (hknown q hq), hpace⟩
  · rintro ⟨hknown, hpace⟩
    have hsome : ∀ q ∈ qs, (Request.value q).isSome := fun q hq => (value_isSome q).2 (hknown q hq)
    rcases hrecords.2 ⟨hsome, hpace⟩ with ⟨vs, hvs, hvalues⟩
    have hpace' : Request.records.Paced qs ([] : Bytes).length ((ownReads qs).map Read.data) := by
      rw [htexts]
      exact LineMachine.Records.paced_own qs
    rcases hrecords'.2 ⟨hsome, hpace'⟩ with ⟨vs', hvs', hvalues'⟩
    rw [hserve] at hvs
    rw [hserve'] at hvs'
    cases hvs
    cases hvs'
    have htaken : taken = taken' := by
      have hboth : taken.map some = taken'.map some := hvalues.symm.trans hvalues'
      exact List.map_injective_iff.2 (Option.some_injective _) hboth
    refine ⟨conn, own, hconn, hconn', ?_, ?_⟩
    · have hcount := congrArg List.length hvalues'
      rw [List.length_map, List.length_map] at hcount
      omega
    · rw [hcalled, hcalled', htaken]

theorem rootMethod_ok : 32 ∉ Bytes.ofString "GET" ∧ 13 ∉ Bytes.ofString "GET" := by
  decide

theorem rootTarget_ok : 32 ∉ Bytes.ofString "/?q" ∧ 13 ∉ Bytes.ofString "/?q" := by
  decide

def rootRequest : Request where
  method := Bytes.ofString "GET"
  target := Bytes.ofString "/?q"
  http11 := true
  headers := []
  method_ok := rootMethod_ok
  target_ok := rootTarget_ok

/-- The reads cut both requests. -/
theorem pipelined_threeReads :
    ServedAsAlone (fun _ response => response) [rootRequest, rootRequest]
      [{ data := Bytes.ofString "GET /?q HT" },
        { data := Bytes.ofString "TP/1.1\r\n\r\nGET /?q HTTP/1.1\r" },
        { data := Bytes.ofString "\n\r\n" }] := by
  refine (pipelined_iff (fun _ response => response) ?_).2 ⟨?_, ?_⟩
  · decide +kernel
  · decide
  · decide +kernel

/-- Two requests in one read: the second is not answered. -/
theorem not_pipelined_oneRead :
    ¬ ServedAsAlone (fun _ response => response) [rootRequest, rootRequest]
      [{ data := rootRequest.text ++ rootRequest.text }] := by
  rintro ⟨conn, own, hconn, -, hcount, hsame⟩
  have hstream : ([{ data := rootRequest.text ++ rootRequest.text }].map Read.data).flatten =
      [rootRequest, rootRequest].flatMap Request.text := by
    simp
  rcases handleReads_requests (fun _ response => response) hstream with
    ⟨conn', taken, hconn', hserve, -, hcalled⟩
  rw [hconn] at hconn'
  cases hconn'
  have hone := LineMachine.length_serveAll hserve
  have htaken := congrArg List.length hcalled
  have hboth := congrArg List.length hsame
  simp only [List.length_map, List.length_cons, List.length_nil] at hone htaken hboth hcount
  omega

end HttpConnection
end Http
end Longky
