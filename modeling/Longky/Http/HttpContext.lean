import Longky.Lib.Lines
import Longky.Net.WfBuffer

/-!
# HttpContext — the incremental request parser

`netLayer/http/HttpRequest.h` and `netLayer/http/HttpContext.{h,cpp}`.  A context belongs to a
connection and goes on where it stopped when more bytes have arrived.

`parseRequest_run` reads the loop of `parseRequest` as the run of a line machine.
-/

namespace Longky
namespace Http

open Lib Net

/-- Where a call does not return. -/
inductive Stop where
  | assertionFailed
  | endlessLoop
  deriving DecidableEq, Repr

/-! ## HttpRequest -/

inductive Method where
  | kInvalid
  | kGet
  | kPost
  | kHead
  | kPut
  | kDelete
  deriving DecidableEq, Repr

inductive Version where
  | kUnknown
  | kHttp10
  | kHttp11
  deriving DecidableEq, Repr

structure HttpRequest where
  method_ : Method := .kInvalid
  version_ : Version := .kUnknown
  path_ : Bytes := []
  query_ : Bytes := []
  /-- Microseconds; a new `Timestamp` has none. -/
  receiveTime_ : Nat := 0
  headers_ : Bytes → Option Bytes := fun _ => none

def Method.ofText (m : Bytes) : Method :=
  if m = Bytes.ofString "GET" then .kGet
  else if m = Bytes.ofString "POST" then .kPost
  else if m = Bytes.ofString "HEAD" then .kHead
  else if m = Bytes.ofString "PUT" then .kPut
  else if m = Bytes.ofString "DELETE" then .kDelete
  else .kInvalid

namespace HttpRequest

def setMethod (r : HttpRequest) (m : Bytes) : Except Stop (Bool × HttpRequest) :=
  if r.method_ = .kInvalid then
    .ok (Method.ofText m != .kInvalid, { r with method_ := Method.ofText m })
  else .error .assertionFailed

def trim (value : Bytes) : Bytes :=
  ((value.dropWhile Bytes.isspace).reverse.dropWhile Bytes.isspace).reverse

/-- `addHeader(start, colon, end)` on a line with a colon. -/
def addHeader (r : HttpRequest) (line : Bytes) : HttpRequest :=
  let field := line.takeWhile (· != 58)
  let value := trim (line.drop (field.length + 1))
  { r with headers_ := Function.update r.headers_ field (some value) }

def getHeader (r : HttpRequest) (field : Bytes) : Bytes := (r.headers_ field).getD []

end HttpRequest

/-! ## HttpContext -/

inductive HttpRequestParseState where
  | kExpectRequestLine
  | kExpectHeaders
  | kExpectBody
  | kGotAll
  deriving DecidableEq, Repr

structure HttpContext where
  state_ : HttpRequestParseState := .kExpectRequestLine
  request_ : HttpRequest := {}

/-- The part of a request line behind the method: path, query and version. -/
def processTarget (r : HttpRequest) (rest : Bytes) : Bool × HttpRequest :=
  let target := rest.takeWhile (· != 32)
  if target.length = rest.length then (false, r)
  else
    let path := target.takeWhile (· != 63)
    let r₁ :=
      if path.length < target.length then
        { r with path_ := path, query_ := target.drop path.length }
      else { r with path_ := target }
    let version := rest.drop (target.length + 1)
    if version.length = 8 ∧ version.take 7 = Bytes.ofString "HTTP/1." then
      if version.getLast? = some 49 then (true, { r₁ with version_ := .kHttp11 })
      else if version.getLast? = some 48 then (true, { r₁ with version_ := .kHttp10 })
      else (false, r₁)
    else (false, r₁)

def processRequestLine (r : HttpRequest) (line : Bytes) : Except Stop (Bool × HttpRequest) :=
  let m := line.takeWhile (· != 32)
  if m.length = line.length then .ok (false, r)
  else
    match r.setMethod m with
    | .error stop => .error stop
    | .ok (false, r₁) => .ok (false, r₁)
    | .ok (true, r₁) => .ok (processTarget r₁ (line.drop (m.length + 1)))

namespace HttpContext

def gotAll (c : HttpContext) : Bool := c.state_ == .kGotAll

def reset (_ : HttpContext) : HttpContext := {}

theorem crlf_le {buf : WfBuffer} {crlf : Nat} (h : Bytes.findCRLF buf.readable = some crlf) :
    crlf + 2 ≤ buf.readableBytes := by
  rw [WfBuffer.readableBytes_eq]
  exact Bytes.findCRLF_lt h

/-- The `while` loop; returns `ok`, the context and the buffer. -/
def parseRequest (c : HttpContext) (buf : WfBuffer) (receiveTime : Nat) :
    Except Stop (Bool × HttpContext × WfBuffer) :=
  match c.state_ with
  | .kExpectRequestLine =>
      match h : Bytes.findCRLF buf.readable with
      | none => .ok (true, c, buf)
      | some crlf =>
          match processRequestLine c.request_ (buf.readable.take crlf) with
          | .error stop => .error stop
          | .ok (true, r) =>
              parseRequest ⟨.kExpectHeaders, { r with receiveTime_ := receiveTime }⟩
                (buf.retrieve (crlf + 2) (crlf_le h)) receiveTime
          -- the line stays in the buffer
          | .ok (false, r) => .ok (false, { c with request_ := r }, buf)
  | .kExpectHeaders =>
      match h : Bytes.findCRLF buf.readable with
      | none => .ok (true, c, buf)
      | some crlf =>
          let line := buf.readable.take crlf
          if 58 ∈ line then
            parseRequest { c with request_ := c.request_.addHeader line }
              (buf.retrieve (crlf + 2) (crlf_le h)) receiveTime
          -- "empty line, end of header", or any other line without a colon
          else .ok (true, { c with state_ := .kGotAll }, buf.retrieve (crlf + 2) (crlf_le h))
  -- no branch of the loop for these states changes anything
  | .kExpectBody | .kGotAll => .error .endlessLoop
termination_by buf.readable.length
decreasing_by
  all_goals
    have hlt := Bytes.findCRLF_lt h
    rw [WfBuffer.readable_retrieve, List.length_drop]
    omega

/-! ## As a line machine -/

def lineStep (receiveTime : Nat) : LineMachine HttpContext := fun c line =>
  match c.state_ with
  | .kExpectRequestLine =>
      match processRequestLine c.request_ line with
      | .error _ => .stop
      | .ok (true, r) => .next ⟨.kExpectHeaders, { r with receiveTime_ := receiveTime }⟩
      | .ok (false, r) => .fail { c with request_ := r }
  | .kExpectHeaders =>
      if 58 ∈ line then .next { c with request_ := c.request_.addHeader line }
      else .done { c with state_ := .kGotAll }
  | .kExpectBody | .kGotAll => .stop

/-- The states in which `parseRequest` is called. -/
def Expects (c : HttpContext) : Prop :=
  c.state_ = .kExpectRequestLine ∨ c.state_ = .kExpectHeaders

theorem Expects.not_gotAll {c : HttpContext} (h : c.Expects) : c.gotAll = false := by
  unfold gotAll
  rcases h with h | h <;> rw [h] <;> rfl

/-- What `parseRequest` returns for a run of the machine. -/
def Returns (result : Except Stop (Bool × HttpContext × WfBuffer)) : Progress HttpContext → Prop
  | .waiting c rest => ∃ buf, result = .ok (true, c, buf) ∧ buf.readable = rest ∧ c.Expects
  | .done c rest => ∃ buf, result = .ok (true, c, buf) ∧ buf.readable = rest ∧ c.gotAll = true
  | .failed c rest => ∃ buf, result = .ok (false, c, buf) ∧ buf.readable = rest ∧ c.Expects
  | .stopped => result = .error .assertionFailed

theorem processRequestLine_error {r : HttpRequest} {line : Bytes} {stop : Stop}
    (h : processRequestLine r line = .error stop) : stop = .assertionFailed := by
  unfold processRequestLine at h
  dsimp only at h
  split at h
  · cases h
  · split at h
    · rename_i hset
      cases h
      unfold HttpRequest.setMethod at hset
      split at hset
      · cases hset
      · cases hset
        rfl
    · cases h
    · cases h

theorem parseRequest_of_none {c : HttpContext} (hc : c.Expects) {buf : WfBuffer} (t : Nat)
    (h : Bytes.findCRLF buf.readable = none) : parseRequest c buf t = .ok (true, c, buf) := by
  rw [parseRequest]
  rcases hc with hc | hc
  · rw [hc]
    dsimp only
    split
    · rfl
    · rename_i hsome
      simp [h] at hsome
  · rw [hc]
    dsimp only
    split
    · rfl
    · rename_i hsome
      simp [h] at hsome

theorem parseRequest_requestLine {c : HttpContext} (hc : c.state_ = .kExpectRequestLine)
    {buf : WfBuffer} (t : Nat) {crlf : Nat} (h : Bytes.findCRLF buf.readable = some crlf) :
    parseRequest c buf t = match processRequestLine c.request_ (buf.readable.take crlf) with
      | .error stop => .error stop
      | .ok (true, r) => parseRequest ⟨.kExpectHeaders, { r with receiveTime_ := t }⟩
          (buf.retrieve (crlf + 2) (crlf_le h)) t
      | .ok (false, r) => .ok (false, { c with request_ := r }, buf) := by
  rw [parseRequest, hc]
  dsimp only
  split
  · rename_i hnone
    simp [h] at hnone
  · rename_i crlf' hsome
    rw [h] at hsome
    cases hsome
    rfl

theorem parseRequest_header {c : HttpContext} (hc : c.state_ = .kExpectHeaders) {buf : WfBuffer}
    (t : Nat) {crlf : Nat} (h : Bytes.findCRLF buf.readable = some crlf) :
    parseRequest c buf t =
      if 58 ∈ buf.readable.take crlf then
        parseRequest { c with request_ := c.request_.addHeader (buf.readable.take crlf) }
          (buf.retrieve (crlf + 2) (crlf_le h)) t
      else .ok (true, { c with state_ := .kGotAll }, buf.retrieve (crlf + 2) (crlf_le h)) := by
  rw [parseRequest, hc]
  dsimp only
  split
  · rename_i hnone
    simp [h] at hnone
  · rename_i crlf' hsome
    rw [h] at hsome
    cases hsome
    rfl

/-- The loop of `parseRequest` is a run of the machine. -/
theorem parseRequest_run {c : HttpContext} (hc : c.Expects) (buf : WfBuffer) (t : Nat) :
    Returns (parseRequest c buf t) ((lineStep t).run c buf.readable) := by
  induction hn : buf.readable.length using Nat.strong_induction_on generalizing c buf with
  | _ n ih =>
      cases hcrlf : Bytes.findCRLF buf.readable with
      | none =>
          rw [LineMachine.run_of_none hcrlf, parseRequest_of_none hc t hcrlf]
          exact ⟨buf, rfl, rfl, hc⟩
      | some crlf =>
          -- what a turn of the loop leaves is shorter
          have hshorter := Bytes.findCRLF_lt hcrlf
          have hrest : ∀ c', Expects c' →
              Returns (parseRequest c' (buf.retrieve (crlf + 2) (crlf_le hcrlf)) t)
                ((lineStep t).run c' (buf.readable.drop (crlf + 2))) := by
            intro c' hc'
            have hnext := ih _ (by rw [WfBuffer.readable_retrieve, List.length_drop]; omega) hc'
              (buf.retrieve (crlf + 2) (crlf_le hcrlf)) rfl
            rwa [WfBuffer.readable_retrieve] at hnext
          rw [LineMachine.run_of_some hcrlf]
          rcases hc with hc | hc
          · rw [parseRequest_requestLine hc t hcrlf, lineStep, hc]
            dsimp only
            cases hline : processRequestLine c.request_ (buf.readable.take crlf) with
            | error stop => rw [processRequestLine_error hline, Returns]
            | ok result =>
                rcases result with ⟨_ | _, r⟩
                · exact ⟨buf, rfl, rfl, Or.inl rfl⟩
                · exact hrest _ (Or.inr rfl)
          · rw [parseRequest_header hc t hcrlf, lineStep, hc]
            dsimp only
            split
            · exact hrest _ (Or.inr rfl)
            · exact ⟨_, rfl, WfBuffer.readable_retrieve _ _ _, rfl⟩

end HttpContext
end Http
end Longky
