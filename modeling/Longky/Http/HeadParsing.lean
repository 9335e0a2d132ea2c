import Longky.Http.RequestLine

/-!
# HeadParsing — heads that arrive in pieces, and where they end

`HttpContext::parseRequest` of `netLayer/http/HttpContext.cpp` takes whole lines off the buffer and
leaves the last, unfinished one.

* `parseRequest_incremental`: parsing after each of two pieces comes to what parsing both at once
  comes to.
* `head_ends_iff`: the first line without a colon ends the head, "empty line, end of header" or not.
-/

namespace Longky
namespace Http

open Lib Net

namespace HttpContext

/-! ## Two pieces -/

/-- What a call returns, without the receive time. -/
def outcome : Except Stop (Bool × HttpContext × WfBuffer) → Except Stop (Bool × HttpContext × Bytes)
  | .error stop => .error stop
  | .ok (ok, c, buf) => .ok (ok, c.untimed, buf.readable)

/-- The outcome of a call that is this run. -/
def ofProgress : Progress HttpContext → Except Stop (Bool × HttpContext × Bytes)
  | .waiting c rest | .done c rest => .ok (true, c.untimed, rest)
  | .failed c rest => .ok (false, c.untimed, rest)
  | .stopped => .error .assertionFailed

theorem Returns.outcome {result : Except Stop (Bool × HttpContext × WfBuffer)}
    {p : Progress HttpContext} (h : Returns result p) : outcome result = ofProgress p := by
  cases p with
  | waiting c rest =>
      rcases h with ⟨buf, rfl, rfl, -⟩
      rfl
  | done c rest =>
      rcases h with ⟨buf, rfl, rfl, -⟩
      rfl
  | failed c rest =>
      rcases h with ⟨buf, rfl, rfl, -⟩
      rfl
  | stopped =>
      cases h
      rfl

theorem ofProgress_map (p : Progress HttpContext) :
    ofProgress (p.map untimed) = ofProgress p := by
  cases p <;> rfl

/-- The time of a read decides nothing. -/
theorem outcome_parseRequest {c : HttpContext} (hc : c.Expects) (buf : WfBuffer) (t : Nat) :
    outcome (parseRequest c buf t) = ofProgress ((lineStep 0).run c.untimed buf.readable) := by
  rw [(parseRequest_run hc buf t).outcome, LineMachine.run_map (lineStep_untimed t) c buf.readable,
    ofProgress_map]

/-- A call that returned true without the whole head waits for more bytes. -/
theorem run_of_parseRequest {c c₁ : HttpContext} (hc : c.Expects) {buf buf₁ : WfBuffer} {t : Nat}
    (h : parseRequest c buf t = .ok (true, c₁, buf₁)) (hnot : c₁.gotAll = false) :
    (lineStep 0).run c.untimed buf.readable = .waiting c₁.untimed buf₁.readable ∧ c₁.Expects := by
  have hrun := parseRequest_run hc buf t
  -- the time of the read is written into the context and looked at nowhere
  rw [LineMachine.run_map (lineStep_untimed t) c buf.readable]
  rw [h] at hrun
  cases hp : (lineStep t).run c buf.readable with
  | waiting c' rest =>
      rw [hp] at hrun
      rcases hrun with ⟨buf', hresult, rfl, hexpects⟩
      cases hresult
      exact ⟨rfl, hexpects⟩
  | done c' rest =>
      rw [hp] at hrun
      rcases hrun with ⟨buf', hresult, -, hgot⟩
      cases hresult
      rw [hgot] at hnot
      cases hnot
  | failed c' rest =>
      rw [hp] at hrun
      rcases hrun with ⟨buf', hresult, -⟩
      cases hresult
  | stopped =>
      rw [hp] at hrun
      cases hrun

/-- The second piece of a head finds what is as good as the whole. -/
theorem parseRequest_incremental (c : HttpContext) (hc : c.Expects) (buf : WfBuffer)
    (a b : Bytes) (t₁ t₂ t : Nat) (c₁ : HttpContext) (buf₁ : WfBuffer)
    (hfirst : c.parseRequest (buf.append a) t₁ = .ok (true, c₁, buf₁)) (hnot : c₁.gotAll = false) :
    outcome (c₁.parseRequest (buf₁.append b) t₂) =
      outcome (c.parseRequest (buf.append (a ++ b)) t) := by
  -- both calls run the machine over the same lines, the second from where the first has waited
  rcases run_of_parseRequest hc hfirst hnot with ⟨hrun, hc₁⟩
  calc outcome (c₁.parseRequest (buf₁.append b) t₂)
      = ofProgress ((lineStep 0).run c₁.untimed (buf₁.readable ++ b)) := by
        rw [outcome_parseRequest hc₁, WfBuffer.readable_append]
    _ = ofProgress ((lineStep 0).run c.untimed ((buf.append a).readable ++ b)) := by
        rw [LineMachine.run_append c.untimed, hrun, LineMachine.resume]
    _ = outcome (c.parseRequest (buf.append (a ++ b)) t) := by
        rw [outcome_parseRequest hc, WfBuffer.readable_append, WfBuffer.readable_append,
          List.append_assoc]

/-- The pieces of a head that is cut between CR and LF. -/
theorem parseRequest_incremental_crlf :
    outcome (parseRequest {} (((WfBuffer.construct 0).append (Bytes.ofString "GET / HTTP/1.1\r")).append
        (Bytes.ofString "\n\r\n")) 2) =
      outcome (parseRequest {} ((WfBuffer.construct 0).append
        (Bytes.ofString "GET / HTTP/1.1\r" ++ Bytes.ofString "\n\r\n")) 3) := by
  refine parseRequest_incremental {} (Or.inl rfl) (WfBuffer.construct 0) _ _ 1 2 3 {} _ ?_ rfl
  refine parseRequest_of_none (Or.inl rfl) 1 ?_
  rw [WfBuffer.readable_append, WfBuffer.readable_construct]
  decide

/-! ## The end of the head -/

/-- The line is a request line. -/
def ValidRequestLine (line : Bytes) : Prop :=
  ∃ method target version, IsRequestLine line method target version

/-- `head` is a request line and header lines with colons, each with its CRLF. -/
structure IsHeadLines (first : Bytes) (headers : List Bytes) (head : Bytes) : Prop where
  valid : ValidRequestLine first
  first_line : Bytes.findCRLF first = none
  headers_line : ∀ line ∈ headers, 58 ∈ line ∧ Bytes.findCRLF line = none
  head_eq : head = (first :: headers).flatMap (· ++ [13, 10])

/-- The bytes begin with head lines, and the line behind them has no colon. -/
def EndsWith (bs line : Bytes) : Prop :=
  ∃ first headers head rest, IsHeadLines first headers head ∧ 58 ∉ line ∧
    Bytes.findCRLF line = none ∧ bs = head ++ (line ++ 13 :: 10 :: rest)

/-- The bytes begin with a head and the empty line behind it. -/
def CompleteHead (bs : Bytes) : Prop := EndsWith bs []

/-- Some line in the place of a header is neither empty nor has a colon. -/
def BadHeaderLine (bs : Bytes) : Prop := ∃ line, line ≠ [] ∧ EndsWith bs line

def ReachesGotAll (buf : WfBuffer) (t : Nat) : Prop :=
  ∃ ok c buf', parseRequest {} buf t = .ok (ok, c, buf') ∧ c.gotAll = true

def ReturnsFalse (buf : WfBuffer) (t : Nat) : Prop :=
  ∃ c buf', parseRequest {} buf t = .ok (false, c, buf')

theorem lineStep_requestLine_next {c c' : HttpContext} {line : Bytes} {t : Nat}
    (hc : c.state_ = .kExpectRequestLine) (hr : c.request_.method_ = .kInvalid)
    (h : lineStep t c line = .next c') :
    ValidRequestLine line ∧ c'.state_ = .kExpectHeaders := by
  unfold lineStep at h
  rw [hc] at h
  dsimp only at h
  split at h
  · cases h
  · rename_i r hline
    cases h
    exact ⟨processRequestLine_sound hr hline, rfl⟩
  · cases h

theorem lineStep_requestLine_accepts {c : HttpContext} {line : Bytes}
    (hc : c.state_ = .kExpectRequestLine) (hr : c.request_.method_ = .kInvalid) (t : Nat)
    (h : ValidRequestLine line) :
    ∃ c', lineStep t c line = .next c' ∧ c'.state_ = .kExpectHeaders := by
  rcases h with ⟨method, target, version, hline⟩
  unfold lineStep
  rw [hc]
  dsimp only
  rw [processRequestLine_accepts hr hline]
  exact ⟨_, rfl, rfl⟩

theorem lineStep_requestLine_ne_done {c c' : HttpContext} {line : Bytes} {t : Nat}
    (hc : c.state_ = .kExpectRequestLine) : lineStep t c line ≠ .done c' := by
  unfold lineStep
  rw [hc]
  dsimp only
  split <;> simp

theorem lineStep_header {c : HttpContext} (hc : c.state_ = .kExpectHeaders) (t : Nat)
    (line : Bytes) :
    lineStep t c line = if 58 ∈ line then .next { c with request_ := c.request_.addHeader line }
      else .done { c with state_ := .kGotAll } := by
  rw [lineStep, hc]

theorem goes_headers {c : HttpContext} (hc : c.state_ = .kExpectHeaders) (t : Nat)
    {lines : List Bytes} (h : ∀ line ∈ lines, 58 ∈ line) :
    ∃ c', (lineStep t).goes c lines = some c' ∧ c'.state_ = .kExpectHeaders := by
  induction lines generalizing c with
  | nil => exact ⟨c, rfl, hc⟩
  | cons line lines ih =>
      have hstep : lineStep t c line = .next { c with request_ := c.request_.addHeader line } := by
        rw [lineStep_header hc, if_pos (h line List.mem_cons_self)]
      obtain ⟨c', hgoes, hc'⟩ :=
        ih (c := { c with request_ := c.request_.addHeader line }) hc
          fun l hl => h l (List.mem_cons_of_mem _ hl)
      exact ⟨c', (LineMachine.goes_cons hstep).2 hgoes, hc'⟩

/-- The machine goes on over header lines no further than they have colons. -/
theorem headers_of_goes {c c' : HttpContext} (hc : c.state_ = .kExpectHeaders) {t : Nat}
    {lines : List Bytes} (h : (lineStep t).goes c lines = some c') :
    (∀ line ∈ lines, 58 ∈ line) ∧ c'.state_ = .kExpectHeaders := by
  induction lines generalizing c with
  | nil =>
      cases h
      exact ⟨by simp, hc⟩
  | cons line lines ih =>
      -- without a colon the machine would be done here
      have hline : 58 ∈ line := by
        by_contra hnot
        rw [LineMachine.goes, lineStep_header hc, if_neg hnot] at h
        cases h
      have hstep : lineStep t c line = .next { c with request_ := c.request_.addHeader line } := by
        rw [lineStep_header hc, if_pos hline]
      rcases ih (by exact hc) ((LineMachine.goes_cons hstep).1 h) with ⟨hlines, hc'⟩
      exact ⟨List.forall_mem_cons.2 ⟨hline, hlines⟩, hc'⟩

/-- A line without a colon ends the head, whatever else is in it. -/
theorem parseRequest_of_endsWith {buf : WfBuffer} {line : Bytes} (h : EndsWith buf.readable line)
    (t : Nat) : ∃ c buf', parseRequest {} buf t = .ok (true, c, buf') ∧ c.gotAll = true := by
  rcases h with ⟨first, headers, head, rest, hhead, hcolon, hline, hbs⟩
  -- the machine takes the request line, goes over the headers and is done at the line without a colon
  obtain ⟨c₀, hstep, hc₀⟩ :=
    lineStep_requestLine_accepts (c := {}) rfl rfl t hhead.valid
  obtain ⟨c₁, hgoes, hc₁⟩ := goes_headers hc₀ t fun l hl => (hhead.headers_line l hl).1
  have hlines : ∀ l ∈ first :: headers, Bytes.findCRLF l = none :=
    List.forall_mem_cons.2 ⟨hhead.first_line, fun l hl => (hhead.headers_line l hl).2⟩
  have hdone : lineStep t c₁ line = .done { c₁ with state_ := .kGotAll } := by
    rw [lineStep_header hc₁, if_neg hcolon]
  have hrun : (lineStep t).run {} buf.readable = .done { c₁ with state_ := .kGotAll } rest :=
    LineMachine.run_eq_done_iff.2 ⟨first :: headers, line, c₁, hlines, hline,
      (LineMachine.goes_cons hstep).2 hgoes, hdone, by rw [hbs, hhead.head_eq]⟩
  have hreturns := parseRequest_run (c := {}) (Or.inl rfl) buf t
  rw [hrun] at hreturns
  rcases hreturns with ⟨buf', hresult, -, hgot⟩
  exact ⟨_, buf', hresult, hgot⟩

theorem endsWith_of_reachesGotAll {buf : WfBuffer} {t : Nat} (h : ReachesGotAll buf t) :
    ∃ line, EndsWith buf.readable line := by
  rcases h with ⟨ok, c, buf', hresult, hgot⟩
  have hreturns := parseRequest_run (c := {}) (Or.inl rfl) buf t
  rw [hresult] at hreturns
  cases hrun : (lineStep t).run {} buf.readable with
  | waiting c' rest =>
      rw [hrun] at hreturns
      rcases hreturns with ⟨_, heq, -, hexpects⟩
      cases heq
      rw [hexpects.not_gotAll] at hgot
      cases hgot
  | failed c' rest =>
      rw [hrun] at hreturns
      rcases hreturns with ⟨_, heq, -, hexpects⟩
      cases heq
      rw [hexpects.not_gotAll] at hgot
      cases hgot
  | stopped =>
      rw [hrun] at hreturns
      cases hreturns
  | done c' rest =>
      rcases LineMachine.run_eq_done_iff.1 hrun with
        ⟨lines, last, c₁, hlines, hlast, hgoes, hdone, hbs⟩
      -- the first line cannot be the last: a request line does not end the head
      cases lines with
      | nil =>
          cases hgoes
          exact absurd hdone (lineStep_requestLine_ne_done rfl)
      | cons first headers =>
          cases hstep : lineStep t {} first with
          | next c₀ =>
              rcases lineStep_requestLine_next rfl rfl hstep with ⟨hvalid, hc₀⟩
              rcases headers_of_goes hc₀ ((LineMachine.goes_cons hstep).1 hgoes) with
                ⟨hheaders, hc₁⟩
              have hcolon : 58 ∉ last := by
                intro hmem
                rw [lineStep_header hc₁, if_pos hmem] at hdone
                cases hdone
              have hothers := fun l hl => hlines l (List.mem_cons_of_mem _ hl)
              exact ⟨last, first, headers, _, rest, ⟨hvalid, hlines first List.mem_cons_self,
                fun l hl => ⟨hheaders l hl, hothers l hl⟩, rfl⟩, hcolon, hlast, hbs⟩
          | done c₀ => simp [LineMachine.goes, hstep] at hgoes
          | fail c₀ => simp [LineMachine.goes, hstep] at hgoes
          | stop => simp [LineMachine.goes, hstep] at hgoes

/-- The head ends at an empty line, and at no other, if and only if no line in the place of a header
lacks a colon without being empty. -/
theorem head_ends_iff (buf : WfBuffer) (t : Nat) :
    ((ReachesGotAll buf t ↔ CompleteHead buf.readable) ∧
        (BadHeaderLine buf.readable → ReturnsFalse buf t)) ↔
      ¬ BadHeaderLine buf.readable := by
  constructor
  -- a bad line ends the head with true, where false was promised
  · rintro ⟨-, hfalse⟩ hbad
    rcases hfalse hbad with ⟨c, buf', hresult⟩
    rcases hbad with ⟨line, -, hends⟩
    rcases parseRequest_of_endsWith hends t with ⟨c', buf'', hresult', -⟩
    rw [hresult] at hresult'
    cases hresult'
  · intro hnot
    refine ⟨⟨fun hgot => ?_, fun hcomplete => ?_⟩, fun hbad => absurd hbad hnot⟩
    · rcases endsWith_of_reachesGotAll hgot with ⟨line, hends⟩
      by_cases hline : line = []
      · subst hline
        exact hends
      · exact absurd ⟨line, hline, hends⟩ hnot
    · rcases parseRequest_of_endsWith hcomplete t with ⟨c, buf', hresult, hgot⟩
      exact ⟨true, c, buf', hresult, hgot⟩

/-- A header line of one word, and no empty line. -/
def oneWord : WfBuffer :=
  (WfBuffer.construct 0).append (Bytes.ofString "GET / HTTP/1.1\r\nword\r\n")

theorem colonless_line_ends_head :
    ReachesGotAll oneWord 0 ∧
      ¬ ((ReachesGotAll oneWord 0 ↔ CompleteHead oneWord.readable) ∧
        (BadHeaderLine oneWord.readable → ReturnsFalse oneWord 0)) := by
  have hvalid : ValidRequestLine (Bytes.ofString "GET / HTTP/1.1") :=
    ⟨.kGet, [47], .kHttp11, by decide, by decide, by decide, by decide⟩
  have hreadable : oneWord.readable = Bytes.ofString "GET / HTTP/1.1\r\nword\r\n" := by
    rw [oneWord, WfBuffer.readable_append, WfBuffer.readable_construct, List.nil_append]
  have hends : EndsWith oneWord.readable (Bytes.ofString "word") := by
    rw [hreadable]
    exact ⟨Bytes.ofString "GET / HTTP/1.1", [], _, [], ⟨hvalid, by decide, by simp, rfl⟩,
      by decide, by decide, by decide⟩
  rcases parseRequest_of_endsWith hends 0 with ⟨c, buf', hresult, hgot⟩
  refine ⟨⟨true, c, buf', hresult, hgot⟩, fun hclaim => ?_⟩
  rcases hclaim.2 ⟨_, by decide, hends⟩ with ⟨c', buf'', hfalse⟩
  rw [hresult] at hfalse
  cases hfalse

end HttpContext
end Http
end Longky
