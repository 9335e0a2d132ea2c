import Mathlib.Data.List.Forall2
import Longky.Cgi.Params

/-!
# Requests — decoding whole requests from reads of any size

A `Request` is the list of records a web server sends for one request, with records of other types
anywhere among them.  `Endpoint` is the codec with its connection's input buffer; `receive` is one
read.  `requests_decoded`: however the bytes of each request are cut into reads, the callback is
called once per request with that request's parameters and body, and nothing is left behind.
-/

namespace Longky
namespace Cgi

open Lib Net

/-! ## Requests -/

/-- The record types the codec acts upon. -/
def Record.known (r : Record) : Bool :=
  r.type == kFcgiBeginRequest || r.type == kFcgiParams || r.type == kFcgiStdin

/-- The record that ends the body, and with it the request. -/
def Record.endsStdin (r : Record) : Bool :=
  r.type == kFcgiStdin && r.content.isEmpty

structure Request where
  beginRequest : Record
  paramsRecords : List Record
  endParams : Record
  stdinRecords : List Record
  endStdin : Record
  params : List Param
  /-- All records of the request in the order they are sent. -/
  records : List Record
  beginRequest_type : beginRequest.type = kFcgiBeginRequest
  paramsRecords_type : ∀ r ∈ paramsRecords, r.type = kFcgiParams ∧ r.content ≠ []
  paramsRecords_content : paramsRecords.flatMap Record.content = params.flatMap Param.toBytes
  endParams_type : endParams.type = kFcgiParams ∧ endParams.content = []
  stdinRecords_type : ∀ r ∈ stdinRecords, r.type = kFcgiStdin ∧ r.content ≠ []
  endStdin_type : endStdin.type = kFcgiStdin ∧ endStdin.content = []
  records_known : records.filter Record.known =
    (beginRequest :: paramsRecords ++ endParams :: stdinRecords) ++ [endStdin]

namespace Request

def toBytes (q : Request) : Bytes := q.records.flatMap Record.toBytes

def paramMap (q : Request) : ParamMap := Param.toMap q.params

def stdin (q : Request) : Bytes := q.stdinRecords.flatMap Record.content

/-- The known records in front of the last. -/
def body (q : Request) : List Record :=
  q.beginRequest :: q.paramsRecords ++ q.endParams :: q.stdinRecords

theorem not_endsStdin_of_mem_body {q : Request} {r : Record} (h : r ∈ q.body) :
    r.endsStdin = false := by
  have hparams : ∀ r : Record, r.type = kFcgiParams → r.endsStdin = false := by
    intro r hr
    simp [Record.endsStdin, hr, kFcgiParams, kFcgiStdin]
  simp only [body, List.cons_append, List.mem_cons, List.mem_append] at h
  rcases h with rfl | h | rfl | h
  · simp [Record.endsStdin, q.beginRequest_type, kFcgiBeginRequest, kFcgiStdin]
  · exact hparams r (q.paramsRecords_type r h).1
  · exact hparams _ q.endParams_type.1
  · simp [Record.endsStdin, (q.stdinRecords_type r h).2]

/-- A prefix of the records that reaches the end of the body has all the known records. -/
theorem filter_of_endsStdin {q : Request} {done rest : List Record}
    (h : done ++ rest = q.records) {r : Record} (hr : r ∈ done) (hend : r.endsStdin = true) :
    done.filter Record.known = q.body ++ [q.endStdin] ∧ rest.filter Record.known = [] := by
  have hknown : r.known = true := by
    simp only [Record.endsStdin, Bool.and_eq_true] at hend
    simp [Record.known, hend.1]
  have hsplit : done.filter Record.known ++ rest.filter Record.known = q.body ++ [q.endStdin] := by
    rw [← List.filter_append, h]
    exact q.records_known
  rcases List.eq_nil_or_concat (rest.filter Record.known) with hnil | ⟨init, last, hcons⟩
  · rw [hnil, List.append_nil] at hsplit
    exact ⟨hsplit, hnil⟩
  · -- otherwise the end of the body would be among the records in front of the last
    rw [hcons, List.concat_eq_append, ← List.append_assoc] at hsplit
    have hbody := (List.append_inj' hsplit rfl).1
    have hmem : r ∈ q.body := by
      rw [← hbody]
      exact List.mem_append_left _ (List.mem_filter.2 ⟨hr, hknown⟩)
    rw [not_endsStdin_of_mem_body hmem] at hend
    cases hend

end Request

/-! ## The codec on a list of records -/

namespace FastCgiCodec

def handle (c : FastCgiCodec) (r : Record) : FastCgiCodec := c.onRecord r.type r.content

/-- What a codec has collected of the current request. -/
structure Collected (c : FastCgiCodec) (got : Bool) (stdin stream : Bytes) (params : ParamMap) :
    Prop where
  gotRequest : c.gotRequest_ = got
  stdin : c.stdin_.readable = stdin
  stream : c.paramsStream_.readable = stream
  params : c.params_ = params

/-- Nothing is left of earlier requests. -/
def Clean (c : FastCgiCodec) : Prop := c.Collected false [] [] (fun _ => none)

theorem clean_construct : Clean {} where
  gotRequest := rfl
  stdin := WfBuffer.readable_construct _
  stream := WfBuffer.readable_construct _
  params := rfl

theorem handle_of_not_known (c : FastCgiCodec) {r : Record} (h : r.known = false) :
    c.handle r = c := by
  simp only [Record.known, Bool.or_eq_false_iff, beq_eq_false_iff_ne] at h
  rcases h with ⟨⟨hbegin, hparams⟩, hstdin⟩
  simp [handle, onRecord, hbegin, hparams, hstdin]

theorem foldl_handle_filter (c : FastCgiCodec) (rs : List Record) :
    rs.foldl handle c = (rs.filter Record.known).foldl handle c := by
  induction rs generalizing c with
  | nil => rfl
  | cons r rs ih =>
      cases hr : r.known with
      | true => simp [hr, ih]
      | false => simp [hr, handle_of_not_known c hr, ih]

/-- Only the end of the body completes a request. -/
theorem gotRequest_handle (c : FastCgiCodec) {r : Record} (h : r.endsStdin = false) :
    (c.handle r).gotRequest_ = c.gotRequest_ := by
  unfold handle onRecord
  split
  · unfold onBeginRequest
    split
    · dsimp only
      split <;> rfl
    · rfl
  · split
    · unfold onParams
      split <;> rfl
    · split
      · rename_i htype
        -- an STDIN record that does not end the body has content
        have hne : r.content ≠ [] := by
          intro hnil
          simp [Record.endsStdin, htype, hnil] at h
        rw [onStdin, if_pos (List.length_pos_iff.2 hne)]
      · rfl

/-- What each of the records leaves alone is what it was behind all of them. -/
theorem foldl_handle_keeps {T : Type*} {P : Record → Prop} {f : FastCgiCodec → T}
    (hstep : ∀ c r, P r → f (c.handle r) = f c) (c : FastCgiCodec) {rs : List Record}
    (h : ∀ r ∈ rs, P r) : f (rs.foldl handle c) = f c := by
  induction rs generalizing c with
  | nil => rfl
  | cons r rs ih =>
      rw [List.foldl_cons, ih _ (fun r' hr' => h r' (List.mem_cons_of_mem _ hr')),
        hstep c r (h r List.mem_cons_self)]

theorem gotRequest_foldl (c : FastCgiCodec) {rs : List Record}
    (h : ∀ r ∈ rs, r.endsStdin = false) : (rs.foldl handle c).gotRequest_ = c.gotRequest_ :=
  foldl_handle_keeps (fun c _ hr => gotRequest_handle c hr) c h

/-- Only a BEGIN_REQUEST record sets `keepConn_`. -/
theorem keepConn_handle (c : FastCgiCodec) {r : Record} (h : r.type ≠ kFcgiBeginRequest) :
    (c.handle r).keepConn_ = c.keepConn_ := by
  unfold handle onRecord
  rw [if_neg h]
  split
  · unfold onParams
    split <;> rfl
  · split
    · unfold onStdin
      split <;> rfl
    · rfl

theorem keepConn_foldl (c : FastCgiCodec) {rs : List Record}
    (h : ∀ r ∈ rs, r.type ≠ kFcgiBeginRequest) :
    (rs.foldl handle c).keepConn_ = c.keepConn_ :=
  foldl_handle_keeps (fun c _ hr => keepConn_handle c hr) c h

theorem keepConn_request (c : FastCgiCodec) (q : Request) :
    ((q.body ++ [q.endStdin]).foldl handle c).keepConn_ =
      (c.handle q.beginRequest).keepConn_ := by
  -- after the first record only PARAMS and STDIN records count
  have htail : (q.body ++ [q.endStdin]).foldl handle c =
      (q.paramsRecords ++ q.endParams :: q.stdinRecords ++ [q.endStdin]).foldl handle
        (c.handle q.beginRequest) := by
    simp [Request.body]
  rw [htail]
  refine keepConn_foldl _ ?_
  intro r hr
  have htype : r.type = kFcgiParams ∨ r.type = kFcgiStdin := by
    simp only [List.mem_append, List.mem_cons, List.not_mem_nil, or_false] at hr
    rcases hr with (h | rfl | h) | rfl
    · exact Or.inl (q.paramsRecords_type r h).1
    · exact Or.inl q.endParams_type.1
    · exact Or.inr (q.stdinRecords_type r h).1
    · exact Or.inr q.endStdin_type.1
  rcases htype with h | h <;> simp [h, kFcgiParams, kFcgiStdin, kFcgiBeginRequest]

section Collect

variable {c : FastCgiCodec} {got : Bool} {stdin stream : Bytes} {params : ParamMap}

theorem Collected.beginRequest (h : c.Collected got stdin stream params) {r : Record}
    (hr : r.type = kFcgiBeginRequest) : (c.handle r).Collected got stdin stream params := by
  unfold handle onRecord onBeginRequest
  rw [if_pos hr]
  split
  · dsimp only
    split
    · exact { h with }
    · exact h
  · exact h

theorem Collected.paramsRecords (h : c.Collected got stdin stream params) {rs : List Record}
    (hrs : ∀ r ∈ rs, r.type = kFcgiParams ∧ r.content ≠ []) :
    (rs.foldl handle c).Collected got stdin (stream ++ rs.flatMap Record.content) params := by
  induction rs generalizing c stream with
  | nil => simpa using h
  | cons r rs ih =>
      rcases hrs r List.mem_cons_self with ⟨htype, hne⟩
      have hr : (c.handle r).Collected got stdin (stream ++ r.content) params := by
        have heq : c.handle r = { c with paramsStream_ := c.paramsStream_.append r.content } := by
          simp [handle, onRecord, htype, kFcgiParams, kFcgiBeginRequest, onParams,
            List.length_pos_iff.2 hne]
        rw [heq]
        exact { h with stream := by simp [h.stream] }
      have := ih hr (fun r' hr' => hrs r' (List.mem_cons_of_mem _ hr'))
      simpa [List.append_assoc] using this

theorem Collected.endParams {ps : List Param}
    (h : c.Collected got stdin (ps.flatMap Param.toBytes) params) {r : Record}
    (hr : r.type = kFcgiParams ∧ r.content = []) :
    (c.handle r).Collected got stdin [] (ps.foldl Param.enter params) := by
  rcases parseAllParams_encode ps c.params_ h.stream with ⟨s', hs', hparse⟩
  have heq : c.handle r =
      { c with paramsStream_ := s', params_ := ps.foldl Param.enter c.params_ } := by
    simp [handle, onRecord, hr.1, hr.2, kFcgiParams, kFcgiBeginRequest, onParams, hparse]
  rw [heq]
  exact { h with stream := hs', params := by rw [h.params] }

theorem Collected.stdinRecords (h : c.Collected got stdin stream params) {rs : List Record}
    (hrs : ∀ r ∈ rs, r.type = kFcgiStdin ∧ r.content ≠ []) :
    (rs.foldl handle c).Collected got (stdin ++ rs.flatMap Record.content) stream params := by
  induction rs generalizing c stdin with
  | nil => simpa using h
  | cons r rs ih =>
      rcases hrs r List.mem_cons_self with ⟨htype, hne⟩
      have hr : (c.handle r).Collected got (stdin ++ r.content) stream params := by
        have heq : c.handle r = { c with stdin_ := c.stdin_.append r.content } := by
          simp [handle, onRecord, htype, kFcgiStdin, kFcgiParams, kFcgiBeginRequest, onStdin,
            List.length_pos_iff.2 hne]
        rw [heq]
        exact { h with stdin := by simp [h.stdin] }
      have := ih hr (fun r' hr' => hrs r' (List.mem_cons_of_mem _ hr'))
      simpa [List.append_assoc] using this

theorem Collected.endStdin (h : c.Collected got stdin stream params) {r : Record}
    (hr : r.type = kFcgiStdin ∧ r.content = []) :
    (c.handle r).Collected true stdin stream params := by
  have heq : c.handle r = { c with gotRequest_ := true } := by
    simp [handle, onRecord, hr.1, hr.2, kFcgiStdin, kFcgiParams, kFcgiBeginRequest, onStdin]
  rw [heq]
  exact { h with gotRequest := rfl }

end Collect

/-- A clean codec collects exactly the request. -/
theorem Clean.collects {c : FastCgiCodec} (h : c.Clean) (q : Request) :
    ((q.body ++ [q.endStdin]).foldl handle c).Collected true q.stdin [] q.paramMap := by
  -- the five parts of a request, in the order of the stream
  have h₁ := Collected.beginRequest h q.beginRequest_type
  have h₂ := h₁.paramsRecords q.paramsRecords_type
  rw [List.nil_append, q.paramsRecords_content] at h₂
  have h₃ := h₂.endParams q.endParams_type
  have h₄ := h₃.stdinRecords q.stdinRecords_type
  rw [List.nil_append] at h₄
  have h₅ := h₄.endStdin q.endStdin_type
  simpa [Request.body, Request.paramMap, Param.toMap, Request.stdin] using h₅

end FastCgiCodec

/-! ## Reads -/

/-- A codec with its connection's input buffer and the callbacks it has made. -/
structure Endpoint where
  codec : FastCgiCodec := {}
  inputBuffer_ : WfBuffer := WfBuffer.construct Buffer.kInitialSize
  requests : List (ParamMap × Bytes) := []

namespace Endpoint

/-- One read: the bytes are appended to the input buffer and `onMessage` is called. -/
def receive (e : Endpoint) (data : Bytes) : Endpoint :=
  let h := e.codec.onMessage (e.inputBuffer_.readFd data)
  { codec := h.codec, inputBuffer_ := h.buf, requests := e.requests ++ h.request.toList }

def receiveAll (e : Endpoint) (reads : List Bytes) : Endpoint := reads.foldl receive e

/-- What a read does, in terms of the records it completes. -/
theorem receive_spec (e : Endpoint) (data : Bytes) {rs : List Record} {rest : Bytes}
    (hdecode : Record.framing.decode (e.inputBuffer_.readable ++ data) = (rs, rest)) :
    (e.receive data).inputBuffer_.readable = rest ∧
      ((rs.foldl FastCgiCodec.handle e.codec).gotRequest_ = false →
        (e.receive data).codec = rs.foldl FastCgiCodec.handle e.codec ∧
          (e.receive data).requests = e.requests) ∧
      ∀ stdin stream params,
        (rs.foldl FastCgiCodec.handle e.codec).Collected true stdin stream params →
        (e.receive data).codec.Clean ∧
          (e.receive data).codec.keepConn_ =
            (rs.foldl FastCgiCodec.handle e.codec).keepConn_ ∧
          (e.receive data).requests = e.requests ++ [(params, stdin)] := by
  rcases e.codec.parseRequest_eq (e.inputBuffer_.readFd data) with ⟨hcodec, hbuf⟩
  rw [WfBuffer.readable_readFd, hdecode] at hcodec hbuf
  change _ = rs.foldl FastCgiCodec.handle e.codec at hcodec
  refine ⟨?_, ?_, ?_⟩
  · unfold receive FastCgiCodec.onMessage
    dsimp only
    split <;> exact hbuf
  · intro hgot
    rw [← hcodec] at hgot
    unfold receive FastCgiCodec.onMessage
    simp only [hgot, Bool.false_eq_true, if_false, Option.toList_none, List.append_nil, and_true]
    exact hcodec
  · intro stdin stream params hcol
    rw [← hcodec] at hcol
    unfold receive FastCgiCodec.onMessage
    simp only [hcol.gotRequest, if_true, hcol.params, hcol.stdin, Option.toList_some, and_true]
    refine ⟨?_, congrArg FastCgiCodec.keepConn_ hcodec⟩
    exact
      { gotRequest := rfl
        stdin := WfBuffer.readable_retrieveAll _
        stream := WfBuffer.readable_retrieveAll _
        params := rfl }

/-! ## One request -/

/-- The state in the middle of a request: `done` are the records handled so far, `rest` is what is
still to arrive and decodes to the records `todo`. -/
structure Mid (q : Request) (c₀ : FastCgiCodec) (before : List (ParamMap × Bytes)) (e : Endpoint)
    (rest : Bytes) (done todo : List Record) : Prop where
  records : done ++ todo = q.records
  decode : Record.framing.decode (e.inputBuffer_.readable ++ rest) = (todo, [])
  waiting : Record.framing.decode e.inputBuffer_.readable = ([], e.inputBuffer_.readable)
  handled : ((∀ r ∈ done, r.endsStdin = false) ∧
      e.codec = done.foldl FastCgiCodec.handle c₀ ∧ e.requests = before) ∨
    ((∃ r ∈ done, r.endsStdin = true) ∧ e.codec.Clean ∧
      e.codec.keepConn_ = (c₀.handle q.beginRequest).keepConn_ ∧
      e.requests = before ++ [(q.paramMap, q.stdin)])

variable {q : Request} {c₀ : FastCgiCodec} {before : List (ParamMap × Bytes)}

theorem Mid.receive {e : Endpoint} {data rest : Bytes} {done todo : List Record}
    (h : Mid q c₀ before e (data ++ rest) done todo) (hc₀ : c₀.Clean) :
    ∃ rs todo', todo = rs ++ todo' ∧ Mid q c₀ before (e.receive data) rest (done ++ rs) todo' := by
  have happend := Framing.decode_append (F := Record.framing) (e.inputBuffer_.readable ++ data) rest
  rw [List.append_assoc, h.decode] at happend
  have hrest := Framing.decode_rest (F := Record.framing) (e.inputBuffer_.readable ++ data)
  cases hd : Record.framing.decode (e.inputBuffer_.readable ++ data) with
  | mk rs left =>
      rcases receive_spec e data hd with ⟨hbuf, hnone, hsome⟩
      rw [hd] at happend hrest
      -- decoding a prefix and then the rest gives the records of the whole stream
      have htodo : todo = rs ++ (Record.framing.decode (left ++ rest)).1 := congrArg Prod.fst happend
      have hnil : (Record.framing.decode (left ++ rest)).2 = [] := (congrArg Prod.snd happend).symm
      have hrecords : (done ++ rs) ++ (Record.framing.decode (left ++ rest)).1 = q.records := by
        rw [List.append_assoc, ← htodo]
        exact h.records
      refine ⟨rs, _, htodo, hrecords, ?_, ?_, ?_⟩
      · rw [hbuf]
        exact Prod.ext rfl hnil
      · rw [hbuf]
        exact hrest
      · rcases h.handled with ⟨hopen, hcodec, hreq⟩ | ⟨⟨r, hr, hend⟩, hclean, hkeep, hreq⟩
        · have hfold : rs.foldl FastCgiCodec.handle e.codec =
              (done ++ rs).foldl FastCgiCodec.handle c₀ := by
            rw [hcodec, List.foldl_append]
          -- the request completes in this read exactly when the read brings the end of the body
          by_cases hall : ∀ r ∈ done ++ rs, r.endsStdin = false
          · have hgot : (rs.foldl FastCgiCodec.handle e.codec).gotRequest_ = false := by
              rw [hfold, FastCgiCodec.gotRequest_foldl c₀ hall]
              exact hc₀.gotRequest
            rcases hnone hgot with ⟨hcodec', hreq'⟩
            exact Or.inl ⟨hall, by rw [hcodec', hfold], by rw [hreq', hreq]⟩
          · obtain ⟨r, hr, hend⟩ : ∃ r ∈ done ++ rs, r.endsStdin = true := by
              simpa using hall
            have hcol := hc₀.collects q
            have hkeep := FastCgiCodec.keepConn_request c₀ q
            rw [← (Request.filter_of_endsStdin hrecords hr hend).1,
              ← FastCgiCodec.foldl_handle_filter, ← hfold] at hcol hkeep
            rcases hsome _ _ _ hcol with ⟨hclean, hkeep', hreq'⟩
            exact Or.inr ⟨⟨r, hr, hend⟩, hclean, by rw [hkeep', hkeep], by rw [hreq', hreq]⟩
        · -- the request is complete: what is left has no record that counts
          have hunknown : rs.filter Record.known = [] := by
            have hfilter := (Request.filter_of_endsStdin h.records hr hend).2
            rw [htodo, List.filter_append, List.append_eq_nil_iff] at hfilter
            exact hfilter.1
          have hfold : rs.foldl FastCgiCodec.handle e.codec = e.codec := by
            rw [FastCgiCodec.foldl_handle_filter, hunknown]
            rfl
          obtain ⟨hcodec', hreq'⟩ := hnone (by rw [hfold]; exact hclean.gotRequest)
          rw [hfold] at hcodec'
          refine Or.inr ⟨⟨r, List.mem_append_left _ hr, hend⟩, ?_, ?_, by rw [hreq', hreq]⟩
          · rwa [hcodec']
          · rwa [hcodec']

theorem Mid.receiveAll {e : Endpoint} {reads : List Bytes} {done todo : List Record}
    (h : Mid q c₀ before e reads.flatten done todo) (hc₀ : c₀.Clean) :
    ∃ done' todo', Mid q c₀ before (e.receiveAll reads) [] done' todo' := by
  induction reads generalizing e done todo with
  | nil => exact ⟨done, todo, h⟩
  | cons data reads ih =>
      have hcons : Mid q c₀ before e (data ++ reads.flatten) done todo := h
      rcases hcons.receive hc₀ with ⟨rs, todo', -, hmid⟩
      exact ih hmid

/-- When nothing is left to arrive the request has been handled. -/
theorem Mid.finished {e : Endpoint} {done todo : List Record}
    (h : Mid q c₀ before e [] done todo) :
    e.inputBuffer_.readable = [] ∧ e.codec.Clean ∧
      e.requests = before ++ [(q.paramMap, q.stdin)] := by
  have hdecode := h.decode
  rw [List.append_nil, h.waiting] at hdecode
  -- no complete record waits in the buffer and nothing more comes, so all have been handled
  have htodo : todo = [] := (congrArg Prod.fst hdecode).symm
  have hempty : e.inputBuffer_.readable = [] := congrArg Prod.snd hdecode
  have hdone : done = q.records := by simpa [htodo] using h.records
  have hlast : q.endStdin ∈ done := by
    have hmem : q.endStdin ∈ q.records.filter Record.known := by
      rw [q.records_known]
      simp
    rw [hdone]
    exact (List.mem_filter.1 hmem).1
  rcases h.handled with ⟨hopen, -, -⟩ | ⟨-, hclean, -, hreq⟩
  · have := hopen _ hlast
    simp [Record.endsStdin, q.endStdin_type] at this
  · exact ⟨hempty, hclean, hreq⟩

/-- Between two requests. -/
structure Idle (e : Endpoint) : Prop where
  codec : e.codec.Clean
  input : e.inputBuffer_.readable = []

theorem idle_construct : Idle {} := ⟨FastCgiCodec.clean_construct, WfBuffer.readable_construct _⟩

theorem Idle.mid {e : Endpoint} (h : e.Idle) (q : Request) {rest : Bytes}
    (hrest : rest = q.toBytes) : Mid q e.codec e.requests e rest [] q.records where
  records := rfl
  decode := by
    rw [h.input, hrest, List.nil_append]
    exact Record.decode_toBytes q.records
  waiting := by
    rw [h.input]
    exact Framing.decode_nil
  handled := Or.inl ⟨by simp, rfl, rfl⟩

theorem Idle.receiveAll {e : Endpoint} (h : e.Idle) (q : Request) {reads : List Bytes}
    (hreads : reads.flatten = q.toBytes) :
    (e.receiveAll reads).Idle ∧
      (e.receiveAll reads).requests = e.requests ++ [(q.paramMap, q.stdin)] := by
  have hmid := h.mid q hreads
  rcases hmid.receiveAll h.codec with ⟨done, todo, hend⟩
  rcases hend.finished with ⟨hempty, hclean, hreq⟩
  exact ⟨⟨hclean, hempty⟩, hreq⟩

/-! ## Many requests -/

/-- The endpoint after the reads of several requests, one list of reads per request. -/
def receiveRequests (e : Endpoint) (reads : List (List Bytes)) : Endpoint :=
  reads.foldl receiveAll e

theorem Idle.receiveRequests {e : Endpoint} (h : e.Idle) {qs : List Request}
    {reads : List (List Bytes)}
    (hreads : List.Forall₂ (fun q r => r.flatten = q.toBytes) qs reads) :
    (e.receiveRequests reads).Idle ∧
      (e.receiveRequests reads).requests =
        e.requests ++ qs.map (fun q => (q.paramMap, q.stdin)) := by
  induction hreads generalizing e with
  | nil => exact ⟨h, by simp [Endpoint.receiveRequests]⟩
  | cons hq _ ih =>
      rcases h.receiveAll _ hq with ⟨hidle, hreq⟩
      rcases ih hidle with ⟨hidle', hreq'⟩
      refine ⟨hidle', ?_⟩
      calc
        ((e.receiveAll _).receiveRequests _).requests
            = (e.receiveAll _).requests ++ _ := hreq'
        _ = (e.requests ++ [_]) ++ _ := by rw [hreq]
        _ = _ := by simp

/-- Decoding is independent of segmentation and of history: after the reads of any number of
requests the input buffer is empty, the callback has been called once per request, in order, with
that request's parameters and body, and so has a fresh codec that is given the request in one
read. -/
theorem requests_decoded {qs : List Request} {reads : List (List Bytes)}
    (hreads : List.Forall₂ (fun q r => r.flatten = q.toBytes) qs reads) :
    (∀ k, (receiveRequests {} (reads.take k)).inputBuffer_.readable = [] ∧
      (receiveRequests {} (reads.take k)).requests =
        (qs.take k).map (fun q => (q.paramMap, q.stdin))) ∧
      ∀ q ∈ qs, (receive {} q.toBytes).requests = [(q.paramMap, q.stdin)] := by
  refine ⟨?_, ?_⟩
  · intro k
    rcases idle_construct.receiveRequests (List.forall₂_take k hreads) with ⟨hidle, hreq⟩
    exact ⟨hidle.input, hreq⟩
  · intro q _
    have hone : [q.toBytes].flatten = q.toBytes := by simp
    exact (idle_construct.receiveAll q hone).2

/-- A GET request with an empty body and a POST request with a record of a type the codec does not
know, the first cut inside a header, the second sent whole. -/
def getRequest : Request where
  beginRequest := ⟨1, 1, 1, [0, 1, 1, 0, 0, 0, 0, 0], [], 0, by decide, by decide⟩
  paramsRecords := [⟨1, 4, 1, [1, 2, 65, 66, 67], [0, 0, 0], 0, by decide, by decide⟩]
  endParams := ⟨1, 4, 1, [], [], 0, by decide, by decide⟩
  stdinRecords := []
  endStdin := ⟨1, 5, 1, [], [], 0, by decide, by decide⟩
  params := [⟨[65], [66, 67], false, false, by decide, by decide⟩]
  records :=
    [⟨1, 1, 1, [0, 1, 1, 0, 0, 0, 0, 0], [], 0, by decide, by decide⟩,
      ⟨1, 4, 1, [1, 2, 65, 66, 67], [0, 0, 0], 0, by decide, by decide⟩,
      ⟨1, 4, 1, [], [], 0, by decide, by decide⟩, ⟨1, 5, 1, [], [], 0, by decide, by decide⟩]
  beginRequest_type := rfl
  paramsRecords_type := by simp [kFcgiParams]
  paramsRecords_content := by decide
  endParams_type := ⟨rfl, rfl⟩
  stdinRecords_type := by simp
  endStdin_type := ⟨rfl, rfl⟩
  records_known := rfl

def postRequest : Request where
  beginRequest := ⟨1, 1, 1, [0, 1, 0, 0, 0, 0, 0, 0], [], 0, by decide, by decide⟩
  paramsRecords := []
  endParams := ⟨1, 4, 1, [], [], 0, by decide, by decide⟩
  stdinRecords := [⟨1, 5, 1, [7], [], 0, by decide, by decide⟩]
  endStdin := ⟨1, 5, 1, [], [], 0, by decide, by decide⟩
  params := []
  records :=
    [⟨1, 1, 1, [0, 1, 0, 0, 0, 0, 0, 0], [], 0, by decide, by decide⟩,
      ⟨1, 4, 1, [], [], 0, by decide, by decide⟩, ⟨1, 8, 1, [9, 9], [0], 0, by decide, by decide⟩,
      ⟨1, 5, 1, [7], [], 0, by decide, by decide⟩, ⟨1, 5, 1, [], [], 0, by decide, by decide⟩]
  beginRequest_type := rfl
  paramsRecords_type := by simp
  paramsRecords_content := rfl
  endParams_type := ⟨rfl, rfl⟩
  stdinRecords_type := by simp [kFcgiStdin]
  endStdin_type := ⟨rfl, rfl⟩
  records_known := rfl

theorem requests_decoded_get_post :
    (receiveRequests {} [[getRequest.toBytes.take 5, getRequest.toBytes.drop 5],
      [postRequest.toBytes]]).requests =
        [(getRequest.paramMap, []), (postRequest.paramMap, [7])] := by
  have hreads : List.Forall₂ (fun q r => r.flatten = q.toBytes) [getRequest, postRequest]
      [[getRequest.toBytes.take 5, getRequest.toBytes.drop 5], [postRequest.toBytes]] := by
    simp
  exact ((requests_decoded hreads).1 2).2

end Endpoint
end Cgi
end Longky
