import Longky.Cgi.ParamsFormat

/-!
# MalformedParams — what becomes of parameters that cannot be decoded

`parseAllParams` returns false on a stream that is no concatenation of pairs, and `onParams` passes
this on.  `parseRequest` drops the result, so the end of the body still completes the request, and
the callback is called with the pairs in front of the malformed one.

`malformed_not_executed_iff`: the callback gets no half-decoded parameters if and only if they are
well formed or the body has not ended.
-/

namespace Longky
namespace Cgi

open Lib Net

/-! ## Reads and records -/

namespace Endpoint

variable {e : Endpoint} {reads : List Bytes} {rs : List Record}

/-- The bytes that wait in the buffer begin no record. -/
def Waiting (e : Endpoint) : Prop :=
  Record.framing.decode e.inputBuffer_.readable = ([], e.inputBuffer_.readable)

theorem waiting_receive (e : Endpoint) (data : Bytes) : (e.receive data).Waiting := by
  have hrest := Framing.decode_rest (F := Record.framing) (e.inputBuffer_.readable ++ data)
  rw [← (receive_spec e data rfl).1] at hrest
  exact hrest

/-- The records of the first read come in front of those of the other reads. -/
theorem decode_receive {data rest : Bytes}
    (h : Record.framing.decode (e.inputBuffer_.readable ++ (data ++ rest)) = (rs, [])) :
    ∃ rs₁ rs₂, rs = rs₁ ++ rs₂ ∧
      (Record.framing.decode (e.inputBuffer_.readable ++ data)).1 = rs₁ ∧
      Record.framing.decode ((e.receive data).inputBuffer_.readable ++ rest) = (rs₂, []) := by
  have happend := Framing.decode_append (F := Record.framing) (e.inputBuffer_.readable ++ data) rest
  rw [List.append_assoc, h] at happend
  refine ⟨_, _, congrArg Prod.fst happend, rfl, ?_⟩
  rw [(receive_spec e data rfl).1]
  exact Prod.ext rfl (congrArg Prod.snd happend).symm

theorem receive_open {data : Bytes} (hgot : e.codec.gotRequest_ = false)
    (hrs : (Record.framing.decode (e.inputBuffer_.readable ++ data)).1 = rs)
    (hopen : ∀ r ∈ rs, r.endsStdin = false) :
    (e.receive data).codec = rs.foldl FastCgiCodec.handle e.codec ∧
      (e.receive data).requests = e.requests ∧ (e.receive data).codec.gotRequest_ = false := by
  have hgot' : (rs.foldl FastCgiCodec.handle e.codec).gotRequest_ = false := by
    rw [FastCgiCodec.gotRequest_foldl _ hopen]
    exact hgot
  have hdecode : Record.framing.decode (e.inputBuffer_.readable ++ data) = (rs, _) :=
    Prod.ext hrs rfl
  rcases (receive_spec e data hdecode).2.1 hgot' with ⟨hcodec, hreq⟩
  exact ⟨hcodec, hreq, hcodec ▸ hgot'⟩

/-- Reads that do not end a body leave the codec where the records lead it. -/
theorem receiveAll_open (hw : e.Waiting) (hgot : e.codec.gotRequest_ = false)
    (hdecode : Record.framing.decode (e.inputBuffer_.readable ++ reads.flatten) = (rs, []))
    (hopen : ∀ r ∈ rs, r.endsStdin = false) :
    (e.receiveAll reads).codec = rs.foldl FastCgiCodec.handle e.codec ∧
      (e.receiveAll reads).requests = e.requests ∧
      (e.receiveAll reads).inputBuffer_.readable = [] := by
  -- the records are dealt out to the reads; each read takes those that it completes
  induction reads generalizing e rs with
  | nil =>
      rw [List.flatten_nil, List.append_nil] at hdecode
      rcases Prod.mk.inj (hw.symm.trans hdecode) with ⟨rfl, hbuf⟩
      exact ⟨rfl, rfl, hbuf⟩
  | cons data reads ih =>
      rcases decode_receive hdecode with ⟨rs₁, rs₂, rfl, hrs₁, hrest⟩
      obtain ⟨hcodec, hreq, hgot'⟩ :=
        receive_open hgot hrs₁ fun r hr => hopen r (List.mem_append_left _ hr)
      obtain ⟨hcodec', hreq', hbuf'⟩ := ih (waiting_receive e data) hgot' hrest
        fun r hr => hopen r (List.mem_append_right _ hr)
      refine ⟨?_, hreq'.trans hreq, hbuf'⟩
      rw [List.foldl_append, ← hcodec]
      exact hcodec'

theorem append_eq_append_cons {α : Type*} {xs ys pre post : List α} {a : α}
    (h : xs ++ ys = pre ++ a :: post) :
    (∃ pre', pre = xs ++ pre' ∧ ys = pre' ++ a :: post) ∨
      ∃ bs, xs = pre ++ a :: bs ∧ post = bs ++ ys := by
  rcases List.append_eq_append_iff.1 h with ⟨as, hpre, hys⟩ | ⟨bs, hxs, hbs⟩
  · exact Or.inl ⟨as, hpre, hys⟩
  · cases bs with
    | nil => exact Or.inl ⟨[], by simpa using hxs.symm, by simpa using hbs.symm⟩
    | cons b bs =>
        cases hbs
        exact Or.inr ⟨bs, hxs, rfl⟩

theorem endsStdin_iff {r : Record} :
    r.endsStdin = true ↔ r.type = kFcgiStdin ∧ r.content = [] := by
  simp [Record.endsStdin]

theorem not_endsStdin_of_not_known {r : Record} (h : r.known = false) : r.endsStdin = false := by
  simp only [Record.known, Bool.or_eq_false_iff] at h
  simp [Record.endsStdin, h.2]

theorem foldl_handle_not_known (c : FastCgiCodec) (h : ∀ r ∈ rs, r.known = false) :
    rs.foldl FastCgiCodec.handle c = c := by
  rw [FastCgiCodec.foldl_handle_filter, List.filter_eq_nil_iff.2 (by simpa using h)]
  rfl

/-- The read that brings the end of a body makes the one call, with what the records in front of it
have led to. -/
theorem receiveAll_ended {pre post : List Record} {r : Record} (hw : e.Waiting)
    (hgot : e.codec.gotRequest_ = false)
    (hdecode : Record.framing.decode (e.inputBuffer_.readable ++ reads.flatten) =
      (pre ++ r :: post, []))
    (hpre : ∀ r ∈ pre, r.endsStdin = false) (hr : r.endsStdin = true)
    (hpost : ∀ r ∈ post, r.known = false) :
    (e.receiveAll reads).requests = e.requests ++
        [((pre.foldl FastCgiCodec.handle e.codec).params_,
          (pre.foldl FastCgiCodec.handle e.codec).stdin_.readable)] ∧
      (e.receiveAll reads).Idle := by
  induction reads generalizing e pre with
  | nil =>
      rw [List.flatten_nil, List.append_nil] at hdecode
      rcases List.append_eq_nil_iff.1 (Prod.mk.inj (hw.symm.trans hdecode)).1.symm with ⟨-, hnil⟩
      cases hnil
  | cons data reads ih =>
      rcases decode_receive hdecode with ⟨rs₁, rs₂, hsplit, hrs₁, hrest⟩
      rcases append_eq_append_cons hsplit.symm with ⟨pre', rfl, rfl⟩ | ⟨bs, rfl, rfl⟩
      · -- the end of the body is still to come
        obtain ⟨hcodec, hreq, hgot'⟩ :=
          receive_open hgot hrs₁ fun r' hr' => hpre r' (List.mem_append_left _ hr')
        obtain ⟨hreq', hidle⟩ := ih (waiting_receive e data) hgot' hrest
          fun r' hr' => hpre r' (List.mem_append_right _ hr')
        refine ⟨?_, hidle⟩
        rw [List.foldl_append, ← hcodec, ← hreq]
        exact hreq'
      -- this read brings the end; the records behind it, in this read and later, change nothing
      · have hbs : ∀ r' ∈ bs, r'.known = false := fun r' hr' => hpost r' (List.mem_append_left _ hr')
        have hrs₂ : ∀ r' ∈ rs₂, r'.known = false :=
          fun r' hr' => hpost r' (List.mem_append_right _ hr')
        have hfold : (pre ++ r :: bs).foldl FastCgiCodec.handle e.codec =
            (pre.foldl FastCgiCodec.handle e.codec).handle r := by
          rw [List.foldl_append, List.foldl_cons, foldl_handle_not_known _ hbs]
        have hcol : (pre.foldl FastCgiCodec.handle e.codec).Collected false _ _ _ :=
          ⟨by rw [FastCgiCodec.gotRequest_foldl _ hpre]; exact hgot, rfl, rfl, rfl⟩
        obtain ⟨hclean, -, hreq⟩ := (receive_spec e data (Prod.ext hrs₁ rfl)).2.2 _ _ _
          (by rw [hfold]; exact hcol.endStdin (endsStdin_iff.1 hr))
        obtain ⟨hcodec, hreq', hbuf⟩ := receiveAll_open (waiting_receive e data) hclean.gotRequest
          hrest fun r' hr' => not_endsStdin_of_not_known (hrs₂ r' hr')
        rw [foldl_handle_not_known _ hrs₂] at hcodec
        exact ⟨hreq'.trans hreq, by rw [← hcodec] at hclean; exact hclean, hbuf⟩

end Endpoint

/-! ## Requests with any parameters -/

/-- The empty record that ends PARAMS. -/
def Record.endsParams (r : Record) : Bool :=
  r.type == kFcgiParams && r.content.isEmpty

/-- The records of one request, as far as they have been sent: PARAMS records with any contents, their
end, and STDIN records, among records of other types. -/
structure SentRequest where
  before : List Record
  endParams : Record
  after : List Record
  before_open : ∀ r ∈ before, r.endsStdin = false ∧ r.endsParams = false
  endParams_type : endParams.type = kFcgiParams ∧ endParams.content = []
  after_type : ∀ r ∈ after, r.type ≠ kFcgiParams
  /-- Nothing of the request follows the end of its body. -/
  after_last : ∀ pre r post, after = pre ++ r :: post → r.endsStdin = true →
    ∀ r' ∈ post, r'.known = false

namespace SentRequest

def records (q : SentRequest) : List Record := q.before ++ q.endParams :: q.after

def toBytes (q : SentRequest) : Bytes := q.records.flatMap Record.toBytes

/-- The concatenated contents of the PARAMS records. -/
def params (q : SentRequest) : Bytes :=
  (q.before.filter (·.type = kFcgiParams)).flatMap Record.content

/-- The body has ended. -/
def ended (q : SentRequest) : Bool := q.after.any Record.endsStdin

/-- A sequence of encoded pairs. -/
def WellFormed (params : Bytes) : Prop := ∃ ps : List Param, params = ps.flatMap Param.toBytes

/-- When the parameters are malformed, no callback made since `e` got what a failed `parseAllParams`
left of them. -/
def NotExecuted (q : SentRequest) (e e' : Endpoint) : Prop :=
  ¬ WellFormed q.params → ∀ call ∈ e'.requests.drop e.requests.length,
    ∀ s : WfBuffer, s.readable = q.params →
      call.1 ≠ (FastCgiCodec.parseAllParams s fun _ => none).2.2

end SentRequest

namespace FastCgiCodec

variable {c : FastCgiCodec} {got : Bool} {stdin stream : Bytes} {params : ParamMap}

/-- What the records in front of the end of PARAMS lead to. -/
theorem Collected.before (h : c.Collected got stdin stream params) {rs : List Record}
    (hrs : ∀ r ∈ rs, r.endsStdin = false ∧ r.endsParams = false) :
    ∃ stdin', (rs.foldl handle c).Collected got stdin'
      (stream ++ (rs.filter (·.type = kFcgiParams)).flatMap Record.content) params := by
  -- STDIN may stand between the PARAMS records, so both streams grow
  induction rs generalizing c stdin stream with
  | nil => exact ⟨stdin, by simpa using h⟩
  | cons r rs ih =>
      rcases hrs r List.mem_cons_self with ⟨hstdin, hparams⟩
      have hrest := fun r' hr' => hrs r' (List.mem_cons_of_mem _ hr')
      by_cases htype : r.type = kFcgiParams
      · have hne : r.content ≠ [] := by
          intro hnil
          simp [Record.endsParams, htype, hnil] at hparams
        have hone : ([r].foldl handle c).Collected got stdin (stream ++ _) params :=
          h.paramsRecords (by simp [htype, hne])
        rcases ih hone hrest with ⟨stdin', hcol⟩
        exact ⟨stdin', by simpa [htype, List.append_assoc] using hcol⟩
      · have hone : ∃ stdin', (c.handle r).Collected got stdin' stream params := by
          by_cases hbegin : r.type = kFcgiBeginRequest
          · exact ⟨stdin, h.beginRequest hbegin⟩
          · by_cases hbody : r.type = kFcgiStdin
            · have hne : r.content ≠ [] := by
                intro hnil
                simp [Record.endsStdin, hbody, hnil] at hstdin
              have hall : ∀ r' ∈ [r], r'.type = kFcgiStdin ∧ r'.content ≠ [] := by
                simp [hbody, hne]
              exact ⟨_, h.stdinRecords hall⟩
            · refine ⟨stdin, ?_⟩
              rw [handle_of_not_known c (by simp [Record.known, htype, hbegin, hbody])]
              exact h
        rcases hone with ⟨stdin₁, hone⟩
        rcases ih hone hrest with ⟨stdin', hcol⟩
        exact ⟨stdin', by simpa [htype] using hcol⟩

/-- Only PARAMS records touch the parameters. -/
theorem params_handle (c : FastCgiCodec) {r : Record} (h : r.type ≠ kFcgiParams) :
    (c.handle r).params_ = c.params_ := by
  unfold handle onRecord
  split
  · unfold onBeginRequest
    split
    · dsimp only
      split <;> rfl
    · rfl
  · split
    · unfold onStdin
      split <;> rfl
    · rfl

theorem params_foldl (c : FastCgiCodec) {rs : List Record} (h : ∀ r ∈ rs, r.type ≠ kFcgiParams) :
    (rs.foldl handle c).params_ = c.params_ :=
  foldl_handle_keeps (fun c _ hr => params_handle c hr) c h

/-- The end of PARAMS parses the stream, and the result is dropped. -/
theorem handle_endParams (c : FastCgiCodec) {r : Record}
    (hr : r.type = kFcgiParams ∧ r.content = []) :
    (c.handle r).params_ = (parseAllParams c.paramsStream_ c.params_).2.2 := by
  simp [handle, onRecord, hr.1, hr.2, kFcgiParams, kFcgiBeginRequest, onParams]

end FastCgiCodec

namespace SentRequest

open Endpoint FastCgiCodec

variable {q : SentRequest} {e : Endpoint} {reads : List Bytes}

theorem before_endsStdin (q : SentRequest) {pre : List Record}
    (hpre : ∀ r ∈ pre, r.endsStdin = false) :
    ∀ r ∈ q.before ++ q.endParams :: pre, r.endsStdin = false := by
  intro r hr
  rcases List.mem_append.1 hr with hbefore | hrest
  · exact (q.before_open r hbefore).1
  · rcases List.mem_cons.1 hrest with rfl | hmem
    · simp [Record.endsStdin, q.endParams_type.1, kFcgiParams, kFcgiStdin]
    · exact hpre r hmem

/-- The records behind PARAMS, cut at the end of the body. -/
theorem exists_end (h : q.ended = true) :
    ∃ pre r post, q.after = pre ++ r :: post ∧ r.endsStdin = true ∧
      (∀ r' ∈ pre, r'.endsStdin = false) ∧ ∀ r' ∈ post, r'.known = false := by
  obtain ⟨r, hmem, hr⟩ := List.any_eq_true.1 h
  rcases List.append_of_mem hmem with ⟨pre, post, hsplit⟩
  refine ⟨pre, r, post, hsplit, hr, fun r' hr' => ?_, q.after_last pre r post hsplit hr⟩
  by_contra hend
  -- an earlier end would have nothing of the request behind it, but `r` is there
  rcases List.append_of_mem hr' with ⟨pre₁, pre₂, rfl⟩
  have hunknown := q.after_last pre₁ r' (pre₂ ++ r :: post) (by rw [hsplit]; simp)
    (by simpa using hend) r (by simp)
  rw [not_endsStdin_of_not_known hunknown] at hr
  cases hr

theorem decode_records (h : e.Idle) (hreads : reads.flatten = q.toBytes) :
    Record.framing.decode (e.inputBuffer_.readable ++ reads.flatten) = (q.records, []) := by
  rw [h.input, hreads, List.nil_append]
  exact Record.decode_toBytes q.records

theorem waiting_of_idle (h : e.Idle) : e.Waiting := by
  rw [Waiting, h.input]
  exact Framing.decode_nil

/-- A request that has ended is passed on with whatever `parseAllParams` has entered. -/
theorem executed (h : e.Idle) (hreads : reads.flatten = q.toBytes) (hended : q.ended = true) :
    (∃ s stdin, s.readable = q.params ∧ (e.receiveAll reads).requests =
      e.requests ++ [((parseAllParams s fun _ => none).2.2, stdin)]) ∧
      (e.receiveAll reads).Idle := by
  rcases exists_end hended with ⟨pre, r, post, hafter, hr, hpre, hpost⟩
  have hdecode := decode_records h hreads
  -- the end of the body cuts the records in two, and all of PARAMS is in front of it
  rw [records, hafter, ← List.cons_append, ← List.append_assoc] at hdecode
  obtain ⟨hreq, hidle⟩ := receiveAll_ended (waiting_of_idle h) h.codec.gotRequest hdecode
    (q.before_endsStdin hpre) hr hpost
  rcases Collected.before h.codec q.before_open with ⟨stdin, hcol⟩
  have hparams : ((q.before ++ q.endParams :: pre).foldl handle e.codec).params_ =
      (parseAllParams (q.before.foldl handle e.codec).paramsStream_ fun _ => none).2.2 := by
    rw [List.foldl_append, List.foldl_cons, params_foldl, handle_endParams _ q.endParams_type,
      hcol.params]
    intro r' hr'
    exact q.after_type r' (by rw [hafter]; exact List.mem_append_left _ hr')
  rw [hparams] at hreq
  exact ⟨⟨_, _, hcol.stream, hreq⟩, hidle⟩

theorem requests_of_not_ended (h : e.Idle) (hreads : reads.flatten = q.toBytes)
    (hended : q.ended = false) : (e.receiveAll reads).requests = e.requests := by
  have hafter : ∀ r ∈ q.after, r.endsStdin = false := by
    simpa [ended] using hended
  exact (receiveAll_open (waiting_of_idle h) h.codec.gotRequest (decode_records h hreads)
    (q.before_endsStdin hafter)).2.1

/-- The result of `parseAllParams` makes no difference: half-decoded parameters are kept from the
callback only where there are none or the body has not ended. -/
theorem malformed_not_executed_iff (q : SentRequest) (e : Endpoint) (h : e.Idle)
    (reads : List Bytes) (hreads : reads.flatten = q.toBytes) :
    q.NotExecuted e (e.receiveAll reads) ↔ WellFormed q.params ∨ q.ended = false := by
  constructor
  · intro hnot
    by_contra hcond
    rw [not_or, Bool.not_eq_false] at hcond
    rcases executed h hreads hcond.2 with ⟨⟨s, stdin, hs, hreq⟩, -⟩
    exact hnot hcond.1 _ (by rw [hreq, List.drop_left]; exact List.mem_cons_self) s hs rfl
  · rintro (hwell | hended) hmal call hcall
    · exact absurd hwell hmal
    -- without the end of the body no call is made
    · rw [requests_of_not_ended h hreads hended, List.drop_length] at hcall
      cases hcall

/-- The pair of the names `A` and `B`, and a length with nothing behind it. -/
def halfDecoded : SentRequest where
  before :=
    [getRequest.beginRequest, ⟨1, 4, 1, [1, 1, 65, 66, 9], [], 0, by decide, Record.no_padding_lt⟩]
  endParams := ⟨1, 4, 1, [], [], 0, Record.no_content_lt, Record.no_padding_lt⟩
  after := [⟨1, 5, 1, [], [], 0, Record.no_content_lt, Record.no_padding_lt⟩]
  before_open := by decide
  endParams_type := ⟨rfl, rfl⟩
  after_type := by decide
  after_last := by
    intro pre r post hsplit _ r' hr'
    cases pre with
    | nil =>
        cases hsplit
        cases hr'
    | cons a pre =>
        cases pre <;> cases hsplit

theorem parse_halfDecoded {s : WfBuffer} (hs : s.readable = [1, 1, 65, 66, 9]) :
    (parseAllParams s fun _ => none).1 = false ∧
      (parseAllParams s fun _ => none).2.2 [65] = some [66] := by
  -- the first round enters the pair
  rcases readLen_short (n := 1) (by decide) hs with ⟨hname, hrest₁⟩
  rcases readLen_short (n := 1) (by decide) hrest₁ with ⟨hvalue, hrest₂⟩
  have hlen : (readLen (readLen s).2).2.readableBytes = 3 := by
    rw [WfBuffer.readableBytes_eq, hrest₂]
    rfl
  have hpos : 0 < s.readableBytes := by
    rw [WfBuffer.readableBytes_eq, hs]
    decide
  obtain ⟨s', hs', hstep⟩ := parseAllParams_step (fun _ => none) hpos (by rw [hname]; decide)
    (by rw [hvalue]; decide) (by rw [hname, hvalue, hlen]; decide)
  rw [hname, hvalue, hrest₂] at hs' hstep
  -- the second finds no second length
  have hpos' : 0 < s'.readableBytes := by
    rw [WfBuffer.readableBytes_eq, hs']
    decide
  rcases readLen_short (n := 9) (by decide) hs' with ⟨hname', hrest'⟩
  have hempty : ¬ 1 ≤ (readLen s').2.readableBytes := by
    rw [WfBuffer.readableBytes_eq, hrest']
    decide
  have hfail : (readLen (readLen s').2).1 = lenFailed := by
    rw [readLen, dif_neg hempty]
  rw [hstep, parseAllParams, if_pos hpos', dif_neg (by rw [hname']; decide)]
  dsimp only
  rw [dif_pos hfail]
  exact ⟨rfl, rfl⟩

theorem not_wellFormed_halfDecoded : ¬ WellFormed halfDecoded.params := by
  rintro ⟨ps, hps⟩
  have hs : ((WfBuffer.construct 0).append halfDecoded.params).readable = [1, 1, 65, 66, 9] := by
    rw [WfBuffer.readable_append, WfBuffer.readable_construct]
    rfl
  obtain ⟨s', -, hparse⟩ := parseAllParams_encode ps (fun _ => none) (hs.trans hps)
  have hfalse := (parse_halfDecoded hs).1
  rw [hparse] at hfalse
  cases hfalse

/-- The request is executed with the one pair that was decoded. -/
theorem half_decoded_executed :
    ¬ halfDecoded.NotExecuted {} (Endpoint.receiveAll {} [halfDecoded.toBytes]) ∧
      ∃ params stdin, (Endpoint.receiveAll {} [halfDecoded.toBytes]).requests = [(params, stdin)] ∧
        params [65] = some [66] := by
  have hreads : [halfDecoded.toBytes].flatten = halfDecoded.toBytes := by simp
  obtain ⟨⟨s, stdin, hs, hreq⟩, -⟩ := executed idle_construct hreads rfl
  refine ⟨fun hnot => ?_, _, stdin, hreq, (parse_halfDecoded hs).2⟩
  exact hnot not_wellFormed_halfDecoded _ (by rw [hreq]; exact List.mem_cons_self) s hs rfl

/-- The condition at the same request, which has neither. -/
theorem malformed_not_executed_iff_halfDecoded :
    halfDecoded.NotExecuted {} (Endpoint.receiveAll {} [halfDecoded.toBytes]) ↔
      WellFormed halfDecoded.params ∨ halfDecoded.ended = false :=
  malformed_not_executed_iff halfDecoded {} idle_construct [halfDecoded.toBytes] (by simp)

end SentRequest
end Cgi
end Longky
