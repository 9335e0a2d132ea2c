import Longky.Web.ResponseFraming

/-!
# OneResponse — the exits of a request

`parserRequest` leaves through error pages and through `responseRequest`, some of whose exits jump over
the call of `send`: an empty file, a file that cannot be opened any more, and, for a VIP file, an
`fclose` of a null pointer.

`responds_once_iff`: a request that stays inside its arrays and throws nothing is answered by one
message with one response exactly when its path leads to a body, and nothing is left in `response_`
or overrides the version.
-/

namespace Longky
namespace Web

open Lib Net

/-- The call shuts the connection down, at once or later. -/
def ParserCall.Closes : ParserCall → Prop
  | .shutdown | .forceClose | .forceCloseWithDelay => True
  | _ => False

namespace Parser

/-! ## The condition -/

/-- One response is passed to `send`, it starts with a status line, and what closes the connection
comes later. -/
def RespondsOnce (p : Parser) (cfg : Config) (v : Visit) : Prop :=
  ∃ served before after, p.parserRequest cfg v = .ok served ∧
    served.calls = before ++ .send served.response :: after ∧ Silent before ∧ Silent after ∧
      (∀ call ∈ before, ¬ call.Closes) ∧ Message.StartsResponse served.response

/-- The file can be opened and is not empty. -/
def Opens (env : Environment) (g_file : Bytes) : Prop :=
  ∃ contents, env.fopen g_file = some contents ∧ contents ≠ []

/-- The file can be opened to fill the cache, and the object that compresses is there if anything has
been read. -/
def Fills (redis : RedisState) (env : Environment) (g_file : Bytes) : Prop :=
  ∃ contents, env.fopenVip g_file = some contents ∧
    (redis.g_zlib = true ∨ contents.take (toInt contents.length).toNat = [])

/-- There is something to send for the file: from Redis, from the file that is put into Redis, which
may be empty, or from the open file. -/
def HasBody (redis : RedisState) (cfg : Config) (env : Environment) (g_file : Bytes) : Prop :=
  if g_file ∈ cfg.g_redis_vip ∧ redis.isRedisConnectWell_ = true then
    match env.exeGET (cfg.urlTomd5 g_file) with
    | none => Opens env g_file
    | some s =>
        let size := env.g_zlibMap (cfg.urlTomd5 g_file)
        if s = [] ∨ size = 0 then Fills redis env g_file
        else (env.uncompress s size.toNat).isSome = true ∨ Opens env g_file
  else Opens env g_file

/-- The request ends in an error page, or in a file that has a body and a version. -/
def Answerable (p : Parser) (cfg : Config) (v : Visit) : Prop :=
  ∃ s, scan cfg v.env.stat v.request = .ok s ∧
    match s.verdict with
    | .page _ => True
    | .serve path _ => HasBody p.toRedisState cfg v.env path ∧
        Message.isStatusLine (statusLine (p.assign s.assigned).paramMap_) = true

/-! ## The body -/

section Body

variable {redis : RedisState} {cfg : Config} {env : Environment} {g_file : Bytes}

/-- The result is a body that is sent. -/
def Sent (r : Except Fault (RedisState × List ParserCall × Body)) : Prop :=
  ∃ redis' calls body, r = .ok (redis', calls, body) ∧ body ≠ .empty ∧ body ≠ .missing

theorem sent_openFile (redis : RedisState) (calls : List ParserCall) :
    Sent (.ok (redis, calls ++ (openFile env g_file).1, (openFile env g_file).2)) ↔
      Opens env g_file := by
  unfold Sent Opens openFile
  cases hopen : env.fopen g_file with
  | none => simp
  | some contents => cases contents <;> simp

/-- `Compress` is called on an object if there is anything to compress. -/
theorem compress_isOk (plain : Bytes) :
    (∃ o, redis.compress env plain = .ok o) ↔ redis.g_zlib = true ∨ plain = [] := by
  unfold RedisState.compress
  by_cases hplain : plain = []
  · simp [hplain]
  · cases hzlib : redis.g_zlib with
    | false => simp [hplain]
    | true =>
        simp only [hplain, if_false, Bool.not_true, Bool.false_eq_true, true_or, iff_true]
        split
        · exact ⟨_, rfl⟩
        · exact ⟨_, rfl⟩

/-- The cache fill gives a body, fails at a null pointer because there is no file or no object that
compresses, or fails otherwise. -/
theorem fillCache_cases (redis : RedisState) (cfg : Config) (env : Environment)
    (g_file md5 : Bytes) :
    (∃ r, redis.fillCache cfg env g_file md5 = .ok r) ∧ Fills redis env g_file ∨
      ∃ e, redis.fillCache cfg env g_file md5 = .error e ∧
        (e = .nullPointer → ¬ Fills redis env g_file) := by
  unfold RedisState.fillCache Fills
  cases hopen : env.fopenVip g_file with
  | none => exact Or.inr ⟨.nullPointer, rfl, by simp⟩
  | some contents =>
      simp only [Option.some.injEq, exists_eq_left']
      rw [← @compress_isOk _ env]
      split
      · exact Or.inr ⟨.lengthError, rfl, fun h => by cases h⟩
      · cases redis.compress env (contents.take (toInt contents.length).toNat) with
        | error e => exact Or.inr ⟨e, rfl, by simp⟩
        | ok compressed =>
            simp only [bind, Except.bind]
            split
            · left
              refine ⟨?_, compressed, rfl⟩
              split
              · exact ⟨_, rfl⟩
              · exact ⟨_, rfl⟩
            · refine Or.inr ⟨_, rfl, fun h => ?_⟩
              cases compressed <;> cases h

theorem sent_fetch_iff
    (h : ∀ e, redis.fetch cfg env g_file = .error e → e = .nullPointer) :
    Sent (redis.fetch cfg env g_file) ↔ HasBody redis cfg env g_file := by
  unfold RedisState.fetch RedisState.fetchVip at h ⊢
  unfold HasBody
  by_cases hvip : g_file ∈ cfg.g_redis_vip
  · by_cases hwell : redis.isRedisConnectWell_ = true
    · simp only [hvip, hwell, not_true, if_false, Bool.not_true, Bool.false_eq_true, and_self,
        if_true] at h ⊢
      cases hget : env.exeGET (cfg.urlTomd5 g_file) with
      | none => exact sent_openFile redis.reConn [.retryInLoop]
      | some s =>
          simp only [hget] at h ⊢
          by_cases hmiss : s = [] ∨ env.g_zlibMap (cfg.urlTomd5 g_file) = 0
          · simp only [if_pos hmiss] at h ⊢
            rcases fillCache_cases redis cfg env g_file (cfg.urlTomd5 g_file) with
              ⟨⟨r, hfill⟩, hfills⟩ | ⟨e, hfill, hnone⟩
            · rw [hfill]
              refine iff_of_true ⟨_, _, _, rfl, ?_, ?_⟩ hfills
              · exact Body.noConfusion
              · exact Body.noConfusion
            · rw [hfill] at h ⊢
              refine iff_of_false ?_ (hnone (h e rfl))
              rintro ⟨redis', calls, body, heq, -⟩
              cases heq
          · simp only [if_neg hmiss] at h ⊢
            split at h
            · cases h _ rfl
            · rename_i hsize
              rw [if_neg hsize]
              cases hunpack : env.uncompress s (env.g_zlibMap (cfg.urlTomd5 g_file)).toNat with
              | none =>
                  simp only [Option.isSome_none, Bool.false_eq_true, false_or]
                  exact sent_openFile { redis with isRedisConnectWell_ := false }
                    [.cancelWriteComplete]
              | some body =>
                  refine iff_of_true ⟨_, _, _, rfl, ?_, ?_⟩ (Or.inl rfl)
                  · exact Body.noConfusion
                  · exact Body.noConfusion
    · simp only [hvip, hwell]
      exact sent_openFile redis.reConn [.retryInLoop]
  · simp only [hvip, not_false_eq_true, if_true, false_and, if_false]
    exact sent_openFile redis []

end Body

/-! ## One response -/

section Exits

variable {p : Parser} {cfg : Config} {v : Visit} {s : Scan}

theorem not_closes_setFile (s : Scan) : ∀ call ∈ setFile s, ¬ call.Closes := by
  intro call hcall
  rcases List.mem_map.1 hcall with ⟨name, -, rfl⟩
  exact id

theorem not_closes_of_fetch {redis redis' : RedisState} {env : Environment} {path : Bytes}
    {calls : List ParserCall} {body : Body}
    (h : redis.fetch cfg env path = .ok (redis', calls, body)) :
    ∀ call ∈ calls, ¬ call.Closes := by
  intro call hcall hcloses
  rcases RedisState.mem_fetch h hcall with hcaches | ⟨file, rfl⟩
  · cases call <;> first | exact hcaches | exact hcloses
  · exact hcloses

theorem startsResponse_page (page : Page) : Message.StartsResponse page.text := by
  refine ⟨page.text.takeWhile (· != 13), (page.text.dropWhile (· != 13)).drop 2, ?_, ?_, ?_⟩
  · cases page <;> decide +kernel
  · exact Bytes.findCRLF_none_of_not_mem (by cases page <;> decide)
  · cases page <;> decide

/-- The version of a served request has no line end in it. -/
theorem findCRLF_version (p : Parser) (hscan : scan cfg v.env.stat v.request = .ok s)
    {path mime : Bytes} (hserve : s.verdict = .serve path mime) :
    Bytes.findCRLF ((p.assign s.assigned).paramMap_ (Bytes.ofString "version")) = none := by
  rcases scan_eq_serve hscan hserve with ⟨file, rest, -, -, hhead⟩
  rcases scanHead_complete hhead with ⟨crlf, headers, -, -, -, -, hassigned⟩
  rcases assign_cases p s.assigned (Bytes.ofString "version") with ⟨kv, hkv, -, heq⟩ | ⟨hne, -⟩
  · rw [heq]
    exact scan_clean hscan kv hkv
  · rw [hassigned] at hne
    exact absurd rfl (hne _ List.mem_cons_self)

/-- A response with a head starts with the status line of the head. -/
theorem startsResponse_head (p : Parser) (hscan : scan cfg v.env.stat v.request = .ok s)
    {path mime : Bytes} (hserve : s.verdict = .serve path mime) (size : Int) (body : Bytes) :
    Message.StartsResponse
        (responseHead (p.assign s.assigned).paramMap_ cfg mime size ++ body) ↔
      Message.isStatusLine (statusLine (p.assign s.assigned).paramMap_) = true := by
  rcases responseHead_lines (p.assign s.assigned).paramMap_ cfg mime size with ⟨rest, hhead⟩
  rw [hhead, List.append_assoc, List.cons_append, List.cons_append]
  exact Message.startsResponse_line (statusLine_line (findCRLF_version p hscan hserve)).2 _

theorem RespondsOnce.sends (h : RespondsOnce p cfg v) : Sends p cfg v := by
  rcases h with ⟨served, before, after, hok, hcalls, -⟩
  refine ⟨served, served.response, hok, ?_⟩
  rw [hcalls]
  exact List.mem_append_right _ List.mem_cons_self

/-- A message that is the response alone has nothing of another one in front. -/
theorem held_nil {served : Served} (h : p.parserRequest cfg v = .ok served)
    (hsend : .send served.response ∈ served.calls) : p.response_.readable = [] := by
  cases responds_of_parserRequest h with
  | silent hcalls _ => exact absurd hsend (hcalls _)
  | sends _ _ honly _ => exact List.self_eq_append_left.1 (honly _ hsend)

/-- An error page is sent before the connection is closed. -/
theorem respondsOnce_page (hempty : p.response_.readable = [])
    (hscan : scan cfg v.env.stat v.request = .ok s) {page : Page} (hpage : s.verdict = .page page) :
    RespondsOnce p cfg v := by
  have hserved := parserRequest_page (p := p) hscan hpage
  have hwhole : (p.response_.append page.text).readable = page.text := by
    rw [WfBuffer.readable_append, hempty, List.nil_append]
  refine ⟨_, setFile s ++ [.cancelWriteComplete], [.forceCloseWithDelay], hserved, ?_, ?_, ?_, ?_,
    startsResponse_page page⟩
  · simp only [answerPage, respond, assign, hwhole, List.append_assoc, List.singleton_append]
  · refine (silent_setFile s).append ?_
    intro m hm
    cases List.mem_singleton.1 hm
  · intro m hm
    cases List.mem_singleton.1 hm
  · intro call hcall
    rcases List.mem_append.1 hcall with hcall | hcall
    · exact not_closes_setFile s call hcall
    · rw [List.mem_singleton.1 hcall]
      exact id

/-- The response to a request that has a body. -/
theorem respondsOnce_of_body (hempty : p.response_.readable = [])
    (hscan : scan cfg v.env.stat v.request = .ok s) {path mime : Bytes}
    (hserve : s.verdict = .serve path mime) {redis : RedisState} {calls : List ParserCall}
    {body : Body} (hfetch : p.toRedisState.fetch cfg v.env path = .ok (redis, calls, body))
    (hne : body ≠ .empty) (hmissing : body ≠ .missing)
    (hstatus : Message.isStatusLine (statusLine (p.assign s.assigned).paramMap_) = true) :
    RespondsOnce p cfg v := by
  have hserved := parserRequest_serve (p := p) hscan hserve
  rw [hfetch] at hserved
  have hbefore : ∀ call ∈ setFile s ++ .setContextkv (Bytes.ofString "connectionFlag")
      ((p.assign s.assigned).paramMap_ (Bytes.ofString "Connection")) :: calls, ¬ call.Closes := by
    intro call hcall
    rcases List.mem_append.1 hcall with hcall | hcall
    · exact not_closes_setFile s call hcall
    · rcases List.mem_cons.1 hcall with rfl | hcall
      · exact id
      · exact not_closes_of_fetch hfetch call hcall
  have hsilent : Silent (setFile s ++ .setContextkv (Bytes.ofString "connectionFlag")
      ((p.assign s.assigned).paramMap_ (Bytes.ofString "Connection")) :: calls) := by
    refine (silent_setFile s).append ?_
    intro m hm
    rcases List.mem_cons.1 hm with hm | hm
    · cases hm
    · exact silent_fetch hfetch m hm
  -- what is sent is what the buffer held, which is nothing, and the response
  have hwhole : ∀ response, (p.response_.append response).readable = response := by
    intro response
    rw [WfBuffer.readable_append, hempty, List.nil_append]
  cases body with
  | empty => exact absurd rfl hne
  | missing => exact absurd rfl hmissing
  | streamed part size =>
      refine ⟨_, _, [], hserved, ?_, hsilent, ?_, hbefore,
        (startsResponse_head p hscan hserve size part).2 hstatus⟩
      · rw [List.append_assoc, List.cons_append]
        simp only [answerBody, respond, assign, hwhole]
      · intro m hm
        cases hm
  | cached part size =>
      refine ⟨_, _, if (p.assign s.assigned).paramMap_ (Bytes.ofString "Connection") =
        Bytes.ofString "close" then [.shutdown] else [], hserved, ?_, hsilent, ?_, hbefore,
        (startsResponse_head p hscan hserve size part).2 hstatus⟩
      · rw [List.append_assoc, List.cons_append]
        simp only [answerBody, respond, assign, hwhole]
      · intro m hm
        split at hm
        · cases List.mem_singleton.1 hm
        · cases hm

/-- A request that stays inside its arrays and throws nothing is answered by one message with one
response if and only if the worker's buffer is empty and the request is answerable. -/
theorem responds_once_iff (hdomain : ∀ e, p.parserRequest cfg v = .error e → e = .nullPointer) :
    RespondsOnce p cfg v ↔ p.response_.readable = [] ∧ Answerable p cfg v := by
  cases hscan : scan cfg v.env.stat v.request with
  | error e =>
      -- a request that is read out of bounds is not answered
      refine iff_of_false ?_ ?_
      · rintro ⟨served, _, _, hserved, -⟩
        rw [parserRequest, hscan] at hserved
        cases hserved
      · rintro ⟨-, s, hs, -⟩
        rw [hscan] at hs
        cases hs
  | ok s =>
      have hanswerable : Answerable p cfg v ↔ match s.verdict with
          | .page _ => True
          | .serve path _ => HasBody p.toRedisState cfg v.env path ∧
              Message.isStatusLine (statusLine (p.assign s.assigned).paramMap_) = true := by
        simp [Answerable, hscan]
      rw [hanswerable]
      cases hverdict : s.verdict with
      | page page =>
          have hserved := parserRequest_page (p := p) hscan hverdict
          constructor
          · rintro ⟨served, before, after, hok, hcalls, -⟩
            refine ⟨held_nil hok ?_, trivial⟩
            rw [hcalls]
            exact List.mem_append_right _ List.mem_cons_self
          · rintro ⟨hempty, -⟩
            exact respondsOnce_page hempty hscan hverdict
      | serve path mime =>
          have hserved := parserRequest_serve (p := p) hscan hverdict
          have hfetch : ∀ e, p.toRedisState.fetch cfg v.env path = .error e → e = .nullPointer := by
            intro e he
            refine hdomain e ?_
            rw [hserved, he]
            rfl
          constructor
          · rintro ⟨served, before, after, hok, hcalls, -, -, -, hstarts⟩
            have hsend : .send served.response ∈ served.calls := by
              rw [hcalls]
              exact List.mem_append_right _ List.mem_cons_self
            -- it sends, so there is a body, and its head begins with the status line
            refine ⟨held_nil hok hsend, ?_⟩
            rcases (sends_iff_answers p cfg v).1 ⟨served, _, hok, hsend⟩ with ⟨s', hs', hbody⟩
            rw [hscan] at hs'
            cases hs'
            rw [hverdict] at hbody
            rcases hbody with ⟨redis, calls, body, hbody, hne, hmissing⟩
            refine ⟨(sent_fetch_iff hfetch).1 ⟨redis, calls, body, hbody, hne, hmissing⟩, ?_⟩
            rw [hbody, hok] at hserved
            cases hserved
            cases body with
            | empty => exact absurd rfl hne
            | missing => exact absurd rfl hmissing
            | streamed part size => exact (startsResponse_head p hscan hverdict size part).1 hstarts
            | cached part size => exact (startsResponse_head p hscan hverdict size part).1 hstarts
          · rintro ⟨hempty, hbody, hstatus⟩
            rcases (sent_fetch_iff hfetch).2 hbody with ⟨redis, calls, body, heq, hne, hmissing⟩
            exact respondsOnce_of_body hempty hscan hverdict heq hne hmissing hstatus

/-- A file system whose files are empty. -/
def emptyFiles : Environment :=
  { readableFiles with
    fopenVip := fun _ => some []
    fopen := fun _ => some [] }

theorem responds_once_iff_plain :
    RespondsOnce (construct false) htmlConfig plainRequest ↔
      (construct false).response_.readable = [] ∧
        Answerable (construct false) htmlConfig plainRequest := by
  refine responds_once_iff fun e he => ?_
  rw [parserRequest_serve (v := plainRequest) scan_plainRequest rfl] at he
  cases he

/-- The connection is shut down although nothing has been sent for the empty file. -/
theorem empty_file_unanswered :
    ∃ served, (construct false).parserRequest htmlConfig { plainRequest with env := emptyFiles } =
        .ok served ∧ Silent served.calls ∧ .shutdown ∈ served.calls ∧
      ¬ RespondsOnce (construct false) htmlConfig { plainRequest with env := emptyFiles } := by
  have hserved := parserRequest_serve (p := construct false)
    (v := { plainRequest with env := emptyFiles }) scan_plainRequest rfl
  have hsends : ¬ Sends (construct false) htmlConfig { plainRequest with env := emptyFiles } := by
    rw [sends_iff_answers]
    rintro ⟨s, hs, hbody⟩
    cases scan_plainRequest.symm.trans hs
    rcases hbody with ⟨redis, calls, body, hfetch, hempty, -⟩
    cases hfetch
    exact hempty rfl
  refine ⟨_, hserved, fun m hm => hsends ⟨_, m, hserved, hm⟩, ?_, fun h => hsends h.sends⟩
  refine List.mem_append_right _ (List.mem_cons_of_mem _ (List.mem_append_right _ ?_))
  exact List.mem_cons_self

end Exits

end Parser
end Web
end Longky
