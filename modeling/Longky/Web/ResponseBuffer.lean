import Longky.Web.Parser

/-!
# ResponseBuffer — whose bytes a worker sends

`response_` is a member of the parser, and it is `TcpConnection::send` that empties it, when the
connection is connected.  A response for a connection that is already closing stays in the buffer
and goes out in front of the worker's next response, on another connection.

`responses_isolated_iff`: along any history of a worker the buffer is empty between requests, and
each send passes the bytes of its own response only, exactly when every request that has an answer
finds its connection connected.
-/

namespace Longky
namespace Web
namespace Parser

open Lib Net

/-! ## Which calls send -/

/-- No call among these sends. -/
def Silent (calls : List ParserCall) : Prop := ∀ m, ParserCall.send m ∉ calls

theorem Silent.append {calls calls' : List ParserCall} (h : Silent calls) (h' : Silent calls') :
    Silent (calls ++ calls') := by
  intro m hm
  rcases List.mem_append.1 hm with hm | hm
  · exact h m hm
  · exact h' m hm

theorem silent_setFile (s : Scan) : Silent (setFile s) := by
  intro m hm
  simp [setFile] at hm

theorem silent_fetch {redis redis' : RedisState} {cfg : Config} {env : Environment} {path : Bytes}
    {calls : List ParserCall} {body : Body}
    (h : redis.fetch cfg env path = .ok (redis', calls, body)) : Silent calls := by
  intro m hm
  rcases RedisState.mem_fetch h hm with hcaches | ⟨file, hfile⟩
  · exact hcaches
  · cases hfile

/-! ## One request -/

/-- What a request does to a buffer that held `held`: nothing is sent and nothing is left behind, or
one send passes `held` followed by the response, and empties the buffer if the connection is
connected. -/
inductive Responds (held : Bytes) (v : Visit) (served : Served) : Prop where
  | silent (calls : Silent served.calls) (left : served.parser.response_.readable = held)
  | sends (ne : served.response ≠ []) (mem : .send (held ++ served.response) ∈ served.calls)
      (only : ∀ m, .send m ∈ served.calls → m = held ++ served.response)
      (left : served.parser.response_.readable =
        if v.state_ = .kConnected then [] else held ++ served.response)

/-- Calls in front that send nothing change nothing. -/
theorem Responds.prepend {held : Bytes} {v : Visit} {served : Served} (h : Responds held v served)
    {before : List ParserCall} (hsilent : Silent before) :
    Responds held v { served with calls := before ++ served.calls } := by
  cases h with
  | silent hcalls hleft => exact .silent (hsilent.append hcalls) hleft
  | sends hne hmem honly hleft =>
      refine .sends hne (List.mem_append_right _ hmem) ?_ hleft
      intro m hm
      rcases List.mem_append.1 hm with hm | hm
      · exact absurd hm (hsilent m)
      · exact honly m hm

theorem readable_respond (p : Parser) (state_ : StateE) (response : Bytes) :
    (p.respond state_ response).1.response_.readable =
      if state_ = .kConnected then [] else p.response_.readable ++ response := by
  unfold respond sendResponse
  dsimp only
  split <;> simp

theorem page_text_ne_nil (page : Page) : page.text ≠ [] := by
  cases page <;> decide

theorem responds_page (p : Parser) (v : Visit) (page : Page) :
    Responds p.response_.readable v (p.answerPage v.state_ page) := by
  refine .sends (page_text_ne_nil page) ?_ ?_ (readable_respond p v.state_ page.text)
  · simp [answerPage, respond]
  · intro m hm
    simpa [answerPage, respond] using hm

theorem responds_body (p : Parser) (cfg : Config) (v : Visit) (mime : Bytes) (body : Body) :
    Responds p.response_.readable v (p.answerBody cfg v.state_ mime body) := by
  cases body with
  | empty => exact .silent (by simp [answerBody, Silent]) rfl
  | missing => exact .silent (by simp [answerBody, Silent]) rfl
  | streamed body fileSize =>
      refine .sends ?_ ?_ ?_ (readable_respond p v.state_ _)
      · simp [answerBody, responseHead_ne_nil]
      · simp [answerBody, respond]
      · intro m hm
        simpa [answerBody, respond] using hm
  | cached body fileSize =>
      refine .sends ?_ ?_ ?_ (readable_respond p v.state_ _)
      · simp [answerBody, responseHead_ne_nil]
      · simp [answerBody, respond]
      · intro m hm
        dsimp only [answerBody, respond] at hm
        -- the only other call is `shutdown`
        rcases List.mem_cons.1 hm with hsend | hshut
        · cases hsend
          simp [answerBody]
        · split at hshut
          · simp at hshut
          · cases hshut

theorem responds_of_parserRequest {p : Parser} {cfg : Config} {v : Visit} {served : Served}
    (h : p.parserRequest cfg v = .ok served) : Responds p.response_.readable v served := by
  cases hscan : scan cfg v.env.stat v.request with
  | error e =>
      rw [parserRequest, hscan] at h
      cases h
  | ok s =>
      cases hverdict : s.verdict with
      | page page =>
          rw [parserRequest_page hscan hverdict] at h
          cases h
          exact (responds_page (p.assign s.assigned) v page).prepend (silent_setFile s)
      | serve path mime =>
          rw [parserRequest_serve hscan hverdict] at h
          rcases bind_eq_ok h with ⟨⟨redis, calls, body⟩, hfetch, h⟩
          -- everything before the end of `responseRequest` stores, fetches or retries
          have hbefore : Silent (setFile s ++ .setContextkv (Bytes.ofString "connectionFlag")
              ((p.assign s.assigned).paramMap_ (Bytes.ofString "Connection")) :: calls) := by
            refine (silent_setFile s).append ?_
            intro m hm
            rcases List.mem_cons.1 hm with hm | hm
            · cases hm
            · exact silent_fetch hfetch m hm
          have hbody := (responds_body { p.assign s.assigned with toRedisState := redis } cfg v mime
            body).prepend hbefore
          rw [List.append_assoc, List.cons_append] at hbody
          cases h
          exact hbody

/-! ## Whole runs -/

/-- The request leads to a call of `TcpConnection::send`. -/
def Sends (p : Parser) (cfg : Config) (v : Visit) : Prop :=
  ∃ served m, p.parserRequest cfg v = .ok served ∧ .send m ∈ served.calls

/-- What is sent for the request are the bytes of its own response. -/
def SendsOwn (p : Parser) (cfg : Config) (v : Visit) : Prop :=
  ∀ served m, p.parserRequest cfg v = .ok served → .send m ∈ served.calls → m = served.response

/-- `response_` is empty whenever a request starts and at the end, and every send passes the bytes of
its own response. -/
def IsolatedAlong (cfg : Config) : Parser → List Event → Prop
  | p, [] => p.response_.readable = []
  | p, e :: es =>
      p.response_.readable = [] ∧ (∀ v, e = .request v → p.SendsOwn cfg v) ∧
        ∀ p', handle cfg p e = .ok p' → IsolatedAlong cfg p' es

/-- The request has an answer: an error page, or a body that Redis or the file system gives. -/
def Answers (p : Parser) (cfg : Config) (v : Visit) : Prop :=
  ∃ s, scan cfg v.env.stat v.request = .ok s ∧
    match s.verdict with
    | .page _ => True
    | .serve path _ => ∃ redis calls body,
        p.toRedisState.fetch cfg v.env path = .ok (redis, calls, body) ∧ body ≠ .empty ∧
          body ≠ .missing

/-- Every request that has an answer finds its connection connected. -/
def ConnectedAlong (cfg : Config) : Parser → List Event → Prop
  | _, [] => True
  | p, e :: es =>
      (∀ v, e = .request v → p.Answers cfg v → v.state_ = .kConnected) ∧
        ∀ p', handle cfg p e = .ok p' → ConnectedAlong cfg p' es

variable {p p' : Parser} {cfg : Config}

theorem send_mem_answerBody (cfg : Config) (p : Parser) (state_ : StateE) (mime : Bytes)
    {body : Body} (hempty : body ≠ .empty) (hmissing : body ≠ .missing) :
    ∃ m, .send m ∈ (p.answerBody cfg state_ mime body).calls := by
  cases body with
  | empty => exact absurd rfl hempty
  | missing => exact absurd rfl hmissing
  | streamed body fileSize => exact ⟨_, List.mem_singleton_self _⟩
  | cached body fileSize => exact ⟨_, List.mem_cons_self⟩

/-- The requests that lead to a send are those that have an answer. -/
theorem sends_iff_answers (p : Parser) (cfg : Config) (v : Visit) :
    p.Sends cfg v ↔ p.Answers cfg v := by
  refine ⟨?_, ?_⟩
  · rintro ⟨served, m, hserved, hm⟩
    cases hscan : scan cfg v.env.stat v.request with
    | error e =>
        rw [parserRequest, hscan] at hserved
        cases hserved
    | ok s =>
        refine ⟨s, hscan, ?_⟩
        cases hverdict : s.verdict with
        | page page => trivial
        | serve path mime =>
            rw [parserRequest_serve hscan hverdict] at hserved
            rcases bind_eq_ok hserved with ⟨⟨redis, calls, body⟩, hfetch, hserved⟩
            cases hserved
            have hsend : .send m ∈ ({ p.assign s.assigned with toRedisState := redis }.answerBody
                cfg v.state_ mime body).calls := by
              rcases List.mem_append.1 hm with hm | hm
              · exact absurd hm (silent_setFile s m)
              · rcases List.mem_cons.1 hm with hm | hm
                · cases hm
                · exact (List.mem_append.1 hm).resolve_left (silent_fetch hfetch m)
            refine ⟨redis, calls, body, hfetch, ?_, ?_⟩
            · rintro rfl
              simp [answerBody] at hsend
            · rintro rfl
              simp [answerBody] at hsend
  · rintro ⟨s, hscan, hanswer⟩
    cases hverdict : s.verdict with
    | page page =>
        exact ⟨_, _, parserRequest_page hscan hverdict,
          List.mem_append_right _ (List.mem_cons_of_mem _ List.mem_cons_self)⟩
    | serve path mime =>
        rw [hverdict] at hanswer
        rcases hanswer with ⟨redis, calls, body, hfetch, hempty, hmissing⟩
        have hserved := parserRequest_serve (p := p) hscan hverdict
        rw [hfetch] at hserved
        obtain ⟨m, hm⟩ := send_mem_answerBody cfg
          { p.assign s.assigned with toRedisState := redis } v.state_ mime hempty hmissing
        exact ⟨_, m, hserved,
          List.mem_append_right _ (List.mem_cons_of_mem _ (List.mem_append_right _ hm))⟩

theorem sendsOwn_of_empty (h : p.response_.readable = []) (v : Visit) : p.SendsOwn cfg v := by
  intro served m hserved hm
  cases responds_of_parserRequest hserved with
  | silent hcalls _ => exact absurd hm (hcalls m)
  | sends _ _ honly _ =>
      rw [honly m hm, h, List.nil_append]

/-- The buffer is empty after an event exactly when an answer, if there is one, finds its connection
connected. -/
theorem empty_after_iff (h : p.response_.readable = []) {e : Event} (he : handle cfg p e = .ok p') :
    p'.response_.readable = [] ↔
      ∀ v, e = .request v → p.Answers cfg v → v.state_ = .kConnected := by
  cases e with
  | connectRedis connected =>
      cases he
      refine iff_of_true ?_ (fun v hv => by cases hv)
      unfold connectRedis
      dsimp only
      split
      · split <;> exact h
      · exact h
  | request v =>
      rcases bind_eq_ok he with ⟨served, hserved, hp'⟩
      cases hp'
      refine ⟨?_, ?_⟩
      · rintro hempty v' ⟨⟩ hanswers
        rcases (sends_iff_answers p cfg v).2 hanswers with ⟨served', m, hserved', hm⟩
        rw [hserved] at hserved'
        cases hserved'
        cases responds_of_parserRequest hserved with
        | silent hcalls _ => exact absurd hm (hcalls m)
        | sends hne _ _ hleft =>
            -- a response has bytes, and on any other connection they stay
            by_contra hst
            rw [hleft, if_neg hst, List.append_eq_nil_iff] at hempty
            exact hne hempty.2
      · intro hconnected
        cases responds_of_parserRequest hserved with
        | silent _ hleft => rw [hleft, h]
        | sends _ hmem _ hleft =>
            have hanswers := (sends_iff_answers p cfg v).1 ⟨served, _, hserved, hmem⟩
            rw [hleft, if_pos (hconnected v rfl hanswers)]

theorem isolatedAlong_head {history : List Event} (h : IsolatedAlong cfg p history) :
    p.response_.readable = [] := by
  cases history with
  | nil => exact h
  | cons e es => exact h.1

theorem isolatedAlong_iff_of_empty (h : p.response_.readable = []) (history : List Event) :
    IsolatedAlong cfg p history ↔ ConnectedAlong cfg p history := by
  induction history generalizing p with
  | nil => exact iff_of_true h trivial
  | cons e es ih =>
      refine ⟨?_, ?_⟩
      · rintro ⟨-, -, hrest⟩
        refine ⟨?_, ?_⟩
        · intro v hv hanswers
          rcases (sends_iff_answers p cfg v).2 hanswers with ⟨served, m, hserved, -⟩
          have hhandle : handle cfg p e = .ok served.parser := by
            rw [hv, handle, hserved]
            rfl
          have hempty := isolatedAlong_head (hrest _ hhandle)
          exact (empty_after_iff h hhandle).1 hempty v hv hanswers
        · intro p' hp'
          have hempty := isolatedAlong_head (hrest p' hp')
          exact (ih hempty).1 (hrest p' hp')
      · rintro ⟨hconnected, hrest⟩
        refine ⟨h, fun v _ => sendsOwn_of_empty h v, ?_⟩
        intro p' hp'
        exact (ih ((empty_after_iff h hp').2 hconnected)).2 (hrest p' hp')

/-- Along every history of a worker, no response bytes stay behind and none are sent with another
request's response, exactly when every request that has an answer finds its connection connected. -/
theorem responses_isolated_iff (cfg : Config) (connected : Bool) (history : List Event) :
    IsolatedAlong cfg (construct connected) history ↔
      ConnectedAlong cfg (construct connected) history :=
  isolatedAlong_iff_of_empty (WfBuffer.readable_construct _) history

def bareConfig : Config where
  g_resource_base_path := Bytes.ofString "/www"
  g_resource_index_path := Bytes.ofString "/index.html"
  mimeType _ := none
  g_redis_vip := []
  urlTomd5 _ := []
  comPressStringSize n := n + 1

/-- A file system without files. -/
def noFiles : Environment where
  stat _ := none
  fopenVip _ := none
  fopen _ := none
  exeGET _ := none
  exeSETThrows := false
  compress := id
  uncompress _ _ := none
  g_zlibMap _ := 0

/-- A request that is answered with the page for an unknown method. -/
def postVisit (state_ : StateE) : Visit where
  request := Bytes.ofString "POST / HTTP/1.1\r\n\r\n"
  env := noFiles
  state_ := state_

/-- The page for a closing connection is sent on the next one. -/
theorem closing_connection_leaks :
    ¬ IsolatedAlong bareConfig (construct false)
      [.request (postVisit .kDisconnecting), .request (postVisit .kConnected)] := by
  have hscan : scan bareConfig noFiles.stat (postVisit .kDisconnecting).request =
      .ok ⟨none, [], .page .unimplemented⟩ := rfl
  rw [isolatedAlong_iff_of_empty (WfBuffer.readable_construct _)]
  rintro ⟨hconnected, -⟩
  have hanswers : Answers (construct false) bareConfig (postVisit .kDisconnecting) :=
    ⟨_, hscan, trivial⟩
  have hstate := hconnected _ rfl hanswers
  cases hstate

end Parser
end Web
end Longky
