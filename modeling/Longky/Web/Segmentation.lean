import Longky.Web.HttpRequest
import Longky.Web.ResponseBuffer
import Longky.Web.StaticConn

/-!
# Segmentation — how the bytes of requests are cut into reads

One connection of the static server, when each read is processed to its end before the next one
arrives.  `onParser` takes all that the read has left in `inputBuffer_` for one request; the workers
of the pool take turns, and each has served other connections before.

A stream of well-formed requests that keep the connection open is answered as if every read brought
one request exactly when every read does: `output_eq_iff`.
-/

namespace Longky
namespace Web

open Lib Net

/-! ## Reads -/

/-- What surrounds a read: the environment, the worker that takes the task, and whether the timer of
`forceCloseWithDelay` runs out before it, if it has been set. -/
structure Moment (W : Type) where
  env : Environment
  worker : W
  expired : Bool

/-- The connection between two reads, with the parsers of the pool. -/
structure Session (W : Type) where
  workers : W → Parser
  state_ : StateE
  /-- `forceCloseWithDelay` has been called. -/
  closing : Bool

/-- The messages that are passed to `send`. -/
def sent (calls : List ParserCall) : Bytes :=
  calls.flatMap fun
    | .send message => message
    | _ => []

/-- What `writeComplete` sends behind them. -/
def streamed (env : Environment) (calls : List ParserCall) : Bytes :=
  if .cancelWriteComplete ∈ calls then []
  else calls.flatMap fun
    | .setContextfp file => StaticConn.streamRest (((env.fopen file).getD []).drop kBufSize)
    | _ => []

/-- A file is streamed, and its end closes the connection. -/
def ClosesAtEnd (calls : List ParserCall) : Prop :=
  .cancelWriteComplete ∉ calls ∧ (∃ file, .setContextfp file ∈ calls) ∧
    .setContextkv (Bytes.ofString "connectionFlag") (Bytes.ofString "close") ∈ calls

/-- Some call puts a file into the context. -/
def opens : List ParserCall → Bool
  | [] => false
  | .setContextfp _ :: _ => true
  | _ :: calls => opens calls

theorem opens_iff (calls : List ParserCall) :
    opens calls = true ↔ ∃ file, .setContextfp file ∈ calls := by
  induction calls with
  | nil => simp [opens]
  | cons call calls ih => cases call <;> simp [opens, ih]

instance (calls : List ParserCall) : Decidable (ClosesAtEnd calls) :=
  decidable_of_iff (.cancelWriteComplete ∉ calls ∧ opens calls = true ∧
    .setContextkv (Bytes.ofString "connectionFlag") (Bytes.ofString "close") ∈ calls)
    (by rw [opens_iff]; rfl)

/-- The state of the connection when all has been written. -/
def stateAfter (calls : List ParserCall) (state_ : StateE) : StateE :=
  if .forceClose ∈ calls then .kDisconnected
  else if .shutdown ∈ calls ∨ ClosesAtEnd calls then .kDisconnecting
  else state_

namespace Session

variable {W : Type}

/-- The connection stays as it is. -/
def Open (s : Session W) : Prop := s.state_ = .kConnected ∧ s.closing = false

variable [DecidableEq W]

/-- The connection when the request of a read has been served. -/
def after (s : Session W) (w : W) (served : Served) : Session W where
  workers := Function.update s.workers w served.parser
  state_ := stateAfter served.calls s.state_
  closing := s.closing || decide (.forceCloseWithDelay ∈ served.calls)

/-- One read, and the bytes it causes. -/
def read (cfg : Config) (s : Session W) (m : Moment W) (bytes : Bytes) :
    Except Fault (Session W × Bytes) :=
  if s.state_ = .kDisconnected ∨ s.closing = true ∧ m.expired = true then
    .ok ({ s with state_ := .kDisconnected }, [])
  else do
    let served ← (s.workers m.worker).parserRequest cfg
      { request := bytes, env := m.env, state_ := s.state_ }
    return (s.after m.worker served,
      if s.state_ = .kConnected then sent served.calls ++ streamed m.env served.calls else [])

/-- All bytes that are sent back. -/
def output (cfg : Config) : Session W → (Nat → Moment W) → List Bytes → Except Fault Bytes
  | _, _, [] => .ok []
  | s, ms, r :: rs => do
      let (s', out) ← s.read cfg (ms 0) r
      let rest ← output cfg s' (fun n => ms (n + 1)) rs
      return out ++ rest

/-- No read closes the connection or meets a fault. -/
def StaysOpen (cfg : Config) : Session W → (Nat → Moment W) → List Bytes → Prop
  | s, _, [] => s.Open
  | s, ms, r :: rs => s.Open ∧ ∃ s' out, s.read cfg (ms 0) r = .ok (s', out) ∧
      StaysOpen cfg s' (fun n => ms (n + 1)) rs

end Session

/-! ## Lines of a response -/

namespace Parser

/-- The first line of a response, without its end. -/
def statusLine (paramMap_ : Bytes → Bytes) : Bytes :=
  Bytes.ofString "HTTP/" ++ paramMap_ (Bytes.ofString "version") ++ Bytes.ofString " 200 OK"

/-- The first two lines of a head. -/
theorem responseHead_lines (m : Bytes → Bytes) (cfg : Config) (mime : Bytes) (size : Int) :
    ∃ rest, responseHead m cfg mime size = statusLine m ++ 13 :: 10 ::
      (Bytes.ofString "Connection:" ++ (m (Bytes.ofString "Connection") ++ 13 :: 10 :: rest)) := by
  have hok : Bytes.ofString " 200 OK\r\n" = Bytes.ofString " 200 OK" ++ [13, 10] := by decide
  unfold responseHead statusLine CRLF
  rw [hok]
  simp only [List.append_assoc, List.cons_append, List.nil_append]
  exact ⟨_, rfl⟩

theorem not_mem_statusLine {m : Bytes → Bytes} (h : 13 ∉ m (Bytes.ofString "version")) :
    13 ∉ statusLine m := by
  have hhttp : 13 ∉ Bytes.ofString "HTTP/" := by decide
  have hok : 13 ∉ Bytes.ofString " 200 OK" := by decide
  simp [statusLine, h, hhttp, hok]

theorem page_lines (page : Page) : ∃ line rest, page.text = line ++ 13 :: 10 :: rest ∧
    13 ∉ line ∧ line.getLast? ≠ some 75 := by
  refine ⟨page.text.takeWhile (· != 13), (page.text.dropWhile (· != 13)).drop 2, ?_, ?_, ?_⟩
  · cases page <;> decide +kernel
  · cases page <;> decide
  · cases page <;> decide

/-- No response to a request starts like an error page. -/
theorem page_ne_head {m : Bytes → Bytes} (h : 13 ∉ m (Bytes.ofString "version")) (page : Page)
    (cfg : Config) (mime : Bytes) (size : Int) (t₁ t₂ : Bytes) :
    page.text ++ t₁ ≠ responseHead m cfg mime size ++ t₂ := by
  intro heq
  rcases page_lines page with ⟨line, rest, hpage, hline, hlast⟩
  rcases responseHead_lines m cfg mime size with ⟨rest', hhead⟩
  rw [hpage, hhead] at heq
  simp only [List.append_assoc, List.cons_append] at heq
  rcases Bytes.line_cancel (Bytes.findCRLF_none_of_not_mem hline)
    (Bytes.findCRLF_none_of_not_mem (not_mem_statusLine h)) heq with ⟨hsame, -⟩
  have hok : (statusLine m).getLast? = some 75 := by
    have hk : (Bytes.ofString " 200 OK").getLast? = some 75 := by decide
    rw [statusLine, List.getLast?_append, hk]
    rfl
  rw [← hsame] at hok
  exact hlast hok

/-- A head can be read off a stream that starts with it. -/
theorem responseHead_cancel {m₁ m₂ : Bytes → Bytes} (hv₁ : 13 ∉ m₁ (Bytes.ofString "version"))
    (hv₂ : 13 ∉ m₂ (Bytes.ofString "version"))
    (hc₁ : Bytes.findCRLF (m₁ (Bytes.ofString "Connection")) = none)
    (hc₂ : Bytes.findCRLF (m₂ (Bytes.ofString "Connection")) = none) {cfg : Config} {mime : Bytes}
    {size : Int} {t₁ t₂ : Bytes}
    (h : responseHead m₁ cfg mime size ++ t₁ = responseHead m₂ cfg mime size ++ t₂) :
    m₁ (Bytes.ofString "Connection") = m₂ (Bytes.ofString "Connection") ∧ t₁ = t₂ := by
  rcases responseHead_lines m₁ cfg mime size with ⟨rest₁, hhead₁⟩
  rcases responseHead_lines m₂ cfg mime size with ⟨rest₂, hhead₂⟩
  have hlines := h
  rw [hhead₁, hhead₂] at hlines
  simp only [List.append_assoc, List.cons_append] at hlines
  rcases Bytes.line_cancel (Bytes.findCRLF_none_of_not_mem (not_mem_statusLine hv₁))
    (Bytes.findCRLF_none_of_not_mem (not_mem_statusLine hv₂)) hlines with ⟨hstatus, hrest⟩
  have hconnection := (Bytes.line_cancel hc₁ hc₂ (List.append_cancel_left hrest)).1
  have hversion : m₁ (Bytes.ofString "version") = m₂ (Bytes.ofString "version") :=
    List.append_cancel_left (List.append_cancel_right hstatus)
  refine ⟨hconnection, ?_⟩
  rw [responseHead_congr hversion hconnection cfg mime size] at h
  exact List.append_cancel_left h

/-! ## Clean headers -/

/-- No stored value contains a line end. -/
def Clean (p : Parser) : Prop := ∀ key, Bytes.findCRLF (p.paramMap_ key) = none

end Parser

theorem headerLoop_clean {rest : Bytes} {assigned : List (Bytes × Bytes)} {complete : Bool}
    (h : headerLoop rest = .ok (assigned, complete)) :
    ∀ kv ∈ assigned, Bytes.findCRLF kv.2 = none := by
  induction hn : rest.length using Nat.strong_induction_on generalizing rest assigned with
  | _ n ih =>
      rw [headerLoop] at h
      split at h
      · cases h
        simp
      · split at h
        · cases h
          simp
        · rename_i crlf hcrlf
          have hlt := Bytes.findCRLF_lt hcrlf
          dsimp only at h
          split at h
          · split at h
            · cases h
            · rcases bind_eq_ok h with ⟨⟨headers, complete'⟩, hloop, h⟩
              cases h
              intro kv hkv
              rcases List.mem_cons.1 hkv with rfl | hkv
              · exact Bytes.findCRLF_drop (Bytes.findCRLF_take hcrlf) _
              · exact ih _ (by rw [List.length_drop]; omega) hloop rfl kv hkv
          · cases h
            simp

theorem scan_clean {cfg : Config} {stat : Bytes → Option Nat} {request : Bytes} {s : Scan}
    (h : scan cfg stat request = .ok s) : ∀ kv ∈ s.assigned, Bytes.findCRLF kv.2 = none := by
  unfold scan at h
  rcases bind_eq_ok h with ⟨located, -, h⟩
  cases located with
  | page file page =>
      cases h
      simp
  | found file path mime rest =>
      rcases bind_eq_ok h with ⟨⟨assigned, failed⟩, hhead, h⟩
      have hclean : ∀ kv ∈ assigned, Bytes.findCRLF kv.2 = none := by
        unfold scanHead at hhead
        split at hhead
        · cases hhead
          simp
        · rename_i crlf hcrlf
          split at hhead
          · cases hhead
          · dsimp only at hhead
            split at hhead
            · cases hhead
              simp
            · rcases bind_eq_ok hhead with ⟨⟨headers, complete⟩, hloop, hhead⟩
              cases hhead
              intro kv hkv
              rcases List.mem_cons.1 hkv with rfl | hkv
              · exact Bytes.findCRLF_drop (Bytes.findCRLF_take hcrlf) _
              · exact headerLoop_clean hloop kv hkv
      cases failed with
      | some page =>
          cases h
          exact hclean
      | none =>
          cases h
          exact hclean

namespace Parser

variable {p : Parser} {cfg : Config} {v : Visit}

/-- A key is assigned, or keeps its value. -/
theorem assign_cases (p : Parser) (l : List (Bytes × Bytes)) (key : Bytes) :
    (∃ kv ∈ l, kv.1 = key ∧ (p.assign l).paramMap_ key = kv.2) ∨
      (∀ kv ∈ l, kv.1 ≠ key) ∧ (p.assign l).paramMap_ key = p.paramMap_ key := by
  by_cases h : ∃ kv ∈ l, kv.1 = key
  · rcases exists_last h with ⟨before, ⟨key', value⟩, after, rfl, rfl, hafter⟩
    refine Or.inl ⟨_, List.mem_append_right _ List.mem_cons_self, rfl, ?_⟩
    rw [paramMap_assign, writeAll_last hafter]
  · have hne : ∀ kv ∈ l, kv.1 ≠ key := fun kv hkv heq => h ⟨kv, hkv, heq⟩
    exact Or.inr ⟨hne, assign_of_forall_ne hne⟩

theorem clean_assign (h : p.Clean) {l : List (Bytes × Bytes)}
    (hl : ∀ kv ∈ l, Bytes.findCRLF kv.2 = none) : (p.assign l).Clean := by
  intro key
  rcases assign_cases p l key with ⟨kv, hkv, -, heq⟩ | ⟨-, heq⟩
  · rw [heq]
    exact hl kv hkv
  · rw [heq]
    exact h key

/-- The headers after a request are those that it assigns. -/
theorem paramMap_parserRequest {served : Served} {s : Scan}
    (hscan : scan cfg v.env.stat v.request = .ok s) (h : p.parserRequest cfg v = .ok served) :
    served.parser.paramMap_ = (p.assign s.assigned).paramMap_ := by
  cases hverdict : s.verdict with
  | page page =>
      rw [parserRequest_page hscan hverdict] at h
      cases h
      exact paramMap_respond _ _ _
  | serve path mime =>
      rw [parserRequest_serve hscan hverdict] at h
      rcases bind_eq_ok h with ⟨⟨redis, calls, body⟩, -, h⟩
      cases h
      cases body with
      | empty => rfl
      | missing => rfl
      | streamed body size => exact paramMap_respond _ _ _
      | cached body size => exact paramMap_respond _ _ _

theorem clean_parserRequest (hclean : p.Clean) {served : Served}
    (h : p.parserRequest cfg v = .ok served) : served.parser.Clean := by
  cases hscan : scan cfg v.env.stat v.request with
  | error e =>
      rw [parserRequest, hscan] at h
      cases h
  | ok s =>
      unfold Clean
      rw [paramMap_parserRequest hscan h]
      exact clean_assign hclean (scan_clean hscan)

theorem clean_connectRedis (h : p.Clean) (connected : Bool) : (p.connectRedis connected).1.Clean := by
  unfold connectRedis
  dsimp only
  split
  · split <;> exact h
  · exact h

/-- After any history the stored values are clean. -/
theorem clean_of_history {history : List Event} {q : Parser} (hclean : q.Clean)
    (h : handleAll cfg q history = .ok p) : p.Clean := by
  induction history generalizing q with
  | nil =>
      cases h
      exact hclean
  | cons e history ih =>
      rw [handleAll, List.foldlM_cons] at h
      rcases bind_eq_ok h with ⟨q', hq', h⟩
      refine ih ?_ h
      cases e with
      | request v =>
          rcases bind_eq_ok hq' with ⟨served, hserved, hq'⟩
          cases hq'
          exact clean_parserRequest hclean hserved
      | connectRedis connected =>
          cases hq'
          exact clean_connectRedis hclean connected

end Parser

/-! ## What a read sends -/

theorem sent_append (xs ys : List ParserCall) : sent (xs ++ ys) = sent xs ++ sent ys :=
  List.flatMap_append

theorem sent_of_silent {calls : List ParserCall} (h : Parser.Silent calls) : sent calls = [] := by
  unfold sent
  rw [List.flatMap_eq_nil_iff]
  intro call hcall
  split
  · rename_i message
    exact absurd hcall (h message)
  · rfl

/-- Calls that neither open a file nor cancel the callback. -/
def Inert (calls : List ParserCall) : Prop :=
  .cancelWriteComplete ∉ calls ∧ ∀ file, .setContextfp file ∉ calls

theorem streamed_append {xs ys zs : List ParserCall} (hxs : Inert xs) (hzs : Inert zs)
    (env : Environment) : streamed env (xs ++ (ys ++ zs)) = streamed env ys := by
  have hnil : ∀ calls, Inert calls → (calls.flatMap fun
      | ParserCall.setContextfp file =>
          StaticConn.streamRest (((env.fopen file).getD []).drop kBufSize)
      | _ => []) = ([] : Bytes) := by
    intro calls hcalls
    rw [List.flatMap_eq_nil_iff]
    intro call hcall
    split
    · rename_i file
      exact absurd hcall (hcalls.2 file)
    · rfl
  unfold streamed
  rw [List.flatMap_append, List.flatMap_append, hnil xs hxs, hnil zs hzs, List.append_nil,
    List.nil_append]
  simp [hxs.1, hzs.1]

theorem inert_setFile (s : Scan) (flag : Bytes) :
    Inert (Parser.setFile s ++ [.setContextkv (Bytes.ofString "connectionFlag") flag]) := by
  simp [Inert, Parser.setFile]

theorem inert_answerBody (p : Parser) (cfg : Config) (state_ : StateE) (mime : Bytes) (body : Body) :
    Inert (p.answerBody cfg state_ mime body).calls := by
  refine ⟨?_, ?_⟩
  · intro h
    rcases Parser.answerBody_calls h with ⟨m, heq⟩ | heq | heq <;> cases heq
  · intro file h
    rcases Parser.answerBody_calls h with ⟨m, heq⟩ | heq | heq <;> cases heq

/-- The bytes of a body, and the size that is announced. -/
def Body.payload : Body → Option (Bytes × Int)
  | .cached body size | .streamed body size => some (body, size)
  | .empty | .missing => none

/-- The connection is closed behind a response. -/
def ClosesAfter (connection : Bytes) (calls : List ParserCall) : Body → Prop
  | .cached _ _ => connection = Bytes.ofString "close"
  | .streamed _ _ => connection = Bytes.ofString "close" ∧ .cancelWriteComplete ∉ calls
  | .empty | .missing => True

namespace Session

variable {W : Type} [DecidableEq W] {cfg : Config} {s : Session W} {m : Moment W} {bytes : Bytes}
  {sc : Scan}

theorem read_of_open (hopen : s.Open) {served : Served}
    (hserved : (s.workers m.worker).parserRequest cfg
      { request := bytes, env := m.env, state_ := .kConnected } = .ok served) :
    s.read cfg m bytes =
      .ok (s.after m.worker served, sent served.calls ++ streamed m.env served.calls) := by
  unfold read
  rw [if_neg (by simp [hopen.1, hopen.2]), hopen.1, hserved]
  rfl

/-- A refused request is answered by its page, and the connection is closed later. -/
theorem read_page (hopen : s.Open) (hscan : scan cfg m.env.stat bytes = .ok sc) {page : Page}
    (hpage : sc.verdict = .page page) :
    ∃ s', s.read cfg m bytes = .ok (s', (s.workers m.worker).response_.readable ++ page.text) ∧
      ¬ s'.Open := by
  have hread := read_of_open hopen (Parser.parserRequest_page (p := s.workers m.worker)
    (v := { request := bytes, env := m.env, state_ := .kConnected }) hscan hpage)
  have hsent : sent (Parser.setFile sc ++
      (((s.workers m.worker).assign sc.assigned).answerPage .kConnected page).calls) =
        (s.workers m.worker).response_.readable ++ page.text := by
    rw [sent_append, sent_of_silent (Parser.silent_setFile sc)]
    simp [sent, Parser.answerPage, Parser.respond, Parser.assign]
  have hstreamed : streamed m.env (Parser.setFile sc ++
      (((s.workers m.worker).assign sc.assigned).answerPage .kConnected page).calls) = [] :=
    if_pos (by simp [Parser.answerPage])
  dsimp only at hread
  rw [hsent, hstreamed, List.append_nil] at hread
  refine ⟨_, hread, ?_⟩
  rintro ⟨-, hclosing⟩
  simp [after, Parser.answerPage] at hclosing

theorem read_error (hopen : s.Open) {e : Fault} (hscan : scan cfg m.env.stat bytes = .error e) :
    s.read cfg m bytes = .error e := by
  unfold read
  rw [if_neg (by simp [hopen.1, hopen.2]), Parser.parserRequest, hscan]
  rfl

/-- The calls of a served request. -/
def serveCalls (sc : Scan) (flag : Bytes) (calls answer : List ParserCall) : List ParserCall :=
  Parser.setFile sc ++ .setContextkv (Bytes.ofString "connectionFlag") flag :: (calls ++ answer)

/-- The calls in front of the answer send nothing. -/
theorem sent_serveCalls (sc : Scan) {calls : List ParserCall} (h : Parser.Silent calls) (flag : Bytes)
    (answer : List ParserCall) : sent (serveCalls sc flag calls answer) = sent answer := by
  have hflag : Parser.Silent
      [.setContextkv (Bytes.ofString "connectionFlag") flag] := by
    intro m hm
    cases List.mem_singleton.1 hm
  have hsplit : serveCalls sc flag calls answer = Parser.setFile sc ++
      ([.setContextkv (Bytes.ofString "connectionFlag") flag] ++ (calls ++ answer)) := rfl
  rw [hsplit, sent_append, sent_append, sent_append, sent_of_silent (Parser.silent_setFile sc),
    sent_of_silent hflag, sent_of_silent h]
  rfl

theorem streamed_serveCalls (sc : Scan) (env : Environment) (flag : Bytes) (calls : List ParserCall)
    {answer : List ParserCall} (h : Inert answer) :
    streamed env (serveCalls sc flag calls answer) = streamed env calls := by
  have hsplit : serveCalls sc flag calls answer = (Parser.setFile sc ++
      [.setContextkv (Bytes.ofString "connectionFlag") flag]) ++ (calls ++ answer) := by
    simp [serveCalls]
  rw [hsplit, streamed_append (inert_setFile sc flag) h]

theorem sent_answerBody (p : Parser) (mime : Bytes) {body : Body} {b : Bytes} {size : Int}
    (h : body.payload = some (b, size)) : sent (p.answerBody cfg .kConnected mime body).calls =
      p.response_.readable ++ (Parser.responseHead p.paramMap_ cfg mime size ++ b) := by
  cases body with
  | empty => cases h
  | missing => cases h
  | streamed b' size' =>
      cases h
      simp [Parser.answerBody, Parser.respond, sent]
  | cached b' size' =>
      cases h
      simp only [Parser.answerBody, Parser.respond]
      split <;> simp [sent]

theorem not_mem_fetch {redis redis' : RedisState} {env : Environment} {path : Bytes}
    {calls : List ParserCall} {body : Body}
    (hfetch : redis.fetch cfg env path = .ok (redis', calls, body)) (call : ParserCall)
    (hcaches : ¬ call.Caches) (hopen : ∀ file, call ≠ .setContextfp file) : call ∉ calls := by
  intro hmem
  rcases RedisState.mem_fetch hfetch hmem with h | ⟨file, h⟩
  · exact hcaches h
  · exact hopen file h

/-- A file is in the context exactly when the body is streamed. -/
theorem opens_of_fetch {redis redis' : RedisState} {env : Environment} {path b : Bytes} {size : Int}
    {calls : List ParserCall} {body : Body}
    (hfetch : redis.fetch cfg env path = .ok (redis', calls, body))
    (hbody : body.payload = some (b, size)) :
    (∃ file, .setContextfp file ∈ calls) ↔ body = .streamed b size := by
  rcases RedisState.fetch_calls hfetch with ⟨cached, hcached, ⟨b', size', rfl, rfl⟩ | ⟨rfl, rfl⟩⟩
  · refine iff_of_false ?_ (by simp)
    rintro ⟨file, hfile⟩
    exact hcached _ hfile
  · unfold openFile at hbody ⊢
    cases hfile : env.fopen path with
    | none =>
        rw [hfile] at hbody
        cases hbody
    | some contents =>
        cases contents with
        | nil =>
            rw [hfile] at hbody
            cases hbody
        | cons c contents =>
            rw [hfile] at hbody
            cases hbody
            exact iff_of_true ⟨path, by simp⟩ rfl

/-- The flag is stored once, under its own key. -/
theorem flag_mem_serveCalls {flag value : Bytes} {calls answer : List ParserCall}
    (hcalls : .setContextkv (Bytes.ofString "connectionFlag") value ∉ calls)
    (hanswer : .setContextkv (Bytes.ofString "connectionFlag") value ∉ answer) :
    .setContextkv (Bytes.ofString "connectionFlag") value ∈ serveCalls sc flag calls answer ↔
      value = flag := by
  have hkeys : Bytes.ofString "file" ≠ Bytes.ofString "connectionFlag" := by decide
  simp [serveCalls, Parser.setFile, hcalls, hanswer, hkeys]

/-- Any other call comes from the fetch or from the answer. -/
theorem mem_serveCalls {flag : Bytes} {calls answer : List ParserCall} {call : ParserCall}
    (h : ∀ key value, call ≠ .setContextkv key value) :
    call ∈ serveCalls sc flag calls answer ↔ call ∈ calls ∨ call ∈ answer := by
  have hfile : call ∉ Parser.setFile sc := by
    intro hmem
    rcases List.mem_map.1 hmem with ⟨file, -, heq⟩
    exact h _ _ heq.symm
  simp [serveCalls, hfile, h]

theorem stateAfter_eq_connected {all : List ParserCall} (h : .forceClose ∉ all) :
    stateAfter all .kConnected = .kConnected ↔ ¬ (.shutdown ∈ all ∨ ClosesAtEnd all) := by
  unfold stateAfter
  rw [if_neg h]
  split
  · rename_i hends
    simp [hends]
  · rename_i hends
    simp [hends]

/-- Which calls of a served request end the connection. -/
theorem open_serveCalls (sc : Scan) {p : Parser} (mime : Bytes) {path b : Bytes} {size : Int}
    {redis redis' : RedisState} {env : Environment} {calls : List ParserCall} {body : Body} {flag : Bytes}
    (hflag : flag = p.paramMap_ (Bytes.ofString "Connection"))
    (hfetch : redis.fetch cfg env path = .ok (redis', calls, body))
    (hbody : body.payload = some (b, size)) :
    let all := serveCalls sc flag calls (p.answerBody cfg .kConnected mime body).calls
    .forceCloseWithDelay ∉ all ∧
      (stateAfter all .kConnected = .kConnected ↔ ¬ ClosesAfter flag calls body) := by
  have hdelay := not_mem_fetch hfetch .forceCloseWithDelay id (by simp)
  have hforce := not_mem_fetch hfetch .forceClose id (by simp)
  have hshut := not_mem_fetch hfetch .shutdown id (by simp)
  have hstore := not_mem_fetch hfetch (.setContextkv (Bytes.ofString "connectionFlag")
    (Bytes.ofString "close")) id (by simp)
  have hopens := opens_of_fetch hfetch hbody
  -- the end of `responseRequest` sends, and shuts down behind a cached body
  have hanswer : ∀ call ∈ (p.answerBody cfg .kConnected mime body).calls,
      (∃ message, call = .send message) ∨ call = .shutdown := by
    intro call hcall
    cases body with
    | empty => cases hbody
    | missing => cases hbody
    | streamed b' size' => exact Or.inl ⟨_, List.mem_singleton.1 hcall⟩
    | cached b' size' =>
        rcases List.mem_cons.1 hcall with hsend | hclose
        · exact Or.inl ⟨_, hsend⟩
        · split at hclose
          · exact Or.inr (List.mem_singleton.1 hclose)
          · cases hclose
  have hother : ∀ call, (∀ message, call ≠ .send message) → call ≠ .shutdown →
      call ∉ (p.answerBody cfg .kConnected mime body).calls := by
    intro call hsend hclose hmem
    rcases hanswer call hmem with ⟨message, heq⟩ | heq
    · exact hsend message heq
    · exact hclose heq
  intro all
  have hforce' : .forceClose ∉ all := by
    rw [mem_serveCalls (by simp)]
    simp [hforce, hother]
  have hfile : (∃ file, .setContextfp file ∈ all) ↔ body = .streamed b size := by
    rw [← hopens]
    refine exists_congr fun file => ?_
    rw [mem_serveCalls (by simp)]
    simp [hother]
  have hcancel : .cancelWriteComplete ∈ all ↔ .cancelWriteComplete ∈ calls := by
    rw [mem_serveCalls (by simp)]
    simp [hother]
  have hstored : .setContextkv (Bytes.ofString "connectionFlag") (Bytes.ofString "close") ∈ all ↔
      Bytes.ofString "close" = flag :=
    flag_mem_serveCalls hstore (hother _ (by simp) (by simp))
  have hshutdown : .shutdown ∈ all ↔
      .shutdown ∈ (p.answerBody cfg .kConnected mime body).calls := by
    rw [mem_serveCalls (by simp)]
    simp [hshut]
  refine ⟨?_, ?_⟩
  · rw [mem_serveCalls (by simp)]
    simp [hdelay, hother]
  · rw [stateAfter_eq_connected hforce', hshutdown, ClosesAtEnd, hcancel, hfile, hstored]
    cases body with
    | empty => cases hbody
    | missing => cases hbody
    | streamed b' size' =>
        cases hbody
        simp [Parser.answerBody, Parser.respond, ClosesAfter, eq_comm, and_comm]
    | cached b' size' =>
        cases hbody
        by_cases hclose : flag = Bytes.ofString "close"
        · simp [Parser.answerBody, Parser.respond, ClosesAfter, ← hflag, hclose]
        · simp [Parser.answerBody, Parser.respond, ClosesAfter, ← hflag, hclose]

/-- A served request: its head, the first part of the body and what is streamed behind it. -/
theorem read_serve {path mime b : Bytes} {size : Int} {redis : RedisState} {calls : List ParserCall}
    {body : Body} (hopen : s.Open) (hscan : scan cfg m.env.stat bytes = .ok sc)
    (hserve : sc.verdict = .serve path mime)
    (hfetch : (s.workers m.worker).toRedisState.fetch cfg m.env path = .ok (redis, calls, body))
    (hbody : body.payload = some (b, size)) :
    let paramMap_ := ((s.workers m.worker).assign sc.assigned).paramMap_
    ∃ served : Served, s.read cfg m bytes = .ok (s.after m.worker served,
        (s.workers m.worker).response_.readable ++
          (Parser.responseHead paramMap_ cfg mime size ++ (b ++ streamed m.env calls))) ∧
      served.parser.response_.readable = [] ∧ served.parser.paramMap_ = paramMap_ ∧
      ((s.after m.worker served).Open ↔
        ¬ ClosesAfter (paramMap_ (Bytes.ofString "Connection")) calls body) := by
  intro paramMap_
  let p : Parser := { (s.workers m.worker).assign sc.assigned with toRedisState := redis }
  let answer := p.answerBody cfg .kConnected mime body
  let served : Served := { answer with
    calls := serveCalls sc (p.paramMap_ (Bytes.ofString "Connection")) calls answer.calls }
  have hserved : (s.workers m.worker).parserRequest cfg
      { request := bytes, env := m.env, state_ := .kConnected } = .ok served := by
    rw [Parser.parserRequest_serve (p := s.workers m.worker)
      (v := { request := bytes, env := m.env, state_ := .kConnected }) hscan hserve, hfetch]
    rfl
  have hout : sent served.calls ++ streamed m.env served.calls =
      (s.workers m.worker).response_.readable ++
        (Parser.responseHead paramMap_ cfg mime size ++ (b ++ streamed m.env calls)) := by
    have hsent := sent_serveCalls sc (Parser.silent_fetch hfetch)
      (p.paramMap_ (Bytes.ofString "Connection")) answer.calls
    have hstreamed := streamed_serveCalls sc m.env
      (p.paramMap_ (Bytes.ofString "Connection")) calls (inert_answerBody p cfg .kConnected mime body)
    calc
      sent served.calls ++ streamed m.env served.calls
          = sent answer.calls ++ streamed m.env calls := by rw [← hsent, ← hstreamed]
      _ = _ := by
        rw [sent_answerBody p mime hbody]
        simp only [List.append_assoc]
        rfl
  rcases open_serveCalls sc mime (p := p) rfl hfetch hbody with ⟨hdelay, hstate⟩
  refine ⟨served, (read_of_open hopen hserved).trans (by rw [hout]), ?_, ?_, ?_⟩
  -- a body with a payload is streamed or cached, and the response is emptied after either
  · cases body with
    | empty => cases hbody
    | missing => cases hbody
    | streamed b' size' => exact (Parser.readable_respond _ _ _).trans (if_pos rfl)
    | cached b' size' => exact (Parser.readable_respond _ _ _).trans (if_pos rfl)
  · cases body with
    | empty => cases hbody
    | missing => cases hbody
    | streamed b' size' => exact Parser.paramMap_respond _ _ _
    | cached b' size' => exact Parser.paramMap_respond _ _ _
  · rw [← hstate]
    unfold Open after
    rw [hopen.1, hopen.2]
    simp only [Bool.false_or, decide_eq_false_iff_not]
    exact and_iff_left hdelay

theorem stateAfter_ne_connected {calls : List ParserCall} (h : .forceClose ∈ calls ∨ .shutdown ∈ calls)
    (state_ : StateE) : stateAfter calls state_ ≠ .kConnected := by
  unfold stateAfter
  split
  · simp
  · rename_i hforce
    rw [if_pos (Or.inl (h.resolve_left hforce))]
    simp

/-- A read that leaves the connection open has been answered with a file. -/
theorem served_of_open {s' : Session W} {out : Bytes} (hopen : s.Open)
    (hread : s.read cfg m bytes = .ok (s', out)) (hopen' : s'.Open) :
    ∃ sc path mime redis calls body b size, scan cfg m.env.stat bytes = .ok sc ∧
      sc.verdict = .serve path mime ∧
      (s.workers m.worker).toRedisState.fetch cfg m.env path = .ok (redis, calls, body) ∧
      body.payload = some (b, size) := by
  cases hscan : scan cfg m.env.stat bytes with
  | error e =>
      rw [read_error hopen hscan] at hread
      cases hread
  | ok sc =>
      cases hverdict : sc.verdict with
      | page page =>
          rcases read_page hopen hscan hverdict with ⟨s'', hread', hclosed⟩
          rw [hread] at hread'
          cases hread'
          exact absurd hopen' hclosed
      | serve path mime =>
          have hserved := Parser.parserRequest_serve (p := s.workers m.worker)
            (v := { request := bytes, env := m.env, state_ := .kConnected }) hscan hverdict
          cases hfetch : (s.workers m.worker).toRedisState.fetch cfg m.env path with
          | error e =>
              unfold read at hread
              rw [if_neg (by simp [hopen.1, hopen.2]), hopen.1, hserved, hfetch] at hread
              cases hread
          | ok r =>
              rcases r with ⟨redis, calls, body⟩
              rw [hfetch] at hserved
              -- an answer that closes the connection does not leave it open
              have hclosed : ∀ call, (call = .forceClose ∨ call = .shutdown) →
                  call ∈ ({ (s.workers m.worker).assign sc.assigned with
                    toRedisState := redis }.answerBody cfg .kConnected mime body).calls → False := by
                intro call hcall hmem
                rw [read_of_open hopen hserved] at hread
                cases hread
                refine stateAfter_ne_connected ?_ s.state_ hopen'.1
                rcases hcall with rfl | rfl
                · exact Or.inl (List.mem_append_right _ (List.mem_cons_of_mem _
                    (List.mem_append_right _ hmem)))
                · exact Or.inr (List.mem_append_right _ (List.mem_cons_of_mem _
                    (List.mem_append_right _ hmem)))
              cases body with
              | empty => exact (hclosed .shutdown (Or.inr rfl) (List.mem_singleton_self _)).elim
              | missing => exact (hclosed .forceClose (Or.inl rfl) (List.mem_singleton_self _)).elim
              | streamed b size =>
                  exact ⟨sc, path, mime, redis, calls, _, b, size, rfl, hverdict, hfetch, rfl⟩
              | cached b size =>
                  exact ⟨sc, path, mime, redis, calls, _, b, size, rfl, hverdict, hfetch, rfl⟩

/-- Some way through a stream that keeps the connection open. -/
theorem output_of_staysOpen {ms : Nat → Moment W} {rs : List Bytes} (h : s.StaysOpen cfg ms rs) :
    s.Open ∧ ∃ out, s.output cfg ms rs = .ok out := by
  induction rs generalizing s ms with
  | nil => exact ⟨h, [], rfl⟩
  | cons r rs ih =>
      rcases h with ⟨hopen, s', out, hread, hrest⟩
      rcases ih hrest with ⟨-, out', hout'⟩
      refine ⟨hopen, out ++ out', ?_⟩
      rw [output, hread]
      simp only [bind, Except.bind, hout']
      rfl

end Session

theorem not_mem_version (p : Parser) (q : HttpRequest) (ls : List HeaderLine) :
    13 ∉ (p.assign (q.assigned ls)).paramMap_ (Bytes.ofString "version") := by
  rcases Parser.assign_cases p (q.assigned ls) (Bytes.ofString "version") with
    ⟨kv, hkv, -, heq⟩ | ⟨hne, -⟩
  · rw [heq]
    intro hmem
    rcases List.mem_cons.1 hkv with rfl | hkv
    · exact q.not_mem_tail (List.mem_of_mem_drop hmem)
    · rcases List.mem_map.1 hkv with ⟨l, -, rfl⟩
      exact l.value_ok (List.mem_of_mem_drop hmem)
  · exact absurd rfl (hne _ List.mem_cons_self)

theorem clean_assigned {p : Parser} (h : p.Clean) (q : HttpRequest) (ls : List HeaderLine) :
    (p.assign (q.assigned ls)).Clean := by
  refine Parser.clean_assign h ?_
  intro kv hkv
  rcases List.mem_cons.1 hkv with rfl | hkv
  · exact Bytes.findCRLF_drop (Bytes.findCRLF_none_of_not_mem q.not_mem_tail) _
  · rcases List.mem_map.1 hkv with ⟨l, -, rfl⟩
    exact Bytes.findCRLF_drop (Bytes.findCRLF_none_of_not_mem l.value_ok) _

/-! ## Two cuttings of one stream -/

namespace Session

variable {W : Type} [DecidableEq W] {cfg : Config} {s : Session W} {ms : Nat → Moment W}

/-- The request is answered by a page or meets a fault. -/
def Refused (cfg : Config) (stat : Bytes → Option Nat) (bytes : Bytes) : Prop :=
  ∀ sc path mime, scan cfg stat bytes = .ok sc → sc.verdict ≠ .serve path mime

theorem output_cons {r : Bytes} {rs : List Bytes} {s' : Session W} {out : Bytes}
    (hread : s.read cfg (ms 0) r = .ok (s', out)) :
    s.output cfg ms (r :: rs) = s'.output cfg (fun n => ms (n + 1)) rs >>= fun rest =>
      .ok (out ++ rest) := by
  rw [output, hread]
  rfl

/-- A refused read sends a page, if anything. -/
theorem output_refused (hopen : s.Open) {r : Bytes} {rs : List Bytes} {all : Bytes}
    (hrefused : Refused cfg (ms 0).env.stat r) (h : s.output cfg ms (r :: rs) = .ok all) :
    ∃ page t, all = (s.workers (ms 0).worker).response_.readable ++ (Page.text page ++ t) := by
  cases hscan : scan cfg (ms 0).env.stat r with
  | error e =>
      rw [output, read_error hopen hscan] at h
      cases h
  | ok sc =>
      cases hverdict : sc.verdict with
      | serve path mime => exact absurd hverdict (hrefused sc path mime hscan)
      | page page =>
          rcases read_page hopen hscan hverdict with ⟨s', hread, -⟩
          rw [output_cons hread] at h
          rcases bind_eq_ok h with ⟨rest, -, h⟩
          cases h
          exact ⟨page, rest, by rw [List.append_assoc]⟩

/-- An accepted request is answered by a head. -/
theorem output_accepted {q : HttpRequest} {rs : List Bytes}
    (h : s.StaysOpen cfg ms (q.text :: rs)) :
    ∃ m mime size t, 13 ∉ m (Bytes.ofString "version") ∧ s.output cfg ms (q.text :: rs) =
      .ok ((s.workers (ms 0).worker).response_.readable ++
        (Parser.responseHead m cfg mime size ++ t)) := by
  rcases h with ⟨hopen, s', out, hread, hrest⟩
  rcases output_of_staysOpen hrest with ⟨hopen', z, hz⟩
  rcases served_of_open hopen hread hopen' with
    ⟨sc, path, mime, redis, calls, body, b, size, hscan, hserve, hfetch, hbody⟩
  rcases read_serve hopen hscan hserve hfetch hbody with ⟨served, hread', -, -, -⟩
  have hassigned := (HttpRequest.accepted_of_scan hscan hserve).assigned_eq
  rw [hread] at hread'
  cases hread'
  refine ⟨((s.workers (ms 0).worker).assign sc.assigned).paramMap_, mime, size,
    b ++ streamed (ms 0).env calls ++ z, ?_, ?_⟩
  · rw [hassigned]
    exact not_mem_version _ q q.headers
  · rw [output_cons hread, hz]
    simp only [bind, Except.bind, List.append_assoc]

/-- Pages and heads never make the same stream. -/
theorem output_refused_ne (hopen : s.Open) {q : HttpRequest} {r : Bytes} {rs rs' : List Bytes}
    (hrefused : Refused cfg (ms 0).env.stat r) (h : s.StaysOpen cfg ms (q.text :: rs')) :
    s.output cfg ms (r :: rs) ≠ s.output cfg ms (q.text :: rs') := by
  intro heq
  rcases output_accepted h with ⟨m, mime, size, t, hversion, hout⟩
  rw [hout] at heq
  rcases output_refused hopen hrefused heq with ⟨page, t', hpage⟩
  exact Parser.page_ne_head hversion page cfg mime size t' t (List.append_cancel_left hpage).symm

/-- A read that ends inside a request. -/
theorem output_cut_ne {q : HttpRequest} {qs : List HttpRequest} {r t : Bytes} {rs : List Bytes}
    (hclean : ∀ w, (s.workers w).Clean)
    (hstays : s.StaysOpen cfg ms (q.text :: qs.map HttpRequest.text)) (happend : r ++ t = q.text)
    (ht : t ≠ []) (hne : ∀ r ∈ rs, r ≠ [])
    (hcut : rs.flatten = t ++ (qs.map HttpRequest.text).flatten) :
    s.output cfg ms (r :: rs) ≠ s.output cfg ms (q.text :: qs.map HttpRequest.text) := by
  have hstays' := hstays
  rcases hstays with ⟨hopen, s₁, out₁, hread₁, hrest⟩
  by_cases hrefused : Refused cfg (ms 0).env.stat r
  · exact output_refused_ne hopen hrefused hstays'
  unfold Refused at hrefused
  simp only [not_forall, not_not] at hrefused
  rcases hrefused with ⟨sc₂, path₂, mime₂, hscan₂, hserve₂⟩
  rcases output_of_staysOpen hrest with ⟨hopen₁, z, hz⟩
  rcases served_of_open hopen hread₁ hopen₁ with
    ⟨sc₁, path, mime, redis, calls, body, b, size, hscan₁, hserve₁, hfetch, hbody⟩
  have hassigned₁ := (HttpRequest.accepted_of_scan hscan₁ hserve₁).assigned_eq
  rcases HttpRequest.scan_cut hscan₁ hserve₁ happend ht hscan₂ hserve₂ with
    ⟨rfl, rfl, ls₁, ls₂, hheaders, hassigned₂, rfl⟩
  -- both are answered with the same file
  rcases read_serve hopen hscan₁ hserve₁ hfetch hbody with ⟨served₁, hread₁', hheld₁, -, hopen₁'⟩
  rcases read_serve hopen hscan₂ hserve₂ hfetch hbody with ⟨served₂, hread₂, hheld₂, -, hopen₂'⟩
  rw [hassigned₁] at hread₁' hopen₁'
  rw [hassigned₂] at hread₂ hopen₂'
  rw [hread₁] at hread₁'
  cases hread₁'
  intro heq
  rw [output_cons hread₂, output_cons hread₁, hz] at heq
  rcases bind_eq_ok heq with ⟨z₂, hz₂, heq⟩
  simp only [Except.ok.injEq, List.append_assoc, List.append_cancel_left_eq] at heq
  have hheads := Parser.responseHead_cancel (not_mem_version _ q ls₁) (not_mem_version _ q q.headers)
    (clean_assigned (hclean _) q ls₁ _) (clean_assigned (hclean _) q q.headers _) heq
  rcases hheads with ⟨hconnection, hrest'⟩
  simp only [List.append_cancel_left_eq] at hrest'
  subst hrest'
  -- so the connection is open, and the next read starts with a header line or the blank line
  have hopen₂ : (s.after (ms 0).worker served₂).Open := by
    rw [hopen₂', hconnection]
    exact hopen₁'.1 hopen₁
  cases rs with
  | nil => exact ht (List.append_eq_nil_iff.1 hcut.symm).1
  | cons y ys =>
      have hfragment : Refused cfg (ms 1).env.stat y := by
        have hy : y <+: HeaderLine.lines ls₂ ++ 13 :: 10 :: (qs.map HttpRequest.text).flatten := by
          refine ⟨ys.flatten, ?_⟩
          rw [← List.flatten_cons, hcut]
          simp
        intro sc path mime hscan
        rcases scan_fragment (hne y List.mem_cons_self) hy cfg (ms 1).env.stat with ⟨e, he⟩ | hpage
        · rw [hscan] at he
          cases he
        · rw [hscan] at hpage
          cases hpage
          simp
      cases qs with
      | nil =>
          -- there is nothing more to send
          rcases output_refused hopen₂ hfragment hz₂ with ⟨page, t, hpage⟩
          cases hz
          have hnil := (List.append_eq_nil_iff.1 hpage.symm).2
          exact Parser.page_text_ne_nil page (List.append_eq_nil_iff.1 hnil).1
      | cons q' qs =>
          rcases output_refused hopen₂ hfragment hz₂ with ⟨page, t, hpage⟩
          rcases output_accepted hrest with ⟨m, mime', size', t', hversion, hout⟩
          have hz' := hz
          rw [List.map_cons, hout] at hz'
          cases hz'
          -- the worker that is next holds back the same bytes in both cases
          have hheld : ((s.after (ms 0).worker served₂).workers (ms (0 + 1)).worker).response_.readable =
              ((s.after (ms 0).worker served₁).workers (ms (0 + 1)).worker).response_.readable := by
            unfold after
            by_cases hw : (ms (0 + 1)).worker = (ms 0).worker
            · simp only [hw, Function.update_self, hheld₁, hheld₂]
            · simp only [Function.update_of_ne hw]
          rw [hheld] at hpage
          exact Parser.page_ne_head hversion page cfg mime' size' t t'
            (List.append_cancel_left hpage).symm

theorem clean_read {m : Moment W} {bytes out : Bytes} {s' : Session W}
    (hclean : ∀ w, (s.workers w).Clean) (h : s.read cfg m bytes = .ok (s', out)) :
    ∀ w, (s'.workers w).Clean := by
  unfold read at h
  split at h
  · cases h
    exact hclean
  · rcases bind_eq_ok h with ⟨served, hserved, h⟩
    cases h
    intro w
    unfold after
    by_cases hw : w = m.worker
    · subst hw
      simp only [Function.update_self]
      exact Parser.clean_parserRequest (hclean _) hserved
    · simp only [Function.update_of_ne hw]
      exact hclean w

/-- The bytes that are sent back determine the cutting. -/
theorem reads_eq_of_output_eq {requests : List HttpRequest} {reads : List Bytes}
    (hclean : ∀ w, (s.workers w).Clean)
    (hstays : s.StaysOpen cfg ms (requests.map HttpRequest.text)) (hne : ∀ r ∈ reads, r ≠ [])
    (hcut : reads.flatten = (requests.map HttpRequest.text).flatten)
    (h : s.output cfg ms reads = s.output cfg ms (requests.map HttpRequest.text)) :
    reads = requests.map HttpRequest.text := by
  induction requests generalizing reads s ms with
  | nil =>
      cases reads with
      | nil => rfl
      | cons r rs =>
          have hnil := (List.append_eq_nil_iff.1 hcut).1
          exact absurd hnil (hne r List.mem_cons_self)
  | cons q qs ih =>
      cases reads with
      | nil =>
          have hnil := (List.append_eq_nil_iff.1 hcut.symm).1
          simp [HttpRequest.text] at hnil
      | cons r rs =>
          have hne' : ∀ r ∈ rs, r ≠ [] := fun r' hr' => hne r' (List.mem_cons_of_mem _ hr')
          have hstays' := hstays
          rcases hstays with ⟨hopen, s₁, out₁, hread, hrest⟩
          rcases output_of_staysOpen hrest with ⟨hopen₁, z, hz⟩
          rcases served_of_open hopen hread hopen₁ with
            ⟨sc, path, mime, redis, calls, body, b, size, hscan, hserve, hfetch, hbody⟩
          rw [List.flatten_cons, List.map_cons, List.flatten_cons] at hcut
          by_cases hr : r = q.text
          · -- the first read is the first request
            subst hr
            have hclean₁ := clean_read hclean hread
            rw [List.map_cons, output_cons hread, output_cons hread, hz] at h
            rcases bind_eq_ok h with ⟨z', hz', h⟩
            have heq : z' = z := by simpa using h
            rw [heq] at hz'
            rw [List.map_cons, ih hclean₁ hrest hne' (List.append_cancel_left hcut) (hz'.trans hz.symm)]
          · rcases List.append_eq_append_iff.1 hcut with ⟨t, hq, hflat⟩ | ⟨t, hlong, hflat⟩
            · have ht : t ≠ [] := by
                rintro rfl
                exact hr (by rw [hq, List.append_nil])
              exact absurd h (output_cut_ne hclean hstays' hq.symm ht hne' hflat)
            · have ht : t ≠ [] := by
                rintro rfl
                exact hr (by rw [hlong, List.append_nil])
              have hrefused : Refused cfg (ms 0).env.stat r := by
                intro sc' path' mime' hscan'
                rw [hlong, HttpRequest.scan_extended hscan hserve ht] at hscan'
                cases hscan'
                simp
              exact absurd h (output_refused_ne hopen hrefused hstays')

/-- A stream of requests is answered as if each read brought one request exactly when each does. -/
theorem output_eq_iff (cfg : Config) (s : Session W) (ms : Nat → Moment W)
    (requests : List HttpRequest) (reads : List Bytes)
    (hworkers : ∀ w, ∃ connected history,
      Parser.handleAll cfg (Parser.construct connected) history = .ok (s.workers w))
    (hstays : s.StaysOpen cfg ms (requests.map HttpRequest.text)) (hne : ∀ r ∈ reads, r ≠ [])
    (hcut : reads.flatten = (requests.map HttpRequest.text).flatten) :
    s.output cfg ms reads = s.output cfg ms (requests.map HttpRequest.text) ↔
      reads = requests.map HttpRequest.text := by
  have hclean : ∀ w, (s.workers w).Clean := by
    intro w
    rcases hworkers w with ⟨connected, history, hrun⟩
    exact Parser.clean_of_history (fun _ => rfl) hrun
  refine ⟨reads_eq_of_output_eq hclean hstays hne hcut, ?_⟩
  rintro rfl
  rfl

theorem sampleUrl_ne : Bytes.ofString "/a.html" ≠ [] := by
  decide

theorem sampleUrl_ok : ∀ c ∈ Bytes.ofString "/a.html", Bytes.isspace c = false := by
  decide +kernel

theorem sampleVersion_ok : 13 ∉ Bytes.ofString "1.1" := by
  decide

/-- A request without headers. -/
def sampleRequest : HttpRequest where
  url := Bytes.ofString "/a.html"
  version := Bytes.ofString "1.1"
  headers := []
  url_ne := sampleUrl_ne
  url_ok := sampleUrl_ok
  version_ok := sampleVersion_ok

/-- A new connection and a new worker. -/
def sampleSession : Session Unit where
  workers _ := Parser.construct false
  state_ := .kConnected
  closing := false

def sampleMoment (_ : Nat) : Moment Unit where
  env := Parser.readableFiles
  worker := ()
  expired := false

theorem scan_sampleRequest : scan Parser.htmlConfig Parser.readableFiles.stat sampleRequest.text =
    .ok ⟨some (Bytes.ofString "/www/a.html"), [(Bytes.ofString "version", Bytes.ofString "1.1")],
      .serve (Bytes.ofString "/www/a.html") (Bytes.ofString "html")⟩ := by
  have hlocate : locate Parser.htmlConfig Parser.readableFiles.stat sampleRequest.text =
      .ok (.found (Bytes.ofString "/www/a.html") (Bytes.ofString "/www/a.html")
        (Bytes.ofString "html") (Bytes.ofString "HTTP/1.1\r\n\r\n")) := rfl
  rw [scan, hlocate]
  simp only [bind, Except.bind, scanHead_bare]
  rfl

theorem staysOpen_sample : sampleSession.StaysOpen Parser.htmlConfig sampleMoment
    ([sampleRequest].map HttpRequest.text) := by
  have hopen : sampleSession.Open := ⟨rfl, rfl⟩
  have hfetch : ((sampleSession.workers ()).toRedisState.fetch Parser.htmlConfig
      Parser.readableFiles (Bytes.ofString "/www/a.html")) = .ok (⟨false, false⟩,
        [.setContextfp (Bytes.ofString "/www/a.html")],
        .streamed ((Bytes.ofString "hello").take kBufSize) (toInt (Bytes.ofString "hello").length)) :=
    rfl
  rcases read_serve (m := sampleMoment 0) hopen scan_sampleRequest rfl hfetch rfl with
    ⟨served, hread, -, -, hends⟩
  refine ⟨hopen, _, _, hread, hends.2 ?_⟩
  rintro ⟨hclose, -⟩
  exact absurd hclose (by decide)

/-- A read without the blank line is served, and the blank line is then refused. -/
def blankLineApart : List Bytes :=
  [Bytes.ofString "GET /a.html HTTP/1.1\r\n", Bytes.ofString "\r\n"]

theorem blankLineApart_ne : ∀ r ∈ blankLineApart, r ≠ [] := by
  decide

theorem blankLineApart_cut :
    blankLineApart.flatten = ([sampleRequest].map HttpRequest.text).flatten := by
  decide

theorem output_eq_iff_blankLineApart :
    sampleSession.output Parser.htmlConfig sampleMoment blankLineApart =
        sampleSession.output Parser.htmlConfig sampleMoment ([sampleRequest].map HttpRequest.text) ↔
      blankLineApart = [sampleRequest].map HttpRequest.text :=
  output_eq_iff Parser.htmlConfig sampleSession sampleMoment [sampleRequest] blankLineApart
    (fun _ => ⟨false, [], rfl⟩) staysOpen_sample blankLineApart_ne blankLineApart_cut

theorem not_output_eq_blankLineApart :
    ¬ ∀ (requests : List HttpRequest) (reads : List Bytes),
      sampleSession.StaysOpen Parser.htmlConfig sampleMoment (requests.map HttpRequest.text) →
      (∀ r ∈ reads, r ≠ []) → reads.flatten = (requests.map HttpRequest.text).flatten →
      sampleSession.output Parser.htmlConfig sampleMoment reads =
        sampleSession.output Parser.htmlConfig sampleMoment (requests.map HttpRequest.text) := by
  intro h
  have heq := h [sampleRequest] blankLineApart staysOpen_sample blankLineApart_ne blankLineApart_cut
  have hreads := reads_eq_of_output_eq (fun _ _ => rfl) staysOpen_sample blankLineApart_ne
    blankLineApart_cut heq
  have hlength := congrArg List.length hreads
  cases hlength

end Session

end Web
end Longky
