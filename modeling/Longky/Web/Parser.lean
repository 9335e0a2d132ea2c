import Longky.Net.TcpConnection
import Longky.Web.Scan

/-!
# Parser — the static server's request handler

`webServer/requestParser.cpp`.  One `Parser` per worker thread serves the requests of all
connections, one after another; what it keeps between them is the response buffer, the map of
headers and the state of its Redis connection.

`parserRequest` returns the parser's next state together with the calls it makes, in order.  The
answers of the file system, of Redis and of zlib, the contents of the shared `g_zlibMap` and the
state of the connection at the time of the send are arguments: other threads and the kernel choose
them.
-/

namespace Longky
namespace Web

open Lib Net

/-! ## Requests and what they cause -/

/-- The answers of the environment while one request is served. -/
structure Environment where
  /-- `st_mode`, or none when `stat` fails. -/
  stat : Bytes → Option Nat
  /-- The contents behind the first `fopen`, which fills the cache. -/
  fopenVip : Bytes → Option Bytes
  /-- The contents behind the second `fopen`. -/
  fopen : Bytes → Option Bytes
  /-- The value of a key, or none when `exeGET` throws. -/
  exeGET : Bytes → Option Bytes
  /-- `exeSET` throws. -/
  exeSETThrows : Bool
  /-- zlib's compression of a byte string. -/
  compress : Bytes → Bytes
  /-- The destination buffer after `uncompress` into that many bytes, or none when it fails. -/
  uncompress : Bytes → Nat → Option Bytes
  g_zlibMap : Bytes → Int

/-- One task of the worker: a request with the environment it meets. -/
structure Visit where
  request : Bytes
  env : Environment
  /-- `state_` of the connection when `TcpConnection::send` is called. -/
  state_ : StateE

/-- What the parser does to its surroundings. -/
inductive ParserCall where
  | setContextkv (key value : Bytes)
  | setContextfp (file : Bytes)
  /-- `setWriteCompleteCallback(WriteCompleteCallback())`. -/
  | cancelWriteComplete
  /-- `send(&response_)` with the readable bytes of `response_`. -/
  | send (message : Bytes)
  | forceCloseWithDelay
  | forceClose
  | shutdown
  /-- `g_zlibMap[md5] = size`, in memory and in the configuration file. -/
  | recordSize (md5 : Bytes) (size : Int)
  /-- `exeSET` with the compressed contents, if `Compress` succeeded, and the length passed on. -/
  | exeSET (md5 : Bytes) (value : Option Bytes) (length : Nat)
  /-- `curLoop_->runInLoop(retryInLoop)`. -/
  | retryInLoop
  deriving DecidableEq, Repr

/-- The parser's side of its Redis connection. -/
structure RedisState where
  isRedisConnectWell_ : Bool
  /-- `g_zlib` is not null. -/
  g_zlib : Bool
  deriving DecidableEq, Repr

structure Parser extends RedisState where
  response_ : WfBuffer := WfBuffer.construct Buffer.kInitialSize
  /-- Keys that were never assigned read as empty, as with `operator[]`. -/
  paramMap_ : Bytes → Bytes := fun _ => []

/-- What one call of `parserRequest` leaves. -/
structure Served where
  parser : Parser
  calls : List ParserCall
  /-- The head that `responseRequest` builds, if it gets so far. -/
  head : Option Bytes := none
  /-- All bytes that are appended to `response_` for this request. -/
  response : Bytes := []

/-! ## The body -/

/-- The conversion of a file size to `int`. -/
def toInt (n : Nat) : Int := (n : Int).bmod (2 ^ 32)

def MAXBUFFERSIZE : Nat := 20000

/-- How the body is obtained. -/
inductive Body where
  /-- From Redis, or from the file while the cache is filled. -/
  | cached (body : Bytes) (fileSize : Int)
  /-- The first part of a file that is then streamed. -/
  | streamed (body : Bytes) (fileSize : Int)
  /-- `fread` returned nothing. -/
  | empty
  /-- The file cannot be opened. -/
  | missing
  deriving DecidableEq, Repr

/-- `kBufSize`, the size of the first part of a streamed file. -/
def kBufSize : Nat := 1024 * 1024

/-- The part of `responseRequest` that opens the file to stream it. -/
def openFile (env : Environment) (g_file : Bytes) : List ParserCall × Body :=
  match env.fopen g_file with
  | none => ([], .missing)
  | some [] => ([.setContextfp g_file], .empty)
  | some contents =>
      ([.setContextfp g_file], .streamed (contents.take kBufSize) (toInt contents.length))

namespace RedisState

/-- `CZlibMgr::Compress`: the bytes copied into the destination, or none when it reports failure.
The object is touched only for a non-empty file. -/
def compress (redis : RedisState) (env : Environment) (plain : Bytes) :
    Except Fault (Option Bytes) :=
  if plain = [] then .ok none
  else if !redis.g_zlib then .error .nullPointer
  else if (env.compress plain).length ≤ MAXBUFFERSIZE then .ok (some (env.compress plain))
  else .ok none

/-- The code behind `ReConn`. -/
def reConn (redis : RedisState) : RedisState :=
  { redis with isRedisConnectWell_ := false, g_zlib := false }

/-- The cache miss: read the file, compress it and put it into Redis. -/
def fillCache (redis : RedisState) (cfg : Config) (env : Environment) (g_file md5 : Bytes) :
    Except Fault (RedisState × List ParserCall × Bytes × Int) :=
  match env.fopenVip g_file with
  | none =>
      -- `fclose(fp)` follows in either case
      .error .nullPointer
  | some contents =>
      let size := toInt contents.length
      -- `plainString` and `comPressString`
      if size < 0 ∨ cfg.comPressStringSize size.toNat < 0 then .error .lengthError
      else do
        -- `fread` of `size` bytes
        let plain := contents.take size.toNat
        let compressed ← redis.compress env plain
        let length := (compressed.map List.length).getD size.toNat
        if length ≤ cfg.comPressStringSize size.toNat then
          let calls := [.recordSize md5 size, .cancelWriteComplete, .exeSET md5 compressed length]
          -- the body has been read, so it is sent all the same
          if env.exeSETThrows then return (redis.reConn, calls ++ [.retryInLoop], plain, size)
          else return (redis, calls, plain, size)
        -- `Compress` writes behind the destination, or `exeSET` reads what it has not written there
        else .error (if compressed.isSome then .overflow else .outOfBounds)

/-- The part of `responseRequest` for VIP files: the body, if Redis or the cache fill gives one.
Other files pass through. -/
def fetchVip (redis : RedisState) (cfg : Config) (env : Environment) (g_file : Bytes) :
    Except Fault (RedisState × List ParserCall × Option (Bytes × Int)) :=
  if g_file ∉ cfg.g_redis_vip then .ok (redis, [], none)
  else if !redis.isRedisConnectWell_ then .ok (redis.reConn, [.retryInLoop], none)
  else
    let md5 := cfg.urlTomd5 g_file
    match env.exeGET md5 with
    | none => .ok (redis.reConn, [.retryInLoop], none)
    | some s =>
        -- without a recorded size the cached bytes cannot be unpacked
        if s = [] ∨ env.g_zlibMap md5 = 0 then do
          let (redis₁, calls, body, size) ← redis.fillCache cfg env g_file md5
          return (redis₁, calls, some (body, size))
        else
          let size := env.g_zlibMap md5
          if size < 0 then .error .lengthError
          else
            match env.uncompress s size.toNat with
            | some body => .ok (redis, [.cancelWriteComplete], some (body, size))
            -- the callback is gone although the file is streamed after all
            | none => .ok ({ redis with isRedisConnectWell_ := false }, [.cancelWriteComplete], none)

def fetch (redis : RedisState) (cfg : Config) (env : Environment) (g_file : Bytes) :
    Except Fault (RedisState × List ParserCall × Body) := do
  let (redis₁, calls, vip) ← redis.fetchVip cfg env g_file
  match vip with
  | some (body, size) => return (redis₁, calls, .cached body size)
  | none =>
      let (calls', body) := openFile env g_file
      return (redis₁, calls ++ calls', body)

end RedisState

/-- The calls that are made around the cache. -/
def ParserCall.Caches : ParserCall → Prop
  | .cancelWriteComplete | .recordSize _ _ | .exeSET _ _ _ | .retryInLoop => True
  | _ => False

namespace RedisState

variable {redis redis' : RedisState} {cfg : Config} {env : Environment} {g_file : Bytes}
  {calls : List ParserCall}

/-- The calls of a cache fill, before `exeSET` is known to have thrown. -/
def fillCalls (md5 : Bytes) (size : Int) (compressed : Option Bytes) : List ParserCall :=
  [.recordSize md5 size, .cancelWriteComplete,
    .exeSET md5 compressed ((compressed.map List.length).getD size.toNat)]

/-- What a cache fill that gives a body has done. -/
inductive Filled (redis : RedisState) (cfg : Config) (env : Environment) (g_file md5 : Bytes) :
    RedisState → List ParserCall → Bytes → Int → Prop where
  | stored {contents : Bytes} {compressed : Option Bytes} :
      env.fopenVip g_file = some contents → 0 ≤ toInt contents.length →
      redis.compress env (contents.take (toInt contents.length).toNat) = .ok compressed →
      ((compressed.map List.length).getD (toInt contents.length).toNat : Nat) ≤
        cfg.comPressStringSize (toInt contents.length).toNat →
      env.exeSETThrows = false →
      Filled redis cfg env g_file md5 redis (fillCalls md5 (toInt contents.length) compressed)
        (contents.take (toInt contents.length).toNat) (toInt contents.length)
  | throws {contents : Bytes} {compressed : Option Bytes} :
      env.fopenVip g_file = some contents → 0 ≤ toInt contents.length →
      redis.compress env (contents.take (toInt contents.length).toNat) = .ok compressed →
      ((compressed.map List.length).getD (toInt contents.length).toNat : Nat) ≤
        cfg.comPressStringSize (toInt contents.length).toNat →
      env.exeSETThrows = true →
      Filled redis cfg env g_file md5 redis.reConn
        (fillCalls md5 (toInt contents.length) compressed ++ [.retryInLoop])
        (contents.take (toInt contents.length).toNat) (toInt contents.length)

theorem fillCache_filled {md5 body : Bytes} {size : Int}
    (h : redis.fillCache cfg env g_file md5 = .ok (redis', calls, body, size)) :
    Filled redis cfg env g_file md5 redis' calls body size := by
  unfold fillCache at h
  split at h
  · cases h
  · next contents hopen =>
    dsimp only at h
    split at h
    · cases h
    · next hsizes =>
      obtain ⟨hsize, -⟩ := not_or.1 hsizes
      rcases bind_eq_ok h with ⟨compressed, hcompress, h⟩
      split at h
      · next hfits =>
        cases hthrows : env.exeSETThrows with
        | true =>
            simp only [hthrows, if_true, pure, Except.pure, Except.ok.injEq, Prod.mk.injEq] at h
            obtain ⟨rfl, rfl, rfl, rfl⟩ := h
            exact .throws hopen (Int.not_lt.1 hsize) hcompress hfits hthrows
        | false =>
            simp only [hthrows, Bool.false_eq_true, if_false, pure, Except.pure, Except.ok.injEq,
              Prod.mk.injEq] at h
            obtain ⟨rfl, rfl, rfl, rfl⟩ := h
            exact .stored hopen (Int.not_lt.1 hsize) hcompress hfits hthrows
      · cases h

/-- What a request has done to its connection before there is a body. -/
inductive Fetched (redis : RedisState) (cfg : Config) (env : Environment) (g_file : Bytes) :
    RedisState → List ParserCall → Option (Bytes × Int) → Prop where
  | passed : g_file ∉ cfg.g_redis_vip → Fetched redis cfg env g_file redis [] none
  | broken : g_file ∈ cfg.g_redis_vip → redis.isRedisConnectWell_ = false →
      Fetched redis cfg env g_file redis.reConn [.retryInLoop] none
  | getThrows : g_file ∈ cfg.g_redis_vip → redis.isRedisConnectWell_ = true →
      env.exeGET (cfg.urlTomd5 g_file) = none →
      Fetched redis cfg env g_file redis.reConn [.retryInLoop] none
  | filled {s : Bytes} {redis' : RedisState} {calls : List ParserCall} {body : Bytes} {size : Int} :
      g_file ∈ cfg.g_redis_vip → redis.isRedisConnectWell_ = true →
      env.exeGET (cfg.urlTomd5 g_file) = some s →
      s = [] ∨ env.g_zlibMap (cfg.urlTomd5 g_file) = 0 →
      Filled redis cfg env g_file (cfg.urlTomd5 g_file) redis' calls body size →
      Fetched redis cfg env g_file redis' calls (some (body, size))
  | unpacked {s body : Bytes} :
      g_file ∈ cfg.g_redis_vip → redis.isRedisConnectWell_ = true →
      env.exeGET (cfg.urlTomd5 g_file) = some s → s ≠ [] →
      0 < env.g_zlibMap (cfg.urlTomd5 g_file) →
      env.uncompress s (env.g_zlibMap (cfg.urlTomd5 g_file)).toNat = some body →
      Fetched redis cfg env g_file redis [.cancelWriteComplete]
        (some (body, env.g_zlibMap (cfg.urlTomd5 g_file)))
  | corrupt {s : Bytes} :
      g_file ∈ cfg.g_redis_vip → redis.isRedisConnectWell_ = true →
      env.exeGET (cfg.urlTomd5 g_file) = some s → s ≠ [] →
      0 < env.g_zlibMap (cfg.urlTomd5 g_file) →
      env.uncompress s (env.g_zlibMap (cfg.urlTomd5 g_file)).toNat = none →
      Fetched redis cfg env g_file { redis with isRedisConnectWell_ := false }
        [.cancelWriteComplete] none

theorem fetchVip_fetched {body : Option (Bytes × Int)}
    (h : redis.fetchVip cfg env g_file = .ok (redis', calls, body)) :
    Fetched redis cfg env g_file redis' calls body := by
  unfold fetchVip at h
  by_cases hvip : g_file ∈ cfg.g_redis_vip
  swap
  · rw [if_pos hvip] at h
    cases h
    exact .passed hvip
  rw [if_neg (not_not.2 hvip)] at h
  cases hwell : redis.isRedisConnectWell_ with
  | false =>
      simp only [hwell, Bool.not_false, if_true] at h
      cases h
      exact .broken hvip hwell
  | true =>
      simp only [hwell, Bool.not_true, Bool.false_eq_true, if_false] at h
      cases hget : env.exeGET (cfg.urlTomd5 g_file) with
      | none =>
          simp only [hget] at h
          cases h
          exact .getThrows hvip hwell hget
      | some s =>
          simp only [hget] at h
          by_cases hmiss : s = [] ∨ env.g_zlibMap (cfg.urlTomd5 g_file) = 0
          · rw [if_pos hmiss] at h
            rcases bind_eq_ok h with ⟨⟨redis₁, calls₁, body₁, size₁⟩, hfill, h⟩
            cases h
            exact .filled hvip hwell hget hmiss (fillCache_filled hfill)
          · rw [if_neg hmiss] at h
            obtain ⟨hne, hsize⟩ := not_or.1 hmiss
            split at h
            · cases h
            · next hnonneg =>
              have hpos : 0 < env.g_zlibMap (cfg.urlTomd5 g_file) := by omega
              cases hbody : env.uncompress s (env.g_zlibMap (cfg.urlTomd5 g_file)).toNat with
              | some body₁ =>
                  simp only [hbody] at h
                  cases h
                  exact .unpacked hvip hwell hget hne hpos hbody
              | none =>
                  simp only [hbody] at h
                  cases h
                  exact .corrupt hvip hwell hget hne hpos hbody

theorem fetchVip_caches {body : Option (Bytes × Int)}
    (h : redis.fetchVip cfg env g_file = .ok (redis', calls, body)) :
    ∀ call ∈ calls, call.Caches := by
  cases fetchVip_fetched h with
  | passed => simp
  | broken => simp [ParserCall.Caches]
  | getThrows => simp [ParserCall.Caches]
  | filled _ _ _ _ hfill => cases hfill <;> simp [fillCalls, ParserCall.Caches]
  | unpacked => simp [ParserCall.Caches]
  | corrupt => simp [ParserCall.Caches]

/-- The calls in front of a body: a file is put into the context only to be streamed. -/
theorem fetch_calls {body : Body} (h : redis.fetch cfg env g_file = .ok (redis', calls, body)) :
    ∃ cached, (∀ call ∈ cached, call.Caches) ∧
      ((∃ b size, body = .cached b size ∧ calls = cached) ∨
        body = (openFile env g_file).2 ∧ calls = cached ++ (openFile env g_file).1) := by
  unfold fetch at h
  rcases bind_eq_ok h with ⟨⟨redis₁, calls₁, vip⟩, hvip, h⟩
  refine ⟨calls₁, fetchVip_caches hvip, ?_⟩
  cases vip with
  | some b =>
      cases h
      exact Or.inl ⟨b.1, b.2, rfl, rfl⟩
  | none =>
      cases h
      exact Or.inr ⟨rfl, rfl⟩

/-- Nothing is sent or stored before there is a body. -/
theorem mem_fetch {body : Body} (h : redis.fetch cfg env g_file = .ok (redis', calls, body))
    {call : ParserCall} (hcall : call ∈ calls) : call.Caches ∨ ∃ file, call = .setContextfp file := by
  rcases fetch_calls h with ⟨cached, hcached, ⟨b, size, -, rfl⟩ | ⟨-, rfl⟩⟩
  · exact Or.inl (hcached call hcall)
  · rcases List.mem_append.1 hcall with hcall | hcall
    · exact Or.inl (hcached call hcall)
    · unfold openFile at hcall
      split at hcall
      · cases hcall
      · exact Or.inr ⟨_, List.mem_singleton.1 hcall⟩
      · exact Or.inr ⟨_, List.mem_singleton.1 hcall⟩

end RedisState

namespace Parser

/-- `Parser::Parser`, with the answer of `Connect`. -/
def construct (connected : Bool) : Parser where
  isRedisConnectWell_ := connected
  g_zlib := connected

/-! ## Sending -/

/-- `TcpConnection::send(Buffer*)` as the caller's buffer sees it: it is emptied only when the
connection is connected. -/
def sendResponse (p : Parser) (state_ : StateE) : Parser :=
  if state_ = .kConnected then { p with response_ := p.response_.retrieveAll } else p

/-- On any other connection neither the buffer nor the connection changes. -/
theorem sendResponse_of_not_connected (p : Parser) {w : World} (h : w.state_ ≠ .kConnected)
    (t : Thread) (r : WriteResult) :
    p.sendResponse w.state_ = p ∧ w.send t p.response_.readable r = w := by
  refine ⟨if_neg h, ?_⟩
  unfold World.send
  rw [if_neg h]

/-- `response_.append(...)` and `conn_.lock()->send(&response_)`. -/
def respond (p : Parser) (state_ : StateE) (response : Bytes) : Parser × ParserCall :=
  let p₁ := { p with response_ := p.response_.append response }
  (p₁.sendResponse state_, .send p₁.response_.readable)

/-- The four error paths. -/
def answerPage (p : Parser) (state_ : StateE) (page : Page) : Served :=
  let (p₁, send) := p.respond state_ page.text
  { parser := p₁
    calls := [.cancelWriteComplete, send, .forceCloseWithDelay]
    response := page.text }

/-! ## The response -/

def CRLF : Bytes := [13, 10]

/-- The text `res` of `responseRequest`. -/
def responseHead (paramMap_ : Bytes → Bytes) (cfg : Config) (mime : Bytes) (fileSize : Int) :
    Bytes :=
  let connection := paramMap_ (Bytes.ofString "Connection")
  Bytes.ofString "HTTP/" ++ paramMap_ (Bytes.ofString "version") ++ Bytes.ofString " 200 OK\r\n" ++
    Bytes.ofString "Connection:" ++ connection ++ CRLF ++
    Bytes.ofString "Content-type:" ++ (cfg.mimeType mime).getD [] ++
    Bytes.ofString ";charset=utf-8" ++ CRLF ++
    (if connection ≠ Bytes.ofString "close" then
      Bytes.ofString "Content-Length:" ++ Bytes.ofString (toString fileSize)
    else []) ++ Bytes.ofString "\r\n\r\n"

theorem responseHead_ne_nil (paramMap_ : Bytes → Bytes) (cfg : Config) (mime : Bytes)
    (fileSize : Int) : responseHead paramMap_ cfg mime fileSize ≠ [] := by
  have hhttp : Bytes.ofString "HTTP/" ≠ [] := by decide
  unfold responseHead
  simp [hhttp]

/-- The end of `responseRequest`: what is done with the body. -/
def answerBody (p : Parser) (cfg : Config) (state_ : StateE) (mime : Bytes) : Body → Served
  | .empty => { parser := p, calls := [.shutdown] }
  | .missing => { parser := p, calls := [.forceClose] }
  | .streamed body fileSize =>
      let head := responseHead p.paramMap_ cfg mime fileSize
      let (p₁, send) := p.respond state_ (head ++ body)
      { parser := p₁, calls := [send], head := some head, response := head ++ body }
  | .cached body fileSize =>
      let head := responseHead p.paramMap_ cfg mime fileSize
      let (p₁, send) := p.respond state_ (head ++ body)
      { parser := p₁
        calls := send ::
          if p.paramMap_ (Bytes.ofString "Connection") = Bytes.ofString "close" then [.shutdown]
          else []
        head := some head
        response := head ++ body }

/-- The calls at the end of `responseRequest`. -/
theorem answerBody_calls {p : Parser} {cfg : Config} {state_ : StateE} {mime : Bytes} {body : Body}
    {call : ParserCall} (h : call ∈ (p.answerBody cfg state_ mime body).calls) :
    (∃ m, call = .send m) ∨ call = .shutdown ∨ call = .forceClose := by
  cases body with
  | empty => simp_all [answerBody]
  | missing => simp_all [answerBody]
  | streamed body size =>
      simp only [answerBody, respond, List.mem_singleton] at h
      exact Or.inl ⟨_, h⟩
  | cached body size =>
      simp only [answerBody, respond, List.mem_cons] at h
      rcases h with hsend | hshut
      · exact Or.inl ⟨_, hsend⟩
      · split at hshut
        · exact Or.inr (Or.inl (List.mem_singleton.1 hshut))
        · cases hshut

def responseRequest (p : Parser) (cfg : Config) (v : Visit) (g_file mime : Bytes) :
    Except Fault Served := do
  let (redis, calls, body) ← p.toRedisState.fetch cfg v.env g_file
  let p₁ := { p with toRedisState := redis }
  let served := p₁.answerBody cfg v.state_ mime body
  return { served with calls := calls ++ served.calls }

/-- `paramMap_[key] = value`, for each assignment in turn. -/
def assign (p : Parser) (assigned : List (Bytes × Bytes)) : Parser :=
  { p with paramMap_ := assigned.foldl (fun m kv => Function.update m kv.1 kv.2) p.paramMap_ }

/-- `setContextkv("file", path)`, when the request gets so far. -/
def setFile (s : Scan) : List ParserCall :=
  s.file.toList.map (ParserCall.setContextkv (Bytes.ofString "file"))

def parserRequest (p : Parser) (cfg : Config) (v : Visit) : Except Fault Served := do
  let s ← scan cfg v.env.stat v.request
  let p₁ := p.assign s.assigned
  match s.verdict with
  | .page page =>
      let served := p₁.answerPage v.state_ page
      return { served with calls := setFile s ++ served.calls }
  | .serve path mime =>
      let flag := ParserCall.setContextkv (Bytes.ofString "connectionFlag")
        (p₁.paramMap_ (Bytes.ofString "Connection"))
      -- the flag is stored before the response is built
      let served ← p₁.responseRequest cfg v path mime
      return { served with calls := setFile s ++ flag :: served.calls }

section Spec

variable {p : Parser} {cfg : Config} {v : Visit} {s : Scan}

@[simp] theorem paramMap_respond (p : Parser) (state_ : StateE) (response : Bytes) :
    (p.respond state_ response).1.paramMap_ = p.paramMap_ := by
  unfold respond sendResponse
  dsimp only
  split <;> rfl

@[simp] theorem toRedisState_respond (p : Parser) (state_ : StateE) (response : Bytes) :
    (p.respond state_ response).1.toRedisState = p.toRedisState := by
  unfold respond sendResponse
  dsimp only
  split <;> rfl

theorem toRedisState_answerBody (p : Parser) (cfg : Config) (state_ : StateE) (mime : Bytes)
    (body : Body) : (p.answerBody cfg state_ mime body).parser.toRedisState = p.toRedisState := by
  cases body with
  | empty => rfl
  | missing => rfl
  | streamed body size => exact toRedisState_respond _ _ _
  | cached body size => exact toRedisState_respond _ _ _

/-- What a request does to the connection is done before there is a body. -/
theorem responseRequest_fetch {g_file mime : Bytes} {served : Served}
    (h : p.responseRequest cfg v g_file mime = .ok served) : ∃ redis calls vip,
    p.toRedisState.fetchVip cfg v.env g_file = .ok (redis, calls, vip) ∧
      served.parser.toRedisState = redis ∧
      (.retryInLoop ∈ served.calls ↔ .retryInLoop ∈ calls) := by
  rcases bind_eq_ok h with ⟨⟨redis, calls', body⟩, hfetch, hserved⟩
  cases hserved
  rcases bind_eq_ok hfetch with ⟨⟨redis₁, calls, vip⟩, hvip, hbody⟩
  have hanswer : .retryInLoop ∉ ({ p with toRedisState := redis }.answerBody cfg v.state_ mime
      body).calls := by
    intro hcall
    rcases answerBody_calls hcall with ⟨m, heq⟩ | heq | heq <;> cases heq
  have hopen : .retryInLoop ∉ (openFile v.env g_file).1 := by
    unfold openFile
    split <;> simp
  refine ⟨redis₁, calls, vip, hvip, ?_⟩
  cases vip with
  | some found =>
      simp only [pure, Except.pure, Except.ok.injEq, Prod.mk.injEq] at hbody
      obtain ⟨rfl, rfl, rfl⟩ := hbody
      refine ⟨toRedisState_answerBody _ _ _ _ _, ?_⟩
      simp only [List.mem_append, hanswer, or_false]
  | none =>
      simp only [pure, Except.pure, Except.ok.injEq, Prod.mk.injEq] at hbody
      obtain ⟨rfl, rfl, rfl⟩ := hbody
      refine ⟨toRedisState_answerBody _ _ _ _ _, ?_⟩
      simp only [List.mem_append, hanswer, hopen, or_false]

theorem parserRequest_page {page : Page} (hscan : scan cfg v.env.stat v.request = .ok s)
    (hpage : s.verdict = .page page) :
    p.parserRequest cfg v = .ok
      { (p.assign s.assigned).answerPage v.state_ page with
        calls := setFile s ++ ((p.assign s.assigned).answerPage v.state_ page).calls } := by
  rw [parserRequest, hscan]
  simp only [bind, Except.bind, hpage]
  rfl

theorem parserRequest_serve {path mime : Bytes} (hscan : scan cfg v.env.stat v.request = .ok s)
    (hserve : s.verdict = .serve path mime) :
    p.parserRequest cfg v = do
      let (redis, calls, body) ← p.toRedisState.fetch cfg v.env path
      let served :=
        { p.assign s.assigned with toRedisState := redis }.answerBody cfg v.state_ mime body
      return { served with
        calls := setFile s ++ .setContextkv (Bytes.ofString "connectionFlag")
          ((p.assign s.assigned).paramMap_ (Bytes.ofString "Connection")) ::
            (calls ++ served.calls) } := by
  rw [parserRequest, hscan]
  simp only [bind, Except.bind, hserve, responseRequest]
  have hredis : (p.assign s.assigned).toRedisState = p.toRedisState := rfl
  rw [hredis]
  cases p.toRedisState.fetch cfg v.env path with
  | error e => rfl
  | ok r => rfl

end Spec

/-! ## Redis -/

/-- `connectRedis`, with the answer of `Connect`. -/
def connectRedis (p : Parser) (connected : Bool) : Parser × List ParserCall :=
  if !p.isRedisConnectWell_ then
    let p₁ := { p with isRedisConnectWell_ := connected }
    if connected && !p.g_zlib then ({ p₁ with g_zlib := true }, []) else (p₁, [.retryInLoop])
  else (p, [])

/-! ## Runs of one worker -/

/-- What happens to a parser after its construction. -/
inductive Event where
  | request (v : Visit)
  | connectRedis (connected : Bool)

def handle (cfg : Config) (p : Parser) : Event → Except Fault Parser
  | .request v => do
      let served ← p.parserRequest cfg v
      return served.parser
  | .connectRedis connected => .ok (p.connectRedis connected).1

/-- The parser after a history that meets no fault. -/
def handleAll (cfg : Config) (p : Parser) (history : List Event) : Except Fault Parser :=
  history.foldlM (handle cfg) p

end Parser
end Web
end Longky
