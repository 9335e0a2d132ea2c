import Longky.Lib.Reach
import Longky.Web.StaticConn

/-!
# RedisCache — the bodies of one VIP file

The requests for one file of `g_redis_vip` whose contents do not change, served one after another by
the workers, with the file's value in Redis and its entry of `g_zlibMap`.  A request runs
`Parser::responseRequest`, and `writeComplete` streams what is left of a file in the context.

The value of a file that `Compress` cannot handle is put into Redis from a buffer nobody has written,
as many bytes as the file has.  `transparent_iff` says for which files every response carries the
contents all the same, as long as no zlib stream happens to lie in that buffer.
-/

namespace Longky
namespace Web

open Lib Net

/-! ## zlib -/

/-- `compress`, and `UnCompress` into a destination of that many bytes. -/
structure Zlib where
  compress : Bytes → Bytes
  uncompress : Bytes → Nat → Option Bytes

/-- `compress` makes these bytes of nothing. -/
def Zlib.Foreign (zlib : Zlib) (s : Bytes) : Prop := ∀ plain, zlib.compress plain ≠ s

/-- What the parser relies on. -/
structure Zlib.Correct (zlib : Zlib) : Prop where
  inverts : ∀ plain ≠ [], zlib.uncompress (zlib.compress plain) plain.length = some plain
  rejects : ∀ s, zlib.Foreign s → ∀ n, zlib.uncompress s n = none
  /-- The first byte of a stream names the method and the window. -/
  header : ∀ plain, (zlib.compress plain).head? = some 0x78

namespace Zlib.Correct

variable {zlib : Zlib}

/-- Zeros are no stream. -/
theorem foreign_zeros (h : zlib.Correct) (n : Nat) : zlib.Foreign (List.replicate n 0) := by
  intro plain heq
  have hhead := h.header plain
  rw [heq] at hhead
  cases n with
  | zero => cases hhead
  | succ n => cases hhead

end Zlib.Correct

/-! ## The file and its cache -/

/-- A VIP file with fixed contents. -/
structure VipFile where
  cfg : Config
  zlib : Zlib
  g_file : Bytes
  contents : Bytes
  vip : g_file ∈ cfg.g_redis_vip

namespace VipFile

/-- What `Compress` leaves in its destination, if it succeeds. -/
def packed (file : VipFile) : Option Bytes :=
  if file.contents = [] then none
  else if (file.zlib.compress file.contents).length ≤ MAXBUFFERSIZE then
    some (file.zlib.compress file.contents)
  else none

/-- How many bytes of the destination are put into Redis. -/
def setLength (file : VipFile) : Nat := (file.packed.map List.length).getD file.contents.length

end VipFile

/-- The shared state, and each worker's side of its Redis connection. -/
structure Cache (W : Type) where
  /-- The value in Redis under the digest of the file. -/
  redis : Option Bytes
  /-- `g_zlibMap[md5]`. -/
  g_zlibMap : Int
  workers : W → RedisState

/-- A request for the file, with what its parser holds and how Redis behaves. -/
structure VipRequest where
  request : Bytes
  mime : Bytes
  state_ : StateE
  response_ : WfBuffer
  paramMap_ : Bytes → Bytes
  exeGETThrows : Bool
  exeSETThrows : Bool
  /-- Redis keeps the value. -/
  stored : Bool
  /-- What is in `comPressString` before `Compress` writes into it. -/
  memory : Nat → UInt8

/-- The first bytes of a destination that `Compress` has not written. -/
def VipRequest.unwritten (q : VipRequest) (n : Nat) : Bytes := (List.range n).map q.memory

inductive CacheAction (W : Type) where
  | request (w : W) (q : VipRequest)
  /-- Redis drops the value. -/
  | evict
  | connectRedis (w : W) (connected : Bool)
  /-- The server starts anew, with or without the size in its configuration file. -/
  | restart (recorded : Bool) (connected : W → Bool)

namespace Cache

variable {W : Type}

/-- What a request finds. -/
def environment (c : Cache W) (file : VipFile) (q : VipRequest) : Environment where
  stat _ := none
  fopenVip _ := some file.contents
  fopen _ := some file.contents
  exeGET _ := if q.exeGETThrows then none else some (c.redis.getD [])
  exeSETThrows := q.exeSETThrows
  compress := file.zlib.compress
  uncompress := file.zlib.uncompress
  g_zlibMap _ := c.g_zlibMap

/-- `responseRequest` for the file, on worker `w`. -/
def respond (c : Cache W) (file : VipFile) (w : W) (q : VipRequest) : Except Fault Served :=
  let p : Parser :=
    { toRedisState := c.workers w, response_ := q.response_, paramMap_ := q.paramMap_ }
  p.responseRequest file.cfg
    { request := q.request, env := c.environment file q, state_ := q.state_ } file.g_file q.mime

/-- What a call of the parser does to the shared state. -/
def apply (q : VipRequest) (c : Cache W) : ParserCall → Cache W
  | .recordSize _ size => { c with g_zlibMap := size }
  | .exeSET _ value length =>
      if q.stored then { c with redis := some (value.getD (q.unwritten length)) } else c
  | _ => c

variable [DecidableEq W]

def next (file : VipFile) (c : Cache W) : CacheAction W → Except Fault (Cache W)
  | .request w q => do
      let served ← c.respond file w q
      let c₁ := served.calls.foldl (apply q) c
      return { c₁ with workers := Function.update c.workers w served.parser.toRedisState }
  | .evict => .ok { c with redis := none }
  | .connectRedis w connected =>
      let p : Parser := { toRedisState := c.workers w }
      .ok { c with
        workers := Function.update c.workers w (p.connectRedis connected).1.toRedisState }
  | .restart recorded connected =>
      .ok { c with
        g_zlibMap := if recorded then c.g_zlibMap else 0
        workers := fun w => (Parser.construct (connected w)).toRedisState }

/-- When `Compress` fails, there is no stream in the bytes that it has not written. -/
def enabled (file : VipFile) : CacheAction W → Prop
  | .request _ q =>
      file.packed = none → file.zlib.Foreign (q.unwritten file.contents.length)
  | _ => True

/-- The first start of the server. -/
def fresh (connected : W → Bool) : Cache W where
  redis := none
  g_zlibMap := 0
  workers w := (Parser.construct (connected w)).toRedisState

def runs (file : VipFile) : System (Cache W) (CacheAction W) where
  init c := ∃ connected, c = fresh connected
  step c a c' := enabled file a ∧ c.next file a = .ok c'

end Cache

/-! ## Transparency -/

/-- The body of a response: what follows the head, and what `writeComplete` sends if it is still the
callback. -/
def responseBody (file : VipFile) (served : Served) : Option Bytes :=
  served.head.map fun head =>
    served.response.drop head.length ++
      if .setContextfp file.g_file ∈ served.calls ∧ .cancelWriteComplete ∉ served.calls then
        StaticConn.streamRest (file.contents.drop kBufSize)
      else []

/-- Whatever the cache has been through, a request is served, and the body of the response is the
file. -/
def Transparent (W : Type) [DecidableEq W] (file : VipFile) : Prop :=
  ∀ c : Cache W, (Cache.runs file).Reachable c → ∀ w q, ∃ served,
    c.respond file w q = .ok served ∧ ∀ body, responseBody file served = some body →
      body = file.contents

/-- The size fits an `int`.  The destination has room for the compressed contents; if nothing can be
compressed, it has as many bytes as the file, which is sent in one part. -/
def Cacheable (file : VipFile) : Prop :=
  file.contents.length < 2 ^ 31 ∧
    if file.contents ≠ [] ∧ (file.zlib.compress file.contents).length ≤ MAXBUFFERSIZE then
      (file.zlib.compress file.contents).length ≤ file.cfg.comPressStringSize file.contents.length
    else
      file.contents.length ≤ file.cfg.comPressStringSize file.contents.length ∧
        file.contents.length ≤ kBufSize

instance (file : VipFile) : Decidable (Cacheable file) :=
  inferInstanceAs (Decidable (file.contents.length < 2 ^ 31 ∧
    if file.contents ≠ [] ∧ (file.zlib.compress file.contents).length ≤ MAXBUFFERSIZE then
      (file.zlib.compress file.contents).length ≤ file.cfg.comPressStringSize file.contents.length
    else
      file.contents.length ≤ file.cfg.comPressStringSize file.contents.length ∧
        file.contents.length ≤ kBufSize))

theorem toInt_of_lt {n : Nat} (h : n < 2 ^ 31) : toInt n = n := by
  unfold toInt
  rw [Int.bmod_eq_of_le] <;> omega

namespace VipFile

/-- What the cache fill does to its surroundings. -/
def fillCalls (file : VipFile) (md5 : Bytes) : List ParserCall :=
  [.recordSize md5 file.contents.length, .cancelWriteComplete,
    .exeSET md5 file.packed file.setLength]

variable {file : VipFile} {s : Bytes}

theorem packed_eq_some (h : file.packed = some s) :
    file.contents ≠ [] ∧ s = file.zlib.compress file.contents ∧ s.length ≤ MAXBUFFERSIZE := by
  unfold packed at h
  split at h
  · cases h
  · rename_i hne
    split at h
    · rename_i hmax
      cases h
      exact ⟨hne, rfl, hmax⟩
    · cases h

theorem packed_eq_none (h : file.packed = none) :
    ¬ (file.contents ≠ [] ∧ (file.zlib.compress file.contents).length ≤ MAXBUFFERSIZE) := by
  rintro ⟨hne, hmax⟩
  unfold packed at h
  rw [if_neg hne, if_pos hmax] at h
  cases h

end VipFile

/-- What is copied and read fits, and a file without a stream has one part. -/
theorem cacheable_iff {file : VipFile} :
    Cacheable file ↔ file.contents.length < 2 ^ 31 ∧
      file.setLength ≤ file.cfg.comPressStringSize file.contents.length ∧
      (file.packed = none → file.contents.length ≤ kBufSize) := by
  unfold Cacheable VipFile.setLength
  refine and_congr_right fun _ => ?_
  cases hpacked : file.packed with
  | some s =>
      obtain ⟨hne, rfl, hmax⟩ := VipFile.packed_eq_some hpacked
      rw [if_pos ⟨hne, hmax⟩]
      simp
  | none =>
      rw [if_neg (VipFile.packed_eq_none hpacked)]
      simp

/-! ## One request -/

section Fetch

variable {W : Type} {c : Cache W} {file : VipFile} {redis : RedisState} {q : VipRequest}

theorem compress_eq (hzlib : redis.g_zlib = true) :
    redis.compress (c.environment file q) file.contents = .ok file.packed := by
  unfold RedisState.compress VipFile.packed
  rw [hzlib]
  by_cases hne : file.contents = []
  · simp [hne]
  · by_cases hmax : (file.zlib.compress file.contents).length ≤ MAXBUFFERSIZE
    · simp [hne, hmax, Cache.environment]
    · simp [hne, hmax, Cache.environment]

/-- Redis is not asked, or the question throws: the file is streamed. -/
theorem fetch_reConn (h : redis.isRedisConnectWell_ = false ∨ q.exeGETThrows = true) :
    redis.fetch file.cfg (c.environment file q) file.g_file =
      .ok (redis.reConn, .retryInLoop :: (openFile (c.environment file q) file.g_file).1,
        (openFile (c.environment file q) file.g_file).2) := by
  have hvip : redis.fetchVip file.cfg (c.environment file q) file.g_file =
      .ok (redis.reConn, [.retryInLoop], none) := by
    unfold RedisState.fetchVip
    by_cases hwell : redis.isRedisConnectWell_ = false
    · simp [file.vip, hwell]
    · have hthrows := h.resolve_left hwell
      simp [file.vip, hwell, hthrows, Cache.environment]
  rw [RedisState.fetch, hvip]
  rfl

theorem fillCache_eq (hzlib : redis.g_zlib = true) (hlt : file.contents.length < 2 ^ 31)
    (md5 : Bytes) :
    redis.fillCache file.cfg (c.environment file q) file.g_file md5 =
      if file.cfg.comPressStringSize file.contents.length < 0 then .error .lengthError
      else if file.setLength ≤ file.cfg.comPressStringSize file.contents.length then
        if q.exeSETThrows then
          .ok (redis.reConn, file.fillCalls md5 ++ [.retryInLoop], file.contents,
            file.contents.length)
        else .ok (redis, file.fillCalls md5, file.contents, file.contents.length)
      else .error (if file.packed.isSome then .overflow else .outOfBounds) := by
  have hopen : (c.environment file q).fopenVip file.g_file = some file.contents := rfl
  have hsize : ¬ ((file.contents.length : Int) < 0) := by omega
  unfold RedisState.fillCache
  simp only [hopen, toInt_of_lt hlt, hsize, false_or, Int.toNat_natCast, List.take_length,
    compress_eq hzlib]
  rfl

/-- The destination that is large enough is one. -/
theorem fillCache_fits (hzlib : redis.g_zlib = true) (hlt : file.contents.length < 2 ^ 31)
    (hfits : file.setLength ≤ file.cfg.comPressStringSize file.contents.length) (md5 : Bytes) :
    redis.fillCache file.cfg (c.environment file q) file.g_file md5 =
      if q.exeSETThrows then
        .ok (redis.reConn, file.fillCalls md5 ++ [.retryInLoop], file.contents,
          file.contents.length)
      else .ok (redis, file.fillCalls md5, file.contents, file.contents.length) := by
  rw [fillCache_eq hzlib hlt, if_neg (by omega), if_pos hfits]

theorem fetch_miss (hwell : redis.isRedisConnectWell_ = true) (hthrows : q.exeGETThrows = false)
    (hmiss : c.redis.getD [] = [] ∨ c.g_zlibMap = 0) :
    redis.fetch file.cfg (c.environment file q) file.g_file = do
      let (redis₁, calls, body, size) ← redis.fillCache file.cfg (c.environment file q) file.g_file
        (file.cfg.urlTomd5 file.g_file)
      return (redis₁, calls, .cached body size) := by
  unfold RedisState.fetch RedisState.fetchVip
  simp only [file.vip, not_true, if_false, hwell, Bool.not_true, Bool.false_eq_true,
    Cache.environment, hthrows, if_pos hmiss]
  cases redis.fillCache file.cfg _ file.g_file (file.cfg.urlTomd5 file.g_file) with
  | error e => rfl
  | ok r => rfl

/-- A value that is unpacked, with its recorded size. -/
theorem fetch_hit (hwell : redis.isRedisConnectWell_ = true) (hthrows : q.exeGETThrows = false)
    (hs : c.redis.getD [] ≠ []) (hsize : 0 < c.g_zlibMap) {body : Bytes}
    (hbody : file.zlib.uncompress (c.redis.getD []) c.g_zlibMap.toNat = some body) :
    redis.fetch file.cfg (c.environment file q) file.g_file =
      .ok (redis, [.cancelWriteComplete], .cached body c.g_zlibMap) := by
  have hvip : redis.fetchVip file.cfg (c.environment file q) file.g_file =
      .ok (redis, [.cancelWriteComplete], some (body, c.g_zlibMap)) := by
    have hne : c.g_zlibMap ≠ 0 := by omega
    have hpos : ¬ c.g_zlibMap < 0 := by omega
    unfold RedisState.fetchVip
    simp [file.vip, hwell, hthrows, Cache.environment, hs, hne, hpos, hbody]
  rw [RedisState.fetch, hvip]
  rfl

/-- A value that cannot be unpacked: the file is streamed, but the callback is gone. -/
theorem fetch_corrupt (hwell : redis.isRedisConnectWell_ = true)
    (hthrows : q.exeGETThrows = false) (hs : c.redis.getD [] ≠ []) (hsize : 0 < c.g_zlibMap)
    (hbody : file.zlib.uncompress (c.redis.getD []) c.g_zlibMap.toNat = none) :
    redis.fetch file.cfg (c.environment file q) file.g_file =
      .ok ({ redis with isRedisConnectWell_ := false },
        .cancelWriteComplete :: (openFile (c.environment file q) file.g_file).1,
        (openFile (c.environment file q) file.g_file).2) := by
  have hvip : redis.fetchVip file.cfg (c.environment file q) file.g_file =
      .ok ({ redis with isRedisConnectWell_ := false }, [.cancelWriteComplete], none) := by
    have hne : c.g_zlibMap ≠ 0 := by omega
    have hpos : ¬ c.g_zlibMap < 0 := by omega
    unfold RedisState.fetchVip
    simp [file.vip, hwell, hthrows, Cache.environment, hs, hne, hpos, hbody]
  rw [RedisState.fetch, hvip]
  rfl

end Fetch

/-! ## The body -/

/-- The body and the calls in front of it make the file. -/
inductive Delivers (file : VipFile) (calls : List ParserCall) : Body → Prop
  | empty : Delivers file calls .empty
  | cached (size : Int) (closed : .setContextfp file.g_file ∉ calls) :
      Delivers file calls (.cached file.contents size)
  | streamed (size : Int) (opened : .setContextfp file.g_file ∈ calls)
      (callback : .cancelWriteComplete ∉ calls ∨ file.contents.length ≤ kBufSize) :
      Delivers file calls (.streamed (file.contents.take kBufSize) size)

/-- Opening the file delivers it, unless the callback is missing for its other parts. -/
theorem delivers_openFile {W : Type} (c : Cache W) (file : VipFile) (q : VipRequest)
    (calls : List ParserCall)
    (h : .cancelWriteComplete ∉ calls ∨ file.contents.length ≤ kBufSize) :
    Delivers file (calls ++ (openFile (c.environment file q) file.g_file).1)
      (openFile (c.environment file q) file.g_file).2 := by
  have hopen : (c.environment file q).fopen file.g_file = some file.contents := rfl
  unfold openFile
  rw [hopen]
  cases hcontents : file.contents with
  | nil => exact .empty
  | cons b bs =>
      dsimp only
      rw [← hcontents]
      refine .streamed _ (by simp) ?_
      simpa using h

/-- The body of a response whose head and first bytes are known. -/
theorem responseBody_eq {file : VipFile} {served : Served} {head first : Bytes}
    (hhead : served.head = some head) (hresponse : served.response = head ++ first) :
    responseBody file served = some (first ++
      if .setContextfp file.g_file ∈ served.calls ∧ .cancelWriteComplete ∉ served.calls then
        file.contents.drop kBufSize
      else []) := by
  unfold responseBody
  rw [hhead, hresponse]
  simp only [Option.map_some, List.drop_left, StaticConn.streamRest_eq]

section Answer

variable {file : VipFile} {p : Parser} {state_ : StateE} {mime : Bytes} {calls : List ParserCall}

/-- The calls that matter for the rest of the file are those in front of the answer. -/
theorem streams_iff (body : Body) :
    (.setContextfp file.g_file ∈ calls ++ (p.answerBody file.cfg state_ mime body).calls ∧
      .cancelWriteComplete ∉ calls ++ (p.answerBody file.cfg state_ mime body).calls) ↔
    .setContextfp file.g_file ∈ calls ∧ .cancelWriteComplete ∉ calls := by
  have hfp : .setContextfp file.g_file ∉ (p.answerBody file.cfg state_ mime body).calls := by
    intro h
    rcases Parser.answerBody_calls h with ⟨m, heq⟩ | heq | heq <;> cases heq
  have hcancel : .cancelWriteComplete ∉ (p.answerBody file.cfg state_ mime body).calls := by
    intro h
    rcases Parser.answerBody_calls h with ⟨m, heq⟩ | heq | heq <;> cases heq
  simp [List.mem_append, hfp, hcancel]

theorem responseBody_cached (body : Bytes) (size : Int) :
    responseBody file { p.answerBody file.cfg state_ mime (.cached body size) with
      calls := calls ++ (p.answerBody file.cfg state_ mime (.cached body size)).calls } =
    some (body ++ if .setContextfp file.g_file ∈ calls ∧ .cancelWriteComplete ∉ calls then
      file.contents.drop kBufSize else []) := by
  rw [responseBody_eq rfl rfl]
  simp only [streams_iff]

theorem responseBody_streamed (body : Bytes) (size : Int) :
    responseBody file { p.answerBody file.cfg state_ mime (.streamed body size) with
      calls := calls ++ (p.answerBody file.cfg state_ mime (.streamed body size)).calls } =
    some (body ++ if .setContextfp file.g_file ∈ calls ∧ .cancelWriteComplete ∉ calls then
      file.contents.drop kBufSize else []) := by
  rw [responseBody_eq rfl rfl]
  simp only [streams_iff]

theorem body_eq_of_delivers {body : Body} (h : Delivers file calls body) {b : Bytes}
    (hb : responseBody file { p.answerBody file.cfg state_ mime body with
      calls := calls ++ (p.answerBody file.cfg state_ mime body).calls } = some b) :
    b = file.contents := by
  cases h with
  | empty => cases hb
  | cached size hclosed =>
      rw [responseBody_cached, if_neg (fun h => hclosed h.1), List.append_nil] at hb
      cases hb
      rfl
  | streamed size hopened hcallback =>
      rw [responseBody_streamed] at hb
      cases hb
      by_cases hcancel : .cancelWriteComplete ∈ calls
      · have hlen := hcallback.resolve_left (fun h => h hcancel)
        rw [if_neg (fun h => h.2 hcancel), List.append_nil, List.take_of_length_le hlen]
      · rw [if_pos ⟨hopened, hcancel⟩, List.take_append_drop]

end Answer

/-! ## One step of the cache -/

namespace Cache

variable {W : Type} {file : VipFile} {c : Cache W} {w : W} {q : VipRequest} {redis : RedisState}
  {calls : List ParserCall} {body : Body}

theorem respond_of_fetch
    (h : (c.workers w).fetch file.cfg (c.environment file q) file.g_file =
      .ok (redis, calls, body)) :
    ∃ p : Parser, p.toRedisState = redis ∧ c.respond file w q =
      .ok { p.answerBody file.cfg q.state_ q.mime body with
        calls := calls ++ (p.answerBody file.cfg q.state_ q.mime body).calls } := by
  refine ⟨{ toRedisState := redis, response_ := q.response_, paramMap_ := q.paramMap_ }, rfl, ?_⟩
  unfold respond Parser.responseRequest
  dsimp only
  rw [h]
  rfl

theorem respond_of_fetch_error {e : Fault}
    (h : (c.workers w).fetch file.cfg (c.environment file q) file.g_file = .error e) :
    c.respond file w q = .error e := by
  unfold respond Parser.responseRequest
  dsimp only
  rw [h]
  rfl

/-- The answer leaves the shared state alone. -/
theorem foldl_apply_answer (q : VipRequest) (p : Parser) (body : Body) (c : Cache W) :
    (calls ++ (p.answerBody file.cfg q.state_ q.mime body).calls).foldl (apply q) c =
      calls.foldl (apply q) c := by
  have hinert : ∀ (l : List ParserCall) (c : Cache W),
      (∀ call ∈ l, (∃ m, call = .send m) ∨ call = .shutdown ∨ call = .forceClose) →
        l.foldl (apply q) c = c := by
    intro l c hl
    induction l with
    | nil => rfl
    | cons call l ih =>
        have hcall : apply q c call = c := by
          rcases hl call List.mem_cons_self with ⟨m, rfl⟩ | rfl | rfl <;> rfl
        rw [List.foldl_cons, hcall]
        exact ih fun call' hcall' => hl call' (List.mem_cons_of_mem _ hcall')
  rw [List.foldl_append]
  exact hinert _ _ fun call hcall => Parser.answerBody_calls hcall

/-- `g_zlib` is there while the connection is well, the recorded size is the file's, and the value is
what `Compress` made of the file, or unwritten bytes if it could not. -/
structure Inv (file : VipFile) (c : Cache W) : Prop where
  zlib : ∀ w, (c.workers w).isRedisConnectWell_ = true → (c.workers w).g_zlib = true
  size : c.g_zlibMap = 0 ∨ c.g_zlibMap = file.contents.length
  value : ∀ s, c.redis = some s → file.packed = some s ∨ file.packed = none ∧ file.zlib.Foreign s

theorem inv_fresh (file : VipFile) (connected : W → Bool) : Inv file (fresh connected) where
  zlib := fun _ h => h
  size := Or.inl rfl
  value := fun _ h => by cases h

/-- What a request does: the body is the file, and the cache is left alone or filled. -/
structure Request (file : VipFile) (c : Cache W) (q : VipRequest) (redis : RedisState)
    (calls : List ParserCall) (body : Body) : Prop where
  zlib : redis.isRedisConnectWell_ = true → redis.g_zlib = true
  delivers : Delivers file calls body
  effect : calls.foldl (apply q) c = c ∨
    (calls.foldl (apply q) c).g_zlibMap = file.contents.length ∧
      ((calls.foldl (apply q) c).redis = c.redis ∨
        (calls.foldl (apply q) c).redis =
          some (file.packed.getD (q.unwritten file.contents.length)))

theorem foldl_apply_openFile (c : Cache W) (q : VipRequest) (env : Environment) (g_file : Bytes) :
    (openFile env g_file).1.foldl (apply q) c = c := by
  unfold openFile
  split <;> rfl

theorem request_reConn
    (h : (c.workers w).isRedisConnectWell_ = false ∨ q.exeGETThrows = true) :
    ∃ redis calls body, (c.workers w).fetch file.cfg (c.environment file q) file.g_file =
      .ok (redis, calls, body) ∧ Request file c q redis calls body := by
  refine ⟨_, _, _, fetch_reConn h, ?_, ?_, ?_⟩
  · intro hwell
    cases hwell
  · exact delivers_openFile c file q [.retryInLoop] (Or.inl (by simp))
  · exact Or.inl (foldl_apply_openFile c q _ _)

/-- The length only matters without a stream. -/
theorem getD_unwritten (file : VipFile) (q : VipRequest) :
    file.packed.getD (q.unwritten file.setLength) =
      file.packed.getD (q.unwritten file.contents.length) := by
  unfold VipFile.setLength
  cases file.packed <;> rfl

theorem fillCalls_effect (file : VipFile) (c : Cache W) (q : VipRequest) (md5 : Bytes) :
    ((file.fillCalls md5).foldl (apply q) c).g_zlibMap = file.contents.length ∧
      (((file.fillCalls md5).foldl (apply q) c).redis = c.redis ∨
        ((file.fillCalls md5).foldl (apply q) c).redis =
          some (file.packed.getD (q.unwritten file.contents.length))) := by
  cases hstored : q.stored with
  | true => simp [VipFile.fillCalls, apply, hstored, getD_unwritten]
  | false => simp [VipFile.fillCalls, apply, hstored]

theorem request_miss (hinv : Inv file c) (hcache : Cacheable file)
    (hwell : (c.workers w).isRedisConnectWell_ = true) (hthrows : q.exeGETThrows = false)
    (hmiss : c.redis.getD [] = [] ∨ c.g_zlibMap = 0) :
    ∃ redis calls body, (c.workers w).fetch file.cfg (c.environment file q) file.g_file =
      .ok (redis, calls, body) ∧ Request file c q redis calls body := by
  obtain ⟨hlt, hfits, -⟩ := cacheable_iff.1 hcache
  have hfill := fillCache_fits (c := c) (q := q) (hinv.zlib w hwell) hlt hfits
    (file.cfg.urlTomd5 file.g_file)
  rw [fetch_miss hwell hthrows hmiss, hfill]
  have hclosed : .setContextfp file.g_file ∉ file.fillCalls (file.cfg.urlTomd5 file.g_file) := by
    simp [VipFile.fillCalls]
  have heffect := fillCalls_effect file c q (file.cfg.urlTomd5 file.g_file)
  cases hset : q.exeSETThrows with
  | true =>
      refine ⟨_, _, _, rfl, ?_, .cached _ ?_, Or.inr ?_⟩
      · intro hreConn
        cases hreConn
      · simp [hclosed]
      · rw [List.foldl_append]
        exact heffect
  | false => exact ⟨_, _, _, rfl, hinv.zlib w, .cached _ hclosed, Or.inr heffect⟩

theorem request_cached (hzlib : file.zlib.Correct) (hinv : Inv file c) (hcache : Cacheable file)
    (hwell : (c.workers w).isRedisConnectWell_ = true) (hthrows : q.exeGETThrows = false)
    (hs : c.redis.getD [] ≠ []) (hsize : c.g_zlibMap ≠ 0) :
    ∃ redis calls body, (c.workers w).fetch file.cfg (c.environment file q) file.g_file =
      .ok (redis, calls, body) ∧ Request file c q redis calls body := by
  have hmap := hinv.size.resolve_left hsize
  have hpos : 0 < c.g_zlibMap := by omega
  cases hredis : c.redis with
  | none =>
      rw [hredis] at hs
      exact absurd rfl hs
  | some s =>
      rcases hinv.value s hredis with hpacked | ⟨hpacked, hforeign⟩
      · obtain ⟨hne, rfl, -⟩ := VipFile.packed_eq_some hpacked
        have hbody : file.zlib.uncompress (c.redis.getD []) c.g_zlibMap.toNat =
            some file.contents := by
          rw [hredis, hmap]
          exact hzlib.inverts _ hne
        refine ⟨_, _, _, fetch_hit hwell hthrows hs hpos hbody, hinv.zlib w, ?_, Or.inl rfl⟩
        exact .cached _ (by simp)
      · -- only a file of one part meets a value that cannot be unpacked
        have hbody : file.zlib.uncompress (c.redis.getD []) c.g_zlibMap.toNat = none := by
          rw [hredis]
          exact hzlib.rejects s hforeign _
        refine ⟨_, _, _, fetch_corrupt hwell hthrows hs hpos hbody, ?_, ?_, Or.inl ?_⟩
        · intro h
          cases h
        · exact delivers_openFile c file q [.cancelWriteComplete]
            (Or.inr ((cacheable_iff.1 hcache).2.2 hpacked))
        · exact foldl_apply_openFile c q _ _

theorem request_spec (hzlib : file.zlib.Correct) (hinv : Inv file c) (hcache : Cacheable file)
    (w : W) (q : VipRequest) :
    ∃ redis calls body, (c.workers w).fetch file.cfg (c.environment file q) file.g_file =
      .ok (redis, calls, body) ∧ Request file c q redis calls body := by
  by_cases hre : (c.workers w).isRedisConnectWell_ = false ∨ q.exeGETThrows = true
  · exact request_reConn hre
  · rw [not_or, Bool.not_eq_false, Bool.not_eq_true] at hre
    by_cases hmiss : c.redis.getD [] = [] ∨ c.g_zlibMap = 0
    · exact request_miss hinv hcache hre.1 hre.2 hmiss
    · rw [not_or] at hmiss
      exact request_cached hzlib hinv hcache hre.1 hre.2 hmiss.1 hmiss.2

/-- A request that Redis answers, and whose value it keeps. -/
def plainRequest : VipRequest where
  request := []
  mime := []
  state_ := .kConnected
  response_ := WfBuffer.construct Buffer.kInitialSize
  paramMap_ _ := []
  exeGETThrows := false
  exeSETThrows := false
  stored := true
  memory _ := 0

/-- The first request after a start with Redis. -/
theorem fetch_first (file : VipFile) (w : W) :
    ((fresh (W := W) fun _ => true).workers w).fetch file.cfg
        ((fresh (W := W) fun _ => true).environment file plainRequest) file.g_file = do
      let (redis₁, calls, body, size) ← ((fresh (W := W) fun _ => true).workers w).fillCache file.cfg
        ((fresh (W := W) fun _ => true).environment file plainRequest) file.g_file
        (file.cfg.urlTomd5 file.g_file)
      return (redis₁, calls, .cached body size) :=
  fetch_miss rfl rfl (Or.inl rfl)

/-- A body of the cache fill is shorter than the range of an `int`. -/
theorem fillCache_body {md5 : Bytes} {redis' : RedisState} {body : Bytes} {size : Int}
    (h : redis.fillCache file.cfg (c.environment file q) file.g_file md5 =
      .ok (redis', calls, body, size)) :
    body.length < 2 ^ 31 ∧ .setContextfp file.g_file ∉ calls := by
  have hshort : ∀ contents : Bytes,
      (contents.take (toInt contents.length).toNat).length < 2 ^ 31 := by
    intro contents
    have hbmod := Int.bmod_lt (x := (contents.length : Int)) (m := 2 ^ 32) (by omega)
    rw [List.length_take]
    unfold toInt
    omega
  cases RedisState.fillCache_filled h with
  | stored => exact ⟨hshort _, by simp [RedisState.fillCalls]⟩
  | throws => exact ⟨hshort _, by simp [RedisState.fillCalls]⟩

variable [DecidableEq W]

theorem next_request
    (h : (c.workers w).fetch file.cfg (c.environment file q) file.g_file =
      .ok (redis, calls, body)) :
    c.next file (.request w q) = .ok { calls.foldl (apply q) c with
      workers := Function.update c.workers w redis } := by
  rcases respond_of_fetch h with ⟨p, hp, hrespond⟩
  have hafter : (p.answerBody file.cfg q.state_ q.mime body).parser.toRedisState = redis := by
    rw [Parser.toRedisState_answerBody, hp]
  rw [next, hrespond]
  simp only [bind, Except.bind, pure, Except.pure, foldl_apply_answer, hafter]

/-- `g_zlib` is kept with a connection when one worker changes. -/
theorem zlib_update (hinv : Inv file c)
    (h : redis.isRedisConnectWell_ = true → redis.g_zlib = true) (w' : W)
    (hwell : (Function.update c.workers w redis w').isRedisConnectWell_ = true) :
    (Function.update c.workers w redis w').g_zlib = true := by
  by_cases heq : w' = w
  · subst heq
    rw [Function.update_self] at hwell ⊢
    exact h hwell
  · rw [Function.update_of_ne heq] at hwell ⊢
    exact hinv.zlib w' hwell

/-- A connection is made together with `g_zlib`. -/
theorem zlib_connectRedis {p : Parser} (h : p.isRedisConnectWell_ = true → p.g_zlib = true)
    (connected : Bool) (hwell : (p.connectRedis connected).1.isRedisConnectWell_ = true) :
    (p.connectRedis connected).1.g_zlib = true := by
  unfold Parser.connectRedis at hwell ⊢
  cases hp : p.isRedisConnectWell_ with
  | true => simp [hp, h]
  | false =>
      cases connected with
      | true => cases p.g_zlib <;> simp
      | false => simp [hp] at hwell

theorem Inv.of_request (hinv : Inv file c) (h : Request file c q redis calls body)
    (hforeign : enabled file (.request w q)) :
    Inv file { calls.foldl (apply q) c with workers := Function.update c.workers w redis } where
  zlib := zlib_update hinv h.zlib
  size := by
    rcases h.effect with heq | ⟨hsize, -⟩
    · rw [heq]
      exact hinv.size
    · exact Or.inr hsize
  value := by
    intro s hs
    rcases h.effect with heq | ⟨-, hsame | hset⟩
    · rw [heq] at hs
      exact hinv.value s hs
    · exact hinv.value s (hsame.symm.trans hs)
    · cases hpacked : file.packed with
      | some t =>
          rw [hpacked] at hset
          exact Or.inl (hset.symm.trans hs)
      | none =>
          rw [hpacked] at hset
          cases hset.symm.trans hs
          exact Or.inr ⟨rfl, hforeign hpacked⟩

theorem Inv.next (hzlib : file.zlib.Correct) (hcache : Cacheable file) (hinv : Inv file c)
    {a : CacheAction W} (ha : enabled file a) {c' : Cache W} (hstep : c.next file a = .ok c') :
    Inv file c' := by
  cases a with
  | request w q =>
      rcases request_spec hzlib hinv hcache w q with ⟨redis, calls, body, hfetch, hrequest⟩
      rw [next_request hfetch] at hstep
      cases hstep
      exact hinv.of_request hrequest ha
  | evict =>
      cases hstep
      exact ⟨hinv.zlib, hinv.size, fun _ hs => by cases hs⟩
  | connectRedis w connected =>
      cases hstep
      exact ⟨zlib_update hinv (zlib_connectRedis (hinv.zlib w) connected), hinv.size, hinv.value⟩
  | restart recorded connected =>
      cases hstep
      refine ⟨fun _ h => h, ?_, hinv.value⟩
      cases recorded with
      | true => exact hinv.size
      | false => exact Or.inl rfl

/-- In every run the invariant holds. -/
theorem inv_of_reachable (hzlib : file.zlib.Correct) (hcache : Cacheable file)
    (h : (runs file).Reachable c) : Inv file c := by
  refine h.invariant ?_ ?_
  · rintro c ⟨connected, rfl⟩
    exact inv_fresh file connected
  · rintro c a c' hinv ⟨ha, hstep⟩
    exact hinv.next hzlib hcache ha hstep

theorem transparent_of_cacheable (hzlib : file.zlib.Correct) (hcache : Cacheable file) :
    Transparent W file := by
  intro c hreach w q
  rcases request_spec hzlib (inv_of_reachable hzlib hcache hreach) hcache w q with
    ⟨redis, calls, body, hfetch, hrequest⟩
  rcases respond_of_fetch hfetch with ⟨p, -, hrespond⟩
  exact ⟨_, hrespond, fun b hb => body_eq_of_delivers hrequest.delivers hb⟩

/-! ## What goes wrong -/

theorem length_lt_of_transparent [Nonempty W] (h : Transparent W file) :
    file.contents.length < 2 ^ 31 := by
  rcases ‹Nonempty W› with ⟨w⟩
  rcases h (fresh fun _ => true) (.init ⟨_, rfl⟩) w plainRequest with ⟨served, hserved, hbody⟩
  have hfetch := fetch_first file w
  cases hfill : ((fresh (W := W) fun _ => true).workers w).fillCache file.cfg
      ((fresh (W := W) fun _ => true).environment file plainRequest) file.g_file
      (file.cfg.urlTomd5 file.g_file) with
  | error e =>
      rw [hfill] at hfetch
      rw [respond_of_fetch_error hfetch] at hserved
      cases hserved
  | ok r =>
      rcases r with ⟨redis, calls, body, size⟩
      rw [hfill] at hfetch
      rcases respond_of_fetch hfetch with ⟨p, -, hrespond⟩
      rcases fillCache_body hfill with ⟨hlt, hclosed⟩
      rw [hrespond] at hserved
      cases hserved
      have heq := hbody _ (responseBody_cached body size)
      rw [if_neg (fun h => hclosed h.1), List.append_nil] at heq
      rwa [heq] at hlt

/-- Otherwise the first request does not end. -/
theorem fits_of_transparent [Nonempty W] (h : Transparent W file) :
    file.setLength ≤ file.cfg.comPressStringSize file.contents.length := by
  rcases ‹Nonempty W› with ⟨w⟩
  by_contra hover
  rcases h (fresh fun _ => true) (.init ⟨_, rfl⟩) w plainRequest with ⟨served, hserved, -⟩
  have hfetch := fetch_first file w
  rw [fillCache_eq rfl (length_lt_of_transparent h), if_neg hover] at hfetch
  split at hfetch
  · rw [respond_of_fetch_error hfetch] at hserved
    cases hserved
  · rw [respond_of_fetch_error hfetch] at hserved
    cases hserved

/-- The cache after one request. -/
theorem reachable_filled [Nonempty W] (hzlib : file.zlib.Correct)
    (hlt : file.contents.length < 2 ^ 31)
    (hfits : file.setLength ≤ file.cfg.comPressStringSize file.contents.length) :
    ∃ c : Cache W, (runs file).Reachable c ∧
      c.redis = some (file.packed.getD (List.replicate file.contents.length 0)) ∧
      c.g_zlibMap = file.contents.length ∧ ∃ w, (c.workers w).isRedisConnectWell_ = true := by
  rcases ‹Nonempty W› with ⟨w⟩
  have hfetch : ((fresh (W := W) fun _ => true).workers w).fetch file.cfg
      ((fresh (W := W) fun _ => true).environment file plainRequest) file.g_file =
        .ok ((fresh (W := W) fun _ => true).workers w,
          file.fillCalls (file.cfg.urlTomd5 file.g_file),
          .cached file.contents file.contents.length) := by
    rw [fetch_first, fillCache_fits rfl hlt hfits]
    rfl
  have hzeros : plainRequest.unwritten file.contents.length =
      List.replicate file.contents.length 0 := by
    simp [VipRequest.unwritten, plainRequest]
  have henabled : enabled file (.request w plainRequest) := by
    intro _
    rw [hzeros]
    exact hzlib.foreign_zeros _
  refine ⟨_, .step (.init ⟨fun _ => true, rfl⟩) ⟨henabled, next_request hfetch⟩, ?_, ?_, w, ?_⟩
  · rw [← hzeros, ← getD_unwritten]
    rfl
  · exact (fillCalls_effect file _ _ _).1
  · simp only [Function.update_self]
    rfl

/-- The second request for a file that cannot be compressed streams it without the callback. -/
theorem one_part_of_transparent [Nonempty W] (hzlib : file.zlib.Correct) (h : Transparent W file)
    (hne : file.contents ≠ []) (hpacked : file.packed = none) :
    file.contents.length ≤ kBufSize := by
  have hpos := List.length_pos_iff.2 hne
  rcases reachable_filled (W := W) hzlib (length_lt_of_transparent h) (fits_of_transparent h) with
    ⟨c, hreach, hredis, hmap, w, hwell⟩
  rw [hpacked, Option.getD_none] at hredis
  have hvalue : c.redis.getD [] ≠ [] := by
    rw [hredis]
    simp [hne]
  have hbody : file.zlib.uncompress (c.redis.getD []) c.g_zlibMap.toNat = none := by
    rw [hredis]
    exact hzlib.rejects _ (hzlib.foreign_zeros _) _
  have hfetch := fetch_corrupt (q := plainRequest) hwell rfl hvalue (by omega) hbody
  have hopen : openFile (c.environment file plainRequest) file.g_file =
      ([.setContextfp file.g_file],
        .streamed (file.contents.take kBufSize) (toInt file.contents.length)) := by
    have hfopen : (c.environment file plainRequest).fopen file.g_file =
        some file.contents := rfl
    unfold openFile
    rw [hfopen]
    cases hcontents : file.contents with
    | nil => exact absurd hcontents hne
    | cons b bs => rfl
  rw [hopen] at hfetch
  rcases respond_of_fetch hfetch with ⟨p, -, hrespond⟩
  rcases h c hreach w plainRequest with ⟨served, hserved, hsame⟩
  rw [hrespond] at hserved
  cases hserved
  have hbody := hsame _ (responseBody_streamed _ _)
  rw [if_neg (by simp), List.append_nil] at hbody
  rw [← hbody, List.length_take]
  exact Nat.min_le_left _ _

/-- The responses carry the file whatever happens to the cache exactly when the file is cacheable. -/
theorem transparent_iff [Nonempty W] (hzlib : file.zlib.Correct) :
    Transparent W file ↔ Cacheable file := by
  refine ⟨?_, transparent_of_cacheable hzlib⟩
  intro h
  refine cacheable_iff.2 ⟨length_lt_of_transparent h, fits_of_transparent h, ?_⟩
  intro hpacked
  by_cases hne : file.contents = []
  · simp [hne]
  · exact one_part_of_transparent hzlib h hne hpacked

def letters : Bytes := List.replicate 32 97

/-- What zlib makes of the letters; of other bytes a stream that keeps them. -/
def sampleZlib : Zlib where
  compress plain :=
    if plain = letters then [120, 156, 75, 76, 196, 15, 0, 200, 48, 12, 33]
    else 120 :: 1 :: plain
  uncompress
    | 120 :: 156 :: s, _ => if s = [75, 76, 196, 15, 0, 200, 48, 12, 33] then some letters else none
    | 120 :: 1 :: s, n => if s ≠ letters ∧ s.length ≤ n then some s else none
    | _, _ => none

theorem compress_of_ne_letters {plain : Bytes} (h : plain ≠ letters) :
    sampleZlib.compress plain = 120 :: 1 :: plain := if_neg h

theorem length_compress {plain : Bytes} (h : plain ≠ letters) :
    (sampleZlib.compress plain).length = plain.length + 2 := by
  rw [compress_of_ne_letters h]
  rfl

theorem sampleZlib_correct : sampleZlib.Correct where
  inverts := by
    intro plain _
    by_cases hletters : plain = letters
    · subst hletters
      decide
    · rw [compress_of_ne_letters hletters]
      exact if_pos ⟨hletters, le_rfl⟩
  rejects := by
    intro s hforeign n
    have hne : ∀ t, s ≠ sampleZlib.compress t := fun t h => hforeign t h.symm
    unfold sampleZlib at hne ⊢
    dsimp only at hne ⊢
    split
    · rename_i t
      refine if_neg ?_
      rintro rfl
      exact hne letters rfl
    · rename_i t
      refine if_neg ?_
      rintro ⟨ht, -⟩
      exact hne t (by rw [if_neg ht])
    · rfl
  header := by
    intro plain
    unfold sampleZlib
    dsimp only
    split <;> rfl

def pageUrl : Bytes := Bytes.ofString "/www/page.html"

/-- The configuration of the repository, whose rate is 0.6. -/
def vipConfig : Config where
  g_resource_base_path := Bytes.ofString "/www"
  g_resource_index_path := Bytes.ofString "/www/index.html"
  mimeType _ := none
  g_redis_vip := [pageUrl]
  urlTomd5 url := url
  comPressStringSize n := n * 3 / 5 + 1

def vipFile (contents : Bytes) : VipFile where
  cfg := vipConfig
  zlib := sampleZlib
  g_file := pageUrl
  contents := contents
  vip := List.mem_singleton_self _

/-- The rate 1. -/
def wideConfig : Config := { vipConfig with comPressStringSize := fun n => n + 1 }

def wideFile (contents : Bytes) : VipFile where
  cfg := wideConfig
  zlib := sampleZlib
  g_file := pageUrl
  contents := contents
  vip := List.mem_singleton_self _

theorem transparent_letters : Transparent Unit (vipFile letters) :=
  (transparent_iff sampleZlib_correct).2 (by decide)

/-- One byte more than is streamed at once, and no pattern in them. -/
@[irreducible] def noise : Bytes :=
  (List.range (kBufSize + 1)).map fun i => UInt8.ofNat (i * i / 256)

theorem length_noise : noise.length = kBufSize + 1 := by
  unfold noise
  rw [List.length_map, List.length_range]

theorem noise_ne_letters : noise ≠ letters := by
  intro heq
  have hlength := length_noise
  have hletters : letters.length = 32 := List.length_replicate
  rw [heq, hletters] at hlength
  simp [kBufSize] at hlength

theorem noise_too_large : MAXBUFFERSIZE < (sampleZlib.compress noise).length := by
  have hcompress := length_compress noise_ne_letters
  have hlength := length_noise
  have hmax : MAXBUFFERSIZE < kBufSize := by decide
  omega

theorem packed_noise : (vipFile noise).packed = none := by
  unfold VipFile.packed
  split
  · rfl
  · exact if_neg (Nat.not_le_of_lt noise_too_large)

/-- At a rate of 1 the second request for a file that zlib cannot shrink gets all but its last byte.
At 0.6 the first one already reads behind the destination. -/
theorem not_transparent_noise :
    ¬ Transparent Unit (wideFile noise) ∧ ¬ Transparent Unit (vipFile noise) := by
  have hwide : (wideFile noise).contents.length = kBufSize + 1 := length_noise
  have hcontents : (vipFile noise).contents.length = kBufSize + 1 := length_noise
  constructor
  · intro h
    have hne : (wideFile noise).contents ≠ [] := List.ne_nil_of_length_pos (by omega)
    have hlength := one_part_of_transparent sampleZlib_correct h hne packed_noise
    omega
  · intro h
    have hfits := fits_of_transparent h
    have hset : (vipFile noise).setLength = kBufSize + 1 := by
      rw [VipFile.setLength, packed_noise, Option.map_none, Option.getD_none, hcontents]
    have hsize : ∀ n : Nat, (vipFile noise).cfg.comPressStringSize n = (n : Int) * 3 / 5 + 1 :=
      fun _ => rfl
    have hbuf : kBufSize = 1048576 := rfl
    rw [hset, hcontents, hsize] at hfits
    omega

end Cache

end Web
end Longky
