import Longky.Lib.Reach
import Longky.Web.Parser

/-!
# Reconnect — the timers that bring Redis back

`Parser::retryInLoop` and `Parser::connectRedis` of `webServer/requestParser.cpp` with the counter
`count_` and the timers that are pending.  A request that finds the connection broken and a timer
that does not bring it back both count, and only every fifth count sets a timer.

`stays_alive_iff`: in which steps a worker is left without a timer.
-/

namespace Longky
namespace Web
namespace Reconnect

open Lib Net

/-! ## The source -/

def LLONG_MAX : Nat := 9223372036854775807

/-- A parser with its counter and the pending timers for `connectRedis`. -/
structure Worker where
  parser : Parser
  count_ : Nat := 0
  timers : Nat := 0
  /-- A request for a VIP file has left the connection marked as broken. -/
  noticed : Bool := false

namespace Worker

/-- `++count_`, which starts anew instead of overflowing. -/
def count (w : Worker) : Nat := if w.count_ + 1 = LLONG_MAX then 0 else w.count_ + 1

def retryInLoop (w : Worker) : Worker :=
  { w with count_ := w.count, timers := if w.count % 5 = 1 then w.timers + 1 else w.timers }

/-- The loop runs what it has been given. -/
def runInLoop (w : Worker) (calls : List ParserCall) : Worker :=
  if .retryInLoop ∈ calls then w.retryInLoop else w

def responseRequest (w : Worker) (cfg : Config) (v : Visit) (g_file mime : Bytes) :
    Except Fault Worker := do
  let served ← w.parser.responseRequest cfg v g_file mime
  let broken := g_file ∈ cfg.g_redis_vip ∧ served.parser.isRedisConnectWell_ = false
  let w₁ := { w with parser := served.parser, noticed := w.noticed || broken }
  return w₁.runInLoop served.calls

/-- A timer has run out, and `Connect` has this answer. -/
def connectRedis (w : Worker) (connected : Bool) : Worker :=
  let (parser, calls) := w.parser.connectRedis connected
  { w with parser := parser, timers := w.timers - 1 }.runInLoop calls

end Worker

inductive Action where
  | responseRequest (v : Visit) (g_file mime : Bytes)
  | connectRedis (connected : Bool)

inductive Step (cfg : Config) : Worker → Action → Worker → Prop where
  | responseRequest {w w' : Worker} {v : Visit} {g_file mime : Bytes} :
      w.responseRequest cfg v g_file mime = .ok w' →
      Step cfg w (.responseRequest v g_file mime) w'
  | connectRedis {w : Worker} {connected : Bool} : 0 < w.timers →
      Step cfg w (.connectRedis connected) (w.connectRedis connected)

/-- A worker from the construction of its parser on. -/
def workers (cfg : Config) : System Worker Action where
  init w := ∃ connected, w = { parser := .construct connected }
  step := Step cfg

/-- A broken connection that has been noticed does not need another request. -/
def Alive (w : Worker) : Prop :=
  w.parser.isRedisConnectWell_ = false → w.noticed = true → 0 < w.timers

/-! ## What a request does to the connection -/

/-- The request jumps to `ReConn`. -/
def RunsReConn (redis : RedisState) (cfg : Config) (env : Environment) (g_file : Bytes) : Prop :=
  g_file ∈ cfg.g_redis_vip ∧ (redis.isRedisConnectWell_ = false ∨
    env.exeGET (cfg.urlTomd5 g_file) = none ∨ ∃ s, env.exeGET (cfg.urlTomd5 g_file) = some s ∧
      (s = [] ∨ env.g_zlibMap (cfg.urlTomd5 g_file) = 0) ∧ env.exeSETThrows = true)

/-- The value in Redis cannot be unpacked, and the connection is marked as broken. -/
def FailsToUncompress (redis : RedisState) (cfg : Config) (env : Environment) (g_file : Bytes) :
    Prop :=
  g_file ∈ cfg.g_redis_vip ∧ redis.isRedisConnectWell_ = true ∧
    ∃ s, env.exeGET (cfg.urlTomd5 g_file) = some s ∧ s ≠ [] ∧
      env.g_zlibMap (cfg.urlTomd5 g_file) ≠ 0 ∧
      env.uncompress s (env.g_zlibMap (cfg.urlTomd5 g_file)).toNat = none

/-- A request runs `ReConn`, or fails to unpack, or leaves the connection as it is. -/
inductive Outcome (redis : RedisState) (cfg : Config) (env : Environment) (g_file : Bytes) :
    RedisState → List ParserCall → Prop where
  | reConn {calls : List ParserCall} : RunsReConn redis cfg env g_file → .retryInLoop ∈ calls →
      Outcome redis cfg env g_file redis.reConn calls
  | failed {calls : List ParserCall} : FailsToUncompress redis cfg env g_file →
      .retryInLoop ∉ calls →
      Outcome redis cfg env g_file { redis with isRedisConnectWell_ := false } calls
  | kept {calls : List ParserCall} : ¬ RunsReConn redis cfg env g_file →
      ¬ FailsToUncompress redis cfg env g_file → .retryInLoop ∉ calls →
      Outcome redis cfg env g_file redis calls

variable {redis redis' : RedisState} {cfg : Config} {env : Environment} {g_file md5 : Bytes}
  {calls : List ParserCall}

/-- With a usable connection and an answer, only a miss that cannot be stored runs `ReConn`. -/
theorem runsReConn_iff {s : Bytes} (hvip : g_file ∈ cfg.g_redis_vip)
    (hwell : redis.isRedisConnectWell_ = true) (hget : env.exeGET (cfg.urlTomd5 g_file) = some s) :
    RunsReConn redis cfg env g_file ↔
      (s = [] ∨ env.g_zlibMap (cfg.urlTomd5 g_file) = 0) ∧ env.exeSETThrows = true := by
  constructor
  · rintro ⟨-, hbroken | hnone | ⟨s', hs', hmiss⟩⟩
    · rw [hwell] at hbroken
      cases hbroken
    · rw [hget] at hnone
      cases hnone
    · rw [hget, Option.some.injEq] at hs'
      exact hs' ▸ hmiss
  · intro hmiss
    exact ⟨hvip, .inr (.inr ⟨s, hget, hmiss⟩)⟩

theorem failsToUncompress_iff {s : Bytes} (hvip : g_file ∈ cfg.g_redis_vip)
    (hwell : redis.isRedisConnectWell_ = true) (hget : env.exeGET (cfg.urlTomd5 g_file) = some s) :
    FailsToUncompress redis cfg env g_file ↔
      ¬ (s = [] ∨ env.g_zlibMap (cfg.urlTomd5 g_file) = 0) ∧
        env.uncompress s (env.g_zlibMap (cfg.urlTomd5 g_file)).toNat = none := by
  rw [not_or]
  constructor
  · rintro ⟨-, -, s', hs', hne, hsize, hbody⟩
    rw [hget, Option.some.injEq] at hs'
    subst hs'
    exact ⟨⟨hne, hsize⟩, hbody⟩
  · rintro ⟨⟨hne, hsize⟩, hbody⟩
    exact ⟨hvip, hwell, s, hget, hne, hsize, hbody⟩

theorem RunsReConn.not_fails (h : RunsReConn redis cfg env g_file) :
    ¬ FailsToUncompress redis cfg env g_file := by
  rintro ⟨hvip, hwell, s, hget, hne, hsize, -⟩
  exact ((runsReConn_iff hvip hwell hget).1 h).1.elim hne hsize

theorem fetchVip_retry {body : Option (Bytes × Int)}
    (h : redis.fetchVip cfg env g_file = .ok (redis', calls, body)) :
    Outcome redis cfg env g_file redis' calls := by
  cases RedisState.fetchVip_fetched h with
  | passed hvip => exact .kept (fun hruns => hvip hruns.1) (fun hfails => hvip hfails.1) (by simp)
  | broken hvip hbroken => exact .reConn ⟨hvip, .inl hbroken⟩ (by simp)
  | getThrows hvip hwell hget => exact .reConn ⟨hvip, .inr (.inl hget)⟩ (by simp)
  | filled hvip hwell hget hmiss hfill =>
      have hruns := runsReConn_iff hvip hwell hget
      have hfails := failsToUncompress_iff hvip hwell hget
      cases hfill with
      | throws hopen hsize hcompress hfits hthrows =>
          exact .reConn (hruns.2 ⟨hmiss, hthrows⟩) (by simp)
      | stored hopen hsize hcompress hfits hstored =>
          refine .kept (fun h => ?_) (fun h => (hfails.1 h).1 hmiss) (by simp [RedisState.fillCalls])
          rw [(hruns.1 h).2] at hstored
          cases hstored
  | unpacked hvip hwell hget hne hpos hbody =>
      refine .kept (fun h => ?_) (fun h => ?_) (by simp)
      · exact ((runsReConn_iff hvip hwell hget).1 h).1.elim hne hpos.ne'
      · rw [((failsToUncompress_iff hvip hwell hget).1 h).2] at hbody
        cases hbody
  | corrupt hvip hwell hget hne hpos hbody =>
      exact .failed ⟨hvip, hwell, _, hget, hne, hpos.ne', hbody⟩ (by simp)

/-! ## One step of a worker -/

variable {w w' : Worker} {v : Visit} {mime : Bytes}

/-- One count in five sets a timer. -/
theorem retryInLoop_timers (w : Worker) :
    w.retryInLoop.timers = if w.count_ % 5 = 0 then w.timers + 1 else w.timers := by
  have hcount : w.count % 5 = 1 ↔ w.count_ % 5 = 0 := by
    have hmax : LLONG_MAX % 5 = 2 := rfl
    unfold Worker.count
    split_ifs with hlast
    · -- the number before the last one is not a multiple of five
      rw [← hlast] at hmax
      rw [false_iff]
      omega
    · omega
  simp only [Worker.retryInLoop, hcount]

/-- What a worker is after a request. -/
theorem responseRequest_spec (h : w.responseRequest cfg v g_file mime = .ok w') :
    RunsReConn w.parser.toRedisState cfg v.env g_file ∧
        w'.parser.isRedisConnectWell_ = false ∧ w'.noticed = true ∧
        w'.timers = (if w.count_ % 5 = 0 then w.timers + 1 else w.timers) ∨
      FailsToUncompress w.parser.toRedisState cfg v.env g_file ∧
        w'.parser.isRedisConnectWell_ = false ∧ w'.noticed = true ∧ w'.timers = w.timers ∨
      ¬ RunsReConn w.parser.toRedisState cfg v.env g_file ∧
        ¬ FailsToUncompress w.parser.toRedisState cfg v.env g_file ∧
        w'.parser.isRedisConnectWell_ = w.parser.isRedisConnectWell_ ∧
        w'.noticed = w.noticed ∧ w'.timers = w.timers := by
  rcases bind_eq_ok h with ⟨served, hserved, hw⟩
  simp only [pure, Except.pure, Except.ok.injEq] at hw
  rcases Parser.responseRequest_fetch hserved with ⟨redis, calls, vip, hfetch, hredis, hcalls⟩
  have hwell : served.parser.isRedisConnectWell_ = redis.isRedisConnectWell_ :=
    congrArg RedisState.isRedisConnectWell_ hredis
  rw [Worker.runInLoop] at hw
  cases fetchVip_retry hfetch with
  | reConn hruns hretry =>
      rw [if_pos (hcalls.2 hretry)] at hw
      have hbroken : served.parser.isRedisConnectWell_ = false := hwell
      subst hw
      refine .inl ⟨hruns, hbroken, ?_, retryInLoop_timers _⟩
      simp only [Worker.retryInLoop, hruns.1, hbroken, and_self, decide_true, Bool.or_true]
  | failed hfails hretry =>
      rw [if_neg (mt hcalls.1 hretry)] at hw
      have hbroken : served.parser.isRedisConnectWell_ = false := hwell
      subst hw
      refine .inr (.inl ⟨hfails, hbroken, ?_, rfl⟩)
      simp only [hfails.1, hbroken, and_self, decide_true, Bool.or_true]
  | kept hruns hfails hretry =>
      rw [if_neg (mt hcalls.1 hretry)] at hw
      -- a file of the list that finds the connection broken would have run `ReConn`
      have hnot : ¬ (g_file ∈ cfg.g_redis_vip ∧ served.parser.isRedisConnectWell_ = false) :=
        fun hbroken => hruns ⟨hbroken.1, .inl (hwell.symm.trans hbroken.2)⟩
      subst hw
      refine .inr (.inr ⟨hruns, hfails, hwell, ?_, rfl⟩)
      simp only [hnot, decide_false, Bool.or_false]

theorem parser_runInLoop (w : Worker) (calls : List ParserCall) :
    (w.runInLoop calls).parser = w.parser := by
  unfold Worker.runInLoop
  split_ifs <;> rfl

theorem noticed_runInLoop (w : Worker) (calls : List ParserCall) :
    (w.runInLoop calls).noticed = w.noticed := by
  unfold Worker.runInLoop
  split_ifs <;> rfl

theorem noticed_connectRedis (w : Worker) (connected : Bool) :
    (w.connectRedis connected).noticed = w.noticed := noticed_runInLoop _ _

/-- What a worker is after a timer. -/
theorem connectRedis_spec (w : Worker) (connected : Bool) :
    w.parser.isRedisConnectWell_ = false ∧ connected = false ∧
        (w.connectRedis connected).parser.isRedisConnectWell_ = false ∧
        (w.connectRedis connected).timers =
          (if w.count_ % 5 = 0 then w.timers - 1 + 1 else w.timers - 1) ∨
      ¬ (w.parser.isRedisConnectWell_ = false ∧ connected = false) ∧
        (w.connectRedis connected).parser.isRedisConnectWell_ = true := by
  have hwell : (w.connectRedis connected).parser.isRedisConnectWell_ =
      (w.parser.connectRedis connected).1.isRedisConnectWell_ :=
    congrArg (fun p : Parser => p.isRedisConnectWell_) (parser_runInLoop _ _)
  rw [hwell]
  unfold Parser.connectRedis
  cases hbroken : w.parser.isRedisConnectWell_ with
  | true => exact .inr ⟨fun h => by simp at h, by simp [hbroken]⟩
  | false =>
      cases connected with
      | true => exact .inr ⟨fun h => by simp at h, by cases w.parser.g_zlib <;> simp⟩
      | false =>
          refine .inl ⟨rfl, rfl, by simp, ?_⟩
          have hcalls : ParserCall.retryInLoop ∈ (w.parser.connectRedis false).2 := by
            simp [Parser.connectRedis, hbroken]
          rw [Worker.connectRedis]
          simp only [Worker.runInLoop, if_pos hcalls, retryInLoop_timers]

/-! ## Any run -/

/-- The state and the input of a step in which no worker is left alone: what runs `ReConn`, or fails
to connect, is the count that sets a timer, or has another timer behind it. -/
def Timely (cfg : Config) (w : Worker) : Action → Prop
  | .responseRequest v g_file _ =>
      (RunsReConn w.parser.toRedisState cfg v.env g_file → 0 < w.timers ∨ w.count_ % 5 = 0) ∧
        (FailsToUncompress w.parser.toRedisState cfg v.env g_file → 0 < w.timers)
  | .connectRedis connected =>
      w.parser.isRedisConnectWell_ = false ∧ connected = false →
        1 < w.timers ∨ w.count_ % 5 = 0

/-- Only a request that finds the connection broken sets the first timer. -/
def Noticed (w : Worker) : Prop := 0 < w.timers → w.noticed = true

variable {a : Action}

theorem Noticed.step (h : Noticed w) (hstep : Step cfg w a w') : Noticed w' := by
  cases hstep with
  | responseRequest hrequest =>
      obtain ⟨-, -, hnoticed, -⟩ | ⟨-, -, hnoticed, -⟩ | ⟨-, -, -, hnoticed, htimers⟩ :=
        responseRequest_spec hrequest
      · exact fun _ => hnoticed
      · exact fun _ => hnoticed
      · intro hpos
        rw [hnoticed]
        exact h (htimers ▸ hpos)
  | @connectRedis connected hpos =>
      intro _
      rw [noticed_connectRedis]
      exact h hpos

/-- A worker that is alive stays so exactly in the steps that are in time. -/
theorem alive_step_iff (hnoticed : Noticed w) (halive : Alive w) (hstep : Step cfg w a w') :
    Alive w' ↔ Timely cfg w a := by
  cases hstep with
  | responseRequest hrequest =>
      obtain ⟨hruns, hbroken, hnoticed', htimers⟩ | ⟨hfails, hbroken, hnoticed', htimers⟩ |
        ⟨hruns, hfails, hwell, hnoticed', htimers⟩ := responseRequest_spec hrequest
      -- the request counts, and a count that is not in time sets no timer
      · have hfails := hruns.not_fails
        simp only [Alive, Timely, hbroken, hnoticed', htimers, hruns, hfails, forall_true_left,
          false_imp_iff, and_true]
        split_ifs <;> omega
      -- the flag is cleared without a count
      · have hruns : ¬ RunsReConn _ _ _ _ := fun hruns => hruns.not_fails hfails
        simp only [Alive, Timely, hbroken, hnoticed', htimers, hruns, hfails, forall_true_left,
          false_imp_iff, true_and]
      · simp only [Alive, Timely, hwell, hnoticed', htimers, hruns, hfails, false_imp_iff, and_self,
          iff_true]
        exact halive
  | @connectRedis connected hpos =>
      -- this timer is gone, and another one is there only if the count has set it or it was before
      obtain ⟨hbroken, rfl, hbroken', htimers⟩ | ⟨hnot, hwell⟩ := connectRedis_spec w connected
      · simp only [Alive, Timely, hbroken, hbroken', noticed_connectRedis, htimers, hnoticed hpos,
          forall_true_left, and_self]
        split_ifs <;> omega
      · simp only [Alive, Timely, hwell, hnot, false_imp_iff, Bool.true_eq_false]

theorem noticed_of_reachable (h : (workers cfg).Reachable w) : Noticed w := by
  refine h.invariant ?_ ?_
  · rintro w ⟨connected, rfl⟩ hpos
    exact absurd hpos (lt_irrefl 0)
  · intro w a w' hnoticed hstep
    exact hnoticed.step hstep

theorem alive_of_reachable (h : ((workers cfg).restrict (Timely cfg)).Reachable w) : Alive w := by
  induction h with
  | init hinit =>
      obtain ⟨connected, rfl⟩ := hinit
      intro _ hnoticed
      cases hnoticed
  | step hreach hstep ih =>
      have hnoticed := noticed_of_reachable hreach.of_restrict
      exact (alive_step_iff hnoticed ih hstep.2).2 hstep.1

/-- If all steps have been in time, a broken connection has a timer, and goes on having one exactly
if the next step is in time. -/
theorem stays_alive_iff (cfg : Config) (w : Worker)
    (h : ((workers cfg).restrict (Timely cfg)).Reachable w) :
    Alive w ∧ ∀ a w', (workers cfg).step w a w' → (Alive w' ↔ Timely cfg w a) :=
  have halive := alive_of_reachable h
  ⟨halive, fun _ _ => alive_step_iff (noticed_of_reachable h.of_restrict) halive⟩

/-! ## A worker that is left alone -/

def indexFile : Bytes := Bytes.ofString "/index.html"

def oneFile : Config where
  g_resource_base_path := []
  g_resource_index_path := indexFile
  mimeType _ := none
  g_redis_vip := [indexFile]
  urlTomd5 url := url
  comPressStringSize n := n + 1

/-- Redis has gone. -/
def gone : Visit where
  request := []
  env :=
    { stat := fun _ => none, fopenVip := fun _ => none, fopen := fun _ => none
      exeGET := fun _ => none, exeSETThrows := true, compress := id
      uncompress := fun _ _ => none, g_zlibMap := fun _ => 0 }
  state_ := .kConnected

/-- The worker after the first request, which has set a timer. -/
def afterGone : Worker :=
  { parser := { isRedisConnectWell_ := false, g_zlib := false }
    count_ := 1, timers := 1, noticed := true }

theorem responseRequest_gone :
    Worker.responseRequest { parser := .construct true } oneFile gone indexFile [] =
      .ok afterGone := rfl

theorem stays_alive_iff_gone : Alive { parser := .construct true } ∧ (Alive afterGone ↔
    Timely oneFile { parser := .construct true } (.responseRequest gone indexFile [])) :=
  have h := stays_alive_iff oneFile { parser := .construct true } (.init ⟨true, rfl⟩)
  ⟨h.1, h.2 _ _ (.responseRequest responseRequest_gone)⟩

/-- The timer finds that Redis is still gone, and is the last one. -/
theorem not_alive_second : ∃ w, (workers oneFile).Reachable w ∧
    w = { parser := { isRedisConnectWell_ := false, g_zlib := false }, count_ := 2, timers := 0,
          noticed := true } ∧ ¬ Alive w := by
  have hfirst : (workers oneFile).Reachable afterGone :=
    .step (.init ⟨true, rfl⟩) (.responseRequest responseRequest_gone)
  have hsecond : (workers oneFile).Reachable (afterGone.connectRedis false) :=
    .step hfirst (.connectRedis (by decide))
  refine ⟨_, hsecond, rfl, fun halive => ?_⟩
  exact absurd (halive rfl rfl) (by decide)

end Reconnect
end Web
end Longky
