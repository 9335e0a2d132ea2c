import Longky.Lib.Ownership
import Longky.Lib.Reach
import Longky.Web.Reconnect

/-!
# Compressor — the parsers' `CZlibMgr` objects

`webServer/requestParser.cpp` and `Redis::Connect` of `webServer/redis.cpp` once more, with the
objects that `g_zlib` points to.  Each parser creates and deletes its own; `Compress` goes through
the pointer.

`compressor_sound`: a connection that counts as usable has its object, and no object is deleted
twice.
-/

namespace Longky
namespace Web
namespace Compressor

open Lib Ownership Reconnect

/-! ## The source -/

/-- The answer of `redisConnect`. -/
inductive Context where
  | null
  | err
  | connected
  deriving DecidableEq, Repr

inductive Failure where
  /-- `g_zlib` is null. -/
  | null
  /-- `g_zlib` points to an object that has been deleted. -/
  | freed (id : Nat)
  | other (fault : Fault)
  deriving DecidableEq, Repr

/-- A parser's side of its Redis connection, with the object behind `g_zlib`. -/
structure Handle where
  isRedisConnectWell_ : Bool := false
  g_zlib : Option Nat := none
  count_ : Nat := 0
  deriving DecidableEq, Repr

namespace Handle

/-- `Redis::Connect`, which sets the flag and returns it. -/
def Connect (p : Handle) : Context → Handle × Bool
  | .err => ({ p with isRedisConnectWell_ := false }, false)
  -- without a context there is no `err` to look at
  | .null | .connected => ({ p with isRedisConnectWell_ := true }, true)

/-- `redis_->isRedisConnectWell_ = redis_->Connect()`. -/
def assignConnect (p : Handle) (context : Context) : Handle :=
  let (p₁, connected) := p.Connect context
  { p₁ with isRedisConnectWell_ := connected }

/-- `Parser::Parser`. -/
def construct (h : Heap) (context : Context) : Heap × Handle :=
  let p := assignConnect {} context
  if p.isRedisConnectWell_ then (h.create, { p with g_zlib := some h.next }) else (h, p)

/-- `Parser::~Parser`. -/
def destruct (h : Heap) (p : Handle) : Heap :=
  match p.g_zlib with
  | none => h
  | some id => h.delete id

/-- `g_zlib->Compress`: the bytes copied into the destination, or none when it reports failure. -/
def compress (h : Heap) (p : Handle) (env : Environment) (plain : Bytes) :
    Except Failure (Option Bytes) :=
  match p.g_zlib with
  | none => .error .null
  | some id =>
      if id ∈ h.deleted then .error (.freed id)
      else if plain = [] then .ok none
      else if (env.compress plain).length ≤ MAXBUFFERSIZE then .ok (some (env.compress plain))
      else .ok none

/-- The code behind `ReConn`. -/
def reConn (h : Heap) (p : Handle) : Heap × Handle :=
  let p₁ := { p with isRedisConnectWell_ := false }
  match p₁.g_zlib with
  | none => (h, p₁)
  | some id => (h.delete id, { p₁ with g_zlib := none })

/-- The cache miss. -/
def fillCache (h : Heap) (p : Handle) (cfg : Config) (env : Environment) (g_file md5 : Bytes) :
    Except Failure (Heap × Handle × List ParserCall × Bytes × Int) :=
  match env.fopenVip g_file with
  | none => .error (.other .nullPointer)
  | some contents =>
      let size := toInt contents.length
      if size < 0 ∨ cfg.comPressStringSize size.toNat < 0 then .error (.other .lengthError)
      else do
        let plain := contents.take size.toNat
        let compressed ← p.compress h env plain
        let length := (compressed.map List.length).getD size.toNat
        if length ≤ cfg.comPressStringSize size.toNat then
          let calls := [.recordSize md5 size, .cancelWriteComplete, .exeSET md5 compressed length]
          if env.exeSETThrows then
            let (h₁, p₁) := p.reConn h
            return (h₁, p₁, calls ++ [.retryInLoop], plain, size)
          else return (h, p, calls, plain, size)
        else .error (.other (if compressed.isSome then .overflow else .outOfBounds))

/-- The part of `responseRequest` for VIP files. -/
def fetchVip (h : Heap) (p : Handle) (cfg : Config) (env : Environment) (g_file : Bytes) :
    Except Failure (Heap × Handle × List ParserCall × Option (Bytes × Int)) :=
  if g_file ∉ cfg.g_redis_vip then .ok (h, p, [], none)
  else if !p.isRedisConnectWell_ then
    let (h₁, p₁) := p.reConn h
    .ok (h₁, p₁, [.retryInLoop], none)
  else
    let md5 := cfg.urlTomd5 g_file
    match env.exeGET md5 with
    | none =>
        let (h₁, p₁) := p.reConn h
        .ok (h₁, p₁, [.retryInLoop], none)
    | some s =>
        if s = [] ∨ env.g_zlibMap md5 = 0 then do
          let (h₁, p₁, calls, body, size) ← p.fillCache h cfg env g_file md5
          return (h₁, p₁, calls, some (body, size))
        else
          let size := env.g_zlibMap md5
          if size < 0 then .error (.other .lengthError)
          else
            -- `UnCompress` is static and looks at no object
            match env.uncompress s size.toNat with
            | some body => .ok (h, p, [.cancelWriteComplete], some (body, size))
            -- the object stays
            | none =>
                .ok (h, { p with isRedisConnectWell_ := false }, [.cancelWriteComplete], none)

/-- `retryInLoop`, and whether it sets a timer. -/
def retryInLoop (p : Handle) : Handle × Bool :=
  let count := if p.count_ + 1 = LLONG_MAX then 0 else p.count_ + 1
  ({ p with count_ := count }, count % 5 = 1)

def connectRedis (h : Heap) (p : Handle) (context : Context) : Heap × Handle × List ParserCall :=
  if !p.isRedisConnectWell_ then
    let p₁ := p.assignConnect context
    if p₁.isRedisConnectWell_ && p₁.g_zlib.isNone then
      (h.create, { p₁ with g_zlib := some h.next }, [])
    else (h, p₁, [.retryInLoop])
  else (h, p, [])

/-! ## The flag and the pointer -/

/-- A connection that counts as usable has an object. -/
def Equipped (p : Handle) : Prop := p.isRedisConnectWell_ = true → p.g_zlib.isSome = true

/-- What `Web.Parser` keeps of a handle. -/
def erase (p : Handle) : RedisState where
  isRedisConnectWell_ := p.isRedisConnectWell_
  g_zlib := p.g_zlib.isSome

@[simp] theorem isRedisConnectWell_erase (p : Handle) :
    p.erase.isRedisConnectWell_ = p.isRedisConnectWell_ := rfl

@[simp] theorem g_zlib_erase (p : Handle) : p.erase.g_zlib = p.g_zlib.isSome := rfl

variable {h h' : Heap} {p p' : Handle} {cfg : Config} {env : Environment} {g_file md5 : Bytes}
  {calls : List ParserCall} {context : Context}

/-- What a call may do to the objects and to the connection. -/
structure Keeps (h : Heap) (p : Handle) (h' : Heap) (p' : Handle) : Prop where
  change : Change h p.g_zlib h' p'.g_zlib
  equipped : p.Equipped → p'.Equipped

theorem keeps_refl (h : Heap) (p : Handle) : Keeps h p h p := ⟨.keep _, id⟩

/-- To call a connection broken is always safe. -/
theorem equipped_broken (hbroken : p.isRedisConnectWell_ = false) : p.Equipped := by
  intro hwell
  rw [hbroken] at hwell
  cases hwell

theorem keeps_reConn (h : Heap) (p : Handle) : Keeps h p (p.reConn h).1 (p.reConn h).2 := by
  cases p with
  | mk well held count =>
      cases held with
      | none => exact ⟨.keep _, fun _ => equipped_broken rfl⟩
      | some id => exact ⟨.delete id, fun _ => equipped_broken rfl⟩

theorem erase_reConn (h : Heap) (p : Handle) : (p.reConn h).2.erase = p.erase.reConn := by
  cases p with
  | mk well held count => cases held <;> rfl

theorem assignConnect_eq (p : Handle) (context : Context) :
    p.assignConnect context = { p with isRedisConnectWell_ := decide (context ≠ .err) } := by
  cases context <;> rfl

theorem keeps_construct (h : Heap) (context : Context) :
    Keeps h {} (construct h context).1 (construct h context).2 := by
  unfold construct
  dsimp only
  split
  · exact ⟨.create, fun _ _ => rfl⟩
  · next hbroken =>
    rw [assignConnect_eq] at hbroken ⊢
    exact ⟨.keep _, fun _ => equipped_broken (Bool.eq_false_of_not_eq_true hbroken)⟩

theorem keeps_retryInLoop (h : Heap) (p : Handle) : Keeps h p h p.retryInLoop.1 :=
  ⟨.keep _, id⟩

theorem keeps_connectRedis (h : Heap) (p : Handle) (context : Context) :
    Keeps h p (p.connectRedis h context).1 (p.connectRedis h context).2.1 := by
  unfold connectRedis
  rw [assignConnect_eq]
  dsimp only
  split_ifs with hbroken hfresh
  · rw [Bool.and_eq_true, Option.isNone_iff_eq_none] at hfresh
    refine ⟨?_, fun _ _ => rfl⟩
    rw [hfresh.2]
    exact .create
  · -- the object that a failed uncompress has left is still there, or there is no connection
    refine ⟨.keep _, fun _ hwell => ?_⟩
    dsimp only at hwell ⊢
    rw [hwell, Bool.true_and] at hfresh
    simpa [Option.isSome_iff_ne_none] using hfresh
  · exact keeps_refl h p

theorem fillCache_keeps {body : Bytes} {size : Int}
    (hfill : p.fillCache h cfg env g_file md5 = .ok (h', p', calls, body, size)) :
    Keeps h p h' p' := by
  unfold fillCache at hfill
  split at hfill
  · cases hfill
  · dsimp only at hfill
    split at hfill
    · cases hfill
    · rcases bind_eq_ok hfill with ⟨compressed, -, hfill⟩
      split at hfill
      · split at hfill
        · simp only [pure, Except.pure, Except.ok.injEq, Prod.mk.injEq] at hfill
          obtain ⟨rfl, rfl, -⟩ := hfill
          exact keeps_reConn h p
        · simp only [pure, Except.pure, Except.ok.injEq, Prod.mk.injEq] at hfill
          obtain ⟨rfl, rfl, -⟩ := hfill
          exact keeps_refl h p
      · cases hfill

/-- Whatever Redis and zlib answer. -/
theorem fetchVip_keeps {body : Option (Bytes × Int)}
    (hfetch : p.fetchVip h cfg env g_file = .ok (h', p', calls, body)) : Keeps h p h' p' := by
  unfold fetchVip at hfetch
  split at hfetch
  · cases hfetch
    exact keeps_refl h p
  · split at hfetch
    · cases hfetch
      exact keeps_reConn h p
    · dsimp only at hfetch
      split at hfetch
      · cases hfetch
        exact keeps_reConn h p
      · split at hfetch
        · rcases bind_eq_ok hfetch with ⟨⟨h₁, p₁, calls₁, body₁, size₁⟩, hfill, hfetch⟩
          cases hfetch
          exact fillCache_keeps hfill
        · split at hfetch
          · cases hfetch
          · split at hfetch
            · cases hfetch
              exact keeps_refl h p
            · -- the file cannot be unpacked: the object stays although the flag is cleared
              cases hfetch
              exact ⟨.keep _, fun _ => equipped_broken rfl⟩

/-! ## The parser of `Web.Parser` -/

theorem erase_construct (h : Heap) (context : Context) :
    (construct h context).2.erase =
      (Parser.construct (decide (context ≠ .err))).toRedisState := by
  cases context <;> rfl

theorem erase_connectRedis (h : Heap) (p : Handle) (context : Context) {parser : Parser}
    (hparser : parser.toRedisState = p.erase) :
    (p.connectRedis h context).2.1.erase =
        (parser.connectRedis (decide (context ≠ .err))).1.toRedisState ∧
      (p.connectRedis h context).2.2 = (parser.connectRedis (decide (context ≠ .err))).2 := by
  have hwell : parser.isRedisConnectWell_ = p.isRedisConnectWell_ :=
    congrArg RedisState.isRedisConnectWell_ hparser
  have hzlib : parser.g_zlib = p.g_zlib.isSome := congrArg RedisState.g_zlib hparser
  have hnone : p.g_zlib.isNone = !p.g_zlib.isSome := by cases p.g_zlib <;> rfl
  unfold connectRedis Parser.connectRedis
  rw [assignConnect_eq, hwell, hzlib]
  dsimp only
  rw [hnone]
  split_ifs
  · exact ⟨rfl, rfl⟩
  · exact ⟨rfl, rfl⟩
  · exact ⟨hparser.symm, rfl⟩

/-- The counter is the one of `Web.Reconnect`. -/
theorem retryInLoop_worker {w : Worker} (hcount : w.count_ = p.count_) :
    w.retryInLoop.count_ = p.retryInLoop.1.count_ ∧
      w.retryInLoop.timers = if p.retryInLoop.2 then w.timers + 1 else w.timers := by
  unfold Worker.retryInLoop Worker.count retryInLoop
  rw [hcount]
  simp only [decide_eq_true_eq, and_self]

/-- `Compress` is called for an object that is there. -/
theorem compress_erase (hlive : ∀ id, p.g_zlib = some id → h.Live id)
    (hsome : p.g_zlib.isSome = true) (plain : Bytes) :
    p.compress h env plain = (p.erase.compress env plain).mapError .other := by
  obtain ⟨id, hid⟩ := Option.isSome_iff_exists.1 hsome
  have hdeleted : id ∉ h.deleted := (hlive id hid).not_deleted
  unfold compress RedisState.compress
  rw [g_zlib_erase, hsome, Bool.not_true, if_neg Bool.false_ne_true, hid]
  dsimp only
  rw [if_neg hdeleted]
  split_ifs <;> rfl

theorem fillCache_erase (hlive : ∀ id, p.g_zlib = some id → h.Live id)
    (hsome : p.g_zlib.isSome = true) :
    (p.fillCache h cfg env g_file md5).map (fun r => (r.2.1.erase, r.2.2)) =
      (p.erase.fillCache cfg env g_file md5).mapError .other := by
  unfold fillCache RedisState.fillCache
  cases env.fopenVip g_file with
  | none => rfl
  | some contents =>
      dsimp only
      rw [compress_erase hlive hsome]
      split_ifs with hsize hthrows
      · rfl
      · cases p.erase.compress env (contents.take (toInt contents.length).toNat) with
        | error fault => rfl
        | ok compressed =>
            simp only [Except.mapError, bind, Except.bind]
            split_ifs
            · rw [← erase_reConn h p]
              rfl
            · rfl
            · rfl
      · cases p.erase.compress env (contents.take (toInt contents.length).toNat) with
        | error fault => rfl
        | ok compressed =>
            simp only [Except.mapError, bind, Except.bind]
            split_ifs <;> rfl

/-- Over a live object the request does what `Web.Parser` says. -/
theorem fetchVip_erase (hlive : ∀ id, p.g_zlib = some id → h.Live id) (hequipped : p.Equipped)
    (cfg : Config) (env : Environment) (g_file : Bytes) :
    (p.fetchVip h cfg env g_file).map (fun r => (r.2.1.erase, r.2.2)) =
      (p.erase.fetchVip cfg env g_file).mapError .other := by
  unfold fetchVip RedisState.fetchVip
  rw [isRedisConnectWell_erase]
  by_cases hvip : g_file ∈ cfg.g_redis_vip
  swap
  · rw [if_pos hvip, if_pos hvip]
    rfl
  rw [if_neg (not_not.2 hvip), if_neg (not_not.2 hvip)]
  cases hwell : p.isRedisConnectWell_ with
  | false =>
      rw [← erase_reConn h p]
      rfl
  | true =>
      rw [Bool.not_true, if_neg Bool.false_ne_true, if_neg Bool.false_ne_true]
      dsimp only
      cases env.exeGET (cfg.urlTomd5 g_file) with
      | none =>
          rw [← erase_reConn h p]
          rfl
      | some s =>
          have hfill : (p.fillCache h cfg env g_file (cfg.urlTomd5 g_file)).map
              (fun r => (r.2.1.erase, r.2.2)) = _ := fillCache_erase hlive (hequipped hwell)
          dsimp only
          split_ifs
          · -- the body and its size make up the answer
            refine (Eq.trans ?_ (congrArg (Except.map fun r => (r.1, r.2.1, some r.2.2))
              hfill)).trans ?_
            · cases p.fillCache h cfg env g_file (cfg.urlTomd5 g_file) <;> rfl
            · cases p.erase.fillCache cfg env g_file (cfg.urlTomd5 g_file) <;> rfl
          · rfl
          · cases env.uncompress s (env.g_zlibMap (cfg.urlTomd5 g_file)).toNat <;> rfl

/-- Neither a null pointer nor one to a deleted object is followed. -/
theorem fetchVip_failure (hlive : ∀ id, p.g_zlib = some id → h.Live id) (hequipped : p.Equipped)
    {failure : Failure} (hfails : p.fetchVip h cfg env g_file = .error failure) :
    ∃ fault, failure = .other fault := by
  have herase := fetchVip_erase hlive hequipped cfg env g_file
  rw [hfails] at herase
  cases hfetch : p.erase.fetchVip cfg env g_file with
  | ok r =>
      rw [hfetch] at herase
      cases herase
  | error fault =>
      rw [hfetch] at herase
      exact ⟨fault, Except.error.inj herase⟩

/-- What the whole of `responseRequest` leaves of its connection. -/
theorem responseRequest_erase (hlive : ∀ id, p.g_zlib = some id → h.Live id)
    (hequipped : p.Equipped) {parser : Parser} (hparser : parser.toRedisState = p.erase) {v : Visit}
    {mime : Bytes} {served : Served}
    (hserved : parser.responseRequest cfg v g_file mime = .ok served) : ∃ h' p' calls body,
      p.fetchVip h cfg v.env g_file = .ok (h', p', calls, body) ∧
        served.parser.toRedisState = p'.erase := by
  obtain ⟨redis, calls, vip, hfetch, hredis, -⟩ := Parser.responseRequest_fetch hserved
  have herase := fetchVip_erase hlive hequipped cfg v.env g_file
  rw [← hparser, hfetch] at herase
  cases hobject : p.fetchVip h cfg v.env g_file with
  | error failure =>
      rw [hobject] at herase
      cases herase
  | ok r =>
      rw [hobject] at herase
      have hstate : r.2.1.erase = redis := congrArg Prod.fst (Except.ok.inj herase)
      exact ⟨r.1, r.2.1, r.2.2.1, r.2.2.2, rfl, hredis.trans hstate.symm⟩

end Handle

/-! ## Any run -/

/-- The objects and the parsers of a process. -/
structure Process (W : Type*) where
  heap : Heap := {}
  parsers : W → Option Handle := fun _ => none

inductive Action (W : Type*) where
  | construct (w : W) (context : Context)
  | responseRequest (w : W) (env : Environment) (g_file : Bytes)
  | retryInLoop (w : W)
  | connectRedis (w : W) (context : Context)
  | destruct (w : W)

variable {W : Type*} [DecidableEq W]

def Process.set (s : Process W) (w : W) (h : Heap) (p : Option Handle) : Process W where
  heap := h
  parsers := Function.update s.parsers w p

/-- The loop may run `retryInLoop` and `connectRedis` at any time, whether it has been asked to or
not. -/
inductive Step (cfg : Config) : Process W → Action W → Process W → Prop where
  | construct {s : Process W} {w : W} {context : Context} : s.parsers w = none →
      Step cfg s (.construct w context)
        (s.set w (Handle.construct s.heap context).1 (Handle.construct s.heap context).2)
  | responseRequest {s : Process W} {w : W} {p p' : Handle} {env : Environment} {g_file : Bytes}
      {h' : Heap} {calls : List ParserCall} {body : Option (Bytes × Int)} :
      s.parsers w = some p → p.fetchVip s.heap cfg env g_file = .ok (h', p', calls, body) →
      Step cfg s (.responseRequest w env g_file) (s.set w h' p')
  | retryInLoop {s : Process W} {w : W} {p : Handle} : s.parsers w = some p →
      Step cfg s (.retryInLoop w) (s.set w s.heap p.retryInLoop.1)
  | connectRedis {s : Process W} {w : W} {p : Handle} {context : Context} : s.parsers w = some p →
      Step cfg s (.connectRedis w context)
        (s.set w (p.connectRedis s.heap context).1 (p.connectRedis s.heap context).2.1)
  | destruct {s : Process W} {w : W} {p : Handle} : s.parsers w = some p →
      Step cfg s (.destruct w) (s.set w (p.destruct s.heap) none)

/-- A process from its start on. -/
def processes (W : Type*) [DecidableEq W] (cfg : Config) : System (Process W) (Action W) where
  init s := s = {}
  step := Step cfg

/-- The object of a parser. -/
def Process.owner (s : Process W) (w : W) : Option Nat := (s.parsers w).bind Handle.g_zlib

structure Inv (s : Process W) : Prop where
  owned : Owned s.heap s.owner
  equipped : ∀ w p, s.parsers w = some p → p.Equipped

variable {s s' : Process W} {a : Action W} {cfg : Config} {w : W} {p p' : Handle} {h' : Heap}

theorem owner_set (s : Process W) (w : W) (h : Heap) (p : Option Handle) :
    (s.set w h p).owner = Function.update s.owner w (p.bind Handle.g_zlib) :=
  Function.comp_update (fun p : Option Handle => p.bind Handle.g_zlib) s.parsers w p

omit [DecidableEq W] in
theorem Inv.live (hinv : Inv s) (hp : s.parsers w = some p) :
    ∀ id, p.g_zlib = some id → s.heap.Live id := by
  intro id hid
  refine hinv.owned.live w id ?_
  rw [Process.owner, hp]
  exact hid

/-- One parser changes what is its own. -/
theorem Inv.set (hinv : Inv s) {held : Option Handle}
    (hchange : Change s.heap (s.owner w) h' (held.bind Handle.g_zlib))
    (hequipped : ∀ p, held = some p → p.Equipped) : Inv (s.set w h' held) where
  owned := by
    rw [owner_set]
    exact hinv.owned.change hchange
  equipped w' p hp := by
    change Function.update s.parsers w held w' = some p at hp
    by_cases hw : w' = w
    · subst hw
      rw [Function.update_self] at hp
      exact hequipped p hp
    · rw [Function.update_of_ne hw] at hp
      exact hinv.equipped w' p hp

theorem Inv.keeps (hinv : Inv s) (hp : s.parsers w = some p)
    (hkeeps : Handle.Keeps s.heap p h' p') : Inv (s.set w h' (some p')) := by
  have howner : s.owner w = p.g_zlib := by
    rw [Process.owner, hp]
    rfl
  refine hinv.set ?_ ?_
  · rw [howner]
    exact hkeeps.change
  · rintro p₁ ⟨⟩
    exact hkeeps.equipped (hinv.equipped w p hp)

theorem Inv.step (hinv : Inv s) (hstep : Step cfg s a s') : Inv s' := by
  cases hstep with
  | @construct w context hnone =>
      have hkeeps := Handle.keeps_construct s.heap context
      have howner : s.owner w = none := by
        rw [Process.owner, hnone]
        rfl
      refine hinv.set ?_ ?_
      · rw [howner]
        exact hkeeps.change
      · rintro p ⟨⟩
        exact hkeeps.equipped (Handle.equipped_broken rfl)
  | responseRequest hp hfetch => exact hinv.keeps hp (Handle.fetchVip_keeps hfetch)
  | retryInLoop hp => exact hinv.keeps hp (Handle.keeps_retryInLoop _ _)
  | connectRedis hp => exact hinv.keeps hp (Handle.keeps_connectRedis _ _ _)
  | @destruct w p hp =>
      have howner : s.owner w = p.g_zlib := by
        rw [Process.owner, hp]
        rfl
      -- nobody is left who could delete the object once more
      refine hinv.set ?_ ?_
      · rw [howner]
        unfold Handle.destruct
        cases p.g_zlib with
        | none => exact .keep _
        | some id => exact .delete id
      · rintro p ⟨⟩

theorem inv_of_reachable (h : (processes W cfg).Reachable s) : Inv s := by
  refine h.invariant ?_ ?_
  · rintro s rfl
    exact ⟨Owned.empty, fun _ _ hp => by cases hp⟩
  · intro s a s' hinv hstep
    exact hinv.step hstep

/-- In every run a usable connection has an object that is alive, no object has been deleted twice,
and no request calls `Compress` through a pointer that is null or has been freed. -/
theorem compressor_sound (W : Type*) [DecidableEq W] (cfg : Config) (s : Process W)
    (h : (processes W cfg).Reachable s) :
    (∀ w p, s.parsers w = some p → p.isRedisConnectWell_ = true →
        ∃ id, p.g_zlib = some id ∧ s.heap.Live id) ∧
      s.heap.deleted.Nodup ∧
      ∀ w p, s.parsers w = some p → ∀ env g_file,
        p.fetchVip s.heap cfg env g_file ≠ .error .null ∧
          ∀ id, p.fetchVip s.heap cfg env g_file ≠ .error (.freed id) := by
  have hinv := inv_of_reachable h
  refine ⟨fun w p hp hwell => ?_, hinv.owned.nodup, fun w p hp env g_file => ⟨?_, ?_⟩⟩
  · obtain ⟨id, hid⟩ := Option.isSome_iff_exists.1 (hinv.equipped w p hp hwell)
    exact ⟨id, hid, hinv.live hp id hid⟩
  · intro hfails
    obtain ⟨fault, hfault⟩ := Handle.fetchVip_failure (hinv.live hp) (hinv.equipped w p hp) hfails
    cases hfault
  · intro id hfails
    obtain ⟨fault, hfault⟩ := Handle.fetchVip_failure (hinv.live hp) (hinv.equipped w p hp) hfails
    cases hfault

/-- A parser whose connection is in use. -/
def inUse : Process Unit :=
  ({} : Process Unit).set () { created := 1 }
    (some { isRedisConnectWell_ := true, g_zlib := some 0 })

/-- Redis has been lost at a request, and the parser tries again. -/
def lost : Process Unit :=
  (inUse.set () { created := 1, deleted := [0] } (some {})).set ()
    { created := 1, deleted := [0] } (some { count_ := 1 })

/-- Redis is back: the second object is in use. -/
def restored : Process Unit :=
  lost.set () { created := 2, deleted := [0] }
    (some { isRedisConnectWell_ := true, g_zlib := some 1, count_ := 1 })

theorem reachable_restored : (processes Unit oneFile).Reachable restored := by
  have hconstruct : Step oneFile {} (.construct () .connected) inUse := .construct rfl
  have hrequest : Step oneFile inUse (.responseRequest () gone.env indexFile)
      (inUse.set () { created := 1, deleted := [0] } (some {})) :=
    .responseRequest (p := { isRedisConnectWell_ := true, g_zlib := some 0 }) rfl rfl
  have hretry : Step oneFile (inUse.set () { created := 1, deleted := [0] } (some {}))
      (.retryInLoop ()) lost := .retryInLoop (p := {}) rfl
  have hconnect : Step oneFile lost (.connectRedis () .connected) restored :=
    .connectRedis (p := { count_ := 1 }) rfl
  exact (((System.Reachable.init rfl).step hconstruct).step hrequest |>.step hretry).step hconnect

theorem compressor_sound_restored :
    (∀ w p, restored.parsers w = some p → p.isRedisConnectWell_ = true →
        ∃ id, p.g_zlib = some id ∧ restored.heap.Live id) ∧
      restored.heap.deleted.Nodup ∧
      ∀ w p, restored.parsers w = some p → ∀ env g_file,
        p.fetchVip restored.heap oneFile env g_file ≠ .error .null ∧
          ∀ id, p.fetchVip restored.heap oneFile env g_file ≠ .error (.freed id) :=
  compressor_sound Unit oneFile restored reachable_restored

end Compressor
end Web
end Longky
