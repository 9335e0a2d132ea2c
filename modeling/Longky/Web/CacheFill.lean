import Longky.Web.ResponseFraming

/-!
# CacheFill — what is put into Redis on a cache miss

The cache fill compresses the file into an array of `MAXBUFFERSIZE` bytes and copies the result into
a destination whose size the configuration gives.  It records the size of the file and calls `exeSET`
whether or not `Compress` has succeeded; if it has not, `exeSET` reads as many bytes of the destination
as the file has.

`fillsValid_iff`: only the compressed file is stored, inside its destination, exactly when the file is
not empty, its length fits an `int` and its compression fits both arrays, or when nothing is stored
because the fill does not get so far.
-/

namespace Longky
namespace Web

open Lib Net

def Environment.zlib (env : Environment) : Zlib := ⟨env.compress, env.uncompress⟩

/-- The call stores something in Redis or in `g_zlibMap`. -/
def ParserCall.Stores : ParserCall → Prop
  | .recordSize _ _ | .exeSET _ _ _ => True
  | _ => False

/-- What `fread` reads of a file, whose size is an `int`. -/
def plainString (contents : Bytes) : Bytes := contents.take (toInt contents.length).toNat

theorem toInt_le (n : Nat) : toInt n ≤ n := by
  have hlt := Int.bmod_lt (x := (n : Int)) (m := 2 ^ 32) (by omega)
  have hdvd : (2 ^ 32 : Int) ∣ (n : Int) - (n : Int).bmod (2 ^ 32) := Int.dvd_self_sub_bmod
  unfold toInt
  omega

theorem plainString_length (contents : Bytes) :
    (plainString contents).length = (toInt contents.length).toNat := by
  have hle := toInt_le contents.length
  rw [plainString, List.length_take]
  omega

/-- All of the file is read exactly when its length fits an `int`. -/
theorem plainString_eq_iff {contents : Bytes} (h : 0 ≤ toInt contents.length) :
    plainString contents = contents ↔ contents.length < 2 ^ 31 := by
  have hlength := plainString_length contents
  rw [← toInt_eq_iff]
  constructor
  · intro heq
    rw [heq] at hlength
    omega
  · intro heq
    rw [plainString, heq, Int.toNat_natCast, List.take_length]

/-- `Compress` on the bytes of a file. -/
inductive Compression (redis : RedisState) (env : Environment) (plain : Bytes) :
    Except Fault (Option Bytes) → Prop where
  | nothing : plain = [] → Compression redis env plain (.ok none)
  | noObject : plain ≠ [] → redis.g_zlib = false → Compression redis env plain (.error .nullPointer)
  | copied : plain ≠ [] → redis.g_zlib = true → (env.compress plain).length ≤ MAXBUFFERSIZE →
      Compression redis env plain (.ok (some (env.compress plain)))
  | failed : plain ≠ [] → redis.g_zlib = true → MAXBUFFERSIZE < (env.compress plain).length →
      Compression redis env plain (.ok none)

theorem compression (redis : RedisState) (env : Environment) (plain : Bytes) :
    Compression redis env plain (redis.compress env plain) := by
  unfold RedisState.compress
  by_cases hplain : plain = []
  · rw [if_pos hplain]
    exact .nothing hplain
  · rw [if_neg hplain]
    cases hzlib : redis.g_zlib with
    | false => exact .noObject hplain hzlib
    | true =>
        simp only [Bool.not_true, Bool.false_eq_true, if_false]
        split
        · rename_i hmax
          exact .copied hplain hzlib hmax
        · rename_i hmax
          exact .failed hplain hzlib (by omega)

theorem compress_failed {redis : RedisState} {env : Environment} {plain : Bytes} (hne : plain ≠ [])
    (hzlib : redis.g_zlib = true) (hlarge : MAXBUFFERSIZE < (env.compress plain).length) :
    redis.compress env plain = .ok none := by
  unfold RedisState.compress
  rw [if_neg hne, hzlib]
  exact if_neg (Nat.not_le_of_lt hlarge)

namespace Parser

variable {p : Parser} {cfg : Config} {v : Visit} {g_file mime contents : Bytes}

/-- The request is for a VIP file whose value Redis does not have, or whose size is not recorded. -/
structure CacheMiss (p : Parser) (cfg : Config) (env : Environment) (g_file contents : Bytes) :
    Prop where
  vip : g_file ∈ cfg.g_redis_vip
  connected : p.isRedisConnectWell_ = true
  absent : ∃ s, env.exeGET (cfg.urlTomd5 g_file) = some s ∧
    (s = [] ∨ env.g_zlibMap (cfg.urlTomd5 g_file) = 0)
  fopenVip : env.fopenVip g_file = some contents

/-- Nothing is copied behind the end of the destination, or read there; what is stored is the
compression of the file, with the size from which it is unpacked; and nothing is stored when
`Compress` has failed. -/
structure FillsValid (p : Parser) (cfg : Config) (v : Visit) (g_file mime contents : Bytes) :
    Prop where
  inside : p.responseRequest cfg v g_file mime ≠ .error .overflow
  read : p.responseRequest cfg v g_file mime ≠ .error .outOfBounds
  compressed : ∀ served, p.responseRequest cfg v g_file mime = .ok served →
    ∀ md5 value length, .exeSET md5 value length ∈ served.calls →
      value = some (v.env.compress contents) ∧ length = (v.env.compress contents).length ∧
        ∃ size, .recordSize md5 size ∈ served.calls ∧
          v.env.uncompress (v.env.compress contents) size.toNat = some contents
  succeeded : ∀ served, p.responseRequest cfg v g_file mime = .ok served →
    p.toRedisState.compress v.env (plainString contents) = .ok none →
      ∀ call ∈ served.calls, ¬ call.Stores

/-- On a miss the response is made of what the cache fill gives. -/
theorem responseRequest_miss (h : CacheMiss p cfg v.env g_file contents) (mime : Bytes) :
    p.responseRequest cfg v g_file mime = do
      let (redis, calls, body, size) ←
        p.toRedisState.fillCache cfg v.env g_file (cfg.urlTomd5 g_file)
      let served := { p with toRedisState := redis }.answerBody cfg v.state_ mime (.cached body size)
      return { served with calls := calls ++ served.calls } := by
  rcases h.absent with ⟨s, hget, hmiss⟩
  rw [responseRequest, RedisState.fetch, RedisState.fetchVip, if_neg (not_not_intro h.vip),
    h.connected]
  simp only [Bool.not_true, Bool.false_eq_true, if_false, hget, if_pos hmiss]
  cases p.toRedisState.fillCache cfg v.env g_file (cfg.urlTomd5 g_file) with
  | error e => rfl
  | ok r => rfl

/-- The calls of a cache fill. -/
def fillCalls (md5 : Bytes) (size : Int) (value : Option Bytes) (retries : Bool) :
    List ParserCall :=
  [.recordSize md5 size, .cancelWriteComplete,
    .exeSET md5 value ((value.map List.length).getD size.toNat)] ++
      if retries then [.retryInLoop] else []

/-- Neither `new[]` of the cache fill throws. -/
structure Allocates (cfg : Config) (contents : Bytes) : Prop where
  plain : 0 ≤ toInt contents.length
  comPress : 0 ≤ cfg.comPressStringSize (toInt contents.length).toNat

theorem allocates_iff :
    Allocates cfg contents ↔ ¬ (toInt contents.length < 0 ∨
      cfg.comPressStringSize (toInt contents.length).toNat < 0) := by
  rw [not_or, Int.not_lt, Int.not_lt]
  exact ⟨fun h => ⟨h.plain, h.comPress⟩, fun h => ⟨h.1, h.2⟩⟩

/-- How many bytes of the destination `exeSET` reads. -/
def setLength (contents : Bytes) (value : Option Bytes) : Nat :=
  (value.map List.length).getD (toInt contents.length).toNat

theorem fillCache_of_compress {redis : RedisState} {env : Environment} {value : Option Bytes}
    (hopen : env.fopenVip g_file = some contents) (halloc : Allocates cfg contents)
    (hcompress : redis.compress env (plainString contents) = .ok value) (md5 : Bytes) :
    redis.fillCache cfg env g_file md5 =
      if setLength contents value ≤ cfg.comPressStringSize (toInt contents.length).toNat then
        .ok (if env.exeSETThrows then redis.reConn else redis,
          fillCalls md5 (toInt contents.length) value env.exeSETThrows, plainString contents,
          toInt contents.length)
      else .error (if value.isSome then .overflow else .outOfBounds) := by
  rw [allocates_iff] at halloc
  unfold plainString at hcompress ⊢
  unfold RedisState.fillCache setLength
  rw [hopen]
  dsimp only
  generalize toInt contents.length = size at *
  rw [if_neg halloc, hcompress]
  cases env.exeSETThrows with
  | false => rfl
  | true => rfl

theorem fillCache_of_not_allocates {redis : RedisState} {env : Environment}
    (hopen : env.fopenVip g_file = some contents) (halloc : ¬ Allocates cfg contents)
    (md5 : Bytes) : redis.fillCache cfg env g_file md5 = .error .lengthError := by
  rw [allocates_iff, not_not] at halloc
  unfold RedisState.fillCache
  rw [hopen]
  dsimp only
  generalize toInt contents.length = size at *
  rw [if_pos halloc]

theorem fillCache_of_error {redis : RedisState} {env : Environment} {e : Fault}
    (hopen : env.fopenVip g_file = some contents) (halloc : Allocates cfg contents)
    (hcompress : redis.compress env (plainString contents) = .error e) (md5 : Bytes) :
    redis.fillCache cfg env g_file md5 = .error e := by
  rw [allocates_iff] at halloc
  unfold plainString at hcompress
  unfold RedisState.fillCache
  rw [hopen]
  dsimp only
  generalize toInt contents.length = size at *
  rw [if_neg halloc, hcompress]
  rfl

theorem not_stores_answerBody {q : Parser} {state_ : StateE} {body : Body} {call : ParserCall}
    (h : call ∈ (q.answerBody cfg state_ mime body).calls) : ¬ call.Stores := by
  rcases answerBody_calls h with ⟨m, rfl⟩ | rfl | rfl <;> exact id

/-- A fill that fails stores nothing. -/
theorem fillsValid_of_error {e : Fault} (h : p.responseRequest cfg v g_file mime = .error e)
    (hwrite : e ≠ .overflow) (hread : e ≠ .outOfBounds) :
    FillsValid p cfg v g_file mime contents := by
  refine ⟨?_, ?_, ?_, ?_⟩
  · rw [h]
    exact fun heq => hwrite (Except.error.inj heq)
  · rw [h]
    exact fun heq => hread (Except.error.inj heq)
  · intro served hserved
    rw [h] at hserved
    cases hserved
  · intro served hserved
    rw [h] at hserved
    cases hserved

/-- A fill that neither writes nor reads behind its destination stores what `Compress` has left
there. -/
theorem exists_served (h : CacheMiss p cfg v.env g_file contents)
    (halloc : Allocates cfg contents) {value : Option Bytes}
    (hcompress : p.toRedisState.compress v.env (plainString contents) = .ok value)
    (hfits : setLength contents value ≤ cfg.comPressStringSize (toInt contents.length).toNat)
    (mime : Bytes) :
    ∃ served after, p.responseRequest cfg v g_file mime = .ok served ∧
      served.calls = fillCalls (cfg.urlTomd5 g_file) (toInt contents.length) value
        v.env.exeSETThrows ++ after ∧ ∀ call ∈ after, ¬ call.Stores := by
  have hresponse := responseRequest_miss h mime
  rw [fillCache_of_compress h.fopenVip halloc hcompress, if_pos hfits] at hresponse
  exact ⟨_, _, hresponse, rfl, fun call hcall => not_stores_answerBody hcall⟩

theorem recordSize_mem_iff {md5 md5' : Bytes} {size size' : Int} {value : Option Bytes}
    {retries : Bool} {after : List ParserCall} (hafter : ∀ call ∈ after, ¬ call.Stores) :
    .recordSize md5' size' ∈ fillCalls md5 size value retries ++ after ↔
      md5' = md5 ∧ size' = size := by
  have hlater : .recordSize md5' size' ∉ after := fun hmem => hafter _ hmem trivial
  cases retries <;> simp [fillCalls, hlater]

theorem exeSET_mem_iff {md5 md5' : Bytes} {size : Int} {value value' : Option Bytes} {length : Nat}
    {retries : Bool} {after : List ParserCall} (hafter : ∀ call ∈ after, ¬ call.Stores) :
    .exeSET md5' value' length ∈ fillCalls md5 size value retries ++ after ↔
      md5' = md5 ∧ value' = value ∧ length = (value.map List.length).getD size.toNat := by
  have hlater : .exeSET md5' value' length ∉ after := fun hmem => hafter _ hmem trivial
  cases retries <;> simp [fillCalls, hlater]

/-- What a fill stores is valid exactly when `Compress` has succeeded on the whole file. -/
theorem fillsValid_of_served (hzlib : v.env.zlib.Correct) (h : CacheMiss p cfg v.env g_file contents)
    (halloc : Allocates cfg contents) {value : Option Bytes}
    (hcompress : p.toRedisState.compress v.env (plainString contents) = .ok value)
    (hfits : setLength contents value ≤ cfg.comPressStringSize (toInt contents.length).toNat) :
    FillsValid p cfg v g_file mime contents ↔ value ≠ none ∧ plainString contents = contents := by
  rcases exists_served h halloc hcompress hfits mime with
    ⟨served, after, hserved, hcalls, hafter⟩
  have hcompression := compression p.toRedisState v.env (plainString contents)
  rw [hcompress] at hcompression
  -- zlib gives back what has been read, from its size
  have hinverts : plainString contents ≠ [] →
      v.env.uncompress (v.env.compress (plainString contents)) (toInt contents.length).toNat =
        some (plainString contents) := by
    intro hne
    rw [← plainString_length]
    exact hzlib.inverts _ hne
  constructor
  · intro hvalid
    have hexeSET : .exeSET (cfg.urlTomd5 g_file) value
        ((value.map List.length).getD (toInt contents.length).toNat) ∈ served.calls := by
      rw [hcalls, exeSET_mem_iff hafter]
      exact ⟨rfl, rfl, rfl⟩
    rcases hvalid.compressed served hserved _ _ _ hexeSET with
      ⟨hvalue, -, size, hrecord, hunpack⟩
    rw [hcalls, recordSize_mem_iff hafter] at hrecord
    rw [hrecord.2] at hunpack
    rw [hvalue] at hcompression
    refine ⟨by simp [hvalue], ?_⟩
    generalize hpacked : v.env.compress contents = packed at hcompression hunpack
    cases hcompression with
    | copied hne _ _ =>
        rw [hinverts hne, Option.some.injEq] at hunpack
        exact hunpack
  · rintro ⟨hne, hwhole⟩
    rw [hwhole] at hcompression hinverts hcompress
    cases hcompression with
    | nothing _ => exact absurd rfl hne
    | failed _ _ _ => exact absurd rfl hne
    | copied hcontents _ _ =>
        refine ⟨?_, ?_, ?_, ?_⟩
        · rw [hserved]
          intro heq
          cases heq
        · rw [hserved]
          intro heq
          cases heq
        · intro served' hserved' md5 value length hmem
          rw [hserved] at hserved'
          cases hserved'
          rw [hcalls, exeSET_mem_iff hafter] at hmem
          rcases hmem with ⟨rfl, rfl, rfl⟩
          refine ⟨rfl, rfl, toInt contents.length, ?_, hinverts hcontents⟩
          rw [hcalls, recordSize_mem_iff hafter]
          exact ⟨rfl, rfl⟩
        · intro served' _ hfailed
          rw [hwhole, hcompress] at hfailed
          cases hfailed

/-- A fill whose destination is too small is not valid. -/
theorem not_fillsValid_of_overrun (h : CacheMiss p cfg v.env g_file contents)
    (halloc : Allocates cfg contents) {value : Option Bytes}
    (hcompress : p.toRedisState.compress v.env (plainString contents) = .ok value)
    (hover : ¬ setLength contents value ≤ cfg.comPressStringSize (toInt contents.length).toNat) :
    ¬ FillsValid p cfg v g_file mime contents := by
  have hresponse := responseRequest_miss h mime
  rw [fillCache_of_compress h.fopenVip halloc hcompress, if_neg hover] at hresponse
  intro hvalid
  cases value with
  | none => exact hvalid.read hresponse
  | some s => exact hvalid.inside hresponse

/-- Nothing valid is stored when `Compress` fails. -/
theorem not_fillsValid_of_failed (hzlib : v.env.zlib.Correct)
    (h : CacheMiss p cfg v.env g_file contents) (halloc : Allocates cfg contents)
    (hcompress : p.toRedisState.compress v.env (plainString contents) = .ok none) :
    ¬ FillsValid p cfg v g_file mime contents := by
  by_cases hfits : setLength contents none ≤ cfg.comPressStringSize (toInt contents.length).toNat
  · rw [fillsValid_of_served hzlib h halloc hcompress hfits]
    exact fun hvalid => hvalid.1 rfl
  · exact not_fillsValid_of_overrun h halloc hcompress hfits

/-- On a cache miss only the compressed file is stored, inside its destination, exactly when the size
or that of the destination is negative as an `int`, or there is something to compress and no object
for it, or the file is not empty, its length fits an `int` and its compression fits both arrays. -/
theorem fillsValid_iff (hzlib : v.env.zlib.Correct) (h : CacheMiss p cfg v.env g_file contents) :
    FillsValid p cfg v g_file mime contents ↔
      (toInt contents.length < 0 ∨ cfg.comPressStringSize (toInt contents.length).toNat < 0) ∨
        0 < toInt contents.length ∧ p.g_zlib = false ∨
        contents ≠ [] ∧ contents.length < 2 ^ 31 ∧
          (v.env.compress contents).length ≤ MAXBUFFERSIZE ∧
          (v.env.compress contents).length ≤ cfg.comPressStringSize contents.length := by
  have hresponse := responseRequest_miss h mime
  by_cases halloc : Allocates cfg contents
  swap
  · rw [fillCache_of_not_allocates h.fopenVip halloc] at hresponse
    rw [allocates_iff, not_not] at halloc
    exact iff_of_true (fillsValid_of_error hresponse (by decide) (by decide)) (Or.inl halloc)
  · have hsize := halloc.plain
    have hlength := plainString_length contents
    have hpos : plainString contents ≠ [] ↔ 0 < toInt contents.length := by
      rw [← List.length_pos_iff, hlength]
      omega
    have hwhole : plainString contents = contents →
        (toInt contents.length).toNat = contents.length := by
      intro heq
      rw [← hlength, heq]
    rw [or_iff_right (allocates_iff.1 halloc), ← plainString_eq_iff hsize, ← hpos]
    generalize hcompress : p.toRedisState.compress v.env (plainString contents) = r
    have hcompression := compression p.toRedisState v.env (plainString contents)
    rw [hcompress] at hcompression
    cases hcompression with
    | nothing hnil =>
        refine iff_of_false (not_fillsValid_of_failed hzlib h halloc hcompress) ?_
        rintro (⟨hne, -⟩ | ⟨hne, heq, -⟩)
        · exact hne hnil
        · exact hne (heq ▸ hnil)
    | noObject hne hnone =>
        rw [fillCache_of_error h.fopenVip halloc hcompress] at hresponse
        exact iff_of_true (fillsValid_of_error hresponse (by decide) (by decide))
          (Or.inl ⟨hne, hnone⟩)
    | copied hne hobject hmax =>
        have hnone : ¬ (plainString contents ≠ [] ∧ p.g_zlib = false) := by
          rintro ⟨-, hnone⟩
          rw [hobject] at hnone
          cases hnone
        rw [or_iff_right hnone]
        by_cases hfits : setLength contents (some (v.env.compress (plainString contents))) ≤
            cfg.comPressStringSize (toInt contents.length).toNat
        · rw [fillsValid_of_served hzlib h halloc hcompress hfits]
          constructor
          · rintro ⟨-, heq⟩
            rw [hwhole heq, heq] at hfits
            rw [heq] at hne hmax
            exact ⟨hne, heq, hmax, hfits⟩
          · rintro ⟨-, heq, -⟩
            exact ⟨Option.some_ne_none _, heq⟩
        · -- what is copied does not fit
          refine iff_of_false (not_fillsValid_of_overrun h halloc hcompress hfits) ?_
          rintro ⟨-, heq, -, hle⟩
          rw [hwhole heq, heq] at hfits
          exact hfits hle
    | failed hne hobject hmax =>
        refine iff_of_false (not_fillsValid_of_failed hzlib h halloc hcompress) ?_
        rintro (⟨-, hnone⟩ | ⟨-, heq, hle, -⟩)
        · rw [hobject] at hnone
          cases hnone
        · rw [heq] at hmax
          omega

/-- The first request for a VIP file. -/
def missVisit (contents : Bytes) : Visit where
  request := []
  env :=
    { noFiles with
      fopenVip := fun _ => some contents
      exeGET := fun _ => some []
      compress := Cache.sampleZlib.compress
      uncompress := Cache.sampleZlib.uncompress }
  state_ := .kConnected

theorem cacheMiss_missVisit {cfg : Config} (hvip : cfg.g_redis_vip = [Cache.pageUrl])
    (contents : Bytes) :
    CacheMiss (construct true) cfg (missVisit contents).env Cache.pageUrl contents where
  vip := hvip ▸ List.mem_singleton_self _
  connected := rfl
  absent := ⟨[], rfl, Or.inl rfl⟩
  fopenVip := rfl

theorem fillsValid_letters : FillsValid (construct true) Cache.vipConfig
    (missVisit Cache.letters) Cache.pageUrl (Bytes.ofString "html") Cache.letters :=
  (fillsValid_iff (v := missVisit Cache.letters) Cache.sampleZlib_correct
    (cacheMiss_missVisit rfl Cache.letters)).2 (Or.inr (Or.inr (by decide)))

/-- `Compress` fails on a file that it cannot shrink, and `exeSET` is called all the same, here with a
destination as large as the file. -/
theorem noise_stored :
    ∃ served, (construct true).responseRequest Cache.wideConfig (missVisit Cache.noise)
        Cache.pageUrl (Bytes.ofString "html") = .ok served ∧
      .exeSET Cache.pageUrl none (kBufSize + 1) ∈ served.calls ∧
      ¬ FillsValid (construct true) Cache.wideConfig (missVisit Cache.noise) Cache.pageUrl
        (Bytes.ofString "html") Cache.noise := by
  have hlength : toInt Cache.noise.length = (kBufSize + 1 : Nat) := by
    rw [Cache.length_noise]
    exact toInt_of_lt (by decide)
  have hsize : 0 ≤ toInt Cache.noise.length := by
    rw [hlength]
    exact Int.natCast_nonneg _
  have hplain : plainString Cache.noise = Cache.noise := by
    rw [plainString_eq_iff hsize, Cache.length_noise]
    decide
  have hcompress : (construct true).toRedisState.compress (missVisit Cache.noise).env
      (plainString Cache.noise) = .ok none := by
    rw [hplain]
    have hpos : 0 < Cache.noise.length := by
      rw [Cache.length_noise]
      exact Nat.succ_pos _
    exact compress_failed (List.ne_nil_of_length_pos hpos) rfl Cache.noise_too_large
  have hmiss : CacheMiss (construct true) Cache.wideConfig (missVisit Cache.noise).env
      Cache.pageUrl Cache.noise := cacheMiss_missVisit rfl Cache.noise
  have hdestination : ∀ n : Nat, Cache.wideConfig.comPressStringSize n = n + 1 := fun _ => rfl
  have halloc : Allocates Cache.wideConfig Cache.noise := by
    refine ⟨hsize, ?_⟩
    rw [hdestination]
    omega
  have hfits : setLength Cache.noise none ≤
      Cache.wideConfig.comPressStringSize (toInt Cache.noise.length).toNat := by
    rw [setLength, Option.map_none, Option.getD_none, hdestination]
    omega
  rcases exists_served hmiss halloc hcompress hfits (Bytes.ofString "html") with
    ⟨served, after, hserved, hcalls, hafter⟩
  refine ⟨served, hserved, ?_, ?_⟩
  · rw [hcalls, exeSET_mem_iff hafter, hlength]
    exact ⟨rfl, rfl, rfl⟩
  · exact not_fillsValid_of_failed (v := missVisit Cache.noise) Cache.sampleZlib_correct hmiss
      halloc hcompress

end Parser

end Web
end Longky
