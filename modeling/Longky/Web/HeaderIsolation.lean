import Longky.Lib.LastWrite
import Longky.Web.Parser

/-!
# HeaderIsolation — what earlier requests leave in the header map

`parserRequest` never clears `paramMap_`: a request that carries no `Connection` header is answered
with the value an earlier request of the same worker left there, whatever connection it came from.

`isolated_iff`: the head of a response and the stored `connectionFlag` are independent of the
history exactly when the request is answered by an error page or carries a `Connection` header.
-/

namespace Longky
namespace Web

open Lib Net

/-! ## Scanning looks one byte ahead -/

theorem scanMethod_lookahead {room : Nat} {request method rest : Bytes}
    (h : scanMethod room request = .ok (method, rest)) :
    request = method ++ rest ∧
      ∀ rest', rest'.head? = rest.head? → scanMethod room (method ++ rest') = .ok (method, rest') := by
  -- the method is what the scanner consumed, and one byte decides where it stops
  induction room generalizing request method rest with
  | zero =>
      cases h
      exact ⟨rfl, fun _ _ => rfl⟩
  | succ room ih =>
      cases request with
      | nil => cases h
      | cons c t =>
          rw [scanMethod] at h
          split at h
          · rename_i hc
            cases h
            refine ⟨rfl, ?_⟩
            intro rest' hhead
            cases rest' with
            | nil => cases hhead
            | cons c' t' =>
                cases hhead
                rw [List.nil_append, scanMethod, if_pos hc]
          · rename_i hc
            cases hrec : scanMethod room t with
            | error e => rw [hrec] at h; cases h
            | ok r =>
                rcases r with ⟨method', rest'⟩
                rw [hrec] at h
                cases h
                rcases ih hrec with ⟨happend, hlook⟩
                refine ⟨by rw [happend]; rfl, ?_⟩
                intro rest'' hhead
                rw [List.cons_append, scanMethod, if_neg hc, hlook rest'' hhead]
                rfl

theorem scanUrl_lookahead (bs : Bytes) :
    bs = (scanUrl bs).1 ++ (scanUrl bs).2 ∧
      ∀ rest, rest.head? = (scanUrl bs).2.head? →
        scanUrl ((scanUrl bs).1 ++ rest) = ((scanUrl bs).1, rest) := by
  have hleading : (scanUrl bs).1 <+: bs :=
    (List.take_prefix _ _).trans (List.takeWhile_prefix _)
  refine ⟨(List.prefix_iff_eq_append.1 hleading).symm, ?_⟩
  intro rest hhead
  have hurl : (((scanUrl bs).1 ++ rest).takeWhile (fun c => c != 32)).take 254 = (scanUrl bs).1 :=
    take_takeWhile_lookahead _ _ bs rest hhead
  have hdrop : ((scanUrl bs).1 ++ rest).drop (scanUrl bs).1.length = rest :=
    List.drop_left
  rw [scanUrl, hurl, hdrop]

/-- The file is chosen by the URL alone. -/
theorem locateFile_found {cfg : Config} {stat : Bytes → Option Nat}
    {url bs file path mime rest : Bytes}
    (h : locateFile cfg stat url bs = .ok (.found file path mime rest)) :
    rest = bs.dropWhile (· == 32) ∧
      ∀ bs', locateFile cfg stat url bs' = .ok (.found file path mime (bs'.dropWhile (· == 32))) := by
  unfold locateFile at h ⊢
  rcases bind_eq_ok h with ⟨file', hfile, h⟩
  rw [hfile]
  cases hstat : stat file' with
  | none =>
      rw [hstat] at h
      cases h
  | some st_mode =>
      rw [hstat] at h
      dsimp only at h
      split at h
      · cases h
      · rename_i hread
        rcases bind_eq_ok h with ⟨path', hpath, h⟩
        split at h
        · cases h
        · rename_i hmime
          cases h
          refine ⟨rfl, ?_⟩
          intro bs'
          simp only [bind, Except.bind, hstat, if_neg hread, hpath, if_neg hmime]
          rfl

/-- The request up to the version is decided by its bytes up to the first of the version. -/
theorem locate_lookahead {cfg : Config} {stat : Bytes → Option Nat}
    {request file path mime rest : Bytes}
    (h : locate cfg stat request = .ok (.found file path mime rest)) :
    ∃ pre, request = pre ++ rest ∧
      ∀ rest', rest'.head? = rest.head? →
        locate cfg stat (pre ++ rest') = .ok (.found file path mime rest') := by
  unfold locate at h
  rcases bind_eq_ok h with ⟨⟨method, bs⟩, hmethod, h⟩
  dsimp only at h
  split at h
  · cases h
  · rename_i hget
    rcases scanMethod_lookahead hmethod with ⟨hrequest, hlook⟩
    rcases dropWhile_lookahead Bytes.isspace bs with ⟨ws, hws, hskip⟩
    rcases scanUrl_lookahead (bs.dropWhile Bytes.isspace) with ⟨hurl, hscan⟩
    rcases locateFile_found h with ⟨hrest, hfile⟩
    obtain ⟨blanks, hblanks, hskip'⟩ :=
      dropWhile_lookahead (· == 32) (scanUrl (bs.dropWhile Bytes.isspace)).2
    rw [← hrest] at hblanks hskip'
    refine ⟨method ++ ws ++ (scanUrl (bs.dropWhile Bytes.isspace)).1 ++ blanks, ?_, ?_⟩
    · calc
        request = method ++ bs := hrequest
        _ = method ++ (ws ++ ((scanUrl (bs.dropWhile Bytes.isspace)).1 ++ (blanks ++ rest))) := by
          rw [← hblanks, ← hurl, ← hws]
        _ = _ := by simp only [List.append_assoc]
    · intro rest' hhead
      -- each scanner stops where it did, since the byte it looks at is the same
      have hhead₂ := head?_append_congr blanks hhead
      rw [← hblanks] at hhead₂
      have hhead₁ := head?_append_congr (scanUrl (bs.dropWhile Bytes.isspace)).1 hhead₂
      rw [← hurl] at hhead₁
      have hhead₀ := head?_append_congr ws hhead₁
      rw [← hws] at hhead₀
      have hmethod' := hlook _ hhead₀
      simp only [List.append_assoc]
      rw [locate, hmethod']
      simp only [bind, Except.bind, if_neg hget, hskip _ hhead₁, hscan _ hhead₂, hfile,
        hskip' _ hhead]

/-! ## A request that only leaves a header behind -/

/-- Header lines that store a `Connection` header and are then rejected: the empty line is not the
last one. -/
def leaveClose : Bytes := Bytes.ofString "Connection: close\r\n\r\n\r\n"

theorem headerLoop_leaveClose :
    headerLoop leaveClose = .ok ([(Bytes.ofString "Connection", Bytes.ofString "close")], false) := by
  have hempty : Bytes.findCRLF (leaveClose.drop 19) = some 0 := by decide
  have hlast : headerLoop (leaveClose.drop 19) = .ok ([], false) :=
    headerLoop_of_no_colon hempty (by decide)
  have hfirst : Bytes.findCRLF leaveClose = some 17 := by decide
  rw [headerLoop_of_header hfirst rfl (by decide), hlast]
  rfl

theorem scan_eq_serve {cfg : Config} {stat : Bytes → Option Nat} {request : Bytes} {s : Scan}
    {path mime : Bytes} (h : scan cfg stat request = .ok s) (hserve : s.verdict = .serve path mime) :
    ∃ file rest, locate cfg stat request = .ok (.found file path mime rest) ∧ s.file = some file ∧
      scanHead rest = .ok (s.assigned, none) := by
  unfold scan at h
  rcases bind_eq_ok h with ⟨located, hlocate, h⟩
  cases located with
  | page file p =>
      cases h
      cases hserve
  | found file path' mime' rest =>
      rcases bind_eq_ok h with ⟨⟨assigned, failed⟩, hhead, h⟩
      cases failed with
      | some p =>
          cases h
          cases hserve
      | none =>
          cases h
          cases hserve
          exact ⟨file, rest, hlocate, rfl, hhead⟩

/-- A request that agrees with a served one up to its first line and leaves a `Connection` header. -/
theorem exists_leaves_close {cfg : Config} {stat : Bytes → Option Nat} {request : Bytes}
    {s : Scan} {path mime : Bytes} (h : scan cfg stat request = .ok s)
    (hserve : s.verdict = .serve path mime) :
    ∃ request' version,
      scan cfg stat request' =
        .ok ⟨s.file, [(Bytes.ofString "version", version),
          (Bytes.ofString "Connection", Bytes.ofString "close")], .page .unimplemented⟩ := by
  rcases scan_eq_serve h hserve with ⟨file, rest, hlocate, hfile, hhead⟩
  rcases scanHead_complete hhead with ⟨crlf, headers, hcrlf, hlen, hok, -, -⟩
  rcases locate_lookahead hlocate with ⟨pre, -, hlook⟩
  have hlt := Bytes.findCRLF_lt hcrlf
  have htake : (rest.take crlf).length = crlf := List.length_take_of_le (by omega)
  -- keep the version line of the served request and put other header lines behind it
  let rest' := rest.take crlf ++ 13 :: 10 :: leaveClose
  have hline : rest'.take crlf = rest.take crlf := List.take_left' htake
  have hdrop : rest'.drop (crlf + 2) = leaveClose := by
    have hsplit : rest' = (rest.take crlf ++ [13, 10]) ++ leaveClose := by simp [rest']
    rw [hsplit]
    exact List.drop_left' (by rw [List.length_append, htake]; rfl)
  have hhead' : rest'.head? = rest.head? := by
    cases rest with
    | nil => cases hcrlf
    | cons c t =>
        obtain ⟨k, rfl⟩ : ∃ k, crlf = k + 1 := ⟨crlf - 1, by omega⟩
        rfl
  have hscan : scanHead rest' =
      .ok ([(Bytes.ofString "version", (rest.take crlf).drop (crlf - 3)),
        (Bytes.ofString "Connection", Bytes.ofString "close")], some .unimplemented) := by
    rw [scanHead_of_accepted (Bytes.findCRLF_replace hcrlf _) hline hlen hok, hdrop,
      headerLoop_leaveClose]
    rfl
  refine ⟨pre ++ rest', (rest.take crlf).drop (crlf - 3), ?_⟩
  rw [scan, hlook rest' hhead', hfile]
  simp only [bind, Except.bind, hscan]
  rfl

/-! ## What is compared -/

/-- The value that calls store as `connectionFlag` in the connection's context. -/
def connectionFlag (calls : List ParserCall) : Option Bytes :=
  calls.findSome? fun c =>
    match c with
    | .setContextkv key value => if key = Bytes.ofString "connectionFlag" then some value else none
    | _ => none

theorem connectionFlag_setFile (s : Scan) (calls : List ParserCall) :
    connectionFlag (Parser.setFile s ++ calls) = connectionFlag calls := by
  have hne : ¬ Bytes.ofString "file" = Bytes.ofString "connectionFlag" := by decide
  cases hfile : s.file with
  | none => simp [Parser.setFile, hfile]
  | some file => simp [Parser.setFile, hfile, connectionFlag, hne]

namespace Parser

/-- The head of the response and the stored `connectionFlag`. -/
def observe (p : Parser) (cfg : Config) (v : Visit) :
    Except Fault (Option Bytes × Option Bytes) := do
  let served ← p.parserRequest cfg v
  return (served.head, connectionFlag served.calls)

/-- After any two histories that leave the Redis connection in the same state, a request gets the
same head and the same flag. -/
def Isolated (cfg : Config) (v : Visit) : Prop :=
  ∀ (c₁ c₂ : Bool) (h₁ h₂ : List Event) (p₁ p₂ : Parser),
    handleAll cfg (construct c₁) h₁ = .ok p₁ → handleAll cfg (construct c₂) h₂ = .ok p₂ →
    p₁.toRedisState = p₂.toRedisState → p₁.observe cfg v = p₂.observe cfg v

/-- The request passes all checks of `parserRequest` and has no `Connection` header. -/
def OmitsConnection (cfg : Config) (v : Visit) : Prop :=
  ∃ s path mime, scan cfg v.env.stat v.request = .ok s ∧ s.verdict = .serve path mime ∧
    ∀ kv ∈ s.assigned, kv.1 ≠ Bytes.ofString "Connection"

/-! ## The header map -/

variable {p q : Parser} {cfg : Config} {v : Visit}

theorem paramMap_assign (p : Parser) (l : List (Bytes × Bytes)) :
    (p.assign l).paramMap_ = writeAll p.paramMap_ l := rfl

theorem assign_of_forall_ne {l : List (Bytes × Bytes)} {key : Bytes} (h : ∀ kv ∈ l, kv.1 ≠ key) :
    (p.assign l).paramMap_ key = p.paramMap_ key :=
  writeAll_of_forall_ne h

/-- A key that the request assigns does not depend on the map it is assigned in. -/
theorem assign_of_exists {l : List (Bytes × Bytes)} {key : Bytes} (h : ∃ kv ∈ l, kv.1 = key)
    (p q : Parser) : (p.assign l).paramMap_ key = (q.assign l).paramMap_ key := by
  rcases exists_last h with ⟨before, ⟨key', value⟩, after, rfl, rfl, hafter⟩
  rw [paramMap_assign, paramMap_assign, writeAll_last hafter, writeAll_last hafter]

theorem responseHead_congr {m₁ m₂ : Bytes → Bytes}
    (hversion : m₁ (Bytes.ofString "version") = m₂ (Bytes.ofString "version"))
    (hconnection : m₁ (Bytes.ofString "Connection") = m₂ (Bytes.ofString "Connection"))
    (cfg : Config) (mime : Bytes) (fileSize : Int) :
    responseHead m₁ cfg mime fileSize = responseHead m₂ cfg mime fileSize := by
  rw [responseHead, responseHead, hversion, hconnection]

/-! ## One request -/

/-- The head that goes with a body. -/
def headOf (m : Bytes → Bytes) (cfg : Config) (mime : Bytes) : Body → Option Bytes
  | .streamed _ fileSize | .cached _ fileSize => some (responseHead m cfg mime fileSize)
  | .empty | .missing => none

theorem observe_page {s : Scan} {page : Page} (hscan : scan cfg v.env.stat v.request = .ok s)
    (hpage : s.verdict = .page page) : p.observe cfg v = .ok (none, none) := by
  rw [observe, parserRequest_page hscan hpage]
  simp only [bind, Except.bind, connectionFlag_setFile]
  rfl

theorem observe_serve {s : Scan} {path mime : Bytes}
    (hscan : scan cfg v.env.stat v.request = .ok s) (hserve : s.verdict = .serve path mime) :
    p.observe cfg v = do
      let (_, _, body) ← p.toRedisState.fetch cfg v.env path
      return (headOf (p.assign s.assigned).paramMap_ cfg mime body,
        some ((p.assign s.assigned).paramMap_ (Bytes.ofString "Connection"))) := by
  rw [observe, parserRequest_serve hscan hserve]
  cases p.toRedisState.fetch cfg v.env path with
  | error e => rfl
  | ok r =>
      rcases r with ⟨redis, calls, body⟩
      simp only [bind, Except.bind, pure, Except.pure, connectionFlag_setFile]
      cases body <;> simp [connectionFlag, headOf, answerBody, respond]

/-- A request that assigns both headers is observed in the same way by every parser. -/
theorem observe_congr (hredis : p.toRedisState = q.toRedisState)
    (hno : ¬ OmitsConnection cfg v) : p.observe cfg v = q.observe cfg v := by
  cases hscan : scan cfg v.env.stat v.request with
  | error e => rw [observe, observe, parserRequest, parserRequest, hscan]; rfl
  | ok s =>
      cases hverdict : s.verdict with
      | page page => rw [observe_page hscan hverdict, observe_page hscan hverdict]
      | serve path mime =>
          have hconnection : ∃ kv ∈ s.assigned, kv.1 = Bytes.ofString "Connection" := by
            by_contra hnone
            exact hno ⟨s, path, mime, hscan, hverdict, fun kv hkv hkey => hnone ⟨kv, hkv, hkey⟩⟩
          -- `version` is assigned by every request that is served
          have hversion : ∃ kv ∈ s.assigned, kv.1 = Bytes.ofString "version" := by
            rcases scan_eq_serve hscan hverdict with ⟨file, rest, -, -, hhead⟩
            rcases scanHead_complete hhead with ⟨crlf, headers, -, -, -, -, hassigned⟩
            rw [hassigned]
            exact ⟨_, List.mem_cons_self, rfl⟩
          have hc := assign_of_exists hconnection p q
          have hv := assign_of_exists hversion p q
          have hheads : ∀ body, headOf (p.assign s.assigned).paramMap_ cfg mime body =
              headOf (q.assign s.assigned).paramMap_ cfg mime body := by
            intro body
            cases body with
            | cached body fileSize => exact congrArg some (responseHead_congr hv hc cfg mime fileSize)
            | streamed body fileSize => exact congrArg some (responseHead_congr hv hc cfg mime fileSize)
            | empty => rfl
            | missing => rfl
          rw [observe_serve hscan hverdict, observe_serve hscan hverdict, hredis, hc]
          simp only [hheads]

/-! ## Histories -/

/-- A parser that is not connected to Redis finds no fault in fetching a file. -/
theorem fetch_of_not_connected {redis : RedisState} (h : redis.isRedisConnectWell_ = false)
    (env : Environment) (path : Bytes) : ∃ r, redis.fetch cfg env path = .ok r := by
  by_cases hvip : path ∈ cfg.g_redis_vip
  · refine ⟨(redis.reConn, [.retryInLoop] ++ (openFile env path).1, (openFile env path).2), ?_⟩
    simp only [RedisState.fetch, RedisState.fetchVip, h, hvip, bind, Except.bind]
    rfl
  · refine ⟨(redis, (openFile env path).1, (openFile env path).2), ?_⟩
    simp only [RedisState.fetch, RedisState.fetchVip, hvip, bind, Except.bind]
    rfl

/-- An earlier request of another connection decides the flag of one that has no `Connection`
header. -/
theorem not_isolated_of_omits (h : OmitsConnection cfg v) : ¬ Isolated cfg v := by
  rcases h with ⟨s, path, mime, hscan, hserve, hnone⟩
  rcases exists_leaves_close hscan hserve with ⟨request', version, hscan'⟩
  -- two workers: one is fresh, the other has rejected a request with a `Connection` header
  let v' : Visit := { v with request := request' }
  let p₁ : Parser := construct false
  let q : Parser := p₁.assign [(Bytes.ofString "version", version),
    (Bytes.ofString "Connection", Bytes.ofString "close")]
  let p₂ : Parser := (q.answerPage v.state_ .unimplemented).parser
  have hrun : handleAll cfg p₁ [.request v'] = .ok p₂ := by
    have hserved := parserRequest_page (p := p₁) (v := v') hscan' rfl
    simp only [handleAll, List.foldlM_cons, handle, hserved]
    rfl
  have hredis : p₁.toRedisState = p₂.toRedisState :=
    (toRedisState_respond q v.state_ Page.unimplemented.text).symm
  have hclose : p₂.paramMap_ (Bytes.ofString "Connection") = Bytes.ofString "close" := by
    have hmap : p₂.paramMap_ = q.paramMap_ := paramMap_respond q v.state_ Page.unimplemented.text
    rw [hmap]
    simp [q, assign]
  intro hiso
  have hobserve := hiso false false [] [.request v'] p₁ p₂ rfl hrun hredis
  obtain ⟨r, hfetch⟩ : ∃ r, p₁.toRedisState.fetch cfg v.env path = .ok r :=
    fetch_of_not_connected rfl v.env path
  rw [observe_serve hscan hserve, observe_serve hscan hserve, ← hredis, hfetch] at hobserve
  simp only [bind, Except.bind, pure, Except.pure, Except.ok.injEq, Prod.mk.injEq,
    Option.some.injEq, assign_of_forall_ne hnone, hclose] at hobserve
  exact absurd hobserve.2 (by decide)

/-- A response head and the stored flag are the same after all histories exactly when the request
does not reach `responseRequest` or carries a `Connection` header. -/
theorem isolated_iff (cfg : Config) (v : Visit) : Isolated cfg v ↔ ¬ OmitsConnection cfg v := by
  refine ⟨?_, ?_⟩
  · intro hiso homits
    exact not_isolated_of_omits homits hiso
  · intro hno c₁ c₂ h₁ h₂ p₁ p₂ _ _ hredis
    exact observe_congr hredis hno

/-- A configuration with one type of file. -/
def htmlConfig : Config where
  g_resource_base_path := Bytes.ofString "/www"
  g_resource_index_path := Bytes.ofString "/index.html"
  mimeType m := if m = Bytes.ofString "html" then some (Bytes.ofString "text/html") else none
  g_redis_vip := []
  urlTomd5 _ := []
  comPressStringSize n := n + 1

/-- A file system in which every file can be read. -/
def readableFiles : Environment where
  stat _ := some 0o100644
  fopenVip _ := some (Bytes.ofString "hello")
  fopen _ := some (Bytes.ofString "hello")
  exeGET _ := none
  exeSETThrows := false
  compress := id
  uncompress _ _ := none
  g_zlibMap _ := 0

/-- A request without headers. -/
def plainRequest : Visit where
  request := Bytes.ofString "GET /a.html HTTP/1.1\r\n\r\n"
  env := readableFiles
  state_ := .kConnected

theorem scan_plainRequest : scan htmlConfig readableFiles.stat plainRequest.request =
    .ok ⟨some (Bytes.ofString "/www/a.html"), [(Bytes.ofString "version", Bytes.ofString "1.1")],
      .serve (Bytes.ofString "/www/a.html") (Bytes.ofString "html")⟩ := by
  have hlocate : locate htmlConfig readableFiles.stat plainRequest.request =
      .ok (.found (Bytes.ofString "/www/a.html") (Bytes.ofString "/www/a.html")
        (Bytes.ofString "html") (Bytes.ofString "HTTP/1.1\r\n\r\n")) := rfl
  rw [scan, hlocate]
  simp only [bind, Except.bind, scanHead_bare]
  rfl

theorem plain_request_not_isolated : ¬ Isolated htmlConfig plainRequest := by
  refine not_isolated_of_omits ⟨_, _, _, scan_plainRequest, rfl, ?_⟩
  decide

end Parser
end Web
end Longky
