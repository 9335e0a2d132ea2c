import Longky.Lib.Message
import Longky.Web.RedisCache
import Longky.Web.Segmentation

/-!
# ResponseFraming — where the body of a response starts

`responseRequest` puts the head of a response together line by line.  `responseHead_eq` gives the
head as lines, an empty line and what is too much: for a connection that closes the fixed tail
`"\r\n\r\n"` follows a line that has its end already.

`framed_iff`: the message has the file for its body, and its length as `Content-Length`, if and only
if the connection is not to be closed and the length fits an `int`.
-/

namespace Longky
namespace Web

open Lib Net

namespace Parser

/-! ## The head as lines -/

def headLines (paramMap_ : Bytes → Bytes) (cfg : Config) (mime : Bytes) (fileSize : Int) :
    List Bytes :=
  [Bytes.ofString "Connection" ++ 58 :: paramMap_ (Bytes.ofString "Connection"),
    Bytes.ofString "Content-type" ++
      58 :: ((cfg.mimeType mime).getD [] ++ Bytes.ofString ";charset=utf-8")] ++
    if paramMap_ (Bytes.ofString "Connection") ≠ Bytes.ofString "close" then
      [Bytes.ofString "Content-Length" ++ 58 :: Bytes.ofString (toString fileSize)]
    else []

/-- What stands between the empty line and the body. -/
def surplus (paramMap_ : Bytes → Bytes) : Bytes :=
  if paramMap_ (Bytes.ofString "Connection") = Bytes.ofString "close" then [13, 10] else []

theorem responseHead_eq (m : Bytes → Bytes) (cfg : Config) (mime : Bytes) (size : Int) :
    responseHead m cfg mime size =
      (statusLine m :: headLines m cfg mime size).flatMap (· ++ [13, 10]) ++
        13 :: 10 :: surplus m := by
  have hok : Bytes.ofString " 200 OK\r\n" = Bytes.ofString " 200 OK" ++ [13, 10] := by decide
  have hconnection : Bytes.ofString "Connection:" = Bytes.ofString "Connection" ++ [58] := by decide
  have htype : Bytes.ofString "Content-type:" = Bytes.ofString "Content-type" ++ [58] := by decide
  have hlength : Bytes.ofString "Content-Length:" = Bytes.ofString "Content-Length" ++ [58] := by
    decide
  have hend : Bytes.ofString "\r\n\r\n" = [13, 10, 13, 10] := by decide
  unfold responseHead headLines statusLine surplus CRLF
  rw [hok, hconnection, htype, hlength, hend]
  by_cases hclose : m (Bytes.ofString "Connection") = Bytes.ofString "close"
  · simp [hclose, List.append_assoc]
  · simp [hclose, List.append_assoc]

/-! ## Reading the head -/

/-- Nothing in the head of a response ends a line. -/
structure OneLine (paramMap_ : Bytes → Bytes) (cfg : Config) (mime : Bytes) : Prop where
  version : Bytes.findCRLF (paramMap_ (Bytes.ofString "version")) = none
  connection : Bytes.findCRLF (paramMap_ (Bytes.ofString "Connection")) = none
  mime : Bytes.findCRLF ((cfg.mimeType mime).getD []) = none

section Head

variable {m : Bytes → Bytes} {cfg : Config} {mime : Bytes}

theorem statusLine_line (h : Bytes.findCRLF (m (Bytes.ofString "version")) = none) :
    statusLine m ≠ [] ∧ Bytes.findCRLF (statusLine m) = none := by
  have hhttp : 13 ∉ Bytes.ofString "HTTP/" := by decide
  have hok : Bytes.findCRLF (Bytes.ofString " 200 OK") = none := by decide
  have hhead : (Bytes.ofString " 200 OK").head? ≠ some 10 := by decide
  constructor
  · have hne : Bytes.ofString "HTTP/" ≠ [] := by decide
    simp [statusLine, hne]
  · unfold statusLine
    rw [List.append_assoc]
    exact Bytes.findCRLF_append_of_not_mem hhttp (Bytes.findCRLF_append_of_head h hok hhead)

/-- A header line is one line if its name and its value are. -/
theorem field_line {name value : Bytes} (hname : 13 ∉ name) (hvalue : Bytes.findCRLF value = none) :
    name ++ 58 :: value ≠ [] ∧ Bytes.findCRLF (name ++ 58 :: value) = none := by
  refine ⟨by simp, Bytes.findCRLF_append_of_not_mem hname ?_⟩
  exact Bytes.findCRLF_append_of_not_mem (show 13 ∉ [58] by decide) hvalue

theorem headLines_line (h : OneLine m cfg mime) (size : Int) :
    ∀ line ∈ statusLine m :: headLines m cfg mime size,
      line ≠ [] ∧ Bytes.findCRLF line = none := by
  have hcharset : Bytes.findCRLF (Bytes.ofString ";charset=utf-8") = none := by decide
  have hhead : (Bytes.ofString ";charset=utf-8").head? ≠ some 10 := by decide
  have htype := Bytes.findCRLF_append_of_head h.mime hcharset hhead
  have hdigits : 13 ∉ Bytes.ofString (toString size) := by
    intro hmem
    have hspace := Bytes.not_isspace_of_mem hmem
    revert hspace
    decide
  intro line hline
  rcases List.mem_cons.1 hline with rfl | hline
  · exact statusLine_line h.version
  · rcases List.mem_append.1 hline with hfixed | hlength
    · rcases List.mem_cons.1 hfixed with rfl | hfixed
      · exact field_line (by decide) h.connection
      · rw [List.mem_singleton.1 hfixed]
        exact field_line (by decide) htype
    · split at hlength
      · rw [List.mem_singleton.1 hlength]
        exact field_line (by decide) (Bytes.findCRLF_none_of_not_mem hdigits)
      · cases hlength

/-- A response as a message. -/
theorem read_responseHead (h : OneLine m cfg mime) (size : Int) (rest : Bytes) :
    Message.read (responseHead m cfg mime size ++ rest) =
      some ⟨statusLine m, headLines m cfg mime size, surplus m ++ rest⟩ := by
  rw [responseHead_eq, List.append_assoc, List.cons_append, List.cons_append]
  exact Message.read_lines (headLines_line h size) _

theorem values_headLines (startLine body : Bytes) (size : Int) :
    (Message.mk startLine (headLines m cfg mime size) body).values (Bytes.ofString "Content-Length") =
      if m (Bytes.ofString "Connection") ≠ Bytes.ofString "close" then
        [Bytes.ofString (toString size)]
      else [] := by
  have hconnection : Bytes.caseEq (Bytes.ofString "Connection") (Bytes.ofString "Content-Length") =
      false := by decide
  have htype : Bytes.caseEq (Bytes.ofString "Content-type") (Bytes.ofString "Content-Length") =
      false := by decide
  have hlength : Bytes.caseEq (Bytes.ofString "Content-Length") (Bytes.ofString "Content-Length") =
      true := by decide
  have hstrip : Bytes.strip (Bytes.ofString (toString size)) = Bytes.ofString (toString size) :=
    Bytes.strip_of_forall fun b hb => Bytes.not_isspace_of_mem hb
  unfold Message.values headLines
  rw [List.filter_append, List.filter_cons_of_neg, List.filter_cons_of_neg, List.filter_nil,
    List.nil_append]
  · split
    · rw [List.filter_cons_of_pos, List.filter_nil, List.map_singleton,
        Message.fieldValue_field (by decide), hstrip]
      rw [Message.fieldName_field (by decide), hlength]
    · rfl
  · rw [Message.fieldName_field (by decide), htype]
    decide
  · rw [Message.fieldName_field (by decide), hconnection]
    decide

end Head

end Parser

/-! ## The message -/

/-- Read as a message, the bytes have these contents as their body, and what they name as
`Content-Length` is its length. -/
def Framed (contents bytes : Bytes) : Prop :=
  ∃ m, Message.read bytes = some m ∧ m.body = contents ∧
    ∀ length ∈ m.values (Bytes.ofString "Content-Length"),
      length = Bytes.ofString (toString contents.length)

/-- What is put into `response_`, and behind it the rest of the file in the context. -/
def message (env : Environment) (g_file : Bytes) (served : Served) : Bytes :=
  served.response ++
    if .setContextfp g_file ∈ served.calls then
      StaticConn.streamRest (((env.fopen g_file).getD []).drop kBufSize)
    else []

/-- The file system and Redis give the contents of a file. -/
structure Provides (env : Environment) (cfg : Config) (g_file contents : Bytes) : Prop where
  fopen : env.fopen g_file = some contents
  fopenVip : env.fopenVip g_file = some contents
  /-- A value that can be unpacked is what a cache fill has packed, with its size. -/
  unpacks : ∀ s body, env.exeGET (cfg.urlTomd5 g_file) = some s → s ≠ [] →
    env.g_zlibMap (cfg.urlTomd5 g_file) ≠ 0 →
      env.uncompress s (env.g_zlibMap (cfg.urlTomd5 g_file)).toNat = some body →
        body = contents ∧ env.g_zlibMap (cfg.urlTomd5 g_file) = toInt contents.length

/-- The file, or as much of it as its size in an `int` says. -/
def FirstPart (contents body : Bytes) : Prop :=
  body = contents ∨ 0 ≤ toInt contents.length ∧ body = contents.take (toInt contents.length).toNat

section Fetch

variable {redis redis' : RedisState} {cfg : Config} {env : Environment} {g_file contents : Bytes}
  {calls : List ParserCall}

theorem filled_part {md5 body : Bytes} {size : Int} (h : env.fopenVip g_file = some contents)
    (hfill : redis.Filled cfg env g_file md5 redis' calls body size) :
    FirstPart contents body ∧ size = toInt contents.length := by
  cases hfill with
  | stored hopen hsize =>
      rw [h, Option.some.injEq] at hopen
      subst hopen
      exact ⟨Or.inr ⟨hsize, rfl⟩, rfl⟩
  | throws hopen hsize =>
      rw [h, Option.some.injEq] at hopen
      subst hopen
      exact ⟨Or.inr ⟨hsize, rfl⟩, rfl⟩

/-- A body that Redis or the cache fill gives. -/
theorem fetchVip_part (h : Provides env cfg g_file contents) {vip : Option (Bytes × Int)}
    (hvip : redis.fetchVip cfg env g_file = .ok (redis', calls, vip)) :
    ∀ r ∈ vip, FirstPart contents r.1 ∧ r.2 = toInt contents.length := by
  cases RedisState.fetchVip_fetched hvip with
  | passed => simp
  | broken => simp
  | getThrows => simp
  | corrupt => simp
  | filled _ _ _ _ hfill =>
      rintro _ ⟨⟩
      exact filled_part h.fopenVip hfill
  | unpacked _ _ hget hne hpos hunpack =>
      obtain ⟨rfl, hsize⟩ := h.unpacks _ _ hget hne hpos.ne' hunpack
      rintro _ ⟨⟩
      exact ⟨Or.inl rfl, hsize⟩

/-- What `responseRequest` sends and what it leaves in the context make the file, or its first
part. -/
theorem message_of_served {p : Parser} {v : Visit} {mime : Bytes} {served : Served}
    (hne : contents ≠ []) (h : Provides v.env cfg g_file contents)
    (hserved : p.responseRequest cfg v g_file mime = .ok served) :
    ∃ body, message v.env g_file served =
        Parser.responseHead p.paramMap_ cfg mime (toInt contents.length) ++ body ∧
      FirstPart contents body := by
  rcases bind_eq_ok hserved with ⟨⟨redis, calls, body⟩, hfetch, hanswer⟩
  cases hanswer
  rcases bind_eq_ok hfetch with ⟨⟨redis₁, calls₁, vip⟩, hvip, hbody⟩
  have hcached := RedisState.fetchVip_caches hvip
  have hclosed : .setContextfp g_file ∉ calls₁ := fun hmem => hcached _ hmem
  cases vip with
  | some r =>
      cases hbody
      rcases fetchVip_part h hvip r rfl with ⟨hpart, hsize⟩
      refine ⟨r.1, ?_, hpart⟩
      unfold message
      rw [if_neg, List.append_nil, hsize]
      · rfl
      · intro hmem
        rcases List.mem_append.1 hmem with hmem | hmem
        · exact hclosed hmem
        · rcases Parser.answerBody_calls hmem with ⟨m, heq⟩ | heq | heq <;> cases heq
  | none =>
      have hopen : openFile v.env g_file =
          ([.setContextfp g_file],
            .streamed (contents.take kBufSize) (toInt contents.length)) := by
        unfold openFile
        rw [h.fopen]
        cases contents with
        | nil => exact absurd rfl hne
        | cons b bs => rfl
      simp only [pure, Except.pure, Except.ok.injEq, Prod.mk.injEq, hopen] at hbody
      rcases hbody with ⟨-, rfl, rfl⟩
      refine ⟨contents, ?_, Or.inl rfl⟩
      unfold message
      rw [if_pos (by simp), h.fopen, StaticConn.streamRest_eq]
      change Parser.responseHead p.paramMap_ cfg mime (toInt contents.length) ++
        contents.take kBufSize ++ contents.drop kBufSize = _
      rw [List.append_assoc, List.take_append_drop]

end Fetch

/-! ## The condition -/

theorem framed_responseHead_iff {m : Bytes → Bytes} {cfg : Config} {mime contents body : Bytes}
    {size : Int} (h : Parser.OneLine m cfg mime) :
    Framed contents (Parser.responseHead m cfg mime size ++ body) ↔
      Parser.surplus m ++ body = contents ∧
        (m (Bytes.ofString "Connection") ≠ Bytes.ofString "close" → size = contents.length) := by
  unfold Framed
  rw [Parser.read_responseHead h]
  simp only [Option.some.injEq, exists_eq_left', Parser.values_headLines]
  refine and_congr_right fun _ => ?_
  by_cases hclose : m (Bytes.ofString "Connection") = Bytes.ofString "close"
  · simp [hclose]
  · simp only [ne_eq, hclose, not_false_eq_true, if_true, List.mem_singleton, forall_eq,
      true_imp_iff]
    exact Bytes.ofString_int_eq_nat

theorem toInt_eq_iff (n : Nat) : toInt n = n ↔ n < 2 ^ 31 := by
  refine ⟨fun h => ?_, toInt_of_lt⟩
  have hlt := Int.bmod_lt (x := (n : Int)) (m := 2 ^ 32) (by omega)
  unfold toInt at h
  omega

/-- Two bytes in front of a first part do not make the file. -/
theorem not_surplus {contents body : Bytes} (h : FirstPart contents body) :
    13 :: 10 :: body ≠ contents := by
  intro heq
  have hlen := congrArg List.length heq
  simp only [List.length_cons] at hlen
  rcases h with rfl | ⟨hpos, hbody⟩
  · omega
  · rw [hbody, List.length_take] at hlen
    have hmod : (2 ^ 32 : Int) ∣ (contents.length : Int) - toInt contents.length := by
      unfold toInt
      exact Int.dvd_self_sub_bmod
    omega

/-- The message of a response has the file for its body, and its length as `Content-Length` where
there is one, exactly when the connection stays open and the length fits an `int`. -/
theorem framed_iff {p : Parser} {cfg : Config} {v : Visit} {g_file mime contents : Bytes}
    {served : Served} (hne : contents ≠ []) (hprovides : Provides v.env cfg g_file contents)
    (hline : Parser.OneLine p.paramMap_ cfg mime)
    (hserved : p.responseRequest cfg v g_file mime = .ok served) :
    Framed contents (message v.env g_file served) ↔
      p.paramMap_ (Bytes.ofString "Connection") ≠ Bytes.ofString "close" ∧
        contents.length < 2 ^ 31 := by
  rcases message_of_served hne hprovides hserved with ⟨body, hmessage, hpart⟩
  rw [hmessage, framed_responseHead_iff hline, Parser.surplus, toInt_eq_iff]
  by_cases hclose : p.paramMap_ (Bytes.ofString "Connection") = Bytes.ofString "close"
  · rw [if_pos hclose]
    exact iff_of_false (fun h => not_surplus hpart h.1) fun h => h.1 hclose
  · rw [if_neg hclose, List.nil_append]
    constructor
    · rintro ⟨-, hlt⟩
      exact ⟨hclose, hlt hclose⟩
    · rintro ⟨-, hlt⟩
      refine ⟨?_, fun _ => hlt⟩
      rcases hpart with rfl | ⟨-, hbody⟩
      · rfl
      · rw [hbody, toInt_of_lt hlt, Int.toNat_natCast, List.take_length]

/-- A parser that has read a version and a `Connection` header. -/
def Parser.afterHeaders (connection : Bytes) : Parser :=
  (Parser.construct false).assign
    [(Bytes.ofString "version", Bytes.ofString "1.1"), (Bytes.ofString "Connection", connection)]

theorem provides_readableFiles :
    Provides Parser.readableFiles Parser.htmlConfig (Bytes.ofString "/www/a.html")
      (Bytes.ofString "hello") where
  fopen := rfl
  fopenVip := rfl
  unpacks _ _ h := by cases h

theorem framed_iff_hello :
    ∃ served, (Parser.afterHeaders []).responseRequest Parser.htmlConfig Parser.plainRequest
        (Bytes.ofString "/www/a.html") (Bytes.ofString "html") = .ok served ∧
      (Framed (Bytes.ofString "hello")
          (message Parser.readableFiles (Bytes.ofString "/www/a.html") served) ↔
        (Parser.afterHeaders []).paramMap_ (Bytes.ofString "Connection") ≠ Bytes.ofString "close" ∧
          (Bytes.ofString "hello").length < 2 ^ 31) := by
  refine ⟨_, rfl, framed_iff (v := Parser.plainRequest) (by decide) provides_readableFiles ?_ rfl⟩
  exact ⟨by decide, by decide, by decide⟩

/-- The body of a response that closes the connection starts with an empty line. -/
theorem closing_not_framed :
    ∃ served, (Parser.afterHeaders (Bytes.ofString "close")).responseRequest Parser.htmlConfig
        Parser.plainRequest (Bytes.ofString "/www/a.html") (Bytes.ofString "html") = .ok served ∧
      ¬ Framed (Bytes.ofString "hello")
        (message Parser.readableFiles (Bytes.ofString "/www/a.html") served) := by
  refine ⟨_, rfl, ?_⟩
  rcases message_of_served (v := Parser.plainRequest) (by decide) provides_readableFiles rfl with
    ⟨body, hmessage, hpart⟩
  have hline : Parser.OneLine (Parser.afterHeaders (Bytes.ofString "close")).paramMap_
      Parser.htmlConfig (Bytes.ofString "html") := ⟨by decide, by decide, by decide⟩
  have hsurplus : Parser.surplus (Parser.afterHeaders (Bytes.ofString "close")).paramMap_ =
      [13, 10] := by decide
  refine fun hframed => not_surplus hpart ?_
  have hbody := ((framed_responseHead_iff hline).1 (hmessage ▸ hframed)).1
  rw [hsurplus] at hbody
  exact hbody

/-! ## Reachable caches -/

/-- What the requests of a run find provides the contents. -/
theorem provides_of_reachable {W : Type} [DecidableEq W] {c : Cache W} {file : VipFile}
    (hzlib : file.zlib.Correct) (hcache : Cacheable file) (h : (Cache.runs file).Reachable c)
    (q : VipRequest) : Provides (c.environment file q) file.cfg file.g_file file.contents where
  fopen := rfl
  fopenVip := rfl
  unpacks := by
    intro s body hget hs hsize hunpack
    have hinv := Cache.inv_of_reachable hzlib hcache h
    have hmap : c.g_zlibMap = file.contents.length := hinv.size.resolve_left hsize
    have hredis : c.redis = some s := by
      simp only [Cache.environment] at hget
      split at hget
      · cases hget
      · cases hvalue : c.redis with
        | none =>
            rw [hvalue] at hget
            cases hget
            exact absurd rfl hs
        | some s' =>
            rw [hvalue] at hget
            exact hget
    refine ⟨?_, hmap.trans (toInt_of_lt hcache.1).symm⟩
    change file.zlib.uncompress s c.g_zlibMap.toNat = some body at hunpack
    rcases hinv.value s hredis with hpacked | ⟨-, hforeign⟩
    · obtain ⟨hne, rfl, -⟩ := VipFile.packed_eq_some hpacked
      rw [hmap, Int.toNat_natCast, hzlib.inverts _ hne] at hunpack
      cases hunpack
      rfl
    · rw [hzlib.rejects s hforeign] at hunpack
      cases hunpack

end Web
end Longky
