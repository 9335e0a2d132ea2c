import Longky.Lib.Message
import Longky.Web.HttpRequest
import Longky.Web.Paths

/-!
# Decoding — what is read off a well-formed request

A `GetRequest` is a request as a client puts it together; `text` are its bytes.  The scanner of the
static server takes it apart again: `parserRequest_decodes` says that `responseRequest` is called
with the path and the type of the file, on a parser that holds the version and the headers.

The version shares its map with the headers, so a header of that name takes its place.
-/

namespace Longky
namespace Web

open Lib

/-! ## Header fields -/

/-- A header line: a name, a colon and what follows it. -/
structure FieldLine where
  name : Bytes
  rest : Bytes
  name_colon : 58 ∉ name
  name_line : Bytes.findCRLF name = none
  rest_line : Bytes.findCRLF rest = none

namespace FieldLine

def text (l : FieldLine) : Bytes := l.name ++ 58 :: l.rest

/-- Header lines and the empty line behind them. -/
def block (ls : List FieldLine) : Bytes := ls.flatMap (fun l => l.text ++ [13, 10]) ++ [13, 10]

/-- What the loop assigns for a line. -/
def entry (l : FieldLine) : Bytes × Bytes := (l.name, l.rest.drop 1)

theorem text_line (l : FieldLine) : Bytes.findCRLF l.text = none := by
  have hcolon : Bytes.findCRLF (58 :: l.rest) = none :=
    Bytes.findCRLF_append_of_not_mem (show 13 ∉ [58] by decide) l.rest_line
  exact Bytes.findCRLF_append_of_head l.name_line hcolon (by simp)

theorem block_cons (l : FieldLine) (ls : List FieldLine) :
    block (l :: ls) = l.text ++ 13 :: 10 :: block ls := by
  simp [block]

theorem headerLoop_cons (l : FieldLine) (ls : List FieldLine) :
    headerLoop (block (l :: ls)) =
      if l.rest = [] then .error .lengthError
      else headerLoop (block ls) >>= fun r => .ok (l.entry :: r.1, r.2) := by
  rw [block_cons]
  exact headerLoop_line l.name_colon l.text_line _

/-- The loop over lines that have something behind their colons. -/
theorem headerLoop_block {ls : List FieldLine} (h : ∀ l ∈ ls, l.rest ≠ []) :
    headerLoop (block ls) = .ok (ls.map entry, true) := by
  induction ls with
  | nil => exact HeaderLine.headerLoop_blank []
  | cons l ls ih =>
      rw [headerLoop_cons, if_neg (h l List.mem_cons_self),
        ih fun l' hl' => h l' (List.mem_cons_of_mem _ hl')]
      rfl

end FieldLine

/-! ## Requests -/

/-- A header with one blank in front of its value. -/
structure HeaderField where
  name : Bytes
  value : Bytes
  name_colon : 58 ∉ name
  name_line : Bytes.findCRLF name = none
  value_line : Bytes.findCRLF value = none

def HeaderField.line (f : HeaderField) : FieldLine where
  name := f.name
  rest := 32 :: f.value
  name_colon := f.name_colon
  name_line := f.name_line
  rest_line := Bytes.findCRLF_append_of_not_mem (show 13 ∉ [32] by decide) f.value_line

/-- The numbers of blanks behind the method and behind the URL count from one. -/
structure GetRequest where
  gap : Nat
  url : Bytes
  gap' : Nat
  version : Bytes
  headers : List HeaderField
  url_length : url.length ≤ 254
  url_blank : 32 ∉ url
  url_nul : 0 ∉ url
  version_known : version ∈
    [Bytes.ofString "1.0", Bytes.ofString "1.1", Bytes.ofString "2.0"]

namespace GetRequest

def blanks (gap : Nat) : Bytes := List.replicate (gap + 1) 32

/-- Version and headers. -/
def head (r : GetRequest) : Bytes :=
  Bytes.ofString "HTTP/" ++ r.version ++ 13 :: 10 ::
    FieldLine.block (r.headers.map HeaderField.line)

def text (r : GetRequest) : Bytes :=
  Bytes.ofString "GET" ++ blanks r.gap ++ r.url ++ blanks r.gap' ++ r.head

end GetRequest

/-! ## The file -/

def namedPath (cfg : Config) (url : Bytes) : Bytes := cfg.g_resource_base_path ++ url

def indexPage (cfg : Config) : Bytes := cfg.g_resource_base_path ++ cfg.g_resource_index_path

/-- The path that is looked up. -/
def lookedUp (cfg : Config) (url : Bytes) : Bytes :=
  if (namedPath cfg url).getLast? = some 47 then indexPage cfg else namedPath cfg url

/-- The URL leads to this path: what is looked up exists and is readable, and the path, which is the
index page in place of a directory, has an extension of a known type. -/
def LeadsTo (cfg : Config) (stat : Bytes → Option Nat) (url path mime : Bytes) : Prop :=
  (namedPath cfg url).length < 255 ∧
    (∃ st_mode, stat (lookedUp cfg url) = some st_mode ∧ unreadable st_mode = false ∧
      path = if isDirectory st_mode then indexPage cfg else lookedUp cfg url) ∧
    (∃ stem, path = stem ++ 46 :: mime) ∧ 46 ∉ mime ∧ (cfg.mimeType mime).isSome = true

namespace Parser

/-- `parserRequest` comes to `responseRequest`, and has made a parser `p'` of `p` on its way. -/
def Calls (p p' : Parser) (cfg : Config) (v : Visit) (path mime : Bytes) : Prop :=
  ∃ s, scan cfg v.env.stat v.request = .ok s ∧ s.verdict = .serve path mime ∧
    p' = p.assign s.assigned ∧
    p.parserRequest cfg v = do
      let served ← p'.responseRequest cfg v path mime
      return { served with
        calls := setFile s ++ .setContextkv (Bytes.ofString "connectionFlag")
          (p'.paramMap_ (Bytes.ofString "Connection")) :: served.calls }

/-- The map has the last value of each header. -/
def HoldsHeaders (p : Parser) (headers : List HeaderField) : Prop :=
  ∀ before f after, headers = before ++ f :: after → (∀ f' ∈ after, f'.name ≠ f.name) →
    p.paramMap_ f.name = f.value

/-- All of the request is passed on: its path and type, its version and its headers. -/
def Decodes (p : Parser) (cfg : Config) (v : Visit) (r : GetRequest) (path mime : Bytes) : Prop :=
  ∃ p', Calls p p' cfg v path mime ∧ p'.paramMap_ (Bytes.ofString "version") = r.version ∧
    p'.HoldsHeaders r.headers

end Parser

/-! ## Scanning -/

section Scan

variable {cfg : Config} {stat : Bytes → Option Nat} {path mime : Bytes}

theorem dropWhile_blanks {skipped : UInt8 → Bool} (h : skipped 32 = true) (gap : Nat) (t : Bytes) :
    (GetRequest.blanks gap ++ t).dropWhile skipped = t.dropWhile skipped := by
  refine List.dropWhile_append_of_pos ?_
  intro c hc
  rw [List.eq_of_mem_replicate hc]
  exact h

/-- The method and the blanks behind it. -/
theorem scanMethod_get (gap : Nat) (t : Bytes) :
    scanMethod 15 (Bytes.ofString "GET" ++ GetRequest.blanks gap ++ t) =
      .ok (Bytes.ofString "GET", GetRequest.blanks gap ++ t) := by
  have hget : Bytes.ofString "GET" = [71, 69, 84] := by decide
  rw [hget]
  rfl

theorem scanUrl_blank {url : Bytes} (hblank : 32 ∉ url) (hlen : url.length ≤ 254) (t : Bytes) :
    scanUrl (url ++ 32 :: t) = (url, 32 :: t) := by
  have hall : ∀ c ∈ url, (c != 32) = true := by
    intro c hc
    rw [bne_iff_ne]
    rintro rfl
    exact hblank hc
  have htake : (url ++ 32 :: t).takeWhile (· != 32) = url := by
    rw [List.takeWhile_append_of_pos hall]
    simp
  simp only [scanUrl, htake, List.take_of_length_le hlen, List.drop_left]

/-- The checks in front of the version, for a URL that does not start with white space. -/
theorem locate_text (r : GetRequest) {c : UInt8} (hhead : r.url.head? = some c)
    (hc : Bytes.isspace c = false) :
    locate cfg stat r.text = locateFile cfg stat r.url (GetRequest.blanks r.gap' ++ r.head) := by
  have hcase : Bytes.caseEq (Bytes.ofString "GET") (Bytes.ofString "GET") = true := by decide
  have hskip : (r.url ++ (GetRequest.blanks r.gap' ++ r.head)).dropWhile Bytes.isspace =
      r.url ++ (GetRequest.blanks r.gap' ++ r.head) := by
    cases hurl : r.url with
    | nil =>
        rw [hurl] at hhead
        cases hhead
    | cons d url =>
        rw [hurl] at hhead
        cases hhead
        rw [List.cons_append, List.dropWhile_cons_of_neg (by simp [hc])]
  have hurl := scanUrl_blank r.url_blank r.url_length (List.replicate r.gap' 32 ++ r.head)
  unfold GetRequest.text
  rw [List.append_assoc, List.append_assoc _ r.url, locate, scanMethod_get]
  simp only [bind, Except.bind, hcase, Bool.not_true, Bool.false_eq_true, if_false]
  rw [dropWhile_blanks (by decide), hskip]
  exact congrArg (fun u => locateFile cfg stat u.1 u.2) hurl

theorem pathOf_lookedUp {url : Bytes} (hbase : Verbatim cfg.g_resource_base_path)
    (hnul : 0 ∉ url) (hne : url ≠ []) (hfits : (namedPath cfg url).length < 255)
    (hlength : (lookedUp cfg url).length < 255) (hclean : 0 ∉ lookedUp cfg url) :
    pathOf cfg url = .ok (lookedUp cfg url) := by
  have hprinted : printed cfg url = .ok (namedPath cfg url) := by
    rw [printed_verbatim hbase, Bytes.cStr_eq_self hnul]
    exact if_pos hfits
  by_cases hlast : (namedPath cfg url).getLast? = some 47
  · have heq : lookedUp cfg url = indexPage cfg := if_pos hlast
    rw [heq] at hlength hclean ⊢
    rw [pathOf_eq, hprinted]
    simp only [bind, Except.bind, hlast, if_true]
    change intoPath (Bytes.cStr (indexPage cfg)) = _
    rw [Bytes.cStr_eq_self hclean]
    exact if_pos hlength
  · have heq : lookedUp cfg url = namedPath cfg url := if_neg hlast
    rw [heq]
    exact pathOf_of_printed hprinted (by simp [namedPath, hne]) hlast

theorem extension_eq {stem : Bytes} (hdot : 46 ∉ mime) : extension (stem ++ 46 :: mime) = mime := by
  have hall : ∀ c ∈ mime.reverse, (c != 46) = true := by
    intro c hc
    rw [bne_iff_ne]
    rintro rfl
    exact hdot (List.mem_reverse.1 hc)
  have hreverse : (stem ++ 46 :: mime).reverse = mime.reverse ++ 46 :: stem.reverse := by simp
  rw [extension, hreverse, List.takeWhile_append_of_pos hall]
  simp

/-- The file of a well-formed request is found. -/
theorem locateFile_leadsTo {url : Bytes} (hbase : Verbatim cfg.g_resource_base_path)
    (hnul : 0 ∉ url) (hne : url ≠ []) (h : LeadsTo cfg stat url path mime)
    (hlength : path.length < 255) (hclean : 0 ∉ path) (rest : Bytes) :
    locateFile cfg stat url rest =
      .ok (.found (lookedUp cfg url) path mime (rest.dropWhile (· == 32))) := by
  rcases h with ⟨hfits, ⟨st_mode, hstat, hreadable, hpath⟩, ⟨stem, hstem⟩, hdot, hknown⟩
  have hnamed : 0 ∉ namedPath cfg url := by simp [namedPath, hbase.2, hnul]
  -- what is looked up is the path, or the URL behind the base path
  have hlookedUp : (lookedUp cfg url).length < 255 ∧ 0 ∉ lookedUp cfg url := by
    by_cases hlast : (namedPath cfg url).getLast? = some 47
    · have heq : path = lookedUp cfg url := by
        rw [hpath, lookedUp, if_pos hlast, ite_self]
      exact heq ▸ ⟨hlength, hclean⟩
    · rw [lookedUp, if_neg hlast]
      exact ⟨hfits, hnamed⟩
  have hserved : servedPath cfg (lookedUp cfg url) st_mode = .ok path := by
    unfold servedPath
    by_cases hdir : isDirectory st_mode = true
    · rw [if_pos hdir] at hpath
      subst hpath
      rw [if_pos hdir]
      change intoPath (Bytes.cStr (indexPage cfg)) = _
      rw [Bytes.cStr_eq_self hclean]
      exact if_pos hlength
    · rw [if_neg hdir] at hpath ⊢
      rw [hpath]
  have hmime : extension path = mime := by rw [hstem, extension_eq hdot]
  have hfound : (cfg.mimeType mime).isNone = false := by
    rw [Option.isNone_eq_false_iff]
    exact hknown
  unfold locateFile
  rw [pathOf_lookedUp hbase hnul hne hfits hlookedUp.1 hlookedUp.2]
  simp only [bind, Except.bind, hstat, hreadable, Bool.false_eq_true, if_false, hserved, hmime,
    hfound]
  rfl

/-- The version and the headers of a well-formed request. -/
theorem scanHead_head (r : GetRequest) :
    scanHead r.head = .ok ((Bytes.ofString "version", r.version) ::
      r.headers.map (fun f => (f.name, f.value)), none) := by
  have hprotocol : (Bytes.ofString "HTTP/").length = 5 := by decide
  -- the line has the protocol and three more bytes
  have hversion : 13 ∉ r.version ∧ r.version.length = 3 ∧
      refused (Bytes.ofString "HTTP/") r.version = false := by
    have hknown := r.version_known
    revert hknown
    generalize r.version = version
    intro hknown
    simp only [List.mem_cons, List.not_mem_nil, or_false] at hknown
    rcases hknown with rfl | rfl | rfl <;> decide
  have hline : 13 ∉ Bytes.ofString "HTTP/" ++ r.version := by
    have hhttp : 13 ∉ Bytes.ofString "HTTP/" := by decide
    simp [hhttp, hversion.1]
  have hlen : (Bytes.ofString "HTTP/" ++ r.version).length = 8 := by
    rw [List.length_append, hprotocol, hversion.2.1]
  have htake : (Bytes.ofString "HTTP/" ++ r.version).take (8 - 3) = Bytes.ofString "HTTP/" :=
    List.take_left' hprotocol
  have hdrop : (Bytes.ofString "HTTP/" ++ r.version).drop (8 - 3) = r.version :=
    List.drop_left' hprotocol
  have hloop : headerLoop (FieldLine.block (r.headers.map HeaderField.line)) =
      .ok (r.headers.map (fun f => (f.name, f.value)), true) := by
    rw [FieldLine.headerLoop_block, List.map_map]
    · rfl
    · intro l hl
      rcases List.mem_map.1 hl with ⟨f, -, rfl⟩
      exact List.cons_ne_nil _ _
  rw [GetRequest.head, scanHead_line hline, hlen, htake, hdrop, hversion.2.2, hloop]
  rfl

theorem scan_text (r : GetRequest) {c : UInt8} (hhead : r.url.head? = some c)
    (hc : Bytes.isspace c = false) (hbase : Verbatim cfg.g_resource_base_path)
    (h : LeadsTo cfg stat r.url path mime) (hlength : path.length < 255) (hclean : 0 ∉ path) :
    scan cfg stat r.text = .ok ⟨some (lookedUp cfg r.url),
      (Bytes.ofString "version", r.version) :: r.headers.map (fun f => (f.name, f.value)),
      .serve path mime⟩ := by
  have hne : r.url ≠ [] := by
    intro hurl
    rw [hurl] at hhead
    cases hhead
  have hskip : (GetRequest.blanks r.gap' ++ r.head).dropWhile (· == 32) = r.head := by
    have hhttp : Bytes.ofString "HTTP/" = [72, 84, 84, 80, 47] := by decide
    rw [dropWhile_blanks (by decide), GetRequest.head, hhttp]
    rfl
  rw [scan, locate_text r hhead hc, locateFile_leadsTo hbase r.url_nul hne h hlength hclean, hskip]
  simp only [bind, Except.bind, scanHead_head]
  rfl

end Scan

namespace Parser

/-! ## The call of `responseRequest` -/

/-- A well-formed request whose URL starts with no white space leads to a call of `responseRequest`
with the path and type of its file, when the map holds its version, unless a header has taken its
place, and the last value of each header. -/
theorem parserRequest_decodes (p : Parser) {cfg : Config} {v : Visit} (r : GetRequest) {c : UInt8}
    {path mime : Bytes} (hrequest : v.request = r.text) (hhead : r.url.head? = some c)
    (hc : Bytes.isspace c = false) (hbase : Verbatim cfg.g_resource_base_path)
    (h : LeadsTo cfg v.env.stat r.url path mime) (hlength : path.length < 255)
    (hclean : 0 ∉ path) :
    ∃ p', Calls p p' cfg v path mime ∧
      ((∀ f ∈ r.headers, f.name ≠ Bytes.ofString "version") →
        p'.paramMap_ (Bytes.ofString "version") = r.version) ∧
      p'.HoldsHeaders r.headers := by
  have hscan := scan_text r hhead hc hbase h hlength hclean
  rw [← hrequest] at hscan
  refine ⟨_, ⟨_, hscan, rfl, rfl, ?_⟩, ?_, ?_⟩
  · rw [parserRequest, hscan]
    rfl
  · intro hversion
    refine @writeAll_last _ _ _ p.paramMap_ _ [] _ _ ?_
    intro kv hkv
    rcases List.mem_map.1 hkv with ⟨f, hf, rfl⟩
    exact hversion f hf
  · intro before f after hsplit hlast
    rw [hsplit, List.map_append, List.map_cons, ← List.cons_append]
    refine writeAll_last ?_
    intro kv hkv
    rcases List.mem_map.1 hkv with ⟨f', hf', rfl⟩
    exact hlast f' hf'

def getUrl (url : Bytes) (hlength : url.length ≤ 254) (hblank : 32 ∉ url) (hnul : 0 ∉ url) :
    GetRequest where
  gap := 0
  url := url
  gap' := 0
  version := Bytes.ofString "1.1"
  headers := []
  url_length := hlength
  url_blank := hblank
  url_nul := hnul
  version_known := by decide

def getPage : GetRequest := getUrl (Bytes.ofString "/a.html") (by decide) (by decide) (by decide)

/-- A request with a header twice, and a value with a colon in it. -/
def getHeaders : GetRequest :=
  { getPage with
    headers := [⟨Bytes.ofString "Connection", Bytes.ofString "keep-alive", by decide, by decide, by decide⟩,
      ⟨Bytes.ofString "Connection", Bytes.ofString "close", by decide, by decide, by decide⟩,
      ⟨Bytes.ofString "Host", Bytes.ofString "localhost:80", by decide, by decide, by decide⟩] }

/-- An HTML file that is no index page, where every file can be read. -/
theorem leadsTo_readable {cfg : Config} (r : GetRequest) (stem : Bytes)
    (hpath : namedPath cfg r.url = stem ++ 46 :: Bytes.ofString "html")
    (hfits : (namedPath cfg r.url).length < 255)
    (hknown : (cfg.mimeType (Bytes.ofString "html")).isSome = true) :
    LeadsTo cfg readableFile r.url (namedPath cfg r.url) (Bytes.ofString "html") := by
  have hlast : (namedPath cfg r.url).getLast? ≠ some 47 := by
    have hhtml : Bytes.ofString "html" = [104, 116, 109, 108] := by decide
    rw [hpath, hhtml]
    simp
  refine ⟨hfits, ⟨_, rfl, rfl, ?_⟩, ⟨stem, hpath⟩, by decide, hknown⟩
  rw [lookedUp, if_neg hlast]
  rfl

theorem parserRequest_decodes_headers :
    ∃ p', Calls (construct false) p' htmlConfig ⟨getHeaders.text, readableFiles, .kConnected⟩
        (Bytes.ofString "/www/a.html") (Bytes.ofString "html") ∧
      p'.paramMap_ (Bytes.ofString "version") = Bytes.ofString "1.1" ∧
      p'.paramMap_ (Bytes.ofString "Connection") = Bytes.ofString "close" := by
  have hleads := @leadsTo_readable htmlConfig getHeaders (Bytes.ofString "/www/a") rfl
    (by decide) rfl
  rcases parserRequest_decodes (construct false) getHeaders
      (v := ⟨getHeaders.text, readableFiles, .kConnected⟩) rfl rfl (by decide) (by decide) hleads
      (by decide) (by decide) with ⟨p', hcalls, hversion, hheaders⟩
  refine ⟨p', hcalls, hversion (by decide), ?_⟩
  exact hheaders [_] _ [_] rfl (by decide)

/-! ## Requests that are read otherwise -/

/-- The URL leads to a file, and yet the request is decoded by no worker. -/
def Undecoded (cfg : Config) (stat : Bytes → Option Nat) (r : GetRequest) : Prop :=
  ∃ path mime, LeadsTo cfg stat r.url path mime ∧
    ∀ p v, v.request = r.text → v.env.stat = stat → ¬ Decodes p cfg v r path mime

/-- Another path is found, or none, or no version behind it. -/
theorem undecoded_of_locate {cfg : Config} {stat : Bytes → Option Nat} {r : GetRequest}
    {path mime : Bytes} (h : LeadsTo cfg stat r.url path mime)
    (hlocate : ∀ file path' rest, locate cfg stat r.text = .ok (.found file path' mime rest) →
      path' ≠ path ∨ Bytes.findCRLF rest = none) : Undecoded cfg stat r := by
  refine ⟨path, mime, h, ?_⟩
  rintro p v hrequest hstat ⟨p', ⟨s, hscan, hserve, -⟩, -⟩
  rw [hrequest, hstat] at hscan
  rcases scan_eq_serve hscan hserve with ⟨file, rest, hfound, -, hhead⟩
  rcases hlocate file path rest hfound with hpath | hnone
  · exact hpath rfl
  · rcases scanHead_complete hhead with ⟨crlf, headers, hcrlf, -⟩
    rw [hnone] at hcrlf
    cases hcrlf

/-- A request with a header that has the version's name. -/
def getVersion : GetRequest :=
  { getPage with
    headers := [⟨Bytes.ofString "version", Bytes.ofString "9", by decide, by decide, by decide⟩] }

def getTab : GetRequest := getUrl (Bytes.ofString "\t/a.html") (by decide) (by decide) (by decide)

def getNothing : GetRequest := getUrl [] (by decide) (by decide) (by decide)

def getRoot : GetRequest := getUrl (Bytes.ofString "/") (by decide) (by decide) (by decide)

/-- Every name is a directory. -/
def directories (_ : Bytes) : Option Nat := some 0o040644

def percentConfig : Config := { htmlConfig with g_resource_base_path := Bytes.ofString "/w%%w" }

def longIndexConfig : Config :=
  { htmlConfig with
    g_resource_index_path := List.replicate 300 97 ++ Bytes.ofString ".html" }

/-- What a well-formed request can meet: a header named `version`, white space that is skipped with
the blanks in front of the URL, no URL, a base path that is not a format of itself, and an index
page whose path is too long. -/
theorem undecoded_requests :
    Undecoded htmlConfig readableFile getVersion ∧ Undecoded htmlConfig readableFile getTab ∧
      Undecoded htmlConfig directories getNothing ∧ Undecoded percentConfig readableFile getPage ∧
      Undecoded longIndexConfig readableFile getRoot := by
  refine ⟨?_, ?_, ?_, ?_, ?_⟩
  · refine ⟨_, _, leadsTo_readable getVersion (Bytes.ofString "/www/a") rfl (by decide) rfl, ?_⟩
    · rintro p v - - ⟨p', -, hversion, hheaders⟩
      have hheader := hheaders [] _ [] rfl (by simp)
      exact absurd (hversion.symm.trans hheader) (by decide)
  · have hleads := @leadsTo_readable htmlConfig getTab (Bytes.ofString "/www\t/a") rfl
      (by decide) rfl
    refine undecoded_of_locate hleads ?_
    intro file path rest h
    have hlocate : locate htmlConfig readableFile getTab.text =
        .ok (.found (Bytes.ofString "/www/a.html") (Bytes.ofString "/www/a.html")
          (Bytes.ofString "html") (Bytes.ofString "HTTP/1.1\r\n\r\n")) := rfl
    rw [hlocate, Except.ok.injEq, Located.found.injEq] at h
    refine Or.inl ?_
    rw [← h.2.1]
    decide
  · have hleads : LeadsTo htmlConfig directories getNothing.url (Bytes.ofString "/www/index.html")
        (Bytes.ofString "html") :=
      ⟨by decide, ⟨_, rfl, rfl, rfl⟩, ⟨Bytes.ofString "/www/index", rfl⟩, by decide, rfl⟩
    refine undecoded_of_locate hleads ?_
    intro file path rest h
    have hlocate : locate htmlConfig directories getNothing.text =
        .ok (.found (Bytes.ofString "/wwwHTTP/1.1\r\n\r\n") (Bytes.ofString "/www/index.html")
          (Bytes.ofString "html") []) := rfl
    rw [hlocate, Except.ok.injEq, Located.found.injEq] at h
    refine Or.inr ?_
    rw [← h.2.2.2]
    rfl
  · have hleads := @leadsTo_readable percentConfig getPage (Bytes.ofString "/w%%w/a") rfl
      (by decide) rfl
    refine undecoded_of_locate hleads ?_
    intro file path rest h
    -- the base path comes out of `sprintf` with one percent sign
    have hlocate : locate percentConfig readableFile getPage.text =
        .ok (.found (Bytes.ofString "/w%w/a.html") (Bytes.ofString "/w%w/a.html")
          (Bytes.ofString "html") (Bytes.ofString "HTTP/1.1\r\n\r\n")) := rfl
    rw [hlocate, Except.ok.injEq, Located.found.injEq] at h
    refine Or.inl ?_
    rw [← h.2.1]
    decide
  · have hleads : LeadsTo longIndexConfig readableFile getRoot.url (indexPage longIndexConfig)
        (Bytes.ofString "html") :=
      ⟨by decide, ⟨_, rfl, rfl, rfl⟩,
        ⟨Bytes.ofString "/www" ++ List.replicate 300 97, (List.append_assoc _ _ _).symm⟩, by decide, rfl⟩
    refine undecoded_of_locate hleads ?_
    intro file path rest h
    have hlocate : locate longIndexConfig readableFile getRoot.text = .error .overflow := by
      decide +kernel
    rw [hlocate] at h
    cases h

end Parser

end Web
end Longky
