import Longky.Lib.LexicalPath
import Longky.Web.HeaderIsolation

/-!
# Paths — where a URL leads

`parserRequest` prints the URL behind the base path as it is, and hands the result to `stat`, to the
connection's context and to `responseRequest`.  Nothing looks at the segments of the URL, so `..`
leads out of the base path, and a URL without a leading slash continues its last segment.

`confined_iff` says which requests keep every such path below the base path, or at the index page.
-/

namespace Longky
namespace Web

open Lib

/-! ## Texts as routes -/

/-- A segment between slashes; an empty one and a dot lead nowhere. -/
def stepOf (segment : Bytes) : Option (PathStep Bytes) :=
  if segment = [] ∨ segment = Bytes.ofString "." then none
  else if segment = Bytes.ofString ".." then some .up
  else some (.down segment)

def pathSteps (text : Bytes) : List (PathStep Bytes) := (text.splitOn 47).filterMap stepOf

/-- A path with its dots resolved lexically. -/
def route (text : Bytes) : Route Bytes :=
  .resolve (text.head? == some 47) (pathSteps text)

/-- No segment is a dot or two dots. -/
def NoDots (text : Bytes) : Prop :=
  ∀ segment ∈ text.splitOn 47, segment ≠ Bytes.ofString "." ∧ segment ≠ Bytes.ofString ".."

instance (text : Bytes) : Decidable (NoDots text) :=
  inferInstanceAs (Decidable (∀ segment ∈ text.splitOn 47, _ ∧ _))

/-- The resolved path has the base path as a prefix at a segment boundary. -/
def HasPrefix (base path : Bytes) : Prop := base = [] ∨ (route base).Under (route path)

instance (base path : Bytes) : Decidable (HasPrefix base path) :=
  inferInstanceAs (Decidable (_ ∨ _))

theorem pathSteps_nil : pathSteps [] = [] := by
  decide

/-- A slash ends the segments in front of it. -/
theorem pathSteps_append_slash (xs ys : Bytes) :
    pathSteps (xs ++ 47 :: ys) = pathSteps xs ++ pathSteps ys := by
  unfold pathSteps
  rw [List.splitOn_append_cons_self, List.filterMap_append]

/-- One segment that is not two dots leads down or nowhere. -/
theorem pathSteps_single {segment : Bytes} (hslash : 47 ∉ segment)
    (hdots : segment ≠ Bytes.ofString "..") :
    pathSteps segment = [] ∨ pathSteps segment = [.down segment] := by
  unfold pathSteps
  rw [List.splitOn_eq_singleton hslash]
  by_cases hnone : segment = [] ∨ segment = Bytes.ofString "."
  · exact Or.inl (by simp [stepOf, hnone])
  · exact Or.inr (by simp [stepOf, hnone, hdots])

/-! ## The last segment of the base path -/

/-- What follows the last slash; a URL without a leading slash continues it. -/
def stem (base : Bytes) : Bytes := (base.reverse.takeWhile (· != 47)).reverse

/-- The base path up to its last slash. -/
def dir (base : Bytes) : Bytes := (base.reverse.dropWhile (· != 47)).reverse

theorem dir_append_stem (base : Bytes) : dir base ++ stem base = base := by
  unfold dir stem
  rw [← List.reverse_append, List.takeWhile_append_dropWhile, List.reverse_reverse]

theorem slash_not_mem_stem (base : Bytes) : 47 ∉ stem base := by
  intro h
  have hmem := List.mem_takeWhile_imp (List.mem_reverse.1 h)
  simp at hmem

theorem dir_cases (base : Bytes) : dir base = [] ∨ ∃ xs, dir base = xs ++ [47] := by
  unfold dir
  cases hrest : base.reverse.dropWhile (· != 47) with
  | nil => exact Or.inl rfl
  | cons c rest =>
      have hc : c = 47 := by
        have hhead := List.head?_dropWhile_not (· != 47) base.reverse
        rw [hrest] at hhead
        simpa using hhead
      exact Or.inr ⟨rest.reverse, by rw [hc, List.reverse_cons]⟩

theorem pathSteps_dir_append (base text : Bytes) :
    pathSteps (dir base ++ text) = pathSteps (dir base) ++ pathSteps text := by
  rcases dir_cases base with hnil | ⟨xs, hxs⟩
  · rw [hnil, pathSteps_nil]
    rfl
  · rw [hxs, List.append_assoc, List.singleton_append, pathSteps_append_slash,
      pathSteps_append_slash, pathSteps_nil, List.append_nil]

/-- What follows a base path does not change whether it starts at the root. -/
theorem head?_dir {base : Bytes} (hne : base ≠ []) (text : Bytes) :
    ((dir base).head? == some 47) = ((base ++ text).head? == some 47) := by
  rcases dir_cases base with hnil | ⟨xs, hxs⟩
  · -- no slash at all
    have hstem : stem base = base := by
      have happend := dir_append_stem base
      rwa [hnil, List.nil_append] at happend
    cases base with
    | nil => exact absurd rfl hne
    | cons c rest =>
        have hc : c ≠ 47 := by
          rintro rfl
          have hmem := slash_not_mem_stem (47 :: rest)
          rw [hstem] at hmem
          exact hmem List.mem_cons_self
        simp [hnil, hc]
  · have hhead : (dir base ++ (stem base ++ text)).head? = (dir base).head? := by
      rw [hxs]
      cases xs <;> rfl
    rw [← hhead, ← List.append_assoc, dir_append_stem]

theorem stem_ne_dots {base : Bytes} (h : NoDots base) : stem base ≠ Bytes.ofString ".." := by
  have hmem : stem base ∈ base.splitOn 47 := by
    have hsplit : (stem base).splitOn 47 = [stem base] :=
      List.splitOn_eq_singleton (slash_not_mem_stem base)
    rcases dir_cases base with hnil | ⟨xs, hxs⟩
    · have happend := dir_append_stem base
      rw [hnil, List.nil_append] at happend
      rw [happend] at hsplit
      rw [hsplit, happend]
      exact List.mem_singleton_self _
    · have happend := dir_append_stem base
      rw [hxs, List.append_assoc, List.singleton_append] at happend
      have hlast : stem base ∈ (xs ++ 47 :: stem base).splitOn 47 := by
        rw [List.splitOn_append_cons_self, hsplit]
        exact List.mem_append_right _ (List.mem_singleton_self _)
      rwa [happend] at hlast
  exact (h _ hmem).2

/-! ## A URL behind the base path -/

/-- The last segment of the base path and the URL, resolved on their own, come down again through
the segments of the base path that they left. -/
def Inside (base url : Bytes) : Prop :=
  let d := route (dir base)
  let u := Route.resolve false (pathSteps (stem base ++ url))
  (d.rooted = true ∨ u.ups ≤ d.names.length) ∧
    (route base).names.drop (d.names.length - u.ups) <+: u.names

instance (base url : Bytes) : Decidable (Inside base url) :=
  inferInstanceAs (Decidable ((_ ∨ _) ∧ _))

theorem under_route_append {base : Bytes} (hne : base ≠ []) (hdots : NoDots base) (url : Bytes) :
    (route base).Under (route (base ++ url)) ↔ Inside base url := by
  have hsteps : ∀ text, route (base ++ text) =
      (route (dir base)).join (.resolve false (pathSteps (stem base ++ text))) := by
    intro text
    unfold route
    rw [← head?_dir hne text, ← Route.resolve_append]
    conv_lhs => rw [← dir_append_stem base]
    rw [List.append_assoc, pathSteps_dir_append, dir_append_stem]
  -- the base path itself is its directory and at most one name
  have hbase := hsteps []
  rw [List.append_nil, List.append_nil] at hbase
  have hlast := pathSteps_single (slash_not_mem_stem base) (stem_ne_dots hdots)
  have hups : (Route.resolve false (pathSteps (stem base))).ups = 0 := by
    rcases hlast with h | h <;> rw [h] <;> rfl
  have hroot : (route base).rooted = (route (dir base)).rooted := by rw [hbase]; rfl
  have hsame : (route base).ups = (route (dir base)).ups := by
    rw [hbase]
    simp [Route.join, hups]
  have hnames : (route (dir base)).names <+: (route base).names := by
    rw [hbase]
    simp [Route.join, hups]
  rw [hsteps url, Route.under_join_iff hroot hsame hnames]
  rfl

/-! ## The paths of a request -/

/-- The URL, if the request is a GET request. -/
def requestedUrl (request : Bytes) : Option Bytes :=
  match scanMethod 15 request with
  | .error _ => none
  | .ok (method, rest) =>
      if Bytes.caseEq method (Bytes.ofString "GET") then
        some (scanUrl (rest.dropWhile Bytes.isspace)).1
      else none

/-- What `sprintf` leaves in `path`. -/
def printed (cfg : Config) (url : Bytes) : Except Fault Bytes := do
  intoPath (← sprintf (some (Bytes.cStr url))
    (Bytes.cStr (cfg.g_resource_base_path ++ Bytes.ofString "%s")))

/-- The paths that are handed on: to `stat` and the connection's context, and to
`responseRequest`. -/
inductive Handed (cfg : Config) (stat : Bytes → Option Nat) (request : Bytes) : Bytes → Prop where
  | file {url path : Bytes} : requestedUrl request = some url → pathOf cfg url = .ok path →
      Handed cfg stat request path
  | response {s : Scan} {path mime : Bytes} : scan cfg stat request = .ok s →
      s.verdict = .serve path mime → Handed cfg stat request path

def indexText (cfg : Config) : Bytes :=
  Bytes.cStr (cfg.g_resource_base_path ++ cfg.g_resource_index_path)

/-- The base path as the C functions see it. -/
def basePath (cfg : Config) : Bytes := Bytes.cStr cfg.g_resource_base_path

/-- The path leads to the index page, or to the base path or below it. -/
def Stays (cfg : Config) (path : Bytes) : Prop :=
  route path = route (indexText cfg) ∨ HasPrefix (basePath cfg) path

/-- `sprintf` prints the base path as it is. -/
def Verbatim (base : Bytes) : Prop := 37 ∉ base ∧ 0 ∉ base

instance (base : Bytes) : Decidable (Verbatim base) := inferInstanceAs (Decidable (_ ∧ _))

/-- A printed path that is not replaced by the index page leads to that page all the same, or its
URL stays inside the base path. -/
def TextConfined (cfg : Config) (url text : Bytes) : Prop :=
  route text = route (indexText cfg) ∨ basePath cfg = [] ∨
    if Verbatim cfg.g_resource_base_path then
      Inside cfg.g_resource_base_path (Bytes.cStr url)
    else (route (basePath cfg)).Under (route text)

/-- The request is refused, or its path ends in a slash, or it stays inside the base path. -/
def Confined (cfg : Config) (request : Bytes) : Prop :=
  ∀ url ∈ requestedUrl request, ∀ text ∈ (printed cfg url).toOption,
    text = [] ∨ text.getLast? = some 47 ∨ TextConfined cfg url text

instance (cfg : Config) (url text : Bytes) : Decidable (TextConfined cfg url text) :=
  inferInstanceAs (Decidable (_ ∨ _ ∨ if Verbatim cfg.g_resource_base_path then _ else _))

instance (cfg : Config) (request : Bytes) : Decidable (Confined cfg request) :=
  inferInstanceAs (Decidable (∀ url ∈ requestedUrl request,
    ∀ text ∈ (printed cfg url).toOption, _ ∨ _ ∨ _))

section Spec

variable {cfg : Config} {url path : Bytes}

theorem pathOf_eq (cfg : Config) (url : Bytes) :
    pathOf cfg url = printed cfg url >>= fun path =>
      match path.getLast? with
      | none => .error .outOfBounds
      | some c => if c = 47 then indexPath cfg else .ok path := by
  unfold pathOf printed
  exact (bind_assoc _ _ _).symm

theorem intoPath_eq_ok {text : Bytes} (h : intoPath text = .ok path) : path = text := by
  unfold intoPath at h
  split at h
  · cases h
    rfl
  · cases h

theorem indexPath_eq_ok (h : indexPath cfg = .ok path) : path = indexText cfg :=
  intoPath_eq_ok h

/-- The path is the printed one, or the index page in its place. -/
theorem pathOf_eq_ok (h : pathOf cfg url = .ok path) :
    ∃ text, printed cfg url = .ok text ∧ text ≠ [] ∧
      (text.getLast? = some 47 ∧ path = indexText cfg ∨
        text.getLast? ≠ some 47 ∧ path = text) := by
  rw [pathOf_eq] at h
  rcases bind_eq_ok h with ⟨text, htext, h⟩
  refine ⟨text, htext, ?_⟩
  cases hlast : text.getLast? with
  | none =>
      rw [hlast] at h
      cases h
  | some c =>
      rw [hlast] at h
      have hne : text ≠ [] := by
        rintro rfl
        cases hlast
      refine ⟨hne, ?_⟩
      dsimp only at h
      split at h
      · rename_i hc
        exact Or.inl ⟨by rw [hc], indexPath_eq_ok h⟩
      · rename_i hc
        cases h
        exact Or.inr ⟨by simpa using hc, rfl⟩

theorem pathOf_of_printed {text : Bytes} (h : printed cfg url = .ok text) (hne : text ≠ [])
    (hlast : text.getLast? ≠ some 47) : pathOf cfg url = .ok text := by
  rw [pathOf_eq, h]
  simp only [bind, Except.bind]
  cases hc : text.getLast? with
  | none => exact absurd (List.getLast?_eq_none_iff.1 hc) hne
  | some c =>
      rw [hc] at hlast
      exact if_neg (by simpa using hlast)

/-- What `sprintf` prints of a base path without conversions. -/
theorem sprintf_verbatim {base : Bytes} (h : 37 ∉ base) (arg : Bytes) :
    sprintf (some arg) (base ++ Bytes.ofString "%s") = .ok (base ++ arg) := by
  induction base with
  | nil =>
      have hfmt : Bytes.ofString "%s" = [37, 115] := by decide
      simp [hfmt, sprintf, bind, Except.bind, pure, Except.pure]
  | cons c base ih =>
      rw [List.mem_cons, not_or] at h
      have hc : c ≠ 37 := fun heq => h.1 heq.symm
      rw [List.cons_append, sprintf, ih h.2]
      · rfl
      all_goals simp [hc]

/-- Behind an ordinary base path stands the URL. -/
theorem printed_verbatim (h : Verbatim cfg.g_resource_base_path) (url : Bytes) :
    printed cfg url = intoPath (cfg.g_resource_base_path ++ Bytes.cStr url) := by
  have hfmt : Bytes.cStr (cfg.g_resource_base_path ++ Bytes.ofString "%s") =
      cfg.g_resource_base_path ++ Bytes.ofString "%s" := by
    refine Bytes.cStr_eq_self ?_
    have hs : 0 ∉ Bytes.ofString "%s" := by decide
    simp [h.2, hs]
  rw [printed, hfmt, sprintf_verbatim h.1]
  rfl

/-! ## Confinement -/

theorem stays_index (cfg : Config) : Stays cfg (indexText cfg) := Or.inl rfl

/-- A printed path stays where it should exactly when its URL does. -/
theorem stays_iff_textConfined (hdots : NoDots cfg.g_resource_base_path) {text : Bytes}
    (h : printed cfg url = .ok text) : Stays cfg text ↔ TextConfined cfg url text := by
  unfold Stays TextConfined HasPrefix
  by_cases hverbatim : Verbatim cfg.g_resource_base_path
  · have hbase : basePath cfg = cfg.g_resource_base_path := Bytes.cStr_eq_self hverbatim.2
    rw [printed_verbatim hverbatim] at h
    rw [if_pos hverbatim, hbase, intoPath_eq_ok h]
    by_cases hne : cfg.g_resource_base_path = []
    · simp [hne]
    · rw [under_route_append hne hdots]
  · rw [if_neg hverbatim]

/-- The file that is served is the one that was asked for, or the index page. -/
theorem servedPath_eq_ok {file : Bytes} {st_mode : Nat} (h : servedPath cfg file st_mode = .ok path) :
    path = indexText cfg ∨ path = file := by
  unfold servedPath at h
  split at h
  · exact Or.inl (indexPath_eq_ok h)
  · cases h
    exact Or.inr rfl

section Scanned

variable {stat : Bytes → Option Nat} {request bs file mime rest : Bytes}

theorem locateFile_file {located : Located} (h : locateFile cfg stat url bs = .ok located)
    (hfile : located = .found file path mime rest ∨ ∃ p, located = .page (some file) p) :
    pathOf cfg url = .ok file ∧
      (located = .found file path mime rest → path = indexText cfg ∨ path = file) := by
  unfold locateFile at h
  rcases bind_eq_ok h with ⟨file', hpathOf, h⟩
  -- every outcome carries the printed path
  have hpage : ∀ page, located = .page (some file') page → pathOf cfg url = .ok file ∧
      (located = .found file path mime rest → path = indexText cfg ∨ path = file) := by
    rintro page rfl
    rcases hfile with hfound | ⟨p, hp⟩
    · cases hfound
    · cases hp
      exact ⟨hpathOf, fun hfound => by cases hfound⟩
  cases hstat : stat file' with
  | none =>
      rw [hstat] at h
      cases h
      exact hpage _ rfl
  | some st_mode =>
      rw [hstat] at h
      dsimp only at h
      split at h
      · cases h
        exact hpage _ rfl
      · rcases bind_eq_ok h with ⟨path', hpath, h⟩
        split at h
        · cases h
          exact hpage _ rfl
        · cases h
          rcases hfile with hfound | ⟨p, hp⟩
          · cases hfound
            exact ⟨hpathOf, fun _ => servedPath_eq_ok hpath⟩
          · cases hp

theorem locate_file {located : Located} (h : locate cfg stat request = .ok located)
    (hfile : located = .found file path mime rest ∨ ∃ p, located = .page (some file) p) :
    (∃ url, requestedUrl request = some url ∧ pathOf cfg url = .ok file) ∧
      (located = .found file path mime rest → path = indexText cfg ∨ path = file) := by
  unfold locate at h
  rcases bind_eq_ok h with ⟨⟨method, bs⟩, hmethod, h⟩
  dsimp only at h
  split at h
  · cases h
    rcases hfile with hfound | ⟨p, hp⟩
    · cases hfound
    · cases hp
  · rename_i hget
    rcases locateFile_file h hfile with ⟨hpathOf, hserved⟩
    refine ⟨⟨_, ?_, hpathOf⟩, hserved⟩
    rw [requestedUrl, hmethod]
    exact if_pos (by simpa using hget)

/-- The file name that is stored is the path that the URL prints. -/
theorem scan_file {s : Scan} (h : scan cfg stat request = .ok s) (hfile : s.file = some file) :
    ∃ url, requestedUrl request = some url ∧ pathOf cfg url = .ok file := by
  unfold scan at h
  rcases bind_eq_ok h with ⟨located, hlocate, h⟩
  cases located with
  | page file' p =>
      cases h
      cases hfile
      have hpage : Located.page (some file) p = .found file [] [] [] ∨
          ∃ p', Located.page (some file) p = .page (some file) p' := Or.inr ⟨p, rfl⟩
      exact (locate_file hlocate hpage).1
  | found file' path' mime' rest' =>
      rcases bind_eq_ok h with ⟨⟨assigned, failed⟩, -, h⟩
      cases failed with
      | some page =>
          cases h
          cases hfile
          exact (locate_file hlocate (Or.inl rfl)).1
      | none =>
          cases h
          cases hfile
          exact (locate_file hlocate (Or.inl rfl)).1

end Scanned

/-- The paths that a request hands on are the index page or below the base path exactly when the
request is confined. -/
theorem confined_iff (hdots : NoDots cfg.g_resource_base_path) (stat : Bytes → Option Nat)
    (request : Bytes) : (∀ path, Handed cfg stat request path → Stays cfg path) ↔
      Confined cfg request := by
  refine ⟨?_, ?_⟩
  · intro h url hurl text htext
    have hprinted : printed cfg url = .ok text := by
      cases hp : printed cfg url with
      | error e =>
          rw [hp] at htext
          cases htext
      | ok t =>
          rw [hp] at htext
          cases htext
          rfl
    by_cases hne : text = []
    · exact Or.inl hne
    · by_cases hlast : text.getLast? = some 47
      · exact Or.inr (Or.inl hlast)
      · have hhanded : Handed cfg stat request text :=
          .file hurl (pathOf_of_printed hprinted hne hlast)
        exact Or.inr (Or.inr ((stays_iff_textConfined hdots hprinted).1 (h text hhanded)))
  · intro h
    have hfile : ∀ url path, requestedUrl request = some url → pathOf cfg url = .ok path →
        Stays cfg path := by
      intro url path hurl hpath
      rcases pathOf_eq_ok hpath with ⟨text, hprinted, hne, ⟨-, rfl⟩ | ⟨hlast, rfl⟩⟩
      · exact stays_index cfg
      · have hconfined := h url hurl path (by rw [hprinted]; rfl)
        exact (stays_iff_textConfined hdots hprinted).2
          ((hconfined.resolve_left hne).resolve_left hlast)
    intro path hhanded
    cases hhanded with
    | file hurl hpath => exact hfile _ path hurl hpath
    | response hscan hserve =>
        rcases scan_eq_serve hscan hserve with ⟨file, rest, hlocate, -, -⟩
        rcases locate_file hlocate (Or.inl rfl) with ⟨⟨url, hurl, hpath⟩, hserved⟩
        rcases hserved rfl with rfl | rfl
        · exact stays_index cfg
        · exact hfile url path hurl hpath

/-- The name that is stored in the context is one of the paths. -/
theorem handed_of_setContextkv {p : Parser} {v : Visit} {served : Served}
    (h : p.parserRequest cfg v = .ok served)
    (hmem : .setContextkv (Bytes.ofString "file") path ∈ served.calls) :
    Handed cfg v.env.stat v.request path := by
  cases hscan : scan cfg v.env.stat v.request with
  | error e =>
      rw [Parser.parserRequest, hscan] at h
      cases h
  | ok s =>
      have hfile : .setContextkv (Bytes.ofString "file") path ∈ Parser.setFile s →
          Handed cfg v.env.stat v.request path := by
        intro hset
        simp only [Parser.setFile, List.mem_map, Option.mem_toList, ParserCall.setContextkv.injEq,
          true_and, exists_eq_right] at hset
        rcases scan_file hscan hset with ⟨url, hurl, hpath⟩
        exact .file hurl hpath
      cases hverdict : s.verdict with
      | page page =>
          rw [Parser.parserRequest_page hscan hverdict] at h
          cases h
          rcases List.mem_append.1 hmem with hset | hpage
          · exact hfile hset
          · simp [Parser.answerPage, Parser.respond] at hpage
      | serve path' mime =>
          rw [Parser.parserRequest_serve hscan hverdict] at h
          rcases bind_eq_ok h with ⟨⟨redis, calls, body⟩, hfetch, h⟩
          cases h
          rcases List.mem_append.1 hmem with hset | hrest
          · exact hfile hset
          · rcases List.mem_cons.1 hrest with hflag | hcalls
            · simp only [ParserCall.setContextkv.injEq] at hflag
              exact absurd hflag.1 (by decide)
            · rcases List.mem_append.1 hcalls with hcalls | hanswer
              · rcases RedisState.mem_fetch hfetch hcalls with hcaches | ⟨file, hset⟩
                · exact absurd hcaches id
                · cases hset
              · rcases Parser.answerBody_calls hanswer with ⟨m, heq⟩ | heq | heq <;> cases heq

end Spec

def wwwConfig : Config where
  g_resource_base_path := Bytes.ofString "/www"
  g_resource_index_path := Bytes.ofString "/index.html"
  mimeType _ := some []
  g_redis_vip := []
  urlTomd5 _ := []
  comPressStringSize n := n + 1

/-- A readable file, whatever the path. -/
def readableFile (_ : Bytes) : Option Nat := some 0o100644

/-- Dots that stay below the base path do no harm. -/
theorem confined_innerDots :
    Handed wwwConfig readableFile (Bytes.ofString "GET /a/../b.html HTTP/1.1\r\n\r\n")
        (Bytes.ofString "/www/a/../b.html") ∧
      Stays wwwConfig (Bytes.ofString "/www/a/../b.html") := by
  have hhanded : Handed wwwConfig readableFile
      (Bytes.ofString "GET /a/../b.html HTTP/1.1\r\n\r\n") (Bytes.ofString "/www/a/../b.html") :=
    .file (by decide : requestedUrl _ = some (Bytes.ofString "/a/../b.html")) rfl
  exact ⟨hhanded, (confined_iff (by decide) readableFile _).2 (by decide) _ hhanded⟩

/-- A file beside the base path is served. -/
theorem not_confined_outerDots :
    ¬ ∀ path, Handed wwwConfig readableFile (Bytes.ofString "GET /../secret.html HTTP/1.1\r\n\r\n")
      path → Stays wwwConfig path := by
  intro h
  have hscan : scan wwwConfig readableFile
      (Bytes.ofString "GET /../secret.html HTTP/1.1\r\n\r\n") =
        .ok ⟨some (Bytes.ofString "/www/../secret.html"), [(Bytes.ofString "version",
          Bytes.ofString "1.1")], .serve (Bytes.ofString "/www/../secret.html")
            (Bytes.ofString "html")⟩ := by
    have hlocate : locate wwwConfig readableFile
        (Bytes.ofString "GET /../secret.html HTTP/1.1\r\n\r\n") =
          .ok (.found (Bytes.ofString "/www/../secret.html") (Bytes.ofString "/www/../secret.html")
            (Bytes.ofString "html") (Bytes.ofString "HTTP/1.1\r\n\r\n")) := rfl
    rw [scan, hlocate]
    simp only [bind, Except.bind, scanHead_bare]
    rfl
  have hstays := h _ (.response hscan rfl)
  revert hstays
  unfold Stays
  decide

end Web
end Longky
