import Longky.Web.HeaderIsolation

/-!
# HttpRequest — well-formed requests, whole and in pieces

A GET request without a body: the request line, header lines and a blank line.  What `scan` makes of
such a request and of other pieces of a stream of requests:

* `scan_extended` — a served request with more bytes behind it is refused;
* `scan_cut` — a part that is served ends behind the request line or behind a header line;
* `scan_fragment` — what follows such a part is never served.
-/

namespace Longky
namespace Web

open Lib

/-! ## Syntax -/

/-- A header line without its end; the value is all that follows the colon. -/
structure HeaderLine where
  name : Bytes
  value : Bytes
  name_ok : ∀ c ∈ name, Bytes.isspace c = false ∧ c ≠ 0 ∧ c ≠ 58
  value_ok : 13 ∉ value

namespace HeaderLine

def text (l : HeaderLine) : Bytes := l.name ++ 58 :: l.value

/-- What the line assigns; the byte behind the colon is skipped. -/
def entry (l : HeaderLine) : Bytes × Bytes := (l.name, l.value.drop 1)

def lines (ls : List HeaderLine) : Bytes := ls.flatMap fun l => l.text ++ [13, 10]

end HeaderLine

structure HttpRequest where
  url : Bytes
  version : Bytes
  headers : List HeaderLine
  url_ne : url ≠ []
  url_ok : ∀ c ∈ url, Bytes.isspace c = false
  version_ok : 13 ∉ version

namespace HttpRequest

/-- The request line without its end. -/
def line (q : HttpRequest) : Bytes :=
  Bytes.ofString "GET " ++ (q.url ++ 32 :: (Bytes.ofString "HTTP/" ++ q.version))

def text (q : HttpRequest) : Bytes :=
  q.line ++ 13 :: 10 :: (HeaderLine.lines q.headers ++ [13, 10])

/-- What is left of the request line when the URL has been copied into its array. -/
def tail (q : HttpRequest) : Bytes :=
  (if q.url.length ≤ 254 then [] else q.url.drop 254 ++ [32]) ++
    (Bytes.ofString "HTTP/" ++ q.version)

end HttpRequest

/-! ## Lines -/

/-- A part with a line end in it contains the first line. -/
theorem line_of_findCRLF {x t line z : Bytes} {n : Nat} (happend : x ++ t = line ++ 13 :: 10 :: z)
    (hline : 13 ∉ line) (h : Bytes.findCRLF x = some n) :
    ∃ x', x = line ++ 13 :: 10 :: x' ∧ x' ++ t = z := by
  have hn := Bytes.findCRLF_append h t
  rw [happend, Bytes.findCRLF_line hline] at hn
  cases hn
  have hlen := Bytes.findCRLF_lt h
  have hx : x = line ++ 13 :: 10 :: x.drop (line.length + 2) := by
    have htake : x.take line.length = line := by
      rw [← List.take_append_of_le_length (by omega), happend, List.take_left]
    conv_lhs => rw [Bytes.findCRLF_split h, htake]
  refine ⟨_, hx, ?_⟩
  rw [hx] at happend
  simpa using happend

theorem findCRLF_of_complete {x : Bytes} {assigned : List (Bytes × Bytes)}
    (h : headerLoop x = .ok (assigned, true)) (hne : x ≠ []) :
    ∃ n, Bytes.findCRLF x = some n := by
  cases hcrlf : Bytes.findCRLF x with
  | some n => exact ⟨n, rfl⟩
  | none =>
      rw [headerLoop, if_neg hne] at h
      split at h
      · cases h
      · rename_i n hn
        rw [hcrlf] at hn
        cases hn

/-- One turn of the loop: a line with nothing behind its colon throws. -/
theorem headerLoop_line {name value : Bytes} (hcolon : 58 ∉ name)
    (hline : Bytes.findCRLF (name ++ 58 :: value) = none) (t : Bytes) :
    headerLoop (name ++ 58 :: value ++ 13 :: 10 :: t) =
      if value = [] then .error .lengthError
      else headerLoop t >>= fun r => .ok ((name, value.drop 1) :: r.1, r.2) := by
  have hcrlf := Bytes.findCRLF_of_none hline t
  have htake : (name ++ 58 :: value ++ 13 :: 10 :: t).take (name ++ 58 :: value).length =
      name ++ 58 :: value := List.take_left
  have hname : (name ++ 58 :: value).takeWhile (· != 58) = name := by
    have hall : ∀ c ∈ name, (c != 58) = true := by
      intro c hc
      rw [bne_iff_ne]
      rintro rfl
      exact hcolon hc
    rw [List.takeWhile_append_of_pos hall]
    simp
  have hdrop : (name ++ 58 :: value ++ 13 :: 10 :: t).drop ((name ++ 58 :: value).length + 2) =
      t := by
    rw [← List.drop_drop, List.drop_left]
    rfl
  have hlen : (name ++ 58 :: value).length = name.length + value.length + 1 := by
    simp [Nat.add_assoc]
  split
  · rename_i hvalue
    have hne : name ++ 58 :: value ++ 13 :: 10 :: t ≠ [] := by simp
    rw [headerLoop, if_neg hne]
    split
    · rename_i hnone
      rw [hcrlf] at hnone
      cases hnone
    · rename_i crlf hsome
      rw [hcrlf] at hsome
      cases hsome
      have hzero : value.length = 0 := by rw [hvalue, List.length_nil]
      simp only [htake, hname]
      rw [if_pos (by omega), if_pos (by omega)]
  · rename_i hvalue
    have hpos := List.length_pos_iff.2 hvalue
    have hentry : (name ++ 58 :: value).drop (name.length + 2) = value.drop 1 := by
      rw [← List.drop_drop, List.drop_left]
      rfl
    rw [headerLoop_of_header hcrlf (by rw [htake, hname]) (by omega), hdrop, htake, hentry]
    rfl

namespace HeaderLine

theorem not_mem_text (l : HeaderLine) : 13 ∉ l.text := by
  have hspace : Bytes.isspace 13 = true := by decide
  intro h
  rcases List.mem_append.1 h with hname | hrest
  · have hname := (l.name_ok 13 hname).1
    rw [hspace] at hname
    cases hname
  · rcases List.mem_cons.1 hrest with hcolon | hvalue
    · exact absurd hcolon (by decide)
    · exact l.value_ok hvalue

theorem lines_cons (l : HeaderLine) (ls : List HeaderLine) :
    lines (l :: ls) = l.text ++ 13 :: 10 :: lines ls := by
  simp [lines]

theorem headerLoop_text (l : HeaderLine) (t : Bytes) :
    headerLoop (l.text ++ 13 :: 10 :: t) =
      if l.value = [] then .error .lengthError
      else headerLoop t >>= fun r => .ok (l.entry :: r.1, r.2) :=
  headerLoop_line (fun h => (l.name_ok 58 h).2.2 rfl)
    (Bytes.findCRLF_none_of_not_mem l.not_mem_text) t

theorem headerLoop_blank (t : Bytes) : headerLoop (13 :: 10 :: t) = .ok ([], decide (t = [])) := by
  rw [headerLoop_of_no_colon (show Bytes.findCRLF (13 :: 10 :: t) = some 0 from rfl) (by simp)]
  cases t <;> simp

/-- The loop over well-formed lines: it reads them all and looks at what follows the blank line. -/
theorem headerLoop_lines {ls : List HeaderLine} {t : Bytes} {r : List (Bytes × Bytes) × Bool}
    (h : headerLoop (lines ls ++ 13 :: 10 :: t) = .ok r) :
    r = (ls.map entry, decide (t = [])) ∧
      ∀ t', headerLoop (lines ls ++ 13 :: 10 :: t') = .ok (ls.map entry, decide (t' = [])) := by
  induction ls generalizing r with
  | nil =>
      rw [show lines [] ++ 13 :: 10 :: t = 13 :: 10 :: t from rfl, headerLoop_blank] at h
      cases h
      exact ⟨rfl, headerLoop_blank⟩
  | cons l ls ih =>
      rw [lines_cons, List.append_assoc, List.cons_append, List.cons_append, headerLoop_text] at h
      split at h
      · cases h
      · rename_i hvalue
        rcases bind_eq_ok h with ⟨r', hr', h⟩
        rcases ih hr' with ⟨rfl, hrest⟩
        cases h
        refine ⟨rfl, ?_⟩
        intro t'
        rw [lines_cons, List.append_assoc, List.cons_append, List.cons_append, headerLoop_text,
          if_neg hvalue, hrest t']
        rfl

/-- A proper part of the header lines that the loop accepts ends with a line. -/
theorem headerLoop_cut {ls : List HeaderLine} {x t : Bytes} {assigned : List (Bytes × Bytes)}
    (happend : x ++ t = lines ls ++ [13, 10]) (ht : t ≠ [])
    (h : headerLoop x = .ok (assigned, true)) :
    ∃ ls₁ ls₂, ls = ls₁ ++ ls₂ ∧ assigned = ls₁.map entry ∧ t = lines ls₂ ++ [13, 10] := by
  by_cases hx : x = []
  · subst hx
    have hassigned : assigned = [] := by
      rw [headerLoop, if_pos rfl] at h
      cases h
      rfl
    exact ⟨[], ls, rfl, hassigned, by simpa using happend⟩
  · rcases findCRLF_of_complete h hx with ⟨n, hn⟩
    induction ls generalizing x assigned n with
    | nil =>
        -- the blank line is the last one
        rcases line_of_findCRLF happend List.not_mem_nil hn with ⟨x', -, hnil⟩
        exact absurd (List.append_eq_nil_iff.1 hnil).2 ht
    | cons l ls ih =>
        rw [lines_cons, List.append_assoc, List.cons_append, List.cons_append] at happend
        rcases line_of_findCRLF happend l.not_mem_text hn with ⟨x', rfl, happend'⟩
        rw [headerLoop_text] at h
        split at h
        · cases h
        · rcases bind_eq_ok h with ⟨⟨assigned', complete⟩, hloop, h⟩
          cases h
          by_cases hx' : x' = []
          · subst hx'
            rw [headerLoop, if_pos rfl] at hloop
            cases hloop
            exact ⟨[l], ls, rfl, rfl, by simpa using happend'⟩
          · rcases findCRLF_of_complete hloop hx' with ⟨n', hn'⟩
            rcases ih happend' hloop hx' n' hn' with ⟨ls₁, ls₂, rfl, rfl, hrest⟩
            exact ⟨l :: ls₁, ls₂, rfl, rfl, hrest⟩

end HeaderLine

/-- The version and the headers behind a line. -/
theorem scanHead_line {line : Bytes} (h : 13 ∉ line) (t : Bytes) :
    scanHead (line ++ 13 :: 10 :: t) =
      if line.length < 3 then .error .lengthError
      else if refused (line.take (line.length - 3)) (line.drop (line.length - 3)) then
        .ok ([], some .version_not_support)
      else headerLoop t >>= fun r =>
        .ok ((Bytes.ofString "version", line.drop (line.length - 3)) :: r.1,
          if r.2 then none else some .unimplemented) := by
  have hdrop : (line ++ 13 :: 10 :: t).drop (line.length + 2) = t := by
    rw [← List.drop_drop, List.drop_left]
    rfl
  unfold scanHead
  simp only [Bytes.findCRLF_line h, List.take_left, hdrop]
  rfl

namespace HttpRequest

variable {cfg : Config} {stat : Bytes → Option Nat}

theorem not_mem_tail (q : HttpRequest) : 13 ∉ q.tail := by
  have hspace : Bytes.isspace 13 = true := by decide
  have hprotocol : 13 ∉ Bytes.ofString "HTTP/" := by decide
  intro h
  rcases List.mem_append.1 h with hurl | hversion
  · split at hurl
    · cases hurl
    · rcases List.mem_append.1 hurl with hurl | hblank
      · have hurl := q.url_ok 13 (List.mem_of_mem_drop hurl)
        rw [hspace] at hurl
        cases hurl
      · exact absurd (List.mem_singleton.1 hblank) (by decide)
  · rcases List.mem_append.1 hversion with hmem | hmem
    · exact hprotocol hmem
    · exact q.version_ok hmem

theorem url_ne_blank (q : HttpRequest) {c : UInt8} (hc : c ∈ q.url) : c ≠ 32 := by
  have hspace : Bytes.isspace 32 = true := by decide
  rintro rfl
  have hurl := q.url_ok 32 hc
  rw [hspace] at hurl
  cases hurl

/-- The method and the blank behind it are passed over. -/
theorem locate_line (q : HttpRequest) (t : Bytes) :
    locate cfg stat (q.line ++ t) = locateFile cfg stat (q.url.take 254)
      (q.url.drop 254 ++ 32 :: (Bytes.ofString "HTTP/" ++ q.version ++ t)) := by
  have hget : Bytes.ofString "GET " = [71, 69, 84, 32] := by decide
  have hmethod : ∀ bs, scanMethod 15 (71 :: 69 :: 84 :: 32 :: bs) = .ok ([71, 69, 84], 32 :: bs) := by
    intro bs
    rfl
  have hcase : Bytes.caseEq [71, 69, 84] (Bytes.ofString "GET") = true := by decide
  have hskip : ∀ bs, (32 :: (q.url ++ bs)).dropWhile Bytes.isspace = q.url ++ bs := by
    intro bs
    cases hurl : q.url with
    | nil => exact absurd hurl q.url_ne
    | cons c url =>
        have hc := q.url_ok c (by rw [hurl]; exact List.mem_cons_self)
        have hblank : Bytes.isspace 32 = true := by decide
        rw [List.dropWhile_cons_of_pos hblank, List.cons_append,
          List.dropWhile_cons_of_neg (by simp [hc])]
  have htake : ∀ bs, ((q.url ++ 32 :: bs).takeWhile (· != 32)) = q.url := by
    intro bs
    have hall : ∀ c ∈ q.url, (c != 32) = true := by
      intro c hc
      simpa using q.url_ne_blank hc
    rw [List.takeWhile_append_of_pos hall]
    simp
  have hscan : ∀ bs, scanUrl (q.url ++ 32 :: bs) = (q.url.take 254, q.url.drop 254 ++ 32 :: bs) := by
    intro bs
    have hdrop : q.url.drop (q.url.take 254).length = q.url.drop 254 := by
      rw [List.length_take]
      rcases Nat.le_total 254 q.url.length with hle | hle
      · rw [Nat.min_eq_left hle]
      · rw [Nat.min_eq_right hle, List.drop_length, List.drop_of_length_le hle]
    have hle : (q.url.take 254).length ≤ q.url.length := List.length_take_le' _ _
    simp only [scanUrl, htake, List.drop_append_of_le_length hle, hdrop]
  unfold line
  rw [hget]
  simp only [List.append_assoc, List.cons_append, List.nil_append]
  rw [locate, hmethod]
  simp only [bind, Except.bind, hcase, Bool.not_true, Bool.false_eq_true, if_false, hskip, hscan]

/-- A file that is found for a request line is found whatever follows. -/
theorem locate_found {q : HttpRequest} {t file path mime rest : Bytes}
    (h : locate cfg stat (q.line ++ t) = .ok (.found file path mime rest)) :
    rest = q.tail ++ t ∧
      ∀ t', locate cfg stat (q.line ++ t') = .ok (.found file path mime (q.tail ++ t')) := by
  have hskip : ∀ t', (q.url.drop 254 ++ 32 :: (Bytes.ofString "HTTP/" ++ q.version ++ t')).dropWhile
      (· == 32) = q.tail ++ t' := by
    intro t'
    have hhttp : Bytes.ofString "HTTP/" = [72, 84, 84, 80, 47] := by decide
    by_cases hlen : q.url.length ≤ 254
    · rw [tail, if_pos hlen, List.drop_of_length_le hlen, hhttp]
      rfl
    · rw [tail, if_neg hlen]
      cases hurl : q.url.drop 254 with
      | nil => exact absurd (List.drop_eq_nil_iff.1 hurl) hlen
      | cons c url =>
          have hc := q.url_ne_blank (List.mem_of_mem_drop (by rw [hurl]; exact List.mem_cons_self))
          rw [List.cons_append, List.dropWhile_cons_of_neg (by simpa using hc)]
          simp
  rw [locate_line] at h
  rcases locateFile_found h with ⟨hrest, hfile⟩
  refine ⟨by rw [hrest, hskip], ?_⟩
  intro t'
  rw [locate_line, hfile, hskip]

/-! ## Whole requests, and requests that go on -/

/-- What a request assigns when the loop has read these lines. -/
def assigned (q : HttpRequest) (ls : List HeaderLine) : List (Bytes × Bytes) :=
  (Bytes.ofString "version", q.tail.drop (q.tail.length - 3)) :: ls.map HeaderLine.entry

theorem text_ne (q : HttpRequest) : q.text ≠ [] := by
  simp [text]

/-- The request with `t` behind it. -/
theorem text_append (q : HttpRequest) (t : Bytes) :
    q.text ++ t = q.line ++ 13 :: 10 :: (HeaderLine.lines q.headers ++ 13 :: 10 :: t) := by
  simp [text]

variable {q : HttpRequest} {s : Scan} {path mime : Bytes}

/-- A served request: the file is found, and the head is accepted. -/
structure Accepted (cfg : Config) (stat : Bytes → Option Nat) (q : HttpRequest) (s : Scan)
    (path mime : Bytes) : Prop where
  assigned_eq : s.assigned = q.assigned q.headers
  found : ∃ file, s.file = some file ∧
    ∀ t, locate cfg stat (q.line ++ t) = .ok (.found file path mime (q.tail ++ t))
  head : ∀ t r, headerLoop t = .ok r → scanHead (q.tail ++ 13 :: 10 :: t) =
    .ok ((Bytes.ofString "version", q.tail.drop (q.tail.length - 3)) :: r.1,
      if r.2 then none else some .unimplemented)
  loop : ∀ t, headerLoop (HeaderLine.lines q.headers ++ 13 :: 10 :: t) =
    .ok (q.headers.map HeaderLine.entry, decide (t = []))

theorem accepted_of_scan (h : scan cfg stat q.text = .ok s) (hserve : s.verdict = .serve path mime) :
    Accepted cfg stat q s path mime := by
  rcases scan_eq_serve h hserve with ⟨file, rest, hlocate, hfile, hhead⟩
  rcases locate_found hlocate with ⟨rfl, hfound⟩
  rw [scanHead_line q.not_mem_tail] at hhead
  split at hhead
  · cases hhead
  · rename_i hlen
    split at hhead
    · simp at hhead
    · rename_i hok
      rcases bind_eq_ok hhead with ⟨r, hloop, hhead⟩
      rcases HeaderLine.headerLoop_lines hloop with ⟨rfl, hlines⟩
      simp only [Except.ok.injEq, Prod.mk.injEq] at hhead
      refine ⟨hhead.1.symm, ⟨file, hfile, hfound⟩, ?_, hlines⟩
      intro t r hr
      rw [scanHead_line q.not_mem_tail, if_neg hlen, if_neg hok, hr]
      rfl

/-- A served request with more bytes behind it is refused: its blank line is not the last one. -/
theorem scan_extended (h : scan cfg stat q.text = .ok s) (hserve : s.verdict = .serve path mime)
    {t : Bytes} (ht : t ≠ []) :
    scan cfg stat (q.text ++ t) = .ok { s with verdict := .page .unimplemented } := by
  have hq := accepted_of_scan h hserve
  rcases hq.found with ⟨file, hfile, hfound⟩
  rw [text_append, scan, hfound]
  simp only [bind, Except.bind, hq.head _ _ (hq.loop t), ht, decide_false, hfile, hq.assigned_eq]
  rfl

/-- A part of a served request that is served as well ends behind the request line or a header
line, and leads to the same file. -/
theorem scan_cut (h : scan cfg stat q.text = .ok s) (hserve : s.verdict = .serve path mime)
    {x t : Bytes} (happend : x ++ t = q.text) (ht : t ≠ []) {s' : Scan} {path' mime' : Bytes}
    (h' : scan cfg stat x = .ok s') (hserve' : s'.verdict = .serve path' mime') :
    path' = path ∧ mime' = mime ∧ ∃ ls₁ ls₂, q.headers = ls₁ ++ ls₂ ∧
      s'.assigned = q.assigned ls₁ ∧ t = HeaderLine.lines ls₂ ++ [13, 10] := by
  have hq := accepted_of_scan h hserve
  rcases hq.found with ⟨file, -, hfound⟩
  rcases scan_eq_serve h' hserve' with ⟨file', rest, hlocate, -, hhead⟩
  rcases locate_lookahead hlocate with ⟨pre, rfl, hlook⟩
  rcases scanHead_complete hhead with ⟨crlf, headers, hcrlf, hlen, hok, hloop, hassigned⟩
  -- the whole request is found with the same file
  have hne : rest ≠ [] := by
    rintro rfl
    cases hcrlf
  have hhead? : (rest ++ t).head? = rest.head? := by
    cases rest with
    | nil => exact absurd rfl hne
    | cons c rest => rfl
  have hwhole := hlook (rest ++ t) hhead?
  have hline := hfound (13 :: 10 :: (HeaderLine.lines q.headers ++ [13, 10]))
  have htext : pre ++ (rest ++ t) = q.line ++ 13 :: 10 :: (HeaderLine.lines q.headers ++ [13, 10]) := by
    rw [← List.append_assoc, happend, text]
  rw [htext, hline] at hwhole
  simp only [Except.ok.injEq, Located.found.injEq] at hwhole
  rcases hwhole with ⟨-, rfl, rfl, hrest⟩
  -- so its first line is in the part
  rcases line_of_findCRLF hrest.symm q.not_mem_tail hcrlf with ⟨x', rfl, hx'⟩
  rw [Bytes.findCRLF_line q.not_mem_tail] at hcrlf
  cases hcrlf
  have hdrop : (q.tail ++ 13 :: 10 :: x').drop (q.tail.length + 2) = x' := by
    rw [← List.drop_drop, List.drop_left]
    rfl
  rw [hdrop] at hloop
  rcases HeaderLine.headerLoop_cut hx' ht hloop with ⟨ls₁, ls₂, hls, rfl, hrest'⟩
  refine ⟨rfl, rfl, ls₁, ls₂, hls, ?_, hrest'⟩
  rw [hassigned, List.take_left]
  rfl

end HttpRequest

/-! ## What follows a part -/

theorem scanMethod_eq_ok {room : Nat} {bs method rest : Bytes}
    (h : scanMethod room bs = .ok (method, rest)) :
    bs = method ++ rest ∧
      (method.length = room ∨ ∃ c, rest.head? = some c ∧ Bytes.isspace c = true) := by
  induction room generalizing bs method rest with
  | zero =>
      cases h
      exact ⟨rfl, Or.inl rfl⟩
  | succ room ih =>
      cases bs with
      | nil => cases h
      | cons c bs =>
          rw [scanMethod] at h
          split at h
          · rename_i hc
            cases h
            exact ⟨rfl, Or.inr ⟨c, rfl, hc⟩⟩
          · rcases bind_eq_ok h with ⟨⟨method', rest'⟩, hrec, h⟩
            cases h
            rcases ih hrec with ⟨rfl, hend⟩
            refine ⟨rfl, ?_⟩
            rcases hend with hlen | hspace
            · exact Or.inl (by rw [List.length_cons, hlen])
            · exact Or.inr hspace

/-- A header line is no GET request. -/
theorem not_get_of_name {name z y method rest : Bytes}
    (hname : ∀ c ∈ name, Bytes.isspace c = false ∧ c ≠ 0 ∧ c ≠ 58)
    (hy : y <+: name ++ 58 :: z) (h : scanMethod 15 y = .ok (method, rest)) :
    Bytes.caseEq method (Bytes.ofString "GET") = false := by
  rcases scanMethod_eq_ok h with ⟨rfl, hend⟩
  have hget : (Bytes.cStr (Bytes.ofString "GET")).map Bytes.tolower = [103, 101, 116] := by decide
  have hcolon : name ++ [58] <+: name ++ 58 :: z := ⟨z, by simp⟩
  have hmethod : method <+: name ++ 58 :: z := (List.prefix_append method rest).trans hy
  rw [Bytes.caseEq, hget, beq_eq_false_iff_ne]
  intro heq
  have hclean : ∀ c ∈ name ++ [58], Bytes.isspace c = false ∧ c ≠ 0 := by
    intro c hc
    rcases List.mem_append.1 hc with hc | hc
    · exact ⟨(hname c hc).1, (hname c hc).2.1⟩
    · rw [List.mem_singleton.1 hc]
      decide
  by_cases hlen : method.length ≤ name.length
  · have hshort : method <+: name ++ [58] :=
      List.prefix_of_prefix_length_le hmethod hcolon (by simp; omega)
    have hcstr : Bytes.cStr method = method := by
      unfold Bytes.cStr
      rw [List.takeWhile_eq_self_iff]
      intro c hc
      simpa using (hclean c (hshort.subset hc)).2
    rw [hcstr] at heq
    have hthree : method.length = 3 := by simpa using congrArg List.length heq
    rcases hend with hfull | ⟨c, hhead, hspace⟩
    · omega
    · -- the byte behind the method is one of the name or the colon
      have hnext : method ++ [c] <+: method ++ rest := by
        cases rest with
        | nil => cases hhead
        | cons c' rest =>
            cases hhead
            exact ⟨rest, by simp⟩
      have hin : method ++ [c] <+: name ++ [58] :=
        List.prefix_of_prefix_length_le (hnext.trans hy) hcolon (by simp; omega)
      have hc := (hclean c (hin.subset (by simp))).1
      rw [hspace] at hc
      cases hc
  · -- the method contains the colon
    rcases List.prefix_of_prefix_length_le hcolon hmethod (by simp; omega) with ⟨m, rfl⟩
    have hcstr : Bytes.cStr (name ++ [58] ++ m) = name ++ 58 :: Bytes.cStr m := by
      unfold Bytes.cStr
      have hall : ∀ c ∈ name, (c != 0) = true := by
        intro c hc
        simpa using (hname c hc).2.1
      rw [List.append_assoc, List.takeWhile_append_of_pos hall, List.singleton_append,
        List.takeWhile_cons_of_pos (by decide)]
    have hmem : Bytes.tolower 58 ∈ ([103, 101, 116] : Bytes) := by
      rw [← heq, hcstr]
      simp
    exact absurd hmem (by decide)

/-- What is left of a request behind its first lines is not served, however it is cut. -/
theorem scan_fragment {ls : List HeaderLine} {y more : Bytes} (hne : y ≠ [])
    (hy : y <+: HeaderLine.lines ls ++ 13 :: 10 :: more) (cfg : Config)
    (stat : Bytes → Option Nat) :
    (∃ e, scan cfg stat y = .error e) ∨ scan cfg stat y = .ok ⟨none, [], .page .unimplemented⟩ := by
  have hrefused : ∀ method rest, scanMethod 15 y = .ok (method, rest) →
      Bytes.caseEq method (Bytes.ofString "GET") = false := by
    intro method rest hmethod
    cases ls with
    | nil =>
        -- white space, so the method is empty
        have hy' : y <+: 13 :: 10 :: more := hy
        cases y with
        | nil => exact absurd rfl hne
        | cons c y =>
            rcases hy' with ⟨t, ht⟩
            rw [List.cons_append, List.cons.injEq] at ht
            rw [ht.1] at hmethod
            cases hmethod
            decide
    | cons l ls =>
        have hy' : y <+: l.name ++ 58 :: (l.value ++ 13 :: 10 ::
            (HeaderLine.lines ls ++ 13 :: 10 :: more)) := by
          simpa [HeaderLine.lines_cons, HeaderLine.text] using hy
        exact not_get_of_name l.name_ok hy' hmethod
  unfold scan locate
  cases hmethod : scanMethod 15 y with
  | error e => exact Or.inl ⟨e, rfl⟩
  | ok r =>
      rcases r with ⟨method, rest⟩
      have hcase := hrefused method rest hmethod
      simp only [bind, Except.bind, hcase]
      exact Or.inr rfl

end Web
end Longky
