import Longky.Web.HeaderIsolation

/-!
# Slices — the strings that are cut out of a request

`parserRequest` builds strings from pairs of pointers into the request: the version and what is in
front of it, and the name and the value of each header.  The distances 3 and 2 are not checked, and
`std::string` throws a `length_error` when the second pointer is in front of the first.

A pointer is its offset in the request; `slices` lists the pairs in the order in which the strings
are built, the one that throws included.  `slices_inside_iff` says which requests throw nothing.
-/

namespace Longky
namespace Web

open Lib Net

/-- `string(first, last)`. -/
structure Slice where
  first : Int
  last : Int
  deriving DecidableEq, Repr

/-- Both pointers are in a request of that size, and in order. -/
def Slice.Inside (size : Nat) (s : Slice) : Prop := 0 ≤ s.first ∧ s.first ≤ s.last ∧ s.last ≤ size

/-- The names and values of `headerLoop`; `rest` is the request from `begin` on. -/
def headerSlices (size : Nat) (rest : Bytes) : List Slice :=
  match hcrlf : Bytes.findCRLF rest with
  | none => []
  | some crlf =>
      have := Bytes.findCRLF_lt hcrlf
      let start : Int := size - rest.length
      let colon := ((rest.take crlf).takeWhile (· != 58)).length
      if colon < crlf then
        ⟨start, start + colon⟩ :: ⟨start + colon + 2, start + crlf⟩ ::
          if crlf < colon + 2 then [] else headerSlices size (rest.drop (crlf + 2))
      else []
termination_by rest.length
decreasing_by
  rw [List.length_drop]
  omega

/-- The version, the protocol name and what `headerLoop` adds. -/
def headSlices (size : Nat) (rest : Bytes) : List Slice :=
  match Bytes.findCRLF rest with
  | none => []
  | some crlf =>
      let start : Int := size - rest.length
      let line := rest.take crlf
      ⟨start + crlf - 3, start + crlf⟩ :: ⟨start, start + crlf - 3⟩ ::
        if crlf < 3 ∨ refused (line.take (crlf - 3)) (line.drop (crlf - 3)) then []
        else headerSlices size (rest.drop (crlf + 2))

def slices (cfg : Config) (stat : Bytes → Option Nat) (request : Bytes) : List Slice :=
  match locate cfg stat request with
  | .ok (.found _ _ _ rest) => headSlices request.length rest
  | .ok (.page _ _) | .error _ => []

/-! ## Lines -/

/-- The first colon of the line is its last byte. -/
def Dangling (line : Bytes) : Prop := ∃ name, 58 ∉ name ∧ line = name ++ [58]

/-- The lines of a text up to the first one without a colon. -/
def headerLines (rest : Bytes) : List Bytes :=
  match hcrlf : Bytes.findCRLF rest with
  | none => []
  | some crlf =>
      have := Bytes.findCRLF_lt hcrlf
      if 58 ∈ rest.take crlf then rest.take crlf :: headerLines (rest.drop (crlf + 2)) else []
termination_by rest.length
decreasing_by
  rw [List.length_drop]
  omega

/-- The version line has at least three bytes; if it is accepted, no header ends at its colon. -/
def SpacedHead (rest : Bytes) (crlf : Nat) : Prop :=
  3 ≤ crlf ∧
    (refused ((rest.take crlf).take (crlf - 3)) ((rest.take crlf).drop (crlf - 3)) = false →
      ∀ line ∈ headerLines (rest.drop (crlf + 2)), ¬ Dangling line)

/-- If the request gets as far as its version, it has room for the slices. -/
def Spaced (cfg : Config) (stat : Bytes → Option Nat) (request : Bytes) : Prop :=
  ∀ file path mime rest crlf, locate cfg stat request = .ok (.found file path mime rest) →
    Bytes.findCRLF rest = some crlf → SpacedHead rest crlf

section Lines

variable {rest : Bytes} {crlf size : Nat}

theorem headerSlices_none (h : Bytes.findCRLF rest = none) : headerSlices size rest = [] := by
  rw [headerSlices]
  split
  · rfl
  · rename_i hsome
    simp [h] at hsome

theorem headerSlices_some (h : Bytes.findCRLF rest = some crlf) :
    headerSlices size rest =
      let start : Int := size - rest.length
      let colon := ((rest.take crlf).takeWhile (· != 58)).length
      if colon < crlf then
        ⟨start, start + colon⟩ :: ⟨start + colon + 2, start + crlf⟩ ::
          if crlf < colon + 2 then [] else headerSlices size (rest.drop (crlf + 2))
      else [] := by
  rw [headerSlices]
  split
  · rename_i hnone
    simp [h] at hnone
  · rename_i crlf' hsome
    rw [h] at hsome
    cases hsome
    rfl

theorem headerLines_none (h : Bytes.findCRLF rest = none) : headerLines rest = [] := by
  rw [headerLines]
  split
  · rfl
  · rename_i hsome
    simp [h] at hsome

theorem headerLines_some (h : Bytes.findCRLF rest = some crlf) :
    headerLines rest =
      if 58 ∈ rest.take crlf then rest.take crlf :: headerLines (rest.drop (crlf + 2)) else [] := by
  rw [headerLines]
  split
  · rename_i hnone
    simp [h] at hnone
  · rename_i crlf' hsome
    rw [h] at hsome
    cases hsome
    rfl

theorem takeWhile_colon {name : Bytes} (h : 58 ∉ name) (value : Bytes) :
    (name ++ 58 :: value).takeWhile (· != 58) = name := by
  have hall : ∀ c ∈ name, (c != 58) = true := by
    intro c hc
    simp only [bne_iff_ne, ne_eq]
    rintro rfl
    exact h hc
  rw [List.takeWhile_append_of_pos hall, List.takeWhile_cons_of_neg (by decide), List.append_nil]

theorem dangling_iff {name value : Bytes} (h : 58 ∉ name) :
    Dangling (name ++ 58 :: value) ↔ value = [] := by
  constructor
  · rintro ⟨name', hname', heq⟩
    have hsame := congrArg (List.takeWhile (· != 58)) heq
    rw [takeWhile_colon h, takeWhile_colon hname'] at hsame
    subst hsame
    exact (List.cons.inj (List.append_cancel_left heq)).2
  · rintro rfl
    exact ⟨name, h, rfl⟩

theorem headerSlices_no_colon (hcrlf : Bytes.findCRLF rest = some crlf)
    (hcolon : 58 ∉ rest.take crlf) : headerSlices size rest = [] := by
  have hlt := Bytes.findCRLF_lt hcrlf
  rw [headerSlices_some hcrlf, takeWhile_no_colon hcolon]
  exact if_neg (by rw [List.length_take]; omega)

/-- The parts of a line around its first colon. -/
theorem length_line {name value : Bytes} (hcrlf : Bytes.findCRLF rest = some crlf)
    (hline : rest.take crlf = name ++ 58 :: value) : crlf = name.length + value.length + 1 := by
  have hlt := Bytes.findCRLF_lt hcrlf
  have hlength := congrArg List.length hline
  rw [List.length_take, List.length_append, List.length_cons] at hlength
  omega

/-- One turn of the loop: the value of a header that ends at its colon starts behind its end. -/
theorem headerSlices_colon {name value : Bytes} (hname : 58 ∉ name)
    (hcrlf : Bytes.findCRLF rest = some crlf) (hline : rest.take crlf = name ++ 58 :: value) :
    headerSlices size rest =
      ⟨size - rest.length, size - rest.length + name.length⟩ ::
        ⟨size - rest.length + name.length + 2, size - rest.length + crlf⟩ ::
          if value = [] then [] else headerSlices size (rest.drop (crlf + 2)) := by
  have hlt := Bytes.findCRLF_lt hcrlf
  have hlen := length_line hcrlf hline
  rw [headerSlices_some hcrlf, hline, takeWhile_colon hname]
  have hvalue : crlf < name.length + 2 ↔ value = [] := by
    rw [← List.length_eq_zero_iff]
    omega
  simp only [hvalue]
  exact if_pos (by omega)

/-- What the loop over the headers builds is inside the request, up to a header that ends at its
colon. -/
theorem headerSlices_inside_iff (hsize : rest.length ≤ size) :
    (∀ s ∈ headerSlices size rest, s.Inside size) ↔ ∀ line ∈ headerLines rest, ¬ Dangling line := by
  induction rest using headerLines.induct with
  | case1 rest hcrlf => simp [headerSlices_none hcrlf, headerLines_none hcrlf]
  | case2 rest crlf hcrlf hlt hcolon ih =>
      obtain ⟨name, value, hline, hname⟩ := List.eq_append_cons_of_mem hcolon
      have hlen := length_line hcrlf hline
      have ih := ih (by rw [List.length_drop]; omega)
      rw [headerSlices_colon hname hcrlf hline, headerLines_some hcrlf, if_pos hcolon, hline]
      simp only [List.forall_mem_cons, dangling_iff hname]
      by_cases hvalue : value = []
      · refine iff_of_false ?_ fun h => h.1 hvalue
        rintro ⟨-, hinside, -⟩
        subst hvalue
        have hle := hinside.2.1
        simp only [List.length_nil] at hlen hle
        omega
      · have hpos := List.length_pos_iff.2 hvalue
        rw [if_neg hvalue, ih, and_iff_right hvalue, and_iff_right, and_iff_right]
        · refine ⟨?_, ?_, ?_⟩ <;> dsimp only <;> omega
        · refine ⟨?_, ?_, ?_⟩ <;> dsimp only <;> omega
  | case3 rest crlf hcrlf hlt hcolon =>
      rw [headerSlices_no_colon hcrlf hcolon, headerLines_some hcrlf, if_neg hcolon]
      simp

theorem headerLoop_of_none (h : Bytes.findCRLF rest = none) :
    ∃ complete, headerLoop rest = .ok ([], complete) := by
  rw [headerLoop]
  split
  · exact ⟨true, rfl⟩
  · split
    · exact ⟨false, rfl⟩
    · rename_i hsome
      simp [h] at hsome

theorem headerLoop_of_dangling {name : Bytes} (hname : 58 ∉ name)
    (hcrlf : Bytes.findCRLF rest = some crlf) (hline : rest.take crlf = name ++ [58]) :
    headerLoop rest = .error .lengthError := by
  have hlen := length_line hcrlf hline
  rw [List.length_nil] at hlen
  rw [headerLoop_turn hcrlf, hline, takeWhile_colon hname, if_pos (by omega), if_pos (by omega)]

theorem bind_error_iff {α β : Type} {x : Except Fault α} {f : α → β} {e : Fault} :
    (x >>= fun a => pure (f a)) = .error e ↔ x = .error e := by
  cases x <;> simp [bind, Except.bind, pure, Except.pure]

/-- The loop throws at such a header. -/
theorem headerLoop_error_iff :
    headerLoop rest = .error .lengthError ↔ ∃ line ∈ headerLines rest, Dangling line := by
  induction rest using headerLines.induct with
  | case1 rest hcrlf =>
      rcases headerLoop_of_none hcrlf with ⟨complete, hloop⟩
      simp [hloop, headerLines_none hcrlf]
  | case2 rest crlf hcrlf hlt hcolon ih =>
      obtain ⟨name, value, hline, hname⟩ := List.eq_append_cons_of_mem hcolon
      have hlen := length_line hcrlf hline
      rw [headerLines_some hcrlf, if_pos hcolon, hline, List.exists_mem_cons_iff, dangling_iff hname]
      by_cases hvalue : value = []
      · subst hvalue
        exact iff_of_true (headerLoop_of_dangling hname hcrlf hline) (.inl rfl)
      · have hpos := List.length_pos_iff.2 hvalue
        have htake : (rest.take crlf).takeWhile (· != 58) = name := by
          rw [hline, takeWhile_colon hname]
        rw [headerLoop_of_header hcrlf htake (by omega), or_iff_right hvalue, ← ih]
        exact bind_error_iff
  | case3 rest crlf hcrlf hlt hcolon =>
      rw [headerLoop_of_no_colon hcrlf hcolon, headerLines_some hcrlf, if_neg hcolon]
      simp

end Lines

/-! ## The request line -/

section RequestLine

variable {cfg : Config} {stat : Bytes → Option Nat}

/-- The faults in front of the version are no exceptions. -/
def NoThrow {α : Type} (x : Except Fault α) : Prop := x ≠ .error .lengthError

theorem NoThrow.bind {α β : Type} {x : Except Fault α} {f : α → Except Fault β} (hx : NoThrow x)
    (hf : ∀ a, NoThrow (f a)) : NoThrow (x >>= f) := by
  cases x with
  | error e => exact fun h => hx (congrArg _ (Except.error.inj h))
  | ok a => exact hf a

theorem noThrow_ok {α : Type} (a : α) : NoThrow (.ok a) := nofun

theorem noThrow_scanMethod (room : Nat) (request : Bytes) : NoThrow (scanMethod room request) := by
  induction room generalizing request with
  | zero => exact noThrow_ok _
  | succ room ih =>
      cases request with
      | nil => nofun
      | cons c t =>
          rw [scanMethod]
          split
          · exact noThrow_ok _
          · exact (ih t).bind fun _ => noThrow_ok _

theorem noThrow_sprintf (arg : Option Bytes) (fmt : Bytes) : NoThrow (sprintf arg fmt) := by
  induction arg, fmt using sprintf.induct with
  | case1 arg => exact noThrow_ok _
  | case2 arg fmt ih => exact ih.bind fun _ => noThrow_ok _
  | case3 fmt => exact nofun
  | case4 fmt s ih => exact ih.bind fun _ => noThrow_ok _
  | case5 arg tail h₁ h₂ =>
      rw [sprintf]
      · exact nofun
      · exact h₁
      · exact h₂
  | case6 arg c fmt h₁ h₂ h₃ ih =>
      rw [sprintf]
      · exact ih.bind fun _ => noThrow_ok _
      · exact h₁
      · exact h₂
      · exact h₃

theorem noThrow_intoPath (text : Bytes) : NoThrow (intoPath text) := by
  unfold intoPath
  split
  · exact noThrow_ok _
  · exact nofun

theorem noThrow_pathOf (url : Bytes) : NoThrow (pathOf cfg url) := by
  refine (noThrow_sprintf _ _).bind fun text => (noThrow_intoPath text).bind fun path => ?_
  split
  · exact nofun
  · split
    · exact noThrow_intoPath _
    · exact noThrow_ok _

theorem noThrow_servedPath (file : Bytes) (st_mode : Nat) :
    NoThrow (servedPath cfg file st_mode) := by
  unfold servedPath
  split
  · exact noThrow_intoPath _
  · exact noThrow_ok _

theorem noThrow_locateFile (url rest : Bytes) : NoThrow (locateFile cfg stat url rest) := by
  refine (noThrow_pathOf url).bind fun file => ?_
  split
  · exact noThrow_ok _
  · split
    · exact noThrow_ok _
    · refine (noThrow_servedPath _ _).bind fun path => ?_
      dsimp only
      split
      · exact noThrow_ok _
      · exact noThrow_ok _

theorem noThrow_locate (request : Bytes) : NoThrow (locate cfg stat request) := by
  refine (noThrow_scanMethod 15 request).bind fun r => ?_
  dsimp only
  split
  · exact noThrow_ok _
  · exact noThrow_locateFile _ _

end RequestLine

/-! ## The whole request -/

section Request

variable {cfg : Config} {stat : Bytes → Option Nat} {request : Bytes}

theorem headSlices_some {rest : Bytes} {crlf size : Nat} (h : Bytes.findCRLF rest = some crlf) :
    headSlices size rest =
      ⟨size - rest.length + crlf - 3, size - rest.length + crlf⟩ ::
        ⟨size - rest.length, size - rest.length + crlf - 3⟩ ::
          if crlf < 3 ∨ refused ((rest.take crlf).take (crlf - 3)) ((rest.take crlf).drop (crlf - 3))
          then [] else headerSlices size (rest.drop (crlf + 2)) := by
  simp only [headSlices, h]

theorem spacedHead_refused {rest : Bytes} {crlf : Nat} (hlen : 3 ≤ crlf)
    (hrefused : refused ((rest.take crlf).take (crlf - 3)) ((rest.take crlf).drop (crlf - 3)) = true) :
    SpacedHead rest crlf := by
  refine ⟨hlen, fun hok => ?_⟩
  rw [hrefused] at hok
  cases hok

theorem spacedHead_accepted {rest : Bytes} {crlf : Nat} (hlen : 3 ≤ crlf)
    (hok : refused ((rest.take crlf).take (crlf - 3)) ((rest.take crlf).drop (crlf - 3)) = false) :
    SpacedHead rest crlf ↔ ∀ line ∈ headerLines (rest.drop (crlf + 2)), ¬ Dangling line :=
  ⟨fun h => h.2 hok, fun h => ⟨hlen, fun _ => h⟩⟩

theorem scanHead_error_iff {rest : Bytes} {crlf : Nat} (h : Bytes.findCRLF rest = some crlf) :
    scanHead rest = .error .lengthError ↔ ¬ SpacedHead rest crlf := by
  by_cases hshort : crlf < 3
  · refine iff_of_true ?_ fun hspaced => absurd hspaced.1 (Nat.not_le.2 hshort)
    simp only [scanHead, h, if_pos hshort]
  · have hlen := Nat.not_lt.1 hshort
    cases hok : refused ((rest.take crlf).take (crlf - 3)) ((rest.take crlf).drop (crlf - 3)) with
    | true =>
        refine iff_of_false ?_ fun hnot => hnot (spacedHead_refused hlen hok)
        simp [scanHead, h, hshort, hok]
    | false =>
        rw [scanHead_of_accepted h rfl hlen hok, spacedHead_accepted hlen hok]
        simp only [not_forall, not_not, exists_prop]
        exact bind_error_iff.trans headerLoop_error_iff

theorem headSlices_inside_iff {rest : Bytes} {crlf size : Nat}
    (h : Bytes.findCRLF rest = some crlf) (hsize : rest.length ≤ size) :
    (∀ s ∈ headSlices size rest, s.Inside size) ↔ SpacedHead rest crlf := by
  have hlt := Bytes.findCRLF_lt h
  rw [headSlices_some h]
  simp only [List.forall_mem_cons]
  by_cases hshort : crlf < 3
  · refine iff_of_false ?_ fun hspaced => absurd hspaced.1 (Nat.not_le.2 hshort)
    rintro ⟨-, hinside, -⟩
    have hle := hinside.2.1
    dsimp only at hle
    omega
  · have hlen := Nat.not_lt.1 hshort
    rw [and_iff_right, and_iff_right]
    · cases hok : refused ((rest.take crlf).take (crlf - 3)) ((rest.take crlf).drop (crlf - 3)) with
      | true => exact iff_of_true (by simp) (spacedHead_refused hlen hok)
      | false =>
          rw [spacedHead_accepted hlen hok, if_neg (by simp [hshort])]
          exact headerSlices_inside_iff (by rw [List.length_drop]; omega)
    · refine ⟨?_, ?_, ?_⟩ <;> dsimp only <;> omega
    · refine ⟨?_, ?_, ?_⟩ <;> dsimp only <;> omega

/-- A request that gets as far as its version. -/
theorem scan_found {file path mime rest : Bytes}
    (h : locate cfg stat request = .ok (.found file path mime rest)) :
    scan cfg stat request = .error .lengthError ↔ scanHead rest = .error .lengthError := by
  rw [scan, h]
  cases hhead : scanHead rest with
  | error e => simp [bind, Except.bind, hhead]
  | ok r =>
      rcases r with ⟨assigned, failed⟩
      cases failed <;> simp [bind, Except.bind, pure, Except.pure, hhead]

/-- A request that does not get that far. -/
theorem scan_not_found
    (h : ∀ file path mime rest, locate cfg stat request ≠ .ok (.found file path mime rest)) :
    slices cfg stat request = [] ∧ scan cfg stat request ≠ .error .lengthError := by
  have hnoThrow : NoThrow (locate cfg stat request) := noThrow_locate request
  cases hlocate : locate cfg stat request with
  | error e =>
      rw [hlocate] at hnoThrow
      refine ⟨by simp only [slices, hlocate], ?_⟩
      rw [scan, hlocate]
      exact fun herror => hnoThrow (congrArg _ (Except.error.inj herror))
  | ok located =>
      cases located with
      | page file p =>
          refine ⟨by simp only [slices, hlocate], ?_⟩
          rw [scan, hlocate]
          exact noThrow_ok _
      | found file path mime rest => exact absurd hlocate (h file path mime rest)

/-- The strings are cut out of the request, and nothing is thrown, exactly if the request has room
for the slices. -/
theorem slices_inside_iff (cfg : Config) (stat : Bytes → Option Nat) (request : Bytes) :
    ((∀ s ∈ slices cfg stat request, s.Inside request.length) ∧
        scan cfg stat request ≠ .error .lengthError) ↔ Spaced cfg stat request := by
  by_cases hfound : ∃ file path mime rest, locate cfg stat request = .ok (.found file path mime rest)
  · rcases hfound with ⟨file, path, mime, rest, hlocate⟩
    have hsize : rest.length ≤ request.length := by
      obtain ⟨pre, rfl, -⟩ := locate_lookahead hlocate
      rw [List.length_append]
      exact Nat.le_add_left _ _
    have hslices : slices cfg stat request = headSlices request.length rest := by
      simp only [slices, hlocate]
    have hspaced : Spaced cfg stat request ↔
        ∀ crlf, Bytes.findCRLF rest = some crlf → SpacedHead rest crlf := by
      constructor
      · exact fun h crlf hcrlf => h file path mime rest crlf hlocate hcrlf
      · intro h _ _ _ rest' crlf hlocate' hcrlf
        rw [hlocate] at hlocate'
        cases hlocate'
        exact h crlf hcrlf
    rw [hslices, Ne, scan_found hlocate, hspaced]
    cases hcrlf : Bytes.findCRLF rest with
    | none => simp [headSlices, scanHead, hcrlf]
    | some crlf =>
        rw [headSlices_inside_iff hcrlf hsize, scanHead_error_iff hcrlf, not_not, and_self]
        simp
  · simp only [not_exists] at hfound
    obtain ⟨hnil, hnoThrow⟩ := scan_not_found hfound
    refine iff_of_true ⟨by simp [hnil], hnoThrow⟩ ?_
    exact fun file path mime rest _ hlocate _ => absurd hlocate (hfound file path mime rest)

end Request

/-! ## The worker -/

/-- What is left of a worker of `ThreadPl` behind a task. -/
inductive Worker where
  | running (p : Parser)
  /-- `runInThread` has caught an exception and called `abort`. -/
  | aborted
  | undefined

/-- A `parserRequest` in the loop of `runInThread`. -/
def runInThread (cfg : Config) (p : Parser) (v : Visit) : Worker :=
  match p.parserRequest cfg v with
  | .ok served => .running served.parser
  | .error .lengthError => .aborted
  | .error _ => .undefined

/-- A request that throws in front of the response takes the server down, whoever sends it. -/
theorem aborted_of_scan {cfg : Config} {v : Visit}
    (h : scan cfg v.env.stat v.request = .error .lengthError) (p : Parser) :
    runInThread cfg p v = .aborted := by
  have herror : p.parserRequest cfg v = .error .lengthError := by
    rw [Parser.parserRequest, h]
    rfl
  simp only [runInThread, herror]

/-- A request with a header that has no value. -/
def emptyHeader : Visit where
  request := Bytes.ofString "GET /a.html HTTP/1.1\r\nReferer:\r\n\r\n"
  env := Parser.readableFiles
  state_ := .kConnected

/-- The value would start one byte behind the end of its line. -/
theorem slice_outside :
    ¬ (∀ s ∈ slices Parser.htmlConfig Parser.readableFiles.stat emptyHeader.request,
        s.Inside emptyHeader.request.length) ∧
      runInThread Parser.htmlConfig (Parser.construct true) emptyHeader = .aborted := by
  have hlocate : locate Parser.htmlConfig Parser.readableFiles.stat emptyHeader.request =
      .ok (.found (Bytes.ofString "/www/a.html") (Bytes.ofString "/www/a.html")
        (Bytes.ofString "html") (Bytes.ofString "HTTP/1.1\r\nReferer:\r\n\r\n")) := rfl
  have hcrlf : Bytes.findCRLF (Bytes.ofString "HTTP/1.1\r\nReferer:\r\n\r\n") = some 8 := by decide
  have hline : Bytes.findCRLF (Bytes.ofString "Referer:\r\n\r\n") = some 8 := by decide
  have hmem : Bytes.ofString "Referer:" ∈ headerLines (Bytes.ofString "Referer:\r\n\r\n") := by
    rw [headerLines_some hline, if_pos (by decide)]
    exact List.mem_cons_self
  have hnot : ¬ SpacedHead (Bytes.ofString "HTTP/1.1\r\nReferer:\r\n\r\n") 8 := fun h =>
    h.2 (by decide) _ hmem ⟨Bytes.ofString "Referer", by decide, rfl⟩
  constructor
  · intro hinside
    simp only [slices, hlocate] at hinside
    exact hnot ((headSlices_inside_iff hcrlf (by decide)).1 hinside)
  · exact aborted_of_scan ((scan_found hlocate).2 ((scanHead_error_iff hcrlf).2 hnot)) _

end Web
end Longky
