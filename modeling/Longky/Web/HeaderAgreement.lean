import Longky.Http.HttpContext
import Longky.Web.Decoding

/-!
# HeaderAgreement — the two header parsers of the repository

`HttpContext` takes all white space off both ends of a header value.  The loop in `parserRequest`
skips one byte behind the colon, whatever it is, and keeps what stands behind the value.

`agree_iff`: the two make the same map of a block of header lines exactly when no line ends with its
colon and, of the lines of each name, the last one has a single byte of white space, in front of its
value.
-/

namespace Longky
namespace Web

open Lib Net Http

/-! ## Lines with white space -/

/-- A header line with optional white space around its value. -/
structure OwsLine where
  name : Bytes
  before : Bytes
  value : Bytes
  after : Bytes
  name_ok : ∀ c ∈ name, c ≠ 58 ∧ c ≠ 13 ∧ c ≠ 10
  before_ok : ∀ c ∈ before, c = 32 ∨ c = 9
  after_ok : ∀ c ∈ after, c = 32 ∨ c = 9
  value_ok : ∀ c ∈ value, c ≠ 13 ∧ c ≠ 10
  value_head : ∀ c ∈ value.head?, Bytes.isspace c = false
  value_last : ∀ c ∈ value.getLast?, Bytes.isspace c = false

namespace OwsLine

/-- What follows the colon. -/
def rest (l : OwsLine) : Bytes := l.before ++ l.value ++ l.after

theorem not_mem_rest (l : OwsLine) : 13 ∉ l.rest := by
  intro h
  rcases List.mem_append.1 h with h | h
  · rcases List.mem_append.1 h with h | h
    · have hows := l.before_ok 13 h
      revert hows
      decide
    · exact (l.value_ok 13 h).1 rfl
  · have hows := l.after_ok 13 h
    revert hows
    decide

def line (l : OwsLine) : FieldLine where
  name := l.name
  rest := l.rest
  name_colon := fun h => (l.name_ok 58 h).1 rfl
  name_line := Bytes.findCRLF_none_of_not_mem fun h => (l.name_ok 13 h).2.1 rfl
  rest_line := Bytes.findCRLF_none_of_not_mem l.not_mem_rest

/-- A header block. -/
def block (ls : List OwsLine) : Bytes := FieldLine.block (ls.map line)

theorem isspace_of_ows {c : UInt8} (h : c = 32 ∨ c = 9) : Bytes.isspace c = true := by
  rcases h with rfl | rfl <;> decide

theorem trim_rest (l : OwsLine) : HttpRequest.trim l.rest = l.value :=
  Bytes.strip_append (fun b hb => isspace_of_ows (l.before_ok b hb))
    (fun b hb => isspace_of_ows (l.after_ok b hb)) l.value_head l.value_last

/-- One byte of white space stands between the colon and the value, and none behind it. -/
def Single (l : OwsLine) : Prop := ∃ b, (b = 32 ∨ b = 9) ∧ l.rest = b :: l.value

/-- The first byte of the white space and the value behind it are all that follows the colon. -/
theorem ows_of_cons {l : OwsLine} {b : UInt8} (h : l.rest = b :: l.value) : b = 32 ∨ b = 9 := by
  unfold rest at h
  cases hbefore : l.before with
  | cons b' before =>
      rw [hbefore, List.cons_append, List.cons_append, List.cons.injEq] at h
      refine l.before_ok b ?_
      rw [hbefore, ← h.1]
      exact List.mem_cons_self
  | nil =>
      rw [hbefore, List.nil_append] at h
      have hlen := congrArg List.length h
      rw [List.length_append, List.length_cons] at hlen
      rcases List.length_eq_one_iff.1 (show l.after.length = 1 by omega) with ⟨s, hafter⟩
      have hs := l.after_ok s (by rw [hafter]; exact List.mem_singleton_self s)
      rw [hafter] at h
      cases hvalue : l.value with
      | nil =>
          rw [hvalue, List.nil_append, List.cons.injEq] at h
          exact h.1 ▸ hs
      | cons c value =>
          -- the value would end in the white space behind it
          have hlast := congrArg List.getLast? h
          rw [List.getLast?_concat, hvalue, List.getLast?_cons_cons, ← hvalue] at hlast
          have hspace := l.value_last s hlast.symm
          rw [isspace_of_ows hs] at hspace
          cases hspace

/-- What is behind the first byte of the rest is the value exactly when that byte is all the white
space of the line. -/
theorem single_iff {l : OwsLine} (hne : l.rest ≠ []) : l.Single ↔ l.rest.drop 1 = l.value := by
  constructor
  · rintro ⟨b, -, hrest⟩
    rw [hrest]
    rfl
  · intro hdrop
    cases hrest : l.rest with
    | nil => exact absurd hrest hne
    | cons b rest =>
        rw [hrest, List.drop_succ_cons, List.drop_zero] at hdrop
        rw [hdrop] at hrest
        exact ⟨b, ows_of_cons hrest, hrest⟩

end OwsLine

/-! ## The map of a context -/

namespace FieldLine

/-- `addHeader` for each line. -/
def addAll (r : Http.HttpRequest) (ls : List FieldLine) : Http.HttpRequest :=
  ls.foldl (fun r l => r.addHeader l.text) r

theorem addHeader_text (r : Http.HttpRequest) (l : FieldLine) :
    r.addHeader l.text =
      { r with headers_ := Function.update r.headers_ l.name (some (HttpRequest.trim l.rest)) } := by
  have hname : l.text.takeWhile (· != 58) = l.name := Message.fieldName_field l.name_colon
  have hrest : l.text.drop (l.name.length + 1) = l.rest := by
    rw [text, ← List.drop_drop, List.drop_left]
    rfl
  simp only [HttpRequest.addHeader, hname, hrest]

theorem headers_addAll (r : Http.HttpRequest) (ls : List FieldLine) :
    (addAll r ls).headers_ =
      writeAll r.headers_ (ls.map fun l => (l.name, some (HttpRequest.trim l.rest))) := by
  induction ls generalizing r with
  | nil => rfl
  | cons l ls ih =>
      rw [addAll, List.foldl_cons, addHeader_text]
      exact ih _

/-- A context reads a block to its end. -/
theorem run_block {c : HttpContext} (hc : c.state_ = .kExpectHeaders) (t : Nat)
    (ls : List FieldLine) :
    (HttpContext.lineStep t).run c (block ls) =
      .done { c with state_ := .kGotAll, request_ := addAll c.request_ ls } [] := by
  induction ls generalizing c with
  | nil =>
      have hblank := LineMachine.run_line (M := HttpContext.lineStep t) (s := c)
        (show Bytes.findCRLF [] = none from rfl) []
      rw [show block [] = [] ++ 13 :: 10 :: [] from rfl, hblank]
      simp [HttpContext.lineStep, hc, addAll]
  | cons l ls ih =>
      have hcolon : 58 ∈ l.text := List.mem_append_right _ List.mem_cons_self
      rw [block_cons, LineMachine.run_line l.text_line]
      simp only [HttpContext.lineStep, hc, if_pos hcolon]
      exact ih rfl

end FieldLine

/-! ## Agreement -/

/-- The loop of the static server and a context that has read no header yet make the same map of the
block, name by name. -/
def Agree (ls : List OwsLine) : Prop :=
  ∃ assigned, headerLoop (OwsLine.block ls) = .ok (assigned, true) ∧
    ∀ (c : HttpContext) (buf : WfBuffer) (t : Nat), c.state_ = .kExpectHeaders →
      c.request_.headers_ = (fun _ => none) → buf.readable = OwsLine.block ls →
        ∃ c' buf', c.parseRequest buf t = .ok (true, c', buf') ∧ c'.gotAll = true ∧
          c'.request_.headers_ =
            writeAll (fun _ => none) (assigned.map fun kv => (kv.1, some kv.2))

theorem headers_parseRequest {c : HttpContext} {buf : WfBuffer} {ls : List OwsLine} (t : Nat)
    (hc : c.state_ = .kExpectHeaders) (hheaders : c.request_.headers_ = fun _ => none)
    (hbuf : buf.readable = OwsLine.block ls) :
    ∃ c' buf', c.parseRequest buf t = .ok (true, c', buf') ∧ c'.gotAll = true ∧
      c'.request_.headers_ = writeAll (fun _ => none) (ls.map fun l => (l.name, some l.value)) := by
  have hrun := HttpContext.parseRequest_run (Or.inr hc) buf t
  rw [hbuf, OwsLine.block, FieldLine.run_block hc] at hrun
  rcases hrun with ⟨buf', hresult, -, hall⟩
  refine ⟨_, buf', hresult, hall, ?_⟩
  change (FieldLine.addAll c.request_ (ls.map OwsLine.line)).headers_ = _
  rw [FieldLine.headers_addAll, hheaders, List.map_map]
  refine congrArg _ (List.map_congr_left fun l _ => ?_)
  change (l.name, some (HttpRequest.trim l.rest)) = _
  rw [l.trim_rest]

/-- The loop reads a block exactly when no line ends with its colon. -/
theorem headerLoop_ok {ls : List FieldLine} {r : List (Bytes × Bytes) × Bool}
    (h : headerLoop (FieldLine.block ls) = .ok r) : ∀ l ∈ ls, l.rest ≠ [] := by
  induction ls generalizing r with
  | nil =>
      intro l hl
      cases hl
  | cons l ls ih =>
      rw [FieldLine.headerLoop_cons] at h
      split at h
      · cases h
      · rename_i hne
        rcases bind_eq_ok h with ⟨r', hr', -⟩
        intro l' hl'
        rcases List.mem_cons.1 hl' with rfl | hl'
        · exact hne
        · exact ih hr' l' hl'

theorem rest_ne_of_headerLoop {ls : List OwsLine} {r : List (Bytes × Bytes) × Bool}
    (h : headerLoop (OwsLine.block ls) = .ok r) : ∀ l ∈ ls, l.rest ≠ [] :=
  fun _ hl => headerLoop_ok h _ (List.mem_map_of_mem hl)

theorem headerLoop_of_rest_ne {ls : List OwsLine} (h : ∀ l ∈ ls, l.rest ≠ []) :
    headerLoop (OwsLine.block ls) = .ok (ls.map fun l => (l.name, l.rest.drop 1), true) := by
  rw [OwsLine.block, FieldLine.headerLoop_block, List.map_map]
  · rfl
  · intro l hl
    rcases List.mem_map.1 hl with ⟨l', hl', rfl⟩
    exact h l' hl'

/-- A context that has read no header yet, and a buffer with the block. -/
theorem exists_context (ls : List OwsLine) : ∃ (c : HttpContext) (buf : WfBuffer),
    c.state_ = .kExpectHeaders ∧ c.request_.headers_ = (fun _ => none) ∧
      buf.readable = OwsLine.block ls := by
  refine ⟨{ state_ := .kExpectHeaders }, (WfBuffer.construct 0).append (OwsLine.block ls), rfl, rfl,
    ?_⟩
  rw [WfBuffer.readable_append, WfBuffer.readable_construct, List.nil_append]

/-- Where the loop reads the block, the two parsers agree if their assignments leave the same map. -/
theorem agree_iff_writeAll {ls : List OwsLine} (hrest : ∀ l ∈ ls, l.rest ≠ []) :
    Agree ls ↔ writeAll (fun _ => none) (ls.map fun l => (l.name, some (l.rest.drop 1))) =
      writeAll (fun _ => none) (ls.map fun l => (l.name, some l.value)) := by
  have hmap : (ls.map fun l => (l.name, l.rest.drop 1)).map (fun kv => (kv.1, some kv.2)) =
      ls.map fun l => (l.name, some (l.rest.drop 1)) := by
    rw [List.map_map]
    rfl
  constructor
  · rintro ⟨assigned, hloop, hagree⟩
    rw [headerLoop_of_rest_ne hrest] at hloop
    cases hloop
    rcases exists_context ls with ⟨c, buf, hc, hheaders, hbuf⟩
    rcases hagree c buf 0 hc hheaders hbuf with ⟨c₁, buf₁, hresult₁, -, hmap₁⟩
    rcases headers_parseRequest 0 hc hheaders hbuf with ⟨c₂, buf₂, hresult₂, -, hmap₂⟩
    rw [hresult₁] at hresult₂
    cases hresult₂
    rw [← hmap, ← hmap₁, hmap₂]
  · intro heq
    refine ⟨_, headerLoop_of_rest_ne hrest, ?_⟩
    intro c buf t hc hheaders hbuf
    rw [hmap, heq]
    exact headers_parseRequest t hc hheaders hbuf

/-- The two parsers agree on a block exactly when every line has something behind its colon and the
last line of each name has one byte of white space, in front of its value. -/
theorem agree_iff (ls : List OwsLine) :
    Agree ls ↔ (∀ l ∈ ls, l.rest ≠ []) ∧
      ∀ before l after, ls = before ++ l :: after → (∀ l' ∈ after, l'.name ≠ l.name) →
        l.Single := by
  by_cases hrest : ∀ l ∈ ls, l.rest ≠ []
  · rw [and_iff_right hrest, agree_iff_writeAll hrest, writeAll_map_eq_iff]
    refine forall_congr' fun before => forall_congr' fun l => forall_congr' fun after => ?_
    refine forall_congr' fun hsplit => imp_congr_right fun _ => ?_
    have hl : l ∈ ls := hsplit ▸ List.mem_append_right _ List.mem_cons_self
    rw [OwsLine.single_iff (hrest l hl), Option.some.injEq]
  · refine iff_of_false ?_ fun h => hrest h.1
    rintro ⟨assigned, hloop, -⟩
    exact hrest (rest_ne_of_headerLoop hloop)

/-- The form in which the static server writes its own header lines. -/
def connectionClose : OwsLine where
  name := Bytes.ofString "Connection"
  before := []
  value := Bytes.ofString "close"
  after := []
  name_ok := List.forall_iff_forall_mem.1 (by decide)
  before_ok := List.forall_mem_nil _
  after_ok := List.forall_mem_nil _
  value_ok := List.forall_iff_forall_mem.1 (by decide)
  value_head := by rintro _ ⟨⟩; decide
  value_last := by rintro _ ⟨⟩; decide

/-- Without a blank behind the colon the value loses its first letter. -/
theorem connectionClose_disagree :
    headerLoop (OwsLine.block [connectionClose]) =
        .ok ([(Bytes.ofString "Connection", Bytes.ofString "lose")], true) ∧
      ¬ Agree [connectionClose] := by
  have hrest : ∀ l ∈ [connectionClose], l.rest ≠ [] := by decide
  refine ⟨headerLoop_of_rest_ne hrest, ?_⟩
  rw [agree_iff_writeAll hrest]
  intro hmap
  have hvalue := congrFun hmap (Bytes.ofString "Connection")
  revert hvalue
  decide

end Web
end Longky
