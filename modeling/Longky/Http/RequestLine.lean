import Mathlib.Data.List.TakeWhile
import Longky.Http.HttpServer

/-!
# RequestLine — the grammar of request lines

`HttpContext::processRequestLine` of `netLayer/http/HttpContext.cpp` finds two blanks and a question
mark and compares the last eight bytes.  `processRequestLine_iff`: it accepts the lines
`method target HTTP/1.v` of the five methods and the two versions, with any target without a blank,
and cuts the target at its first question mark.
-/

namespace Longky
namespace Http

open Lib

/-- `methodString`. -/
def Method.methodString : Method → Bytes
  | .kGet => Bytes.ofString "GET"
  | .kPost => Bytes.ofString "POST"
  | .kHead => Bytes.ofString "HEAD"
  | .kPut => Bytes.ofString "PUT"
  | .kDelete => Bytes.ofString "DELETE"
  | .kInvalid => Bytes.ofString "UNKNOWN"

/-- The last byte of the version. -/
def Version.digit : Version → UInt8
  | .kHttp11 => 49
  | .kHttp10 => 48
  | .kUnknown => 63

/-- `line` is the method, a blank, the target and the version. -/
structure IsRequestLine (line : Bytes) (method : Method) (target : Bytes) (version : Version) :
    Prop where
  method_valid : method ≠ .kInvalid
  version_known : version ≠ .kUnknown
  no_blank : 32 ∉ target
  line_eq : line =
    method.methodString ++ 32 :: (target ++ (Bytes.ofString " HTTP/1." ++ [version.digit]))

/-! ## Methods -/

theorem Method.ofText_methodString (method : Method) (h : method ≠ .kInvalid) :
    Method.ofText method.methodString = method := by
  cases method with
  | kInvalid => exact absurd rfl h
  | kGet => decide
  | kPost => decide
  | kHead => decide
  | kPut => decide
  | kDelete => decide

/-- `setMethod` knows a word only as the name of the method it sets. -/
theorem Method.methodString_ofText {m : Bytes} (h : Method.ofText m ≠ .kInvalid) :
    (Method.ofText m).methodString = m := by
  unfold Method.ofText at *
  split_ifs at * with hget hpost hhead hput hdelete
  · exact hget.symm
  · exact hpost.symm
  · exact hhead.symm
  · exact hput.symm
  · exact hdelete.symm
  · exact absurd rfl h

theorem Method.not_mem_methodString (method : Method) : 32 ∉ method.methodString := by
  cases method <;> decide

/-! ## Blanks -/

/-- A word that is shorter than its text is followed by a blank. -/
theorem blank_cut {text : Bytes} (h : (text.takeWhile (· != 32)).length ≠ text.length) :
    text = text.takeWhile (· != 32) ++
      32 :: text.drop ((text.takeWhile (· != 32)).length + 1) := by
  -- a blank in front ends the word at once, any other byte belongs to it
  induction text with
  | nil => exact absurd rfl h
  | cons b text ih =>
      by_cases hb : b = 32
      · simp [hb]
      · have hcons : (b :: text).takeWhile (· != 32) = b :: text.takeWhile (· != 32) :=
          List.takeWhile_cons_of_pos (by simpa using hb)
        rw [hcons] at h ⊢
        have hrest := ih (by simpa using h)
        rw [List.length_cons, List.drop_succ_cons, List.cons_append, ← hrest]

theorem not_mem_word (text : Bytes) : 32 ∉ text.takeWhile (· != 32) := by
  intro hmem
  have hne := List.mem_takeWhile_imp hmem
  simp at hne

theorem length_word {word : Bytes} (h : 32 ∉ word) (t : Bytes) :
    ((word ++ 32 :: t).takeWhile (· != 32)).length ≠ (word ++ 32 :: t).length := by
  rw [Request.takeWhile_blank h]
  simp

/-! ## The part behind the method -/

/-- What an accepted line sets, besides the method. -/
def HttpRequest.withTarget (r : HttpRequest) (target : Bytes) (version : Version) : HttpRequest :=
  { r with
    version_ := version
    path_ := target.takeWhile (· != 63)
    query_ := if 63 ∈ target then target.dropWhile (· != 63) else r.query_ }

/-- The eight bytes of a version. -/
theorem version_eq {bs : Bytes} {d : UInt8} (hlen : bs.length = 8)
    (htake : bs.take 7 = Bytes.ofString "HTTP/1.") (hlast : bs.getLast? = some d) :
    bs = Bytes.ofString "HTTP/1." ++ [d] := by
  have hdrop : bs.dropLast = bs.take 7 := by
    rw [List.dropLast_eq_take, hlen]
  have hsplit := List.dropLast_append_getLast? d hlast
  rw [hdrop, htake] at hsplit
  exact hsplit.symm

theorem question_cut {target : Bytes} (r : HttpRequest) :
    (if (target.takeWhile (· != 63)).length < target.length then
        { r with
          path_ := target.takeWhile (· != 63)
          query_ := target.drop (target.takeWhile (· != 63)).length }
      else { r with path_ := target }) =
      { r with
        path_ := target.takeWhile (· != 63)
        query_ := if 63 ∈ target then target.dropWhile (· != 63) else r.query_ } := by
  rcases Request.target_cut target with ⟨hquery, hwhole⟩
  by_cases hmark : 63 ∈ target
  · have hlt : (target.takeWhile (· != 63)).length < target.length := by
      by_contra hnot
      have hall := (hwhole hnot).1
      rw [← hall] at hmark
      have hne := List.mem_takeWhile_imp hmark
      simp at hne
    rw [if_pos hlt, if_pos hmark, hquery]
  · have hall : target.takeWhile (· != 63) = target := by
      rw [List.takeWhile_eq_self_iff]
      intro b hb
      simp only [bne_iff_ne, ne_eq]
      rintro rfl
      exact hmark hb
    rw [hall, if_neg (Nat.lt_irrefl _), if_neg hmark]

theorem processTarget_accepts (r : HttpRequest) {target : Bytes} {version : Version}
    (hknown : version ≠ .kUnknown) (hblank : 32 ∉ target) :
    processTarget r (target ++ (Bytes.ofString " HTTP/1." ++ [version.digit])) =
      (true, r.withTarget target version) := by
  have hspace : Bytes.ofString " HTTP/1." = 32 :: Bytes.ofString "HTTP/1." := by decide
  -- `start = space + 1`: what is left are the eight bytes of the version
  have hdrop : (target ++ 32 :: (Bytes.ofString "HTTP/1." ++ [version.digit])).drop
      (target.length + 1) = Bytes.ofString "HTTP/1." ++ [version.digit] := by
    simp
  have hseven : (Bytes.ofString "HTTP/1.").length = 7 := by decide
  have hlen : (Bytes.ofString "HTTP/1." ++ [version.digit]).length = 8 := by
    rw [List.length_append, hseven]
    rfl
  have htake : (Bytes.ofString "HTTP/1." ++ [version.digit]).take 7 = Bytes.ofString "HTTP/1." :=
    List.take_left' hseven
  rw [hspace, List.cons_append]
  unfold processTarget
  rw [Request.takeWhile_blank hblank]
  dsimp only
  rw [if_neg (by simp), hdrop, if_pos ⟨hlen, htake⟩, List.getLast?_concat, question_cut]
  cases version with
  | kUnknown => exact absurd rfl hknown
  | kHttp11 => rfl
  | kHttp10 => rfl

theorem processTarget_sound {r r' : HttpRequest} {rest : Bytes}
    (h : processTarget r rest = (true, r')) :
    ∃ (target : Bytes) (version : Version), version ≠ .kUnknown ∧ 32 ∉ target ∧
      rest = target ++ (Bytes.ofString " HTTP/1." ++ [version.digit]) := by
  have hspace : Bytes.ofString " HTTP/1." = 32 :: Bytes.ofString "HTTP/1." := by decide
  unfold processTarget at h
  dsimp only at h
  split at h
  · cases h
  · rename_i hlen
    have hcut := blank_cut hlen
    split at h
    · rename_i hversion
      split at h
      · rename_i hlast
        -- the last of the eight bytes is '1'
        refine ⟨_, .kHttp11, by simp, not_mem_word rest, ?_⟩
        rw [version_eq hversion.1 hversion.2 hlast] at hcut
        rw [hspace]
        exact hcut
      · split at h
        · rename_i hlast
          -- the last of the eight bytes is '0'
          refine ⟨_, .kHttp10, by simp, not_mem_word rest, ?_⟩
          rw [version_eq hversion.1 hversion.2 hlast] at hcut
          rw [hspace]
          exact hcut
        · cases h
    · cases h

/-! ## Lines -/

section Lines

variable {r : HttpRequest} {line : Bytes}

/-- On a request without a method the assertion of `setMethod` holds. -/
theorem processRequestLine_fresh (hr : r.method_ = .kInvalid) (line : Bytes) :
    processRequestLine r line = .ok
      (if (line.takeWhile (· != 32)).length = line.length then (false, r)
      else if Method.ofText (line.takeWhile (· != 32)) = .kInvalid then (false, r)
      else processTarget { r with method_ := Method.ofText (line.takeWhile (· != 32)) }
        (line.drop ((line.takeWhile (· != 32)).length + 1))) := by
  unfold processRequestLine
  dsimp only
  by_cases hlen : (line.takeWhile (· != 32)).length = line.length
  · rw [if_pos hlen, if_pos hlen]
  · rw [if_neg hlen, if_neg hlen, HttpRequest.setMethod, if_pos hr]
    by_cases hmethod : Method.ofText (line.takeWhile (· != 32)) = .kInvalid
    -- `setMethod` stores `kInvalid` over `kInvalid`
    · have hsame : ({ r with method_ := .kInvalid } : HttpRequest) = r := by rw [← hr]
      simp [hmethod, hsame]
    · have hvalid : (Method.ofText (line.takeWhile (· != 32)) != .kInvalid) = true := by
        simpa using hmethod
      rw [hvalid, if_neg hmethod]

theorem processRequestLine_accepts (hr : r.method_ = .kInvalid) {method : Method} {target : Bytes}
    {version : Version} (h : IsRequestLine line method target version) :
    processRequestLine r line =
      .ok (true, { r with method_ := method }.withTarget target version) := by
  have hword : line.takeWhile (· != 32) = method.methodString := by
    rw [h.line_eq, Request.takeWhile_blank method.not_mem_methodString]
  have hlen : (line.takeWhile (· != 32)).length ≠ line.length := by
    rw [h.line_eq]
    exact length_word method.not_mem_methodString _
  have hdrop : line.drop (method.methodString.length + 1) =
      target ++ (Bytes.ofString " HTTP/1." ++ [version.digit]) := by
    rw [h.line_eq]
    simp
  have hvalid := Method.ofText_methodString method h.method_valid
  rw [processRequestLine_fresh hr, if_neg hlen, hword, hvalid, if_neg h.method_valid, hdrop,
    processTarget_accepts _ h.version_known h.no_blank]

theorem processRequestLine_sound (hr : r.method_ = .kInvalid) {r' : HttpRequest}
    (h : processRequestLine r line = .ok (true, r')) :
    ∃ method target version, IsRequestLine line method target version := by
  rw [processRequestLine_fresh hr] at h
  split at h
  · cases h
  · rename_i hlen
    split at h
    · cases h
    · rename_i hmethod
      rcases processTarget_sound (Except.ok.inj h) with ⟨target, version, hknown, hblank, hrest⟩
      have hcut := blank_cut hlen
      rw [hrest, ← Method.methodString_ofText hmethod] at hcut
      exact ⟨_, target, version, hmethod, hknown, hblank, hcut⟩

end Lines

/-- `processRequestLine` accepts exactly the request lines, and cuts their targets at the first
question mark. -/
theorem processRequestLine_iff (r : HttpRequest) (hr : r.method_ = .kInvalid) (line : Bytes) :
    ((∃ r', processRequestLine r line = .ok (true, r')) ↔
        ∃ method target version, IsRequestLine line method target version) ∧
      (∀ method target version, IsRequestLine line method target version →
        ∃ r', processRequestLine r line = .ok (true, r') ∧ r'.method_ = method ∧
          r'.version_ = version ∧ r'.path_ = target.takeWhile (· != 63) ∧
          (63 ∈ target → r'.query_ = target.dropWhile (· != 63) ∧ r'.path_ ++ r'.query_ = target)) ∧
      ∃ ok r', processRequestLine r line = .ok (ok, r') := by
  refine ⟨⟨?_, ?_⟩, ?_, ?_⟩
  · rintro ⟨r', h⟩
    exact processRequestLine_sound hr h
  · rintro ⟨method, target, version, h⟩
    exact ⟨_, processRequestLine_accepts hr h⟩
  · intro method target version h
    refine ⟨_, processRequestLine_accepts hr h, rfl, rfl, rfl, fun hmark => ?_⟩
    have hquery : ({ r with method_ := method }.withTarget target version).query_ =
        target.dropWhile (· != 63) := if_pos hmark
    refine ⟨hquery, ?_⟩
    rw [hquery]
    exact List.takeWhile_append_dropWhile
  · exact ⟨_, _, processRequestLine_fresh hr line⟩

theorem processRequestLine_iff_get :
    ∃ r', processRequestLine {} (Bytes.ofString "GET /a?b?c HTTP/1.1") = .ok (true, r') ∧
      r'.method_ = .kGet ∧ r'.version_ = .kHttp11 ∧
      r'.path_ = (Bytes.ofString "/a?b?c").takeWhile (· != 63) ∧
      (63 ∈ Bytes.ofString "/a?b?c" →
        r'.query_ = (Bytes.ofString "/a?b?c").dropWhile (· != 63) ∧
          r'.path_ ++ r'.query_ = Bytes.ofString "/a?b?c") := by
  have hline : IsRequestLine (Bytes.ofString "GET /a?b?c HTTP/1.1") .kGet (Bytes.ofString "/a?b?c")
      .kHttp11 := ⟨by decide, by decide, by decide, by decide⟩
  exact (processRequestLine_iff {} rfl _).2.1 _ _ _ hline

end Http
end Longky
