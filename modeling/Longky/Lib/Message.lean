import Longky.Lib.Lines
import Mathlib.Data.List.TakeWhile
import Mathlib.Data.String.Basic

/-!
# Messages — lines, an empty line and a body

A message starts with lines that are not empty; the body is what follows the first empty line.
`read_lines` reads back a message that was put together from its parts, and `read_eq_some_iff` says
that nothing else is read.

The numbers in such lines are decimal texts, which have neither white space nor line ends in them
and stand for one number only; `decimal` reads them.
-/

namespace Longky
namespace Lib

namespace Bytes

/-- A text without the white space at its ends. -/
def strip (bs : Bytes) : Bytes :=
  ((bs.dropWhile isspace).reverse.dropWhile isspace).reverse

def isdigit (b : UInt8) : Bool := 48 ≤ b && b ≤ 57

/-! ## Lines put together -/

theorem findCRLF_append_of_not_mem {xs : Bytes} (h : 13 ∉ xs) {ys : Bytes}
    (hys : findCRLF ys = none) : findCRLF (xs ++ ys) = none := by
  induction xs with
  | nil => exact hys
  | cons c xs ih =>
      rw [List.mem_cons, not_or] at h
      rw [List.cons_append, findCRLF, ih h.2]
      · rfl
      · intro t hc _
        exact h.1 hc.symm

/-- A line goes on with a byte that is no line feed. -/
theorem findCRLF_append_of_head {xs : Bytes} (h : findCRLF xs = none) {ys : Bytes}
    (hys : findCRLF ys = none) (hhead : ys.head? ≠ some 10) : findCRLF (xs ++ ys) = none := by
  induction xs using findCRLF.induct with
  | case1 t => cases h
  | case2 c xs hne ih =>
      rw [findCRLF] at h
      · rw [Option.map_eq_none_iff] at h
        rw [List.cons_append, findCRLF, ih h]
        · rfl
        · intro t hc hline
          cases xs with
          | nil =>
              rw [List.nil_append] at hline
              exact hhead (by rw [hline]; rfl)
          | cons d xs =>
              rw [List.cons_append, List.cons.injEq] at hline
              exact hne xs hc (by rw [hline.1])
      · exact hne
  | case3 => exact hys

/-! ## Decimal texts -/

theorem ofString_inj {s t : String} : ofString s = ofString t ↔ s = t := by
  constructor
  · intro h
    have hdata : s.toByteArray.data = t.toByteArray.data := Array.toList_inj.1 h
    exact String.toByteArray_inj.1 (ByteArray.ext hdata)
  · rintro rfl
    rfl

theorem ofString_ofList (cs : List Char) :
    ofString (String.ofList cs) = cs.flatMap String.utf8EncodeChar := by
  simp [ofString, List.utf8Encode]

theorem ofString_append (s t : String) : ofString (s ++ t) = ofString s ++ ofString t := by
  simp [ofString]

/-- A digit is one byte. -/
theorem utf8EncodeChar_digit {c : Char} (hc : c.isDigit = true) :
    ∃ b : UInt8, String.utf8EncodeChar c = [b] ∧ b.toNat = c.toNat := by
  have hrange : 48 ≤ c.val ∧ c.val ≤ 57 := by simpa [Char.isDigit] using hc
  have hsize : c.utf8Size = 1 := Char.utf8Size_eq_one_iff.2 (by grind)
  have hhigh : c.val.toNat ≤ 57 := by simpa using UInt32.le_iff_toNat_le.1 hrange.2
  refine ⟨c.val.toUInt8, String.utf8EncodeChar_eq_singleton hsize, ?_⟩
  rw [UInt32.toNat_toUInt8]
  exact Nat.mod_eq_of_lt (by omega)

theorem isdigit_of_mem_char {c : Char} (hc : c.isDigit = true) {b : UInt8}
    (hb : b ∈ String.utf8EncodeChar c) : isdigit b = true := by
  have hrange : 48 ≤ c.val ∧ c.val ≤ 57 := by simpa [Char.isDigit] using hc
  have hlow : 48 ≤ c.toNat := by simpa using UInt32.le_iff_toNat_le.1 hrange.1
  have hhigh : c.toNat ≤ 57 := by simpa using UInt32.le_iff_toNat_le.1 hrange.2
  rcases utf8EncodeChar_digit hc with ⟨b', hchar, hvalue⟩
  rw [hchar, List.mem_singleton] at hb
  subst hb
  simp only [isdigit, Bool.and_eq_true, decide_eq_true_eq, UInt8.le_iff_toNat_le, hvalue]
  exact ⟨hlow, hhigh⟩

theorem isdigit_of_mem {n : Nat} {b : UInt8} (hb : b ∈ ofString (toString n)) :
    isdigit b = true := by
  rw [Nat.toString_eq_ofList_toDigits, ofString_ofList] at hb
  rcases List.mem_flatMap.1 hb with ⟨c, hc, hb⟩
  exact isdigit_of_mem_char (Nat.isDigit_of_mem_toDigits (by decide) (by decide) hc) hb

theorem ofString_nat_inj {m n : Nat} : ofString (toString m) = ofString (toString n) ↔ m = n := by
  constructor
  · intro h
    rw [ofString_inj, Nat.toString_eq_ofList_toDigits, Nat.toString_eq_ofList_toDigits,
      String.ofList_inj] at h
    calc m = Nat.ofDigitChars 10 (Nat.toDigits 10 m) 0 := Nat.ofDigitChars_ten_toDigits.symm
      _ = n := by rw [h, Nat.ofDigitChars_ten_toDigits]
  · rintro rfl
    rfl

/-- The number with this decimal text. -/
def decimal (bs : Bytes) : Option Nat :=
  let n := bs.foldl (fun n b => 10 * n + (b.toNat - 48)) 0
  if ofString (toString n) = bs then some n else none

theorem foldl_digits {cs : List Char} (hcs : ∀ c ∈ cs, c.isDigit = true) (n : Nat) :
    (cs.flatMap String.utf8EncodeChar).foldl (fun n b => 10 * n + (b.toNat - 48)) n =
      Nat.ofDigitChars 10 cs n := by
  induction cs generalizing n with
  | nil => rw [Nat.ofDigitChars_nil, List.flatMap_nil, List.foldl_nil]
  | cons c cs ih =>
      rcases utf8EncodeChar_digit (hcs c List.mem_cons_self) with ⟨b, hb, hvalue⟩
      rw [List.flatMap_cons, hb, List.singleton_append, List.foldl_cons, hvalue,
        ih fun c' hc' => hcs c' (List.mem_cons_of_mem _ hc'), Nat.ofDigitChars_cons]
      rfl

theorem length_digits {cs : List Char} (hcs : ∀ c ∈ cs, c.isDigit = true) :
    (cs.flatMap String.utf8EncodeChar).length = cs.length := by
  induction cs with
  | nil => rfl
  | cons c cs ih =>
      rcases utf8EncodeChar_digit (hcs c List.mem_cons_self) with ⟨b, hb, -⟩
      rw [List.flatMap_cons, hb, List.singleton_append, List.length_cons, List.length_cons,
        ih fun c' hc' => hcs c' (List.mem_cons_of_mem _ hc')]

theorem isDigit_of_mem_toDigits {n : Nat} : ∀ c ∈ Nat.toDigits 10 n, c.isDigit = true :=
  fun _ hc => Nat.isDigit_of_mem_toDigits (by decide) (by decide) hc

theorem decimal_eq_some_iff {bs : Bytes} {n : Nat} :
    decimal bs = some n ↔ bs = ofString (toString n) := by
  unfold decimal
  dsimp only
  constructor
  · intro h
    split at h
    · rename_i htext
      rw [Option.some.injEq] at h
      rw [← h, htext]
    · cases h
  · rintro rfl
    have hvalue : (ofString (toString n)).foldl (fun n b => 10 * n + (b.toNat - 48)) 0 = n := by
      rw [Nat.toString_eq_ofList_toDigits, ofString_ofList, foldl_digits isDigit_of_mem_toDigits,
        Nat.ofDigitChars_ten_toDigits]
    rw [hvalue, if_pos rfl]

/-- The number of digits. -/
theorem length_ofString_nat_le {n k : Nat} (hk : 0 < k) :
    (ofString (toString n)).length ≤ k ↔ n < 10 ^ k := by
  rw [Nat.toString_eq_ofList_toDigits, ofString_ofList, length_digits isDigit_of_mem_toDigits]
  exact Nat.length_toDigits_le_iff (by decide) hk

/-- A sign, and the digits. -/
theorem ofString_int (i : Int) : ofString (toString i) =
    if 0 ≤ i then ofString (toString i.toNat) else 45 :: ofString (toString (-i).toNat) := by
  have hrepr : toString i = i.repr := rfl
  rw [hrepr, Int.repr_eq_if]
  split
  · rfl
  · rw [ofString_append]
    rfl

theorem ofString_int_eq_nat {i : Int} {n : Nat} :
    ofString (toString i) = ofString (toString n) ↔ i = n := by
  rw [ofString_int]
  split
  · rw [ofString_nat_inj]
    omega
  · refine iff_of_false ?_ (by omega)
    intro h
    have hsign : 45 ∈ ofString (toString n) := by
      rw [← h]
      exact List.mem_cons_self
    have hdigit := isdigit_of_mem hsign
    revert hdigit
    decide

theorem not_isspace_of_isdigit {b : UInt8} (h : isdigit b = true) : isspace b = false := by
  simp only [isdigit, isspace, Bool.and_eq_true, decide_eq_true_eq, UInt8.le_iff_toNat_le,
    Bool.or_eq_false_iff, Bool.and_eq_false_iff, beq_eq_false_iff_ne, decide_eq_false_iff_not,
    ← UInt8.toNat_inj, UInt8.reduceToNat, ne_eq] at h ⊢
  omega

theorem not_isspace_of_mem {i : Int} {b : UInt8} (hb : b ∈ ofString (toString i)) :
    isspace b = false := by
  rw [ofString_int] at hb
  split at hb
  · exact not_isspace_of_isdigit (isdigit_of_mem hb)
  · rcases List.mem_cons.1 hb with rfl | hb
    · rfl
    · exact not_isspace_of_isdigit (isdigit_of_mem hb)

theorem strip_of_forall {bs : Bytes} (h : ∀ b ∈ bs, isspace b = false) : strip bs = bs := by
  have hkeep : ∀ l : Bytes, (∀ b ∈ l, isspace b = false) → l.dropWhile isspace = l := by
    intro l hl
    cases l with
    | nil => rfl
    | cons b l => rw [List.dropWhile_cons, if_neg (by simp [hl b List.mem_cons_self])]
  unfold strip
  rw [hkeep bs h, hkeep bs.reverse fun b hb => h b (List.mem_reverse.1 hb), List.reverse_reverse]

/-- White space around a text that neither starts nor ends with any. -/
theorem strip_append {before value after : Bytes} (hbefore : ∀ b ∈ before, isspace b = true)
    (hafter : ∀ b ∈ after, isspace b = true) (hhead : ∀ b ∈ value.head?, isspace b = false)
    (hlast : ∀ b ∈ value.getLast?, isspace b = false) : strip (before ++ value ++ after) = value := by
  have hkeep : ∀ (l t : Bytes), l ≠ [] → (∀ b ∈ l.head?, isspace b = false) →
      (l ++ t).dropWhile isspace = l ++ t := by
    intro l t hne hl
    cases l with
    | nil => exact absurd rfl hne
    | cons b l => rw [List.cons_append, List.dropWhile_cons_of_neg (by simp [hl b rfl])]
  unfold strip
  rw [List.append_assoc, List.dropWhile_append_of_pos hbefore]
  by_cases hne : value = []
  · rw [hne, List.nil_append, List.dropWhile_eq_nil_iff.2 hafter]
    rfl
  · rw [hkeep value after hne hhead, List.reverse_append, List.dropWhile_append_of_pos]
    · have hreverse := hkeep value.reverse [] (by simpa using hne)
        (by simpa [List.head?_reverse] using hlast)
      rw [List.append_nil] at hreverse
      rw [hreverse, List.reverse_reverse]
    · intro b hb
      exact hafter b (List.mem_reverse.1 hb)

end Bytes

/-! ## Messages -/

structure Message where
  startLine : Bytes
  headerLines : List Bytes
  body : Bytes
  deriving DecidableEq, Repr

namespace Message

/-- Lines are collected up to the first empty one. -/
def collect : LineMachine (List Bytes) := fun lines line =>
  if line = [] then .done lines else .next (lines ++ [line])

def read (bs : Bytes) : Option Message :=
  match collect.run [] bs with
  | .done (startLine :: headerLines) body => some ⟨startLine, headerLines, body⟩
  | .done [] _ | .waiting _ _ | .failed _ _ | .stopped => none

/-- What stands in front of the colon of a header line. -/
def fieldName (line : Bytes) : Bytes := line.takeWhile (· != 58)

def fieldValue (line : Bytes) : Bytes := Bytes.strip ((line.dropWhile (· != 58)).drop 1)

/-- `HTTP/`, a version of two digits, a code of three and a reason. -/
def isStatusLine : Bytes → Bool
  | 72 :: 84 :: 84 :: 80 :: 47 :: major :: 46 :: minor :: 32 :: c₁ :: c₂ :: c₃ :: 32 :: _ =>
      [major, minor, c₁, c₂, c₃].all Bytes.isdigit
  | _ => false

/-- The first line is a status line. -/
def StartsResponse (bs : Bytes) : Prop :=
  ∃ line rest, bs = line ++ 13 :: 10 :: rest ∧ Bytes.findCRLF line = none ∧
    isStatusLine line = true

theorem startsResponse_line {line : Bytes} (h : Bytes.findCRLF line = none) (rest : Bytes) :
    StartsResponse (line ++ 13 :: 10 :: rest) ↔ isStatusLine line = true := by
  constructor
  · rintro ⟨line', rest', heq, hline', hstatus⟩
    rw [(Bytes.line_cancel h hline' heq).1]
    exact hstatus
  · intro hstatus
    exact ⟨line, rest, rfl, h, hstatus⟩

/-- The values of a header field. -/
def values (m : Message) (name : Bytes) : List Bytes :=
  (m.headerLines.filter fun line => Bytes.caseEq (fieldName line) name).map fieldValue

theorem run_collect {lines : List Bytes} (h : ∀ line ∈ lines, line ≠ [] ∧ Bytes.findCRLF line = none)
    (read : List Bytes) (t : Bytes) :
    collect.run read (lines.flatMap (· ++ [13, 10]) ++ t) = collect.run (read ++ lines) t := by
  induction lines generalizing read with
  | nil => rw [List.flatMap_nil, List.nil_append, List.append_nil]
  | cons line lines ih =>
      rcases h line List.mem_cons_self with ⟨hne, hline⟩
      rw [List.flatMap_cons, List.append_assoc, List.append_assoc, List.cons_append,
        List.cons_append, List.nil_append, LineMachine.run_line hline]
      simp only [collect, if_neg hne]
      change collect.run (read ++ [line]) _ = _
      rw [ih (fun l hl => h l (List.mem_cons_of_mem _ hl)), List.append_assoc, List.singleton_append]

/-- A message is read back from its lines. -/
theorem read_lines {startLine : Bytes} {headerLines : List Bytes}
    (h : ∀ line ∈ startLine :: headerLines, line ≠ [] ∧ Bytes.findCRLF line = none) (body : Bytes) :
    read ((startLine :: headerLines).flatMap (· ++ [13, 10]) ++ 13 :: 10 :: body) =
      some ⟨startLine, headerLines, body⟩ := by
  have hblank : collect.run (startLine :: headerLines) ([] ++ 13 :: 10 :: body) =
      .done (startLine :: headerLines) body := by
    rw [LineMachine.run_line rfl]
    rfl
  rw [List.nil_append] at hblank
  rw [read, run_collect h, List.nil_append, hblank]

/-- The lines, an empty line and the body. -/
def text (m : Message) : Bytes :=
  (m.startLine :: m.headerLines).flatMap (· ++ [13, 10]) ++ 13 :: 10 :: m.body

theorem text_append (m : Message) (more : Bytes) :
    text { m with body := m.body ++ more } = m.text ++ more := by
  simp [text]

theorem goes_collect {lines read read' : List Bytes} :
    collect.goes read lines = some read' ↔ (∀ line ∈ lines, line ≠ []) ∧ read' = read ++ lines := by
  induction lines generalizing read with
  | nil => simp [LineMachine.goes, eq_comm]
  | cons line lines ih =>
      by_cases hline : line = []
      · simp [LineMachine.goes, collect, hline]
      · have hstep : collect read line = .next (read ++ [line]) := if_neg hline
        rw [LineMachine.goes_cons hstep, ih, List.forall_mem_cons, List.append_assoc,
          List.singleton_append]
        simp [hline]

/-- A stream that is read is the text of the message. -/
theorem read_eq_some_iff {bs : Bytes} {m : Message} :
    read bs = some m ↔
      (∀ line ∈ m.startLine :: m.headerLines, line ≠ [] ∧ Bytes.findCRLF line = none) ∧
        bs = m.text := by
  constructor
  · intro h
    unfold read at h
    split at h
    · rename_i startLine headerLines body hrun
      cases h
      rcases LineMachine.run_eq_done_iff.1 hrun with
        ⟨lines, last, read, hlines, -, hgoes, hdone, rfl⟩
      rcases goes_collect.1 hgoes with ⟨hne, rfl⟩
      rw [collect] at hdone
      split at hdone
      · rename_i hlast
        cases hdone
        subst hlast
        exact ⟨fun line hline => ⟨hne line hline, hlines line hline⟩, rfl⟩
      · cases hdone
    · cases h
    · cases h
    · cases h
    · cases h
  · rintro ⟨hlines, rfl⟩
    exact read_lines hlines m.body

/-- A message is read as soon as its lines are there. -/
theorem read_append {bs : Bytes} {m : Message} (h : read bs = some m) (more : Bytes) :
    read (bs ++ more) = some { m with body := m.body ++ more } := by
  rcases read_eq_some_iff.1 h with ⟨hlines, rfl⟩
  exact read_eq_some_iff.2 ⟨hlines, (text_append m more).symm⟩

section Fields

variable {name value : Bytes} (h : 58 ∉ name)

include h

theorem fieldName_field : fieldName (name ++ 58 :: value) = name := by
  have hname : ∀ c ∈ name, (c != 58) = true := by
    intro c hc
    rw [bne_iff_ne]
    rintro rfl
    exact h hc
  rw [fieldName, List.takeWhile_append_of_pos hname, List.takeWhile_cons_of_neg (by decide),
    List.append_nil]

theorem fieldValue_field : fieldValue (name ++ 58 :: value) = Bytes.strip value := by
  have hname : ∀ c ∈ name, (c != 58) = true := by
    intro c hc
    rw [bne_iff_ne]
    rintro rfl
    exact h hc
  rw [fieldValue, List.dropWhile_append_of_pos hname, List.dropWhile_cons_of_neg (by decide)]
  rfl

end Fields

end Message
end Lib
end Longky
