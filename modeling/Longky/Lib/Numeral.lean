import Longky.Lib.Bytes
import Mathlib.Data.Nat.Digits.Lemmas

/-!
# Numeral — numbers in positional notation

`numeral base n` is the list of the digits of `n`, the most significant one first.  `isNumeral_iff`:
it is the one list of digits with this value that has no zero in front, unless it is a single zero.

* `decimal`, `upperHex` — the texts of such numerals;
* `zeroPadded`, `spacePadded` — `%0Nd` and `%Nd` of the C library;
* `readDigits`, `readDecimal` — the value of a text.
-/

namespace Longky
namespace Lib
namespace Numeral

/-! ## Digits -/

structure Radix where
  val : Nat
  one_lt : 1 < val

def Radix.ten : Radix := ⟨10, by decide⟩

def Radix.sixteen : Radix := ⟨16, by decide⟩

def numeral (base : Radix) (n : Nat) : List Nat :=
  if n = 0 then [0] else (Nat.digits base.val n).reverse

/-- The digits of a number, as one writes them. -/
structure IsNumeral (base : Radix) (ds : List Nat) (n : Nat) : Prop where
  ne_nil : ds ≠ []
  digit_lt : ∀ d ∈ ds, d < base.val
  no_leading_zero : ds.head? = some 0 → ds = [0]
  value : Nat.ofDigits base.val ds.reverse = n

variable {base : Radix} {ds : List Nat} {n k : Nat}

theorem numeral_zero (base : Radix) : numeral base 0 = [0] := rfl

theorem numeral_of_ne (h : n ≠ 0) : numeral base n = (Nat.digits base.val n).reverse := if_neg h

theorem isNumeral_numeral (base : Radix) (n : Nat) : IsNumeral base (numeral base n) n := by
  by_cases hzero : n = 0
  · subst hzero
    refine ⟨by simp [numeral_zero], ?_, fun _ => rfl, rfl⟩
    have hpos := base.one_lt
    simp only [numeral_zero, List.mem_singleton, forall_eq]
    omega
  · have hne : Nat.digits base.val n ≠ [] := Nat.digits_ne_nil_iff_ne_zero.2 hzero
    rw [numeral_of_ne hzero]
    refine ⟨by simpa using hne, ?_, ?_, ?_⟩
    · intro d hd
      exact Nat.digits_lt_base base.one_lt (List.mem_reverse.1 hd)
    · intro hhead
      -- the digit in front is the last one of `Nat.digits`
      rw [List.head?_reverse, List.getLast?_eq_getLast_of_ne_nil hne, Option.some.injEq] at hhead
      exact absurd hhead (Nat.getLast_digit_ne_zero base.val hzero)
    · rw [List.reverse_reverse, Nat.ofDigits_digits]

theorem IsNumeral.eq_numeral (h : IsNumeral base ds n) : ds = numeral base n := by
  by_cases hzero : ds.head? = some 0
  · have hds := h.no_leading_zero hzero
    have hn : n = 0 := by
      rw [← h.value, hds]
      rfl
    rw [hds, hn, numeral_zero]
  · have hlast : ∀ hne : ds.reverse ≠ [], ds.reverse.getLast hne ≠ 0 := by
      intro hne hlast
      rw [List.getLast_reverse] at hlast
      exact hzero (by rw [List.head?_eq_some_head (by simpa using hne), hlast])
    have hdigits : Nat.digits base.val n = ds.reverse := by
      rw [← h.value]
      exact Nat.digits_ofDigits base.val base.one_lt ds.reverse
        (fun d hd => h.digit_lt d (List.mem_reverse.1 hd)) hlast
    have hn : n ≠ 0 := by
      rintro rfl
      rw [Nat.digits_zero] at hdigits
      exact h.ne_nil (List.reverse_eq_nil_iff.1 hdigits.symm)
    rw [numeral_of_ne hn, hdigits, List.reverse_reverse]

theorem isNumeral_iff : IsNumeral base ds n ↔ ds = numeral base n := by
  constructor
  · exact IsNumeral.eq_numeral
  · rintro rfl
    exact isNumeral_numeral base n

/-- The last digit, and the numeral of what is left if anything is. -/
theorem numeral_eq (base : Radix) (n : Nat) :
    numeral base n =
      (if n / base.val = 0 then [] else numeral base (n / base.val)) ++ [n % base.val] := by
  by_cases hzero : n = 0
  · subst hzero
    simp [numeral_zero]
  · rw [numeral_of_ne hzero, Nat.digits_eq_cons_digits_div base.one_lt hzero, List.reverse_cons]
    split_ifs with hquot
    · rw [hquot, Nat.digits_zero, List.reverse_nil]
    · rw [numeral_of_ne hquot]

theorem length_numeral_le_iff (hk : 0 < k) :
    (numeral base n).length ≤ k ↔ n < base.val ^ k := by
  by_cases hzero : n = 0
  · subst hzero
    have hpos : 0 < base.val ^ k := Nat.pow_pos (by have := base.one_lt; omega)
    simp only [numeral_zero, List.length_singleton, hpos, iff_true]
    omega
  · rw [numeral_of_ne hzero, List.length_reverse]
    exact Nat.digits_length_le_iff base.one_lt n

/-! ## Texts -/

/-- The minus sign. -/
def minus : UInt8 := 45

def decimalDigit (d : Nat) : UInt8 := UInt8.ofNat (48 + d)

def upperHexDigit (d : Nat) : UInt8 := if d < 10 then UInt8.ofNat (48 + d) else UInt8.ofNat (55 + d)

def decimal (i : Int) : Bytes :=
  (if i < 0 then [minus] else []) ++ (numeral .ten i.natAbs).map decimalDigit

/-- `%0Nd`: the zeros stand behind the sign. -/
def zeroPadded (width : Nat) (i : Int) : Bytes :=
  let sign := if i < 0 then [minus] else []
  let digits := (numeral .ten i.natAbs).map decimalDigit
  sign ++ (List.replicate (width - sign.length - digits.length) (decimalDigit 0) ++ digits)

/-- `%Nd`. -/
def spacePadded (width : Nat) (i : Int) : Bytes :=
  List.replicate (width - (decimal i).length) 32 ++ decimal i

def upperHex (n : Nat) : Bytes := (numeral .sixteen n).map upperHexDigit

/-- The value of a text of decimal digits. -/
def readDigits (bs : Bytes) : Nat := bs.foldl (fun n b => 10 * n + (b.toNat - 48)) 0

/-- The value of a text of decimal digits that can have a sign. -/
def readDecimal (bs : Bytes) : Int :=
  if bs.head? = some minus then -(readDigits bs.tail : Int) else readDigits bs

/-- A text is the canonical one of an integer: a minus sign exactly if it is negative, no zeros in
front, and the value. -/
structure IsDecimal (text : Bytes) (i : Int) : Prop where
  sign : text.head? = some minus ↔ i < 0
  digits : ∃ ds, IsNumeral .ten ds i.natAbs ∧
    text = (if i < 0 then [minus] else []) ++ ds.map decimalDigit
  value : readDecimal text = i

/-- A text is the canonical one of a natural number to the base of sixteen. -/
def IsUpperHex (text : Bytes) (n : Nat) : Prop :=
  ∃ ds, IsNumeral .sixteen ds n ∧ text = ds.map upperHexDigit

variable {i : Int}

theorem toNat_decimalDigit {d : Nat} (h : d < 10) : (decimalDigit d).toNat = 48 + d := by
  rw [decimalDigit, UInt8.toNat_ofNat']
  omega

theorem readDigits_concat (bs : Bytes) (b : UInt8) :
    readDigits (bs ++ [b]) = 10 * readDigits bs + (b.toNat - 48) := by
  rw [readDigits, List.foldl_append]
  rfl

theorem readDigits_map (h : ∀ d ∈ ds, d < 10) :
    readDigits (ds.map decimalDigit) = Nat.ofDigits 10 ds.reverse := by
  induction ds using List.reverseRecOn with
  | nil => rfl
  | append_singleton ds d ih =>
      have hd : d < 10 := h d (List.mem_append_right _ (List.mem_singleton_self d))
      have hds : ∀ d ∈ ds, d < 10 := fun d hd => h d (List.mem_append_left _ hd)
      calc readDigits ((ds ++ [d]).map decimalDigit)
          = 10 * readDigits (ds.map decimalDigit) + ((decimalDigit d).toNat - 48) := by
            rw [List.map_append, List.map_singleton, readDigits_concat]
        _ = d + 10 * Nat.ofDigits 10 ds.reverse := by
            rw [ih hds, toNat_decimalDigit hd, Nat.add_sub_cancel_left, Nat.add_comm]
        _ = Nat.ofDigits 10 (ds ++ [d]).reverse := by
            rw [List.reverse_append, List.reverse_singleton, List.singleton_append,
              Nat.ofDigits_cons]

theorem readDigits_numeral (n : Nat) : readDigits ((numeral .ten n).map decimalDigit) = n := by
  have h := isNumeral_numeral .ten n
  rw [readDigits_map h.digit_lt]
  exact h.value

theorem head?_map_numeral (n : Nat) :
    ((numeral .ten n).map decimalDigit).head? ≠ some minus := by
  intro hhead
  rw [List.head?_map, Option.map_eq_some_iff] at hhead
  rcases hhead with ⟨d, hd, hminus⟩
  have hlt := (isNumeral_numeral .ten n).digit_lt d (List.mem_of_head? hd)
  have hnat := congrArg UInt8.toNat hminus
  rw [toNat_decimalDigit hlt] at hnat
  simp only [minus, UInt8.reduceToNat] at hnat
  omega

theorem isDecimal_decimal (i : Int) : IsDecimal (decimal i) i := by
  by_cases hneg : i < 0
  · have htext : decimal i = minus :: (numeral .ten i.natAbs).map decimalDigit := by
      rw [decimal, if_pos hneg, List.singleton_append]
    refine ⟨by simp [htext, hneg], ⟨_, isNumeral_numeral .ten i.natAbs, rfl⟩, ?_⟩
    rw [htext, readDecimal, List.head?_cons, if_pos rfl, List.tail_cons, readDigits_numeral]
    omega
  · have htext : decimal i = (numeral .ten i.natAbs).map decimalDigit := by
      rw [decimal, if_neg hneg, List.nil_append]
    have hhead := head?_map_numeral i.natAbs
    refine ⟨iff_of_false (htext ▸ hhead) hneg, ⟨_, isNumeral_numeral .ten i.natAbs, rfl⟩, ?_⟩
    rw [htext, readDecimal, if_neg hhead, readDigits_numeral]
    omega

/-- There is one canonical text. -/
theorem isDecimal_iff {text : Bytes} : IsDecimal text i ↔ text = decimal i := by
  constructor
  · rintro ⟨-, ⟨ds, hds, htext⟩, -⟩
    rw [htext, hds.eq_numeral]
    rfl
  · rintro rfl
    exact isDecimal_decimal i

theorem isUpperHex_iff {text : Bytes} : IsUpperHex text n ↔ text = upperHex n := by
  constructor
  · rintro ⟨ds, hds, htext⟩
    rw [htext, hds.eq_numeral]
    rfl
  · rintro rfl
    exact ⟨_, isNumeral_numeral .sixteen n, rfl⟩

/-! ## Lengths -/

theorem length_decimal (i : Int) :
    (decimal i).length = (if i < 0 then 1 else 0) + (numeral .ten i.natAbs).length := by
  rw [decimal, List.length_append, List.length_map]
  split_ifs <;> rfl

theorem length_decimal_le (hk : 0 < k) (h : i.natAbs < 10 ^ k) :
    (decimal i).length ≤ (if i < 0 then 1 else 0) + k := by
  rw [length_decimal]
  exact Nat.add_le_add_left ((length_numeral_le_iff hk).2 h) _

theorem length_upperHex_le (hk : 0 < k) (h : n < 16 ^ k) : (upperHex n).length ≤ k := by
  rw [upperHex, List.length_map]
  exact (length_numeral_le_iff hk).2 h

/-! ## Padding -/

theorem length_zeroPadded (width : Nat) (i : Int) :
    (zeroPadded width i).length = max width (decimal i).length := by
  have hsign : (if i < 0 then [minus] else []).length = if i < 0 then 1 else 0 := by
    split_ifs <;> rfl
  simp only [zeroPadded, List.length_append, List.length_replicate, length_decimal,
    List.length_map, hsign]
  omega

theorem length_spacePadded (width : Nat) (i : Int) :
    (spacePadded width i).length = max width (decimal i).length := by
  rw [spacePadded, List.length_append, List.length_replicate]
  omega

/-- A number that is not too long is padded to the width. -/
theorem length_zeroPadded_of_lt (hk : 0 < k) (hpos : 0 ≤ i) (h : i.natAbs < 10 ^ k) :
    (zeroPadded k i).length = k := by
  have hlen : (decimal i).length ≤ k := by
    have hle := length_decimal_le hk h
    rwa [if_neg (by omega), Nat.zero_add] at hle
  rw [length_zeroPadded, max_eq_left hlen]

theorem length_spacePadded_of_lt (hk : 0 < k) (hpos : 0 ≤ i) (h : i.natAbs < 10 ^ k) :
    (spacePadded k i).length = k := by
  have hlen : (decimal i).length ≤ k := by
    have hle := length_decimal_le hk h
    rwa [if_neg (by omega), Nat.zero_add] at hle
  rw [length_spacePadded, max_eq_left hlen]

/-- Zeros and blanks in front count for nothing. -/
theorem readDigits_replicate {b : UInt8} (hb : b.toNat - 48 = 0) (bs : Bytes) :
    readDigits (List.replicate k b ++ bs) = readDigits bs := by
  induction k with
  | zero => rfl
  | succ k ih =>
      rw [List.replicate_succ, List.cons_append, readDigits, List.foldl_cons, hb]
      exact ih

/-- The number is read back from the padded text. -/
theorem readDecimal_zeroPadded (width : Nat) (i : Int) : readDecimal (zeroPadded width i) = i := by
  have hzero : (decimalDigit 0).toNat - 48 = 0 := by decide
  have hread : ∀ k, readDigits (List.replicate k (decimalDigit 0) ++
      (numeral .ten i.natAbs).map decimalDigit) = i.natAbs := by
    intro k
    rw [readDigits_replicate hzero, readDigits_numeral]
  by_cases hneg : i < 0
  · simp only [zeroPadded, if_pos hneg, List.singleton_append]
    rw [readDecimal, List.head?_cons, if_pos rfl, List.tail_cons, hread]
    omega
  · simp only [zeroPadded, if_neg hneg, List.nil_append]
    rw [readDecimal, if_neg, hread]
    · omega
    · -- the first byte is a digit, with or without zeros
      generalize width - ([] : Bytes).length - _ = pad
      cases pad with
      | zero => exact head?_map_numeral i.natAbs
      | succ pad =>
          rw [List.replicate_succ, List.cons_append, List.head?_cons]
          decide

theorem zeroPadded_inj {width : Nat} {j : Int} :
    zeroPadded width i = zeroPadded width j ↔ i = j := by
  constructor
  · intro h
    rw [← readDecimal_zeroPadded width i, h, readDecimal_zeroPadded]
  · rintro rfl
    rfl

/-- Without a sign the digits of the padded text are enough. -/
theorem readDigits_zeroPadded (width : Nat) (hpos : 0 ≤ i) :
    (readDigits (zeroPadded width i) : Int) = i := by
  have hneg : ¬ i < 0 := by omega
  simp only [zeroPadded, if_neg hneg, List.nil_append]
  rw [readDigits_replicate (by decide), readDigits_numeral]
  omega

theorem readDigits_spacePadded (width : Nat) (hpos : 0 ≤ i) :
    (readDigits (spacePadded width i) : Int) = i := by
  have hneg : ¬ i < 0 := by omega
  rw [spacePadded, readDigits_replicate (by decide), decimal, if_neg hneg, List.nil_append,
    readDigits_numeral]
  omega

end Numeral
end Lib
end Longky
