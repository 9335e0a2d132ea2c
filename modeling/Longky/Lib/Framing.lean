import Mathlib.Data.List.Basic
import Mathlib.Tactic.Common

/-!
# Framing — cutting a stream into records

A `Framing` finds the first record of a stream and its size, from the bytes of the record alone.
`decode` takes records off a stream as long as there is a whole one and returns what is left.

* `decode_append` — decoding may stop at any point of the stream and go on when more has arrived;
* `decode_flatMap` — a stream of encoded records is decoded to these records, with nothing left;
* `flatMap_decode` — where a record has one encoding only, decoding loses nothing of the stream.
-/

namespace Longky
namespace Lib

structure Framing (α R : Type*) where
  /-- The record at the front of a stream and its size, when it is complete. -/
  first : List α → Option (R × Nat)
  first_pos : ∀ {xs r n}, first xs = some (r, n) → 0 < n
  first_le : ∀ {xs r n}, first xs = some (r, n) → n ≤ xs.length
  first_append : ∀ {xs r n} (ys), first xs = some (r, n) → first (xs ++ ys) = some (r, n)

namespace Framing

variable {α R : Type*} (F : Framing α R)

/-- All complete records at the front of a stream, and the rest. -/
def decode (xs : List α) : List R × List α :=
  match _h : F.first xs with
  | none => ([], xs)
  | some (r, n) =>
      let rest := decode (xs.drop n)
      (r :: rest.1, rest.2)
termination_by xs.length
decreasing_by
  have hpos := F.first_pos _h
  have hle := F.first_le _h
  rw [List.length_drop]
  omega

variable {F}

theorem decode_of_none {xs : List α} (h : F.first xs = none) : F.decode xs = ([], xs) := by
  rw [decode]
  split
  · rfl
  · rename_i heq
    simp [h] at heq

theorem decode_of_some {xs : List α} {r : R} {n : Nat} (h : F.first xs = some (r, n)) :
    F.decode xs = (r :: (F.decode (xs.drop n)).1, (F.decode (xs.drop n)).2) := by
  rw [decode]
  split
  · rename_i heq
    simp [h] at heq
  · rename_i r' n' heq
    rw [h] at heq
    cases heq
    rfl

/-- There is no record in an empty stream. -/
theorem decode_nil : F.decode [] = ([], []) := by
  refine decode_of_none ?_
  cases h : F.first [] with
  | none => rfl
  | some found =>
      have hpos := F.first_pos h
      have hle := F.first_le h
      rw [List.length_nil] at hle
      omega

/-- Decoding can be interrupted. -/
theorem decode_append (xs ys : List α) :
    F.decode (xs ++ ys) =
      ((F.decode xs).1 ++ (F.decode ((F.decode xs).2 ++ ys)).1,
        (F.decode ((F.decode xs).2 ++ ys)).2) := by
  induction xs using decode.induct F with
  | case1 xs h => simp [decode_of_none h]
  | case2 xs r n h ih =>
      have hdrop : (xs ++ ys).drop n = xs.drop n ++ ys :=
        List.drop_append_of_le_length (F.first_le h)
      rw [decode_of_some h, decode_of_some (F.first_append ys h), hdrop, ih]
      rfl

/-- What decoding leaves holds no complete record. -/
theorem decode_rest (xs : List α) : F.decode (F.decode xs).2 = ([], (F.decode xs).2) := by
  have h := decode_append (F := F) xs []
  rw [List.append_nil, List.append_nil] at h
  have hrecords := congrArg Prod.fst h
  have hrest := congrArg Prod.snd h
  refine Prod.ext ?_ hrest.symm
  simpa using hrecords

/-- A stream of records, each encoded so that it is found at the front of any stream. -/
theorem decode_flatMap_of_mem {encode : R → List α} {rs : List R}
    (hfirst : ∀ r ∈ rs, ∀ ys, F.first (encode r ++ ys) = some (r, (encode r).length))
    (ys : List α) :
    F.decode (rs.flatMap encode ++ ys) = (rs ++ (F.decode ys).1, (F.decode ys).2) := by
  induction rs with
  | nil => rfl
  | cons r rs ih =>
      have hstream : (r :: rs).flatMap encode ++ ys = encode r ++ (rs.flatMap encode ++ ys) := by
        simp
      rw [hstream, decode_of_some (hfirst r List.mem_cons_self _), List.drop_left,
        ih fun r' hr' => hfirst r' (List.mem_cons_of_mem _ hr')]
      rfl

/-- The same where every record can be encoded. -/
theorem decode_flatMap {encode : R → List α}
    (hfirst : ∀ r ys, F.first (encode r ++ ys) = some (r, (encode r).length)) (rs : List R)
    (ys : List α) :
    F.decode (rs.flatMap encode ++ ys) = (rs ++ (F.decode ys).1, (F.decode ys).2) :=
  decode_flatMap_of_mem (fun r _ => hfirst r) ys

/-- A stream is made up of the texts of the records found in it. -/
theorem flatMap_decode {text : R → List α}
    (htext : ∀ {xs r n}, F.first xs = some (r, n) → xs.take n = text r) (xs : List α) :
    (F.decode xs).1.flatMap text ++ (F.decode xs).2 = xs := by
  induction xs using decode.induct F with
  | case1 xs h => simp [decode_of_none h]
  | case2 xs r n h ih =>
      rw [decode_of_some h, List.flatMap_cons, List.append_assoc, ih, ← htext h]
      exact List.take_append_drop n xs

end Framing
end Lib
end Longky
