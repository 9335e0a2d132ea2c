import Longky.Lib.Bytes

/-!
# FileReader — reading a binary file from front to end

A reader takes bytes from the front of what is left of a file, and is `none` where it gives up.
`Takes` says that a reader needs a certain number of bytes and nothing else; readers that do can be put
one behind the other and repeated.  `upTo` is a loop that keeps what it has when a reader gives up.
-/

namespace Longky
namespace Lib

abbrev FileReader (T : Type) := StateT Bytes Option T

namespace FileReader

variable {T S : Type}

/-- The next `n` bytes, all or none of them. -/
def bytes (n : Nat) : FileReader Bytes := fun file =>
  if n ≤ file.length then some (file.take n, file.drop n) else none

def many (read : FileReader T) : Nat → FileReader (List T)
  | 0 => pure []
  | n + 1 => do
      let x ← read
      let xs ← many read n
      return x :: xs

/-- What `n` calls have read, and what is left of the file unless one of them has given up. -/
def upTo (read : FileReader T) : Nat → Bytes → List T × Option Bytes
  | 0, file => ([], some file)
  | n + 1, file =>
      match read.run file with
      | none => ([], none)
      | some (x, file) => (x :: (upTo read n file).1, (upTo read n file).2)

/-- A reader that needs `size` bytes. -/
def Takes (read : FileReader T) (size : Nat) (value : Bytes → T) : Prop :=
  ∀ file, read.run file = if size ≤ file.length then some (value file, file.drop size) else none

theorem run_bind_eq {read : FileReader T} {next : T → FileReader S} {file rest : Bytes} {x : T}
    (h : read.run file = some (x, rest)) : (read >>= next).run file = (next x).run rest := by
  rw [StateT.run_bind, h]
  rfl

theorem run_bind_eq_none {read : FileReader T} {next : T → FileReader S} {file : Bytes}
    (h : read.run file = none) : (read >>= next).run file = none := by
  rw [StateT.run_bind, h]
  rfl

theorem takes_bytes (n : Nat) : Takes (bytes n) n fun file => file.take n := fun _ => rfl

theorem takes_pure (x : T) : Takes (pure x) 0 fun _ => x := fun _ => rfl

namespace Takes

variable {read : FileReader T} {size : Nat} {value : Bytes → T}

theorem run_eq (h : Takes read size value) {file : Bytes} (hsize : size ≤ file.length) :
    read.run file = some (value file, file.drop size) := (h file).trans (if_pos hsize)

theorem run_eq_none (h : Takes read size value) {file : Bytes} (hsize : file.length < size) :
    read.run file = none := (h file).trans (if_neg (Nat.not_le.2 hsize))

theorem bind (h : Takes read size value) {next : T → FileReader S} {size' : Nat}
    {value' : T → Bytes → S} (h' : ∀ x, Takes (next x) size' (value' x)) :
    Takes (read >>= next) (size + size') fun file => value' (value file) (file.drop size) := by
  intro file
  by_cases hsize : size ≤ file.length
  · rw [run_bind_eq (h.run_eq hsize)]
    have hrest := h' (value file) (file.drop size)
    rw [List.length_drop, List.drop_drop] at hrest
    refine hrest.trans ?_
    congr 1
    exact propext (by omega)
  · rw [run_bind_eq_none (h.run_eq_none (Nat.lt_of_not_le hsize)), if_neg (by omega)]

theorem many (h : Takes read size value) (n : Nat) : Takes (many read n) (n * size)
    fun file => (List.range n).map fun i => value (file.drop (i * size)) := by
  induction n with
  | zero =>
      intro file
      rw [Nat.zero_mul]
      rfl
  | succ n ih =>
      have hstep := h.bind fun x => ih.bind fun xs => takes_pure (x :: xs)
      intro file
      have hsize : size + (n * size + 0) = (n + 1) * size := by ring
      refine (hstep file).trans ?_
      rw [hsize, List.range_succ_eq_map]
      simp [List.drop_drop, Nat.succ_mul, Nat.add_comm, Function.comp_def]

/-- With enough bytes the loop goes through. -/
theorem upTo_eq (h : Takes read size value) {n : Nat} {file : Bytes}
    (hsize : n * size ≤ file.length) :
    upTo read n file =
      ((List.range n).map fun i => value (file.drop (i * size)), some (file.drop (n * size))) := by
  induction n generalizing file with
  | zero => simp [upTo]
  | succ n ih =>
      rw [Nat.succ_mul] at hsize
      have hrest : n * size ≤ (file.drop size).length := by
        rw [List.length_drop]
        omega
      simp only [upTo, h.run_eq (show size ≤ file.length by omega), ih hrest]
      rw [List.range_succ_eq_map]
      simp [List.drop_drop, Nat.succ_mul, Nat.add_comm, Function.comp_def]

/-- Without enough bytes it gives up, and has read something if there was anything to read. -/
theorem upTo_short (h : Takes read size value) {n : Nat} {file : Bytes}
    (hsize : file.length < n * size) :
    (upTo read n file).2 = none ∧ ((upTo read n file).1 = [] ↔ file.length < size) := by
  induction n generalizing file with
  | zero => simp at hsize
  | succ n ih =>
      rw [Nat.succ_mul] at hsize
      by_cases hfirst : size ≤ file.length
      · have hrest : (file.drop size).length < n * size := by
          rw [List.length_drop]
          omega
        simp only [upTo, h.run_eq hfirst, (ih hrest).1, true_and]
        simp [hfirst]
      · have hlt := Nat.lt_of_not_le hfirst
        simp [upTo, h.run_eq_none hlt, hlt]

end Takes
end FileReader
end Lib
end Longky
