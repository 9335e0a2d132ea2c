import Mathlib.Tactic.Common

/-!
# Descriptors — which process holds which end of a pipe

The open descriptors of a set of processes, as pairs of a process and the open file behind the
descriptor.  `fork` gives the child a copy of everything its parent holds; `exit` gives up
everything a process holds.  An end is `held` while some process holds it, which is what decides
whether a pipe still has a writer or a reader.
-/

namespace Longky
namespace Lib

abbrev Descriptors (Proc End : Type*) := List (Proc × End)

namespace Descriptors

variable {Proc End : Type*} [DecidableEq Proc] [DecidableEq End]

def held (t : Descriptors Proc End) (e : End) : Bool :=
  t.any fun d => d.2 = e

def openEnds (t : Descriptors Proc End) (p : Proc) (es : List End) : Descriptors Proc End :=
  t ++ es.map fun e => (p, e)

def close (t : Descriptors Proc End) (p : Proc) (e : End) : Descriptors Proc End :=
  t.filter fun d => d ≠ (p, e)

def fork (t : Descriptors Proc End) (p q : Proc) : Descriptors Proc End :=
  t ++ (t.filter fun d => d.1 = p).map fun d => (q, d.2)

def exit (t : Descriptors Proc End) (p : Proc) : Descriptors Proc End :=
  t.filter fun d => d.1 ≠ p

variable {t : Descriptors Proc End} {p q r : Proc} {e f : End}

omit [DecidableEq Proc] in
theorem held_iff : t.held e = true ↔ ∃ p, (p, e) ∈ t := by
  simp [held]

omit [DecidableEq Proc] in
theorem held_eq_false : t.held e = false ↔ ∀ p, (p, e) ∉ t := by
  rw [← Bool.not_eq_true, held_iff, not_exists]

omit [DecidableEq Proc] [DecidableEq End] in
@[simp] theorem mem_openEnds {es : List End} :
    (q, e) ∈ t.openEnds p es ↔ (q, e) ∈ t ∨ q = p ∧ e ∈ es := by
  simp only [openEnds, List.mem_append, List.mem_map, Prod.mk.injEq]
  refine or_congr_right ⟨?_, ?_⟩
  · rintro ⟨f, hf, rfl, rfl⟩
    exact ⟨rfl, hf⟩
  · rintro ⟨rfl, he⟩
    exact ⟨e, he, rfl, rfl⟩

@[simp] theorem mem_close : (q, e) ∈ t.close p f ↔ (q, e) ∈ t ∧ ¬(q = p ∧ e = f) := by
  simp only [close, List.mem_filter, decide_eq_true_eq, ne_eq, Prod.mk.injEq]

omit [DecidableEq End] in
@[simp] theorem mem_fork : (r, e) ∈ t.fork p q ↔ (r, e) ∈ t ∨ r = q ∧ (p, e) ∈ t := by
  simp only [fork, List.mem_append, List.mem_map, List.mem_filter, Prod.mk.injEq, Prod.exists,
    decide_eq_true_eq]
  refine or_congr_right ⟨?_, ?_⟩
  · rintro ⟨p', e', ⟨hmem, rfl⟩, rfl, rfl⟩
    exact ⟨rfl, hmem⟩
  · rintro ⟨rfl, hmem⟩
    exact ⟨p, e, ⟨hmem, rfl⟩, rfl, rfl⟩

omit [DecidableEq End] in
@[simp] theorem mem_exit : (q, e) ∈ t.exit p ↔ (q, e) ∈ t ∧ q ≠ p := by
  simp [exit]

end Descriptors
end Lib
end Longky
