import Mathlib.Data.List.Basic
import Mathlib.Logic.Function.Basic
import Mathlib.Tactic.Common

/-!
# LastWrite — assignments to a map, one after another

Of several assignments to a key the last one counts.  `writeAll_map_eq_iff` compares two lists that
assign to the same keys in the same order.
-/

namespace Longky
namespace Lib

variable {κ ν : Type*} [DecidableEq κ]

/-- The assignments, made in turn. -/
def writeAll (m : κ → ν) (l : List (κ × ν)) : κ → ν :=
  l.foldl (fun m kv => Function.update m kv.1 kv.2) m

variable {m : κ → ν} {l : List (κ × ν)} {key : κ}

@[simp] theorem writeAll_nil : writeAll m [] = m := rfl

@[simp] theorem writeAll_cons (kv : κ × ν) (l : List (κ × ν)) :
    writeAll m (kv :: l) = writeAll (Function.update m kv.1 kv.2) l := rfl

theorem writeAll_append (l l' : List (κ × ν)) :
    writeAll m (l ++ l') = writeAll (writeAll m l) l' :=
  List.foldl_append

theorem writeAll_of_forall_ne (h : ∀ kv ∈ l, kv.1 ≠ key) : writeAll m l key = m key := by
  induction l generalizing m with
  | nil => rfl
  | cons kv l ih =>
      rw [writeAll_cons, ih fun kv' hkv' => h kv' (List.mem_cons_of_mem _ hkv')]
      exact Function.update_of_ne (h kv List.mem_cons_self).symm _ _

theorem writeAll_last {before after : List (κ × ν)} {value : ν} (h : ∀ kv ∈ after, kv.1 ≠ key) :
    writeAll m (before ++ (key, value) :: after) key = value := by
  rw [writeAll_append, writeAll_cons, writeAll_of_forall_ne h]
  exact Function.update_self _ _ _

/-- What has a key has a last element with it. -/
theorem exists_last {α : Type*} {keyOf : α → κ} {ls : List α} (h : ∃ a ∈ ls, keyOf a = key) :
    ∃ before a after, ls = before ++ a :: after ∧ keyOf a = key ∧ ∀ b ∈ after, keyOf b ≠ key := by
  induction ls with
  | nil =>
      rcases h with ⟨a, ha, -⟩
      cases ha
  | cons a ls ih =>
      by_cases hlater : ∃ b ∈ ls, keyOf b = key
      · rcases ih hlater with ⟨before, b, after, rfl, hb, hafter⟩
        exact ⟨a :: before, b, after, rfl, hb, hafter⟩
      · have hlast : ∀ b ∈ ls, keyOf b ≠ key := fun b hb hkey => hlater ⟨b, hb, hkey⟩
        rcases h with ⟨b, hb, hkey⟩
        rcases List.mem_cons.1 hb with rfl | hb
        · exact ⟨[], b, ls, rfl, hkey, hlast⟩
        · exact absurd hkey (hlast b hb)

/-- Two lists that assign to the same keys leave the same map exactly when the last values of each
key agree. -/
theorem writeAll_map_eq_iff {α : Type*} {keyOf : α → κ} {f g : α → ν} {ls : List α} :
    writeAll m (ls.map fun a => (keyOf a, f a)) = writeAll m (ls.map fun a => (keyOf a, g a)) ↔
      ∀ before a after, ls = before ++ a :: after → (∀ b ∈ after, keyOf b ≠ keyOf a) →
        f a = g a := by
  have hlast : ∀ (h : α → ν) (before : List α) (a : α) (after : List α),
      (∀ b ∈ after, keyOf b ≠ keyOf a) →
        writeAll m ((before ++ a :: after).map fun a => (keyOf a, h a)) (keyOf a) = h a := by
    intro h before a after hafter
    rw [List.map_append, List.map_cons]
    refine writeAll_last ?_
    intro kv hkv
    rcases List.mem_map.1 hkv with ⟨b, hb, rfl⟩
    exact hafter b hb
  constructor
  · rintro heq before a after rfl hafter
    rw [← hlast f before a after hafter, heq, hlast g before a after hafter]
  · intro hagree
    funext key
    by_cases hkey : ∃ a ∈ ls, keyOf a = key
    · rcases exists_last hkey with ⟨before, a, after, rfl, rfl, hafter⟩
      rw [hlast f before a after hafter, hlast g before a after hafter]
      exact hagree before a after rfl hafter
    · have hne : ∀ (h : α → ν), ∀ kv ∈ ls.map (fun a => (keyOf a, h a)), kv.1 ≠ key := by
        rintro h kv hkv heq
        rcases List.mem_map.1 hkv with ⟨a, ha, rfl⟩
        exact hkey ⟨a, ha, heq⟩
      rw [writeAll_of_forall_ne (hne f), writeAll_of_forall_ne (hne g)]

end Lib
end Longky
