import Mathlib.Data.List.Induction
import Mathlib.Tactic.Common

/-!
# LexicalPath — resolving paths without a file system

A path is a list of steps, down to a name or up.  `resolve` carries them out one after another and
leaves a `Route`: how far it leads up, and the names it then leads down.

* `resolve_append` — the route of two paths one behind the other is the composite of their routes,
  the second resolved on its own;
* `under_join_iff` — whether the composite stays below a directory can be read off the second route.
-/

namespace Longky
namespace Lib

/-- One segment of a path. -/
inductive PathStep (σ : Type*) where
  | up
  | down (name : σ)
  deriving DecidableEq, Repr

/-- A resolved path: `ups` steps up from where it starts, then down through `names`. -/
structure Route (σ : Type*) where
  rooted : Bool
  ups : Nat
  names : List σ
  deriving DecidableEq, Repr

namespace Route

variable {σ : Type*}

def start (rooted : Bool) : Route σ where
  rooted := rooted
  ups := 0
  names := []

/-- One step further.  The root is its own parent. -/
def go (r : Route σ) : PathStep σ → Route σ
  | .down name => { r with names := r.names ++ [name] }
  | .up =>
      if r.names = [] then if r.rooted = true then r else { r with ups := r.ups + 1 }
      else { r with names := r.names.dropLast }

def resolve (rooted : Bool) (steps : List (PathStep σ)) : Route σ :=
  steps.foldl go (start rooted)

/-- The relative route `u` behind `r`. -/
def join (r u : Route σ) : Route σ where
  rooted := r.rooted
  ups := if r.rooted = true then r.ups else r.ups + (u.ups - r.names.length)
  names := r.names.take (r.names.length - u.ups) ++ u.names

/-- The route `p` leads to the place of `b`, or below it. -/
def Under (b p : Route σ) : Prop :=
  b.rooted = p.rooted ∧ b.ups = p.ups ∧ b.names <+: p.names

instance [DecidableEq σ] (b p : Route σ) : Decidable (Under b p) :=
  inferInstanceAs (Decidable (_ ∧ _ ∧ _))

theorem join_start (r : Route σ) : r.join (start false) = r := by
  cases r
  simp [join, start]

/-- A composite goes on as its second part does. -/
theorem go_join (r u : Route σ) (hu : u.rooted = false) (s : PathStep σ) :
    (r.join u).go s = r.join (u.go s) := by
  cases s with
  | down name => simp [go, join]
  | up =>
      by_cases hnames : u.names = []
      · -- the step leaves the second part, and goes up in the first
        by_cases hlen : r.names.length ≤ u.ups
        · have htop : r.names.length - u.ups = 0 := by omega
          have htop' : r.names.length - (u.ups + 1) = 0 := by omega
          by_cases hroot : r.rooted = true
          · simp [go, join, hnames, hu, hroot, htop, htop']
          · have hups : u.ups - r.names.length + 1 = u.ups + 1 - r.names.length := by omega
            simp [go, join, hnames, hu, hroot, htop, htop', Nat.add_assoc, hups]
        · have hne : r.names.take (r.names.length - u.ups) ≠ [] := by
            rw [Ne, List.take_eq_nil_iff]
            rintro (hzero | hnil)
            · omega
            · exact hlen (by rw [hnil]; exact Nat.zero_le _)
          have hdrop : (r.names.take (r.names.length - u.ups)).dropLast =
              r.names.take (r.names.length - (u.ups + 1)) := by
            have hle : r.names.length - u.ups ≤ r.names.length := Nat.sub_le _ _
            have hlast : r.names.length - u.ups - 1 = r.names.length - (u.ups + 1) := by omega
            rw [List.dropLast_eq_take, List.length_take, Nat.min_eq_left hle, List.take_take, hlast,
              Nat.min_eq_left (by omega)]
          have hups : u.ups - r.names.length = 0 := by omega
          have hups' : u.ups + 1 - r.names.length = 0 := by omega
          simp [go, join, hnames, hu, hne, hdrop, hups, hups']
      · have hne : r.names.take (r.names.length - u.ups) ++ u.names ≠ [] := by simp [hnames]
        simp only [go, join, if_neg hne, if_neg hnames, List.dropLast_append_of_ne_nil hnames]

theorem rooted_go (r : Route σ) (s : PathStep σ) : (r.go s).rooted = r.rooted := by
  cases s with
  | down name => rfl
  | up =>
      simp only [go]
      split
      · split <;> rfl
      · rfl

theorem rooted_foldl (steps : List (PathStep σ)) (r : Route σ) :
    (steps.foldl go r).rooted = r.rooted := by
  induction steps generalizing r with
  | nil => rfl
  | cons s steps ih => rw [List.foldl_cons, ih, rooted_go]

@[simp] theorem rooted_resolve (rooted : Bool) (steps : List (PathStep σ)) :
    (resolve rooted steps).rooted = rooted :=
  rooted_foldl steps (start rooted)

theorem resolve_concat (rooted : Bool) (steps : List (PathStep σ)) (s : PathStep σ) :
    resolve rooted (steps ++ [s]) = (resolve rooted steps).go s := by
  rw [resolve, List.foldl_append]
  rfl

theorem resolve_append (rooted : Bool) (xs ys : List (PathStep σ)) :
    resolve rooted (xs ++ ys) = (resolve rooted xs).join (resolve false ys) := by
  -- by the last step of the second path
  induction ys using List.reverseRecOn with
  | nil =>
      rw [List.append_nil]
      exact (join_start _).symm
  | append_singleton ys s ih =>
      calc
        resolve rooted (xs ++ (ys ++ [s]))
            = (resolve rooted (xs ++ ys)).go s := by rw [← List.append_assoc, resolve_concat]
        _ = ((resolve rooted xs).join (resolve false ys)).go s := by rw [ih]
        _ = (resolve rooted xs).join ((resolve false ys).go s) :=
            go_join _ _ (rooted_resolve false ys) s
        _ = (resolve rooted xs).join (resolve false (ys ++ [s])) := by rw [resolve_concat]

/-- The route `u` behind the directory `d` of `b` stays below `b` if it comes down again through the
names of `b` that it went up or that were missing. -/
theorem under_join_iff {b d : Route σ} (hrooted : b.rooted = d.rooted) (hups : b.ups = d.ups)
    (hnames : d.names <+: b.names) (u : Route σ) :
    Under b (d.join u) ↔
      (d.rooted = true ∨ u.ups ≤ d.names.length) ∧
        b.names.drop (d.names.length - u.ups) <+: u.names := by
  have hlen := hnames.length_le
  have htake : d.names.take (d.names.length - u.ups) =
      b.names.take (d.names.length - u.ups) := by
    rcases hnames with ⟨t, ht⟩
    rw [← ht, List.take_append_of_le_length (by omega)]
  have hleading : b.names <+: d.names.take (d.names.length - u.ups) ++ u.names ↔
      b.names.drop (d.names.length - u.ups) <+: u.names := by
    rw [htake]
    conv_lhs => lhs; rw [← List.take_append_drop (d.names.length - u.ups) b.names]
    exact List.prefix_append_right_inj _
  unfold Under join
  rw [hleading]
  refine ⟨?_, ?_⟩
  · rintro ⟨-, heq, hpre⟩
    refine ⟨?_, hpre⟩
    by_cases hroot : d.rooted = true
    · exact Or.inl hroot
    · simp only [if_neg hroot] at heq
      exact Or.inr (by omega)
  · rintro ⟨hroot, hpre⟩
    refine ⟨hrooted, ?_, hpre⟩
    dsimp only
    split
    · exact hups
    · rename_i hne
      have hle := hroot.resolve_left hne
      omega

end Route
end Lib
end Longky
