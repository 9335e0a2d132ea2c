import Mathlib.Tactic.Common

/-!
# Refinement — a partial machine against a total specification

A *machine* has a partial step: `step op s = none` when an assertion of the implementation fails.
A *specification* has a total step on abstract states.  A client is *admissible* when each
operation it issues meets that operation's own precondition in the state where it is issued.

`run_refines` is the data-refinement rule: when every step of the machine from a related state,
under the operation's precondition, succeeds and lands in a related state with the same output,
then so does every admissible run.
-/

namespace Longky
namespace Lib
namespace Refinement

variable {Op State Spec Out : Type*}

/-- Run a list of operations, collecting what they return. -/
def run (step : Op → State → Option (State × Out)) : List Op → State → Option (State × List Out)
  | [], s => some (s, [])
  | op :: ops, s => do
      let (s', o) ← step op s
      let (s'', os) ← run step ops s'
      return (s'', o :: os)

/-- Run a list of operations of the specification. -/
def specRun (spec : Op → Spec → Spec × Out) : List Op → Spec → Spec × List Out
  | [], d => (d, [])
  | op :: ops, d =>
      let (d', o) := spec op d
      let (d'', os) := specRun spec ops d'
      (d'', o :: os)

/-- Each operation meets its precondition in the state it is issued in. -/
def Admissible (step : Op → State → Option (State × Out)) (pre : Op → State → Prop) :
    List Op → State → Prop
  | [], _ => True
  | op :: ops, s =>
      pre op s ∧
        match step op s with
        | some (s', _) => Admissible step pre ops s'
        | none => True

instance decidableAdmissible {step : Op → State → Option (State × Out)} {pre : Op → State → Prop}
    [∀ op s, Decidable (pre op s)] :
    (ops : List Op) → (s : State) → Decidable (Admissible step pre ops s)
  | [], _ => isTrue trivial
  | op :: ops, s =>
      have : Decidable (match step op s with
          | some (s', _) => Admissible step pre ops s'
          | none => True) :=
        match step op s with
        | some (s', _) => decidableAdmissible ops s'
        | none => isTrue trivial
      inferInstanceAs (Decidable (pre op s ∧ _))

/-- The step of the machine succeeds and is matched by the step of the specification. -/
def StepRefines (step : Op → State → Option (State × Out)) (spec : Op → Spec → Spec × Out)
    (R : State → Spec → Prop) (op : Op) (s : State) (d : Spec) : Prop :=
  ∃ s', step op s = some (s', (spec op d).2) ∧ R s' (spec op d).1

theorem run_refines {step : Op → State → Option (State × Out)} {pre : Op → State → Prop}
    {spec : Op → Spec → Spec × Out} {R : State → Spec → Prop}
    (hstep : ∀ op s d, R s d → pre op s → StepRefines step spec R op s d) :
    ∀ (ops : List Op) (s : State) (d : Spec), R s d → Admissible step pre ops s →
      ∃ s', run step ops s = some (s', (specRun spec ops d).2) ∧ R s' (specRun spec ops d).1 := by
  intro ops
  induction ops with
  | nil =>
      intro s d hR _
      exact ⟨s, rfl, hR⟩
  | cons op ops ih =>
      intro s d hR hadm
      rcases hadm with ⟨hpre, hrest⟩
      rcases hstep op s d hR hpre with ⟨s₁, hs₁, hR₁⟩
      rw [hs₁] at hrest
      rcases ih s₁ (spec op d).1 hR₁ hrest with ⟨s₂, hs₂, hR₂⟩
      refine ⟨s₂, ?_, hR₂⟩
      simp [run, hs₁, hs₂, specRun]

end Refinement
end Lib
end Longky
