import Mathlib.Tactic.Common

/-!
# Reach — labelled transition systems and their invariants

A `System` has initial states and labelled steps.  `System.Reachable` is the set of states of its
finite runs.  The two rules used everywhere are

* `Reachable.invariant` — a property of the initial states that every step preserves holds in every
  reachable state;
* `Reachable.mono` — a run of a system whose steps are a subset of another's is a run of the other.

`System.restrict` keeps only the steps a side condition on the source state and the label allows.
-/

namespace Longky
namespace Lib

/-- A labelled transition system. -/
structure System (State Label : Type*) where
  init : State → Prop
  step : State → Label → State → Prop

namespace System

variable {State Label : Type*}

/-- Keep the steps that `allowed` permits. -/
def restrict (S : System State Label) (allowed : State → Label → Prop) : System State Label where
  init := S.init
  step s a s' := allowed s a ∧ S.step s a s'

/-- The same steps from the one state `s`. -/
def startAt (S : System State Label) (s : State) : System State Label where
  init := (· = s)
  step := S.step

/-- The states at the end of a finite run. -/
inductive Reachable (S : System State Label) : State → Prop where
  | init {s : State} : S.init s → Reachable S s
  | step {s s' : State} {a : Label} : Reachable S s → S.step s a s' → Reachable S s'

/-- The run rule: what holds at the start and is kept by each step holds at the end of each run. -/
theorem Reachable.invariant {S : System State Label} {P : State → Prop}
    (hinit : ∀ s, S.init s → P s)
    (hstep : ∀ s a s', P s → S.step s a s' → P s') {s : State} (h : S.Reachable s) : P s := by
  induction h with
  | init hs => exact hinit _ hs
  | step _ hs ih => exact hstep _ _ _ ih hs

theorem Reachable.mono {S T : System State Label} (hinit : ∀ s, S.init s → T.init s)
    (hstep : ∀ s a s', S.step s a s' → T.step s a s') {s : State} (h : S.Reachable s) :
    T.Reachable s := by
  induction h with
  | init hs => exact .init (hinit _ hs)
  | step _ hs ih => exact .step ih (hstep _ _ _ hs)

theorem Reachable.of_restrict {S : System State Label} {allowed : State → Label → Prop}
    {s : State} (h : (S.restrict allowed).Reachable s) : S.Reachable s :=
  Reachable.mono (S := S.restrict allowed) (T := S) (fun _ hs => hs) (fun _ _ _ hs => hs.2) h

theorem Reachable.trans {S : System State Label} {s s' : State} (hs : S.Reachable s)
    (h : (S.startAt s).Reachable s') : S.Reachable s' := by
  induction h with
  | init heq =>
      cases heq
      exact hs
  | step _ hstep ih => exact .step ih hstep

/-- Run a list of labels with a partial step function. -/
def runAll (next : State → Label → Option State) : State → List Label → Option State
  | s, [] => some s
  | s, a :: as => next s a >>= fun s' => runAll next s' as

theorem runAll_append (next : State → Label → Option State) (s : State) (as bs : List Label) :
    runAll next s (as ++ bs) = runAll next s as >>= fun s' => runAll next s' bs := by
  induction as generalizing s with
  | nil => rfl
  | cons a as ih =>
      cases hnext : next s a with
      | none => simp [runAll, hnext]
      | some s' => simpa [runAll, hnext] using ih s'

theorem Reachable.of_runAll {S : System State Label} {next : State → Label → Option State}
    (hstep : ∀ s a s', next s a = some s' → S.step s a s') {as : List Label}
    {s s' : State} (hs : S.Reachable s) (h : runAll next s as = some s') : S.Reachable s' := by
  induction as generalizing s with
  | nil =>
      cases h
      exact hs
  | cons a as ih =>
      rcases Option.bind_eq_some_iff.1 h with ⟨s₁, hnext, hrest⟩
      exact ih (.step hs (hstep s a s₁ hnext)) hrest

/-- The same for labels with a guard and one result. -/
theorem Reachable.of_guarded {S : System State Label} {guard : State → Label → Prop}
    {_ : ∀ s a, Decidable (guard s a)} {perform : State → Label → State}
    (hstep : ∀ s a, guard s a → S.step s a (perform s a)) {as : List Label} {s s' : State}
    (hs : S.Reachable s)
    (h : runAll (fun s a => if guard s a then some (perform s a) else none) s as = some s') :
    S.Reachable s' := by
  refine .of_runAll ?_ hs h
  intro s a s₁ hnext
  rcases Option.ite_none_right_eq_some.1 hnext with ⟨hguard, heq⟩
  cases heq
  exact hstep s a hguard

end System
end Lib
end Longky
