import Mathlib.Logic.Function.Basic
import Mathlib.Tactic.Common

/-!
# Mailboxes — queues of messages, one for each receiver

Messages are put at the end of a receiver's queue and taken from its front.  A protocol in which at
most one message of a kind is on its way is stated with `Pending`: the queues hold exactly the
messages that are `due`, each once.  `hand` is a message that is due and in nobody's queue, because
its receiver has just taken it or its sender has not yet put it.
-/

namespace Longky
namespace Lib

abbrev Mailboxes (Receiver Message : Type*) := Receiver → List Message

namespace Mailboxes

variable {Receiver Message : Type*} [DecidableEq Receiver] [DecidableEq Message]

omit [DecidableEq Message] in
def put (q : Mailboxes Receiver Message) (r : Receiver) (m : Message) :
    Mailboxes Receiver Message :=
  Function.update q r (q r ++ [m])

omit [DecidableEq Message] in
/-- Messages in front of the queues stay in front. -/
theorem append_put (front q : Mailboxes Receiver Message) (r : Receiver) (m : Message) :
    Mailboxes.put (fun r => front r ++ q r) r m = fun r' => front r' ++ q.put r m r' := by
  funext r'
  by_cases hr : r' = r
  · subst hr
    simp [put]
  · simp [put, hr]

/-- Each queue holds the messages that are due there, once, but for the one in `hand`. -/
def Pending (q : Mailboxes Receiver Message) (due : Receiver → Message → Prop)
    (hand : Option (Receiver × Message)) : Prop :=
  (∀ r m, m ∈ q r ↔ due r m ∧ hand ≠ some (r, m)) ∧ (∀ r, (q r).Nodup) ∧
    ∀ r m, hand = some (r, m) → due r m

variable {q : Mailboxes Receiver Message} {due due' : Receiver → Message → Prop} {r : Receiver}
  {m : Message}

omit [DecidableEq Receiver] [DecidableEq Message] in
theorem Pending.empty (h : ∀ r m, ¬ due r m) : Pending (fun _ => []) due none := by
  refine ⟨?_, fun _ => List.nodup_nil, by simp⟩
  intro r m
  simp [h]

omit [DecidableEq Message] in
/-- Put the message in hand. -/
theorem Pending.put (h : Pending q due (some (r, m))) : Pending (q.put r m) due none := by
  obtain ⟨hmem, hnodup, hhand⟩ := h
  have hnot : m ∉ q r := fun hin => ((hmem r m).1 hin).2 rfl
  refine ⟨?_, ?_, by simp⟩
  · intro r' m'
    by_cases hr : r' = r
    · subst hr
      rw [Mailboxes.put, Function.update_self, List.mem_append, List.mem_singleton, hmem]
      constructor
      · rintro (⟨hdue, -⟩ | rfl)
        · exact ⟨hdue, by simp⟩
        · exact ⟨hhand _ _ rfl, by simp⟩
      · rintro ⟨hdue, -⟩
        by_cases hm : m' = m
        · exact Or.inr hm
        · exact Or.inl ⟨hdue, by simpa using Ne.symm hm⟩
    · rw [Mailboxes.put, Function.update_of_ne hr, hmem]
      have hne : some (r, m) ≠ some (r', m') := by
        intro heq
        cases heq
        exact hr rfl
      simp [hne]
  · intro r'
    by_cases hr : r' = r
    · subst hr
      rw [Mailboxes.put, Function.update_self]
      refine List.nodup_append.2 ⟨hnodup r', by simp, ?_⟩
      rintro a ha b hb rfl
      exact hnot (List.mem_singleton.1 hb ▸ ha)
    · rw [Mailboxes.put, Function.update_of_ne hr]
      exact hnodup r'

omit [DecidableEq Message] in
/-- Take the first message of a queue. -/
theorem Pending.take {rest : List Message} (h : Pending q due none) (hq : q r = m :: rest) :
    Pending (Function.update q r rest) due (some (r, m)) := by
  obtain ⟨hmem, hnodup, -⟩ := h
  have hhead : m ∉ rest ∧ rest.Nodup := by
    have hr := hnodup r
    rw [hq] at hr
    exact List.nodup_cons.1 hr
  refine ⟨?_, ?_, ?_⟩
  · intro r' m'
    by_cases hr : r' = r
    · subst hr
      have hmem' := hmem r' m'
      rw [hq, List.mem_cons] at hmem'
      rw [Function.update_self]
      constructor
      · intro hin
        refine ⟨(hmem'.1 (Or.inr hin)).1, ?_⟩
        intro heq
        cases heq
        exact hhead.1 hin
      · rintro ⟨hdue, hne⟩
        refine (hmem'.2 ⟨hdue, by simp⟩).resolve_left ?_
        rintro rfl
        exact hne rfl
    · rw [Function.update_of_ne hr, hmem]
      have hne : some (r, m) ≠ some (r', m') := by
        intro heq
        cases heq
        exact hr rfl
      simp [hne]
  · intro r'
    by_cases hr : r' = r
    · subst hr
      rw [Function.update_self]
      exact hhead.2
    · rw [Function.update_of_ne hr]
      exact hnodup r'
  · intro r' m' heq
    cases heq
    exact ((hmem r m).1 (by simp [hq])).1

omit [DecidableEq Receiver] [DecidableEq Message] in
/-- The message in hand is dealt with: it is no longer due, and nothing else has changed. -/
theorem Pending.done (h : Pending q due (some (r, m)))
    (hdue : ∀ r' m', due' r' m' ↔ due r' m' ∧ (r', m') ≠ (r, m)) : Pending q due' none := by
  obtain ⟨hmem, hnodup, -⟩ := h
  refine ⟨?_, hnodup, by simp⟩
  intro r' m'
  rw [hmem, hdue]
  simp only [ne_eq, Option.some.injEq, reduceCtorEq, not_false_eq_true, and_true, eq_comm]

omit [DecidableEq Receiver] [DecidableEq Message] in
/-- A message becomes due and is taken in hand. -/
theorem Pending.newly (h : Pending q due none) (hnot : ¬ due r m)
    (hdue : ∀ r' m', due' r' m' ↔ due r' m' ∨ (r', m') = (r, m)) :
    Pending q due' (some (r, m)) := by
  obtain ⟨hmem, hnodup, -⟩ := h
  refine ⟨?_, hnodup, ?_⟩
  · intro r' m'
    rw [hmem, hdue]
    constructor
    · rintro ⟨hd, -⟩
      refine ⟨Or.inl hd, ?_⟩
      intro heq
      cases heq
      exact hnot hd
    · rintro ⟨hd | heq, hne⟩
      · exact ⟨hd, by simp⟩
      · exact absurd (congrArg some heq.symm) hne
  · intro r' m' heq
    cases heq
    exact (hdue r m).2 (Or.inr rfl)

omit [DecidableEq Receiver] [DecidableEq Message] in
theorem Pending.congr {hand : Option (Receiver × Message)} (h : Pending q due hand)
    (hdue : ∀ r m, due' r m ↔ due r m) : Pending q due' hand := by
  obtain ⟨hmem, hnodup, hhand⟩ := h
  refine ⟨fun r m => ?_, hnodup, fun r m heq => (hdue r m).2 (hhand r m heq)⟩
  rw [hdue, hmem]

end Mailboxes
end Lib
end Longky
