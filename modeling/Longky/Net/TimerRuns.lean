import Longky.Net.TimerOwnership

/-!
# TimerRuns — what holds in every run of the timer queue

Between two callbacks of `handleRead` user code may add and cancel timers, so the invariant of runs
also says which callbacks have already been made: a live one-shot timer whose callback has run is in
the batch, behind the point the loop has reached, and `reset` will delete it.
-/

namespace Longky
namespace Net

open Lib OrderedSet

namespace TimerQueue

variable {S : Type}

structure RunInv (q : TimerQueue S) : Prop where
  owned : q.Owned none
  idle : q.callingExpiredTimers_ = false → q.expired = [] ∧ q.toRun = []
  suffix : q.toRun <:+ q.expired
  count : ∀ s, q.ran.count (s, false) ≤ 1
  ranLive : ∀ a t, q.heap a = some t → t.repeat_ = false → (t.sequence_, false) ∈ q.ran →
    a ∈ q.batch ∧ a ∉ q.toRun.map Entry.timer
  ranCreated : ∀ s r, (s, r) ∈ q.ran → s ≤ q.numCreated

theorem RunInv.init : ({} : TimerQueue S).RunInv := by
  refine ⟨?_, by simp, List.suffix_refl _, by simp, by simp, by simp⟩
  constructor <;> simp [batch]

namespace RunInv

variable {q : TimerQueue S}

theorem newTimer [Seconds S] (h : q.RunInv) {a : Address} (ha : q.heap a = none)
    (hmax : a < UINTPTR_MAX) (when : Timestamp) (interval : S) : (q.newTimer a when interval).RunInv :=
  { h with
    owned := h.owned.new ha hmax when interval
    ranLive := by
      intro b t hb hrep hran
      by_cases hba : b = a
      · subst hba
        simp only [TimerQueue.newTimer, Function.update_self] at hb
        cases hb
        -- the number of the new timer has not been given out, so nothing has run under it
        have hle : q.numCreated + 1 ≤ q.numCreated := h.ranCreated _ _ hran
        omega
      · simp only [TimerQueue.newTimer, Function.update_of_ne hba] at hb
        exact h.ranLive b t hb hrep hran
    ranCreated := fun s r hs => Nat.le_succ_of_le (h.ranCreated s r hs) }

theorem addTimerInLoop (h : q.RunInv) {a : Address} (ha : a ∈ q.toAdd) (clock : Timestamp) :
    ∃ q', q.addTimerInLoop a clock = some q' ∧ q'.RunInv := by
  rcases h.owned.addTimerInLoop ha clock with ⟨t, fd, -, heq, howned⟩
  exact ⟨_, heq, { h with owned := howned }⟩

theorem cancelInLoop (h : q.RunInv) (id : ActiveTimer) :
    ∃ q', q.cancelInLoop id = some q' ∧ q'.RunInv := by
  rcases h.owned.cancelInLoop id with ⟨q', heq, howned, hcases⟩
  refine ⟨q', heq, ?_⟩
  rcases hcases with ⟨t, -, -, -, rfl⟩ | ⟨-, rfl⟩
  · refine { h with owned := howned, ranLive := ?_ }
    intro b u hb
    simp only [deleted] at hb
    by_cases hba : b = id.1
    · subst hba
      simp at hb
    · rw [Function.update_of_ne hba] at hb
      exact h.ranLive b u hb
  · unfold cancelExpired at howned ⊢
    split at howned
    · rename_i hc
      rw [if_pos hc]
      exact { h with owned := howned }
    · rename_i hc
      rw [if_neg hc]
      exact h

theorem handleRead (h : q.RunInv) (hc : q.callingExpiredTimers_ = false) (now : Timestamp) :
    ∃ q', q.handleRead now = some q' ∧ q'.RunInv := by
  have hidle := (h.idle hc).1
  have howned := h.owned.afterExpiry hidle now
  refine ⟨_, by simp [TimerQueue.handleRead, h.owned.getExpired hidle now]; rfl, ?_⟩
  refine { owned := { howned with }, idle := by simp, suffix := List.suffix_refl _,
           count := h.count, ranLive := ?_, ranCreated := h.ranCreated }
  intro a t ha hrep hran
  -- no live one-shot timer has run: the last batch is gone
  have := (h.ranLive a t ha hrep hran).1
  simp [batch, hidle] at this

theorem runNext (h : q.RunInv) : ∃ q', q.runNext = some q' ∧ q'.RunInv := by
  unfold TimerQueue.runNext
  split
  · exact ⟨q, rfl, h⟩
  · rename_i e es hrun
    have hsuf : e :: es <:+ q.expired := hrun ▸ h.suffix
    have hmem : e ∈ q.expired := hsuf.subset List.mem_cons_self
    rcases h.owned.batched e hmem with ⟨t, ht, -⟩
    refine ⟨_, by rw [ht]; rfl, ?_⟩
    -- a one-shot timer that has run is no longer among those to run
    have hfresh : t.repeat_ = false → (t.sequence_, false) ∉ q.ran := by
      intro hrep hran
      refine (h.ranLive _ t ht hrep hran).2 ?_
      rw [hrun]
      exact List.mem_map_of_mem List.mem_cons_self
    have hnodup : e.timer ∉ es.map Entry.timer := by
      have hsub : (e :: es).map Entry.timer <:+ q.batch := hsuf.map Entry.timer
      exact (List.nodup_cons.1 (h.owned.batch_nodup.sublist hsub.sublist)).1
    exact
      { owned := { h.owned with }
        idle := by
          intro hc
          have := (h.idle hc).2
          simp [hrun] at this
        suffix := (List.suffix_cons e es).trans hsuf
        count := by
          intro s
          rw [List.count_append]
          -- only a one-shot callback moves the count, and then from zero
          by_cases heq : (t.sequence_, t.repeat_) = (s, false)
          · rcases Prod.mk.inj heq with ⟨rfl, hrep⟩
            rw [List.count_eq_zero_of_not_mem (hfresh hrep), hrep, List.count_singleton_self]
          · rw [List.count_singleton, beq_eq_false_iff_ne.2 heq]
            simpa using h.count s
        ranLive := by
          intro a u ha hrep hran
          rcases List.mem_append.1 hran with hold | hnew
          · rcases h.ranLive a u ha hrep hold with ⟨hbatch, hnot⟩
            refine ⟨hbatch, ?_⟩
            rw [hrun, List.map_cons] at hnot
            exact fun hm => hnot (List.mem_cons_of_mem _ hm)
          · have hseq : u.sequence_ = t.sequence_ := by
              have := List.mem_singleton.1 hnew
              exact congrArg Prod.fst this
            rcases h.owned.unique a e.timer u t ha ht hseq with rfl
            exact ⟨List.mem_map_of_mem hmem, hnodup⟩
        ranCreated := by
          intro s r hs
          rcases List.mem_append.1 hs with hold | hnew
          · exact h.ranCreated s r hold
          · cases List.mem_singleton.1 hnew
            exact (h.owned.bound _ t ht).2 }

theorem finish [Seconds S] (h : q.RunInv) (hrun : q.toRun = []) (clock : Timestamp) :
    ∃ q', q.finish clock = some q' ∧ q'.RunInv := by
  have howned : ({ q with callingExpiredTimers_ := false }).Owned none := { h.owned with }
  rcases howned.resetAll rfl with ⟨q₁, heq, h₁, ⟨heap, timers, active, freed, hq₁⟩, hone⟩
  have hinv : q₁.RunInv := by
    refine
      { owned := h₁
        idle := fun _ => by rw [hq₁]; exact ⟨rfl, hrun⟩
        suffix := by rw [hq₁, hrun]
        count := by rw [hq₁]; exact h.count
        ranLive := ?_
        ranCreated := by rw [hq₁]; exact h.ranCreated }
    intro a t ha hrep hran
    -- a one-shot timer that survives `reset` was not in the batch, hence has not run
    rcases hone a t ha hrep with ⟨hold, hnot⟩
    have hran' : (t.sequence_, false) ∈ q.ran := by
      rw [hq₁] at hran
      exact hran
    exact absurd (h.ranLive a t hold hrep hran').1 hnot
  -- the earliest entry is a live timer's, so its expiration can be read
  have hrearm : ∃ q', q₁.rearm clock = some q' ∧ q'.RunInv := by
    unfold rearm
    split
    · exact ⟨q₁, rfl, hinv⟩
    · rename_i e he
      rcases (h₁.timers e).1 (mem_of_first? he) with ⟨t, ht, -⟩
      refine ⟨_, by rw [ht]; rfl, ?_⟩
      split
      · exact { hinv with owned := { h₁ with } }
      · exact hinv
  rcases hrearm with ⟨q', heq', hq'⟩
  exact ⟨q', by simp [TimerQueue.finish, heq, heq'], hq'⟩

/-- The step lemma: an enabled action fails no assertion, touches no dead object and keeps the
invariant. -/
theorem perform [Seconds S] (h : q.RunInv) {a : TimerAction S} (he : q.enabled a = true) :
    ∃ q', q.perform a = some q' ∧ q'.RunInv := by
  cases a with
  | newTimer a when interval =>
      simp only [enabled, Bool.and_eq_true, Option.isNone_iff_eq_none, decide_eq_true_eq] at he
      exact ⟨_, rfl, h.newTimer he.1 he.2 when interval⟩
  | addTimerInLoop a clock => exact h.addTimerInLoop (of_decide_eq_true he) clock
  | cancelInLoop id => exact h.cancelInLoop id
  | handleRead now => exact h.handleRead (by simpa [enabled] using he) now
  | runNext => exact h.runNext
  | finish clock =>
      simp only [enabled, Bool.and_eq_true, List.isEmpty_iff] at he
      exact h.finish he.2 clock

theorem step [Seconds S] (h : q.RunInv) {a : TimerAction S} {q' : TimerQueue S}
    (hs : (runs S).step q a q') : q'.RunInv := by
  rcases h.perform hs.1 with ⟨q₁, heq, hq₁⟩
  rw [hs.2] at heq
  cases heq
  exact hq₁

end RunInv

theorem reachable_runInv [Seconds S] {q : TimerQueue S} (h : (runs S).Reachable q) : q.RunInv := by
  refine h.invariant ?_ ?_
  · rintro s rfl
    exact RunInv.init
  · intro s a s' hs hstep
    exact hs.step hstep

/-! ## Ownership -/

/-- What the two sets, the batch and the heap say about each other. -/
structure Consistent (q : TimerQueue S) : Prop where
  sizes : q.timers_.card = q.activeTimers_.card
  timers_iff_active : ∀ a t, q.heap a = some t →
    (t.entry a ∈ q.timers_ ↔ (a, t.sequence_) ∈ q.activeTimers_)
  /-- The sets and the batch point to live objects only. -/
  timers_live : ∀ e ∈ q.timers_, ∃ t, q.heap e.timer = some t ∧ t.entry e.timer = e
  active_live : ∀ a s, (a, s) ∈ q.activeTimers_ → ∃ t, q.heap a = some t ∧ t.sequence_ = s
  batch_live : ∀ e ∈ q.expired, ∃ t, q.heap e.timer = some t ∧ t.entry e.timer = e
  toRun_batch : ∀ e ∈ q.toRun, e ∈ q.expired
  /-- A live timer that has been added is active or in the batch, and not both. -/
  one_place : ∀ a t, q.heap a = some t → a ∉ q.toAdd →
    Xor ((a, t.sequence_) ∈ q.activeTimers_) (a ∈ q.batch)
  one_shot_once : ∀ s, q.ran.count (s, false) ≤ 1
  freed_once : q.freed.Nodup

theorem RunInv.consistent {q : TimerQueue S} (h : q.RunInv) : q.Consistent where
  sizes := h.owned.sizesAgree
  timers_iff_active a t ht := by
    rw [h.owned.timers]
    constructor
    · rintro ⟨u, hu, -, hact⟩
      obtain rfl : t = u := Option.some.inj (ht.symm.trans hu)
      exact hact
    · exact fun hact => ⟨t, ht, rfl, hact⟩
  timers_live e he := by
    rcases (h.owned.timers e).1 he with ⟨t, ht, hexp, -⟩
    exact ⟨t, ht, by rw [Timer.entry, hexp]⟩
  active_live := h.owned.active
  batch_live e he := by
    rcases h.owned.batched e he with ⟨t, ht, hexp, -⟩
    exact ⟨t, ht, by rw [Timer.entry, hexp]⟩
  toRun_batch := fun _ he => h.suffix.subset he
  one_place a t ht hadd := by
    -- `expired` is disjoint from `activeTimers_`
    have hboth : a ∈ q.batch → (a, t.sequence_) ∉ q.activeTimers_ := by
      intro hb
      rcases List.mem_map.1 hb with ⟨e, he, rfl⟩
      rcases h.owned.batched e he with ⟨u, hu, -, hact⟩
      obtain rfl : t = u := Option.some.inj (ht.symm.trans hu)
      exact hact
    rcases h.owned.live a t ht with hl | hl | hl | hl
    · exact absurd hl hadd
    · exact Or.inl ⟨hl, fun hb => hboth hb hl⟩
    · exact Or.inr ⟨hl, hboth hl⟩
    · simp at hl
  one_shot_once := h.count
  freed_once := h.owned.freed_nodup

/-- `getExpired` splits `timers_` at `now`. -/
structure SplitAt (q q' : TimerQueue S) (now : Timestamp) : Prop where
  expired_iff : ∀ e, e ∈ q'.expired ↔ e ∈ q.timers_ ∧ e.when ≤ now
  kept_iff : ∀ e, e ∈ q'.timers_ ↔ e ∈ q.timers_ ∧ now < e.when
  nodup : q'.expired.Nodup
  ordered : q'.expired.Pairwise (fun e f => e.when ≤ f.when)

theorem Owned.splitAt {q : TimerQueue S} (h : q.Owned none) (now : Timestamp) :
    q.SplitAt (q.afterExpiry now) now where
  expired_iff e := by
    refine mem_below.trans (and_congr_right ?_)
    intro he
    exact h.lt_sentry he now
  kept_iff e := by
    refine mem_atLeast.trans (and_congr_right ?_)
    intro he
    rw [← not_lt, h.lt_sentry he, not_le]
  nodup := nodup_below _ _
  ordered := by
    refine (pairwise_below _ _).imp ?_
    intro e f hle
    rcases Entry.le_iff.1 hle with hlt | ⟨heq, -⟩
    · exact le_of_lt hlt
    · exact le_of_eq heq

/-- Every run keeps the sets, the batch and the heap consistent; no action fails an assertion or
touches a dead object; and `getExpired` takes out exactly the timers that are due, in order. -/
theorem timer_ownership [Seconds S] {q : TimerQueue S} (h : (runs S).Reachable q) :
    q.Consistent ∧ (∀ a, q.enabled a = true → ∃ q', q.perform a = some q') ∧
      ∀ now, q.callingExpiredTimers_ = false →
        ∃ q', q.getExpired now = some q' ∧ q.SplitAt q' now := by
  have hinv := reachable_runInv h
  refine ⟨hinv.consistent, ?_, ?_⟩
  · intro a he
    rcases hinv.perform he with ⟨q', heq, -⟩
    exact ⟨q', heq⟩
  · intro now hc
    exact ⟨_, hinv.owned.getExpired (hinv.idle hc).1 now, hinv.owned.splitAt now⟩

end TimerQueue

/-- Whole seconds, on which the floating-point arithmetic is exact. -/
instance : Seconds Nat where
  positive n := decide (0 < n)
  addTime t n := t + 1000000 * n

namespace TimerQueue

/-- Three timers expire together; the first, which repeats, cancels itself and the third and adds a
fourth, which takes the address of the second after that one has been deleted. -/
def cancellations : List (TimerAction Nat) :=
  [.newTimer 8 50 1, .addTimerInLoop 8 10, .newTimer 16 60 0, .addTimerInLoop 16 10,
    .newTimer 24 70 0, .addTimerInLoop 24 10, .handleRead 100, .runNext, .cancelInLoop (8, 1),
    .cancelInLoop (24, 3), .newTimer 32 500 2, .addTimerInLoop 32 110, .runNext, .runNext,
    .finish 120, .newTimer 16 600 0, .addTimerInLoop 16 130]

def cancellationsEnd : Option (TimerQueue Nat) :=
  System.runAll (fun q a => if q.enabled a then q.perform a else none) {} cancellations

theorem timer_ownership_cancellations :
    ∃ q, cancellationsEnd = some q ∧ q.Consistent ∧ q.freed = [1, 2, 3] ∧
      q.timers_ = {⟨500, 32⟩, ⟨600, 16⟩} := by
  obtain ⟨q, hq, hend⟩ : ∃ q, cancellationsEnd = some q ∧
      (q.freed, q.timers_) = ([1, 2, 3], {⟨500, 32⟩, ⟨600, 16⟩}) := by
    rw [← Option.map_eq_some_iff]
    decide +kernel
  have hreach : (runs Nat).Reachable q := by
    refine System.Reachable.of_runAll ?_ (.init rfl) hq
    intro s a s' hs
    exact Option.ite_none_right_eq_some.1 hs
  exact ⟨q, hq, (timer_ownership hreach).1, congrArg Prod.fst hend, congrArg Prod.snd hend⟩

end TimerQueue
end Net
end Longky
