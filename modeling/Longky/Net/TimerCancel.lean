import Longky.Net.TimerRuns

/-!
# TimerCancel — what `cancelInLoop` stops

A timer is cancelled by its id, the address of the object with its sequence number.  A timer in the
two sets is deleted at once; a timer of the batch whose callback has been made is noted in
`cancelingTimers_`, and `reset` deletes it.  Two kinds of live timers escape both: those of the
batch whose callbacks are still to be made, since the loop of `handleRead` asks nobody, and those
whose `addTimerInLoop` has not run yet.
-/

namespace Longky
namespace Net

open Lib OrderedSet

namespace TimerQueue

variable {S : Type}

/-- The timer an id was given out for is alive. -/
def Alive (q : TimerQueue S) (id : ActiveTimer) : Prop :=
  ∃ t, q.heap id.1 = some t ∧ t.sequence_ = id.2

/-- The next callback `handleRead` makes is that of `id`. -/
def Fires (q : TimerQueue S) (id : ActiveTimer) : Prop :=
  q.Alive id ∧ (q.toRun.map Entry.timer).head? = some id.1

/-- The live timer is where `cancelInLoop` does not look: its callback is still to be made in the
batch that runs, or it has not been added yet. -/
def Missed (q : TimerQueue S) (id : ActiveTimer) : Prop :=
  q.Alive id ∧ (id.1 ∈ q.toRun.map Entry.timer ∨ id.1 ∈ q.toAdd)

instance (q : TimerQueue S) (id : ActiveTimer) : Decidable (q.Alive id) :=
  decidable_of_iff ((q.heap id.1).map Timer.sequence_ = some id.2) Option.map_eq_some_iff

instance (q : TimerQueue S) (id : ActiveTimer) : Decidable (q.Fires id) :=
  inferInstanceAs (Decidable (_ ∧ _))

instance (q : TimerQueue S) (id : ActiveTimer) : Decidable (q.Missed id) :=
  inferInstanceAs (Decidable (_ ∧ _))

/-- If the timer is still alive, its last callback has been made and `reset` will delete it. -/
def Stopped (q : TimerQueue S) (id : ActiveTimer) : Prop :=
  ∀ t, q.heap id.1 = some t → t.sequence_ = id.2 →
    id.1 ∈ q.batch ∧ id.1 ∉ q.toRun.map Entry.timer ∧ (t.repeat_ = true → id ∈ q.cancelingTimers_)

theorem Stopped.of_none {q : TimerQueue S} {id : ActiveTimer} (h : q.heap id.1 = none) :
    q.Stopped id := by
  intro t ht
  rw [h] at ht
  cases ht

theorem Stopped.not_fires {q : TimerQueue S} {id : ActiveTimer} (h : q.Stopped id) :
    ¬ q.Fires id := by
  rintro ⟨⟨t, ht, hseq⟩, hhead⟩
  exact (h t ht hseq).2.1 (List.mem_of_mem_head? hhead)

/-! ## The objects after `reset` -/

theorem rearm_frame {q q' : TimerQueue S} {clock : Timestamp} (h : q.rearm clock = some q') :
    ∃ fd, q' = { q with timerfd_ := fd } := by
  unfold rearm at h
  split at h
  · cases h
    exact ⟨_, rfl⟩
  · rcases Option.bind_eq_some_iff.1 h with ⟨t, -, heq⟩
    split at heq
    · cases heq
      exact ⟨_, rfl⟩
    · cases heq
      exact ⟨_, rfl⟩

section Reset

variable [Seconds S]

/-- What `reset` leaves of the timer at `a`. -/
def afterReset (q : TimerQueue S) (a : Address) : Option (Timer S) := do
  let t ← q.heap a
  if t.repeat_ ∧ (a, t.sequence_) ∉ q.cancelingTimers_ then some (t.restart q.now) else none

theorem afterReset_eq_some {q : TimerQueue S} {a : Address} {t : Timer S}
    (h : q.afterReset a = some t) :
    ∃ u, q.heap a = some u ∧ u.repeat_ = true ∧ (a, u.sequence_) ∉ q.cancelingTimers_ ∧
      t.sequence_ = u.sequence_ := by
  rcases Option.bind_eq_some_iff.1 h with ⟨u, hu, hrest⟩
  split at hrest
  · rename_i hrep
    cases hrest
    refine ⟨u, hu, hrep.1, hrep.2, ?_⟩
    unfold Timer.restart
    split <;> rfl
  · cases hrest

/-- One round changes the object of its entry and nothing else that `afterReset` reads. -/
theorem resetOne_heap {q q' : TimerQueue S} {e : Entry} (h : q.resetOne e = some q') :
    q'.heap = Function.update q.heap e.timer (q.afterReset e.timer) ∧
      q'.cancelingTimers_ = q.cancelingTimers_ ∧ q'.now = q.now := by
  rcases Option.bind_eq_some_iff.1 h with ⟨t, ht, hrest⟩
  by_cases hrep : t.repeat_ = true ∧ (e.timer, t.sequence_) ∉ q.cancelingTimers_
  · have hafter : q.afterReset e.timer = some (t.restart q.now) := by
      simp [afterReset, ht, hrep]
    rw [if_pos hrep] at hrest
    rcases Option.bind_eq_some_iff.1 hrest with ⟨⟨c, q₁⟩, hins, heq⟩
    cases heq
    simp only [TimerQueue.insert, Option.bind_eq_bind, Option.bind_eq_some_iff] at hins
    rcases hins with ⟨-, -, u, -, -, -, -, -, -, -, heq⟩
    cases heq
    exact ⟨by rw [hafter]; rfl, rfl, rfl⟩
  · have hafter : q.afterReset e.timer = none := by
      simp only [afterReset, ht, Option.bind_eq_bind, Option.bind_some, if_neg hrep]
    rw [if_neg hrep] at hrest
    simp only [TimerQueue.delete, ht, Option.bind_eq_bind, Option.bind_some] at hrest
    cases hrest
    exact ⟨by rw [hafter]; rfl, rfl, rfl⟩

theorem resetAll_heap {q q' : TimerQueue S} {es : List Entry} (h : q.resetAll es = some q')
    (hnodup : (es.map Entry.timer).Nodup) (a : Address) :
    q'.heap a = if a ∈ es.map Entry.timer then q.afterReset a else q.heap a := by
  induction es generalizing q with
  | nil =>
      cases h
      simp
  | cons e es ih =>
      rcases Option.bind_eq_some_iff.1 h with ⟨q₁, hone, hrest⟩
      rw [List.map_cons, List.nodup_cons] at hnodup
      rcases resetOne_heap hone with ⟨hheap, hcancel, hnow⟩
      have hafter : ∀ b, b ≠ e.timer → q₁.afterReset b = q.afterReset b := by
        intro b hb
        simp only [afterReset, hheap, hcancel, hnow, Function.update_of_ne hb]
      rw [ih hrest hnodup.2]
      by_cases hae : a = e.timer
      · subst hae
        simp only [if_neg hnodup.1, hheap, Function.update_self, List.map_cons, List.mem_cons,
          true_or, if_true]
        rfl
      · simp only [hafter a hae, hheap, Function.update_of_ne hae, List.map_cons, List.mem_cons,
          hae, false_or]

/-- The objects after the end of `handleRead`. -/
theorem finish_heap {q q' : TimerQueue S} {clock : Timestamp} (hinv : q.RunInv)
    (h : q.finish clock = some q') (a : Address) :
    q'.heap a = if a ∈ q.batch then q.afterReset a else q.heap a := by
  rcases Option.bind_eq_some_iff.1 h with ⟨q₁, hreset, hrearm⟩
  rcases rearm_frame hrearm with ⟨fd, rfl⟩
  exact resetAll_heap hreset hinv.owned.batch_nodup a

theorem finish_numCreated {q q' : TimerQueue S} {clock : Timestamp} (hinv : q.RunInv)
    (h : q.finish clock = some q') : q'.numCreated = q.numCreated := by
  rcases Option.bind_eq_some_iff.1 h with ⟨q₁, hreset, hrearm⟩
  rcases rearm_frame hrearm with ⟨fd, rfl⟩
  have howned : ({ q with callingExpiredTimers_ := false }).Owned none := { hinv.owned with }
  rcases howned.resetAll rfl with ⟨q₂, heq, -, ⟨_, _, _, _, hq₂⟩, -⟩
  rw [heq] at hreset
  cases hreset
  rw [hq₂]

end Reset

/-! ## What is stopped stays stopped -/

section Stop

variable {q : TimerQueue S} {id : ActiveTimer}

theorem cancelExpired_frame (q : TimerQueue S) (id : ActiveTimer) :
    ∃ c, q.cancelExpired id = { q with cancelingTimers_ := c } := by
  unfold cancelExpired
  split
  · exact ⟨_, rfl⟩
  · exact ⟨q.cancelingTimers_, rfl⟩

/-- A cancelled timer that was not missed is deleted or stopped. -/
theorem RunInv.stopped (h : q.RunInv) (hid : id.2 ≤ q.numCreated) (hmiss : ¬ q.Missed id)
    {q' : TimerQueue S} (hc : q.cancelInLoop id = some q') :
    id.2 ≤ q'.numCreated ∧ q'.Stopped id := by
  rcases h.owned.cancelInLoop id with ⟨q₁, heq, -, hcases⟩
  rw [hc] at heq
  cases heq
  rcases hcases with ⟨t, -, -, -, rfl⟩ | ⟨hnot, rfl⟩
  · refine ⟨hid, Stopped.of_none ?_⟩
    simp [deleted]
  · rcases cancelExpired_frame q id with ⟨c, hframe⟩
    refine ⟨by rw [hframe]; exact hid, ?_⟩
    intro t ht hseq
    rw [hframe] at ht
    have halive : q.Alive id := ⟨t, ht, hseq⟩
    -- not active and not about to be added, so the timer is in the batch
    have hbatch : id.1 ∈ q.batch := by
      rcases h.owned.live id.1 t ht with hl | hl | hl | hl
      · exact absurd ⟨halive, Or.inr hl⟩ hmiss
      · rw [hseq] at hl
        exact absurd hl hnot
      · exact hl
      · cases hl
    have hrun : id.1 ∉ q.toRun.map Entry.timer := fun hm => hmiss ⟨halive, Or.inl hm⟩
    have hcalling : q.callingExpiredTimers_ = true := by
      by_contra hc'
      have hidle := (h.idle (by simpa using hc')).1
      simp [batch, hidle] at hbatch
    simp only [cancelExpired, hcalling, if_true]
    exact ⟨hbatch, hrun, fun _ => Finset.mem_insert_self _ _⟩

/-- `cancelInLoop` leaves a missed timer where it is. -/
theorem RunInv.missed_of_cancel (h : q.RunInv) (hmiss : q.Missed id) {q' : TimerQueue S}
    (hc : q.cancelInLoop id = some q') : q'.Missed id := by
  rcases h.owned.cancelInLoop id with ⟨q₁, heq, -, hcases⟩
  rw [hc] at heq
  cases heq
  rcases hcases with ⟨-, -, -, hact, -⟩ | ⟨-, rfl⟩
  · rcases hmiss with ⟨⟨t, ht, hseq⟩, hwhere⟩
    exfalso
    have hnot : (id.1, t.sequence_) ∉ q.activeTimers_ := by
      rcases hwhere with hrun | hadd
      · rcases List.mem_map.1 hrun with ⟨e, he, heid⟩
        rcases h.owned.batched e (h.suffix.subset he) with ⟨u, hu, -, hnot⟩
        rw [heid] at hu hnot
        obtain rfl : t = u := Option.some.inj (ht.symm.trans hu)
        exact hnot
      · rcases h.owned.added id.1 hadd with ⟨u, hu, hnot, -⟩
        obtain rfl : t = u := Option.some.inj (ht.symm.trans hu)
        exact hnot
    rw [hseq] at hnot
    exact hnot hact
  · rcases cancelExpired_frame q id with ⟨c, hframe⟩
    rw [hframe]
    exact hmiss

/-- A new object at the old address has a new number. -/
theorem Stopped.newTimer [Seconds S] (hid : id.2 ≤ q.numCreated) (hs : q.Stopped id) (b : Address)
    (when : Timestamp) (interval : S) : (q.newTimer b when interval).Stopped id := by
  intro t ht hseq
  by_cases hb : id.1 = b
  · subst hb
    simp only [TimerQueue.newTimer, Function.update_self, Option.some.injEq] at ht
    subst ht
    have hnew : q.numCreated + 1 = id.2 := hseq
    omega
  · simp only [TimerQueue.newTimer, Function.update_of_ne hb] at ht
    exact hs t ht hseq

theorem Stopped.deleted (hs : q.Stopped id) (b : Address) (t : Timer S) :
    (q.deleted b t).Stopped id := by
  intro u hu hseq
  by_cases hb : id.1 = b
  · simp [TimerQueue.deleted, hb] at hu
  · simp only [TimerQueue.deleted, Function.update_of_ne hb] at hu
    exact hs u hu hseq

theorem Stopped.cancelExpired (hs : q.Stopped id) (id' : ActiveTimer) :
    (q.cancelExpired id').Stopped id := by
  unfold TimerQueue.cancelExpired
  split
  · intro u hu hseq
    rcases hs u hu hseq with ⟨hbatch, hrun, hrep⟩
    exact ⟨hbatch, hrun, fun hr => Finset.mem_insert_of_mem (hrep hr)⟩
  · exact hs

theorem Stopped.runNext {q' : TimerQueue S} (hs : q.Stopped id) (h : q.runNext = some q') :
    q'.numCreated = q.numCreated ∧ q'.Stopped id := by
  unfold TimerQueue.runNext at h
  split at h
  · cases h
    exact ⟨rfl, hs⟩
  · rename_i e es htoRun
    rcases Option.bind_eq_some_iff.1 h with ⟨t, -, heq⟩
    cases heq
    refine ⟨rfl, ?_⟩
    intro u hu hseq
    rcases hs u hu hseq with ⟨hbatch, hnot, hrep⟩
    refine ⟨hbatch, ?_, hrep⟩
    rw [htoRun, List.map_cons] at hnot
    exact fun hm => hnot (List.mem_cons_of_mem _ hm)

/-- `reset` deletes a stopped timer: one that survives repeats and is not in the canceling set. -/
theorem Stopped.finish [Seconds S] {q' : TimerQueue S} {clock : Timestamp} (h : q.RunInv)
    (hs : q.Stopped id) (hfin : q.finish clock = some q') : q'.Stopped id := by
  intro t ht hseq
  exfalso
  rw [finish_heap h hfin] at ht
  split at ht
  · rcases afterReset_eq_some ht with ⟨u, hu, hrep, hnot, huseq⟩
    have hid' : (id.1, u.sequence_) = id := by rw [← huseq, hseq]
    rw [hid'] at hnot
    exact hnot ((hs u hu (huseq ▸ hseq)).2.2 hrep)
  · rename_i hmem
    exact hmem (hs t ht hseq).1

/-- The step lemma. -/
theorem Stopped.perform [Seconds S] (h : q.RunInv) (hid : id.2 ≤ q.numCreated) (hs : q.Stopped id)
    {a : TimerAction S} (he : q.enabled a = true) {q' : TimerQueue S} (hp : q.perform a = some q') :
    id.2 ≤ q'.numCreated ∧ q'.Stopped id := by
  cases a with
  | newTimer b when interval =>
      cases hp
      exact ⟨Nat.le_succ_of_le hid, hs.newTimer hid b when interval⟩
  | addTimerInLoop b clock =>
      rcases h.owned.addTimerInLoop (of_decide_eq_true he) clock with ⟨t, fd, -, heq, -⟩
      rw [TimerQueue.perform, heq] at hp
      cases hp
      exact ⟨hid, hs⟩
  | cancelInLoop id' =>
      rcases h.owned.cancelInLoop id' with ⟨q₁, heq, -, hcases⟩
      rw [TimerQueue.perform, heq] at hp
      cases hp
      rcases hcases with ⟨t, -, -, -, rfl⟩ | ⟨-, rfl⟩
      · exact ⟨hid, hs.deleted id'.1 t⟩
      · rcases cancelExpired_frame q id' with ⟨c, hframe⟩
        exact ⟨by rw [hframe]; exact hid, hs.cancelExpired id'⟩
  | handleRead now =>
      have hidle := (h.idle (by simpa [enabled] using he)).1
      have hread : q.handleRead now = some q' := hp
      simp only [TimerQueue.handleRead, h.owned.getExpired hidle now, Option.bind_eq_bind,
        Option.bind_some] at hread
      cases hread
      -- with no batch a stopped timer is a deleted one
      refine ⟨hid, ?_⟩
      intro t ht hseq
      have hbatch := (hs t ht hseq).1
      simp [batch, hidle] at hbatch
  | runNext =>
      rcases hs.runNext hp with ⟨hnum, hstopped⟩
      exact ⟨hnum ▸ hid, hstopped⟩
  | finish clock =>
      have hnum : q'.numCreated = q.numCreated := finish_numCreated h hp
      exact ⟨hnum ▸ hid, hs.finish h hp⟩

end Stop

/-! ## What is missed fires -/

section Miss

variable [Seconds S] {q : TimerQueue S} {id : ActiveTimer}

theorem RunInv.startAt (h : q.RunInv) {q' : TimerQueue S}
    (hr : ((runs S).startAt q).Reachable q') : q'.RunInv := by
  refine hr.invariant ?_ ?_
  · rintro s rfl
    exact h
  · intro s a s' hs hstep
    exact hs.step hstep

/-- The loop of `handleRead` gets to any point of what is left of its batch. -/
theorem RunInv.runThrough (h : q.RunInv) {pre post : List Entry} (hrun : q.toRun = pre ++ post) :
    ∃ ran, ((runs S).startAt q).Reachable { q with toRun := post, ran := ran } := by
  induction pre generalizing q with
  | nil =>
      refine ⟨q.ran, .init ?_⟩
      exact congrArg (fun l => { q with toRun := l }) hrun.symm
  | cons e pre ih =>
      have hcalling : q.callingExpiredTimers_ = true := by
        by_contra hc
        have hidle := (h.idle (by simpa using hc)).2
        simp [hrun] at hidle
      have hmem : e ∈ q.expired := h.suffix.subset (by rw [hrun]; exact List.mem_cons_self)
      rcases h.owned.batched e hmem with ⟨t, ht, -⟩
      have hnext : q.runNext =
          some { q with toRun := pre ++ post, ran := q.ran ++ [(t.sequence_, t.repeat_)] } := by
        unfold TimerQueue.runNext
        simp [hrun, ht]
      have hstep : (runs S).step q .runNext
          { q with toRun := pre ++ post, ran := q.ran ++ [(t.sequence_, t.repeat_)] } :=
        ⟨by simp [enabled, hcalling, hrun], hnext⟩
      have hreach := System.Reachable.step (.init rfl) (show ((runs S).startAt q).step _ _ _ from hstep)
      rcases ih (h.startAt hreach) rfl with ⟨ran, hrest⟩
      exact ⟨ran, hreach.trans hrest⟩

theorem RunInv.fires_of_toRun (h : q.RunInv) (id : ActiveTimer) (halive : q.Alive id)
    (hmem : id.1 ∈ q.toRun.map Entry.timer) :
    ∃ q', ((runs S).startAt q).Reachable q' ∧ q'.Fires id := by
  rcases List.mem_map.1 hmem with ⟨e, he, heid⟩
  rcases List.append_of_mem he with ⟨pre, post, hrun⟩
  rcases h.runThrough hrun with ⟨ran, hreach⟩
  exact ⟨_, hreach, halive, by simp [heid]⟩

/-- The batch can be run to its end; the timers still to be added are not touched by it. -/
theorem RunInv.runBatch (h : q.RunInv) :
    ∃ q', ((runs S).startAt q).Reachable q' ∧ q'.callingExpiredTimers_ = false ∧
      ∀ a ∈ q.toAdd, a ∈ q'.toAdd ∧ q'.heap a = q.heap a := by
  by_cases hc : q.callingExpiredTimers_ = true
  · rcases h.runThrough (List.append_nil _).symm with ⟨ran, hreach⟩
    have hinv := h.startAt hreach
    rcases hinv.finish rfl 0 with ⟨q', hfin, -⟩
    refine ⟨q', .step hreach (a := .finish 0) ⟨by simp [enabled, hc], hfin⟩, ?_⟩
    rcases Option.bind_eq_some_iff.1 hfin with ⟨q₁, hreset, hrearm⟩
    rcases rearm_frame hrearm with ⟨fd, rfl⟩
    have howned : ({ q with toRun := [], ran := ran, callingExpiredTimers_ := false }).Owned none :=
      { h.owned with }
    rcases howned.resetAll rfl with ⟨q₂, heq, -, ⟨_, _, _, _, hq₂⟩, -⟩
    rw [heq] at hreset
    cases hreset
    refine ⟨by rw [hq₂], ?_⟩
    intro a ha
    refine ⟨by rw [hq₂]; exact ha, ?_⟩
    rcases h.owned.added a ha with ⟨t, -, -, hbatch⟩
    rw [finish_heap hinv hfin]
    exact if_neg hbatch
  · exact ⟨q, .init rfl, by simpa using hc, fun a ha => ⟨ha, rfl⟩⟩

/-- A timer still to be added can be added next and expires when its time has come. -/
theorem RunInv.fires_of_toAdd (h : q.RunInv) (halive : q.Alive id) (hmem : id.1 ∈ q.toAdd) :
    ∃ q', ((runs S).startAt q).Reachable q' ∧ q'.Fires id := by
  rcases halive with ⟨t, ht, hseq⟩
  rcases h.runBatch with ⟨q₁, hreach₁, hc₁, hkeep⟩
  rcases hkeep id.1 hmem with ⟨hadd₁, hheap₁⟩
  have h₁ := h.startAt hreach₁
  rcases h₁.owned.addTimerInLoop hadd₁ 0 with ⟨u, fd, hu, heq, -⟩
  obtain rfl : t = u := Option.some.inj (ht.symm.trans (hheap₁.symm.trans hu))
  have hreach₂ := System.Reachable.step hreach₁
    (show ((runs S).startAt q).step q₁ (.addTimerInLoop id.1 0) _ from
      ⟨decide_eq_true hadd₁, heq⟩)
  have h₂ := h.startAt hreach₂
  have hidle := (h₂.idle hc₁).1
  rcases h₂.handleRead hc₁ t.expiration_ with ⟨q₃, hread, h₃⟩
  have hreach₃ := System.Reachable.step hreach₂
    (show ((runs S).startAt q).step _ (.handleRead t.expiration_) q₃ from
      ⟨by simpa [enabled, inserted] using hc₁, hread⟩)
  simp only [TimerQueue.handleRead, h₂.owned.getExpired hidle, Option.bind_eq_bind,
    Option.bind_some] at hread
  cases hread
  -- the entry of the timer is due at its own expiration
  have hentry : t.entry id.1 ∈ below
      (Insert.insert (t.entry id.1) q₁.timers_) ⟨t.expiration_, UINTPTR_MAX⟩ := by
    refine mem_below.2 ⟨Finset.mem_insert_self _ _, ?_⟩
    exact Entry.lt_iff.2 (Or.inr ⟨rfl, (h.owned.bound id.1 t ht).1⟩)
  rcases h₃.fires_of_toRun id ⟨t, hu, hseq⟩ (List.mem_map_of_mem hentry) with
    ⟨q₄, hreach₄, hfires⟩
  exact ⟨q₄, hreach₃.trans hreach₄, hfires⟩

theorem RunInv.fires_of_missed (h : q.RunInv) (hmiss : q.Missed id) :
    ∃ q', ((runs S).startAt q).Reachable q' ∧ q'.Fires id := by
  rcases hmiss with ⟨halive, hrun | hadd⟩
  · exact h.fires_of_toRun id halive hrun
  · exact h.fires_of_toAdd halive hadd

end Miss

/-! ## Cancelling -/

/-- After `cancelInLoop` the callback of an id given out before is never made again, in any
continuation of any run, exactly when the timer was not missed. -/
theorem cancelled_never_fires_iff [Seconds S] {q q' : TimerQueue S} {id : ActiveTimer}
    (hq : (runs S).Reachable q) (hid : id.2 ≤ q.numCreated) (hc : q.cancelInLoop id = some q') :
    (∀ q'', ((runs S).startAt q').Reachable q'' → ¬ q''.Fires id) ↔ ¬ q.Missed id := by
  have hinv := reachable_runInv hq
  have hinv' : q'.RunInv := reachable_runInv (.step hq (a := .cancelInLoop id) ⟨rfl, hc⟩)
  constructor
  · intro hnever hmiss
    rcases hinv'.fires_of_missed (hinv.missed_of_cancel hmiss hc) with ⟨q'', hreach, hfires⟩
    exact hnever q'' hreach hfires
  · intro hmiss q'' hreach
    have hstop : q''.RunInv ∧ id.2 ≤ q''.numCreated ∧ q''.Stopped id := by
      refine hreach.invariant (P := fun s => s.RunInv ∧ id.2 ≤ s.numCreated ∧ s.Stopped id) ?_ ?_
      · rintro s rfl
        exact ⟨hinv', (hinv.stopped hid hmiss hc)⟩
      · rintro s a s' ⟨hi, hle, hs⟩ hstep
        exact ⟨hi.step hstep, hs.perform hi hle hstep.1 hstep.2⟩
    exact hstop.2.2.not_fires

/-- Two one-shot timers expire together and the callback of the first has been made. -/
def firstOfTwo : List (TimerAction Nat) :=
  [.newTimer 8 50 0, .addTimerInLoop 8 10, .newTimer 16 60 0, .addTimerInLoop 16 10,
    .handleRead 100, .runNext]

def firstOfTwoEnd : Option (TimerQueue Nat) :=
  System.runAll (fun q a => if q.enabled a then q.perform a else none) {} firstOfTwo

theorem reachable_firstOfTwoEnd {q : TimerQueue Nat} (hq : firstOfTwoEnd = some q) :
    (runs Nat).Reachable q := by
  refine System.Reachable.of_runAll ?_ (.init rfl) hq
  intro s a s' hs
  exact Option.ite_none_right_eq_some.1 hs

/-- The first callback may cancel its own timer: that one is not missed. -/
theorem cancelled_never_fires_first :
    ∃ q q', firstOfTwoEnd = some q ∧ q.cancelInLoop (8, 1) = some q' ∧
      ∀ q'', ((runs Nat).startAt q').Reachable q'' → ¬ q''.Fires (8, 1) := by
  obtain ⟨q, hq, hid, hmiss, hcancel⟩ : ∃ q, firstOfTwoEnd = some q ∧
      1 ≤ q.numCreated ∧ ¬ q.Missed (8, 1) ∧ (q.cancelInLoop (8, 1)).isSome = true := by
    have hrun : (firstOfTwoEnd.map fun q => decide (1 ≤ q.numCreated ∧ ¬ q.Missed (8, 1) ∧
        (q.cancelInLoop (8, 1)).isSome = true)) = some true := by decide +kernel
    rcases Option.map_eq_some_iff.1 hrun with ⟨q, hq, hall⟩
    exact ⟨q, hq, of_decide_eq_true hall⟩
  rcases Option.isSome_iff_exists.1 hcancel with ⟨q', hq'⟩
  have hreach := reachable_firstOfTwoEnd hq
  exact ⟨q, q', hq, hq', (cancelled_never_fires_iff hreach hid hq').2 hmiss⟩

/-- The first callback cancels the second timer, and its callback is the next one made. -/
theorem cancelled_second_fires :
    ∃ q q' : TimerQueue Nat, (runs Nat).Reachable q ∧ 2 ≤ q.numCreated ∧
      q.cancelInLoop (16, 2) = some q' ∧ ((runs Nat).startAt q').Reachable q' ∧
      q'.Fires (16, 2) := by
  obtain ⟨q, q', hq, hq', hid, hfires⟩ : ∃ q q', firstOfTwoEnd = some q ∧
      q.cancelInLoop (16, 2) = some q' ∧ 2 ≤ q.numCreated ∧ q'.Fires (16, 2) := by
    have hrun : (firstOfTwoEnd.bind fun q => (q.cancelInLoop (16, 2)).map fun q' =>
        decide (2 ≤ q.numCreated ∧ q'.Fires (16, 2))) = some true := by decide +kernel
    rcases Option.bind_eq_some_iff.1 hrun with ⟨q, hq, hrest⟩
    rcases Option.map_eq_some_iff.1 hrest with ⟨q', hq', hall⟩
    exact ⟨q, q', hq, hq', of_decide_eq_true hall⟩
  exact ⟨q, q', reachable_firstOfTwoEnd hq, hid, hq', .init rfl, hfires⟩

end TimerQueue
end Net
end Longky
