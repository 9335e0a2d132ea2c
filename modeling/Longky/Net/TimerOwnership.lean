import Mathlib.Data.Finset.Card
import Longky.Net.TimerQueue

/-!
# TimerOwnership — who holds a timer object

A live `Timer` is held in exactly one place: by a queued `addTimerInLoop`, by the two sets, by the
expired batch of `handleRead`, or in the hand of the function that moves it.  `Owned q hand` says
so; each function of the queue moves one object between these places.
-/

namespace Longky
namespace Net

open Lib OrderedSet

namespace TimerQueue

variable {S : Type}

/-- The addresses of the expired batch. -/
def batch (q : TimerQueue S) : List Address := q.expired.map Entry.timer

/-- The ownership invariant, with at most one object in hand. -/
structure Owned (q : TimerQueue S) (hand : Option Address) : Prop where
  bound : ∀ a t, q.heap a = some t → a < UINTPTR_MAX ∧ t.sequence_ ≤ q.numCreated
  unique : ∀ a b t u, q.heap a = some t → q.heap b = some u → t.sequence_ = u.sequence_ → a = b
  active : ∀ a s, (a, s) ∈ q.activeTimers_ → ∃ t, q.heap a = some t ∧ t.sequence_ = s
  timers : ∀ e, e ∈ q.timers_ ↔
    ∃ t, q.heap e.timer = some t ∧ t.expiration_ = e.when ∧ (e.timer, t.sequence_) ∈ q.activeTimers_
  toAdd_nodup : q.toAdd.Nodup
  added : ∀ a ∈ q.toAdd,
    ∃ t, q.heap a = some t ∧ (a, t.sequence_) ∉ q.activeTimers_ ∧ a ∉ q.batch
  batch_nodup : q.batch.Nodup
  batched : ∀ e ∈ q.expired,
    ∃ t, q.heap e.timer = some t ∧ t.expiration_ = e.when ∧
      (e.timer, t.sequence_) ∉ q.activeTimers_
  inHand : ∀ a, hand = some a →
    ∃ t, q.heap a = some t ∧ (a, t.sequence_) ∉ q.activeTimers_ ∧ a ∉ q.toAdd ∧ a ∉ q.batch
  live : ∀ a t, q.heap a = some t →
    a ∈ q.toAdd ∨ (a, t.sequence_) ∈ q.activeTimers_ ∨ a ∈ q.batch ∨ hand = some a
  freed_nodup : q.freed.Nodup
  freed_dead : ∀ s ∈ q.freed, s ≤ q.numCreated ∧ ∀ a t, q.heap a = some t → t.sequence_ ≠ s

namespace Owned

variable {q : TimerQueue S} {hand : Option Address}

/-- The two sets have one element for each active timer. -/
theorem sizesAgree (h : q.Owned hand) : q.SizesAgree := by
  let toActive : Entry → ActiveTimer := fun e =>
    (e.timer, ((q.heap e.timer).map Timer.sequence_).getD 0)
  let toEntry : ActiveTimer → Entry := fun p =>
    ⟨((q.heap p.1).map Timer.expiration_).getD 0, p.1⟩
  refine Finset.card_nbij' toActive toEntry ?_ ?_ ?_ ?_
  · intro e he
    rcases (h.timers e).1 he with ⟨t, ht, -, hact⟩
    simpa [toActive, ht] using hact
  · rintro ⟨a, s⟩ hp
    rcases h.active a s hp with ⟨t, ht, rfl⟩
    exact (h.timers _).2 ⟨t, by simpa [toEntry] using ht, by simp [toEntry, ht], hp⟩
  · intro e he
    rcases (h.timers e).1 he with ⟨t, ht, hexp, -⟩
    cases e
    simp_all [toActive, toEntry]
  · rintro ⟨a, s⟩ hp
    rcases h.active a s hp with ⟨t, ht, rfl⟩
    simp [toActive, toEntry, ht]

/-- Two entries of one timer are the same entry. -/
theorem entry_eq (h : q.Owned hand) {e f : Entry} (he : e ∈ q.timers_) (hf : f ∈ q.timers_)
    (heq : e.timer = f.timer) : e = f := by
  rcases (h.timers e).1 he with ⟨t, ht, hexp, -⟩
  rcases (h.timers f).1 hf with ⟨u, hu, hexp', -⟩
  have htu : t = u := by
    rw [heq, hu] at ht
    exact (Option.some.inj ht).symm
  subst htu
  cases e
  cases f
  simp_all

/-- A free address occurs in none of the places that hold timers. -/
theorem not_held (h : q.Owned hand) {a : Address} (ha : q.heap a = none) :
    (∀ s, (a, s) ∉ q.activeTimers_) ∧ a ∉ q.toAdd ∧ a ∉ q.batch := by
  have hdead : ∀ t, q.heap a ≠ some t := by simp [ha]
  refine ⟨?_, ?_, ?_⟩
  · intro s hs
    rcases h.active a s hs with ⟨t, ht, -⟩
    exact hdead t ht
  · intro hm
    rcases h.added a hm with ⟨t, ht, -⟩
    exact hdead t ht
  · intro hm
    rcases List.mem_map.1 hm with ⟨e, he, rfl⟩
    rcases h.batched e he with ⟨t, ht, -⟩
    exact hdead t ht

/-- An active timer is neither queued nor in the batch. -/
theorem not_elsewhere (h : q.Owned hand) {a : Address} {t : Timer S} (ht : q.heap a = some t)
    (ha : (a, t.sequence_) ∈ q.activeTimers_) : a ∉ q.toAdd ∧ a ∉ q.batch := by
  constructor
  · intro hm
    rcases h.added a hm with ⟨u, hu, hact, -⟩
    rw [ht] at hu
    cases hu
    exact hact ha
  · intro hm
    rcases List.mem_map.1 hm with ⟨e, he, rfl⟩
    rcases h.batched e he with ⟨u, hu, -, hact⟩
    rw [ht] at hu
    cases hu
    exact hact ha

/-! ## One object moves -/

/-- `new Timer` and the queued `addTimerInLoop` behind it. -/
theorem new [Seconds S] (h : q.Owned none) {a : Address} (ha : q.heap a = none)
    (hmax : a < UINTPTR_MAX) (when : Timestamp) (interval : S) :
    (q.newTimer a when interval).Owned none := by
  have hother : ∀ b, b ≠ a → (q.newTimer a when interval).heap b = q.heap b := by
    intro b hb
    simp [newTimer, Function.update_of_ne hb]
  have hself : (q.newTimer a when interval).heap a =
      some (.construct when interval (q.numCreated + 1)) := by
    simp [newTimer]
  have hne : ∀ b t, q.heap b = some t → b ≠ a := by
    rintro b t hb rfl
    simp [ha] at hb
  have hold : ∀ b t, (q.newTimer a when interval).heap b = some t → b ≠ a → q.heap b = some t := by
    intro b t hb hba
    rwa [hother b hba] at hb
  have hkeep : ∀ b t, q.heap b = some t → (q.newTimer a when interval).heap b = some t := by
    intro b t hb
    rwa [hother b (hne b t hb)]
  have hnew : ∀ t, (q.newTimer a when interval).heap a = some t →
      t.sequence_ = q.numCreated + 1 := by
    intro t ht
    rw [hself] at ht
    cases ht
    rfl
  rcases h.not_held ha with ⟨hnotActive, hnotAdd, hnotBatch⟩
  constructor
  case bound =>
    intro b t hb
    by_cases hba : b = a
    · subst hba
      exact ⟨hmax, by rw [hnew t hb]; exact Nat.le_refl _⟩
    · rcases h.bound b t (hold b t hb hba) with ⟨h₁, h₂⟩
      exact ⟨h₁, Nat.le_succ_of_le h₂⟩
  case unique =>
    intro b c t u hb hc heq
    -- the new sequence number is above every number given out so far
    by_cases hba : b = a <;> by_cases hca : c = a
    · rw [hba, hca]
    · subst hba
      have := (h.bound c u (hold c u hc hca)).2
      rw [hnew t hb] at heq
      omega
    · subst hca
      have := (h.bound b t (hold b t hb hba)).2
      rw [hnew u hc] at heq
      omega
    · exact h.unique b c t u (hold b t hb hba) (hold c u hc hca) heq
  case active =>
    intro b s hs
    rcases h.active b s hs with ⟨t, ht, heq⟩
    exact ⟨t, hkeep b t ht, heq⟩
  case timers =>
    intro e
    refine (h.timers e).trans ⟨?_, ?_⟩
    · rintro ⟨t, ht, hexp, hact⟩
      exact ⟨t, hkeep _ t ht, hexp, hact⟩
    · rintro ⟨t, ht, hexp, hact⟩
      refine ⟨t, hold _ t ht ?_, hexp, hact⟩
      intro heq
      exact hnotActive t.sequence_ (heq ▸ hact)
  case toAdd_nodup =>
    refine h.toAdd_nodup.append (List.nodup_singleton a) ?_
    simpa using hnotAdd
  case added =>
    intro b hb
    rcases List.mem_append.1 hb with hb | hb
    · rcases h.added b hb with ⟨t, ht, hrest⟩
      exact ⟨t, hkeep b t ht, hrest⟩
    · rcases List.mem_singleton.1 hb with rfl
      exact ⟨_, hself, hnotActive _, hnotBatch⟩
  case batch_nodup => exact h.batch_nodup
  case batched =>
    intro e he
    rcases h.batched e he with ⟨t, ht, hrest⟩
    exact ⟨t, hkeep _ t ht, hrest⟩
  case inHand => simp
  case live =>
    intro b t hb
    by_cases hba : b = a
    · exact Or.inl (List.mem_append.2 (Or.inr (List.mem_singleton.2 hba)))
    · rcases h.live b t (hold b t hb hba) with hl | hl | hl | hl
      · exact Or.inl (List.mem_append.2 (Or.inl hl))
      · exact Or.inr (Or.inl hl)
      · exact Or.inr (Or.inr (Or.inl hl))
      · simp at hl
  case freed_nodup => exact h.freed_nodup
  case freed_dead =>
    intro s hs
    rcases h.freed_dead s hs with ⟨hle, hdead⟩
    refine ⟨Nat.le_succ_of_le hle, ?_⟩
    intro b t hb
    by_cases hba : b = a
    · subst hba
      rw [hnew t hb]
      omega
    · exact hdead b t (hold b t hb hba)

/-- A queued timer comes into `addTimerInLoop`'s hand. -/
theorem take_added (h : q.Owned none) {a : Address} (ha : a ∈ q.toAdd) :
    ({ q with toAdd := q.toAdd.erase a }).Owned (some a) :=
  { h with
    toAdd_nodup := h.toAdd_nodup.erase a
    added := fun b hb => h.added b (List.mem_of_mem_erase hb)
    inHand := by
      rintro b ⟨⟩
      rcases h.added a ha with ⟨t, ht, hact, hbat⟩
      exact ⟨t, ht, hact, h.toAdd_nodup.not_mem_erase, hbat⟩
    live := by
      intro b t hb
      rcases h.live b t hb with hl | hl | hl | hl
      · by_cases hba : b = a
        · exact Or.inr (Or.inr (Or.inr (by rw [hba])))
        · exact Or.inl ((List.mem_erase_of_ne hba).2 hl)
      · exact Or.inr (Or.inl hl)
      · exact Or.inr (Or.inr (Or.inl hl))
      · simp at hl }

/-- The first timer of the batch comes into `reset`'s hand. -/
theorem take_expired (h : q.Owned none) {e : Entry} {es : List Entry} (he : q.expired = e :: es) :
    ({ q with expired := es }).Owned (some e.timer) := by
  have hbatch : q.batch = e.timer :: es.map Entry.timer := by simp [batch, he]
  have hnodup := h.batch_nodup
  rw [hbatch, List.nodup_cons] at hnodup
  exact
    { h with
      added := by
        intro a ha
        rcases h.added a ha with ⟨t, ht, hact, hbat⟩
        rw [hbatch] at hbat
        exact ⟨t, ht, hact, fun hm => hbat (List.mem_cons_of_mem _ hm)⟩
      batch_nodup := hnodup.2
      batched := fun f hf => h.batched f (by rw [he]; exact List.mem_cons_of_mem _ hf)
      inHand := by
        rintro a ⟨⟩
        obtain ⟨t, ht, -, hact⟩ := h.batched e (by rw [he]; exact List.mem_cons_self)
        refine ⟨t, ht, hact, ?_, hnodup.1⟩
        intro ha
        rcases h.added _ ha with ⟨-, -, -, hbat⟩
        exact hbat (by rw [hbatch]; exact List.mem_cons_self)
      live := by
        intro a t ha
        rcases h.live a t ha with hl | hl | hl | hl
        · exact Or.inl hl
        · exact Or.inr (Or.inl hl)
        · rw [hbatch] at hl
          rcases List.mem_cons.1 hl with hl | hl
          · exact Or.inr (Or.inr (Or.inr (by rw [hl])))
          · exact Or.inr (Or.inr (Or.inl hl))
        · simp at hl }

/-- An active timer leaves both sets and comes into `cancelInLoop`'s hand. -/
theorem take_active (h : q.Owned none) {a : Address} {t : Timer S} (ht : q.heap a = some t)
    (ha : (a, t.sequence_) ∈ q.activeTimers_) :
    ({ q with
      timers_ := q.timers_.erase (t.entry a)
      activeTimers_ := q.activeTimers_.erase (a, t.sequence_) }).Owned (some a) := by
  have hlook : ∀ b u, q.heap b = some u → (b, u.sequence_) ≠ (a, t.sequence_) → b ≠ a := by
    rintro b u hb hne rfl
    rw [ht] at hb
    cases hb
    exact hne rfl
  exact
    { h with
      active := fun b s hs => h.active b s (Finset.mem_of_mem_erase hs)
      timers := by
        intro e
        rw [Finset.mem_erase, h.timers e]
        constructor
        · rintro ⟨hne, u, hu, hexp, hact⟩
          refine ⟨u, hu, hexp, Finset.mem_erase.2 ⟨?_, hact⟩⟩
          -- an entry of the erased pair is the erased entry, by the object behind it
          intro heq
          have htimer : e.timer = a := congrArg Prod.fst heq
          rw [htimer, ht] at hu
          cases hu
          apply hne
          cases e
          simp_all [Timer.entry]
        · rintro ⟨u, hu, hexp, hact⟩
          rcases Finset.mem_erase.1 hact with ⟨hne, hact⟩
          refine ⟨?_, u, hu, hexp, hact⟩
          rintro rfl
          exact hlook _ u hu hne rfl
      added := by
        intro b hb
        rcases h.added b hb with ⟨u, hu, hact, hbat⟩
        exact ⟨u, hu, fun hm => hact (Finset.mem_of_mem_erase hm), hbat⟩
      batched := by
        intro e he
        rcases h.batched e he with ⟨u, hu, hexp, hact⟩
        exact ⟨u, hu, hexp, fun hm => hact (Finset.mem_of_mem_erase hm)⟩
      inHand := by
        rintro b ⟨⟩
        exact ⟨t, ht, Finset.notMem_erase _ _, h.not_elsewhere ht ha⟩
      live := by
        intro b u hb
        rcases h.live b u hb with hl | hl | hl | hl
        · exact Or.inl hl
        · by_cases hba : b = a
          · exact Or.inr (Or.inr (Or.inr (by rw [hba])))
          · refine Or.inr (Or.inl (Finset.mem_erase.2 ⟨?_, hl⟩))
            intro heq
            exact hba (congrArg Prod.fst heq)
        · exact Or.inr (Or.inr (Or.inl hl))
        · simp at hl }

/-- The timer in hand is active under no number: an active pair carries the number of the live
object. -/
theorem not_active {a : Address} (h : q.Owned (some a)) (s : Nat) : (a, s) ∉ q.activeTimers_ := by
  intro hs
  rcases h.inHand a rfl with ⟨t, ht, hact, -⟩
  rcases h.active a s hs with ⟨u, hu, rfl⟩
  rw [ht] at hu
  cases hu
  exact hact hs

/-- `insert` puts the timer in hand into both sets. -/
theorem insert {a : Address} (h : q.Owned (some a)) :
    ∃ t, q.heap a = some t ∧
      q.insert a = some (q.earliestChanged t.expiration_, q.inserted a t) ∧
      (q.inserted a t).Owned none := by
  rcases h.inHand a rfl with ⟨t, ht, hact, hadd, hbat⟩
  have hnot : t.entry a ∉ q.timers_ := by
    intro hm
    rcases (h.timers _).1 hm with ⟨u, hu, -, hact'⟩
    rw [Timer.entry, ht] at hu
    cases hu
    exact hact hact'
  have howned : (q.inserted a t).Owned none :=
    { h with
      active := by
        intro b s hs
        rcases Finset.mem_insert.1 hs with heq | hs
        · cases heq
          exact ⟨t, ht, rfl⟩
        · exact h.active b s hs
      timers := by
        intro e
        refine Finset.mem_insert.trans ?_
        rw [h.timers e]
        constructor
        · rintro (rfl | ⟨u, hu, hexp, hact'⟩)
          · exact ⟨t, ht, rfl, Finset.mem_insert_self _ _⟩
          · exact ⟨u, hu, hexp, Finset.mem_insert_of_mem hact'⟩
        · rintro ⟨u, hu, hexp, hact'⟩
          -- the pair decides the object and the object the expiration, hence the entry
          rcases Finset.mem_insert.1 hact' with heq | hold
          · have htimer : e.timer = a := congrArg Prod.fst heq
            rw [htimer] at hu
            obtain rfl : t = u := Option.some.inj (ht.symm.trans hu)
            refine Or.inl ?_
            cases e
            simp_all [Timer.entry]
          · exact Or.inr ⟨u, hu, hexp, hold⟩
      added := by
        intro b hb
        rcases h.added b hb with ⟨u, hu, hact', hbat'⟩
        refine ⟨u, hu, ?_, hbat'⟩
        intro hm
        rcases Finset.mem_insert.1 hm with heq | hold
        · have hba : b = a := congrArg Prod.fst heq
          exact hadd (hba ▸ hb)
        · exact hact' hold
      batched := by
        intro e he
        rcases h.batched e he with ⟨u, hu, hexp, hact'⟩
        refine ⟨u, hu, hexp, ?_⟩
        intro hm
        rcases Finset.mem_insert.1 hm with heq | hold
        · have hba : e.timer = a := congrArg Prod.fst heq
          exact hbat (hba ▸ List.mem_map_of_mem he)
        · exact hact' hold
      inHand := by simp
      live := by
        intro b u hb
        rcases h.live b u hb with hl | hl | hl | hl
        · exact Or.inl hl
        · exact Or.inr (Or.inl (Finset.mem_insert_of_mem hl))
        · exact Or.inr (Or.inr (Or.inl hl))
        · cases hl
          obtain rfl : t = u := Option.some.inj (ht.symm.trans hb)
          exact Or.inr (Or.inl (Finset.mem_insert_self _ _)) }
  refine ⟨t, ht, ?_, howned⟩
  simp [TimerQueue.insert, check_of h.sizesAgree, ht, check_of hnot, check_of hact,
    check_of howned.sizesAgree]

/-! The two sets, the queue and the batch do not see the object in hand: whatever is written at its
address, they have the objects they had. -/

section OffHand

variable {a : Address} {heap : Address → Option (Timer S)}

theorem active_off (h : q.Owned (some a)) (hoff : ∀ b, b ≠ a → heap b = q.heap b) :
    ∀ b s, (b, s) ∈ q.activeTimers_ → ∃ t, heap b = some t ∧ t.sequence_ = s := by
  intro b s hs
  rcases h.active b s hs with ⟨t, ht, heq⟩
  have hb : b ≠ a := by
    rintro rfl
    exact h.not_active s hs
  exact ⟨t, (hoff b hb).trans ht, heq⟩

theorem timers_off (h : q.Owned (some a)) (hoff : ∀ b, b ≠ a → heap b = q.heap b) (e : Entry) :
    e ∈ q.timers_ ↔ ∃ t, heap e.timer = some t ∧ t.expiration_ = e.when ∧
      (e.timer, t.sequence_) ∈ q.activeTimers_ := by
  have hne : ∀ s, (e.timer, s) ∈ q.activeTimers_ → e.timer ≠ a := by
    intro s hs heq
    exact h.not_active s (heq ▸ hs)
  refine (h.timers e).trans ⟨?_, ?_⟩
  · rintro ⟨t, ht, hexp, hact⟩
    exact ⟨t, (hoff _ (hne _ hact)).trans ht, hexp, hact⟩
  · rintro ⟨t, ht, hexp, hact⟩
    exact ⟨t, (hoff _ (hne _ hact)).symm.trans ht, hexp, hact⟩

theorem added_off (h : q.Owned (some a)) (hoff : ∀ b, b ≠ a → heap b = q.heap b) :
    ∀ b ∈ q.toAdd, ∃ t, heap b = some t ∧ (b, t.sequence_) ∉ q.activeTimers_ ∧ b ∉ q.batch := by
  intro b hb
  rcases h.added b hb with ⟨t, ht, hrest⟩
  rcases h.inHand a rfl with ⟨-, -, -, hadd, -⟩
  have hne : b ≠ a := fun heq => hadd (heq ▸ hb)
  exact ⟨t, (hoff b hne).trans ht, hrest⟩

theorem batched_off (h : q.Owned (some a)) (hoff : ∀ b, b ≠ a → heap b = q.heap b) :
    ∀ e ∈ q.expired, ∃ t, heap e.timer = some t ∧ t.expiration_ = e.when ∧
      (e.timer, t.sequence_) ∉ q.activeTimers_ := by
  intro e he
  rcases h.batched e he with ⟨t, ht, hrest⟩
  rcases h.inHand a rfl with ⟨-, -, -, -, hbat⟩
  have hne : e.timer ≠ a := fun heq => hbat (heq ▸ List.mem_map_of_mem he)
  exact ⟨t, (hoff _ hne).trans ht, hrest⟩

end OffHand

/-- `delete` frees the timer in hand. -/
theorem delete {a : Address} (h : q.Owned (some a)) :
    ∃ t, q.heap a = some t ∧
      q.delete a = some (q.deleted a t) ∧ (q.deleted a t).Owned none := by
  rcases h.inHand a rfl with ⟨t, ht, -⟩
  refine ⟨t, ht, by simp [TimerQueue.delete, ht], ?_⟩
  have hold : ∀ b u, Function.update q.heap a none b = some u → b ≠ a ∧ q.heap b = some u := by
    intro b u hb
    by_cases hba : b = a
    · subst hba
      simp at hb
    · rw [Function.update_of_ne hba] at hb
      exact ⟨hba, hb⟩
  have hoff : ∀ b, b ≠ a → Function.update q.heap a none b = q.heap b :=
    fun b hba => Function.update_of_ne hba _ _
  exact
    { h with
      bound := fun b u hb => h.bound b u (hold b u hb).2
      unique := fun b c u v hb hc => h.unique b c u v (hold b u hb).2 (hold c v hc).2
      active := h.active_off hoff
      timers := h.timers_off hoff
      added := h.added_off hoff
      batched := h.batched_off hoff
      inHand := by simp
      live := by
        intro b u hb
        rcases hold b u hb with ⟨hba, hb⟩
        rcases h.live b u hb with hl | hl | hl | hl
        · exact Or.inl hl
        · exact Or.inr (Or.inl hl)
        · exact Or.inr (Or.inr (Or.inl hl))
        · exact absurd (Option.some.inj hl).symm hba
      freed_nodup := by
        refine h.freed_nodup.append (List.nodup_singleton _) ?_
        intro s hs hs'
        rcases List.mem_singleton.1 hs' with rfl
        exact (h.freed_dead _ hs).2 a t ht rfl
      freed_dead := by
        intro s hs
        rcases List.mem_append.1 hs with hs | hs
        · rcases h.freed_dead s hs with ⟨hle, hdead⟩
          exact ⟨hle, fun b u hb => hdead b u (hold b u hb).2⟩
        · rcases List.mem_singleton.1 hs with rfl
          refine ⟨(h.bound a t ht).2, ?_⟩
          intro b u hb heq
          rcases hold b u hb with ⟨hba, hb⟩
          -- a live object with the freed number would share it with the object just deleted
          exact hba (h.unique b a u t hb ht heq) }

/-- `restart` changes only the timer in hand. -/
theorem restart [Seconds S] {a : Address} {t : Timer S} (h : q.Owned (some a))
    (ht : q.heap a = some t) (now : Timestamp) :
    ({ q with heap := Function.update q.heap a (some (t.restart now)) }).Owned (some a) := by
  rcases h.inHand a rfl with ⟨t', ht', hact, hadd, hbat⟩
  rw [ht] at ht'
  cases ht'
  have hseq : (t.restart now).sequence_ = t.sequence_ := by
    unfold Timer.restart
    split <;> rfl
  -- every live object is the old one up to the expiration of the one in hand
  have hold : ∀ b u, Function.update q.heap a (some (t.restart now)) b = some u →
      ∃ v, q.heap b = some v ∧ v.sequence_ = u.sequence_ ∧ (b ≠ a → v = u) := by
    intro b u hb
    by_cases hba : b = a
    · subst hba
      rw [Function.update_self] at hb
      cases hb
      exact ⟨t, ht, hseq.symm, fun hne => absurd rfl hne⟩
    · rw [Function.update_of_ne hba] at hb
      exact ⟨u, hb, rfl, fun _ => rfl⟩
  have hoff : ∀ b, b ≠ a → Function.update q.heap a (some (t.restart now)) b = q.heap b :=
    fun b hba => Function.update_of_ne hba _ _
  exact
    { h with
      bound := by
        intro b u hb
        rcases hold b u hb with ⟨v, hv, heq, -⟩
        exact heq ▸ h.bound b v hv
      unique := by
        intro b c u v hb hc heq
        rcases hold b u hb with ⟨u', hu', hu, -⟩
        rcases hold c v hc with ⟨v', hv', hv, -⟩
        exact h.unique b c u' v' hu' hv' (by rw [hu, hv, heq])
      active := h.active_off hoff
      timers := h.timers_off hoff
      added := h.added_off hoff
      batched := h.batched_off hoff
      inHand := by
        rintro b ⟨⟩
        exact ⟨t.restart now, Function.update_self _ _ _, by rwa [hseq], hadd, hbat⟩
      live := by
        intro b u hb
        rcases hold b u hb with ⟨v, hv, heq, -⟩
        rw [← heq]
        exact h.live b v hv
      freed_dead := by
        intro s hs
        rcases h.freed_dead s hs with ⟨hle, hdead⟩
        refine ⟨hle, ?_⟩
        intro b u hb
        rcases hold b u hb with ⟨v, hv, heq, -⟩
        exact heq ▸ hdead b v hv }

/-! ## The functions of the queue -/

theorem addTimerInLoop (h : q.Owned none) {a : Address} (ha : a ∈ q.toAdd) (clock : Timestamp) :
    ∃ t fd, q.heap a = some t ∧
      q.addTimerInLoop a clock = some { ({ q with toAdd := q.toAdd.erase a }).inserted a t with
        timerfd_ := fd } ∧
      ({ ({ q with toAdd := q.toAdd.erase a }).inserted a t with timerfd_ := fd }).Owned none := by
  rcases (h.take_added ha).insert with ⟨t, ht, heq, howned⟩
  have ht' : (({ q with toAdd := q.toAdd.erase a }).inserted a t).heap a = some t := ht
  by_cases hc : ({ q with toAdd := q.toAdd.erase a }).earliestChanged t.expiration_ = true
  · refine ⟨t, some ⟨clock, howMuchTimeFromNow t.expiration_ clock⟩, ht, ?_, { howned with }⟩
    simp [TimerQueue.addTimerInLoop, heq, ht', hc, resetTimerfd]
  · refine ⟨t, q.timerfd_, ht, ?_, { howned with }⟩
    simp [TimerQueue.addTimerInLoop, heq, ht', hc]
    rfl

/-- Cancelling an active timer deletes it; any other id changes nothing but the canceling set. -/
theorem cancelInLoop (h : q.Owned none) (id : ActiveTimer) :
    ∃ q', q.cancelInLoop id = some q' ∧ q'.Owned none ∧
      ((∃ t, q.heap id.1 = some t ∧ t.sequence_ = id.2 ∧ id ∈ q.activeTimers_ ∧
        q' = ({ q with
          timers_ := q.timers_.erase (t.entry id.1)
          activeTimers_ := q.activeTimers_.erase id }).deleted id.1 t) ∨
        id ∉ q.activeTimers_ ∧ q' = q.cancelExpired id) := by
  rcases id with ⟨a, s⟩
  by_cases hid : (a, s) ∈ q.activeTimers_
  · rcases h.active a s hid with ⟨t, ht, rfl⟩
    rcases (h.take_active ht hid).delete with ⟨t', ht', -, howned⟩
    obtain rfl : t = t' := Option.some.inj (ht.symm.trans ht')
    have hmem : t.entry a ∈ q.timers_ := (h.timers _).2 ⟨t, ht, rfl, hid⟩
    have hcancel : q.cancelActive (a, t.sequence_) = some (({ q with
        timers_ := q.timers_.erase (t.entry a)
        activeTimers_ := q.activeTimers_.erase (a, t.sequence_) }).deleted a t) := by
      simp [cancelActive, ht, check_of hmem, TimerQueue.delete]
      rfl
    refine ⟨_, ?_, howned, Or.inl ⟨t, ht, rfl, hid, rfl⟩⟩
    simp [TimerQueue.cancelInLoop, check_of h.sizesAgree, hid, hcancel,
      check_of howned.sizesAgree]
  · have howned : (q.cancelExpired (a, s)).Owned none := by
      unfold cancelExpired
      split
      · exact { h with }
      · exact h
    refine ⟨_, ?_, howned, Or.inr ⟨hid, rfl⟩⟩
    simp [TimerQueue.cancelInLoop, check_of h.sizesAgree, hid, check_of howned.sizesAgree]

end Owned

/-- The loop of `getExpired` in closed form, when every entry is an active timer's. -/
theorem eraseActive_eq {q : TimerQueue S} {es : List Entry}
    (hactive : ∀ a s, (a, s) ∈ q.activeTimers_ → ∃ t, q.heap a = some t ∧ t.sequence_ = s)
    (hes : ∀ e ∈ es, ∃ t, q.heap e.timer = some t ∧ (e.timer, t.sequence_) ∈ q.activeTimers_)
    (hnodup : (es.map Entry.timer).Nodup) :
    q.eraseActive es = some { q with
      activeTimers_ := q.activeTimers_.filter (fun p => p.1 ∉ es.map Entry.timer) } := by
  induction es generalizing q with
  | nil => simp [eraseActive]
  | cons e es ih =>
      rcases hes e List.mem_cons_self with ⟨t, ht, hact⟩
      rw [List.map_cons, List.nodup_cons] at hnodup
      have hstep : q.eraseActive (e :: es) = ({ q with
          activeTimers_ := q.activeTimers_.erase (e.timer, t.sequence_) }).eraseActive es := by
        simp [eraseActive, ht, check_of hact]
      rw [hstep, ih ?_ ?_ hnodup.2]
      · congr 2
        ext p
        rcases p with ⟨a, s⟩
        simp only [Finset.mem_filter, Finset.mem_erase, List.map_cons, List.mem_cons, not_or]
        constructor
        -- erasing one pair erases the address: no other active pair has it
        · rintro ⟨⟨hne, hp⟩, hnot⟩
          refine ⟨hp, ?_, hnot⟩
          rintro rfl
          rcases hactive _ _ hp with ⟨u, hu, rfl⟩
          rw [ht] at hu
          cases hu
          exact hne rfl
        · rintro ⟨hp, hne, hnot⟩
          refine ⟨⟨?_, hp⟩, hnot⟩
          intro heq
          exact hne (congrArg Prod.fst heq)
      · exact fun a s hs => hactive a s (Finset.mem_of_mem_erase hs)
      · intro f hf
        rcases hes f (List.mem_cons_of_mem _ hf) with ⟨u, hu, hact'⟩
        refine ⟨u, hu, Finset.mem_erase.2 ⟨?_, hact'⟩⟩
        intro heq
        have htimer : f.timer = e.timer := congrArg Prod.fst heq
        exact hnodup.1 (htimer ▸ List.mem_map_of_mem hf)

/-- The queue after `getExpired`. -/
def afterExpiry (q : TimerQueue S) (now : Timestamp) : TimerQueue S :=
  { q with
    timers_ := atLeast q.timers_ ⟨now, UINTPTR_MAX⟩
    expired := below q.timers_ ⟨now, UINTPTR_MAX⟩
    activeTimers_ := q.activeTimers_.filter
      (fun p => p.1 ∉ (below q.timers_ ⟨now, UINTPTR_MAX⟩).map Entry.timer) }

namespace Owned

variable {q : TimerQueue S}

theorem lt_sentry (h : q.Owned none) {e : Entry} (he : e ∈ q.timers_) (now : Timestamp) :
    e < ⟨now, UINTPTR_MAX⟩ ↔ e.when ≤ now := by
  rcases (h.timers e).1 he with ⟨t, ht, -⟩
  have hmax := (h.bound _ t ht).1
  rw [Entry.lt_iff]
  constructor
  · rintro (hlt | ⟨heq, -⟩)
    · exact le_of_lt hlt
    · exact le_of_eq heq
  · intro hle
    rcases lt_or_eq_of_le hle with hlt | heq
    · exact Or.inl hlt
    · exact Or.inr ⟨heq, hmax⟩

theorem nodup_expiring (h : q.Owned none) (now : Timestamp) :
    ((below q.timers_ ⟨now, UINTPTR_MAX⟩).map Entry.timer).Nodup := by
  refine List.Nodup.map_on ?_ (nodup_below _ _)
  intro e he f hf heq
  exact h.entry_eq (mem_below.1 he).1 (mem_below.1 hf).1 heq

theorem afterExpiry (h : q.Owned none) (hidle : q.expired = []) (now : Timestamp) :
    (q.afterExpiry now).Owned none := by
  have hbatch : ∀ a, a ∈ (q.afterExpiry now).batch ↔
      ∃ e ∈ q.timers_, e < ⟨now, UINTPTR_MAX⟩ ∧ e.timer = a := by
    intro a
    simp only [batch, TimerQueue.afterExpiry, List.mem_map, mem_below]
    constructor
    · rintro ⟨e, ⟨he, hlt⟩, rfl⟩
      exact ⟨e, he, hlt, rfl⟩
    · rintro ⟨e, he, hlt, rfl⟩
      exact ⟨e, ⟨he, hlt⟩, rfl⟩
  have hactive : ∀ p, p ∈ (q.afterExpiry now).activeTimers_ ↔
      p ∈ q.activeTimers_ ∧ p.1 ∉ (q.afterExpiry now).batch := fun _ => Finset.mem_filter
  exact
    { h with
      active := fun a s hs => h.active a s ((hactive _).1 hs).1
      timers := by
        intro e
        refine mem_atLeast.trans ⟨?_, ?_⟩
        · rintro ⟨he, hle⟩
          rcases (h.timers e).1 he with ⟨t, ht, hexp, hact⟩
          refine ⟨t, ht, hexp, (hactive _).2 ⟨hact, ?_⟩⟩
          rw [hbatch]
          -- an address has one entry, so what expires is not among what is left
          rintro ⟨f, hf, hlt, heq⟩
          rw [h.entry_eq hf he heq] at hlt
          exact absurd hlt (not_lt.2 hle)
        · rintro ⟨t, ht, hexp, hact⟩
          rcases (hactive _).1 hact with ⟨hact, hnot⟩
          have he : e ∈ q.timers_ := (h.timers e).2 ⟨t, ht, hexp, hact⟩
          refine ⟨he, not_lt.1 ?_⟩
          intro hlt
          exact hnot ((hbatch _).2 ⟨e, he, hlt, rfl⟩)
      added := by
        intro a ha
        rcases h.added a ha with ⟨t, ht, hact, -⟩
        refine ⟨t, ht, fun hm => hact ((hactive _).1 hm).1, ?_⟩
        rw [hbatch]
        rintro ⟨e, he, -, rfl⟩
        rcases (h.timers e).1 he with ⟨u, hu, -, hact'⟩
        rw [ht] at hu
        cases hu
        exact hact hact'
      batch_nodup := h.nodup_expiring now
      batched := by
        intro e he
        rcases mem_below.1 he with ⟨he, hlt⟩
        rcases (h.timers e).1 he with ⟨t, ht, hexp, -⟩
        refine ⟨t, ht, hexp, ?_⟩
        intro hm
        exact ((hactive _).1 hm).2 ((hbatch _).2 ⟨e, he, hlt, rfl⟩)
      inHand := by simp
      live := by
        intro a t ha
        rcases h.live a t ha with hl | hl | hl | hl
        · exact Or.inl hl
        · by_cases hb : a ∈ (q.afterExpiry now).batch
          · exact Or.inr (Or.inr (Or.inl hb))
          · exact Or.inr (Or.inl ((hactive _).2 ⟨hl, hb⟩))
        · simp [batch, hidle] at hl
        · simp at hl }

theorem getExpired (h : q.Owned none) (hidle : q.expired = []) (now : Timestamp) :
    q.getExpired now = some (q.afterExpiry now) := by
  -- each expired entry belongs to an active timer, so every `assert(n == 1)` holds
  have herase : ({ q with
      timers_ := atLeast q.timers_ ⟨now, UINTPTR_MAX⟩
      expired := below q.timers_ ⟨now, UINTPTR_MAX⟩ }).eraseActive
        (below q.timers_ ⟨now, UINTPTR_MAX⟩) = some (q.afterExpiry now) := by
    refine eraseActive_eq h.active ?_ (h.nodup_expiring now)
    intro e he
    rcases (h.timers e).1 (mem_below.1 he).1 with ⟨t, ht, -, hact⟩
    exact ⟨t, ht, hact⟩
  -- `assert(end == timers_.end() || now < end->first)`
  have hend : ∀ e ∈ first? (atLeast q.timers_ ⟨now, UINTPTR_MAX⟩), now < e.when := by
    intro e he
    rcases mem_atLeast.1 (mem_of_first? he) with ⟨he, hle⟩
    rwa [← not_lt, h.lt_sentry he, not_le] at hle
  simp only [TimerQueue.getExpired, check_of h.sizesAgree, check_of hend, herase,
    check_of (h.afterExpiry hidle now).sizesAgree, Option.bind_eq_bind, Option.bind_some]
  rfl

/-! ## Reset -/

variable [Seconds S]

/-- One round of `reset`'s loop: the timer goes back into the sets or is deleted. -/
theorem resetOne {e : Entry} (h : q.Owned (some e.timer)) :
    ∃ q', q.resetOne e = some q' ∧ q'.Owned none ∧
      (∃ heap timers active freed, q' = { q with
        heap := heap, timers_ := timers, activeTimers_ := active, freed := freed }) ∧
      ∀ a t, q'.heap a = some t → t.repeat_ = false → q.heap a = some t ∧ a ≠ e.timer := by
  rcases h.inHand e.timer rfl with ⟨t, ht, -⟩
  by_cases hrep : t.repeat_ = true ∧ (e.timer, t.sequence_) ∉ q.cancelingTimers_
  · rcases (h.restart ht q.now).insert with ⟨u, hu, heq, howned⟩
    refine ⟨_, ?_, howned, ⟨_, _, _, _, rfl⟩, ?_⟩
    · simp [TimerQueue.resetOne, ht, hrep, heq]
    · intro a v ha hv
      have ha' : Function.update q.heap e.timer (some (t.restart q.now)) a = some v := ha
      by_cases hae : a = e.timer
      · subst hae
        rw [Function.update_self] at ha'
        cases ha'
        -- what was restarted still repeats
        simp [Timer.restart, hrep.1] at hv
      · rw [Function.update_of_ne hae] at ha'
        exact ⟨ha', hae⟩
  · rcases h.delete with ⟨u, hu, heq, howned⟩
    refine ⟨_, ?_, howned, ⟨_, _, _, _, rfl⟩, ?_⟩
    · simp only [TimerQueue.resetOne, ht, Option.bind_eq_bind, Option.bind_some, if_neg hrep, heq]
    · intro a v ha _
      have ha' : Function.update q.heap e.timer none a = some v := ha
      by_cases hae : a = e.timer
      · subst hae
        simp at ha'
      · rw [Function.update_of_ne hae] at ha'
        exact ⟨ha', hae⟩

theorem resetAll {es : List Entry} (h : q.Owned none) (hes : q.expired = es) :
    ∃ q', q.resetAll es = some q' ∧ q'.Owned none ∧
      (∃ heap timers active freed, q' = { q with
        heap := heap, timers_ := timers, activeTimers_ := active, freed := freed
        expired := [] }) ∧
      ∀ a t, q'.heap a = some t → t.repeat_ = false → q.heap a = some t ∧ a ∉ es.map Entry.timer := by
  induction es generalizing q with
  | nil =>
      refine ⟨q, rfl, h, ⟨q.heap, q.timers_, q.activeTimers_, q.freed, ?_⟩, ?_⟩
      · rw [← hes]
      · intro a t ha _
        exact ⟨ha, by simp⟩
  | cons e es ih =>
      obtain ⟨q₁, heq, h₁, ⟨heap₁, timers₁, active₁, freed₁, hq₁⟩, hone₁⟩ :=
        (h.take_expired hes).resetOne
      obtain ⟨q₂, heq₂, h₂, ⟨heap₂, timers₂, active₂, freed₂, hq₂⟩, hone₂⟩ :=
        ih h₁ (by rw [hq₁])
      refine ⟨q₂, ?_, h₂, ⟨heap₂, timers₂, active₂, freed₂, ?_⟩, ?_⟩
      · simp [TimerQueue.resetAll, heq, heq₂]
      · rw [hq₂, hq₁]
      · intro a t ha hrep
        rcases hone₂ a t ha hrep with ⟨ha₁, hnot⟩
        rcases hone₁ a t ha₁ hrep with ⟨ha₀, hne⟩
        refine ⟨ha₀, ?_⟩
        simp only [List.map_cons, List.mem_cons, not_or]
        exact ⟨hne, hnot⟩

end Owned
end TimerQueue
end Net
end Longky
