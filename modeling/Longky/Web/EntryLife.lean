import Longky.Web.IdleWheel

/-!
# EntryLife — how long an entry of the timing wheel lives

The events of the wheels in any order: connections come up and go, get messages while they have an
entry or after it, are shut down, and `onTimer` is called.  For each connection the calls of `onTimer`
since its entry was last inserted are counted, and the runs of its destructor are recorded.

`entries_expire`: an entry is alive exactly when the count is below the number of buckets; its
destructor runs at the tick that reaches this number, once, and closes a connection that is still
connected; and no later event brings the entry back.
-/

namespace Longky
namespace Web

open Lib

/-- What happens to the wheels, and a connection that is shut down or closed for another reason while
it is connected. -/
inductive EntryEvent (L : Nat) where
  | wheel (e : WheelEvent L)
  | shutdown (c : ConnId)

/-- The wheels with a record of each connection's entry. -/
structure EntryLife (L : Nat) extends IdleWheel L where
  /-- The calls of `onTimer` since the entry was last inserted, if there has been one. -/
  since : ConnId → Option Nat
  /-- The runs of `~Entry`, and whether each called `forceClose`. -/
  ended : ConnId → List Bool

namespace EntryLife

open IdleWheel

variable {L : Nat}

def start (cfg : WheelConfig L) : EntryLife L where
  toIdleWheel := IdleWheel.start cfg
  since := fun _ => none
  ended := fun _ => []

/-- Turning the wheels drops the last bucket that holds the entry of `c`. -/
def Destroyed (m : WheelMap L) (c : ConnId) : Prop := Alive m c ∧ ¬ Alive (pushAll m) c

instance (m : WheelMap L) (c : ConnId) : Decidable (Destroyed m c) :=
  inferInstanceAs (Decidable (_ ∧ _))

/-- The entry is inserted by `onConnection`, unless the connection is refused. -/
def onConnection (s : EntryLife L) (cfg : WheelConfig L) (c : ConnId) : EntryLife L :=
  let w := s.toIdleWheel.onConnection cfg c
  { s with
    toIdleWheel := w
    since := if w.state c = .connected then Function.update s.since c (some 0) else s.since }

/-- The entry is inserted by `onMessage` if it still exists. -/
def onMessage (s : EntryLife L) (cfg : WheelConfig L) (c : ConnId) : EntryLife L :=
  { s with
    toIdleWheel := s.toIdleWheel.onMessage cfg c
    since := if Alive s.map_ c then Function.update s.since c (some 0) else s.since }

def onTimer (s : EntryLife L) (l : Fin L) : EntryLife L where
  toIdleWheel := s.toIdleWheel.onTimer l
  since := fun c => (s.since c).map (· + 1)
  ended := fun c =>
    if Destroyed s.map_ c then s.ended c ++ [decide (s.state c = .connected)] else s.ended c

/-- A connection that was connected is no longer so, and has not gone down yet. -/
def shutdown (s : EntryLife L) (c : ConnId) : EntryLife L :=
  { s with state := if s.state c = .connected then Function.update s.state c .closing else s.state }

/-- A connection comes up once and goes down once; messages are for connections that have had an
entry. -/
def enabled (s : EntryLife L) : EntryEvent L → Prop
  | .wheel (.onConnection c) => s.state c = .fresh
  | .wheel (.onDisconnection c) => s.state c ≠ .fresh ∧ s.state c ≠ .down
  | .wheel (.onMessage c) => s.since c ≠ none
  | .wheel (.onTimer _) => True
  | .shutdown _ => True

def perform (s : EntryLife L) (cfg : WheelConfig L) : EntryEvent L → EntryLife L
  | .wheel (.onConnection c) => s.onConnection cfg c
  | .wheel (.onDisconnection c) => { s with toIdleWheel := s.toIdleWheel.onDisconnection c }
  | .wheel (.onMessage c) => s.onMessage cfg c
  | .wheel (.onTimer l) => s.onTimer l
  | .shutdown c => s.shutdown c

def runs (cfg : WheelConfig L) : System (EntryLife L) (EntryEvent L) where
  init s := s = start cfg
  step s e s' := s.enabled e ∧ s' = s.perform cfg e

/-- The events of the wheels are those of `IdleWheel`. -/
theorem toIdleWheel_perform (s : EntryLife L) (cfg : WheelConfig L) (e : WheelEvent L) :
    (s.perform cfg (.wheel e)).toIdleWheel = s.toIdleWheel.perform cfg e := by
  cases e <;> rfl

/-- The entry has been in the wheel for as many ticks as there are buckets. -/
def Expired (cfg : WheelConfig L) (s : EntryLife L) (c : ConnId) : Prop :=
  ∃ n, s.since c = some n ∧ cfg.idleExpiredTime_ ≤ n

/-! ## Where the entries are -/

/-- An entry is as many places from the back as there were ticks since its last insertion, and no
nearer. -/
structure Placed (cfg : WheelConfig L) (m : WheelMap L) (since : ConnId → Option Nat) : Prop where
  full : ∀ l, (m l).Full
  capacity : ∀ l, (m l).capacity = cfg.idleExpiredTime_
  home : ∀ l k c, InBucket m l k c → l = cfg.getLoop c ∧ ∃ n, since c = some n ∧ n ≤ k
  newest : ∀ c n, since c = some n → n < cfg.idleExpiredTime_ → InBucket m (cfg.getLoop c) n c

namespace Placed

variable {cfg : WheelConfig L} {m : WheelMap L} {since : ConnId → Option Nat}

theorem start (cfg : WheelConfig L) :
    Placed cfg (EntryLife.start cfg).map_ (EntryLife.start cfg).since where
  full := fun l => CircularBuffer.full_resize_empty _
  capacity := fun l => Nat.zero_max _
  home := fun l k c h => absurd h (not_inBucket_start cfg)
  newest := fun c n h => by cases h

theorem alive_iff (h : Placed cfg m since) (c : ConnId) :
    Alive m c ↔ ∃ n, since c = some n ∧ n < cfg.idleExpiredTime_ := by
  rw [IdleWheel.alive_iff]
  constructor
  · rintro ⟨l, k, hin⟩
    have hlt := hin.lt
    rw [h.capacity] at hlt
    rcases (h.home l k c hin).2 with ⟨n, hn, hle⟩
    exact ⟨n, hn, by omega⟩
  · rintro ⟨n, hn, hlt⟩
    exact ⟨_, _, h.newest c n hn hlt⟩

theorem pushAll (h : Placed cfg m since) :
    Placed cfg (pushAll m) (fun c => (since c).map (· + 1)) where
  full := fun l => (h.full l).pushBack
  capacity := h.capacity
  home := by
    intro l k c hin
    rcases inBucket_pushAll.1 hin with ⟨j, rfl, -, hold⟩
    rcases h.home l j c hold with ⟨hhome, n, hn, hle⟩
    exact ⟨hhome, n + 1, by rw [hn]; rfl, by omega⟩
  newest := by
    intro c n hn hlt
    rcases Option.map_eq_some_iff.1 hn with ⟨j, hj, rfl⟩
    refine inBucket_pushAll.2 ⟨j, rfl, ?_, h.newest c j hj (by omega)⟩
    rwa [h.capacity]

/-- The entry of `c` goes into the newest bucket of its loop. -/
theorem insertBack (h : Placed cfg m since) (hN : 1 ≤ cfg.idleExpiredTime_) (c : ConnId) :
    Placed cfg (insertBack m (cfg.getLoop c) c) (Function.update since c (some 0)) := by
  have hpos : (m (cfg.getLoop c)).elements ≠ [] := by
    rw [← List.length_pos_iff, h.full, h.capacity]
    exact hN
  refine { full := full_insertBack h.full c, capacity := ?_, home := ?_, newest := ?_ }
  · intro l
    exact (capacity_insertBack m _ l c).trans (h.capacity l)
  · intro l k c' hin
    by_cases hcc : c' = c
    · subst hcc
      refine ⟨?_, 0, Function.update_self _ _ _, Nat.zero_le k⟩
      rcases (inBucket_insertBack hpos).1 hin with hold | ⟨-, hl, -⟩
      · exact (h.home l k c' hold).1
      · exact hl
    · rw [Function.update_of_ne hcc]
      rcases (inBucket_insertBack hpos).1 hin with hold | ⟨hc, -⟩
      · exact h.home l k c' hold
      · exact absurd hc hcc
  · intro c' n hn hlt
    refine (inBucket_insertBack hpos).2 ?_
    by_cases hcc : c' = c
    · subst hcc
      rw [Function.update_self] at hn
      cases hn
      exact Or.inr ⟨rfl, rfl, rfl⟩
    · rw [Function.update_of_ne hcc] at hn
      exact Or.inl (h.newest c' n hn hlt)

/-- A turn destroys the entries that have been in the wheel for all but one of its ticks. -/
theorem destroyed_iff (h : Placed cfg m since) (hN : 1 ≤ cfg.idleExpiredTime_) (c : ConnId) :
    Destroyed m c ↔ since c = some (cfg.idleExpiredTime_ - 1) := by
  rw [Destroyed, h.alive_iff, h.pushAll.alive_iff]
  cases hsince : since c with
  | none => simp
  | some n =>
      simp only [Option.map_some, Option.some.injEq, exists_eq_left']
      omega

end Placed

/-! ## The record -/

/-- The destructor has run once for an entry that has expired, and not at all for another. -/
structure Inv (cfg : WheelConfig L) (s : EntryLife L) : Prop where
  placed : Placed cfg s.map_ s.since
  fresh : ∀ c, s.since c ≠ none → s.state c ≠ .fresh
  once : ∀ c, Expired cfg s c → ∃ closed, s.ended c = [closed]
  unended : ∀ c, ¬ Expired cfg s c → s.ended c = []

section Steps

variable {cfg : WheelConfig L} {s : EntryLife L} {c : ConnId}

theorem Inv.start (cfg : WheelConfig L) : Inv cfg (start cfg) where
  placed := Placed.start cfg
  fresh := fun c h => absurd rfl h
  once := by
    rintro c ⟨n, hn, -⟩
    cases hn
  unended := fun c _ => rfl

theorem Inv.not_expired_iff (h : Inv cfg s) :
    ¬ Expired cfg s c ↔ s.since c = none ∨ Alive s.map_ c := by
  rw [h.placed.alive_iff, Expired]
  cases s.since c with
  | none => simp
  | some n => simp

/-- The entry of `c` is inserted. -/
theorem Inv.insert (h : Inv cfg s) (hN : 1 ≤ cfg.idleExpiredTime_) (hnot : ¬ Expired cfg s c)
    {w : IdleWheel L} (hmap : w.map_ = insertBack s.map_ (cfg.getLoop c) c)
    (hfresh : ∀ c', w.state c' = .fresh → c' ≠ c ∧ s.state c' = .fresh) :
    Inv cfg { s with toIdleWheel := w, since := Function.update s.since c (some 0) } := by
  have hexpired : ∀ c', Expired cfg
      { s with toIdleWheel := w, since := Function.update s.since c (some 0) } c' ↔
        Expired cfg s c' := by
    intro c'
    unfold Expired
    by_cases hcc : c' = c
    · subst hcc
      refine iff_of_false ?_ hnot
      rintro ⟨n, hn, hle⟩
      change Function.update s.since c' (some 0) c' = some n at hn
      rw [Function.update_self] at hn
      cases hn
      omega
    · simp only [Function.update_of_ne hcc]
  refine { placed := ?_, fresh := ?_, once := ?_, unended := ?_ }
  · change Placed cfg w.map_ _
    rw [hmap]
    exact h.placed.insertBack hN c
  · intro c' hsince hstate
    rcases hfresh c' hstate with ⟨hcc, hold⟩
    refine h.fresh c' ?_ hold
    simpa [Function.update_of_ne hcc] using hsince
  · intro c' hc'
    exact h.once c' ((hexpired c').1 hc')
  · intro c' hc'
    exact h.unended c' fun hold => hc' ((hexpired c').2 hold)

/-- The wheels stay as they are. -/
theorem Inv.keep (h : Inv cfg s) {w : IdleWheel L} (hmap : w.map_ = s.map_)
    (hfresh : ∀ c, w.state c = .fresh → s.state c = .fresh) :
    Inv cfg { s with toIdleWheel := w } where
  placed := by
    change Placed cfg w.map_ _
    rw [hmap]
    exact h.placed
  fresh := fun c hsince hstate => h.fresh c hsince (hfresh c hstate)
  once := h.once
  unended := h.unended

theorem update_ne_fresh {state : ConnId → ConnState} {st : ConnState} (hst : st ≠ .fresh)
    {c' : ConnId} (h : Function.update state c st c' = .fresh) : c' ≠ c ∧ state c' = .fresh := by
  by_cases hcc : c' = c
  · subst hcc
    rw [Function.update_self] at h
    exact absurd h hst
  · rw [Function.update_of_ne hcc] at h
    exact ⟨hcc, h⟩

theorem Inv.onConnection (h : Inv cfg s) (hN : 1 ≤ cfg.idleExpiredTime_)
    (hc : s.state c = .fresh) : Inv cfg (s.onConnection cfg c) := by
  have hnone : s.since c = none := by
    by_contra hsince
    exact h.fresh c hsince hc
  have hnot : ¬ Expired cfg s c := h.not_expired_iff.2 (Or.inl hnone)
  unfold EntryLife.onConnection IdleWheel.onConnection
  dsimp only
  by_cases hlimit : cfg.kmaxConnections_ ≤ s.numConnected_ + 1
  · rw [if_pos hlimit, if_neg (by simp)]
    exact h.keep rfl fun c' hc' => (update_ne_fresh (by decide) hc').2
  · rw [if_neg hlimit, if_pos (Function.update_self _ _ _)]
    exact h.insert hN hnot rfl fun c' hc' => update_ne_fresh (by decide) hc'

theorem Inv.onMessage (h : Inv cfg s) (hN : 1 ≤ cfg.idleExpiredTime_) (hc : s.since c ≠ none) :
    Inv cfg (s.onMessage cfg c) := by
  unfold EntryLife.onMessage IdleWheel.onMessage
  dsimp only
  by_cases halive : Alive s.map_ c
  · rw [if_pos halive, if_pos halive]
    refine h.insert hN (h.not_expired_iff.2 (Or.inr halive)) rfl ?_
    intro c' hc'
    refine ⟨?_, hc'⟩
    rintro rfl
    exact h.fresh c' hc hc'
  · rw [if_neg halive, if_neg halive]
    exact h.keep rfl fun c' hc' => hc'

@[simp] theorem since_onTimer (s : EntryLife L) (l : Fin L) (c : ConnId) :
    (s.onTimer l).since c = (s.since c).map (· + 1) := rfl

@[simp] theorem map_onTimer (s : EntryLife L) (l : Fin L) :
    (s.onTimer l).map_ = pushAll s.map_ := rfl

/-- After a turn the expired entries are those of before and those that the turn destroys. -/
theorem expired_onTimer_iff (hN : 1 ≤ cfg.idleExpiredTime_) (l : Fin L) :
    Expired cfg (s.onTimer l) c ↔
      Expired cfg s c ∨ s.since c = some (cfg.idleExpiredTime_ - 1) := by
  unfold Expired
  rw [since_onTimer]
  cases s.since c with
  | none => simp
  | some n =>
      simp only [Option.map_some, Option.some.injEq, exists_eq_left']
      omega

/-- The destructor runs in a turn for the entries that have been in the wheel for all but one of its
ticks. -/
theorem Inv.ended_onTimer (h : Inv cfg s) (hN : 1 ≤ cfg.idleExpiredTime_) (l : Fin L)
    (c : ConnId) :
    (s.onTimer l).ended c =
      if s.since c = some (cfg.idleExpiredTime_ - 1) then
        s.ended c ++ [decide (s.state c = .connected)]
      else s.ended c :=
  if_congr (h.placed.destroyed_iff hN c) rfl rfl

/-- `forceClose` is called for those of them that are connected. -/
theorem Inv.state_onTimer (h : Inv cfg s) (hN : 1 ≤ cfg.idleExpiredTime_) (l : Fin L)
    (c : ConnId) :
    (s.onTimer l).state c =
      if s.since c = some (cfg.idleExpiredTime_ - 1) ∧ s.state c = .connected then .closing
      else s.state c := by
  refine if_congr ?_ rfl rfl
  rw [← h.placed.destroyed_iff hN c, and_comm]
  rfl

theorem Inv.onTimer (h : Inv cfg s) (hN : 1 ≤ cfg.idleExpiredTime_) (l : Fin L) :
    Inv cfg (s.onTimer l) where
  placed := h.placed.pushAll
  fresh := by
    intro c hsince hstate
    rw [h.state_onTimer hN l] at hstate
    split at hstate
    · cases hstate
    · refine h.fresh c ?_ hstate
      rintro hnone
      rw [since_onTimer, hnone] at hsince
      exact hsince rfl
  once := by
    intro c hexpired
    rw [h.ended_onTimer hN l]
    rcases (expired_onTimer_iff hN l).1 hexpired with hold | hlast
    · rw [if_neg]
      · exact h.once c hold
      · rcases hold with ⟨n, hn, hle⟩
        rw [hn, Option.some.injEq]
        omega
    · have hnot : ¬ Expired cfg s c := by
        rintro ⟨n, hn, hle⟩
        rw [hlast, Option.some.injEq] at hn
        omega
      rw [if_pos hlast, h.unended c hnot]
      exact ⟨_, rfl⟩
  unended := by
    intro c hnot
    rw [expired_onTimer_iff hN l, not_or] at hnot
    rw [h.ended_onTimer hN l, if_neg hnot.2]
    exact h.unended c hnot.1

theorem Inv.perform (h : Inv cfg s) (hN : 1 ≤ cfg.idleExpiredTime_) {e : EntryEvent L}
    (he : s.enabled e) : Inv cfg (s.perform cfg e) := by
  cases e with
  | wheel e =>
      cases e with
      | onConnection c => exact h.onConnection hN he
      | onDisconnection c =>
          exact h.keep rfl fun c' hc' => (update_ne_fresh (by decide) hc').2
      | onMessage c => exact h.onMessage hN he
      | onTimer l => exact h.onTimer hN l
  | shutdown c =>
      refine h.keep rfl fun c' hc' => ?_
      dsimp only at hc'
      split at hc'
      · exact (update_ne_fresh (by decide) hc').2
      · exact hc'

/-- What has expired stays expired, and its destructor does not run again. -/
theorem Inv.expired_perform (h : Inv cfg s) (hN : 1 ≤ cfg.idleExpiredTime_)
    (hexpired : Expired cfg s c) {e : EntryEvent L} (he : s.enabled e) :
    Expired cfg (s.perform cfg e) c ∧ (s.perform cfg e).ended c = s.ended c := by
  have hsince : s.since c ≠ none := by
    rcases hexpired with ⟨n, hn, -⟩
    rw [hn]
    exact Option.some_ne_none n
  have hdead : ¬ Alive s.map_ c := fun halive => h.not_expired_iff.2 (Or.inr halive) hexpired
  cases e with
  | wheel e =>
      cases e with
      | onConnection c' =>
          have hcc : c ≠ c' := by
            rintro rfl
            exact h.fresh c hsince he
          refine ⟨?_, rfl⟩
          unfold Expired EntryLife.perform EntryLife.onConnection
          dsimp only
          split
          · rw [Function.update_of_ne hcc]
            exact hexpired
          · exact hexpired
      | onDisconnection c' => exact ⟨hexpired, rfl⟩
      | onMessage c' =>
          refine ⟨?_, rfl⟩
          unfold Expired EntryLife.perform EntryLife.onMessage
          dsimp only
          split
          · rename_i halive
            have hcc : c ≠ c' := by
              rintro rfl
              exact hdead halive
            rw [Function.update_of_ne hcc]
            exact hexpired
          · exact hexpired
      | onTimer l =>
          refine ⟨(expired_onTimer_iff hN l).2 (Or.inl hexpired), ?_⟩
          change (s.onTimer l).ended c = _
          rw [h.ended_onTimer hN l, if_neg]
          rcases hexpired with ⟨n, hn, hle⟩
          rw [hn, Option.some.injEq]
          omega
  | shutdown c' => exact ⟨hexpired, rfl⟩

end Steps

variable {cfg : WheelConfig L} {s s' : EntryLife L}

theorem reachable_inv (hN : 1 ≤ cfg.idleExpiredTime_) (hs : (runs cfg).Reachable s) :
    Inv cfg s := by
  refine hs.invariant ?_ ?_
  · rintro s rfl
    exact Inv.start cfg
  · rintro s e s' h ⟨he, rfl⟩
    exact h.perform hN he

/-- The rest of a run does not bring an expired entry back. -/
theorem expired_of_startAt (hN : 1 ≤ cfg.idleExpiredTime_) (hs : (runs cfg).Reachable s)
    {c : ConnId} (hexpired : Expired cfg s c) (h : ((runs cfg).startAt s).Reachable s') :
    Expired cfg s' c ∧ s'.ended c = s.ended c := by
  have hall : Inv cfg s' ∧ Expired cfg s' c ∧ s'.ended c = s.ended c := by
    refine h.invariant (P := fun t => Inv cfg t ∧ Expired cfg t c ∧ t.ended c = s.ended c) ?_ ?_
    · rintro t rfl
      exact ⟨reachable_inv hN hs, hexpired, rfl⟩
    · rintro t e t' ⟨hinv, hold, hended⟩ ⟨he, rfl⟩
      rcases hinv.expired_perform hN hold he with ⟨hnew, hsame⟩
      exact ⟨hinv.perform hN he, hnew, hsame.trans hended⟩
  exact hall.2

/-! ## Expiry -/

/-- An entry is alive while the ticks since its last insertion are fewer than the buckets.  At the
tick that makes them as many its destructor runs, for the only time, and calls `forceClose` if the
connection is connected. -/
structure Expiry (cfg : WheelConfig L) (s : EntryLife L) : Prop where
  alive : ∀ c, Alive s.map_ c ↔ ∃ n, s.since c = some n ∧ n < cfg.idleExpiredTime_
  unended : ∀ c, ¬ Expired cfg s c → s.ended c = []
  once : ∀ c, Expired cfg s c → ∃ closed, s.ended c = [closed]
  tick : ∀ l c, (s.perform cfg (.wheel (.onTimer l))).ended c =
    if s.since c = some (cfg.idleExpiredTime_ - 1) then
      s.ended c ++ [decide (s.state c = .connected)]
    else s.ended c
  closes : ∀ l c, (s.perform cfg (.wheel (.onTimer l))).state c =
    if s.since c = some (cfg.idleExpiredTime_ - 1) ∧ s.state c = .connected then .closing
    else s.state c

/-- In every run entries live for as many ticks as the wheel has buckets since their last insertion,
and what has ended stays so. -/
theorem entries_expire (hN : 1 ≤ cfg.idleExpiredTime_) (hs : (runs cfg).Reachable s) :
    Expiry cfg s ∧ ∀ s', ((runs cfg).startAt s).Reachable s' → ∀ c, Expired cfg s c →
      ¬ Alive s'.map_ c ∧ s'.ended c = s.ended c := by
  have hinv := reachable_inv hN hs
  refine ⟨?_, ?_⟩
  · exact
      { alive := hinv.placed.alive_iff
        unended := hinv.unended
        once := hinv.once
        tick := hinv.ended_onTimer hN
        closes := hinv.state_onTimer hN }
  · intro s' hs' c hexpired
    rcases expired_of_startAt hN hs hexpired hs' with ⟨hstill, hended⟩
    refine ⟨fun halive => ?_, hended⟩
    exact (reachable_inv hN (hs.trans hs')).not_expired_iff.2 (Or.inr halive) hstill

/-- One loop whose wheel has two buckets. -/
def twoBuckets : WheelConfig 1 where
  idleExpiredTime_ := 2
  kmaxConnections_ := 1008
  getLoop := fun _ => Fin.last 0

/-- A connection gets a message after the first tick and is closed two ticks later. -/
def closedAtThird : EntryLife 1 :=
  (((((start twoBuckets).onConnection twoBuckets 0).onTimer (Fin.last 0)).onMessage twoBuckets
    0).onTimer (Fin.last 0)).onTimer (Fin.last 0)

theorem entries_expire_twoBuckets :
    (runs twoBuckets).Reachable closedAtThird ∧ closedAtThird.ended 0 = [true] ∧
      Expiry twoBuckets closedAtThird := by
  have hopen : (runs twoBuckets).Reachable ((start twoBuckets).onConnection twoBuckets 0) :=
    .step (.init rfl) (a := .wheel (.onConnection 0)) ⟨rfl, rfl⟩
  have htick : (runs twoBuckets).Reachable
      (((start twoBuckets).onConnection twoBuckets 0).onTimer 0) :=
    .step hopen (a := .wheel (.onTimer 0)) ⟨trivial, rfl⟩
  have hmessage : (runs twoBuckets).Reachable
      ((((start twoBuckets).onConnection twoBuckets 0).onTimer 0).onMessage twoBuckets 0) := by
    refine .step htick (a := .wheel (.onMessage 0)) ⟨?_, rfl⟩
    change EntryLife.since _ 0 ≠ none
    decide +kernel
  have hreach : (runs twoBuckets).Reachable closedAtThird :=
    .step (.step hmessage (a := .wheel (.onTimer 0)) ⟨trivial, rfl⟩) (a := .wheel (.onTimer 0))
      ⟨trivial, rfl⟩
  exact ⟨hreach, by decide +kernel, (entries_expire (by decide) hreach).1⟩

end EntryLife
end Web
end Longky
