import Mathlib.Data.Finset.Card
import Mathlib.Data.Fintype.Basic
import Longky.Lib.CircularBuffer
import Longky.Lib.Reach

/-!
# IdleWheel — the timing wheel that closes idle connections

`StaticServer::start`, `onConnection`, `onMessage`, `onTimer` and `StaticServer::Entry` of
`webServer/staticServer.{h,cpp}`, as far as they keep the wheels.  Every IO loop has a wheel, a
circular buffer of buckets.  An entry is destroyed when the last bucket that holds it is pushed out,
and its destructor closes the connection.  `start` registers `onTimer` with every loop, and `onTimer`
turns the wheels of all loops.
-/

namespace Longky
namespace Web

open Lib

/-- A connection, and the one `Entry` made for it. -/
abbrev ConnId := Nat

inductive ConnState where
  /-- `onConnection` has not been called. -/
  | fresh
  /-- Over `kmaxConnections_`: closed at once, without an entry. -/
  | refused
  | connected
  /-- `forceClose` has been called by `~Entry`. -/
  | closing
  | down
  deriving DecidableEq, Repr

/-- What `start` is given, and the loops that `TcpServer` gives its connections. -/
structure WheelConfig (L : Nat) where
  idleExpiredTime_ : Nat
  kmaxConnections_ : Int
  getLoop : ConnId → Fin L

/-- The wheels of `L` loops. -/
abbrev WheelMap (L : Nat) := Fin L → CircularBuffer (Finset ConnId)

structure IdleWheel (L : Nat) where
  map_ : WheelMap L
  state : ConnId → ConnState
  numConnected_ : Int
  /-- The loops whose timer has fired in the current second. -/
  fired : Finset (Fin L)
  /-- The firings since the connection's last message. -/
  firings : ConnId → List (Fin L)
  /-- For a connection closed by the wheel: the loop whose timer did it, and the firings since the
  last message, that one included. -/
  closedAfter : ConnId → Option (Fin L × List (Fin L))

namespace IdleWheel

variable {L : Nat}

def start (cfg : WheelConfig L) : IdleWheel L where
  map_ := fun _ => CircularBuffer.empty.resize cfg.idleExpiredTime_ ∅
  state := fun _ => .fresh
  numConnected_ := 0
  fired := ∅
  firings := fun _ => []
  closedAfter := fun _ => none

/-- `map_[conn->getLoop()]->back().insert(entry)`. -/
def insertBack (m : WheelMap L) (l : Fin L) (c : ConnId) : WheelMap L :=
  Function.update m l ((m l).modifyBack (insert c))

/-- `push_back(Bucket())` on every wheel. -/
def pushAll (m : WheelMap L) : WheelMap L := fun l => (m l).pushBack ∅

/-- Some bucket holds the entry of `c`. -/
def Alive (m : WheelMap L) (c : ConnId) : Prop :=
  ∃ l, ∃ b ∈ (m l).elements, c ∈ b

instance (m : WheelMap L) (c : ConnId) : Decidable (Alive m c) :=
  inferInstanceAs (Decidable (∃ l, ∃ b ∈ (m l).elements, c ∈ b))

/-- `onConnection` for a connection that is up. -/
def onConnection (s : IdleWheel L) (cfg : WheelConfig L) (c : ConnId) : IdleWheel L :=
  let s' := { s with numConnected_ := s.numConnected_ + 1 }
  if cfg.kmaxConnections_ ≤ s'.numConnected_ then
    { s' with state := Function.update s.state c .refused }
  else
    { s' with
      state := Function.update s.state c .connected
      map_ := insertBack s.map_ (cfg.getLoop c) c
      firings := Function.update s.firings c [] }

/-- `onConnection` for a connection that is down. -/
def onDisconnection (s : IdleWheel L) (c : ConnId) : IdleWheel L :=
  { s with
    numConnected_ := s.numConnected_ - 1
    state := Function.update s.state c .down }

/-- `onMessage`: the entry goes into the newest bucket if it still exists. -/
def onMessage (s : IdleWheel L) (cfg : WheelConfig L) (c : ConnId) : IdleWheel L :=
  let s' := { s with firings := Function.update s.firings c [] }
  if Alive s.map_ c then { s' with map_ := insertBack s.map_ (cfg.getLoop c) c } else s'

/-- Turning the wheels destroys the entry of `c` while it is connected. -/
def Expires (s : IdleWheel L) (c : ConnId) : Prop :=
  s.state c = .connected ∧ Alive s.map_ c ∧ ¬ Alive (pushAll s.map_) c

instance (s : IdleWheel L) (c : ConnId) : Decidable (s.Expires c) :=
  inferInstanceAs (Decidable (_ ∧ _))

/-- `onTimer`, called by the timer of the loop `l`. -/
def onTimer (s : IdleWheel L) (l : Fin L) : IdleWheel L :=
  { s with
    map_ := pushAll s.map_
    -- `~Entry` for those that were in no other bucket
    state := fun c => if s.Expires c then .closing else s.state c
    closedAfter := fun c =>
      if s.Expires c then some (l, s.firings c ++ [l]) else s.closedAfter c
    firings := fun c => s.firings c ++ [l]
    fired := if insert l s.fired = Finset.univ then ∅ else insert l s.fired }

end IdleWheel

inductive WheelEvent (L : Nat) where
  | onConnection (c : ConnId)
  | onDisconnection (c : ConnId)
  | onMessage (c : ConnId)
  | onTimer (l : Fin L)

namespace IdleWheel

variable {L : Nat}

/-- In each second the timer of each loop fires once. -/
def enabled (s : IdleWheel L) : WheelEvent L → Prop
  | .onConnection c => s.state c = .fresh
  | .onDisconnection c => s.state c ≠ .fresh ∧ s.state c ≠ .down
  | .onMessage c => s.state c = .connected ∨ s.state c = .closing
  | .onTimer l => l ∉ s.fired

instance (s : IdleWheel L) : (e : WheelEvent L) → Decidable (s.enabled e)
  | .onConnection c => inferInstanceAs (Decidable (s.state c = .fresh))
  | .onDisconnection c => inferInstanceAs (Decidable (s.state c ≠ .fresh ∧ s.state c ≠ .down))
  | .onMessage c => inferInstanceAs (Decidable (s.state c = .connected ∨ s.state c = .closing))
  | .onTimer l => inferInstanceAs (Decidable (l ∉ s.fired))

def perform (s : IdleWheel L) (cfg : WheelConfig L) : WheelEvent L → IdleWheel L
  | .onConnection c => s.onConnection cfg c
  | .onDisconnection c => s.onDisconnection c
  | .onMessage c => s.onMessage cfg c
  | .onTimer l => s.onTimer l

def runs (cfg : WheelConfig L) : System (IdleWheel L) (WheelEvent L) where
  init s := s = start cfg
  step s e s' := s.enabled e ∧ s' = s.perform cfg e

/-! ## Places in the wheels -/

/-- `c` is in the bucket of `l` that is `k` places from the back. -/
def InBucket (m : WheelMap L) (l : Fin L) (k : Nat) (c : ConnId) : Prop :=
  ∃ b, (m l).elements[k]? = some b ∧ c ∈ b

variable {m : WheelMap L} {l l' : Fin L} {k : Nat} {c c' : ConnId}

theorem alive_iff : Alive m c ↔ ∃ l k, InBucket m l k c := by
  constructor
  · rintro ⟨l, b, hb, hc⟩
    rcases List.mem_iff_getElem?.1 hb with ⟨k, hk⟩
    exact ⟨l, k, b, hk, hc⟩
  · rintro ⟨l, k, b, hk, hc⟩
    exact ⟨l, b, List.mem_of_getElem? hk, hc⟩

theorem InBucket.lt (h : InBucket m l k c) : k < (m l).capacity := by
  rcases h with ⟨b, hb, -⟩
  rcases List.getElem?_eq_some_iff.1 hb with ⟨hlt, -⟩
  exact Nat.lt_of_lt_of_le hlt (m l).length_le

/-- Turning the wheel moves every bucket one place and drops the last. -/
theorem inBucket_pushAll :
    InBucket (pushAll m) l k c ↔
      ∃ j, k = j + 1 ∧ j + 1 < (m l).capacity ∧ InBucket m l j c := by
  constructor
  · intro h
    have hlt : k < (m l).capacity := h.lt
    rcases h with ⟨b, hb, hc⟩
    cases k with
    | zero =>
        -- the bucket at the back is the empty one that was pushed
        rw [pushAll, CircularBuffer.getElem?_pushBack_zero hlt] at hb
        cases hb
        simp at hc
    | succ j =>
        rw [pushAll, CircularBuffer.getElem?_pushBack_succ, if_pos hlt] at hb
        exact ⟨j, rfl, hlt, b, hb, hc⟩
  · rintro ⟨j, rfl, hlt, b, hb, hc⟩
    refine ⟨b, ?_, hc⟩
    rw [pushAll, CircularBuffer.getElem?_pushBack_succ, if_pos hlt, hb]

theorem inBucket_insertBack (hpos : (m l).elements ≠ []) :
    InBucket (insertBack m l c) l' k c' ↔
      InBucket m l' k c' ∨ (c' = c ∧ l' = l ∧ k = 0) := by
  by_cases hl : l' = l
  · subst hl
    unfold InBucket insertBack
    rw [Function.update_self]
    cases k with
    | zero =>
        rw [CircularBuffer.getElem?_modifyBack_zero]
        rcases List.exists_cons_of_ne_nil hpos with ⟨b, bs, hbs⟩
        simp [hbs, or_comm]
    | succ k =>
        rw [CircularBuffer.getElem?_modifyBack_succ]
        simp
  · unfold InBucket insertBack
    rw [Function.update_of_ne hl]
    simp [hl]

theorem full_insertBack (h : ∀ l, (m l).Full) (c : ConnId) (l' : Fin L) :
    (insertBack m l c l').Full := by
  by_cases hl : l' = l
  · subst hl
    simpa [insertBack] using (h _).modifyBack
  · simpa [insertBack, Function.update_of_ne hl] using h l'

theorem capacity_insertBack (m : WheelMap L) (l l' : Fin L) (c : ConnId) :
    (insertBack m l c l').capacity = (m l').capacity := by
  by_cases hl : l' = l
  · subst hl
    simp [insertBack]
  · simp [insertBack, Function.update_of_ne hl]

theorem not_inBucket_start (cfg : WheelConfig L) : ¬ InBucket (start cfg).map_ l k c := by
  rintro ⟨b, hb, hc⟩
  have hmem := List.mem_of_getElem? hb
  simp only [start, CircularBuffer.resize, CircularBuffer.empty, List.length_nil, List.drop_nil,
    List.append_nil, List.mem_replicate] at hmem
  simp [hmem.2] at hc

/-! ## The invariant -/

/-- A connected entry is as many places from the back as there were firings since the last message,
and no nearer. -/
structure Inv (cfg : WheelConfig L) (s : IdleWheel L) : Prop where
  full : ∀ l, (s.map_ l).Full
  capacity : ∀ l, (s.map_ l).capacity = cfg.idleExpiredTime_
  home : ∀ l k c, InBucket s.map_ l k c → l = cfg.getLoop c ∧ s.state c ≠ .fresh
  placed : ∀ c, s.state c = .connected →
    InBucket s.map_ (cfg.getLoop c) (s.firings c).length c
  newest : ∀ c k, s.state c = .connected → k < (s.firings c).length →
    ¬ InBucket s.map_ (cfg.getLoop c) k c
  closed : ∀ c l fs, s.closedAfter c = some (l, fs) → fs.length = cfg.idleExpiredTime_
  second : s.fired ≠ Finset.univ

section Steps

variable {cfg : WheelConfig L} {s : IdleWheel L}

theorem Inv.start (hL : 1 ≤ L) : Inv cfg (start cfg) := by
  refine
    { full := fun l => CircularBuffer.full_resize_empty _
      capacity := fun l => Nat.zero_max _
      home := fun l k c h => absurd h (not_inBucket_start cfg)
      placed := by simp [IdleWheel.start]
      newest := by simp [IdleWheel.start]
      closed := by simp [IdleWheel.start]
      second := ?_ }
  have hloop : (Finset.univ : Finset (Fin L)).Nonempty := ⟨⟨0, hL⟩, Finset.mem_univ _⟩
  exact hloop.ne_empty.symm

theorem Inv.elements_ne_nil (h : Inv cfg s) (hN : 1 ≤ cfg.idleExpiredTime_) (l : Fin L) :
    (s.map_ l).elements ≠ [] := by
  rw [← List.length_pos_iff, h.full l, h.capacity l]
  exact hN

/-- The entry of `c` goes into the newest bucket of its loop. -/
theorem Inv.insertBack (h : Inv cfg s) (hN : 1 ≤ cfg.idleExpiredTime_) (c : ConnId)
    (st : ConnState) (hst : st ≠ .fresh) (n : Int) :
    Inv cfg { s with
      map_ := insertBack s.map_ (cfg.getLoop c) c
      state := Function.update s.state c st
      numConnected_ := n
      firings := Function.update s.firings c [] } := by
  have hbucket : ∀ l k c', InBucket (IdleWheel.insertBack s.map_ (cfg.getLoop c) c) l k c' ↔
      InBucket s.map_ l k c' ∨ (c' = c ∧ l = cfg.getLoop c ∧ k = 0) :=
    fun l k c' => inBucket_insertBack (h.elements_ne_nil hN _)
  refine { full := full_insertBack h.full c, capacity := ?_, home := ?_, placed := ?_,
           newest := ?_, closed := h.closed, second := h.second }
  · intro l
    exact (capacity_insertBack s.map_ _ l c).trans (h.capacity l)
  · intro l k c' hc'
    rcases (hbucket l k c').1 hc' with hold | ⟨rfl, rfl, -⟩
    · rcases h.home l k c' hold with ⟨hhome, hfresh⟩
      refine ⟨hhome, ?_⟩
      by_cases hcc : c' = c
      · subst hcc
        simpa using hst
      · simpa [Function.update_of_ne hcc] using hfresh
    · exact ⟨rfl, by simpa using hst⟩
  · intro c' hconn
    refine (hbucket _ _ _).2 ?_
    by_cases hcc : c' = c
    · subst hcc
      exact Or.inr ⟨rfl, rfl, by simp⟩
    · simp only [Function.update_of_ne hcc] at hconn ⊢
      exact Or.inl (h.placed c' hconn)
  · intro c' k hconn hk hin
    by_cases hcc : c' = c
    · subst hcc
      simp at hk
    · simp only [Function.update_of_ne hcc] at hconn hk
      rcases (hbucket _ _ _).1 hin with hold | ⟨hc, -⟩
      · exact h.newest c' k hconn hk hold
      · exact hcc hc

/-- A connection that is not connected may change its state and its firings. -/
theorem Inv.setState (h : Inv cfg s) (c : ConnId) (st : ConnState) (hconn : st ≠ .connected)
    (hst : st ≠ .fresh) (n : Int) (fs : List (Fin L)) :
    Inv cfg { s with
      state := Function.update s.state c st
      numConnected_ := n
      firings := Function.update s.firings c fs } := by
  have hother : ∀ c', Function.update s.state c st c' = .connected → c' ≠ c := by
    rintro c' hc' rfl
    rw [Function.update_self] at hc'
    exact hconn hc'
  refine { full := h.full, capacity := h.capacity, home := ?_, placed := ?_, newest := ?_,
           closed := h.closed, second := h.second }
  · intro l k c' hc'
    rcases h.home l k c' hc' with ⟨hhome, hfresh⟩
    refine ⟨hhome, ?_⟩
    by_cases hcc : c' = c
    · subst hcc
      simpa using hst
    · simpa [Function.update_of_ne hcc] using hfresh
  · intro c' hc'
    have hcc := hother c' hc'
    simp only [Function.update_of_ne hcc] at hc' ⊢
    exact h.placed c' hc'
  · intro c' k hc' hk
    have hcc := hother c' hc'
    simp only [Function.update_of_ne hcc] at hc' hk
    exact h.newest c' k hc' hk

/-- A connected entry survives a turn exactly when its bucket is not the last. -/
theorem Inv.alive_pushAll_iff (h : Inv cfg s) {c : ConnId} (hconn : s.state c = .connected) :
    Alive (pushAll s.map_) c ↔ (s.firings c).length + 1 < cfg.idleExpiredTime_ := by
  rw [alive_iff]
  constructor
  · rintro ⟨l, k, hin⟩
    rcases inBucket_pushAll.1 hin with ⟨j, rfl, hlt, hold⟩
    rcases (h.home l j c hold).1 with rfl
    rw [h.capacity] at hlt
    -- an older copy of the entry is further from the back still
    have hle : (s.firings c).length ≤ j := by
      by_contra hj
      exact h.newest c j hconn (Nat.lt_of_not_le hj) hold
    omega
  · intro hlt
    refine ⟨cfg.getLoop c, (s.firings c).length + 1, inBucket_pushAll.2 ⟨_, rfl, ?_, ?_⟩⟩
    · rwa [h.capacity]
    · exact h.placed c hconn

theorem Inv.expires_iff (h : Inv cfg s) (c : ConnId) :
    s.Expires c ↔ s.state c = .connected ∧ (s.firings c).length + 1 = cfg.idleExpiredTime_ := by
  unfold Expires
  refine and_congr_right ?_
  intro hconn
  have hplaced := h.placed c hconn
  have hlt := hplaced.lt
  rw [h.capacity] at hlt
  rw [h.alive_pushAll_iff hconn]
  constructor
  · rintro ⟨-, hnot⟩
    omega
  · intro heq
    exact ⟨alive_iff.2 ⟨_, _, hplaced⟩, by omega⟩

theorem Inv.onTimer (h : Inv cfg s) (hL : 1 ≤ L) (l : Fin L) : Inv cfg (s.onTimer l) := by
  have hconn : ∀ c, (s.onTimer l).state c = .connected →
      s.state c = .connected ∧ (s.firings c).length + 1 < cfg.idleExpiredTime_ := by
    intro c hc
    by_cases hexp : s.Expires c
    · simp [IdleWheel.onTimer, hexp] at hc
    · have hold : s.state c = .connected := by simpa [IdleWheel.onTimer, hexp] using hc
      refine ⟨hold, ?_⟩
      by_contra hlast
      apply hexp
      refine ⟨hold, alive_iff.2 ⟨_, _, h.placed c hold⟩, ?_⟩
      rwa [h.alive_pushAll_iff hold]
  refine { full := fun k => (h.full k).pushBack, capacity := h.capacity, home := ?_,
           placed := ?_, newest := ?_, closed := ?_, second := ?_ }
  · intro k n c hin
    rcases inBucket_pushAll.1 hin with ⟨j, -, -, hold⟩
    rcases h.home k j c hold with ⟨hhome, hfresh⟩
    refine ⟨hhome, ?_⟩
    simp only [IdleWheel.onTimer]
    split
    · exact fun hc => nomatch hc
    · exact hfresh
  · intro c hc
    rcases hconn c hc with ⟨hold, hlt⟩
    refine inBucket_pushAll.2 ⟨(s.firings c).length, ?_, ?_, h.placed c hold⟩
    · simp [IdleWheel.onTimer]
    · rwa [h.capacity]
  · intro c k hc hk hin
    rcases hconn c hc with ⟨hold, -⟩
    rcases inBucket_pushAll.1 hin with ⟨j, rfl, -, hj⟩
    have hlt : j < (s.firings c).length := by simpa [IdleWheel.onTimer] using hk
    exact h.newest c j hold hlt hj
  · intro c l' fs hc
    simp only [IdleWheel.onTimer] at hc
    split at hc
    · rename_i hexp
      cases hc
      simpa using ((h.expires_iff c).1 hexp).2
    · exact h.closed c l' fs hc
  · simp only [IdleWheel.onTimer]
    split
    · have hloop : (Finset.univ : Finset (Fin L)).Nonempty := ⟨⟨0, hL⟩, Finset.mem_univ _⟩
      exact hloop.ne_empty.symm
    · assumption

theorem Inv.perform (h : Inv cfg s) (hL : 1 ≤ L) (hN : 1 ≤ cfg.idleExpiredTime_)
    {e : WheelEvent L} (he : s.enabled e) : Inv cfg (s.perform cfg e) := by
  cases e with
  | onConnection c =>
      unfold IdleWheel.perform IdleWheel.onConnection
      dsimp only
      split
      · have := h.setState c .refused (by decide) (by decide) (s.numConnected_ + 1)
          (s.firings c)
        rwa [Function.update_eq_self] at this
      · exact h.insertBack hN c .connected (by decide) _
  | onDisconnection c =>
      have := h.setState c .down (by decide) (by decide) (s.numConnected_ - 1)
        (s.firings c)
      rwa [Function.update_eq_self] at this
  | onMessage c =>
      unfold IdleWheel.perform IdleWheel.onMessage
      dsimp only
      have hfresh : s.state c ≠ .fresh := by
        rcases he with hc | hc <;> simp [hc]
      split
      · have := h.insertBack hN c (s.state c) hfresh s.numConnected_
        rwa [Function.update_eq_self] at this
      · rename_i hdead
        -- the entry of a connected one is in its bucket, so this one is being closed
        have hconn : s.state c ≠ .connected := by
          intro hc
          exact hdead (alive_iff.2 ⟨_, _, h.placed c hc⟩)
        have := h.setState c _ hconn hfresh s.numConnected_ []
        rwa [Function.update_eq_self] at this
  | onTimer l => exact h.onTimer hL l

end Steps

theorem reachable_inv {cfg : WheelConfig L} (hL : 1 ≤ L) (hN : 1 ≤ cfg.idleExpiredTime_)
    {s : IdleWheel L} (hs : (runs cfg).Reachable s) : Inv cfg s := by
  refine hs.invariant ?_ ?_
  · rintro s rfl
    exact Inv.start hL
  · rintro s e s' h ⟨he, rfl⟩
    exact h.perform hL hN he

/-! ## The timeout -/

section Timeout

variable {cfg : WheelConfig L} {s : IdleWheel L}

/-- `numConnected_` counts the connections that are up. -/
def Counted (s : IdleWheel L) (up : Finset ConnId) : Prop :=
  (∀ c, c ∈ up ↔ s.state c ≠ .fresh ∧ s.state c ≠ .down) ∧ s.numConnected_ = up.card

theorem Counted.onTimer {up : Finset ConnId} (h : Counted s up) (l : Fin L) :
    Counted (s.onTimer l) up := by
  refine ⟨?_, h.2⟩
  intro c
  rw [h.1 c]
  by_cases hexp : s.Expires c
  · simp [IdleWheel.onTimer, hexp, hexp.1]
  · simp [IdleWheel.onTimer, hexp]

theorem Counted.insert {up : Finset ConnId} (h : Counted s up) {c : ConnId}
    (hc : s.state c = .fresh) {st : ConnState} (hst : st ≠ .fresh ∧ st ≠ .down) (m : WheelMap L)
    (firings : ConnId → List (Fin L)) :
    Counted { s with
      numConnected_ := s.numConnected_ + 1
      state := Function.update s.state c st
      map_ := m
      firings := firings } (insert c up) := by
  have hnot : c ∉ up := by simp [h.1 c, hc]
  refine ⟨?_, ?_⟩
  · intro c'
    by_cases hcc : c' = c
    · subst hcc
      simpa using hst
    · simp [Finset.mem_insert, hcc, h.1 c']
  · rw [Finset.card_insert_of_notMem hnot]
    simp [h.2]

theorem Counted.erase {up : Finset ConnId} (h : Counted s up) {c : ConnId}
    (hc : s.state c ≠ .fresh ∧ s.state c ≠ .down) :
    Counted (s.onDisconnection c) (up.erase c) := by
  have hmem : c ∈ up := (h.1 c).2 hc
  refine ⟨?_, ?_⟩
  · intro c'
    by_cases hcc : c' = c
    · subst hcc
      simp [onDisconnection]
    · simp [onDisconnection, Finset.mem_erase, hcc, h.1 c']
  · have hcard : (up.erase c).card + 1 = up.card := Finset.card_erase_add_one hmem
    change s.numConnected_ - 1 = (up.erase c).card
    rw [h.2, ← hcard]
    omega

end Timeout

end IdleWheel
end Web
end Longky
