import Mathlib.Algebra.Group.Nat.Defs
import Mathlib.Data.Finset.Card
import Longky.Lib.Reach
import Longky.Web.IdleWheel

/-!
# ConnectionLimit — the connections that are admitted at a time

`StaticServer::onConnection` of `webServer/staticServer.cpp` with its counter `numConnected_`, an
`AtomicInt32` of `base/Atomic.h`.  The counter is incremented and then read, and the threads of the
loops may do anything in between.

`admitted_lt_kmaxConnections`: the counter is the number of connections that are up, and fewer than
`kmaxConnections_` of these are admitted.
-/

namespace Longky
namespace Web

open Lib

/-- How far `onConnection` has come for a connection. -/
inductive Stage where
  | fresh
  /-- After `numConnected_.increment()`. -/
  | counted
  /-- `numConnected_.get()` returned `n`. -/
  | read (n : Int32)
  | admitted (n : Int32)
  /-- After `forceClose`. -/
  | refused (n : Int32)
  /-- After `numConnected_.decrement()`. -/
  | down
  deriving DecidableEq

namespace Stage

/-- What `numConnected_.get()` returned. -/
def value : Stage → Option Int32
  | read n | admitted n | refused n => some n
  | fresh | counted | down => none

/-- The connection has been let in and has not reported down. -/
def isAdmitted : Stage → Bool
  | admitted _ => true
  | fresh | counted | read _ | refused _ | down => false

end Stage

/-- What the server is constructed with, and the sockets that the kernel hands out, all of type
`int`. -/
structure LimitConfig where
  kmaxConnections_ : Int32
  acceptSocket_ : Nat
  sockfd : ConnId → Nat
  acceptSocket_lt : acceptSocket_ < 2 ^ 31
  sockfd_lt : ∀ c, sockfd c < 2 ^ 31

structure ConnectionLimit where
  numConnected_ : Int32
  stage : ConnId → Stage
  /-- The connections that reported up. -/
  ups : Finset ConnId
  /-- The connections that reported down. -/
  downs : Finset ConnId

inductive LimitEvent where
  | increment (c : ConnId)
  | get (c : ConnId)
  /-- The test of what `get` returned. -/
  | check (c : ConnId)
  | decrement (c : ConnId)

namespace ConnectionLimit

/-! ## The atomic steps -/

def start : ConnectionLimit where
  numConnected_ := 0
  stage := fun _ => .fresh
  ups := ∅
  downs := ∅

/-- The connections that are up. -/
def live (s : ConnectionLimit) : Finset ConnId := s.ups \ s.downs

/-- The connections that are up and were let in. -/
def admitted (s : ConnectionLimit) : Finset ConnId := s.live.filter fun c => (s.stage c).isAdmitted

def setStage (s : ConnectionLimit) (c : ConnId) (t : Stage) : ConnectionLimit :=
  { s with stage := Function.update s.stage c t }

/-- `numConnected_.increment()`. -/
def increment (s : ConnectionLimit) (c : ConnId) : ConnectionLimit :=
  { s.setStage c .counted with
    numConnected_ := s.numConnected_ + 1
    ups := insert c s.ups }

/-- `numConnected_.get()`. -/
def get (s : ConnectionLimit) (c : ConnId) : ConnectionLimit :=
  s.setStage c (.read s.numConnected_)

/-- The test: `forceClose`, or an entry for the connection. -/
def check (s : ConnectionLimit) (cfg : LimitConfig) (c : ConnId) (n : Int32) : ConnectionLimit :=
  if cfg.kmaxConnections_ ≤ n then s.setStage c (.refused n) else s.setStage c (.admitted n)

/-- `numConnected_.decrement()`. -/
def decrement (s : ConnectionLimit) (c : ConnId) : ConnectionLimit :=
  { s.setStage c .down with
    numConnected_ := s.numConnected_ - 1
    downs := insert c s.downs }

/-- The steps in any order.  A connection is up once and then down at most once, and its socket is
open until then, so the kernel gives it to no other. -/
def step (cfg : LimitConfig) (s : ConnectionLimit) : LimitEvent → ConnectionLimit → Prop
  | .increment c, s' =>
      s.stage c = .fresh ∧ cfg.sockfd c ≠ cfg.acceptSocket_ ∧
        (∀ d ∈ s.live, cfg.sockfd d ≠ cfg.sockfd c) ∧ s' = s.increment c
  | .get c, s' => s.stage c = .counted ∧ s' = s.get c
  | .check c, s' => ∃ n, s.stage c = .read n ∧ s' = s.check cfg c n
  | .decrement c, s' =>
      (∃ n, s.stage c = .admitted n ∨ s.stage c = .refused n) ∧ s' = s.decrement c

def runs (cfg : LimitConfig) : System ConnectionLimit LimitEvent where
  init s := s = start
  step := step cfg

/-! ## The connections that have read the counter -/

/-- The connections that are up and were returned at most `v`. -/
def readers (s : ConnectionLimit) (v : Nat) : Finset ConnId :=
  s.live.filter fun c => ∃ n ∈ (s.stage c).value, n.toInt ≤ v

section Readers

variable {s s' : ConnectionLimit} {c d : ConnId} {v : Nat} {t : Stage}

@[simp] theorem setStage_self : (s.setStage c t).stage c = t := by
  simp [setStage]

theorem setStage_of_ne (h : d ≠ c) : (s.setStage c t).stage d = s.stage d := by
  simp [setStage, h]

theorem mem_readers :
    c ∈ s.readers v ↔ c ∈ s.live ∧ ∃ n ∈ (s.stage c).value, n.toInt ≤ v := by
  simp [readers]

/-- No step but `get` lets a connection read. -/
theorem readers_subset
    (h : ∀ d n, d ∈ s'.live → n ∈ (s'.stage d).value → d ∈ s.live ∧ n ∈ (s.stage d).value) :
    s'.readers v ⊆ s.readers v := by
  intro d hd
  rcases mem_readers.1 hd with ⟨hlive, n, hn, hle⟩
  rcases h d n hlive hn with ⟨hlive', hn'⟩
  exact mem_readers.2 ⟨hlive', n, hn', hle⟩

end Readers

/-! ## The open sockets -/

/-- The sockets of the connections in `conns` are all different, and none is the one that accepts. -/
structure OpenSockets (cfg : LimitConfig) (conns : Finset ConnId) : Prop where
  injOn : Set.InjOn cfg.sockfd conns
  notAccept : ∀ c ∈ conns, cfg.sockfd c ≠ cfg.acceptSocket_

namespace OpenSockets

variable {cfg : LimitConfig} {conns conns' : Finset ConnId} {c : ConnId}

theorem empty : OpenSockets cfg ∅ where
  injOn := by simp
  notAccept := by simp

theorem subset (h : OpenSockets cfg conns) (hsub : conns' ⊆ conns) : OpenSockets cfg conns' where
  injOn := h.injOn.mono (Finset.coe_subset.2 hsub)
  notAccept := fun c hc => h.notAccept c (hsub hc)

theorem insert (h : OpenSockets cfg conns) (haccept : cfg.sockfd c ≠ cfg.acceptSocket_)
    (hsock : ∀ d ∈ conns, cfg.sockfd d ≠ cfg.sockfd c) : OpenSockets cfg (insert c conns) where
  injOn := by
    intro a ha b hb heq
    rcases Finset.mem_insert.1 ha with hac | hac
    · rcases Finset.mem_insert.1 hb with hbc | hbc
      · rw [hac, hbc]
      · exact absurd (hac ▸ heq).symm (hsock b hbc)
    · rcases Finset.mem_insert.1 hb with hbc | hbc
      · exact absurd (hbc ▸ heq) (hsock a hac)
      · exact h.injOn hac hbc heq
  notAccept := by
    intro d hd
    rcases Finset.mem_insert.1 hd with rfl | hd
    · exact haccept
    · exact h.notAccept d hd

/-- The open sockets of a process are fewer than the non-negative values of an `int`. -/
theorem card_lt (h : OpenSockets cfg conns) : conns.card < 2 ^ 31 := by
  have hsub : Insert.insert cfg.acceptSocket_ (conns.image cfg.sockfd) ⊆ Finset.range (2 ^ 31) := by
    intro fd hfd
    rw [Finset.mem_insert, Finset.mem_image] at hfd
    rw [Finset.mem_range]
    rcases hfd with rfl | ⟨c, -, rfl⟩
    · exact cfg.acceptSocket_lt
    · exact cfg.sockfd_lt c
  have hnot : cfg.acceptSocket_ ∉ conns.image cfg.sockfd := by
    rw [Finset.mem_image]
    rintro ⟨c, hc, heq⟩
    exact h.notAccept c hc heq
  have hcard := Finset.card_le_card hsub
  rwa [Finset.card_insert_of_notMem hnot, Finset.card_image_of_injOn h.injOn,
    Finset.card_range] at hcard

end OpenSockets

/-! ## The invariant -/

/-- At most `v` connections were returned `v` or less: when one of them read the counter last, they
were all counted. -/
structure Inv (cfg : LimitConfig) (s : ConnectionLimit) : Prop where
  up_iff : ∀ c, c ∈ s.ups ↔ s.stage c ≠ .fresh
  down_iff : ∀ c, c ∈ s.downs ↔ s.stage c = .down
  sockets : OpenSockets cfg s.live
  count : s.numConnected_.toInt = s.live.card
  readers_le : ∀ v, (s.readers v).card ≤ v
  below : ∀ c n, s.stage c = .admitted n → n < cfg.kmaxConnections_

section Steps

variable {cfg : LimitConfig} {s s' : ConnectionLimit} {c : ConnId} {n : Int32}

theorem Inv.start : Inv cfg start where
  up_iff := by simp [ConnectionLimit.start]
  down_iff := by simp [ConnectionLimit.start]
  sockets := OpenSockets.empty
  count := by simp [ConnectionLimit.start, live]
  readers_le := by simp [ConnectionLimit.start, live, readers]
  below := by simp [ConnectionLimit.start]

theorem Inv.mem_live (h : Inv cfg s) : c ∈ s.live ↔ s.stage c ≠ .fresh ∧ s.stage c ≠ .down := by
  rw [live, Finset.mem_sdiff, h.up_iff, h.down_iff]

theorem Inv.live_increment (h : Inv cfg s) (hc : s.stage c = .fresh) :
    (s.increment c).live = Insert.insert c s.live := by
  have hdown : c ∉ s.downs := by
    rw [h.down_iff, hc]
    simp
  exact Finset.insert_sdiff_of_notMem s.ups hdown

theorem live_decrement : (s.decrement c).live = s.live.erase c :=
  Finset.sdiff_insert s.ups s.downs c

theorem Inv.increment (h : Inv cfg s) (hc : s.stage c = .fresh)
    (haccept : cfg.sockfd c ≠ cfg.acceptSocket_)
    (hsock : ∀ d ∈ s.live, cfg.sockfd d ≠ cfg.sockfd c) : Inv cfg (s.increment c) := by
  have hlive := h.live_increment hc
  have hnot : c ∉ s.live := fun hmem => (h.mem_live.1 hmem).1 hc
  have hself : (s.increment c).stage c = .counted := setStage_self
  have hother : ∀ d, d ≠ c → (s.increment c).stage d = s.stage d := fun _ => setStage_of_ne
  have hsockets := h.sockets.insert haccept hsock
  refine
    { up_iff := fun d => ?_
      down_iff := fun d => ?_
      sockets := by rwa [hlive]
      count := ?_
      readers_le := fun v => ?_
      below := fun d n hd => ?_ }
  · change d ∈ Insert.insert c s.ups ↔ _
    by_cases hd : d = c
    · subst hd
      simp [hself]
    · simp [hother d hd, hd, h.up_iff]
  · change d ∈ s.downs ↔ _
    by_cases hd : d = c
    · subst hd
      rw [h.down_iff, hself, hc]
      simp
    · rw [hother d hd, h.down_iff]
  · -- a socket is left for the new connection, so the counter does not overflow
    have hlt := hsockets.card_lt
    rw [hlive, Finset.card_insert_of_notMem hnot] at *
    change (s.numConnected_ + 1).toInt = _
    rw [Int32.toInt_add, h.count, Int32.toInt_one, Int.bmod_eq_of_le] <;> omega
  · refine le_trans (Finset.card_le_card (readers_subset fun d n hd hn => ?_)) (h.readers_le v)
    -- the new connection has been returned nothing yet, and is no reader
    rw [hlive, Finset.mem_insert] at hd
    rcases hd with rfl | hd
    · rw [hself] at hn
      cases hn
    · rw [hother d (fun heq => hnot (heq ▸ hd))] at hn
      exact ⟨hd, hn⟩
  · by_cases hdc : d = c
    · subst hdc
      rw [hself] at hd
      cases hd
    · rw [hother d hdc] at hd
      exact h.below d n hd

/-- A step of a connection that is up and stays up. -/
theorem Inv.setStage (h : Inv cfg s) (hc : c ∈ s.live) {t : Stage} (hfresh : t ≠ .fresh)
    (hdown : t ≠ .down) (hreaders : ∀ v, ((s.setStage c t).readers v).card ≤ v)
    (hbelow : ∀ n, t = .admitted n → n < cfg.kmaxConnections_) : Inv cfg (s.setStage c t) := by
  rcases h.mem_live.1 hc with ⟨hcfresh, hcdown⟩
  refine
    { up_iff := fun d => ?_
      down_iff := fun d => ?_
      sockets := h.sockets
      count := h.count
      readers_le := hreaders
      below := fun d n hd => ?_ }
  · change d ∈ s.ups ↔ _
    by_cases hdc : d = c
    · subst hdc
      simp [h.up_iff, hcfresh, hfresh]
    · rw [setStage_of_ne hdc, h.up_iff]
  · change d ∈ s.downs ↔ _
    by_cases hdc : d = c
    · subst hdc
      simp [h.down_iff, hcdown, hdown]
    · rw [setStage_of_ne hdc, h.down_iff]
  · by_cases hdc : d = c
    · subst hdc
      rw [setStage_self] at hd
      exact hbelow n hd
    · rw [setStage_of_ne hdc] at hd
      exact h.below d n hd

/-- The connection that reads the counter is returned the number of those that are up. -/
theorem Inv.get (h : Inv cfg s) (hc : s.stage c = .counted) : Inv cfg (s.get c) := by
  have hlive : c ∈ s.live := h.mem_live.2 (by simp [hc])
  refine h.setStage hlive (by simp) (by simp) (fun v => ?_) (by simp)
  -- if the value just read is at most `v`, all that are up are at most `v`; if not, `c` is no new
  -- reader up to `v`
  by_cases hv : s.numConnected_.toInt ≤ v
  · have hsub : (s.get c).readers v ⊆ s.live := Finset.filter_subset _ _
    have hcard := Finset.card_le_card hsub
    have hcount := h.count
    change ((s.get c).readers v).card ≤ v
    omega
  · refine le_trans (Finset.card_le_card fun d hd => ?_) (h.readers_le v)
    rcases mem_readers.1 hd with ⟨hdlive, m, hm, hle⟩
    by_cases hdc : d = c
    · subst hdc
      rw [setStage_self] at hm
      cases hm
      exact absurd hle hv
    · rw [setStage_of_ne hdc] at hm
      exact mem_readers.2 ⟨hdlive, m, hm, hle⟩

theorem Inv.check (h : Inv cfg s) (hc : s.stage c = .read n) : Inv cfg (s.check cfg c n) := by
  have hlive : c ∈ s.live := h.mem_live.2 (by simp [hc])
  -- what was returned to the connection does not change
  have hreaders : ∀ t, t.value = some n → ∀ v, ((s.setStage c t).readers v).card ≤ v := by
    intro t ht v
    refine le_trans (Finset.card_le_card (readers_subset fun d m hd hm => ?_)) (h.readers_le v)
    by_cases hdc : d = c
    · subst hdc
      rw [setStage_self, ht] at hm
      rw [hc]
      exact ⟨hd, hm⟩
    · rw [setStage_of_ne hdc] at hm
      exact ⟨hd, hm⟩
  -- admitted or refused, by the value that `get` returned and not by the counter of now
  by_cases hmax : cfg.kmaxConnections_ ≤ n
  · rw [ConnectionLimit.check, if_pos hmax]
    exact h.setStage hlive (by simp) (by simp) (hreaders _ rfl) (by simp)
  · rw [ConnectionLimit.check, if_neg hmax]
    refine h.setStage hlive (by simp) (by simp) (hreaders _ rfl) fun m hm => ?_
    cases hm
    exact Int32.not_le.1 hmax

theorem Inv.decrement (h : Inv cfg s) (hc : c ∈ s.live) : Inv cfg (s.decrement c) := by
  have hself : (s.decrement c).stage c = .down := setStage_self
  have hother : ∀ d, d ≠ c → (s.decrement c).stage d = s.stage d := fun _ => setStage_of_ne
  rcases h.mem_live.1 hc with ⟨hfresh, -⟩
  refine
    { up_iff := fun d => ?_
      down_iff := fun d => ?_
      sockets := ?_
      count := ?_
      readers_le := fun v => ?_
      below := fun d n hd => ?_ }
  · change d ∈ s.ups ↔ _
    by_cases hdc : d = c
    · subst hdc
      simp [hself, h.up_iff, hfresh]
    · rw [hother d hdc, h.up_iff]
  · change d ∈ Insert.insert c s.downs ↔ _
    by_cases hdc : d = c
    · subst hdc
      simp [hself]
    · simp [hother d hdc, hdc, h.down_iff]
  · rw [live_decrement]
    exact h.sockets.subset (Finset.erase_subset c s.live)
  -- one is up, so the counter stays non-negative
  · have hlt := h.sockets.card_lt
    have hpos : 0 < s.live.card := Finset.card_pos.2 ⟨c, hc⟩
    rw [live_decrement, Finset.card_erase_of_mem hc]
    change (s.numConnected_ - 1).toInt = _
    rw [Int32.toInt_sub, h.count, Int32.toInt_one, Int.bmod_eq_of_le] <;> omega
  · refine le_trans (Finset.card_le_card (readers_subset fun d m hd hm => ?_)) (h.readers_le v)
    rw [live_decrement, Finset.mem_erase] at hd
    rw [hother d hd.1] at hm
    exact ⟨hd.2, hm⟩
  · by_cases hdc : d = c
    · subst hdc
      rw [hself] at hd
      cases hd
    · rw [hother d hdc] at hd
      exact h.below d n hd

theorem Inv.step {e : LimitEvent} (h : Inv cfg s) (hstep : step cfg s e s') : Inv cfg s' := by
  cases e with
  | increment c =>
      rcases hstep with ⟨hc, haccept, hsock, rfl⟩
      exact h.increment hc haccept hsock
  | get c =>
      rcases hstep with ⟨hc, rfl⟩
      exact h.get hc
  | check c =>
      rcases hstep with ⟨n, hc, rfl⟩
      exact h.check hc
  | decrement c =>
      rcases hstep with ⟨⟨n, hc⟩, rfl⟩
      refine h.decrement (h.mem_live.2 ?_)
      rcases hc with hc | hc <;> simp [hc]

theorem reachable_inv (h : (runs cfg).Reachable s) : Inv cfg s := by
  refine h.invariant (P := Inv cfg) ?_ fun s e s' hs hstep => hs.step hstep
  rintro s rfl
  exact Inv.start

end Steps

/-! ## The limit -/

section Limit

variable {cfg : LimitConfig} {s : ConnectionLimit}

theorem Inv.card_live (h : Inv cfg s) : (s.live.card : Int) = s.ups.card - s.downs.card := by
  have hsub : s.downs ⊆ s.ups := by
    intro c hc
    rw [h.up_iff, (h.down_iff c).1 hc]
    simp
  have hle := Finset.card_le_card hsub
  rw [live, Finset.card_sdiff_of_subset hsub]
  omega

/-- Each admitted connection was returned less than the maximum. -/
theorem Inv.admitted_subset (h : Inv cfg s) (hmax : 1 ≤ cfg.kmaxConnections_.toInt) :
    s.admitted ⊆ s.readers (cfg.kmaxConnections_.toInt.toNat - 1) := by
  intro c hc
  rcases Finset.mem_filter.1 hc with ⟨hlive, hadm⟩
  cases hstage : s.stage c with
  | admitted n =>
      have hlt := Int32.lt_iff_toInt_lt.1 (h.below c n hstage)
      refine mem_readers.2 ⟨hlive, n, ?_, by omega⟩
      rw [hstage]
      rfl
  | fresh => simp [hstage, Stage.isAdmitted] at hadm
  | counted => simp [hstage, Stage.isAdmitted] at hadm
  | read n => simp [hstage, Stage.isAdmitted] at hadm
  | refused n => simp [hstage, Stage.isAdmitted] at hadm
  | down => simp [hstage, Stage.isAdmitted] at hadm

/-- The counter is the number of connections that reported up and not yet down, and the admitted ones
stay below the maximum, however the steps interleave. -/
theorem admitted_lt_kmaxConnections (cfg : LimitConfig) (hmax : 1 ≤ cfg.kmaxConnections_.toInt)
    (s : ConnectionLimit) (h : (runs cfg).Reachable s) :
    s.numConnected_.toInt = s.ups.card - s.downs.card ∧ 0 ≤ s.numConnected_.toInt ∧
      (s.admitted.card : Int) < cfg.kmaxConnections_.toInt := by
  have hinv := reachable_inv h
  have hcount := hinv.count
  have hlive := hinv.card_live
  -- all that are admitted were returned at most `kmaxConnections_ - 1`, and so many there can be
  have hcard := Finset.card_le_card (hinv.admitted_subset hmax)
  have hle := hinv.readers_le (cfg.kmaxConnections_.toInt.toNat - 1)
  refine ⟨by omega, by omega, by omega⟩

/-- Two connections, of which one may be admitted. -/
def twoSockets : LimitConfig where
  kmaxConnections_ := 2
  acceptSocket_ := 3
  sockfd := fun c => 4 + c % 2
  acceptSocket_lt := by decide
  sockfd_lt := by
    intro c
    omega

/-- The second is counted between `get` and the test of the first. -/
def race : ConnectionLimit := (((start.increment 0).get 0).increment 1).check twoSockets 0 1

theorem race_reachable : (runs twoSockets).Reachable race := by
  have hfirst : (runs twoSockets).Reachable (start.increment 0) :=
    .step (a := .increment 0) (.init rfl) ⟨rfl, by decide, by decide, rfl⟩
  have hget : (runs twoSockets).Reachable ((start.increment 0).get 0) :=
    .step (a := .get 0) hfirst ⟨rfl, rfl⟩
  have hsecond : (runs twoSockets).Reachable (((start.increment 0).get 0).increment 1) :=
    .step (a := .increment 1) hget ⟨rfl, by decide, by decide, rfl⟩
  exact .step (a := .check 0) hsecond ⟨1, rfl, rfl⟩

theorem admitted_lt_kmaxConnections_race :
    race.numConnected_.toInt = race.ups.card - race.downs.card ∧ 0 ≤ race.numConnected_.toInt ∧
      (race.admitted.card : Int) < twoSockets.kmaxConnections_.toInt :=
  admitted_lt_kmaxConnections twoSockets (by decide) race race_reachable

end Limit

/-! ## The steps without interruption -/

/-- `onConnection` of a connection that is up, when no thread interrupts it. -/
def onConnection (s : ConnectionLimit) (cfg : LimitConfig) (c : ConnId) : ConnectionLimit :=
  ((s.increment c).get c).check cfg c (s.increment c).numConnected_

/-- The wheels of `IdleWheel` count and refuse as the atomic steps do. -/
theorem onConnection_idleWheel {L : Nat} {cfg : LimitConfig} {wheels : WheelConfig L}
    {s : ConnectionLimit} {w : IdleWheel L} {c : ConnId} (h : Inv cfg s) (hc : s.stage c = .fresh)
    (haccept : cfg.sockfd c ≠ cfg.acceptSocket_)
    (hsock : ∀ d ∈ s.live, cfg.sockfd d ≠ cfg.sockfd c)
    (hmax : cfg.kmaxConnections_.toInt = wheels.kmaxConnections_)
    (hcount : s.numConnected_.toInt = w.numConnected_) :
    (s.onConnection cfg c).numConnected_.toInt = (w.onConnection wheels c).numConnected_ ∧
      (((s.onConnection cfg c).stage c).isAdmitted ↔
        (w.onConnection wheels c).state c = .connected) := by
  have hinc := h.increment hc haccept hsock
  have hnot : c ∉ s.live := fun hmem => (h.mem_live.1 hmem).1 hc
  have hnext : (s.increment c).numConnected_.toInt = w.numConnected_ + 1 := by
    rw [hinc.count, h.live_increment hc, Finset.card_insert_of_notMem hnot, ← hcount, h.count]
    omega
  by_cases hle : wheels.kmaxConnections_ ≤ w.numConnected_ + 1
  · have hle' : cfg.kmaxConnections_ ≤ (s.increment c).numConnected_ := by
      rw [Int32.le_iff_toInt_le]
      omega
    rw [onConnection, check, if_pos hle', IdleWheel.onConnection, if_pos hle]
    exact ⟨hnext, by simp [Stage.isAdmitted]⟩
  · have hle' : ¬ cfg.kmaxConnections_ ≤ (s.increment c).numConnected_ := by
      rw [Int32.le_iff_toInt_le]
      omega
    rw [onConnection, check, if_neg hle', IdleWheel.onConnection, if_neg hle]
    exact ⟨hnext, by simp [Stage.isAdmitted]⟩

end ConnectionLimit
end Web
end Longky
