import Mathlib.Data.List.Induction
import Longky.Lib.Positions
import Longky.Net.EPollPoller

/-!
# PollPoller — the poller over poll, against the one over epoll

`netLayer/poller/PollPoller.cpp`.  `index_` is here the place of a channel in the vector handed to
`poll`; a channel without interest keeps its place under a negative descriptor, and a removed one
leaves it to the last entry.

`interchangeable_iff` compares the two pollers over the same sequence of calls.
-/

namespace Longky
namespace Net

open Lib Positions

structure PollFd where
  fd : Int
  events : EventMask
  deriving DecidableEq, Repr

structure PollPoller (C : Type) extends Poller C where
  pollfds_ : List PollFd := []

namespace PollPoller

variable {C : Type} (fd : C → Nat)

/-- `pollfds_[idx]`, behind the assertion on its bounds. -/
def pollfdAt (s : PollPoller C) (idx : Int) : Except PollerFailure PollFd :=
  if 0 ≤ idx then
    match s.pollfds_[idx.toNat]? with
    | some pfd => .ok pfd
    | none => .error .assertion
  else .error .assertion

section Operations

variable [DecidableEq C]

def set_index (s : PollPoller C) (c : C) (index : Int) : PollPoller C :=
  { s with toPoller := s.toPoller.set_index c index }

def updateChannel (s : PollPoller C) (c : C) : Except PollerFailure (PollPoller C) :=
  let events := (s.channel c).events_
  if (s.channel c).index_ < 0 then do
    assertion (s.channels_ (fd c) = none)
    let s₁ := { s with pollfds_ := s.pollfds_ ++ [({ fd := fd c, events } : PollFd)] }
    let s₂ := s₁.set_index c (s₁.pollfds_.length - 1)
    return { s₂ with toPoller := s₂.insert (fd c) c }
  else do
    assertion (s.channels_ (fd c) ≠ none)
    assertion (s.channels_ (fd c) = some c)
    let idx := (s.channel c).index_
    let pfd ← s.pollfdAt idx
    assertion (pfd.fd = fd c ∨ pfd.fd = -fd c - 1)
    -- a negative descriptor makes `poll` ignore the entry
    let entry : PollFd :=
      { fd := if (s.channel c).isNoneEvent then -fd c - 1 else fd c, events }
    return { s with pollfds_ := s.pollfds_.set idx.toNat entry }

def removeChannel (s : PollPoller C) (c : C) : Except PollerFailure (PollPoller C) := do
  assertion (s.channels_ (fd c) ≠ none)
  assertion (s.channels_ (fd c) = some c)
  assertion ((s.channel c).isNoneEvent = true)
  let idx := (s.channel c).index_
  let pfd ← s.pollfdAt idx
  assertion (pfd.fd = -fd c - 1 ∧ pfd.events = (s.channel c).events_)
  let s₁ := { s with toPoller := s.erase (fd c) }
  let last := s.pollfds_.length - 1
  if idx = last then return { s₁ with pollfds_ := s.pollfds_.dropLast }
  else do
    let back ← s.pollfdAt last
    let channelAtEnd := if back.fd < 0 then -back.fd - 1 else back.fd
    match s₁.channels_ channelAtEnd.toNat with
    | none => .error .nullPointer
    | some c' =>
        return { s₁.set_index c' idx with
          pollfds_ := (swap s.pollfds_ idx.toNat last).dropLast }

/-- A member function of a channel. -/
def perform (s : PollPoller C) (c : C) : ChannelOp → Except PollerFailure (PollPoller C)
  | .update op => { s with toPoller := s.applyOp c op }.updateChannel fd c
  | .remove => do
      assertion ((s.channel c).isNoneEvent = true)
      { s with toPoller := s.detach c }.removeChannel fd c

def performAll (s : PollPoller C) (ops : List (C × ChannelOp)) :
    Except PollerFailure (PollPoller C) :=
  ops.foldlM (fun s o => s.perform fd o.1 o.2) s

/-! ## What each operation does -/

variable {fd} {p : PollPoller C} {c : C}

theorem updateChannel_new (hindex : (p.channel c).index_ < 0) (hmap : p.channels_ (fd c) = none) :
    p.updateChannel fd c = .ok {
      channel := Function.update p.channel c { p.channel c with index_ := p.pollfds_.length }
      channels_ := Function.update p.channels_ (fd c) (some c)
      pollfds_ := p.pollfds_ ++ [{ fd := fd c, events := (p.channel c).events_ }] } := by
  simp [updateChannel, set_index, Poller.set_index, Poller.setChannel, Poller.insert, hindex, hmap,
    assertion, bind, Except.bind, pure, Except.pure]

theorem updateChannel_listed {i : Nat} {pfd : PollFd} (hindex : (p.channel c).index_ = i)
    (hmap : p.channels_ (fd c) = some c) (hat : p.pollfds_[i]? = some pfd)
    (hpfd : pfd.fd = fd c ∨ pfd.fd = -fd c - 1) :
    p.updateChannel fd c = .ok { p with
      pollfds_ := p.pollfds_.set i
        { fd := if (p.channel c).isNoneEvent then -fd c - 1 else fd c
          events := (p.channel c).events_ } } := by
  have hnonneg : ¬ ((i : Int) < 0) := by omega
  simp [updateChannel, hindex, hmap, hnonneg, pollfdAt, hat, hpfd, assertion, bind, Except.bind,
    pure, Except.pure]

theorem perform_new (op : UpdateOp) (hindex : (p.channel c).index_ = -1)
    (hmap : p.channels_ (fd c) = none) :
    p.perform fd c (.update op) = .ok {
      channel := Function.update p.channel c
        { toChannel := op.apply (p.channel c).toChannel, index_ := p.pollfds_.length }
      channels_ := Function.update p.channels_ (fd c) (some c)
      pollfds_ := p.pollfds_ ++
        [{ fd := fd c, events := (op.apply (p.channel c).toChannel).events_ }] } := by
  rw [perform, updateChannel_new]
  · simp [Poller.applyOp, Poller.setChannel]
  · simp [Poller.applyOp, Poller.setChannel, hindex]
  · exact hmap

theorem perform_listed (op : UpdateOp) {i : Nat} {pfd : PollFd} (hindex : (p.channel c).index_ = i)
    (hmap : p.channels_ (fd c) = some c) (hat : p.pollfds_[i]? = some pfd)
    (hpfd : pfd.fd = fd c ∨ pfd.fd = -fd c - 1) :
    p.perform fd c (.update op) = .ok { p with
      channel := Function.update p.channel c
        { p.channel c with toChannel := op.apply (p.channel c).toChannel }
      pollfds_ := p.pollfds_.set i
        { fd := if (op.apply (p.channel c).toChannel).isNoneEvent then -fd c - 1 else fd c
          events := (op.apply (p.channel c).toChannel).events_ } } := by
  rw [perform, updateChannel_listed (p := { p with toPoller := p.applyOp c op }) ?_ hmap hat hpfd]
  · simp [Poller.applyOp, Poller.setChannel]
  · simp [Poller.applyOp, Poller.setChannel, hindex]

/-- A removed channel keeps its index, and the map has forgotten it. -/
theorem perform_stale (op : UpdateOp) (hindex : 0 ≤ (p.channel c).index_)
    (hmap : p.channels_ (fd c) = none) :
    p.perform fd c (.update op) = .error .assertion := by
  simp [perform, updateChannel, Poller.applyOp, Poller.setChannel, not_lt.2 hindex, hmap, assertion,
    bind, Except.bind]

/-- The entry of a channel to be removed has been put under a negative descriptor. -/
theorem perform_remove_error {i : Nat} {pfd : PollFd} (hindex : (p.channel c).index_ = i)
    (hat : p.pollfds_[i]? = some pfd) (hpfd : pfd.fd ≠ -fd c - 1) :
    p.perform fd c .remove = .error .assertion := by
  have hread : ({ p with toPoller := p.detach c } : PollPoller C).pollfdAt
      (({ p with toPoller := p.detach c } : PollPoller C).channel c).index_ = .ok pfd := by
    simp [Poller.detach, Poller.setChannel, pollfdAt, hindex, hat]
  unfold perform removeChannel
  -- an assertion in front of the one on the entry that fails gives the same error
  refine assertion_bind_error fun _ => assertion_bind_error fun _ => assertion_bind_error fun _ =>
    assertion_bind_error fun _ => ?_
  dsimp only
  rw [hread]
  exact assertion_bind_error fun hentry => absurd hentry.1 hpfd

theorem removeChannel_last {i : Nat} (hindex : (p.channel c).index_ = i)
    (hmap : p.channels_ (fd c) = some c) (hnone : (p.channel c).isNoneEvent = true)
    (hat : p.pollfds_[i]? = some { fd := -fd c - 1, events := (p.channel c).events_ })
    (hlast : i = p.pollfds_.length - 1) :
    p.removeChannel fd c = .ok { p with
      channels_ := Function.update p.channels_ (fd c) none
      pollfds_ := swapRemove p.pollfds_ i } := by
  have hdrop : p.pollfds_.dropLast = swapRemove p.pollfds_ i := by rw [hlast, swapRemove_last]
  have hlast' : ((i : Int) = ((p.pollfds_.length - 1 : Nat) : Int)) = True :=
    eq_true (congrArg Nat.cast hlast)
  simp [removeChannel, Poller.erase, hnone, hindex, hmap, pollfdAt, hat, hlast', hdrop, assertion,
    bind, Except.bind, pure, Except.pure]

/-- The channel of the last entry, which has moved into the gap, learns its new place. -/
theorem removeChannel_inner {i : Nat} {back : PollFd} {y : C} (hindex : (p.channel c).index_ = i)
    (hmap : p.channels_ (fd c) = some c) (hnone : (p.channel c).isNoneEvent = true)
    (hat : p.pollfds_[i]? = some { fd := -fd c - 1, events := (p.channel c).events_ })
    (hlast : i ≠ p.pollfds_.length - 1)
    (hback : p.pollfds_[p.pollfds_.length - 1]? = some back)
    (hy : back.fd = fd y ∨ back.fd = -fd y - 1) (hmapy : p.channels_ (fd y) = some y)
    (hne : fd y ≠ fd c) :
    p.removeChannel fd c = .ok { p with
      channel := Function.update p.channel y { p.channel y with index_ := i }
      channels_ := Function.update p.channels_ (fd c) none
      pollfds_ := swapRemove p.pollfds_ i } := by
  have hlast' : ¬ (i : Int) = ((p.pollfds_.length - 1 : Nat) : Int) := by exact_mod_cast hlast
  have hend : (if back.fd < 0 then -back.fd - 1 else back.fd).toNat = fd y := by
    split <;> omega
  simp [removeChannel, Poller.erase, set_index, Poller.set_index, Poller.setChannel, hnone, hindex,
    hmap, pollfdAt, hat, hlast', hback, hend, hne, hmapy, swapRemove, assertion, bind, Except.bind,
    pure, Except.pure]

/-- `Channel::remove` for the channel of the last entry. -/
theorem perform_remove_last {i : Nat} (hindex : (p.channel c).index_ = i)
    (hmap : p.channels_ (fd c) = some c) (hnone : (p.channel c).isNoneEvent = true)
    (hat : p.pollfds_[i]? = some { fd := -fd c - 1, events := (p.channel c).events_ })
    (hlast : i = p.pollfds_.length - 1) :
    p.perform fd c .remove = .ok { p with
      channel := Function.update p.channel c { p.channel c with addedToLoop_ := false }
      channels_ := Function.update p.channels_ (fd c) none
      pollfds_ := swapRemove p.pollfds_ i } := by
  have hdetached : (p.detach c).channel c = { p.channel c with addedToLoop_ := false } := by
    simp [Poller.detach, Poller.setChannel]
  rw [perform, assertion_of hnone]
  refine (removeChannel_last (p := { p with toPoller := p.detach c }) ?_ hmap ?_ ?_ hlast).trans ?_
  · exact (congrArg PolledChannel.index_ hdetached).trans hindex
  · exact (congrArg (fun ch => ch.toChannel.isNoneEvent) hdetached).trans hnone
  · exact hat.trans (by simp only [hdetached]; rfl)
  · rfl

/-- The same for a channel in front of it. -/
theorem perform_remove_inner {i : Nat} {back : PollFd} {y : C} (hindex : (p.channel c).index_ = i)
    (hmap : p.channels_ (fd c) = some c) (hnone : (p.channel c).isNoneEvent = true)
    (hat : p.pollfds_[i]? = some { fd := -fd c - 1, events := (p.channel c).events_ })
    (hlast : i ≠ p.pollfds_.length - 1)
    (hback : p.pollfds_[p.pollfds_.length - 1]? = some back)
    (hy : back.fd = fd y ∨ back.fd = -fd y - 1) (hmapy : p.channels_ (fd y) = some y)
    (hne : fd y ≠ fd c) (hyc : y ≠ c) :
    p.perform fd c .remove = .ok { p with
      channel := Function.update
        (Function.update p.channel c { p.channel c with addedToLoop_ := false }) y
        { p.channel y with index_ := i }
      channels_ := Function.update p.channels_ (fd c) none
      pollfds_ := swapRemove p.pollfds_ i } := by
  have hdetached : (p.detach c).channel c = { p.channel c with addedToLoop_ := false } := by
    simp [Poller.detach, Poller.setChannel]
  have hother : (p.detach c).channel y = p.channel y := Function.update_of_ne hyc _ _
  rw [perform, assertion_of hnone]
  refine (removeChannel_inner (p := { p with toPoller := p.detach c }) ?_ hmap ?_ ?_ hlast hback hy
    hmapy hne).trans ?_
  · exact (congrArg PolledChannel.index_ hdetached).trans hindex
  · exact (congrArg (fun ch => ch.toChannel.isNoneEvent) hdetached).trans hnone
  · exact hat.trans (by simp only [hdetached]; rfl)
  · simp only [hother]
    rfl

end Operations

/-- What `poll` watches a descriptor for. -/
def watched (p : PollPoller C) (f : Nat) : Option EventMask :=
  (p.pollfds_.find? fun pfd => decide (pfd.fd = (f : Int))).map PollFd.events

end PollPoller

namespace EPollPoller

/-- What `epoll_wait` watches a descriptor for. -/
def watched {C : Type} (s : EPollPoller C) (f : Nat) : Option EventMask :=
  (s.interest f).map Prod.fst

end EPollPoller

/-! ## The two pollers side by side -/

namespace PollPoller

variable {C : Type} (fd : C → Nat)

/-- The entry that `poll` has for a channel which `epoll` keeps in its map. -/
def entry (s : EPollPoller C) (c : C) : PollFd where
  fd := if (s.channel c).index_ = kAdded then fd c else -fd c - 1
  events := (s.channel c).events_

/-- The simulation relation.  `removed` are the channels that have been removed at some time. -/
structure Sim (removed : C → Prop) (s : EPollPoller C) (p : PollPoller C) : Prop where
  channel : ∀ c, (p.channel c).toChannel = (s.channel c).toChannel
  map : p.channels_ = s.channels_
  order : ∃ l, Positioned (fun c => (p.channel c).index_) l ∧
    (∀ c, c ∈ l ↔ s.channels_ (fd c) = some c) ∧ p.pollfds_ = l.map (entry fd s)
  fresh : ∀ c, ¬ removed c → s.channels_ (fd c) ≠ some c → (p.channel c).index_ = -1
  stale : ∀ c, removed c → s.channels_ (fd c) = none ∧ 0 ≤ (p.channel c).index_

theorem sim_start : Sim fd (fun _ => False) {} {} where
  channel _ := rfl
  map := rfl
  order := ⟨[], positioned_nil, by simp, rfl⟩
  fresh _ _ _ := rfl
  stale _ h := h.elim

variable {fd} {removed : C → Prop} {s s' : EPollPoller C} {p : PollPoller C} {c : C}

theorem isNoneEvent_eq (h : Sim fd removed s p) (c : C) :
    (p.channel c).isNoneEvent = (s.channel c).isNoneEvent := by
  rw [h.channel c]

theorem events_eq (h : Sim fd removed s p) (c : C) :
    (p.channel c).events_ = (s.channel c).events_ := by
  rw [h.channel c]

/-- Where a registered channel stands. -/
theorem Sim.entry_at (h : Sim fd removed s p) (hc : s.channels_ (fd c) = some c) :
    ∃ i : Nat, (p.channel c).index_ = i ∧ p.pollfds_[i]? = some (entry fd s c) := by
  rcases h.order with ⟨l, hpos, hmem, hfds⟩
  rcases hpos.cell ((hmem c).2 hc) with ⟨i, hi, hindex⟩
  exact ⟨i, hindex, by rw [hfds, List.getElem?_map, hi, Option.map_some]⟩

theorem entry_fd (s : EPollPoller C) (c : C) :
    (entry fd s c).fd = fd c ∨ (entry fd s c).fd = -fd c - 1 := by
  unfold entry
  split
  · exact Or.inl rfl
  · exact Or.inr rfl

theorem entry_fd_eq {f : Nat} :
    (entry fd s c).fd = f ↔ fd c = f ∧ (s.channel c).index_ = kAdded := by
  unfold entry
  split
  · rename_i hindex
    simp [hindex]
  · rename_i hindex
    exact iff_of_false (by dsimp only; omega) fun h => hindex h.2

/-- Both pollers watch the same descriptors for the same events. -/
theorem Sim.watched_eq (h : Sim fd removed s p) (hinv : EPollPoller.Inv fd s)
    (hstray : ∀ f, s.interest f ≠ none → ∃ c, fd c = f) (f : Nat) :
    p.watched f = s.watched f := by
  rcases h.order with ⟨l, -, hmem, hfds⟩
  have hadded : ∀ c, s.channels_ (fd c) = some c → (s.channel c).index_ = kAdded →
      s.Added fd c := by
    intro c hc hindex
    rcases (hinv.filed c).of_channels hc with hadd | hdel
    · exact hadd
    · exact absurd (hdel.1.symm.trans hindex) (by decide)
  unfold watched EPollPoller.watched
  -- the entry under `f` itself, not under a negative descriptor, is that of a listed channel
  cases hfind : p.pollfds_.find? fun pfd => decide (pfd.fd = (f : Int)) with
  | some pfd =>
      have hin := List.mem_of_find?_eq_some hfind
      have hat : pfd.fd = f := by simpa using List.find?_some hfind
      rw [hfds, List.mem_map] at hin
      rcases hin with ⟨c, hcl, rfl⟩
      rcases entry_fd_eq.1 hat with ⟨rfl, hindex⟩
      rw [(hadded c ((hmem c).1 hcl) hindex).2.2]
      rfl
  | none =>
      rw [List.find?_eq_none] at hfind
      cases hlist : s.interest f with
      | none => rfl
      | some e =>
          exfalso
          rcases hstray f (by simp [hlist]) with ⟨c, rfl⟩
          have hadd : s.Added fd c := by
            rcases hinv.filed c with hnew | hadd | hdel
            · simp [hnew.2.2] at hlist
            · exact hadd
            · simp [hdel.2.2] at hlist
          have hin : entry fd s c ∈ p.pollfds_ := by
            rw [hfds]
            exact List.mem_map_of_mem ((hmem c).2 hadd.2.1)
          exact hfind _ hin (by simpa using entry_fd_eq.2 ⟨rfl, hadd.1⟩)

/-- What the two pollers treat alike, after the calls `done`: no update of a channel that has been
removed, none that empties the interest set of a channel which `epoll` has dropped, and `remove`
only on such a channel. -/
def Alike (done : List (C × ChannelOp)) (s : EPollPoller C) (c : C) : ChannelOp → Prop
  | .update op => (c, .remove) ∉ done ∧
      ((op.apply (s.channel c).toChannel).isNoneEvent = true → (s.channel c).index_ ≠ kDeleted)
  | .remove => (s.channel c).index_ = kDeleted

/-- The pollers after the same sequence of calls. -/
structure Beside (fd : C → Nat) (done : List (C × ChannelOp)) (s : EPollPoller C)
    (p : PollPoller C) : Prop where
  inv : EPollPoller.Inv fd s
  stray : ∀ f, s.interest f ≠ none → ∃ c, fd c = f
  sim : Sim fd (fun c => (c, .remove) ∈ done) s p

theorem beside_start (fd : C → Nat) : Beside fd [] {} {} where
  inv := .start fd
  stray _ h := absurd rfl h
  sim := by simpa using sim_start fd

theorem Beside.watched_eq {done : List (C × ChannelOp)} (h : Beside fd done s p) (f : Nat) :
    p.watched f = s.watched f :=
  h.sim.watched_eq h.inv h.stray f

section Step

variable [DecidableEq C]

theorem entry_put_of_ne (hfd : Function.Injective fd) {ch : PolledChannel} {filed : Option C}
    {listed : Option (EventMask × C)} {c' : C} (h : c' ≠ c) :
    entry fd (s.put fd c ch filed listed) c' = entry fd s c' := by
  rcases EPollPoller.sameAt_put s c ch filed listed hfd h with ⟨hchannel, -, -⟩
  rw [entry, hchannel, entry]

/-- An update changes the channel alike on both sides. -/
theorem Sim.channel_put (h : Sim fd removed s p) (hfd : Function.Injective fd) (op : UpdateOp)
    {index : Int} {filed : Option C} {listed : Option (EventMask × C)} {ch : PolledChannel}
    (hch : ch.toChannel = op.apply (p.channel c).toChannel) (c' : C) :
    (Function.update p.channel c ch c').toChannel =
      ((s.put fd c (EPollPoller.updated s c op index) filed listed).channel c').toChannel := by
  by_cases heq : c' = c
  · subst heq
    simp [EPollPoller.updated, hch, h.channel]
  · rw [(EPollPoller.sameAt_put s c _ filed listed hfd heq).1]
    simpa [Function.update_of_ne heq] using h.channel c'

/-- What `updateChannel` writes into the entry of a registered channel. -/
theorem Sim.entry_updated (h : Sim fd removed s p) (op : UpdateOp) {index : Int}
    {filed : Option C} {listed : Option (EventMask × C)}
    (hindex : (op.apply (s.channel c).toChannel).isNoneEvent = true ↔ index ≠ kAdded) :
    ({ fd := if (op.apply (p.channel c).toChannel).isNoneEvent then -fd c - 1 else fd c
       events := (op.apply (p.channel c).toChannel).events_ } : PollFd) =
      entry fd (s.put fd c (EPollPoller.updated s c op index) filed listed) c := by
  cases hnone : (op.apply (s.channel c).toChannel).isNoneEvent with
  | true =>
      have hne : index ≠ kAdded := hindex.1 hnone
      simp [entry, EPollPoller.updated, h.channel, hnone, hne]
  | false =>
      have heq : index = kAdded := by
        by_contra hne
        simp [hindex.2 hne] at hnone
      simp [entry, EPollPoller.updated, h.channel, hnone, heq]

/-- A fresh channel goes to the end of the vector. -/
theorem Sim.new (h : Sim fd removed s p) (hfd : Function.Injective fd) (hnew : s.New fd c)
    (hc : ¬ removed c) (op : UpdateOp) {listed : Option (EventMask × C)} :
    ∃ p', p.perform fd c (.update op) = .ok p' ∧
      Sim fd removed (s.put fd c (EPollPoller.updated s c op kAdded) (some c) listed) p' := by
  have hmap : p.channels_ (fd c) = none := by rw [h.map, hnew.2.1]
  have hunfiled : s.channels_ (fd c) ≠ some c := by simp [hnew.2.1]
  refine ⟨_, perform_new op (h.fresh c hc hunfiled) hmap, ?_⟩
  rcases h.order with ⟨l, hpos, hmem, hfds⟩
  have hcl : c ∉ l := fun hin => hunfiled ((hmem c).1 hin)
  have hsame := fun c' (hne : c' ≠ c) => EPollPoller.sameAt_put s c
    (EPollPoller.updated s c op kAdded) (some c) listed hfd hne
  refine ⟨h.channel_put hfd op rfl, ?_, ⟨l ++ [c], ?_, ?_, ?_⟩, ?_, ?_⟩
  · simp [EPollPoller.put, h.map]
  · refine (hpos.concat hcl).congr ?_
    intro c' _
    by_cases heq : c' = c
    · subst heq
      simp [hfds]
    · simp [Function.update_of_ne heq]
  · intro c'
    by_cases heq : c' = c
    · subst heq
      simp
    · rw [(hsame c' heq).2.1, List.mem_append, hmem]
      simp [heq]
  · rw [List.map_append]
    refine congrArg₂ _ ?_ ?_
    · rw [hfds]
      refine List.map_congr_left fun c' hin => ?_
      have hne : c' ≠ c := fun heq => hcl (heq ▸ hin)
      exact (entry_put_of_ne hfd hne).symm
    · simp [entry, EPollPoller.updated, h.channel]
  · intro c' hrem hunf
    have hne : c' ≠ c := by
      rintro rfl
      simp at hunf
    rw [(hsame c' hne).2.1] at hunf
    simpa [Function.update_of_ne hne] using h.fresh c' hrem hunf
  · intro c' hrem
    have hne : c' ≠ c := fun heq => hc (heq ▸ hrem)
    rw [(hsame c' hne).2.1]
    simpa [Function.update_of_ne hne] using h.stale c' hrem

/-- A registered channel keeps its place. -/
theorem Sim.listed (h : Sim fd removed s p) (hfd : Function.Injective fd)
    (hc : s.channels_ (fd c) = some c) (op : UpdateOp) {index : Int}
    {listed : Option (EventMask × C)}
    (hindex : (op.apply (s.channel c).toChannel).isNoneEvent = true ↔ index ≠ kAdded) :
    ∃ p', p.perform fd c (.update op) = .ok p' ∧
      Sim fd removed (s.put fd c (EPollPoller.updated s c op index) (some c) listed) p' := by
  rcases h.entry_at hc with ⟨i, hi, hat⟩
  have hmap : p.channels_ (fd c) = some c := by rw [h.map, hc]
  refine ⟨_, perform_listed op hi hmap hat (entry_fd s c), ?_⟩
  have hfiled : ∀ c', (s.put fd c (EPollPoller.updated s c op index) (some c) listed).channels_
      (fd c') = s.channels_ (fd c') := by
    intro c'
    by_cases heq : c' = c
    · subst heq
      simp [hc]
    · exact (EPollPoller.sameAt_put s c _ (some c) listed hfd heq).2.1
  have hkept : ∀ c', (Function.update p.channel c
      { p.channel c with toChannel := op.apply (p.channel c).toChannel } c').index_ =
        (p.channel c').index_ := by
    intro c'
    by_cases heq : c' = c
    · subst heq
      simp
    · rw [Function.update_of_ne heq]
  rcases h.order with ⟨l, hpos, hmem, hfds⟩
  refine ⟨h.channel_put hfd op rfl, ?_, ⟨l, ?_, ?_, ?_⟩, ?_, ?_⟩
  · simp only [EPollPoller.put, h.map]
    exact (Function.update_eq_self_iff.2 hc.symm).symm
  · exact hpos.congr fun c' _ => hkept c'
  · exact fun c' => by rw [hfiled, hmem]
  · -- the entry at `i` is the one of `c`, and it alone is written
    have hli : l[i]? = some c := by
      rcases hpos.cell ((hmem c).2 hc) with ⟨j, hj, hji⟩
      have hij : (i : Int) = j := hi.symm.trans hji
      rwa [show i = j by exact_mod_cast hij]
    dsimp only
    rw [hfds, h.entry_updated op hindex]
    exact hpos.map_set hli fun c' _ hne => entry_put_of_ne hfd hne
  · intro c' hrem hunf
    rw [hfiled] at hunf
    rw [hkept]
    exact h.fresh c' hrem hunf
  · intro c' hrem
    rw [hfiled, hkept]
    exact h.stale c' hrem

/-- The relation after a removal, whatever the poller has done to the indices of those that stay. -/
theorem Sim.drop (h : Sim fd removed s p) (hfd : Function.Injective fd) {l : List C} {i : Nat}
    (hpos : Positioned (fun c => (p.channel c).index_) l)
    (hmem : ∀ c, c ∈ l ↔ s.channels_ (fd c) = some c) (hfds : p.pollfds_ = l.map (entry fd s))
    (hli : l[i]? = some c) {channel : C → PolledChannel}
    (hchannel : ∀ c', (channel c').toChannel =
      if c' = c then { (s.channel c).toChannel with addedToLoop_ := false }
      else (s.channel c').toChannel)
    (hpos' : Positioned (fun c' => (channel c').index_) (swapRemove l i))
    (hkept : ∀ c', s.channels_ (fd c') ≠ some c' ∨ c' = c →
      (channel c').index_ = (p.channel c').index_) :
    Sim fd (fun c' => removed c' ∨ c' = c)
      (s.put fd c { s.channel c with addedToLoop_ := false, index_ := kNew } none none)
      { p with
        channel
        channels_ := Function.update p.channels_ (fd c) none
        pollfds_ := swapRemove p.pollfds_ i } := by
  -- another channel keeps its place in the map, and its index but for the one that has moved
  have hsame := fun c' (hne : c' ≠ c) => EPollPoller.sameAt_put s c
    { s.channel c with addedToLoop_ := false, index_ := kNew } none none hfd hne
  refine ⟨?_, ?_, ⟨swapRemove l i, hpos', ?_, ?_⟩, ?_, ?_⟩
  · intro c'
    rw [hchannel]
    by_cases heq : c' = c
    · subst heq
      simp
    · rw [if_neg heq, (hsame c' heq).1]
  · simp [EPollPoller.put, h.map]
  · intro c'
    rw [hpos.mem_swapRemove hli, hmem]
    by_cases heq : c' = c
    · subst heq
      simp
    · rw [(hsame c' heq).2.1]
      exact and_iff_left heq
  · rw [hfds, ← map_swapRemove]
    refine List.map_congr_left fun c' hin => ?_
    exact (entry_put_of_ne hfd ((hpos.mem_swapRemove hli).1 hin).2).symm
  · intro c' hrem hunf
    rw [not_or] at hrem
    rw [(hsame c' hrem.2).2.1] at hunf
    rw [hkept c' (Or.inl hunf)]
    exact h.fresh c' hrem.1 hunf
  · rintro c' hrem
    by_cases heq : c' = c
    · subst heq
      rw [hkept c' (Or.inr rfl), show (p.channel c').index_ = i from hpos i c' hli]
      exact ⟨by simp, Int.natCast_nonneg i⟩
    · have hstale := h.stale c' (hrem.resolve_right heq)
      rw [(hsame c' heq).2.1, hkept c' (Or.inl (by simp [hstale.1]))]
      exact hstale

/-- A channel that `epoll` has taken out of its list is removed by both. -/
theorem Sim.remove (h : Sim fd removed s p)
    (hfd : Function.Injective fd) (hdeleted : s.Deleted fd c)
    (hnone : (s.channel c).isNoneEvent = true) :
    ∃ p', p.perform fd c .remove = .ok p' ∧
      Sim fd (fun c' => removed c' ∨ c' = c) (s.put fd c
        { s.channel c with addedToLoop_ := false, index_ := kNew } none none) p' := by
  rcases h.order with ⟨l, hpos, hmem, hfds⟩
  have hc : s.channels_ (fd c) = some c := hdeleted.2.1
  rcases hpos.cell ((hmem c).2 hc) with ⟨i, hli, hindex⟩
  have hmap : p.channels_ (fd c) = some c := by rw [h.map, hc]
  have hnone' : (p.channel c).isNoneEvent = true := by rw [isNoneEvent_eq h, hnone]
  have hat : p.pollfds_[i]? = some { fd := -fd c - 1, events := (p.channel c).events_ } := by
    have hne : ¬ kDeleted = kAdded := by decide
    rw [hfds, List.getElem?_map, hli, Option.map_some, entry, hdeleted.1, if_neg hne, events_eq h]
  have hlt : i < l.length := (List.getElem?_eq_some_iff.1 hli).1
  have hlen : p.pollfds_.length = l.length := by rw [hfds, List.length_map]
  by_cases hlast : i = l.length - 1
  · -- the last entry is popped, and no index changes
    refine ⟨_, perform_remove_last hindex hmap hnone' hat (by rw [hlen, hlast]),
      h.drop hfd hpos hmem hfds hli ?_ ?_ ?_⟩
    · intro c'
      by_cases heq : c' = c
      · subst heq
        simp [h.channel]
      · simp [heq, h.channel]
    · rw [hlast, swapRemove_last]
      refine hpos.dropLast.congr fun c' _ => ?_
      by_cases heq : c' = c
      · subst heq
        simp
      · rw [Function.update_of_ne heq]
    · intro c' _
      by_cases heq : c' = c
      · subst heq
        simp
      · rw [Function.update_of_ne heq]
  · -- the channel of the last entry, `y`, takes the place `i`, and only its index changes
    obtain ⟨y, hy⟩ : ∃ y, l[l.length - 1]? = some y :=
      ⟨_, List.getElem?_eq_getElem (by omega)⟩
    have hyc : y ≠ c := by
      rintro rfl
      exact hlast (hpos.index_eq hli hy)
    have hmapy : s.channels_ (fd y) = some y := (hmem y).1 (List.mem_of_getElem? hy)
    have hback : p.pollfds_[p.pollfds_.length - 1]? = some (entry fd s y) := by
      rw [hlen, hfds, List.getElem?_map, hy, Option.map_some]
    refine ⟨_, perform_remove_inner hindex hmap hnone' hat (by rwa [hlen]) hback (entry_fd s y)
      (by rw [h.map, hmapy]) (fun heq => hyc (hfd heq)) hyc,
      h.drop hfd hpos hmem hfds hli ?_ ?_ ?_⟩
    · intro c'
      by_cases heq : c' = c
      · subst heq
        simp [Function.update_of_ne hyc.symm, h.channel]
      · by_cases hey : c' = y
        · subst hey
          simp [heq, h.channel]
        · simp [Function.update_of_ne hey, heq, h.channel]
    · refine (hpos.swapRemove hlt hy).congr fun c' _ => ?_
      by_cases hey : c' = y
      · subst hey
        simp
      · by_cases heq : c' = c
        · subst heq
          simp [Function.update_of_ne hey]
        · simp [Function.update_of_ne hey, Function.update_of_ne heq]
    · rintro c' hc'
      have hey : c' ≠ y := by
        rintro rfl
        exact hc'.elim (fun hunf => hunf hmapy) hyc
      by_cases heq : c' = c
      · subst heq
        simp [Function.update_of_ne hey]
      · simp [Function.update_of_ne hey, Function.update_of_ne heq]

/-! ## Sequences of calls -/

variable {done : List (C × ChannelOp)} {o : ChannelOp}

theorem Beside.stray_perform (h : Beside fd done s p) (hs : s.perform fd c o = .ok s') (f : Nat)
    (hf : s'.interest f ≠ none) : ∃ c, fd c = f := by
  by_cases heq : f = fd c
  · exact ⟨c, heq.symm⟩
  · rw [h.inv.interest_perform hs heq] at hf
    exact h.stray f hf

/-- The step of the simulation. -/
theorem Beside.perform (h : Beside fd done s p) (hfd : Function.Injective fd)
    (ho : Alike done s c o) (hs : s.perform fd c o = .ok s') :
    ∃ p', p.perform fd c o = .ok p' ∧ Beside fd (done ++ [(c, o)]) s' p' := by
  have hinv' := h.inv.perform hfd hs
  have hstray' := h.stray_perform hs
  cases o with
  | update op =>
      rcases ho with ⟨hc, hnone⟩
      have hdone : (fun c' => (c', ChannelOp.remove) ∈ done ++ [(c, .update op)]) =
          fun c' => (c', ChannelOp.remove) ∈ done := by
        funext c'
        simp
      rcases EPollPoller.perform_update fd (h.inv.filed c) op with
        ⟨index, listed, hperform, hcase, hlisted⟩
      cases hs.symm.trans hperform
      suffices hgoal : ∃ p', p.perform fd c (.update op) = .ok p' ∧
          Sim fd (fun c => (c, .remove) ∈ done)
            (s.put fd c (EPollPoller.updated s c op index) (some c) listed) p' by
        rcases hgoal with ⟨p', hp', hsim⟩
        exact ⟨p', hp', hinv', hstray', hdone ▸ hsim⟩
      have hdeleted : kDeleted ≠ kAdded := by decide
      have hindex : index = kAdded ∨ index = kDeleted := hcase.imp (·.1) (·.1)
      have hnew : index = kAdded ↔ listed ≠ none := by
        rcases hcase with ⟨rfl, rfl⟩ | ⟨rfl, rfl, -⟩ <;> simp [hdeleted]
      -- a fresh channel gets an entry, one that `epoll` keeps has its entry written, and one that
      -- `epoll` has dropped must not stay empty, for `epoll` would list it again
      rcases h.inv.filed c with hnewc | hadd | hdel
      · obtain rfl : index = kAdded := by
          rw [hnew, Ne, hlisted, hnewc.1]
          simp [kNew, kAdded]
        exact h.sim.new hfd hnewc hc op
      · refine h.sim.listed hfd hadd.2.1 op ?_
        rw [Ne, hnew, not_not, hlisted, and_iff_left hadd.1]
      · refine h.sim.listed hfd hdel.2.1 op (iff_of_false (fun hn => hnone hn hdel.1) ?_)
        rw [not_not, hnew, Ne, hlisted, hdel.1]
        simp [hdeleted]
  | remove =>
      rcases EPollPoller.admissible_of_perform hs with ⟨hmap, hnone⟩
      have hcase := (h.inv.filed c).of_channels hmap
      have hdel : s.Deleted fd c := by
        refine hcase.resolve_left fun hadd => ?_
        exact absurd (hadd.1.symm.trans ho) (by decide)
      cases hs.symm.trans (EPollPoller.perform_remove hcase hnone)
      have hdone : (fun c' => (c', ChannelOp.remove) ∈ done ++ [(c, .remove)]) =
          fun c' => (c', ChannelOp.remove) ∈ done ∨ c' = c := by
        funext c'
        simp
      rcases h.sim.remove hfd hdel hnone with ⟨p', hp', hsim⟩
      exact ⟨p', hp', hinv', hstray', hdone ▸ hsim⟩

/-- Where the two pollers do not treat a call alike, one assertion fails or the watched descriptors
part. -/
theorem Beside.alike (h : Beside fd done s p) (hfd : Function.Injective fd) {p' : PollPoller C}
    (hs : s.perform fd c o = .ok s') (hp : p.perform fd c o = .ok p')
    (hw : ∀ f, p'.watched f = s'.watched f) : Alike done s c o := by
  cases o with
  | update op =>
      refine ⟨fun hrem => ?_, fun hnone hdeleted => ?_⟩
      · rcases h.sim.stale c hrem with ⟨hmap, hindex⟩
        cases hp.symm.trans (perform_stale op hindex (by rw [h.sim.map, hmap]))
      · have hdel : s.Deleted fd c := by
          rcases h.inv.filed c with hnew | hadd | hdel
          · exact absurd (hnew.1.symm.trans hdeleted) (by decide)
          · exact absurd (hadd.1.symm.trans hdeleted) (by decide)
          · exact hdel
        -- `poll` goes on as if `epoll` had left the channel outside its list
        let s₀ := s.put fd c (EPollPoller.updated s c op kDeleted) (some c) none
        have hinv₀ : EPollPoller.Inv fd s₀ := by
          refine h.inv.put hfd (Or.inr (Or.inr ⟨?_, ?_, ?_⟩))
          · simp [EPollPoller.updated]
          · simp
          · simp
        have hstray₀ : ∀ f, s₀.interest f ≠ none → ∃ c, fd c = f := by
          intro f hf
          by_cases heq : f = fd c
          · exact ⟨c, heq.symm⟩
          · exact h.stray f (by simpa [s₀, EPollPoller.put, Function.update_of_ne heq] using hf)
        obtain ⟨p₀, hp₀, hsim₀⟩ : ∃ p₀, p.perform fd c (.update op) = .ok p₀ ∧
            Sim fd (fun c => (c, .remove) ∈ done) s₀ p₀ :=
          h.sim.listed hfd hdel.2.1 op (iff_of_true hnone (by decide))
        cases hp.symm.trans hp₀
        have hpoll : p'.watched (fd c) = none := by
          rw [hsim₀.watched_eq hinv₀ hstray₀]
          simp [EPollPoller.watched, s₀]
        cases hs.symm.trans (EPollPoller.perform_deleted op hdel)
        have hepoll := hw (fd c)
        rw [hpoll] at hepoll
        simp [EPollPoller.watched] at hepoll
  | remove =>
      rcases EPollPoller.admissible_of_perform hs with ⟨hmap, -⟩
      rcases (h.inv.filed c).of_channels hmap with hadd | hdel
      · rcases h.sim.entry_at hmap with ⟨i, hindex, hat⟩
        have hentry : (entry fd s c).fd = fd c := entry_fd_eq.2 ⟨rfl, hadd.1⟩
        cases hp.symm.trans (perform_remove_error hindex hat (by rw [hentry]; omega))
      · exact hdel.1

theorem performAll_concat {q : PollPoller C} {x : C × ChannelOp} {ops : List (C × ChannelOp)} :
    p.performAll fd (ops ++ [x]) = .ok q ↔
      ∃ p₁, p.performAll fd ops = .ok p₁ ∧ p₁.perform fd x.1 x.2 = .ok q := by
  unfold performAll
  rw [List.foldlM_append]
  cases hp : ops.foldlM (fun s o => perform fd s o.1 o.2) p with
  | error e => exact iff_of_false nofun (by simp)
  | ok p₁ =>
      simp only [bind, Except.bind, List.foldlM_cons, List.foldlM_nil, Except.ok.injEq, exists_eq_left']
      split <;> simp_all [pure, Except.pure]

/-- Both pollers execute the calls so far, and watch the same after each of them. -/
def Interchangeable (fd : C → Nat) (ops : List (C × ChannelOp)) : Prop :=
  ∀ ops' s, ops' <+: ops → EPollPoller.performAll fd {} ops' = .ok s →
    ∃ p, performAll fd {} ops' = .ok p ∧ ∀ f, p.watched f = s.watched f

/-- Each call of a sequence is treated alike when it is made. -/
def AlikeAll (fd : C → Nat) (ops : List (C × ChannelOp)) : Prop :=
  ∀ done c o, done ++ [(c, o)] <+: ops → ∀ s, EPollPoller.performAll fd {} done = .ok s →
    Alike done s c o

theorem alikeAll_nil (fd : C → Nat) : AlikeAll fd [] := by
  intro done c o hp
  simp at hp

theorem alikeAll_concat {ops : List (C × ChannelOp)} {x : C × ChannelOp} :
    AlikeAll fd (ops ++ [x]) ↔ AlikeAll fd ops ∧
      ∀ s, EPollPoller.performAll fd {} ops = .ok s → Alike ops s x.1 x.2 := by
  constructor
  · intro h
    exact ⟨fun done c o hp => h done c o (hp.trans (List.prefix_append _ _)),
      h ops x.1 x.2 (List.prefix_refl _)⟩
  · rintro ⟨hbefore, hlast⟩ done c o hp s hs
    rcases List.prefix_concat_iff.1 hp with heq | hp
    · rcases List.append_inj' heq rfl with ⟨rfl, hx⟩
      obtain rfl : (c, o) = x := by simpa using hx
      exact hlast s hs
    · exact hbefore done c o hp s hs

/-- The run of the simulation. -/
theorem AlikeAll.beside (hfd : Function.Injective fd) {ops : List (C × ChannelOp)}
    (h : AlikeAll fd ops) {s : EPollPoller C} (hs : EPollPoller.performAll fd {} ops = .ok s) :
    ∃ p, performAll fd {} ops = .ok p ∧ Beside fd ops s p := by
  induction ops using List.reverseRecOn generalizing s with
  | nil =>
      cases hs
      exact ⟨{}, rfl, beside_start fd⟩
  | append_singleton ops x ih =>
      rcases EPollPoller.performAll_concat.1 hs with ⟨s₁, hs₁, hstep⟩
      rcases alikeAll_concat.1 h with ⟨hbefore, hlast⟩
      rcases ih hbefore hs₁ with ⟨p₁, hp₁, hbeside⟩
      rcases hbeside.perform hfd (hlast s₁ hs₁) hstep with ⟨p, hp, hbeside'⟩
      exact ⟨p, performAll_concat.2 ⟨p₁, hp₁, hp⟩, hbeside'⟩

theorem AlikeAll.interchangeable (hfd : Function.Injective fd) {ops : List (C × ChannelOp)}
    (h : AlikeAll fd ops) : Interchangeable fd ops := by
  intro ops' s hp hs
  have hbefore : AlikeAll fd ops' := fun done c o hd => h done c o (hd.trans hp)
  rcases hbefore.beside hfd hs with ⟨p, hp, hbeside⟩
  exact ⟨p, hp, hbeside.watched_eq⟩

theorem Interchangeable.alikeAll (hfd : Function.Injective fd) {ops : List (C × ChannelOp)}
    (h : Interchangeable fd ops) {s : EPollPoller C}
    (hs : EPollPoller.performAll fd {} ops = .ok s) : AlikeAll fd ops := by
  induction ops using List.reverseRecOn generalizing s with
  | nil => exact alikeAll_nil fd
  | append_singleton ops x ih =>
      rcases EPollPoller.performAll_concat.1 hs with ⟨s₁, hs₁, hstep⟩
      have hbefore : AlikeAll fd ops :=
        ih (fun ops' s' hp => h ops' s' (hp.trans (List.prefix_append _ _))) hs₁
      refine alikeAll_concat.2 ⟨hbefore, fun s' hs' => ?_⟩
      cases hs'.symm.trans hs₁
      rcases hbefore.beside hfd hs₁ with ⟨p₁, hp₁, hbeside⟩
      rcases h _ _ (List.prefix_refl _) hs with ⟨p, hp, hw⟩
      rcases performAll_concat.1 hp with ⟨p₂, hp₂, hpstep⟩
      cases hp₁.symm.trans hp₂
      exact hbeside.alike hfd hstep hpstep hw

/-- A sequence that the epoll poller executes is executed by the poll poller as well, with the same
descriptors watched after each call, if and only if each of its calls is treated alike. -/
theorem interchangeable_iff (hfd : Function.Injective fd) {ops : List (C × ChannelOp)}
    (h : EPollPoller.performAll fd {} ops = .ok s) :
    Interchangeable fd ops ↔ AlikeAll fd ops :=
  ⟨fun hinter => hinter.alikeAll hfd h, fun halike => halike.interchangeable hfd⟩

end Step

open EPollPoller (twoFds twoFds_injective)

/-- A channel is removed and enabled again. -/
def enabledAgain : List (Bool × ChannelOp) :=
  [(true, .update .enableReading), (true, .update .disableAll), (true, .remove),
    (true, .update .enableReading)]

/-- A channel is destroyed that was never enabled. -/
def neverEnabled : List (Bool × ChannelOp) :=
  [(true, .update .disableAll), (true, .remove)]

/-- `removeChannel` leaves the old place in `index_`, and the entry of a fresh channel is pushed
with its own descriptor whatever its mask is. -/
theorem poll_fails_where_epoll_does_not :
    (∃ s, EPollPoller.performAll twoFds {} enabledAgain = .ok s ∧
      s.watched 4 = some (true, false)) ∧
    performAll twoFds {} enabledAgain = .error .assertion ∧
    (∃ s, EPollPoller.performAll twoFds {} neverEnabled = .ok s) ∧
    performAll twoFds {} neverEnabled = .error .assertion :=
  ⟨⟨_, rfl, rfl⟩, rfl, ⟨_, rfl⟩, rfl⟩

/-- Two channels come, and the one at the front of the vector goes. -/
def frontRemoved : List (Bool × ChannelOp) :=
  [(true, .update .enableReading), (false, .update .enableWriting), (true, .update .disableAll),
    (true, .remove)]

theorem interchangeable_frontRemoved : Interchangeable twoFds frontRemoved := by
  obtain ⟨s, hs⟩ : ∃ s, EPollPoller.performAll twoFds {} frontRemoved = .ok s := ⟨_, rfl⟩
  refine (interchangeable_iff twoFds_injective hs).2 ?_
  have hcalls : frontRemoved = [] ++ [(true, .update .enableReading)] ++
      [(false, .update .enableWriting)] ++ [(true, .update .disableAll)] ++ [(true, .remove)] := rfl
  simp only [hcalls, alikeAll_concat]
  refine ⟨⟨⟨⟨alikeAll_nil twoFds, ?_⟩, ?_⟩, ?_⟩, ?_⟩
  · rintro s ⟨⟩
    exact ⟨by decide, by decide⟩
  · rintro s ⟨⟩
    exact ⟨by decide, by decide⟩
  · rintro s ⟨⟩
    exact ⟨by decide, by decide⟩
  · rintro s ⟨⟩
    rfl

end PollPoller
end Net
end Longky
