import Mathlib.Data.Set.Card
import Longky.Net.PollPoller

/-!
# PollIndex — each channel and its slot

`PollPoller::updateChannel`, `removeChannel` and `fillActiveChannels` of
`netLayer/poller/PollPoller.cpp`, called in any order on channels with any interest sets.

* `Slots` — the invariant: the channels of the map in the order of `pollfds_`, each with its index.
* `callAll_indexed` — it holds after every sequence of calls, so an event reaches the channel of the
  slot in which `poll` has reported it.
-/

namespace Longky
namespace Net

open Lib Positions

/-- A call, with what the members of the channel have become before it. -/
inductive PollerCall (C : Type) where
  | updateChannel (c : C) (members : Channel)
  | removeChannel (c : C) (members : Channel)

/-- What `fillActiveChannels` writes: a member of the channels, and the list. -/
structure Active (C : Type) where
  revents_ : C → Int
  activeChannels : List C

namespace PollPoller

variable {C : Type} (fd : C → Nat)

section Calls

variable [DecidableEq C]

def setMembers (s : PollPoller C) (c : C) (members : Channel) : PollPoller C :=
  { s with toPoller := s.setChannel c { s.channel c with toChannel := members } }

def call (s : PollPoller C) : PollerCall C → Except PollerFailure (PollPoller C)
  | .updateChannel c members => (s.setMembers c members).updateChannel fd c
  | .removeChannel c members => (s.setMembers c members).removeChannel fd c

def callAll (s : PollPoller C) (calls : List (PollerCall C)) : Except PollerFailure (PollPoller C) :=
  calls.foldlM (call fd) s

/-- A member function of a channel that calls `update()`. -/
theorem perform_update_eq_call (s : PollPoller C) (c : C) (op : UpdateOp) :
    s.perform fd c (.update op) =
      s.call fd (.updateChannel c (op.apply (s.channel c).toChannel)) := rfl

theorem perform_remove_eq_call (s : PollPoller C) (c : C)
    (h : (s.channel c).isNoneEvent = true) :
    s.perform fd c .remove =
      s.call fd (.removeChannel c { (s.channel c).toChannel with addedToLoop_ := false }) := by
  rw [perform, assertion_of h]
  rfl

/-- `channels_.find(f)`; the keys are descriptors. -/
def find (s : PollPoller C) (f : Int) : Option C :=
  if f < 0 then none else s.channels_ f.toNat

/-- The loop over the slots, each with its `revents`. -/
def fillActiveChannels (s : PollPoller C) :
    List (PollFd × Int) → Int → Active C → Except PollerFailure (Active C)
  | [], _, active => .ok active
  | (pfd, revents) :: slots, numEvents, active =>
      if 0 < numEvents then
        if 0 < revents then
          match s.find pfd.fd with
          | none => .error .assertion
          | some channel => do
              assertion ((fd channel : Int) = pfd.fd)
              fillActiveChannels s slots (numEvents - 1)
                { revents_ := Function.update active.revents_ channel revents
                  activeChannels := active.activeChannels ++ [channel] }
        else fillActiveChannels s slots numEvents active
      else .ok active

end Calls

/-! ## The invariant -/

/-- The slot of a channel, also when the channel has changed its interest set since. -/
def IsSlot (s : PollPoller C) (changed : C → Prop) (c : C) (pfd : PollFd) : Prop :=
  (pfd.fd = fd c ∨ pfd.fd = -fd c - 1) ∧ (¬ changed c → pfd.events = (s.channel c).events_)

/-- The channels of the map in the order of their slots. -/
structure Order (changed : C → Prop) (s : PollPoller C) (l : List C) : Prop where
  keyed : ∀ f c, s.channels_ f = some c → fd c = f
  mem : ∀ c, c ∈ l ↔ s.channels_ (fd c) = some c
  positioned : Positioned (fun c => (s.channel c).index_) l
  length : s.pollfds_.length = l.length
  slot : ∀ (i : Nat) (c : C), l[i]? = some c →
    ∃ pfd, s.pollfds_[i]? = some pfd ∧ IsSlot fd s changed c pfd

/-- `changed` are the channels whose interest set has changed since their slot was written. -/
def Slots (changed : C → Prop) (s : PollPoller C) : Prop := ∃ l, Order fd changed s l

theorem slots_start : Slots fd (fun _ => False) {} :=
  ⟨[], by simp, by simp, positioned_nil, rfl, by simp⟩

section Step

variable {fd} {s : PollPoller C} {c : C} {l : List C}

/-- Where a channel of the map stands. -/
theorem Order.cell {changed : C → Prop} (h : Order fd changed s l)
    (hc : s.channels_ (fd c) = some c) :
    ∃ (i : Nat) (pfd : PollFd), l[i]? = some c ∧ (s.channel c).index_ = i ∧
      s.pollfds_[i]? = some pfd ∧ IsSlot fd s changed c pfd := by
  rcases h.positioned.cell ((h.mem c).2 hc) with ⟨i, hi, hindex⟩
  rcases h.slot i c hi with ⟨pfd, hpfd, hslot⟩
  exact ⟨i, pfd, hi, hindex, hpfd, hslot⟩

/-- The slot of a channel that has one is written. -/
theorem Order.listed (h : Order fd (fun c' => c' = c) s l) {i : Nat} (hi : l[i]? = some c) :
    Order fd (fun _ => False) { s with
      pollfds_ := s.pollfds_.set i
        { fd := if (s.channel c).isNoneEvent then -fd c - 1 else fd c
          events := (s.channel c).events_ } } l := by
  refine ⟨h.keyed, h.mem, h.positioned, by simp [h.length], ?_⟩
  intro j c' hj
  rcases h.slot j c' hj with ⟨pfd, hpfd, hslot, hevents⟩
  by_cases hij : i = j
  · subst hij
    obtain rfl : c = c' := Option.some.inj (hi.symm.trans hj)
    have hlt : i < s.pollfds_.length := (List.getElem?_eq_some_iff.1 hpfd).1
    refine ⟨_, List.getElem?_set_self hlt, ?_, fun _ => rfl⟩
    dsimp only
    split
    · exact Or.inr rfl
    · exact Or.inl rfl
  · have hne : c' ≠ c := by
      rintro rfl
      exact hij (h.positioned.index_eq hi hj)
    refine ⟨pfd, ?_, hslot, fun _ => hevents hne⟩
    rw [List.getElem?_set_ne hij]
    exact hpfd

variable [DecidableEq C]

theorem Order.setMembers (h : Order fd (fun _ => False) s l) (c : C) (members : Channel) :
    Order fd (fun c' => c' = c) (s.setMembers c members) l where
  keyed := h.keyed
  mem := h.mem
  positioned := by
    refine h.positioned.congr fun c' _ => ?_
    by_cases heq : c' = c
    · subst heq
      simp [PollPoller.setMembers, Poller.setChannel]
    · simp [PollPoller.setMembers, Poller.setChannel, heq]
  length := h.length
  slot := by
    intro i c' hi
    rcases h.slot i c' hi with ⟨pfd, hpfd, hfd, hevents⟩
    refine ⟨pfd, hpfd, hfd, fun heq => ?_⟩
    simpa [PollPoller.setMembers, Poller.setChannel, heq] using hevents

/-- A channel that has no index yet gets the slot at the end. -/
theorem Order.new (h : Order fd (fun c' => c' = c) s l) (hfd : Function.Injective fd)
    (hmap : s.channels_ (fd c) = none) :
    Order fd (fun _ => False) {
      channel := Function.update s.channel c { s.channel c with index_ := s.pollfds_.length }
      channels_ := Function.update s.channels_ (fd c) (some c)
      pollfds_ := s.pollfds_ ++ [{ fd := fd c, events := (s.channel c).events_ }] } (l ++ [c]) := by
  have hcl : c ∉ l := by
    rw [h.mem, hmap]
    simp
  refine ⟨?_, ?_, ?_, by simp [h.length], ?_⟩
  · intro f c' hf
    by_cases heq : f = fd c
    · subst heq
      simp at hf
      rw [hf]
    · dsimp only at hf
      rw [Function.update_of_ne heq] at hf
      exact h.keyed f c' hf
  · intro c'
    by_cases heq : c' = c
    · subst heq
      simp
    · have hne : fd c' ≠ fd c := fun hf => heq (hfd hf)
      simp [h.mem, heq, Function.update_of_ne hne]
  · refine (h.positioned.concat hcl).congr fun c' _ => ?_
    by_cases heq : c' = c
    · subst heq
      simp [h.length]
    · simp [Function.update_of_ne heq]
  · intro i c' hi
    -- an old slot, or the one at the end
    rcases getElem?_concat hi with hold | ⟨rfl, rfl⟩
    · have hne : c' ≠ c := fun heq => hcl (heq ▸ List.mem_of_getElem? hold)
      rcases h.slot i c' hold with ⟨pfd, hpfd, hslot, hevents⟩
      have hlt := (List.getElem?_eq_some_iff.1 hpfd).1
      refine ⟨pfd, ?_, hslot, fun _ => ?_⟩
      · rw [List.getElem?_append_left hlt]
        exact hpfd
      · simpa [Function.update_of_ne hne] using hevents hne
    · refine ⟨{ fd := fd c', events := (s.channel c').events_ }, ?_, Or.inl rfl,
        fun _ => by simp [Channel.events_]⟩
      rw [← h.length]
      exact List.getElem?_concat_length

/-- A slot goes, and the last one takes its place. -/
theorem Order.drop (h : Order fd (fun c' => c' = c) s l) (hfd : Function.Injective fd) {i : Nat}
    (hi : l[i]? = some c) {channel : C → PolledChannel}
    (hkept : ∀ c', c' ≠ c → (channel c').events_ = (s.channel c').events_)
    (hpos : Positioned (fun c' => (channel c').index_) (swapRemove l i)) :
    Order fd (fun _ => False) { s with
      channel
      channels_ := Function.update s.channels_ (fd c) none
      pollfds_ := swapRemove s.pollfds_ i } (swapRemove l i) := by
  have hlt : i < l.length := (List.getElem?_eq_some_iff.1 hi).1
  refine ⟨?_, ?_, hpos, ?_, ?_⟩
  · intro f c' hf
    by_cases heq : f = fd c
    · subst heq
      simp at hf
    · dsimp only at hf
      rw [Function.update_of_ne heq] at hf
      exact h.keyed f c' hf
  · intro c'
    rw [h.positioned.mem_swapRemove hi, h.mem]
    by_cases heq : c' = c
    · subst heq
      simp
    · have hne : fd c' ≠ fd c := fun hf => heq (hfd hf)
      simp [heq, Function.update_of_ne hne]
  · simp [Positions.swapRemove, h.length]
  · intro j c' hj
    have hc' := (h.positioned.mem_swapRemove hi).1 (List.mem_of_getElem? hj)
    -- the slot moves with its channel: both come from the same place `k`
    have hat : ∃ k : Nat, l[k]? = some c' ∧ (swapRemove s.pollfds_ i)[j]? = s.pollfds_[k]? := by
      rw [getElem?_swapRemove hlt] at hj
      rw [getElem?_swapRemove (by rw [h.length]; exact hlt), h.length]
      split_ifs at hj ⊢ with hjlt heq
      · exact ⟨_, hj, rfl⟩
      · exact ⟨_, hj, rfl⟩
    rcases hat with ⟨k, hk, hcell⟩
    rcases h.slot k c' hk with ⟨pfd, hpfd, hslot, hevents⟩
    exact ⟨pfd, hcell.trans hpfd, hslot, fun _ => (hevents hc'.2).trans (hkept c' hc'.2).symm⟩

/-- A call fails on an assertion, or keeps the invariant. -/
def Kept (fd : C → Nat) : Except PollerFailure (PollPoller C) → Prop
  | .error e => e = .assertion
  | .ok s => Slots fd (fun _ => False) s

omit [DecidableEq C] in
theorem Kept.of_assertion {r : Except PollerFailure (PollPoller C)} (h : r = .error .assertion) :
    Kept fd r := by
  rw [h]
  rfl

theorem Order.updateChannel (h : Order fd (fun c' => c' = c) s l) (hfd : Function.Injective fd) :
    Kept fd (s.updateChannel fd c) := by
  by_cases hnew : (s.channel c).index_ < 0
  · by_cases hmap : s.channels_ (fd c) = none
    · rw [updateChannel_new hnew hmap]
      exact ⟨_, h.new hfd hmap⟩
    · refine .of_assertion ?_
      unfold PollPoller.updateChannel
      rw [if_pos hnew]
      exact assertion_bind_error fun hnone => absurd hnone hmap
  · by_cases hmap : s.channels_ (fd c) = some c
    · rcases h.cell hmap with ⟨i, pfd, hi, hindex, hat, hslot⟩
      rw [updateChannel_listed hindex hmap hat hslot.1]
      exact ⟨l, h.listed hi⟩
    · refine .of_assertion ?_
      unfold PollPoller.updateChannel
      rw [if_neg hnew]
      exact assertion_bind_error fun _ => assertion_bind_error fun hsome => absurd hsome hmap

theorem Order.removeChannel (h : Order fd (fun c' => c' = c) s l) (hfd : Function.Injective fd) :
    Kept fd (s.removeChannel fd c) := by
  by_cases hmap : s.channels_ (fd c) = some c
  · rcases h.cell hmap with ⟨i, pfd, hi, hindex, hat, hslot⟩
    have hlt : i < l.length := (List.getElem?_eq_some_iff.1 hi).1
    by_cases hready : (s.channel c).isNoneEvent = true ∧
        pfd.fd = -fd c - 1 ∧ pfd.events = (s.channel c).events_
    · rcases hready with ⟨hnone, hpfd, hevents⟩
      have hat' : s.pollfds_[i]? = some { fd := -fd c - 1, events := (s.channel c).events_ } := by
        rw [hat, ← hpfd, ← hevents]
      by_cases hlast : i = s.pollfds_.length - 1
      · -- the slot at the end is popped, and no index changes
        rw [removeChannel_last hindex hmap hnone hat' hlast]
        refine ⟨_, h.drop hfd hi (fun _ _ => rfl) ?_⟩
        rw [hlast, h.length, swapRemove_last]
        exact h.positioned.dropLast
      · -- the channel `y` of the slot at the end, disabled or not, takes the place `i`
        obtain ⟨y, hy⟩ : ∃ y, l[l.length - 1]? = some y :=
          ⟨_, List.getElem?_eq_getElem (by omega)⟩
        have hyc : y ≠ c := by
          rintro rfl
          exact hlast (by rw [h.length]; exact h.positioned.index_eq hi hy)
        have hmapy : s.channels_ (fd y) = some y := (h.mem y).1 (List.mem_of_getElem? hy)
        rcases h.slot _ y hy with ⟨back, hback, hfdy, -⟩
        rw [removeChannel_inner hindex hmap hnone hat' hlast (by rw [h.length]; exact hback) hfdy
          hmapy fun heq => hyc (hfd heq)]
        refine ⟨_, h.drop hfd hi ?_ ?_⟩
        · intro c' _
          by_cases heq : c' = y
          · subst heq
            simp [Channel.events_]
          · rw [Function.update_of_ne heq]
        · refine (h.positioned.swapRemove hlt hy).congr fun c' _ => ?_
          by_cases heq : c' = y
          · subst heq
            simp
          · simp [Function.update_of_ne heq]
    · have hread : s.pollfdAt (s.channel c).index_ = .ok pfd := by
        simp [pollfdAt, hindex, hat]
      refine .of_assertion ?_
      unfold PollPoller.removeChannel
      refine assertion_bind_error fun _ => assertion_bind_error fun _ =>
        assertion_bind_error fun hnone => ?_
      dsimp only
      rw [hread]
      exact assertion_bind_error fun hentry => absurd ⟨hnone, hentry⟩ hready
  · refine .of_assertion ?_
    unfold PollPoller.removeChannel
    exact assertion_bind_error fun _ => assertion_bind_error fun hsome => absurd hsome hmap

/-- The step: any call, whatever the interest set of its channel has become. -/
theorem Slots.call (h : Slots fd (fun _ => False) s) (hfd : Function.Injective fd)
    (k : PollerCall C) : Kept fd (s.call fd k) := by
  rcases h with ⟨l, h⟩
  cases k with
  | updateChannel c members => exact (h.setMembers c members).updateChannel hfd
  | removeChannel c members => exact (h.setMembers c members).removeChannel hfd

/-- The run. -/
theorem Slots.callAll (h : Slots fd (fun _ => False) s) (hfd : Function.Injective fd)
    (calls : List (PollerCall C)) : Kept fd (s.callAll fd calls) := by
  -- a call that fails ends the run, with a failed assertion
  induction calls generalizing s with
  | nil => exact h
  | cons k calls ih =>
      have hstep := h.call hfd k
      unfold PollPoller.callAll at ih ⊢
      rw [List.foldlM_cons]
      cases hk : s.call fd k with
      | error e =>
          rw [hk] at hstep
          exact hstep
      | ok s₁ =>
          rw [hk] at hstep
          exact ih hstep

end Step

/-! ## Channels and their slots -/

/-- The map and the vector have the same size, and each channel of the map has an index of its own,
which is that of its slot. -/
structure Indexed (s : PollPoller C) : Prop where
  size : Set.encard {f | s.channels_ f ≠ none} = s.pollfds_.length
  keyed : ∀ f c, s.channels_ f = some c → fd c = f
  own : ∀ c c', s.channels_ (fd c) = some c → s.channels_ (fd c') = some c' →
    (s.channel c).index_ = (s.channel c').index_ → c = c'
  slot : ∀ c, s.channels_ (fd c) = some c → ∃ (i : Nat) (pfd : PollFd),
    (s.channel c).index_ = i ∧ s.pollfds_[i]? = some pfd ∧
      (pfd.fd = fd c ∨ pfd.fd = -fd c - 1) ∧ pfd.events = (s.channel c).events_

/-- What `::poll` leaves: `revents` in each slot, none in those it ignores, and the number of slots
with an event. -/
structure PollReturns (s : PollPoller C) (revents : List Int) (numEvents : Int) : Prop where
  length : revents.length = s.pollfds_.length
  ignored : ∀ x ∈ s.pollfds_.zip revents, x.1.fd < 0 → x.2 = 0
  count : numEvents = (revents.countP fun r => decide (0 < r) : Nat)

/-- The `revents` in the slot of a channel. -/
def reported (s : PollPoller C) (revents : List Int) (c : C) : Int :=
  (revents[(s.channel c).index_.toNat]?).getD 0

/-- A channel of the map with an event in its own slot. -/
def Ready (s : PollPoller C) (revents : List Int) (c : C) : Prop :=
  s.channels_ (fd c) = some c ∧ 0 < s.reported revents c

/-- The ready channels, and no others, are told their events and put into the list. -/
structure Fills (s : PollPoller C) (revents : List Int) (before after : Active C) : Prop where
  told : ∀ c, Ready fd s revents c → after.revents_ c = s.reported revents c
  others : ∀ c, ¬ Ready fd s revents c → after.revents_ c = before.revents_ c
  list : ∃ channels, after.activeChannels = before.activeChannels ++ channels ∧ channels.Nodup ∧
    ∀ c, c ∈ channels ↔ Ready fd s revents c

section Indexed

variable {fd} {s : PollPoller C} {l : List C}

theorem Order.nodup {changed : C → Prop} (h : Order fd changed s l) : l.Nodup := by
  rw [List.nodup_iff_getElem?_ne_getElem?]
  intro i j hij hj heq
  have hat : l[j]? = some (l.get ⟨j, hj⟩) := List.getElem?_eq_getElem hj
  have := h.positioned.index_eq (heq.trans hat) hat
  omega

theorem Order.indexed (h : Order fd (fun _ => False) s l) (hfd : Function.Injective fd) :
    Indexed fd s where
  size := by
    -- the keys of the map are the descriptors of the channels in the list
    have himage : {f | s.channels_ f ≠ none} = fd '' {c | c ∈ l} := by
      ext f
      constructor
      · intro hf
        rcases Option.ne_none_iff_exists'.1 hf with ⟨c, hc⟩
        have hkey := h.keyed f c hc
        exact ⟨c, (h.mem c).2 (by rw [hkey, hc]), hkey⟩
      · rintro ⟨c, hc, rfl⟩
        simp [(h.mem c).1 hc]
    classical
    have hlist : {c | c ∈ l} = (l.toFinset : Set C) := by
      ext c
      simp
    rw [himage, hfd.encard_image, hlist, Set.encard_coe_eq_coe_finsetCard,
      List.toFinset_card_of_nodup h.nodup, h.length]
  keyed := h.keyed
  own := by
    intro c c' hc hc' heq
    rcases h.positioned.cell ((h.mem c).2 hc) with ⟨i, hi, hindex⟩
    rcases h.positioned.cell ((h.mem c').2 hc') with ⟨j, hj, hindex'⟩
    have hij : (i : Int) = j := (hindex.symm.trans heq).trans hindex'
    obtain rfl : i = j := by exact_mod_cast hij
    exact Option.some.inj (hi.symm.trans hj)
  slot := by
    intro c hc
    rcases h.cell hc with ⟨i, pfd, -, hindex, hat, hslot, hevents⟩
    exact ⟨i, pfd, hindex, hat, hslot, hevents id⟩

end Indexed

section Fill

variable {fd} {s : PollPoller C} {l : List C}

/-- A channel with its slot and what `::poll` has left there. -/
structure Cell (fd : C → Nat) (s : PollPoller C) (x : C × (PollFd × Int)) : Prop where
  map : s.channels_ (fd x.1) = some x.1
  fd_eq : x.2.1.fd = fd x.1 ∨ x.2.1.fd = -fd x.1 - 1
  ignored : x.2.1.fd < 0 → x.2.2 = 0

theorem Cell.find {x : C × (PollFd × Int)} (h : Cell fd s x) (hevent : 0 < x.2.2) :
    x.2.1.fd = fd x.1 ∧ s.find x.2.1.fd = some x.1 := by
  have hnonneg : ¬ x.2.1.fd < 0 := by
    intro hneg
    rw [h.ignored hneg] at hevent
    exact Int.lt_irrefl 0 hevent
  have hfd : x.2.1.fd = fd x.1 := by
    rcases h.fd_eq with heq | heq
    · exact heq
    · omega
  refine ⟨hfd, ?_⟩
  rw [PollPoller.find, if_neg hnonneg, hfd, Int.toNat_natCast, h.map]

/-- Cells with an event. -/
def eventful (cells : List (C × (PollFd × Int))) : List (C × (PollFd × Int)) :=
  cells.filter fun x => decide (0 < x.2.2)

/-- The channels of the map, each with its slot. -/
def cells (s : PollPoller C) (revents : List Int) (l : List C) : List (C × (PollFd × Int)) :=
  l.zip (s.pollfds_.zip revents)

theorem mem_cells {revents : List Int} {x : C × (PollFd × Int)} (hx : x ∈ cells s revents l) :
    ∃ i : Nat, l[i]? = some x.1 ∧ s.pollfds_[i]? = some x.2.1 ∧ revents[i]? = some x.2.2 := by
  rcases List.mem_iff_getElem?.1 hx with ⟨i, hi⟩
  rw [cells, List.getElem?_zip_eq_some, List.getElem?_zip_eq_some] at hi
  exact ⟨i, hi.1, hi.2.1, hi.2.2⟩

section Polled

variable {revents : List Int} {numEvents : Int} (h : Order fd (fun _ => False) s l)
  (hpoll : PollReturns s revents numEvents)

include h hpoll

theorem Order.map_snd_cells : (cells s revents l).map Prod.snd = s.pollfds_.zip revents := by
  refine List.map_snd_zip ?_
  rw [List.length_zip, hpoll.length, Nat.min_self, h.length]

theorem Order.map_fst_cells : (cells s revents l).map Prod.fst = l := by
  refine List.map_fst_zip ?_
  rw [List.length_zip, hpoll.length, Nat.min_self, h.length]

theorem Order.numEvents_eq : numEvents = (eventful (cells s revents l)).length := by
  have hrevents : revents = (cells s revents l).map fun x => x.2.2 := by
    calc revents = (s.pollfds_.zip revents).map Prod.snd :=
          (List.map_snd_zip (by rw [hpoll.length])).symm
      _ = (cells s revents l).map fun x => x.2.2 := by
          rw [← h.map_snd_cells hpoll, List.map_map]
          rfl
  rw [hpoll.count, eventful, ← List.countP_eq_length_filter]
  conv_lhs => rw [hrevents, List.countP_map]
  rfl

theorem Order.cell_of_mem {x : C × (PollFd × Int)} (hx : x ∈ cells s revents l) : Cell fd s x := by
  rcases mem_cells hx with ⟨i, hi, hpfd, -⟩
  rcases h.slot i x.1 hi with ⟨pfd, hpfd', hfd, -⟩
  obtain rfl : pfd = x.2.1 := Option.some.inj (hpfd'.symm.trans hpfd)
  exact ⟨(h.mem x.1).1 (List.mem_of_getElem? hi), hfd, hpoll.ignored x.2 (List.of_mem_zip hx).2⟩

omit hpoll in
theorem Order.reported_eq {x : C × (PollFd × Int)} (hx : x ∈ cells s revents l) :
    s.reported revents x.1 = x.2.2 := by
  rcases mem_cells hx with ⟨i, hi, -, hrevents⟩
  have hindex : (s.channel x.1).index_ = i := h.positioned i x.1 hi
  rw [reported, hindex, Int.toNat_natCast, hrevents, Option.getD_some]

/-- The cells with an event are those of the ready channels. -/
theorem Order.mem_eventful_iff (c : C) :
    c ∈ (eventful (cells s revents l)).map Prod.fst ↔ Ready fd s revents c := by
  constructor
  · intro hc
    rcases List.mem_map.1 hc with ⟨x, hx, rfl⟩
    rcases List.mem_filter.1 hx with ⟨hx, hevent⟩
    refine ⟨(h.cell_of_mem hpoll hx).map, ?_⟩
    rw [h.reported_eq hx]
    exact of_decide_eq_true hevent
  · rintro ⟨hmap, hevent⟩
    have hc : c ∈ (cells s revents l).map Prod.fst := by
      rw [h.map_fst_cells hpoll]
      exact (h.mem c).2 hmap
    rcases List.mem_map.1 hc with ⟨x, hx, rfl⟩
    rw [h.reported_eq hx] at hevent
    exact List.mem_map.2 ⟨x, List.mem_filter.2 ⟨hx, decide_eq_true hevent⟩, rfl⟩

end Polled

variable [DecidableEq C]

/-- The loop ends when all events have been found. -/
theorem fillActiveChannels_of_le {numEvents : Int} (h : numEvents ≤ 0) (slots : List (PollFd × Int))
    (active : Active C) : fillActiveChannels fd s slots numEvents active = .ok active := by
  cases slots with
  | nil => rfl
  | cons slot slots => rw [fillActiveChannels, if_neg (by omega)]

theorem fillActiveChannels_cells {cells : List (C × (PollFd × Int))} (h : ∀ x ∈ cells, Cell fd s x)
    (hnodup : (cells.map Prod.fst).Nodup) (active : Active C) :
    ∃ active', fillActiveChannels fd s (cells.map Prod.snd) (eventful cells).length active =
        .ok active' ∧
      active'.activeChannels = active.activeChannels ++ (eventful cells).map Prod.fst ∧
      (∀ x ∈ eventful cells, active'.revents_ x.1 = x.2.2) ∧
      ∀ c ∉ (eventful cells).map Prod.fst, active'.revents_ c = active.revents_ c := by
  -- along the slots; `numEvents` counts the cells with an event that are still ahead
  induction cells generalizing active with
  | nil => exact ⟨active, rfl, by simp [eventful], by simp [eventful], fun _ _ => rfl⟩
  | cons x cells ih =>
      rw [List.map_cons, List.nodup_cons] at hnodup
      have hcells : ∀ y ∈ cells, Cell fd s y := fun y hy => h y (List.mem_cons_of_mem _ hy)
      rcases x with ⟨c, pfd, revents⟩
      by_cases hevent : 0 < revents
      · have hfilter : eventful ((c, pfd, revents) :: cells) =
            (c, pfd, revents) :: eventful cells := by
          simp [eventful, hevent]
        rcases (h _ List.mem_cons_self).find hevent with ⟨hfd, hfind⟩
        rcases ih hcells hnodup.2 { revents_ := Function.update active.revents_ c revents
                                    activeChannels := active.activeChannels ++ [c] } with
          ⟨active', hfill, hlist, htold, hothers⟩
        have hc : c ∉ (eventful cells).map Prod.fst := by
          intro hmem
          rcases List.mem_map.1 hmem with ⟨y, hy, hyc⟩
          exact hnodup.1 (List.mem_map.2 ⟨y, (List.mem_filter.1 hy).1, hyc⟩)
        refine ⟨active', ?_, ?_, ?_, ?_⟩
        · have hcount : (((eventful ((c, pfd, revents) :: cells)).length : Nat) : Int) - 1 =
              (eventful cells).length := by
            rw [hfilter, List.length_cons]
            omega
          have hpos : 0 < (((eventful ((c, pfd, revents) :: cells)).length : Nat) : Int) := by
            rw [hfilter, List.length_cons]
            omega
          rw [List.map_cons, fillActiveChannels, if_pos hpos, if_pos hevent, hfind]
          dsimp only
          rw [assertion_of hfd.symm, hcount]
          exact hfill
        · rw [hlist, hfilter, List.map_cons, List.append_assoc, List.singleton_append]
        · intro y hy
          rw [hfilter] at hy
          rcases List.mem_cons.1 hy with rfl | hy
          · rw [hothers c hc]
            exact Function.update_self _ _ _
          · exact htold y hy
        · intro c' hc'
          rw [hfilter, List.map_cons, List.mem_cons, not_or] at hc'
          rw [hothers c' hc'.2]
          exact Function.update_of_ne hc'.1 _ _
      · have hfilter : eventful ((c, pfd, revents) :: cells) = eventful cells := by
          simp [eventful, hevent]
        rcases ih hcells hnodup.2 active with ⟨active', hfill, hrest⟩
        rw [hfilter]
        refine ⟨active', ?_, hrest⟩
        rw [List.map_cons, fillActiveChannels, if_neg hevent, hfill]
        split
        · rfl
        · rename_i hzero
          -- nothing is left to be found, so the rest of the slots has been skipped
          rw [fillActiveChannels_of_le (by omega)] at hfill
          exact hfill

theorem Order.fills {revents : List Int} {numEvents : Int} (h : Order fd (fun _ => False) s l)
    (hpoll : PollReturns s revents numEvents) (active : Active C) :
    ∃ active', fillActiveChannels fd s (s.pollfds_.zip revents) numEvents active = .ok active' ∧
      Fills fd s revents active active' := by
  have hnodup : ((cells s revents l).map Prod.fst).Nodup := by
    rw [h.map_fst_cells hpoll]
    exact h.nodup
  rcases fillActiveChannels_cells (fun _ => h.cell_of_mem hpoll) hnodup active with
    ⟨active', hfill, hlist, htold, hothers⟩
  rw [h.map_snd_cells hpoll, ← h.numEvents_eq hpoll] at hfill
  refine ⟨active', hfill, ?_, ?_, _, hlist, ?_, h.mem_eventful_iff hpoll⟩
  · intro c hc
    rcases List.mem_map.1 ((h.mem_eventful_iff hpoll c).2 hc) with ⟨x, hx, rfl⟩
    rw [htold x hx, h.reported_eq (List.mem_filter.1 hx).1]
  · intro c hc
    exact hothers c fun hmem => hc ((h.mem_eventful_iff hpoll c).1 hmem)
  · exact List.Sublist.nodup (List.filter_sublist.map Prod.fst) hnodup

/-- After any sequence of calls whose assertions hold, each channel has its slot, and events go to
the channel of their slot. -/
theorem callAll_indexed (fd : C → Nat) (hfd : Function.Injective fd)
    (calls : List (PollerCall C)) :
    (∀ e, callAll fd {} calls = .error e → e = .assertion) ∧
      ∀ s, callAll fd {} calls = .ok s → Indexed fd s ∧
        ∀ revents numEvents, PollReturns s revents numEvents → ∀ active, ∃ active',
          fillActiveChannels fd s (s.pollfds_.zip revents) numEvents active = .ok active' ∧
            Fills fd s revents active active' := by
  have hkept := (slots_start fd).callAll hfd calls
  refine ⟨?_, ?_⟩
  · intro e he
    rw [he] at hkept
    exact hkept
  · intro s hs
    rw [hs] at hkept
    rcases hkept with ⟨l, hl⟩
    exact ⟨hl.indexed hfd, fun revents numEvents hpoll active => hl.fills hpoll active⟩

end Fill

/-- The channel of descriptor 0 is disabled and moves into the gap of another. -/
def disabledMoves : List (PollerCall Nat) :=
  [.updateChannel 7 { readEvent := true }, .updateChannel 5 { writeEvent := true },
    .updateChannel 0 { readEvent := true }, .updateChannel 0 {}, .updateChannel 7 {},
    .removeChannel 7 {}]

theorem callAll_indexed_disabledMoves : ∃ s, callAll id {} disabledMoves = .ok s ∧
    s.pollfds_ = [⟨-1, (false, false)⟩, ⟨5, (false, true)⟩] ∧ Indexed id s ∧
      ∃ active, fillActiveChannels id s (s.pollfds_.zip [0, 4]) 1 ⟨fun _ => 0, []⟩ = .ok active ∧
        Fills id s [0, 4] ⟨fun _ => 0, []⟩ active := by
  obtain ⟨s, hs, hslots⟩ : ∃ s, callAll id {} disabledMoves = .ok s ∧
      s.pollfds_ = [⟨-1, (false, false)⟩, ⟨5, (false, true)⟩] := ⟨_, rfl, rfl⟩
  rcases (callAll_indexed id Function.injective_id disabledMoves).2 s hs with ⟨hindexed, hfills⟩
  refine ⟨s, hs, hslots, hindexed, hfills [0, 4] 1 ⟨?_, ?_, rfl⟩ _⟩
  · rw [hslots]
    rfl
  · rw [hslots]
    decide

end PollPoller
end Net
end Longky
