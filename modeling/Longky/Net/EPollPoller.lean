import Longky.Lib.Reach
import Longky.Net.Poller

/-!
# EPollPoller — the poller over epoll

`netLayer/poller/EpollPoller.cpp`, with the kernel's interest list beside the poller's own map.  The
list is changed by `epoll_ctl` only; the kernel reports an entry of it for errors and hang-ups
whatever its mask is.

`registration` says that index, map and interest list agree in every run, and that no call fails.
-/

namespace Longky
namespace Net

open Lib

/-! ## The kernel -/

inductive CtlOp where
  | ADD
  | MOD
  | DEL
  deriving DecidableEq, Repr

inductive CtlError where
  | EEXIST
  | ENOENT
  deriving DecidableEq, Repr

/-- The interest list: mask and `data.ptr` by descriptor. -/
abbrev InterestList (C : Type) := Nat → Option (EventMask × C)

def epollCtl {C : Type} (list : InterestList C) (op : CtlOp) (fd : Nat) (event : EventMask × C) :
    Except CtlError (InterestList C) :=
  match op, list fd with
  | .ADD, none => .ok (Function.update list fd (some event))
  | .ADD, some _ => .error .EEXIST
  | .MOD, some _ => .ok (Function.update list fd (some event))
  | .MOD, none => .error .ENOENT
  | .DEL, some _ => .ok (Function.update list fd none)
  | .DEL, none => .error .ENOENT

/-! ## The poller -/

def kNew : Int := -1

def kAdded : Int := 1

def kDeleted : Int := 2

def kInitEventListSize : Nat := 16

structure EPollPoller (C : Type) extends Poller C where
  interest : InterestList C := fun _ => none
  /-- The size of the vector `events_` that `epoll_wait` fills. -/
  eventListSize : Nat := kInitEventListSize
  /-- What `LOG_SYSERR` has reported. -/
  sysErrors : List CtlError := []

namespace EPollPoller

variable {C : Type} (fd : C → Nat)

section Operations

variable [DecidableEq C]

/-- `EPollPoller::update`. -/
def update (s : EPollPoller C) (op : CtlOp) (c : C) : Except PollerFailure (EPollPoller C) :=
  match epollCtl s.interest op (fd c) ((s.channel c).events_, c) with
  | .ok interest => .ok { s with interest := interest }
  | .error e =>
      if op = .DEL then .ok { s with sysErrors := s.sysErrors ++ [e] } else .error .sysFatal

def set_index (s : EPollPoller C) (c : C) (index : Int) : EPollPoller C :=
  { s with toPoller := s.toPoller.set_index c index }

def updateChannel (s : EPollPoller C) (c : C) : Except PollerFailure (EPollPoller C) :=
  let index := (s.channel c).index_
  if index = kNew then do
    assertion (s.channels_ (fd c) = none)
    { s with toPoller := (s.insert (fd c) c).set_index c kAdded }.update fd .ADD c
  else if index = kDeleted then do
    assertion (s.channels_ (fd c) ≠ none)
    assertion (s.channels_ (fd c) = some c)
    (s.set_index c kAdded).update fd .ADD c
  else do
    assertion (s.channels_ (fd c) ≠ none)
    assertion (s.channels_ (fd c) = some c)
    assertion (index = kAdded)
    if (s.channel c).isNoneEvent then do
      let s₁ ← s.update fd .DEL c
      return s₁.set_index c kDeleted
    else s.update fd .MOD c

def removeChannel (s : EPollPoller C) (c : C) : Except PollerFailure (EPollPoller C) := do
  assertion (s.channels_ (fd c) ≠ none)
  assertion (s.channels_ (fd c) = some c)
  assertion ((s.channel c).isNoneEvent = true)
  let index := (s.channel c).index_
  assertion (index = kAdded ∨ index = kDeleted)
  let s₁ := { s with toPoller := s.erase (fd c) }
  let s₂ ← if index = kAdded then s₁.update fd .DEL c else pure s₁
  return s₂.set_index c kNew

/-- A member function of a channel. -/
def perform (s : EPollPoller C) (c : C) : ChannelOp → Except PollerFailure (EPollPoller C)
  | .update op => { s with toPoller := s.applyOp c op }.updateChannel fd c
  | .remove => do
      assertion ((s.channel c).isNoneEvent = true)
      { s with toPoller := s.detach c }.removeChannel fd c

/-- The `data.ptr` of the events that `epoll_wait` reports. -/
def fillActiveChannels (s : EPollPoller C) : List C → Except PollerFailure (List C)
  | [] => .ok []
  | c :: ready => do
      assertion (s.channels_ (fd c) ≠ none)
      assertion (s.channels_ (fd c) = some c)
      return c :: (← fillActiveChannels s ready)

def poll (s : EPollPoller C) (ready : List C) : Except PollerFailure (EPollPoller C × List C) := do
  assertion (ready.length ≤ s.eventListSize)
  let active ← s.fillActiveChannels fd ready
  if ready.length = s.eventListSize then
    return ({ s with eventListSize := s.eventListSize * 2 }, active)
  else return (s, active)

end Operations

/-! ## The three states of a channel -/

section Status

variable (s : EPollPoller C) (c : C)

def New : Prop :=
  (s.channel c).index_ = kNew ∧ s.channels_ (fd c) = none ∧ s.interest (fd c) = none

def Added : Prop :=
  (s.channel c).index_ = kAdded ∧ s.channels_ (fd c) = some c ∧
    s.interest (fd c) = some ((s.channel c).events_, c)

def Deleted : Prop :=
  (s.channel c).index_ = kDeleted ∧ s.channels_ (fd c) = some c ∧ s.interest (fd c) = none

def Filed : Prop := s.New fd c ∨ s.Added fd c ∨ s.Deleted fd c

/-- A channel that an operation has not touched. -/
def SameAt (s' : EPollPoller C) : Prop :=
  s'.channel c = s.channel c ∧ s'.channels_ (fd c) = s.channels_ (fd c) ∧
    s'.interest (fd c) = s.interest (fd c)

end Status

variable {fd} {s s' : EPollPoller C} {c c' : C}

theorem SameAt.filed (h : s.SameAt fd c s') (hc : s.Filed fd c) : s'.Filed fd c := by
  rcases h with ⟨hchannel, hmap, hlist⟩
  unfold Filed New Added Deleted at hc ⊢
  rwa [hchannel, hmap, hlist]

theorem Filed.of_channels (h : s.Filed fd c) (hc : s.channels_ (fd c) = some c) :
    s.Added fd c ∨ s.Deleted fd c := by
  rcases h with h | h | h
  · rw [h.2.1] at hc
    cases hc
  · exact Or.inl h
  · exact Or.inr h

theorem Filed.channels_of_interest (h : s.Filed fd c) {mask : EventMask}
    (hc : s.interest (fd c) = some (mask, c)) : s.channels_ (fd c) = some c := by
  rcases h with h | h | h
  · rw [h.2.2] at hc
    cases hc
  · exact h.2.1
  · exact h.2.1

/-- What every run keeps. -/
structure Inv (fd : C → Nat) (s : EPollPoller C) : Prop where
  filed : ∀ c, s.Filed fd c
  sysErrors : s.sysErrors = []

theorem Inv.start (fd : C → Nat) : Inv fd {} where
  filed _ := Or.inl ⟨rfl, rfl, rfl⟩
  sysErrors := rfl

/-- Index, map and interest list describe each channel in the same way. -/
structure Registered (fd : C → Nat) (s : EPollPoller C) : Prop where
  kNew_iff : ∀ c, (s.channel c).index_ = kNew ↔ s.channels_ (fd c) = none
  kAdded_iff : ∀ c, (s.channel c).index_ = kAdded ↔ (s.interest (fd c)).isSome = true
  mask : ∀ c, (s.channel c).index_ = kAdded →
    s.interest (fd c) = some ((s.channel c).events_, c)
  kDeleted_iff : ∀ c, (s.channel c).index_ = kDeleted ↔
    (s.channels_ (fd c)).isSome = true ∧ s.interest (fd c) = none

theorem Inv.registered (h : Inv fd s) : Registered fd s := by
  have hnew : kNew ≠ kAdded ∧ kNew ≠ kDeleted ∧ kAdded ≠ kDeleted := by decide
  refine ⟨?_, ?_, ?_, ?_⟩
  all_goals
    intro c
    rcases h.filed c with ⟨hindex, hmap, hlist⟩ | ⟨hindex, hmap, hlist⟩ | ⟨hindex, hmap, hlist⟩
    all_goals simp [hindex, hmap, hlist, hnew, hnew.1.symm, hnew.2.1.symm, hnew.2.2.symm]

section Put

variable [DecidableEq C] (fd) (s) (c) (ch : PolledChannel) (filed : Option C)
  (listed : Option (EventMask × C))

/-- New entries for one channel. -/
def put : EPollPoller C :=
  { s with
    channel := Function.update s.channel c ch
    channels_ := Function.update s.channels_ (fd c) filed
    interest := Function.update s.interest (fd c) listed }

@[simp] theorem channel_put : (s.put fd c ch filed listed).channel c = ch := by
  simp [put]

@[simp] theorem channels_put : (s.put fd c ch filed listed).channels_ (fd c) = filed := by
  simp [put]

@[simp] theorem interest_put : (s.put fd c ch filed listed).interest (fd c) = listed := by
  simp [put]

variable {fd} in
theorem sameAt_put (hfd : Function.Injective fd) (hc : c' ≠ c) :
    s.SameAt fd c' (s.put fd c ch filed listed) := by
  have hne : fd c' ≠ fd c := fun h => hc (hfd h)
  refine ⟨?_, ?_, ?_⟩
  · exact Function.update_of_ne hc _ _
  · exact Function.update_of_ne hne _ _
  · exact Function.update_of_ne hne _ _

end Put

/-! ## What each operation does -/

section Spec

variable [DecidableEq C] (op : UpdateOp)

/-- The channel after a member function, with the index that the poller gives it. -/
def updated (s : EPollPoller C) (c : C) (op : UpdateOp) (index : Int) : PolledChannel :=
  { s.channel c with toChannel := op.apply (s.channel c).toChannel, index_ := index }

theorem perform_new (h : s.New fd c) :
    s.perform fd c (.update op) = .ok (s.put fd c (updated s c op kAdded) (some c)
      (some ((op.apply (s.channel c).toChannel).events_, c))) := by
  rcases h with ⟨hindex, hmap, hlist⟩
  simp [perform, updateChannel, Poller.applyOp, Poller.setChannel, Poller.insert, Poller.set_index,
    hindex, hmap, assertion, update, epollCtl, hlist, put, updated, bind, Except.bind]

theorem perform_deleted (h : s.Deleted fd c) :
    s.perform fd c (.update op) = .ok (s.put fd c (updated s c op kAdded) (some c)
      (some ((op.apply (s.channel c).toChannel).events_, c))) := by
  rcases h with ⟨hindex, hmap, hlist⟩
  have hsame : Function.update s.channels_ (fd c) (some c) = s.channels_ :=
    Function.update_eq_self_iff.2 hmap.symm
  have hnew : ¬ kDeleted = kNew := by decide
  simp [perform, updateChannel, Poller.applyOp, Poller.setChannel, set_index, Poller.set_index,
    hindex, hmap, hnew, assertion, update, epollCtl, hlist, put, updated, hsame, bind, Except.bind]

theorem perform_added (h : s.Added fd c) :
    s.perform fd c (.update op) = .ok
      (if (op.apply (s.channel c).toChannel).isNoneEvent then
        s.put fd c (updated s c op kDeleted) (some c) none
      else s.put fd c (updated s c op kAdded) (some c)
        (some ((op.apply (s.channel c).toChannel).events_, c))) := by
  rcases h with ⟨hindex, hmap, hlist⟩
  have hsame : Function.update s.channels_ (fd c) (some c) = s.channels_ :=
    Function.update_eq_self_iff.2 hmap.symm
  have hnew : ¬ kAdded = kNew := by decide
  have hdeleted : ¬ kAdded = kDeleted := by decide
  cases hnone : (op.apply (s.channel c).toChannel).isNoneEvent with
  | true =>
      simp [perform, updateChannel, Poller.applyOp, Poller.setChannel, set_index, Poller.set_index,
        hindex, hmap, hnew, hdeleted, assertion, update, epollCtl, hlist, put, updated, hsame, hnone,
        bind, Except.bind, pure, Except.pure]
  | false =>
      simp [perform, updateChannel, Poller.applyOp, Poller.setChannel,
        hindex, hmap, hnew, hdeleted, assertion, update, epollCtl, hlist, put, updated, hsame, hnone,
        bind, Except.bind]

/-- A channel with an empty mask is removed whether the kernel still lists it or not. -/
theorem perform_remove (h : s.Added fd c ∨ s.Deleted fd c)
    (hnone : (s.channel c).isNoneEvent = true) :
    s.perform fd c .remove = .ok (s.put fd c
      { s.channel c with addedToLoop_ := false, index_ := kNew } none none) := by
  have hnone' : ({ s.channel c with addedToLoop_ := false } : PolledChannel).isNoneEvent = true :=
    hnone
  rcases h with ⟨hindex, hmap, hlist⟩ | ⟨hindex, hmap, hlist⟩
  · simp [perform, removeChannel, Poller.detach, Poller.setChannel, set_index, Poller.set_index,
      Poller.erase, hindex, hmap, assertion, update, epollCtl, hlist, put, hnone, hnone', bind,
      Except.bind, pure, Except.pure]
  · have hlisted : Function.update s.interest (fd c) none = s.interest :=
      Function.update_eq_self_iff.2 hlist.symm
    have hadded : ¬ kDeleted = kAdded := by decide
    simp [perform, removeChannel, Poller.detach, Poller.setChannel, set_index, Poller.set_index,
      Poller.erase, hindex, hmap, assertion, hadded, hlisted, put, hnone, hnone', bind,
      Except.bind, pure, Except.pure]

end Spec

/-! ## Runs -/

section Runs

variable [DecidableEq C]

variable (fd) in
/-- An update leaves the channel in the map, and in the list unless it has just been taken out. -/
theorem perform_update (h : s.Filed fd c) (op : UpdateOp) :
    ∃ index listed, s.perform fd c (.update op) =
        .ok (s.put fd c (updated s c op index) (some c) listed) ∧
      (index = kAdded ∧ listed = some ((op.apply (s.channel c).toChannel).events_, c) ∨
        index = kDeleted ∧ listed = none ∧
          (op.apply (s.channel c).toChannel).isNoneEvent = true) ∧
      (listed = none ↔ (op.apply (s.channel c).toChannel).isNoneEvent = true ∧
        (s.channel c).index_ = kAdded) := by
  rcases h with h | h | h
  · refine ⟨_, _, perform_new op h, Or.inl ⟨rfl, rfl⟩, iff_of_false nofun ?_⟩
    rintro ⟨-, hadded⟩
    exact absurd (h.1.symm.trans hadded) (by decide)
  · cases hnone : (op.apply (s.channel c).toChannel).isNoneEvent with
    | true =>
        refine ⟨_, _, ?_, Or.inr ⟨rfl, rfl, rfl⟩, iff_of_true rfl ⟨rfl, h.1⟩⟩
        rw [perform_added op h, if_pos hnone]
    | false =>
        refine ⟨_, _, ?_, Or.inl ⟨rfl, rfl⟩, by simp⟩
        rw [perform_added op h, if_neg (by simp [hnone])]
  · refine ⟨_, _, perform_deleted op h, Or.inl ⟨rfl, rfl⟩, iff_of_false nofun ?_⟩
    rintro ⟨-, hadded⟩
    exact absurd (h.1.symm.trans hadded) (by decide)

theorem filed_put_update {index : Int} {listed : Option (EventMask × C)} {op : UpdateOp}
    (h : index = kAdded ∧ listed = some ((op.apply (s.channel c).toChannel).events_, c) ∨
      index = kDeleted ∧ listed = none ∧
        (op.apply (s.channel c).toChannel).isNoneEvent = true) :
    (s.put fd c (updated s c op index) (some c) listed).Filed fd c := by
  rcases h with ⟨rfl, rfl⟩ | ⟨rfl, rfl, -⟩
  · exact Or.inr (Or.inl ⟨by simp [updated], by simp, by simp [updated]⟩)
  · exact Or.inr (Or.inr ⟨by simp [updated], by simp, by simp⟩)

/-- What the pollers' users may do: any update, and `remove` on a registered channel without events.
`epoll_wait` returns no more events than it was given room for, all of listed channels. -/
inductive PollerStep (C : Type) where
  | op (c : C) (o : ChannelOp)
  | poll (ready : List C)

def advance (fd : C → Nat) (s : EPollPoller C) : PollerStep C → Except PollerFailure (EPollPoller C)
  | .op c o => s.perform fd c o
  | .poll ready => (s.poll fd ready).map Prod.fst

def Admissible (fd : C → Nat) (s : EPollPoller C) : PollerStep C → Prop
  | .op _ (.update _) => True
  | .op c .remove => s.channels_ (fd c) = some c ∧ (s.channel c).isNoneEvent = true
  | .poll ready => ready.length ≤ s.eventListSize ∧
      ∀ c ∈ ready, ∃ mask, s.interest (fd c) = some (mask, c)

def runs (fd : C → Nat) : System (EPollPoller C) (PollerStep C) where
  init s := s = {}
  step s a s' := Admissible fd s a ∧ s.advance fd a = .ok s'

theorem Inv.put (h : Inv fd s) (hfd : Function.Injective fd) {ch : PolledChannel}
    {filed : Option C} {listed : Option (EventMask × C)}
    (hc : (s.put fd c ch filed listed).Filed fd c) : Inv fd (s.put fd c ch filed listed) where
  filed c' := by
    by_cases heq : c' = c
    · subst heq
      exact hc
    · exact (sameAt_put s c ch filed listed hfd heq).filed (h.filed c')
  sysErrors := h.sysErrors

theorem fillActiveChannels_eq {ready : List C} (h : ∀ c ∈ ready, s.channels_ (fd c) = some c) :
    s.fillActiveChannels fd ready = .ok ready := by
  induction ready with
  | nil => rfl
  | cons c ready ih =>
      have hc := h c List.mem_cons_self
      have hrest := ih fun c' hc' => h c' (List.mem_cons_of_mem _ hc')
      simp [fillActiveChannels, hc, assertion, hrest, bind, Except.bind, pure, Except.pure]

/-- No admissible step fails, and each keeps the invariant. -/
theorem Inv.advance (h : Inv fd s) (hfd : Function.Injective fd) {a : PollerStep C}
    (ha : Admissible fd s a) : ∃ s', s.advance fd a = .ok s' ∧ Inv fd s' := by
  cases a with
  | op c o =>
      cases o with
      | update op =>
          rcases perform_update fd (h.filed c) op with ⟨index, listed, hperform, hcase, -⟩
          exact ⟨_, hperform, h.put hfd (filed_put_update hcase)⟩
      | remove =>
          have hcase := (h.filed c).of_channels ha.1
          refine ⟨_, perform_remove hcase ha.2, h.put hfd (Or.inl ⟨?_, ?_, ?_⟩)⟩
          · simp
          · simp
          · simp
  | poll ready =>
      have hmap : ∀ c ∈ ready, s.channels_ (fd c) = some c := by
        intro c hc
        rcases ha.2 c hc with ⟨mask, hlist⟩
        exact (h.filed c).channels_of_interest hlist
      have hfill := fillActiveChannels_eq hmap
      by_cases hfull : ready.length = s.eventListSize
      · refine ⟨{ s with eventListSize := s.eventListSize * 2 }, ?_, h.filed, h.sysErrors⟩
        simp [EPollPoller.advance, poll, hfill, hfull, assertion, bind, Except.bind, pure, Except.pure,
          Except.map]
      · refine ⟨s, ?_, h⟩
        simp [EPollPoller.advance, poll, hfill, hfull, assertion, ha.1, bind, Except.bind, pure,
          Except.pure, Except.map]

theorem reachable_inv (hfd : Function.Injective fd) (h : (runs fd).Reachable s) : Inv fd s := by
  refine System.Reachable.invariant ?_ ?_ h
  · rintro s rfl
    exact Inv.start fd
  · rintro s a s' hs ⟨ha, hstep⟩
    rcases hs.advance hfd ha with ⟨s₁, hstep₁, hs₁⟩
    rw [hstep] at hstep₁
    cases hstep₁
    exact hs₁

/-- A call that does not fail was admissible. -/
theorem admissible_of_perform {o : ChannelOp} (h : s.perform fd c o = .ok s') :
    Admissible fd s (.op c o) := by
  cases o with
  | update op => trivial
  | remove =>
      rcases assertion_bind_eq_ok.1 h with ⟨hnone, hremove⟩
      rcases assertion_bind_eq_ok.1 hremove with ⟨-, hrest⟩
      exact ⟨(assertion_bind_eq_ok.1 hrest).1, hnone⟩

theorem Inv.perform (h : Inv fd s) (hfd : Function.Injective fd) {o : ChannelOp}
    (hs : s.perform fd c o = .ok s') : Inv fd s' := by
  rcases h.advance hfd (a := .op c o) (admissible_of_perform hs) with ⟨s₁, hs₁, hinv⟩
  cases hs.symm.trans hs₁
  exact hinv

/-- A call changes the events of its own channel, as the member function says, and no others. -/
theorem Inv.channel_perform (h : Inv fd s) {o : ChannelOp} (hs : s.perform fd c o = .ok s')
    (c' : C) : (s'.channel c').toChannel =
      if c' = c then o.apply (s.channel c).toChannel else (s.channel c').toChannel := by
  have hput : ∀ ch filed listed, ch.toChannel = o.apply (s.channel c).toChannel →
      ((s.put fd c ch filed listed).channel c').toChannel =
        if c' = c then o.apply (s.channel c).toChannel else (s.channel c').toChannel := by
    intro ch filed listed hch
    by_cases heq : c' = c
    · subst heq
      rw [channel_put, if_pos rfl, hch]
    · rw [if_neg heq]
      exact congrArg _ (Function.update_of_ne heq _ _)
  cases o with
  | update op =>
      rcases perform_update fd (h.filed c) op with ⟨index, listed, hperform, -⟩
      cases hs.symm.trans hperform
      exact hput _ _ _ rfl
  | remove =>
      rcases admissible_of_perform hs with ⟨hmap, hnone⟩
      cases hs.symm.trans (perform_remove ((h.filed c).of_channels hmap) hnone)
      exact hput _ _ _ rfl

theorem Inv.interest_perform (h : Inv fd s) {o : ChannelOp} (hs : s.perform fd c o = .ok s')
    {f : Nat} (hf : f ≠ fd c) : s'.interest f = s.interest f := by
  cases o with
  | update op =>
      rcases perform_update fd (h.filed c) op with ⟨index, listed, hperform, -⟩
      cases hs.symm.trans hperform
      exact Function.update_of_ne hf _ _
  | remove =>
      rcases admissible_of_perform hs with ⟨hmap, hnone⟩
      cases hs.symm.trans (perform_remove ((h.filed c).of_channels hmap) hnone)
      exact Function.update_of_ne hf _ _

/-- The member functions of several channels, one after the other. -/
def performAll (fd : C → Nat) (s : EPollPoller C) (ops : List (C × ChannelOp)) :
    Except PollerFailure (EPollPoller C) :=
  ops.foldlM (fun s o => s.perform fd o.1 o.2) s

theorem performAll_cons {o : C × ChannelOp} {ops : List (C × ChannelOp)} :
    s.performAll fd (o :: ops) = .ok s' ↔
      ∃ s₁, s.perform fd o.1 o.2 = .ok s₁ ∧ s₁.performAll fd ops = .ok s' := by
  unfold performAll
  rw [List.foldlM_cons]
  cases hs : s.perform fd o.1 o.2 with
  | error e => exact iff_of_false nofun (by simp)
  | ok s₁ => exact ⟨fun h => ⟨s₁, rfl, h⟩, by rintro ⟨_, ⟨⟩, h⟩; exact h⟩

theorem performAll_concat {o : C × ChannelOp} {ops : List (C × ChannelOp)} :
    s.performAll fd (ops ++ [o]) = .ok s' ↔
      ∃ s₁, s.performAll fd ops = .ok s₁ ∧ s₁.perform fd o.1 o.2 = .ok s' := by
  unfold performAll
  rw [List.foldlM_append]
  cases hs : ops.foldlM (fun s o => perform fd s o.1 o.2) s with
  | error e => exact iff_of_false nofun (by simp)
  | ok s₁ =>
      simp only [bind, Except.bind, List.foldlM_cons, List.foldlM_nil, Except.ok.injEq, exists_eq_left']
      split <;> simp_all [pure, Except.pure]

theorem reachable_performAll (hs : (runs fd).Reachable s) {ops : List (C × ChannelOp)}
    (h : s.performAll fd ops = .ok s') : (runs fd).Reachable s' := by
  induction ops generalizing s with
  | nil =>
      cases h
      exact hs
  | cons o ops ih =>
      rcases performAll_cons.1 h with ⟨s₁, hs₁, hrest⟩
      exact ih (.step hs ⟨admissible_of_perform hs₁, hs₁⟩) hrest

theorem Inv.performAll (h : Inv fd s) (hfd : Function.Injective fd) {ops : List (C × ChannelOp)}
    (hs : s.performAll fd ops = .ok s') : Inv fd s' := by
  induction ops generalizing s with
  | nil =>
      cases hs
      exact h
  | cons o ops ih =>
      rcases performAll_cons.1 hs with ⟨s₁, hs₁, hrest⟩
      exact ih (h.perform hfd hs₁) hrest

/-- In every run index, map and interest list agree, `epoll_ctl` has never refused anything, and
the next call does not fail either. -/
theorem registration (hfd : Function.Injective fd) (h : (runs fd).Reachable s) :
    Registered fd s ∧ s.sysErrors = [] ∧
      ∀ a, Admissible fd s a → ∃ s', s.advance fd a = .ok s' := by
  have hinv := reachable_inv hfd h
  refine ⟨hinv.registered, hinv.sysErrors, ?_⟩
  intro a ha
  rcases hinv.advance hfd ha with ⟨s', hstep, -⟩
  exact ⟨s', hstep⟩

end Runs

/-! ## Channels without interest -/

/-- The kernel lists no channel that asks for nothing. -/
def Quiet (fd : C → Nat) (s : EPollPoller C) : Prop :=
  ∀ c, (s.channel c).isNoneEvent = true → s.interest (fd c) = none

/-- An update that empties `events_` finds the channel in the kernel's list. -/
def Careful (s : EPollPoller C) (c : C) : ChannelOp → Prop
  | .update op =>
      (op.apply (s.channel c).toChannel).isNoneEvent = true → (s.channel c).index_ = kAdded
  | .remove => True

instance (s : EPollPoller C) (c : C) (o : ChannelOp) : Decidable (s.Careful c o) :=
  match o with
  | .update op => inferInstanceAs (Decidable
      ((op.apply (s.channel c).toChannel).isNoneEvent = true → (s.channel c).index_ = kAdded))
  | .remove => inferInstanceAs (Decidable True)

theorem quiet_start (fd : C → Nat) : Quiet fd {} := fun _ _ => rfl

section Quiet

variable [DecidableEq C]

theorem Quiet.put_iff (h : s.Quiet fd) (hfd : Function.Injective fd) {ch : PolledChannel}
    {filed : Option C} {listed : Option (EventMask × C)} :
    (s.put fd c ch filed listed).Quiet fd ↔ (ch.isNoneEvent = true → listed = none) := by
  constructor
  · intro hput hnone
    simpa [hnone] using hput c
  · intro hc c' hnone
    by_cases heq : c' = c
    · subst heq
      simpa using hc (by simpa using hnone)
    · rcases sameAt_put s c ch filed listed hfd heq with ⟨hchannel, -, hlist⟩
      rw [hchannel] at hnone
      rw [hlist]
      exact h c' hnone

/-- The step lemma: a channel is left in the list without interest by the careless updates only. -/
theorem Quiet.perform_iff (h : s.Quiet fd) (hinv : Inv fd s) (hfd : Function.Injective fd)
    {o : ChannelOp} (hs : s.perform fd c o = .ok s') : s'.Quiet fd ↔ s.Careful c o := by
  cases o with
  | update op =>
      rcases perform_update fd (hinv.filed c) op with ⟨index, listed, hperform, -, hlisted⟩
      cases hs.symm.trans hperform
      rw [h.put_iff hfd, hlisted, Careful]
      exact forall_congr' fun hnone => and_iff_right hnone
  | remove =>
      rcases admissible_of_perform hs with ⟨hmap, hnone⟩
      cases hs.symm.trans (perform_remove ((hinv.filed c).of_channels hmap) hnone)
      rw [h.put_iff hfd]
      exact iff_of_true (fun _ => rfl) trivial

/-- Each call of a sequence is careful when it is made. -/
def CarefulAll (fd : C → Nat) : EPollPoller C → List (C × ChannelOp) → Prop
  | _, [] => True
  | s, o :: ops =>
      s.Careful o.1 o.2 ∧
        match s.perform fd o.1 o.2 with
        | .ok s' => CarefulAll fd s' ops
        | .error _ => True

instance decidableCarefulAll (fd : C → Nat) :
    (s : EPollPoller C) → (ops : List (C × ChannelOp)) → Decidable (s.CarefulAll fd ops)
  | _, [] => isTrue trivial
  | s, o :: ops =>
      have : Decidable (match s.perform fd o.1 o.2 with
          | .ok s' => CarefulAll fd s' ops
          | .error _ => True) :=
        match s.perform fd o.1 o.2 with
        | .ok s' => decidableCarefulAll fd s' ops
        | .error _ => isTrue trivial
      inferInstanceAs (Decidable (_ ∧ _))

theorem Quiet.performAll (h : s.Quiet fd) (hinv : Inv fd s) (hfd : Function.Injective fd)
    {ops : List (C × ChannelOp)} (hcareful : s.CarefulAll fd ops)
    (hs : s.performAll fd ops = .ok s') : s'.Quiet fd := by
  induction ops generalizing s with
  | nil =>
      cases hs
      exact h
  | cons o ops ih =>
      rcases performAll_cons.1 hs with ⟨s₁, hs₁, hrest⟩
      rw [CarefulAll, hs₁] at hcareful
      exact ih ((h.perform_iff hinv hfd hs₁).2 hcareful.1) (hinv.perform hfd hs₁) hcareful.2 hrest

/-- The list stays free of channels without interest as long as each call is careful, and no
longer. -/
theorem Quiet.along_iff (h : s.Quiet fd) (hinv : Inv fd s) (hfd : Function.Injective fd)
    (ops : List (C × ChannelOp)) :
    (∀ ops' s', ops' <+: ops → s.performAll fd ops' = .ok s' → s'.Quiet fd) ↔
      s.CarefulAll fd ops := by
  constructor
  · intro hall
    induction ops generalizing s with
    | nil => trivial
    | cons o ops ih =>
        cases hs₁ : s.perform fd o.1 o.2 with
        | error e =>
            refine ⟨?_, by rw [hs₁]; trivial⟩
            -- an update never fails
            rcases o with ⟨c, op | _⟩
            · rcases perform_update fd (hinv.filed c) op with ⟨index, listed, hperform, -⟩
              cases hs₁.symm.trans hperform
            · trivial
        | ok s₁ =>
            have hone : s.performAll fd [o] = .ok s₁ := performAll_cons.2 ⟨s₁, hs₁, rfl⟩
            have hq₁ := hall [o] s₁ (List.prefix_cons_inj o |>.2 List.nil_prefix) hone
            refine ⟨(h.perform_iff hinv hfd hs₁).1 hq₁, ?_⟩
            rw [hs₁]
            refine ih hq₁ (hinv.perform hfd hs₁) ?_
            intro ops' s' hp hs'
            exact hall (o :: ops') s' (List.prefix_cons_inj o |>.2 hp)
              (performAll_cons.2 ⟨s₁, hs₁, hs'⟩)
  · intro hcareful ops' s' hp hs'
    rcases hp with ⟨rest, rfl⟩
    refine h.performAll hinv hfd ?_ hs'
    clear hs'
    induction ops' generalizing s with
    | nil => trivial
    | cons o ops' ih =>
        rw [List.cons_append, CarefulAll] at hcareful
        refine ⟨hcareful.1, ?_⟩
        cases hs₁ : s.perform fd o.1 o.2 with
        | error e => trivial
        | ok s₁ =>
            rw [hs₁] at hcareful
            exact ih ((h.perform_iff hinv hfd hs₁).2 hcareful.1) (hinv.perform hfd hs₁) hcareful.2

end Quiet

/-! ## Two channels -/

def twoFds (c : Bool) : Nat := if c then 4 else 3

theorem twoFds_injective : Function.Injective twoFds := by
  have h : ∀ a b, twoFds a = twoFds b → a = b := by decide
  exact fun a b => h a b

/-- One channel is disabled twice and written to again, the other is removed in between. -/
def twoChannels : List (Bool × ChannelOp) :=
  [(true, .update .enableReading), (false, .update .enableReading), (true, .update .disableAll),
    (true, .update .disableAll), (false, .update .disableAll), (false, .remove),
    (true, .update .enableWriting)]

def twoChannelsEnd : Except PollerFailure (EPollPoller Bool) := performAll twoFds {} twoChannels

theorem registration_twoChannels :
    ∃ s, twoChannelsEnd = .ok s ∧ Registered twoFds s ∧ s.sysErrors = [] ∧
      s.interest 4 = some ((false, true), true) ∧ s.channels_ 3 = none := by
  obtain ⟨s, hs, hlist, hmap⟩ : ∃ s, twoChannelsEnd = .ok s ∧
      s.interest 4 = some ((false, true), true) ∧ s.channels_ 3 = none := ⟨_, rfl, rfl, rfl⟩
  have hreach := reachable_performAll (.init rfl) hs
  have hreg := registration twoFds_injective hreach
  exact ⟨s, hs, hreg.1, hreg.2.1, hlist, hmap⟩

end EPollPoller
end Net
end Longky
