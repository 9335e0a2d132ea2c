import Longky.Lib.Reach
import Longky.Lib.Slots

/-!
# Acceptor — accepting when the descriptors have run out

`handleRead` of `netLayer/tcp/s/Acceptor.cpp` over the descriptor table of the process.  When
`accept` fails with `EMFILE`, the acceptor gives up the descriptor that it keeps in reserve, takes
the first waiting connection into the slot, closes it and opens the reserve again.  Each of these is
a system call of its own, and between any two of them other threads open and close descriptors and
clients connect and go away.

An action is one system call of the acceptor or one step of the others.
-/

namespace Longky
namespace Net

open Lib

/-- What a descriptor is open on. -/
inductive OpenFile where
  | acceptSocket
  /-- `/dev/null`, the acceptor's reserve. -/
  | devNull
  /-- A connection that the acceptor has in its own hands. -/
  | accepted
  /-- A connection that `newConnectionCallback_` was given. -/
  | connection (peer : Nat)
  | other
  deriving DecidableEq, Repr

def OpenFile.ofAcceptor : OpenFile → Bool
  | acceptSocket | devNull | accepted => true
  | connection _ | other => false

/-- What became of a connection that `accept` returned. -/
inductive Fate where
  | handed (connfd : Nat)
  | closed
  deriving DecidableEq, Repr

/-- The `errno` of a failed `accept`; at any other value the program ends with `LOG_FATAL`. -/
inductive AcceptErrno where
  | EMFILE
  | EAGAIN
  /-- `ECONNABORTED`, `EINTR`, `EPROTO` or `EPERM`. -/
  | expected
  deriving DecidableEq, Repr

/-- Where the acceptor is. -/
inductive AcceptorPhase where
  | rest
  /-- There is no callback and `connfd` is to be closed. -/
  | unwanted (connfd : Nat)
  | outOfDescriptors
  | reserveClosed
  | retried
  | retriedClosed
  /-- The destructor has closed `idleFd_`. -/
  | destroying
  | gone
  deriving DecidableEq, Repr

/-- In these phases the reserve is not open. -/
def AcceptorPhase.retrying : AcceptorPhase → Bool
  | .reserveClosed | .retried | .retriedClosed => true
  | _ => false

structure Acceptor where
  /-- How many descriptors the process may have. -/
  limit : Nat
  table : Slots OpenFile
  acceptSocket_ : Nat
  /-- Whether the callback was set. -/
  newConnectionCallback_ : Bool
  /-- none for the value -1. -/
  idleFd_ : Option Nat
  phase : AcceptorPhase := .rest
  /-- Connections are numbered in the order in which the kernel completes them. -/
  arrived : Nat := 0
  /-- Completed and not yet accepted. -/
  backlog : List Nat := []
  /-- The connections that `accept` returned, in that order. -/
  taken : List (Nat × Fate) := []
  /-- Gone before they were accepted. -/
  aborted : List Nat := []
  /-- What was open at each descriptor number the acceptor called `close` with. -/
  closes : List (Option OpenFile) := []

inductive AcceptorAction where
  /-- `handleRead` up to the return of `newConnectionCallback_` or the test of `errno`. -/
  | handleRead (fails : Bool)
  | closeUnwanted
  | closeReserve
  | retryAccept (fails : Bool)
  | closeRetried
  | reopen (fails : Bool)
  /-- The destructor closes `idleFd_`, and then the socket. -/
  | destroy
  | closeSocket
  /-- A connection is completed. -/
  | arrive
  /-- A waiting connection is given up by its peer. -/
  | abort (peer : Nat)
  /-- Somebody else in the process opens or closes a descriptor. -/
  | openOther
  | closeOther (fd : Nat)
  deriving DecidableEq, Repr

namespace Acceptor

/-- `::close(fd)`; for -1 it fails and changes nothing. -/
def closeFd (s : Acceptor) : Option Nat → Acceptor
  | none => s
  | some fd => { s with table := s.table.release fd, closes := s.closes ++ [s.table fd] }

@[simp] theorem closeFd_acceptSocket_ (s : Acceptor) (fd : Option Nat) :
    (s.closeFd fd).acceptSocket_ = s.acceptSocket_ := by
  cases fd <;> rfl

/-- `accept4`: a descriptor is found before the waiting connections are looked at. -/
def accept4 (s : Acceptor) (fails : Bool) : Except AcceptErrno (Nat × Nat × List Nat) :=
  match s.table.lowestFree s.limit with
  | none => .error .EMFILE
  | some connfd =>
    match s.backlog with
    | [] => .error .EAGAIN
    | peer :: waiting => if fails then .error .expected else .ok (connfd, peer, waiting)

/-- A connection leaves the backlog for the descriptor `connfd`. -/
def receive (s : Acceptor) (connfd peer : Nat) (waiting : List Nat) (file : OpenFile)
    (fate : Fate) : Acceptor :=
  { s with
    table := s.table.take connfd file
    backlog := waiting
    taken := s.taken ++ [(peer, fate)] }

def next (s : Acceptor) : AcceptorAction → Option Acceptor
  | .handleRead fails =>
      if s.phase = .rest then
        match s.accept4 fails with
        | .ok (connfd, peer, waiting) =>
            if s.newConnectionCallback_ then
              some (s.receive connfd peer waiting (.connection peer) (.handed connfd))
            else
              some { s.receive connfd peer waiting .accepted .closed with
                phase := .unwanted connfd }
        | .error .EMFILE => some { s with phase := .outOfDescriptors }
        | .error _ => some s
      else none
  | .closeUnwanted =>
      match s.phase with
      | .unwanted connfd => some { s.closeFd (some connfd) with phase := .rest }
      | _ => none
  | .closeReserve =>
      if s.phase = .outOfDescriptors then
        some { s.closeFd s.idleFd_ with phase := .reserveClosed }
      else none
  | .retryAccept fails =>
      if s.phase = .reserveClosed then
        match s.accept4 fails with
        | .ok (connfd, peer, waiting) =>
            some { s.receive connfd peer waiting .accepted .closed with
              idleFd_ := some connfd, phase := .retried }
        | .error _ => some { s with idleFd_ := none, phase := .retried }
      else none
  | .closeRetried =>
      if s.phase = .retried then
        some { s.closeFd s.idleFd_ with phase := .retriedClosed }
      else none
  | .reopen fails =>
      if s.phase = .retriedClosed then
        match if fails then none else s.table.lowestFree s.limit with
        | some fd =>
            some { s with table := s.table.take fd .devNull, idleFd_ := some fd, phase := .rest }
        | none => some { s with idleFd_ := none, phase := .rest }
      else none
  | .destroy =>
      if s.phase = .rest then some { s.closeFd s.idleFd_ with phase := .destroying } else none
  | .closeSocket =>
      if s.phase = .destroying then
        -- the kernel resets what was still waiting
        some { s.closeFd (some s.acceptSocket_) with
          phase := .gone, backlog := [], aborted := s.aborted ++ s.backlog }
      else none
  | .arrive =>
      if s.phase = .gone then none
      else some { s with backlog := s.backlog ++ [s.arrived], arrived := s.arrived + 1 }
  | .abort peer =>
      if peer ∈ s.backlog then
        some { s with backlog := s.backlog.erase peer, aborted := s.aborted ++ [peer] }
      else none
  | .openOther =>
      (s.table.lowestFree s.limit).map fun fd => { s with table := s.table.take fd .other }
  | .closeOther fd =>
      match s.table fd with
      | some file =>
          if file.ofAcceptor then none else some { s with table := s.table.release fd }
      | none => none

/-- The runs of an acceptor that was constructed with any other descriptors open. -/
def runs : System Acceptor AcceptorAction where
  init s := ∃ limit table acceptSocket_ idleFd_ callback,
    (∀ fd file, table fd = some file → fd < limit ∧
      (file = .other ∨ file = .acceptSocket ∧ fd = acceptSocket_ ∨
        file = .devNull ∧ fd = idleFd_)) ∧
    table acceptSocket_ = some .acceptSocket ∧ table idleFd_ = some .devNull ∧
    s = { limit := limit, table := table, acceptSocket_ := acceptSocket_,
          newConnectionCallback_ := callback, idleFd_ := some idleFd_ }
  step s a s' := s.next a = some s'

/-! ## What the acceptor owns -/

/-- The acceptor's own descriptors, in each phase. -/
def owned (s : Acceptor) : List (Nat × OpenFile) :=
  let socket := (s.acceptSocket_, OpenFile.acceptSocket)
  match s.phase with
  | .rest | .outOfDescriptors => s.idleFd_.toList.map (·, .devNull) ++ [socket]
  | .unwanted connfd => (connfd, .accepted) :: (s.idleFd_.toList.map (·, .devNull) ++ [socket])
  | .reserveClosed | .retriedClosed | .destroying => [socket]
  | .retried => s.idleFd_.toList.map (·, .accepted) ++ [socket]
  | .gone => []

/-- What does not depend on the phase. -/
structure Books (s : Acceptor) : Prop where
  bound : ∀ fd file, s.table fd = some file → fd < s.limit
  closes : ∀ c ∈ s.closes, ∃ file, c = some file ∧ file.ofAcceptor = true
  order : (s.taken.map Prod.fst ++ s.backlog).Pairwise (· < ·)
  all : (s.taken.map Prod.fst ++ (s.aborted ++ s.backlog)).Perm (List.range s.arrived)
  handed : ∀ fd peer, s.table fd = some (.connection peer) → (peer, .handed fd) ∈ s.taken

def Inv (s : Acceptor) : Prop :=
  s.Books ∧ s.table.Owns (fun file => file.ofAcceptor = true) s.owned

theorem accept4_ok {s : Acceptor} {fails : Bool} {connfd peer : Nat} {waiting : List Nat}
    (h : s.accept4 fails = .ok (connfd, peer, waiting)) :
    s.table.lowestFree s.limit = some connfd ∧ s.backlog = peer :: waiting := by
  unfold accept4 at h
  cases hfree : s.table.lowestFree s.limit with
  | none => simp [hfree] at h
  | some fd =>
      cases hback : s.backlog with
      | nil => simp [hfree, hback] at h
      | cons p rest =>
          simp only [hfree, hback] at h
          split at h
          · cases h
          · cases h
            exact ⟨rfl, rfl⟩

theorem Books.moved {s : Acceptor} (h : s.Books) (phase : AcceptorPhase) (idle : Option Nat) :
    Books { s with phase := phase, idleFd_ := idle } :=
  ⟨h.bound, h.closes, h.order, h.all, h.handed⟩

theorem Books.release {s : Acceptor} (h : s.Books) (fd : Nat) :
    Books { s with table := s.table.release fd } := by
  refine ⟨?_, h.closes, h.order, h.all, ?_⟩
  · intro i file hi
    exact h.bound i file (Slots.release_eq_some.1 hi).2
  · intro i peer hi
    exact h.handed i peer (Slots.release_eq_some.1 hi).2

theorem Books.closeFd {s : Acceptor} (h : s.Books) {fd : Option Nat}
    (hown : ∀ i, fd = some i → ∃ file, s.table i = some file ∧ file.ofAcceptor = true) :
    (s.closeFd fd).Books := by
  cases fd with
  | none => exact h
  | some i =>
      have hrel := h.release i
      refine ⟨hrel.bound, ?_, hrel.order, hrel.all, hrel.handed⟩
      intro c hc
      rcases List.mem_append.1 hc with hc | hc
      · exact h.closes c hc
      · cases List.mem_singleton.1 hc
        exact hown i rfl

theorem Books.take {s : Acceptor} (h : s.Books) (file : OpenFile) {fd : Nat}
    (hlow : s.table.lowestFree s.limit = some fd) (hfile : ∀ peer, file ≠ .connection peer) :
    Books { s with table := s.table.take fd file } := by
  obtain ⟨hlt, hfree⟩ := Slots.free_of_lowestFree hlow
  refine ⟨?_, h.closes, h.order, h.all, ?_⟩
  · intro i file' hi
    rcases (Slots.take_eq_some hfree).1 hi with ⟨rfl, -⟩ | hi
    · exact hlt
    · exact h.bound i file' hi
  · intro i peer hi
    rcases (Slots.take_eq_some hfree).1 hi with ⟨-, heq⟩ | hi
    · exact absurd heq.symm (hfile peer)
    · exact h.handed i peer hi

/-- `accept` takes the connection that has waited longest. -/
theorem Books.receive {s : Acceptor} (h : s.Books) (file : OpenFile) (fate : Fate)
    {fails : Bool} {connfd peer : Nat} {waiting : List Nat}
    (haccept : s.accept4 fails = .ok (connfd, peer, waiting))
    (hfile : ∀ p, file = .connection p → p = peer ∧ fate = .handed connfd) :
    (s.receive connfd peer waiting file fate).Books := by
  obtain ⟨hlow, hback⟩ := accept4_ok haccept
  obtain ⟨hlt, hfree⟩ := Slots.free_of_lowestFree hlow
  refine ⟨?_, h.closes, ?_, ?_, ?_⟩
  · intro i file' hi
    rcases (Slots.take_eq_some hfree).1 hi with ⟨rfl, -⟩ | hi
    · exact hlt
    · exact h.bound i file' hi
  · simpa [Acceptor.receive, hback] using h.order
  · have hall := h.all
    simp only [hback] at hall
    refine List.Perm.trans ?_ hall
    simp only [Acceptor.receive, List.map_append, List.map_cons, List.map_nil,
      List.append_assoc, List.cons_append, List.nil_append]
    exact List.Perm.append_left _ List.perm_middle.symm
  · intro i p hi
    rcases (Slots.take_eq_some hfree).1 hi with ⟨rfl, heq⟩ | hi
    · obtain ⟨rfl, rfl⟩ := hfile p heq.symm
      exact List.mem_append_right _ (List.mem_singleton.2 rfl)
    · exact List.mem_append_left _ (h.handed i p hi)

theorem Books.arrive {s : Acceptor} (h : s.Books) :
    Books { s with backlog := s.backlog ++ [s.arrived], arrived := s.arrived + 1 } := by
  refine ⟨h.bound, h.closes, ?_, ?_, h.handed⟩
  · rw [← List.append_assoc]
    refine List.pairwise_append.2 ⟨h.order, List.pairwise_singleton _ _, ?_⟩
    intro a ha b hb
    have hmem : a ∈ List.range s.arrived := by
      refine h.all.mem_iff.1 ?_
      simp only [List.mem_append] at ha ⊢
      exact ha.imp_right Or.inr
    rw [List.mem_singleton.1 hb]
    exact List.mem_range.1 hmem
  · rw [List.range_succ, ← List.append_assoc, ← List.append_assoc]
    have hall := h.all.append_right [s.arrived]
    rwa [← List.append_assoc] at hall

theorem Books.abort {s : Acceptor} (h : s.Books) {peer : Nat} (hpeer : peer ∈ s.backlog) :
    Books { s with backlog := s.backlog.erase peer, aborted := s.aborted ++ [peer] } := by
  refine ⟨h.bound, h.closes, ?_, ?_, h.handed⟩
  · exact h.order.sublist (List.Sublist.append_left List.erase_sublist _)
  · refine List.Perm.trans (List.Perm.append_left _ ?_) h.all
    rw [List.append_assoc, List.singleton_append]
    exact List.Perm.append_left _ (List.perm_cons_erase hpeer).symm

/-- The acceptor closes a descriptor of its own, or -1. -/
theorem Inv.closeFd {s : Acceptor} (h : s.Inv) (fd : Option Nat) (file : OpenFile)
    (own : List (Nat × OpenFile)) (howned : s.owned = fd.toList.map (·, file) ++ own)
    (hfile : file.ofAcceptor = true) (hnot : ∀ i, (i, file) ∉ own) :
    (s.closeFd fd).Books ∧
      (s.closeFd fd).table.Owns (fun file => file.ofAcceptor = true) own := by
  obtain ⟨hbooks, hown⟩ := h
  rw [howned] at hown
  cases fd with
  | none => exact ⟨hbooks, hown⟩
  | some i =>
      refine ⟨hbooks.closeFd ?_, hown.release_mine hfile (hnot i)⟩
      rintro j hj
      cases hj
      exact ⟨file, (hown i file hfile).2 (by simp), hfile⟩

theorem init_inv {s : Acceptor} (h : runs.init s) : s.Inv := by
  obtain ⟨limit, table, acceptSocket_, idleFd_, callback, htable, hsocket, hidle, rfl⟩ := h
  refine ⟨⟨fun fd file hfd => (htable fd file hfd).1, by simp, by simp, by simp, ?_⟩, ?_⟩
  · intro fd peer hfd
    rcases (htable fd _ hfd).2 with heq | ⟨heq, -⟩ | ⟨heq, -⟩ <;> cases heq
  · intro fd file hfile
    simp only [owned, Option.toList_some, List.map_cons, List.map_nil, List.cons_append,
      List.nil_append, List.mem_cons, Prod.mk.injEq, List.not_mem_nil, or_false]
    constructor
    · intro hfd
      rcases (htable fd file hfd).2 with rfl | ⟨rfl, rfl⟩ | ⟨rfl, rfl⟩
      · cases hfile
      · exact Or.inr ⟨rfl, rfl⟩
      · exact Or.inl ⟨rfl, rfl⟩
    · rintro (⟨rfl, rfl⟩ | ⟨rfl, rfl⟩)
      · exact hidle
      · exact hsocket

theorem inv_handleRead {s s' : Acceptor} {fails : Bool} (h : s.Inv)
    (hnext : s.next (.handleRead fails) = some s') : s'.Inv := by
  obtain ⟨hbooks, hown⟩ := h
  simp only [next, Option.ite_none_right_eq_some] at hnext
  obtain ⟨hrest, hnext⟩ := hnext
  simp only [owned, hrest] at hown
  split at hnext
  next connfd peer waiting haccept =>
    have hfree := (Slots.free_of_lowestFree (accept4_ok haccept).1).2
    split at hnext
    · -- the callback has it
      cases hnext
      refine ⟨hbooks.receive _ _ haccept ?_, ?_⟩
      · intro p hp
        cases hp
        exact ⟨rfl, rfl⟩
      · simp only [owned, receive, hrest]
        exact hown.take_foreign hfree (by simp [OpenFile.ofAcceptor])
    · cases hnext
      have hrec := hbooks.receive .accepted .closed haccept (by simp)
      exact ⟨hrec.moved _ _, hown.take_mine hfree⟩
  next =>
    cases hnext
    exact ⟨hbooks.moved _ _, hown⟩
  next =>
    cases hnext
    refine ⟨hbooks, ?_⟩
    simpa only [owned, hrest] using hown

theorem inv_retryAccept {s s' : Acceptor} {fails : Bool} (h : s.Inv)
    (hnext : s.next (.retryAccept fails) = some s') : s'.Inv := by
  obtain ⟨hbooks, hown⟩ := h
  simp only [next, Option.ite_none_right_eq_some] at hnext
  obtain ⟨hphase, hnext⟩ := hnext
  simp only [owned, hphase] at hown
  split at hnext
  next connfd peer waiting haccept =>
    cases hnext
    have hfree := (Slots.free_of_lowestFree (accept4_ok haccept).1).2
    have hrec := hbooks.receive .accepted .closed haccept (by simp)
    exact ⟨hrec.moved _ _, hown.take_mine hfree⟩
  next =>
    cases hnext
    exact ⟨hbooks.moved _ _, hown⟩

theorem inv_reopen {s s' : Acceptor} {fails : Bool} (h : s.Inv)
    (hnext : s.next (.reopen fails) = some s') : s'.Inv := by
  obtain ⟨hbooks, hown⟩ := h
  simp only [next, Option.ite_none_right_eq_some] at hnext
  obtain ⟨hphase, hnext⟩ := hnext
  simp only [owned, hphase] at hown
  split at hnext
  next fd hopen =>
    cases hnext
    have hlow : s.table.lowestFree s.limit = some fd := by
      cases fails with
      | true => cases hopen
      | false => exact hopen
    have htake := hbooks.take .devNull hlow (by simp)
    exact ⟨htake.moved _ _, hown.take_mine (Slots.free_of_lowestFree hlow).2⟩
  next =>
    cases hnext
    exact ⟨hbooks.moved _ _, hown⟩

/-- What others do leaves the acceptor's own descriptors alone. -/
theorem inv_others {s s' : Acceptor} {a : AcceptorAction} (h : s.Inv)
    (ha : a = .arrive ∨ (∃ peer, a = .abort peer) ∨ a = .openOther ∨ ∃ fd, a = .closeOther fd)
    (hnext : s.next a = some s') : s'.Inv := by
  obtain ⟨hbooks, hown⟩ := h
  rcases ha with rfl | ⟨peer, rfl⟩ | rfl | ⟨fd, rfl⟩
  · simp only [next, Option.ite_none_left_eq_some, Option.some.injEq] at hnext
    obtain ⟨-, rfl⟩ := hnext
    exact ⟨hbooks.arrive, hown⟩
  · simp only [next, Option.ite_none_right_eq_some, Option.some.injEq] at hnext
    obtain ⟨hmem, rfl⟩ := hnext
    exact ⟨hbooks.abort hmem, hown⟩
  · obtain ⟨fd, hlow, rfl⟩ := Option.map_eq_some_iff.1 hnext
    refine ⟨hbooks.take .other hlow (by simp), ?_⟩
    exact hown.take_foreign (Slots.free_of_lowestFree hlow).2 (by simp [OpenFile.ofAcceptor])
  · simp only [next] at hnext
    split at hnext
    next file hfile =>
      obtain ⟨hof, heq⟩ := Option.ite_none_left_eq_some.1 hnext
      cases heq
      exact ⟨hbooks.release fd, hown.release_foreign hfile hof⟩
    next => cases hnext

theorem inv_step {s s' : Acceptor} {a : AcceptorAction} (h : s.Inv) (hnext : s.next a = some s') :
    s'.Inv := by
  cases a with
  | handleRead fails => exact inv_handleRead h hnext
  | retryAccept fails => exact inv_retryAccept h hnext
  | reopen fails => exact inv_reopen h hnext
  | arrive => exact inv_others h (Or.inl rfl) hnext
  | abort peer => exact inv_others h (Or.inr (Or.inl ⟨peer, rfl⟩)) hnext
  | openOther => exact inv_others h (Or.inr (Or.inr (Or.inl rfl))) hnext
  | closeOther fd => exact inv_others h (Or.inr (Or.inr (Or.inr ⟨fd, rfl⟩))) hnext
  | closeUnwanted =>
      simp only [next] at hnext
      split at hnext
      next connfd hphase =>
        cases hnext
        have hclosed := h.closeFd (some connfd) .accepted
          (s.idleFd_.toList.map (·, .devNull) ++ [(s.acceptSocket_, .acceptSocket)])
          (by simp [owned, hphase]) rfl (by simp)
        exact ⟨hclosed.1.moved _ _, hclosed.2⟩
      next => cases hnext
  | closeReserve =>
      obtain ⟨hphase, heq⟩ := Option.ite_none_right_eq_some.1 hnext
      cases heq
      have hclosed := h.closeFd s.idleFd_ .devNull [(s.acceptSocket_, .acceptSocket)]
        (by simp only [owned, hphase]) rfl (by simp)
      refine ⟨hclosed.1.moved _ _, ?_⟩
      simpa only [owned, closeFd_acceptSocket_] using hclosed.2
  | closeRetried =>
      obtain ⟨hphase, heq⟩ := Option.ite_none_right_eq_some.1 hnext
      cases heq
      have hclosed := h.closeFd s.idleFd_ .accepted [(s.acceptSocket_, .acceptSocket)]
        (by simp only [owned, hphase]) rfl (by simp)
      refine ⟨hclosed.1.moved _ _, ?_⟩
      simpa only [owned, closeFd_acceptSocket_] using hclosed.2
  | destroy =>
      obtain ⟨hphase, heq⟩ := Option.ite_none_right_eq_some.1 hnext
      cases heq
      have hclosed := h.closeFd s.idleFd_ .devNull [(s.acceptSocket_, .acceptSocket)]
        (by simp only [owned, hphase]) rfl (by simp)
      refine ⟨hclosed.1.moved _ _, ?_⟩
      simpa only [owned, closeFd_acceptSocket_] using hclosed.2
  | closeSocket =>
      obtain ⟨hphase, heq⟩ := Option.ite_none_right_eq_some.1 hnext
      cases heq
      obtain ⟨hb, ho⟩ := h.closeFd (some s.acceptSocket_) .acceptSocket []
        (by simp [owned, hphase]) rfl (by simp)
      refine ⟨⟨hb.bound, hb.closes, ?_, ?_, hb.handed⟩, ho⟩
      · exact hb.order.sublist (List.Sublist.append_left (List.nil_sublist _) _)
      · rw [List.append_nil]
        exact hb.all

theorem inv_of_reachable {s : Acceptor} (h : runs.Reachable s) : s.Inv :=
  h.invariant (fun _ => init_inv) fun _ _ _ => inv_step

/-- In every interleaving the acceptor closes only descriptors of its own, takes the connections in
the order of their arrival, loses none and forgets no descriptor: at rest it has its socket and the
reserve open and nothing else, and when it is gone nothing. -/
theorem keeps_books {s : Acceptor} (h : runs.Reachable s) :
    (∀ c ∈ s.closes, ∃ file, c = some file ∧ file.ofAcceptor = true) ∧
      (s.taken.map Prod.fst ++ s.backlog).Pairwise (· < ·) ∧
      (s.taken.map Prod.fst ++ (s.aborted ++ s.backlog)).Perm (List.range s.arrived) ∧
      (∀ fd peer, s.table fd = some (.connection peer) → (peer, .handed fd) ∈ s.taken) ∧
      (s.phase = .rest → ∀ fd file, file.ofAcceptor = true → (s.table fd = some file ↔
        fd = s.acceptSocket_ ∧ file = .acceptSocket ∨ s.idleFd_ = some fd ∧ file = .devNull)) ∧
      (s.phase = .gone → ∀ fd file, s.table fd = some file → file.ofAcceptor = false) := by
  obtain ⟨hbooks, hown⟩ := inv_of_reachable h
  refine ⟨hbooks.closes, hbooks.order, hbooks.all, hbooks.handed, ?_, ?_⟩
  · intro hphase fd file hfile
    rw [hown fd file hfile, or_comm]
    simp [owned, hphase, Option.mem_toList, eq_comm]
  · intro hphase fd file hfd
    cases hof : file.ofAcceptor with
    | false => rfl
    | true =>
        have hmem := (hown fd file hof).1 hfd
        simp [owned, hphase] at hmem

/-- Four descriptors, all of them open. -/
def crowded : Acceptor where
  limit := 4
  table
    | 0 | 1 => some .other
    | 2 => some .acceptSocket
    | 3 => some .devNull
    | _ => none
  acceptSocket_ := 2
  newConnectionCallback_ := true
  idleFd_ := some 3

theorem crowded_init : runs.init crowded := by
  refine ⟨4, crowded.table, 2, 3, true, ?_, rfl, rfl, rfl⟩
  intro fd file hfd
  match fd with
  | 0 | 1 | 2 | 3 =>
      cases hfd
      decide
  | n + 4 => cases hfd

/-- One connection is turned away, one is handed on in a freed slot and one waits for ever. -/
theorem keeps_books_crowded : ∃ s, runs.Reachable s ∧
    s.taken = [(0, .closed), (1, .handed 0)] ∧ s.aborted = [2] ∧
    s.closes = [some .devNull, some .accepted, some .devNull, some .acceptSocket] ∧
    ∀ fd file, s.table fd = some file → file.ofAcceptor = false := by
  have hrun : (System.runAll next crowded [.arrive, .arrive, .handleRead false, .closeReserve,
      .retryAccept false, .arrive, .closeRetried, .reopen false, .closeOther 0, .handleRead false,
      .destroy, .closeSocket]).map (fun s => (s.phase, s.taken, s.aborted, s.closes)) =
      some (.gone, [(0, .closed), (1, .handed 0)], [2],
        [some .devNull, some .accepted, some .devNull, some .acceptSocket]) := by decide
  obtain ⟨s, hs, heq⟩ := Option.map_eq_some_iff.1 hrun
  simp only [Prod.mk.injEq] at heq
  have hreach : runs.Reachable s := .of_runAll (fun _ _ _ h => h) (.init crowded_init) hs
  exact ⟨s, hreach, heq.2.1, heq.2.2.1, heq.2.2.2, (keeps_books hreach).2.2.2.2.2 heq.1⟩

/-! ## The reserve -/

/-- The acceptor's next system call in the middle of `handleRead`. -/
def ownCall : AcceptorPhase → Option AcceptorAction
  | .unwanted _ => some .closeUnwanted
  | .outOfDescriptors => some .closeReserve
  | .reserveClosed => some (.retryAccept false)
  | .retried => some .closeRetried
  | .retriedClosed => some (.reopen false)
  | .rest | .destroying | .gone => none

def finish : Nat → Acceptor → Option Acceptor
  | 0, s => some s
  | n + 1, s =>
    match ownCall s.phase with
    | none => some s
    | some a => s.next a >>= finish n

/-- `handleRead` with nobody else active; after its first call it makes four more at most. -/
def handleReadAlone (s : Acceptor) : Option Acceptor :=
  s.next (.handleRead false) >>= finish 4

theorem handleReadAlone_free {s : Acceptor} (hphase : s.phase = .rest)
    (hfree : ¬ s.table.Full s.limit) {peer : Nat} {waiting : List Nat}
    (hback : s.backlog = peer :: waiting) :
    ∃ s' fate, s.handleReadAlone = some s' ∧ s'.phase = .rest ∧ s'.idleFd_ = s.idleFd_ ∧
      s'.backlog = waiting ∧ s'.taken = s.taken ++ [(peer, fate)] ∧
      (fate = .closed ↔ s.newConnectionCallback_ = false) := by
  obtain ⟨connfd, hlow⟩ := Slots.lowestFree_of_not_full hfree
  cases hcb : s.newConnectionCallback_ with
  | true =>
      refine ⟨s.receive connfd peer waiting (.connection peer) (.handed connfd), .handed connfd,
        ?_, hphase, rfl, rfl, rfl, by simp⟩
      simp [handleReadAlone, next, accept4, hphase, hlow, hback, hcb, finish, ownCall, receive]
  | false =>
      refine ⟨{ (s.receive connfd peer waiting .accepted .closed).closeFd (some connfd) with
        phase := .rest }, .closed, ?_, rfl, rfl, rfl, rfl, by simp⟩
      simp [handleReadAlone, next, accept4, hphase, hlow, hback, hcb, finish, ownCall, receive,
        closeFd]

/-- With the reserve in hand a full table costs the first waiting connection, and no more. -/
theorem handleReadAlone_full {s : Acceptor} (hphase : s.phase = .rest)
    (hfull : s.table.Full s.limit) {fd : Nat} (hidle : s.idleFd_ = some fd) (hfd : fd < s.limit)
    {peer : Nat} {waiting : List Nat} (hback : s.backlog = peer :: waiting) :
    ∃ s', s.handleReadAlone = some s' ∧ s'.phase = .rest ∧ s'.idleFd_.isSome = true ∧
      s'.backlog = waiting ∧ s'.taken = s.taken ++ [(peer, .closed)] := by
  let s₁ : Acceptor := { s.closeFd (some fd) with phase := .reserveClosed }
  obtain ⟨j, hj⟩ : ∃ j, s₁.table.lowestFree s.limit = some j :=
    Slots.lowestFree_of_not_full (Slots.not_full_release hfd)
  let s₂ : Acceptor :=
    { s₁.receive j peer waiting .accepted .closed with idleFd_ := some j, phase := .retried }
  let s₃ : Acceptor := { s₂.closeFd (some j) with phase := .retriedClosed }
  obtain ⟨k, hk⟩ : ∃ k, s₃.table.lowestFree s.limit = some k :=
    Slots.lowestFree_of_not_full (Slots.not_full_release (Slots.free_of_lowestFree hj).1)
  have hretry : s₁.accept4 false = .ok (j, peer, waiting) := by
    have hback₁ : s₁.backlog = peer :: waiting := hback
    have hlow₁ : s₁.table.lowestFree s₁.limit = some j := hj
    simp [accept4, hback₁, hlow₁]
  refine ⟨{ s₃ with table := s₃.table.take k .devNull, idleFd_ := some k, phase := .rest }, ?_,
    rfl, rfl, rfl, rfl⟩
  calc s.handleReadAlone
      = finish 4 { s with phase := .outOfDescriptors } := by
        simp [handleReadAlone, next, accept4, hphase, Slots.lowestFree_eq_none.2 hfull]
    _ = finish 3 s₁ := by
        simp only [finish, ownCall, next, if_true, hidle]
        rfl
    _ = finish 2 s₂ := by
        have hphase₁ : s₁.phase = .reserveClosed := rfl
        simp only [finish, hphase₁, ownCall, next, if_true, hretry]
        rfl
    _ = finish 1 s₃ := rfl
    _ = some { s₃ with table := s₃.table.take k .devNull, idleFd_ := some k, phase := .rest } := by
        have hphase₃ : s₃.phase = .retriedClosed := rfl
        have hlow₃ : s₃.table.lowestFree s₃.limit = some k := hk
        simp [finish, hphase₃, ownCall, next, hlow₃]

/-- Without it a full table makes `handleRead` do nothing at all. -/
theorem handleReadAlone_lost {s : Acceptor} (hphase : s.phase = .rest)
    (hfull : s.table.Full s.limit) (hidle : s.idleFd_ = none) : s.handleReadAlone = some s := by
  have hlow := Slots.lowestFree_eq_none.2 hfull
  obtain ⟨limit, table, acceptSocket_, callback, idleFd_, phase, arrived, backlog, taken, aborted,
    closes⟩ := s
  cases hphase
  cases hidle
  simp [handleReadAlone, next, accept4, finish, ownCall, closeFd, hlow]

/-- Nobody takes the acceptor's slot, and `/dev/null` can be opened. -/
def SlotKept (s : Acceptor) (a : AcceptorAction) : Prop :=
  a ≠ .reopen true ∧ (s.phase.retrying = true → a ≠ .openOther)

/-- The reserve is open or a slot is free for it. -/
def CanReopen (s : Acceptor) : Prop :=
  match s.phase with
  | .rest | .outOfDescriptors | .unwanted _ => s.idleFd_.isSome = true
  | .reserveClosed | .retriedClosed => ¬ s.table.Full s.limit
  | .retried => s.idleFd_.isSome = true ∨ ¬ s.table.Full s.limit
  | .destroying | .gone => True

/-- The acceptor's own descriptors are below the limit, so that closing one leaves room. -/
theorem Inv.room {s : Acceptor} (h : s.Inv) {fd : Nat} {file : OpenFile}
    (hfile : file.ofAcceptor = true) (hmem : (fd, file) ∈ s.owned) :
    ¬ (s.table.release fd).Full s.limit :=
  Slots.not_full_release (h.1.bound fd file ((h.2 fd file hfile).2 hmem))

theorem canReopen_handleRead {s s' : Acceptor} {fails : Bool} (h : s.CanReopen)
    (hnext : s.next (.handleRead fails) = some s') : s'.CanReopen := by
  simp only [next, Option.ite_none_right_eq_some] at hnext
  obtain ⟨hphase, hnext⟩ := hnext
  simp only [CanReopen, hphase] at h
  split at hnext
  next connfd peer waiting haccept =>
    split at hnext
    · cases hnext
      simpa only [CanReopen, receive, hphase] using h
    · cases hnext
      exact h
  next =>
    cases hnext
    exact h
  next =>
    cases hnext
    simpa only [CanReopen, hphase] using h

theorem canReopen_closeUnwanted {s s' : Acceptor} (h : s.CanReopen)
    (hnext : s.next .closeUnwanted = some s') : s'.CanReopen := by
  simp only [next] at hnext
  split at hnext
  next connfd hphase =>
    cases hnext
    simp only [CanReopen, hphase] at h
    exact h
  next => cases hnext

theorem canReopen_closeReserve {s s' : Acceptor} (hinv : s.Inv) (h : s.CanReopen)
    (hnext : s.next .closeReserve = some s') : s'.CanReopen := by
  obtain ⟨hphase, heq⟩ := Option.ite_none_right_eq_some.1 hnext
  cases heq
  simp only [CanReopen, hphase] at h
  obtain ⟨fd, hfd⟩ := Option.isSome_iff_exists.1 h
  have hmem : (fd, OpenFile.devNull) ∈ s.owned := by simp [owned, hphase, hfd]
  simp only [CanReopen, hfd]
  exact hinv.room rfl hmem

theorem canReopen_retryAccept {s s' : Acceptor} {fails : Bool} (h : s.CanReopen)
    (hnext : s.next (.retryAccept fails) = some s') : s'.CanReopen := by
  simp only [next, Option.ite_none_right_eq_some] at hnext
  obtain ⟨hphase, hnext⟩ := hnext
  simp only [CanReopen, hphase] at h
  split at hnext
  next connfd peer waiting haccept =>
    cases hnext
    exact Or.inl rfl
  next =>
    -- the slot is as free as before
    cases hnext
    exact Or.inr h

theorem canReopen_closeRetried {s s' : Acceptor} (hinv : s.Inv) (h : s.CanReopen)
    (hnext : s.next .closeRetried = some s') : s'.CanReopen := by
  obtain ⟨hphase, heq⟩ := Option.ite_none_right_eq_some.1 hnext
  cases heq
  simp only [CanReopen, hphase] at h
  cases hfd : s.idleFd_ with
  | none => simpa [CanReopen, closeFd, hfd] using h
  | some fd =>
      have hmem : (fd, OpenFile.accepted) ∈ s.owned := by simp [owned, hphase, hfd]
      simp only [CanReopen]
      exact hinv.room rfl hmem

theorem canReopen_reopen {s s' : Acceptor} (h : s.CanReopen)
    (hnext : s.next (.reopen false) = some s') : s'.CanReopen := by
  simp only [next, Option.ite_none_right_eq_some] at hnext
  obtain ⟨hphase, hnext⟩ := hnext
  simp only [CanReopen, hphase] at h
  obtain ⟨fd, hlow⟩ := Slots.lowestFree_of_not_full h
  simp only [hlow, Bool.false_eq_true, if_false, Option.some.injEq] at hnext
  cases hnext
  rfl

theorem canReopen_openOther {s s' : Acceptor} (h : s.CanReopen)
    (hquiet : s.phase.retrying = false) (hnext : s.next .openOther = some s') :
    s'.CanReopen := by
  obtain ⟨fd, hlow, rfl⟩ := Option.map_eq_some_iff.1 hnext
  cases hphase : s.phase <;> simp only [CanReopen, hphase] at h ⊢
  case reserveClosed | retried | retriedClosed => simp [hphase, AcceptorPhase.retrying] at hquiet
  all_goals exact h

/-- A descriptor that somebody else closes only makes room. -/
theorem canReopen_closeOther {s s' : Acceptor} {fd : Nat} (h : s.CanReopen)
    (hnext : s.next (.closeOther fd) = some s') : s'.CanReopen := by
  simp only [next] at hnext
  split at hnext
  next =>
    obtain ⟨-, heq⟩ := Option.ite_none_left_eq_some.1 hnext
    cases heq
    cases hphase : s.phase <;> simp only [CanReopen, hphase] at h ⊢
    case retried => exact h.imp_right fun hfull hrel => hfull hrel.of_release
    case reserveClosed => exact fun hrel => h hrel.of_release
    case retriedClosed => exact fun hrel => h hrel.of_release
    all_goals exact h
  next => cases hnext

theorem canReopen_step {s s' : Acceptor} {a : AcceptorAction} (hinv : s.Inv) (h : s.CanReopen)
    (hkept : s.SlotKept a) (hnext : s.next a = some s') : s'.CanReopen := by
  cases a with
  | handleRead fails => exact canReopen_handleRead h hnext
  | closeUnwanted => exact canReopen_closeUnwanted h hnext
  | closeReserve => exact canReopen_closeReserve hinv h hnext
  | retryAccept fails => exact canReopen_retryAccept h hnext
  | closeRetried => exact canReopen_closeRetried hinv h hnext
  | reopen fails =>
      cases fails with
      | true => exact absurd rfl hkept.1
      | false => exact canReopen_reopen h hnext
  | openOther =>
      refine canReopen_openOther h ?_ hnext
      exact Bool.eq_false_iff.2 fun hretrying => hkept.2 hretrying rfl
  | closeOther fd => exact canReopen_closeOther h hnext
  | destroy | closeSocket =>
      obtain ⟨-, heq⟩ := Option.ite_none_right_eq_some.1 hnext
      cases heq
      trivial
  | arrive =>
      obtain ⟨-, heq⟩ := Option.ite_none_left_eq_some.1 hnext
      cases heq
      exact h
  | abort peer =>
      obtain ⟨-, heq⟩ := Option.ite_none_right_eq_some.1 hnext
      cases heq
      exact h

/-- While nobody takes the slot between the two closes and the open, the reserve is there whenever
the acceptor is at rest, so that each `handleRead` takes the first waiting connection: it closes the
connection if the table is full or there is no callback, and hands it on otherwise. -/
theorem reserve_kept {s : Acceptor} (h : (runs.restrict SlotKept).Reachable s)
    (hphase : s.phase = .rest) :
    (∃ fd, s.idleFd_ = some fd ∧ s.table fd = some .devNull) ∧
      ∀ peer waiting, s.backlog = peer :: waiting → ∃ s' fate,
        s.handleReadAlone = some s' ∧ s'.phase = .rest ∧ s'.idleFd_.isSome = true ∧
        s'.backlog = waiting ∧ s'.taken = s.taken ++ [(peer, fate)] ∧
        (fate = .closed ↔ s.table.Full s.limit ∨ s.newConnectionCallback_ = false) := by
  have hboth : s.Inv ∧ s.CanReopen := by
    refine h.invariant (P := fun s => s.Inv ∧ s.CanReopen) ?_ ?_
    · intro s hinit
      refine ⟨init_inv hinit, ?_⟩
      obtain ⟨limit, table, acceptSocket_, idleFd_, callback, -, -, -, rfl⟩ := hinit
      rfl
    · rintro s a s' ⟨hinv, hcan⟩ ⟨hkept, hnext⟩
      exact ⟨inv_step hinv hnext, canReopen_step hinv hcan hkept hnext⟩
  obtain ⟨⟨hbooks, hown⟩, hcan⟩ := hboth
  simp only [CanReopen, hphase] at hcan
  obtain ⟨fd, hfd⟩ := Option.isSome_iff_exists.1 hcan
  have hnull : s.table fd = some .devNull := (hown fd .devNull rfl).2 (by simp [owned, hphase, hfd])
  refine ⟨⟨fd, hfd, hnull⟩, ?_⟩
  intro peer waiting hback
  by_cases hfull : s.table.Full s.limit
  · obtain ⟨s', halone, hrest, hidle, hwait, htaken⟩ :=
      handleReadAlone_full hphase hfull hfd (hbooks.bound fd _ hnull) hback
    exact ⟨s', .closed, halone, hrest, hidle, hwait, htaken, by simp [hfull]⟩
  · obtain ⟨s', fate, halone, hrest, hidle, hwait, htaken, hfate⟩ :=
      handleReadAlone_free hphase hfull hback
    refine ⟨s', fate, halone, hrest, by rw [hidle, hfd]; rfl, hwait, htaken, ?_⟩
    rw [hfate, or_iff_right hfull]

/-- Another thread opens a descriptor outside of the retry, and closes one in it. -/
theorem reserve_kept_crowded : ∃ s fd,
    (runs.restrict SlotKept).Reachable s ∧ s.backlog = [1] ∧ s.idleFd_ = some fd ∧
    s.table fd = some .devNull := by
  have hrun : (System.runAll
      (fun s a => if a = .reopen true ∨ s.phase.retrying = true ∧ a = .openOther then none
        else next s a) crowded
      [.closeOther 0, .openOther, .arrive, .arrive, .handleRead false, .closeReserve,
        .closeOther 1, .retryAccept false, .closeRetried, .reopen false, .openOther]).map
      (fun s => (s.phase, s.backlog)) = some (.rest, [1]) := by decide
  obtain ⟨s, hs, heq⟩ := Option.map_eq_some_iff.1 hrun
  simp only [Prod.mk.injEq] at heq
  have hreach : (runs.restrict SlotKept).Reachable s := by
    refine .of_runAll ?_ (.init crowded_init) hs
    intro s a s' h
    obtain ⟨hnot, hnext⟩ := Option.ite_none_left_eq_some.1 h
    exact ⟨⟨fun ha => hnot (Or.inl ha), fun hp ha => hnot (Or.inr ⟨hp, ha⟩)⟩, hnext⟩
  obtain ⟨fd, hfd, hnull⟩ := (reserve_kept hreach heq.1).1
  exact ⟨s, fd, hreach, heq.2, hfd, hnull⟩

/-- Nobody closes a descriptor while `handleRead` goes through `EMFILE`. -/
def NoneFreed (s : Acceptor) (a : AcceptorAction) : Prop :=
  s.phase = .outOfDescriptors ∨ s.phase.retrying = true → ∀ fd, a ≠ .closeOther fd

/-- The reserve is lost, and the table is full when the acceptor is about to find that out. -/
def ReserveLost (s : Acceptor) : Prop :=
  match s.phase with
  | .rest | .unwanted _ => s.idleFd_ = none
  | .outOfDescriptors | .reserveClosed | .retried | .retriedClosed =>
      s.idleFd_ = none ∧ s.table.Full s.limit
  | .destroying | .gone => True

theorem reserveLost_handleRead {s s' : Acceptor} {fails : Bool} (h : s.ReserveLost)
    (hnext : s.next (.handleRead fails) = some s') : s'.ReserveLost := by
  simp only [next, Option.ite_none_right_eq_some] at hnext
  obtain ⟨hphase, hnext⟩ := hnext
  simp only [ReserveLost, hphase] at h
  split at hnext
  next =>
    split at hnext
    · cases hnext
      simpa only [ReserveLost, receive, hphase] using h
    · cases hnext
      exact h
  next haccept =>
    cases hnext
    refine ⟨h, ?_⟩
    -- only a full table makes `accept` fail so
    unfold accept4 at haccept
    split at haccept
    next hlow => exact Slots.lowestFree_eq_none.1 hlow
    next =>
      split at haccept
      next => cases haccept
      next => split at haccept <;> cases haccept
  next =>
    cases hnext
    simpa only [ReserveLost, hphase] using h

theorem reserveLost_closeUnwanted {s s' : Acceptor} (h : s.ReserveLost)
    (hnext : s.next .closeUnwanted = some s') : s'.ReserveLost := by
  simp only [next] at hnext
  split at hnext
  next connfd hphase =>
    cases hnext
    simp only [ReserveLost, hphase] at h
    exact h
  next => cases hnext

theorem reserveLost_closeReserve {s s' : Acceptor} (h : s.ReserveLost)
    (hnext : s.next .closeReserve = some s') : s'.ReserveLost := by
  obtain ⟨hphase, heq⟩ := Option.ite_none_right_eq_some.1 hnext
  cases heq
  simp only [ReserveLost, hphase] at h
  simpa only [ReserveLost, closeFd, h.1, true_and] using h.2

/-- The table is full: the second `accept` fails as the first did. -/
theorem reserveLost_retryAccept {s s' : Acceptor} {fails : Bool} (h : s.ReserveLost)
    (hnext : s.next (.retryAccept fails) = some s') : s'.ReserveLost := by
  simp only [next, Option.ite_none_right_eq_some] at hnext
  obtain ⟨hphase, hnext⟩ := hnext
  simp only [ReserveLost, hphase] at h
  simp only [accept4, Slots.lowestFree_eq_none.2 h.2] at hnext
  cases hnext
  exact ⟨rfl, h.2⟩

theorem reserveLost_closeRetried {s s' : Acceptor} (h : s.ReserveLost)
    (hnext : s.next .closeRetried = some s') : s'.ReserveLost := by
  obtain ⟨hphase, heq⟩ := Option.ite_none_right_eq_some.1 hnext
  cases heq
  simp only [ReserveLost, hphase] at h
  simpa only [ReserveLost, closeFd, h.1, true_and] using h.2

theorem reserveLost_reopen {s s' : Acceptor} {fails : Bool} (h : s.ReserveLost)
    (hnext : s.next (.reopen fails) = some s') : s'.ReserveLost := by
  simp only [next, Option.ite_none_right_eq_some] at hnext
  obtain ⟨hphase, hnext⟩ := hnext
  simp only [ReserveLost, hphase] at h
  simp only [Slots.lowestFree_eq_none.2 h.2, ite_self, Option.some.injEq] at hnext
  cases hnext
  rfl

/-- A free descriptor can be taken only where the table need not be full. -/
theorem reserveLost_openOther {s s' : Acceptor} (h : s.ReserveLost)
    (hnext : s.next .openOther = some s') : s'.ReserveLost := by
  obtain ⟨fd, hlow, rfl⟩ := Option.map_eq_some_iff.1 hnext
  have hnot : ¬ s.table.Full s.limit := by
    rw [← Slots.lowestFree_eq_none, hlow]
    simp
  cases hphase : s.phase <;> simp only [ReserveLost, hphase] at h ⊢
  case rest | unwanted => exact h
  case outOfDescriptors | reserveClosed | retried | retriedClosed => exact absurd h.2 hnot

theorem reserveLost_closeOther {s s' : Acceptor} {fd : Nat} (h : s.ReserveLost)
    (hnone : s.NoneFreed (.closeOther fd)) (hnext : s.next (.closeOther fd) = some s') :
    s'.ReserveLost := by
  simp only [next] at hnext
  split at hnext
  next =>
    obtain ⟨-, heq⟩ := Option.ite_none_left_eq_some.1 hnext
    cases heq
    cases hphase : s.phase <;> simp only [ReserveLost, hphase] at h ⊢
    case rest | unwanted => exact h
    case outOfDescriptors => exact absurd rfl (hnone (Or.inl hphase) fd)
    case reserveClosed | retried | retriedClosed =>
      exact absurd rfl (hnone (Or.inr (by rw [hphase]; rfl)) fd)
  next => cases hnext

/-- The step lemma. -/
theorem reserveLost_step {s s' : Acceptor} {a : AcceptorAction} (h : s.ReserveLost)
    (hnone : s.NoneFreed a) (hnext : s.next a = some s') : s'.ReserveLost := by
  cases a with
  | handleRead fails => exact reserveLost_handleRead h hnext
  | closeUnwanted => exact reserveLost_closeUnwanted h hnext
  | closeReserve => exact reserveLost_closeReserve h hnext
  | retryAccept fails => exact reserveLost_retryAccept h hnext
  | closeRetried => exact reserveLost_closeRetried h hnext
  | reopen fails => exact reserveLost_reopen h hnext
  | destroy | closeSocket =>
      obtain ⟨hphase, heq⟩ := Option.ite_none_right_eq_some.1 hnext
      cases heq
      trivial
  | arrive =>
      simp only [next, Option.ite_none_left_eq_some, Option.some.injEq] at hnext
      obtain ⟨-, rfl⟩ := hnext
      exact h
  | abort peer =>
      simp only [next, Option.ite_none_right_eq_some, Option.some.injEq] at hnext
      obtain ⟨-, rfl⟩ := hnext
      exact h
  | openOther => exact reserveLost_openOther h hnext
  | closeOther fd => exact reserveLost_closeOther h hnone hnext

/-- A lost reserve stays lost, however many descriptors become free between one `handleRead` and
the next; and as long as the table is full each `handleRead` leaves everything as it was, with the
connections waiting and the listening socket readable. -/
theorem reserve_stays_lost {s s' : Acceptor} (hlost : s.idleFd_ = none)
    (hphase : s.phase = .rest) (h : ((runs.startAt s).restrict NoneFreed).Reachable s')
    (hphase' : s'.phase = .rest) :
    s'.idleFd_ = none ∧ (s'.table.Full s'.limit → s'.handleReadAlone = some s') := by
  have hlost' : s'.ReserveLost := by
    refine h.invariant (P := ReserveLost) ?_ ?_
    · intro s₀ hinit
      cases hinit
      simpa only [ReserveLost, hphase] using hlost
    · rintro s₁ a s₂ hlost₁ ⟨hnone, hnext⟩
      exact reserveLost_step hlost₁ hnone hnext
  simp only [ReserveLost, hphase'] at hlost'
  exact ⟨hlost', fun hfull => handleReadAlone_lost hphase' hfull hlost'⟩

/-- Another thread takes the slot that the acceptor has just given up: two connections wait, the
reserve is gone, and so it remains when the acceptor tries again. -/
theorem reserve_stays_lost_crowded : ∃ s,
    runs.Reachable s ∧ s.backlog = [0, 1] ∧ s.idleFd_ = none ∧ s.handleReadAlone = some s := by
  let robbed : Acceptor := { crowded with
    table := (crowded.table.release 3).take 3 .other
    idleFd_ := none
    arrived := 2
    backlog := [0, 1]
    closes := [some .devNull] }
  have hrun : System.runAll next crowded [.arrive, .arrive, .handleRead false, .closeReserve,
      .openOther, .retryAccept false, .closeRetried, .reopen false] = some robbed := rfl
  have hlost := reserve_stays_lost (s := robbed) rfl rfl (.init rfl) rfl
  refine ⟨robbed, .of_runAll (fun _ _ _ h => h) (.init crowded_init) hrun, rfl, rfl, hlost.2 ?_⟩
  intro fd hfd
  match fd with
  | 0 | 1 | 2 | 3 => decide

end Acceptor
end Net
end Longky
