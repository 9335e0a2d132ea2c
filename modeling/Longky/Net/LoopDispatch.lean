import Longky.Net.ServerLoops

/-!
# LoopDispatch — the iterations of the loops behind a server

`EventLoop::loop` of `netLayer/event/eventloop/EventLoop.cpp` in each thread of a server:
`poll` fills `activeChannels_`, the handlers of these channels run one after the other, and
`doPendingFunctors` swaps the queue out and runs what was in it.  A channel that `poll` has reported
may be anybody's: its connection must still be there, and open, when its turn comes, whatever the
handlers before it and the other threads have done since.

The runs of all loops together are runs of `ServerLoops`, whose queues hold the functors that have
been swapped out in front of `pendingFunctors_`.
-/

namespace Longky
namespace Net

open Lib

inductive ActiveChannel where
  | acceptor
  | connection (conn : TcpConnectionPtr)
  deriving DecidableEq, Repr

/-- What a channel's handlers do to the server. -/
inductive HandlerEvent where
  | newConnection (sockfd : Int)
  | handleClose
  /-- Nothing: an `accept` that fails, input, output. -/
  | other
  deriving DecidableEq, Repr

/-- The members of `class EventLoop` that `loop` works with. -/
structure LoopMembers where
  activeChannels_ : List ActiveChannel := []
  currentActiveChannel_ : Option ActiveChannel := none
  eventHandling_ : Bool := false
  callingPendingFunctors_ : Bool := false
  /-- The active channels whose turn has not come. -/
  toHandle : List ActiveChannel := []
  /-- The rest of the vector `functors` in `doPendingFunctors`. -/
  functors : List LoopFunctor := []

structure LoopDispatch (Loop : Type) where
  /-- Its queues are the `pendingFunctors_` of the loops. -/
  loops : ServerLoops Loop
  members : Loop → LoopMembers := fun _ => {}

inductive DispatchAction (Loop : Type) where
  /-- `poll` returns with these active channels. -/
  | poll (loop : Loop) (active : List ActiveChannel)
  /-- The next of them is handled. -/
  | handleEvent (loop : Loop) (event : HandlerEvent)
  /-- Behind the last of them, `doPendingFunctors` swaps the queue. -/
  | doPendingFunctors (loop : Loop)
  /-- The next functor runs, or `doPendingFunctors` returns. -/
  | runFunctor (loop : Loop)
  /-- A functor that `forceClose` has queued runs among the others. -/
  | forceCloseInLoop (loop : Loop) (conn : TcpConnectionPtr)

namespace LoopDispatch

variable {Loop : Type} [DecidableEq Loop]

def setMembers (s : LoopDispatch Loop) (loop : Loop) (m : LoopMembers) : LoopDispatch Loop :=
  { s with members := Function.update s.members loop m }

/-- A channel is in the poller of this loop, and waits for events. -/
def Registered (s : ServerLoops Loop) (loop : Loop) : ActiveChannel → Prop
  | .acceptor => loop = s.baseLoop
  | .connection conn => s.stage conn = some .established ∧
      s.server.accepted[conn]?.map (·.loop_) = some loop

instance (s : ServerLoops Loop) (loop : Loop) (ch : ActiveChannel) :
    Decidable (Registered s loop ch) := by
  cases ch <;> unfold Registered <;> infer_instance

/-- The assertion of `EventLoop::removeChannel`. -/
def removable (m : LoopMembers) (ch : ActiveChannel) : Bool :=
  !m.eventHandling_ || m.currentActiveChannel_ == some ch || !m.activeChannels_.contains ch

/-- `handleEvent` of a channel; none when an assertion fails, or when the channel has gone with its
connection. -/
def handle (s : ServerLoops Loop) : ActiveChannel → HandlerEvent → Option (ServerLoops Loop)
  | .acceptor, .newConnection sockfd => s.next (.newConnection sockfd)
  | .acceptor, _ => some s
  | .connection conn, event =>
      if s.stage conn = none ∨ s.stage conn = some .destroyed then none
      else match event with
        -- `assert(state_ == kConnected || state_ == kDisconnecting)`
        | .handleClose => s.next (.handleClose conn)
        | _ => some s

/-- `functor()`, where `connectDestroyed` calls `removeChannel`. -/
def callFunctor (s : LoopDispatch Loop) (loop : Loop) (f : LoopFunctor) :
    Option (ServerLoops Loop) :=
  match f with
  | .connectDestroyed conn =>
      if removable (s.members loop) (.connection conn) then s.loops.call loop f else none
  | _ => s.loops.call loop f

def enabled (s : LoopDispatch Loop) : DispatchAction Loop → Prop
  | .poll loop active =>
      (s.members loop).eventHandling_ = false ∧ (s.members loop).callingPendingFunctors_ = false ∧
        active.Nodup ∧ ∀ ch ∈ active, Registered s.loops loop ch
  | .handleEvent loop _ => (s.members loop).eventHandling_ = true ∧ (s.members loop).toHandle ≠ []
  | .doPendingFunctors loop =>
      (s.members loop).eventHandling_ = true ∧ (s.members loop).toHandle = []
  | .runFunctor loop => (s.members loop).callingPendingFunctors_ = true
  | .forceCloseInLoop loop conn =>
      (s.members loop).callingPendingFunctors_ = true ∧
        s.loops.server.accepted[conn]?.map (·.loop_) = some loop

instance (s : LoopDispatch Loop) (a : DispatchAction Loop) : Decidable (s.enabled a) := by
  cases a <;> unfold enabled <;> infer_instance

def perform (s : LoopDispatch Loop) : DispatchAction Loop → Option (LoopDispatch Loop)
  | .poll loop active =>
      some (s.setMembers loop { s.members loop with
        activeChannels_ := active
        toHandle := active
        eventHandling_ := true })
  | .handleEvent loop event =>
      match (s.members loop).toHandle with
      | [] => none
      | ch :: rest => do
          let loops ← handle s.loops ch event
          return { s with loops := loops }.setMembers loop { s.members loop with
            currentActiveChannel_ := some ch
            toHandle := rest }
  | .doPendingFunctors loop =>
      some ({ s with loops := { s.loops with queue := Function.update s.loops.queue loop [] } }.setMembers
        loop { s.members loop with
          currentActiveChannel_ := none
          eventHandling_ := false
          callingPendingFunctors_ := true
          functors := s.loops.queue loop })
  | .runFunctor loop =>
      match (s.members loop).functors with
      | [] => some (s.setMembers loop { s.members loop with callingPendingFunctors_ := false })
      | f :: rest => do
          let loops ← s.callFunctor loop f
          return { s with loops := loops }.setMembers loop { s.members loop with functors := rest }
  | .forceCloseInLoop _ conn =>
      -- `if (state_ == kConnected || state_ == kDisconnecting)`
      if s.loops.stage conn = some .established then do
        let loops ← s.loops.next (.handleClose conn)
        return { s with loops := loops }
      else some s

/-- The runs of a started server with the loops of its threads. -/
def runs : System (LoopDispatch Loop) (DispatchAction Loop) where
  init s := ∃ server, TcpServer.runs.init server ∧ s = { loops := { server := server } }
  step s a s' := s.enabled a ∧ s.perform a = some s'

end LoopDispatch

/-! ## Functors in front of the queues -/

namespace ServerLoops

variable {Loop : Type} [DecidableEq Loop] {s s' : ServerLoops Loop}

omit [DecidableEq Loop] in
def prepend (front : Mailboxes Loop LoopFunctor) (s : ServerLoops Loop) : ServerLoops Loop :=
  { s with queue := fun loop => front loop ++ s.queue loop }

theorem call_prepend (front : Mailboxes Loop LoopFunctor) (s : ServerLoops Loop) (loop : Loop)
    (f : LoopFunctor) : (s.prepend front).call loop f = (s.call loop f).map (prepend front) := by
  have hlookup : (s.prepend front).server = s.server := rfl
  unfold call
  rw [hlookup]
  cases hc : s.server.accepted[f.conn]? with
  | none => rfl
  | some c =>
      cases f with
      | connectEstablished conn =>
          by_cases hassert : loop = c.loop_ ∧ s.stage conn = some .made
          · simp [prepend, setStage, hassert]
          · simp [prepend, hassert]
      | removeConnectionInLoop conn =>
          have hbase : (s.prepend front).baseLoop = s.baseLoop := rfl
          by_cases hassert : loop = s.baseLoop
          · cases hremove : s.server.removeConnectionInLoop conn with
            | none => simp [hremove]
            | some server =>
                simp only [hbase, hassert, hremove, if_true, Option.bind_eq_bind, Option.bind_some]
                simp [prepend, setStage, Mailboxes.append_put]
          · simp [hbase, hassert]
      | connectDestroyed conn =>
          by_cases hassert : loop = c.loop_ ∧ (s.stage conn = some .established ∨
              s.stage conn = some .closing ∨ s.stage conn = some .removed)
          · simp [prepend, setStage, hassert]
          · simp [prepend, hassert]

theorem runInLoop_prepend (front : Mailboxes Loop LoopFunctor) (s : ServerLoops Loop)
    (loop target : Loop) (f : LoopFunctor) :
    (s.prepend front).runInLoop loop target f =
      (s.runInLoop loop target f).map (prepend front) := by
  unfold runInLoop
  split
  · exact call_prepend front s loop f
  · simp [prepend, Mailboxes.append_put]

theorem newConnection_prepend (front : Mailboxes Loop LoopFunctor) (s : ServerLoops Loop)
    (sockfd : Int) : (s.prepend front).next (.newConnection sockfd) =
      (s.next (.newConnection sockfd)).map (prepend front) := by
  simp only [next, Option.bind_eq_bind]
  have hserver : (s.prepend front).server = s.server := rfl
  rw [hserver]
  cases hnew : s.server.newConnection sockfd with
  | none => rfl
  | some server =>
      simp only [Option.bind_some]
      cases server.accepted[s.server.accepted.length]? with
      | none => rfl
      | some c =>
          exact runInLoop_prepend front
            ({ s with server := server }.setStage s.server.accepted.length .made) _ _ _

theorem handleClose_prepend (front : Mailboxes Loop LoopFunctor) (s : ServerLoops Loop)
    (conn : TcpConnectionPtr) : (s.prepend front).next (.handleClose conn) =
      (s.next (.handleClose conn)).map (prepend front) := by
  simp only [next, Option.bind_eq_bind]
  have hserver : (s.prepend front).server = s.server := rfl
  rw [hserver]
  cases s.server.accepted[conn]? with
  | none => rfl
  | some c =>
      simp only [Option.bind_some]
      by_cases hassert : s.stage conn = some .established
      · rw [if_pos hassert, if_pos (by exact hassert)]
        exact runInLoop_prepend front (s.setStage conn .closing) _ _ _
      · rw [if_neg hassert, if_neg (by exact hassert)]
        rfl

/-! ## What a functor leaves alone -/

/-- Only the stage of one connection may have changed, and there may be new ones. -/
structure SameBut (s s' : ServerLoops Loop) (conn : TcpConnectionPtr) : Prop where
  accepted : s.server.accepted <+: s'.server.accepted
  baseLoop : s'.baseLoop = s.baseLoop
  stage : ∀ k, k ≠ conn → s'.stage k = s.stage k

omit [DecidableEq Loop] in
theorem SameBut.trans {s₁ s₂ s₃ : ServerLoops Loop} {conn : TcpConnectionPtr}
    (h : s₁.SameBut s₂ conn) (h' : s₂.SameBut s₃ conn) : s₁.SameBut s₃ conn where
  accepted := h.accepted.trans h'.accepted
  baseLoop := h'.baseLoop.trans h.baseLoop
  stage k hk := (h'.stage k hk).trans (h.stage k hk)

omit [DecidableEq Loop] in
theorem sameBut_of_update {conn : TcpConnectionPtr} {stage : Stage}
    (hacc : s.server.accepted <+: s'.server.accepted) (hbase : s'.baseLoop = s.baseLoop)
    (hstage : s'.stage = Function.update s.stage conn (some stage)) : s.SameBut s' conn where
  accepted := hacc
  baseLoop := hbase
  stage k hk := by
    rw [hstage]
    exact Function.update_of_ne hk _ _

theorem sameBut_call {loop : Loop} {f : LoopFunctor} (h : s.call loop f = some s') :
    s.SameBut s' f.conn := by
  unfold call at h
  obtain ⟨c, hc, h⟩ := Option.bind_eq_some_iff.1 h
  cases f with
  | connectEstablished conn =>
      obtain ⟨-, h⟩ := Option.ite_none_right_eq_some.1 h
      cases h
      exact sameBut_of_update (List.prefix_refl _) rfl rfl
  | removeConnectionInLoop conn =>
      obtain ⟨-, h⟩ := Option.ite_none_right_eq_some.1 h
      obtain ⟨server, hremove, h⟩ := Option.bind_eq_some_iff.1 h
      cases h
      have heq := hremove.symm.trans (TcpServer.removeConnectionInLoop_eq s.server hc)
      cases heq
      exact sameBut_of_update (List.prefix_refl _) rfl rfl
  | connectDestroyed conn =>
      obtain ⟨-, h⟩ := Option.ite_none_right_eq_some.1 h
      cases h
      exact sameBut_of_update (List.prefix_refl _) rfl rfl

theorem sameBut_runInLoop {loop target : Loop} {f : LoopFunctor}
    (h : s.runInLoop loop target f = some s') : s.SameBut s' f.conn := by
  unfold runInLoop at h
  split at h
  · exact sameBut_call h
  · cases h
    exact ⟨List.prefix_refl _, rfl, fun _ _ => rfl⟩

theorem sameBut_handleClose {conn : TcpConnectionPtr} (h : s.next (.handleClose conn) = some s') :
    s.SameBut s' conn := by
  obtain ⟨c, -, h⟩ := Option.bind_eq_some_iff.1 h
  obtain ⟨-, h⟩ := Option.ite_none_right_eq_some.1 h
  have hclosing : s.SameBut (s.setStage conn .closing) conn :=
    sameBut_of_update (List.prefix_refl _) rfl rfl
  exact hclosing.trans (sameBut_runInLoop h)

theorem sameBut_newConnection (hinv : s.server.Inv) {sockfd : Int}
    (h : s.next (.newConnection sockfd) = some s') : s.SameBut s' s.server.accepted.length := by
  obtain ⟨server, hnew, h⟩ := Option.bind_eq_some_iff.1 h
  obtain ⟨c, -, h⟩ := Option.bind_eq_some_iff.1 h
  have hmade : s.SameBut ({ s with server := server }.setStage s.server.accepted.length .made)
      s.server.accepted.length := by
    refine sameBut_of_update ?_ (baseLoop_newConnection hinv hnew) rfl
    obtain ⟨ioLoop, threadPool_, -, rfl⟩ := TcpServer.newConnection_eq_some hnew
    exact List.prefix_append _ _
  exact hmade.trans (sameBut_runInLoop h)

end ServerLoops

/-! ## The invariant -/

namespace LoopDispatch

variable {Loop : Type} [DecidableEq Loop] {s s' : LoopDispatch Loop}

omit [DecidableEq Loop] in
def front (s : LoopDispatch Loop) : Mailboxes Loop LoopFunctor := fun loop =>
  (s.members loop).functors

omit [DecidableEq Loop] in
/-- The server with everything that its loops still have to run. -/
def whole (s : LoopDispatch Loop) : ServerLoops Loop := s.loops.prepend s.front

structure Inv (s : LoopDispatch Loop) : Prop where
  whole : ServerLoops.runs.Reachable s.whole
  phases : ∀ loop, (s.members loop).eventHandling_ = true →
    (s.members loop).callingPendingFunctors_ = false
  functors : ∀ loop, (s.members loop).callingPendingFunctors_ = false →
    (s.members loop).functors = []
  toHandle : ∀ loop, (s.members loop).eventHandling_ = true →
    (s.members loop).toHandle.Nodup ∧
      ∀ ch ∈ (s.members loop).toHandle, Registered s.loops loop ch

omit [DecidableEq Loop] in
theorem Registered.congr {l l' : ServerLoops Loop} {loop : Loop} {ch : ActiveChannel}
    {conn : TcpConnectionPtr} (h : Registered l loop ch) (hsame : l.SameBut l' conn)
    (hne : ch ≠ .connection conn) : Registered l' loop ch := by
  cases ch with
  | acceptor => exact Eq.trans h hsame.baseLoop.symm
  | connection k =>
      have hk : k ≠ conn := fun heq => hne (congrArg ActiveChannel.connection heq)
      obtain ⟨hst, hloop⟩ := h
      refine ⟨(hsame.stage k hk).trans hst, ?_⟩
      obtain ⟨c, hc, rfl⟩ := Option.map_eq_some_iff.1 hloop
      obtain ⟨hlt, rfl⟩ := List.getElem?_eq_some_iff.1 hc
      rw [List.prefix_iff_getElem?.1 hsame.accepted k hlt]
      rfl

omit [DecidableEq Loop] in
/-- A channel is registered in its own loop and nowhere else. -/
theorem Registered.unique {l : ServerLoops Loop} {loop loop' : Loop} {ch : ActiveChannel}
    (h : Registered l loop ch) (h' : Registered l loop' ch) : loop = loop' := by
  cases ch with
  | acceptor => exact Eq.trans h (Eq.symm h')
  | connection conn => exact Option.some.inj (h.2.symm.trans h'.2)

/-- A loop that keeps its functors keeps the queues of the whole. -/
theorem reachable_setMembers {l : ServerLoops Loop} {loop : Loop} {m : LoopMembers}
    (hm : m.functors = (s.members loop).functors)
    (h : ServerLoops.runs.Reachable (l.prepend s.front)) :
    ServerLoops.runs.Reachable ({ s with loops := l }.setMembers loop m).whole := by
  have hfront : ({ s with loops := l }.setMembers loop m).front = s.front := by
    funext k
    by_cases hk : k = loop
    · subst hk
      simp [front, setMembers, hm]
    · simp [front, setMembers, hk]
  rw [whole, hfront]
  exact h

/-- One loop has moved on. -/
theorem Inv.setMembers (h : s.Inv) {l : ServerLoops Loop} {loop : Loop} {m : LoopMembers}
    (hwhole : ServerLoops.runs.Reachable ({ s with loops := l }.setMembers loop m).whole)
    (hphases : m.eventHandling_ = true → m.callingPendingFunctors_ = false)
    (hfunctors : m.callingPendingFunctors_ = false → m.functors = [])
    (htoHandle : m.eventHandling_ = true →
      m.toHandle.Nodup ∧ ∀ ch ∈ m.toHandle, Registered l loop ch)
    (hothers : ∀ loop', loop' ≠ loop → ∀ ch, Registered s.loops loop' ch → Registered l loop' ch) :
    ({ s with loops := l }.setMembers loop m).Inv where
  whole := hwhole
  phases k := by
    by_cases hk : k = loop
    · subst hk
      simpa [LoopDispatch.setMembers] using hphases
    · simpa [LoopDispatch.setMembers, hk] using h.phases k
  functors k := by
    by_cases hk : k = loop
    · subst hk
      simpa [LoopDispatch.setMembers] using hfunctors
    · simpa [LoopDispatch.setMembers, hk] using h.functors k
  toHandle k := by
    by_cases hk : k = loop
    · subst hk
      simpa [LoopDispatch.setMembers] using htoHandle
    · intro hhandling
      have hold : (s.members k).eventHandling_ = true := by
        simpa [LoopDispatch.setMembers, hk] using hhandling
      obtain ⟨hnodup, hregistered⟩ := h.toHandle k hold
      have hlist : (({ s with loops := l }.setMembers loop m).members k).toHandle =
          (s.members k).toHandle := by simp [LoopDispatch.setMembers, hk]
      rw [hlist]
      exact ⟨hnodup, fun ch hch => hothers k hk ch (hregistered ch hch)⟩

/-- What the whole server can do, the loops can do. -/
theorem Inv.advance (h : s.Inv) {a : ServerAction Loop}
    (hprepend : s.whole.next a = (s.loops.next a).map (ServerLoops.prepend s.front))
    (hsome : ∃ w, s.whole.next a = some w ∧ w.Inv none) :
    ∃ l, s.loops.next a = some l ∧ ServerLoops.runs.Reachable (l.prepend s.front) := by
  obtain ⟨w, hw, -⟩ := hsome
  obtain ⟨l, hl, rfl⟩ := Option.map_eq_some_iff.1 (hprepend.symm.trans hw)
  exact ⟨l, hl, h.whole.step hw⟩

theorem Inv.newConnection (h : s.Inv) (sockfd : Int) :
    ∃ l, s.loops.next (.newConnection sockfd) = some l ∧
      ServerLoops.runs.Reachable (l.prepend s.front) ∧
      ∀ loop ch, Registered s.loops loop ch → Registered l loop ch := by
  have hinv := ServerLoops.reachable_inv h.whole
  obtain ⟨l, hl, hreach⟩ := h.advance (ServerLoops.newConnection_prepend s.front s.loops sockfd)
    (hinv.newConnection sockfd)
  refine ⟨l, hl, hreach, ?_⟩
  intro loop ch hch
  refine hch.congr (ServerLoops.sameBut_newConnection hinv.1.server hl) ?_
  rintro rfl
  -- the new connection was not there before
  obtain ⟨-, hloop⟩ := hch
  simp at hloop

theorem Inv.handleClose (h : s.Inv) {loop : Loop} {conn : TcpConnectionPtr}
    (hch : Registered s.loops loop (.connection conn)) :
    ∃ l, s.loops.next (.handleClose conn) = some l ∧
      ServerLoops.runs.Reachable (l.prepend s.front) ∧
      ∀ loop' ch, ch ≠ .connection conn → Registered s.loops loop' ch → Registered l loop' ch := by
  have hinv := ServerLoops.reachable_inv h.whole
  obtain ⟨l, hl, hreach⟩ := h.advance (ServerLoops.handleClose_prepend s.front s.loops conn)
    (hinv.handleClose hch.1)
  exact ⟨l, hl, hreach, fun loop' ch hne hch' =>
    hch'.congr (ServerLoops.sameBut_handleClose hl) hne⟩

/-- The handler of a registered channel finds everything in order. -/
theorem Inv.handle (h : s.Inv) {loop : Loop} {ch : ActiveChannel}
    (hch : Registered s.loops loop ch) (event : HandlerEvent) :
    ∃ l, handle s.loops ch event = some l ∧ ServerLoops.runs.Reachable (l.prepend s.front) ∧
      ∀ loop' ch', ch' ≠ ch → Registered s.loops loop' ch' → Registered l loop' ch' := by
  have hnothing : ∃ l, some s.loops = some l ∧ ServerLoops.runs.Reachable (l.prepend s.front) ∧
      ∀ loop' ch', ch' ≠ ch → Registered s.loops loop' ch' → Registered l loop' ch' :=
    ⟨s.loops, rfl, h.whole, fun _ _ _ hch' => hch'⟩
  cases ch with
  | acceptor =>
      cases event with
      | newConnection sockfd =>
          obtain ⟨l, hl, hreach, hregistered⟩ := h.newConnection sockfd
          exact ⟨l, hl, hreach, fun loop' ch' _ hch' => hregistered loop' ch' hch'⟩
      | handleClose => exact hnothing
      | other => exact hnothing
  | connection conn =>
      have hthere : ¬ (s.loops.stage conn = none ∨ s.loops.stage conn = some .destroyed) := by
        simp [hch.1]
      simp only [LoopDispatch.handle, if_neg hthere]
      cases event with
      | newConnection sockfd => exact hnothing
      | handleClose => exact h.handleClose hch
      | other => exact hnothing

theorem Inv.poll (h : s.Inv) {loop : Loop} {active : List ActiveChannel}
    (he : s.enabled (.poll loop active)) :
    ∃ s', s.perform (.poll loop active) = some s' ∧ s'.Inv := by
  obtain ⟨-, hcalling, hnodup, hregistered⟩ := he
  refine ⟨_, rfl, h.setMembers (l := s.loops) ?_ (fun _ => hcalling) ?_ ?_ ?_⟩
  · exact reachable_setMembers rfl h.whole
  · exact fun _ => h.functors loop hcalling
  · exact fun _ => ⟨hnodup, hregistered⟩
  · exact fun _ _ _ hch => hch

theorem Inv.handleEvent (h : s.Inv) {loop : Loop} {event : HandlerEvent}
    (he : s.enabled (.handleEvent loop event)) :
    ∃ s', s.perform (.handleEvent loop event) = some s' ∧ s'.Inv := by
  obtain ⟨hhandling, hne⟩ := he
  obtain ⟨ch, rest, hlist⟩ := List.exists_cons_of_ne_nil hne
  obtain ⟨hnodup, hregistered⟩ := h.toHandle loop hhandling
  rw [hlist] at hnodup hregistered
  have hch := hregistered ch List.mem_cons_self
  obtain ⟨l, hl, hreach, hkept⟩ := h.handle hch event
  refine ⟨_, by simp only [LoopDispatch.perform, hlist, hl]; rfl, ?_⟩
  refine h.setMembers ?_ (h.phases loop) (h.functors loop) (fun _ => ⟨hnodup.of_cons, ?_⟩) ?_
  · exact reachable_setMembers rfl hreach
  · -- the channels behind it are others
    intro ch' hch'
    have hother : ch' ≠ ch := fun heq => (List.nodup_cons.1 hnodup).1 (heq ▸ hch')
    exact hkept loop ch' hother (hregistered ch' (List.mem_cons_of_mem _ hch'))
  · -- and so are those of the other loops
    intro loop' hloop ch' hch'
    refine hkept loop' ch' ?_ hch'
    rintro rfl
    exact hloop (hch'.unique hch)

theorem Inv.doPendingFunctors (h : s.Inv) {loop : Loop}
    (he : s.enabled (.doPendingFunctors loop)) :
    ∃ s', s.perform (.doPendingFunctors loop) = some s' ∧ s'.Inv := by
  refine ⟨_, rfl, h.setMembers ?_ (by simp) (by simp) (by simp) fun _ _ ch hch => ?_⟩
  · -- the functors move from the queue into the vector
    have hempty : (s.members loop).functors = [] := h.functors loop (h.phases loop he.1)
    have hsame : ({ s with loops := { s.loops with
        queue := Function.update s.loops.queue loop [] } }.setMembers loop { s.members loop with
          currentActiveChannel_ := none
          eventHandling_ := false
          callingPendingFunctors_ := true
          functors := s.loops.queue loop }).whole = s.whole := by
      simp only [LoopDispatch.whole, ServerLoops.prepend, front, LoopDispatch.setMembers,
        ServerLoops.mk.injEq, true_and, and_true]
      funext k
      by_cases hk : k = loop
      · subst hk
        simp [hempty]
      · simp [hk]
    rw [hsame]
    exact h.whole
  · cases ch with
    | acceptor => exact hch
    | connection conn => exact hch

/-- A functor that is still to run concerns a connection whose channel waits for nothing. -/
theorem Inv.not_registered (h : s.Inv) {loop : Loop} {f : LoopFunctor}
    (hf : f ∈ s.whole.queue loop) (loop' : Loop) :
    ¬ Registered s.loops loop' (.connection f.conn) := by
  intro hch
  obtain ⟨-, hpending⟩ := ServerLoops.reachable_inv h.whole
  obtain ⟨c, stage, -, hst, hdue⟩ := ((hpending.1 loop f).1 hf).1
  have hestablished : stage = .established := by
    have := hst.symm.trans hch.1
    exact Option.some.inj this
  subst hestablished
  cases hdue

theorem Inv.runFunctor (h : s.Inv) {loop : Loop} (he : s.enabled (.runFunctor loop)) :
    ∃ s', s.perform (.runFunctor loop) = some s' ∧ s'.Inv := by
  have hcalling : (s.members loop).callingPendingFunctors_ = true := he
  have hhandling : (s.members loop).eventHandling_ = false := by
    cases hev : (s.members loop).eventHandling_ with
    | false => rfl
    | true => exact absurd (h.phases loop hev) (by simp [hcalling])
  cases hfunctors : (s.members loop).functors with
  | nil =>
      refine ⟨s.setMembers loop { s.members loop with callingPendingFunctors_ := false }, ?_, ?_⟩
      · simp only [LoopDispatch.perform, hfunctors]
      · refine h.setMembers (l := s.loops) ?_ (fun _ => rfl) (fun _ => hfunctors) ?_
          (fun _ _ _ hch => hch)
        · exact reachable_setMembers rfl h.whole
        · exact fun hev => absurd hev (by simp [hhandling])
  | cons f rest =>
      have hqueue : s.whole.queue loop = f :: (rest ++ s.loops.queue loop) := by
        simp [LoopDispatch.whole, ServerLoops.prepend, front, hfunctors]
      -- in the whole, the functor is the first of its queue
      have htaken : ({ s.whole with
          queue := Function.update s.whole.queue loop (rest ++ s.loops.queue loop) } :
            ServerLoops Loop) = s.loops.prepend (Function.update s.front loop rest) := by
        simp only [LoopDispatch.whole, ServerLoops.prepend, ServerLoops.mk.injEq, true_and,
          and_true]
        funext k
        by_cases hk : k = loop
        · subst hk
          simp
        · simp [hk]
      have hnext : s.whole.next (.runNext loop) =
          (s.loops.call loop f).map (ServerLoops.prepend (Function.update s.front loop rest)) := by
        simp only [ServerLoops.next, hqueue, htaken]
        exact ServerLoops.call_prepend _ s.loops loop f
      have hne : s.whole.queue loop ≠ [] := by simp [hqueue]
      obtain ⟨w, hw, -⟩ := (ServerLoops.reachable_inv h.whole).runNext hne
      obtain ⟨l, hl, rfl⟩ := Option.map_eq_some_iff.1 (hnext.symm.trans hw)
      have hcall : s.callFunctor loop f = some l := by
        have hremovable : ∀ ch, removable (s.members loop) ch = true := by
          intro ch
          simp [removable, hhandling]
        cases f <;> simp [callFunctor, hremovable, hl]
      refine ⟨{ s with loops := l }.setMembers loop { s.members loop with functors := rest },
        by simp [LoopDispatch.perform, hfunctors, hcall], ?_⟩
      refine h.setMembers ?_ (h.phases loop) ?_ ?_ ?_
      · have hfront : ({ s with loops := l }.setMembers loop
            { s.members loop with functors := rest }).front =
              Function.update s.front loop rest := by
          funext k
          by_cases hk : k = loop
          · subst hk
            simp [front, LoopDispatch.setMembers]
          · simp [front, LoopDispatch.setMembers, hk]
        rw [LoopDispatch.whole, hfront]
        exact h.whole.step hw
      · exact fun hno => absurd hno (by simp [hcalling])
      · exact fun hev => absurd hev (by simp [hhandling])
      · intro loop' _ ch hch
        refine hch.congr (ServerLoops.sameBut_call hl) ?_
        rintro rfl
        have hf : f ∈ s.whole.queue loop := by simp [hqueue]
        exact h.not_registered hf loop' hch

theorem Inv.forceCloseInLoop (h : s.Inv) {loop : Loop} {conn : TcpConnectionPtr}
    (he : s.enabled (.forceCloseInLoop loop conn)) :
    ∃ s', s.perform (.forceCloseInLoop loop conn) = some s' ∧ s'.Inv := by
  obtain ⟨hcalling, hloop⟩ := he
  by_cases hst : s.loops.stage conn = some .established
  · have hch : Registered s.loops loop (.connection conn) := ⟨hst, hloop⟩
    obtain ⟨l, hl, hreach, hkept⟩ := h.handleClose hch
    have hsame : ({ s with loops := l } : LoopDispatch Loop) =
        { s with loops := l }.setMembers loop (s.members loop) := by
      simp [LoopDispatch.setMembers]
    refine ⟨{ s with loops := l }, by simp [LoopDispatch.perform, hst, hl], ?_⟩
    rw [hsame]
    refine h.setMembers ?_ (h.phases loop) (h.functors loop) ?_ ?_
    · exact reachable_setMembers rfl hreach
    · exact fun hev => absurd (h.phases loop hev) (by simp [hcalling])
    · intro loop' hne ch hch'
      refine hkept loop' ch ?_ hch'
      rintro rfl
      exact hne (hch'.unique hch)
  · exact ⟨s, by simp [LoopDispatch.perform, hst], h⟩

/-! ## Runs -/

/-- The step lemma: what is enabled succeeds. -/
theorem Inv.perform (h : s.Inv) {a : DispatchAction Loop} (he : s.enabled a) :
    ∃ s', s.perform a = some s' ∧ s'.Inv := by
  cases a with
  | poll loop active => exact h.poll he
  | handleEvent loop event => exact h.handleEvent he
  | doPendingFunctors loop => exact h.doPendingFunctors he
  | runFunctor loop => exact h.runFunctor he
  | forceCloseInLoop loop conn => exact h.forceCloseInLoop he

theorem reachable_inv (h : runs.Reachable s) : s.Inv := by
  refine h.invariant (P := Inv) ?_ ?_
  · rintro s ⟨server, hserver, rfl⟩
    exact ⟨.init ⟨server, hserver, rfl⟩, by simp, by simp, by simp⟩
  · rintro s a s' hs ⟨he, hstep⟩
    obtain ⟨s₁, hs₁, hinv⟩ := hs.perform he
    cases hs₁.symm.trans hstep
    exact hinv

/-- The loops of a server, in every run.  No assertion fails, that of `removeChannel` included, and no
handler runs on a channel that is gone: a connection whose channel is still to be handled is open
and in the map, and no functor that waits anywhere is about it.  All loops together do what
`ServerLoops` does with one functor after the other. -/
theorem dispatch_safe (h : runs.Reachable s) (hlen : s.loops.server.accepted.length < 2 ^ 31) :
    (∀ a, s.enabled a → (s.perform a).isSome = true) ∧
      (∀ loop conn, (s.members loop).eventHandling_ = true →
        .connection conn ∈ (s.members loop).toHandle →
          s.loops.stage conn = some .established ∧
            (∃ name, s.loops.server.connections_ name = some (some conn)) ∧
            ∀ loop' f, f ∈ s.whole.queue loop' → f.conn ≠ conn) ∧
      ServerLoops.runs.Reachable s.whole := by
  have hinv := reachable_inv h
  refine ⟨?_, ?_, hinv.whole⟩
  · intro a he
    obtain ⟨s', hs', -⟩ := hinv.perform he
    rw [hs']
    rfl
  · intro loop conn hhandling hmem
    have hch := (hinv.toHandle loop hhandling).2 _ hmem
    have hbooks := (ServerLoops.reachable_inv hinv.whole).1
    refine ⟨hch.1, (hbooks.mem_map hlen hch.1).2 (by simp), ?_⟩
    rintro loop' f hf rfl
    exact hinv.not_registered hf loop hch

def next (s : LoopDispatch Loop) (a : DispatchAction Loop) : Option (LoopDispatch Loop) :=
  if s.enabled a then s.perform a else none

/-- Three connections on two threads.  The first loop finds its two connections active; the one is
closed, and removed from the map in the meantime, before the turn of the other comes. -/
def closedInBetween : List (DispatchAction Nat) :=
  [.poll 0 [.acceptor], .handleEvent 0 (.newConnection 5), .doPendingFunctors 0, .runFunctor 0,
    .poll 0 [.acceptor], .handleEvent 0 (.newConnection 6), .doPendingFunctors 0, .runFunctor 0,
    .poll 0 [.acceptor], .handleEvent 0 (.newConnection 7), .doPendingFunctors 0, .runFunctor 0,
    .poll 1 [], .doPendingFunctors 1, .runFunctor 1, .runFunctor 1, .runFunctor 1,
    .poll 1 [.connection 0, .connection 2], .handleEvent 1 .handleClose,
    .poll 0 [], .doPendingFunctors 0, .runFunctor 0]

def closedInBetweenEnd : Option (LoopDispatch Nat) :=
  System.runAll next { loops := { server := TcpServer.smallServer } } closedInBetween

theorem dispatch_safe_closedInBetween : ∃ s, closedInBetweenEnd = some s ∧
    s.loops.queue 1 = [.connectDestroyed 0] ∧
      ∃ name, s.loops.server.connections_ name = some (some 2) := by
  obtain ⟨s, hs, hlen, hqueue, hhandling, htoHandle⟩ : ∃ s, closedInBetweenEnd = some s ∧
      s.loops.server.accepted.length = 3 ∧ s.loops.queue 1 = [.connectDestroyed 0] ∧
        (s.members 1).eventHandling_ = true ∧ (s.members 1).toHandle = [.connection 2] := by
    have hrun : (closedInBetweenEnd.map fun s => (s.loops.server.accepted.length, s.loops.queue 1,
        (s.members 1).eventHandling_, (s.members 1).toHandle)) =
          some (3, [.connectDestroyed 0], true, [.connection 2]) := by
      decide +kernel
    simpa [Option.map_eq_some_iff] using hrun
  have hreach : runs.Reachable s := by
    refine .of_runAll ?_ (.init ⟨_, ?_, rfl⟩) hs
    · exact fun _ _ _ hnext => Option.ite_none_right_eq_some.1 hnext
    · exact ⟨_, _, _, 0, (· + 1), 2, _, by decide +kernel, EventLoopThreadPool.start_eq _ _ _, rfl⟩
  have hsafe := (dispatch_safe hreach (by simp [hlen])).2.1 1 2 hhandling (by simp [htoHandle])
  exact ⟨s, hs, hqueue, hsafe.2.1⟩

end LoopDispatch
end Net
end Longky
