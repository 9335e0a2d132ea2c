import Longky.Net.TcpNotices
import Mathlib.Data.List.Chain

/-!
# TcpReports — what a user who waits for the callbacks of a connection is told

A server that sends a file part by part, as `StaticServer::writeComplete` does, goes on when
`writeCompleteCallback_` comes, and stops for good if it never does.

Over all runs of a connection, with calls from other threads, closes, and writes that are stopped
and started: when nothing is pending, everything taken since the last `writeCompleteCallback_` was
empty; none comes while something is pending; between two of them a message is taken; and
`highWaterMarkCallback_` comes once for each time the mark is crossed.
-/

namespace Longky
namespace Net

open Lib

/-- What a user who waits for `writeCompleteCallback_` sees. -/
inductive Report where
  | taken (message : Bytes)
  | complete
  deriving DecidableEq, Repr

/-- A connection with the history of a run. -/
structure Account where
  conn : World
  log : List Report := []
  /-- How many bytes were pending at the start and after each action. -/
  sizes : List Nat
  /-- What `highWaterMarkCallback_` has been queued with. -/
  crossed : List Nat := []

/-- What has been reported since the last `complete`, latest first. -/
def since (log : List Report) : List Report :=
  log.reverse.takeWhile (· != .complete)

/-- The values by which a sequence goes from below the mark to it or over it. -/
def crossings (mark : Nat) : List Nat → List Nat
  | x :: y :: sizes =>
      (if x < mark ∧ mark ≤ y then [y] else []) ++ crossings mark (y :: sizes)
  | _ => []

def Functor.report : Functor → Option Report
  | .writeCompleteCallback => some .complete
  | _ => none

def Functor.crossing : Functor → Option Nat
  | .highWaterMarkCallback size => some size
  | _ => none

namespace Account

def advance (s : Account) (a : Action) : Account where
  conn := s.conn.perform a
  log := s.log ++ (s.conn.takes a).toList.map .taken ++
    (s.conn.notices a).filterMap Functor.report
  sizes := s.sizes ++ [(s.conn.perform a).size]
  crossed := s.crossed ++ (s.conn.notices a).filterMap Functor.crossing

def runs : System Account Action where
  init s := ∃ wc hw mark, s = { conn := .constructed wc hw mark, sizes := [0] }
  step s a s' := s.conn.enabled a = true ∧ s' = s.advance a

theorem size_constructed (wc hw : Bool) (mark : Nat) :
    (World.constructed wc hw mark).size = 0 := by
  rw [World.size_of_readable]
  exact congrArg List.length (WfBuffer.readable_construct _)

/-! ## When the last byte has been written -/

/-- What an action adds to the log. -/
theorem log_advance (s : Account) (a : Action) :
    (s.advance a).log = s.log ++ (s.conn.takes a).toList.map .taken ++
      if s.conn.completes a = true ∧ s.conn.writeCompleteCallback_ = true then [.complete]
      else [] := by
  have hhigh : (s.conn.highNotice (s.conn.perform a).size).filterMap Functor.report = [] := by
    unfold World.highNotice
    split <;> rfl
  have hcomplete : (s.conn.completeNotice (s.conn.completes a)).filterMap Functor.report =
      if s.conn.completes a = true ∧ s.conn.writeCompleteCallback_ = true then [.complete]
      else [] := by
    unfold World.completeNotice
    split <;> rfl
  simp only [advance, World.notices_eq, List.filterMap_append, hhigh, hcomplete, List.nil_append]

/-- Something is pending just when a byte has been taken since the last `complete`, and a
`complete` does not follow a `complete`. -/
structure Told (s : Account) : Prop where
  pending : s.conn.size = 0 ↔ ∀ message, .taken message ∈ since s.log → message = []
  apart : s.log.IsChain fun r r' => r = .complete → r' ≠ .complete

theorem since_complete (log : List Report) : since (log ++ [.complete]) = [] := by
  simp [since]

theorem since_taken (log : List Report) (message : Bytes) :
    since (log ++ [.taken message]) = .taken message :: since log := by
  simp [since]

theorem since_of_getLast? {log : List Report} (h : log.getLast? = some .complete) :
    since log = [] := by
  obtain ⟨front, rfl⟩ := List.getLast?_eq_some_iff.1 h
  exact since_complete front

/-- The step lemma. -/
theorem Told.advance {s : Account} (h : s.Told) (hset : s.conn.writeCompleteCallback_ = true)
    (a : Action) : (s.advance a).Told := by
  have hsize : (s.advance a).conn.size = 0 ↔ s.conn.completes a = true ∨
      s.conn.size = 0 ∧ ∀ message, s.conn.takes a = some message → message = [] :=
    World.size_perform s.conn a
  have hlog := log_advance s a
  have htaken : ∀ message, (s.log ++ [Report.taken message]).IsChain
      fun r r' => r = .complete → r' ≠ .complete := by
    intro message
    refine List.isChain_append.2 ⟨h.apart, .singleton _, ?_⟩
    intro r _ r' hr' _
    cases Option.mem_some_iff.1 hr'
    simp
  cases hcompletes : s.conn.completes a with
  | true =>
      rw [if_pos ⟨hcompletes, hset⟩] at hlog
      have hzero : (s.advance a).conn.size = 0 := hsize.2 (.inl hcompletes)
      have hsince : since (s.advance a).log = [] := by rw [hlog, since_complete]
      refine ⟨by simp [hzero, hsince], ?_⟩
      rw [hlog]
      cases htakes : s.conn.takes a with
      | none =>
          -- the last byte was pending, so the last report is not a `complete`
          have hpending : s.conn.size ≠ 0 := by
            rcases World.completes_cause hcompletes with hpos | ⟨message, hmessage⟩
            · exact hpos.ne'
            · rw [htakes] at hmessage
              cases hmessage
          have hlast : s.log.getLast? ≠ some .complete := by
            intro hlast
            refine hpending (h.pending.2 ?_)
            simp [since_of_getLast? hlast]
          refine List.isChain_append.2 ⟨?_, .singleton _, ?_⟩
          · simpa using h.apart
          · rintro r hr r' - rfl
            simp only [Option.toList_none, List.map_nil, List.append_nil] at hr
            exact absurd hr hlast
      | some message =>
          refine List.isChain_append.2 ⟨htaken message, .singleton _, ?_⟩
          rintro r hr r' - rfl
          simp at hr
  | false =>
      have hnot : ¬ (s.conn.completes a = true ∧ s.conn.writeCompleteCallback_ = true) := by
        simp [hcompletes]
      rw [if_neg hnot, List.append_nil] at hlog
      rw [hcompletes] at hsize
      cases htakes : s.conn.takes a with
      | none =>
          have hsame : (s.advance a).log = s.log := by simp [hlog, htakes]
          refine ⟨?_, by rw [hsame]; exact h.apart⟩
          rw [hsame, ← h.pending]
          simpa [htakes] using hsize
      | some message =>
          have hnew : (s.advance a).log = s.log ++ [.taken message] := by simp [hlog, htakes]
          refine ⟨?_, by rw [hnew]; exact htaken message⟩
          rw [hnew, since_taken]
          have hiff : (s.advance a).conn.size = 0 ↔ s.conn.size = 0 ∧ message = [] := by
            simpa [htakes] using hsize
          rw [hiff, h.pending]
          simp [and_comm]

theorem reachable_told {s : Account} (h : runs.Reachable s) :
    s.conn.writeCompleteCallback_ = true → s.Told := by
  refine System.Reachable.invariant
    (P := fun s => s.conn.writeCompleteCallback_ = true → s.Told) ?_ ?_ h
  · rintro s ⟨wc, hw, mark, rfl⟩ -
    exact ⟨by simp [size_constructed, since], .nil⟩
  · rintro s a s' hs ⟨-, rfl⟩ hset
    have hbefore : s.conn.writeCompleteCallback_ = true := by
      rw [← (World.sameSettings_perform s.conn a).complete]
      exact hset
    exact (hs hbefore).advance hbefore a

/-! ## When the mark is crossed -/

theorem crossings_concat (mark : Nat) (sizes : List Nat) (x y : Nat) :
    crossings mark (sizes ++ [x] ++ [y]) =
      crossings mark (sizes ++ [x]) ++ if x < mark ∧ mark ≤ y then [y] else [] := by
  induction sizes with
  | nil => simp [crossings]
  | cons z sizes ih =>
      cases sizes with
      | nil => simp [crossings]
      | cons z' sizes => simpa [crossings] using ih

theorem crossed_advance (s : Account) (a : Action) :
    (s.advance a).crossed = s.crossed ++
      if s.conn.highWaterMarkCallback_ = true ∧ s.conn.size < s.conn.highWaterMark_ ∧
          s.conn.highWaterMark_ ≤ (s.conn.perform a).size then [(s.conn.perform a).size]
      else [] := by
  have hcomplete : ∀ finished,
      (s.conn.completeNotice finished).filterMap Functor.crossing = [] := by
    intro finished
    unfold World.completeNotice
    split <;> rfl
  have hhigh : ∀ after, (s.conn.highNotice after).filterMap Functor.crossing =
      if s.conn.highWaterMarkCallback_ = true ∧ s.conn.size < s.conn.highWaterMark_ ∧
        s.conn.highWaterMark_ ≤ after then [after] else [] := by
    intro after
    unfold World.highNotice
    split <;> rfl
  simp only [advance, World.notices_eq, List.filterMap_append, hcomplete, hhigh, List.append_nil]

/-- The calls are the crossings of the sizes so far, the last of which is the present one. -/
structure Marked (s : Account) : Prop where
  sizes : ∃ front, s.sizes = front ++ [s.conn.size]
  crossed : s.crossed =
    if s.conn.highWaterMarkCallback_ = true then crossings s.conn.highWaterMark_ s.sizes else []

theorem Marked.advance {s : Account} (h : s.Marked) (a : Action) : (s.advance a).Marked := by
  obtain ⟨front, hfront⟩ := h.sizes
  have hset := World.sameSettings_perform s.conn a
  have hsizes : (s.advance a).sizes = front ++ [s.conn.size] ++ [(s.conn.perform a).size] := by
    rw [← hfront]
    rfl
  refine ⟨⟨_, hsizes⟩, ?_⟩
  have hhigh : (s.advance a).conn.highWaterMarkCallback_ = s.conn.highWaterMarkCallback_ :=
    hset.high
  have hmark : (s.advance a).conn.highWaterMark_ = s.conn.highWaterMark_ := hset.mark
  rw [crossed_advance, hsizes, hhigh, hmark, h.crossed]
  cases hcb : s.conn.highWaterMarkCallback_ with
  | true => simp only [true_and, if_true, crossings_concat, hfront]
  | false => simp

theorem reachable_marked {s : Account} (h : runs.Reachable s) : s.Marked := by
  refine h.invariant ?_ ?_
  · rintro s ⟨wc, hw, mark, rfl⟩
    exact ⟨⟨[], by rw [size_constructed]; rfl⟩, by simp [crossings]⟩
  · rintro s a s' hs ⟨-, rfl⟩
    exact hs.advance a

/-! ## The results -/

/-- No message waits for a `writeCompleteCallback_` that does not come, and none comes early or
twice: in every run, nothing is pending just when every message taken since the last one is empty,
and between two of them a message is taken. -/
theorem write_complete {s : Account} (h : runs.Reachable s)
    (hset : s.conn.writeCompleteCallback_ = true) :
    (s.conn.size = 0 ↔ ∀ message, .taken message ∈ since s.log → message = []) ∧
      s.log.IsChain fun r r' => r = .complete → r' ≠ .complete :=
  have htold := reachable_told h hset
  ⟨htold.pending, htold.apart⟩

/-- `highWaterMarkCallback_` is queued for the crossings of the mark and with the sizes that
crossed it, in their order. -/
theorem high_water {s : Account} (h : runs.Reachable s) :
    s.crossed = if s.conn.highWaterMarkCallback_ = true
      then crossings s.conn.highWaterMark_ s.sizes else [] :=
  (reachable_marked h).crossed

/-- Four bytes of which the kernel takes one, three more while these are pending, and a write event
that takes the rest; then the same again, from another thread. -/
def twice : List Action :=
  [.connectEstablished, .resume, .call .loop (.send [1, 2, 3, 4] (.room 1)),
    .call .loop (.send [5, 6, 7] (.room 0)), .event { POLLOUT := true } .fail (.room 9), .resume,
    .runFunctor 0 (.room 0), .resume, .runFunctor 0 (.room 0), .resume,
    .call .other (.send [8, 9] (.room 0)), .runFunctor 0 (.fail .EWOULDBLOCK)]

def nextAccount (s : Account) (a : Action) : Option Account :=
  if s.conn.enabled a = true then some (s.advance a) else none

def start : Account :=
  { conn := .constructed true true 2, sizes := [0] }

theorem reachable_of_runAll {as : List Action} {s : Account}
    (h : System.runAll nextAccount start as = some s) : runs.Reachable s := by
  refine .of_guarded ?_ (.init ⟨true, true, 2, rfl⟩) h
  exact fun s a ha => ⟨ha, rfl⟩

theorem twice_runs :
    (System.runAll nextAccount start twice).map
        (fun s => (s.log, s.conn.size, s.conn.writeCompleteCallback_)) =
      some ([.taken [1, 2, 3, 4], .taken [5, 6, 7], .complete, .taken [8, 9]], 2, true) := by
  decide +kernel

theorem twice_sizes :
    (System.runAll nextAccount start twice).map
        (fun s => (s.crossed, s.sizes, s.conn.highWaterMark_, s.conn.highWaterMarkCallback_)) =
      some ([3, 2], [0, 0, 0, 3, 6, 6, 0, 0, 0, 0, 0, 0, 2], 2, true) := by
  decide +kernel

theorem write_complete_twice :
    ∃ s, runs.Reachable s ∧
      s.log = [.taken [1, 2, 3, 4], .taken [5, 6, 7], .complete, .taken [8, 9]] ∧
      (s.conn.size = 0 ↔ ∀ message, .taken message ∈ since s.log → message = []) ∧
      s.log.IsChain fun r r' => r = .complete → r' ≠ .complete := by
  obtain ⟨s, hs, heq⟩ := Option.map_eq_some_iff.1 twice_runs
  have hset : s.conn.writeCompleteCallback_ = true := congrArg (fun x => x.2.2) heq
  have hlog : s.log = [.taken [1, 2, 3, 4], .taken [5, 6, 7], .complete, .taken [8, 9]] :=
    congrArg (fun x => x.1) heq
  exact ⟨s, reachable_of_runAll hs, hlog, write_complete (reachable_of_runAll hs) hset⟩

theorem high_water_twice :
    ∃ s, runs.Reachable s ∧ s.crossed = [3, 2] ∧
      s.crossed = if s.conn.highWaterMarkCallback_ = true
        then crossings s.conn.highWaterMark_ s.sizes else [] := by
  obtain ⟨s, hs, heq⟩ := Option.map_eq_some_iff.1 twice_sizes
  have hcrossed : s.crossed = [3, 2] := congrArg (fun x => x.1) heq
  exact ⟨s, reachable_of_runAll hs, hcrossed, high_water (reachable_of_runAll hs)⟩

end Account
end Net
end Longky
