import Longky.Base.FixedBuffer
import Longky.Lib.Reach

/-!
# AsyncLogging — log lines on their way to the file

`base/log/AyncLogging.cpp`.  Front-end threads put lines into `currentBuffer_`; the back-end thread
swaps the filled buffers out under the lock and writes them.  Six places own buffers, and every one
but `buffersToWrite` hands its buffer on by `std::move`, which leaves a null pointer behind.

A critical section is one step, and so is a stretch of the back-end that touches only its own
variables.  The size of a buffer is a parameter; the source has `kLargeBuffer`.
-/

namespace Longky
namespace Base

open Lib

/-! ## The front end -/

/-- A `unique_ptr` to a buffer. -/
abbrev BufferPtr (size : Nat) := Option (FixedBuffer size)

/-- Where the back-end thread is in `threadFunc`. -/
inductive BackEnd where
  | notStarted
  /-- Before `assert(running_ == true)`. -/
  | started
  /-- At the test of `while (running_)`. -/
  | test
  /-- In the loop, before the lock. -/
  | lock
  /-- In `cond_.waitForSeconds`. -/
  | wait
  /-- Behind the lock, before the test for too many buffers. -/
  | check
  /-- `k` buffers have been written. -/
  | write (k : Nat)
  | exited
  deriving DecidableEq, Repr

inductive LogFailure where
  | assertion
  | nullPointer
  deriving DecidableEq, Repr

structure AsyncLogging (size : Nat) where
  running_ : Bool := false
  currentBuffer_ : BufferPtr size
  nextBuffer_ : BufferPtr size
  buffers_ : List (BufferPtr size) := []
  backEnd : BackEnd := .notStarted
  newBuffer1 : BufferPtr size := none
  newBuffer2 : BufferPtr size := none
  buffersToWrite : List (BufferPtr size) := []
  /-- What has been passed to `LogFile::append`. -/
  output : Bytes := []
  /-- The lines whose `append` has returned, in this order. -/
  appended : List Bytes := []

namespace AsyncLogging

variable {size : Nat}

/-- `memory` is what a `new Buffer` finds. -/
def append (s : AsyncLogging size) (logline : Bytes) (memory : Memory size) :
    Except LogFailure (AsyncLogging size) :=
  match s.currentBuffer_ with
  | none => .error .nullPointer
  | some current =>
      if logline.length < current.avail then
        .ok { s with
          currentBuffer_ := some (current.append logline)
          appended := s.appended ++ [logline] }
      else
        let fresh := s.nextBuffer_.getD (.construct memory)
        .ok { s with
          buffers_ := s.buffers_ ++ [some current]
          currentBuffer_ := some (fresh.append logline)
          nextBuffer_ := none
          appended := s.appended ++ [logline] }

/-! ## The back end -/

/-- From the start of the thread to the loop. -/
def begin (s : AsyncLogging size) (memory₁ memory₂ : Memory size) :
    Except LogFailure (AsyncLogging size) :=
  if s.running_ then
    .ok { s with
      newBuffer1 := some (.construct memory₁)
      newBuffer2 := some (.construct memory₂)
      buffersToWrite := []
      backEnd := .test }
  else .error .assertion

/-- The critical section, from the wait on. -/
def swap (s : AsyncLogging size) : AsyncLogging size :=
  let s₁ := { s with
    currentBuffer_ := s.newBuffer1
    newBuffer1 := none
    buffersToWrite := s.buffers_ ++ [s.currentBuffer_]
    buffers_ := s.buffersToWrite
    backEnd := .check }
  if s₁.nextBuffer_.isNone then { s₁ with nextBuffer_ := s₁.newBuffer2, newBuffer2 := none } else s₁

/-- `newBuffer && newBuffer->length() == 0`. -/
def isFresh (b : BufferPtr size) : Bool := b.any fun b => b.length == 0

/-- The assertions at the head of the loop, and the critical section up to the wait. -/
def enter (s : AsyncLogging size) : Except LogFailure (AsyncLogging size) :=
  if isFresh s.newBuffer1 && isFresh s.newBuffer2 && s.buffersToWrite.isEmpty then
    .ok (if s.buffers_.isEmpty then { s with backEnd := .wait } else s.swap)
  else .error .assertion

/-- Too many buffers are dropped, with a message in their place. -/
def check (s : AsyncLogging size) (message : Bytes) : Except LogFailure (AsyncLogging size) :=
  if s.buffersToWrite.isEmpty then .error .assertion
  else
    let s₁ := { s with backEnd := .write 0 }
    .ok (if 25 < s₁.buffersToWrite.length then
      { s₁ with output := s₁.output ++ message, buffersToWrite := s₁.buffersToWrite.take 2 }
    else s₁)

/-- `if (!newBuffer) { ... }`: the last of the written buffers is used again. -/
def refill (newBuffer : BufferPtr size) (written : List (BufferPtr size)) :
    Except LogFailure (BufferPtr size × List (BufferPtr size)) :=
  match newBuffer with
  | some b => .ok (some b, written)
  | none =>
      match written.getLast? with
      | none => .error .assertion
      | some none => .error .nullPointer
      | some (some b) => .ok (some b.reset, written.dropLast)

/-- The end of an iteration. -/
def recycle (s : AsyncLogging size) : Except LogFailure (AsyncLogging size) := do
  let (newBuffer1, written₁) ← refill s.newBuffer1 (s.buffersToWrite.take 2)
  let (newBuffer2, _) ← refill s.newBuffer2 written₁
  return { s with newBuffer1, newBuffer2, buffersToWrite := [], backEnd := .test }

/-- The next turn of the loop that writes, or what comes behind it. -/
def write (s : AsyncLogging size) (k : Nat) : Except LogFailure (AsyncLogging size) :=
  match s.buffersToWrite[k]? with
  | none => s.recycle
  | some none => .error .nullPointer
  | some (some b) => .ok { s with output := s.output ++ b.contents, backEnd := .write (k + 1) }

inductive LogAction (size : Nat) where
  | append (logline : Bytes) (memory : Memory size)
  | start
  /-- The user calls `stop`, once `start` has returned. -/
  | stop
  /-- The back-end thread goes on.  `message` is what it says of dropped buffers, and a wait ends
  by notification, by time or without a reason. -/
  | backEnd (memory₁ memory₂ : Memory size) (message : Bytes)

def advance (s : AsyncLogging size) (memory₁ memory₂ : Memory size) (message : Bytes) :
    Except LogFailure (AsyncLogging size) :=
  match s.backEnd with
  | .notStarted | .exited => .ok s
  | .started => s.begin memory₁ memory₂
  | .test => .ok { s with backEnd := if s.running_ then .lock else .exited }
  | .lock => s.enter
  | .wait => .ok s.swap
  | .check => s.check message
  | .write k => s.write k

def enabled (s : AsyncLogging size) : LogAction size → Bool
  | .append .. => true
  | .start => s.backEnd == .notStarted
  | .stop => s.running_ && s.backEnd != .started
  | .backEnd .. => s.backEnd != .notStarted && s.backEnd != .exited

def perform (s : AsyncLogging size) : LogAction size → Except LogFailure (AsyncLogging size)
  | .append logline memory => s.append logline memory
  | .start => .ok { s with running_ := true, backEnd := .started }
  | .stop => .ok { s with running_ := false }
  | .backEnd memory₁ memory₂ message => s.advance memory₁ memory₂ message

/-- As the constructor leaves it. -/
def constructed (memory₁ memory₂ : Memory size) : AsyncLogging size where
  currentBuffer_ := some (.construct memory₁)
  nextBuffer_ := some (.construct memory₂)

/-- The runs of the front-end threads and the back end. -/
def runs (size : Nat) : System (AsyncLogging size) (LogAction size) where
  init s := ∃ memory₁ memory₂, s = constructed memory₁ memory₂
  step s a s' := s.enabled a = true ∧ s.perform a = .ok s'

/-! ## The buffers and their owners -/

/-- What the back end holds between two iterations. -/
def Ready (s : AsyncLogging size) : Prop :=
  isFresh s.newBuffer1 = true ∧ isFresh s.newBuffer2 = true ∧ s.buffersToWrite = []

/-- What it holds from the swap to the end of the iteration.  Without a second spare buffer there
are two filled ones, so both spares come back. -/
def Loaded (s : AsyncLogging size) : Prop :=
  s.newBuffer1 = none ∧ (∀ b, s.newBuffer2 = some b → b.length = 0) ∧
    none ∉ s.buffersToWrite ∧ s.buffersToWrite ≠ [] ∧
      (s.newBuffer2 = none → 2 ≤ s.buffersToWrite.length)

/-- What the back end holds at each place of `threadFunc`. -/
def Local (s : AsyncLogging size) : Prop :=
  match s.backEnd with
  | .notStarted => s.running_ = false ∧ s.buffersToWrite = []
  | .started => s.running_ = true ∧ s.buffersToWrite = []
  | .test | .lock | .wait => s.Ready
  | .check | .write _ => s.Loaded
  | .exited => s.buffersToWrite = []

/-- What every run keeps. -/
structure Inv (s : AsyncLogging size) : Prop where
  current : s.currentBuffer_.isSome = true
  next : ∀ b, s.nextBuffer_ = some b → b.length = 0
  spare : s.nextBuffer_ = none → s.buffers_ ≠ []
  filled : none ∉ s.buffers_
  threadFunc : s.Local

variable {s s' : AsyncLogging size} {memory₁ memory₂ : Memory size} {message : Bytes}

theorem Inv.at_pc (h : s.Inv) {pc : BackEnd} (hpc : s.backEnd = pc) :
    ({ s with backEnd := pc } : AsyncLogging size).Local := by
  subst hpc
  exact h.threadFunc

theorem inv_constructed (memory₁ memory₂ : Memory size) :
    (constructed memory₁ memory₂).Inv where
  current := rfl
  next := by
    rintro b ⟨⟩
    rfl
  spare := nofun
  filled := List.not_mem_nil
  threadFunc := ⟨rfl, rfl⟩

theorem isFresh_iff {p : BufferPtr size} :
    isFresh p = true ↔ ∃ b : FixedBuffer size, p = some b ∧ b.length = 0 := by
  cases p <;> simp [isFresh]

theorem append_room {current : FixedBuffer size} {logline : Bytes}
    (hcurrent : s.currentBuffer_ = some current) (hroom : logline.length < current.avail)
    (memory : Memory size) :
    s.append logline memory = .ok { s with
      currentBuffer_ := some (current.append logline)
      appended := s.appended ++ [logline] } := by
  simp only [append, hcurrent, if_pos hroom]

theorem append_full {current : FixedBuffer size} {logline : Bytes}
    (hcurrent : s.currentBuffer_ = some current) (hroom : ¬ logline.length < current.avail)
    (memory : Memory size) :
    s.append logline memory = .ok { s with
      buffers_ := s.buffers_ ++ [some current]
      currentBuffer_ := some ((s.nextBuffer_.getD (.construct memory)).append logline)
      nextBuffer_ := none
      appended := s.appended ++ [logline] } := by
  simp only [append, hcurrent, if_neg hroom]

theorem Inv.append (h : s.Inv) (logline : Bytes) (memory : Memory size) :
    ∃ s', s.append logline memory = .ok s' ∧ s'.Inv := by
  obtain ⟨current, hcurrent⟩ := Option.isSome_iff_exists.1 h.current
  by_cases hroom : logline.length < current.avail
  · exact ⟨_, append_room hcurrent hroom memory, { h with current := rfl }⟩
  · refine ⟨_, append_full hcurrent hroom memory, { h with
      current := rfl, next := nofun, spare := fun _ => by simp, filled := ?_ }⟩
    simpa using h.filled

theorem swap_none (h : s.nextBuffer_ = none) :
    s.swap = { s with
      currentBuffer_ := s.newBuffer1, newBuffer1 := none
      nextBuffer_ := s.newBuffer2, newBuffer2 := none
      buffersToWrite := s.buffers_ ++ [s.currentBuffer_], buffers_ := s.buffersToWrite
      backEnd := .check } := by
  simp [swap, h]

theorem swap_some {b : FixedBuffer size} (h : s.nextBuffer_ = some b) :
    s.swap = { s with
      currentBuffer_ := s.newBuffer1, newBuffer1 := none
      buffersToWrite := s.buffers_ ++ [s.currentBuffer_], buffers_ := s.buffersToWrite
      backEnd := .check } := by
  simp [swap, h]

theorem Inv.swap (h : s.Inv) (hready : s.Ready) : s.swap.Inv := by
  rcases hready with ⟨h₁, h₂, hwrite⟩
  rcases isFresh_iff.1 h₁ with ⟨b₁, hb₁, -⟩
  rcases isFresh_iff.1 h₂ with ⟨b₂, hb₂, hlen₂⟩
  obtain ⟨current, hcurrent⟩ := Option.isSome_iff_exists.1 h.current
  have hisSome : s.newBuffer1.isSome = true := by rw [hb₁]; rfl
  have hfilled : none ∉ s.buffersToWrite := by simp [hwrite]
  have hfull : none ∉ s.buffers_ ++ [s.currentBuffer_] := by simpa [hcurrent] using h.filled
  have hne : s.buffers_ ++ [s.currentBuffer_] ≠ [] := by simp
  have hlen : ∀ b, s.newBuffer2 = some b → b.length = 0 := by
    rintro b hb
    rw [hb₂] at hb
    cases hb
    exact hlen₂
  cases hnext : s.nextBuffer_ with
  | none =>
      -- the spare has gone to the front end, so a buffer had been filled
      have htwo : 2 ≤ (s.buffers_ ++ [s.currentBuffer_]).length := by
        have := List.length_pos_iff.2 (h.spare hnext)
        rw [List.length_append, List.length_singleton]
        omega
      rw [swap_none hnext]
      refine ⟨hisSome, hlen, fun hnone => ?_, hfilled, rfl, nofun, hfull, hne, fun _ => htwo⟩
      exact absurd (hb₂.symm.trans hnone) nofun
  | some b =>
      rw [swap_some hnext]
      refine ⟨hisSome, h.next, fun hnone => ?_, hfilled, rfl, hlen, hfull, hne, fun hnone => ?_⟩
      · exact absurd (hnext.symm.trans hnone) nofun
      · exact absurd (hb₂.symm.trans hnone) nofun

theorem enter_of_ready (h : s.Ready) :
    s.enter = .ok (if s.buffers_.isEmpty then { s with backEnd := .wait } else s.swap) := by
  rcases h with ⟨h₁, h₂, hwrite⟩
  unfold enter
  rw [if_pos (by simp [h₁, h₂, hwrite])]

theorem Inv.enter (h : s.Inv) (hready : s.Ready) : ∃ s', s.enter = .ok s' ∧ s'.Inv := by
  refine ⟨_, enter_of_ready hready, ?_⟩
  split
  · exact { h with threadFunc := hready }
  · exact h.swap hready

theorem check_of_le (hne : s.buffersToWrite ≠ []) (h : s.buffersToWrite.length ≤ 25) :
    s.check message = .ok { s with backEnd := .write 0 } := by
  unfold check
  rw [if_neg (by simpa using hne)]
  exact congrArg _ (if_neg (Nat.not_lt.2 h))

theorem check_of_lt (h : 25 < s.buffersToWrite.length) :
    s.check message = .ok { s with
      output := s.output ++ message
      buffersToWrite := s.buffersToWrite.take 2
      backEnd := .write 0 } := by
  have hne : s.buffersToWrite ≠ [] := List.ne_nil_of_length_pos (by omega)
  unfold check
  rw [if_neg (by simpa using hne)]
  exact congrArg _ (if_pos h)

theorem Inv.check (h : s.Inv) (hloaded : s.Loaded) (message : Bytes) :
    ∃ s', s.check message = .ok s' ∧ s'.Inv := by
  rcases hloaded with ⟨h₁, h₂, hfull, hne, htwo⟩
  rcases Nat.lt_or_ge 25 s.buffersToWrite.length with hmany | hfew
  · have hlen : (s.buffersToWrite.take 2).length = 2 := by
      rw [List.length_take]
      omega
    refine ⟨_, check_of_lt hmany, { h with threadFunc := ⟨h₁, h₂, ?_, ?_, fun _ => hlen.ge⟩ }⟩
    · exact fun hin => hfull (List.mem_of_mem_take hin)
    · exact List.ne_nil_of_length_pos (by rw [hlen]; exact Nat.two_pos)
  · exact ⟨_, check_of_le hne hfew, { h with threadFunc := ⟨h₁, h₂, hfull, hne, htwo⟩ }⟩

/-- A null pointer is refilled from a vector of written buffers that is not empty. -/
theorem refill_none {v : List (BufferPtr size)} (hne : v ≠ []) (hfull : none ∉ v) :
    ∃ b : FixedBuffer size, b.length = 0 ∧ refill none v = .ok (some b, v.dropLast) := by
  cases hlast : v.getLast hne with
  | none => exact absurd (hlast ▸ List.getLast_mem hne) hfull
  | some b =>
      refine ⟨b.reset, rfl, ?_⟩
      simp only [refill, List.getLast?_eq_getLast_of_ne_nil hne, hlast]

theorem recycle_of_loaded (h : s.Loaded) :
    ∃ b₁ b₂ : FixedBuffer size, b₁.length = 0 ∧ b₂.length = 0 ∧ s.recycle = .ok { s with
      newBuffer1 := some b₁, newBuffer2 := some b₂, buffersToWrite := [], backEnd := .test } := by
  rcases h with ⟨h₁, h₂, hfull, hne, htwo⟩
  have hne' : s.buffersToWrite.take 2 ≠ [] := by simpa using hne
  have hfull' : none ∉ s.buffersToWrite.take 2 := fun hin => hfull (List.mem_of_mem_take hin)
  rcases refill_none hne' hfull' with ⟨b₁, hb₁, hrefill₁⟩
  obtain ⟨b₂, hb₂, v, hrefill₂⟩ : ∃ b₂ : FixedBuffer size, b₂.length = 0 ∧ ∃ v,
      refill s.newBuffer2 (s.buffersToWrite.take 2).dropLast = .ok (some b₂, v) := by
    cases hnew : s.newBuffer2 with
    | some b => exact ⟨b, h₂ b hnew, _, rfl⟩
    | none =>
        have hlen : (s.buffersToWrite.take 2).dropLast.length = 1 := by
          rw [List.length_dropLast, List.length_take]
          have := htwo hnew
          omega
        have hne'' : (s.buffersToWrite.take 2).dropLast ≠ [] :=
          List.ne_nil_of_length_pos (by rw [hlen]; exact Nat.one_pos)
        rcases refill_none hne'' fun hin => hfull' (List.dropLast_subset _ hin) with
          ⟨b₂, hb₂, hrefill⟩
        exact ⟨b₂, hb₂, _, hrefill⟩
  refine ⟨b₁, b₂, hb₁, hb₂, ?_⟩
  simp only [recycle, h₁, hrefill₁, hrefill₂, bind, Except.bind, pure, Except.pure]

theorem write_none {k : Nat} (hk : s.buffersToWrite[k]? = none) : s.write k = s.recycle := by
  simp only [write, hk]

theorem write_some {k : Nat} {b : FixedBuffer size} (hk : s.buffersToWrite[k]? = some (some b)) :
    s.write k = .ok { s with output := s.output ++ b.contents, backEnd := .write (k + 1) } := by
  simp only [write, hk]

theorem Inv.write (h : s.Inv) {k : Nat} (hpc : s.backEnd = .write k) :
    ∃ s', s.write k = .ok s' ∧ s'.Inv := by
  have hloaded : s.Loaded := h.at_pc hpc
  cases hk : s.buffersToWrite[k]? with
  | none =>
      rcases recycle_of_loaded hloaded with ⟨b₁, b₂, hb₁, hb₂, hrecycle⟩
      refine ⟨_, (write_none hk).trans hrecycle, { h with threadFunc := ?_ }⟩
      exact ⟨isFresh_iff.2 ⟨b₁, rfl, hb₁⟩, isFresh_iff.2 ⟨b₂, rfl, hb₂⟩, rfl⟩
  | some p =>
      cases p with
      | none => exact absurd (List.mem_of_getElem? hk) hloaded.2.2.1
      | some b => exact ⟨_, write_some hk, { h with threadFunc := hloaded }⟩

theorem Inv.advance (h : s.Inv) (memory₁ memory₂ : Memory size) (message : Bytes) :
    ∃ s', s.advance memory₁ memory₂ message = .ok s' ∧ s'.Inv := by
  unfold AsyncLogging.advance
  cases hpc : s.backEnd with
  | notStarted => exact ⟨s, rfl, h⟩
  | exited => exact ⟨s, rfl, h⟩
  | started =>
      refine ⟨_, if_pos (h.at_pc hpc).1, { h with threadFunc := ?_ }⟩
      exact ⟨isFresh_iff.2 ⟨_, rfl, rfl⟩, isFresh_iff.2 ⟨_, rfl, rfl⟩, rfl⟩
  | test =>
      refine ⟨_, rfl, { h with threadFunc := ?_ }⟩
      cases s.running_ with
      | true => exact h.at_pc hpc
      | false => exact (h.at_pc hpc).2.2
  | lock => exact h.enter (h.at_pc hpc)
  | wait => exact ⟨_, rfl, h.swap (h.at_pc hpc)⟩
  | check => exact h.check (h.at_pc hpc) message
  | write k => exact h.write hpc

theorem enabled_start : s.enabled .start = true ↔ s.backEnd = .notStarted := by
  simp [enabled]

theorem enabled_stop : s.enabled .stop = true ↔ s.running_ = true ∧ s.backEnd ≠ .started := by
  simp [enabled]

theorem Inv.stop (h : s.Inv) (ha : s.enabled .stop = true) :
    ({ s with running_ := false } : AsyncLogging size).Inv := by
  refine { h with threadFunc := ?_ }
  rcases enabled_stop.1 ha with ⟨hrunning, hpc⟩
  have hlocal := h.threadFunc
  unfold Local at hlocal ⊢
  cases hb : s.backEnd <;> simp_all [Ready, Loaded]

/-- No step of a run meets a false assertion or a null pointer. -/
theorem Inv.perform (h : s.Inv) {a : LogAction size} (ha : s.enabled a = true) :
    ∃ s', s.perform a = .ok s' ∧ s'.Inv := by
  cases a with
  | append logline memory => exact h.append logline memory
  | start =>
      exact ⟨_, rfl, { h with threadFunc := ⟨rfl, (h.at_pc (enabled_start.1 ha)).2⟩ }⟩
  | stop => exact ⟨_, rfl, h.stop ha⟩
  | backEnd memory₁ memory₂ message => exact h.advance memory₁ memory₂ message

theorem Inv.step (h : s.Inv) {a : LogAction size} (hs : (runs size).step s a s') : s'.Inv := by
  rcases h.perform hs.1 with ⟨s'', hok, hinv⟩
  obtain rfl : s'' = s' := Except.ok.inj (hok.symm.trans hs.2)
  exact hinv

/-! ## The bytes of the log -/

/-- A moved-from pointer holds no bytes. -/
def bytes (p : BufferPtr size) : Bytes := p.elim [] FixedBuffer.contents

/-- The buffers of `buffersToWrite` that the loop has still to pass to the file. -/
def unwritten (s : AsyncLogging size) : List (BufferPtr size) :=
  match s.backEnd with
  | .write k => s.buffersToWrite.drop k
  | _ => s.buffersToWrite

/-- What has left the front end. -/
def behind (s : AsyncLogging size) : Bytes := s.output ++ s.unwritten.flatMap bytes

/-- What the front end holds. -/
def front (s : AsyncLogging size) : Bytes := s.buffers_.flatMap bytes ++ bytes s.currentBuffer_

/-- Every line fits into a buffer, and no swap finds too many buffers. -/
def Allowed (s : AsyncLogging size) : LogAction size → Prop
  | .append logline _ => logline.length < size
  | .start | .stop => True
  | .backEnd .. => s.backEnd = .check → s.buffersToWrite.length ≤ 25

/-- In the loop, with the swap still to come. -/
def BeforeSwap (s : AsyncLogging size) : Prop := s.backEnd = .lock ∨ s.backEnd = .wait

/-- What a step does to the log. -/
inductive Effect (s s' : AsyncLogging size) : Prop where
  | append (logline : Bytes) (behind : s'.behind = s.behind) (front : s'.front = s.front ++ logline)
      (appended : s'.appended = s.appended ++ [logline]) (running : s'.running_ = s.running_)
      (backEnd : s'.backEnd = s.backEnd)
  | swap (before : s.BeforeSwap) (behind : s'.behind = s.behind ++ s.front) (front : s'.front = [])
      (appended : s'.appended = s.appended) (running : s'.running_ = s.running_)
      (backEnd : s'.backEnd = .check)
  | other (behind : s'.behind = s.behind) (front : s'.front = s.front)
      (appended : s'.appended = s.appended)
      (stopped : s.running_ = false → s.backEnd ≠ .notStarted →
        s'.running_ = false ∧ s'.backEnd ≠ .notStarted ∧ (s'.BeforeSwap ↔ s.BeforeSwap))

/-- A buffer that is taken for the front end is empty, whatever its memory holds. -/
theorem Inv.fresh (h : s.Inv) (memory : Memory size) :
    (s.nextBuffer_.getD (.construct memory)).length = 0 := by
  cases hnext : s.nextBuffer_ with
  | none => rfl
  | some b => exact h.next b hnext

theorem Inv.effect_append (h : s.Inv) {logline : Bytes} {memory : Memory size}
    (hlen : logline.length < size) (hs : s.append logline memory = .ok s') : Effect s s' := by
  obtain ⟨current, hcurrent⟩ := Option.isSome_iff_exists.1 h.current
  have hbytes : bytes s.currentBuffer_ = current.contents := by rw [hcurrent]; rfl
  by_cases hroom : logline.length < current.avail
  · rw [append_room hcurrent hroom] at hs
    cases hs
    refine .append logline rfl ?_ rfl rfl rfl
    calc s.buffers_.flatMap bytes ++ (current.append logline).contents
        = s.buffers_.flatMap bytes ++ (current.contents ++ logline) := by
          rw [FixedBuffer.contents_append hroom]
      _ = s.front ++ logline := by rw [front, hbytes, List.append_assoc]
  · rw [append_full hcurrent hroom] at hs
    cases hs
    have hfresh := h.fresh memory
    generalize s.nextBuffer_.getD (.construct memory) = fresh at hfresh
    have hroom' : logline.length < fresh.avail := by rwa [FixedBuffer.avail_eq hfresh]
    refine .append logline rfl ?_ rfl rfl rfl
    calc (s.buffers_ ++ [some current]).flatMap bytes ++ (fresh.append logline).contents
        = s.buffers_.flatMap bytes ++ current.contents ++ logline := by
          rw [FixedBuffer.contents_append hroom', FixedBuffer.contents_eq_nil hfresh]
          simp [bytes]
      _ = s.front ++ logline := by rw [front, hbytes]

theorem effect_swap (hready : s.Ready) (hbefore : s.BeforeSwap) : Effect s s.swap := by
  rcases isFresh_iff.1 hready.1 with ⟨b₁, hb₁, hlen₁⟩
  have hunwritten : s.unwritten = [] := by
    rcases hbefore with hpc | hpc <;> simp [unwritten, hpc, hready.2.2]
  have hbehind : s.output ++ (s.buffers_ ++ [s.currentBuffer_]).flatMap bytes =
      s.behind ++ s.front := by
    simp [behind, front, hunwritten]
  have hfront : s.buffersToWrite.flatMap bytes ++ bytes s.newBuffer1 = [] := by
    rw [hready.2.2, hb₁]
    exact FixedBuffer.contents_eq_nil hlen₁
  cases hnext : s.nextBuffer_ with
  | none =>
      rw [swap_none hnext]
      exact .swap hbefore hbehind hfront rfl rfl rfl
  | some b =>
      rw [swap_some hnext]
      exact .swap hbefore hbehind hfront rfl rfl rfl

theorem Inv.effect_write (h : s.Inv) {k : Nat} (hpc : s.backEnd = .write k)
    (hs : s.write k = .ok s') : Effect s s' := by
  have hloaded : s.Loaded := h.at_pc hpc
  have hunwritten : s.unwritten = s.buffersToWrite.drop k := by rw [unwritten, hpc]
  have hstopped : ∀ pc : BackEnd, pc ≠ .notStarted → pc ≠ .lock → pc ≠ .wait →
      s.running_ = false → s.running_ = false ∧ pc ≠ .notStarted ∧
        ((pc = .lock ∨ pc = .wait) ↔ s.BeforeSwap) := by
    intro pc h₀ h₁ h₂ hrunning
    refine ⟨hrunning, h₀, ?_⟩
    simp [BeforeSwap, hpc, h₁, h₂]
  cases hk : s.buffersToWrite[k]? with
  | none =>
      -- all is written, and the spares are refilled from the buffers that have been
      rcases recycle_of_loaded hloaded with ⟨b₁, b₂, -, -, hrecycle⟩
      rw [write_none hk, hrecycle] at hs
      cases hs
      refine .other ?_ rfl rfl fun hrunning _ => hstopped .test nofun nofun nofun hrunning
      rw [behind, behind, hunwritten, List.drop_eq_nil_of_le (List.getElem?_eq_none_iff.1 hk)]
      rfl
  | some p =>
      cases p with
      | none => exact absurd (List.mem_of_getElem? hk) hloaded.2.2.1
      | some b =>
          rw [write_some hk] at hs
          cases hs
          -- the bytes of one buffer pass from the unwritten ones to the file
          have hdrop : s.buffersToWrite.drop k = some b :: s.buffersToWrite.drop (k + 1) := by
            rw [List.drop_eq_getElem?_toList_append, hk]
            rfl
          refine .other ?_ rfl rfl fun hrunning _ => hstopped _ nofun nofun nofun hrunning
          calc (s.output ++ b.contents) ++ (s.buffersToWrite.drop (k + 1)).flatMap bytes
              = s.output ++ (s.buffersToWrite.drop k).flatMap bytes := by
                rw [hdrop, List.flatMap_cons, List.append_assoc]
                rfl
            _ = s.behind := by rw [behind, hunwritten]

theorem Inv.effect_check (h : s.Inv) (hpc : s.backEnd = .check)
    (hfew : s.buffersToWrite.length ≤ 25) (hs : s.check message = .ok s') : Effect s s' := by
  have hloaded : s.Loaded := h.at_pc hpc
  rw [check_of_le hloaded.2.2.2.1 hfew] at hs
  cases hs
  refine .other ?_ rfl rfl fun hrunning _ => ⟨hrunning, nofun, ?_⟩
  · simp [behind, unwritten, hpc]
  · simp [BeforeSwap, hpc]

theorem Inv.effect_enter (h : s.Inv) (hpc : s.backEnd = .lock) (hs : s.enter = .ok s') :
    Effect s s' := by
  have hready : s.Ready := h.at_pc hpc
  rw [enter_of_ready hready] at hs
  cases hs
  split
  · refine .other ?_ rfl rfl fun hrunning _ => ⟨hrunning, nofun, ?_⟩
    · simp [behind, unwritten, hpc]
    · simp [BeforeSwap, hpc]
  · exact effect_swap hready (.inl hpc)

/-- The step lemma: what the back end does to the log at each place of `threadFunc`. -/
theorem Inv.effect_advance (h : s.Inv)
    (hfew : s.backEnd = .check → s.buffersToWrite.length ≤ 25)
    (hs : s.advance memory₁ memory₂ message = .ok s') : Effect s s' := by
  cases hpc : s.backEnd with
  | notStarted =>
      simp only [AsyncLogging.advance, hpc] at hs
      cases hs
      exact .other rfl rfl rfl fun hrunning hpc => ⟨hrunning, hpc, Iff.rfl⟩
  | exited =>
      simp only [AsyncLogging.advance, hpc] at hs
      cases hs
      exact .other rfl rfl rfl fun hrunning hpc => ⟨hrunning, hpc, Iff.rfl⟩
  | started =>
      -- `start` waits for the latch, so nobody has called `stop` yet
      obtain ⟨hrunning, hwrite⟩ : s.running_ = true ∧ s.buffersToWrite = [] := h.at_pc hpc
      simp only [AsyncLogging.advance, hpc, begin, if_pos hrunning] at hs
      cases hs
      refine .other ?_ rfl rfl fun hstopped _ => absurd (hrunning.symm.trans hstopped) nofun
      simp [behind, unwritten, hpc, hwrite]
  | test =>
      simp only [AsyncLogging.advance, hpc] at hs
      cases hs
      refine .other ?_ rfl rfl fun hrunning _ => ?_
      · cases hrunning : s.running_ <;> simp [behind, unwritten, hpc]
      · simp [BeforeSwap, hpc, hrunning]
  | lock =>
      simp only [AsyncLogging.advance, hpc] at hs
      exact h.effect_enter hpc hs
  | wait =>
      simp only [AsyncLogging.advance, hpc] at hs
      cases hs
      exact effect_swap (h.at_pc hpc) (.inr hpc)
  | check =>
      simp only [AsyncLogging.advance, hpc] at hs
      exact h.effect_check hpc (hfew hpc) hs
  | write k =>
      simp only [AsyncLogging.advance, hpc] at hs
      exact h.effect_write hpc hs

theorem Inv.effect_of_step (h : s.Inv) {a : LogAction size} (hallowed : Allowed s a)
    (hs : (runs size).step s a s') : Effect s s' := by
  cases a with
  | append logline memory => exact h.effect_append hallowed hs.2
  | start =>
      have hpc := enabled_start.1 hs.1
      cases hs.2
      refine .other ?_ rfl rfl fun _ hpc' => absurd hpc hpc'
      simp [behind, unwritten, hpc]
  | stop =>
      cases hs.2
      exact .other rfl rfl rfl fun _ hpc => ⟨rfl, hpc, Iff.rfl⟩
  | backEnd memory₁ memory₂ message => exact h.effect_advance hallowed hs.2

/-! ## Runs -/

/-- What every allowed run keeps. -/
structure Conserved (s : AsyncLogging size) : Prop where
  inv : s.Inv
  log : s.behind ++ s.front = s.appended.flatten

theorem conserved_constructed (memory₁ memory₂ : Memory size) :
    (constructed memory₁ memory₂).Conserved where
  inv := inv_constructed memory₁ memory₂
  log := FixedBuffer.contents_eq_nil rfl

theorem Effect.log (h : Effect s s') (hlog : s.behind ++ s.front = s.appended.flatten) :
    s'.behind ++ s'.front = s'.appended.flatten := by
  cases h with
  | append logline hbehind hfront happended =>
      calc s'.behind ++ s'.front
          = s.behind ++ s.front ++ logline := by rw [hbehind, hfront, List.append_assoc]
        _ = s'.appended.flatten := by
          rw [hlog, happended, List.flatten_append, List.flatten_singleton]
  | swap _ hbehind hfront happended =>
      rw [hbehind, hfront, List.append_nil, hlog, happended]
  | other hbehind hfront happended =>
      rw [hbehind, hfront, hlog, happended]

theorem Conserved.step (h : s.Conserved) {a : LogAction size}
    (hs : ((runs size).restrict Allowed).step s a s') : s'.Conserved where
  inv := h.inv.step hs.2
  log := (h.inv.effect_of_step hs.1 hs.2).log h.log

theorem conserved_of_reachable (h : ((runs size).restrict Allowed).Reachable s) : s.Conserved := by
  refine h.invariant ?_ fun _ _ _ h hs => h.step hs
  rintro _ ⟨memory₁, memory₂, rfl⟩
  exact conserved_constructed memory₁ memory₂

/-- The log stream is preserved: what has been passed to the file, the rest of `buffersToWrite`,
`buffers_` and `currentBuffer_` are the appended lines, in their order. -/
theorem stream_preserved (h : ((runs size).restrict Allowed).Reachable s) :
    s.output ++ s.unwritten.flatMap bytes ++ s.buffers_.flatMap bytes ++ bytes s.currentBuffer_ =
      s.appended.flatten := by
  calc s.output ++ s.unwritten.flatMap bytes ++ s.buffers_.flatMap bytes ++ bytes s.currentBuffer_
      = s.behind ++ s.front := by rw [behind, front, List.append_assoc]
    _ = s.appended.flatten := (conserved_of_reachable h).log

/-- Memory of zeros. -/
def zeros : Memory kLargeBuffer := ⟨List.replicate kLargeBuffer 0, List.length_replicate⟩

/-- The back end is at the test of its loop for the first time. -/
def atTest : AsyncLogging kLargeBuffer :=
  { constructed zeros zeros with
    running_ := true
    newBuffer1 := some (.construct zeros)
    newBuffer2 := some (.construct zeros)
    backEnd := .test }

/-- The line `ok`. -/
def okLine : Bytes := [111, 107, 10]

/-- One line has been appended since. -/
def oneLine : AsyncLogging kLargeBuffer :=
  { atTest with
    currentBuffer_ := some ((FixedBuffer.construct zeros).append okLine)
    appended := [okLine] }

theorem oneLine_reachable : ((runs kLargeBuffer).restrict Allowed).Reachable oneLine := by
  have hroom : okLine.length < (FixedBuffer.construct zeros).avail := by decide
  have happend : atTest.append okLine zeros = .ok oneLine :=
    append_room (s := atTest) rfl hroom zeros
  have hstart : ((runs kLargeBuffer).restrict Allowed).Reachable
      { constructed zeros zeros with running_ := true, backEnd := .started } :=
    .step (a := .start) (.init ⟨zeros, zeros, rfl⟩) ⟨trivial, rfl, rfl⟩
  have htest : ((runs kLargeBuffer).restrict Allowed).Reachable atTest :=
    .step (a := .backEnd zeros zeros []) hstart ⟨nofun, rfl, rfl⟩
  exact .step (a := .append okLine zeros) htest ⟨hroom, rfl, happend⟩

/-! An iteration of the back end over buffers of eight bytes. -/

instance (s : AsyncLogging size) : (a : LogAction size) → Decidable (s.Allowed a)
  | .append logline _ => inferInstanceAs (Decidable (logline.length < size))
  | .start | .stop => isTrue trivial
  | .backEnd .. =>
      inferInstanceAs (Decidable (s.backEnd = .check → s.buffersToWrite.length ≤ 25))

def next (s : AsyncLogging size) (a : LogAction size) : Option (AsyncLogging size) :=
  if s.Allowed a ∧ s.enabled a = true then (s.perform a).toOption else none

theorem reachable_of_next {as : List (LogAction size)}
    (h : System.runAll next (constructed memory₁ memory₂) as = some s) :
    ((runs size).restrict Allowed).Reachable s := by
  refine .of_runAll ?_ (.init ⟨memory₁, memory₂, rfl⟩) h
  intro s a s' hnext
  obtain ⟨⟨hallowed, henabled⟩, hperform⟩ := Option.ite_none_right_eq_some.1 hnext
  refine ⟨hallowed, henabled, ?_⟩
  cases hs : s.perform a with
  | error e => simp [hs, Except.toOption] at hperform
  | ok s₁ =>
      rw [hs] at hperform
      cases hperform
      rfl

/-- Eight bytes that nobody has set. -/
def eightBytes : Memory 8 := ⟨List.replicate 8 205, rfl⟩

/-- The third line fills the buffer before the swap; two lines come while the buffers are written and
used again. -/
def oneIteration : List (LogAction 8) :=
  let line : LogAction 8 := .append okLine eightBytes
  let goOn : LogAction 8 := .backEnd eightBytes eightBytes []
  [.start, line, goOn, goOn, line, line, goOn, line, goOn, goOn, goOn, line, goOn]

theorem oneIteration_run : ∃ s : AsyncLogging 8,
    ((runs 8).restrict Allowed).Reachable s ∧ s.backEnd = .test ∧
      s.output = okLine ++ okLine ++ okLine ∧ s.appended.length = 5 ∧
        s.newBuffer1.isSome = true ∧ s.newBuffer2.isSome = true := by
  have hrun : (System.runAll next (constructed eightBytes eightBytes) oneIteration).map
      (fun s => (s.backEnd, s.output, s.appended.length, s.newBuffer1.isSome,
        s.newBuffer2.isSome)) = some (.test, okLine ++ okLine ++ okLine, 5, true, true) := by
    decide +kernel
  obtain ⟨s, hs, heq⟩ := Option.map_eq_some_iff.1 hrun
  simp only [Prod.mk.injEq] at heq
  exact ⟨s, reachable_of_next hs, heq⟩

theorem stream_preserved_oneIteration : ∃ s : AsyncLogging 8,
    ((runs 8).restrict Allowed).Reachable s ∧ s.output = okLine ++ okLine ++ okLine ∧
      s.output ++ s.unwritten.flatMap bytes ++ s.buffers_.flatMap bytes ++
        bytes s.currentBuffer_ = s.appended.flatten := by
  obtain ⟨s, hreach, -, houtput, -⟩ := oneIteration_run
  exact ⟨s, hreach, houtput, stream_preserved hreach⟩

/-! ## The pool -/

theorem inv_of_reachable (h : (runs size).Reachable s) : s.Inv := by
  refine h.invariant ?_ fun _ _ _ h hs => h.step hs
  rintro _ ⟨memory₁, memory₂, rfl⟩
  exact inv_constructed memory₁ memory₂

/-- What the front end and the back end can rely on. -/
structure PoolSound (s : AsyncLogging size) : Prop where
  /-- No assertion fails, and no pointer that is used is null. -/
  succeeds : ∀ a, s.enabled a = true → ∃ s', s.perform a = .ok s'
  current : s.currentBuffer_.isSome = true
  next : ∀ b, s.nextBuffer_ = some b → b.length = 0
  /-- At the start of an iteration. -/
  ready : s.backEnd = .test ∨ s.backEnd = .lock → s.Ready
  /-- The pointers are refilled once all is written, from two buffers at most. -/
  refill : ∀ k, s.backEnd = .write k → s.buffersToWrite[k]? = none →
    (s.newBuffer1 = none → s.buffersToWrite.take 2 ≠ []) ∧
      (s.newBuffer1 = none → s.newBuffer2 = none → 2 ≤ (s.buffersToWrite.take 2).length)

theorem Loaded.refill (h : s.Loaded) : s.buffersToWrite.take 2 ≠ [] ∧
    (s.newBuffer2 = none → 2 ≤ (s.buffersToWrite.take 2).length) := by
  rcases h with ⟨-, -, -, hne, htwo⟩
  refine ⟨by simpa using hne, fun hnone => ?_⟩
  rw [List.length_take]
  exact le_min le_rfl (htwo hnone)

/-- The pool of buffers is sound in every run, with or without a shutdown. -/
theorem pool_sound (h : (runs size).Reachable s) : s.PoolSound := by
  have hinv := inv_of_reachable h
  refine ⟨?_, hinv.current, hinv.next, ?_, ?_⟩
  · intro a ha
    rcases hinv.perform ha with ⟨s', hs, -⟩
    exact ⟨s', hs⟩
  · rintro (hpc | hpc)
    · exact hinv.at_pc hpc
    · exact hinv.at_pc hpc
  · intro k hpc _
    have hloaded : s.Loaded := hinv.at_pc hpc
    exact ⟨fun _ => hloaded.refill.1, fun _ => hloaded.refill.2⟩

theorem pool_sound_oneIteration : ∃ s : AsyncLogging 8, (runs 8).Reachable s ∧
    s.backEnd = .test ∧ s.newBuffer1.isSome = true ∧ s.newBuffer2.isSome = true ∧
      s.PoolSound := by
  obtain ⟨s, hreach, htest, -, -, hnew₁, hnew₂⟩ := oneIteration_run
  exact ⟨s, hreach.of_restrict, htest, hnew₁, hnew₂, pool_sound hreach.of_restrict⟩

/-! ## Shutdown -/

/-- `stop` has been called. -/
def Stopped (s : AsyncLogging size) : Prop := s.running_ = false ∧ s.backEnd ≠ .notStarted

theorem Effect.stopped (h : Effect s s') (hstopped : s.Stopped) : s'.Stopped := by
  rcases hstopped with ⟨hrunning, hpc⟩
  cases h with
  | append _ _ _ _ hrunning' hpc' => exact ⟨hrunning'.trans hrunning, hpc' ▸ hpc⟩
  | swap _ _ _ _ hrunning' hpc' => exact ⟨hrunning'.trans hrunning, hpc' ▸ nofun⟩
  | other _ _ _ hkeeps => exact ⟨(hkeeps hrunning hpc).1, (hkeeps hrunning hpc).2.1⟩

/-- Once stopped, a back end that is not before a swap comes to no other. -/
theorem Effect.behind_eq (h : Effect s s') (hstopped : s.Stopped) (hbefore : ¬ s.BeforeSwap) :
    s'.behind = s.behind ∧ ¬ s'.BeforeSwap := by
  cases h with
  | append _ hbehind _ _ _ hpc => exact ⟨hbehind, by rwa [BeforeSwap, hpc]⟩
  | swap hbefore' => exact absurd hbefore' hbefore
  | other hbehind _ _ hkeeps =>
      exact ⟨hbehind, fun h => hbefore ((hkeeps hstopped.1 hstopped.2).2.2.1 h)⟩

/-- A log stays a prefix of the stream, and what has left the front end does not come back. -/
theorem Effect.prefix {log : Bytes} (h : Effect s s') (hstopped : s.Stopped)
    (hlog : log <+: s.behind ++ s.front ∧ (s.BeforeSwap ∨ log <+: s.behind)) :
    log <+: s'.behind ++ s'.front ∧ (s'.BeforeSwap ∨ log <+: s'.behind) := by
  rcases hlog with ⟨hstream, hbehind'⟩
  cases h with
  | append logline hbehind hfront _ _ hpc =>
      rw [BeforeSwap, hpc, hbehind, hfront, ← List.append_assoc]
      exact ⟨hstream.trans (List.prefix_append _ _), hbehind'⟩
  | swap _ hbehind hfront =>
      rw [hbehind, hfront, List.append_nil]
      exact ⟨hstream, .inr hstream⟩
  | other hbehind hfront _ hkeeps =>
      rw [hbehind, hfront, (hkeeps hstopped.1 hstopped.2).2.2]
      exact ⟨hstream, hbehind'⟩

/-- A run rule for what is kept after `stop`. -/
theorem after_stop {P : AsyncLogging size → Prop} {s₁ s₂ : AsyncLogging size}
    (h : s₁.Conserved) (hstopped : s₁.Stopped) (hP : P s₁)
    (hstep : ∀ t t', Effect t t' → t.Stopped → P t → P t')
    (h₂ : (((runs size).restrict Allowed).startAt s₁).Reachable s₂) : s₂.Inv ∧ P s₂ := by
  have hall : s₂.Conserved ∧ s₂.Stopped ∧ P s₂ := by
    refine h₂.invariant (P := fun t => t.Conserved ∧ t.Stopped ∧ P t) ?_ ?_
    · rintro _ rfl
      exact ⟨h, hstopped, hP⟩
    · rintro t a t' ⟨ht, hstopped', hPt⟩ hs
      have heffect := ht.inv.effect_of_step hs.1 hs.2
      exact ⟨ht.step hs, heffect.stopped hstopped', hstep t t' heffect hstopped' hPt⟩
  exact ⟨hall.1.inv, hall.2.2⟩

theorem Inv.behind_of_exited (h : s.Inv) (hpc : s.backEnd = .exited) : s.behind = s.output := by
  have hwrite : s.buffersToWrite = [] := h.at_pc hpc
  rw [behind, unwritten, hpc, hwrite]
  exact List.append_nil _

/-- The log survives the shutdown from `s` on exactly if `stop` finds the back end in an iteration
before its swap, or no byte has been appended since the last swap. -/
theorem survives_iff {s s₁ s₂ : AsyncLogging size}
    (h : ((runs size).restrict Allowed).Reachable s) (hstop : (runs size).step s .stop s₁)
    (h₂ : (((runs size).restrict Allowed).startAt s₁).Reachable s₂)
    (hdone : s₂.backEnd = .exited) :
    s.appended.flatten <+: s₂.output ↔
      s.backEnd = .lock ∨ s.backEnd = .wait ∨
        s.buffers_.flatMap bytes ++ bytes s.currentBuffer_ = [] := by
  have hs := conserved_of_reachable h
  have hs₁ : s₁.Conserved := hs.step (a := .stop) ⟨trivial, hstop⟩
  have hrunning : s.running_ = true := (enabled_stop.1 hstop.1).1
  cases hstop.2
  have hstopped : ({ s with running_ := false } : AsyncLogging size).Stopped := by
    refine ⟨rfl, fun hpc => ?_⟩
    exact absurd (hrunning.symm.trans (hs.inv.at_pc hpc).1) nofun
  by_cases hbefore : s.BeforeSwap
  · -- the swap to come takes everything
    have hstart : s.appended.flatten <+: s.behind ++ s.front := hs.log ▸ List.prefix_refl _
    obtain ⟨hinv, -, hprefix⟩ := after_stop
      (P := fun t => s.appended.flatten <+: t.behind ++ t.front ∧
        (t.BeforeSwap ∨ s.appended.flatten <+: t.behind)) hs₁ hstopped
      ⟨hstart, .inl hbefore⟩ (fun _ _ h => h.prefix) h₂
    refine iff_of_true ?_ (or_assoc.1 (.inl hbefore))
    rcases hprefix with hpc | hprefix
    · simp [BeforeSwap, hdone] at hpc
    · rwa [hinv.behind_of_exited hdone] at hprefix
  · -- no swap comes any more
    obtain ⟨hinv, hbehind, -⟩ := after_stop
      (P := fun t => t.behind = s.behind ∧ ¬ t.BeforeSwap) hs₁ hstopped ⟨rfl, hbefore⟩
      (fun t t' h ht hP => ⟨(h.behind_eq ht hP.2).1.trans hP.1, (h.behind_eq ht hP.2).2⟩) h₂
    rw [hinv.behind_of_exited hdone] at hbehind
    have hfront : s.appended.flatten <+: s₂.output ↔ s.front = [] := by
      rw [hbehind, ← hs.log]
      constructor
      · intro hprefix
        have hlen := hprefix.length_le
        rw [List.length_append] at hlen
        exact List.length_eq_zero_iff.1 (by omega)
      · intro hnil
        exact ⟨[], by rw [hnil, List.append_nil, List.append_nil]⟩
    rw [hfront, ← or_assoc]
    exact (or_iff_right hbefore).symm

/-- `stop` comes right before the test of the loop. -/
def stopped : AsyncLogging kLargeBuffer := { oneLine with running_ := false }

def lost : AsyncLogging kLargeBuffer := { stopped with backEnd := .exited }

theorem stop_oneLine : (runs kLargeBuffer).step oneLine .stop stopped := ⟨rfl, rfl⟩

theorem lost_reachable : (((runs kLargeBuffer).restrict Allowed).startAt stopped).Reachable lost :=
  .step (a := .backEnd zeros zeros []) (.init rfl) ⟨nofun, rfl, rfl⟩

theorem survives_iff_oneLine :
    oneLine.appended.flatten <+: lost.output ↔
      oneLine.backEnd = .lock ∨ oneLine.backEnd = .wait ∨
        oneLine.buffers_.flatMap bytes ++ bytes oneLine.currentBuffer_ = [] :=
  survives_iff oneLine_reachable stop_oneLine lost_reachable rfl

/-- The back end leaves its loop with a line in `currentBuffer_`. -/
theorem line_lost :
    ((runs kLargeBuffer).restrict Allowed).Reachable oneLine ∧
      (runs kLargeBuffer).step oneLine .stop stopped ∧
        (((runs kLargeBuffer).restrict Allowed).startAt stopped).Reachable lost ∧
          lost.backEnd = .exited ∧ ¬ oneLine.appended.flatten <+: lost.output := by
  refine ⟨oneLine_reachable, stop_oneLine, lost_reachable, rfl, ?_⟩
  intro hprefix
  exact List.cons_ne_nil _ _ (List.prefix_nil.1 hprefix)

end AsyncLogging
end Base
end Longky
