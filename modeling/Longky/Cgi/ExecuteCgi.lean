import Longky.Cgi.CgiParser
import Longky.Lib.Descriptors
import Longky.Lib.Reach
import Mathlib.Logic.Function.Basic

/-!
# ExecuteCgi — the processes and pipes behind `Parser::execute_cgi`

`CgiParser` takes the output of a script as given.  Here `execute_cgi` runs step by step, in any
number of pool threads at once, next to the processes that it forks: each request makes two pipes,
forks, feeds the body of a POST into the one pipe and reads the other, byte by byte, until `read`
returns 0.

Pipes are made without `O_CLOEXEC`, so a child inherits every end its parent has open at the moment
of the `fork`, those of other requests included, and keeps them until it exits.  A script reads its
standard input, writes its standard output and exits, in any order and any number of times; it may
also die at any point.  It does not close a descriptor that it has inherited.  `SIGPIPE` is ignored
(`EventLoop.cpp`), so a write without a reader fails.
-/

namespace Longky
namespace Cgi

open Lib

/-! ## Pipes and processes -/

/-- The ends of the two pipes of request `i`. -/
inductive PipeEnd where
  | outputRead (i : Nat)
  | outputWrite (i : Nat)
  | inputRead (i : Nat)
  | inputWrite (i : Nat)
  deriving DecidableEq, Repr

/-- The server, or the process forked for request `i`. -/
inductive Process where
  | server
  | child (i : Nat)
  deriving DecidableEq, Repr

/-- Where a pool thread stands in `execute_cgi`. -/
inductive Phase where
  | entered
  /-- `pipe(cgi_output)` has succeeded. -/
  | outputPipe
  /-- `pipe(cgi_input)` has succeeded. -/
  | inputPipe
  | forked
  /-- `cgi_output[1]` is closed. -/
  | writerClosed
  /-- In `write(cgi_input[1], ...)`, with what is left of the body. -/
  | writing (rest : Bytes)
  /-- In the loop that reads `cgi_output[0]`, with the bytes so far. -/
  | reading (res : Bytes)
  /-- `read` has returned 0. -/
  | responding (res : Bytes)
  | sent (res : Bytes)
  /-- `cgi_output[0]` is closed. -/
  | outputClosed (res : Bytes)
  /-- `cgi_input[1]` is closed. -/
  | inputClosed (res : Bytes)
  /-- `waitpid` has returned. -/
  | finished (res : Bytes)
  /-- An early return, with the error page it sent. -/
  | refused (page : Bytes)
  deriving DecidableEq, Repr

/-- The life of a forked process. -/
inductive ChildPhase where
  | unborn
  /-- Between `fork` and the closes; `dup2` only makes second descriptors of ends it holds. -/
  | started
  /-- `cgi_output[0]` is closed. -/
  | readerClosed
  /-- `cgi_input[1]` is closed. -/
  | ready
  /-- `execl` has succeeded. -/
  | running
  | exited
  deriving DecidableEq, Repr

def ChildPhase.alive : ChildPhase → Bool
  | unborn | exited => false
  | started | readerClosed | ready | running => true

namespace ChildPhase

@[simp] theorem alive_unborn : unborn.alive = false := rfl

@[simp] theorem alive_started : started.alive = true := rfl

@[simp] theorem alive_readerClosed : readerClosed.alive = true := rfl

@[simp] theorem alive_ready : ready.alive = true := rfl

@[simp] theorem alive_running : running.alive = true := rfl

@[simp] theorem alive_exited : exited.alive = false := rfl

theorem ne_unborn_of_alive {c : ChildPhase} (h : c.alive = true) : c ≠ unborn := by
  rintro rfl
  cases h

theorem ne_exited_of_alive {c : ChildPhase} (h : c.alive = true) : c ≠ exited := by
  rintro rfl
  cases h

end ChildPhase

/-- What the pool thread has read from the script. -/
def Phase.collected : Phase → Bytes
  | reading res | responding res | sent res | outputClosed res | inputClosed res
  | finished res => res
  | _ => []

/-- What is left of the body `post`, until the pool thread has stopped writing. -/
def Phase.remaining (post : Bytes) : Phase → Option Bytes
  | entered | outputPipe | inputPipe | forked | writerClosed => some post
  | writing rest => some rest
  | _ => none

/-- No process has been forked. -/
def Phase.beforeFork : Phase → Bool
  | entered | outputPipe | inputPipe | refused _ => true
  | _ => false

/-- `read` has returned 0. -/
def Phase.ended : Phase → Bool
  | responding _ | sent _ | outputClosed _ | inputClosed _ | finished _ => true
  | _ => false

/-- The server holds `cgi_output[1]` on its way to the fork. -/
def Phase.holdsWriter : Phase → Bool
  | outputPipe | inputPipe => true
  | _ => false

/-- The server can hold `cgi_output[1]`; after a failure it keeps it. -/
def Phase.mayHoldWriter : Phase → Bool
  | outputPipe | inputPipe | forked | refused _ => true
  | _ => false

/-- The server can hold `cgi_input[0]`. -/
def Phase.mayHoldReader : Phase → Bool
  | inputPipe | forked | writerClosed | refused _ => true
  | _ => false

/-- The server holds `cgi_input[1]`. -/
def Phase.feeds : Phase → Bool
  | inputPipe | forked | writerClosed | writing _ | reading _ | responding _ | sent _
  | outputClosed _ => true
  | _ => false

/-- The text that has been handed to `FastCgiCodec::respond` and sent. -/
def Phase.answer : Phase → Option Bytes
  | sent res | outputClosed res | inputClosed res | finished res => some res
  | refused page => some page
  | _ => none

/-- How `pipe`, `pipe` and `fork` have gone when the pool thread stands there. -/
def Phase.answers : Phase → Option (List Bool)
  | entered => some []
  | outputPipe => some [true]
  | inputPipe => some [true, true]
  | refused _ => none
  | _ => some [true, true, true]

structure Child where
  phase : ChildPhase := .unborn
  /-- What it has read from its standard input. -/
  consumed : Bytes := []
  /-- What it has written to its standard output. -/
  written : Bytes := []
  /-- `read` of its standard input has returned 0. -/
  eof : Bool := false
  deriving DecidableEq, Repr

/-- The server's pool threads, the forked processes and the kernel's pipes. -/
structure Processes where
  phase : Nat → Phase := fun _ => .entered
  child : Nat → Child := fun _ => {}
  /-- The bytes in the two pipes of a request. -/
  output : Nat → Bytes := fun _ => []
  input : Nat → Bytes := fun _ => []
  /-- Whether `pipe(cgi_output)`, `pipe(cgi_input)` and `fork` have succeeded, as far as they have been
  called for a request. -/
  answers : Nat → List Bool := fun _ => []
  table : Descriptors Process PipeEnd := []

/-- What the kernel answers a pool thread. -/
structure Answer where
  /-- `pipe` or `fork` succeeds. -/
  ok : Bool := true
  /-- `write` takes this many bytes and one more, as far as there are so many and there is room. -/
  taken : Nat := 0
  deriving DecidableEq, Repr

inductive ChildMove where
  /-- On to the next phase. -/
  | go
  | read (n : Nat)
  | write (bytes : Bytes)
  | exit
  deriving DecidableEq, Repr

inductive Move where
  | worker (i : Nat) (a : Answer)
  | child (i : Nat) (m : ChildMove)
  deriving DecidableEq, Repr

/-- The request that a system call belongs to. -/
def Move.request : Move → Nat
  | worker i _ | child i _ => i

namespace Processes

variable (jobs : Nat → Parser) (capacity : Nat)

@[simp]
def setPhase (s : Processes) (i : Nat) (ph : Phase) : Processes :=
  { s with phase := Function.update s.phase i ph }

@[simp]
def setChild (s : Processes) (i : Nat) (c : Child) : Processes :=
  { s with child := Function.update s.child i c }

/-- One more call of a request has been answered. -/
@[simp]
def setAnswer (s : Processes) (i : Nat) (ok : Bool) : Processes :=
  { s with answers := Function.update s.answers i (s.answers i ++ [ok]) }

@[simp]
def setTable (s : Processes) (t : Descriptors Process PipeEnd) : Processes :=
  { s with table := t }

/-- The method compares equal to `POST` whatever the case; `accept_request` lets only `GET` and
`POST` through. -/
def isPost (p : Parser) : Bool :=
  p.param "REQUEST_METHOD" == Bytes.ofString "POST"

/-- A POST whose `CONTENT_LENGTH` reads as -1. -/
def badLength (p : Parser) : Bool :=
  isPost p && atoi (p.param "CONTENT_LENGTH") == -1

/-! ## The pool thread -/

/-- One system call of request `i`'s pool thread; none when it blocks or has returned. -/
def workerStep (s : Processes) (i : Nat) (a : Answer) : Option Processes :=
  match s.phase i with
  | .entered =>
      if badLength (jobs i) then
        some (s.setPhase i (.refused Parser.bad_request))
      else if !a.ok then some ((s.setAnswer i false).setPhase i (.refused Parser.cannot_execute))
      else
        some (((s.setAnswer i true).setPhase i .outputPipe).setTable
          (s.table.openEnds .server [.outputRead i, .outputWrite i]))
  | .outputPipe =>
      -- the ends of the first pipe stay open when the second cannot be made
      if !a.ok then some ((s.setAnswer i false).setPhase i (.refused Parser.cannot_execute))
      else
        some (((s.setAnswer i true).setPhase i .inputPipe).setTable
          (s.table.openEnds .server [.inputRead i, .inputWrite i]))
  | .inputPipe =>
      if !a.ok then some ((s.setAnswer i false).setPhase i (.refused Parser.cannot_execute))
      else
        some ((((s.setAnswer i true).setPhase i .forked).setChild i { phase := .started }).setTable
          (s.table.fork .server (.child i)))
  | .forked =>
      some ((s.setPhase i .writerClosed).setTable (s.table.close .server (.outputWrite i)))
  | .writerClosed =>
      let next : Phase := if isPost (jobs i) then .writing (jobs i).postData_ else .reading []
      some ((s.setPhase i next).setTable (s.table.close .server (.inputRead i)))
  | .writing rest =>
      if rest = [] then some (s.setPhase i (.reading []))
      -- `EPIPE`: no process can read the body any more
      else if !s.table.held (.inputRead i) then some (s.setPhase i (.reading []))
      else
        let room := capacity - (s.input i).length
        if room = 0 then none
        else
          let n := min (a.taken + 1) room
          some { s.setPhase i (.writing (rest.drop n)) with
            input := Function.update s.input i (s.input i ++ rest.take n) }
  | .reading res =>
      match s.output i with
      | c :: cs =>
          some { s.setPhase i (.reading (res ++ [c])) with
            output := Function.update s.output i cs }
      | [] =>
          if s.table.held (.outputWrite i) then none
          else some (s.setPhase i (.responding res))
  | .responding res => some (s.setPhase i (.sent res))
  | .sent res =>
      some ((s.setPhase i (.outputClosed res)).setTable
        (s.table.close .server (.outputRead i)))
  | .outputClosed res =>
      some ((s.setPhase i (.inputClosed res)).setTable
        (s.table.close .server (.inputWrite i)))
  | .inputClosed res =>
      if (s.child i).phase = .exited then some (s.setPhase i (.finished res)) else none
  | .finished _ | .refused _ => none

/-! ## The script -/

/-- One system call of the process forked for request `i`; none when it blocks or is not there. -/
def childStep (s : Processes) (i : Nat) (m : ChildMove) : Option Processes :=
  let c := s.child i
  match c.phase, m with
  | .unborn, _ | .exited, _ => none
  | _, .exit => some ((s.setChild i { c with phase := .exited }).setTable (s.table.exit (.child i)))
  | .started, .go =>
      some ((s.setChild i { c with phase := .readerClosed }).setTable
        (s.table.close (.child i) (.outputRead i)))
  | .readerClosed, .go =>
      some ((s.setChild i { c with phase := .ready }).setTable
        (s.table.close (.child i) (.inputWrite i)))
  | .ready, .go => some (s.setChild i { c with phase := .running })
  | .running, .read n =>
      match s.input i with
      | b :: bs =>
          some { s.setChild i { c with consumed := c.consumed ++ (b :: bs).take (n + 1) } with
            input := Function.update s.input i ((b :: bs).drop (n + 1)) }
      | [] =>
          if s.table.held (.inputWrite i) then none
          else some (s.setChild i { c with eof := true })
  | .running, .write bytes =>
      -- a longer write goes through in pieces
      if (s.output i).length + bytes.length ≤ capacity then
        some { s.setChild i { c with written := c.written ++ bytes } with
          output := Function.update s.output i (s.output i ++ bytes) }
      else none
  | _, _ => none

def next (s : Processes) : Move → Option Processes
  | .worker i a => s.workerStep jobs capacity i a
  | .child i m => s.childStep capacity i m

/-- Any number of requests, their pool threads and scripts in any interleaving. -/
def system : System Processes Move where
  init s := s = {}
  step s m s' := s.next jobs capacity m = some s'

variable {jobs capacity}

/-! ## What a step can do -/

/-- The outcomes of a system call of request `i`'s pool thread. -/
inductive WorkerStep (jobs : Nat → Parser) (capacity : Nat) (s : Processes) (i : Nat) :
    Processes → Prop where
  | badRequest (hp : s.phase i = .entered) (hbad : badLength (jobs i) = true) :
      WorkerStep jobs capacity s i (s.setPhase i (.refused Parser.bad_request))
  | cannotExecute (hp : s.phase i = .entered ∧ badLength (jobs i) = false ∨
      s.phase i = .outputPipe ∨ s.phase i = .inputPipe) :
      WorkerStep jobs capacity s i ((s.setAnswer i false).setPhase i (.refused Parser.cannot_execute))
  | outputPipe (hp : s.phase i = .entered) (hgood : badLength (jobs i) = false) :
      WorkerStep jobs capacity s i (((s.setAnswer i true).setPhase i .outputPipe).setTable
        (s.table.openEnds .server [.outputRead i, .outputWrite i]))
  | inputPipe (hp : s.phase i = .outputPipe) :
      WorkerStep jobs capacity s i (((s.setAnswer i true).setPhase i .inputPipe).setTable
        (s.table.openEnds .server [.inputRead i, .inputWrite i]))
  | fork (hp : s.phase i = .inputPipe) :
      WorkerStep jobs capacity s i ((((s.setAnswer i true).setPhase i .forked).setChild i
        { phase := .started }).setTable (s.table.fork .server (.child i)))
  | closeWriter (hp : s.phase i = .forked) :
      WorkerStep jobs capacity s i ((s.setPhase i .writerClosed).setTable
        (s.table.close .server (.outputWrite i)))
  | closeReader {ph : Phase} (hp : s.phase i = .writerClosed)
      (hph : ph = .writing (jobs i).postData_ ∨ ph = .reading []) :
      WorkerStep jobs capacity s i ((s.setPhase i ph).setTable
        (s.table.close .server (.inputRead i)))
  | stopWriting {rest : Bytes} (hp : s.phase i = .writing rest) :
      WorkerStep jobs capacity s i (s.setPhase i (.reading []))
  | write {rest : Bytes} {n : Nat} (hp : s.phase i = .writing rest)
      (hroom : (s.input i).length + n ≤ capacity) :
      WorkerStep jobs capacity s i { s.setPhase i (.writing (rest.drop n)) with
        input := Function.update s.input i (s.input i ++ rest.take n) }
  | readByte {res cs : Bytes} {c : UInt8} (hp : s.phase i = .reading res)
      (ho : s.output i = c :: cs) :
      WorkerStep jobs capacity s i { s.setPhase i (.reading (res ++ [c])) with
        output := Function.update s.output i cs }
  | readEof {res : Bytes} (hp : s.phase i = .reading res) (ho : s.output i = [])
      (hnone : s.table.held (.outputWrite i) = false) :
      WorkerStep jobs capacity s i (s.setPhase i (.responding res))
  | respond {res : Bytes} (hp : s.phase i = .responding res) :
      WorkerStep jobs capacity s i (s.setPhase i (.sent res))
  | closeOutput {res : Bytes} (hp : s.phase i = .sent res) :
      WorkerStep jobs capacity s i ((s.setPhase i (.outputClosed res)).setTable
        (s.table.close .server (.outputRead i)))
  | closeInput {res : Bytes} (hp : s.phase i = .outputClosed res) :
      WorkerStep jobs capacity s i ((s.setPhase i (.inputClosed res)).setTable
        (s.table.close .server (.inputWrite i)))
  | waitpid {res : Bytes} (hp : s.phase i = .inputClosed res)
      (hc : (s.child i).phase = .exited) :
      WorkerStep jobs capacity s i (s.setPhase i (.finished res))

theorem workerStep_cases {s s' : Processes} {i : Nat} {a : Answer}
    (h : s.workerStep jobs capacity i a = some s') : WorkerStep jobs capacity s i s' := by
  unfold workerStep at h
  cases hp : s.phase i with
  | entered =>
      rw [hp] at h
      dsimp only at h
      split at h
      · rename_i hbad
        cases h
        exact .badRequest hp hbad
      · rename_i hgood
        have hgood' : badLength (jobs i) = false := by simpa using hgood
        split at h <;> cases h
        · exact .cannotExecute (Or.inl ⟨hp, hgood'⟩)
        · exact .outputPipe hp hgood'
  | outputPipe =>
      rw [hp] at h
      dsimp only at h
      split at h <;> cases h
      · exact .cannotExecute (Or.inr (Or.inl hp))
      · exact .inputPipe hp
  | inputPipe =>
      rw [hp] at h
      dsimp only at h
      split at h <;> cases h
      · exact .cannotExecute (Or.inr (Or.inr hp))
      · exact .fork hp
  | forked =>
      rw [hp] at h
      cases h
      exact .closeWriter hp
  | writerClosed =>
      rw [hp] at h
      cases h
      refine .closeReader hp ?_
      cases isPost (jobs i)
      · exact Or.inr rfl
      · exact Or.inl rfl
  | writing rest =>
      rw [hp] at h
      dsimp only at h
      split at h
      · cases h
        exact .stopWriting hp
      · split at h
        · cases h
          exact .stopWriting hp
        · split at h
          · cases h
          · cases h
            refine .write hp ?_
            omega
  | reading res =>
      rw [hp] at h
      dsimp only at h
      split at h
      · rename_i c cs ho
        cases h
        exact .readByte hp ho
      · rename_i ho
        split at h
        · cases h
        · rename_i hnone
          cases h
          exact .readEof hp ho (by simpa using hnone)
  | responding res =>
      rw [hp] at h
      cases h
      exact .respond hp
  | sent res =>
      rw [hp] at h
      cases h
      exact .closeOutput hp
  | outputClosed res =>
      rw [hp] at h
      cases h
      exact .closeInput hp
  | inputClosed res =>
      rw [hp] at h
      rcases Option.ite_none_right_eq_some.1 h with ⟨hc, heq⟩
      cases heq
      exact .waitpid hp hc
  | finished res =>
      rw [hp] at h
      cases h
  | refused page =>
      rw [hp] at h
      cases h

/-- The outcomes of a system call of the process forked for request `i`. -/
inductive ChildStep (capacity : Nat) (s : Processes) (i : Nat) : Processes → Prop where
  | exit (hp : (s.child i).phase.alive = true) :
      ChildStep capacity s i ((s.setChild i { s.child i with phase := .exited }).setTable
        (s.table.exit (.child i)))
  | closeReader (hp : (s.child i).phase = .started) :
      ChildStep capacity s i ((s.setChild i { s.child i with phase := .readerClosed }).setTable
        (s.table.close (.child i) (.outputRead i)))
  | closeWriter (hp : (s.child i).phase = .readerClosed) :
      ChildStep capacity s i ((s.setChild i { s.child i with phase := .ready }).setTable
        (s.table.close (.child i) (.inputWrite i)))
  | exec (hp : (s.child i).phase = .ready) :
      ChildStep capacity s i (s.setChild i { s.child i with phase := .running })
  | read {n : Nat} (hp : (s.child i).phase = .running) :
      ChildStep capacity s i { s.setChild i { s.child i with
          consumed := (s.child i).consumed ++ (s.input i).take n } with
        input := Function.update s.input i ((s.input i).drop n) }
  | readEof (hp : (s.child i).phase = .running)
      (hnone : s.table.held (.inputWrite i) = false) :
      ChildStep capacity s i (s.setChild i { s.child i with eof := true })
  | write {bytes : Bytes} (hp : (s.child i).phase = .running)
      (hroom : (s.output i).length + bytes.length ≤ capacity) :
      ChildStep capacity s i { s.setChild i { s.child i with
          written := (s.child i).written ++ bytes } with
        output := Function.update s.output i (s.output i ++ bytes) }

theorem childStep_cases {s s' : Processes} {i : Nat} {m : ChildMove}
    (h : s.childStep capacity i m = some s') : ChildStep capacity s i s' := by
  unfold childStep at h
  dsimp only at h
  split at h
  · cases h
  · cases h
  · rename_i hunborn hexited
    cases h
    refine .exit ?_
    cases hc : (s.child i).phase <;> simp_all [ChildPhase.alive]
  · rename_i hp
    cases h
    exact .closeReader hp
  · rename_i hp
    cases h
    exact .closeWriter hp
  · rename_i hp
    cases h
    exact .exec hp
  · rename_i n hp
    split at h
    · rename_i b bs hi
      cases h
      rw [← hi]
      exact .read hp
    · split at h
      · cases h
      · rename_i hnone
        cases h
        exact .readEof hp (by simpa using hnone)
  · rename_i bytes hp
    split at h
    · rename_i hroom
      cases h
      exact .write hp hroom
    · cases h
  · cases h

end Processes
end Cgi
end Longky
