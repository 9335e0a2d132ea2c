import Mathlib.Data.List.Forall2
import Longky.Base.AsyncLogging
import Longky.Base.LogFile
import Longky.Base.Timestamp

/-!
# LogPipeline — from the front-end threads into the files

`AsyncLogging` of `base/log/AyncLogging.cpp` together with the `LogFile` that its `threadFunc` makes
and writes to.  A buffer is passed to `LogFile::append` whole, the file may be rolled behind each of
them, and a swap that finds more than 25 buffers keeps two and leaves a notice.  Files can be opened,
and all of a buffer is written to them.

The lines that are appended between two swaps fill the buffers in one way only (`fill`), so the whole
of what the files hold is known from where the swaps were and when the notices were made.

* `ledger_step`: what each step does to the lines, buffer by buffer;
* `whole_lines`: in every run the files hold, call by call, what the swaps have made of the lines.
-/

namespace Longky
namespace Base

open Lib
open AsyncLogging (LogAction)

/-! ## The two together -/

/-- What a log file is made of. -/
inductive Entry where
  | line (logline : Bytes)
  | notice (message : Bytes)
  deriving DecidableEq, Repr

def Entry.bytes : Entry → Bytes
  | line logline => logline
  | notice message => message

/-- The message of `threadFunc` when `buffersToWrite` has `n` buffers. -/
def dropMessage (now : Timestamp) (n : Nat) : Bytes :=
  (snprintf 256 (Bytes.ofString "Dropped log messages at " ++ now.toFormattedString true ++
    Bytes.ofString ", " ++ Numeral.decimal (n - 2) ++ Bytes.ofString " larger buffers\n")).1

namespace AsyncLogging

variable {size : Nat}

/-- What a step hands to `LogFile::append`. -/
def passed (s : AsyncLogging size) : LogAction size → Option Bytes
  | .backEnd _ _ message =>
      match s.backEnd with
      | .check => if 25 < s.buffersToWrite.length then some message else none
      | .write k => s.buffersToWrite[k]?.map bytes
      | _ => none
  | _ => none

end AsyncLogging

/-- `output` is a local variable of `threadFunc`. -/
structure LogPipeline (size : Nat) where
  async : AsyncLogging size
  output : Option LogFile := none

inductive PipelineAction (size : Nat) where
  | append (logline : Bytes) (memory : Memory size)
  | start
  | stop
  /-- The back end goes on.  The clock shows `now`, and `opened` and `time` in seconds. -/
  | backEnd (memory₁ memory₂ : Memory size) (now : Timestamp) (opened time : Int)
  /-- A timer of the `LogFile`. -/
  | roll (time : Int)

/-- The arguments of the constructor, and the names of the files. -/
structure LogSetup where
  getLogFileName : Bytes → Int → Bytes
  basename_ : Bytes
  rollSize_ : Int
  rollTime_ : Int
  timeZone_ : Int

namespace LogPipeline

variable {size : Nat}

def logAction (s : LogPipeline size) : PipelineAction size → Option (LogAction size)
  | .append logline memory => some (.append logline memory)
  | .start => some .start
  | .stop => some .stop
  | .backEnd memory₁ memory₂ now _ _ =>
      some (.backEnd memory₁ memory₂ (dropMessage now s.async.buffersToWrite.length))
  | .roll _ => none

/-- The file after a step; none where the program would call through a null pointer. -/
def nextOutput (setup : LogSetup) (s : LogPipeline size) :
    PipelineAction size → Option (Option LogFile)
  | .append .. | .start | .stop => some s.output
  | .backEnd memory₁ memory₂ now opened time =>
      if s.async.backEnd = .started then
        if 0 < opened then
          (LogFile.threadFuncOutput setup.getLogFileName setup.basename_ setup.rollSize_
            setup.rollTime_ setup.timeZone_ opened time).map some
        else none
      else
        match s.async.passed (.backEnd memory₁ memory₂
          (dropMessage now s.async.buffersToWrite.length)) with
        | none => some s.output
        | some logline =>
            match s.output with
            | none => none
            | some file => (file.append setup.getLogFileName logline opened).map some
  | .roll time => some (s.output.map fun file => (file.rollFile setup.getLogFileName time).1)

def nextAsync (s : LogPipeline size) (a : PipelineAction size) : Option (AsyncLogging size) :=
  match s.logAction a with
  | none => some s.async
  | some a => if s.async.enabled a then (s.async.perform a).toOption else none

def next (setup : LogSetup) (s : LogPipeline size) (a : PipelineAction size) :
    Option (LogPipeline size) := do
  let async ← s.nextAsync a
  let output ← s.nextOutput setup a
  return ⟨async, output⟩

def runs (setup : LogSetup) (size : Nat) : System (LogPipeline size) (PipelineAction size) where
  init s := ∃ memory₁ memory₂, s = ⟨.constructed memory₁ memory₂, none⟩
  step s a s' := s.next setup a = some s'

end LogPipeline

/-! ## The lines in the buffers -/

/-- One line more in the buffers that are full and in the one that is not. -/
def place (size : Nat) (front : List (List Bytes) × List Bytes) (line : Bytes) :
    List (List Bytes) × List Bytes :=
  if line.length < size - front.2.flatten.length then (front.1, front.2 ++ [line])
  -- a line that no buffer can hold leaves an empty one behind
  else (front.1 ++ [front.2], if line.length < size then [line] else [])

/-- How lines fill empty buffers: the lines of each full one, and those of the last. -/
def fill (size : Nat) (lines : List Bytes) : List (List Bytes) × List Bytes :=
  lines.foldl (place size) ([], [])

/-- All buffers, as a swap finds them. -/
def cut (size : Nat) (lines : List Bytes) : List (List Bytes) :=
  (fill size lines).1 ++ [(fill size lines).2]

theorem fill_concat (size : Nat) (lines : List Bytes) (line : Bytes) :
    fill size (lines ++ [line]) = place size (fill size lines) line := by
  rw [fill, List.foldl_append]
  rfl

/-- Only the lines that fit into no buffer are missing. -/
theorem flatten_cut (size : Nat) (lines : List Bytes) :
    (cut size lines).flatten = lines.filter fun line => line.length < size := by
  induction lines using List.reverseRecOn with
  | nil => rfl
  | append_singleton lines line ih =>
      have hplace : ∀ front : List (List Bytes) × List Bytes,
          (place size front line).1.flatten ++ (place size front line).2 =
            (front.1.flatten ++ front.2) ++ if line.length < size then [line] else [] := by
        intro front
        unfold place
        split
        · rename_i hroom
          rw [if_pos (lt_of_lt_of_le hroom (Nat.sub_le _ _)), List.append_assoc]
        · simp
      have hcut : ∀ lines, (cut size lines).flatten =
          (fill size lines).1.flatten ++ (fill size lines).2 := by
        intro lines
        simp [cut]
      rw [hcut, fill_concat, hplace, ← hcut, ih, List.filter_append]
      by_cases hfits : line.length < size
      · simp [hfits]
      · simp [hfits]

/-- What one swap has taken over, and what is said of its buffers if they are too many. -/
structure Batch where
  /-- All lines that were appended since the swap before. -/
  appended : List Bytes
  message : Bytes

namespace Batch

def buffers (size : Nat) (b : Batch) : List (List Bytes) := cut size b.appended

/-- What is passed on: all buffers, or the notice and the first two. -/
def entries (size : Nat) (b : Batch) : List Entry :=
  if 25 < (b.buffers size).length then
    .notice b.message :: ((b.buffers size).take 2).flatten.map .line
  else (b.buffers size).flatten.map .line

end Batch

/-- Where the lines are; each list of lines is one buffer, and each of `wrote` one call of
`LogFile::append`. -/
structure Ledger where
  /-- The swaps whose buffers have been counted. -/
  batches : List Batch := []
  wrote : List (List Entry) := []
  toWrite : List (List Bytes) := []
  /-- The lines of a swap whose buffers have not been counted. -/
  found : Option (List Bytes) := none
  /-- The lines since the last swap. -/
  inFront : List Bytes := []

namespace AsyncLogging

variable {size : Nat} {s s' : AsyncLogging size} {l : Ledger}

def Contains (p : BufferPtr size) (lines : List Bytes) : Prop := bytes p = lines.flatten

structure Keeps (s : AsyncLogging size) (l : Ledger) : Prop where
  waiting : List.Forall₂ Contains s.unwritten ((l.found.map (cut size)).getD [] ++ l.toWrite)
  buffers : List.Forall₂ Contains s.buffers_ (fill size l.inFront).1
  current : Contains s.currentBuffer_ (fill size l.inFront).2
  appended : s.appended = l.batches.flatMap Batch.appended ++ (l.found.getD [] ++ l.inFront)
  entries : l.wrote.flatten ++ l.toWrite.flatten.map .line = l.batches.flatMap (Batch.entries size)
  found : l.found.isSome = true ↔ s.backEnd = .check
  /-- Nothing is left of the swap before when the next one is made. -/
  toWrite : l.found.isSome = true → l.toWrite = []

/-- A step that leaves the lines where they are. -/
theorem Keeps.same (h : s.Keeps l) (hunwritten : s'.unwritten = s.unwritten)
    (hbuffers : s'.buffers_ = s.buffers_) (hcurrent : s'.currentBuffer_ = s.currentBuffer_)
    (happended : s'.appended = s.appended) (hcheck : s.backEnd ≠ .check)
    (hcheck' : s'.backEnd ≠ .check) : s'.Keeps l where
  waiting := hunwritten ▸ h.waiting
  buffers := hbuffers ▸ h.buffers
  current := hcurrent ▸ h.current
  appended := happended.trans h.appended
  entries := h.entries
  found := h.found.trans (iff_of_false hcheck hcheck')
  toWrite := h.toWrite

theorem Keeps.found_none (h : s.Keeps l) (hcheck : s.backEnd ≠ .check) : l.found = none := by
  cases hfound : l.found with
  | none => rfl
  | some lines => exact absurd (h.found.1 (by rw [hfound]; rfl)) hcheck

/-- The buffers of a batch are the ones that this step counts. -/
def Counted (s : AsyncLogging size) (a : LogAction size) (b : Batch) : Prop :=
  ∃ memory₁ memory₂, a = .backEnd memory₁ memory₂ b.message ∧
    (b.buffers size).length = s.buffersToWrite.length

/-- A step is explained by a ledger and by the entries that it passes on. -/
def Explained (s s' : AsyncLogging size) (a : LogAction size) (l : Ledger) : Prop :=
  ∃ l' piece, s'.Keeps l' ∧ l'.wrote = l.wrote ++ Option.toList piece ∧
    s.passed a = piece.map (List.flatMap Entry.bytes) ∧
    ∀ b ∈ l'.batches, b ∈ l.batches ∨ s.Counted a b

/-- A step that passes nothing on and counts nothing. -/
theorem Keeps.explained {a : LogAction size} {m : Ledger} (h : s'.Keeps m)
    (hwrote : m.wrote = l.wrote) (hbatches : m.batches = l.batches)
    (hpassed : s.passed a = none) : Explained s s' a l :=
  ⟨m, none, h, by simp [hwrote], hpassed, fun _ hb => .inl (hbatches ▸ hb)⟩

theorem Keeps.append (h : s.Keeps l) (hinv : s.Inv) {logline : Bytes} {memory : Memory size}
    (hs : s.append logline memory = .ok s') : Explained s s' (.append logline memory) l := by
  obtain ⟨current, hcurrent⟩ := Option.isSome_iff_exists.1 hinv.current
  have hlines : current.contents = (fill size l.inFront).2.flatten := by
    have := h.current
    rwa [hcurrent] at this
  have havail : current.avail = size - (fill size l.inFront).2.flatten.length := by
    rw [← hlines, FixedBuffer.length_contents]
    rfl
  have happended : s.appended ++ [logline] = l.batches.flatMap Batch.appended ++
      (l.found.getD [] ++ (l.inFront ++ [logline])) := by
    rw [h.appended]
    simp only [List.append_assoc]
  have hfill := fill_concat size l.inFront logline
  by_cases hroom : logline.length < current.avail
  · rw [append_room hcurrent hroom] at hs
    cases hs
    rw [place, if_pos (havail ▸ hroom)] at hfill
    refine Keeps.explained (m := { l with inFront := l.inFront ++ [logline] }) ?_ rfl rfl rfl
    refine ⟨h.waiting, ?_, ?_, happended, h.entries, h.found, h.toWrite⟩
    · rw [hfill]
      exact h.buffers
    · rw [hfill]
      calc (current.append logline).contents
          = current.contents ++ logline := FixedBuffer.contents_append hroom
        _ = ((fill size l.inFront).2 ++ [logline]).flatten := by simp [hlines]
  · rw [append_full hcurrent hroom] at hs
    cases hs
    have hfresh := hinv.fresh memory
    generalize s.nextBuffer_.getD (.construct memory) = fresh at hfresh
    rw [place, if_neg (havail ▸ hroom)] at hfill
    refine Keeps.explained (m := { l with inFront := l.inFront ++ [logline] }) ?_ rfl rfl rfl
    refine ⟨h.waiting, ?_, ?_, happended, h.entries, h.found, h.toWrite⟩
    · rw [hfill]
      exact List.rel_append h.buffers (.cons hlines .nil)
    · rw [hfill]
      by_cases hfits : logline.length < size
      · have hroom' : logline.length < fresh.avail := by rwa [FixedBuffer.avail_eq hfresh]
        calc (fresh.append logline).contents
            = fresh.contents ++ logline := FixedBuffer.contents_append hroom'
          _ = (if logline.length < size then [logline] else []).flatten := by
            simp [FixedBuffer.contents_eq_nil hfresh, hfits]
      · have hroom' : ¬ logline.length < fresh.avail := by rwa [FixedBuffer.avail_eq hfresh]
        calc (fresh.append logline).contents
            = fresh.contents := by rw [FixedBuffer.append_of_not_lt hroom']
          _ = (if logline.length < size then [logline] else []).flatten := by
            simp [FixedBuffer.contents_eq_nil hfresh, hfits]

/-- The lines of the front end are found by the back end. -/
theorem Keeps.swap (h : s.Keeps l) (hready : s.Ready) (hbefore : s.BeforeSwap) :
    s.swap.Keeps { batches := l.batches, wrote := l.wrote, found := some l.inFront } := by
  obtain ⟨b₁, hb₁, hlen₁⟩ := isFresh_iff.1 hready.1
  have hcheck : s.backEnd ≠ .check := by
    rcases hbefore with hpc | hpc <;> simp [hpc]
  have hnone := h.found_none hcheck
  have hunwritten : s.unwritten = [] := by
    rcases hbefore with hpc | hpc <;> simp [unwritten, hpc, hready.2.2]
  have htoWrite : l.toWrite = [] := by
    have hnil := h.waiting
    rw [hunwritten, hnone] at hnil
    exact List.forall₂_nil_left_iff.1 hnil
  have hswap : ∃ next new, s.swap = { s with
      currentBuffer_ := s.newBuffer1, newBuffer1 := none, nextBuffer_ := next, newBuffer2 := new
      buffersToWrite := s.buffers_ ++ [s.currentBuffer_], buffers_ := s.buffersToWrite
      backEnd := .check } := by
    cases hnext : s.nextBuffer_ with
    | none => exact ⟨_, _, swap_none hnext⟩
    | some b => exact ⟨s.nextBuffer_, s.newBuffer2, swap_some hnext⟩
  obtain ⟨next, new, hswap⟩ := hswap
  rw [hswap]
  refine ⟨?_, ?_, ?_, ?_, ?_, by simp, fun _ => rfl⟩
  · exact (List.append_nil _).symm ▸ List.rel_append h.buffers (.cons h.current .nil)
  · rw [hready.2.2]
    exact .nil
  · rw [hb₁]
    exact FixedBuffer.contents_eq_nil hlen₁
  · calc s.appended
        = l.batches.flatMap Batch.appended ++ (l.found.getD [] ++ l.inFront) := h.appended
      _ = l.batches.flatMap Batch.appended ++ (l.inFront ++ []) := by simp [hnone]
  · have hentries := h.entries
    rw [htoWrite] at hentries
    exact hentries

theorem Keeps.check (h : s.Keeps l) (hinv : s.Inv) (hpc : s.backEnd = .check)
    {memory₁ memory₂ : Memory size} {message : Bytes} (hs : s.check message = .ok s') :
    Explained s s' (.backEnd memory₁ memory₂ message) l := by
  have hloaded : s.Loaded := hinv.at_pc hpc
  obtain ⟨lines, hfound⟩ := Option.isSome_iff_exists.1 (h.found.2 hpc)
  have htoWrite : l.toWrite = [] := h.toWrite (by rw [hfound]; rfl)
  have hbuffers : List.Forall₂ Contains s.buffersToWrite (cut size lines) := by
    have hunwritten := h.waiting
    rw [unwritten, hpc, hfound, htoWrite] at hunwritten
    simpa using hunwritten
  have hcount : s.buffersToWrite.length = (cut size lines).length := hbuffers.length_eq
  have happended : s.appended = (l.batches ++ [Batch.mk lines message]).flatMap Batch.appended ++
      ((none : Option (List Bytes)).getD [] ++ l.inFront) := by
    rw [h.appended, hfound]
    simp
  have hwrote : l.wrote.flatten = l.batches.flatMap (Batch.entries size) := by
    have hentries := h.entries
    rwa [htoWrite, List.flatten_nil, List.map_nil, List.append_nil] at hentries
  have hbatches : ∀ b ∈ l.batches ++ [Batch.mk lines message], b ∈ l.batches ∨
      s.Counted (.backEnd memory₁ memory₂ message) b := by
    intro b hb
    rcases List.mem_append.1 hb with hb | hb
    · exact .inl hb
    · cases List.mem_singleton.1 hb
      exact .inr ⟨memory₁, memory₂, rfl, hcount.symm⟩
  by_cases hmany : 25 < s.buffersToWrite.length
  · rw [check_of_lt hmany] at hs
    cases hs
    have hentries : Batch.entries size ⟨lines, message⟩ =
        .notice message :: ((cut size lines).take 2).flatten.map .line :=
      if_pos (hcount ▸ hmany)
    refine ⟨{
      batches := l.batches ++ [⟨lines, message⟩]
      wrote := l.wrote ++ [[.notice message]]
      toWrite := (cut size lines).take 2
      inFront := l.inFront }, some [.notice message], ?_, rfl, ?_, hbatches⟩
    · refine ⟨List.forall₂_take 2 hbuffers, h.buffers, h.current, happended, ?_, by simp, by simp⟩
      simp [hwrote, hentries]
    · simp [passed, hpc, hmany, Entry.bytes]
  · rw [check_of_le hloaded.2.2.2.1 (Nat.le_of_not_lt hmany)] at hs
    cases hs
    have hentries : Batch.entries size ⟨lines, message⟩ = (cut size lines).flatten.map .line :=
      if_neg (hcount ▸ hmany)
    refine ⟨{
      batches := l.batches ++ [⟨lines, message⟩]
      wrote := l.wrote
      toWrite := cut size lines
      inFront := l.inFront }, none, ?_, by simp, ?_, hbatches⟩
    · refine ⟨hbuffers, h.buffers, h.current, happended, ?_, by simp, by simp⟩
      simp [hwrote, hentries]
    · simp [passed, hpc, hmany]

theorem Keeps.write (h : s.Keeps l) (hinv : s.Inv) {k : Nat} (hpc : s.backEnd = .write k)
    {memory₁ memory₂ : Memory size} {message : Bytes} (hs : s.write k = .ok s') :
    Explained s s' (.backEnd memory₁ memory₂ message) l := by
  have hloaded : s.Loaded := hinv.at_pc hpc
  have hcheck : s.backEnd ≠ .check := by simp [hpc]
  have hunwritten : s.unwritten = s.buffersToWrite.drop k := by rw [unwritten, hpc]
  cases hk : s.buffersToWrite[k]? with
  | none =>
      obtain ⟨b₁, b₂, -, -, hrecycle⟩ := recycle_of_loaded hloaded
      rw [write_none hk, hrecycle] at hs
      cases hs
      refine Keeps.explained (h.same ?_ rfl rfl rfl hcheck (by simp)) rfl rfl ?_
      · rw [hunwritten, List.drop_eq_nil_of_le (List.getElem?_eq_none_iff.1 hk)]
        rfl
      · simp [passed, hpc, hk]
  | some p =>
      cases p with
      | none => exact absurd (List.mem_of_getElem? hk) hloaded.2.2.1
      | some b =>
          rw [write_some hk] at hs
          cases hs
          have hdrop : s.buffersToWrite.drop k = some b :: s.buffersToWrite.drop (k + 1) := by
            rw [List.drop_eq_getElem?_toList_append, hk]
            rfl
          have htoWrite := h.waiting
          have hnone := h.found_none hcheck
          rw [hunwritten, hdrop, hnone] at htoWrite
          obtain ⟨lines, rest, hlines, hrest, hl⟩ := List.forall₂_cons_left_iff.1 htoWrite
          have hl : l.toWrite = lines :: rest := hl
          refine ⟨{ l with wrote := l.wrote ++ [lines.map .line], toWrite := rest },
            some (lines.map .line), ?_, rfl, ?_, fun _ hb => .inl hb⟩
          · refine ⟨?_, h.buffers, h.current, h.appended, ?_, ?_, ?_⟩
            · rw [hnone]
              exact hrest
            · calc (l.wrote ++ [lines.map Entry.line]).flatten ++ rest.flatten.map .line
                  = l.wrote.flatten ++ l.toWrite.flatten.map .line := by simp [hl]
                _ = l.batches.flatMap (Batch.entries size) := h.entries
            · simp [hnone]
            · simp [hnone]
          · have hbytes : bytes (some b) = (lines.map Entry.line).flatMap Entry.bytes :=
              calc bytes (some b)
                  = lines.flatten := hlines
                _ = (lines.map Entry.line).flatMap Entry.bytes := by
                  rw [List.flatMap_map]
                  exact List.flatMap_id.symm
            simp [passed, hpc, hk, hbytes]

/-- The step lemma: what each place of `threadFunc` does to the lines. -/
theorem Keeps.advance (h : s.Keeps l) (hinv : s.Inv) {memory₁ memory₂ : Memory size}
    {message : Bytes} (hs : s.advance memory₁ memory₂ message = .ok s') :
    Explained s s' (.backEnd memory₁ memory₂ message) l := by
  cases hpc : s.backEnd with
  | notStarted | exited =>
      simp only [AsyncLogging.advance, hpc] at hs
      cases hs
      exact h.explained rfl rfl (by simp [passed, hpc])
  | started =>
      obtain ⟨hrunning, hwrite⟩ : s.running_ = true ∧ s.buffersToWrite = [] := hinv.at_pc hpc
      simp only [AsyncLogging.advance, hpc, begin, if_pos hrunning] at hs
      cases hs
      refine Keeps.explained (h.same ?_ rfl rfl rfl (by simp [hpc]) (by simp)) rfl rfl
        (by simp [passed, hpc])
      simp [unwritten, hpc, hwrite]
  | test =>
      simp only [AsyncLogging.advance, hpc] at hs
      cases hs
      refine Keeps.explained (h.same ?_ rfl rfl rfl (by simp [hpc]) ?_) rfl rfl
        (by simp [passed, hpc])
      · cases hrunning : s.running_ <;> simp [unwritten, hpc]
      · cases hrunning : s.running_ <;> simp
  | lock =>
      have hready : s.Ready := hinv.at_pc hpc
      simp only [AsyncLogging.advance, hpc] at hs
      rw [enter_of_ready hready] at hs
      cases hs
      split
      · refine Keeps.explained (h.same ?_ rfl rfl rfl (by simp [hpc]) (by simp)) rfl rfl
          (by simp [passed, hpc])
        simp [unwritten, hpc]
      · exact Keeps.explained (h.swap hready (.inl hpc)) rfl rfl (by simp [passed, hpc])
  | wait =>
      simp only [AsyncLogging.advance, hpc] at hs
      cases hs
      exact Keeps.explained (h.swap (hinv.at_pc hpc) (.inr hpc)) rfl rfl (by simp [passed, hpc])
  | check =>
      simp only [AsyncLogging.advance, hpc] at hs
      exact h.check hinv hpc hs
  | write k =>
      simp only [AsyncLogging.advance, hpc] at hs
      exact h.write hinv hpc hs

theorem ledger_step {a : LogAction size} (h : s.Keeps l) (hinv : s.Inv)
    (hs : (runs size).step s a s') : Explained s s' a l := by
  cases a with
  | append logline memory => exact h.append hinv hs.2
  | start =>
      have hpc := enabled_start.1 hs.1
      cases hs.2
      refine Keeps.explained (h.same ?_ rfl rfl rfl (by simp [hpc]) (by simp)) rfl rfl rfl
      simp [unwritten, hpc]
  | stop =>
      cases hs.2
      refine Keeps.explained ?_ rfl rfl rfl
      exact ⟨h.waiting, h.buffers, h.current, h.appended, h.entries, h.found, h.toWrite⟩
  | backEnd memory₁ memory₂ message => exact h.advance hinv hs.2

theorem map_bytes_of_contains {ps : List (BufferPtr size)} {ls : List (List Bytes)}
    (h : List.Forall₂ Contains ps ls) : ps.map bytes = ls.map List.flatten := by
  induction h with
  | nil => rfl
  | cons hcontains _ ih => rw [List.map_cons, List.map_cons, hcontains, ih]

/-- The `LogFile` has not been made. -/
def BeforeFile (s : AsyncLogging size) : Prop := s.backEnd = .notStarted ∨ s.backEnd = .started

theorem beforeFile_append {logline : Bytes} {memory : Memory size} (hinv : s.Inv)
    (happend : s.append logline memory = .ok s') (h : s'.BeforeFile) : s.BeforeFile := by
  have hpc : s'.backEnd = s.backEnd := by
    obtain ⟨current, hcurrent⟩ := Option.isSome_iff_exists.1 hinv.current
    by_cases hroom : logline.length < current.avail
    · rw [append_room hcurrent hroom] at happend
      cases happend
      rfl
    · rw [append_full hcurrent hroom] at happend
      cases happend
      rfl
  simpa only [BeforeFile, hpc] using h

/-- The thread never comes back to its start. -/
theorem not_beforeFile_advance {memory₁ memory₂ : Memory size} {message : Bytes} (hinv : s.Inv)
    (henabled : s.backEnd ≠ .notStarted) (hexited : s.backEnd ≠ .exited)
    (hadvance : s.advance memory₁ memory₂ message = .ok s') : ¬ s'.BeforeFile := by
  intro h
  cases hpc : s.backEnd with
  | notStarted => exact henabled hpc
  | exited => exact hexited hpc
  | started =>
      simp only [AsyncLogging.advance, hpc, begin, if_pos (hinv.at_pc hpc).1] at hadvance
      cases hadvance
      rcases h with h | h <;> cases h
  | test =>
      simp only [AsyncLogging.advance, hpc] at hadvance
      cases hadvance
      cases hrunning : s.running_ <;> simp [BeforeFile, hrunning] at h
  | lock =>
      have hready : s.Ready := hinv.at_pc hpc
      simp only [AsyncLogging.advance, hpc] at hadvance
      rw [enter_of_ready hready] at hadvance
      cases hadvance
      split at h
      · rcases h with h | h <;> cases h
      · cases hnext : s.nextBuffer_ <;> simp [BeforeFile, AsyncLogging.swap, hnext] at h
  | wait =>
      simp only [AsyncLogging.advance, hpc] at hadvance
      cases hadvance
      cases hnext : s.nextBuffer_ <;> simp [BeforeFile, AsyncLogging.swap, hnext] at h
  | check =>
      simp only [AsyncLogging.advance, hpc, AsyncLogging.check] at hadvance
      split at hadvance
      · cases hadvance
      · cases hadvance
        split at h <;> rcases h with h | h <;> cases h
  | write k =>
      have hloaded : s.Loaded := hinv.at_pc hpc
      simp only [AsyncLogging.advance, hpc] at hadvance
      cases hk : s.buffersToWrite[k]? with
      | none =>
          obtain ⟨b₁, b₂, -, -, hrecycle⟩ := recycle_of_loaded hloaded
          rw [write_none hk, hrecycle] at hadvance
          cases hadvance
          rcases h with h | h <;> cases h
      | some p =>
          cases p with
          | none => exact hloaded.2.2.1 (List.mem_of_getElem? hk)
          | some b =>
              rw [write_some hk] at hadvance
              cases hadvance
              rcases h with h | h <;> cases h

theorem beforeFile_of_step {a : LogAction size} (hinv : s.Inv) (hs : (runs size).step s a s')
    (h : s'.BeforeFile) : s.BeforeFile ∧ ∀ memory₁ memory₂ message,
      a ≠ .backEnd memory₁ memory₂ message := by
  cases a with
  | append logline memory => exact ⟨beforeFile_append hinv hs.2 h, nofun⟩
  | start => exact ⟨.inl (enabled_start.1 hs.1), nofun⟩
  | stop =>
      cases hs.2
      exact ⟨h, nofun⟩
  | backEnd memory₁ memory₂ message =>
      obtain ⟨henabled, hadvance⟩ := hs
      refine absurd h (not_beforeFile_advance hinv ?_ ?_ hadvance)
      · intro hpc
        simp [enabled, hpc] at henabled
      · intro hpc
        simp [enabled, hpc] at henabled

end AsyncLogging

/-! ## The files -/

namespace LogPipeline

open AsyncLogging (Explained)

variable {size : Nat} {setup : LogSetup} {s s' : LogPipeline size} {l : Ledger}

def Piece (logline : Bytes) (entries : List Entry) : Prop := logline = entries.flatMap Entry.bytes

structure Inv (setup : LogSetup) (s : LogPipeline size) (l : Ledger) : Prop where
  async : s.async.Inv
  keeps : s.async.Keeps l
  messages : ∀ b ∈ l.batches, ∃ now, b.message = dropMessage now (b.buffers size).length
  unopened : s.async.BeforeFile → s.output = none
  pieces : List.Forall₂ Piece (s.output.elim [] LogFile.appended) l.wrote
  output : ∀ file, s.output = some file → (LogFile.runs setup.getLogFileName).Reachable file

/-- A step of the back end passes on what its ledger says, or makes the file. -/
theorem nextOutput_cases {a : PipelineAction size} {la : LogAction size} {output : Option LogFile}
    (ha : s.logAction a = some la) (h : s.nextOutput setup a = some output) :
    (s.async.passed la = none ∧ output = s.output) ∨
    (s.async.backEnd = .started ∧ s.async.passed la = none ∧ ∃ file, output = some file ∧
      file.appended = [] ∧ (LogFile.runs setup.getLogFileName).Reachable file) ∨
    ∃ logline file file' opened, s.async.passed la = some logline ∧ s.output = some file ∧
      file.append setup.getLogFileName logline opened = some file' ∧ output = some file' := by
  cases a with
  | roll time => cases ha
  | append | start | stop =>
      cases ha
      cases h
      exact .inl ⟨rfl, rfl⟩
  | backEnd memory₁ memory₂ now opened time =>
      cases ha
      simp only [nextOutput] at h
      split at h
      next hpc =>
        obtain ⟨hopened, h⟩ := Option.ite_none_right_eq_some.1 h
        obtain ⟨file, hfile, rfl⟩ := Option.map_eq_some_iff.1 h
        refine .inr (.inl ⟨hpc, by simp [AsyncLogging.passed, hpc], file, rfl, ?_, ?_⟩)
        all_goals
          simp only [LogFile.threadFuncOutput, Option.bind_eq_bind, Option.bind_eq_some_iff,
            Option.pure_def, Option.some.injEq] at hfile
          obtain ⟨shift, -, rollTime, -, rfl⟩ := hfile
        · simp [LogFile.construct, LogFile.rollFile, hopened]
        · exact .init ⟨_, _, _, _, _, hopened, rfl⟩
      next hpc =>
        split at h
        next hpassed =>
          cases h
          exact .inl ⟨hpassed, rfl⟩
        next logline hpassed =>
          split at h
          next => cases h
          next file hfile =>
            obtain ⟨file', happend, rfl⟩ := Option.map_eq_some_iff.1 h
            exact .inr (.inr ⟨logline, file, file', opened, hpassed, hfile, happend, rfl⟩)

theorem rollFile_appended (file : LogFile) (time : Int) :
    (file.rollFile setup.getLogFileName time).1.appended = file.appended := by
  rcases LogFile.rollFile_cases setup.getLogFileName file time with ⟨_, _, _, happended⟩ | hsame
  · exact happended
  · rw [hsame]

theorem append_appended {file file' : LogFile} {logline : Bytes} {opened : Int}
    (h : file.append setup.getLogFileName logline opened = some file') :
    file'.appended = file.appended ++ [logline] := by
  simp only [LogFile.append, Option.bind_eq_bind, Option.bind_eq_some_iff, Option.pure_def,
    Option.some.injEq] at h
  obtain ⟨open_, -, rfl⟩ := h
  split_ifs
  · exact rollFile_appended _ _
  · rfl

/-- A step of the front end or of the back end. -/
theorem Inv.log_step (h : Inv setup s l) {la : LogAction size} {async : AsyncLogging size}
    (hasync : (AsyncLogging.runs size).step s.async la async) {a : PipelineAction size}
    (ha : s.logAction a = some la) {output : Option LogFile}
    (houtput : s.nextOutput setup a = some output) : ∃ l', Inv setup ⟨async, output⟩ l' := by
  obtain ⟨l', piece, hkeeps, hwrote, hpassed, hbatches⟩ :=
    AsyncLogging.ledger_step h.keeps h.async hasync
  refine ⟨l', h.async.step hasync, hkeeps, ?_, ?_, ?_, ?_⟩
  · intro b hb
    rcases hbatches b hb with hold | ⟨memory₁, memory₂, rfl, hcount⟩
    · exact h.messages b hold
    · cases a with
      | backEnd memory₁ memory₂ now opened time =>
          simp only [logAction, Option.some.injEq, LogAction.backEnd.injEq] at ha
          exact ⟨now, by rw [hcount, ha.2.2]⟩
      | append | start | stop | roll => cases ha
  · intro hbefore
    obtain ⟨hbefore', hnot⟩ := AsyncLogging.beforeFile_of_step h.async hasync hbefore
    cases a with
    | backEnd memory₁ memory₂ now opened time =>
        cases ha
        exact absurd rfl (hnot _ _ _)
    | roll time => cases ha
    | append | start | stop =>
        cases houtput
        exact h.unopened hbefore'
  · have hpieces := h.pieces
    rw [hwrote]
    rcases nextOutput_cases ha houtput with
      ⟨hnone, rfl⟩ | ⟨hpc, hnone, file, rfl, hfile, -⟩ |
        ⟨logline, file, file', opened, hsome, hfile, happend, rfl⟩
    · rw [hpassed, Option.map_eq_none_iff] at hnone
      simpa [hnone] using hpieces
    · rw [hpassed, Option.map_eq_none_iff] at hnone
      rw [h.unopened (.inr hpc)] at hpieces
      simpa [hnone, hfile] using hpieces
    · rw [hpassed, Option.map_eq_some_iff] at hsome
      obtain ⟨entries, rfl, hentries⟩ := hsome
      rw [hfile] at hpieces
      change List.Forall₂ Piece file'.appended _
      rw [append_appended happend]
      exact List.rel_append hpieces (.cons hentries.symm .nil)
  · intro f hf
    rcases nextOutput_cases ha houtput with
      ⟨-, rfl⟩ | ⟨-, -, file, rfl, -, hfile⟩ | ⟨logline, file, file', opened, -, hfile, happend, rfl⟩
    · exact h.output f hf
    · cases hf
      exact hfile
    · cases hf
      exact .step (a := .append logline opened) (h.output file hfile) happend

theorem Inv.roll (h : Inv setup s l) (time : Int) :
    Inv setup ⟨s.async, s.output.map fun file => (file.rollFile setup.getLogFileName time).1⟩ l := by
  refine ⟨h.async, h.keeps, h.messages, fun hbefore => ?_, ?_, ?_⟩
  · simp [h.unopened hbefore]
  · have hpieces := h.pieces
    cases hout : s.output with
    | none => simpa [hout] using hpieces
    | some file =>
        rw [hout] at hpieces
        simpa [rollFile_appended] using hpieces
  · intro f hf
    obtain ⟨file, hfile, rfl⟩ := Option.map_eq_some_iff.1 hf
    exact .step (a := .rollFile time) (h.output file hfile) rfl

theorem Inv.step (h : Inv setup s l) {a : PipelineAction size} (hs : s.next setup a = some s') :
    ∃ l', Inv setup s' l' := by
  simp only [next, Option.bind_eq_bind, Option.bind_eq_some_iff, Option.pure_def,
    Option.some.injEq] at hs
  obtain ⟨async, hasync, output, houtput, rfl⟩ := hs
  cases ha : s.logAction a with
  | none =>
      cases a with
      | roll time =>
          simp only [nextAsync, ha, Option.some.injEq] at hasync
          cases hasync
          cases houtput
          exact ⟨l, h.roll time⟩
      | append | start | stop | backEnd => cases ha
  | some la =>
      simp only [nextAsync, ha, Option.ite_none_right_eq_some] at hasync
      obtain ⟨henabled, hperform⟩ := hasync
      refine h.log_step ⟨henabled, ?_⟩ ha houtput
      cases hres : s.async.perform la with
      | error e => simp [hres, Except.toOption] at hperform
      | ok async' =>
          simp only [hres, Except.toOption, Option.some.injEq] at hperform
          rw [hperform]

theorem inv_of_reachable (h : (runs setup size).Reachable s) : ∃ l, Inv setup s l := by
  refine System.Reachable.invariant (P := fun s => ∃ l, Inv setup s l) ?_ ?_ h
  · rintro s ⟨memory₁, memory₂, rfl⟩
    refine ⟨{}, AsyncLogging.inv_constructed memory₁ memory₂, ?_, (by simp), fun _ => rfl, .nil,
      nofun⟩
    exact ⟨.nil, .nil, FixedBuffer.contents_eq_nil rfl, rfl, rfl, (by simp; nofun), fun _ => rfl⟩
  · rintro s a s' ⟨l, hl⟩ hs
    exact hl.step hs

theorem flatten_pieces {chunks : List Bytes} {entries : List (List Entry)}
    (h : List.Forall₂ Piece chunks entries) :
    chunks.flatten = entries.flatten.flatMap Entry.bytes := by
  induction h with
  | nil => rfl
  | cons hpiece _ ih => rw [List.flatten_cons, List.flatten_cons, List.flatMap_append, hpiece, ih]

/-- What is passed to the files one after the other falls into the files. -/
theorem regroup {groups : List (List Bytes)} {last : List Bytes} {wrote : List (List Entry)}
    (h : List.Forall₂ Piece (groups.flatten ++ last) wrote) :
    ∃ (closed : List (List (List Entry))) (rest : List (List Entry)),
      wrote = closed.flatten ++ rest ∧
      groups.map List.flatten = closed.map (fun calls => calls.flatten.flatMap Entry.bytes) ∧
      List.Forall₂ Piece last rest := by
  induction groups generalizing wrote with
  | nil => exact ⟨[], wrote, rfl, rfl, h⟩
  | cons group groups ih =>
      rw [List.flatten_cons, List.append_assoc] at h
      have hfirst := List.forall₂_take group.length h
      have hrest := List.forall₂_drop group.length h
      rw [List.take_left] at hfirst
      rw [List.drop_left] at hrest
      obtain ⟨closed, rest, heq, hclosed, hlast⟩ := ih hrest
      refine ⟨wrote.take group.length :: closed, rest, ?_, ?_, hlast⟩
      · calc wrote
            = wrote.take group.length ++ wrote.drop group.length := (List.take_append_drop _ _).symm
          _ = (wrote.take group.length :: closed).flatten ++ rest := by
            rw [heq, List.flatten_cons, List.append_assoc]
      · rw [List.map_cons, List.map_cons, hclosed, flatten_pieces hfirst]

/-- The ledger accounts for every appended line and for every byte of the files. -/
structure Accounts (s : LogPipeline size) (file : LogFile) (l : Ledger) : Prop where
  appended : s.async.appended = l.batches.flatMap Batch.appended ++ (l.found.getD [] ++ l.inFront)
  messages : ∀ b ∈ l.batches, ∃ now, b.message = dropMessage now (b.buffers size).length
  /-- What has been written and what is still to be, for each swap all of its buffers, or the notice
  and two. -/
  entries : l.wrote.flatten ++ l.toWrite.flatten.map .line = l.batches.flatMap (Batch.entries size)
  /-- Every call of `LogFile::append` has gone into one file. -/
  files : ∃ (closed : List (List (List Entry))) (last : List (List Entry)) (current : AppendFile),
    l.wrote = closed.flatten ++ last ∧
    file.closed.map AppendFile.contents =
      closed.map (fun calls => calls.flatten.flatMap Entry.bytes) ∧
    file.file_ = some current ∧ current.contents = last.flatten.flatMap Entry.bytes
  unwritten : s.async.unwritten.map AsyncLogging.bytes =
    ((l.found.map (cut size)).getD [] ++ l.toWrite).map List.flatten
  found : l.found.isSome = true ↔ s.async.backEnd = .check
  inFront : (s.async.buffers_ ++ [s.async.currentBuffer_]).map AsyncLogging.bytes =
    (cut size l.inFront).map List.flatten

def WholeLines (s : LogPipeline size) (file : LogFile) : Prop := ∃ l, s.Accounts file l

/-- However the threads run, wherever the files are rolled and however often the back end finds too
many buffers; and the buffers of a swap hold its lines, but for those that fit into none. -/
theorem whole_lines {file : LogFile} (h : (runs setup size).Reachable s)
    (hfile : s.output = some file) :
    s.WholeLines file ∧
      ∀ lines, (cut size lines).flatten = lines.filter fun line => line.length < size := by
  obtain ⟨l, hinv⟩ := inv_of_reachable h
  obtain ⟨current, groups, lastLines, hholds⟩ :=
    LogFile.wholeLines_of_reachable (hinv.output file hfile)
  have hpieces := hinv.pieces
  rw [hfile, Option.elim_some, ← hholds.appended] at hpieces
  obtain ⟨closed, last, hwrote, hclosed, hlast⟩ := regroup hpieces
  have hcontents : current.contents = last.flatten.flatMap Entry.bytes :=
    hholds.contents.trans (flatten_pieces hlast)
  have hfront : List.Forall₂ AsyncLogging.Contains
      (s.async.buffers_ ++ [s.async.currentBuffer_]) (cut size l.inFront) :=
    List.rel_append hinv.keeps.buffers (.cons hinv.keeps.current .nil)
  exact ⟨⟨l, {
    appended := hinv.keeps.appended
    messages := hinv.messages
    entries := hinv.keeps.entries
    files := ⟨closed, last, current, hwrote, hholds.closed.trans hclosed, hholds.file_, hcontents⟩
    unwritten := AsyncLogging.map_bytes_of_contains hinv.keeps.waiting
    found := hinv.keeps.found
    inFront := AsyncLogging.map_bytes_of_contains hfront }⟩, flatten_cut size⟩

/-- Files of 40 bytes. -/
def smallFiles : LogSetup where
  getLogFileName basename _ := basename
  basename_ := [108]
  rollSize_ := 40
  rollTime_ := 0
  timeZone_ := 0

/-- Buffers of two bytes hold one letter each.  Of 26 letters the first two are kept, and the notice
fills the first file. -/
theorem whole_lines_overrun : ∃ s file, (runs smallFiles 2).Reachable s ∧ s.output = some file ∧
    file.closed.map AppendFile.contents = [dropMessage ⟨0⟩ 26] ∧
    file.file_.map AppendFile.contents = some [97, 98] ∧ s.WholeLines file := by
  let memory : Memory 2 := ⟨[0, 0], rfl⟩
  have hrun : (System.runAll (next smallFiles) ⟨.constructed memory memory, none⟩
      ([.start, .backEnd memory memory ⟨0⟩ 1 1] ++
        (List.range 26).map (fun i => .append [UInt8.ofNat (97 + i)] memory) ++
        (List.range 5).map (fun i => .backEnd memory memory ⟨0⟩ (i + 2) 1))).map
      (fun s => s.output.map fun file =>
        (file.closed.map AppendFile.contents, file.file_.map AppendFile.contents)) =
      some (some ([dropMessage ⟨0⟩ 26], some [97, 98])) := by decide +kernel
  obtain ⟨s, hs, hout⟩ := Option.map_eq_some_iff.1 hrun
  obtain ⟨file, hfile, heq⟩ := Option.map_eq_some_iff.1 hout
  simp only [Prod.mk.injEq] at heq
  have hreach : (runs smallFiles 2).Reachable s :=
    .of_runAll (fun _ _ _ h => h) (.init ⟨memory, memory, rfl⟩) hs
  exact ⟨s, file, hreach, hfile, heq.1, heq.2, (whole_lines hreach hfile).1⟩

end LogPipeline
end Base
end Longky
