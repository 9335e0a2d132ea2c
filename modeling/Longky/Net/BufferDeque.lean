import Mathlib.Data.Option.Basic
import Mathlib.Logic.Function.Basic
import Longky.Lib.Refinement
import Longky.Net.Buffer

/-!
# BufferDeque — `Buffer` refines a byte deque

The abstract state is a family of byte deques, one for each buffer a program has constructed; the
concrete state is the family of `Buffer` objects.  `Op` lists the operations a client can issue.
`Op.spec` says what an operation means for the deques: `append` pushes at the back, `prepend` at
the front, `retrieve` pops at the front, `unwrite` at the back, and `ensureWritableBytes` and
`shrink` change nothing.

`buffer_refines_deque` is the refinement over whole programs.
-/

namespace Longky
namespace Net
namespace BufferDeque

open Lib Lib.Refinement

variable {ι : Type} [DecidableEq ι]

/-! ## Programs over buffers -/

inductive Op (ι : Type) where
  | construct (i : ι) (initialSize : Nat)
  | append (i : ι) (data : Bytes)
  | prepend (i : ι) (data : Bytes)
  /-- The client stores `data` at `beginWrite()` and calls `hasWritten(data.size())`. -/
  | hasWritten (i : ι) (data : Bytes)
  | unwrite (i : ι) (len : Nat)
  | retrieve (i : ι) (len : Nat)
  | retrieveAll (i : ι)
  | retrieveAsString (i : ι) (len : Nat)
  /-- The pointer argument is given by its distance from `peek()`. -/
  | retrieveUntil (i : ι) (offset : Nat)
  | ensureWritableBytes (i : ι) (len : Nat)
  | shrink (i : ι) (reserve : Nat)
  | swap (i j : ι)

/-- The buffers a program has constructed, by name. -/
abbrev Buffers (ι : Type) := ι → Option Buffer

/-- The abstract state: one deque of bytes for each constructed buffer. -/
abbrev Deques (ι : Type) := ι → Option Bytes

/-- Apply a buffer function to the buffer called `i`. -/
def onBuffer (s : Buffers ι) (i : ι) (f : Buffer → Option Buffer) :
    Option (Buffers ι × Option Bytes) := do
  let b ← s i
  let b' ← f b
  return (Function.update s i (some b'), none)

/-- Apply a list function to the deque called `i`. -/
def onDeque (d : Deques ι) (i : ι) (g : Bytes → Bytes) : Deques ι :=
  Function.update d i ((d i).map g)

namespace Op

/-- One call; the second component is the string that `retrieveAsString` returns. -/
def step : Op ι → Buffers ι → Option (Buffers ι × Option Bytes)
  | construct i initialSize, s =>
      some (Function.update s i (some (Buffer.construct initialSize)), none)
  | append i data, s => onBuffer s i fun b => b.append data
  | prepend i data, s => onBuffer s i fun b => b.prepend data
  | hasWritten i data, s => onBuffer s i fun b => (b.writeAtEnd data).hasWritten data.length
  | unwrite i len, s => onBuffer s i fun b => b.unwrite len
  | retrieve i len, s => onBuffer s i fun b => b.retrieve len
  | retrieveAll i, s => onBuffer s i fun b => some b.retrieveAll
  | retrieveAsString i len, s => do
      let b ← s i
      let (result, b') ← b.retrieveAsString len
      return (Function.update s i (some b'), some result)
  | retrieveUntil i offset, s =>
      onBuffer s i fun b => b.retrieveUntil (b.readerIndex_ + offset)
  | ensureWritableBytes i len, s => onBuffer s i fun b => b.ensureWritableBytes len
  | shrink i reserve, s => onBuffer s i fun b => b.shrink reserve
  | swap i j, s => do
      let a ← s i
      let b ← s j
      return (Function.update (Function.update s i (some b)) j (some a), none)

/-- What the operation's own `assert`s ask of the buffer it is called on. -/
def asserted : Op ι → Buffer → Bool
  | prepend _ data, b => data.length ≤ b.prependableBytes
  | hasWritten _ data, b => data.length ≤ b.writableBytes
  | unwrite _ len, b => len ≤ b.readableBytes
  | retrieve _ len, b => len ≤ b.readableBytes
  | retrieveAsString _ len, b => len ≤ b.readableBytes
  | retrieveUntil _ offset, b => b.readerIndex_ + offset ≤ b.writerIndex_
  | _, _ => true

/-- The buffers an operation is called on. -/
def operands : Op ι → List ι
  | construct _ _ => []
  | append i _ | prepend i _ | hasWritten i _ | unwrite i _ | retrieve i _ | retrieveAll i
  | retrieveAsString i _ | retrieveUntil i _ | ensureWritableBytes i _ | shrink i _ => [i]
  | swap i j => [i, j]

/-- The operands exist and are below 2 GiB, and the operation's own `assert`s hold. -/
def Pre (op : Op ι) (s : Buffers ι) : Prop :=
  ∀ i ∈ op.operands, (s i).any fun b => b.buffer_.length < 2 ^ 31 && op.asserted b

instance (op : Op ι) (s : Buffers ι) : Decidable (op.Pre s) :=
  inferInstanceAs (Decidable (∀ i ∈ op.operands, _))

omit [DecidableEq ι] in
theorem Pre.operand {op : Op ι} {s : Buffers ι} (h : op.Pre s) {i : ι} (hi : i ∈ op.operands) :
    ∃ b, s i = some b ∧ b.buffer_.length < 2 ^ 31 ∧ op.asserted b := by
  rcases (Option.any_eq_true _ _).1 (h i hi) with ⟨b, hb, hand⟩
  simp only [Bool.and_eq_true, decide_eq_true_eq] at hand
  exact ⟨b, hb, hand⟩

/-- The meaning of an operation for the deques. -/
def spec : Op ι → Deques ι → Deques ι × Option Bytes
  | construct i _, d => (Function.update d i (some []), none)
  | append i data, d => (onDeque d i (· ++ data), none)
  | prepend i data, d => (onDeque d i (data ++ ·), none)
  | hasWritten i data, d => (onDeque d i (· ++ data), none)
  | unwrite i len, d => (onDeque d i fun q => q.take (q.length - len), none)
  | retrieve i len, d => (onDeque d i (List.drop len), none)
  | retrieveAll i, d => (onDeque d i fun _ => [], none)
  | retrieveAsString i len, d => (onDeque d i (List.drop len), (d i).map (List.take len))
  | retrieveUntil i offset, d => (onDeque d i (List.drop offset), none)
  | ensureWritableBytes _ _, d => (d, none)
  | shrink _ _, d => (d, none)
  | swap i j, d => (Function.update (Function.update d i (d j)) j (d i), none)

end Op

/-! ## The refinement relation -/

/-- A buffer that keeps its invariant and holds the bytes of a deque. -/
def Represents (b : Buffer) (q : Bytes) : Prop :=
  b.Inv ∧ b.readable = q

/-- The same names are in use, and each buffer represents its deque. -/
def Abstracts (s : Buffers ι) (d : Deques ι) : Prop :=
  ∀ i, Option.Rel Represents (s i) (d i)

theorem Abstracts.update {s : Buffers ι} {d : Deques ι} (h : Abstracts s d) (i : ι) {b : Buffer}
    {q : Bytes} (hb : Represents b q) :
    Abstracts (Function.update s i (some b)) (Function.update d i (some q)) := by
  intro j
  by_cases hj : j = i
  · subst hj
    simpa using Option.Rel.some hb
  · simpa [hj] using h j

omit [DecidableEq ι] in
/-- The deque of an operand that exists. -/
theorem Abstracts.exists_deque {s : Buffers ι} {d : Deques ι} (h : Abstracts s d) {i : ι}
    {b : Buffer} (hb : s i = some b) : ∃ q, d i = some q ∧ b.Inv ∧ b.readable = q := by
  have hi := h i
  rw [hb] at hi
  cases hq : d i with
  | none =>
      rw [hq] at hi
      cases hi
  | some q =>
      rw [hq] at hi
      cases hi with
      | some hr => exact ⟨q, rfl, hr.1, hr.2⟩

/-- Lift what a buffer function does to one buffer to the family. -/
theorem onBuffer_refines {s : Buffers ι} {d : Deques ι} (h : Abstracts s d) {i : ι} {b : Buffer}
    (hb : s i = some b) {f : Buffer → Option Buffer} {g : Bytes → Bytes}
    (hf : b.Inv → ∃ b', f b = some b' ∧ b'.Inv ∧ b'.readable = g b.readable) :
    ∃ s', onBuffer s i f = some (s', none) ∧ Abstracts s' (onDeque d i g) := by
  rcases h.exists_deque hb with ⟨q, hq, hinv, hread⟩
  rcases hf hinv with ⟨b', hb', hinv', hread'⟩
  refine ⟨Function.update s i (some b'), ?_, ?_⟩
  · simp [onBuffer, hb, hb']
  · have : Represents b' (g q) := ⟨hinv', by rw [hread', hread]⟩
    simpa [onDeque, hq] using h.update i this

/-- Functions that keep the readable bytes change no deque. -/
theorem onBuffer_refines_same {s : Buffers ι} {d : Deques ι} (h : Abstracts s d) {i : ι}
    {b : Buffer} (hb : s i = some b) {f : Buffer → Option Buffer}
    (hf : b.Inv → ∃ b', f b = some b' ∧ b'.Inv ∧ b'.readable = b.readable) :
    ∃ s', onBuffer s i f = some (s', none) ∧ Abstracts s' d := by
  rcases onBuffer_refines h hb (g := id) hf with ⟨s', hs', habs⟩
  refine ⟨s', hs', ?_⟩
  simpa [onDeque] using habs

/-- One operation: no `assert` fails, and the deques follow the specification. -/
theorem step_refines (op : Op ι) (s : Buffers ι) (d : Deques ι) (h : Abstracts s d)
    (hpre : op.Pre s) : StepRefines Op.step Op.spec Abstracts op s d := by
  -- one specification of `Buffer` for each operation; only `retrieveAsString` returns something, and
  -- only `swap` has two operands
  cases op with
  | construct i initialSize =>
      exact ⟨_, rfl, h.update i ⟨Buffer.construct_inv initialSize, Buffer.readable_construct _⟩⟩
  | append i data =>
      obtain ⟨b, hb, -, -⟩ := hpre.operand (i := i) (by simp [Op.operands])
      exact onBuffer_refines h hb fun hinv => Buffer.append_spec hinv data
  | prepend i data =>
      obtain ⟨b, hb, -, hlen⟩ := hpre.operand (i := i) (by simp [Op.operands])
      exact onBuffer_refines h hb fun hinv => Buffer.prepend_spec hinv (of_decide_eq_true hlen)
  | hasWritten i data =>
      obtain ⟨b, hb, -, hlen⟩ := hpre.operand (i := i) (by simp [Op.operands])
      exact onBuffer_refines h hb fun hinv => Buffer.hasWritten_spec hinv (of_decide_eq_true hlen)
  | unwrite i len =>
      obtain ⟨b, hb, -, hlen⟩ := hpre.operand (i := i) (by simp [Op.operands])
      exact onBuffer_refines h hb fun hinv => Buffer.unwrite_spec hinv (of_decide_eq_true hlen)
  | retrieve i len =>
      obtain ⟨b, hb, -, hlen⟩ := hpre.operand (i := i) (by simp [Op.operands])
      exact onBuffer_refines h hb fun hinv => Buffer.retrieve_spec hinv (of_decide_eq_true hlen)
  | retrieveAll i =>
      obtain ⟨b, hb, -, -⟩ := hpre.operand (i := i) (by simp [Op.operands])
      exact onBuffer_refines h hb fun hinv =>
        ⟨b.retrieveAll, rfl, Buffer.retrieveAll_inv hinv, Buffer.readable_retrieveAll b⟩
  | retrieveAsString i len =>
      obtain ⟨b, hb, -, hlen⟩ := hpre.operand (i := i) (by simp [Op.operands])
      rcases h.exists_deque hb with ⟨q, hq, hinv, hread⟩
      obtain ⟨b', hb', hinv', hread'⟩ := Buffer.retrieveAsString_spec hinv (of_decide_eq_true hlen)
      refine ⟨Function.update s i (some b'), ?_, ?_⟩
      · simp [Op.step, Op.spec, hb, hb', hq, hread]
      · have : Represents b' (q.drop len) := ⟨hinv', by rw [hread', hread]⟩
        simpa [Op.spec, onDeque, hq] using h.update i this
  | retrieveUntil i offset =>
      obtain ⟨b, hb, -, hlen⟩ := hpre.operand (i := i) (by simp [Op.operands])
      refine onBuffer_refines h hb fun hinv => ?_
      simpa using Buffer.retrieveUntil_spec hinv (Nat.le_add_right _ offset) (of_decide_eq_true hlen)
  | ensureWritableBytes i len =>
      obtain ⟨b, hb, -, -⟩ := hpre.operand (i := i) (by simp [Op.operands])
      refine onBuffer_refines_same h hb fun hinv => ?_
      rcases Buffer.ensureWritableBytes_spec hinv len with ⟨b', hb', hinv', hread', -⟩
      exact ⟨b', hb', hinv', hread'⟩
  | shrink i reserve =>
      obtain ⟨b, hb, hsize, -⟩ := hpre.operand (i := i) (by simp [Op.operands])
      refine onBuffer_refines_same h hb fun hinv => Buffer.shrink_spec hinv reserve ?_
      have := hinv.writer_le_size
      unfold Buffer.readableBytes
      omega
  | swap i j =>
      obtain ⟨a, ha, -, -⟩ := hpre.operand (i := i) (by simp [Op.operands])
      obtain ⟨b, hb, -, -⟩ := hpre.operand (i := j) (by simp [Op.operands])
      rcases h.exists_deque ha with ⟨p, hp, hrepA⟩
      rcases h.exists_deque hb with ⟨q, hq, hrepB⟩
      refine ⟨Function.update (Function.update s i (some b)) j (some a), ?_, ?_⟩
      · simp [Op.step, Op.spec, ha, hb]
      · simpa [Op.spec, hp, hq] using (h.update i hrepB).update j hrepA

/-! ## Whole programs -/

/-- Every program over buffers whose calls meet their own `assert`s runs without failing any
`assert`, keeps the invariant of every buffer, and shows and returns exactly the bytes of the
deques under the same operations. -/
theorem buffer_refines_deque (ops : List (Op ι))
    (hadm : Admissible Op.step Op.Pre ops fun _ => none) :
    ∃ s : Buffers ι,
      run Op.step ops (fun _ => none) = some (s, (specRun Op.spec ops fun _ => none).2) ∧
      (∀ i b, s i = some b →
        b.readerIndex_ ≤ b.writerIndex_ ∧ b.writerIndex_ ≤ b.buffer_.length ∧
          Buffer.kCheapPrepend ≤ b.buffer_.length) ∧
      ∀ i, (s i).map Buffer.readable = (specRun Op.spec ops fun _ => none).1 i := by
  obtain ⟨s, hs, habs⟩ :=
    run_refines step_refines ops (fun _ => none) (fun _ => none) (fun _ => Option.Rel.none) hadm
  refine ⟨s, hs, ?_, ?_⟩
  · intro i b hb
    rcases habs.exists_deque hb with ⟨q, -, hinv, -⟩
    exact ⟨hinv.reader_le_writer, hinv.writer_le_size, hinv.prepend_le_size⟩
  · intro i
    cases hb : s i with
    | none =>
        have hi := habs i
        rw [hb] at hi
        cases hd : (specRun Op.spec ops fun _ => none).1 i with
        | none => rfl
        | some q =>
            rw [hd] at hi
            cases hi
    | some b =>
        rcases habs.exists_deque hb with ⟨q, hq, -, hread⟩
        simp [hq, hread]

/-- A program that grows and compacts a buffer, prepends into the cheap area, swaps and shrinks. -/
def sampleProgram : List (Op Bool) :=
  [.construct false 4, .append false [1, 2, 3], .retrieve false 2, .ensureWritableBytes false 3,
    .hasWritten false [4, 5, 6], .prepend false [9], .construct true 0, .append true [7, 7],
    .swap false true, .unwrite true 1, .retrieveAsString true 2, .shrink true 1]

theorem sampleProgram_admissible : Admissible Op.step Op.Pre sampleProgram fun _ => none := by
  decide +kernel

theorem buffer_refines_deque_sampleProgram :
    Admissible Op.step Op.Pre sampleProgram (fun _ => none) ∧
    ∃ s : Buffers Bool,
      run Op.step sampleProgram (fun _ => none) =
        some (s, (specRun Op.spec sampleProgram fun _ => none).2) ∧
      (∀ i b, s i = some b →
        b.readerIndex_ ≤ b.writerIndex_ ∧ b.writerIndex_ ≤ b.buffer_.length ∧
          Buffer.kCheapPrepend ≤ b.buffer_.length) ∧
      ∀ i, (s i).map Buffer.readable = (specRun Op.spec sampleProgram fun _ => none).1 i :=
  ⟨sampleProgram_admissible, buffer_refines_deque sampleProgram sampleProgram_admissible⟩

end BufferDeque
end Net
end Longky
