import Mathlib.Data.Fintype.Basic
import Mathlib.Data.List.Induction
import Mathlib.Logic.Function.Basic
import Longky.Lib.Bytes
import Longky.Lib.Reach
import Longky.Lib.Storage

/-!
# ConfigFile — the cache fillers' updates of the configuration file

The block of `Parser::responseRequest` (`webServer/requestParser.cpp`) that records the size of a
cached file: `YAML::LoadFile`, an `ofstream` on the same path, which truncates it, and `fout <<
config`.  The workers share the file and take no lock, so their steps interleave, and the text of a
document reaches the file in as many pieces as the stream makes of it.

`emit` and `parse` are yaml-cpp's text output and input.  The first text need not be one of `emit`: a
configuration file is written by hand.
-/

namespace Longky
namespace Web

open Lib

/-! ## Documents -/

/-- The keys from the top of a document to a scalar. -/
abbrev KeyPath := List Bytes

/-- The scalars of a document with their places, in order. -/
abbrev Document := List (KeyPath × Bytes)

namespace Document

def get : Document → KeyPath → Option Bytes
  | [], _ => none
  | (k', v) :: d, k => if k' = k then some v else get d k

/-- `config[..][..] = v`: in place, or at the end. -/
def set : Document → KeyPath → Bytes → Document
  | [], k, v => [(k, v)]
  | (k', v') :: d, k, v => if k' = k then (k, v) :: d else (k', v') :: set d k v

theorem get_set_self (d : Document) (k : KeyPath) (v : Bytes) : (d.set k v).get k = some v := by
  induction d with
  | nil => simp [set, get]
  | cons e d ih =>
      simp only [set]
      split
      · simp [get]
      · rename_i hne
        simp [get, hne, ih]

theorem get_set_of_ne (d : Document) {k k' : KeyPath} (hne : k' ≠ k) (v : Bytes) :
    (d.set k v).get k' = d.get k' := by
  induction d with
  | nil => simp [set, get, Ne.symm hne]
  | cons e d ih =>
      simp only [set]
      split
      · rename_i heq
        simp [get, heq, Ne.symm hne]
      · simp [get, ih]

/-- The document `d'` has all keys of `d`. -/
def Covers (d' d : Document) : Prop := ∀ k, (d.get k).isSome → (d'.get k).isSome

theorem Covers.set {d d' : Document} (h : d'.Covers d) (k : KeyPath) (v : Bytes) :
    (d'.set k v).Covers d := by
  intro k' hk'
  by_cases heq : k' = k
  · subst heq
    simp [get_set_self]
  · rw [get_set_of_ne d' heq]
    exact h k' hk'

end Document

/-! ## Workers -/

/-- What the workers `W` are recording: each the size of one VIP file under its digest. -/
structure Fills (W : Type*) where
  md5 : W → Bytes
  size : W → Int
  /-- The files are different, and so are their digests. -/
  md5_injective : Function.Injective md5

namespace Fills

variable {W : Type*}

def key (fills : Fills W) (w : W) : KeyPath := [Bytes.ofString "zlibMap", fills.md5 w]

def value (fills : Fills W) (w : W) : Bytes := Bytes.ofString (toString (fills.size w))

/-- `config["zlibMap"][md5] = size`. -/
def record (fills : Fills W) (d : Document) (w : W) : Document :=
  d.set (fills.key w) (fills.value w)

theorem key_injective (fills : Fills W) : Function.Injective fills.key := by
  intro w w' h
  have hmd5 : fills.md5 w = fills.md5 w' := by simpa [key] using h
  exact fills.md5_injective hmd5

end Fills

/-- yaml-cpp's `<<` and `LoadFile`; the latter throws on what is not a document. -/
structure Yaml where
  emit : Document → Bytes
  parse : Bytes → Option Document

inductive FillPhase where
  | start
  /-- Behind `LoadFile`. -/
  | loaded (config : Document)
  /-- The stream is open and `offset` bytes of the text have been written. -/
  | writing (text : Bytes) (offset : Nat)
  | done
  /-- An exception has left `responseRequest`. -/
  | threw
  deriving DecidableEq, Repr

namespace FillPhase

/-- The text is not partly written. -/
def Whole : FillPhase → Prop
  | .writing text offset => offset = text.length
  | _ => True

/-- The file still holds the document that was loaded. -/
def Unchanged (yaml : Yaml) (file : Bytes) : FillPhase → Prop
  | .loaded config => yaml.parse file = some config
  | _ => True

instance : (phase : FillPhase) → Decidable phase.Whole
  | .writing text offset => inferInstanceAs (Decidable (offset = text.length))
  | .start | .loaded _ | .done | .threw => .isTrue trivial

instance (yaml : Yaml) (file : Bytes) : (phase : FillPhase) → Decidable (phase.Unchanged yaml file)
  | .loaded config => inferInstanceAs (Decidable (yaml.parse file = some config))
  | .start | .writing _ _ | .done | .threw => .isTrue trivial

end FillPhase

structure ConfigFile (W : Type*) where
  file : Bytes
  phase : W → FillPhase

inductive FillAction (W : Type*) where
  | loadFile (w : W)
  | openFile (w : W)
  | write (w : W) (n : Nat)
  | close (w : W)

namespace ConfigFile

variable {W : Type*}

/-- `write` at an offset of a file: a gap in front of it reads as zeros. -/
def writeAt (file : Bytes) (offset : Nat) (data : Bytes) : Bytes :=
  Storage.overwrite (file ++ List.replicate (offset - file.length) 0) offset data

section Steps

variable [DecidableEq W]

def goTo (s : ConfigFile W) (w : W) (phase : FillPhase) : ConfigFile W :=
  { s with phase := Function.update s.phase w phase }

/-- The steps of one worker, none where it cannot make that step. -/
def perform (yaml : Yaml) (fills : Fills W) (s : ConfigFile W) :
    FillAction W → Option (ConfigFile W)
  | .loadFile w =>
      match s.phase w with
      | .start =>
          match yaml.parse s.file with
          | some config => some (s.goTo w (.loaded config))
          | none => some (s.goTo w .threw)
      | _ => none
  | .openFile w =>
      match s.phase w with
      | .loaded config =>
          some ({ s with file := [] }.goTo w (.writing (yaml.emit (fills.record config w)) 0))
      | _ => none
  | .write w n =>
      match s.phase w with
      | .writing text offset =>
          if 0 < n ∧ offset + n ≤ text.length then
            some ({ s with file := writeAt s.file offset ((text.drop offset).take n) }.goTo w
              (.writing text (offset + n)))
          else none
      | _ => none
  | .close w =>
      match s.phase w with
      | .writing text offset => if offset = text.length then some (s.goTo w .done) else none
      | _ => none

/-- The runs from a configuration file with the text `text₀`. -/
def runs (yaml : Yaml) (fills : Fills W) (text₀ : Bytes) :
    System (ConfigFile W) (FillAction W) where
  init s := s = { file := text₀, phase := fun _ => .start }
  step s a s' := s.perform yaml fills a = some s'

end Steps

/-! ## What is kept -/

/-- No update is lost and no worker sees less than a whole document. -/
structure Kept (yaml : Yaml) (fills : Fills W) (d₀ : Document) (s : ConfigFile W) : Prop where
  loads : ∀ w config, s.phase w = .loaded config → config.Covers d₀
  noThrow : ∀ w, s.phase w ≠ .threw
  finished : (∀ w, s.phase w = .done) →
    ∃ d, yaml.parse s.file = some d ∧ d.Covers d₀ ∧
      ∀ w, d.get (fills.key w) = some (fills.value w)

/-- No text is partly written. -/
def Settled (s : ConfigFile W) : Prop := ∀ w, (s.phase w).Whole

theorem Settled.eq_length {s : ConfigFile W} (h : s.Settled) (w : W) {text : Bytes} {offset : Nat}
    (hw : s.phase w = .writing text offset) : offset = text.length := by
  have hwhole := h w
  rw [hw] at hwhole
  exact hwhole

theorem settled_of_eq_length {s : ConfigFile W}
    (h : ∀ w text offset, s.phase w = .writing text offset → offset = text.length) :
    s.Settled := by
  intro w
  cases hw : s.phase w with
  | writing text offset => exact h w text offset hw
  | _ => trivial

/-- A worker loads and truncates while no text is partly written, and it truncates only the document
it has loaded. -/
def Undisturbed (yaml : Yaml) (s : ConfigFile W) : FillAction W → Prop
  | .loadFile _ => s.Settled
  | .openFile w => s.Settled ∧ (s.phase w).Unchanged yaml s.file
  | .write _ _ => True
  | .close _ => True

instance [Fintype W] (yaml : Yaml) (s : ConfigFile W) :
    (a : FillAction W) → Decidable (s.Undisturbed yaml a)
  | .loadFile _ => inferInstanceAs (Decidable (∀ w, (s.phase w).Whole))
  | .openFile w =>
      inferInstanceAs (Decidable ((∀ w, (s.phase w).Whole) ∧ (s.phase w).Unchanged yaml s.file))
  | .write _ _ | .close _ => .isTrue trivial

/-! ## The invariant -/

section Invariant

variable {yaml : Yaml} {fills : Fills W} {d₀ : Document} {s : ConfigFile W}

/-- The documents that recording in some order makes of `d₀`. -/
def Produced (fills : Fills W) (d₀ d : Document) : Prop :=
  ∃ ws : List W, d = ws.foldl fills.record d₀

theorem Produced.record {d : Document} (h : Produced fills d₀ d) (w : W) :
    Produced fills d₀ (fills.record d w) := by
  rcases h with ⟨ws, rfl⟩
  exact ⟨ws ++ [w], by simp⟩

theorem Produced.covers {d : Document} (h : Produced fills d₀ d) : d.Covers d₀ := by
  rcases h with ⟨ws, rfl⟩
  induction ws using List.reverseRecOn with
  | nil => exact fun _ hk => hk
  | append_singleton ws w ih =>
      rw [List.foldl_append]
      exact ih.set _ _

/-- Whatever recording makes of `d₀` can be read back. -/
def RoundTrips (yaml : Yaml) (fills : Fills W) (d₀ : Document) : Prop :=
  ∀ d, Produced fills d₀ d → yaml.parse (yaml.emit d) = some d

/-- The file holds the document `d`, or the front of its text while one worker writes it. -/
structure Holds (yaml : Yaml) (fills : Fills W) (d₀ : Document) (s : ConfigFile W)
    (d : Document) : Prop where
  produced : Produced fills d₀ d
  recorded : ∀ w, s.phase w = .done ∨ (∃ text offset, s.phase w = .writing text offset) →
    d.get (fills.key w) = some (fills.value w)
  settled : s.Settled → yaml.parse s.file = some d
  partly : ∀ w text offset, s.phase w = .writing text offset → offset ≠ text.length →
    text = yaml.emit d ∧ s.file = text.take offset ∧
      ∀ w' text' offset', w' ≠ w → s.phase w' = .writing text' offset' → offset' = text'.length

/-- Every worker has loaded a whole document. -/
def Loads (fills : Fills W) (d₀ : Document) (s : ConfigFile W) : Prop :=
  ∀ w, s.phase w ≠ .threw ∧ ∀ config, s.phase w = .loaded config → Produced fills d₀ config

theorem Holds.start {text₀ : Bytes} (hparse : yaml.parse text₀ = some d₀) :
    Holds yaml fills d₀ { file := text₀, phase := fun _ => .start } d₀ where
  produced := ⟨[], rfl⟩
  recorded := by simp
  settled := fun _ => hparse
  partly := by simp

variable [DecidableEq W]

theorem phase_goTo (s : ConfigFile W) (w w' : W) (phase : FillPhase) :
    (s.goTo w phase).phase w' = if w' = w then phase else s.phase w' := by
  simp [goTo, Function.update_apply]

theorem Loads.goTo (h : Loads fills d₀ s) (w : W) {phase : FillPhase} (hthrow : phase ≠ .threw)
    (hload : ∀ config, phase = .loaded config → Produced fills d₀ config) :
    Loads fills d₀ (s.goTo w phase) := by
  intro w'
  rw [phase_goTo]
  split
  · exact ⟨hthrow, hload⟩
  · exact h w'

omit [DecidableEq W] in
/-- Recording one more size keeps those that are there. -/
theorem get_record (fills : Fills W) (d : Document) {w w' : W} (h : w' = w ∨
    d.get (fills.key w') = some (fills.value w')) :
    (fills.record d w).get (fills.key w') = some (fills.value w') := by
  by_cases hw : w' = w
  · subst hw
    exact Document.get_set_self _ _ _
  · have hkey : fills.key w' ≠ fills.key w := fun heq => hw (fills.key_injective heq)
    rw [Fills.record, Document.get_set_of_ne _ hkey]
    exact h.resolve_left hw

theorem Holds.loadFile {d : Document} (h : Holds yaml fills d₀ s d) (w : W)
    (hset : s.Settled) : Holds yaml fills d₀ (s.goTo w (.loaded d)) d := by
  refine { produced := h.produced, recorded := ?_, settled := fun _ => h.settled hset,
           partly := ?_ }
  · intro w' hw'
    rw [phase_goTo] at hw'
    split at hw'
    · simp at hw'
    · exact h.recorded w' hw'
  · intro w' text offset hw' hne
    rw [phase_goTo] at hw'
    split at hw'
    · cases hw'
    · exact absurd (hset.eq_length _ hw') hne

/-- The file is truncated and the text of the new document is going to be written. -/
theorem Holds.openFile {d : Document} (hround : RoundTrips yaml fills d₀)
    (h : Holds yaml fills d₀ s d) (w : W) (hset : s.Settled) :
    Holds yaml fills d₀
      ({ s with file := [] }.goTo w (.writing (yaml.emit (fills.record d w)) 0))
      (fills.record d w) := by
  refine { produced := h.produced.record w, recorded := ?_, settled := ?_, partly := ?_ }
  · intro w' hw'
    refine get_record fills d ?_
    rw [phase_goTo] at hw'
    split at hw'
    · exact Or.inl ‹_›
    · exact Or.inr (h.recorded w' hw')
  · intro hset'
    have hlen : 0 = (yaml.emit (fills.record d w)).length :=
      hset'.eq_length w (by simp [phase_goTo])
    -- the text is empty, as the file is
    have hemit : yaml.emit (fills.record d w) = [] := List.length_eq_zero_iff.1 hlen.symm
    have hback := hround _ (h.produced.record w)
    rw [hemit] at hback
    exact hback
  · intro w' text offset hw' hne
    rw [phase_goTo] at hw'
    split at hw'
    · rename_i heq
      cases hw'
      refine ⟨rfl, rfl, ?_⟩
      intro w'' text' offset' hne' hw''
      rw [phase_goTo, if_neg (heq ▸ hne')] at hw''
      exact hset.eq_length _ hw''
    · exact absurd (hset.eq_length _ hw') hne

theorem writeAt_take {text : Bytes} {offset n : Nat} (h : offset + n ≤ text.length) :
    writeAt (text.take offset) offset ((text.drop offset).take n) = text.take (offset + n) := by
  have hlen : (text.take offset).length = offset := by
    rw [List.length_take]
    omega
  have hdrop : (text.take offset).drop (offset + ((text.drop offset).take n).length) = [] := by
    apply List.drop_eq_nil_of_le
    omega
  rw [writeAt, hlen, Nat.sub_self, List.replicate_zero, List.append_nil, Storage.overwrite, hdrop,
    List.append_nil, List.take_take, Nat.min_self, List.take_add]

theorem Holds.write {d : Document} (hround : RoundTrips yaml fills d₀)
    (h : Holds yaml fills d₀ s d) {w : W} {n : Nat} {text : Bytes} {offset : Nat}
    (hphase : s.phase w = .writing text offset) (hn : 0 < n) (hle : offset + n ≤ text.length) :
    Holds yaml fills d₀
      ({ s with file := writeAt s.file offset ((text.drop offset).take n) }.goTo w
        (.writing text (offset + n))) d := by
  rcases h.partly w text offset hphase (by omega) with ⟨htext, hfile, hothers⟩
  have hnew : writeAt s.file offset ((text.drop offset).take n) = text.take (offset + n) := by
    rw [hfile, writeAt_take hle]
  refine { produced := h.produced, recorded := ?_, settled := ?_, partly := ?_ }
  · intro w' hw'
    apply h.recorded
    rw [phase_goTo] at hw'
    split at hw'
    · rename_i heq
      exact Or.inr ⟨text, offset, heq ▸ hphase⟩
    · exact hw'
  · intro hset
    have hall : offset + n = text.length := hset.eq_length w (by simp [phase_goTo])
    change yaml.parse (writeAt s.file offset ((text.drop offset).take n)) = _
    rw [hnew, hall, List.take_length, htext]
    exact hround d h.produced
  · intro w' text' offset' hw' hne
    rw [phase_goTo] at hw'
    split at hw'
    · rename_i heq
      cases hw'
      refine ⟨htext, hnew, ?_⟩
      intro w'' text'' offset'' hne' hw''
      rw [phase_goTo, if_neg (heq ▸ hne')] at hw''
      exact hothers w'' text'' offset'' (heq ▸ hne') hw''
    · rename_i hww
      exact absurd (hothers w' text' offset' hww hw') hne

theorem Holds.close {d : Document} (h : Holds yaml fills d₀ s d) {w : W} {text : Bytes}
    (hphase : s.phase w = .writing text text.length) :
    Holds yaml fills d₀ (s.goTo w .done) d := by
  refine { produced := h.produced, recorded := ?_, settled := ?_, partly := ?_ }
  · intro w' hw'
    apply h.recorded
    rw [phase_goTo] at hw'
    split at hw'
    · rename_i heq
      exact Or.inr ⟨text, _, heq ▸ hphase⟩
    · exact hw'
  · intro hset
    apply h.settled
    apply settled_of_eq_length
    intro w' text' offset' hw'
    by_cases heq : w' = w
    · subst heq
      rw [hphase] at hw'
      cases hw'
      rfl
    · exact hset.eq_length w' (by rw [phase_goTo, if_neg heq, hw'])
  · intro w' text' offset' hw' hne
    rw [phase_goTo] at hw'
    split at hw'
    · cases hw'
    · rcases h.partly w' text' offset' hw' hne with ⟨htext, hfile, hothers⟩
      refine ⟨htext, hfile, ?_⟩
      intro w'' text'' offset'' hne' hw''
      rw [phase_goTo] at hw''
      split at hw''
      · cases hw''
      · exact hothers w'' text'' offset'' hne' hw''

/-- The step lemma: an undisturbed step leaves a whole document behind, or the front of one. -/
theorem Holds.step {d : Document} (hround : RoundTrips yaml fills d₀)
    (h : Holds yaml fills d₀ s d) (hl : Loads fills d₀ s) {a : FillAction W}
    (ha : s.Undisturbed yaml a) {s' : ConfigFile W} (hs : s.perform yaml fills a = some s') :
    (∃ d', Holds yaml fills d₀ s' d') ∧ Loads fills d₀ s' := by
  cases a with
  | loadFile w =>
      have hset : s.Settled := ha
      have hparse : yaml.parse s.file = some d := h.settled hset
      cases hphase : s.phase w with
      | start =>
          simp only [perform, hphase, hparse, Option.some.injEq] at hs
          subst hs
          refine ⟨⟨d, h.loadFile w hset⟩, hl.goTo w (by simp) ?_⟩
          rintro config ⟨⟩
          exact h.produced
      | _ => simp [perform, hphase] at hs
  | openFile w =>
      rcases ha with ⟨hset, hsame⟩
      cases hphase : s.phase w with
      | loaded config =>
          rw [hphase] at hsame
          -- the file still holds what was loaded, so nothing recorded since is overwritten
          have hconfig : config = d := Option.some.inj (hsame.symm.trans (h.settled hset))
          subst hconfig
          simp only [perform, hphase, Option.some.injEq] at hs
          subst hs
          have hloads : Loads fills d₀ { s with file := [] } := hl
          exact ⟨⟨_, h.openFile hround w hset⟩, hloads.goTo w (by simp) (by simp)⟩
      | _ => simp [perform, hphase] at hs
  | write w n =>
      cases hphase : s.phase w with
      | writing text offset =>
          simp only [perform, hphase] at hs
          split at hs
          · rename_i hn
            cases hs
            have hloads : Loads fills d₀
              { s with file := writeAt s.file offset ((text.drop offset).take n) } := hl
            exact ⟨⟨d, h.write hround hphase hn.1 hn.2⟩, hloads.goTo w (by simp) (by simp)⟩
          · cases hs
      | _ => simp [perform, hphase] at hs
  | close w =>
      cases hphase : s.phase w with
      | writing text offset =>
          simp only [perform, hphase] at hs
          split at hs
          · rename_i hlen
            subst hlen
            cases hs
            exact ⟨⟨d, h.close hphase⟩, hl.goTo w (by simp) (by simp)⟩
          · cases hs
      | _ => simp [perform, hphase] at hs

omit [DecidableEq W] in
theorem Holds.kept {d : Document} (h : Holds yaml fills d₀ s d) (hl : Loads fills d₀ s) :
    Kept yaml fills d₀ s where
  loads w config hw := ((hl w).2 config hw).covers
  noThrow w := (hl w).1
  finished hdone := by
    have hset : s.Settled := by
      intro w
      rw [hdone w]
      trivial
    exact ⟨d, h.settled hset, h.produced.covers, fun w => h.recorded w (Or.inl (hdone w))⟩

end Invariant

/-- No update of the configuration file is lost, in every run of any number of workers in which they
load and truncate it undisturbed, whatever text the first document is read from. -/
theorem config_kept [DecidableEq W] {yaml : Yaml} {fills : Fills W} {text₀ : Bytes} {d₀ : Document}
    (hparse : yaml.parse text₀ = some d₀)
    (hround : ∀ d, Produced fills d₀ d → yaml.parse (yaml.emit d) = some d)
    {s : ConfigFile W} (hs : ((runs yaml fills text₀).restrict (Undisturbed yaml)).Reachable s) :
    Kept yaml fills d₀ s := by
  have hinv : (∃ d, Holds yaml fills d₀ s d) ∧ Loads fills d₀ s := by
    refine hs.invariant (P := fun s => (∃ d, Holds yaml fills d₀ s d) ∧ Loads fills d₀ s) ?_ ?_
    · rintro s rfl
      exact ⟨⟨d₀, Holds.start hparse⟩, by simp [Loads]⟩
    · rintro s a s' ⟨⟨d, h⟩, hl⟩ ⟨ha, hstep⟩
      exact h.step hround hl ha hstep
  rcases hinv with ⟨⟨d, h⟩, hl⟩
  exact h.kept hl

/-! ## Two workers -/

/-- The block style for documents of scalars and one group of scalars. -/
def yamlText (d : Document) : Bytes :=
  let line := fun (k v : Bytes) => k ++ Bytes.ofString ": " ++ v ++ [10]
  let top := d.flatMap fun
    | ([k], v) => line k v
    | _ => []
  let entries := d.flatMap fun
    | ([_, k], v) => Bytes.ofString "  " ++ line k v
    | _ => []
  if entries = [] then top else top ++ Bytes.ofString "zlibMap:\n" ++ entries

def twoFills : Fills Bool where
  md5 := fun w => Bytes.ofString (if w then "A1" else "B2")
  size := fun w => if w then 10 else 20
  md5_injective := by decide

def portOnly : Document := [([Bytes.ofString "port"], Bytes.ofString "80")]

/-- The documents two workers can meet; an empty file is a document without keys. -/
def twoDocuments : List Document :=
  [[], twoFills.record [] true, twoFills.record [] false, portOnly, twoFills.record portOnly true,
    twoFills.record portOnly false, twoFills.record (twoFills.record portOnly true) false,
    twoFills.record (twoFills.record portOnly false) true]

/-- What a person has written, with a comment and a blank line. -/
def portText : Bytes := Bytes.ofString "# webServer\nport: 80\n\n"

/-- What is read back of the texts that it writes, and of `portText`, whose comment it skips. -/
def twoYaml : Yaml where
  emit := yamlText
  parse := fun text =>
    if text = portText then some portOnly else twoDocuments.find? (fun d => yamlText d = text)

theorem twoYaml_parse {d : Document} (h : Produced twoFills portOnly d) :
    twoYaml.parse (twoYaml.emit d) = some d := by
  have hmem : d ∈ twoDocuments.drop 3 := by
    rcases h with ⟨ws, rfl⟩
    have hclosed : ∀ d ∈ twoDocuments.drop 3, ∀ w, twoFills.record d w ∈ twoDocuments.drop 3 := by
      decide +kernel
    induction ws using List.reverseRecOn with
    | nil => exact List.mem_cons_self
    | append_singleton ws w ih =>
        rw [List.foldl_append]
        exact hclosed _ ih w
  have hall : ∀ d ∈ twoDocuments.drop 3, twoYaml.parse (twoYaml.emit d) = some d := by
    decide +kernel
  exact hall d hmem

/-- One worker after the other; the text of the first is written in two pieces. -/
def oneByOne : List (FillAction Bool) :=
  [.loadFile true, .openFile true, .write true 5, .write true 22, .close true,
    .loadFile false, .openFile false, .write false 36, .close false]

def oneByOneNext (s : ConfigFile Bool) (a : FillAction Bool) : Option (ConfigFile Bool) :=
  if s.Undisturbed twoYaml a then s.perform twoYaml twoFills a else none

theorem config_kept_oneByOne :
    ∃ s, System.runAll oneByOneNext { file := portText, phase := fun _ => .start } oneByOne
        = some s ∧ (∀ w, s.phase w = .done) ∧ Kept twoYaml twoFills portOnly s := by
  obtain ⟨s, hs, hdone⟩ : ∃ s, System.runAll oneByOneNext
      { file := portText, phase := fun _ => .start } oneByOne = some s ∧
        ∀ w, s.phase w = .done := by
    have hrun : ((System.runAll oneByOneNext { file := portText, phase := fun _ => .start }
        oneByOne).map fun s => decide (∀ w, s.phase w = .done)) = some true := by decide +kernel
    rcases Option.map_eq_some_iff.1 hrun with ⟨s, hs, hall⟩
    exact ⟨s, hs, of_decide_eq_true hall⟩
  have hreach : ((runs twoYaml twoFills portText).restrict (Undisturbed twoYaml)).Reachable s := by
    refine System.Reachable.of_runAll ?_ (.init rfl) hs
    intro s a s' hstep
    unfold oneByOneNext at hstep
    split at hstep
    · exact ⟨‹_›, hstep⟩
    · cases hstep
  exact ⟨s, hs, hdone, config_kept (by decide +kernel) (fun _ => twoYaml_parse) hreach⟩

/-- Both load before either writes. -/
def bothLoad : List (FillAction Bool) :=
  [.loadFile true, .loadFile false, .openFile true, .write true 27, .close true,
    .openFile false, .write false 27, .close false]

theorem config_lost_bothLoad :
    ∃ s, (runs twoYaml twoFills portText).Reachable s ∧ (∀ w, s.phase w = .done) ∧
      s.file = yamlText (twoFills.record portOnly false) ∧ ¬ Kept twoYaml twoFills portOnly s := by
  obtain ⟨s, hs, hdone, hfile⟩ : ∃ s, System.runAll (perform twoYaml twoFills)
      { file := portText, phase := fun _ => .start } bothLoad = some s ∧
        (∀ w, s.phase w = .done) ∧ s.file = yamlText (twoFills.record portOnly false) := by
    have hrun : ((System.runAll (perform twoYaml twoFills)
        { file := portText, phase := fun _ => .start } bothLoad).map fun s =>
          decide ((∀ w, s.phase w = .done) ∧
            s.file = yamlText (twoFills.record portOnly false))) = some true := by decide +kernel
    rcases Option.map_eq_some_iff.1 hrun with ⟨s, hs, hall⟩
    exact ⟨s, hs, of_decide_eq_true hall⟩
  refine ⟨s, .of_runAll (fun _ _ _ hstep => hstep) (.init rfl) hs, hdone, hfile, ?_⟩
  intro hkept
  rcases hkept.finished hdone with ⟨d, hparse, -, hall⟩
  have hproduced : Produced twoFills portOnly (twoFills.record portOnly false) := ⟨[false], rfl⟩
  have hread : twoYaml.parse s.file = some (twoFills.record portOnly false) := by
    rw [hfile]
    exact twoYaml_parse hproduced
  rw [hread] at hparse
  cases hparse
  exact absurd (hall true) (by decide +kernel)

end ConfigFile
end Web
end Longky
