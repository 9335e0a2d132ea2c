import Longky.Lib.Bytes

/-!
# Lines — streams of lines that end in CRLF

The first line of a stream is the part in front of `findCRLF`; it may hold single carriage returns
and line feeds.  A line machine reads a stream line by line, and `run` goes as far as there is a
whole line.

* `run_append` — a run can be interrupted at any byte of the stream;
* `served_iff` — a reader that takes at most one record out of its buffer for each piece of the
  stream that arrives has taken all of them at the end if and only if no piece comes too late.
-/

namespace Longky
namespace Lib
namespace Bytes

/-! ## The first line -/

theorem findCRLF_lt {bs : Bytes} {n : Nat} (h : findCRLF bs = some n) : n + 2 ≤ bs.length := by
  induction bs using findCRLF.induct generalizing n with
  | case1 t =>
      simp only [findCRLF, Option.some.injEq] at h
      simp [← h]
  | case2 c t hne ih =>
      rw [findCRLF] at h
      · rcases Option.map_eq_some_iff.1 h with ⟨m, hm, rfl⟩
        have := ih hm
        simp only [List.length_cons]
        omega
      · exact hne
  | case3 => simp [findCRLF] at h

theorem findCRLF_split {bs : Bytes} {n : Nat} (h : findCRLF bs = some n) :
    bs = bs.take n ++ 13 :: 10 :: bs.drop (n + 2) := by
  induction bs using findCRLF.induct generalizing n with
  | case1 t =>
      simp only [findCRLF, Option.some.injEq] at h
      subst h
      rfl
  | case2 c t hne ih =>
      rw [findCRLF] at h
      · rcases Option.map_eq_some_iff.1 h with ⟨m, hm, rfl⟩
        rw [List.take_succ_cons, List.cons_append, List.drop_succ_cons]
        exact congrArg (List.cons c) (ih hm)
      · exact hne
  | case3 => simp [findCRLF] at h

/-- The first line does not depend on what follows it. -/
theorem findCRLF_replace {bs : Bytes} {n : Nat} (h : findCRLF bs = some n) (t : Bytes) :
    findCRLF (bs.take n ++ 13 :: 10 :: t) = some n := by
  induction bs using findCRLF.induct generalizing n with
  | case1 t' =>
      simp only [findCRLF, Option.some.injEq] at h
      subst h
      rfl
  | case2 c t' hne ih =>
      rw [findCRLF] at h
      · rcases Option.map_eq_some_iff.1 h with ⟨m, hm, rfl⟩
        rw [List.take_succ_cons, List.cons_append, findCRLF]
        · rw [ih hm]
          rfl
        · -- the byte behind `c` is still the same
          intro t'' hc htail
          cases m with
          | zero => simp at htail
          | succ m =>
              cases t' with
              | nil => simp [findCRLF] at hm
              | cons d u =>
                  rw [List.take_succ_cons, List.cons_append, List.cons.injEq] at htail
                  exact hne u hc (by rw [htail.1])
      · exact hne
  | case3 => simp [findCRLF] at h

theorem findCRLF_append {bs : Bytes} {n : Nat} (h : findCRLF bs = some n) (t : Bytes) :
    findCRLF (bs ++ t) = some n := by
  have hsplit : bs ++ t = bs.take n ++ 13 :: 10 :: (bs.drop (n + 2) ++ t) := by
    conv_lhs => rw [findCRLF_split h]
    simp
  rw [hsplit]
  exact findCRLF_replace h _

theorem findCRLF_of_none {line : Bytes} (h : findCRLF line = none) (t : Bytes) :
    findCRLF (line ++ 13 :: 10 :: t) = some line.length := by
  induction line using findCRLF.induct with
  | case1 t' => simp [findCRLF] at h
  | case2 c line hne ih =>
      rw [findCRLF] at h
      · rw [Option.map_eq_none_iff] at h
        rw [List.cons_append, findCRLF, ih h]
        · rfl
        · intro t' hc hline
          cases line with
          | nil => cases hline
          | cons d line =>
              rw [List.cons_append, List.cons.injEq] at hline
              exact hne line hc (by rw [hline.1])
      · exact hne
  | case3 => rfl

theorem findCRLF_none_of_not_mem {line : Bytes} (h : 13 ∉ line) : findCRLF line = none := by
  induction line with
  | nil => rfl
  | cons c line ih =>
      rw [List.mem_cons, not_or] at h
      rw [findCRLF, ih h.2]
      · rfl
      · rintro _ rfl _
        exact h.1 rfl

theorem findCRLF_line {line : Bytes} (h : 13 ∉ line) (t : Bytes) :
    findCRLF (line ++ 13 :: 10 :: t) = some line.length :=
  findCRLF_of_none (findCRLF_none_of_not_mem h) t

/-- Two streams with the same bytes have the same first line. -/
theorem line_cancel {l₁ l₂ t₁ t₂ : Bytes} (h₁ : findCRLF l₁ = none)
    (h₂ : findCRLF l₂ = none) (h : l₁ ++ 13 :: 10 :: t₁ = l₂ ++ 13 :: 10 :: t₂) :
    l₁ = l₂ ∧ t₁ = t₂ := by
  have hlen := findCRLF_of_none h₁ t₁
  rw [h, findCRLF_of_none h₂ t₂, Option.some.injEq] at hlen
  rcases List.append_inj h hlen.symm with ⟨rfl, hrest⟩
  simp only [List.cons.injEq, true_and] at hrest
  exact ⟨rfl, hrest⟩

theorem findCRLF_drop {bs : Bytes} (h : findCRLF bs = none) (n : Nat) :
    findCRLF (bs.drop n) = none := by
  induction n generalizing bs with
  | zero => exact h
  | succ n ih =>
      cases bs with
      | nil => rfl
      | cons c bs =>
          refine @ih bs ?_
          rw [findCRLF.eq_def] at h
          split at h
          · cases h
          · rename_i heq
            cases heq
            exact Option.map_eq_none_iff.1 h
          · rename_i heq
            cases heq

theorem findCRLF_take {bs : Bytes} {n : Nat} (h : findCRLF bs = some n) :
    findCRLF (bs.take n) = none := by
  cases htake : findCRLF (bs.take n) with
  | none => rfl
  | some k =>
      have hlt := findCRLF_lt htake
      have hwhole := findCRLF_append htake (bs.drop n)
      rw [List.take_append_drop, h, Option.some.injEq] at hwhole
      rw [List.length_take] at hlt
      omega

theorem take_append_findCRLF {bs : Bytes} {n : Nat} (h : findCRLF bs = some n) (t : Bytes) :
    (bs ++ t).take n = bs.take n := by
  have hlt := findCRLF_lt h
  exact List.take_append_of_le_length (by omega)

theorem drop_append_findCRLF {bs : Bytes} {n : Nat} (h : findCRLF bs = some n) (t : Bytes) :
    (bs ++ t).drop (n + 2) = bs.drop (n + 2) ++ t :=
  List.drop_append_of_le_length (findCRLF_lt h)

end Bytes

/-! ## Line machines -/

/-- What a line makes of a state. -/
inductive LineStep (σ : Type*) where
  | next (s : σ)
  | done (s : σ)
  | fail (s : σ)
  | stop

/-- How far a stream has been read, with the state and the bytes that are left. -/
inductive Progress (σ : Type*) where
  | waiting (s : σ) (rest : Bytes)
  | done (s : σ) (rest : Bytes)
  /-- The rest starts with the line that failed. -/
  | failed (s : σ) (rest : Bytes)
  | stopped

/-- The bytes that are left. -/
def Progress.rest {σ : Type*} : Progress σ → Bytes
  | .waiting _ rest | .done _ rest | .failed _ rest => rest
  | .stopped => []

def LineStep.map {σ τ : Type*} (f : σ → τ) : LineStep σ → LineStep τ
  | .next s => .next (f s)
  | .done s => .done (f s)
  | .fail s => .fail (f s)
  | .stop => .stop

def Progress.map {σ τ : Type*} (f : σ → τ) : Progress σ → Progress τ
  | .waiting s rest => .waiting (f s) rest
  | .done s rest => .done (f s) rest
  | .failed s rest => .failed (f s) rest
  | .stopped => .stopped

abbrev LineMachine (σ : Type*) := σ → Bytes → LineStep σ

namespace LineMachine

variable {σ : Type*}

/-- Read lines up to one that ends the run. -/
def run (M : LineMachine σ) (s : σ) (bs : Bytes) : Progress σ :=
  match _h : Bytes.findCRLF bs with
  | none => .waiting s bs
  | some n =>
      match M s (bs.take n) with
      | .next s' => run M s' (bs.drop (n + 2))
      | .done s' => .done s' (bs.drop (n + 2))
      | .fail s' => .failed s' bs
      | .stop => .stopped
termination_by bs.length
decreasing_by
  have hlt := Bytes.findCRLF_lt _h
  rw [List.length_drop]
  omega

variable {M : LineMachine σ} {s : σ} {bs : Bytes} {n : Nat}

theorem run_of_none (h : Bytes.findCRLF bs = none) : M.run s bs = .waiting s bs := by
  rw [run]
  split
  · rfl
  · rename_i hsome
    simp [h] at hsome

/-- One turn. -/
theorem run_of_some (h : Bytes.findCRLF bs = some n) :
    M.run s bs = match M s (bs.take n) with
      | .next s' => M.run s' (bs.drop (n + 2))
      | .done s' => .done s' (bs.drop (n + 2))
      | .fail s' => .failed s' bs
      | .stop => .stopped := by
  rw [run]
  split
  · rename_i hnone
    simp [h] at hnone
  · rename_i m hsome
    rw [h] at hsome
    cases hsome
    rfl

/-- One turn on a line with its end. -/
theorem run_line {line : Bytes} (h : Bytes.findCRLF line = none) (t : Bytes) :
    M.run s (line ++ 13 :: 10 :: t) = match M s line with
      | .next s' => M.run s' t
      | .done s' => .done s' t
      | .fail s' => .failed s' (line ++ 13 :: 10 :: t)
      | .stop => .stopped := by
  have hdrop : (line ++ 13 :: 10 :: t).drop (line.length + 2) = t := by simp
  rw [run_of_some (Bytes.findCRLF_of_none h t), List.take_left, hdrop]

/-- What more bytes make of a run. -/
def resume (M : LineMachine σ) (more : Bytes) : Progress σ → Progress σ
  | .waiting s rest => M.run s (rest ++ more)
  | .done s rest => .done s (rest ++ more)
  | .failed s rest => .failed s (rest ++ more)
  | .stopped => .stopped

/-- A run can be interrupted. -/
theorem run_append (s : σ) (xs ys : Bytes) : M.run s (xs ++ ys) = M.resume ys (M.run s xs) := by
  induction s, xs using LineMachine.run.induct M with
  | case1 s xs h => rw [run_of_none h, resume]
  | case2 s xs n h s' hstep ih =>
      rw [run_of_some h, hstep, run_of_some (Bytes.findCRLF_append h ys),
        Bytes.take_append_findCRLF h, hstep, Bytes.drop_append_findCRLF h]
      exact ih
  | case3 s xs n h s' hstep =>
      rw [run_of_some h, hstep, run_of_some (Bytes.findCRLF_append h ys),
        Bytes.take_append_findCRLF h, hstep, Bytes.drop_append_findCRLF h]
      rfl
  | case4 s xs n h s' hstep =>
      rw [run_of_some h, hstep, run_of_some (Bytes.findCRLF_append h ys),
        Bytes.take_append_findCRLF h, hstep]
      rfl
  | case5 s xs n h hstep =>
      rw [run_of_some h, hstep, run_of_some (Bytes.findCRLF_append h ys),
        Bytes.take_append_findCRLF h, hstep]
      rfl

/-- A run only takes bytes off the front. -/
theorem rest_run_suffix (s : σ) (bs : Bytes) : (M.run s bs).rest <:+ bs := by
  induction s, bs using LineMachine.run.induct M with
  | case1 s bs h =>
      rw [run_of_none h]
      exact List.suffix_refl bs
  | case2 s bs n h s' hstep ih =>
      rw [run_of_some h, hstep]
      exact ih.trans (List.drop_suffix _ _)
  | case3 s bs n h s' hstep =>
      rw [run_of_some h, hstep]
      exact List.drop_suffix _ _
  | case4 s bs n h s' hstep =>
      rw [run_of_some h, hstep]
      exact List.suffix_refl bs
  | case5 s bs n h hstep =>
      rw [run_of_some h, hstep]
      exact List.nil_suffix

/-! ## The lines of a run -/

/-- The state after lines that all let the machine go on. -/
def goes (M : LineMachine σ) : σ → List Bytes → Option σ
  | s, [] => some s
  | s, line :: lines =>
      match M s line with
      | .next s' => goes M s' lines
      | .done _ | .fail _ | .stop => none

theorem goes_cons {line : Bytes} {lines : List Bytes} {s' s'' : σ} (h : M s line = .next s') :
    M.goes s (line :: lines) = some s'' ↔ M.goes s' lines = some s'' := by
  rw [goes, h]

/-- A run is done after lines that let the machine go on and one that does not. -/
theorem run_eq_done_iff {s' : σ} {rest : Bytes} :
    M.run s bs = .done s' rest ↔
      ∃ lines last s₁, (∀ line ∈ lines, Bytes.findCRLF line = none) ∧
        Bytes.findCRLF last = none ∧ M.goes s lines = some s₁ ∧ M s₁ last = .done s' ∧
        bs = lines.flatMap (· ++ [13, 10]) ++ (last ++ 13 :: 10 :: rest) := by
  constructor
  -- each turn of the loop puts its line in front of those that the rest of the run reads
  · intro h
    induction s, bs using LineMachine.run.induct M with
    | case1 s bs hbs =>
        rw [run_of_none hbs] at h
        cases h
    | case2 s bs n hbs s₀ hstep ih =>
        rw [run_of_some hbs, hstep] at h
        rcases ih h with ⟨lines, last, s₁, hlines, hlast, hgoes, hdone, hrest⟩
        refine ⟨bs.take n :: lines, last, s₁, ?_, hlast, (goes_cons hstep).2 hgoes, hdone, ?_⟩
        · intro line hline
          rcases List.mem_cons.1 hline with rfl | hmem
          · exact Bytes.findCRLF_take hbs
          · exact hlines line hmem
        · have hsplit := Bytes.findCRLF_split hbs
          rw [hrest] at hsplit
          simpa using hsplit
    | case3 s bs n hbs s₀ hstep =>
        rw [run_of_some hbs, hstep] at h
        cases h
        exact ⟨[], bs.take n, s, by simp, Bytes.findCRLF_take hbs, rfl, hstep,
          by simpa using Bytes.findCRLF_split hbs⟩
    | case4 s bs n hbs s₀ hstep =>
        rw [run_of_some hbs, hstep] at h
        cases h
    | case5 s bs n hbs hstep =>
        rw [run_of_some hbs, hstep] at h
        cases h
  · rintro ⟨lines, last, s₁, hlines, hlast, hgoes, hdone, rfl⟩
    induction lines generalizing s with
    | nil =>
        cases hgoes
        rw [List.flatMap_nil, List.nil_append, run_line hlast, hdone]
    | cons line lines ih =>
        have hline := hlines line List.mem_cons_self
        have hothers : ∀ l ∈ lines, Bytes.findCRLF l = none :=
          fun l hl => hlines l (List.mem_cons_of_mem _ hl)
        cases hstep : M s line with
        | next s₀ =>
            have hrun := ih hothers ((goes_cons hstep).1 hgoes)
            rw [List.flatMap_cons, List.append_assoc, List.append_assoc, List.cons_append,
              List.cons_append, List.nil_append, run_line hline, hstep]
            exact hrun
        | done s₀ => simp [goes, hstep] at hgoes
        | fail s₀ => simp [goes, hstep] at hgoes
        | stop => simp [goes, hstep] at hgoes

/-! ## Views of a state -/

/-- A machine that sees less of a state goes the same way. -/
theorem run_map {τ : Type*} {N : LineMachine τ} {f : σ → τ}
    (h : ∀ s line, N (f s) line = (M s line).map f) (s : σ) (xs : Bytes) :
    N.run (f s) xs = (M.run s xs).map f := by
  induction s, xs using LineMachine.run.induct M with
  | case1 s xs hxs => rw [run_of_none hxs, run_of_none hxs, Progress.map]
  | case2 s xs n hxs s' hstep ih =>
      rw [run_of_some hxs, run_of_some hxs, h, hstep]
      exact ih
  | case3 s xs n hxs s' hstep =>
      rw [run_of_some hxs, run_of_some hxs, h, hstep]
      rfl
  | case4 s xs n hxs s' hstep =>
      rw [run_of_some hxs, run_of_some hxs, h, hstep]
      rfl
  | case5 s xs n hxs hstep =>
      rw [run_of_some hxs, run_of_some hxs, h, hstep]
      rfl

/-! ## One record for each piece -/

/-- Two ways to cut a stream: the first cut comes earlier, or not. -/
theorem cut_cases {α : Type*} {a b c d : List α} (h : a ++ b = c ++ d) :
    (∃ z, z ≠ [] ∧ c = a ++ z) ∨ ∃ y, a = c ++ y ∧ y ++ b = d := by
  rcases List.append_eq_append_iff.1 h with ⟨z, hz, hb⟩ | ⟨y, hy, hd⟩
  · by_cases hne : z = []
    · subst hne
      exact Or.inr ⟨[], by simpa using hz.symm, by simpa using hb⟩
    · exact Or.inl ⟨z, hne, hz⟩
  · exact Or.inr ⟨y, hy, hd.symm⟩

/-- A piece of the stream arrives behind what is in the buffer: at most one record is taken out.
Nothing goes on after a stop. -/
def serve (M : LineMachine σ) (start : σ) (p : σ × Bytes) (piece : Bytes) :
    Option (Option σ × σ × Bytes) :=
  match M.run p.1 (p.2 ++ piece) with
  | .waiting s rest => some (none, s, rest)
  | .done s rest => some (some s, start, rest)
  | .failed s rest => some (none, s, rest)
  | .stopped => none

/-- The records that are taken while all pieces arrive. -/
def serveAll (M : LineMachine σ) (start : σ) : σ × Bytes → List Bytes → Option (List σ)
  | _, [] => some []
  | p, piece :: pieces => do
      let (taken, p') ← M.serve start p piece
      return taken.toList ++ (← serveAll M start p' pieces)

/-- The end of a run on a text with more behind it: all of the text is read, or none. -/
def ending (start : σ) (text more : Bytes) : Option σ → Progress σ
  | some s => .done s more
  | none => .failed start (text ++ more)

theorem length_serveAll {M : LineMachine σ} {start : σ} {p : σ × Bytes} {pieces : List Bytes}
    {vs : List σ} (h : M.serveAll start p pieces = some vs) : vs.length ≤ pieces.length := by
  induction pieces generalizing p vs with
  | nil =>
      cases h
      exact Nat.le_refl _
  | cons piece pieces ih =>
      rcases Option.bind_eq_some_iff.1 h with ⟨⟨taken, p'⟩, -, hrest⟩
      rcases Option.bind_eq_some_iff.1 hrest with ⟨others, hothers, htaken⟩
      cases htaken
      have hothers := ih hothers
      cases taken <;> simp <;> omega

/-- Records that the machine reads to their end, or fails on at the start. -/
structure Records (M : LineMachine σ) (start : σ) (R : Type*) where
  text : R → Bytes
  value : R → Option σ
  run_text : ∀ r ys, M.run start (text r ++ ys) = ending start (text r) ys (value r)

/-- The state and the buffer stand for bytes that a new run would read. -/
def Represents (M : LineMachine σ) (start : σ) (p : σ × Bytes) (x : Bytes) : Prop :=
  ∀ ys, M.run p.1 (p.2 ++ ys) = M.run start (x ++ ys)

namespace Records

variable {start : σ} {R : Type*} (D : Records M start R)

/-- The records that end within the first bytes of a stream. -/
def complete : List R → Nat → Nat
  | [], _ => 0
  | r :: rs, k => if (D.text r).length ≤ k then complete rs (k - (D.text r).length) + 1 else 0

/-- The pieces from here on: with `n` records left and `k` of their bytes in the buffer, no fewer
pieces than records that end after them. -/
def Paced (rs : List R) (k : Nat) (pieces : List Bytes) : Prop :=
  rs.length ≤ pieces.length ∧ ∀ j < pieces.length,
    rs.length ≤ D.complete rs (k + (pieces.take (j + 1)).flatten.length) + (pieces.length - (j + 1))

variable {D}

theorem text_ne_nil (r : R) : D.text r ≠ [] := by
  intro hnil
  have hrun := D.run_text r []
  rw [hnil, List.append_nil, run_of_none rfl] at hrun
  cases hvalue : D.value r <;> simp [hvalue, ending] at hrun

theorem complete_zero (rs : List R) : D.complete rs 0 = 0 := by
  cases rs with
  | nil => rfl
  | cons r rs =>
      have hpos := List.length_pos_of_ne_nil (D.text_ne_nil r)
      rw [complete, if_neg (by omega)]

theorem paced_nil (k : Nat) (pieces : List Bytes) : D.Paced [] k pieces :=
  ⟨Nat.zero_le _, fun _ _ => Nat.zero_le _⟩

/-- The first piece ends inside a record. -/
theorem paced_short {r : R} {rs : List R} {k : Nat} {piece : Bytes} {pieces : List Bytes}
    (h : k + piece.length < (D.text r).length) :
    D.Paced (r :: rs) k (piece :: pieces) ↔ D.Paced (r :: rs) (k + piece.length) pieces := by
  have hnone : D.complete (r :: rs) (k + piece.length) = 0 := by
    rw [complete, if_neg (by omega)]
  constructor
  · rintro ⟨-, hpace⟩
    refine ⟨?_, ?_⟩
    · have hfirst := hpace 0 (by simp)
      simp only [Nat.zero_add, List.take_succ_cons, List.take_zero, List.flatten_cons,
        List.flatten_nil, List.append_nil, hnone, List.length_cons] at hfirst ⊢
      omega
    · intro j hj
      have hnext := hpace (j + 1) (by simpa using hj)
      simp only [List.take_succ_cons, List.flatten_cons, List.length_append, List.length_cons]
        at hnext ⊢
      rw [← Nat.add_assoc] at hnext
      omega
  · rintro ⟨hlen, hpace⟩
    refine ⟨?_, ?_⟩
    · simp only [List.length_cons] at hlen ⊢
      omega
    · intro j hj
      cases j with
      | zero =>
          simp only [Nat.zero_add, List.take_succ_cons, List.take_zero, List.flatten_cons,
            List.flatten_nil, List.append_nil, hnone, List.length_cons] at hlen ⊢
          omega
      | succ j =>
          have hnext := hpace j (by simpa using hj)
          simp only [List.take_succ_cons, List.flatten_cons, List.length_append, List.length_cons]
            at hnext ⊢
          rw [← Nat.add_assoc]
          omega

/-- The first piece ends behind a record. -/
theorem paced_whole {r : R} {rs : List R} {k m : Nat} {piece : Bytes} {pieces : List Bytes}
    (h : k + piece.length = (D.text r).length + m) :
    D.Paced (r :: rs) k (piece :: pieces) ↔ D.Paced rs m pieces := by
  have hsome : ∀ n, D.complete (r :: rs) (k + (piece.length + n)) = D.complete rs (m + n) + 1 := by
    intro n
    rw [complete, if_pos (by omega)]
    congr 2
    omega
  constructor
  · rintro ⟨hlen, hpace⟩
    refine ⟨by simpa using hlen, ?_⟩
    intro j hj
    have hnext := hpace (j + 1) (by simpa using hj)
    simp only [List.take_succ_cons, List.flatten_cons, List.length_append, List.length_cons, hsome]
      at hnext ⊢
    omega
  · rintro ⟨hlen, hpace⟩
    refine ⟨by simpa using hlen, ?_⟩
    intro j hj
    cases j with
    | zero =>
        have hfirst := hsome 0
        simp only [Nat.add_zero] at hfirst
        simp only [Nat.zero_add, List.take_succ_cons, List.take_zero, List.flatten_cons,
          List.flatten_nil, List.append_nil, hfirst, List.length_cons]
        omega
    | succ j =>
        have hnext := hpace j (by simpa using hj)
        simp only [List.take_succ_cons, List.flatten_cons, List.length_append, List.length_cons,
          hsome] at hnext ⊢
        omega

/-- Each record by itself. -/
theorem paced_own (rs : List R) : D.Paced rs 0 (rs.map D.text) := by
  induction rs with
  | nil => exact paced_nil 0 _
  | cons r rs ih =>
      rw [List.map_cons]
      exact (paced_whole (m := 0) (by omega)).2 ih

/-- With an empty buffer the number of pieces is the case of no piece at all. -/
theorem paced_zero {rs : List R} {pieces : List Bytes} : D.Paced rs 0 pieces ↔
    ∀ j ≤ pieces.length,
      rs.length ≤ D.complete rs (pieces.take j).flatten.length + (pieces.length - j) := by
  unfold Paced
  simp only [Nat.zero_add]
  constructor
  · rintro ⟨hlen, hpace⟩ j hj
    cases j with
    | zero => exact Nat.le_trans hlen (Nat.le_add_left _ _)
    | succ j => exact hpace j hj
  · intro h
    refine ⟨?_, fun j hj => h (j + 1) hj⟩
    have hfirst := h 0 (Nat.zero_le _)
    rw [List.take_zero, List.flatten_nil, List.length_nil, complete_zero] at hfirst
    omega

variable {p : σ × Bytes} {x piece y : Bytes} {r : R}

theorem represents_waiting {s : σ} {rest : Bytes} (h : M.run start x = .waiting s rest) :
    M.Represents start (s, rest) x := by
  intro ys
  rw [run_append start x ys, h]
  rfl

theorem represents_start (x : Bytes) : M.Represents start (start, x) x := fun _ => rfl

/-- A run waits inside a record that it can read. -/
theorem run_short {v : σ} (hv : D.value r = some v) {z : Bytes} (hz : z ≠ [])
    (hx : D.text r = x ++ z) : ∃ s rest, M.run start x = .waiting s rest := by
  have hrun := D.run_text r []
  rw [List.append_nil, hx, run_append, hv, ending] at hrun
  cases hpart : M.run start x with
  | waiting s rest => exact ⟨s, rest, rfl⟩
  | done s rest =>
      rw [hpart, resume] at hrun
      simp only [Progress.done.injEq, List.append_eq_nil_iff] at hrun
      exact absurd hrun.2.2 hz
  | failed s rest | stopped =>
      rw [hpart, resume] at hrun
      cases hrun

/-- Nothing is taken while a record is not there as a whole. -/
theorem serve_short (hp : M.Represents start p x) {z : Bytes} (hz : z ≠ [])
    (hx : D.text r = x ++ piece ++ z) :
    ∃ p', M.serve start p piece = some (none, p') ∧ M.Represents start p' (x ++ piece) := by
  have hrun := D.run_text r []
  rw [List.append_nil, hx, run_append] at hrun
  unfold serve
  rw [hp piece]
  cases hpart : M.run start (x ++ piece) with
  | waiting s rest => exact ⟨_, rfl, represents_waiting hpart⟩
  | done s rest =>
      rw [hpart, resume] at hrun
      cases hvalue : D.value r with
      | none => simp [hvalue, ending] at hrun
      | some v =>
          simp only [hvalue, ending, Progress.done.injEq, List.append_eq_nil_iff] at hrun
          exact absurd hrun.2.2 hz
  | failed s rest =>
      rw [hpart, resume] at hrun
      cases hvalue : D.value r with
      | some v => simp [hvalue, ending] at hrun
      | none =>
          simp only [hvalue, ending, List.append_nil, Progress.failed.injEq,
            List.append_cancel_right_eq] at hrun
          rcases hrun with ⟨rfl, rfl⟩
          exact ⟨_, rfl, represents_start _⟩
  | stopped =>
      rw [hpart, resume] at hrun
      cases hvalue : D.value r <;> simp [hvalue, ending] at hrun

/-- A record is taken as soon as it is there. -/
theorem serve_whole (hp : M.Represents start p x) {v : σ} (hv : D.value r = some v)
    (hx : x ++ piece = D.text r ++ y) : M.serve start p piece = some (some v, start, y) := by
  have hrun := D.run_text r y
  rw [hv, ending] at hrun
  unfold serve
  rw [hp piece, hx, hrun]

/-- A record that fails stays in the buffer. -/
theorem serve_refused (hp : M.Represents start p x) (hv : D.value r = none)
    (hx : x ++ piece = D.text r ++ y) :
    M.serve start p piece = some (none, start, x ++ piece) := by
  have hrun := D.run_text r y
  rw [hv, ending] at hrun
  unfold serve
  rw [hp piece, hx, hrun]

theorem serve_nil (hp : M.Represents start p []) :
    M.serve start p [] = some (none, start, []) := by
  have hrun : M.run start [] = .waiting start [] := run_of_none rfl
  unfold serve
  rw [hp [], List.append_nil, hrun]

/-- Nothing is taken from a record that fails on. -/
theorem serveAll_refused (hv : D.value r = none) {pieces : List Bytes} {t : Bytes}
    (hp : M.Represents start p x) (hx : x ++ pieces.flatten = D.text r ++ t) :
    M.serveAll start p pieces = some [] := by
  induction pieces generalizing p x with
  | nil => rfl
  | cons piece pieces ih =>
      rw [List.flatten_cons, ← List.append_assoc] at hx
      have hnext : ∃ p', M.serve start p piece = some (none, p') ∧
          M.Represents start p' (x ++ piece) := by
        rcases cut_cases hx with ⟨z, hne, hz⟩ | ⟨y, hy, -⟩
        · exact serve_short hp hne hz
        · exact ⟨_, serve_refused hp hv hy, represents_start _⟩
      rcases hnext with ⟨p', hserve, hp'⟩
      rw [serveAll, hserve]
      simp [ih hp' hx]

/-- The records that are taken are the first ones, in order. -/
theorem serveAll_isPrefix {rs : List R} {pieces : List Bytes} (hp : M.Represents start p x)
    (hx : x ++ pieces.flatten = rs.flatMap D.text) :
    ∃ vs, M.serveAll start p pieces = some vs ∧ vs.map some <+: rs.map D.value := by
  induction pieces generalizing p x rs with
  | nil => exact ⟨[], rfl, List.nil_prefix⟩
  | cons piece pieces ih =>
      cases rs with
      | nil =>
          simp only [List.flatten_cons, List.flatMap_nil, List.append_eq_nil_iff] at hx
          rcases hx with ⟨rfl, rfl, hrest⟩
          have hnil : [] ++ pieces.flatten = ([] : List R).flatMap D.text := by
            rw [hrest]
            rfl
          rcases ih (represents_start []) hnil with ⟨vs, hall, hvs⟩
          exact ⟨vs, by simp [serveAll, serve_nil hp, hall], hvs⟩
      | cons r rs =>
          have hstream := hx
          rw [List.flatten_cons, ← List.append_assoc, List.flatMap_cons] at hstream
          cases hv : D.value r with
          | none =>
              exact ⟨[], serveAll_refused hv hp (by rw [hx, List.flatMap_cons]), List.nil_prefix⟩
          | some v =>
              rcases cut_cases hstream with ⟨z, hne, hz⟩ | ⟨y, hy, hrest⟩
              · rcases serve_short hp hne hz with ⟨p', hserve, hp'⟩
                have hrest : x ++ piece ++ pieces.flatten = (r :: rs).flatMap D.text := by
                  rw [hstream, List.flatMap_cons]
                rcases ih hp' hrest with ⟨vs, hall, hvs⟩
                exact ⟨vs, by simp [serveAll, hserve, hall], hvs⟩
              · rcases ih (represents_start y) hrest with ⟨vs, hall, hvs⟩
                refine ⟨v :: vs, by simp [serveAll, serve_whole hp hv hy, hall], ?_⟩
                rw [List.map_cons, List.map_cons, hv]
                exact (List.prefix_cons_inj _).2 hvs

/-- A reader that takes at most one record for each piece takes all records if and only if all are
good and no more of them end after any piece than there are pieces to come. -/
theorem served_iff {rs : List R} {pieces : List Bytes} (hp : M.Represents start p x)
    (hx : x ++ pieces.flatten = rs.flatMap D.text) :
    (∃ vs, M.serveAll start p pieces = some vs ∧ rs.map D.value = vs.map some) ↔
      (∀ r ∈ rs, (D.value r).isSome) ∧ D.Paced rs x.length pieces := by
  induction pieces generalizing p x rs with
  | nil =>
      cases rs with
      | nil => simp [serveAll, paced_nil]
      | cons r rs => simp [serveAll, Paced]
  | cons piece pieces ih =>
      cases rs with
      | nil =>
          simp only [List.flatten_cons, List.flatMap_nil, List.append_eq_nil_iff] at hx
          rcases hx with ⟨rfl, rfl, hrest⟩
          rw [serveAll, serve_nil hp]
          have hnil : [] ++ pieces.flatten = ([] : List R).flatMap D.text := by
            rw [hrest]
            rfl
          have htail := ih (represents_start []) hnil
          simpa [paced_nil] using htail
      | cons r rs =>
          have hstream := hx
          rw [List.flatten_cons, ← List.append_assoc, List.flatMap_cons] at hstream
          cases hv : D.value r with
          | none =>
              rw [serveAll_refused hv hp (by rw [hx, List.flatMap_cons])]
              simp [hv]
          | some v =>
              -- the piece ends within the first record, or it completes it
              rcases cut_cases hstream with ⟨z, hne, hz⟩ | ⟨y, hy, hrest⟩
              · rcases serve_short hp hne hz with ⟨p', hserve, hp'⟩
                have hlen : x.length + piece.length < (D.text r).length := by
                  have hpos := List.length_pos_of_ne_nil hne
                  have htext := congrArg List.length hz
                  simp only [List.length_append] at htext
                  omega
                have hrest : x ++ piece ++ pieces.flatten = (r :: rs).flatMap D.text := by
                  rw [hstream, List.flatMap_cons]
                have htail := ih hp' hrest
                rw [List.length_append] at htail
                rw [serveAll, hserve, paced_short hlen, ← htail]
                simp
              · have hlen : x.length + piece.length = (D.text r).length + y.length := by
                  simpa only [List.length_append] using congrArg List.length hy
                have htail := ih (represents_start y) hrest
                rw [serveAll, serve_whole hp hv hy, paced_whole hlen, List.forall_mem_cons, hv,
                  and_assoc, ← htail]
                cases hall : M.serveAll start (start, y) pieces with
                | none => simp [hall]
                | some vs => simp [hall, hv]

end Records
end LineMachine
end Lib
end Longky
