import Longky.Cgi.ExecuteCgi

/-!
# ScriptRuns — requests that run scripts side by side

Every state of every run of `Processes.system` keeps, for each request, who holds the ends of its
pipes (`Ends`), what its two pipes carry (`Carried`), how its calls were answered (`Admitted`) and that
nobody writes to it any more when its output has ended (`Silent`).  From these:

* a request is answered with what `Parser.execute_cgi` says, for the answers that its calls got and the
  output that its script really had;
* no script ever reads the end of its standard input, since its request closes the other end only
  after the script is gone;
* a pool thread blocks only on a script that is alive, in `write` only when the body does not fit
  the pipe.
-/

namespace Longky
namespace Cgi

open Lib

namespace Processes

variable {jobs : Nat → Parser} {capacity : Nat}

/-! ## What holds of every request -/

/-- Who holds the ends of request `i`'s pipes. -/
structure Ends (s : Processes) (i : Nat) : Prop where
  unborn : (s.phase i).beforeFork = true ↔ (s.child i).phase = .unborn
  writes : (s.child i).phase.alive = true → (.child i, .outputWrite i) ∈ s.table
  dead : (s.child i).phase.alive = false → ∀ e, (.child i, e) ∉ s.table
  holdsWriter : (s.phase i).holdsWriter = true → (.server, .outputWrite i) ∈ s.table
  mayHoldWriter : (.server, .outputWrite i) ∈ s.table → (s.phase i).mayHoldWriter = true
  mayHoldReader : (.server, .inputRead i) ∈ s.table → (s.phase i).mayHoldReader = true
  feeds : (s.phase i).feeds = true → (.server, .inputWrite i) ∈ s.table

/-- The bytes of request `i`. -/
structure Carried (jobs : Nat → Parser) (s : Processes) (i : Nat) : Prop where
  fresh : (s.phase i).beforeFork = true → s.child i = {} ∧ s.output i = [] ∧ s.input i = []
  /-- What was read from the script and what is in its pipe are what it has written. -/
  output : (s.phase i).collected ++ s.output i = (s.child i).written
  /-- The body goes through the other pipe in order. -/
  fed : ∀ rest, (s.phase i).remaining (jobs i).postData_ = some rest →
    (s.child i).consumed ++ s.input i ++ rest = (jobs i).postData_
  input : (s.child i).consumed ++ s.input i <+: (jobs i).postData_
  /-- After the end of file the script is gone and its pipe is empty. -/
  ended : (s.phase i).ended = true → (s.child i).phase = .exited ∧ s.output i = []
  /-- No script is ever told that its standard input has ended. -/
  noEof : (s.child i).eof = false

/-- Nothing that `Ends` and `Carried` say about request `i` has changed. -/
structure SameAt (s s' : Processes) (i : Nat) : Prop where
  phase : s'.phase i = s.phase i
  child : s'.child i = s.child i
  output : s'.output i = s.output i
  input : s'.input i = s.input i
  answers : s'.answers i = s.answers i
  held : ∀ e, (.child i, e) ∈ s'.table ↔ (.child i, e) ∈ s.table
  ends : ∀ e ∈ [PipeEnd.outputWrite i, .inputRead i, .inputWrite i],
    (.server, e) ∈ s'.table ↔ (.server, e) ∈ s.table

theorem Ends.of_sameAt {s s' : Processes} {i : Nat} (h : s.Ends i) (hs : s.SameAt s' i) :
    s'.Ends i := by
  have hw := hs.ends (.outputWrite i) (by simp)
  have hr := hs.ends (.inputRead i) (by simp)
  have hiw := hs.ends (.inputWrite i) (by simp)
  constructor
  · rw [hs.phase, hs.child]
    exact h.unborn
  · rw [hs.child, hs.held]
    exact h.writes
  · intro hdead e
    rw [hs.held]
    exact h.dead (hs.child ▸ hdead) e
  · rw [hs.phase, hw]
    exact h.holdsWriter
  · rw [hs.phase, hw]
    exact h.mayHoldWriter
  · rw [hs.phase, hr]
    exact h.mayHoldReader
  · rw [hs.phase, hiw]
    exact h.feeds

theorem Carried.of_sameAt {s s' : Processes} {i : Nat} (h : s.Carried jobs i)
    (hs : s.SameAt s' i) : s'.Carried jobs i := by
  constructor
  · rw [hs.phase, hs.child, hs.output, hs.input]
    exact h.fresh
  · rw [hs.phase, hs.child, hs.output]
    exact h.output
  · rw [hs.phase, hs.child, hs.input]
    exact h.fed
  · rw [hs.child, hs.input]
    exact h.input
  · rw [hs.phase, hs.child, hs.output]
    exact h.ended
  · rw [hs.child]
    exact h.noEof

/-! ## Steps of another request -/

theorem sameAt_worker {s s' : Processes} {i j : Nat} (hij : i ≠ j)
    (h : WorkerStep jobs capacity s j s') : s.SameAt s' i := by
  cases h <;> constructor <;> simp [hij]

theorem sameAt_child {s s' : Processes} {i j : Nat} (hij : i ≠ j)
    (h : ChildStep capacity s j s') : s.SameAt s' i := by
  cases h <;> constructor <;> simp [hij]

/-! ## Steps of the request itself -/

theorem Ends.worker {s s' : Processes} {i : Nat} (h : s.Ends i)
    (hstep : WorkerStep jobs capacity s i s') : s'.Ends i := by
  obtain ⟨hun, hw, hd, hhw, hmw, hmr, hf⟩ := h
  cases hstep with
  | cannotExecute hp =>
      rcases hp with ⟨hp, -⟩ | hp | hp <;> constructor <;> simp_all [Phase.beforeFork,
        Phase.holdsWriter, Phase.mayHoldWriter, Phase.mayHoldReader, Phase.feeds]
  | closeReader hp hph =>
      rcases hph with rfl | rfl <;> constructor <;> simp_all [Phase.beforeFork,
        Phase.holdsWriter, Phase.mayHoldWriter, Phase.mayHoldReader, Phase.feeds]
  | _ =>
      constructor <;> simp_all [Phase.beforeFork, Phase.holdsWriter, Phase.mayHoldWriter,
        Phase.mayHoldReader, Phase.feeds]

theorem Ends.child {s s' : Processes} {i : Nat} (h : s.Ends i)
    (hstep : ChildStep capacity s i s') : s'.Ends i := by
  have hborn : (s.child i).phase ≠ .unborn → (s.phase i).beforeFork ≠ true := fun hne hb =>
    hne (h.unborn.1 hb)
  obtain ⟨hun, hw, hd, hhw, hmw, hmr, hf⟩ := h
  cases hstep with
  | exit hp =>
      have := ChildPhase.ne_unborn_of_alive hp
      constructor <;> simp_all
  | _ => constructor <;> simp_all

/-- What a script may do to the bytes while it is alive. -/
theorem Carried.of_alive {s s' : Processes} {i : Nat} (h : s.Carried jobs i) (he : s.Ends i)
    (halive : (s.child i).phase.alive = true) (hphase : s'.phase i = s.phase i)
    (hout : (s.phase i).collected ++ s'.output i = (s'.child i).written)
    (hin : (s'.child i).consumed ++ s'.input i = (s.child i).consumed ++ s.input i)
    (heof : (s'.child i).eof = false) : s'.Carried jobs i := by
  constructor
  · intro hb
    rw [hphase] at hb
    exact absurd (he.unborn.1 hb) (ChildPhase.ne_unborn_of_alive halive)
  · rwa [hphase]
  · rw [hphase, hin]
    exact h.fed
  · rw [hin]
    exact h.input
  · intro hended
    rw [hphase] at hended
    exact absurd (h.ended hended).1 (ChildPhase.ne_exited_of_alive halive)
  · exact heof

theorem Carried.child {s s' : Processes} {i : Nat} (h : s.Carried jobs i) (he : s.Ends i)
    (hstep : ChildStep capacity s i s') : s'.Carried jobs i := by
  have hout := h.output
  have hne := h.noEof
  cases hstep with
  | exit hp => exact h.of_alive he hp rfl (by simpa using hout) (by simp) (by simpa using hne)
  | closeReader hp =>
      exact h.of_alive he (by simp [hp]) rfl (by simpa using hout) (by simp) (by simpa using hne)
  | closeWriter hp =>
      exact h.of_alive he (by simp [hp]) rfl (by simpa using hout) (by simp) (by simpa using hne)
  | exec hp =>
      exact h.of_alive he (by simp [hp]) rfl (by simpa using hout) (by simp) (by simpa using hne)
  | read hp =>
      exact h.of_alive he (by simp [hp]) rfl (by simpa using hout) (by simp) (by simpa using hne)
  | write hp hroom =>
      refine h.of_alive he (by simp [hp]) rfl ?_ (by simp) (by simpa using hne)
      simp [← hout]
  | readEof hp hnone =>
      -- the server still holds the write end: it closes it only after the script has exited
      have hfeeds : (s.phase i).feeds = false := by
        by_contra hf
        exact Descriptors.held_eq_false.1 hnone .server (he.feeds (by simpa using hf))
      have hunborn := mt he.unborn.1 (by simp [hp])
      have hended := mt h.ended (by simp [hp])
      cases hph : s.phase i <;> simp_all [Phase.feeds, Phase.beforeFork, Phase.ended]

theorem Carried.worker {s s' : Processes} {i : Nat} (h : s.Carried jobs i) (he : s.Ends i)
    (hstep : WorkerStep jobs capacity s i s') : s'.Carried jobs i := by
  have hborn := he.unborn
  have hwrites := he.writes
  obtain ⟨hun, hout, hfed, hin, hend, hne⟩ := h
  cases hstep with
  | cannotExecute hp =>
      rcases hp with ⟨hp, -⟩ | hp | hp <;> constructor <;> simp_all [Phase.beforeFork, Phase.ended,
        Phase.collected, Phase.remaining]
  | closeReader hp hph =>
      rcases hph with rfl | rfl <;> constructor <;> simp_all [Phase.beforeFork, Phase.ended,
        Phase.collected, Phase.remaining]
  | @write rest n hp hroom =>
      have hsplit : (s.child i).consumed ++ s.input i ++ rest.take n ++ rest.drop n =
          (jobs i).postData_ := by
        rw [List.append_assoc, List.take_append_drop]
        exact hfed rest (by simp [hp, Phase.remaining])
      have hprefix : (s.child i).consumed ++ (s.input i ++ rest.take n) <+: (jobs i).postData_ := by
        rw [← List.append_assoc, ← hsplit]
        exact List.prefix_append _ _
      constructor <;> simp_all [Phase.beforeFork, Phase.ended, Phase.collected, Phase.remaining]
  | @readEof res hp ho hnone =>
      -- a script that is alive holds the write end of its pipe
      have hexited : (s.child i).phase = .exited := by
        have hdead : (s.child i).phase.alive = false := by
          by_contra ha
          exact Descriptors.held_eq_false.1 hnone _ (hwrites (by simpa using ha))
        have hbefore : (s.child i).phase ≠ .unborn := by
          intro hu
          simpa [hp, Phase.beforeFork] using hborn.2 hu
        cases hc : (s.child i).phase <;> simp_all
      constructor <;> simp_all [Phase.beforeFork, Phase.ended, Phase.collected, Phase.remaining]
  | _ =>
      constructor <;> simp_all [Phase.beforeFork, Phase.ended, Phase.collected, Phase.remaining]

/-- The early returns of `execute_cgi`. -/
structure Admitted (jobs : Nat → Parser) (s : Processes) (i : Nat) : Prop where
  good : s.phase i ≠ .entered → (∀ page, s.phase i ≠ .refused page) → badLength (jobs i) = false
  answers : ∀ l, (s.phase i).answers = some l → s.answers i = l
  refused : ∀ page, s.phase i = .refused page →
    badLength (jobs i) = true ∧ page = Parser.bad_request ∧ s.answers i = [] ∨
      badLength (jobs i) = false ∧ page = Parser.cannot_execute ∧
        s.answers i ∈ [[false], [true, false], [true, true, false]]

/-- Nobody holds the writing end of an output that has ended. -/
def Silent (s : Processes) (i : Nat) : Prop :=
  (s.phase i).ended = true → s.table.held (.outputWrite i) = false

/-- The environment in which `execute_cgi` is one step: its calls answer as those of request `i` have
answered so far, and the script writes what that of request `i` has written. -/
def Agrees (s : Processes) (i : Nat) (e : CgiEnv) : Prop :=
  s.answers i <+: [e.cgi_output, e.cgi_input, e.fork] ∧ e.output = (s.child i).written

theorem execute_cgi_of_badLength {p : Parser} (h : badLength p = true) (e : CgiEnv) :
    p.execute_cgi e = Parser.bad_request := by
  simp only [badLength, isPost, Bool.and_eq_true, beq_iff_eq] at h
  simp [Parser.execute_cgi, h]

theorem execute_cgi_of_goodLength {p : Parser} (h : badLength p = false) (e : CgiEnv) :
    p.execute_cgi e =
      if e.cgi_output && e.cgi_input && e.fork then e.output else Parser.cannot_execute := by
  have hgood : ¬(p.param "REQUEST_METHOD" = Bytes.ofString "POST" ∧
      atoi (p.param "CONTENT_LENGTH") = -1) := by
    simpa [badLength, isPost] using h
  cases ho : e.cgi_output <;> cases hi : e.cgi_input <;> cases hf : e.fork <;>
    simp [Parser.execute_cgi, hgood, ho, hi, hf]

/-- A call that has failed makes `execute_cgi` return early. -/
theorem execute_cgi_of_failed {p : Parser} (h : badLength p = false) {e : CgiEnv}
    (hfailed : false ∈ [e.cgi_output, e.cgi_input, e.fork]) :
    p.execute_cgi e = Parser.cannot_execute := by
  rw [execute_cgi_of_goodLength h, if_neg]
  intro hall
  simp_all

theorem Admitted.worker {s s' : Processes} {i : Nat} (h : s.Admitted jobs i)
    (hstep : WorkerStep jobs capacity s i s') : s'.Admitted jobs i := by
  obtain ⟨hgood, hanswers, hrefused⟩ := h
  cases hstep with
  | badRequest hp hbad =>
      refine ⟨by simp, by simp [Phase.answers], ?_⟩
      intro page hpage
      have heq : Parser.bad_request = page := by simpa using hpage
      exact Or.inl ⟨hbad, heq.symm, hanswers [] (by rw [hp]; rfl)⟩
  | cannotExecute hp =>
      refine ⟨by simp, by simp [Phase.answers], ?_⟩
      intro page hpage
      have heq : Parser.cannot_execute = page := by simpa using hpage
      refine Or.inr ?_
      rcases hp with ⟨hp, hlength⟩ | hp | hp
      · have hcalls := hanswers [] (by rw [hp]; rfl)
        exact ⟨hlength, heq.symm, by simp [hcalls]⟩
      · have hcalls := hanswers [true] (by rw [hp]; rfl)
        exact ⟨hgood (by simp [hp]) (by simp [hp]), heq.symm, by simp [hcalls]⟩
      · have hcalls := hanswers [true, true] (by rw [hp]; rfl)
        exact ⟨hgood (by simp [hp]) (by simp [hp]), heq.symm, by simp [hcalls]⟩
  | closeReader hp hph =>
      rcases hph with rfl | rfl <;> constructor <;> simp_all [Phase.answers]
  | _ => constructor <;> simp_all [Phase.answers]

theorem Admitted.of_sameAt {s s' : Processes} {i : Nat} (h : s.Admitted jobs i)
    (hs : s.SameAt s' i) : s'.Admitted jobs i := by
  constructor
  · rw [hs.phase]
    exact h.good
  · rw [hs.phase, hs.answers]
    exact h.answers
  · rw [hs.phase, hs.answers]
    exact h.refused

theorem Admitted.child {s s' : Processes} {i : Nat} (h : s.Admitted jobs i)
    (hstep : ChildStep capacity s i s') : s'.Admitted jobs i := by
  obtain ⟨hgood, hanswers, hrefused⟩ := h
  cases hstep <;> exact ⟨hgood, hanswers, hrefused⟩

/-! ## Who may still write -/

/-- Only the request itself opens its output pipe; all other calls copy or close descriptors. -/
theorem held_worker {s s' : Processes} {i j : Nat} (hstep : WorkerStep jobs capacity s j s')
    (hheld : s'.table.held (.outputWrite i) = true) :
    s.table.held (.outputWrite i) = true ∨ j = i ∧ s.phase i = .entered := by
  obtain ⟨q, hq⟩ := Descriptors.held_iff.1 hheld
  rw [Descriptors.held_iff]
  cases hstep with
  | outputPipe hp =>
      have hq' : (q, .outputWrite i) ∈ s.table ∨ q = .server ∧ i = j := by simpa using hq
      rcases hq' with hold | ⟨-, rfl⟩
      · exact Or.inl ⟨q, hold⟩
      · exact Or.inr ⟨rfl, hp⟩
  | inputPipe hp => exact Or.inl ⟨q, by simpa using hq⟩
  | fork hp =>
      have hq' : (q, .outputWrite i) ∈ s.table ∨ q = .child j ∧ (.server, .outputWrite i) ∈ s.table :=
        by simpa using hq
      rcases hq' with hold | ⟨-, hserver⟩
      · exact Or.inl ⟨q, hold⟩
      · exact Or.inl ⟨_, hserver⟩
  | _ => exact Or.inl ⟨q, by simp_all⟩

theorem held_child {s s' : Processes} {i j : Nat} (hstep : ChildStep capacity s j s')
    (hheld : s'.table.held (.outputWrite i) = true) : s.table.held (.outputWrite i) = true := by
  obtain ⟨q, hq⟩ := Descriptors.held_iff.1 hheld
  rw [Descriptors.held_iff]
  cases hstep <;> exact ⟨q, by simp_all⟩

/-- A request's output ends when `read` finds nobody who could still write. -/
theorem ended_worker {s s' : Processes} {i : Nat} (hstep : WorkerStep jobs capacity s i s')
    (hended : (s'.phase i).ended = true) :
    (s.phase i).ended = true ∨ s.table.held (.outputWrite i) = false := by
  cases hstep with
  | readEof hp ho hnone => exact Or.inr hnone
  | closeReader hp hph => rcases hph with rfl | rfl <;> simp [Phase.ended] at hended
  | _ => simp_all [Phase.ended]

theorem Silent.worker {s s' : Processes} {i j : Nat} (h : s.Silent i)
    (hstep : WorkerStep jobs capacity s j s') : s'.Silent i := by
  intro hended
  have hbefore : s.phase i ≠ .entered ∧ s.table.held (.outputWrite i) = false := by
    by_cases hij : i = j
    · subst hij
      refine ⟨?_, (ended_worker hstep hended).elim h id⟩
      intro hentered
      cases hstep <;> simp_all [Phase.ended]
    · rw [(sameAt_worker hij hstep).phase] at hended
      refine ⟨?_, h hended⟩
      intro hentered
      simp [hentered, Phase.ended] at hended
  by_contra hheld
  rcases held_worker hstep (by simpa using hheld) with hold | ⟨-, hentered⟩
  · simp [hbefore.2] at hold
  · exact hbefore.1 hentered

theorem Silent.child {s s' : Processes} {i j : Nat} (h : s.Silent i)
    (hstep : ChildStep capacity s j s') : s'.Silent i := by
  intro hended
  have hphase : s'.phase = s.phase := by cases hstep <;> rfl
  rw [hphase] at hended
  by_contra hheld
  have hold := held_child hstep (by simpa using hheld)
  simp [h hended] at hold

/-! ## Runs -/

/-- What holds of every request in every reachable state. -/
def Inv (jobs : Nat → Parser) (s : Processes) : Prop :=
  ∀ i, s.Ends i ∧ s.Carried jobs i ∧ s.Admitted jobs i ∧ s.Silent i

theorem inv_start (jobs : Nat → Parser) : Inv jobs {} := by
  intro i
  refine ⟨?_, ?_, ?_, fun _ => rfl⟩ <;> constructor <;>
    simp [Phase.beforeFork, Phase.holdsWriter, Phase.mayHoldWriter, Phase.mayHoldReader,
      Phase.feeds, Phase.collected, Phase.remaining, Phase.ended, Phase.answers]

/-- The step lemma. -/
theorem next_inv {s s' : Processes} {m : Move} (h : s.Inv jobs)
    (hm : s.next jobs capacity m = some s') : s'.Inv jobs := by
  intro i
  obtain ⟨hends, hcarried, hadmitted, hsilent⟩ := h i
  cases m with
  | worker j a =>
      have hstep := workerStep_cases hm
      by_cases hij : i = j
      · subst hij
        exact ⟨hends.worker hstep, hcarried.worker hends hstep, hadmitted.worker hstep,
          hsilent.worker hstep⟩
      · have hs := sameAt_worker hij hstep
        exact ⟨hends.of_sameAt hs, hcarried.of_sameAt hs, hadmitted.of_sameAt hs,
          hsilent.worker hstep⟩
  | child j c =>
      have hstep := childStep_cases hm
      by_cases hij : i = j
      · subst hij
        exact ⟨hends.child hstep, hcarried.child hends hstep, hadmitted.child hstep,
          hsilent.child hstep⟩
      · have hs := sameAt_child hij hstep
        exact ⟨hends.of_sameAt hs, hcarried.of_sameAt hs, hadmitted.of_sameAt hs,
          hsilent.child hstep⟩

theorem reachable_inv {s : Processes} (h : (system jobs capacity).Reachable s) : s.Inv jobs := by
  refine h.invariant ?_ ?_
  · rintro s rfl
    exact inv_start jobs
  · intro s m s' hs hm
    exact next_inv hs hm

/-- Requests without parameters or body, on pipes of four bytes. -/
def noBody : Nat → Parser := fun _ => { params_ := fun _ => none, postData_ := [] }

def runMoves (allowed : Move → Bool) (ms : List Move) : Option Processes :=
  System.runAll (fun s m => if allowed m = true then s.next noBody 4 m else none) {} ms

theorem reachable_runMoves {allowed : Move → Bool} {ms : List Move} {s : Processes}
    (h : runMoves allowed ms = some s) :
    ((system noBody 4).restrict fun _ m => allowed m = true).Reachable s := by
  refine .of_runAll ?_ (.init rfl) h
  intro s m s' hm
  exact Option.ite_none_right_eq_some.1 hm

/-! ## Answers -/

/-- When the output of a request has ended, all its calls have succeeded, its script is gone and has
left nothing in the pipe, and nobody can write to the pipe any more. -/
structure Ended (jobs : Nat → Parser) (s : Processes) (i : Nat) : Prop where
  good : badLength (jobs i) = false
  answers : s.answers i = [true, true, true]
  exited : (s.child i).phase = .exited
  silent : s.table.held (.outputWrite i) = false
  collected : (s.phase i).collected = (s.child i).written

theorem ended_of_inv {s : Processes} {i : Nat} (h : s.Inv jobs) (hended : (s.phase i).ended = true) :
    s.Ended jobs i := by
  obtain ⟨-, hcarried, hadmitted, hsilent⟩ := h i
  obtain ⟨hexited, hempty⟩ := hcarried.ended hended
  have hcollected := hcarried.output
  rw [hempty, List.append_nil] at hcollected
  refine ⟨hadmitted.good ?_ ?_, hadmitted.answers _ ?_, hexited, hsilent hended, hcollected⟩
  · intro hentered
    simp [hentered, Phase.ended] at hended
  · intro page hpage
    simp [hpage, Phase.ended] at hended
  · cases hp : s.phase i <;> simp_all [Phase.ended, Phase.answers]

/-- At most three calls have been answered. -/
theorem exists_agrees {s : Processes} (h : s.Inv jobs) (i : Nat) : ∃ e, s.Agrees i e := by
  have hmem : s.answers i ∈ [[], [true], [true, true], [true, true, true], [false], [true, false],
      [true, true, false]] := by
    cases hp : s.phase i with
    | refused page =>
        rcases (h i).2.2.1.refused page hp with ⟨-, -, hnil⟩ | ⟨-, -, hcalls⟩
        · simp [hnil]
        · simp only [List.mem_cons, List.not_mem_nil, or_false] at hcalls ⊢
          tauto
    | _ =>
        rw [(h i).2.2.1.answers _ (by rw [hp]; rfl)]
        simp
  have hlength : (s.answers i).length ≤ 3 := by
    simp only [List.mem_cons, List.not_mem_nil, or_false] at hmem
    rcases hmem with heq | heq | heq | heq | heq | heq | heq <;> simp [heq]
  refine ⟨⟨fun _ => none, (s.answers i).getD 0 false, (s.answers i).getD 1 false,
    (s.answers i).getD 2 false, (s.child i).written⟩, ?_, rfl⟩
  generalize s.answers i = calls at hlength ⊢
  rcases calls with _ | ⟨a, _ | ⟨b, _ | ⟨c, _ | ⟨d, l⟩⟩⟩⟩
  · exact List.nil_prefix
  · exact ⟨[false, false], rfl⟩
  · exact ⟨[false], rfl⟩
  · exact ⟨[], rfl⟩
  · have hfour : l.length + 4 ≤ 3 := hlength
    exact absurd hfour (by omega)

/-- Nothing that the calls have not answered matters for an answer. -/
theorem answer_eq {s : Processes} {i : Nat} (h : s.Inv jobs) {text : Bytes}
    (htext : (s.phase i).answer = some text) {e : CgiEnv} (he : s.Agrees i e) :
    text = (jobs i).execute_cgi e := by
  obtain ⟨hanswers, houtput⟩ := he
  have hsent : (s.phase i).ended = true → (s.phase i).collected = text →
      text = (jobs i).execute_cgi e := by
    intro hended hcollected
    have hend := ended_of_inv h hended
    have hall : [true, true, true] = [e.cgi_output, e.cgi_input, e.fork] := by
      rw [hend.answers] at hanswers
      exact hanswers.eq_of_length rfl
    simp only [List.cons.injEq, and_true] at hall
    rw [execute_cgi_of_goodLength hend.good, ← hall.1, ← hall.2.1, ← hall.2.2, houtput,
      ← hend.collected, hcollected]
    rfl
  cases hp : s.phase i with
  | refused page =>
      obtain rfl : page = text := by simpa [hp, Phase.answer] using htext
      rcases (h i).2.2.1.refused page hp with ⟨hbad, rfl, -⟩ | ⟨hgood, rfl, hcalls⟩
      · exact (execute_cgi_of_badLength hbad e).symm
      · have hfailed : false ∈ s.answers i := by
          simp only [List.mem_cons, List.not_mem_nil, or_false] at hcalls
          rcases hcalls with heq | heq | heq <;> simp [heq]
        exact (execute_cgi_of_failed hgood (hanswers.subset hfailed)).symm
  | sent res | outputClosed res | inputClosed res | finished res =>
      obtain rfl : res = text := by simpa [hp, Phase.answer] using htext
      exact hsent (by simp [hp, Phase.ended]) (by simp [hp, Phase.collected])
  | _ => simp [hp, Phase.answer] at htext

/-- A request is answered with what the one-step `execute_cgi` gives for the answers that its calls
got in this run and for the output that its script really had; with the script's output only once
nobody can write to the pipe any more.  Until then the bytes read and the bytes in the pipe are what
the script has written, and the script has read a prefix of the body. -/
theorem answers_output {s : Processes} (h : (system jobs capacity).Reachable s) (i : Nat) :
    (∀ text, (s.phase i).answer = some text → (s.child i).phase.alive = false ∧
      (∃ e, s.Agrees i e) ∧ ∀ e, s.Agrees i e → text = (jobs i).execute_cgi e) ∧
      ((s.phase i).ended = true → s.Ended jobs i) ∧
      (s.phase i).collected ++ s.output i = (s.child i).written ∧
      (s.child i).consumed ++ s.input i <+: (jobs i).postData_ := by
  have hinv := reachable_inv h
  obtain ⟨-, hcarried, -, -⟩ := hinv i
  refine ⟨?_, ended_of_inv hinv, hcarried.output, hcarried.input⟩
  intro text htext
  refine ⟨?_, exists_agrees hinv i, fun e he => answer_eq hinv htext he⟩
  cases hp : s.phase i with
  | refused page => simp [(hcarried.fresh (by simp [hp, Phase.beforeFork])).1]
  | sent res | outputClosed res | inputClosed res | finished res =>
      simp [(hcarried.ended (by simp [hp, Phase.ended])).1]
  | _ => simp [hp, Phase.answer] at htext

/-- The script writes two bytes in one piece and exits.  In between another request fails to fork. -/
def served : List Move :=
  List.replicate 5 (.worker 0 {}) ++ List.replicate 3 (.child 0 .go) ++
    [.worker 1 {}, .child 0 (.write [1, 2]), .worker 1 {}, .worker 0 {}, .worker 1 { ok := false },
      .child 0 .exit] ++ List.replicate 6 (.worker 0 {})

theorem answers_output_served :
    ∃ s, runMoves (fun _ => true) served = some s ∧
      (∀ e, s.Agrees 0 e → [1, 2] = (noBody 0).execute_cgi e) ∧
      (∀ e, s.Agrees 1 e → Parser.cannot_execute = (noBody 1).execute_cgi e) ∧
      s.Agrees 0 ⟨fun _ => none, true, true, true, [1, 2]⟩ ∧
      s.Agrees 1 ⟨fun _ => none, true, true, false, []⟩ ∧ s.Ended noBody 0 := by
  obtain ⟨s, hs, hanswer, hrefused, hended, hanswers, hwritten, hanswers', hwritten'⟩ : ∃ s,
      runMoves (fun _ => true) served = some s ∧ (s.phase 0).answer = some [1, 2] ∧
        (s.phase 1).answer = some Parser.cannot_execute ∧ (s.phase 0).ended = true ∧
        s.answers 0 = [true, true, true] ∧ (s.child 0).written = [1, 2] ∧
        s.answers 1 = [true, true, false] ∧ (s.child 1).written = [] := by
    have hrun : ((runMoves (fun _ => true) served).map fun s =>
        decide ((s.phase 0).answer = some [1, 2] ∧
          (s.phase 1).answer = some Parser.cannot_execute ∧ (s.phase 0).ended = true ∧
          s.answers 0 = [true, true, true] ∧ (s.child 0).written = [1, 2] ∧
          s.answers 1 = [true, true, false] ∧ (s.child 1).written = [])) = some true := by
      decide +kernel
    rcases Option.map_eq_some_iff.1 hrun with ⟨s, hs, hall⟩
    exact ⟨s, hs, of_decide_eq_true hall⟩
  have hreach := (reachable_runMoves hs).of_restrict
  refine ⟨s, hs, ((answers_output hreach 0).1 _ hanswer).2.2,
    ((answers_output hreach 1).1 _ hrefused).2.2, ?_, ?_, (answers_output hreach 0).2.1 hended⟩
  · exact ⟨hanswers ▸ List.prefix_rfl, hwritten.symm⟩
  · exact ⟨hanswers' ▸ List.prefix_rfl, hwritten'.symm⟩

/-! ## The end of standard input -/

/-- The script of request `i` exits only after `read` of its standard input has returned 0. -/
def readsToEnd (i : Nat) (s : Processes) (m : Move) : Prop :=
  m = .child i .exit → (s.child i).eof = true

theorem eq_exit_of_exited {s s' : Processes} {i : Nat} {c : ChildMove}
    (h : s.childStep capacity i c = some s') (hexited : (s'.child i).phase = .exited) :
    c = .exit := by
  unfold childStep at h
  dsimp only at h
  split at h
  · cases h
  · cases h
  · rfl
  · cases h
    simp at hexited
  · cases h
    simp at hexited
  · cases h
    simp at hexited
  · rename_i n hp
    split at h
    · cases h
      simp [hp] at hexited
    · split at h <;> cases h
      simp [hp] at hexited
  · rename_i bytes hp
    split at h <;> cases h
    simp [hp] at hexited
  · cases h

theorem not_exited {i : Nat} {s : Processes}
    (h : ((system jobs capacity).restrict (readsToEnd i)).Reachable s) :
    (s.child i).phase ≠ .exited := by
  have hboth : s.Inv jobs ∧ (s.child i).phase ≠ .exited := by
    refine h.invariant (P := fun s => s.Inv jobs ∧ (s.child i).phase ≠ .exited) ?_ ?_
    · rintro s rfl
      exact ⟨inv_start jobs, by simp⟩
    · rintro s m s' ⟨hinv, hne⟩ ⟨hreads, hm⟩
      refine ⟨next_inv hinv hm, ?_⟩
      cases m with
      | worker j a =>
          by_cases hij : i = j
          · subst hij
            have hstep := workerStep_cases hm
            cases hstep with
            | fork hp => simp
            | _ => simpa using hne
          · rw [(sameAt_worker hij (workerStep_cases hm)).child]
            exact hne
      | child j c =>
          by_cases hij : i = j
          · subst hij
            have heof := (hinv i).2.1.noEof
            intro hexited
            rw [hreads (by rw [eq_exit_of_exited hm hexited])] at heof
            cases heof
          · rw [(sameAt_child hij (childStep_cases hm)).child]
            exact hne
  exact hboth.2

/-- Standard input never ends: no script ever reads 0 from it, so a request whose script waits for
the end of its input before it exits is never answered with the script's output. -/
theorem stdin_never_ends {s : Processes} {i : Nat} :
    ((system jobs capacity).Reachable s → (s.child i).eof = false) ∧
      (((system jobs capacity).restrict (readsToEnd i)).Reachable s →
        (s.phase i).ended = false) := by
  refine ⟨fun h => (reachable_inv h i).2.1.noEof, ?_⟩
  intro h
  by_contra hended
  have hcarried := (reachable_inv h.of_restrict i).2.1
  exact not_exited h (hcarried.ended (by simpa using hended)).1

/-- The script runs and never exits. -/
def listening : List Move :=
  List.replicate 5 (.worker 0 {}) ++ List.replicate 3 (.child 0 .go)

theorem stdin_never_ends_listening :
    ∃ s, runMoves (fun m => m != .child 0 .exit) listening = some s ∧
      (s.child 0).phase = .running ∧ (s.child 0).eof = false ∧ (s.phase 0).ended = false := by
  obtain ⟨s, hs, hrunning⟩ : ∃ s, runMoves (fun m => m != .child 0 .exit) listening = some s ∧
      (s.child 0).phase = .running := by
    have hrun : ((runMoves (fun m => m != .child 0 .exit) listening).map fun s =>
        (s.child 0).phase) = some .running := by decide +kernel
    simpa [Option.map_eq_some_iff] using hrun
  have hreach := reachable_runMoves hs
  have hreads : ((system noBody 4).restrict (readsToEnd 0)).Reachable s := by
    refine System.Reachable.mono ?_ ?_ hreach
    · exact fun _ hs => hs
    · rintro s m s' ⟨hm, hstep⟩
      exact ⟨fun heq => by simp [heq] at hm, hstep⟩
  exact ⟨s, hs, hrunning, stdin_never_ends.1 hreach.of_restrict, stdin_never_ends.2 hreads⟩

/-! ## Who waits for whom -/

/-- A held end of a request's pipe that the server does not hold is held by a live script. -/
theorem holder_alive {s : Processes} (h : s.Inv jobs) {e : PipeEnd}
    (hserver : (.server, e) ∉ s.table) (hheld : s.table.held e = true) :
    ∃ j, (s.child j).phase.alive = true ∧ (.child j, e) ∈ s.table := by
  rcases Descriptors.held_iff.1 hheld with ⟨q, hq⟩
  cases q with
  | server => exact absurd hq hserver
  | child j =>
      refine ⟨j, ?_, hq⟩
      by_contra hdead
      exact (h j).1.dead (by simpa using hdead) e hq

/-- The pool thread of request `i` waits for a script that is alive. -/
inductive Blocked (capacity : Nat) (s : Processes) (i : Nat) : Prop where
  /-- The body does not fit the pipe, and a live script could still read it. -/
  | write {rest : Bytes} {j : Nat} (hp : s.phase i = .writing rest) (hrest : rest ≠ [])
      (hfull : capacity ≤ (s.input i).length) (halive : (s.child j).phase.alive = true)
      (hholds : (.child j, .inputRead i) ∈ s.table)
  /-- The pipe is empty, and a live script could still write to it. -/
  | read {res : Bytes} {j : Nat} (hp : s.phase i = .reading res) (hempty : s.output i = [])
      (halive : (s.child j).phase.alive = true) (hholds : (.child j, .outputWrite i) ∈ s.table)

def Phase.returned : Phase → Bool
  | .finished _ | .refused _ => true
  | _ => false

theorem workerStep_eq_none {s : Processes} (h : s.Inv jobs) (i : Nat) (a : Answer) :
    s.workerStep jobs capacity i a = none ↔
      Phase.returned (s.phase i) = true ∨ Blocked capacity s i := by
  obtain ⟨hends, hcarried, -, -⟩ := h i
  refine ⟨?_, ?_⟩
  · intro hnone
    unfold workerStep at hnone
    cases hp : s.phase i with
    | finished res => exact Or.inl rfl
    | refused page => exact Or.inl rfl
    | writing rest =>
        rw [hp] at hnone
        dsimp only at hnone
        split at hnone
        · cases hnone
        · rename_i hrest
          split at hnone
          · cases hnone
          · rename_i hheld
            split at hnone
            · rename_i hroom
              have hserver : (.server, .inputRead i) ∉ s.table := by
                intro hmem
                simpa [hp, Phase.mayHoldReader] using hends.mayHoldReader hmem
              rcases holder_alive h hserver (by simpa using hheld) with ⟨j, halive, hholds⟩
              exact Or.inr (.write hp hrest (by omega) halive hholds)
            · cases hnone
    | reading res =>
        rw [hp] at hnone
        dsimp only at hnone
        split at hnone
        · cases hnone
        · rename_i hempty
          split at hnone
          · rename_i hheld
            have hserver : (.server, .outputWrite i) ∉ s.table := by
              intro hmem
              simpa [hp, Phase.mayHoldWriter] using hends.mayHoldWriter hmem
            rcases holder_alive h hserver hheld with ⟨j, halive, hholds⟩
            exact Or.inr (.read hp hempty halive hholds)
          · cases hnone
    | inputClosed res =>
        -- the script was gone when `read` returned 0
        have hexited := (hcarried.ended (by simp [hp, Phase.ended])).1
        rw [hp] at hnone
        simp [hexited] at hnone
    | entered | outputPipe | inputPipe =>
        rw [hp] at hnone
        dsimp only at hnone
        split at hnone
        · cases hnone
        · first
            | cases hnone
            | (split at hnone <;> cases hnone)
    | _ =>
        rw [hp] at hnone
        cases hnone
  · rintro (hreturned | hblocked)
    · cases hp : s.phase i <;> simp_all [Phase.returned, workerStep]
    · cases hblocked with
      | write hp hrest hfull halive hholds =>
          have hheld : s.table.held (.inputRead i) = true := Descriptors.held_iff.2 ⟨_, hholds⟩
          simp [workerStep, hp, hrest, hheld, Nat.sub_eq_zero_of_le hfull]
      | read hp hempty halive hholds =>
          have hheld : s.table.held (.outputWrite i) = true := Descriptors.held_iff.2 ⟨_, hholds⟩
          simp [workerStep, hp, hempty, hheld]

/-- A body that fits the pipe never blocks its pool thread. -/
theorem not_blocked_writing {s : Processes} (h : s.Inv jobs) {i : Nat}
    (hfits : (jobs i).postData_.length ≤ capacity) {rest : Bytes} (hp : s.phase i = .writing rest) :
    ¬ Blocked capacity s i := by
  intro hblocked
  cases hblocked with
  | read hp' => simp [hp] at hp'
  | @write rest' j hp' hrest hfull halive hholds =>
      obtain rfl : rest = rest' := by simpa [hp] using hp'
      have hfed := (h i).2.1.fed rest (by simp [hp, Phase.remaining])
      have hlength := congrArg List.length hfed
      have hpos := List.length_pos_of_ne_nil hrest
      simp only [List.length_append] at hlength
      omega

/-- Who waits for whom.  The pool thread of a request that has not returned can always go on, unless
it waits for a script that is alive: in `write` for room, in the reading loop for bytes or for the
last holder of the pipe.  With no script alive every request goes on; a body that fits the pipe
never blocks. -/
theorem blocked_only_by_scripts {s : Processes} (h : (system jobs capacity).Reachable s) (i : Nat)
    (a : Answer) :
    (s.workerStep jobs capacity i a = none ↔
      Phase.returned (s.phase i) = true ∨ Blocked capacity s i) ∧
      ((∀ j, (s.child j).phase.alive = false) → Phase.returned (s.phase i) = false →
        (s.workerStep jobs capacity i a).isSome = true) ∧
      ((jobs i).postData_.length ≤ capacity → ∀ rest, s.phase i = .writing rest →
        (s.workerStep jobs capacity i a).isSome = true) := by
  have hinv := reachable_inv h
  have hnone : s.workerStep jobs capacity i a = none ↔ _ := workerStep_eq_none hinv i a
  have hgoes : Phase.returned (s.phase i) = false → ¬ Blocked capacity s i →
      (s.workerStep jobs capacity i a).isSome = true := by
    intro hr hb
    rw [Option.isSome_iff_ne_none, ne_eq, hnone, not_or]
    exact ⟨by simp [hr], hb⟩
  refine ⟨hnone, ?_, ?_⟩
  · intro hdead hr
    refine hgoes hr ?_
    rintro (⟨-, -, -, halive, -⟩ | ⟨-, -, halive, -⟩) <;> simp [hdead] at halive
  · intro hfits rest hp
    exact hgoes (by simp [hp, Phase.returned]) (not_blocked_writing hinv hfits hp)

/-- Two requests make their pipes; the second forks first and inherits the first one's. -/
def crossed : List Move :=
  [.worker 0 {}, .worker 0 {}, .worker 1 {}, .worker 1 {}, .worker 1 {},
    .worker 0 {}, .worker 0 {}, .worker 0 {}, .child 0 .exit]

/-- The first request's script has exited, and its pool thread still waits: for the second's. -/
theorem blocked_only_by_scripts_crossed :
    ∃ s, runMoves (fun _ => true) crossed = some s ∧ (s.child 0).phase = .exited ∧
      Blocked 4 s 0 := by
  obtain ⟨s, hs, hexited, hnone, hreturned⟩ : ∃ s, runMoves (fun _ => true) crossed = some s ∧
      (s.child 0).phase = .exited ∧ s.workerStep noBody 4 0 {} = none ∧
        Phase.returned (s.phase 0) = false := by
    have hrun : ((runMoves (fun _ => true) crossed).map fun s => ((s.child 0).phase,
        (s.workerStep noBody 4 0 {}).isNone, Phase.returned (s.phase 0))) =
          some (.exited, true, false) := by decide +kernel
    simpa [Option.map_eq_some_iff] using hrun
  have hblocked := (blocked_only_by_scripts (reachable_runMoves hs).of_restrict 0 {}).1.1 hnone
  exact ⟨s, hs, hexited, hblocked.resolve_left (by simp [hreturned])⟩

/-! ## Requests that do not fork into each other's way -/

/-- The ends of request `i` whose copies keep its pool thread waiting. -/
def awaited (i : Nat) : List PipeEnd :=
  [.outputWrite i, .inputRead i]

/-- No request forks while the server still holds such an end of another that has not failed. -/
def apart (s : Processes) (m : Move) : Prop :=
  ∀ j a, m = .worker j a → s.phase j = .inputPipe → ∀ i ≠ j,
    (∀ page, s.phase i ≠ .refused page) → ∀ e ∈ awaited i, (.server, e) ∉ s.table

/-- A script holds such ends of its own request only, or of one that has failed. -/
def OwnEnds (s : Processes) : Prop :=
  ∀ j i, ∀ e ∈ awaited i, (.child j, e) ∈ s.table → j = i ∨ ∃ page, s.phase i = .refused page

/-- Where a script's descriptors come from. -/
theorem child_mem_worker {s s' : Processes} {j k : Nat} {e : PipeEnd}
    (h : WorkerStep jobs capacity s k s') (hmem : (.child j, e) ∈ s'.table) :
    (.child j, e) ∈ s.table ∨ j = k ∧ s.phase k = .inputPipe ∧ (.server, e) ∈ s.table := by
  cases h with
  | fork hp =>
      have hmem' : (.child j, e) ∈ s.table ∨ j = k ∧ (.server, e) ∈ s.table := by simpa using hmem
      exact hmem'.imp_right fun hfork => ⟨hfork.1, hp, hfork.2⟩
  | _ => simp_all

theorem child_mem_child {s s' : Processes} {j k : Nat} {e : PipeEnd}
    (h : ChildStep capacity s k s') (hmem : (.child j, e) ∈ s'.table) :
    (.child j, e) ∈ s.table := by
  cases h <;> simp_all

theorem refused_kept {s s' : Processes} {m : Move} (hm : s.next jobs capacity m = some s') {i : Nat}
    {page : Bytes} (h : s.phase i = .refused page) : s'.phase i = .refused page := by
  cases m with
  | worker j a =>
      by_cases hij : i = j
      · subst hij
        simp [next, workerStep, h] at hm
      · rw [(sameAt_worker hij (workerStep_cases hm)).phase, h]
  | child j c =>
      have hphase : s'.phase = s.phase := by cases childStep_cases hm <;> rfl
      rw [hphase, h]

theorem next_ownEnds {s s' : Processes} {m : Move} (h : s.OwnEnds) (hapart : apart s m)
    (hm : s.next jobs capacity m = some s') : s'.OwnEnds := by
  intro j i e he hmem
  have hkept : (j = i ∨ ∃ page, s.phase i = .refused page) →
      j = i ∨ ∃ page, s'.phase i = .refused page := by
    rintro (hji | ⟨page, hpage⟩)
    · exact Or.inl hji
    · exact Or.inr ⟨page, refused_kept hm hpage⟩
  cases m with
  | worker k a =>
      rcases child_mem_worker (workerStep_cases hm) hmem with hold | ⟨rfl, hp, hserver⟩
      · exact hkept (h j i e he hold)
      · -- request `j` forks: what it inherits is its own, or left over from a failure
        apply hkept
        by_contra hno
        rw [not_or, not_exists] at hno
        exact hapart j a rfl hp i (Ne.symm hno.1) hno.2 e he hserver
  | child k c => exact hkept (h j i e he (child_mem_child (childStep_cases hm) hmem))

/-- One pool thread: a request goes on only while no other is under way. -/
def oneAtATime (s : Processes) (m : Move) : Prop :=
  ∀ j a, m = .worker j a → ∀ i ≠ j, s.phase i = .entered ∨ Phase.returned (s.phase i) = true

/-- With one pool thread requests keep apart. -/
theorem apart_of_oneAtATime {s : Processes}
    (h : ((system jobs capacity).restrict oneAtATime).Reachable s) :
    ((system jobs capacity).restrict apart).Reachable s := by
  induction h with
  | init hs => exact .init hs
  | @step s s' m _ hstep ih =>
      refine .step ih ⟨?_, hstep.2⟩
      rintro j a rfl - i hij hrefused e he hmem
      have hends := (reachable_inv ih.of_restrict i).1
      have hfree : (s.phase i).mayHoldWriter = false ∧ (s.phase i).mayHoldReader = false := by
        rcases hstep.1 j a rfl i hij with hp | hp
        · simp [hp, Phase.mayHoldWriter, Phase.mayHoldReader]
        · cases hph : s.phase i <;>
            simp_all [Phase.returned, Phase.mayHoldWriter, Phase.mayHoldReader]
      simp only [awaited, List.mem_cons, List.not_mem_nil, or_false] at he
      rcases he with rfl | rfl
      · simp [hends.mayHoldWriter hmem] at hfree
      · simp [hends.mayHoldReader hmem] at hfree

/-- When requests keep apart, as they do with one pool thread, the pool thread of a request waits for
its own script only. -/
theorem waits_for_own_script {s : Processes}
    (h : ((system jobs capacity).restrict apart).Reachable s ∨
      ((system jobs capacity).restrict oneAtATime).Reachable s) {i : Nat} {a : Answer}
    (hnone : s.workerStep jobs capacity i a = none)
    (hreturned : Phase.returned (s.phase i) = false) : (s.child i).phase.alive = true := by
  have h : ((system jobs capacity).restrict apart).Reachable s := h.elim id apart_of_oneAtATime
  have hown : s.OwnEnds := by
    refine h.invariant (P := OwnEnds) ?_ ?_
    · rintro s rfl j i e he hmem
      simp at hmem
    · rintro s m s' hs ⟨hapart, hm⟩
      exact next_ownEnds hs hapart hm
  have hblocked := (workerStep_eq_none (reachable_inv h.of_restrict) i a).1 hnone
  rcases hblocked with hr | hblocked
  · simp [hr] at hreturned
  · cases hblocked with
    | @write rest j hp hrest hfull halive hholds =>
        rcases hown j i _ (by simp [awaited]) hholds with rfl | ⟨page, hpage⟩
        · exact halive
        · simp [hp] at hpage
    | @read res j hp hempty halive hholds =>
        rcases hown j i _ (by simp [awaited]) hholds with rfl | ⟨page, hpage⟩
        · exact halive
        · simp [hp] at hpage

/-- A run of one request alone. -/
theorem oneAtATime_of_alone {k : Nat} {s : Processes}
    (h : ((system jobs capacity).restrict fun _ m => m.request == k).Reachable s) :
    ((system jobs capacity).restrict oneAtATime).Reachable s ∧ ∀ i ≠ k, s.phase i = .entered := by
  induction h with
  | init hs =>
      refine ⟨.init hs, ?_⟩
      cases hs
      exact fun _ _ => rfl
  | @step s s' m _ hstep ih =>
      obtain ⟨hk, hm⟩ := hstep
      have hm' : s.next jobs capacity m = some s' := hm
      refine ⟨.step ih.1 ⟨?_, hm⟩, ?_⟩
      · rintro j a rfl i hij
        exact Or.inl (ih.2 i (by rwa [← (beq_iff_eq.1 hk : j = k)]))
      · intro i hik
        cases m with
        | worker j a =>
            have hj : i ≠ j := by rwa [(beq_iff_eq.1 hk : j = k)]
            rw [(sameAt_worker hj (workerStep_cases hm')).phase, ih.2 i hik]
        | child j c =>
            have hj : i ≠ j := by rwa [(beq_iff_eq.1 hk : j = k)]
            rw [(sameAt_child hj (childStep_cases hm')).phase, ih.2 i hik]

theorem waits_for_own_script_listening :
    ∃ s, runMoves (fun m => m.request == 0) listening = some s ∧
      s.workerStep noBody 4 0 {} = none ∧ (s.child 0).phase.alive = true := by
  obtain ⟨s, hs, hnone, hreturned⟩ : ∃ s, runMoves (fun m => m.request == 0) listening = some s ∧
      s.workerStep noBody 4 0 {} = none ∧ Phase.returned (s.phase 0) = false := by
    have hrun : ((runMoves (fun m => m.request == 0) listening).map fun s =>
        ((s.workerStep noBody 4 0 {}).isNone, Phase.returned (s.phase 0))) =
          some (true, false) := by decide +kernel
    simpa [Option.map_eq_some_iff] using hrun
  have halone := (oneAtATime_of_alone (reachable_runMoves hs)).1
  exact ⟨s, hs, hnone, waits_for_own_script (Or.inr halone) hnone hreturned⟩

end Processes
end Cgi
end Longky
