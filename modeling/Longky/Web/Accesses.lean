import Longky.Web.HttpRequest
import Longky.Web.Paths

/-!
# Accesses — the bytes that the scan touches

`parserRequest` walks through the request with one index and fills `method[16]`, `url[255]` and
`path[255]` on the way.  Some of its loops look at a byte before they ask whether it is there, the
path is printed without a look at its length, and the search for the extension goes on in front of a
path without a dot.

`accesses` lists the places in the order in which they are touched; behind one that is outside
nothing is known.  `accesses_inside_iff` says which requests touch nothing outside.
-/

namespace Longky
namespace Web

open Lib

/-- A byte of the request or of one of the arrays. -/
inductive Access where
  | request (j : Nat)
  | method (i : Nat)
  | url (i : Nat)
  | path (k : Int)
  /-- A conversion without an argument, which may print anything anywhere. -/
  | format
  deriving DecidableEq, Repr

/-- The byte is in its array; the request has a terminating NUL. -/
def Access.Inside (size : Nat) : Access → Prop
  | .request j => j ≤ size
  | .method i => i < 16
  | .url i => i < 255
  | .path k => 0 ≤ k ∧ k < 255
  | .format => False

instance (size : Nat) : (a : Access) → Decidable (a.Inside size)
  | .request j => inferInstanceAs (Decidable (j ≤ size))
  | .method i => inferInstanceAs (Decidable (i < 16))
  | .url i => inferInstanceAs (Decidable (i < 255))
  | .path k => inferInstanceAs (Decidable (0 ≤ k ∧ k < 255))
  | .format => inferInstanceAs (Decidable False)

/-! ## The loops over the request -/

/-- The loop that fills `method`, with the room left in it: a byte is read for the test, read again
and stored.  `i` and `j` are the same here. -/
def methodAccesses : Nat → Nat → Bytes → List Access
  | 0, j, _ => [.request j, .method j]
  -- the terminating NUL is stored, and the next test reads behind it
  | _ + 1, j, [] => [.request j, .request j, .method j, .request (j + 1)]
  | room + 1, j, c :: rest =>
      .request j ::
        if Bytes.isspace c then [.method j]
        else .request j :: .method j :: methodAccesses room (j + 1) rest

/-- A loop that skips bytes, and stops at the terminating NUL at the latest. -/
def skipAccesses (skipped : UInt8 → Bool) : Nat → Bytes → List Access
  | j, [] => [.request j]
  | j, c :: rest =>
      .request j :: if skipped c then skipAccesses skipped (j + 1) rest else []

/-- The loop that fills `url`, with the room left in it. -/
def urlAccesses : Nat → Nat → Nat → Bytes → List Access
  | _, i, j, [] => [.request j, .url i]
  | 0, i, j, _ :: _ => [.request j, .url i]
  | room + 1, i, j, c :: rest =>
      .request j ::
        if c = 32 then [.url i]
        else .request j :: .url i :: urlAccesses room (i + 1) (j + 1) rest

/-! ## The path -/

/-- `sprintf(path + k, fmt, url)`. -/
def sprintfAccesses : Option Bytes → Nat → Bytes → List Access
  | _, k, [] => [.path k]
  | arg, k, 37 :: 37 :: fmt => .path k :: sprintfAccesses arg (k + 1) fmt
  | arg, k, 37 :: 115 :: fmt =>
      match arg with
      | none => [.format]
      | some s =>
          (List.range s.length).flatMap (fun i => [.url i, .path (k + i : Nat)]) ++
            .url s.length :: sprintfAccesses none (k + s.length) fmt
  | _, _, 37 :: _ => [.format]
  | arg, k, _ :: fmt => .path k :: sprintfAccesses arg (k + 1) fmt

/-- `strcpy` into `path` or `strlen` of it. -/
def cStringAccesses (text : Bytes) : List Access :=
  (List.range (text.length + 1)).map fun k : Nat => .path k

/-- The loop that looks for the extension; the path is given from its end. -/
def extensionAccesses : Bytes → List Access
  | [] => [.path (-1)]
  | c :: front =>
      .path front.length ::
        if c = 46 then [] else .path front.length :: extensionAccesses front

/-- From `stat` on. -/
def statAccesses (cfg : Config) (stat : Bytes → Option Nat) (file : Bytes) : List Access :=
  cStringAccesses file ++
    match stat file with
    | none => []
    | some st_mode =>
        if unreadable st_mode then []
        else
          (if isDirectory st_mode then cStringAccesses (indexText cfg) else []) ++
            match servedPath cfg file st_mode with
            | .error _ => []
            | .ok path => cStringAccesses path ++ extensionAccesses path.reverse

def pathAccesses (cfg : Config) (stat : Bytes → Option Nat) (url : Bytes) : List Access :=
  sprintfAccesses (some (Bytes.cStr url)) 0
      (Bytes.cStr (cfg.g_resource_base_path ++ Bytes.ofString "%s")) ++
    match printed cfg url with
    | .error _ => []
    | .ok text =>
        -- `path[strlen(path) - 1]`
        cStringAccesses text ++ .path (text.length - 1) ::
          ((if text.getLast? = some 47 then cStringAccesses (indexText cfg) else []) ++
            match pathOf cfg url with
            | .error _ => []
            | .ok file => statAccesses cfg stat file)

/-! ## The whole scan -/

def accesses (cfg : Config) (stat : Bytes → Option Nat) (request : Bytes) : List Access :=
  methodAccesses 15 0 request ++
    match scanMethod 15 request with
    | .error _ => []
    | .ok (method, rest) =>
        if !Bytes.caseEq method (Bytes.ofString "GET") then []
        else
          let rest₁ := rest.dropWhile Bytes.isspace
          let (url, rest₂) := scanUrl rest₁
          skipAccesses Bytes.isspace (request.length - rest.length) rest ++
            (urlAccesses 254 0 (request.length - rest₁.length) rest₁ ++
              (pathAccesses cfg stat url ++
                -- the blanks in front of the version, when there is a file to serve
                match locateFile cfg stat url rest₂ with
                | .ok (.found _ _ _ _) =>
                    skipAccesses (· == 32) (request.length - rest₂.length) rest₂
                | .ok (.page _ _) | .error _ => []))

/-! ## The condition -/

/-- The path has a dot; for a directory this is the index path, and it fits into the array. -/
def DottedPath (cfg : Config) (file : Bytes) (st_mode : Nat) : Prop :=
  if isDirectory st_mode then (indexText cfg).length < 255 ∧ 46 ∈ indexText cfg else 46 ∈ file

/-- The printed path is not empty and fits into the array, the index path fits where it is copied,
and a path that can be read has a dot. -/
def PathFits (cfg : Config) (stat : Bytes → Option Nat) (url : Bytes) : Prop :=
  ∃ text, sprintf (some (Bytes.cStr url))
      (Bytes.cStr (cfg.g_resource_base_path ++ Bytes.ofString "%s")) = .ok text ∧
    text ≠ [] ∧ text.length < 255 ∧
    (text.getLast? = some 47 → (indexText cfg).length < 255) ∧
    ∀ st_mode ∈ stat (if text.getLast? = some 47 then indexText cfg else text),
      unreadable st_mode = false →
        DottedPath cfg (if text.getLast? = some 47 then indexText cfg else text) st_mode

/-- The request has white space or at least fifteen bytes, and the path of a GET request fits. -/
def Fits (cfg : Config) (stat : Bytes → Option Nat) (request : Bytes) : Prop :=
  (15 ≤ request.length ∨ ∃ c ∈ request, Bytes.isspace c = true) ∧
    ∀ url ∈ requestedUrl request, PathFits cfg stat url

/-! ## Loops -/

/-- All of these are inside. -/
def AllInside (size : Nat) (l : List Access) : Prop := ∀ a ∈ l, a.Inside size

section Loops

variable {size : Nat}

theorem allInside_nil : AllInside size [] := by
  intro a ha
  cases ha

theorem allInside_cons {a : Access} {l : List Access} :
    AllInside size (a :: l) ↔ a.Inside size ∧ AllInside size l := List.forall_mem_cons

theorem allInside_append {l l' : List Access} :
    AllInside size (l ++ l') ↔ AllInside size l ∧ AllInside size l' := List.forall_mem_append

/-- The method is read inside the request if a blank or the bound ends it there. -/
theorem methodAccesses_inside_iff {room j : Nat} {rest : Bytes} (hsize : j + rest.length = size)
    (hroom : j + room = 15) :
    AllInside size (methodAccesses room j rest) ↔
      room ≤ rest.length ∨ ∃ c ∈ rest, Bytes.isspace c = true := by
  induction room generalizing j rest with
  | zero =>
      refine iff_of_true ?_ (Or.inl (Nat.zero_le _))
      rw [methodAccesses, allInside_cons, allInside_cons]
      exact ⟨Nat.le.intro hsize, by simp only [Access.Inside]; omega, allInside_nil⟩
  | succ room ih =>
      cases rest with
      | nil =>
          refine iff_of_false ?_ (by simp)
          intro h
          have hbehind : j + 1 ≤ size := h (.request (j + 1)) (by simp [methodAccesses])
          simp only [List.length_nil] at hsize
          omega
      | cons c rest =>
          rw [List.length_cons] at hsize
          have hj : Access.Inside size (.request j) := Nat.le.intro hsize
          have hi : Access.Inside size (.method j) := by simp only [Access.Inside]; omega
          rw [methodAccesses, allInside_cons, and_iff_right hj]
          by_cases hc : Bytes.isspace c = true
          · rw [if_pos hc]
            refine iff_of_true ?_ (Or.inr ⟨c, List.mem_cons_self, hc⟩)
            exact allInside_cons.2 ⟨hi, allInside_nil⟩
          · rw [if_neg hc, allInside_cons, allInside_cons, and_iff_right hj, and_iff_right hi,
              ih (by omega) (by omega), List.length_cons, Nat.add_le_add_iff_right,
              List.exists_mem_cons_iff, or_iff_right hc]

theorem skipAccesses_inside (skipped : UInt8 → Bool) {j : Nat} {rest : Bytes}
    (hsize : j + rest.length = size) : AllInside size (skipAccesses skipped j rest) := by
  induction rest generalizing j with
  | nil => exact allInside_cons.2 ⟨Nat.le.intro hsize, allInside_nil⟩
  | cons c rest ih =>
      rw [List.length_cons] at hsize
      refine allInside_cons.2 ⟨Nat.le.intro hsize, ?_⟩
      split
      · exact ih (by omega)
      · exact allInside_nil

theorem urlAccesses_inside {room i j : Nat} {rest : Bytes} (hsize : j + rest.length = size)
    (hroom : i + room = 254) : AllInside size (urlAccesses room i j rest) := by
  induction room generalizing i j rest with
  | zero =>
      have hj : Access.Inside size (.request j) := Nat.le.intro hsize
      have hi : Access.Inside size (.url i) := by simp only [Access.Inside]; omega
      cases rest with
      | nil => exact allInside_cons.2 ⟨hj, allInside_cons.2 ⟨hi, allInside_nil⟩⟩
      | cons c rest => exact allInside_cons.2 ⟨hj, allInside_cons.2 ⟨hi, allInside_nil⟩⟩
  | succ room ih =>
      have hj : Access.Inside size (.request j) := Nat.le.intro hsize
      have hi : Access.Inside size (.url i) := by simp only [Access.Inside]; omega
      cases rest with
      | nil => exact allInside_cons.2 ⟨hj, allInside_cons.2 ⟨hi, allInside_nil⟩⟩
      | cons c rest =>
          rw [List.length_cons] at hsize
          rw [urlAccesses, allInside_cons]
          refine ⟨hj, ?_⟩
          split
          · exact allInside_cons.2 ⟨hi, allInside_nil⟩
          · rw [allInside_cons, allInside_cons]
            exact ⟨hj, hi, ih (by omega) (by omega)⟩

/-- The search for the extension ends inside the path if there is a dot. -/
theorem extensionAccesses_inside_iff {path : Bytes} (hlen : path.length < 255) :
    AllInside size (extensionAccesses path) ↔ 46 ∈ path := by
  induction path with
  | nil =>
      refine iff_of_false ?_ (by simp)
      intro h
      have hfront : (0 : Int) ≤ -1 ∧ _ := h (.path (-1)) (by simp [extensionAccesses])
      omega
  | cons c front ih =>
      rw [List.length_cons] at hlen
      have hk : Access.Inside size (.path front.length) := by simp only [Access.Inside]; omega
      rw [extensionAccesses, allInside_cons, and_iff_right hk]
      by_cases hc : c = 46
      · rw [if_pos hc]
        exact iff_of_true allInside_nil (by rw [hc]; exact List.mem_cons_self)
      · rw [if_neg hc, allInside_cons, and_iff_right hk, ih (by omega), List.mem_cons,
          or_iff_right (Ne.symm hc)]

theorem cStringAccesses_inside_iff {text : Bytes} :
    AllInside size (cStringAccesses text) ↔ text.length < 255 := by
  unfold AllInside cStringAccesses
  simp only [List.forall_mem_map, List.mem_range, Access.Inside]
  constructor
  · intro h
    have hlast := (h text.length (by omega)).2
    omega
  · intro hlen k hk
    omega

/-- What is printed behind `n` more bytes. -/
theorem printed_behind {x : Except Fault Bytes} {f : Bytes → Bytes} {n k : Nat}
    (hf : ∀ t, (f t).length = n + t.length) :
    (∃ text, (x >>= fun t => pure (f t)) = .ok text ∧ k + text.length < 255) ↔
      ∃ text, x = .ok text ∧ (k + n) + text.length < 255 := by
  cases x with
  | error e => simp [bind, Except.bind]
  | ok t => simp [bind, Except.bind, pure, Except.pure, hf, Nat.add_assoc]

/-- The path is printed into the array if every conversion has its argument and the text fits. -/
theorem sprintfAccesses_inside_iff {arg : Option Bytes} {k : Nat} {fmt : Bytes}
    (harg : ∀ s ∈ arg, s.length < 255) :
    AllInside size (sprintfAccesses arg k fmt) ↔
      ∃ text, sprintf arg fmt = .ok text ∧ k + text.length < 255 := by
  induction arg, fmt using sprintf.induct generalizing k with
  | case1 arg =>
      simp only [sprintfAccesses, sprintf, allInside_cons, allInside_nil, Access.Inside]
      simp
  | case2 arg fmt ih =>
      rw [sprintfAccesses, sprintf, allInside_cons, ih harg,
        printed_behind (n := 1) fun t => by simp [Nat.add_comm]]
      refine and_iff_right_of_imp ?_
      rintro ⟨text, -, hlen⟩
      simp only [Access.Inside]
      omega
  | case3 fmt =>
      refine iff_of_false ?_ (by simp [sprintf])
      intro h
      exact h .format (by simp [sprintfAccesses])
  | case4 fmt s ih =>
      have hs : s.length < 255 := harg s rfl
      have hnone : ∀ t ∈ (none : Option Bytes), t.length < 255 := by simp
      rw [sprintfAccesses, sprintf, allInside_append, allInside_cons, ih hnone,
        printed_behind (n := s.length) fun t => by simp]
      -- the argument is read up to its end, which is inside; a second `%s` finds no argument
      have hend : Access.Inside size (.url s.length) := hs
      rw [and_iff_right hend]
      refine and_iff_right_of_imp ?_
      rintro ⟨text, -, hlen⟩ a ha
      simp only [List.mem_flatMap, List.mem_range, List.mem_cons, List.not_mem_nil, or_false] at ha
      rcases ha with ⟨i, hi, rfl | rfl⟩
      · simp only [Access.Inside]
        omega
      · simp only [Access.Inside]
        omega
  | case5 arg tail h₁ h₂ =>
      rw [sprintf, sprintfAccesses]
      · refine iff_of_false ?_ (by simp)
        intro h
        exact h .format (by simp)
      all_goals assumption
  | case6 arg c fmt h₁ h₂ h₃ ih =>
      rw [sprintf, sprintfAccesses]
      · rw [allInside_cons, ih harg, printed_behind (n := 1) fun t => by simp [Nat.add_comm]]
        refine and_iff_right_of_imp ?_
        rintro ⟨text, -, hlen⟩
        simp only [Access.Inside]
        omega
      all_goals assumption

end Loops

/-! ## The path and the request -/

section Request

variable {size : Nat} {cfg : Config} {stat : Bytes → Option Nat} {request url file : Bytes}

theorem indexPath_of_fits (h : (indexText cfg).length < 255) :
    indexPath cfg = .ok (indexText cfg) := if_pos h

theorem pathOf_of_fits {text : Bytes} (hprinted : printed cfg url = .ok text) (hne : text ≠ [])
    (hindex : text.getLast? = some 47 → (indexText cfg).length < 255) :
    pathOf cfg url = .ok (if text.getLast? = some 47 then indexText cfg else text) := by
  by_cases hslash : text.getLast? = some 47
  · rw [pathOf_eq, hprinted, if_pos hslash]
    simp only [bind, Except.bind, hslash, if_true]
    exact indexPath_of_fits (hindex hslash)
  · rw [if_neg hslash, pathOf_of_printed hprinted hne hslash]

theorem statAccesses_inside_iff (hfile : file.length < 255) :
    AllInside size (statAccesses cfg stat file) ↔
      ∀ st_mode ∈ stat file, unreadable st_mode = false → DottedPath cfg file st_mode := by
  rw [statAccesses, allInside_append, cStringAccesses_inside_iff, and_iff_right hfile]
  cases hstat : stat file with
  | none => exact iff_of_true allInside_nil (by simp)
  | some st_mode =>
      simp only [Option.mem_def, Option.some.injEq, forall_eq']
      cases hread : unreadable st_mode with
      | true => simpa using allInside_nil
      | false =>
          simp only [Bool.false_eq_true, if_false, forall_const, allInside_append]
          unfold DottedPath servedPath
          cases hdir : isDirectory st_mode with
          | true =>
              simp only [if_true, cStringAccesses_inside_iff]
              refine and_congr_right fun hindex => ?_
              rw [indexPath_of_fits hindex]
              dsimp only
              rw [allInside_append, cStringAccesses_inside_iff, and_iff_right hindex,
                extensionAccesses_inside_iff (by rwa [List.length_reverse]), List.mem_reverse]
          | false =>
              simp only [Bool.false_eq_true, if_false]
              rw [allInside_append, cStringAccesses_inside_iff, and_iff_right hfile,
                extensionAccesses_inside_iff (by rwa [List.length_reverse]), List.mem_reverse,
                and_iff_right allInside_nil]

theorem pathAccesses_inside_iff (hurl : url.length < 255) :
    AllInside size (pathAccesses cfg stat url) ↔ PathFits cfg stat url := by
  have harg : ∀ s ∈ some (Bytes.cStr url), s.length < 255 := by
    rintro s ⟨⟩
    exact Nat.lt_of_le_of_lt (List.takeWhile_prefix _).length_le hurl
  rw [pathAccesses, allInside_append, sprintfAccesses_inside_iff harg]
  unfold PathFits
  cases htext : sprintf (some (Bytes.cStr url))
      (Bytes.cStr (cfg.g_resource_base_path ++ Bytes.ofString "%s")) with
  | error e => simp
  | ok text =>
      simp only [Except.ok.injEq, exists_eq_left', Nat.zero_add]
      by_cases hlen : text.length < 255
      · have hprinted : printed cfg url = .ok text := by
          rw [printed, htext]
          exact if_pos hlen
        rw [and_iff_right hlen, hprinted]
        dsimp only
        rw [allInside_append, allInside_cons, cStringAccesses_inside_iff, and_iff_right hlen]
        by_cases hne : text = []
        · refine iff_of_false ?_ fun h => h.1 hne
          rintro ⟨⟨hfirst, -⟩, -⟩
          simp [hne] at hfirst
        · have hlast : Access.Inside size (.path (text.length - 1)) := by
            have := List.length_pos_iff.2 hne
            simp only [Access.Inside]
            omega
          rw [and_iff_right hlast, and_iff_right hne, and_iff_right hlen, allInside_append]
          by_cases hslash : text.getLast? = some 47
          · simp only [hslash, if_true, forall_const, cStringAccesses_inside_iff]
            refine and_congr_right fun hindex => ?_
            rw [pathOf_of_fits hprinted hne fun _ => hindex, if_pos hslash]
            exact statAccesses_inside_iff hindex
          · simp only [hslash, if_false, IsEmpty.forall_iff, true_and]
            rw [pathOf_of_printed hprinted hne hslash, and_iff_right allInside_nil]
            exact statAccesses_inside_iff hlen
      · refine iff_of_false (fun h => hlen h.1) fun h => hlen h.2.1

theorem length_scanUrl (rest : Bytes) :
    (scanUrl rest).1.length < 255 ∧ (scanUrl rest).2.length ≤ rest.length := by
  simp only [scanUrl, List.length_take, List.length_drop]
  omega

theorem scanMethod_length {room : Nat} {bs method rest : Bytes}
    (h : scanMethod room bs = .ok (method, rest)) : rest.length ≤ bs.length := by
  rcases scanMethod_eq_ok h with ⟨rfl, -⟩
  rw [List.length_append]
  omega

/-- The scan of a request stays inside the request and the three arrays exactly when the request has
white space or is long enough, and its path fits. -/
theorem accesses_inside_iff (cfg : Config) (stat : Bytes → Option Nat) (request : Bytes) :
    (∀ a ∈ accesses cfg stat request, a.Inside request.length) ↔ Fits cfg stat request := by
  change AllInside request.length (accesses cfg stat request) ↔ _
  rw [accesses, allInside_append, methodAccesses_inside_iff (Nat.zero_add _) rfl, Fits]
  refine and_congr_right fun _ => ?_
  rw [requestedUrl]
  cases hmethod : scanMethod 15 request with
  | error e => simpa using allInside_nil
  | ok r =>
      rcases r with ⟨method, rest⟩
      dsimp only
      cases hget : Bytes.caseEq method (Bytes.ofString "GET") with
      | false => simpa using allInside_nil
      | true =>
          have hrest := scanMethod_length hmethod
          have hskip : (rest.dropWhile Bytes.isspace).length ≤ rest.length :=
            List.length_dropWhile_le _ _
          have hurl := length_scanUrl (rest.dropWhile Bytes.isspace)
          simp only [Bool.not_true, Bool.false_eq_true, if_false, if_true, Option.mem_def,
            Option.some.injEq, forall_eq', allInside_append]
          rw [and_iff_right (skipAccesses_inside _ (by omega)),
            and_iff_right (urlAccesses_inside (by omega) rfl), pathAccesses_inside_iff hurl.1]
          refine and_iff_left ?_
          split
          · exact skipAccesses_inside _ (by omega)
          · exact allInside_nil
          · exact allInside_nil

/-- The request that ends behind its method: the byte behind its NUL is read.  And a file without an
extension: the byte in front of `path` is read. -/
theorem access_outside :
    ¬ (∀ a ∈ accesses Parser.htmlConfig Parser.readableFiles.stat (Bytes.ofString "GET"),
        a.Inside 3) ∧
      ¬ (∀ a ∈ accesses Parser.htmlConfig Parser.readableFiles.stat
          (Bytes.ofString "GET /a HTTP/1.1\r\n\r\n"), a.Inside 19) := by
  decide

end Request

end Web
end Longky
