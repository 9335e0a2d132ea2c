import Longky.Http.HttpServer
import Longky.Lib.Framing
import Longky.Lib.Message

/-!
# KeepAlive — responses that follow each other on a connection

`HttpResponse::appendToBuffer` of `netLayer/http/HttpResponse.cpp`, with the strings on their way
into the buffer: `append(const StringPiece&)` takes them, and the length of a `StringPiece` is an
`int`.

A client takes lines up to the first empty line and then as many bytes as `Content-Length` says.
`selfDelimiting_iff`: it finds the responses again if and only if all their strings are shorter than
2 GiB.
-/

namespace Longky
namespace Http

open Lib Net

/-! ## Strings on their way into a buffer -/

/-- `append` of a `std::string`, or of a C string, through `StringPiece`. -/
def appendString (output : Buffer) (str : Bytes) : Option Buffer :=
  output.appendPiece ⟨str, toInt32 str.length⟩

/-- What is appended of a string. -/
def appended (str : Bytes) : Bytes := str.take (toSizeT (toInt32 str.length))

theorem length_appended_le (str : Bytes) :
    (appended str).length ≤ toSizeT (toInt32 str.length) ∧ (appended str).length ≤ str.length := by
  unfold appended
  generalize toSizeT (toInt32 str.length) = n
  exact ⟨List.length_take_le n str, List.length_take_le' n str⟩

/-- The length of a long string becomes too large for it, or too small. -/
theorem toSizeT_toInt32_of_long {n : Nat} (hlong : 2 ^ 31 ≤ n) (hmax : n < 2 ^ 63)
    (hfit : toSizeT (toInt32 n) ≤ n) : toSizeT (toInt32 n) < n := by
  unfold toSizeT toInt32 at hfit ⊢
  rw [Int.bmod_def] at hfit ⊢
  split at hfit <;> omega

section Appended

variable {output output' : Buffer} (h : output.Inv) {str : Bytes} {strs : List Bytes}

include h

theorem appendString_some (hsome : appendString output str = some output') :
    output'.Inv ∧ output'.readable = output.readable ++ appended str ∧
      toSizeT (toInt32 str.length) ≤ str.length := by
  unfold appendString Buffer.appendPiece at hsome
  by_cases hfit : toSizeT (toInt32 str.length) ≤ str.length
  · rcases Buffer.append_spec h (appended str) with ⟨b, hb, hinv, hreadable⟩
    simp only [hfit, guard_true, pure_bind] at hsome
    rw [appended] at hb
    rw [hb, Option.some.injEq] at hsome
    subst hsome
    exact ⟨hinv, hreadable, hfit⟩
  · simp [hfit] at hsome

theorem appendString_short (hshort : str.length < 2 ^ 31) :
    ∃ b, appendString output str = some b ∧ b.Inv ∧ b.readable = output.readable ++ str := by
  have hlength := Buffer.toSizeT_toInt32 hshort
  have happend : appendString output str = output.append str := by
    unfold appendString Buffer.appendPiece
    simp only [hlength, List.take_length, Nat.le_refl, guard_true, pure_bind]
  rw [happend]
  exact Buffer.append_spec h str

theorem appendStrings_short (hshort : ∀ str ∈ strs, str.length < 2 ^ 31) :
    ∃ b, strs.foldlM appendString output = some b ∧ b.Inv ∧
      b.readable = output.readable ++ strs.flatten := by
  -- each string goes behind those that are in the buffer
  induction strs generalizing output with
  | nil => exact ⟨output, rfl, h, by simp⟩
  | cons str strs ih =>
      rcases appendString_short h (hshort str List.mem_cons_self) with ⟨b₁, hb₁, hinv₁, hread₁⟩
      rcases ih hinv₁ (fun s hs => hshort s (List.mem_cons_of_mem _ hs)) with
        ⟨b₂, hb₂, hinv₂, hread₂⟩
      refine ⟨b₂, ?_, hinv₂, ?_⟩
      · rw [List.foldlM_cons, hb₁]
        exact hb₂
      · rw [hread₂, hread₁, List.flatten_cons, List.append_assoc]

/-- Nothing is added to the strings, and of a long string something is lost. -/
theorem appendStrings_some (hmax : ∀ str ∈ strs, str.length < 2 ^ 63)
    (hsome : strs.foldlM appendString output = some output') :
    output'.readable.length ≤ output.readable.length + strs.flatten.length ∧
      ((∃ str ∈ strs, 2 ^ 31 ≤ str.length) →
        output'.readable.length < output.readable.length + strs.flatten.length) := by
  induction strs generalizing output with
  | nil =>
      cases hsome
      simp
  | cons str strs ih =>
      rw [List.foldlM_cons] at hsome
      rcases Option.bind_eq_some_iff.1 hsome with ⟨b, hb, hrest⟩
      rcases appendString_some h hb with ⟨hinv, hread, hfit⟩
      rcases ih hinv (fun s hs => hmax s (List.mem_cons_of_mem _ hs)) hrest with ⟨hle, hlt⟩
      have hcut := (length_appended_le str).2
      rw [hread, List.length_append] at hle hlt
      rw [List.flatten_cons, List.length_append]
      refine ⟨by omega, ?_⟩
      rintro ⟨s, hs, hlong⟩
      rcases List.mem_cons.1 hs with rfl | hs
      -- the long string loses bytes here, and no later one makes up for it
      · have hlost := toSizeT_toInt32_of_long hlong (hmax s List.mem_cons_self) hfit
        have hcut := (length_appended_le s).1
        omega
      · have := hlt ⟨s, hs, hlong⟩
        omega

end Appended

namespace HttpResponse

/-! ## Responses -/

def appendHeader (output : Buffer) (header : Bytes × Bytes) : Option Buffer := do
  let output ← appendString output header.1
  let output ← appendString output (Bytes.ofString ": ")
  let output ← appendString output header.2
  appendString output (Bytes.ofString "\r\n")

def statusText (r : HttpResponse) : Bytes :=
  intoBuf (Bytes.ofString "HTTP/1.1 " ++ Bytes.ofString (toString r.statusCode_) ++ [32])

def lengthText (r : HttpResponse) : Bytes :=
  intoBuf (Bytes.ofString "Content-Length: " ++ Bytes.ofString (toString r.body_.length) ++
    Bytes.ofString "\r\n")

/-- `appendToBuffer(output)`. -/
def appendTo (r : HttpResponse) (output : Buffer) : Option Buffer := do
  let output ← appendString output r.statusText
  let output ← appendString output r.statusMessage_
  let output ← appendString output (Bytes.ofString "\r\n")
  let output ← if r.closeConnection_ then appendString output (Bytes.ofString "Connection: close\r\n")
    else do
      let output ← appendString output r.lengthText
      appendString output (Bytes.ofString "Connection: Keep-Alive\r\n")
  let output ← r.headers_.foldlM appendHeader output
  let output ← appendString output (Bytes.ofString "\r\n")
  appendString output r.body_

/-- What a new buffer holds after `appendToBuffer`. -/
def output (r : HttpResponse) : Option Bytes :=
  (r.appendTo (Buffer.construct Buffer.kInitialSize)).map Buffer.readable

/-- The strings in the order in which they are appended. -/
def strings (r : HttpResponse) : List Bytes :=
  [r.statusText, r.statusMessage_, Bytes.ofString "\r\n"] ++
    (if r.closeConnection_ then [Bytes.ofString "Connection: close\r\n"]
      else [r.lengthText, Bytes.ofString "Connection: Keep-Alive\r\n"]) ++
    r.headers_.flatMap (fun header =>
      [header.1, Bytes.ofString ": ", header.2, Bytes.ofString "\r\n"]) ++
    [Bytes.ofString "\r\n", r.body_]

theorem appendHeaders_eq (headers : List (Bytes × Bytes)) (output : Buffer) :
    headers.foldlM appendHeader output =
      (headers.flatMap fun header =>
        [header.1, Bytes.ofString ": ", header.2, Bytes.ofString "\r\n"]).foldlM
          appendString output := by
  induction headers generalizing output with
  | nil => rfl
  | cons header headers ih =>
      rw [List.foldlM_cons, List.flatMap_cons, List.foldlM_append]
      simp only [ih, appendHeader, List.foldlM_cons, List.foldlM_nil, bind_pure, bind_assoc]

theorem appendTo_eq (r : HttpResponse) (output : Buffer) :
    r.appendTo output = r.strings.foldlM appendString output := by
  unfold appendTo strings
  simp only [List.foldlM_append, appendHeaders_eq, List.foldlM_cons, List.foldlM_nil, bind_pure,
    bind_assoc]
  cases r.closeConnection_ <;>
    simp only [Bool.false_eq_true, if_true, if_false, List.foldlM_cons, List.foldlM_nil, bind_pure,
      bind_assoc]

theorem flatten_strings (r : HttpResponse) : r.strings.flatten = r.appendToBuffer := by
  have hheaders : ∀ headers : List (Bytes × Bytes),
      (headers.flatMap fun header =>
        [header.1, Bytes.ofString ": ", header.2, Bytes.ofString "\r\n"]).flatten =
      headers.flatMap fun header =>
        header.1 ++ Bytes.ofString ": " ++ header.2 ++ Bytes.ofString "\r\n" := by
    intro headers
    induction headers with
    | nil => rfl
    | cons header headers ih => simp [ih]
  unfold strings appendToBuffer statusText lengthText
  rw [List.flatten_append, List.flatten_append, List.flatten_append, hheaders]
  cases r.closeConnection_ <;> simp

end HttpResponse

/-! ## A client -/

/-- The bytes before and behind the first `c`. -/
def cutAt (c : UInt8) (bs : Bytes) : Option (Bytes × Bytes) :=
  match bs.dropWhile (· != c) with
  | [] => none
  | _ :: after => some (bs.takeWhile (· != c), after)

theorem cutAt_eq_some_iff {c : UInt8} {bs before after : Bytes} :
    cutAt c bs = some (before, after) ↔ c ∉ before ∧ bs = before ++ c :: after := by
  unfold cutAt
  constructor
  · intro h
    split at h
    · cases h
    · rename_i d after' hdrop
      cases h
      have hsplit : bs.takeWhile (· != c) ++ bs.dropWhile (· != c) = bs :=
        List.takeWhile_append_dropWhile
      -- the rest begins with the first byte that is not skipped
      have hd : d = c := by
        have hhead := List.head?_dropWhile_not (· != c) bs
        rw [hdrop] at hhead
        simpa using hhead
      refine ⟨?_, ?_⟩
      · intro hmem
        simpa using List.mem_takeWhile_imp hmem
      · subst hd
        rw [← hdrop]
        exact hsplit.symm
  · rintro ⟨hbefore, rfl⟩
    have hall : ∀ b ∈ before, (b != c) = true := by
      intro b hb
      rw [bne_iff_ne]
      rintro rfl
      exact hbefore hb
    rw [List.dropWhile_append_of_pos hall, List.takeWhile_append_of_pos hall,
      List.dropWhile_cons_of_neg (by simp), List.takeWhile_cons_of_neg (by simp), List.append_nil]

/-- A response as a client has it. -/
structure Received where
  statusCode : Nat
  statusMessage : Bytes
  headers : List (Bytes × Bytes)
  body : Bytes
  deriving DecidableEq, Repr

namespace Received

def statusLine (code : Nat) (message : Bytes) : Bytes :=
  Bytes.ofString "HTTP/1.1 " ++ (Bytes.ofString (toString code) ++ 32 :: message)

def readStatusLine (line : Bytes) : Option (Nat × Bytes) := do
  guard (line.take 9 = Bytes.ofString "HTTP/1.1 ")
  let (digits, message) ← cutAt 32 (line.drop 9)
  let code ← Bytes.decimal digits
  return (code, message)

def headerLine (header : Bytes × Bytes) : Bytes := header.1 ++ 58 :: 32 :: header.2

def readHeader (line : Bytes) : Option (Bytes × Bytes) := do
  let (name, rest) ← cutAt 58 line
  guard (rest.head? = some 32)
  return (name, rest.drop 1)

def contentLength (headers : List (Bytes × Bytes)) : Option Nat :=
  (headers.lookup (Bytes.ofString "Content-Length")).bind Bytes.decimal

/-- Lines up to the first empty one, then `Content-Length` bytes. -/
def first (bs : Bytes) : Option (Received × Nat) := do
  let m ← Message.read bs
  let (code, message) ← readStatusLine m.startLine
  let headers ← m.headerLines.mapM readHeader
  let length ← contentLength headers
  guard (length ≤ m.body.length)
  return (⟨code, message, headers, m.body.take length⟩, bs.length - m.body.length + length)

variable {line : Bytes} {code : Nat} {message : Bytes} {header : Bytes × Bytes}

theorem blank_not_mem (n : Nat) : 32 ∉ Bytes.ofString (toString n) := by
  intro hblank
  have hdigit := Bytes.isdigit_of_mem hblank
  revert hdigit
  decide

theorem readStatusLine_eq_some_iff :
    readStatusLine line = some (code, message) ↔ line = statusLine code message := by
  unfold readStatusLine
  constructor
  · intro h
    -- the decimal number is written back as it was read, since `decimal` takes no other form
    by_cases hversion : line.take 9 = Bytes.ofString "HTTP/1.1 "
    · simp only [hversion, guard_true, pure_bind] at h
      rcases Option.bind_eq_some_iff.1 h with ⟨⟨digits, rest⟩, hcut, h⟩
      rcases Option.bind_eq_some_iff.1 h with ⟨n, hn, h⟩
      cases h
      rcases cutAt_eq_some_iff.1 hcut with ⟨-, hdrop⟩
      rw [statusLine, ← Bytes.decimal_eq_some_iff.1 hn, ← hdrop, ← hversion]
      exact (List.take_append_drop 9 line).symm
    · simp [hversion] at h
  · rintro rfl
    have hversion : (Bytes.ofString "HTTP/1.1 ").length = 9 := by decide
    have hcut : cutAt 32 (Bytes.ofString (toString code) ++ 32 :: message) =
        some (Bytes.ofString (toString code), message) :=
      cutAt_eq_some_iff.2 ⟨blank_not_mem code, rfl⟩
    have hcode : Bytes.decimal (Bytes.ofString (toString code)) = some code :=
      Bytes.decimal_eq_some_iff.2 rfl
    rw [statusLine, List.take_left' hversion, List.drop_left' hversion, hcut]
    simp only [guard_true, pure_bind, Option.bind_eq_bind, Option.bind_some, hcode]
    rfl

theorem readHeader_eq_some_iff :
    readHeader line = some header ↔ 58 ∉ header.1 ∧ line = headerLine header := by
  rcases header with ⟨name, value⟩
  unfold readHeader headerLine
  constructor
  · intro h
    rcases Option.bind_eq_some_iff.1 h with ⟨⟨before, rest⟩, hcut, hrest⟩
    rcases cutAt_eq_some_iff.1 hcut with ⟨hname, rfl⟩
    by_cases hblank : rest.head? = some 32
    · simp only [hblank, guard_true, pure_bind] at hrest
      cases hrest
      rcases List.head?_eq_some_iff.1 hblank with ⟨value, rfl⟩
      exact ⟨hname, rfl⟩
    · simp [hblank] at hrest
  · rintro ⟨hname, rfl⟩
    rw [cutAt_eq_some_iff.2 ⟨hname, rfl⟩]
    rfl

theorem readHeaders_eq_some_iff {lines : List Bytes} {headers : List (Bytes × Bytes)} :
    lines.mapM readHeader = some headers ↔
      (∀ header ∈ headers, 58 ∉ header.1) ∧ lines = headers.map headerLine := by
  induction lines generalizing headers with
  | nil =>
      cases headers with
      | nil => simp
      | cons header headers => simp
  | cons line lines ih =>
      rw [List.mapM_cons]
      constructor
      · intro h
        rcases Option.bind_eq_some_iff.1 h with ⟨header, hheader, h⟩
        rcases Option.bind_eq_some_iff.1 h with ⟨others, hothers, h⟩
        cases h
        rcases readHeader_eq_some_iff.1 hheader with ⟨hname, rfl⟩
        rcases ih.1 hothers with ⟨hnames, rfl⟩
        exact ⟨List.forall_mem_cons.2 ⟨hname, hnames⟩, rfl⟩
      · rintro ⟨hnames, hlines⟩
        cases headers with
        | nil => simp at hlines
        | cons header headers =>
            rw [List.map_cons, List.cons.injEq] at hlines
            rcases List.forall_mem_cons.1 hnames with ⟨hname, hnames⟩
            rw [readHeader_eq_some_iff.2 ⟨hname, hlines.1⟩, ih.2 ⟨hnames, hlines.2⟩]
            rfl

def toMessage (r : Received) : Message where
  startLine := statusLine r.statusCode r.statusMessage
  headerLines := r.headers.map headerLine
  body := r.body

def text (r : Received) : Bytes := r.toMessage.text

/-- The response can be told from its text. -/
structure Encodable (r : Received) : Prop where
  lines : ∀ line ∈ r.toMessage.startLine :: r.toMessage.headerLines, Bytes.findCRLF line = none
  names : ∀ header ∈ r.headers, 58 ∉ header.1
  length : contentLength r.headers = some r.body.length

theorem line_ne_nil (r : Received) :
    ∀ line ∈ r.toMessage.startLine :: r.toMessage.headerLines, line ≠ [] := by
  intro line hline
  rcases List.mem_cons.1 hline with rfl | hline
  · simp [toMessage, statusLine]
  · rcases List.mem_map.1 hline with ⟨header, -, rfl⟩
    simp [headerLine]

theorem first_eq_some_iff {bs : Bytes} {r : Received} {n : Nat} :
    first bs = some (r, n) ↔ r.Encodable ∧ (∃ more, bs = r.text ++ more) ∧ n = r.text.length := by
  unfold first
  constructor
  · intro h
    rcases Option.bind_eq_some_iff.1 h with ⟨⟨startLine, headerLines, body⟩, hread, h⟩
    rcases Option.bind_eq_some_iff.1 h with ⟨⟨code, message⟩, hstatus, h⟩
    rcases Option.bind_eq_some_iff.1 h with ⟨headers, hheaders, h⟩
    rcases Option.bind_eq_some_iff.1 h with ⟨length, hlength, h⟩
    rcases Message.read_eq_some_iff.1 hread with ⟨hlines, rfl⟩
    have hstatus := readStatusLine_eq_some_iff.1 hstatus
    rcases readHeaders_eq_some_iff.1 hheaders with ⟨hnames, hheaderLines⟩
    dsimp only at hstatus hheaderLines hlength h hlines
    subst hstatus hheaderLines
    -- the body is cut to the announced length, and the rest is left in the stream
    by_cases hfit : length ≤ body.length
    · simp only [hfit, guard_true, pure_bind] at h
      cases h
      have htake : (body.take length).length = length := by simpa using hfit
      have hsplit := Message.text_append
        (toMessage ⟨code, message, headers, body.take length⟩) (body.drop length)
      refine ⟨⟨fun line hline => (hlines line hline).2, hnames, by rw [htake]; exact hlength⟩,
        ⟨body.drop length, ?_⟩, ?_⟩
      · rw [text, ← hsplit]
        simp [toMessage]
      · simp only [text, toMessage, Message.text, List.length_append, List.length_cons, htake]
        omega
    · simp [hfit] at h
  · rintro ⟨⟨hlines, hnames, hlength⟩, ⟨more, rfl⟩, rfl⟩
    have hread : Message.read (r.text ++ more) =
        some { r.toMessage with body := r.toMessage.body ++ more } := by
      refine Message.read_append (Message.read_eq_some_iff.2 ⟨?_, rfl⟩) more
      exact fun line hline => ⟨r.line_ne_nil line hline, hlines line hline⟩
    have hstatus : readStatusLine r.toMessage.startLine = some (r.statusCode, r.statusMessage) :=
      readStatusLine_eq_some_iff.2 rfl
    have hheaders : r.toMessage.headerLines.mapM readHeader = some r.headers :=
      readHeaders_eq_some_iff.2 ⟨hnames, rfl⟩
    have hsize : r.body.length ≤ r.text.length := by
      simp only [text, toMessage, Message.text, List.length_append, List.length_cons]
      omega
    simp only [hread, hstatus, hheaders, hlength, Option.bind_eq_bind, Option.bind_some]
    simp [toMessage]
    omega

def framing : Framing UInt8 Received where
  first := first
  first_pos := by
    intro bs r n h
    rcases first_eq_some_iff.1 h with ⟨-, -, rfl⟩
    simp [text, Message.text]
  first_le := by
    intro bs r n h
    rcases first_eq_some_iff.1 h with ⟨-, ⟨more, rfl⟩, rfl⟩
    simp
  first_append := by
    intro bs r n ys h
    rcases first_eq_some_iff.1 h with ⟨hr, ⟨more, rfl⟩, hn⟩
    exact first_eq_some_iff.2 ⟨hr, ⟨more ++ ys, List.append_assoc _ _ _⟩, hn⟩

end Received

namespace HttpResponse

/-! ## Responses and their texts -/

/-- What a client is to find, the two generated headers first. -/
def received (r : HttpResponse) : Received where
  statusCode := r.statusCode_
  statusMessage := r.statusMessage_
  headers := (Bytes.ofString "Content-Length", Bytes.ofString (toString r.body_.length)) ::
    (Bytes.ofString "Connection", Bytes.ofString "Keep-Alive") :: r.headers_
  body := r.body_

/-- All strings of the response are shorter than `n`. -/
structure ShorterThan (r : HttpResponse) (n : Nat) : Prop where
  statusMessage : r.statusMessage_.length < n
  headers : ∀ header ∈ r.headers_, header.1.length < n ∧ header.2.length < n
  body : r.body_.length < n

/-- A response after which the connection stays open. -/
structure KeepAlive (r : HttpResponse) : Prop where
  closeConnection : r.closeConnection_ = false
  /-- An `int`. -/
  statusCode : r.statusCode_ < 2 ^ 31
  statusMessage : 13 ∉ r.statusMessage_ ∧ 10 ∉ r.statusMessage_
  names : ∀ header ∈ r.headers_, 13 ∉ header.1 ∧ 10 ∉ header.1
  values : ∀ header ∈ r.headers_, 13 ∉ header.2 ∧ 10 ∉ header.2
  colon : ∀ header ∈ r.headers_, 58 ∉ header.1
  generated : ∀ header ∈ r.headers_,
    header.1 ≠ Bytes.ofString "Content-Length" ∧ header.1 ≠ Bytes.ofString "Connection"
  body : r.body_.length < 10 ^ 13
  /-- `std::string::max_size`. -/
  max_size : r.ShorterThan (2 ^ 63)

variable {r : HttpResponse}

theorem length_intoBuf_le (text : Bytes) : (intoBuf text).length ≤ 31 :=
  List.length_take_le 31 text

theorem length_strings_lt {n : Nat} (hn : 31 < n) :
    (∀ str ∈ r.strings, str.length < n) ↔ r.ShorterThan n := by
  have hbuf : ∀ text, (intoBuf text).length < n := fun text =>
    Nat.lt_of_le_of_lt (length_intoBuf_le text) hn
  have hfixed : ∀ str ∈ [Bytes.ofString "\r\n", Bytes.ofString ": ",
      Bytes.ofString "Connection: close\r\n", Bytes.ofString "Connection: Keep-Alive\r\n"],
      str.length < n := by
    have hlength : ∀ str ∈ [Bytes.ofString "\r\n", Bytes.ofString ": ",
        Bytes.ofString "Connection: close\r\n", Bytes.ofString "Connection: Keep-Alive\r\n"],
        str.length ≤ 31 := by decide
    exact fun str hstr => Nat.lt_of_le_of_lt (hlength str hstr) hn
  constructor
  · intro h
    refine ⟨h _ (by simp [strings]), ?_, h _ (by simp [strings])⟩
    intro header hheader
    refine ⟨h _ ?_, h _ ?_⟩
    · simp only [strings, List.mem_append, List.mem_flatMap]
      exact Or.inl (Or.inr ⟨header, hheader, by simp⟩)
    · simp only [strings, List.mem_append, List.mem_flatMap]
      exact Or.inl (Or.inr ⟨header, hheader, by simp⟩)
  · rintro ⟨hmessage, hheaders, hbody⟩ str hstr
    simp only [strings, List.mem_append, List.mem_flatMap, List.mem_cons, List.not_mem_nil,
      or_false] at hstr
    -- one case for each string that `appendToBuffer` appends
    rcases hstr with (((rfl | rfl | rfl) | hconnection) | ⟨header, hheader, rfl | rfl | rfl | rfl⟩) |
      rfl | rfl
    · exact hbuf _
    · exact hmessage
    · exact hfixed _ (by simp)
    · split at hconnection
      · rw [List.mem_singleton] at hconnection
        rw [hconnection]
        exact hfixed _ (by simp)
      · rcases List.mem_pair.1 hconnection with rfl | rfl
        · exact hbuf _
        · exact hfixed _ (by simp)
    · exact (hheaders header hheader).1
    · exact hfixed _ (by simp)
    · exact (hheaders header hheader).2
    · exact hfixed _ (by simp)
    · exact hfixed _ (by simp)
    · exact hbody

/-- The fixed buffers hold the status line and the length of the body. -/
theorem appendToBuffer_eq_text (h : r.KeepAlive) : r.appendToBuffer = r.received.text := by
  -- ten digits for an `int` and thirteen for the body fit into 32 bytes with the words around them
  have hcode : (Bytes.ofString (toString r.statusCode_)).length ≤ 10 :=
    (Bytes.length_ofString_nat_le (by decide)).2 (Nat.lt_trans h.statusCode (by decide))
  have hlength : (Bytes.ofString (toString r.body_.length)).length ≤ 13 :=
    (Bytes.length_ofString_nat_le (by decide)).2 h.body
  have hstatus : intoBuf (Bytes.ofString "HTTP/1.1 " ++ Bytes.ofString (toString r.statusCode_) ++
      [32]) = Bytes.ofString "HTTP/1.1 " ++ Bytes.ofString (toString r.statusCode_) ++ [32] := by
    have hversion : (Bytes.ofString "HTTP/1.1 ").length = 9 := by decide
    refine List.take_of_length_le ?_
    simp only [List.length_append, List.length_singleton, hversion]
    omega
  have hcontent : intoBuf (Bytes.ofString "Content-Length: " ++
      Bytes.ofString (toString r.body_.length) ++ Bytes.ofString "\r\n") =
      Bytes.ofString "Content-Length" ++ 58 :: 32 ::
        (Bytes.ofString (toString r.body_.length) ++ [13, 10]) := by
    have hname : Bytes.ofString "Content-Length: " = Bytes.ofString "Content-Length" ++ [58, 32] := by
      decide
    have hsize : (Bytes.ofString "Content-Length").length = 14 := by decide
    have hcrlf : Bytes.ofString "\r\n" = [13, 10] := by decide
    rw [intoBuf, List.take_of_length_le]
    · rw [hname, hcrlf]
      simp
    · simp only [hname, hcrlf, List.length_append, List.length_cons, List.length_nil, hsize]
      omega
  have hconnection : Bytes.ofString "Connection: Keep-Alive\r\n" =
      Bytes.ofString "Connection" ++ 58 :: 32 :: (Bytes.ofString "Keep-Alive" ++ [13, 10]) := by
    decide
  have hcrlf : Bytes.ofString "\r\n" = [13, 10] := by decide
  have hcolon : Bytes.ofString ": " = [58, 32] := by decide
  unfold appendToBuffer
  rw [hstatus, h.closeConnection, if_neg Bool.false_ne_true, hcontent, hconnection, hcrlf, hcolon]
  simp [Received.text, Message.text, Received.toMessage, received, Received.statusLine,
    Received.headerLine, List.flatMap_map]

theorem received_encodable (h : r.KeepAlive) : r.received.Encodable := by
  have hdigits : ∀ (n : Nat) (b : UInt8), Bytes.isdigit b = false →
      b ∉ Bytes.ofString (toString n) := by
    intro n b hb hmem
    rw [Bytes.isdigit_of_mem hmem] at hb
    cases hb
  refine ⟨?_, ?_, ?_⟩
  · intro line hline
    refine Bytes.findCRLF_none_of_not_mem ?_
    rcases List.mem_cons.1 hline with rfl | hline
    · have hversion : 13 ∉ Bytes.ofString "HTTP/1.1 " := by decide
      have hcode := hdigits r.statusCode_ 13 (by decide)
      simp only [Received.toMessage, received, Received.statusLine, List.mem_append, List.mem_cons,
        not_or]
      exact ⟨hversion, hcode, by decide, h.statusMessage.1⟩
    · rcases List.mem_map.1 hline with ⟨header, hheader, rfl⟩
      have hparts : 13 ∉ header.1 ∧ 13 ∉ header.2 := by
        rcases List.mem_cons.1 hheader with rfl | hheader
        · have hname : 13 ∉ Bytes.ofString "Content-Length" := by decide
          exact ⟨hname, hdigits _ 13 (by decide)⟩
        · rcases List.mem_cons.1 hheader with rfl | hheader
          · decide
          · exact ⟨(h.names header hheader).1, (h.values header hheader).1⟩
      simp [Received.headerLine, hparts]
  · intro header hheader
    rcases List.mem_cons.1 hheader with rfl | hheader
    · have hname : 58 ∉ Bytes.ofString "Content-Length" := by decide
      exact hname
    · rcases List.mem_cons.1 hheader with rfl | hheader
      · decide
      · exact h.colon header hheader
  · simp only [Received.contentLength, received, List.lookup_cons_self, Option.bind_some]
    exact Bytes.decimal_eq_some_iff.2 rfl

/-! ## Outputs -/

theorem output_short (h : r.ShorterThan (2 ^ 31)) : r.output = some r.appendToBuffer := by
  have hshort : ∀ str ∈ r.strings, str.length < 2 ^ 31 := (length_strings_lt (by decide)).2 h
  rcases appendStrings_short (Buffer.construct_inv Buffer.kInitialSize) hshort with
    ⟨b, hb, -, hreadable⟩
  rw [Buffer.readable_construct, List.nil_append, flatten_strings] at hreadable
  rw [output, appendTo_eq, hb, Option.map_some, hreadable]

/-- A response with a long string is not sent as a whole. -/
theorem length_output (hmax : r.ShorterThan (2 ^ 63)) {bytes : Bytes}
    (hsome : r.output = some bytes) :
    bytes.length ≤ r.appendToBuffer.length ∧
      (¬ r.ShorterThan (2 ^ 31) → bytes.length < r.appendToBuffer.length) := by
  rw [output, appendTo_eq] at hsome
  rcases Option.map_eq_some_iff.1 hsome with ⟨b, hb, rfl⟩
  have hbound := (length_strings_lt (by decide)).2 hmax
  have hlengths := appendStrings_some (Buffer.construct_inv Buffer.kInitialSize) hbound hb
  rw [Buffer.readable_construct, List.length_nil, Nat.zero_add, flatten_strings] at hlengths
  refine ⟨hlengths.1, ?_⟩
  intro hlong
  rw [← length_strings_lt (by decide)] at hlong
  push Not at hlong
  exact hlengths.2 hlong

theorem outputs_short {rs : List HttpResponse} (h : ∀ r ∈ rs, r.ShorterThan (2 ^ 31)) :
    rs.mapM output = some (rs.map appendToBuffer) := by
  induction rs with
  | nil => rfl
  | cons r rs ih =>
      rw [List.mapM_cons, output_short (h r List.mem_cons_self),
        ih fun r' hr' => h r' (List.mem_cons_of_mem _ hr')]
      rfl

theorem length_outputs {rs : List HttpResponse} (hmax : ∀ r ∈ rs, r.ShorterThan (2 ^ 63))
    {outs : List Bytes} (hsome : rs.mapM output = some outs) :
    outs.flatten.length ≤ (rs.flatMap appendToBuffer).length ∧
      ((∃ r ∈ rs, ¬ r.ShorterThan (2 ^ 31)) →
        outs.flatten.length < (rs.flatMap appendToBuffer).length) := by
  induction rs generalizing outs with
  | nil =>
      cases hsome
      simp
  | cons r rs ih =>
      rw [List.mapM_cons] at hsome
      rcases Option.bind_eq_some_iff.1 hsome with ⟨bytes, hbytes, hsome⟩
      rcases Option.bind_eq_some_iff.1 hsome with ⟨others, hothers, hsome⟩
      cases hsome
      rcases length_output (hmax r List.mem_cons_self) hbytes with ⟨hle, hlt⟩
      rcases ih (fun r' hr' => hmax r' (List.mem_cons_of_mem _ hr')) hothers with ⟨hrest, hless⟩
      rw [List.flatten_cons, List.flatMap_cons, List.length_append, List.length_append]
      refine ⟨by omega, ?_⟩
      rintro ⟨r', hr', hlong⟩
      rcases List.mem_cons.1 hr' with rfl | hr'
      · have := hlt hlong
        omega
      · have := hless ⟨r', hr', hlong⟩
        omega

/-! ## Responses one after another -/

/-- A client finds the responses in what is sent for them. -/
def SelfDelimiting (rs : List HttpResponse) : Prop :=
  ∃ outs, rs.mapM output = some outs ∧
    Received.framing.decode outs.flatten = (rs.map received, [])

section Several

variable {rs : List HttpResponse} (h : ∀ r ∈ rs, r.KeepAlive)

include h

theorem texts_eq : (rs.map received).flatMap Received.text = rs.flatMap appendToBuffer := by
  rw [List.flatMap_map]
  induction rs with
  | nil => rfl
  | cons r rs ih =>
      rw [List.flatMap_cons, List.flatMap_cons, appendToBuffer_eq_text (h r List.mem_cons_self),
        ih fun r' hr' => h r' (List.mem_cons_of_mem _ hr')]

theorem selfDelimiting_of_short (hshort : ∀ r ∈ rs, r.ShorterThan (2 ^ 31)) :
    SelfDelimiting rs := by
  have hfirst : ∀ d ∈ rs.map received, ∀ more,
      Received.framing.first (d.text ++ more) = some (d, d.text.length) := by
    intro d hd more
    rcases List.mem_map.1 hd with ⟨r, hr, rfl⟩
    exact Received.first_eq_some_iff.2 ⟨received_encodable (h r hr), ⟨more, rfl⟩, rfl⟩
  have hdecode := Framing.decode_flatMap_of_mem hfirst []
  rw [List.append_nil, texts_eq h, Framing.decode_nil, List.append_nil] at hdecode
  refine ⟨_, outputs_short hshort, ?_⟩
  rw [← List.flatMap_def]
  exact hdecode

/-- What is found comes from as many bytes as the whole responses have. -/
theorem short_of_selfDelimiting (hfound : SelfDelimiting rs) :
    ∀ r ∈ rs, r.ShorterThan (2 ^ 31) := by
  rcases hfound with ⟨outs, houts, hdecode⟩
  have htext : ∀ {bs d n}, Received.framing.first bs = some (d, n) → bs.take n = d.text := by
    intro bs d n hfirst
    rcases Received.first_eq_some_iff.1 hfirst with ⟨-, ⟨more, rfl⟩, rfl⟩
    exact List.take_left
  -- the client puts together exactly what was sent, so nothing can be missing from it
  have hwhole := Framing.flatMap_decode htext outs.flatten
  rw [hdecode, List.append_nil, texts_eq h] at hwhole
  rcases length_outputs (fun r hr => (h r hr).max_size) houts with ⟨-, hless⟩
  rw [← hwhole] at hless
  by_contra hnot
  push Not at hnot
  exact Nat.lt_irrefl _ (hless hnot)

end Several

/-- Responses are found again if and only if no string is cut on its way into the buffer. -/
theorem selfDelimiting_iff (rs : List HttpResponse) (h : ∀ r ∈ rs, r.KeepAlive) :
    SelfDelimiting rs ↔ ∀ r ∈ rs, r.ShorterThan (2 ^ 31) :=
  ⟨short_of_selfDelimiting h, selfDelimiting_of_short h⟩

def plainText (body : Bytes) : HttpResponse where
  statusCode_ := 200
  statusMessage_ := Bytes.ofString "OK"
  closeConnection_ := false
  headers_ := [(Bytes.ofString "Content-Type", Bytes.ofString "text/plain")]
  body_ := body

theorem plainText_keepAlive {body : Bytes} (h : body.length < 10 ^ 13) :
    (plainText body).KeepAlive where
  closeConnection := rfl
  statusCode := by
    change 200 < 2 ^ 31
    decide
  statusMessage := by
    change 13 ∉ Bytes.ofString "OK" ∧ 10 ∉ Bytes.ofString "OK"
    decide
  names := List.forall_mem_singleton.2 (by decide)
  values := List.forall_mem_singleton.2 (by decide)
  colon := List.forall_mem_singleton.2 (by decide)
  generated := List.forall_mem_singleton.2 (by decide)
  body := h
  max_size := by
    refine ⟨?_, List.forall_mem_singleton.2 (by decide), Nat.lt_trans h (by decide)⟩
    change (Bytes.ofString "OK").length < 2 ^ 63
    decide

/-- A body that looks like a response. -/
theorem selfDelimiting_iff_nested :
    SelfDelimiting [plainText (Bytes.ofString "HTTP/1.1 404 Not Found\r\n\r\n"), plainText []] ↔
      ∀ r ∈ [plainText (Bytes.ofString "HTTP/1.1 404 Not Found\r\n\r\n"), plainText []],
        r.ShorterThan (2 ^ 31) := by
  refine selfDelimiting_iff _ ?_
  intro r hr
  rcases List.mem_pair.1 hr with rfl | rfl
  · exact plainText_keepAlive (by decide)
  · exact plainText_keepAlive (by decide)

/-- Of a body of 4 GiB nothing is sent. -/
theorem long_body_not_delimited :
    (plainText (List.replicate (2 ^ 32) 0)).KeepAlive ∧
      ¬ SelfDelimiting [plainText (List.replicate (2 ^ 32) 0)] := by
  have hkeep : (plainText (List.replicate (2 ^ 32) 0)).KeepAlive := by
    refine plainText_keepAlive ?_
    rw [List.length_replicate]
    decide
  refine ⟨hkeep, ?_⟩
  intro hfound
  have hshort := short_of_selfDelimiting (List.forall_mem_singleton.2 hkeep) hfound _
    (List.mem_singleton_self _)
  have hlength : (List.replicate (2 ^ 32) (0 : UInt8)).length < 2 ^ 31 := hshort.body
  rw [List.length_replicate] at hlength
  revert hlength
  decide

end HttpResponse
end Http
end Longky
