import Longky.Lib.Lines
import Longky.Lib.Scanning

/-!
# Scan — how the static server reads a request

The first half of `Parser::parserRequest` in `webServer/requestParser.cpp`: method, URL, file name,
version and header lines.  The position `j` in the request is the list of bytes from `j` on; the
byte after the last one is the terminating NUL of `std::string`, and a read beyond it is a fault.

`scan` returns what the function decides and the assignments it makes to `paramMap_`, in order.
-/

namespace Longky
namespace Web

open Lib

/-- Where the behaviour of the program is undefined or an exception leaves the function. -/
inductive Fault where
  /-- A read outside a string or an array, for the value found there. -/
  | outOfBounds
  /-- A write past the end of an array. -/
  | overflow
  /-- A conversion in a format string without an argument. -/
  | format
  /-- `std::length_error` or `std::bad_array_new_length`. -/
  | lengthError
  | nullPointer
  deriving DecidableEq, Repr

/-- The parts of the configuration that requests are served from. -/
structure Config where
  g_resource_base_path : Bytes
  g_resource_index_path : Bytes
  mimeType : Bytes → Option Bytes
  g_redis_vip : List Bytes
  urlTomd5 : Bytes → Bytes
  /-- `(int) ((float) size * g_redis_rate) + 1`. -/
  comPressStringSize : Nat → Int

/-! ## Error pages -/

inductive Page where
  | not_found
  | not_autho
  | unimplemented
  | version_not_support
  deriving DecidableEq, Repr

def Page.text : Page → Bytes
  | .not_found =>
      Bytes.ofString <|
        "HTTP/1.1 404 NOT FOUND\r\n" ++
        "Content-Type: text/html\r\n\r\n" ++
        "<HTML><TITLE>404 Not Found</TITLE>\r\n" ++
        "<BODY>The server could not fulfill\r\n" ++
        "your request because the resource specified\r\n" ++
        "is unavailable or nonexistent.\r\n" ++
        "</BODY></HTML>\r\n"
  | .not_autho =>
      Bytes.ofString <|
        "HTTP/1.1 403 Forbidden\r\n" ++
        "Content-Type: text/html\r\n\r\n" ++
        "<HTML><TITLE> 403 Forbidden </TITLE>\r\n" ++
        "<BODY><P> 403 Forbidden \r\n" ++
        "the resource you accessed you have no permission for it \r\n" ++
        "</BODY></HTML>\r\n"
  | .unimplemented =>
      Bytes.ofString <|
        "HTTP/1.1 501 Method Not Implemented\r\n" ++
        "Content-Type: text/html\r\n\r\n" ++
        "<HTML><HEAD><TITLE>Method Not Implemented\r\n" ++
        "</TITLE></HEAD>\r\n" ++
        "<BODY><P>HTTP request method not supported.\r\n" ++
        "</BODY></HTML>\r\n"
  | .version_not_support =>
      Bytes.ofString <|
        "HTTP/1.1 505 version not support\r\n" ++
        "Content-Type: text/html\r\n\r\n" ++
        "<HTML><HEAD><TITLE>version not suppord\r\n" ++
        "</TITLE></HEAD>\r\n" ++
        "<BODY><P>HTTP request version not supported.\r\n" ++
        "</BODY></HTML>\r\n"

/-! ## The request line -/

/-- The loop that fills `method[16]`, with the room left in it; returns the method and the rest. -/
def scanMethod : Nat → Bytes → Except Fault (Bytes × Bytes)
  -- `method` is full; what it holds is too long to be a GET
  | 0, rest => .ok ([], rest)
  | _ + 1, [] =>
      -- the terminating NUL is no white space, so the loop goes on behind it
      .error .outOfBounds
  | room + 1, c :: rest =>
      if Bytes.isspace c then .ok ([], c :: rest)
      else do
        let (method, rest') ← scanMethod room rest
        return (c :: method, rest')

/-- The loop that fills `url[255]`: up to a blank, the end of the request or the end of the array. -/
def scanUrl (rest : Bytes) : Bytes × Bytes :=
  let url := (rest.takeWhile (· != 32)).take 254
  (url, rest.drop url.length)

/-! ## The file -/

/-- `sprintf` with one string argument, which `%s` consumes. -/
def sprintf (arg : Option Bytes) : Bytes → Except Fault Bytes
  | [] => .ok []
  | 37 :: 37 :: fmt => return 37 :: (← sprintf arg fmt)
  | 37 :: 115 :: fmt =>
      match arg with
      | none => .error .format
      | some s => return s ++ (← sprintf none fmt)
  | 37 :: _ => .error .format
  | c :: fmt => return c :: (← sprintf arg fmt)

/-- A C string that is written into `path[255]`. -/
def intoPath (text : Bytes) : Except Fault Bytes :=
  if text.length < 255 then .ok text else .error .overflow

/-- `strcpy(path, index_path.c_str())`. -/
def indexPath (cfg : Config) : Except Fault Bytes :=
  intoPath (Bytes.cStr (cfg.g_resource_base_path ++ cfg.g_resource_index_path))

/-- `path` as it is handed to `stat`. -/
def pathOf (cfg : Config) (url : Bytes) : Except Fault Bytes := do
  let fmt := Bytes.cStr (cfg.g_resource_base_path ++ Bytes.ofString "%s")
  let path ← intoPath (← sprintf (some (Bytes.cStr url)) fmt)
  match path.getLast? with
  | none => .error .outOfBounds
  | some c => if c = 47 then indexPath cfg else .ok path

/-- The text behind the last dot of a path, or the whole path. -/
def extension (path : Bytes) : Bytes := (path.reverse.takeWhile (· != 46)).reverse

/-- No read permission for anyone. -/
def unreadable (st_mode : Nat) : Bool :=
  st_mode &&& 0o400 == 0 && st_mode &&& 0o040 == 0 && st_mode &&& 0o004 == 0

def isDirectory (st_mode : Nat) : Bool := st_mode &&& 0o170000 == 0o040000

/-- The index page stands in for a directory. -/
def servedPath (cfg : Config) (file : Bytes) (st_mode : Nat) : Except Fault Bytes :=
  if isDirectory st_mode then indexPath cfg else .ok file

/-- What the checks in front of the version decide. -/
inductive Located where
  /-- An error page; `file` is the name stored in the connection's context, if it got so far. -/
  | page (file : Option Bytes) (p : Page)
  /-- A file to serve, with the request behind the URL and its blanks. -/
  | found (file path mime rest : Bytes)
  deriving DecidableEq, Repr

def locateFile (cfg : Config) (stat : Bytes → Option Nat) (url rest : Bytes) :
    Except Fault Located := do
  let file ← pathOf cfg url
  match stat file with
  | none => return .page (some file) .not_found
  | some st_mode =>
      if unreadable st_mode then return .page (some file) .not_autho
      else
        let path ← servedPath cfg file st_mode
        let mime := extension path
        -- the file name is already in the connection's context
        if (cfg.mimeType mime).isNone then return .page (some file) .unimplemented
        else return .found file path mime (rest.dropWhile (· == 32))

def locate (cfg : Config) (stat : Bytes → Option Nat) (request : Bytes) :
    Except Fault Located := do
  let (method, rest) ← scanMethod 15 request
  if !Bytes.caseEq method (Bytes.ofString "GET") then return .page none .unimplemented
  else
    let (url, rest') := scanUrl (rest.dropWhile Bytes.isspace)
    locateFile cfg stat url rest'

/-! ## Version and headers -/

/-- The loop over the header lines: its assignments to `paramMap_`, and whether the request is
complete. -/
def headerLoop (rest : Bytes) : Except Fault (List (Bytes × Bytes) × Bool) :=
  if rest = [] then .ok ([], true)
  else
    match hcrlf : Bytes.findCRLF rest with
    | none => .ok ([], false)
    | some crlf =>
        have := Bytes.findCRLF_lt hcrlf
        let line := rest.take crlf
        let name := line.takeWhile (· != 58)
        if name.length < crlf then
          -- `string(colon + 2, crlf)` with nothing behind the colon
          if crlf < name.length + 2 then .error .lengthError
          else do
            let (headers, complete) ← headerLoop (rest.drop (crlf + 2))
            return ((name, line.drop (name.length + 2)) :: headers, complete)
        -- a line without a colon ends the headers and must be the end of the request
        else .ok ([], crlf + 2 == rest.length)
termination_by rest.length
decreasing_by
  rw [List.length_drop]
  omega

/-- One turn of the loop. -/
theorem headerLoop_turn {rest : Bytes} {crlf : Nat} (hcrlf : Bytes.findCRLF rest = some crlf) :
    headerLoop rest =
      if ((rest.take crlf).takeWhile (· != 58)).length < crlf then
        if crlf < ((rest.take crlf).takeWhile (· != 58)).length + 2 then .error .lengthError
        else do
          let (headers, complete) ← headerLoop (rest.drop (crlf + 2))
          return (((rest.take crlf).takeWhile (· != 58), (rest.take crlf).drop
            (((rest.take crlf).takeWhile (· != 58)).length + 2)) :: headers, complete)
      else .ok ([], crlf + 2 == rest.length) := by
  have hne : rest ≠ [] := by
    rintro rfl
    cases hcrlf
  rw [headerLoop, if_neg hne]
  split
  · rename_i hnone
    rw [hcrlf] at hnone
    cases hnone
  · rename_i crlf' hsome
    rw [hcrlf] at hsome
    cases hsome
    rfl

/-- On a line with a colon that something follows. -/
theorem headerLoop_of_header {rest name : Bytes} {crlf : Nat} (hcrlf : Bytes.findCRLF rest = some crlf)
    (hname : (rest.take crlf).takeWhile (· != 58) = name) (hlen : name.length + 2 ≤ crlf) :
    headerLoop rest = do
      let (headers, complete) ← headerLoop (rest.drop (crlf + 2))
      return ((name, (rest.take crlf).drop (name.length + 2)) :: headers, complete) := by
  rw [headerLoop_turn hcrlf, hname, if_pos (by omega), if_neg (by omega)]

theorem takeWhile_no_colon {line : Bytes} (hcolon : 58 ∉ line) :
    line.takeWhile (· != 58) = line := by
  rw [List.takeWhile_eq_self_iff]
  intro c hc
  simp only [bne_iff_ne, ne_eq]
  rintro rfl
  exact hcolon hc

/-- The end of the loop on a line without a colon. -/
theorem headerLoop_of_no_colon {rest : Bytes} {crlf : Nat} (hcrlf : Bytes.findCRLF rest = some crlf)
    (hcolon : 58 ∉ rest.take crlf) : headerLoop rest = .ok ([], crlf + 2 == rest.length) := by
  have hlt := Bytes.findCRLF_lt hcrlf
  rw [headerLoop_turn hcrlf, takeWhile_no_colon hcolon, if_neg (by rw [List.length_take]; omega)]

/-- What `parserRequest` decides in the end. -/
inductive Verdict where
  | page (p : Page)
  | serve (path mime : Bytes)
  deriving DecidableEq, Repr

/-- The test of the protocol name and the version. -/
def refused (protocol version : Bytes) : Bool :=
  protocol != Bytes.ofString "HTTP/" ||
    (version != Bytes.ofString "1.0" && version != Bytes.ofString "1.1" &&
      version != Bytes.ofString "2.0")

/-- The version and the headers: assignments, and the error page that ends them, if any. -/
def scanHead (rest : Bytes) : Except Fault (List (Bytes × Bytes) × Option Page) :=
  match Bytes.findCRLF rest with
  | none => .ok ([], some .unimplemented)
  | some crlf =>
      -- `string(begin, crlf - 3)` on a line of less than three bytes
      if crlf < 3 then .error .lengthError
      else
        -- the last three bytes of the line are the version
        let line := rest.take crlf
        if refused (line.take (crlf - 3)) (line.drop (crlf - 3)) then
          .ok ([], some .version_not_support)
        else do
          let (headers, complete) ← headerLoop (rest.drop (crlf + 2))
          return ((Bytes.ofString "version", line.drop (crlf - 3)) :: headers,
            if complete then none else some .unimplemented)

/-- A head that gets as far as the header lines. -/
theorem scanHead_of_accepted {rest line : Bytes} {crlf : Nat} (hcrlf : Bytes.findCRLF rest = some crlf)
    (hline : rest.take crlf = line) (hlen : 3 ≤ crlf)
    (hok : refused (line.take (crlf - 3)) (line.drop (crlf - 3)) = false) :
    scanHead rest = do
      let (headers, complete) ← headerLoop (rest.drop (crlf + 2))
      return ((Bytes.ofString "version", line.drop (crlf - 3)) :: headers,
        if complete then none else some .unimplemented) := by
  subst hline
  simp only [scanHead, hcrlf]
  rw [if_neg (by omega), hok]
  rfl

/-- What a head that leads to `responseRequest` looks like. -/
theorem scanHead_complete {rest : Bytes} {assigned : List (Bytes × Bytes)}
    (h : scanHead rest = .ok (assigned, none)) :
    ∃ crlf headers, Bytes.findCRLF rest = some crlf ∧ 3 ≤ crlf ∧
      refused ((rest.take crlf).take (crlf - 3)) ((rest.take crlf).drop (crlf - 3)) = false ∧
      headerLoop (rest.drop (crlf + 2)) = .ok (headers, true) ∧
      assigned = (Bytes.ofString "version", (rest.take crlf).drop (crlf - 3)) :: headers := by
  unfold scanHead at h
  split at h
  · cases h
  · rename_i crlf hcrlf
    split at h
    · cases h
    · rename_i hlen
      dsimp only at h
      split at h
      · cases h
      · rename_i hok
        rcases bind_eq_ok h with ⟨⟨headers, complete⟩, hloop, h⟩
        cases complete with
        | true =>
            cases h
            exact ⟨crlf, headers, hcrlf, by omega, by simpa using hok, hloop, rfl⟩
        | false => cases h

/-- A head without headers. -/
theorem scanHead_bare : scanHead (Bytes.ofString "HTTP/1.1\r\n\r\n") =
    .ok ([(Bytes.ofString "version", Bytes.ofString "1.1")], none) := by
  have hempty : headerLoop (Bytes.ofString "\r\n") = .ok ([], true) := by
    have hcrlf : Bytes.findCRLF (Bytes.ofString "\r\n") = some 0 := by decide
    exact headerLoop_of_no_colon hcrlf (by decide)
  have hcrlf : Bytes.findCRLF (Bytes.ofString "HTTP/1.1\r\n\r\n") = some 8 := by decide
  rw [scanHead_of_accepted hcrlf rfl (by decide) (by decide)]
  rw [show (Bytes.ofString "HTTP/1.1\r\n\r\n").drop (8 + 2) = Bytes.ofString "\r\n" from rfl, hempty]
  rfl

/-- All that is read off a request. -/
structure Scan where
  file : Option Bytes
  assigned : List (Bytes × Bytes)
  verdict : Verdict
  deriving DecidableEq, Repr

def scan (cfg : Config) (stat : Bytes → Option Nat) (request : Bytes) : Except Fault Scan := do
  match ← locate cfg stat request with
  | .page file p => return ⟨file, [], .page p⟩
  | .found file path mime rest =>
      let (assigned, failed) ← scanHead rest
      match failed with
      | some p => return ⟨some file, assigned, .page p⟩
      | none => return ⟨some file, assigned, .serve path mime⟩

end Web
end Longky
