import Longky.Cgi.FastCgi
import Longky.Cgi.Respond

/-!
# CgiParser — what the CGI server answers

`cgiServer/parseRequest.cpp`: `accept_request` looks at the method and at the script's file, runs
the script, and wraps either its output or an error page with `FastCgiCodec::respond`.  Every path
fills the parser's own `response_` once and sends it once, so the model returns the bytes sent.

The answers of `stat`, `pipe` and `fork` and the output of the script are arguments.
-/

namespace Longky
namespace Cgi

open Lib Net

/-! ## The C library -/

def isdigit (b : UInt8) : Bool := 48 ≤ b && b ≤ 57

/-- `strtol` in base 10 with a 64-bit `long`: white space, a sign, digits; out of range values are
clamped. -/
def strtol (s : Bytes) : Int :=
  let s₁ := s.dropWhile Bytes.isspace
  let (negative, s₂) :=
    match s₁ with
    | 45 :: t => (true, t)
    | 43 :: t => (false, t)
    | t => (false, t)
  let n := (s₂.takeWhile isdigit).foldl (fun (n : Nat) b => n * 10 + (b.toNat - 48)) 0
  if negative then max (-(2 ^ 63)) (-(n : Int)) else min (2 ^ 63 - 1) (n : Int)

/-- `(int) strtol(s)`. -/
def atoi (s : Bytes) : Int := (strtol s).bmod (2 ^ 32)

/-! ## The parser -/

/-- The answers of the system while one request is served. -/
structure CgiEnv where
  /-- `st_mode`, or none when `stat` fails. -/
  stat : Bytes → Option Nat
  cgi_output : Bool
  cgi_input : Bool
  fork : Bool
  /-- What the script writes before it closes its standard output. -/
  output : Bytes

def S_IXUSR : Nat := 0o100

def S_IXGRP : Nat := 0o010

def S_IXOTH : Nat := 0o001

structure Parser where
  params_ : ParamMap
  postData_ : Bytes

namespace Parser

/-- `params_[name]`. -/
def param (p : Parser) (name : String) : Bytes := (p.params_ (Bytes.ofString name)).getD []

def bad_request : Bytes :=
  Bytes.ofString <|
    "HTTP/1.0 400 BAD REQUEST\r\n" ++
    "Content-type: text/html\r\n\r\n" ++
    "<P>Your browser sent a bad request, " ++
    "such as a POST without a Content-Length.\r\n"

def not_found : Bytes :=
  Bytes.ofString <|
    "HTTP/1.0 404 NOT FOUND\r\n" ++
    "Content-Type: text/html\r\n\r\n" ++
    "<HTML><TITLE>404 Not Found</TITLE>\r\n" ++
    "<BODY><P>The server could not fulfill\r\n" ++
    "your request because the resource specified\r\n" ++
    "is unavailable or nonexistent.\r\n" ++
    "</BODY></HTML>\r\n"

def not_autho : Bytes :=
  Bytes.ofString <|
    "HTTP/1.0 403 Forbidden\r\n" ++
    "Content-Type: text/html\r\n\r\n" ++
    "<HTML><TITLE> 403 Forbidden </TITLE>\r\n" ++
    "<BODY><P> 403 Forbidden \r\n" ++
    "the resource you accessed you have no permission for it \r\n" ++
    "</BODY></HTML>\r\n"

def cannot_execute : Bytes :=
  Bytes.ofString <|
    "HTTP/1.0 500 Internal Server Error\r\n" ++
    "Content-type: text/html\r\n\r\n" ++
    "\r\n" ++
    "<P>Error prohibited CGI execution.\r\n"

def unimplemented : Bytes :=
  Bytes.ofString <|
    "HTTP/1.0 501 Method Not Implemented\r\n" ++
    "Content-Type: text/html\r\n\r\n" ++
    "<HTML><HEAD><TITLE>Method Not Implemented\r\n" ++
    "</TITLE></HEAD>\r\n" ++
    "<BODY><P>HTTP request method not supported.\r\n" ++
    "</BODY></HTML>\r\n"

/-- The text that `execute_cgi` answers with: an error page or the output of the script. -/
def execute_cgi (p : Parser) (e : CgiEnv) : Bytes :=
  if p.param "REQUEST_METHOD" = Bytes.ofString "POST" ∧ atoi (p.param "CONTENT_LENGTH") = -1 then
    bad_request
  else if !e.cgi_output then cannot_execute
  else if !e.cgi_input then cannot_execute
  else if !e.fork then cannot_execute
  else e.output

/-- The text that `accept_request` answers with. -/
def resultText (p : Parser) (g_resource_base_path : Bytes) (e : CgiEnv) : Bytes :=
  let method := p.param "REQUEST_METHOD"
  let path := g_resource_base_path ++ p.param "DOCUMENT_URI"
  if method ≠ Bytes.ofString "GET" ∧ method ≠ Bytes.ofString "POST" then unimplemented
  else
    match e.stat (Bytes.cStr path) with
    | none => not_found
    | some st_mode =>
        if st_mode &&& S_IXUSR = 0 ∧ st_mode &&& S_IXGRP = 0 ∧ st_mode &&& S_IXOTH = 0 then
          not_autho
        else p.execute_cgi e

/-- The bytes `accept_request` sends: `response_` after `FastCgiCodec::respond`. -/
def accept_request (p : Parser) (g_resource_base_path : Bytes) (e : CgiEnv) : Bytes :=
  (FastCgiCodec.respond (p.resultText g_resource_base_path e)
    (WfBuffer.construct Buffer.kInitialSize)).2.readable

end Parser
end Cgi
end Longky
