import Apackage.Rtp2httpd.Http.PicoParser
import Apackage.Rtp2httpd.Proxy.Query
import Apackage.Rtp2httpd.Routing.Route

/-
  Client requests (`http_parse_request` in `http.c`) and the header text that is kept for the
  upstream, with the access token filtered out; and the readers that look for the token
  (`parse_cookie_value` and `extract_r2h_token_from_ua` in `connection.c`).

  Model. A header value copied into a buffer of N bytes is cut to N - 1. An empty token is one
  that is not configured.
-/

namespace Apackage.Rtp2httpd

open Lib.Fields

def httpHeadersMax : ℕ := 128
def httpCookieBufferSize : ℕ := 4096
def rawHeadersSize : ℕ := 4096
def inbufSize : ℕ := 8192
def httpRequestBodyMaxSize : ℕ := 4 * 1024 * 1024

def semicolon : UInt8 := 0x3B

/-- `strstr`: the position of the first occurrence. -/
def strstr (needle : Bytes) : Bytes → Option ℕ
  | [] => if needle = [] then some 0 else none
  | c :: rest => if needle <+: c :: rest then some 0 else (strstr needle rest).map (· + 1)

theorem strstr_eq_some {needle s : Bytes} {i : ℕ} (hne : needle ≠ []) :
    strstr needle s = some i ↔ needle <+: s.drop i ∧ ∀ j < i, ¬ needle <+: s.drop j := by
  induction s generalizing i with
  | nil =>
    rw [strstr, if_neg hne, List.drop_nil, List.prefix_nil]
    exact iff_of_false (fun h => by cases h) fun h => hne h.1
  | cons c s ih =>
    rw [strstr]
    split
    · rename_i hp
      constructor
      · grind
      · intro h
        cases i with
        | zero => rfl
        | succ i => exact absurd hp (h.2 0 (Nat.succ_pos i))
    · rename_i hp
      cases i with
      | zero =>
        simp [*]
      | succ i =>
        rw [Option.map_eq_some_iff]
        constructor
        · rintro ⟨j, hj, hji⟩
          obtain rfl : j = i := by omega
          obtain ⟨hstarts, hbefore⟩ := ih.1 hj
          refine ⟨hstarts, fun k hk => ?_⟩
          cases k with
          | zero => exact hp
          | succ k => exact hbefore k (by omega)
        · grind

/-! ## Finding the token -/

/-- `parse_cookie_value`; none is -1. -/
def parseCookieValue (cookieHeader name : Bytes) (valueSize : ℕ) : Option Bytes :=
  (cookieHeader.splitOn semicolon).findSome? fun piece =>
    let cookie := piece.dropWhile isBlank
    if named name cookie then
      some (((cookie.drop (name.length + 1)).take (valueSize - 1)).rdropWhile isBlank)
    else none

def uaMarker : Bytes := ascii "R2HTOKEN/"

/-- `extract_r2h_token_from_ua`; none is -1. -/
def extractR2hTokenFromUa (userAgent : Bytes) (valueSize : ℕ) : Option Bytes :=
  match strstr uaMarker userAgent with
  | none => none
  | some i =>
    let value := (userAgent.drop (i + uaMarker.length)).takeWhile (!isBlank ·)
    if value = [] then none else some (value.take (valueSize - 1))

/-! ## Filtering the token -/

/-- `http_filter_cookie`; none is -1. -/
def httpFilterCookie (cookieHeader excludeName : Bytes) (outputSize : ℕ) : Option Bytes :=
  writeFields (fun cookie => !named excludeName cookie) (ascii "; ") outputSize
    ((cookieHeader.splitOn semicolon).map (·.dropWhile isBlank))

/-- `http_filter_user_agent_token`; none is -1. -/
def httpFilterUserAgentToken (userAgent : Bytes) (outputSize : ℕ) : Option Bytes :=
  match strcasestr uaMarker userAgent with
  | none => if outputSize ≤ userAgent.length then none else some userAgent
  | some start =>
    let tokenEnd := start + uaMarker.length +
      ((userAgent.drop (start + uaMarker.length)).takeWhile (!isBlank ·)).length
    let hasLeadingSpace := 0 < start && (userAgent[start - 1]?).any isBlank
    let hasTrailingSpace := (userAgent[tokenEnd]?).any isBlank
    let prefixEnd := if hasLeadingSpace then start - 1 else start
    let suffixStart := if !hasLeadingSpace && hasTrailingSpace then tokenEnd + 1 else tokenEnd
    let output := userAgent.take prefixEnd ++ userAgent.drop suffixStart
    if outputSize ≤ output.length then none else some output

/-! ## The request -/

inductive HttpParseState
  | reqLine
  | headers
  | body
  | complete
  deriving DecidableEq

/-- `http_request_t`. -/
structure HttpRequest where
  method : Bytes
  url : Bytes
  hostname : Bytes
  userAgent : Bytes
  accept : Bytes
  ifNoneMatch : Bytes
  xForwardedFor : Bytes
  xForwardedHost : Bytes
  xForwardedProto : Bytes
  xRequestSnapshot : Bool
  cookie : Bytes
  accessControlRequestMethod : Bytes
  accessControlRequestHeaders : Bytes
  parseState : HttpParseState
  contentLength : ℤ
  body : Option Bytes
  rawHeaders : Bytes

def httpRequestInit : HttpRequest :=
  ⟨[], [], [], [], [], [], [], [], [], false, [], [], [], .reqLine, -1, none, []⟩

/-- `http_headers_copy_token` into a buffer. -/
def httpHeadersCopyToken (destSize : ℕ) (src : Bytes) : Bytes := src.take (destSize - 1)

def nameIs (name key : Bytes) : Bool := name.length = key.length && hasPrefixNoCase key name

/-- `http_header_value_long`; none is -1. -/
def httpHeaderValueLong (value : Bytes) : Option ℤ :=
  if value = [] ∨ 32 ≤ value.length then none
  else
    match strtol value with
    | some (v, []) => if v = -2 ^ 63 ∨ v = 2 ^ 63 - 1 then none else some v
    | _ => none

/-- `http_request_append_raw_header`: a line that does not fit is left out. -/
def httpRequestAppendRawHeader (req : HttpRequest) (name value : Bytes) : HttpRequest :=
  if value = [] then req
  else if rawHeadersSize - 1 ≤ req.rawHeaders.length + (name.length + 2 + value.length + 2) then req
  else { req with rawHeaders := req.rawHeaders ++ (name ++ ascii ": " ++ value ++ [CR, LF]) }

/-- The headers that are not kept for the upstream. -/
def droppedHeaders : List Bytes :=
  [ascii "Host", ascii "Connection", ascii "Content-Length", ascii "Transfer-Encoding",
    ascii "Accept-Encoding", ascii "X-Forwarded-For", ascii "X-Forwarded-Host",
    ascii "X-Forwarded-Proto"]

/-- The first part of `http_request_consume_header`: the text for the upstream. -/
def keepRawHeader (r2hToken : Bytes) (req : HttpRequest) (name value : Bytes) : HttpRequest :=
  if droppedHeaders.any (nameIs name) then req
  else if nameIs name (ascii "Cookie") && r2hToken ≠ [] then
    let valueBuf := httpHeadersCopyToken httpCookieBufferSize value
    match httpFilterCookie valueBuf (ascii "r2h-token") httpCookieBufferSize with
    | some filtered => httpRequestAppendRawHeader req name filtered
    | none => req
  else if nameIs name (ascii "User-Agent") && r2hToken ≠ [] then
    let valueBuf := httpHeadersCopyToken httpCookieBufferSize value
    match httpFilterUserAgentToken valueBuf httpCookieBufferSize with
    | some (c :: filtered) => httpRequestAppendRawHeader req name (c :: filtered)
    | _ => httpRequestAppendRawHeader req name value
  else httpRequestAppendRawHeader req name value

/-- The second part of `http_request_consume_header`: the fields of the request. -/
def setHeaderField (req : HttpRequest) (name value : Bytes) : HttpRequest :=
  if nameIs name (ascii "Host") then { req with hostname := httpHeadersCopyToken 256 value }
  else if nameIs name (ascii "User-Agent") then
    { req with userAgent := httpHeadersCopyToken 256 value }
  else if nameIs name (ascii "Accept") then { req with accept := httpHeadersCopyToken 256 value }
  else if nameIs name (ascii "If-None-Match") then
    { req with ifNoneMatch := httpHeadersCopyToken 256 value }
  else if nameIs name (ascii "X-Request-Snapshot") then
    { req with xRequestSnapshot := value.head? = some 0x31 }
  else if nameIs name (ascii "X-Forwarded-For") then
    { req with
      xForwardedFor := httpHeadersCopyToken 64 ((value.takeWhile (· ≠ 0x2C)).rdropWhile isBlank) }
  else if nameIs name (ascii "X-Forwarded-Host") then
    { req with xForwardedHost := httpHeadersCopyToken 256 value }
  else if nameIs name (ascii "X-Forwarded-Proto") then
    { req with xForwardedProto := httpHeadersCopyToken 16 value }
  else if nameIs name (ascii "Content-Length") then
    { req with
      contentLength :=
        match httpHeaderValueLong value with
        | some cl => if cl < 0 ∨ 2147483647 < cl then 0 else cl
        | none => 0 }
  else if nameIs name (ascii "Cookie") then
    { req with cookie := httpHeadersCopyToken httpCookieBufferSize value }
  else if nameIs name (ascii "Access-Control-Request-Method") then
    { req with accessControlRequestMethod := httpHeadersCopyToken 64 value }
  else if nameIs name (ascii "Access-Control-Request-Headers") then
    { req with accessControlRequestHeaders := httpHeadersCopyToken 512 value }
  else req

def httpRequestConsumeHeader (r2hToken : Bytes) (req : HttpRequest) (header : PhrHeader) :
    HttpRequest :=
  match header.name with
  | none => req
  | some name => setHeaderField (keepRawHeader r2hToken req name header.value) name header.value

/-- The body part of `http_parse_request`. -/
def parseBody (inbuf : Bytes) (req : HttpRequest) : Bytes × HttpRequest × ℤ :=
  let bodySize := req.contentLength.toNat
  if httpRequestBodyMaxSize < bodySize then (inbuf, req, -1)
  else
    let sofar := req.body.getD []
    let toCopy := min inbuf.length (bodySize - sofar.length)
    let body := sofar ++ inbuf.take toCopy
    let rest := inbuf.drop toCopy
    if bodySize ≤ body.length then
      (rest, { req with body := some body, parseState := .complete }, 1)
    else (rest, { req with body := some body }, 0)

def setRequestLine (req : HttpRequest) (parsed : PhrRequest) : HttpRequest :=
  { req with
    method := httpHeadersCopyToken 16 parsed.method
    url := httpHeadersCopyToken httpUrlBufferSize parsed.path }

/-- `http_parse_request`: what is left of the input, the request and the result. -/
def httpParseRequest (r2hToken inbuf : Bytes) (req : HttpRequest) : Bytes × HttpRequest × ℤ :=
  match req.parseState with
  | .reqLine | .headers =>
    match phrParseRequest inbuf httpHeadersMax with
    | .error .incomplete => if inbufSize ≤ inbuf.length then (inbuf, req, -1) else (inbuf, req, 0)
    | .error .invalid => (inbuf, req, -1)
    | .ok (parsed, rest) =>
      let req := parsed.headers.foldl (httpRequestConsumeHeader r2hToken) (setRequestLine req parsed)
      if 0 < req.contentLength then parseBody rest { req with parseState := .body }
      else (rest, { req with parseState := .complete }, 1)
  | .body => parseBody inbuf req
  | .complete => (inbuf, req, 0)

end Apackage.Rtp2httpd
