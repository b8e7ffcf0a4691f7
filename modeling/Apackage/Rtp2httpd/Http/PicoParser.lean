import Mathlib.Data.List.DropRight
import Apackage.Rtp2httpd.CString
import Apackage.Rtp2httpd.Http.ChunkedDecoder

/-
  The request parser (`vendor/picohttpparser/picohttpparser.c`).

  Model. A position in the buffer is what follows it. The parser returns what it read and what
  follows, or -2 (`incomplete`) or -1 (`invalid`).
-/

namespace Apackage.Rtp2httpd

open List

inductive PhrError
  | incomplete
  | invalid

def isBlank (c : UInt8) : Bool := c = 0x20 || c = 0x09

/-- `token_char_map`. -/
def isTokenChar (c : UInt8) : Bool :=
  isAlnum c ||
    c ∈ [0x21, 0x23, 0x24, 0x25, 0x26, 0x27, 0x2A, 0x2B, 0x2D, 0x2E, 0x5E, 0x5F, 0x60, 0x7C, 0x7E]

/-- A control byte that ends a header value. -/
def endsValue (c : UInt8) : Bool := (c < 0x20 && c ≠ 0x09) || c = 0x7F

/-- `EXPECT_CHAR('\\012')`. -/
def expectLf : Bytes → Except PhrError Bytes
  | [] => .error .incomplete
  | c :: rest => if c = LF then .ok rest else .error .invalid

/-- `parse_token`: the token and what follows, from the delimiter on. -/
def parseToken (next : UInt8) : Bytes → Except PhrError (Bytes × Bytes)
  | [] => .error .incomplete
  | c :: rest =>
    if c = next then .ok ([], c :: rest)
    else if !isTokenChar c then .error .invalid
    else do
      let (token, rest) ← parseToken next rest
      return (c :: token, rest)

/-- `get_token_to_eol`: the text and what follows the end of the line. -/
def getTokenToEol : Bytes → Except PhrError (Bytes × Bytes)
  | [] => .error .incomplete
  | c :: rest =>
    if endsValue c then
      if c = CR then do
        let rest ← expectLf rest
        return ([], rest)
      else if c = LF then .ok ([], rest)
      else .error .invalid
    else do
      let (token, rest) ← getTokenToEol rest
      return (c :: token, rest)

/-- `struct phr_header`; a continuation line has no name. -/
structure PhrHeader where
  name : Option Bytes
  value : Bytes

/-- Past the blanks; there must be something. -/
def skipBlanks (blank : UInt8 → Bool) (buf : Bytes) : Except PhrError Bytes :=
  let buf := buf.dropWhile blank
  if buf = [] then .error .incomplete else .ok buf

/-- The name of a header line and what follows the blanks behind the colon. -/
def parseName (buf : Bytes) : Except PhrError (Bytes × Bytes) := do
  let (name, buf) ← parseToken 0x3A buf
  if name = [] then .error .invalid
  else do
    let buf ← skipBlanks isBlank (buf.drop 1)
    return (name, buf)

/-- One header line of `parse_headers`; a line that starts with a blank goes on with the value
    of the line before. -/
def parseHeader (first : Bool) (buf : Bytes) : Except PhrError (PhrHeader × Bytes) :=
  if first || !(buf.head?.any isBlank) then do
    let (name, buf) ← parseName buf
    let (value, rest) ← getTokenToEol buf
    return (⟨some name, value.rdropWhile isBlank⟩, rest)
  else do
    let (value, rest) ← getTokenToEol buf
    return (⟨none, value.rdropWhile isBlank⟩, rest)

/-- `parse_headers` with room for this many more headers. -/
def parseHeaders : ℕ → (first : Bool) → Bytes → Except PhrError (List PhrHeader × Bytes)
  | _, _, [] => .error .incomplete
  | room, first, c :: rest =>
    if c = CR then do
      let rest ← expectLf rest
      return ([], rest)
    else if c = LF then .ok ([], rest)
    else
      match room with
      | 0 => .error .invalid
      | room + 1 => do
        let (header, rest) ← parseHeader first (c :: rest)
        let (headers, rest) ← parseHeaders room false rest
        return (header :: headers, rest)

/-- `ADVANCE_TOKEN`: the text up to a space. -/
def advanceToken : Bytes → Except PhrError (Bytes × Bytes)
  | [] => .error .incomplete
  | c :: rest =>
    if c = 0x20 then .ok ([], c :: rest)
    else if c < 0x20 || c = 0x7F then .error .invalid
    else do
      let (token, rest) ← advanceToken rest
      return (c :: token, rest)

def parseHttpVersion (buf : Bytes) : Except PhrError (ℕ × Bytes) :=
  if buf.length < 9 then .error .incomplete
  else if ¬ ascii "HTTP/1." <+: buf then .error .invalid
  else
    match buf.drop 7 with
    | [] => .error .incomplete
    | c :: rest => if isDigit c then .ok (c.toNat - 0x30, rest) else .error .invalid

structure PhrRequest where
  method : Bytes
  path : Bytes
  minorVersion : ℕ
  headers : List PhrHeader

/-- The end of a line in `parse_request`; `required` when there must be one. -/
def lineEnd (required : Bool) : Bytes → Except PhrError Bytes
  | [] => .error .incomplete
  | c :: rest =>
    if c = CR then expectLf rest
    else if c = LF then .ok rest
    else if required then .error .invalid
    else .ok (c :: rest)

def phrParseRequest (buf : Bytes) (maxHeaders : ℕ) : Except PhrError (PhrRequest × Bytes) := do
  let buf ← lineEnd false buf
  let (method, buf) ← parseToken 0x20 buf
  let buf ← skipBlanks (· = 0x20) buf
  let (path, buf) ← advanceToken buf
  let buf ← skipBlanks (· = 0x20) buf
  if method = [] ∨ path = [] then .error .invalid
  else do
    let (minorVersion, buf) ← parseHttpVersion buf
    let buf ← lineEnd true buf
    let (headers, rest) ← parseHeaders maxHeaders true buf
    return (⟨method, path, minorVersion, headers⟩, rest)

/-! ## What is accepted -/

theorem bind_ok {ε α β : Type} {x : Except ε α} {f : α → Except ε β} {b : β}
    (h : (x >>= f) = .ok b) : ∃ a, x = .ok a ∧ f a = .ok b := by
  cases x with
  | error e => cases h
  | ok a => exact ⟨a, rfl, h⟩

variable {rest buf : Bytes}

theorem parseToken_ok {next : UInt8} {token : Bytes} (h : parseToken next buf = .ok (token, rest)) :
    ∀ c ∈ token, isTokenChar c = true := by
  induction buf generalizing token rest with
  | nil => cases h
  | cons c buf ih =>
    rw [parseToken] at h
    split at h
    · cases h
      simp
    split at h
    · cases h
    rename_i hc
    obtain ⟨⟨token', rest'⟩, hrest, heq⟩ := bind_ok h
    cases heq
    intro x hx
    rcases List.mem_cons.1 hx with rfl | hx
    · simpa using hc
    · exact ih hrest x hx

theorem getTokenToEol_ok {token : Bytes} (h : getTokenToEol buf = .ok (token, rest)) :
    token <+: buf ∧ ∀ c ∈ token, endsValue c = false := by
  induction buf generalizing token rest with
  | nil => cases h
  | cons c buf ih =>
    rw [getTokenToEol] at h
    split at h
    · split at h
      · obtain ⟨_, _, heq⟩ := bind_ok h
        cases heq
        simp
      split at h
      · cases h
        simp
      · cases h
    rename_i hc
    obtain ⟨⟨token', rest'⟩, hrest, heq⟩ := bind_ok h
    cases heq
    obtain ⟨hstart, hvalue⟩ := ih hrest
    refine ⟨(cons_prefix_cons).2 ⟨rfl, hstart⟩, fun x hx => ?_⟩
    rcases List.mem_cons.1 hx with rfl | hx
    · simpa using hc
    · exact hvalue x hx

theorem skipBlanks_ok {blank : UInt8 → Bool} (h : skipBlanks blank buf = .ok rest) :
    rest.head?.any blank = false := by
  unfold skipBlanks at h
  dsimp only at h
  split at h
  · cases h
  have hnot := head?_dropWhile_not blank buf
  rw [Except.ok.inj h] at hnot
  cases rest with
  | nil => rfl
  | cons c rest => simpa using hnot

/-- A header with a name, as the parser returns it. -/
structure PhrHeader.Valid (header : PhrHeader) : Prop where
  name : ∀ name, header.name = some name → ∀ c ∈ name, isTokenChar c = true
  value : ∀ c ∈ header.value, endsValue c = false
  first : header.name ≠ none → header.value.head?.any isBlank = false
  last : header.value.getLast?.any isBlank = false

theorem parseName_ok {name : Bytes} (h : parseName buf = .ok (name, rest)) :
    (∀ c ∈ name, isTokenChar c = true) ∧ rest.head?.any isBlank = false := by
  obtain ⟨⟨name', buf'⟩, hname, h⟩ := bind_ok h
  dsimp only at h
  split at h
  · cases h
  obtain ⟨rest', hskip, h⟩ := bind_ok h
  cases h
  exact ⟨parseToken_ok hname, skipBlanks_ok hskip⟩

theorem rdropWhile_last (blank : UInt8 → Bool) (value : Bytes) :
    (value.rdropWhile blank).getLast?.any blank = false := by
  by_cases hnil : value.rdropWhile blank = []
  · rw [hnil]
    rfl
  · have hlast := rdropWhile_last_not blank value hnil
    rw [getLast?_eq_some_getLast hnil]
    simpa using hlast

theorem parseHeader_valid {first : Bool} {header : PhrHeader}
    (h : parseHeader first buf = .ok (header, rest)) : header.Valid := by
  unfold parseHeader at h
  split at h
  · obtain ⟨⟨name, buf'⟩, hname, h⟩ := bind_ok h
    obtain ⟨⟨value, rest'⟩, hvalue, h⟩ := bind_ok h
    cases h
    obtain ⟨htoken, hblank⟩ := parseName_ok hname
    obtain ⟨hstart, hcontrol⟩ := getTokenToEol_ok hvalue
    have htrim := rdropWhile_prefix isBlank (l := value)
    refine ⟨?_, fun c hc => hcontrol c (htrim.subset hc), fun _ => ?_, rdropWhile_last _ _⟩
    · intro _ hsome
      cases hsome
      exact htoken
    · obtain ⟨more, rfl⟩ := htrim.trans hstart
      cases hv : value.rdropWhile isBlank with
      | nil => rfl
      | cons c v =>
        rw [hv] at hblank
        exact hblank
  · obtain ⟨⟨value, rest'⟩, hvalue, h⟩ := bind_ok h
    cases h
    have htrim := rdropWhile_prefix isBlank (l := value)
    exact ⟨fun _ hsome => (by cases hsome),
      fun c hc => (getTokenToEol_ok hvalue).2 c (htrim.subset hc), fun hnone => absurd rfl hnone,
      rdropWhile_last _ _⟩

theorem parseHeaders_valid {room : ℕ} {first : Bool} {headers : List PhrHeader}
    (h : parseHeaders room first buf = .ok (headers, rest)) : ∀ header ∈ headers, header.Valid := by
  induction room generalizing first buf headers with
  | zero =>
    cases buf with
    | nil => cases h
    | cons c buf =>
      rw [parseHeaders] at h
      split at h
      · obtain ⟨_, _, h⟩ := bind_ok h
        cases h
        simp
      split at h
      · cases h
        simp
      · cases h
  | succ room ih =>
    cases buf with
    | nil => cases h
    | cons c buf =>
      rw [parseHeaders] at h
      split at h
      · obtain ⟨_, _, h⟩ := bind_ok h
        cases h
        simp
      split at h
      · cases h
        simp
      · obtain ⟨⟨header, buf'⟩, hheader, h⟩ := bind_ok h
        obtain ⟨⟨headers', rest'⟩, hrest, h⟩ := bind_ok h
        cases h
        intro x hx
        rcases List.mem_cons.1 hx with rfl | hx
        · exact parseHeader_valid hheader
        · exact ih hrest x hx

theorem phrParseRequest_valid {maxHeaders : ℕ} {parsed : PhrRequest}
    (h : phrParseRequest buf maxHeaders = .ok (parsed, rest)) :
    ∀ header ∈ parsed.headers, header.Valid := by
  obtain ⟨_, _, h⟩ := bind_ok h
  obtain ⟨_, _, h⟩ := bind_ok h
  obtain ⟨_, _, h⟩ := bind_ok h
  obtain ⟨_, _, h⟩ := bind_ok h
  obtain ⟨_, _, h⟩ := bind_ok h
  split at h
  · cases h
  obtain ⟨_, _, h⟩ := bind_ok h
  obtain ⟨_, _, h⟩ := bind_ok h
  obtain ⟨⟨headers, rest'⟩, hheaders, h⟩ := bind_ok h
  cases h
  exact parseHeaders_valid hheaders

end Apackage.Rtp2httpd
