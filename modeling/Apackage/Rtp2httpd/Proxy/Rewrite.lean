import Apackage.Rtp2httpd.Playlist.BaseUrl
import Apackage.Rtp2httpd.Playlist.M3u

/-
  Rewriting of proxied playlists (`http_proxy_rewrite.c`).

  Model. The strings of a context fit the buffers of the session they come from, and its path
  starts with a slash, as `http_proxy_parse_url` leaves it (`RewriteContext`, `rewriteContextOf`).
  Allocation succeeds. The output block is what has been written in front of `out_ptr`, its size
  and the log of all writes.
-/

namespace Apackage.Rtp2httpd

open List Option

def lineFeed : UInt8 := 0x0A
def carriageReturn : UInt8 := 0x0D
def space : UInt8 := 0x20
def tab : UInt8 := 0x09

/-! ## URLs -/

/-- `format_host_port_for_url`; none is -1. -/
def formatHostPortForUrl (host : Bytes) (port defaultPort outSize : ℕ) : Option Bytes := do
  let bracketed ← formatHostForUrl host 512
  let out := if 0 < defaultPort ∧ port = defaultPort then bracketed
    else bracketed ++ colon :: printDecimal port
  if outSize ≤ out.length then none else some out

/-- `rewrite_context_t`. -/
structure RewriteContext where
  upstreamHost : Bytes
  upstreamPort : ℕ
  upstreamPath : Bytes
  baseUrl : Bytes
  host_fits : upstreamHost.length < httpProxyHostSize
  port_fits : upstreamPort ≤ 65535
  path_fits : upstreamPath.length < httpProxyPathSize
  path_slash : upstreamPath.head? = some slash

/-- `dir_path`: the base path up to its last slash, as far as it fits. -/
def dirPath (basePath : Bytes) : Bytes :=
  if slash ∈ basePath then (basePath.rdropWhile (· ≠ slash)).take (httpProxyPathSize - 1)
  else [slash]

/-- `rewrite_resolve_relative_url`; none is -1. -/
def rewriteResolveRelativeUrl (relativeUrl baseHost : Bytes) (basePort : ℕ) (basePath : Bytes)
    (outputSize : ℕ) : Option Bytes := do
  let authority ← formatHostPortForUrl baseHost basePort 80 (httpProxyHostSize + 16)
  let result := if relativeUrl.head? = some slash then ascii "http://" ++ authority ++ relativeUrl
    else ascii "http://" ++ authority ++ dirPath basePath ++ relativeUrl
  if outputSize ≤ result.length then none else some result

/-- `rewrite_url_to_proxy_format`; none is -1. -/
def rewriteUrlToProxyFormat (r2hToken : Bytes) (ctx : RewriteContext) (url : Bytes)
    (outputSize : ℕ) : Option Bytes :=
  if outputSize = 0 then none
  else if url = [] then some []
  else if hasPrefixNoCase (ascii "https://") url then none
  else
    let absoluteUrl :=
      if hasPrefixNoCase (ascii "http://") url then
        if httpProxyPathSize * 2 ≤ url.length then none else some url
      else
        rewriteResolveRelativeUrl url ctx.upstreamHost ctx.upstreamPort ctx.upstreamPath
          (httpProxyPathSize * 2)
    absoluteUrl.bind fun absoluteUrl =>
      httpProxyBuildUrl r2hToken absoluteUrl ctx.baseUrl outputSize

/-! ## Lines -/

def isCommentLine (line : Bytes) : Bool := (line.dropWhile isSpace).head? = some hash

def shouldRewriteUrl (url : Bytes) : Bool := url ≠ [] && !hasPrefixNoCase (ascii "https://") url

/-- What may stand in front of `URI=`. -/
def separates (c : UInt8) : Bool := c = comma || c = colon || c = space || c = tab

def endsUriValue (c : UInt8) : Bool :=
  c = comma || c = space || c = tab || c = carriageReturn || c = lineFeed

/-- The value behind `URI=`, and whether it is quoted. -/
def uriValue (s : Bytes) : Option (Bool × Bytes) :=
  if s.head? = some quote then
    if quote ∈ s.drop 1 then some (true, (s.drop 1).takeWhile (· ≠ quote)) else none
  else
    let value := s.takeWhile (! endsUriValue ·)
    if value = [] then none else some (false, value)

/-- Where the value of an attribute starts and ends. -/
structure UriAttribute where
  valueStart : ℕ
  valueEnd : ℕ
  hasQuotes : Bool

/-- The search of `find_uri_attribute` from the position `i` on; at the start of the line no
    byte is looked at in front of `URI=`. -/
def findUriFrom (prev : Option UInt8) (i : ℕ) : Bytes → Option UriAttribute
  | [] => none
  | c :: rest =>
    if hasPrefixNoCase (ascii "URI=") (c :: rest) ∧ prev.all separates then
      match uriValue ((c :: rest).drop 4) with
      | some (hasQuotes, value) =>
        let start := i + 4 + hasQuotes.toNat
        some ⟨start, start + value.length, hasQuotes⟩
      | none => findUriFrom (some c) (i + 1) rest
    else findUriFrom (some c) (i + 1) rest

def findUriAttribute (line : Bytes) : Option UriAttribute := findUriFrom none 0 line

/-- `current`, `search_offset` and `modified` of `rewrite_uri_attributes`. -/
structure UriState where
  current : Bytes
  searchOffset : ℕ
  modified : Bool

/-- A round of the loop of `rewrite_uri_attributes`; none leaves it. -/
def uriStep (r2hToken : Bytes) (ctx : RewriteContext) (s : UriState) : Option UriState :=
  (findUriAttribute (s.current.drop s.searchOffset)).map fun found =>
    let quotes := found.hasQuotes.toNat
    let valueOffset := s.searchOffset + found.valueStart
    let valueEndOffset := s.searchOffset + found.valueEnd
    let originalUri := (s.current.drop valueOffset).take (valueEndOffset - valueOffset)
    let past := { s with searchOffset := valueEndOffset + quotes }
    if shouldRewriteUrl originalUri then
      match rewriteUrlToProxyFormat r2hToken ctx originalUri (httpProxyPathSize * 2) with
      | none => past
      | some rewrittenUri =>
        let prefixLen := valueOffset - quotes
        let suffixStart := valueEndOffset + quotes
        let newLine := s.current.take prefixLen ++ List.replicate quotes quote ++ rewrittenUri ++
          List.replicate quotes quote ++ s.current.drop suffixStart
        ⟨newLine, prefixLen + quotes + rewrittenUri.length + quotes, true⟩
    else past

/-- The loop; none is a loop that has not ended after `fuel` rounds. -/
def uriLoop (r2hToken : Bytes) (ctx : RewriteContext) : ℕ → UriState → Option UriState
  | 0, _ => none
  | fuel + 1, s =>
    match uriStep r2hToken ctx s with
    | none => some s
    | some s' => uriLoop r2hToken ctx fuel s'

/-- `rewrite_uri_attributes`; none is no change. -/
def rewriteUriAttributes (r2hToken : Bytes) (ctx : RewriteContext) (line : Bytes) : Option Bytes :=
  match uriLoop r2hToken ctx (line.length + 1) ⟨line, 0, false⟩ with
  | some s => if s.modified then some s.current else none
  | none => none

/-- `line_copy`: a line without its end. -/
def lineCopy (line : Bytes) : Bytes := line.rdropWhile fun c => c = carriageReturn || c = lineFeed

/-- `rewrite_m3u_line`; none is no change. -/
def rewriteM3uLine (r2hToken : Bytes) (ctx : RewriteContext) (line : Bytes) : Option Bytes :=
  if line = [] then none
  else if isCommentLine (lineCopy line) then rewriteUriAttributes r2hToken ctx (lineCopy line)
  else if lineCopy line = [] then none
  else
    let url := (lineCopy line).dropWhile isSpace
    if shouldRewriteUrl url then
      rewriteUrlToProxyFormat r2hToken ctx url (httpProxyPathSize * 2)
    else none

/-! ## Texts -/

def rewriteMaxBodySize : ℕ := 2 * 1024 * 1024

/-- The lines of a text, each with its line feed. -/
def splitLines : Bytes → List Bytes
  | [] => []
  | c :: rest =>
    if c = lineFeed then [c] :: splitLines rest
    else
      match splitLines rest with
      | [] => [[c]]
      | line :: lines => (c :: line) :: lines

/-- Bytes that are written from `start` on into a block of `blockSize` bytes. -/
structure Write where
  start : ℕ
  length : ℕ
  blockSize : ℕ

/-- The output block: `estimated_size`, what stands in front of `out_ptr`, `remaining`. -/
structure OutBuffer where
  estimatedSize : ℕ
  text : Bytes
  remaining : ℕ
  writes : List Write

namespace OutBuffer

/-- `realloc` to twice the size. -/
def grow (b : OutBuffer) : OutBuffer :=
  { b with
    estimatedSize := b.estimatedSize * 2
    remaining := b.estimatedSize * 2 - b.text.length }

/-- `while (needed > remaining)`; none is a loop that has not ended after `fuel` rounds. -/
def growFor (needed : ℕ) : ℕ → OutBuffer → Option OutBuffer
  | fuel, b =>
    if needed ≤ b.remaining then some b
    else
      match fuel with
      | 0 => none
      | fuel + 1 => growFor needed fuel b.grow

/-- `memcpy` to `out_ptr`. -/
def put (bytes : Bytes) (b : OutBuffer) : OutBuffer :=
  { b with
    text := b.text ++ bytes
    remaining := b.remaining - bytes.length
    writes := b.writes ++ [⟨b.text.length, bytes.length, b.estimatedSize⟩] }

/-- The final NUL. -/
def terminate (b : OutBuffer) : OutBuffer :=
  { b with writes := b.writes ++ [⟨b.text.length, 1, b.estimatedSize⟩] }

end OutBuffer

def lineEnding (line rewritten : Bytes) : Bytes :=
  if line.getLast? = some lineFeed ∧ rewritten.getLast? ≠ some lineFeed then [lineFeed] else []

/-- A round of the loop of `rewrite_m3u_content`. -/
def writeLine (r2hToken : Bytes) (ctx : RewriteContext) (b : OutBuffer) (line : Bytes) :
    Option OutBuffer :=
  match rewriteM3uLine r2hToken ctx line with
  | some rewritten =>
    (b.growFor (rewritten.length + 2) (rewritten.length + 2)).map fun b =>
      if lineEnding line rewritten = [] then b.put rewritten
      else (b.put rewritten).put (lineEnding line rewritten)
  | none =>
    let b := if b.remaining < line.length + 1 then b.grow else b
    some (b.put line)

/-- `rewrite_m3u_content`; none is -1. -/
def rewriteM3uContent (r2hToken : Bytes) (ctx : RewriteContext) (input : Bytes) :
    Option OutBuffer :=
  if rewriteMaxBodySize < input.length then none
  else
    ((splitLines input).foldlM (writeLine r2hToken ctx)
      ⟨input.length * 3, [], input.length * 3, []⟩).map OutBuffer.terminate

/-! ## The context of a session -/

section Session

variable {r2hToken target path url : Bytes} {t : Upstream}

theorem targetPort_le (port : Option ℕ) : targetPort port ≤ 65535 := by
  unfold targetPort
  dsimp only
  split
  · decide
  · omega

theorem targetPath_fits (h : targetPath r2hToken target = some path)
    (hslash : target = [] ∨ target.head? = some slash) :
    path.length < httpProxyPathSize ∧ path.head? = some slash := by
  unfold targetPath at h
  by_cases hnil : target = []
  · rw [if_pos hnil] at h
    obtain rfl := some.inj h
    exact ⟨by decide, rfl⟩
  rw [if_neg hnil] at h
  obtain ⟨rest, rfl⟩ := head?_eq_some_iff.1 (hslash.resolve_left hnil)
  have hpath : pathOf (slash :: rest) = slash :: pathOf rest := takeWhile_cons_of_pos (by decide)
  have hle : (pathOf (slash :: rest)).length ≤ (slash :: rest).length :=
    ( takeWhile_prefix _).length_le
  by_cases hlong : httpProxyPathSize ≤ (slash :: rest).length
  · rw [if_pos hlong] at h
    cases h
  rw [if_neg hlong] at h
  dsimp only at h
  split at h
  · split at h
    · split at h
      · cases h
      · grind
    · obtain rfl := some.inj h
      exact ⟨by omega, by rw [hpath]; rfl⟩
  · obtain rfl := some.inj h
    exact ⟨by omega, rfl⟩

/-- What `http_proxy_parse_url` stores can be the context of a rewriting. -/
theorem upstream_fits (h : httpProxyParseUrl r2hToken url = some t) :
    t.host.length < httpProxyHostSize ∧ t.port ≤ 65535 ∧ t.path.length < httpProxyPathSize ∧
      t.path.head? = some slash := by
  obtain ⟨hread, hhost, -, hpath⟩ := upstreamAt_iff.1 h
  obtain ⟨r, -, hr⟩ := Option.map_eq_some_iff.1 hread
  have hport : t.port = targetPort r.2 := (congrArg Prod.snd hr).symm
  refine ⟨hhost, hport ▸ targetPort_le r.2, targetPath_fits hpath ?_⟩
  generalize (if ascii "/http/" <+: url then url.drop 6
    else if ascii "http://" <+: url then url.drop 7 else url) = p
  generalize htail : p.drop (p.takeWhile (· ≠ slash)).length = tail
  rcases tail with _ | ⟨c, tail⟩
  · exact .inl rfl
  · right
    have hc := (scan_cons htail).1
    simpa using hc

/-- The context of a session whose URL has been parsed. -/
def rewriteContextOf (h : httpProxyParseUrl r2hToken url = some t) (baseUrl : Bytes) :
    RewriteContext :=
  have hfits := upstream_fits h
  ⟨t.host, t.port, t.path, baseUrl, hfits.1, hfits.2.1, hfits.2.2.1, hfits.2.2.2⟩

end Session

end Apackage.Rtp2httpd
