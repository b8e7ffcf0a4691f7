import Apackage.Rtp2httpd.Playlist.Generate
import Apackage.Rtp2httpd.Playlist.ServiceTable

/-
  The transformed playlist (`m3u_parse_and_create_services` in `m3u.c`): the lines of a playlist
  with the URLs of the services created for them in place of their own.

  Model. The state is what the function keeps between two lines, its buffers included, the lines
  it has handed to the cache, and the indices it has computed for the buffers of the name, the
  group title and the label. Of the allocations, those of `build_service_url` may fail. The query
  that `extract_catchup_template_query` finds in a catchup URL is a parameter.
-/

namespace Apackage.Rtp2httpd

open Lib.Run Lib.Fields

/-- A cache whose buffer has the size of the first allocation or more. -/
structure GrownCache extends M3uCache where
  grown : transformedM3u ≠ none → 4096 ≤ size

/-! ## URLs -/

/-- Does a query parameter have a placeholder in its value? -/
def dynamicParam (param : Bytes) : Bool :=
  match fromFirst equals param with
  | none => false
  | some value => value.any fun c => c = 0x7B || c = 0x7D || c = dollar

/-- The loop of `extract_dynamic_params`, behind `result`. -/
def appendDynamicParams : Bytes → List Bytes → Bytes
  | result, [] => result
  | result, param :: rest =>
    if dynamicParam param then
      if m3uUrlSize < result.length + param.length + 2 then result
      else appendDynamicParams (appendField [ampersand] result param) rest
    else appendDynamicParams result rest

def urlParams (url : Bytes) : List Bytes :=
  match fromFirst question url with
  | none => []
  | some query => (query.drop 1).splitOn ampersand

/-- `extract_dynamic_params`; empty is NULL. -/
def extractDynamicParams (url : Bytes) : Bytes := appendDynamicParams [] (urlParams url)

/-- `build_service_url` on a buffer; `encodes` says that its allocations succeed. -/
def buildServiceUrlInto (buffer : Bytes) (encodes : Bool)
    (serviceName queryParams r2hToken : Bytes) : Bytes × Bool :=
  if encodes then
    match buildServiceUrl serviceName queryParams r2hToken with
    | some output => (output, true)
    | none => ((baseUrlPlaceholder ++ httpUrlEncode serviceName ++
        serviceQuery queryParams r2hToken).take (maxUrlLength - 1), false)
  else (buffer, false)

/-- The `$label` at the end of a URL. -/
def urlLabel (url : Bytes) : Bytes :=
  match httpFindUrlLabel url with
  | some i => url.drop i
  | none => []

def rewriteCatchupModeForProxy (inputLine : Bytes) (outputSize : ℕ) : Bytes :=
  match strstr (ascii "catchup=\"append\"") inputLine with
  | none => inputLine.take (outputSize - 1)
  | some prefixLen =>
    let output := inputLine.take prefixLen ++ ascii "catchup=\"default\"" ++
      inputLine.drop (prefixLen + 16)
    if outputSize ≤ output.length then inputLine.take (outputSize - 1) else output

/-! ## State -/

structure TransformConfig extends TableConfig where
  r2hToken : Bytes
  /-- `extract_catchup_template_query`; empty is NULL. -/
  catchupTemplateQuery : Bytes → Bytes

/-- A line of the source, with what becomes of the allocations made for it. -/
structure SourceLine where
  raw : Bytes
  encodesUrl : Bool
  encodesCatchup : Bool

/-- The line without blanks at its end. -/
def SourceLine.original (e : SourceLine) : Bytes := e.raw.rdropWhile isSpace

def SourceLine.line (e : SourceLine) : Bytes := (e.raw.take (maxM3uLine - 1)).rdropWhile isSpace

/-- A URL line that was handed to the playlist: the line it stands for, as it is and as it was
    read, and the name of the service created for it. -/
structure UrlLine where
  original : Bytes
  line : Bytes
  service : Option Bytes
  text : Bytes

inductive TransformedLine
  | text (line : Bytes)
  | url (u : UrlLine)
  /-- The blank line behind an entry. -/
  | gap

def TransformedLine.bytes : TransformedLine → Bytes
  | .text line => line
  | .url u => u.text
  | .gap => []

def M3uCache.appendLine (c : M3uCache) : TransformedLine → M3uCache
  | .gap => c.append [LF]
  | l => (c.append l.bytes).append [LF]

/-- An index that was computed, and the size of the array. -/
structure ArrayIndex where
  index : ℕ
  size : ℕ
  deriving DecidableEq

def ArrayIndex.Inside (i : ArrayIndex) : Prop := i.index < i.size
  deriving Decidable

structure Transform where
  source : ServiceSource
  table : ServiceTable
  entry : EntryState
  transformedLine : Bytes
  proxyUrl : Bytes
  pendingEntryGap : Bool
  cache : M3uCache
  written : List TransformedLine
  indices : List ArrayIndex

namespace Transform

/-- The URL lines that were handed to the cache. -/
def urls (s : Transform) : List UrlLine :=
  s.written.filterMap fun l =>
    match l with
    | .url u => some u
    | _ => none

def write (s : Transform) (l : TransformedLine) : Transform :=
  { s with cache := s.cache.appendLine l, written := s.written ++ [l] }

def access (s : Transform) (is : List ArrayIndex) : Transform :=
  { s with indices := s.indices ++ is }

end Transform

/-! ## Tags -/

/-- The indices of the loop that removes blanks at the end. -/
def trimIndices (s : Bytes) : List ℕ :=
  (List.range s.length).filter fun i => (s.rdropWhile isSpace).length ≤ i + 1

/-- The indices of `extract_service_name`. -/
def serviceNameIndices (line : Bytes) (nameSize : ℕ) : List ArrayIndex :=
  match afterLast comma line with
  | none => []
  | some rest =>
    let name := (rest.dropWhile isSpace).take (nameSize - 1)
    if name = [] then []
    else ⟨nameSize - 1, nameSize⟩ :: (trimIndices name).map fun i => ⟨i, nameSize⟩

/-- `sizeof(current_extinf.name) - base_len - 2`, in a `size_t`. -/
def maxGroupLen (baseLen : ℕ) : ℕ := (2 ^ 64 + maxServiceName - baseLen - 2) % 2 ^ 64

/-- The indices for the name of an entry: the ends of the group title, as it was read and as it
    is cut, and of the name where it is copied. -/
def entryNameIndices (groupTitle baseName : Bytes) : List ArrayIndex :=
  let copied : ArrayIndex := ⟨maxServiceName - 1, maxServiceName⟩
  if groupTitle = [] then [copied]
  else
    ⟨groupTitle.length, maxServiceName⟩ ::
      if groupTitle.length + 1 + baseName.length < maxServiceName then []
      else
        ⟨maxGroupLen baseName.length, maxServiceName⟩ ::
          if baseName.length + 2 ≤ maxServiceName then [] else [copied]

/-- The indices for an `#EXTINF` line. -/
def extinfIndices (line : Bytes) : List ArrayIndex :=
  match extractServiceName line maxServiceName with
  | none => serviceNameIndices line maxServiceName
  | some baseName =>
    serviceNameIndices line maxServiceName ++
      entryNameIndices ((extractAttribute line (ascii "group-title") maxServiceName).getD [])
        baseName

namespace Transform

/-- The gap is written before the next tag. -/
def flushGap (s : Transform) : Transform :=
  if s.pendingEntryGap then { s.write .gap with pendingEntryGap := false } else s

def tag (s : Transform) (line : Bytes) : Transform :=
  let s := s.flushGap
  if ascii "#EXTM3U" <+: line then s
  else if ascii "#EXTINF:" <+: line then
    let s := { s with entry := s.entry.tag line }.access (extinfIndices line)
    if s.entry.inEntry then { s with transformedLine := line.take (maxM3uLine - 1) } else s
  else s.write (.text line)

end Transform

/-! ## URL lines -/

/-- The `#EXTINF` line of an entry whose catchup service is `catchup`: its name and its URL. -/
def transformedExtinf (cfg : TransformConfig) (transformedLine : Bytes) (encodes : Bool) :
    Option (Bytes × Bytes) → Bytes
  | none => transformedLine
  | some (uniqueCatchupName, catchupServiceUrl) =>
    let rewrittenExtinf := rewriteCatchupModeForProxy transformedLine maxM3uLine
    match buildServiceUrlInto [] encodes uniqueCatchupName
        (cfg.catchupTemplateQuery catchupServiceUrl) cfg.r2hToken with
    | (_, false) => rewrittenExtinf
    | (catchupProxyUrl, true) =>
      match strstr (ascii "catchup-source=\"") rewrittenExtinf with
      | none => rewrittenExtinf
      | some i =>
        match fromFirst quote (rewrittenExtinf.drop (i + 16)) with
        | none => rewrittenExtinf
        | some catchupEnd =>
          (rewrittenExtinf.take (i + 16) ++ catchupProxyUrl ++ catchupEnd).take (maxM3uLine - 1)

/-- The service for the catchup source of the entry. -/
def createCatchup (cfg : TransformConfig) (source : ServiceSource) (t : ServiceTable)
    (entry : EntryState) (line uniqueServiceName : Bytes) : ServiceTable × Option (Bytes × Bytes) :=
  match catchupCall cfg.appPathRoute entry.extinf (!entry.entryHasUrl) line uniqueServiceName with
  | none => (t, none)
  | some call =>
    match createServiceFromUrl cfg.toTableConfig source t call with
    | (t, none) => (t, none)
    | (t, some uniqueCatchupName) => (t, some (uniqueCatchupName, call.url))

/-- `proxy_url` for a service, and the last index that the label is copied to. -/
def proxyUrlFor (cfg : TransformConfig) (buffer : Bytes) (encodes : Bool)
    (uniqueServiceName line : Bytes) : Bytes × List ArrayIndex :=
  match buildServiceUrlInto buffer encodes uniqueServiceName
      (extractDynamicParams (httpStripUrlLabel line)) cfg.r2hToken with
  | (url, false) => (url, [])
  | (url, true) =>
    let label := (urlLabel line).take (maxServiceName - 1)
    if label ≠ [] ∧ url.length + label.length < maxUrlLength then
      (url ++ label, [⟨url.length + label.length, maxUrlLength⟩])
    else (url, [])

def urlIndices (appPathRoute line : Bytes) : List ArrayIndex :=
  (if urlLabel line = [] then [] else [⟨maxServiceName - 1, maxServiceName⟩]) ++
    if isUrlRecognizable appPathRoute line ∧ (urlLabel line).length ≤ 1 then
      [⟨maxServiceName - 1, maxServiceName⟩]
    else []

namespace Transform

/-- The first URL of an entry takes the `#EXTINF` line with it. -/
def writeExtinf (s : Transform) (extinf : Bytes) : Transform :=
  if s.entry.entryHasUrl then s else s.write (.text extinf)

def keepLine (s : Transform) (e : SourceLine) : Transform :=
  (s.writeExtinf s.transformedLine).write (.url ⟨e.original, e.line, none, e.line⟩)

def proxyLine (cfg : TransformConfig) (s : Transform) (e : SourceLine) (uniqueServiceName : Bytes) :
    Transform :=
  let catchup := createCatchup cfg s.source s.table s.entry e.line uniqueServiceName
  let url := proxyUrlFor cfg s.proxyUrl e.encodesUrl uniqueServiceName e.line
  let s := { s with table := catchup.1, proxyUrl := url.1 }.access url.2
  let s := s.writeExtinf (transformedExtinf cfg s.transformedLine e.encodesCatchup catchup.2)
  s.write (.url
    { original := e.original
      line := e.line
      service := some uniqueServiceName
      text := if url.1 = [] then e.line else url.1 })

/-- The line, with the service for it if there is one. -/
def writeUrl (cfg : TransformConfig) (s : Transform) (e : SourceLine) : Transform :=
  match mainCall cfg.appPathRoute s.entry.extinf e.line with
  | none => s.keepLine e
  | some call =>
    match createServiceFromUrl cfg.toTableConfig s.source s.table call with
    | (table, none) => { s with table }.keepLine e
    | (table, some uniqueServiceName) => proxyLine cfg { s with table } e uniqueServiceName

/-- The entry has a URL, and a blank line is owed. -/
def urlTaken (s : Transform) : Transform :=
  { s with entry := { s.entry with entryHasUrl := true }, pendingEntryGap := true }

def url (cfg : TransformConfig) (s : Transform) (e : SourceLine) : Transform :=
  ((s.access (urlIndices cfg.appPathRoute e.line)).writeUrl cfg e).urlTaken

end Transform

/-- A line of the playlist. -/
def transformStep (cfg : TransformConfig) (s : Transform) (e : SourceLine) : Transform :=
  if e.line = [] then s
  else if e.line.head? = some hash then s.tag e.line
  else if s.entry.takesUrl e.line then s.url cfg e
  else s

/-- The lines of a playlist; `encodes` says of the `i`-th whether the allocations for its URL and
    its catchup URL succeed. -/
def sourceLines (content : Bytes) (encodes : ℕ → Bool × Bool) : List SourceLine :=
  let content := if [0xEF, 0xBB, 0xBF] <+: content then content.drop 3 else content
  (content.splitOn LF).mapIdx fun i raw => ⟨raw, (encodes i).1, (encodes i).2⟩

namespace Transform

/-- The state before the first line; `buffers` is what the two buffers on the stack hold. -/
def start (source : ServiceSource) (table : ServiceTable) (cache : GrownCache)
    (buffers : Bytes × Bytes) : Transform :=
  ⟨source, table, .init, buffers.1, buffers.2, false, cache.toM3uCache, [], []⟩

/-- What is done behind the last line. -/
def finish (s : Transform) : Transform :=
  let s := if s.pendingEntryGap then s.write .gap else s
  if s.source = .inline then { s with cache := s.cache.markInline } else s

end Transform

/-- `m3u_parse_and_create_services`. -/
def m3uParseAndCreateServices (cfg : TransformConfig) (s : Transform) (content : Bytes)
    (encodes : ℕ → Bool × Bool) : Transform :=
  (run (transformStep cfg) s (sourceLines content encodes)).finish

end Apackage.Rtp2httpd
