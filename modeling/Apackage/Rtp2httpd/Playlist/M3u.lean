import Apackage.Rtp2httpd.Http.Request

/-
  Playlist lines (`m3u.c`): the services that an `#EXTINF` line and the URL lines below it ask
  for, with their names.

  Model. A line or a URL in a buffer of N bytes is cut to N - 1.
-/

namespace Apackage.Rtp2httpd

def maxM3uLine : ℕ := 4096
def maxServiceName : ℕ := 256
def m3uUrlSize : ℕ := 2048

def comma : UInt8 := 0x2C
def quote : UInt8 := 0x22
def hash : UInt8 := 0x23

def fromFirst (c : UInt8) (s : Bytes) : Option Bytes :=
  if c ∈ s then some (s.dropWhile (· ≠ c)) else none

/-- What stands behind the last `c` (`strrchr`). -/
def afterLast (c : UInt8) (s : Bytes) : Option Bytes :=
  if c ∈ s then some (s.reverse.takeWhile (· ≠ c)).reverse else none

/-- `extract_attribute`; none is -1. -/
def extractAttribute (line attrName : Bytes) (valueSize : ℕ) : Option Bytes :=
  match strstr (attrName ++ [equals]) line with
  | none => none
  | some i =>
    let valueStart := (line.drop (i + attrName.length + 1)).dropWhile isSpace
    if valueStart.head? = some quote then
      let value := (valueStart.drop 1).takeWhile (· ≠ quote)
      if quote ∉ valueStart.drop 1 ∨ valueSize ≤ value.length then none else some value
    else
      let value := valueStart.takeWhile (!isSpace ·)
      if valueSize ≤ value.length then none else some value

/-- `extract_service_name`; none is -1. -/
def extractServiceName (line : Bytes) (nameSize : ℕ) : Option Bytes :=
  match afterLast comma line with
  | none => none
  | some rest =>
    let nameStart := rest.dropWhile isSpace
    if nameStart = [] then none
    else some ((nameStart.take (nameSize - 1)).rdropWhile isSpace)

/-- The protocols of `extract_wrapped_url`. -/
def wrappedProtocols : List Bytes := [ascii "rtp", ascii "udp", ascii "rtsp", ascii "http"]

/-- `extract_wrapped_url`, with the configured path prefix; none is -1. -/
def extractWrappedUrl (appPathRoute url : Bytes) (extractedSize : ℕ) : Option Bytes := do
  guard (ascii "http://" <+: url ∨ ascii "https://" <+: url)
  let schemeEnd ← strstr (ascii "://") url
  let hostStart := url.drop (schemeEnd + 3)
  let pathStart ←
    if hostStart.head? = some 0x5B then (fromFirst 0x5D hostStart).bind (fromFirst slash)
    else fromFirst slash hostStart
  let path := pathStart.drop 1
  let path :=
    if appPathRoute ≠ [] ∧ appPathRoute ++ [slash] <+: path then
      path.drop (appPathRoute.length + 1)
    else path
  let protocol := path.takeWhile (· ≠ slash)
  guard (slash ∈ path ∧ protocol.length < 16 ∧ wrappedProtocols.any (nameIs protocol))
  let extracted := protocol ++ ascii "://" ++ path.drop (protocol.length + 1)
  guard (extracted.length < extractedSize)
  return extracted

/-- The schemes a service can be created from. -/
def directSchemes : List Bytes := [ascii "rtp://", ascii "udp://", ascii "rtsp://", ascii "http://"]

def isUrlRecognizable (appPathRoute url : Bytes) : Bool :=
  let testUrl := url.take (m3uUrlSize - 1)
  (extractWrappedUrl appPathRoute testUrl m3uUrlSize).isSome ||
    directSchemes.any fun scheme => scheme <+: testUrl

/-- `m3u_line_looks_like_url`. -/
def m3uLineLooksLikeUrl (line : Bytes) : Bool :=
  line.head? = some slash || (strstr (ascii "://") line).isSome

/-- `build_appended_catchup_url`; none is -1. -/
def buildAppendedCatchupUrl (baseUrl catchupSource : Bytes) (outputSize : ℕ) : Option Bytes :=
  let separator := if question ∈ baseUrl then [ampersand] else [question]
  let suffix :=
    if catchupSource.head? = some question ∨ catchupSource.head? = some ampersand then
      catchupSource.drop 1
    else catchupSource
  let output := baseUrl ++ separator ++ suffix
  if catchupSource = [] ∨ outputSize ≤ output.length then none else some output

/-! ## Entries -/

/-- `struct m3u_extinf`; the group title is part of the name. -/
structure M3uExtinf where
  name : Bytes
  catchupSource : Option Bytes

/-- The name of an entry with a group title; a title that is too long is cut. -/
def entryName (groupTitle baseName : Bytes) : Bytes :=
  if groupTitle = [] then baseName.take (maxServiceName - 1)
  else if groupTitle.length + 1 + baseName.length < maxServiceName then
    groupTitle ++ slash :: baseName
  else if baseName.length + 2 ≤ maxServiceName then
    groupTitle.take (maxServiceName - baseName.length - 2) ++ slash :: baseName
  else baseName.take (maxServiceName - 1)

/-- An `#EXTINF` line. -/
def parseExtinf (line : Bytes) : Option M3uExtinf :=
  (extractServiceName line maxServiceName).map fun baseName =>
    { name := entryName ((extractAttribute line (ascii "group-title") maxServiceName).getD []) baseName
      catchupSource := extractAttribute line (ascii "catchup-source") m3uUrlSize }

/-- A call of `create_service_from_url`. -/
structure ServiceCall where
  name : Bytes
  url : Bytes
  stripUrlLabel : Bool

/-- The call for a URL line: the `$label` of the URL goes into the name. -/
def mainCall (appPathRoute : Bytes) (extinf : M3uExtinf) (line : Bytes) : Option ServiceCall :=
  if isUrlRecognizable appPathRoute line then
    let label :=
      match httpFindUrlLabel line with
      | some i => (line.drop i).take (maxServiceName - 1)
      | none => []
    let name :=
      if 1 < label.length then (extinf.name ++ slash :: label.drop 1).take (maxServiceName - 1)
      else extinf.name.take (maxServiceName - 1)
    some ⟨name, line, true⟩
  else none

/-- The URL of the catchup service: the attribute itself or appended to the URL of the line. -/
def catchupUrl (appPathRoute line catchupSource : Bytes) : Option Bytes :=
  let lineWithoutLabel := httpStripUrlLabel (line.take (maxM3uLine - 1))
  if isUrlRecognizable appPathRoute catchupSource then some catchupSource
  else if isUrlRecognizable appPathRoute lineWithoutLabel then
    buildAppendedCatchupUrl lineWithoutLabel catchupSource m3uUrlSize
  else none

/-- The call for the catchup service, after the service of the line was created. -/
def catchupCall (appPathRoute : Bytes) (extinf : M3uExtinf) (firstUrl : Bool)
    (line uniqueServiceName : Bytes) : Option ServiceCall :=
  match extinf.catchupSource with
  | some (c :: source) =>
    if firstUrl then
      (catchupUrl appPathRoute line (c :: source)).map fun url =>
        ⟨(uniqueServiceName ++ ascii "/catchup").take (maxServiceName + 20 - 1), url, false⟩
    else none
  | _ => none

/-! ## Lines -/

/-- The lines of a playlist, without blanks at their ends. -/
def m3uLines (content : Bytes) : List Bytes :=
  let content := if [0xEF, 0xBB, 0xBF] <+: content then content.drop 3 else content
  ((content.splitOn LF).map fun line => (line.take (maxM3uLine - 1)).rdropWhile isSpace).filter
    (· ≠ [])

/-- What the parser keeps between the lines. -/
structure EntryState where
  extinf : M3uExtinf
  inEntry : Bool
  entryHasUrl : Bool

def EntryState.init : EntryState := ⟨⟨[], none⟩, false, false⟩

def EntryState.tag (e : EntryState) (line : Bytes) : EntryState :=
  if ascii "#EXTM3U" <+: line then e
  else if ascii "#EXTINF:" <+: line then
    match parseExtinf line with
    | none => .init
    | some extinf => ⟨extinf, true, false⟩
  else e

/-- A line is a URL of the entry. -/
def EntryState.takesUrl (e : EntryState) (line : Bytes) : Bool :=
  e.inEntry && line.head? ≠ some hash && (!e.entryHasUrl || m3uLineLooksLikeUrl line)

end Apackage.Rtp2httpd
