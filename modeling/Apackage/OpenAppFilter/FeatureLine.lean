import Apackage.Lib.CStrings
import Apackage.Lib.Region
import Apackage.OpenAppFilter.PortList

/-
  Feature lines (`af_init_feature` in `fwx_main.c`): the text between the brackets is cut at the
  commas into features, a feature at the semicolons into fields, and the ports and positions of a
  field at the bars.

  Model. A buffer is the list of its bytes, and a read or write outside it is none, like one behind
  the 16 entries of `pos_info` or the 5 of `range_list`. `size_t` has 64 bits. What
  `add_app_feature` adds is returned in order. Allocations succeed, and logs are left out, apart
  from the one that reads a rejected protocol.
-/

namespace Apackage.OpenAppFilter.FeatureLine

open Lib.CStrings Lib.Digits Lib.Region Lib.Trimming
open OpenAppFilter.PortList

/-- What is written to an `af_feature_node_t`. -/
structure ReadFeature extends AppFeature where
  appName : Text
  feature : Text
  ignore : ℤ

/-! ## Numbers -/

def kAtoi (str : List UInt8) : Option ℤ :=
  let str := str.dropWhile fun c => c == ' '.toUInt8 || c == 9
  if str.dropWhile isdigit = [] then none
  else some (toInt (decimal (str.takeWhile isdigit)))

/-- `%d`: the number and what stands behind it. -/
def readInt (space : UInt8 → Bool) (str : List UInt8) : Option (Option (ℤ × List UInt8)) :=
  let str := str.dropWhile space
  let negative := str.head? == some '-'.toUInt8
  let str := if negative then str.tail else str
  let digits := str.takeWhile isdigit
  let rest := str.dropWhile isdigit
  if rest = [] then none
  else if digits = [] then some none
  else
    let v : ℤ := decimal digits
    some (some (toInt (if negative then -v else v), rest))

def isxdigit (c : UInt8) : Bool :=
  isdigit c || ('a'.toUInt8 ≤ c && c ≤ 'f'.toUInt8) || ('A'.toUInt8 ≤ c && c ≤ 'F'.toUInt8)

def hexDigit (c : UInt8) : ℕ :=
  if isdigit c then c.toNat - 48 else if 97 ≤ c then c.toNat - 87 else c.toNat - 55

/-- `%x`; `simple_strtoul` skips `0x`. -/
def readHex (space : UInt8 → Bool) (str : List UInt8) : Option (Option ℤ) :=
  let str := str.dropWhile space
  let begins := str.head?.any isxdigit
  let prefixed := str.head? = some '0'.toUInt8 ∧
    (str.tail.head? = some 'x'.toUInt8 ∨ str.tail.head? = some 'X'.toUInt8)
  let str := if prefixed then str.drop 2 else str
  let rest := if begins then str.dropWhile isxdigit else str
  if rest = [] then none
  else if !begins then some none
  else some (some (toInt (value 16 ((str.takeWhile isxdigit).map hexDigit))))

/-- `skip_spaces`. -/
def isSkipped (c : UInt8) : Bool := isspace c && c != 0xa0

/-- `k_sscanf` with `"%d:%x"`: the two numbers, where they were read. -/
def kSscanf (buf : List UInt8) : Option (Option ℤ × Option ℤ) :=
  match readInt isSkipped buf with
  | none => none
  | some none => some (none, none)
  | some (some (index, rest)) =>
    if rest.head? = some ':'.toUInt8 then
      (readHex isSkipped rest.tail).map fun value => (some index, value)
    else some (some index, none)

/-! ## Positions -/

/-- The locals of `__add_app_feature` and the entries of `pos_info`. -/
structure PosState where
  pos : List UInt8
  index : ℤ
  value : ℤ
  posInfo : List (ℤ × UInt8)

/-- A number that is not read keeps its value. -/
def PosState.read (s : PosState) (pos : List UInt8) : Option (PosState × Bool) :=
  (kSscanf pos).map fun r =>
    ({ s with pos, index := r.1.getD s.index, value := r.2.getD s.value }, r.2.isSome)

def PosState.push (s : PosState) : Option PosState :=
  if 16 ≤ s.posInfo.length then none
  else some { s with posInfo := s.posInfo ++ [(s.index, UInt8.ofInt s.value)] }

/-- A piece that ends with a bar is stored even if it was not read. -/
def posBody (dict : List UInt8) (s : PosState) (first p : ℕ) : Option (PosState × Option ℕ) :=
  (strncpyBetween (fill 64 []) dict first p).bind fun pos =>
    (s.read pos).bind fun r =>
      r.1.push.map fun s => (s, if 15 ≤ s.posInfo.length then some (p + 1) else none)

/-- Behind the loop. -/
def posAfter (dict : List UInt8) : PosState × ℕ × ℕ → Option (List (ℤ × UInt8))
  | (s, first, p) =>
    (if first ≠ 0 then strncpyBetween s.pos dict first p else strcpy s.pos dict).bind fun pos =>
      (s.read pos).bind fun r => if r.2 then r.1.push.map (·.posInfo) else some r.1.posInfo

/-- The positions that `__add_app_feature` reads from `dict`. -/
def readPosInfo (dict : List UInt8) : Option (List (ℤ × UInt8)) :=
  (scan '|'.toUInt8 (posBody dict) ⟨fill 64 [], 0, 0, []⟩ 0 0 dict).bind (posAfter dict)

/-! ## Ports -/

/-- `parse_range_value` writes to the next entry, if it does not reject the text at once. -/
def pushRange (entries : List RangeValue) (onePortBuf : List UInt8) : Option (List RangeValue) :=
  (stringAt onePortBuf).bind fun piece =>
    if validateRangeValue piece ∧ 5 ≤ entries.length then none
    else some (entries ++ (parseRangeValue piece).toList)

def portBody (portStr : List UInt8) (entries : List RangeValue) (first p : ℕ) :
    Option (List RangeValue × Option ℕ) :=
  (strncpyBetween (fill 128 []) portStr first p).bind fun buf =>
    (pushRange entries buf).map fun entries => (entries, none)

def portAfter (portStr : List UInt8) : List RangeValue × ℕ × ℕ → Option (List RangeValue)
  | (entries, first, p) => (strncpyBetween (fill 128 []) portStr first p).bind (pushRange entries)

def kTrimIn (buf : List UInt8) : Option (List UInt8) :=
  (stringAt buf).map fun s => kTrim s ++ 0 :: buf.drop ((kTrim s).length + 1)

/-- `parse_port_info` in memory. -/
def readPortInfo (portStr : List UInt8) : Option (List RangeValue) :=
  (kTrimIn portStr).bind fun portStr =>
    if portStr.head? = some 0 then some []
    else (scan '|'.toUInt8 (portBody portStr) [] 0 0 portStr).bind (portAfter portStr)

/-! ## Fields -/

inductive FeatureParam
  | proto | srcPort | dstPort | hostUrl | requestUrl | dict | str | ignore
  deriving DecidableEq

namespace FeatureParam

def all : List FeatureParam := [proto, srcPort, dstPort, hostUrl, requestUrl, dict, str, ignore]

/-- The place in the enumeration. -/
def index (param : FeatureParam) : ℕ := all.idxOf param

/-- The size of the local that the field is copied to. -/
def size : FeatureParam → ℕ
  | proto => 16
  | srcPort => 16
  | dstPort => 16
  | hostUrl => 32
  | requestUrl => 128
  | dict => 128
  | str => 128
  | ignore => 128

end FeatureParam

/-- The locals of `add_app_feature`. -/
structure ParamState where
  buf : FeatureParam → List UInt8
  paramNum : ℕ
  ignore : ℤ

def ParamState.init : ParamState := ⟨fun param => fill param.size [], 0, 0⟩

def ParamState.put (s : ParamState) (param : FeatureParam) (buf : List UInt8) : Option ParamState :=
  let s := { s with buf := Function.update s.buf param buf }
  if param = .ignore then (kAtoi buf).map fun ignore => { s with ignore } else some s

/-- A case of the `switch`. -/
def copyParam (feature : List UInt8) (s : ParamState) (param : FeatureParam) (first p : ℕ) :
    Option ParamState :=
  (strncpyBetween (s.buf param) feature first p).bind (s.put param)

def paramBody (feature : List UInt8) (s : ParamState) (first p : ℕ) :
    Option (ParamState × Option ℕ) :=
  let copied :=
    match FeatureParam.all[s.paramNum]? with
    | none => some s
    | some param => copyParam feature s param first p
  copied.map fun s => ({ s with paramNum := s.paramNum + 1 }, none)

/-- The last field is only copied if it is the one of the positions or the last of all. -/
def paramAfter (feature : List UInt8) : ParamState × ℕ × ℕ → Option ParamState
  | (s, first, p) =>
    (if s.paramNum = FeatureParam.dict.index then copyParam feature s .dict first p
      else some s).bind fun s =>
    if s.paramNum = FeatureParam.ignore.index then copyParam feature s .ignore first p else some s

/-- The fields of a feature in their buffers. -/
def readParams (feature : List UInt8) : Option ParamState :=
  (scan ';'.toUInt8 (paramBody feature) .init 0 0 feature).bind (paramAfter feature)

def tcp : Text := ['t'.toUInt8, 'c'.toUInt8, 'p'.toUInt8]

def udp : Text := ['u'.toUInt8, 'd'.toUInt8, 'p'.toUInt8]

def protoOf (protoStr : Text) : Option ℕ :=
  if protoStr = tcp then some 6 else if protoStr = udp then some 17 else none

/-- A string in a field of the node, with this many bytes. -/
def strcpyField (size : ℕ) (src : List UInt8) : Option Text :=
  (strcpy (fill size []) src).bind stringAt

/-- `__add_app_feature` without the list. -/
def storeFeature (feature : List UInt8) (appid : ℤ) (name : Text) (proto : ℕ) (srcPort : ℤ)
    (dportInfo : List RangeValue) (s : ParamState) : Option ReadFeature :=
  (strcpyField 128 (s.buf .hostUrl)).bind fun hostUrl =>
  (strcpyField 128 (s.buf .requestUrl)).bind fun requestUrl =>
  (strcpyField 32 (s.buf .str)).bind fun searchStr =>
  (strcpyField 128 feature).bind fun feature =>
  (readPosInfo (s.buf .dict)).map fun posInfo =>
    { appId := (appid % 2 ^ 32).toNat
      appName := name.take 63
      feature, proto
      sport := (srcPort % 2 ^ 32).toNat
      dportInfo, hostUrl, requestUrl, searchStr, posInfo
      ignore := s.ignore }

/-- `add_app_feature`; the inner none is for a feature that is rejected. -/
def addAppFeature (appid : ℤ) (name : Text) (feature : List UInt8) : Option (Option ReadFeature) :=
  (stringAt feature).bind fun text =>
  if text.length < 8 then some none
  else
    (readParams feature).bind fun s =>
    (stringAt (s.buf .proto)).bind fun protoStr =>
    match protoOf protoStr with
    | none => some none
    | some proto =>
      (readInt isspace (s.buf .srcPort)).bind fun srcPort =>
      (readPortInfo (s.buf .dstPort)).bind fun dportInfo =>
      (storeFeature feature appid name proto ((srcPort.map Prod.fst).getD 0) dportInfo s).map some

/-! ## Lines -/

/-- `kstrtol` of a trimmed text. -/
def kstrtol (s : Text) : Option ℤ :=
  let negative := s.head? == some '-'.toUInt8
  let digits := if negative ∨ s.head? = some '+'.toUInt8 then s.tail else s
  let v : ℤ := if negative then -decimal digits else decimal digits
  if digits ≠ [] ∧ digits.all isdigit ∧ -2 ^ 63 ≤ v ∧ v < 2 ^ 63 then some v else none

/-- `af_parse_feature_app_header`: the application and its name. -/
def afParseFeatureAppHeader (featureStr : Text) : Option (ℤ × Text) :=
  let header := featureStr.takeWhile (· != ':'.toUInt8)
  let idText := trim isspace (header.takeWhile (· != '~'.toUInt8))
  let nameText := trim isspace (header.dropWhile (· != '~'.toUInt8)).tail
  if ':'.toUInt8 ∉ featureStr ∨ header.length = 0 ∨ 128 ≤ header.length then none
  else if '~'.toUInt8 ∉ header ∨ idText = [] ∨ nameText = [] then none
  else
    match kstrtol idText with
    | none => none
    | some id =>
      if id ≤ 0 ∨ trim isspace (idText.dropWhile fun c => !isspace c) ≠ [] then none
      else some (toInt id, nameText.take 127)

/-- The loop of `af_init_feature` over the memory from `p`: where the text in brackets begins, and
    its length. -/
def findBrackets (pos : Option ℕ) (len p : ℕ) : List UInt8 → Option (Option ℕ × ℕ)
  | [] => none
  | c :: rest =>
    if c = 0 then some (pos, len)
    else
      match rest.head?, pos with
      | none, _ => none
      | some d, some begun =>
        if d = '['.toUInt8 then findBrackets (some (p + 2)) len (p + 1) rest
        else if d = ']'.toUInt8 then findBrackets pos (p + 1 - begun) (p + 1) rest
        else findBrackets pos len (p + 1) rest
      | some d, none =>
        if d = '['.toUInt8 then findBrackets (some (p + 2)) len (p + 1) rest
        else findBrackets none len (p + 1) rest

/-- `feature` and the features that were added. -/
structure LineState where
  feature : List UInt8
  added : List ReadFeature

/-- A feature is copied to its buffer, terminated and added. -/
def LineState.add (s : LineState) (appId : ℤ) (appName : Text) (bytes : List UInt8) :
    Option LineState :=
  (store s.feature 0 bytes).bind fun feature =>
  (store feature bytes.length [0]).bind fun feature =>
  (addAppFeature appId appName feature).map fun added =>
    { feature, added := s.added ++ added.toList }

def addPiece (appId : ℤ) (appName : Text) (featureBuf : List UInt8) (s : LineState)
    (first p : ℕ) : Option LineState :=
  (load featureBuf first (p - first)).bind (s.add appId appName)

def lineBody (appId : ℤ) (appName : Text) (featureBuf : List UInt8) (s : LineState)
    (first p : ℕ) : Option (LineState × Option ℕ) :=
  if 128 < p - first then some (s, some first)
  else (addPiece appId appName featureBuf s first p).map fun s => (s, none)

def lineAfter (appId : ℤ) (appName : Text) (featureBuf : List UInt8) :
    LineState × ℕ × ℕ → Option (List ReadFeature)
  | (s, first, p) =>
    if p = first ∨ 128 < p - first then some s.added
    else (addPiece appId appName featureBuf s first p).map (·.added)

/-- The text in brackets is copied to a buffer. -/
def copyBrackets (featureStr : List UInt8) (pos : Option ℕ) (len : ℕ) : Option (List UInt8) :=
  match pos with
  | none => some (fill 800 [])
  | some pos =>
    if len = 0 then some (fill 800 []) else strncpy (fill 800 []) (featureStr.drop pos) len

/-- The features in the buffer are added. -/
def readFeatures (appId : ℤ) (appName : Text) (featureBuf : List UInt8) :
    Option (List ReadFeature) :=
  (scan ','.toUInt8 (lineBody appId appName featureBuf) ⟨fill 128 [], []⟩ 0 0 featureBuf).bind
    (lineAfter appId appName featureBuf)

/-- `af_init_feature`; the inner none is for a line that is not counted. -/
def afInitFeature (featureStr : List UInt8) : Option (Option (List ReadFeature)) :=
  (stringAt featureStr).bind fun line =>
  if '#'.toUInt8 ∈ line then some none
  else
    match afParseFeatureAppHeader line with
    | none => some none
    | some (appId, appName) =>
      (findBrackets none 0 0 featureStr).bind fun brackets =>
      (copyBrackets featureStr brackets.1 brackets.2).bind fun featureBuf =>
      (readFeatures appId appName featureBuf).map some

end Apackage.OpenAppFilter.FeatureLine
