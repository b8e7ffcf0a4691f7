import Mathlib.Algebra.Order.Field.Rat
import Apackage.Rtp2httpd.Player.Mp4Boxes

/-
  The reader of fMP4 segments (`fmp4.ts`).

  Model. `byteAt` reads for a path: the boxes and descriptors that the code has gone into, each by
  the place of its payload. A read outside the array or outside one of them is none, and so is a
  loop over boxes that goes on after as many rounds as there are bytes. What the code calls null or
  undefined is a second, inner none. Numbers are exact, so that the time of a segment is a rational
  number.
-/

namespace Apackage.Rtp2httpd.Player.Fmp4

open Lib.Digits MP4

/-! ## Reads -/

/-- The place from `start` to before `stop`. -/
structure Range where
  start : ℕ
  stop : ℕ

structure BoxRange extends Range where
  type : Bytes
  boxStart : ℕ

def byteAt (data : Bytes) (path : List Range) (i : ℕ) : Option UInt8 :=
  if ∀ r ∈ path, r.start ≤ i ∧ i < r.stop then data[i]? else none

def bytesAt (data : Bytes) (path : List Range) (i : ℕ) : ℕ → Option Bytes
  | 0 => some []
  | n + 1 => do
    let byte ← byteAt data path i
    let rest ← bytesAt data path (i + 1) n
    some (byte :: rest)

def number (bytes : Bytes) : ℕ := value 256 (bytes.map UInt8.toNat)

def getUint32 (data : Bytes) (path : List Range) (offset : ℕ) : Option ℕ :=
  (bytesAt data path offset 4).map number

def hasBytes (offset length stop : ℕ) : Bool := offset + length ≤ stop

/-- The bytes that the readers below take, null behind `stop`. -/
def checkedBytes (data : Bytes) (path : List Range) (offset n stop : ℕ) : Option (Option Bytes) :=
  if hasBytes offset n stop then (bytesAt data path offset n).map some else some none

def readFourCc (data : Bytes) (path : List Range) (offset stop : ℕ) : Option (Option Bytes) :=
  checkedBytes data path offset 4 stop

def readUint16 (data : Bytes) (path : List Range) (offset stop : ℕ) : Option (Option ℕ) :=
  (checkedBytes data path offset 2 stop).map (Option.map number)

def readUint32 (data : Bytes) (path : List Range) (offset stop : ℕ) : Option (Option ℕ) :=
  (checkedBytes data path offset 4 stop).map (Option.map number)

/-! ## Boxes -/

/-- The size of the box and of its header; null where the loop breaks off. -/
def boxSize (data : Bytes) (path : List Range) (safeEnd offset size : ℕ) :
    Option (Option (ℕ × ℕ)) :=
  if size = 1 then
    if safeEnd < offset + 16 then some none
    else do
      let high ← getUint32 data path (offset + 8)
      let low ← getUint32 data path (offset + 12)
      some (some (high * 0x100000000 + low, 16))
  else if size = 0 then some (some (safeEnd - offset, 8))
  else some (some (size, 8))

/-- The loop of `readBoxes`, for `n` more rounds. -/
def readBoxesLoop (data : Bytes) (path : List Range) (safeEnd : ℕ) : ℕ → ℕ → Option (List BoxRange)
  | 0, _ => none
  | n + 1, offset =>
    if safeEnd < offset + 8 then some []
    else do
      let size ← getUint32 data path offset
      let some type ← readFourCc data path (offset + 4) safeEnd | some []
      let some (size, headerSize) ← boxSize data path safeEnd offset size | some []
      if 2 ^ 53 ≤ size ∨ size < headerSize ∨ safeEnd < offset + size then some []
      else
        let boxes ← readBoxesLoop data path safeEnd n (offset + size)
        some (⟨⟨offset + headerSize, offset + size⟩, type, offset⟩ :: boxes)

def readBoxes (data : Bytes) (path : List Range) (start stop : ℕ) : Option (List BoxRange) :=
  let safeEnd := min stop data.length
  readBoxesLoop data path safeEnd (safeEnd + 1) (min start safeEnd)

def findBox (data : Bytes) (path : List Range) (start stop : ℕ) (type : Bytes) :
    Option (Option BoxRange) :=
  (readBoxes data path start stop).map fun boxes => boxes.find? fun b => b.type == type

/-- `splitInitFromSegment`: `init` and `media`. -/
def splitInitFromSegment (data : Bytes) : Option (Bytes × Bytes) :=
  (findBox data [] 0 data.length (boxType 'm' 'o' 'o' 'f')).map fun
    | some box => (data.take box.boxStart, data.drop box.boxStart)
    | none => (data, data.drop data.length)

/-! ## Codecs -/

def text (bytes : Bytes) : String := String.ofList (bytes.map fun byte => Char.ofNat byte.toNat)

def hex (v : ℕ) : String := String.ofList (Nat.toDigits 16 v)

def hex2 (v : ℕ) : String := String.ofList ((Nat.toDigits 16 v).leftpad 2 '0')

/-- `hevcCodecString`; `hvcc` is the payload of the box. -/
def hevcCodecString (data : Bytes) (path : List Range) (codec : String) (hvcc : Range) :
    Option String := do
  if hvcc.stop - hvcc.start < 13 then some codec
  else
    let path := hvcc :: path
    let b1 ← byteAt data path (hvcc.start + 1)
    let compat ← getUint32 data path (hvcc.start + 2)
    let levelIdc ← byteAt data path (hvcc.start + 12)
    let constraints ← bytesAt data path (hvcc.start + 6) 6
    let profileSpace := ["", "A", "B", "C"].getD (b1.toNat / 64) ""
    let tierFlag := if b1.toNat / 32 % 2 = 1 then "H" else "L"
    let reversed := (List.range 32).foldl (fun r i => r * 2 + compat / 2 ^ i % 2) 0
    -- The constraint bytes without the zeros at their end.
    let constraints := (constraints.reverse.dropWhile (· == 0)).reverse
    some (codec ++ "." ++ profileSpace ++ toString (b1.toNat % 32) ++ "." ++ hex reversed ++ "." ++
      tierFlag ++ toString levelIdc.toNat ++
      String.join (constraints.map fun byte => "." ++ (hex byte.toNat).toUpper))

structure Mp4Descriptor extends Range where
  tag : ℕ

/-- The loop of `readMp4Descriptor` over the size: the size and the place behind it. -/
def descriptorSize (data : Bytes) (path : List Range) (parentEnd : ℕ) :
    ℕ → ℕ → ℕ → Option (Option (ℕ × ℕ))
  | 0, _, _ => some none
  | n + 1, cursor, payloadSize =>
    if hasBytes cursor 1 parentEnd then do
      let sizeByte ← byteAt data path cursor
      let payloadSize := payloadSize * 128 + sizeByte.toNat % 128
      if sizeByte.toNat < 128 then some (some (payloadSize, cursor + 1))
      else descriptorSize data path parentEnd n (cursor + 1) payloadSize
    else some none

def readMp4Descriptor (data : Bytes) (path : List Range) (descriptorOffset parentEnd : ℕ) :
    Option (Option Mp4Descriptor) := do
  if hasBytes descriptorOffset 2 parentEnd then
    let tag ← byteAt data path descriptorOffset
    let some (payloadSize, cursor) ←
      descriptorSize data path parentEnd 4 (descriptorOffset + 1) 0 | some none
    if hasBytes cursor payloadSize parentEnd then
      some (some ⟨⟨cursor, cursor + payloadSize⟩, tag.toNat⟩)
    else some none
  else some none

def audioSampleEntryChildrenStart (data : Bytes) (path : List Range) (entry : Range) :
    Option (Option ℕ) := do
  let some version ← readUint16 data (entry :: path) (entry.start + 8) entry.stop | some none
  let headerSize :=
    if version = 0 then 28 else if version = 1 then 44 else if version = 2 then 64 else 0
  if headerSize = 0 ∨ !hasBytes entry.start headerSize entry.stop then some none
  else some (some (entry.start + headerSize))

def channelCountField (data : Bytes) (path : List Range) (entry : Range) (version : Option ℕ) :
    Option (Option ℕ) :=
  if version = some 2 then readUint32 data (entry :: path) (entry.start + 40) entry.stop
  else readUint16 data (entry :: path) (entry.start + 16) entry.stop

def audioSampleEntryChannelCount (data : Bytes) (path : List Range) (entry : Range) :
    Option (Option ℕ) := do
  let version ← readUint16 data (entry :: path) (entry.start + 8) entry.stop
  let channelCount ← channelCountField data path entry version
  some (channelCount.filter (0 < ·))

/-- The place in an `ES_Descriptor` behind its URL, if it has one. -/
def behindUrl (data : Bytes) (path : List Range) (es : Range) (esFlags : UInt8) (offset : ℕ) :
    Option (Option ℕ) :=
  if esFlags.toNat / 64 % 2 = 1 then
    if hasBytes offset 1 es.stop then
      (byteAt data (es :: path) offset).map fun urlLength => some (offset + 1 + urlLength.toNat)
    else some none
  else some (some offset)

/-- The place in an `ES_Descriptor` where the first descriptor of it begins. -/
def esChildrenStart (data : Bytes) (path : List Range) (es : Range) : Option (Option ℕ) := do
  let esFlags ← byteAt data (es :: path) (es.start + 2)
  let offset := es.start + 3
  let offset := if 128 ≤ esFlags.toNat then offset + 2 else offset
  let some offset ← behindUrl data path es esFlags offset | some none
  let offset := if esFlags.toNat / 32 % 2 = 1 then offset + 2 else offset
  if hasBytes offset 0 es.stop then some (some offset) else some none

/-- The object type of an `AudioSpecificConfig`. -/
def audioObjectType (data : Bytes) (path : List Range) (info : Range) : Option ℕ := do
  let first ← byteAt data (info :: path) info.start
  if first.toNat / 8 = 31 ∧ hasBytes info.start 2 info.stop then
    let second ← byteAt data (info :: path) (info.start + 1)
    some (32 + first.toNat % 8 * 8 + second.toNat / 32)
  else some (first.toNat / 8)

def mp4aCodecString (data : Bytes) (path : List Range) (entry : Range) : Option String := do
  let some childrenStart ← audioSampleEntryChildrenStart data path entry | some "mp4a"
  let path := entry :: path
  let some esds ← findBox data path childrenStart entry.stop (boxType 'e' 's' 'd' 's')
    | some "mp4a"
  if !hasBytes esds.start 4 esds.stop then some "mp4a"
  else
    let path := esds.toRange :: path
    let some es ← readMp4Descriptor data path (esds.start + 4) esds.stop | some "mp4a"
    if es.tag ≠ 0x03 ∨ !hasBytes es.start 3 es.stop then some "mp4a"
    else
      let some offset ← esChildrenStart data path es.toRange | some "mp4a"
      let path := es.toRange :: path
      let some config ← readMp4Descriptor data path offset es.stop | some "mp4a"
      if config.tag ≠ 0x04 ∨ !hasBytes config.start 13 config.stop then some "mp4a"
      else
        let path := config.toRange :: path
        let objectTypeIndication ← byteAt data path config.start
        let codec := "mp4a." ++ hex2 objectTypeIndication.toNat
        let some info ← readMp4Descriptor data path (config.start + 13) config.stop | some codec
        if info.tag ≠ 0x05 ∨ info.stop ≤ info.start then some codec
        else
          let audioObjectType ← audioObjectType data path info.toRange
          some (codec ++ "." ++ toString audioObjectType)

def sampleEntryCodec (data : Bytes) (path : List Range) (entry : BoxRange) :
    Option (Option String) := do
  if entry.type = boxType 'a' 'v' 'c' '1' ∨ entry.type = boxType 'a' 'v' 'c' '3' then
    let path := entry.toRange :: path
    let some avcc ← findBox data path (entry.start + 78) entry.stop (boxType 'a' 'v' 'c' 'C')
      | some (some (text entry.type))
    if hasBytes (avcc.start + 1) 3 avcc.stop then
      let bytes ← bytesAt data (avcc.toRange :: path) (avcc.start + 1) 3
      some (some (text entry.type ++ "." ++ String.join (bytes.map fun byte => hex2 byte.toNat)))
    else some (some (text entry.type))
  else if entry.type = boxType 'h' 'v' 'c' '1' ∨ entry.type = boxType 'h' 'e' 'v' '1' then
    let path := entry.toRange :: path
    let some hvcc ← findBox data path (entry.start + 78) entry.stop (boxType 'h' 'v' 'c' 'C')
      | some (some (text entry.type))
    if hasBytes hvcc.start 13 hvcc.stop then
      (hevcCodecString data path (text entry.type) hvcc.toRange).map some
    else some (some (text entry.type))
  else if entry.type = boxType 'm' 'p' '4' 'a' then
    (mp4aCodecString data path entry.toRange).map some
  else if entry.type = boxType 'a' 'c' '-' '3' ∨ entry.type = boxType 'e' 'c' '-' '3' then
    some (some (text entry.type))
  else if entry.type = boxType '.' 'm' 'p' '3' then some (some "mp3")
  else some none

/-! ## Tracks -/

structure ColourInformation where
  colourPrimaries : ℕ
  transferCharacteristics : ℕ
  matrixCoefficients : ℕ
  fullRange : Option Bool

def colourFullRange (data : Bytes) (path : List Range) (colourType : Option Bytes)
    (colourBox : Range) : Option (Option Bool) :=
  if colourType = some (boxType 'n' 'c' 'l' 'x') ∧
      hasBytes (colourBox.start + 10) 1 colourBox.stop then
    (byteAt data (colourBox :: path) (colourBox.start + 10)).map fun byte =>
      some (decide (128 ≤ byte.toNat))
  else some none

def parseColourInformation (data : Bytes) (path : List Range) (entry : Range) :
    Option (Option ColourInformation) := do
  let path := entry :: path
  let some colourBox ← findBox data path (entry.start + 78) entry.stop (boxType 'c' 'o' 'l' 'r')
    | some none
  if !hasBytes colourBox.start 10 colourBox.stop then some none
  else
    let boxPath := colourBox.toRange :: path
    let colourType ← readFourCc data boxPath colourBox.start colourBox.stop
    if colourType ≠ some (boxType 'n' 'c' 'l' 'x') ∧
        colourType ≠ some (boxType 'n' 'c' 'l' 'c') then some none
    else
      let colourPrimaries ← readUint16 data boxPath (colourBox.start + 4) colourBox.stop
      let transferCharacteristics ← readUint16 data boxPath (colourBox.start + 6) colourBox.stop
      let matrixCoefficients ← readUint16 data boxPath (colourBox.start + 8) colourBox.stop
      match colourPrimaries, transferCharacteristics, matrixCoefficients with
      | some primaries, some transfer, some coefficients =>
        let fullRange ← colourFullRange data path colourType colourBox.toRange
        some (some ⟨primaries, transfer, coefficients, fullRange⟩)
      | _, _, _ => some none

inductive ScanType
  | progressive
  | interlaced

def parseScanType (data : Bytes) (path : List Range) (entry : Range) :
    Option (Option ScanType) := do
  let path := entry :: path
  let some fieldBox ← findBox data path (entry.start + 78) entry.stop (boxType 'f' 'i' 'e' 'l')
    | some none
  if !hasBytes fieldBox.start 1 fieldBox.stop then some none
  else
    let fieldCount ← byteAt data (fieldBox.toRange :: path) fieldBox.start
    some (if fieldCount = 1 then some .progressive
      else if fieldCount = 2 then some .interlaced else none)

/-- `InitSegmentTrackInfo`, by its `type`. -/
inductive TrackInfo
  | video (codec : String) (width height : Option ℕ) (scanType : Option ScanType)
      (colour : Option ColourInformation)
  | audio (codec : String) (channelCount : Option ℕ)

def TrackInfo.codec : TrackInfo → String
  | video codec _ _ _ _ => codec
  | audio codec _ => codec

def parseSampleEntryTrack (data : Bytes) (path : List Range) (entry : BoxRange)
    (handlerType : Option Bytes) : Option (Option TrackInfo) := do
  let some codec ← sampleEntryCodec data path entry | some none
  if handlerType = some (boxType 'v' 'i' 'd' 'e') ∨
      entry.type ∈ [boxType 'a' 'v' 'c' '1', boxType 'a' 'v' 'c' '3', boxType 'h' 'v' 'c' '1',
        boxType 'h' 'e' 'v' '1'] then
    let width ← readUint16 data (entry.toRange :: path) (entry.start + 24) entry.stop
    let height ← readUint16 data (entry.toRange :: path) (entry.start + 26) entry.stop
    let scanType ← parseScanType data path entry.toRange
    let colour ← parseColourInformation data path entry.toRange
    some (some (.video codec (width.filter (0 < ·)) (height.filter (0 < ·)) scanType colour))
  else if handlerType = some (boxType 's' 'o' 'u' 'n') ∨
      entry.type ∈ [boxType 'm' 'p' '4' 'a', boxType 'a' 'c' '-' '3', boxType 'e' 'c' '-' '3',
        boxType '.' 'm' 'p' '3'] then
    let channelCount ← audioSampleEntryChannelCount data path entry.toRange
    some (some (.audio codec channelCount))
  else some none

structure InitSegmentInfo where
  codecs : List String
  timescales : ℕ → Option ℕ
  tracks : List TrackInfo

/-- What is read in a box, null without the box. -/
def inBox {α : Type} (box : Option BoxRange) (read : BoxRange → Option (Option α)) :
    Option (Option α) :=
  match box with
  | some box => read box
  | none => some none

/-- A number of 32 bits in a box with a version, at 20 or at 12. -/
def versionedNumber (data : Bytes) (path : List Range) (box : Range) : Option (Option ℕ) := do
  if hasBytes box.start 1 box.stop then
    let version ← byteAt data (box :: path) box.start
    readUint32 data (box :: path) (box.start + if version = 1 then 20 else 12) box.stop
  else some none

/-- The loop of `parseInitSegment` over the sample entries. -/
def parseEntries (data : Bytes) (path : List Range) (handlerType : Option Bytes) :
    InitSegmentInfo → List BoxRange → Option InitSegmentInfo :=
  List.foldlM fun info entry => do
    let some track ← parseSampleEntryTrack data path entry handlerType | some info
    some { info with tracks := info.tracks ++ [track], codecs := info.codecs ++ [track.codec] }

/-- The descent of `parseInitSegment` to the sample entries of a `mdia`. -/
def parseMedia (data : Bytes) (path : List Range) (mdia : Range) (handlerType : Option Bytes)
    (info : InitSegmentInfo) : Option InitSegmentInfo := do
  let path := mdia :: path
  let some minf ← findBox data path mdia.start mdia.stop (boxType 'm' 'i' 'n' 'f') | some info
  let path := minf.toRange :: path
  let some stbl ← findBox data path minf.start minf.stop (boxType 's' 't' 'b' 'l') | some info
  let path := stbl.toRange :: path
  let some stsd ← findBox data path stbl.start stbl.stop (boxType 's' 't' 's' 'd') | some info
  if hasBytes stsd.start 8 stsd.stop then
    let path := stsd.toRange :: path
    let entries ← readBoxes data path (stsd.start + 8) stsd.stop
    parseEntries data path handlerType info entries
  else some info

/-- A round of the loop of `parseInitSegment` over the boxes of `moov`. -/
def parseTrak (data : Bytes) (path : List Range) (info : InitSegmentInfo) (trak : BoxRange) :
    Option InitSegmentInfo := do
  if trak.type ≠ boxType 't' 'r' 'a' 'k' then some info
  else
    let path := trak.toRange :: path
    let tkhd ← findBox data path trak.start trak.stop (boxType 't' 'k' 'h' 'd')
    let trackId ← inBox tkhd fun tkhd => versionedNumber data path tkhd.toRange
    let some mdia ← findBox data path trak.start trak.stop (boxType 'm' 'd' 'i' 'a') | some info
    let mdiaPath := mdia.toRange :: path
    let handler ← findBox data mdiaPath mdia.start mdia.stop (boxType 'h' 'd' 'l' 'r')
    let handlerType ← inBox handler fun handler =>
      readFourCc data (handler.toRange :: mdiaPath) (handler.start + 8) handler.stop
    let mdhd ← findBox data mdiaPath mdia.start mdia.stop (boxType 'm' 'd' 'h' 'd')
    let timescale ← inBox (mdhd.filter fun _ => trackId.isSome) fun mdhd =>
      versionedNumber data mdiaPath mdhd.toRange
    let info := match trackId, timescale.filter (0 < ·) with
      | some trackId, some timescale =>
        { info with timescales := Function.update info.timescales trackId (some timescale) }
      | _, _ => info
    parseMedia data path mdia.toRange handlerType info

def parseInitSegment (data : Bytes) : Option InitSegmentInfo := do
  let some moov ← findBox data [] 0 data.length (boxType 'm' 'o' 'o' 'v')
    | some ⟨[], fun _ => none, []⟩
  let traks ← readBoxes data [moov.toRange] moov.start moov.stop
  traks.foldlM (parseTrak data [moov.toRange]) ⟨[], fun _ => none, []⟩

/-! ## The start time of a segment -/

/-- The time in a `tfdt`. -/
def baseMediaDecodeTime (data : Bytes) (path : List Range) (tfdt : Range) : Option (Option ℕ) := do
  let version ← byteAt data (tfdt :: path) tfdt.start
  if version = 1 then
    if hasBytes (tfdt.start + 4) 8 tfdt.stop then
      let high ← getUint32 data (tfdt :: path) (tfdt.start + 4)
      let low ← getUint32 data (tfdt :: path) (tfdt.start + 8)
      some (some (high * 0x100000000 + low))
    else some none
  else if hasBytes (tfdt.start + 4) 4 tfdt.stop then
    (getUint32 data (tfdt :: path) (tfdt.start + 4)).map some
  else some none

/-- A round of the loop of `getSegmentStartTime` over the boxes of `moof`. -/
def earliestTime (data : Bytes) (path : List Range) (timescales : ℕ → Option ℕ)
    (earliest : Option ℚ) (traf : BoxRange) : Option (Option ℚ) := do
  if traf.type ≠ boxType 't' 'r' 'a' 'f' then some earliest
  else
    let path := traf.toRange :: path
    let tfhd ← findBox data path traf.start traf.stop (boxType 't' 'f' 'h' 'd')
    let tfdt ← findBox data path traf.start traf.stop (boxType 't' 'f' 'd' 't')
    match tfhd, tfdt with
    | some tfhd, some tfdt =>
      if !hasBytes (tfhd.start + 4) 4 tfhd.stop ∨ !hasBytes tfdt.start 1 tfdt.stop then
        some earliest
      else
        let some trackId ← readUint32 data (tfhd.toRange :: path) (tfhd.start + 4) tfhd.stop
          | some earliest
        match (timescales trackId).filter (· ≠ 0) with
        | none => some earliest
        | some timescale =>
          let some baseTime ← baseMediaDecodeTime data path tfdt.toRange | some earliest
          let seconds : ℚ := (baseTime : ℚ) / timescale
          some (if earliest.all fun e => decide (seconds < e) then some seconds else earliest)
    | _, _ => some earliest

def getSegmentStartTime (data : Bytes) (timescales : ℕ → Option ℕ) : Option (Option ℚ) := do
  let some moof ← findBox data [] 0 data.length (boxType 'm' 'o' 'o' 'f') | some none
  let trafs ← readBoxes data [moof.toRange] moof.start moof.stop
  trafs.foldlM (earliestTime data [moof.toRange] timescales) none

end Apackage.Rtp2httpd.Player.Fmp4
