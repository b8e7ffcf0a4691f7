import Apackage.Lib.FrameScan
import Apackage.Rtp2httpd.Player.ExpGolomb

/-
  Audio frames in a PES payload (`aac.ts`, `ac3.ts`).

  The four parsers look for a sync word, read a header and step over the frame; the length they
  step over is in the header.

  Model. Data begins at the sync word; a byte behind the end counts as 0, as it does in the bit
  operations of the source. A frame keeps what the demuxer stores of it as metadata, and its
  bytes. The syntax of the LOAS elements is written over any bit reader: the source's is
  `ExpGolomb`.
-/

namespace Apackage.Rtp2httpd.Player

open Option Lib.BitSyntax Lib.FrameScan

/-- `AACAudioMetadata`, `AC3AudioMetadata` and `EAC3AudioMetadata`. -/
inductive AudioMetadata
  | aac (audioObjectType samplingFreqIndex channelConfig : ℕ)
  | ac3 (samplingFrequency bitStreamIdentification bitStreamMode lowFrequencyEffectsChannelOn
      channelMode : ℕ)
  | eac3 (samplingFrequency bitStreamIdentification lowFrequencyEffectsChannelOn numBlks
      channelMode : ℕ)
  deriving DecidableEq

structure AudioFrame where
  metadata : AudioMetadata
  data : Bytes

def dataByte (data : Bytes) (i : ℕ) : ℕ := (data.getD i 0).toNat

def mpeg4SamplingFrequencies : List ℕ :=
  [96000, 88200, 64000, 48000, 44100, 32000, 24000, 22050, 16000, 12000, 11025, 8000, 7350]

/-! ## ADTS -/

/-- `(data[offset + 3] & 0x03) << 11 | data[offset + 4] << 3 | (data[offset + 5] & 0xe0) >>> 5`. -/
def adtsFrameLength (data : Bytes) : ℕ :=
  dataByte data 3 % 4 * 2048 + dataByte data 4 * 8 + dataByte data 5 / 32

def adtsLayer (data : Bytes) : ℕ := dataByte data 1 / 2 % 4

/-- 7, and 9 with a checksum. -/
def adtsHeaderLength (data : Bytes) : ℕ := if dataByte data 1 % 2 = 1 then 7 else 9

def adtsSamplingFreqIndex (data : Bytes) : ℕ := dataByte data 2 / 4 % 16

def adtsMetadata (data : Bytes) : AudioMetadata :=
  .aac (dataByte data 2 / 64 + 1) (adtsSamplingFreqIndex data)
    (dataByte data 2 % 2 * 4 + dataByte data 3 / 64)

def adtsScan (_ : Option AudioFrame) (data : Bytes) : Scan AudioFrame :=
  if data.length < adtsFrameLength data then .incomplete
  else if adtsLayer data ≠ 0 then .skip (adtsFrameLength data)
  else .frame
    ⟨adtsMetadata data, (data.take (adtsFrameLength data)).drop (adtsHeaderLength data)⟩
    (adtsFrameLength data)

def aacADTSParser : Scanner AudioFrame UInt8 where
  window := 8
  isSync data := (dataByte data 0 * 256 + dataByte data 1) / 16 = 0xFFF
  scan := adtsScan

/-! ## AC-3 -/

def ac3SamplingFrequencies : List ℕ := [48000, 44100, 32000]

def frameSizeCodeTable : List (List ℕ) :=
  [[64, 64, 80, 80, 96, 96, 112, 112, 128, 128, 160, 160, 192, 192, 224, 224, 256, 256, 320, 320,
      384, 384, 448, 448, 512, 512, 640, 640, 768, 768, 896, 896, 1024, 1024, 1152, 1152, 1280,
      1280],
    [69, 70, 87, 88, 104, 105, 121, 122, 139, 140, 174, 175, 208, 209, 243, 244, 278, 279, 348, 349,
      417, 418, 487, 488, 557, 558, 696, 697, 835, 836, 975, 976, 1114, 1115, 1253, 1254, 1393,
      1394],
    [96, 96, 120, 120, 144, 144, 168, 168, 192, 192, 240, 240, 288, 288, 336, 336, 384, 384, 480,
      480, 576, 576, 672, 672, 768, 768, 960, 960, 1152, 1152, 1344, 1344, 1536, 1536, 1728, 1728,
      1920, 1920]]

def ac3FrameSize (data : Bytes) : Option ℕ :=
  (frameSizeCodeTable[dataByte data 4 / 64]?.bind (·[dataByte data 4 % 64]?)).map (· * 2)

def ac3SamplingFrequency (data : Bytes) : Option ℕ := ac3SamplingFrequencies[dataByte data 4 / 64]?

def ac3ChannelMode (data : Bytes) : ℕ := dataByte data 6 / 32

def ac3LfeSkip (channelMode : ℕ) : ℕ :=
  (if channelMode % 2 ≠ 0 ∧ channelMode ≠ 1 then 2 else 0) +
    (if channelMode / 4 % 2 ≠ 0 then 2 else 0) + (if channelMode = 2 then 2 else 0)

def ac3Metadata (samplingFrequency : ℕ) (data : Bytes) : AudioMetadata :=
  .ac3 samplingFrequency (dataByte data 5 / 8) (dataByte data 5 % 8)
    ((dataByte data 6 * 256 + dataByte data 7) / 2 ^ (12 - ac3LfeSkip (ac3ChannelMode data)) % 2)
    (ac3ChannelMode data)

def ac3Scan (_ : Option AudioFrame) (data : Bytes) : Scan AudioFrame :=
  match ac3SamplingFrequency data, ac3FrameSize data with
  | some samplingFrequency, some frameSize =>
    if data.length < frameSize then .incomplete
    else .frame ⟨ac3Metadata samplingFrequency data, data.take frameSize⟩ frameSize
  | _, _ => .skip 2

def ac3Sync (data : Bytes) : Bool := dataByte data 0 * 256 + dataByte data 1 = 0x0B77

def ac3Parser : Scanner AudioFrame UInt8 where
  window := 8
  isSync := ac3Sync
  scan := ac3Scan

/-! ## E-AC-3 -/

def eac3SamplingFrequencies : List ℕ := [48000, 44100, 32000]

def eac3HalfSamplingFrequencies : List ℕ := [24000, 22050, 16000]

def eac3BlocksPerSyncframe : List ℕ := [1, 2, 3, 6]

/-- The frame size and what follows it in the header; no metadata for a reserved code. -/
def eac3Header : StateT ExpGolomb Option (ℕ × Option AudioMetadata) := do
  let _ ← ExpGolomb.readBits 2
  let _ ← ExpGolomb.readBits 3
  let frameSize := ((← ExpGolomb.readBits 11).toNat + 1) * 2
  let samplingRateCode ← ExpGolomb.readBits 2
  let code ← ExpGolomb.readBits 2
  let samplingFrequency :=
    if samplingRateCode = 3 then eac3HalfSamplingFrequencies[code.toNat]?
    else eac3SamplingFrequencies[samplingRateCode.toNat]?
  let numBlks := eac3BlocksPerSyncframe[if samplingRateCode = 3 then 3 else code.toNat]?
  match samplingFrequency, numBlks with
  | some samplingFrequency, some numBlks =>
    let channelMode ← ExpGolomb.readBits 3
    let lowFrequencyEffectsChannelOn ← ExpGolomb.readBits 1
    let bitStreamIdentification ← ExpGolomb.readBits 5
    return (frameSize, some (.eac3 samplingFrequency bitStreamIdentification.toNat
      lowFrequencyEffectsChannelOn.toNat numBlks channelMode.toNat))
  | _, _ => return (frameSize, none)

/-- The header by the positions of its fields. -/
def eac3Fields (bs : List Bool) : ℕ × Option AudioMetadata :=
  let half := field bs 16 2 = 3
  let samplingFrequency :=
    if half then eac3HalfSamplingFrequencies[field bs 18 2]?
    else eac3SamplingFrequencies[field bs 16 2]?
  let numBlks := eac3BlocksPerSyncframe[if half then 3 else field bs 18 2]?
  ((field bs 5 11 + 1) * 2, match samplingFrequency, numBlks with
    | some samplingFrequency, some numBlks =>
      some (.eac3 samplingFrequency (field bs 24 5) (field bs 23 1) numBlks (field bs 20 3))
    | _, _ => none)

theorem eac3Header_eq {gb : ExpGolomb} (h : 29 ≤ gb.view.length) :
    (eac3Header gb).map Prod.fst = some (eac3Fields gb.view) := by
  have hv0 : gb.view = gb.view.drop 0 := rfl
  obtain ⟨gb1, h1, hv1⟩ := ExpGolomb.readBits_field (n := 2) (by decide) (by decide) hv0 (by omega)
  obtain ⟨gb2, h2, hv2⟩ := ExpGolomb.readBits_field (n := 3) (by decide) (by decide) hv1 (by omega)
  obtain ⟨gb3, h3, hv3⟩ := ExpGolomb.readBits_field (n := 11) (by decide) (by decide) hv2 (by omega)
  obtain ⟨gb4, h4, hv4⟩ := ExpGolomb.readBits_field (n := 2) (by decide) (by decide) hv3 (by omega)
  obtain ⟨gb5, h5, hv5⟩ := ExpGolomb.readBits_field (n := 2) (by decide) (by decide) hv4 (by omega)
  obtain ⟨gb6, h6, hv6⟩ := ExpGolomb.readBits_field (n := 3) (by decide) (by decide) hv5 (by omega)
  obtain ⟨gb7, h7, hv7⟩ := ExpGolomb.readBits_field (n := 1) (by decide) (by decide) hv6 (by omega)
  obtain ⟨gb8, h8, -⟩ := ExpGolomb.readBits_field (n := 5) (by decide) (by decide) hv7 (by omega)
  have hhalf : ((field gb.view 16 2 : ℤ) = 3) = (field gb.view 16 2 = 3) := by
    rw [eq_iff_iff]
    omega
  simp only [eac3Header, Bind.bind, StateT.bind, h1, h2, h3, h4, h5, bind_some, eac3Fields,
    Int.toNat_natCast, hhalf]
  generalize eac3BlocksPerSyncframe[if field gb.view 16 2 = 3 then 3 else field gb.view 18 2]? =
    numBlks
  generalize (if field gb.view 16 2 = 3 then eac3HalfSamplingFrequencies[field gb.view 18 2]?
    else eac3SamplingFrequencies[field gb.view 16 2]?) = samplingFrequency
  rcases samplingFrequency with _ | samplingFrequency
  · rfl
  rcases numBlks with _ | numBlks
  · rfl
  simp only [StateT.bind, h6, h7, h8, bind_eq_bind, bind_some]
  rfl

def eac3Scan (_ : Option AudioFrame) (data : Bytes) : Scan AudioFrame :=
  match eac3Header (.ofBytes (data.drop 2)) with
  | none => .throws
  | some ((_, none), _) => .skip 2
  | some ((frameSize, some metadata), _) =>
    if data.length < frameSize then .incomplete
    else .frame ⟨metadata, data.take frameSize⟩ frameSize

theorem eac3Scan_eq {data : Bytes} (h : 8 ≤ data.length) (prev : Option AudioFrame) :
    eac3Scan prev data = match eac3Fields (ExpGolomb.bytesBits (data.drop 2)) with
      | (_, none) => .skip 2
      | (frameSize, some metadata) =>
        if data.length < frameSize then .incomplete
        else .frame ⟨metadata, data.take frameSize⟩ frameSize := by
  have hlen : 29 ≤ (ExpGolomb.ofBytes (data.drop 2)).view.length := by
    rw [ExpGolomb.view_ofBytes, ExpGolomb.length_bytesBits, List.length_drop]
    omega
  have hheader := eac3Header_eq hlen
  rw [ExpGolomb.view_ofBytes] at hheader
  rw [eac3Scan]
  obtain ⟨⟨⟨frameSize, metadata⟩, gb⟩, hrun, hfields⟩ := map_eq_some_iff.1 hheader
  rw [hrun, ← hfields]
  cases metadata with
  | none => rfl
  | some metadata => rfl

def eac3Parser : Scanner AudioFrame UInt8 where
  window := 8
  isSync := ac3Sync
  scan := eac3Scan

/-! ## LOAS -/

/-- What `readNextAACFrame` finds in an AudioMuxElement. -/
inductive MuxElement
  | frame (frame : AudioFrame)
  /-- "StreamMuxConfig Missing". -/
  | missing
  /-- Something that is not supported. -/
  | unsupported

/-- A number as `value << 8 | byte` leaves it. -/
def toInt32 (v : ℤ) : ℤ := (v + 2 ^ 31) % 2 ^ 32 - 2 ^ 31

section Syntax

variable {σ : Type} (readBits : ℕ → StateT σ Option ℤ)

/-- A field that is there under a condition, else 0. -/
def readIf (c : Prop) [Decidable c] (p : StateT σ Option ℤ) : StateT σ Option ℤ :=
  if c then p else pure 0

def latmBytes : ℕ → ℤ → StateT σ Option ℤ
  | 0, value => pure value
  | n + 1, value => do
    let byte ← readBits 8
    latmBytes n (toInt32 (value * 256 + byte))

def getLATMValue : StateT σ Option ℤ := do
  let bytesForValue ← readBits 2
  latmBytes readBits (bytesForValue.toNat + 1) 0

/-- The loop over `otherDataLenEsc`. It has a byte for each round. -/
def otherDataLen : ℕ → StateT σ Option ℤ
  | 0 => failure
  | fuel + 1 => do
    let otherDataLenEsc ← readBits 1
    let otherDataLenTmp ← readBits 8
    if otherDataLenEsc = 1 then otherDataLen fuel else pure otherDataLenTmp

def otherData (fuel : ℕ) (audioMuxVersion : ℤ) : StateT σ Option ℤ :=
  if audioMuxVersion = 1 then getLATMValue readBits else otherDataLen readBits fuel

/-- The StreamMuxConfig, none when it is not supported. -/
def streamMuxConfig (fuel : ℕ) : StateT σ Option (Option AudioMetadata) := do
  let audioMuxVersion ← readBits 1
  let audioMuxVersionA ← readIf (audioMuxVersion = 1) (readBits 1)
  if audioMuxVersionA = 1 then return none
  let _ ← readIf (audioMuxVersion = 1) (getLATMValue readBits)
  let allStreamsSameTimeFraming ← readBits 1
  if allStreamsSameTimeFraming ≠ 1 then return none
  let numSubFrames ← readBits 6
  if numSubFrames ≠ 0 then return none
  let numProgram ← readBits 4
  if numProgram ≠ 0 then return none
  let numLayer ← readBits 3
  if numLayer ≠ 0 then return none
  let fillBits ← readIf (audioMuxVersion = 1) (getLATMValue readBits)
  let audioObjectType ← readBits 5
  let samplingFreqIndex ← readBits 4
  let channelConfig ← readBits 4
  let _ ← readBits 3
  -- the four fields are part of the fill bits
  let _ ← readIf (16 < fillBits) (readBits (fillBits - 16).toNat)
  let frameLengthType ← readBits 3
  if frameLengthType ≠ 0 then return none
  let _ ← readBits 8
  let otherDataPresent ← readBits 1
  let _ ← readIf (otherDataPresent = 1) (otherData readBits fuel audioMuxVersion)
  let crcCheckPresent ← readBits 1
  let _ ← readIf (crcCheckPresent = 1) (readBits 8)
  return some (.aac audioObjectType.toNat samplingFreqIndex.toNat channelConfig.toNat)

/-- The loop that adds up `length`. It has a byte for each round. -/
def payloadLength : ℕ → StateT σ Option ℕ
  | 0 => failure
  | fuel + 1 => do
    let tmp ← readBits 8
    if tmp ≠ 255 then return tmp.toNat
    let length ← payloadLength fuel
    return tmp.toNat + length

def payloadBytes : ℕ → StateT σ Option Bytes
  | 0 => pure []
  | n + 1 => do
    let byte ← readBits 8
    let data ← payloadBytes n
    return byte.toNat.toUInt8 :: data

def muxPayload (fuel : ℕ) (metadata : AudioMetadata) : StateT σ Option MuxElement := do
  let length ← payloadLength readBits fuel
  let data ← payloadBytes readBits length
  return .frame ⟨metadata, data⟩

/-- `AudioMuxElement(1)`, of `fuel` bytes. -/
def audioMuxElement (fuel : ℕ) (previous : Option AudioFrame) : StateT σ Option MuxElement := do
  let useSameStreamMux ← readBits 1
  if useSameStreamMux = 1 then
    match previous with
    | none => return .missing
    | some frame => muxPayload readBits fuel frame.metadata
  else
    match ← streamMuxConfig readBits fuel with
    | none => return .unsupported
    | some metadata => muxPayload readBits fuel metadata

end Syntax

def audioMuxLengthBytes (data : Bytes) : ℕ := dataByte data 1 % 32 * 256 + dataByte data 2

def audioMuxBytes (data : Bytes) : Bytes := (data.drop 3).take (audioMuxLengthBytes data)

def loasScan (previous : Option AudioFrame) (data : Bytes) : Scan AudioFrame :=
  if data.length ≤ 3 + audioMuxLengthBytes data then .incomplete
  else
    match audioMuxElement ExpGolomb.readBits (audioMuxLengthBytes data) previous
        (.ofBytes (audioMuxBytes data)) with
    | none => .throws
    | some (.frame frame, _) => .frame frame (3 + audioMuxLengthBytes data)
    | some (.missing, _) => .skip (3 + audioMuxLengthBytes data)
    | some (.unsupported, _) => .stop

def aacLOASParser : Scanner AudioFrame UInt8 where
  window := 2
  isSync data := dataByte data 0 * 8 + dataByte data 1 / 32 = 0x2B7
  scan := loasScan

end Apackage.Rtp2httpd.Player
