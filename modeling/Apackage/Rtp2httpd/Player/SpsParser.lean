import Mathlib.Algebra.Order.Floor.Ring
import Mathlib.Data.Rat.Floor
import Apackage.Rtp2httpd.Player.SpsSyntax

/-
  The parser of sequence parameter sets (`sps-parser.ts`).

  `parseSPS` takes the emulation prevention bytes out and reads the fields up to the timing. It
  knows neither aspect ratio 16 nor the profiles 134, 135 and 139, takes an aspect ratio with a
  zero as it is, and reads the two numbers of the timing as signed ones of 32 bits.

  Model. Quotients are exact; none stands for infinity and NaN.
-/

namespace Apackage.Rtp2httpd.Player

open Lib.BitSyntax Lib.Stuffing ExpGolomb

structure SPSInfo where
  codecMimetype : String
  profileIdc : ℤ
  levelIdc : ℤ
  profileString : String
  levelString : String
  chromaFormatIdc : ℤ
  bitDepth : ℤ
  bitDepthLuma : ℤ
  bitDepthChroma : ℤ
  refFrames : ℤ
  chromaFormat : Option ℕ
  chromaFormatString : String
  frameMbsOnlyFlag : ℤ
  colourPrimaries : Option ℤ
  transferCharacteristics : Option ℤ
  matrixCoefficients : Option ℤ
  videoFullRangeFlag : Option Bool
  frameRate : FrameRate
  sarRatio : ℤ × ℤ
  codecSize : ℤ × ℤ
  presentSize : Option ℤ × ℤ

/-! ## The code -/

def ebsp2rbsp (src : Bytes) : Bytes :=
  (List.range src.length).filterMap fun i =>
    if 2 ≤ i ∧ src[i]? = some 0x03 ∧ src[i - 1]? = some 0x00 ∧ src[i - 2]? = some 0x00 then none
    else src[i]?

def skipScalingListFrom : ℕ → ℤ → ℤ → StateT ExpGolomb Option Unit
  | 0, _, _ => pure ()
  | n + 1, lastScale, nextScale => do
    let scale ← (if nextScale ≠ 0 then do
        let deltaScale ← readSEG
        pure ((lastScale + deltaScale + 256).tmod 256)
      else pure nextScale)
    skipScalingListFrom n (if scale = 0 then lastScale else scale) scale

def skipScalingList (count : ℕ) : StateT ExpGolomb Option Unit := skipScalingListFrom count 8 8

def getProfileString (profileIdc : ℤ) : String :=
  if profileIdc = 66 then "Baseline"
  else if profileIdc = 77 then "Main"
  else if profileIdc = 88 then "Extended"
  else if profileIdc = 100 then "High"
  else if profileIdc = 110 then "High10"
  else if profileIdc = 122 then "High422"
  else if profileIdc = 244 then "High444"
  else "Unknown"

def getLevelString (levelIdc : ℤ) : String := s!"{levelIdc / 10}.{levelIdc % 10}"

def getChromaFormatString (chroma : Option ℕ) : String :=
  if chroma = some 420 then "4:2:0"
  else if chroma = some 422 then "4:2:2"
  else if chroma = some 444 then "4:4:4"
  else "Unknown"

def hexByte (b : UInt8) : String :=
  let h := String.ofList (Nat.toDigits 16 b.toNat)
  if h.length < 2 then "0" ++ h else h

/-- The fields from `chroma_format_idc` on. -/
structure ChromaInfo where
  chromaFormatIdc : ℤ
  chromaFormat : Option ℕ
  bitDepthLuma : ℤ
  bitDepthChroma : ℤ

def chromaFormatOf (chromaFormatIdc : ℤ) : Option ℕ :=
  if chromaFormatIdc ≤ 3 then
    if 0 ≤ chromaFormatIdc then [0, 420, 422, 444][chromaFormatIdc.toNat]? else none
  else some 420

def readScalingMatrix (chromaFormatIdc : ℤ) : StateT ExpGolomb Option Unit := do
  if ← readBool then
    countUp (fun i => do
      if ← readBool then skipScalingList (if i < 6 then 16 else 64)
      else pure ()) 0 (if chromaFormatIdc ≠ 3 then 8 else 12)
  else pure ()

def readChroma (profileIdc : ℤ) : StateT ExpGolomb Option ChromaInfo :=
  if profileIdc ∈ [100, 110, 122, 244, 44, 83, 86, 118, 128, 138, 144] then do
    let chromaFormatIdc ← readUEG
    let _ ← (if chromaFormatIdc = 3 then readBits 1 else pure 0)
    let bitDepthLumaMinus8 ← readUEG
    let bitDepthChromaMinus8 ← readUEG
    let _ ← readBits 1
    let _ ← readScalingMatrix chromaFormatIdc
    pure ⟨chromaFormatIdc, chromaFormatOf chromaFormatIdc, bitDepthLumaMinus8 + 8,
      bitDepthChromaMinus8 + 8⟩
  else pure ⟨1, some 420, 8, 8⟩

def skipPicOrderCnt : StateT ExpGolomb Option Unit := do
  let picOrderCntType ← readUEG
  if picOrderCntType = 0 then do
    let _ ← readUEG
    pure ()
  else if picOrderCntType = 1 then do
    let _ ← readBits 1
    let _ ← readSEG
    let _ ← readSEG
    let numRefFramesInPicOrderCntCycle ← readUEG
    countUp (fun _ => readSEG) 0 numRefFramesInPicOrderCntCycle.toNat
  else pure ()

/-- `frame_crop_left_offset` and the others. -/
structure CropInfo where
  left : ℤ
  right : ℤ
  top : ℤ
  bottom : ℤ

def readFrameCropping : StateT ExpGolomb Option CropInfo := do
  if ← readBool then do
    let left ← readUEG
    let right ← readUEG
    let top ← readUEG
    let bottom ← readUEG
    pure ⟨left, right, top, bottom⟩
  else pure ⟨0, 0, 0, 0⟩

def sarWTable : List ℤ := [1, 12, 10, 16, 40, 24, 20, 32, 80, 18, 15, 64, 160, 4, 3, 2]

def sarHTable : List ℤ := [1, 11, 11, 11, 33, 11, 11, 11, 33, 11, 11, 33, 99, 3, 2, 1]

def readAspectRatio : StateT ExpGolomb Option (ℤ × ℤ) := do
  if ← readBool then do
    let aspectRatioIdc ← readByte
    if 0 < aspectRatioIdc ∧ aspectRatioIdc < 16 then
      pure (sarWTable.getD (aspectRatioIdc - 1).toNat 0,
        sarHTable.getD (aspectRatioIdc - 1).toNat 0)
    else if aspectRatioIdc = 255 then do
      let widthHigh ← readByte
      let widthLow ← readByte
      let heightHigh ← readByte
      let heightLow ← readByte
      pure (widthHigh * 256 + widthLow, heightHigh * 256 + heightLow)
    else pure (1, 1)
  else pure (1, 1)

def skipOverscan : StateT ExpGolomb Option Unit := do
  if ← readBool then do
    let _ ← readBool
    pure ()
  else pure ()

structure VideoSignalInfo where
  videoFullRangeFlag : Option Bool
  colourPrimaries : Option ℤ
  transferCharacteristics : Option ℤ
  matrixCoefficients : Option ℤ

def readVideoSignalType : StateT ExpGolomb Option VideoSignalInfo := do
  if ← readBool then do
    let _ ← readBits 3
    let videoFullRangeFlag ← readBool
    if ← readBool then do
      let colourPrimaries ← readByte
      let transferCharacteristics ← readByte
      let matrixCoefficients ← readByte
      pure ⟨some videoFullRangeFlag, some colourPrimaries, some transferCharacteristics,
        some matrixCoefficients⟩
    else pure ⟨some videoFullRangeFlag, none, none, none⟩
  else pure ⟨none, none, none, none⟩

def skipChromaLoc : StateT ExpGolomb Option Unit := do
  if ← readBool then do
    let _ ← readUEG
    let _ ← readUEG
    pure ()
  else pure ()

def readTiming : StateT ExpGolomb Option FrameRate := do
  if ← readBool then do
    let numUnitsInTick ← readBits 32
    let timeScale ← readBits 32
    let fixed ← readBool
    pure ⟨fixed, quotient timeScale (numUnitsInTick * 2), numUnitsInTick * 2, timeScale⟩
  else pure ⟨true, some 0, 0, 0⟩

structure VuiInfo where
  sarRatio : ℤ × ℤ
  signal : VideoSignalInfo
  frameRate : FrameRate

def readVui : StateT ExpGolomb Option VuiInfo := do
  if ← readBool then do
    let sarRatio ← readAspectRatio
    let _ ← skipOverscan
    let signal ← readVideoSignalType
    let _ ← skipChromaLoc
    let frameRate ← readTiming
    pure ⟨sarRatio, signal, frameRate⟩
  else pure ⟨(1, 1), ⟨none, none, none, none⟩, ⟨true, some 0, 0, 0⟩⟩

/-- `crop_unit_x` and `crop_unit_y`. -/
def cropUnit (chromaFormatIdc frameMbsOnlyFlag : ℤ) : ℤ × ℤ :=
  if chromaFormatIdc = 0 then (1, 2 - frameMbsOnlyFlag)
  else
    let subWc := if chromaFormatIdc = 3 then 1 else 2
    let subHc := if chromaFormatIdc = 1 then 2 else 1
    (subWc, subHc * (2 - frameMbsOnlyFlag))

def presentWidth (codecWidth : ℤ) (sarRatio : ℤ × ℤ) : Option ℤ :=
  if sarRatio.2 = 0 then none else some ⌈(codecWidth * (sarRatio.1 / sarRatio.2) : ℚ)⌉

def readSPS (codecMimetype : String) : StateT ExpGolomb Option SPSInfo := do
  let _ ← readByte
  let profileIdc ← readByte
  let _ ← readByte
  let levelIdc ← readByte
  let _ ← readUEG
  let chroma ← readChroma profileIdc
  let _ ← readUEG
  let _ ← skipPicOrderCnt
  let refFrames ← readUEG
  let _ ← readBits 1
  let picWidthInMbsMinus1 ← readUEG
  let picHeightInMapUnitsMinus1 ← readUEG
  let frameMbsOnlyFlag ← readBits 1
  let _ ← (if frameMbsOnlyFlag = 0 then readBits 1 else pure 0)
  let _ ← readBits 1
  let crop ← readFrameCropping
  let vui ← readVui
  let cropUnit := cropUnit chroma.chromaFormatIdc frameMbsOnlyFlag
  let codecWidth := (picWidthInMbsMinus1 + 1) * 16 - (crop.left + crop.right) * cropUnit.1
  let codecHeight := (2 - frameMbsOnlyFlag) * ((picHeightInMapUnitsMinus1 + 1) * 16) -
    (crop.top + crop.bottom) * cropUnit.2
  pure
    { codecMimetype := codecMimetype
      profileIdc := profileIdc
      levelIdc := levelIdc
      profileString := getProfileString profileIdc
      levelString := getLevelString levelIdc
      chromaFormatIdc := chroma.chromaFormatIdc
      bitDepth := chroma.bitDepthLuma
      bitDepthLuma := chroma.bitDepthLuma
      bitDepthChroma := chroma.bitDepthChroma
      refFrames := refFrames
      chromaFormat := chroma.chromaFormat
      chromaFormatString := getChromaFormatString chroma.chromaFormat
      frameMbsOnlyFlag := frameMbsOnlyFlag
      colourPrimaries := vui.signal.colourPrimaries
      transferCharacteristics := vui.signal.transferCharacteristics
      matrixCoefficients := vui.signal.matrixCoefficients
      videoFullRangeFlag := vui.signal.videoFullRangeFlag
      frameRate := vui.frameRate
      sarRatio := vui.sarRatio
      codecSize := (codecWidth, codecHeight)
      presentSize := (presentWidth codecWidth vui.sarRatio, codecHeight) }

/-- None when it throws. -/
def parseSPS (data : Bytes) : Option SPSInfo :=
  if data.length < 4 then none
  else
    let codecMimetype := "avc1." ++ String.join (((data.drop 1).take 3).map hexByte)
    ((readSPS codecMimetype).run (.ofBytes (ebsp2rbsp data))).map Prod.fst

end Apackage.Rtp2httpd.Player
