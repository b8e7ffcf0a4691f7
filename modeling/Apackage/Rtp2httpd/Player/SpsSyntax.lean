import Mathlib.Data.Rat.Defs
import Apackage.Lib.Stuffing
import Apackage.Rtp2httpd.Player.ExpGolomb

/-
  The sequence parameter set of H.264 (7.3.2.1.1, E.1.1).

  `Sps` is a set with the names and ranges of the standard, `nalUnit` its bytes: the fields in
  bits, the trailing bits, and an emulation prevention byte wherever two zeros come before a byte
  up to 3. `picture` is what it says of the pictures (7.4.2.1.1, tables 6-1 and E-1).

  The list of profiles with a chroma format has profile 144 too, which an edition of the standard
  had. The sizes in macroblocks and the cropping offsets are bounded by 2^31 - 1; any level allows
  1055 macroblocks at most. An unknown aspect ratio counts as 1:1. The fields behind the timing
  are any bits.
-/

namespace Apackage.Rtp2httpd.Player

open Lib.BitSyntax Lib.Stuffing

/-! ## The syntax -/

/-- The deltas of `scaling_list`: none is coded behind a scale of 0. -/
inductive ScalingDeltas : ℕ → ℤ → ℤ → List ℤ → Prop
  | done {lastScale nextScale : ℤ} : ScalingDeltas 0 lastScale nextScale []
  | kept {n : ℕ} {lastScale : ℤ} :
    ScalingDeltas n lastScale 0 [] → ScalingDeltas (n + 1) lastScale 0 []
  | coded {n : ℕ} {lastScale nextScale scale deltaScale : ℤ} {deltas : List ℤ} :
    nextScale ≠ 0 → -128 ≤ deltaScale → deltaScale ≤ 127 →
      scale = (lastScale + deltaScale + 256) % 256 →
      ScalingDeltas n (if scale = 0 then lastScale else scale) scale deltas →
      ScalingDeltas (n + 1) lastScale nextScale (deltaScale :: deltas)

/-- `seq_scaling_matrix`: the deltas of the lists that are present. -/
structure ScalingMatrix (count : ℕ) where
  lists : List (Option (List ℤ))
  length_lists : lists.length = count
  coded : ∀ i deltas, lists[i]? = some (some deltas) →
    ScalingDeltas (if i < 6 then 16 else 64) 8 8 deltas

/-- The fields that only some profiles have. -/
structure ChromaFields where
  chromaFormatIdc : Fin 4
  separateColourPlaneFlag : Bool
  bitDepthLumaMinus8 : Fin 7
  bitDepthChromaMinus8 : Fin 7
  qpprimeYZeroTransformBypassFlag : Bool
  scalingMatrix : Option (ScalingMatrix (if chromaFormatIdc ≠ 3 then 8 else 12))

inductive PicOrderCnt
  | type0 (log2MaxPicOrderCntLsbMinus4 : Fin 13)
  | type1 (deltaPicOrderAlwaysZeroFlag : Bool) (offsetForNonRefPic offsetForTopToBottomField : ℤ)
    (offsetForRefFrame : List ℤ)
  | type2

def PicOrderCnt.InRange : PicOrderCnt → Prop
  | .type1 _ offsetForNonRefPic offsetForTopToBottomField offsetForRefFrame =>
    offsetForRefFrame.length ≤ 255 ∧
      ∀ offset ∈ offsetForNonRefPic :: offsetForTopToBottomField :: offsetForRefFrame,
        -2 ^ 31 < offset ∧ offset < 2 ^ 31
  | _ => True

/-- A size or a cropping offset. -/
abbrev SpsSize := Fin (2 ^ 31 - 1)

structure FrameCrop where
  left : SpsSize
  right : SpsSize
  top : SpsSize
  bottom : SpsSize

inductive AspectRatio
  | idc (aspectRatioIdc : Fin 255)
  | extended (sarWidth sarHeight : Fin 65536)

structure ColourDescription where
  colourPrimaries : Fin 256
  transferCharacteristics : Fin 256
  matrixCoefficients : Fin 256

structure VideoSignalType where
  videoFormat : Fin 8
  videoFullRangeFlag : Bool
  colourDescription : Option ColourDescription

structure TimingInfo where
  numUnitsInTick : Fin (2 ^ 32)
  timeScale : Fin (2 ^ 32)
  fixedFrameRateFlag : Bool
  numUnitsInTick_pos : 0 < numUnitsInTick.val

structure Vui where
  aspectRatio : Option AspectRatio
  /-- `overscan_appropriate_flag`. -/
  overscan : Option Bool
  videoSignalType : Option VideoSignalType
  /-- `chroma_sample_loc_type` of the top and of the bottom field. -/
  chromaLoc : Option (Fin 6 × Fin 6)
  timing : Option TimingInfo
  /-- The HRD parameters and the bitstream restriction. -/
  later : List Bool

def chromaProfiles : List ℕ := [100, 110, 122, 244, 44, 83, 86, 118, 128, 138, 139, 134, 135, 144]

structure Sps where
  nalRefIdc : Fin 4
  profileIdc : Fin 256
  /-- `constraint_set0_flag` to `reserved_zero_2bits`. -/
  constraintSetFlags : Fin 256
  levelIdc : Fin 256
  seqParameterSetId : Fin 32
  chroma : Option ChromaFields
  chroma_iff : chroma.isSome = true ↔ profileIdc.val ∈ chromaProfiles
  log2MaxFrameNumMinus4 : Fin 13
  picOrderCnt : PicOrderCnt
  picOrderCnt_inRange : picOrderCnt.InRange
  maxNumRefFrames : Fin 17
  gapsInFrameNumValueAllowedFlag : Bool
  picWidthInMbsMinus1 : SpsSize
  picHeightInMapUnitsMinus1 : SpsSize
  frameMbsOnlyFlag : Bool
  mbAdaptiveFrameFieldFlag : Bool
  direct8x8InferenceFlag : Bool
  frameCrop : Option FrameCrop
  vui : Option Vui

/-! ## The bytes -/

def ScalingMatrix.bits {count : ℕ} (m : ScalingMatrix count) : List Bool :=
  m.lists.flatMap (flagged fun deltas => deltas.flatMap se)

def ChromaFields.bits (c : ChromaFields) : List Bool :=
  ue c.chromaFormatIdc ++ ((if c.chromaFormatIdc = 3 then [c.separateColourPlaneFlag] else []) ++
    (ue c.bitDepthLumaMinus8 ++ (ue c.bitDepthChromaMinus8 ++
      ([c.qpprimeYZeroTransformBypassFlag] ++ flagged ScalingMatrix.bits c.scalingMatrix))))

def PicOrderCnt.bits : PicOrderCnt → List Bool
  | .type0 log2MaxPicOrderCntLsbMinus4 => ue 0 ++ ue log2MaxPicOrderCntLsbMinus4
  | .type1 deltaPicOrderAlwaysZeroFlag offsetForNonRefPic offsetForTopToBottomField
      offsetForRefFrame =>
    ue 1 ++ ([deltaPicOrderAlwaysZeroFlag] ++ (se offsetForNonRefPic ++
      (se offsetForTopToBottomField ++ (ue offsetForRefFrame.length ++
        offsetForRefFrame.flatMap se))))
  | .type2 => ue 2

def FrameCrop.bits (c : FrameCrop) : List Bool :=
  ue c.left ++ (ue c.right ++ (ue c.top ++ ue c.bottom))

def AspectRatio.bits : AspectRatio → List Bool
  | .idc aspectRatioIdc => Lib.BitSyntax.bits 8 aspectRatioIdc
  | .extended sarWidth sarHeight =>
    Lib.BitSyntax.bits 8 255 ++ (Lib.BitSyntax.bits 16 sarWidth ++ Lib.BitSyntax.bits 16 sarHeight)

def ColourDescription.bits (c : ColourDescription) : List Bool :=
  Lib.BitSyntax.bits 8 c.colourPrimaries ++ (Lib.BitSyntax.bits 8 c.transferCharacteristics ++
    Lib.BitSyntax.bits 8 c.matrixCoefficients)

def VideoSignalType.bits (v : VideoSignalType) : List Bool :=
  Lib.BitSyntax.bits 3 v.videoFormat ++ ([v.videoFullRangeFlag] ++
    flagged ColourDescription.bits v.colourDescription)

def TimingInfo.bits (t : TimingInfo) : List Bool :=
  Lib.BitSyntax.bits 32 t.numUnitsInTick ++ (Lib.BitSyntax.bits 32 t.timeScale ++
    [t.fixedFrameRateFlag])

def Vui.bits (v : Vui) : List Bool :=
  flagged AspectRatio.bits v.aspectRatio ++ (flagged (fun overscan => [overscan]) v.overscan ++
    (flagged VideoSignalType.bits v.videoSignalType ++
      (flagged (fun loc => ue loc.1 ++ ue loc.2) v.chromaLoc ++ flagged TimingInfo.bits v.timing)))

namespace Sps

def bits (sps : Sps) : List Bool :=
  Lib.BitSyntax.bits 8 sps.profileIdc ++ (Lib.BitSyntax.bits 8 sps.constraintSetFlags ++
    (Lib.BitSyntax.bits 8 sps.levelIdc ++ (ue sps.seqParameterSetId ++
      ((sps.chroma.map ChromaFields.bits).getD [] ++ (ue sps.log2MaxFrameNumMinus4 ++
        (sps.picOrderCnt.bits ++ (ue sps.maxNumRefFrames ++
          ([sps.gapsInFrameNumValueAllowedFlag] ++ (ue sps.picWidthInMbsMinus1 ++
            (ue sps.picHeightInMapUnitsMinus1 ++ ([sps.frameMbsOnlyFlag] ++
              ((if sps.frameMbsOnlyFlag then [] else [sps.mbAdaptiveFrameFieldFlag]) ++
                ([sps.direct8x8InferenceFlag] ++ (flagged FrameCrop.bits sps.frameCrop ++
                  flagged Vui.bits sps.vui))))))))))))))

def later (sps : Sps) : List Bool := (sps.vui.map Vui.later).getD []

end Sps

/-- `rbsp_trailing_bits`: a one, and zeros up to the end of the byte. -/
def withTrailingBits (bs : List Bool) : List Bool :=
  bs ++ true :: List.replicate (7 - bs.length % 8) false

def packBytes : ℕ → List Bool → Bytes
  | 0, _ => []
  | n + 1, bs => UInt8.ofNat (value (bs.take 8)) :: packBytes n (bs.drop 8)

namespace Sps

def rbsp (sps : Sps) : Bytes :=
  let bs := withTrailingBits (sps.bits ++ sps.later)
  packBytes (bs.length / 8) bs

/-- `nal_ref_idc` and the type 7. -/
def nalHeader (sps : Sps) : UInt8 := UInt8.ofNat (32 * sps.nalRefIdc + 7)

def nalUnit (sps : Sps) : Bytes := sps.nalHeader :: stuff 0 3 (fun b => b ≤ 3) 0 sps.rbsp

end Sps

/-- A progressive set of 720 by 576, baseline profile. -/
def baselineSps (vui : Vui) : Sps where
  nalRefIdc := 3
  profileIdc := 66
  constraintSetFlags := 0
  levelIdc := 30
  seqParameterSetId := 0
  chroma := none
  chroma_iff := by decide
  log2MaxFrameNumMinus4 := 0
  picOrderCnt := .type2
  picOrderCnt_inRange := trivial
  maxNumRefFrames := 1
  gapsInFrameNumValueAllowedFlag := false
  picWidthInMbsMinus1 := ⟨44, by decide⟩
  picHeightInMapUnitsMinus1 := ⟨35, by decide⟩
  frameMbsOnlyFlag := true
  mbAdaptiveFrameFieldFlag := false
  direct8x8InferenceFlag := true
  frameCrop := none
  vui := some vui

/-- The same set with the profile 134. -/
def highSps : Sps :=
  { baselineSps ⟨none, none, none, none, none, []⟩ with
    profileIdc := 134
    chroma := some ⟨1, false, 0, 0, false, none⟩
    chroma_iff := by decide }

/-! ## What it says -/

structure FrameRate where
  fixed : Bool
  /-- None for infinity and NaN. -/
  fps : Option ℚ
  fpsDen : ℤ
  fpsNum : ℤ
  deriving DecidableEq

/-- What a parameter set says of the pictures. -/
structure Picture where
  profileIdc : ℤ
  levelIdc : ℤ
  chromaFormatIdc : ℤ
  chromaFormat : Option ℕ
  bitDepthLuma : ℤ
  bitDepthChroma : ℤ
  frameMbsOnlyFlag : ℤ
  codecSize : ℤ × ℤ
  sarRatio : ℤ × ℤ
  colourPrimaries : Option ℤ
  transferCharacteristics : Option ℤ
  matrixCoefficients : Option ℤ
  videoFullRangeFlag : Option Bool
  frameRate : FrameRate
  deriving DecidableEq

/-- Table E-1, from 1 on. -/
def tableE1 : List (ℤ × ℤ) :=
  [(1, 1), (12, 11), (10, 11), (16, 11), (40, 33), (24, 11), (20, 11), (32, 11), (80, 33), (18, 11),
    (15, 11), (64, 33), (160, 99), (4, 3), (3, 2), (2, 1)]

def AspectRatio.ratio : AspectRatio → ℤ × ℤ
  | .idc aspectRatioIdc =>
    if aspectRatioIdc.val = 0 then (1, 1) else tableE1.getD (aspectRatioIdc.val - 1) (1, 1)
  | .extended sarWidth sarHeight =>
    if sarWidth.val = 0 ∨ sarHeight.val = 0 then (1, 1) else (sarWidth.val, sarHeight.val)

/-- The frame rate of an unknown timing. -/
def FrameRate.unknown : FrameRate := ⟨true, some 0, 0, 0⟩

def quotient (num den : ℤ) : Option ℚ := if den = 0 then none else some (num / den)

def TimingInfo.frameRate (t : TimingInfo) : FrameRate :=
  ⟨t.fixedFrameRateFlag, quotient t.timeScale.val (t.numUnitsInTick.val * 2),
    t.numUnitsInTick.val * 2, t.timeScale.val⟩

namespace Sps

/-- 4:2:0 unless it is stated. -/
def chromaFormatIdc (sps : Sps) : ℕ := (sps.chroma.map fun c => c.chromaFormatIdc.val).getD 1

def chromaArrayType (sps : Sps) : ℕ :=
  if sps.chroma.any (·.separateColourPlaneFlag) && sps.chromaFormatIdc = 3 then 0
  else sps.chromaFormatIdc

/-- `SubWidthC` and `SubHeightC`, table 6-1. -/
def subsampling (chromaArrayType : ℕ) : ℤ × ℤ :=
  if chromaArrayType = 1 then (2, 2) else if chromaArrayType = 2 then (2, 1) else (1, 1)

/-- `frame_mbs_only_flag` as a number. -/
def frameMbsOnly (sps : Sps) : ℤ := if sps.frameMbsOnlyFlag then 1 else 0

def width (sps : Sps) : ℤ :=
  16 * (sps.picWidthInMbsMinus1.val + 1) -
    (subsampling sps.chromaArrayType).1 *
      (sps.frameCrop.map fun c => (c.left.val : ℤ) + c.right.val).getD 0

def height (sps : Sps) : ℤ :=
  (2 - sps.frameMbsOnly) * (16 * (sps.picHeightInMapUnitsMinus1.val + 1)) -
    (subsampling sps.chromaArrayType).2 * (2 - sps.frameMbsOnly) *
      (sps.frameCrop.map fun c => (c.top.val : ℤ) + c.bottom.val).getD 0

def videoSignalType (sps : Sps) : Option VideoSignalType := sps.vui.bind Vui.videoSignalType

def colour (sps : Sps) : Option ColourDescription :=
  sps.videoSignalType.bind VideoSignalType.colourDescription

def picture (sps : Sps) : Picture where
  profileIdc := sps.profileIdc.val
  levelIdc := sps.levelIdc.val
  chromaFormatIdc := sps.chromaFormatIdc
  chromaFormat := [0, 420, 422, 444][sps.chromaFormatIdc]?
  bitDepthLuma := 8 + (sps.chroma.map fun c => (c.bitDepthLumaMinus8.val : ℤ)).getD 0
  bitDepthChroma := 8 + (sps.chroma.map fun c => (c.bitDepthChromaMinus8.val : ℤ)).getD 0
  frameMbsOnlyFlag := sps.frameMbsOnly
  codecSize := (sps.width, sps.height)
  sarRatio := ((sps.vui.bind Vui.aspectRatio).map AspectRatio.ratio).getD (1, 1)
  colourPrimaries := sps.colour.map fun c => (c.colourPrimaries.val : ℤ)
  transferCharacteristics := sps.colour.map fun c => (c.transferCharacteristics.val : ℤ)
  matrixCoefficients := sps.colour.map fun c => (c.matrixCoefficients.val : ℤ)
  videoFullRangeFlag := sps.videoSignalType.map VideoSignalType.videoFullRangeFlag
  frameRate := ((sps.vui.bind Vui.timing).map TimingInfo.frameRate).getD .unknown

end Sps

end Apackage.Rtp2httpd.Player
