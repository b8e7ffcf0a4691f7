import Mathlib.Tactic.IntervalCases
import Apackage.Rtp2httpd.Player.SpsParser

/-
  What `parseSPS` makes of a sequence parameter set (`sps-parser.ts`).

  The fields are read one by one as they were written. For the profiles that the parser takes for
  what they are, it returns the picture of the set, up to the aspect ratio and the timing
  (`parseSPS_nalUnit`), and the exact picture where these are within what it knows.
-/

namespace Apackage.Rtp2httpd.Player

open List Option Lib.BitSyntax Lib.Stuffing ExpGolomb

/-! ## Fields -/

variable (b : Bool)

theorem reads_bit : Reads view (readBits 1) [b] b.toNat := by
  have hone := @reads_readBits 1 (by decide) (by decide) b.toNat b.toNat_lt
  cases b with
  | false => exact hone
  | true => exact hone

theorem reads_flag : Reads view readBool [b] b := by
  refine Takes.bind_pure (reads_bit b) fun x hx => ?_
  rw [hx]
  cases b with
  | false => rfl
  | true => rfl

theorem takes_flag : Takes view (readBits 1) [b] fun _ => True :=
  Takes.mono (fun _ _ => trivial) (reads_bit b)

theorem reads_byte (v : Fin 256) : Reads view readByte (bits 8 v) v.val :=
  reads_readBits (by decide) (by decide) v.isLt

theorem reads_ue {v : ℕ} (h : v + 1 < 2 ^ 31) : Reads view readUEG (ue v) v :=
  Takes.mono (fun _ hx => hx h) (takes_readUEG (by omega))

theorem reads_size (v : SpsSize) : Reads view readUEG (ue v) v.val :=
  reads_ue (by have hlt := v.isLt; omega)

theorem takes_se {k : ℤ} (hlo : -2 ^ 31 < k) (hhi : k < 2 ^ 31) :
    Takes view readSEG (se k) fun _ => True :=
  Takes.mono (fun _ _ => trivial) (takes_readSEG hlo hhi)

/-! ## Scaling lists -/

theorem takes_scalingList {n : ℕ} {lastScale nextScale : ℤ} {deltas : List ℤ}
    (h : ScalingDeltas n lastScale nextScale deltas) (hlast : 0 ≤ lastScale) :
    Takes view (skipScalingListFrom n lastScale nextScale) (deltas.flatMap se) fun _ => True := by
  induction h with
  | done => exact Takes.mono (fun _ _ => trivial) (Reads.pure ())
  | @kept n lastScale _ ih =>
    tauto
  | @coded n lastScale nextScale scale deltaScale deltas hne hlo hhi hscale _ ih =>
    have hmod : (lastScale + deltaScale + 256).tmod 256 = scale := by
      rw [hscale]
      exact Int.tmod_eq_emod_of_nonneg (by omega)
    have hdelta : Reads view readSEG (se deltaScale) deltaScale :=
      Takes.mono (fun _ hx => hx (by omega) (by omega)) (takes_readSEG (by omega) (by omega))
    have hnext : Reads view (if nextScale ≠ 0 then do
        let deltaScale ← readSEG
        pure ((lastScale + deltaScale + 256).tmod 256)
      else pure nextScale) (se deltaScale) scale := by
      rw [if_pos hne, ← hmod]
      exact hdelta.bind_pure fun deltaScale => (lastScale + deltaScale + 256).tmod 256
    refine Reads.next hnext (ih ?_)
    split_ifs
    · exact hlast
    · omega

theorem takes_scalingMatrix {chromaFormatIdc : ℤ} {count : ℕ}
    (hcount : count = if chromaFormatIdc ≠ 3 then 8 else 12) (m : Option (ScalingMatrix count)) :
    Takes view (readScalingMatrix chromaFormatIdc) (flagged ScalingMatrix.bits m)
      fun _ => True := by
  refine Takes.flagged reads_flag (fun m _ => ?_)
    fun _ => Takes.mono (fun _ _ => trivial) (Reads.pure ())
  obtain ⟨lists, hlength, hcoded⟩ := m
  subst hlength
  rw [← hcount]
  refine takes_countUp fun i list hlist => ?_
  refine Takes.flagged reads_flag (fun deltas hdeltas => ?_)
    fun _ => Takes.mono (fun _ _ => trivial) (Reads.pure ())
  rw [Nat.zero_add]
  exact takes_scalingList (hcoded i deltas (by rw [hlist, hdeltas])) (by decide)

/-! ## The groups of fields -/

/-- What is known of the chroma format, 4:2:0 in eight bits if nothing is stated. -/
def ChromaFields.info (c : Option ChromaFields) : ChromaInfo :=
  (c.map fun c => ⟨c.chromaFormatIdc.val, [0, 420, 422, 444][c.chromaFormatIdc.val]?,
    c.bitDepthLumaMinus8.val + 8, c.bitDepthChromaMinus8.val + 8⟩).getD ⟨1, some 420, 8, 8⟩

theorem reads_chromaFields (c : ChromaFields) {profileIdc : ℤ}
    (h : profileIdc ∈ [100, 110, 122, 244, 44, 83, 86, 118, 128, 138, 144]) :
    Reads view (readChroma profileIdc) c.bits (ChromaFields.info (some c)) := by
  have hthree : ((c.chromaFormatIdc.val : ℕ) : ℤ) = 3 ↔ c.chromaFormatIdc = 3 := by
    omega
  have hformat : chromaFormatOf c.chromaFormatIdc.val =
      [0, 420, 422, 444][c.chromaFormatIdc.val]? := by
    rw [chromaFormatOf, if_pos (by omega), if_pos (by omega), Int.toNat_natCast]
  have hplane : Takes view (if (c.chromaFormatIdc.val : ℤ) = 3 then readBits 1 else pure 0)
      (if c.chromaFormatIdc = 3 then [c.separateColourPlaneFlag] else []) fun _ => True := by
    by_cases hcolour : c.chromaFormatIdc = 3
    · rw [if_pos (hthree.2 hcolour), if_pos hcolour]
      exact takes_flag _
    · rw [if_neg (fun heq => hcolour (hthree.1 heq)), if_neg hcolour]
      exact Takes.mono (fun _ _ => trivial) (Reads.pure 0)
  rw [readChroma, if_pos h, ChromaFields.bits]
  refine Reads.bind (reads_ue (by omega)) ?_
  refine Takes.skip hplane fun _ => ?_
  refine Reads.bind (reads_ue (by have hlt := c.bitDepthLumaMinus8.isLt; omega)) ?_
  refine Reads.bind (reads_ue (by have hlt := c.bitDepthChromaMinus8.isLt; omega)) ?_
  refine Takes.skip (takes_flag _) fun _ => ?_
  refine Takes.bind_pure (takes_scalingMatrix ?_ c.scalingMatrix) fun _ _ => ?_
  · simp only [ne_eq, hthree]
  · rw [hformat]
    rfl

theorem takes_picOrderCnt {p : PicOrderCnt} (h : p.InRange) :
    Takes view skipPicOrderCnt p.bits fun _ => True := by
  cases p with
  | type0 lsb =>
    refine Takes.bind (reads_ue (by decide)) fun x hx => ?_
    rw [hx, if_pos (by decide)]
    exact Takes.bind_pure (reads_ue (by have hlt := lsb.isLt; omega)) fun _ _ => trivial
  | type1 zero nonRef topToBottom offsets =>
    obtain ⟨hcount, hrange⟩ := h
    have hoffset : ∀ offset ∈ nonRef :: topToBottom :: offsets,
        Takes view readSEG (se offset) fun _ => True :=
      fun offset hmem => takes_se (hrange offset hmem).1 (hrange offset hmem).2
    refine Takes.bind (reads_ue (by decide)) fun x hx => ?_
    rw [hx, if_neg (by decide), if_pos (by decide)]
    refine Takes.bind (takes_flag zero) fun _ _ => ?_
    refine Takes.bind (hoffset nonRef (by simp)) fun _ _ => ?_
    refine Takes.bind (hoffset topToBottom (by simp)) fun _ _ => ?_
    refine Takes.bind (reads_ue (by omega)) fun n hn => ?_
    rw [hn, Int.toNat_natCast]
    refine takes_countUp fun i offset hmem => hoffset offset ?_
    exact mem_cons_of_mem _ (mem_cons_of_mem _ (mem_of_getElem? hmem))
  | type2 =>
    rw [← append_nil (PicOrderCnt.bits _)]
    refine Takes.bind (reads_ue (by decide)) fun x hx => ?_
    rw [hx, if_neg (by decide), if_neg (by decide)]
    exact Takes.mono (fun _ _ => trivial) (Reads.pure ())

def FrameCrop.info (c : Option FrameCrop) : CropInfo :=
  (c.map fun c => ⟨c.left.val, c.right.val, c.top.val, c.bottom.val⟩).getD ⟨0, 0, 0, 0⟩

theorem reads_frameCropping (c : Option FrameCrop) :
    Reads view readFrameCropping (flagged FrameCrop.bits c) (FrameCrop.info c) := by
  refine Takes.flagged reads_flag (fun c' hc => ?_) fun hc => ?_
  · rw [hc]
    refine Reads.bind (reads_size c'.left) ?_
    refine Reads.bind (reads_size c'.right) ?_
    refine Reads.bind (reads_size c'.top) ?_
    exact (reads_size c'.bottom).bind_pure fun bottom =>
      (⟨c'.left.val, c'.right.val, c'.top.val, bottom⟩ : CropInfo)
  · rw [hc]
    exact Reads.pure _

/-! ## The video usability information -/

def AspectRatio.taken : AspectRatio → ℤ × ℤ
  | .idc aspectRatioIdc =>
    if 0 < aspectRatioIdc.val ∧ aspectRatioIdc.val < 16 then
      (sarWTable.getD (aspectRatioIdc.val - 1) 0, sarHTable.getD (aspectRatioIdc.val - 1) 0)
    else (1, 1)
  | .extended sarWidth sarHeight => (sarWidth.val, sarHeight.val)

theorem bits_sixteen (v : Fin 65536) :
    bits 16 v = bits 8 (v.val / 256) ++ bits 8 (v.val % 256) := by
  rw [bits_add 8 8]
  exact congrArg _ (bits_mod 8 v).symm

theorem reads_sixteen {β : Type} {f : ℤ → StateT ExpGolomb Option β} {bs : List Bool} {b : β}
    (v : Fin 65536) (h : Reads view (f v.val) bs b) :
    Reads view (do
      let high ← readByte
      let low ← readByte
      f (high * 256 + low)) (bits 16 v ++ bs) b := by
  have hvalue : ((v.val / 256 : ℕ) : ℤ) * 256 + (v.val % 256 : ℕ) = v.val := by omega
  rw [bits_sixteen, append_assoc]
  refine Reads.bind (reads_byte ⟨v.val / 256, by omega⟩) ?_
  refine Reads.bind (reads_byte ⟨v.val % 256, by omega⟩) ?_
  rw [hvalue]
  exact h

theorem reads_aspectRatio (a : Option AspectRatio) :
    Reads view readAspectRatio (flagged AspectRatio.bits a)
      ((a.map AspectRatio.taken).getD (1, 1)) := by
  refine Takes.flagged reads_flag (fun a' ha => ?_) fun ha => ?_
  · rw [ha, map_some, getD_some]
    cases a' with
    | idc aspectRatioIdc =>
      rw [← append_nil (AspectRatio.bits _)]
      refine Takes.bind (reads_byte ⟨aspectRatioIdc.val, by omega⟩) fun x hx => ?_
      obtain rfl : x = aspectRatioIdc.val := hx
      rw [AspectRatio.taken]
      by_cases hknown : 0 < aspectRatioIdc.val ∧ aspectRatioIdc.val < 16
      · rw [if_pos hknown, if_pos (by omega),
          show ((aspectRatioIdc.val : ℤ) - 1).toNat = aspectRatioIdc.val - 1 from by omega]
        exact Reads.pure _
      · rw [if_neg hknown, if_neg (by omega), if_neg (by omega)]
        exact Reads.pure _
    | extended sarWidth sarHeight =>
      refine Reads.bind (reads_byte 255) ?_
      rw [if_neg (by decide), if_pos (by decide)]
      refine reads_sixteen (f := fun width => do
        let heightHigh ← readByte
        let heightLow ← readByte
        pure (width, heightHigh * 256 + heightLow)) sarWidth ?_
      have hheight := reads_sixteen (f := fun height => pure ((sarWidth.val : ℤ), height)) sarHeight
        (Reads.pure _)
      rwa [append_nil] at hheight
  · rw [ha]
    exact Reads.pure _

theorem takes_overscan (o : Option Bool) :
    Takes view skipOverscan (flagged (fun overscan => [overscan]) o) fun _ => True := by
  refine Takes.flagged reads_flag (fun b _ => ?_)
    fun _ => Takes.mono (fun _ _ => trivial) (Reads.pure ())
  exact Takes.bind_pure (reads_flag b) fun _ _ => trivial

def VideoSignalType.info (v : Option VideoSignalType) : VideoSignalInfo where
  videoFullRangeFlag := v.map VideoSignalType.videoFullRangeFlag
  colourPrimaries := (v.bind colourDescription).map fun c => (c.colourPrimaries.val : ℤ)
  transferCharacteristics :=
    (v.bind colourDescription).map fun c => (c.transferCharacteristics.val : ℤ)
  matrixCoefficients := (v.bind colourDescription).map fun c => (c.matrixCoefficients.val : ℤ)

theorem reads_videoSignalType (v : Option VideoSignalType) :
    Reads view readVideoSignalType (flagged VideoSignalType.bits v) (VideoSignalType.info v) := by
  refine Takes.flagged reads_flag (fun v' hv => ?_) fun hv => ?_
  · obtain ⟨videoFormat, fullRange, colour⟩ := v'
    rw [hv, VideoSignalType.bits]
    refine Takes.skip (reads_readBits (by decide) (by decide) videoFormat.isLt) fun _ => ?_
    refine Reads.bind (reads_flag fullRange) ?_
    refine Takes.flagged (o := colour) reads_flag (fun c hc => ?_) fun hc => ?_
    · subst hc
      refine Reads.bind (reads_byte c.colourPrimaries) ?_
      refine Reads.bind (reads_byte c.transferCharacteristics) ?_
      exact (reads_byte c.matrixCoefficients).bind_pure fun matrix =>
        (⟨some fullRange, some c.colourPrimaries.val, some c.transferCharacteristics.val,
          some matrix⟩ : VideoSignalInfo)
    · subst hc
      exact Reads.pure _
  · rw [hv]
    exact Reads.pure _

theorem takes_chromaLoc (loc : Option (Fin 6 × Fin 6)) :
    Takes view skipChromaLoc (flagged (fun loc => ue loc.1 ++ ue loc.2) loc) fun _ => True := by
  refine Takes.flagged reads_flag (fun l _ => ?_)
    fun _ => Takes.mono (fun _ _ => trivial) (Reads.pure ())
  refine Takes.bind (reads_ue (by have hlt := l.1.isLt; omega)) fun _ _ => ?_
  exact Takes.bind_pure (reads_ue (by have hlt := l.2.isLt; omega)) fun _ _ => trivial

/-! ## The timing -/

/-- A field of 32 bits as a signed number. -/
def signed32 (v : ℕ) : ℤ := if v < 2 ^ 31 then v else v - 2 ^ 32

/-- The timing as it is read. -/
def TimingInfo.taken (t : TimingInfo) : FrameRate :=
  ⟨t.fixedFrameRateFlag, quotient (signed32 t.timeScale) (signed32 t.numUnitsInTick * 2),
    signed32 t.numUnitsInTick * 2, signed32 t.timeScale⟩

theorem signed_range (x : UInt32) : -2 ^ 31 ≤ signed x ∧ signed x < 2 ^ 31 := by
  have hlt := x.toNat_lt
  rw [signed_eq]
  split_ifs <;> omega

theorem readBits_left {n : ℕ} (hpos : 0 < n) {gb gb' : ExpGolomb} {x : ℤ}
    (h : readBits n gb = some (x, gb')) : gb'.currentWordBitsLeft < 32 := by
  have hle := gb.bitsLeft_le
  rw [readBits] at h
  by_cases hlong : 32 < n
  · rw [if_pos hlong] at h
    cases h
  rw [if_neg hlong] at h
  by_cases hword : n ≤ gb.currentWordBitsLeft
  · rw [if_pos hword] at h
    obtain ⟨-, rfl⟩ := Prod.mk.inj (some.inj h)
    rw [shift_bitsLeft]
    omega
  · rw [if_neg hword] at h
    obtain ⟨gb₁, -, hread⟩ := map_eq_some_iff.1 h
    obtain ⟨-, rfl⟩ := Prod.mk.inj hread
    have hle₁ := gb₁.bitsLeft_le
    rw [shift_bitsLeft]
    omega

variable (v : Fin (2 ^ 32))

theorem readBits_signed {gb : ExpGolomb} {rest : List Bool} (hleft : gb.currentWordBitsLeft < 32)
    (hview : gb.view = bits 32 v ++ rest) :
    ∃ gb', readBits 32 gb = some (signed32 v, gb') ∧ gb'.view = rest ∧
      gb'.currentWordBitsLeft < 32 := by
  obtain ⟨x, gb', hrun, hrest, hx⟩ :=
    readBits_spec (by decide) (by decide) (length_bits 32 v.val) hview
  have hrange : -2 ^ 31 ≤ x ∧ x < 2 ^ 31 := by
    have hread := hrun
    rw [readBits, if_neg (by decide), if_neg (by omega)] at hread
    obtain ⟨gb₁, -, hpair⟩ := map_eq_some_iff.1 hread
    rw [← (Prod.mk.inj hpair).1]
    exact signed_range _
  have hvalue : x = signed32 v := by
    rw [value_bits_of_lt v.isLt] at hx
    rw [signed32]
    split_ifs <;> omega
  rw [← hvalue]
  exact ⟨gb', hrun, hrest, readBits_left (by decide) hrun⟩

theorem reads_timing (t : Option TimingInfo) : Reads view readTiming (flagged TimingInfo.bits t)
      ((t.map TimingInfo.taken).getD .unknown) := by
  cases t with
  | none => exact Reads.bind (reads_flag false) (Reads.pure _)
  | some t =>
    intro gb rest hview
    obtain ⟨x, gb₁, hrun₁, hview₁, rfl⟩ := reads_bit true gb (t.bits ++ rest) hview
    have hflag : readBool gb = some (true, gb₁) := bind_run hrun₁
    rw [TimingInfo.bits, append_assoc, append_assoc] at hview₁
    obtain ⟨gb₂, hrun₂, hview₂, hleft₂⟩ :=
      readBits_signed t.numUnitsInTick (readBits_left (by decide) hrun₁) hview₁
    obtain ⟨gb₃, hrun₃, hview₃, -⟩ := readBits_signed t.timeScale hleft₂ hview₂
    obtain ⟨fixed, gb₄, hrun₄, hview₄, rfl⟩ := reads_flag t.fixedFrameRateFlag gb₃ rest hview₃
    refine ⟨_, gb₄, ?_, hview₄, rfl⟩
    rw [readTiming, bind_run hflag, if_pos rfl, bind_run hrun₂, bind_run hrun₃, bind_run hrun₄]
    rfl

/-! ## The whole set -/

def Vui.info (v : Option Vui) : VuiInfo where
  sarRatio := ((v.bind Vui.aspectRatio).map AspectRatio.taken).getD (1, 1)
  signal := VideoSignalType.info (v.bind Vui.videoSignalType)
  frameRate := ((v.bind Vui.timing).map TimingInfo.taken).getD .unknown

theorem reads_vui (v : Option Vui) : Reads view readVui (flagged Vui.bits v) (Vui.info v) := by
  refine Takes.flagged reads_flag (fun v' hv => ?_) fun hv => ?_
  · rw [hv]
    refine Reads.bind (reads_aspectRatio v'.aspectRatio) ?_
    refine Takes.skip (takes_overscan v'.overscan) fun _ => ?_
    refine Reads.bind (reads_videoSignalType v'.videoSignalType) ?_
    refine Takes.skip (takes_chromaLoc v'.chromaLoc) fun _ => ?_
    exact (reads_timing v'.timing).bind_pure _
  · rw [hv]
    exact Reads.pure _

/-- The profiles whose chroma format is not read. -/
def missedProfiles : List ℕ := [134, 135, 139]

variable (sps : Sps)

theorem reads_chroma (h : sps.profileIdc.val ∉ missedProfiles) :
    Reads view (readChroma sps.profileIdc.val) ((sps.chroma.map ChromaFields.bits).getD [])
      (ChromaFields.info sps.chroma) := by
  have hprofile := sps.chroma_iff
  simp only [missedProfiles, List.mem_cons, not_mem_nil, or_false] at h
  simp only [chromaProfiles, List.mem_cons, not_mem_nil, or_false] at hprofile
  cases hchroma : sps.chroma with
  | none =>
    rw [hchroma, isSome_none] at hprofile
    have hnot := mt hprofile.2 Bool.false_ne_true
    rw [readChroma, if_neg]
    · exact Reads.pure _
    · simp only [List.mem_cons, not_mem_nil, or_false]
      omega
  | some c =>
    rw [hchroma, isSome_some] at hprofile
    have hmem := hprofile.1 rfl
    refine reads_chromaFields c ?_
    simp only [List.mem_cons, not_mem_nil, or_false]
    omega

def SPSInfo.picture (info : SPSInfo) : Picture where
  profileIdc := info.profileIdc
  levelIdc := info.levelIdc
  chromaFormatIdc := info.chromaFormatIdc
  chromaFormat := info.chromaFormat
  bitDepthLuma := info.bitDepthLuma
  bitDepthChroma := info.bitDepthChroma
  frameMbsOnlyFlag := info.frameMbsOnlyFlag
  codecSize := info.codecSize
  sarRatio := info.sarRatio
  colourPrimaries := info.colourPrimaries
  transferCharacteristics := info.transferCharacteristics
  matrixCoefficients := info.matrixCoefficients
  videoFullRangeFlag := info.videoFullRangeFlag
  frameRate := info.frameRate

/-- The picture as it is read. -/
def Sps.taken (sps : Sps) : Picture :=
  { sps.picture with
    sarRatio := (Vui.info sps.vui).sarRatio
    frameRate := (Vui.info sps.vui).frameRate }

theorem cropUnit_eq (f : ℤ) : cropUnit sps.chromaFormatIdc f =
      ((Sps.subsampling sps.chromaArrayType).1,
        (Sps.subsampling sps.chromaArrayType).2 * (2 - f)) := by
  have hidc : sps.chromaFormatIdc ≤ 3 := by
    rw [Sps.chromaFormatIdc]
    cases sps.chroma with
    | none => decide
    | some c => exact Nat.le_of_lt_succ c.chromaFormatIdc.isLt
  rw [Sps.chromaArrayType, cropUnit]
  generalize sps.chroma.any (·.separateColourPlaneFlag) = separate
  generalize sps.chromaFormatIdc = idc at hidc
  interval_cases idc <;> cases separate <;> simp [Sps.subsampling]

theorem chroma_info : ChromaFields.info sps.chroma =
      ⟨sps.picture.chromaFormatIdc, sps.picture.chromaFormat, sps.picture.bitDepthLuma,
        sps.picture.bitDepthChroma⟩ := by
  simp only [Sps.picture, Sps.chromaFormatIdc]
  cases sps.chroma with
  | none => rfl
  | some c => simp only [ChromaFields.info, map_some, getD_some, Int.add_comm]

theorem frameMbsOnly_eq : (sps.frameMbsOnlyFlag.toNat : ℤ) = sps.frameMbsOnly := by
  rw [Sps.frameMbsOnly]
  cases sps.frameMbsOnlyFlag <;> rfl

theorem frameCrop_info :
    (FrameCrop.info sps.frameCrop).left + (FrameCrop.info sps.frameCrop).right =
        (sps.frameCrop.map fun c => (c.left.val : ℤ) + c.right.val).getD 0 ∧
      (FrameCrop.info sps.frameCrop).top + (FrameCrop.info sps.frameCrop).bottom =
        (sps.frameCrop.map fun c => (c.top.val : ℤ) + c.bottom.val).getD 0 := by
  cases sps.frameCrop with
  | none => exact ⟨rfl, rfl⟩
  | some c => exact ⟨rfl, rfl⟩

theorem codecSize_eq : ((sps.picWidthInMbsMinus1.val + 1 : ℤ) * 16 -
        (sps.frameCrop.map fun c => (c.left.val : ℤ) + c.right.val).getD 0 *
          (cropUnit sps.chromaFormatIdc sps.frameMbsOnly).1,
      (2 - sps.frameMbsOnly) * ((sps.picHeightInMapUnitsMinus1.val + 1) * 16) -
        (sps.frameCrop.map fun c => (c.top.val : ℤ) + c.bottom.val).getD 0 *
          (cropUnit sps.chromaFormatIdc sps.frameMbsOnly).2) = (sps.width, sps.height) := by
  rw [cropUnit_eq, Sps.width, Sps.height]
  refine Prod.ext ?_ ?_
  · ring
  · ring

theorem takes_sps (h : sps.profileIdc.val ∉ missedProfiles) (header : Fin 256)
    (codecMimetype : String) :
    Takes view (readSPS codecMimetype) (bits 8 header ++ sps.bits)
      fun info => info.picture = sps.taken := by
  have hadaptive : Takes view
      (if (sps.frameMbsOnlyFlag.toNat : ℤ) = 0 then readBits 1 else pure 0)
      (if sps.frameMbsOnlyFlag then [] else [sps.mbAdaptiveFrameFieldFlag]) fun _ => True := by
    cases sps.frameMbsOnlyFlag with
    | false => exact takes_flag _
    | true => exact Takes.mono (fun _ _ => trivial) (Reads.pure 0)
  refine Reads.next (reads_byte header) ?_
  refine Reads.next (reads_byte sps.profileIdc) ?_
  refine Reads.next (reads_byte sps.constraintSetFlags) ?_
  refine Reads.next (reads_byte sps.levelIdc) ?_
  refine Reads.next (reads_ue (by have hlt := sps.seqParameterSetId.isLt; omega)) ?_
  refine Reads.next (reads_chroma sps h) ?_
  refine Reads.next (reads_ue (by have hlt := sps.log2MaxFrameNumMinus4.isLt; omega)) ?_
  refine Takes.bind (takes_picOrderCnt sps.picOrderCnt_inRange) fun _ _ => ?_
  refine Reads.next (reads_ue (by have hlt := sps.maxNumRefFrames.isLt; omega)) ?_
  refine Takes.bind (takes_flag _) fun _ _ => ?_
  refine Reads.next (reads_size sps.picWidthInMbsMinus1) ?_
  refine Reads.next (reads_size sps.picHeightInMapUnitsMinus1) ?_
  refine Reads.next (reads_bit sps.frameMbsOnlyFlag) ?_
  refine Takes.bind hadaptive fun _ _ => ?_
  refine Takes.bind (takes_flag _) fun _ _ => ?_
  refine Reads.next (reads_frameCropping sps.frameCrop) ?_
  refine Takes.bind_pure (reads_vui sps.vui) fun vui hvui => ?_
  simp only [hvui, SPSInfo.picture, chroma_info, frameMbsOnly_eq, (frameCrop_info sps).1,
    (frameCrop_info sps).2, Sps.taken]
  exact congrArg (fun size => { sps.taken with codecSize := size }) (codecSize_eq sps)

/-! ## The bytes -/

theorem bytesBits_packBytes {n : ℕ} {bs : List Bool} (h : bs.length = 8 * n) :
    bytesBits (packBytes n bs) = bs := by
  induction n generalizing bs with
  | zero => exact (eq_nil_of_length_eq_zero h).symm
  | succ n ih =>
    have hlen : (bs.take 8).length = 8 := length_take_of_le (by omega)
    have hlt := value_lt (bs.take 8)
    rw [hlen] at hlt
    have hbyte : bits 8 (UInt8.ofNat (value (bs.take 8))).toNat = bs.take 8 := by
      have hvalue := bits_value (bs.take 8)
      rw [hlen] at hvalue
      rw [UInt8.toNat_ofNat_of_lt' hlt, hvalue]
    have hrest := @ih (bs.drop 8) (by rw [length_drop]; omega)
    calc bytesBits (packBytes (n + 1) bs)
        = bits 8 (UInt8.ofNat (value (bs.take 8))).toNat ++ bytesBits (packBytes n (bs.drop 8)) :=
          rfl
      _ = bs.take 8 ++ bs.drop 8 := by rw [hbyte, hrest]
      _ = bs := take_append_drop 8 bs

theorem length_withTrailingBits (bs : List Bool) : (withTrailingBits bs).length % 8 = 0 := by
  rw [withTrailingBits, length_append, length_cons, length_replicate]
  omega

theorem Sps.bytesBits_rbsp : bytesBits sps.rbsp = withTrailingBits (sps.bits ++ sps.later) := by
  refine bytesBits_packBytes ?_
  have hlen := length_withTrailingBits (sps.bits ++ sps.later)
  omega

theorem ebsp2rbsp_behind (front src : Bytes) :
    ((List.range' front.length src.length).filterMap fun i =>
      if 2 ≤ i ∧ (front ++ src)[i]? = some 0x03 ∧ (front ++ src)[i - 1]? = some 0x00 ∧
          (front ++ src)[i - 2]? = some 0x00 then none
      else (front ++ src)[i]?) =
      unstuff 0 3 (if 2 ≤ front.length then front[front.length - 2]? else none)
        front[front.length - 1]? src := by
  induction src generalizing front with
  | nil => rfl
  | cons b src ih =>
    have hnext := ih (front ++ [b])
    rw [append_assoc, singleton_append, length_append, length_singleton,
      Nat.add_sub_cancel] at hnext
    have hb : (front ++ b :: src)[front.length]? = some b := by simp
    have hlast : (if 2 ≤ front.length + 1 then (front ++ [b])[front.length + 1 - 2]? else none) =
        front[front.length - 1]? := by
      rcases Nat.eq_zero_or_pos front.length with hzero | hpos
      · simp [*]
      · grind
    have hb' : (front ++ [b])[front.length]? = some b := by simp
    rw [hlast, hb'] at hnext
    have hcond : (2 ≤ front.length ∧ some b = some 0x03 ∧
          (front ++ b :: src)[front.length - 1]? = some 0x00 ∧
          (front ++ b :: src)[front.length - 2]? = some 0x00) ↔
        b = 3 ∧ front[front.length - 1]? = some 0 ∧
          (if 2 ≤ front.length then front[front.length - 2]? else none) = some 0 := by
      by_cases htwo : 2 ≤ front.length
      · grind
      · simp [*]
    rw [length_cons, range'_succ, filterMap_cons, hb, unstuff]
    generalize (if 2 ≤ front.length then front[front.length - 2]? else none) = before at hcond ⊢
    by_cases hdrop : b = 3 ∧ front[front.length - 1]? = some 0 ∧ before = some 0
    · rw [if_pos (hcond.2 hdrop), if_pos hdrop]
      exact hnext
    · rw [if_neg (mt hcond.1 hdrop), if_neg hdrop]
      exact congrArg _ hnext

theorem ebsp2rbsp_eq (src : Bytes) : ebsp2rbsp src = unstuff 0 3 none none src := by
  rw [ebsp2rbsp, range_eq_range']
  exact ebsp2rbsp_behind [] src

theorem ebsp2rbsp_nalUnit : ebsp2rbsp sps.nalUnit = sps.nalHeader :: sps.rbsp := by
  have hall : ∀ r : Fin 4, UInt8.ofNat (32 * r.val + 7) ≠ 0 := by decide
  have hheader : sps.nalHeader ≠ 0 := hall sps.nalRefIdc
  rw [ebsp2rbsp_eq, Sps.nalUnit, unstuff, if_neg fun h => absurd h.2.1 (by simp)]
  refine congrArg _ (unstuff_stuff (by decide) (by decide) (by decide) (counts_start ?_) _)
  exact fun h => hheader (some.inj h)

theorem Sps.length_nalUnit : 4 ≤ sps.nalUnit.length := by
  have hbits := congrArg List.length sps.bytesBits_rbsp
  have hthree : 24 ≤ sps.bits.length := by
    rw [Sps.bits, length_append, length_append, length_append, length_bits,
      length_bits, length_bits]
    omega
  have hstuffed := @length_le_stuff UInt8 _ 0 3 (· ≤ 3) 0 sps.rbsp
  rw [length_bytesBits, withTrailingBits, length_append, length_append] at hbits
  rw [Sps.nalUnit, length_cons]
  omega

theorem parseSPS_nalUnit (h : sps.profileIdc.val ∉ missedProfiles) :
    ∃ info, parseSPS sps.nalUnit = some info ∧ info.picture = sps.taken := by
  have hview : (ofBytes (ebsp2rbsp sps.nalUnit)).view = (bits 8 sps.nalHeader.toNat ++ sps.bits) ++
        (sps.later ++ true :: List.replicate (7 - (sps.bits ++ sps.later).length % 8) false) := by
    rw [ebsp2rbsp_nalUnit, view_ofBytes]
    show bits 8 sps.nalHeader.toNat ++ bytesBits sps.rbsp = _
    rw [Sps.bytesBits_rbsp, withTrailingBits, append_assoc, append_assoc]
  have hread : ∀ codecMimetype, ∃ info,
      ((readSPS codecMimetype).run (ofBytes (ebsp2rbsp sps.nalUnit))).map Prod.fst = some info ∧
        info.picture = sps.taken := by
    intro codecMimetype
    obtain ⟨info, gb, hrun, -, hinfo⟩ :=
      takes_sps sps h ⟨sps.nalHeader.toNat, sps.nalHeader.toNat_lt⟩ codecMimetype _ _ hview
    refine ⟨info, ?_, hinfo⟩
    rw [StateT.run, hrun, map_some]
  rw [parseSPS, if_neg (by have hlen := sps.length_nalUnit; omega)]
  exact hread _

/-! ## The limits -/

/-- The aspect ratios that come out right. -/
def AspectRatio.Known : AspectRatio → Prop
  | .idc aspectRatioIdc => aspectRatioIdc.val ≠ 16
  | .extended sarWidth sarHeight => sarWidth.val ≠ 0 ∧ sarHeight.val ≠ 0

theorem AspectRatio.taken_eq_iff (a : AspectRatio) : a.taken = a.ratio ↔ a.Known := by
  cases a with
  | idc aspectRatioIdc =>
    have hall : ∀ i : Fin 255,
        (AspectRatio.idc i).taken = (AspectRatio.idc i).ratio ↔ i.val ≠ 16 := by
      decide +kernel
    exact hall aspectRatioIdc
  | extended sarWidth sarHeight =>
    rw [AspectRatio.taken, AspectRatio.ratio, AspectRatio.Known]
    split_ifs with hzero
    · refine ⟨fun heq => ?_, fun hpos => by omega⟩
      have hone := Prod.mk.inj heq
      omega
    · exact ⟨fun _ => by omega, fun _ => rfl⟩

/-- Both numbers of the timing are below 2^31. -/
def TimingInfo.Short (t : TimingInfo) : Prop :=
  t.numUnitsInTick.val < 2 ^ 31 ∧ t.timeScale.val < 2 ^ 31

theorem signed32_eq_iff : signed32 v = v.val ↔ v.val < 2 ^ 31 := by
  rw [signed32]
  split_ifs <;> omega

theorem TimingInfo.taken_eq_iff (t : TimingInfo) : t.taken = t.frameRate ↔ t.Short := by
  rw [TimingInfo.Short, ← signed32_eq_iff, ← signed32_eq_iff]
  constructor
  · intro heq
    have hden := congrArg FrameRate.fpsDen heq
    have hnum := congrArg FrameRate.fpsNum heq
    exact ⟨mul_right_cancel₀ (by decide) hden, hnum⟩
  · rintro ⟨hden, hnum⟩
    rw [TimingInfo.taken, TimingInfo.frameRate, hden, hnum]

/-- The aspect ratio is known and the timing short. -/
def Sps.Plain (sps : Sps) : Prop :=
  (∀ a, sps.vui.bind Vui.aspectRatio = some a → a.Known) ∧
    ∀ t, sps.vui.bind Vui.timing = some t → t.Short

theorem getD_map_eq_iff {α β : Type*} {f g : α → β} {o : Option α} {b : β} :
    (o.map f).getD b = (o.map g).getD b ↔ ∀ a, o = some a → f a = g a := by
  cases o with
  | none => simp
  | some a => simp

theorem Sps.taken_eq_iff : sps.taken = sps.picture ↔ sps.Plain := by
  have hratio := @getD_map_eq_iff _ _ AspectRatio.taken AspectRatio.ratio
    (sps.vui.bind Vui.aspectRatio) (1, 1)
  have htiming := @getD_map_eq_iff _ _ TimingInfo.taken TimingInfo.frameRate
    (sps.vui.bind Vui.timing) FrameRate.unknown
  simp only [AspectRatio.taken_eq_iff] at hratio
  simp only [TimingInfo.taken_eq_iff] at htiming
  rw [Sps.Plain, ← hratio, ← htiming]
  constructor
  · intro heq
    exact ⟨congrArg Picture.sarRatio heq, congrArg Picture.frameRate heq⟩
  · rintro ⟨hsar, hrate⟩
    rw [Sps.taken, show (Vui.info sps.vui).sarRatio = sps.picture.sarRatio from hsar,
      show (Vui.info sps.vui).frameRate = sps.picture.frameRate from hrate]

/-- The parser returns what the set says of the pictures. -/
def Sps.ReadBack (sps : Sps) : Prop :=
  ∃ info, parseSPS sps.nalUnit = some info ∧ info.picture = sps.picture

theorem Sps.readBack_iff :
    sps.ReadBack ↔ (parseSPS sps.nalUnit).map SPSInfo.picture = some sps.picture := by
  rw [map_eq_some_iff]
  rfl

instance (sps : Sps) : Decidable sps.ReadBack := decidable_of_iff _ sps.readBack_iff.symm

/-- Of the profiles that are taken for what they are, the parser returns what a set says if and
    only if its aspect ratio is neither 16 nor one with a zero, and both numbers of its timing are
    below 2^31. -/
theorem parseSPS_inverts_iff (sps : Sps) (h : sps.profileIdc.val ∉ missedProfiles) :
    sps.ReadBack ↔ sps.Plain := by
  obtain ⟨info, hparse, hinfo⟩ := parseSPS_nalUnit sps h
  rw [← sps.taken_eq_iff, ← hinfo]
  constructor
  · rintro ⟨info', hparse', hinfo'⟩
    rw [← hinfo', some.inj (hparse.symm.trans hparse')]
  · exact fun heq => ⟨info, hparse, heq⟩

/-- A set with 25 pictures a second. -/
theorem baseline_readBack : (baselineSps
      ⟨some (.idc 2), none, none, none, some ⟨1, 50, true, by decide⟩, []⟩).ReadBack := by
  refine (parseSPS_inverts_iff _ (by decide)).2 ⟨?_, ?_⟩
  · intro a ha
    obtain rfl := some.inj ha
    exact (by decide : (2 : Fin 255).val ≠ 16)
  · intro t ht
    obtain rfl := some.inj ht
    exact ⟨by decide, by decide⟩

/-- Aspect ratio 16 comes out as 1:1, a time scale of 2^31 as a negative number, and profile 134
    as another picture. -/
theorem sets_not_readBack : ¬(baselineSps ⟨some (.idc 16), none, none, none, none, []⟩).ReadBack ∧
      ¬(baselineSps ⟨none, none, none, none,
        some ⟨1, ⟨2147483648, by decide⟩, true, by decide⟩, []⟩).ReadBack ∧
      ¬highSps.ReadBack := by
  decide +kernel

end Apackage.Rtp2httpd.Player
