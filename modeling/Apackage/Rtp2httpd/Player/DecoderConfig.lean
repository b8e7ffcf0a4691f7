import Apackage.Lib.Run
import Apackage.Rtp2httpd.Player.VideoMetadata
import Mathlib.Data.List.Induction

/-
  Which configuration the samples of the video track are decoded with.

  A sample is configured if the record announced last contains the parameter sets in force for it.
  After the first announcement the demuxer takes a new SPS over only if the codec, the coded size or
  the width has changed, a new PPS only together with such an SPS and a new VPS never. While the
  audio configuration is missing the samples collected so far are not handed over before a new
  announcement.
-/

namespace Apackage.Rtp2httpd.Player

open List Option Lib.Run

section Log

def lastConfig : Option DecoderConfiguration → List DemuxOutput → Option DecoderConfiguration
  | config, [] => config
  | _, .trackMetadata config :: out => lastConfig (some config) out
  | config, .dataAvailable _ :: out => lastConfig config out

def Configured (config : Option DecoderConfiguration) (x : VideoSample) : Prop :=
  config.map DecoderConfiguration.sets = some x.sets
  deriving Decidable

/-- All samples handed over are configured. -/
def Announced : Option DecoderConfiguration → List DemuxOutput → Prop
  | _, [] => True
  | _, .trackMetadata config :: out => Announced (some config) out
  | config, .dataAvailable samples :: out =>
    (∀ x ∈ samples, Configured config x) ∧ Announced config out

instance Announced.decidable : ∀ (config : Option DecoderConfiguration) (out : List DemuxOutput),
      Decidable (Announced config out)
  | _, [] => inferInstanceAs (Decidable True)
  | _, .trackMetadata config :: out => Announced.decidable (some config) out
  | config, .dataAvailable _ :: out =>
    have : Decidable (Announced config out) := Announced.decidable config out
    inferInstanceAs (Decidable (_ ∧ _))

variable (config : Option DecoderConfiguration)

theorem lastConfig_append (out out' : List DemuxOutput) :
    lastConfig config (out ++ out') = lastConfig (lastConfig config out) out' := by
  induction out generalizing config with
  | nil => rfl
  | cons o out ih => cases o <;> exact ih _

theorem announced_append (out out' : List DemuxOutput) : Announced config (out ++ out') ↔
      Announced config out ∧ Announced (lastConfig config out) out' := by
  induction out generalizing config with
  | nil => exact (and_iff_right trivial).symm
  | cons o out ih =>
    cases o with
    | trackMetadata config' => exact ih _
    | dataAvailable samples =>
      show _ ∧ Announced config (out ++ out') ↔ (_ ∧ Announced config out) ∧ _
      rw [ih, and_assoc]
      rfl

end Log

namespace VideoDemuxer

variable {parseSPS : List UInt8 → VideoDetails} {codec : VideoCodec} {s : VideoDemuxer}

/-- All samples handed over or waiting to be are configured. -/
def Follows (s : VideoDemuxer) : Prop :=
  Announced none s.out ∧ ∀ x ∈ s.track, Configured (lastConfig none s.out) x
  deriving Decidable

/-- The sets in force after some units. -/
def afterUnits (s : VideoDemuxer) (nalus : List Nalu) : ParameterSets :=
  nalus.foldl ParameterSets.receive s.inForce

/-- A payload that comes after the first announcement has no new sets, or they are those of an
    H.264 stream with other details, at a time when the samples collected can be handed over. -/
def Noticed (parseSPS : List UInt8 → VideoDetails) {codec : VideoCodec} (s : VideoDemuxer) :
    Event codec → Prop
  | .payload au => s.initSegmentDispatched = true → s.afterUnits au.nalus = s.inForce ∨
      codec = .h264 ∧ (∃ sps, (s.afterUnits au.nalus).sps = some sps ∧
          detectVideoMetadataChange (parseSPS sps) s.metadata.details = true) ∧
        (s.track = [] ∨ s.isInitSegmentDispatched = true)
  | _ => True

instance (s : VideoDemuxer) (e : Event codec) : Decidable (s.Noticed parseSPS e) :=
  match e with
  | .payload _ => inferInstanceAs (Decidable (_ → _))
  | .audioInit => isTrue trivial
  | .pmtWithAudio => isTrue trivial
  | .chunkEnd _ => isTrue trivial
  | .segmentEnd => isTrue trivial
  | .videoDiscontinuity => isTrue trivial
  | .audioDiscontinuity => isTrue trivial

/-- The state between two events. -/
structure Following (parseSPS : List UInt8 → VideoDetails) (codec : VideoCodec)
    (s : VideoDemuxer) : Prop where
  hasVideo : s.hasVideo = true
  unchanged : s.metadataChanged = false
  announced : Announced none s.out
  queued : ∀ x ∈ s.track, Configured (lastConfig none s.out) x
  waiting : s.outputStarted = false → s.track = []
  vps : codec = .h264 → s.inForce.vps = none
  before : s.initSegmentDispatched = false →
    s.metadata = ⟨none, none, none, none⟩ ∧ s.track = [] ∧ s.inForce = ⟨none, none, none⟩
  after : s.initSegmentDispatched = true →
    (lastConfig none s.out).map DecoderConfiguration.sets = some s.inForce ∧
      ∃ sps, s.inForce.sps = some sps ∧ s.metadata.details = some (parseSPS sps)

theorem Following.follows (h : Following parseSPS codec s) : s.Follows := ⟨h.announced, h.queued⟩

theorem following_opened (wait : Bool) : Following parseSPS codec (opened wait) where
  hasVideo := rfl
  unchanged := rfl
  announced := trivial
  queued _ hx := absurd hx not_mem_nil
  waiting _ := rfl
  vps _ := rfl
  before _ := ⟨rfl, rfl, rfl⟩
  after h := nomatch h

section Units

theorem receive_other {nalu : Nalu} (h : nalu.isParameterSet = false) :
    receive parseSPS codec s nalu = s := by
  obtain ⟨type, data⟩ := nalu
  cases codec <;> cases type <;> first | rfl | simp [Nalu.isParameterSet] at h

variable (parseSPS codec) in
theorem parseNalus_fst (nalus : List Nalu) (s : VideoDemuxer) :
    (parseNalus parseSPS codec nalus s).1 =
      (nalus.filter Nalu.isParameterSet).foldl (receive parseSPS codec) s := by
  have hpair : ∀ units, (nalus.foldl (fun r nalu =>
      ((receive parseSPS codec r.1 nalu,
        if (receive parseSPS codec r.1 nalu).initSegmentDispatched then r.2 ++ [nalu] else r.2) :
        VideoDemuxer × List Nalu)) (s, units)).1 =
      (nalus.filter Nalu.isParameterSet).foldl (receive parseSPS codec) s := by
    induction nalus generalizing s with
    | nil => exact fun _ => rfl
    | cons nalu nalus ih =>
      intro units
      rw [foldl_cons, ih]
      cases hset : nalu.isParameterSet with
      | true => rw [filter_cons_of_pos hset, foldl_cons]
      | false => rw [filter_cons_of_neg (by rw [hset]; decide), receive_other hset]
  exact hpair []

theorem afterUnits_filter (nalus : List Nalu) (s : VideoDemuxer) :
    s.afterUnits (nalus.filter Nalu.isParameterSet) = s.afterUnits nalus := by
  unfold afterUnits
  generalize s.inForce = sets
  induction nalus generalizing sets with
  | nil => rfl
  | cons nalu nalus ih =>
    cases hset : nalu.isParameterSet with
    | true => rw [filter_cons_of_pos hset, foldl_cons, foldl_cons, ih]
    | false =>
      have hsame : sets.receive nalu = sets := by
        obtain ⟨type, data⟩ := nalu
        cases type <;> first | rfl | simp [Nalu.isParameterSet] at hset
      rw [filter_cons_of_neg (by rw [hset]; decide), foldl_cons, hsame, ih]

section

variable (hmeta : s.metadata = ⟨none, none, none, none⟩) (hinit : s.initSegmentDispatched = false)
  (hchanged : s.metadataChanged = false)

include hmeta hinit hchanged

theorem sets_first_h264 (sps pps : List UInt8) :
    [⟨.sps, sps⟩, ⟨.pps, pps⟩].foldl (receive parseSPS .h264) s = { s with
        metadata := ⟨none, some sps, some pps, some (parseSPS sps)⟩
        out := s.out ++ [.trackMetadata (.avcc sps pps (some (parseSPS sps)))]
        initSegmentDispatched := true
        metadataChanged := false
        inForce := ⟨s.inForce.vps, some sps, some pps⟩ } := by
  simp [receive, parseNalu, h264Nalu, announceSets, dispatchVideoInitSegment, hmeta, hinit, hchanged,
    ParameterSets.receive]

theorem sets_first_h265 (vps sps pps : List UInt8) :
    [⟨.vps, vps⟩, ⟨.sps, sps⟩, ⟨.pps, pps⟩].foldl (receive parseSPS .h265) s = { s with
        metadata := ⟨some vps, some sps, some pps, some (parseSPS sps)⟩
        out := s.out ++ [.trackMetadata (.hvcc vps sps pps (some (parseSPS sps)))]
        initSegmentDispatched := true
        metadataChanged := false
        inForce := ⟨some vps, some sps, some pps⟩ } := by
  simp [receive, parseNalu, h265Nalu, announceSets, dispatchVideoInitSegment, hmeta, hinit, hchanged,
    ParameterSets.receive]

end

theorem dispatchVideoMediaSegment_metadata (changed : Bool) (metadata : VideoMetadata)
    (sets : ParameterSets) :
    { s with metadataChanged := changed, metadata := metadata, inForce := sets }.dispatchVideoMediaSegment =
      { s.dispatchVideoMediaSegment with
        metadataChanged := changed, metadata := metadata, inForce := sets } := by
  unfold dispatchVideoMediaSegment handOver shouldWaitForVideoKeyframe isInitSegmentDispatched
  dsimp only
  split
  · rfl
  · split
    · split <;> rfl
    · rfl

variable {sps : List UInt8}

section

variable (hinit : s.initSegmentDispatched = true)

include hinit

theorem sets_changed_h264
    (hdetect : detectVideoMetadataChange (parseSPS sps) s.metadata.details = true)
    (pps : List UInt8) :
    [⟨.sps, sps⟩, ⟨.pps, pps⟩].foldl (receive parseSPS .h264) s = { s.dispatchVideoMediaSegment with
        metadata := ⟨none, some sps, some pps, some (parseSPS sps)⟩
        out := s.dispatchVideoMediaSegment.out ++
          [.trackMetadata (.avcc sps pps (some (parseSPS sps)))]
        initSegmentDispatched := true
        metadataChanged := false
        inForce := ⟨s.inForce.vps, some sps, some pps⟩ } := by
  have hsps : receive parseSPS .h264 s ⟨.sps, sps⟩ = { s with
        metadataChanged := true
        metadata := ⟨none, some sps, none, some (parseSPS sps)⟩
        inForce := { s.inForce with sps := some sps } } := by
    simp [receive, parseNalu, h264Nalu, hinit, hdetect, ParameterSets.receive]
  rw [foldl_cons, hsps, foldl_cons, foldl_nil]
  unfold receive parseNalu h264Nalu announceSets
  dsimp only
  rw [if_pos (.inr rfl), if_pos (some_ne_none sps), if_pos rfl, dispatchVideoMediaSegment_metadata]
  rfl

section

variable (hchanged : s.metadataChanged = false)
  (hdetect : detectVideoMetadataChange (parseSPS sps) s.metadata.details = false)

include hchanged hdetect

theorem sets_kept_h264 (pps : List UInt8) :
    [⟨.sps, sps⟩, ⟨.pps, pps⟩].foldl (receive parseSPS .h264) s =
      { s with inForce := ⟨s.inForce.vps, some sps, some pps⟩ } := by
  simp [receive, parseNalu, h264Nalu, hinit, hchanged, hdetect, ParameterSets.receive]

theorem sets_kept_h265 (vps pps : List UInt8) :
    [⟨.vps, vps⟩, ⟨.sps, sps⟩, ⟨.pps, pps⟩].foldl (receive parseSPS .h265) s =
      { s with inForce := ⟨some vps, some sps, some pps⟩ } := by
  simp [receive, parseNalu, h265Nalu, hinit, hchanged, hdetect, ParameterSets.receive]

end

theorem sets_changed_h265
    (hdetect : detectVideoMetadataChange (parseSPS sps) s.metadata.details = true)
    (vps pps : List UInt8) :
    [⟨.vps, vps⟩, ⟨.sps, sps⟩, ⟨.pps, pps⟩].foldl (receive parseSPS .h265) s = { s with
        metadataChanged := true
        metadata := ⟨none, some sps, some pps, some (parseSPS sps)⟩
        inForce := ⟨some vps, some sps, some pps⟩ } := by
  simp [receive, parseNalu, h265Nalu, hinit, hdetect, ParameterSets.receive]

end

end Units

section Steps

theorem isInitSegmentDispatched_video (hvideo : s.hasVideo = true)
    (h : s.isInitSegmentDispatched = true) : s.initSegmentDispatched = true := by
  unfold isInitSegmentDispatched at h
  rw [hvideo] at h
  cases haudio : s.hasAudio with
  | true =>
    rw [haudio] at h
    exact (Bool.and_eq_true_iff.1 h).1
  | false =>
    rw [haudio] at h
    exact h

theorem detect_self (details : VideoDetails) :
    detectVideoMetadataChange details (some details) = false := by
  simp [detectVideoMetadataChange]

section

variable (h : Following parseSPS codec s)

include h

theorem Following.handOver (hinit : s.isInitSegmentDispatched = true) (taken : Bool) :
    Following parseSPS codec (s.handOver taken) := by
  have hdispatched := isInitSegmentDispatched_video h.hasVideo hinit
  unfold VideoDemuxer.handOver
  split
  · exact h
  · have hlast : lastConfig none (s.out ++ [.dataAvailable s.track]) = lastConfig none s.out := by
      rw [lastConfig_append]
      rfl
    refine ⟨h.hasVideo, h.unchanged, ?_, ?_, fun hw => ?_, h.vps,
      fun hb => absurd (hdispatched.symm.trans hb) (by decide), fun _ => ?_⟩
    · exact (announced_append _ _ _).2 ⟨h.announced, h.queued, trivial⟩
    · intro x hx
      rw [hlast]
      cases taken with
      | true => exact absurd hx not_mem_nil
      | false => exact h.queued x hx
    · rw [h.waiting hw]
      split <;> rfl
    · rw [hlast]
      exact h.after hdispatched

theorem Following.dispatch : Following parseSPS codec s.dispatchVideoMediaSegment := by
  unfold dispatchVideoMediaSegment
  split
  · exact h
  · split
    · exact h.handOver ‹_› true
    · exact h

theorem Following.chunkEnd (taken : Bool) :
    Following parseSPS codec (s.dispatchAudioVideoMediaSegment taken) := by
  unfold dispatchAudioVideoMediaSegment
  split
  · exact h
  · split
    · exact h.handOver ‹_› taken
    · exact h

theorem Following.flush : Following parseSPS codec s.flushSegmentBoundary := by
  unfold flushSegmentBoundary
  split
  · exact h
  · rename_i hgo
    rw [not_or, not_not] at hgo
    exact h.handOver hgo.2 true

theorem Following.discontinuity : Following parseSPS codec s.handleVideoDiscontinuity := by
  have hflush : Following parseSPS codec s.flushMediaBeforeTrackDiscontinuity := h.flush
  exact ⟨hflush.hasVideo, hflush.unchanged, hflush.announced, fun _ hx => absurd hx not_mem_nil,
    fun _ => rfl, hflush.vps, fun hb => ⟨(hflush.before hb).1, rfl, (hflush.before hb).2.2⟩,
    hflush.after⟩

theorem Following.dispatch_track (hflush : s.track = [] ∨ s.isInitSegmentDispatched = true) :
    s.dispatchVideoMediaSegment.track = [] := by
  unfold dispatchVideoMediaSegment
  split
  · rename_i hwait
    exact h.waiting (by simpa using (Bool.and_eq_true_iff.1 hwait).2)
  · split
    · unfold VideoDemuxer.handOver
      split
      · assumption
      · rfl
    · rename_i hno
      exact hflush.resolve_right hno

theorem Following.detect_same (hinit : s.initSegmentDispatched = true) {sps : List UInt8}
    (hsps : s.inForce.sps = some sps) :
    detectVideoMetadataChange (parseSPS sps) s.metadata.details = false := by
  obtain ⟨-, sps', hsps', hdetails⟩ := h.after hinit
  rw [hdetails, some.inj (hsps.symm.trans hsps'), detect_self]

end

theorem Following.sets_h264 (h : Following parseSPS .h264 s) {sps pps : List UInt8}
    (hok : s.initSegmentDispatched = true → s.afterUnits [⟨.sps, sps⟩, ⟨.pps, pps⟩] = s.inForce ∨
        detectVideoMetadataChange (parseSPS sps) s.metadata.details = true ∧
          (s.track = [] ∨ s.isInitSegmentDispatched = true)) :
    Following parseSPS .h264 ([⟨.sps, sps⟩, ⟨.pps, pps⟩].foldl (receive parseSPS .h264) s) ∧
      ([⟨.sps, sps⟩, ⟨.pps, pps⟩].foldl (receive parseSPS .h264) s).initSegmentDispatched =
        true := by
  have hvps := h.vps rfl
  cases hinit : s.initSegmentDispatched with
  | false =>
    obtain ⟨hmeta, htrack, -⟩ := h.before hinit
    rw [sets_first_h264 hmeta hinit h.unchanged]
    refine ⟨⟨h.hasVideo, rfl, (announced_append _ _ _).2 ⟨h.announced, trivial⟩, fun x hx => ?_,
      h.waiting, fun _ => hvps, nofun, fun _ => ⟨?_, sps, rfl, rfl⟩⟩, rfl⟩
    · rw [htrack] at hx
      exact absurd hx not_mem_nil
    · rw [lastConfig_append, hvps]
      rfl
  | true =>
    cases hdetect : detectVideoMetadataChange (parseSPS sps) s.metadata.details with
    | false =>
      have hsame : s.afterUnits [⟨.sps, sps⟩, ⟨.pps, pps⟩] = s.inForce :=
        (hok hinit).resolve_right fun hc => Bool.false_ne_true (hdetect.symm.trans hc.1)
      have hkept : [⟨.sps, sps⟩, ⟨.pps, pps⟩].foldl (receive parseSPS .h264) s = s := by
        rw [sets_kept_h264 hinit h.unchanged hdetect]
        exact congrArg (fun sets => { s with inForce := sets }) hsame
      rw [hkept]
      exact ⟨h, hinit⟩
    | true =>
      have hflush : s.track = [] ∨ s.isInitSegmentDispatched = true := by
        rcases hok hinit with hsame | hc
        · have := h.detect_same hinit (congrArg ParameterSets.sps hsame.symm)
          exact absurd (this.symm.trans hdetect) Bool.false_ne_true
        · exact hc.2
      have htrack := h.dispatch_track hflush
      have hd := h.dispatch
      rw [sets_changed_h264 hinit hdetect]
      refine ⟨⟨hd.hasVideo, rfl, (announced_append _ _ _).2 ⟨hd.announced, trivial⟩, fun x hx => ?_,
        fun _ => htrack, fun _ => hvps, nofun, fun _ => ⟨?_, sps, rfl, rfl⟩⟩, rfl⟩
      · exact absurd (htrack ▸ hx) not_mem_nil
      · rw [lastConfig_append, hvps]
        rfl

theorem Following.sets_h265 (h : Following parseSPS .h265 s) {vps sps pps : List UInt8}
    (hok : s.initSegmentDispatched = true →
      s.afterUnits [⟨.vps, vps⟩, ⟨.sps, sps⟩, ⟨.pps, pps⟩] = s.inForce) :
    Following parseSPS .h265
        ([⟨.vps, vps⟩, ⟨.sps, sps⟩, ⟨.pps, pps⟩].foldl (receive parseSPS .h265) s) ∧
      ([⟨.vps, vps⟩, ⟨.sps, sps⟩, ⟨.pps, pps⟩].foldl (receive parseSPS .h265)
        s).initSegmentDispatched = true := by
  cases hinit : s.initSegmentDispatched with
  | false =>
    obtain ⟨hmeta, htrack, -⟩ := h.before hinit
    rw [sets_first_h265 hmeta hinit h.unchanged]
    refine ⟨⟨h.hasVideo, rfl, (announced_append _ _ _).2 ⟨h.announced, trivial⟩, fun x hx => ?_,
      h.waiting, nofun, nofun, fun _ => ⟨?_, sps, rfl, rfl⟩⟩, rfl⟩
    · rw [htrack] at hx
      exact absurd hx not_mem_nil
    · rw [lastConfig_append]
      rfl
  | true =>
    have hdetect := h.detect_same hinit (congrArg ParameterSets.sps (hok hinit)).symm
    have hkept : [⟨.vps, vps⟩, ⟨.sps, sps⟩, ⟨.pps, pps⟩].foldl (receive parseSPS .h265) s = s := by
      rw [sets_kept_h265 hinit h.unchanged hdetect]
      exact congrArg (fun sets => { s with inForce := sets }) (hok hinit)
    rw [hkept]
    exact ⟨h, hinit⟩

end Steps

section Payload

def setUnits (vps sps pps : List UInt8) : VideoCodec → List Nalu
  | .h264 => [⟨.sps, sps⟩, ⟨.pps, pps⟩]
  | .h265 => [⟨.vps, vps⟩, ⟨.sps, sps⟩, ⟨.pps, pps⟩]

theorem filter_cases (au : AccessUnit codec) : au.nalus.filter Nalu.isParameterSet = [] ∨
      (∃ vps sps pps, au.nalus.filter Nalu.isParameterSet = setUnits vps sps pps codec) ∧
      codec.isKeyframe au.nalus au.randomAccess = true ∧ au.pts.isSome = true ∧
        au.dts.isSome = true := by
  rcases au.sets with h | ⟨h, hrest⟩
  · exact .inl (map_eq_nil_iff.1 h)
  · refine .inr ⟨?_, hrest⟩
    generalize au.nalus.filter Nalu.isParameterSet = sets at h
    cases codec with
    | h264 =>
      obtain ⟨⟨_, sps⟩, l₁, rfl, rfl, h₁⟩ := map_eq_cons_iff.1 h
      obtain ⟨⟨_, pps⟩, l₂, rfl, rfl, h₂⟩ := map_eq_cons_iff.1 h₁
      exact ⟨[], sps, pps, by rw [map_eq_nil_iff.1 h₂]; rfl⟩
    | h265 =>
      obtain ⟨⟨_, vps⟩, l₁, rfl, rfl, h₁⟩ := map_eq_cons_iff.1 h
      obtain ⟨⟨_, sps⟩, l₂, rfl, rfl, h₂⟩ := map_eq_cons_iff.1 h₁
      obtain ⟨⟨_, pps⟩, l₃, rfl, rfl, h₃⟩ := map_eq_cons_iff.1 h₂
      exact ⟨vps, sps, pps, by rw [map_eq_nil_iff.1 h₃]; rfl⟩

/-- After the units of a payload with noticed sets. -/
theorem Following.parseNalus (h : Following parseSPS codec s) (au : AccessUnit codec)
    (hok : s.Noticed parseSPS (.payload au)) :
    Following parseSPS codec (parseNalus parseSPS codec au.nalus s).1 := by
  rw [parseNalus_fst]
  rcases filter_cases au with hnone | ⟨⟨vps, sps, pps, hsets⟩, -⟩
  · rw [hnone]
    exact h
  · unfold Noticed at hok
    dsimp only at hok
    rw [← afterUnits_filter, hsets] at hok
    rw [hsets]
    cases codec with
    | h264 =>
      refine (h.sets_h264 fun hinit => (hok hinit).imp id ?_).1
      rintro ⟨-, ⟨sps', hsps, hdetect⟩, hflush⟩
      obtain rfl : sps = sps' := some.inj hsps
      exact ⟨hdetect, hflush⟩
    | h265 => exact (h.sets_h265 fun hinit => (hok hinit).resolve_right fun hc => nomatch hc.1).1

theorem dispatchVideoMediaSegment_dispatched :
    s.dispatchVideoMediaSegment.initSegmentDispatched = s.initSegmentDispatched := by
  unfold dispatchVideoMediaSegment VideoDemuxer.handOver
  split
  · rfl
  · split
    · split <;> rfl
    · rfl

theorem announceSets_dispatched (h : s.initSegmentDispatched = true) :
    s.announceSets.initSegmentDispatched = true := by
  unfold announceSets
  have hfirst : (if s.metadataChanged = true then s.dispatchVideoMediaSegment
      else s).initSegmentDispatched = true := by
    split
    · rw [dispatchVideoMediaSegment_dispatched, h]
    · exact h
  unfold dispatchVideoInitSegment
  dsimp only
  split
  · rfl
  · rfl
  · exact hfirst

theorem receive_dispatched (h : s.initSegmentDispatched = true) (nalu : Nalu) :
    (receive parseSPS codec s nalu).initSegmentDispatched = true := by
  cases codec with
  | h264 =>
    show (h264Nalu parseSPS s nalu).initSegmentDispatched = true
    unfold h264Nalu
    split
    · dsimp only
      split
      · exact h
      · split <;> exact h
    · split
      · dsimp only
        split
        · exact announceSets_dispatched h
        · exact h
      · exact h
    · exact h
  | h265 =>
    show (h265Nalu parseSPS s nalu).initSegmentDispatched = true
    unfold h265Nalu
    split
    · split <;> exact h
    · dsimp only
      split
      · exact h
      · split <;> exact h
    · split
      · dsimp only
        split
        · exact announceSets_dispatched h
        · exact h
      · exact h
    · exact h

theorem parseNalus_concat (nalus : List Nalu) (nalu : Nalu) (s : VideoDemuxer) :
    VideoDemuxer.parseNalus parseSPS codec (nalus ++ [nalu]) s =
      (receive parseSPS codec (VideoDemuxer.parseNalus parseSPS codec nalus s).1 nalu,
        if (receive parseSPS codec (VideoDemuxer.parseNalus parseSPS codec nalus s).1
            nalu).initSegmentDispatched then
          (VideoDemuxer.parseNalus parseSPS codec nalus s).2 ++ [nalu]
        else
          (VideoDemuxer.parseNalus parseSPS codec nalus s).2) := by
  unfold VideoDemuxer.parseNalus
  rw [foldl_append]
  rfl

variable (parseSPS codec) in
theorem parseNalus_units (nalus : List Nalu) (s : VideoDemuxer) :
    (VideoDemuxer.parseNalus parseSPS codec nalus s).2 ≠ [] →
      (VideoDemuxer.parseNalus parseSPS codec nalus s).1.initSegmentDispatched = true := by
  induction nalus using List.reverseRecOn with
  | nil => exact fun h => absurd rfl h
  | append_singleton nalus nalu ih =>
    rw [parseNalus_concat]
    split
    · exact fun _ => ‹_›
    · exact fun h => receive_dispatched (ih h) nalu

theorem parseNalus_kept {nalus : List Nalu} (hne : nalus ≠ [])
    (h : (VideoDemuxer.parseNalus parseSPS codec nalus s).1.initSegmentDispatched = true) :
    (VideoDemuxer.parseNalus parseSPS codec nalus s).2 ≠ [] := by
  obtain ⟨front, last, rfl⟩ := eq_nil_or_concat' nalus |>.resolve_left hne
  rw [parseNalus_concat] at h ⊢
  rw [if_pos h]
  exact append_ne_nil_of_right_ne_nil _ (cons_ne_nil _ _)

section

variable (h : Following parseSPS codec s)

include h

theorem Following.resume : Following parseSPS codec s.resumeVideoOutputFromKeyframe :=
  ⟨h.hasVideo, h.unchanged, h.announced, h.queued, nofun, h.vps, h.before, h.after⟩

theorem Following.push (hstarted : s.outputStarted = true) (au : AccessUnit codec)
    {units : List Nalu} (hunits : units ≠ [] → s.initSegmentDispatched = true) (pts dts : ℕ) :
    Following parseSPS codec (s.pushSample au units pts dts) := by
  unfold pushSample
  split
  · exact h
  · rename_i hne
    have hinit := hunits hne
    refine ⟨h.hasVideo, h.unchanged, h.announced, fun x hx => ?_,
      fun hw => absurd (hstarted.symm.trans hw) (by decide), h.vps,
      fun hb => absurd (hinit.symm.trans hb) (by decide), h.after⟩
    rcases mem_append.1 hx with hx | hx
    · exact h.queued x hx
    · rw [mem_singleton.1 hx]
      exact (h.after hinit).1

theorem Following.payload (au : AccessUnit codec) (hok : s.Noticed parseSPS (.payload au)) :
    Following parseSPS codec (s.parsePayload parseSPS au) := by
  have hsets := h.parseNalus au hok
  have hunits := parseNalus_units parseSPS codec au.nalus s
  unfold parsePayload
  generalize VideoDemuxer.parseNalus parseSPS codec au.nalus s = r at hsets hunits ⊢
  obtain ⟨s', units⟩ := r
  dsimp only
  split
  · split
    · split
      · exact hsets
      · exact hsets.resume.push rfl au hunits _ _
    · rename_i hgo
      exact hsets.push (by simpa using (not_or.1 hgo).2) au hunits _ _
  · exact hsets

end

theorem following_step (s : VideoDemuxer) (e : Event codec) (h : Following parseSPS codec s)
    (hok : s.Noticed parseSPS e) : Following parseSPS codec (s.step parseSPS e) := by
  cases e with
  | payload au => exact h.payload au hok
  | audioInit => exact ⟨h.hasVideo, rfl, h.announced, h.queued, h.waiting, h.vps, h.before, h.after⟩
  | pmtWithAudio =>
    exact ⟨h.hasVideo, h.unchanged, h.announced, h.queued, h.waiting, h.vps, h.before, h.after⟩
  | chunkEnd taken => exact h.chunkEnd taken
  | segmentEnd => exact h.flush
  | videoDiscontinuity => exact h.discontinuity
  | audioDiscontinuity => exact h.flush

end Payload

section Break

variable (parseSPS s) in
/-- A payload with sets adds a sample, for which the sets received last are in force. -/
theorem parsePayload_sample (au : AccessUnit codec)
    (hkey : codec.isKeyframe au.nalus au.randomAccess = true) (hpts : au.pts.isSome = true)
    (hdts : au.dts.isSome = true)
    (hinit : (VideoDemuxer.parseNalus parseSPS codec au.nalus s).1.initSegmentDispatched = true)
    (hne : au.nalus ≠ []) :
    ∃ x, x.sets = (VideoDemuxer.parseNalus parseSPS codec au.nalus s).1.inForce ∧
      (s.parsePayload parseSPS au).track =
        (VideoDemuxer.parseNalus parseSPS codec au.nalus s).1.track ++ [x] ∧
      (s.parsePayload parseSPS au).out =
        (VideoDemuxer.parseNalus parseSPS codec au.nalus s).1.out := by
  have hunits := parseNalus_kept hne hinit
  obtain ⟨pts, hpts⟩ := isSome_iff_exists.1 hpts
  obtain ⟨dts, hdts⟩ := isSome_iff_exists.1 hdts
  unfold parsePayload
  generalize VideoDemuxer.parseNalus parseSPS codec au.nalus s = r at hunits ⊢
  obtain ⟨s', units⟩ := r
  rw [hpts, hdts]
  dsimp only at hunits ⊢
  split
  · rw [if_neg (by simp [hkey, hunits])]
    unfold pushSample
    rw [if_neg hunits]
    exact ⟨_, rfl, rfl, rfl⟩
  · unfold pushSample
    rw [if_neg hunits]
    exact ⟨_, rfl, rfl, rfl⟩

variable (parseSPS codec) in
theorem inForce_receive (nalus : List Nalu) (s : VideoDemuxer) :
    (nalus.foldl (receive parseSPS codec) s).inForce = s.afterUnits nalus := by
  induction nalus generalizing s with
  | nil => rfl
  | cons nalu nalus ih =>
    rw [foldl_cons, ih]
    rfl

theorem dispatchVideoMediaSegment_stuck (h : ¬ s.isInitSegmentDispatched = true) :
    s.dispatchVideoMediaSegment = s := by
  unfold dispatchVideoMediaSegment
  rw [if_neg h, ite_self]

theorem unannounced_breaks (h : Following parseSPS codec s) (hinit : s.initSegmentDispatched = true)
    {au : AccessUnit codec} {x : VideoSample} (hnew : x.sets ≠ s.inForce) {track : List VideoSample}
    (htrack : (s.parsePayload parseSPS au).track = track ++ [x])
    (hout : (s.parsePayload parseSPS au).out = s.out) :
    ¬ (s.parsePayload parseSPS au).Follows := by
  rintro ⟨-, hqueued⟩
  have hx := hqueued x (by rw [htrack]; exact mem_append_right _ (mem_singleton_self x))
  rw [hout] at hx
  exact hnew (some.inj (hx.symm.trans (h.after hinit).1))

theorem unnoticed_breaks (h : Following parseSPS codec s) (e : Event codec)
    (hbad : ¬ s.Noticed parseSPS e) : ¬ (s.step parseSPS e).Follows := by
  cases e with
  | payload au =>
    unfold Noticed at hbad
    rw [Classical.not_imp, not_or] at hbad
    obtain ⟨hinit, hnew, hunnoticed⟩ := hbad
    rcases filter_cases au with hnone | ⟨⟨vps, sps, pps, hsets⟩, hkey, hpts, hdts⟩
    · rw [← afterUnits_filter, hnone] at hnew
      exact absurd rfl hnew
    have hne : au.nalus ≠ [] := by
      rintro hnil
      rw [hnil] at hsets
      cases codec <;> exact nomatch hsets
    have hfst := parseNalus_fst parseSPS codec au.nalus s
    rw [hsets] at hfst
    have hforce := inForce_receive parseSPS codec (setUnits vps sps pps codec) s
    rw [← afterUnits_filter, hsets] at hnew hunnoticed
    have hsample := parsePayload_sample parseSPS s au hkey hpts hdts
    rw [hfst, hforce] at hsample
    cases codec with
    | h264 =>
      cases hdetect : detectVideoMetadataChange (parseSPS sps) s.metadata.details with
      | false =>
        have hkept : (setUnits vps sps pps .h264).foldl (receive parseSPS .h264) s = _ :=
          sets_kept_h264 hinit h.unchanged hdetect pps
        rw [hkept] at hsample
        obtain ⟨x, hx, htrack, hout⟩ := hsample hinit hne
        exact unannounced_breaks h hinit (hx ▸ hnew) htrack hout
      | true =>
        -- a sample collected before is now under the new record
        have hstuck : ¬ (s.track = [] ∨ s.isInitSegmentDispatched = true) :=
          fun hflush => hunnoticed ⟨rfl, ⟨sps, rfl, hdetect⟩, hflush⟩
        rw [not_or] at hstuck
        obtain ⟨y, hy⟩ := exists_mem_of_ne_nil s.track hstuck.1
        have hchanged : (setUnits vps sps pps .h264).foldl (receive parseSPS .h264) s = _ :=
          sets_changed_h264 hinit hdetect pps
        rw [hchanged, dispatchVideoMediaSegment_stuck hstuck.2] at hsample
        obtain ⟨x, hx, htrack, hout⟩ := hsample rfl hne
        rintro ⟨-, hqueued⟩
        have hnow := hqueued y (by
          show y ∈ (s.parsePayload parseSPS au).track
          rw [htrack]
          exact mem_append_left _ hy)
        have hlast : lastConfig none (s.parsePayload parseSPS au).out =
            some (.avcc sps pps (some (parseSPS sps))) := by
          rw [hout, lastConfig_append]
          rfl
        have hthen := (h.queued y hy).symm.trans (h.after hinit).1
        have hnow' : some (⟨none, some sps, some pps⟩ : ParameterSets) = some y.sets :=
          (congrArg (Option.map DecoderConfiguration.sets) hlast).symm.trans hnow
        have hforced := some.inj (hnow'.trans hthen)
        rw [← h.vps rfl] at hforced
        exact hnew hforced
    | h265 =>
      cases hdetect : detectVideoMetadataChange (parseSPS sps) s.metadata.details with
      | false =>
        have hkept : (setUnits vps sps pps .h265).foldl (receive parseSPS .h265) s = _ :=
          sets_kept_h265 hinit h.unchanged hdetect vps pps
        rw [hkept] at hsample
        obtain ⟨x, hx, htrack, hout⟩ := hsample hinit hne
        exact unannounced_breaks h hinit (hx ▸ hnew) htrack hout
      | true =>
        have hchanged : (setUnits vps sps pps .h265).foldl (receive parseSPS .h265) s = _ :=
          sets_changed_h265 hinit hdetect vps pps
        rw [hchanged] at hsample
        obtain ⟨x, hx, htrack, hout⟩ := hsample hinit hne
        exact unannounced_breaks h hinit (hx ▸ hnew) htrack hout
  | _ => exact absurd trivial hbad

end Break

/-- At every point of a run all samples handed over or waiting to be are configured, if and only
    if the demuxer notices all changes. -/
theorem follows_iff_along (parseSPS : List UInt8 → VideoDetails) (wait : Bool)
    (es : List (Event codec)) :
    (∀ es₁ es₂, es₁ ++ es₂ = es → (run (step parseSPS) (opened wait) es₁).Follows) ↔
      Along (step parseSPS) (Noticed parseSPS) (opened wait) es :=
  always_iff_along (I := Following parseSPS codec) following_step (fun _ h => h.follows)
    (fun _ e h hbad => unnoticed_breaks h e hbad) (following_opened wait) es

def keyframe (codec : VideoCodec) (vps sps pps : List UInt8) : AccessUnit codec where
  nalus := setUnits vps sps pps codec ++ [⟨.idr, [0]⟩]
  pts := some 0
  dts := some 0
  filePosition := 0
  randomAccess := true
  sets := by cases codec <;> exact .inr ⟨rfl, rfl, rfl, rfl⟩

/-- A PPS that changes alone, and a set of H.265 that changes with the coded size. -/
theorem changes_unannounced :
    ¬ (run (step fun _ => ⟨"avc1.64001f", ⟨1280, 720⟩, ⟨1280, 720⟩⟩) (opened true)
        [.payload (keyframe .h264 [] [1] [2]), .payload (keyframe .h264 [] [1] [3]),
          .chunkEnd true]).Follows ∧
      ¬ (run (step fun sps => ⟨"hvc1.1.6.L93.B0", ⟨sps.length, 720⟩, ⟨sps.length, 720⟩⟩)
        (opened true) [.payload (keyframe .h265 [1] [2] [3]), .chunkEnd true,
          .payload (keyframe .h265 [1] [2, 2] [3]), .chunkEnd true]).Follows := by
  decide

end VideoDemuxer

end Apackage.Rtp2httpd.Player
