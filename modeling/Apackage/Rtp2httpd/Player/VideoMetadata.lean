import Mathlib.Data.List.Basic
import Mathlib.Data.Int.Basic

/-
  The decoder configuration of the video track in the web player (`demux/ts-demuxer.ts`).

  The payload parsers take the parameter sets out of the access units and announce them to the
  remuxer with a metadata event, which carries an avcC or hvcC record. `out` is what the remuxer
  is sent: metadata events and the samples handed over. `inForce` holds the sets received last;
  every sample notes the sets in force for it. How the details are read from an SPS is a
  parameter.
-/

namespace Apackage.Rtp2httpd.Player

inductive VideoCodec
  | h264
  | h265
  deriving DecidableEq

/-- The unit types that the payload parsers tell apart. -/
inductive NaluType
  | vps
  | sps
  | pps
  | idr
  | nonIdr
  | cra
  | other
  deriving DecidableEq

structure Nalu where
  type : NaluType
  data : List UInt8
  deriving DecidableEq

/-- The units that the parsers keep in the metadata. -/
def Nalu.isParameterSet (nalu : Nalu) : Bool :=
  nalu.type = .vps ∨ nalu.type = .sps ∨ nalu.type = .pps

/-- The parameter sets of a codec, in the order in which they are sent. -/
def VideoCodec.setTypes : VideoCodec → List NaluType
  | .h264 => [.sps, .pps]
  | .h265 => [.vps, .sps, .pps]

def VideoCodec.isKeyframe (nalus : List Nalu) (randomAccess : Bool) : VideoCodec → Bool
  | .h264 => nalus.any fun nalu => nalu.type = .idr ∨ nalu.type = .nonIdr ∧ randomAccess
  | .h265 => nalus.any fun nalu =>
    nalu.type = .idr ∨ nalu.type = .cra ∨ ¬ nalu.isParameterSet ∧ randomAccess

/-- The payload of a PES packet. Parameter sets come whole and in order, with a keyframe. -/
structure AccessUnit (codec : VideoCodec) where
  nalus : List Nalu
  pts : Option ℕ
  dts : Option ℕ
  filePosition : ℕ
  randomAccess : Bool
  sets : (nalus.filter Nalu.isParameterSet).map Nalu.type = [] ∨
    (nalus.filter Nalu.isParameterSet).map Nalu.type = codec.setTypes ∧
      codec.isKeyframe nalus randomAccess = true ∧ pts.isSome = true ∧ dts.isSome = true

structure Size where
  width : ℕ
  height : ℕ
  deriving DecidableEq

/-- The entries of `details` that are compared when an SPS comes. -/
structure VideoDetails where
  codecMimetype : String
  codecSize : Size
  presentSize : Size
  deriving DecidableEq

structure ParameterSets where
  vps : Option (List UInt8)
  sps : Option (List UInt8)
  pps : Option (List UInt8)
  deriving DecidableEq

def ParameterSets.receive (sets : ParameterSets) (nalu : Nalu) : ParameterSets :=
  match nalu.type with
  | .vps => { sets with vps := some nalu.data }
  | .sps => { sets with sps := some nalu.data }
  | .pps => { sets with pps := some nalu.data }
  | _ => sets

/-- A record, as the arguments of its constructor. -/
inductive DecoderConfiguration
  | avcc (sps pps : List UInt8) (details : Option VideoDetails)
  | hvcc (vps sps pps : List UInt8) (details : Option VideoDetails)
  deriving DecidableEq

/-- The parameter sets that a record contains. -/
def DecoderConfiguration.sets : DecoderConfiguration → ParameterSets
  | avcc sps pps _ => ⟨none, some sps, some pps⟩
  | hvcc vps sps pps _ => ⟨some vps, some sps, some pps⟩

structure VideoSample where
  units : List Nalu
  isKeyframe : Bool
  dts : ℕ
  pts : ℕ
  cts : ℤ
  filePosition : ℕ
  sets : ParameterSets
  deriving DecidableEq

inductive DemuxOutput
  | trackMetadata (config : DecoderConfiguration)
  | dataAvailable (samples : List VideoSample)
  deriving DecidableEq

structure VideoMetadata where
  vps : Option (List UInt8)
  sps : Option (List UInt8)
  pps : Option (List UInt8)
  details : Option VideoDetails
  deriving DecidableEq

structure VideoDemuxer where
  metadata : VideoMetadata
  initSegmentDispatched : Bool
  metadataChanged : Bool
  hasVideo : Bool
  hasAudio : Bool
  audioInitSegmentDispatched : Bool
  dropUntilKeyframe : Bool
  outputStarted : Bool
  track : List VideoSample
  out : List DemuxOutput
  inForce : ParameterSets
  deriving DecidableEq

/-- What a detected change is compared with: all entries are undefined before the first SPS. -/
def detectVideoMetadataChange (new : VideoDetails) : Option VideoDetails → Bool
  | none => true
  | some old =>
    if new.codecMimetype ≠ old.codecMimetype then true
    else if new.codecSize.width ≠ old.codecSize.width ∨
        new.codecSize.height ≠ old.codecSize.height then true
    else if new.presentSize.width ≠ old.presentSize.width then true
    else false

namespace VideoDemuxer

/-- When the PMT has named a video stream. -/
def opened (waitForInitialVideoKeyframe : Bool) : VideoDemuxer where
  metadata := ⟨none, none, none, none⟩
  initSegmentDispatched := false
  metadataChanged := false
  hasVideo := true
  hasAudio := false
  audioInitSegmentDispatched := false
  dropUntilKeyframe := waitForInitialVideoKeyframe
  outputStarted := !waitForInitialVideoKeyframe
  track := []
  out := []
  inForce := ⟨none, none, none⟩

def shouldWaitForVideoKeyframe (s : VideoDemuxer) : Bool := s.hasVideo && !s.outputStarted

def isInitSegmentDispatched (s : VideoDemuxer) : Bool :=
  match s.hasVideo, s.hasAudio with
  | true, true => s.initSegmentDispatched && s.audioInitSegmentDispatched
  | true, false => s.initSegmentDispatched
  | false, true => s.audioInitSegmentDispatched
  | false, false => false

/-- `onDataAvailable` with the video track; the remuxer empties it or leaves it as it is. -/
def handOver (taken : Bool) (s : VideoDemuxer) : VideoDemuxer :=
  if s.track = [] then s
  else
    { s with
      out := s.out ++ [.dataAvailable s.track]
      track := if taken then [] else s.track }

/-- With `force` set the remuxer takes all samples. -/
def dispatchVideoMediaSegment (s : VideoDemuxer) : VideoDemuxer :=
  if s.shouldWaitForVideoKeyframe then s
  else if s.isInitSegmentDispatched then s.handOver true
  else s

def dispatchAudioVideoMediaSegment (taken : Bool) (s : VideoDemuxer) : VideoDemuxer :=
  if s.shouldWaitForVideoKeyframe then s
  else if s.isInitSegmentDispatched then s.handOver taken
  else s

def flushSegmentBoundary (s : VideoDemuxer) : VideoDemuxer :=
  if s.shouldWaitForVideoKeyframe ∨ ¬ s.isInitSegmentDispatched then s else s.handOver true

def flushMediaBeforeTrackDiscontinuity (s : VideoDemuxer) : VideoDemuxer :=
  if s.shouldWaitForVideoKeyframe ∨ ¬ s.isInitSegmentDispatched then s else s.handOver true

def handleVideoDiscontinuity (s : VideoDemuxer) : VideoDemuxer :=
  { s.flushMediaBeforeTrackDiscontinuity with
    track := []
    dropUntilKeyframe := true
    outputStarted := false }

def resumeVideoOutputFromKeyframe (s : VideoDemuxer) : VideoDemuxer :=
  { s with dropUntilKeyframe := false, outputStarted := true }

def dispatchVideoInitSegment (s : VideoDemuxer) : VideoDemuxer :=
  let announce (config : DecoderConfiguration) : VideoDemuxer :=
    { s with
      out := s.out ++ [.trackMetadata config]
      initSegmentDispatched := true
      metadataChanged := false }
  match s.metadata with
  | ⟨some vps, some sps, some pps, details⟩ => announce (.hvcc vps sps pps details)
  | ⟨none, some sps, some pps, details⟩ => announce (.avcc sps pps details)
  | _ => s

def dispatchAudioInitSegment (s : VideoDemuxer) : VideoDemuxer :=
  { s with audioInitSegmentDispatched := true, metadataChanged := false }

/-- What both parsers do when the sets are there: the samples collected so far go first. -/
def announceSets (s : VideoDemuxer) : VideoDemuxer :=
  (if s.metadataChanged then s.dispatchVideoMediaSegment else s).dispatchVideoInitSegment

section Parsers

variable (parseSPS : List UInt8 → VideoDetails)

def h264Nalu (s : VideoDemuxer) (nalu : Nalu) : VideoDemuxer :=
  match nalu.type with
  | .sps =>
    let details := parseSPS nalu.data
    if s.initSegmentDispatched = false then
      { s with metadata := { s.metadata with sps := some nalu.data, details := some details } }
    else if detectVideoMetadataChange details s.metadata.details then
      { s with metadataChanged := true, metadata := ⟨none, some nalu.data, none, some details⟩ }
    else
      s
  | .pps =>
    if s.initSegmentDispatched = false ∨ s.metadataChanged then
      let s := { s with metadata := { s.metadata with pps := some nalu.data } }
      if s.metadata.sps ≠ none then s.announceSets else s
    else
      s
  | _ => s

def h265Nalu (s : VideoDemuxer) (nalu : Nalu) : VideoDemuxer :=
  match nalu.type with
  | .vps =>
    if s.initSegmentDispatched = false then
      { s with metadata := { s.metadata with vps := some nalu.data } }
    else
      s
  | .sps =>
    let details := parseSPS nalu.data
    if s.initSegmentDispatched = false then
      { s with metadata := { s.metadata with sps := some nalu.data, details := some details } }
    else if detectVideoMetadataChange details s.metadata.details then
      { s with metadataChanged := true, metadata := ⟨none, some nalu.data, none, some details⟩ }
    else
      s
  | .pps =>
    if s.initSegmentDispatched = false ∨ s.metadataChanged then
      let s := { s with metadata := { s.metadata with pps := some nalu.data } }
      if s.metadata.vps ≠ none ∧ s.metadata.sps ≠ none then s.announceSets else s
    else
      s
  | _ => s

def parseNalu : VideoCodec → VideoDemuxer → Nalu → VideoDemuxer
  | .h264 => h264Nalu parseSPS
  | .h265 => h265Nalu parseSPS

def receive (codec : VideoCodec) (s : VideoDemuxer) (nalu : Nalu) : VideoDemuxer :=
  { parseNalu parseSPS codec s nalu with inForce := s.inForce.receive nalu }

/-- The loop over the units; they are kept once a configuration has been announced. -/
def parseNalus (codec : VideoCodec) (nalus : List Nalu) (s : VideoDemuxer) :
    VideoDemuxer × List Nalu :=
  nalus.foldl (fun r nalu =>
    let s := receive parseSPS codec r.1 nalu
    (s, if s.initSegmentDispatched then r.2 ++ [nalu] else r.2)) (s, [])

variable {codec : VideoCodec}

def pushSample (au : AccessUnit codec) (units : List Nalu) (pts dts : ℕ) (s : VideoDemuxer) :
    VideoDemuxer :=
  if units = [] then s
  else
    { s with
      track := s.track ++ [{
        units := units
        isKeyframe := codec.isKeyframe au.nalus au.randomAccess
        dts := dts / 90
        pts := pts / 90
        cts := (pts / 90 : ℕ) - (dts / 90 : ℕ)
        filePosition := au.filePosition
        sets := s.inForce }] }

/-- `parseH264Payload` and `parseH265Payload`. -/
def parsePayload (au : AccessUnit codec) (s : VideoDemuxer) : VideoDemuxer :=
  let (s, units) := parseNalus parseSPS codec au.nalus s
  match au.pts, au.dts with
  | some pts, some dts =>
    if s.dropUntilKeyframe ∨ ¬ s.outputStarted then
      if ¬ codec.isKeyframe au.nalus au.randomAccess ∨ units = [] then s
      else s.resumeVideoOutputFromKeyframe.pushSample au units pts dts
    else
      s.pushSample au units pts dts
  | _, _ => s

end Parsers

/-- What happens to the demuxer: a video payload, the first audio frame of a configuration, a PMT
    that lists audio, the end of a chunk or of a segment, a continuity error of either track. -/
inductive Event (codec : VideoCodec)
  | payload (au : AccessUnit codec)
  | audioInit
  | pmtWithAudio
  | chunkEnd (taken : Bool)
  | segmentEnd
  | videoDiscontinuity
  | audioDiscontinuity

def step (parseSPS : List UInt8 → VideoDetails) {codec : VideoCodec} (s : VideoDemuxer) :
    Event codec → VideoDemuxer
  | .payload au => s.parsePayload parseSPS au
  | .audioInit => s.dispatchAudioInitSegment
  | .pmtWithAudio => { s with hasAudio := true }
  | .chunkEnd taken => s.dispatchAudioVideoMediaSegment taken
  | .segmentEnd => s.flushSegmentBoundary
  | .videoDiscontinuity => s.handleVideoDiscontinuity
  | .audioDiscontinuity => s.flushMediaBeforeTrackDiscontinuity

end VideoDemuxer

end Apackage.Rtp2httpd.Player
