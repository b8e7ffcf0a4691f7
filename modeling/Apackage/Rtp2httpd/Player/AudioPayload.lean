import Mathlib.Algebra.Order.Floor.Ring
import Mathlib.Data.Rat.Floor
import Apackage.Rtp2httpd.Player.AudioEnds

/-
  Audio payloads (`ts-demuxer.ts`).

  The four functions put the payload of a PES packet behind the unfinished frame of the one before
  it, read its frames and push them to the audio track. The first frame gets the timestamp of the
  packet, or one frame after the last frame's when the packet has none or when an unfinished frame
  was carried over and the two differ by more than a millisecond.

  Model. Milliseconds are exact rational numbers; none stands for NaN and undefined. The samples are
  all that were pushed, also those that were flushed since. A sample's dts is its pts and its length
  that of its unit.
-/

namespace Apackage.Rtp2httpd.Player

open Lib.FrameScan

inductive AudioCodec
  | aac
  | ac3
  | eac3
  deriving DecidableEq

namespace AudioMetadata

def codec : AudioMetadata → AudioCodec
  | .aac _ _ _ => .aac
  | .ac3 _ _ _ _ _ => .ac3
  | .eac3 _ _ _ _ _ => .eac3

def samplingFrequency : AudioMetadata → Option ℕ
  | .aac _ samplingFreqIndex _ => mpeg4SamplingFrequencies[samplingFreqIndex]?
  | .ac3 samplingFrequency _ _ _ _ => some samplingFrequency
  | .eac3 samplingFrequency _ _ _ _ => some samplingFrequency

def frameSamples : AudioMetadata → ℕ
  | .aac _ _ _ => 1024
  | .ac3 _ _ _ _ _ => 1536
  | .eac3 _ _ _ numBlks _ => 256 * numBlks

def refSampleDuration (metadata : AudioMetadata) : Option ℚ :=
  metadata.samplingFrequency.map fun samplingFrequency : ℕ =>
    (metadata.frameSamples : ℚ) / samplingFrequency * 1000

end AudioMetadata

namespace AudioFormat

def codec : AudioFormat → AudioCodec
  | .adts => .aac
  | .loas => .aac
  | .ac3 => .ac3
  | .eac3 => .eac3

/-- A last timestamp that counts: `if (pts)` for AAC, `if (pts !== undefined)` for the others. -/
def counts (format : AudioFormat) (pts : ℚ) : Bool := format.codec ≠ .aac || pts ≠ 0

end AudioFormat

structure AudioSample where
  unit : Bytes
  pts : Option ℤ

structure AudioState where
  /-- `has_video_ && !video_init_segment_dispatched_ || shouldWaitForVideoKeyframe()`. -/
  waitsForVideo : Bool
  audioInitSegmentDispatched : Bool
  audioMetadata : Option AudioMetadata
  audioLastSamplePts : Option ℚ
  /-- `aac_last_incomplete_data_`, `ac3_last_incomplete_data_`, `eac3_last_incomplete_data_`. -/
  lastIncompleteData : AudioCodec → Option Bytes
  loasPreviousFrame : Option AudioFrame
  samples : List AudioSample

def AudioState.opened : AudioState := ⟨false, false, none, none, fun _ => none, none, []⟩

/-- `base_pts_ms` where the metadata is of the codec: none when nothing is known. -/
def knownBasePts (format : AudioFormat) (s : AudioState) (metadata : AudioMetadata)
    (pts : Option ℚ) : Option (Option ℚ) :=
  let next := s.audioLastSamplePts.bind fun last => metadata.refSampleDuration.map (last + ·)
  match pts, s.audioLastSamplePts with
  | none, none => none
  | none, some _ => some next
  | some pts, none => some (some pts)
  | some pts, some last =>
    if (s.lastIncompleteData format.codec).isSome && format.counts last &&
        next.any (fun next => 1 < |next - pts|) then some next
    else some (some pts)

/-- `pts / this.timescale_`. -/
def ptsMs (pts : ℕ) : ℚ := pts / 90

/-- `base_pts_ms`, none when the payload is not read. -/
def basePtsMs (format : AudioFormat) (s : AudioState) (pts : Option ℕ) : Option (Option ℚ) :=
  let basePts := pts.map ptsMs
  match s.audioMetadata.filter (·.codec = format.codec) with
  | some metadata => knownBasePts format s metadata basePts
  | none => if format.codec ≠ .aac ∧ basePts = none then none else some basePts

/-- The frame loop: the demuxer, `sample_pts_ms` and `last_sample_pts_ms`. -/
structure Pushing where
  state : AudioState
  samplePts : Option ℚ
  lastSamplePts : Option ℚ

/-- `detectAudioMetadataChange` and what follows for the metadata. -/
def nextMetadata (format : AudioFormat) (s : AudioState) (frame : AudioFrame) :
    Option AudioMetadata :=
  if !s.audioInitSegmentDispatched then some frame.metadata
  else if s.audioMetadata ≠ some frame.metadata ∧ format.codec ≠ .aac then some frame.metadata
  else s.audioMetadata

def pushFrame (format : AudioFormat) (p : Pushing) (frame : AudioFrame) : Pushing where
  state :=
    { p.state with
      audioMetadata := nextMetadata format p.state frame
      audioInitSegmentDispatched := true
      loasPreviousFrame := if format = .loas then some frame else p.state.loasPreviousFrame
      samples := p.state.samples ++ [⟨frame.data, p.samplePts.map Int.floor⟩] }
  samplePts := p.samplePts.bind fun pts => frame.metadata.refSampleDuration.map (pts + ·)
  lastSamplePts := p.samplePts

/-- What is kept for the next payload. -/
def finishPayload (format : AudioFormat) (p : Pushing) (left : Option Bytes) : AudioState :=
  { p.state with
    lastIncompleteData := Function.update p.state.lastIncompleteData format.codec left
    audioLastSamplePts := (p.lastSamplePts.filter format.counts).or p.state.audioLastSamplePts }

/-- A payload; none when the frame loop throws or does not end. -/
def parsePayload (format : AudioFormat) (s : AudioState) (payload : Bytes) (pts : Option ℕ) :
    Option AudioState :=
  if s.waitsForVideo then some s
  else
    match basePtsMs format s pts with
    | none => some s
    | some base =>
      let data := joinedData (s.lastIncompleteData format.codec) payload
      let parsed := format.parser.parse data.length s.loasPreviousFrame data
      let pushed := parsed.frames.foldl (pushFrame format) ⟨s, base, none⟩
      match parsed.ending with
      | .done left => some (finishPayload format pushed left)
      | _ => none

def parseADTSAACPayload := parsePayload .adts

def parseLOASAACPayload := parsePayload .loas

def parseAC3Payload := parsePayload .ac3

def parseEAC3Payload := parsePayload .eac3

end Apackage.Rtp2httpd.Player
