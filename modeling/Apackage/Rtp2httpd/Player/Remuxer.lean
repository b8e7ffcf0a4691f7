import Mathlib.Data.Rat.Defs
import Apackage.Rtp2httpd.Player.Mp4Boxes

/-
  The remuxer (`mp4-remuxer.ts`).

  A batch of samples goes out as one segment. Its last sample is stashed unless the batch is forced,
  the sample stashed before comes first, samples that overlap the last segment are dropped, and so
  is audio before the start and video below the presentation floor. The size of `mdat` follows every
  one of these steps.

  Model. Times are numbers of any kind with the operations that the code uses, so also doubles. A
  sample carries that its length is that of its bytes, a queue that its length is that of its
  samples. A result is none when an array is written behind its end. The silent audio of the
  software decoder is left out.
-/

namespace Apackage.Rtp2httpd.Player.Remux

open List Lib.Region Lib.Boxes

/-- The numbers of the timeline. -/
class JsNumber (ν : Type) extends Add ν, Sub ν where
  ofRat : ℚ → ν
  lt : ν → ν → Bool
  equals : ν → ν → Bool
  isFinite : ν → Bool
  round : ν → ν
  max : ν → ν → ν
  /-- The 32 bits of `x >>> 0`. -/
  toUint32 : ν → UInt32

/-- Exact numbers. -/
instance : JsNumber ℚ where
  ofRat x := x
  lt x y := x < y
  equals x y := x = y
  isFinite _ := true
  round x := (x + 1 / 2).floor
  max x y := if x < y then y else x
  toUint32 x := UInt32.ofInt (x.num.tdiv x.den)

/-! ## Samples -/

structure AudioSample (ν : Type) where
  unit : Bytes
  dts : ν
  length : ℕ
  length_eq : length = unit.length

structure VideoUnit where
  data : Bytes
  lengthPrefixed : Option Bool

/-- What is written of a unit: H.264 units come behind their length. -/
def VideoUnit.written (unit : VideoUnit) : List Bytes :=
  if unit.lengthPrefixed = some false then [bytesOf 4 unit.data.length, unit.data]
  else [unit.data]

def videoBytes (units : List VideoUnit) : Bytes := (units.flatMap VideoUnit.written).flatten

structure VideoSample (ν : Type) where
  units : List VideoUnit
  dts : ν
  cts : ν
  length : ℕ
  isKeyframe : Bool
  length_eq : length = (videoBytes units).length

structure DemuxTrack {α : Type} (size : α → ℕ) where
  id : ℕ
  sequenceNumber : ℕ
  samples : List α
  length : ℕ
  length_eq : length = (samples.map size).sum

namespace DemuxTrack

variable {α : Type} {size : α → ℕ}

theorem length_empty : 0 = (([] : List α).map size).sum := rfl

/-- `track.samples = []` and `track.length = 0`. -/
def emptied (track : DemuxTrack size) (sequenceNumber : ℕ) : DemuxTrack size :=
  ⟨track.id, sequenceNumber, [], 0, length_empty⟩

end DemuxTrack

abbrev AudioTrack (ν : Type) := DemuxTrack (AudioSample.length (ν := ν))

abbrev VideoTrack (ν : Type) := DemuxTrack (VideoSample.length (ν := ν))

/-- A sample as it goes out; `unit` are the bytes of audio or the units of video. -/
structure MP4Sample (ν υ : Type) where
  dts : ν
  cts : ν
  unit : υ
  size : ℕ
  duration : ν
  originalDts : ν
  flags : SampleFlags

structure TrackTimingState (ν : Type) where
  lastOriginalDts : Option ν
  lastOriginalEndDts : Option ν
  lastOutputEndDts : Option ν
  lastOutputDuration : Option ν
  durationResidual : ν

structure TrackMetadata (ν : Type) where
  codec : String
  /-- None if it is not a number. -/
  refSampleDuration : Option ν

structure Remuxer (ν : Type) where
  dtsBase : ν
  dtsBaseInited : Bool
  dtsBaseOffset : ν
  audioNextDts : Option ν
  videoNextDts : Option ν
  audioStashedLastSample : Option (AudioSample ν)
  videoStashedLastSample : Option (VideoSample ν)
  audioTiming : TrackTimingState ν
  videoTiming : TrackTimingState ν
  videoPresentationOffset : Option ν
  videoInitialPresentationOffset : Option ν
  videoInitialOutputTime : Option ν
  audioMeta : Option (TrackMetadata ν)
  videoMeta : Option (TrackMetadata ν)
  mp3UseMpegAudio : Bool
  tsSegmentContinuityNormalization : Bool
  audioMediaSegmentEmitted : Bool
  videoMediaSegmentEmitted : Bool

structure MediaSegment (ν : Type) where
  data : Bytes
  timestampOffset : Option ν

/-- The remuxer, the queue and what was emitted. -/
structure Remuxed {α : Type} (ν : Type) (size : α → ℕ) where
  remuxer : Remuxer ν
  track : DemuxTrack size
  segment : Option (MediaSegment ν)

/-! ## The queue -/

/-- The samples to remux, the size of `mdat` so far and the sample that is stashed. -/
structure Batch (α : Type) where
  samples : List α
  mdatBytes : ℤ
  stashed : Option α

section Queue

variable {ν α : Type} [JsNumber ν]

/-- The last sample is popped unless the batch is forced, the stashed one is put in front. -/
def takeBatch (length : α → ℕ) (samples : List α) (stashed : Option α) (force : Bool)
    (mdatBytes : ℤ) : Batch α :=
  let lastSample := if 1 < samples.length ∧ force = false then samples.getLast? else none
  let samples := if 1 < samples.length ∧ force = false then samples.dropLast else samples
  let mdatBytes := mdatBytes - (lastSample.map length).getD 0
  ⟨stashed.toList ++ samples, mdatBytes + (stashed.map length).getD 0, lastSample⟩

/-- The loop of `_dropOverlappingTrackSamples`. -/
def dropUpTo (length : α → ℕ) (originalDts : α → ν) (lastOriginalDts : ν) : List α → ℤ → List α × ℤ
  | [], mdatBytes => ([], mdatBytes)
  | sample :: samples, mdatBytes =>
    if JsNumber.lt lastOriginalDts (originalDts sample) then (sample :: samples, mdatBytes)
    else dropUpTo length originalDts lastOriginalDts samples (mdatBytes - length sample)

def dropOverlappingTrackSamples (s : Remuxer ν) (length : α → ℕ) (originalDts : α → ν)
    (timing : TrackTimingState ν) (batch : Batch α) : Batch α :=
  if s.tsSegmentContinuityNormalization then
    match timing.lastOriginalDts with
    | none => batch
    | some lastOriginalDts =>
      let dropped := dropUpTo length originalDts lastOriginalDts batch.samples batch.mdatBytes
      { batch with samples := dropped.1, mdatBytes := dropped.2 }
  else batch

end Queue

/-! ## The timeline -/

section Timeline

variable {ν υ : Type} [JsNumber ν]

def computeDtsCorrection (s : Remuxer ν) (firstSampleOriginalDts : ν) (nextDts : Option ν)
    (timing : TrackTimingState ν) : ν :=
  match nextDts, timing.lastOriginalEndDts, timing.lastOutputEndDts with
  | some nextDts, _, _ => firstSampleOriginalDts - nextDts
  | none, some lastOriginalEndDts, some lastOutputEndDts =>
    let distance := firstSampleOriginalDts - lastOriginalEndDts
    let bridgedDistance :=
      if JsNumber.lt (JsNumber.ofRat 0) distance then JsNumber.ofRat 0 else distance
    firstSampleOriginalDts - (lastOutputEndDts + bridgedDistance)
  | none, _, _ => firstSampleOriginalDts - s.dtsBaseOffset

def recordTrackTiming (timing : TrackTimingState ν) (sample : MP4Sample ν υ) : TrackTimingState ν :=
  { timing with
    lastOriginalDts := some sample.originalDts
    lastOriginalEndDts := some (sample.originalDts + sample.duration)
    lastOutputEndDts := some (sample.dts + sample.duration) }

def nextSampleDuration (timing : TrackTimingState ν) (refSampleDuration : Option ν)
    (fallbackDuration : ν) : ν × TrackTimingState ν :=
  let usable := refSampleDuration.filter fun d =>
    JsNumber.isFinite d && JsNumber.lt (JsNumber.ofRat 0) d
  let reference := usable.getD (timing.lastOutputDuration.getD fallbackDuration)
  let withResidual := reference + timing.durationResidual
  let duration := JsNumber.max (JsNumber.ofRat 1) (JsNumber.round withResidual)
  (duration, { timing with
    durationResidual := withResidual - duration
    lastOutputDuration := some duration })

/-- The loop over the samples. -/
structure SampleRun (ν υ : Type) where
  nextOutputDts : ν
  firstDts : ν
  timing : TrackTimingState ν
  mdatBytes : ℤ
  mp4Samples : List (MP4Sample ν υ)

def SampleRun.start (firstOutputDts : ν) (timing : TrackTimingState ν) (mdatBytes : ℤ) :
    SampleRun ν υ := ⟨firstOutputDts, JsNumber.ofRat (-1), timing, mdatBytes, []⟩

def SampleRun.skip (r : SampleRun ν υ) (length : ℕ) : SampleRun ν υ :=
  { r with mdatBytes := r.mdatBytes - length }

/-- A sample that goes out at the next output time. -/
def SampleRun.emit (r : SampleRun ν υ) (cts originalDts : ν) (unit : υ) (size : ℕ)
    (flags : SampleFlags) (refSampleDuration : Option ν) (fallbackDuration : ν) :
    SampleRun ν υ :=
  let next := nextSampleDuration r.timing refSampleDuration fallbackDuration
  { nextOutputDts := r.nextOutputDts + next.1
    firstDts :=
      if JsNumber.equals r.firstDts (JsNumber.ofRat (-1)) then r.nextOutputDts else r.firstDts
    timing := next.2
    mdatBytes := r.mdatBytes
    mp4Samples := r.mp4Samples ++ [⟨r.nextOutputDts, cts, unit, size, next.1, originalDts, flags⟩] }

def MP4Sample.entry (sample : MP4Sample ν υ) : SampleEntry :=
  ⟨JsNumber.toUint32 sample.duration, sample.size, JsNumber.toUint32 sample.cts, sample.flags⟩

end Timeline

/-! ## Audio -/

namespace Remuxer

variable {ν : Type} [JsNumber ν]

def mpegRawTrack (s : Remuxer ν) : Bool :=
  s.audioMeta.any fun audioMeta => audioMeta.codec = "mp3" && s.mp3UseMpegAudio

/-- The batch without the samples that overlap. -/
def audioBatch (s : Remuxer ν) (track : AudioTrack ν) (force : Bool) : Batch (AudioSample ν) :=
  dropOverlappingTrackSamples s AudioSample.length (fun sample => sample.dts - s.dtsBase)
    s.audioTiming (takeBatch AudioSample.length track.samples s.audioStashedLastSample force
      ((if s.mpegRawTrack then 0 else 8) + track.length))

def audioFlags : SampleFlags := ⟨0, 1, 0, 0, 0⟩

def audioStep (s : Remuxer ν) (r : SampleRun ν Bytes) (sample : AudioSample ν) :
    SampleRun ν Bytes :=
  let originalDts := sample.dts - s.dtsBase
  if JsNumber.lt originalDts (JsNumber.ofRat (-1 / 1000)) then r.skip sample.length
  else r.emit (JsNumber.ofRat 0) originalDts sample.unit sample.unit.length audioFlags
    (s.audioMeta.bind TrackMetadata.refSampleDuration) (JsNumber.ofRat 26)

/-- The loop over a batch that is not empty. -/
def audioRun (s : Remuxer ν) (first : AudioSample ν) (batch : Batch (AudioSample ν)) :
    SampleRun ν Bytes :=
  let firstSampleOriginalDts := first.dts - s.dtsBase
  let dtsCorrection := computeDtsCorrection s firstSampleOriginalDts s.audioNextDts s.audioTiming
  batch.samples.foldl s.audioStep
    (.start (firstSampleOriginalDts - dtsCorrection) s.audioTiming batch.mdatBytes)

/-- `new Uint8Array(size)`, none when it throws. -/
def newUint8Array (size : ℤ) : Option Bytes :=
  if size < 0 then none else some (List.replicate size.toNat 0)

def mergeBoxes (moof mdat : Bytes) : Option Bytes := do
  let result ← store (List.replicate (moof.length + mdat.length) 0) 0 moof
  store result moof.length mdat

/-- `mdatbox` and what is in front of it. -/
def audioData (s : Remuxer ν) (track : MP4Track) (r : SampleRun ν Bytes) : Option Bytes := do
  let mdatbox ← newUint8Array r.mdatBytes
  let units := r.mp4Samples.map MP4Sample.unit
  if s.mpegRawTrack then
    let mdatbox ← storeAll mdatbox 0 units
    mergeBoxes [] mdatbox
  else
    let mdatbox ← store mdatbox 0 (bytesOf 4 r.mdatBytes.toNat)
    let mdatbox ← store mdatbox 4 (MP4.boxType 'm' 'd' 'a' 't')
    let mdatbox ← storeAll mdatbox 8 units
    let moofbox ← MP4.moof track (JsNumber.toUint32 r.firstDts)
    mergeBoxes moofbox mdatbox

def audioRemuxed (s : Remuxer ν) (r : SampleRun ν Bytes) (latest : MP4Sample ν Bytes) : Remuxer ν :=
  { s with
    audioNextDts := some (latest.dts + latest.duration)
    audioTiming := recordTrackTiming r.timing latest
    audioMediaSegmentEmitted := true }

def remuxAudio (s : Remuxer ν) (track : AudioTrack ν) (force : Bool) :
    Option (Remuxed ν (AudioSample.length (ν := ν))) :=
  if s.audioMeta.isNone ∨ track.samples = [] ∨ track.samples.length = 1 ∧ force = false then
    some ⟨s, track, none⟩
  else
    let batch := s.audioBatch track force
    let s' := { s with audioStashedLastSample := batch.stashed }
    match batch.samples.head? with
    | none => some ⟨s', track.emptied track.sequenceNumber, none⟩
    | some first =>
      let r := s.audioRun first batch
      match r.mp4Samples.getLast? with
      | none => some ⟨{ s' with audioTiming := r.timing }, track.emptied track.sequenceNumber, none⟩
      | some latest => do
        let sequenceNumber := track.sequenceNumber + 1
        let data ← s.audioData ⟨track.id, sequenceNumber, r.mp4Samples.map MP4Sample.entry⟩ r
        let timestampOffset :=
          if s.mpegRawTrack && s.dtsBaseInited && s.audioNextDts.isNone then some r.firstDts
          else none
        pure ⟨s'.audioRemuxed r latest, track.emptied sequenceNumber, some ⟨data, timestampOffset⟩⟩

/-! ## Video -/

def videoBatch (s : Remuxer ν) (track : VideoTrack ν) (force : Bool) : Batch (VideoSample ν) :=
  dropOverlappingTrackSamples s VideoSample.length (fun sample => sample.dts - s.dtsBase)
    s.videoTiming (takeBatch VideoSample.length track.samples s.videoStashedLastSample force
      (8 + track.length))

def videoFlags (isKeyframe : Bool) : SampleFlags :=
  if isKeyframe then ⟨0, 2, 1, 0, 0⟩ else ⟨0, 1, 0, 0, 1⟩

/-- The loop over the samples, and the offsets that it sets. -/
structure VideoRun (ν : Type) where
  samples : SampleRun ν (List VideoUnit)
  videoPresentationOffset : Option ν
  videoInitialPresentationOffset : Option ν
  videoInitialOutputTime : Option ν

def videoStep (s : Remuxer ν) (dtsCorrection presentationFloor : ν) (r : VideoRun ν)
    (sample : VideoSample ν) : VideoRun ν :=
  let originalDts := sample.dts - s.dtsBase
  let dts := r.samples.nextOutputDts
  let originalPts := originalDts + sample.cts
  let correctedPtsBase :=
    if s.tsSegmentContinuityNormalization then originalPts - dtsCorrection else originalPts
  let offset := r.videoPresentationOffset.getD (correctedPtsBase - dts)
  let initialOffset :=
    if r.videoPresentationOffset.isNone then
      some (r.videoInitialPresentationOffset.getD offset)
    else r.videoInitialPresentationOffset
  let pts := correctedPtsBase - offset
  if JsNumber.lt pts (presentationFloor - JsNumber.ofRat (1 / 1000)) then
    ⟨r.samples.skip sample.length, some offset, initialOffset, r.videoInitialOutputTime⟩
  else
    ⟨r.samples.emit (pts - dts) originalDts sample.units sample.length
        (videoFlags sample.isKeyframe) (s.videoMeta.bind TrackMetadata.refSampleDuration)
        (JsNumber.ofRat 40),
      some offset, initialOffset, some (r.videoInitialOutputTime.getD dts)⟩

def videoRun (s : Remuxer ν) (first : VideoSample ν) (batch : Batch (VideoSample ν)) : VideoRun ν :=
  let firstSampleOriginalDts := first.dts - s.dtsBase
  let dtsCorrection := computeDtsCorrection s firstSampleOriginalDts s.videoNextDts s.videoTiming
  let presentationFloor := s.videoInitialOutputTime.getD s.dtsBaseOffset
  batch.samples.foldl (s.videoStep dtsCorrection presentationFloor)
    ⟨.start (firstSampleOriginalDts - dtsCorrection) s.videoTiming batch.mdatBytes,
      s.videoPresentationOffset, s.videoInitialPresentationOffset, s.videoInitialOutputTime⟩

/-- `moof`, the head of `mdat` and the units, written into one array. -/
def videoData (track : MP4Track) (r : SampleRun ν (List VideoUnit)) : Option Bytes := do
  let moofbox ← MP4.moof track (JsNumber.toUint32 r.firstDts)
  let segment ← newUint8Array (moofbox.length + r.mdatBytes)
  let segment ← store segment 0 moofbox
  let segment ← store segment moofbox.length (bytesOf 4 r.mdatBytes.toNat)
  let segment ← store segment (moofbox.length + 4) (MP4.boxType 'm' 'd' 'a' 't')
  storeAll segment (moofbox.length + 8)
    (r.mp4Samples.flatMap fun sample => sample.unit.flatMap VideoUnit.written)

def videoLooped (s : Remuxer ν) (r : VideoRun ν) : Remuxer ν :=
  { s with
    videoTiming := r.samples.timing
    videoPresentationOffset := r.videoPresentationOffset
    videoInitialPresentationOffset := r.videoInitialPresentationOffset
    videoInitialOutputTime := r.videoInitialOutputTime }

def videoRemuxed (s : Remuxer ν) (latest : MP4Sample ν (List VideoUnit)) : Remuxer ν :=
  { s with
    videoNextDts := some (latest.dts + latest.duration)
    videoTiming := recordTrackTiming s.videoTiming latest
    videoMediaSegmentEmitted := true }

def remuxVideo (s : Remuxer ν) (track : VideoTrack ν) (force : Bool) :
    Option (Remuxed ν (VideoSample.length (ν := ν))) :=
  if s.videoMeta.isNone ∨ track.samples = [] ∨ track.samples.length = 1 ∧ force = false then
    some ⟨s, track, none⟩
  else
    let batch := s.videoBatch track force
    let s' := { s with videoStashedLastSample := batch.stashed }
    match batch.samples.head? with
    | none => some ⟨s', track.emptied track.sequenceNumber, none⟩
    | some first =>
      let r := s.videoRun first batch
      match r.samples.mp4Samples.getLast? with
      | none => some ⟨s'.videoLooped r, track.emptied track.sequenceNumber, none⟩
      | some latest => do
        let sequenceNumber := track.sequenceNumber + 1
        let data ← videoData
          ⟨track.id, sequenceNumber, r.samples.mp4Samples.map MP4Sample.entry⟩ r.samples
        pure ⟨(s'.videoLooped r).videoRemuxed latest, track.emptied sequenceNumber,
          some ⟨data, none⟩⟩

end Remuxer

end Apackage.Rtp2httpd.Player.Remux
