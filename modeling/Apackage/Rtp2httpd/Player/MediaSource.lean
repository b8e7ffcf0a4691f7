import Mathlib.Logic.Function.Basic
import Mathlib.Algebra.Order.Ring.Rat

/-
  The append queues of Media Source Extensions in the web player (`mse/media-source.ts`).

  `Mse` is the closure of `createMediaSourceController` with the state of the browser's objects.
  What the browser decides, a full buffer or a type it does not know, comes with each event.
  Properties of the browser's objects change on their own, and the events that announce the changes
  come later. Each segment is recorded with the type that the last init segment queued before it
  announced; `received` is what the SourceBuffer got, under which type.
-/

namespace Apackage.Rtp2httpd.Player

inductive Track
  | video
  | audio
  deriving DecidableEq

structure RemoveRange where
  start : ℚ
  stop : ℚ

structure PendingSegment where
  data : List UInt8
  timestampOffset : Option ℚ
  isMedia : Bool
  announced : Option String
  deriving DecidableEq

structure PendingInit where
  track : Track
  codec : String
  container : String

structure SourceBuffer where
  updating : Bool
  mimeType : String
  timestampOffset : ℚ

inductive ReadyState
  | detached
  | closed
  | opened
  | ended
  deriving DecidableEq

/-- The records of the controller kept for each track. -/
structure TrackState where
  sourceBuffer : Option SourceBuffer
  pendingSegments : List PendingSegment
  pendingRemoveRanges : List RemoveRange
  mimeType : Option String
  disabled : Bool
  lastAnnounced : Option String
  queued : List PendingSegment
  received : List (PendingSegment × String)

structure CleanupConfig where
  bufferCleanupMaxBackward : ℚ
  bufferCleanupMinBackward : ℚ

structure Mse where
  useManagedMediaSource : Bool
  config : CleanupConfig
  readyState : ReadyState
  streaming : Option Bool
  duration : Option ℚ
  sourceOpenListener : Bool
  track : Track → TrackState
  pendingSourceBufferInit : List PendingInit
  isBufferFull : Bool
  hasPendingEos : Bool
  pendingDuration : Option ℚ
  /-- The segments that waited in both queues at each call of `endOfStream`. -/
  signalled : List (List PendingSegment)

inductive AppendOutcome
  | ok
  | quotaExceeded
  | failed

inductive TypeOutcome
  | ok
  | notSupported
  | failed
  deriving DecidableEq

/-- What the browser answers while one event is handled. -/
structure Browser where
  appendBuffer : Track → AppendOutcome
  setType : Track → String → TypeOutcome
  setDuration : Bool
  buffered : Track → List (ℚ × ℚ)
  currentTime : ℚ

inductive MseEvent
  | open
  | opened
  | sourceOpen
  | sourceClose
  | streaming (on : Bool)
  | startStreaming
  | updated (track : Track)
  | updateEnd
  | appendInit (track : Track) (data : List UInt8) (codec container : String)
  | appendMedia (track : Track) (data : List UInt8) (timestampOffset : Option ℚ)
  | setDuration (seconds : ℚ)
  | endOfStream

/-- Quoted, since the list of codecs may hold commas. -/
def mimeTypeOf (codec container : String) : String :=
  if 0 < codec.length then container ++ ";codecs=\"" ++ codec ++ "\"" else container

namespace TrackState

def empty : TrackState := ⟨none, [], [], none, false, none, [], []⟩

def updating (x : TrackState) : Bool := (x.sourceBuffer.map (·.updating)).getD false

def setUpdating (updating : Bool) (x : TrackState) : TrackState :=
  { x with sourceBuffer := x.sourceBuffer.map fun sb => { sb with updating := updating } }

def enqueue (entry : PendingSegment) (x : TrackState) : TrackState :=
  { x with
    pendingSegments := x.pendingSegments ++ [entry]
    lastAnnounced := entry.announced
    queued := x.queued ++ [entry] }

end TrackState

namespace Mse

def created (managed : Bool) (config : CleanupConfig) : Mse where
  useManagedMediaSource := managed
  config := config
  readyState := .detached
  streaming := if managed then some false else none
  duration := none
  sourceOpenListener := false
  track := fun _ => .empty
  pendingSourceBufferInit := []
  isBufferFull := false
  hasPendingEos := false
  pendingDuration := none
  signalled := []

def setTrack (t : Track) (x : TrackState) (s : Mse) : Mse :=
  { s with track := Function.update s.track t x }

def hasPendingSegments (s : Mse) : Bool :=
  (s.track .video).pendingSegments ≠ [] ∨ (s.track .audio).pendingSegments ≠ []

def hasPendingRemoveRanges (s : Mse) : Bool :=
  (s.track .video).pendingRemoveRanges ≠ [] ∨ (s.track .audio).pendingRemoveRanges ≠ []

def disableTrack (t : Track) (s : Mse) : Mse :=
  { s.setTrack t
      { s.track t with disabled := true, pendingSegments := [], pendingRemoveRanges := [] } with
    pendingSourceBufferInit := s.pendingSourceBufferInit.filter fun pending => pending.track ≠ t }

/-- `remove` of the first range; the buffer is then updating, so the loop ends. -/
def removeRange (t : Track) (s : Mse) : Mse :=
  let x := s.track t
  match x.sourceBuffer, x.pendingRemoveRanges with
  | some sb, _ :: ranges =>
    if sb.updating then s
    else
      { s.setTrack t { x.setUpdating true with pendingRemoveRanges := ranges } with
        readyState := if s.readyState = .ended then .opened else s.readyState }
  | _, _ => s

def doRemoveRanges (s : Mse) : Mse := (s.removeRange .video).removeRange .audio

def canAppendToManagedSource (s : Mse) : Bool :=
  !s.useManagedMediaSource || s.streaming ≠ some false

def appendSegment (b : Browser) (t : Track) (s : Mse) : Mse :=
  let x := s.track t
  match x.sourceBuffer, x.pendingSegments with
  | some sb, entry :: rest =>
    if sb.updating ∨ s.canAppendToManagedSource = false then s
    else if entry.data = [] then s.setTrack t { x with pendingSegments := rest }
    else
      let sb := { sb with timestampOffset := (entry.timestampOffset.map (· / 1000)).getD sb.timestampOffset }
      match b.appendBuffer t with
      | .ok =>
        { s.setTrack t
            { x with
              pendingSegments := rest
              sourceBuffer := some { sb with updating := true }
              received := x.received ++ [(entry, sb.mimeType)] } with
          isBufferFull := false }
      | .quotaExceeded =>
        { s.setTrack t { x with sourceBuffer := some sb } with isBufferFull := true }
      | .failed => s.setTrack t { x with sourceBuffer := some sb }
  | _, _ => s

def doAppendSegments (b : Browser) (s : Mse) : Mse :=
  (s.appendSegment b .video).appendSegment b .audio

def tryAppendPending (b : Browser) (s : Mse) : Mse :=
  if s.readyState ≠ .opened ∨ s.canAppendToManagedSource = false then s
  else if s.hasPendingRemoveRanges then s.doRemoveRanges
  else if s.hasPendingSegments then s.doAppendSegments b
  else s

def createSourceBuffer (b : Browser) (t : Track) (mimeType : String) (s : Mse) : Mse :=
  let x := s.track t
  if x.disabled ∨ s.readyState ≠ .opened ∨ some mimeType = x.mimeType then s
  else
    match x.sourceBuffer with
    | some sb =>
      -- `changeType` throws InvalidStateError while the buffer is updating
      if sb.updating then s
      else if b.setType t mimeType = .notSupported then s.disableTrack t
      else
        s.setTrack t
          { x with sourceBuffer := some { sb with mimeType := mimeType }, mimeType := some mimeType }
    | none =>
      match b.setType t mimeType with
      | .ok =>
        s.setTrack t { x with sourceBuffer := some ⟨false, mimeType, 0⟩, mimeType := some mimeType }
      | .notSupported => s.disableTrack t
      | .failed => s

def flushPendingSourceBufferInit (b : Browser) (s : Mse) : Mse :=
  if s.pendingSourceBufferInit = [] ∨ s.readyState ≠ .opened then s
  else
    s.pendingSourceBufferInit.foldl
      (fun s pending => s.createSourceBuffer b pending.track (mimeTypeOf pending.codec pending.container))
      { s with pendingSourceBufferInit := [] }

def needCleanupSourceBuffer (b : Browser) (s : Mse) : Bool :=
  [Track.video, .audio].any fun t =>
    (s.track t).sourceBuffer.isSome && (b.buffered t).head?.any fun first =>
      s.config.bufferCleanupMaxBackward ≤ b.currentTime - first.1

/-- The ranges of a buffer that are too far behind. -/
def staleRanges (b : Browser) (config : CleanupConfig) (t : Track) : List RemoveRange :=
  (b.buffered t).filterMap fun range =>
    if range.1 ≤ b.currentTime ∧ b.currentTime < range.2 + 3 then
      if config.bufferCleanupMaxBackward ≤ b.currentTime - range.1 then
        some ⟨range.1, b.currentTime - config.bufferCleanupMinBackward⟩
      else none
    else if range.2 < b.currentTime - config.bufferCleanupMaxBackward then
      some ⟨range.1, range.2⟩
    else none

def cleanupTrack (b : Browser) (t : Track) (s : Mse) : Mse :=
  let x := s.track t
  match x.sourceBuffer with
  | none => s
  | some sb =>
    let ranges := staleRanges b s.config t
    let s := s.setTrack t { x with pendingRemoveRanges := x.pendingRemoveRanges ++ ranges }
    if ranges ≠ [] ∧ sb.updating = false then s.doRemoveRanges else s

def doCleanupSourceBuffer (b : Browser) (s : Mse) : Mse :=
  (s.cleanupTrack b .video).cleanupTrack b .audio

def tryApplyDuration (b : Browser) (s : Mse) : Mse :=
  match s.pendingDuration with
  | none => s
  | some pending =>
    if s.readyState ≠ .opened ∨ (s.track .video).updating ∨ (s.track .audio).updating then s
    else if s.duration.any fun duration => pending ≤ duration then { s with pendingDuration := none }
    else if b.setDuration then { s with duration := some pending, pendingDuration := none }
    else s

def endOfStream (s : Mse) : Mse :=
  if s.readyState ≠ .opened then
    if s.readyState = .closed ∧ s.hasPendingSegments then { s with hasPendingEos := true } else s
  else if (s.track .video).updating ∨ (s.track .audio).updating then
    { s with hasPendingEos := true }
  else
    { s with
      hasPendingEos := false
      readyState := .ended
      signalled := s.signalled ++
        [(s.track .video).pendingSegments ++ (s.track .audio).pendingSegments] }

def onSourceBufferUpdateEnd (b : Browser) (s : Mse) : Mse :=
  let s := s.tryApplyDuration b
  if s.hasPendingRemoveRanges then s.doRemoveRanges
  else if s.hasPendingSegments then s.tryAppendPending b
  else if s.hasPendingEos then s.endOfStream
  else if s.isBufferFull then { s with isBufferFull := false }
  else s

def appendInit (b : Browser) (t : Track) (data : List UInt8) (codec container : String)
    (s : Mse) : Mse :=
  let mimeType := mimeTypeOf codec container
  let entry : PendingSegment := ⟨data, none, false, some mimeType⟩
  if (s.track t).disabled then s
  else if s.readyState ≠ .opened ∨ s.streaming = some false then
    { s.setTrack t ((s.track t).enqueue entry) with
      pendingSourceBufferInit := s.pendingSourceBufferInit ++ [⟨t, codec, container⟩] }
  else
    let s := s.createSourceBuffer b t mimeType
    if (s.track t).disabled then s
    else (s.setTrack t ((s.track t).enqueue entry)).tryAppendPending b

def appendMedia (b : Browser) (t : Track) (data : List UInt8) (timestampOffset : Option ℚ)
    (s : Mse) : Mse :=
  let x := s.track t
  if x.disabled then s
  else
    let s := s.setTrack t (x.enqueue ⟨data, timestampOffset, true, x.lastAnnounced⟩)
    if s.readyState ≠ .opened then s
    else
      let s := if s.needCleanupSourceBuffer b then s.doCleanupSourceBuffer b else s
      s.tryAppendPending b

def sourceClose (s : Mse) : Mse :=
  { s with
    readyState := .closed
    track := fun t => { s.track t with sourceBuffer := none, mimeType := none } }

def step (s : Mse) (e : Browser × MseEvent) : Mse :=
  match e.2 with
  | .open =>
    if s.readyState = .detached then { s with readyState := .closed, sourceOpenListener := true }
    else s
  | .opened => if s.readyState = .closed then { s with readyState := .opened } else s
  | .sourceOpen =>
    if s.sourceOpenListener then
      ({ s with sourceOpenListener := false }.flushPendingSourceBufferInit e.1).tryAppendPending e.1
    else s
  | .sourceClose => s.sourceClose
  | .streaming on => if s.useManagedMediaSource then { s with streaming := some on } else s
  | .startStreaming =>
    if s.useManagedMediaSource then
      (s.flushPendingSourceBufferInit e.1).tryAppendPending e.1
    else s
  | .updated t => s.setTrack t ((s.track t).setUpdating false)
  | .updateEnd => s.onSourceBufferUpdateEnd e.1
  | .appendInit t data codec container => s.appendInit e.1 t data codec container
  | .appendMedia t data timestampOffset => s.appendMedia e.1 t data timestampOffset
  | .setDuration seconds => { s with pendingDuration := some seconds }.tryApplyDuration e.1
  | .endOfStream => s.endOfStream

end Mse

end Apackage.Rtp2httpd.Player
