import Mathlib.Algebra.Order.Ring.Rat
import Apackage.Rtp2httpd.Player.Remuxer

/-
  HLS playlists in the web player (`hls/m3u8.ts`, `hls/hls-source.ts`).

  A source loads a media playlist, queues its segments on one timeline and returns them one by
  one from `next`; when the queue is empty a live playlist is loaded again.

  Model. Times are numbers of any kind with the operations of the code, so also doubles. URLs are
  resolved. A line of a playlist is given by the tag it starts with, and what the tag's value reads
  as.
-/

namespace Apackage.Rtp2httpd.Player

open Remux (JsNumber)
open Remux.JsNumber (ofRat lt)

/-- Numbers that can be multiplied and divided as well. -/
class JsArithmetic (ν : Type) extends JsNumber ν, Mul ν, Div ν

instance : JsArithmetic ℚ where

inductive MediaLine (ν : Type)
  | extinf (duration : ν)
  | targetDuration (duration : ν)
  | mediaSequence (number : ℕ)
  | discontinuity
  | map (uri : Option String)
  | endlist
  | uri (url : String)
  | other

structure HlsPlaylistSegment (ν : Type) where
  url : String
  duration : ν
  mediaSequence : ℕ
  discontinuity : Bool
  initUrl : Option String
  deriving DecidableEq

structure HlsMediaPlaylist (ν : Type) where
  live : Bool
  targetDuration : ν
  segments : List (HlsPlaylistSegment ν)

structure HlsVariant where
  url : String
  bandwidth : ℕ

/-- The variables of `parseMedia`. -/
structure MediaParse (ν : Type) where
  segments : List (HlsPlaylistSegment ν)
  targetDuration : ν
  mediaSequence : ℕ
  ended : Bool
  pendingDuration : Option ν
  pendingDiscontinuity : Bool
  currentInitUrl : Option String

section Parse

variable {ν : Type}

def MediaParse.line (s : MediaParse ν) : MediaLine ν → MediaParse ν
  | .extinf duration => { s with pendingDuration := some duration }
  | .targetDuration duration => { s with targetDuration := duration }
  | .mediaSequence number => { s with mediaSequence := number }
  | .discontinuity => { s with pendingDiscontinuity := true }
  | .map uri => { s with currentInitUrl := uri.or s.currentInitUrl }
  | .endlist => { s with ended := true }
  | .uri url =>
    match s.pendingDuration with
    | none => s
    | some duration =>
      { s with
        segments := s.segments ++
          [⟨url, duration, s.mediaSequence + s.segments.length, s.pendingDiscontinuity,
            s.currentInitUrl⟩]
        pendingDuration := none
        pendingDiscontinuity := false }
  | .other => s

def parseMedia [JsNumber ν] (lines : List (MediaLine ν)) : HlsMediaPlaylist ν :=
  let s := lines.foldl MediaParse.line ⟨[], ofRat 0, 0, false, none, false, none⟩
  ⟨!s.ended, s.targetDuration, s.segments⟩

end Parse

/-- A segment for the pipeline, with the playlist entry it was made from. -/
structure SegmentMeta (ν : Type) where
  url : String
  start : ν
  duration : ν
  resetRemuxer : Bool
  initUrl : Option String
  entry : HlsPlaylistSegment ν

def LIVE_EDGE_SEGMENTS : ℕ := 3

def MAX_REFRESH_FAILURES : ℕ := 5

inductive HlsWait (ν : Type)
  | nothing
  | fetchOnce
  | sleep (ms : ν)

inductive NextResult (ν : Type)
  | segment (s : SegmentMeta ν)
  | null
  | error

structure HlsSource (ν : Type) where
  url : String
  destroyed : Bool
  live : Bool
  ended : Bool
  targetDuration : ν
  segments : List (SegmentMeta ν)
  nextIndex : ℕ
  nextMediaSequence : ℤ
  timelinePos : ν
  initialized : Bool
  resetPending : Bool
  refreshFailures : ℕ
  lastPlaylistHadNews : Bool
  wait : HlsWait ν
  /-- What the calls of `next` returned, in order. -/
  results : List (NextResult ν)
  /-- The entries of all playlists ingested, in order. -/
  listed : List (HlsPlaylistSegment ν)
  /-- The segments before the start chosen by `initialize`. -/
  passed : List (SegmentMeta ν)

/-- What `fetchOnce` ends with. -/
inductive FetchedPlaylist (ν : Type)
  | media (lines : List (MediaLine ν))
  | multivariant (variants : List HlsVariant)
  | failed

inductive HlsEvent (ν : Type)
  | next
  | fetched (playlist : FetchedPlaylist ν)
  | timer
  | destroy

namespace HlsSource

variable {ν : Type} [JsArithmetic ν]

def created (url : String) : HlsSource ν where
  url := url
  destroyed := false
  live := true
  ended := false
  targetDuration := ofRat 6
  segments := []
  nextIndex := 0
  nextMediaSequence := -1
  timelinePos := ofRat 0
  initialized := false
  resetPending := true
  refreshFailures := 0
  lastPlaylistHadNews := true
  wait := .nothing
  results := []
  listed := []
  passed := []

/-- `next` ends. -/
def answer (result : NextResult ν) (s : HlsSource ν) : HlsSource ν :=
  { s with wait := .nothing, results := s.results ++ [result] }

def trimHistory (s : HlsSource ν) : HlsSource ν :=
  if s.live ∧ 64 < s.nextIndex then
    let drop := s.nextIndex - 32
    { s with segments := s.segments.drop drop, nextIndex := s.nextIndex - drop }
  else
    s

/-- The body of the loop of `ingest`. -/
def ingestSegment (s : HlsSource ν) (seg : HlsPlaylistSegment ν) : HlsSource ν :=
  let s := { s with listed := s.listed ++ [seg] }
  if s.nextMediaSequence ≠ -1 ∧ (seg.mediaSequence : ℤ) < s.nextMediaSequence then
    s
  else
    let skipped := s.nextMediaSequence ≠ -1 ∧ s.nextMediaSequence < (seg.mediaSequence : ℤ)
    let m : SegmentMeta ν :=
      ⟨seg.url, s.timelinePos, seg.duration, seg.discontinuity ∨ skipped, seg.initUrl, seg⟩
    { s with
      segments := s.segments ++ [m]
      timelinePos := s.timelinePos + seg.duration
      nextMediaSequence := seg.mediaSequence + 1
      lastPlaylistHadNews := true }.trimHistory

def ingestHeader (playlist : HlsMediaPlaylist ν) (s : HlsSource ν) : HlsSource ν :=
  { s with
    live := playlist.live
    ended := !playlist.live
    targetDuration :=
      if lt (ofRat 0) playlist.targetDuration then playlist.targetDuration else s.targetDuration
    lastPlaylistHadNews := false }

def ingest (playlist : HlsMediaPlaylist ν) (s : HlsSource ν) : HlsSource ν :=
  playlist.segments.foldl ingestSegment (s.ingestHeader playlist)

/-- `initialize`, once the playlist is ingested. -/
def chooseStart (s : HlsSource ν) : HlsSource ν :=
  if s.live then
    let index := s.segments.length - LIVE_EDGE_SEGMENTS
    let base := (s.segments[index]?.map SegmentMeta.start).getD (ofRat 0)
    let s := { s with nextIndex := index }
    if lt (ofRat 0) base then
      { s with
        segments := s.segments.map fun m => { m with start := m.start - base }
        timelinePos := s.timelinePos - base }
    else
      s
  else
    s

def initializeSource (s : HlsSource ν) : HlsSource ν :=
  let s := s.chooseStart
  { s with initialized := true, passed := s.segments.take s.nextIndex }

def refreshDelay (s : HlsSource ν) : ν :=
  (if s.lastPlaylistHadNews then s.targetDuration else s.targetDuration / ofRat 2) * ofRat 1000

/-- The loop of `next`, up to its next wait. -/
def proceed (s : HlsSource ν) : HlsSource ν :=
  if s.destroyed then
    s.answer .null
  else
    match s.segments[s.nextIndex]? with
    | some m =>
      let s := { s with nextIndex := s.nextIndex + 1 }
      if s.resetPending then
        { s with resetPending := false }.answer (.segment { m with resetRemuxer := true })
      else
        s.answer (.segment m)
    | none => if s.ended then s.answer .null else { s with wait := .sleep s.refreshDelay }

/-- `fetchPlaylist` returns null: `initialize` throws, `refresh` lets `next` see `destroyed`. -/
def giveUp (s : HlsSource ν) : HlsSource ν := s.answer (if s.initialized then .null else .error)

def next (s : HlsSource ν) : HlsSource ν :=
  if s.initialized then s.proceed
  else if s.destroyed then s.giveUp
  else { s with wait := .fetchOnce }

/-- The best variant: the first one of those with the largest bandwidth. -/
def bestVariant : List HlsVariant → Option HlsVariant
  | [] => none
  | v :: vs =>
    match bestVariant vs with
    | none => some v
    | some w => if v.bandwidth < w.bandwidth then some w else some v

def loadFailed (s : HlsSource ν) : HlsSource ν :=
  if s.destroyed then s.giveUp
  else
    let s := { s with refreshFailures := s.refreshFailures + 1 }
    if MAX_REFRESH_FAILURES ≤ s.refreshFailures then s.answer .error
    else { s with wait := .sleep (s.targetDuration / ofRat 2 * ofRat 1000) }

def mediaLoaded (lines : List (MediaLine ν)) (s : HlsSource ν) : HlsSource ν :=
  let s := { s with refreshFailures := 0 }.ingest (parseMedia lines)
  (if s.initialized then s else s.initializeSource).proceed

def fetched (s : HlsSource ν) : FetchedPlaylist ν → HlsSource ν
  | .media lines => s.mediaLoaded lines
  | .multivariant variants =>
    match bestVariant variants with
    | none => s.loadFailed
    | some best => if s.destroyed then s.giveUp else { s with url := best.url }
  | .failed => s.loadFailed

/-- A timer or a fetch that nobody waits for does not exist; `next` is called again when the
    call before it has ended. -/
def step (s : HlsSource ν) : HlsEvent ν → HlsSource ν
  | .next =>
    match s.wait with
    | .nothing => s.next
    | _ => s
  | .fetched playlist =>
    match s.wait with
    | .fetchOnce => s.fetched playlist
    | _ => s
  | .timer =>
    match s.wait with
    | .sleep _ => if s.destroyed then s.giveUp else { s with wait := .fetchOnce }
    | _ => s
  | .destroy => { s with destroyed := true }

end HlsSource

end Apackage.Rtp2httpd.Player
