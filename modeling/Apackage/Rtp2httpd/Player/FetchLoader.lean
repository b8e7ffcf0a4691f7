import Mathlib.Data.List.Basic
import Mathlib.Data.Int.Basic

/-
  The download of a media resource in the web player (`io/fetch-loader.ts`).

  A loader runs one fetch at a time. Each chunk of the body goes to a consumer, which says how
  many bytes it took; the rest stays in the stash and is put before the next chunk. `pause`
  aborts the fetch and notes the offset from which `resume` starts the next one. Results of an
  aborted fetch are ignored, so only the last fetch is part of the state.

  The state of the consumer is the field `sink`; `consumed` records, byte after byte, what the
  consumer took. An offset is an integer: a range that is still open ends at -1.
-/

namespace Apackage.Rtp2httpd.Player

open List

structure LoaderRange where
  fromByte : ℤ
  toByte : ℤ

inductive ResumeMode
  | range
  | restart
  deriving DecidableEq

inductive LoaderStatus
  | idle
  | connecting
  | buffering
  | error
  | complete
  deriving DecidableEq

inductive LoaderErrorDetail
  | httpStatusCodeInvalid
  | requestFailed
  | earlyEof
  | exception

/-- How far the promises of a fetch have come: no response yet, its body is read, or over. -/
inductive FetchPhase
  | fetching
  | pumping
  | over

/-- `FetchRequestContext`, with the range the fetch was started for. -/
structure FetchRequest where
  range : LoaderRange
  phase : FetchPhase
  aborted : Bool
  contentLength : Option ℕ
  receivedLength : ℕ

structure FetchLoader (γ : Type*) where
  resumeMode : ResumeMode
  /-- The first `_stashUsed` bytes of the stash buffer. -/
  stash : List UInt8
  stashByteStart : ℤ
  currentRange : LoaderRange
  paused : Bool
  resumeFrom : ℤ
  status : LoaderStatus
  request : FetchRequest
  onError : Option LoaderErrorDetail
  sink : γ
  consumed : List UInt8

/-- What the promises of the current fetch settle to, and the calls of the loader's owner. -/
inductive LoaderEvent
  | playlist
  | response (contentLength : Option ℕ)
  | badStatus
  | rejected
  | chunk (size : ℕ)
  | done
  | readRejected (networkError : Bool)
  | pause
  | resume
  | abort
  deriving DecidableEq

/-- The `Range` header: first and last byte, or none at all. -/
def buildRangeHeaders (range : LoaderRange) : Option (ℤ × Option ℤ) :=
  if range.fromByte ≠ 0 ∨ range.toByte ≠ -1 then
    some (range.fromByte, if range.toByte ≠ -1 then some range.toByte else none)
  else
    none

/-- The body of the response of a server that honours the header. -/
def served (resource : List UInt8) : Option (ℤ × Option ℤ) → List UInt8
  | none => resource
  | some (first, none) => resource.drop first.toNat
  | some (first, some last) => (resource.drop first.toNat).take (last + 1 - first).toNat

namespace FetchLoader

variable {γ : Type*}

def opened (mode : ResumeMode) (sink : γ) : FetchLoader γ where
  resumeMode := mode
  stash := []
  stashByteStart := 0
  currentRange := ⟨0, -1⟩
  paused := false
  resumeFrom := 0
  status := .connecting
  request := ⟨⟨0, -1⟩, .fetching, false, none, 0⟩
  onError := none
  sink := sink
  consumed := []

def isWorking (s : FetchLoader γ) : Bool :=
  (s.status = .connecting ∨ s.status = .buffering) ∧ ¬ s.paused

def startFetch (range : LoaderRange) (s : FetchLoader γ) : FetchLoader γ :=
  { s with request := ⟨range, .fetching, false, none, 0⟩, status := .connecting }

def abortFetch (s : FetchLoader γ) : FetchLoader γ :=
  { s with request := { s.request with aborted := true } }

def setPhase (phase : FetchPhase) (s : FetchLoader γ) : FetchLoader γ :=
  { s with request := { s.request with phase := phase } }

def abort (s : FetchLoader γ) : FetchLoader γ :=
  if s.paused then
    { s.abortFetch with paused := false, resumeFrom := 0 }
  else
    s.abortFetch

def pause (s : FetchLoader γ) : FetchLoader γ :=
  if s.isWorking then
    if s.stash ≠ [] then
      { s.abortFetch with
        resumeFrom := s.stashByteStart
        currentRange := { s.currentRange with toByte := s.stashByteStart - 1 }
        stash := []
        stashByteStart := 0
        paused := true }
    else
      { s.abortFetch with
        resumeFrom := s.currentRange.toByte + 1
        stash := []
        stashByteStart := 0
        paused := true }
  else
    s

section Consumer

-- the consumer gets its state, the bytes and their offset; it says how many bytes it took
variable (onDataArrival : γ → List UInt8 → ℤ → ℕ × γ)

def dispatchChunks (chunks : List UInt8) (byteStart : ℤ) (s : FetchLoader γ) : ℕ × FetchLoader γ :=
  let r := onDataArrival s.sink chunks byteStart
  (r.1, { s with
      currentRange := { s.currentRange with toByte := byteStart + chunks.length - 1 }
      sink := r.2
      consumed := s.consumed ++ chunks.take r.1 })

def flushStashBuffer (dropUnconsumed : Bool) (s : FetchLoader γ) : FetchLoader γ :=
  if s.stash ≠ [] then
    let (count, s') := s.dispatchChunks onDataArrival s.stash s.stashByteStart
    if count < s.stash.length ∧ dropUnconsumed = false then
      { s' with stash := s.stash.drop count, stashByteStart := s.stashByteStart + count }
    else
      { s' with stash := [], stashByteStart := 0 }
  else
    s

def stashUnconsumed (data : List UInt8) (count : ℕ) (byteStart : ℤ) (s : FetchLoader γ) :
    FetchLoader γ :=
  if data.length ≤ count then
    { s with stash := [], stashByteStart := 0 }
  else
    { s with stash := data.drop count, stashByteStart := byteStart + count }

def onFetchChunkArrival (chunk : List UInt8) (byteStart : ℤ) (s : FetchLoader γ) : FetchLoader γ :=
  if s.paused then
    s
  else if s.stash = [] then
    let (count, s') := s.dispatchChunks onDataArrival chunk byteStart
    if count < chunk.length then s'.stashUnconsumed chunk count byteStart else s'
  else
    let bridge := s.stash ++ chunk
    let (count, s') := s.dispatchChunks onDataArrival bridge s.stashByteStart
    s'.stashUnconsumed bridge count s.stashByteStart

def internalSeek (bytes : ℤ) (s : FetchLoader γ) : FetchLoader γ :=
  let s := if s.status = .connecting ∨ s.status = .buffering then s.abortFetch else s
  let s := s.flushStashBuffer onDataArrival true
  { s with currentRange := ⟨bytes, -1⟩ }.startFetch ⟨bytes, -1⟩

def internalRestart (s : FetchLoader γ) : FetchLoader γ :=
  let s := if s.status = .connecting ∨ s.status = .buffering then s.abortFetch else s
  let s := s.flushStashBuffer onDataArrival true
  { s with currentRange := ⟨0, -1⟩ }.startFetch ⟨0, -1⟩

def resume (s : FetchLoader γ) : FetchLoader γ :=
  if s.paused then
    let bytes := s.resumeFrom
    let s := { s with paused := false, resumeFrom := 0 }
    match s.resumeMode with
    | .restart => s.internalRestart onDataArrival
    | .range => s.internalSeek onDataArrival bytes
  else
    s

def onFetchComplete (s : FetchLoader γ) : FetchLoader γ := s.flushStashBuffer onDataArrival true

def handleLoaderError (detail : LoaderErrorDetail) (s : FetchLoader γ) : FetchLoader γ :=
  { s.flushStashBuffer onDataArrival false with onError := some detail }

def onResponse (s : FetchLoader γ) : LoaderEvent → FetchLoader γ
  | .playlist => { s.setPhase .over with status := .idle }
  | .response contentLength =>
    let known := if contentLength = some 0 then none else contentLength
    { s with request := { s.request with phase := .pumping, contentLength := known } }
  | .badStatus =>
    { s.setPhase .over with status := .error }.handleLoaderError onDataArrival
      .httpStatusCodeInvalid
  | .rejected =>
    { s.setPhase .over with status := .error }.handleLoaderError onDataArrival .requestFailed
  | _ => s

/-- Fewer bytes came than `Content-Length` announced. -/
def endsEarly (s : FetchLoader γ) : Prop :=
  ∃ n, s.request.contentLength = some n ∧ s.request.receivedLength < n

instance (s : FetchLoader γ) : Decidable s.endsEarly :=
  match h : s.request.contentLength with
  | none => isFalse (by simp [endsEarly, h])
  | some n => decidable_of_iff (s.request.receivedLength < n) (by simp [endsEarly, h])

/-- The promise of a read settles: the next bytes of the body, its end or an error. -/
def onRead (resource : List UInt8) (s : FetchLoader γ) : LoaderEvent → FetchLoader γ
  | .chunk size =>
    let body := served resource (buildRangeHeaders s.request.range)
    let chunk := (body.drop s.request.receivedLength).take size
    let byteStart := s.request.range.fromByte + s.request.receivedLength
    let s :=
      { s with
        status := .buffering
        request := { s.request with receivedLength := s.request.receivedLength + chunk.length } }
    s.onFetchChunkArrival onDataArrival chunk byteStart
  | .done =>
    if s.endsEarly then
      { s.setPhase .over with status := .error }.handleLoaderError onDataArrival .earlyEof
    else
      { s.setPhase .over with status := .complete }.onFetchComplete onDataArrival
  | .readRejected networkError =>
    let early := networkError ∧ (s.request.contentLength = none ∨ s.endsEarly)
    { s.setPhase .over with status := .error }.handleLoaderError onDataArrival
      (if early then .earlyEof else .exception)
  | _ => s

def step (resource : List UInt8) (s : FetchLoader γ) (e : LoaderEvent) : FetchLoader γ :=
  match e with
  | .pause => s.pause
  | .resume => s.resume onDataArrival
  | .abort => s.abort
  | e =>
    if s.request.aborted then s
    else
      match s.request.phase with
      | .fetching => s.onResponse onDataArrival e
      | .pumping => s.onRead onDataArrival resource e
      | .over => s

end Consumer

section Stash

variable {s : FetchLoader γ} (onDataArrival : γ → List UInt8 → ℤ → ℕ × γ)

/-- The loader after a dispatch of which the consumer took `n` bytes. -/
def offered (data : List UInt8) (byteStart : ℤ) (n : ℕ) (g : γ) (s : FetchLoader γ) :
    FetchLoader γ :=
  { s with
    currentRange := { s.currentRange with toByte := byteStart + data.length - 1 }
    sink := g
    consumed := s.consumed ++ data.take n }

def stashed (stash : List UInt8) (byteStart : ℤ) (s : FetchLoader γ) : FetchLoader γ :=
  { s with stash := stash, stashByteStart := byteStart }

theorem flushStashBuffer_empty (h : s.stash = []) (drop : Bool) :
    s.flushStashBuffer onDataArrival drop = s := by
  rw [flushStashBuffer, if_neg (not_not.2 h)]

theorem flushStashBuffer_eq (h : s.stash ≠ []) (drop : Bool) : ∃ stash start',
      (stash = [] ∨ stash = s.stash.drop (onDataArrival s.sink s.stash s.stashByteStart).1 ∧
        start' = s.stashByteStart + (onDataArrival s.sink s.stash s.stashByteStart).1) ∧
      s.flushStashBuffer onDataArrival drop =
        (s.offered s.stash s.stashByteStart (onDataArrival s.sink s.stash s.stashByteStart).1
          (onDataArrival s.sink s.stash s.stashByteStart).2).stashed stash start' := by
  unfold flushStashBuffer
  rw [if_pos h]
  dsimp only
  split
  · exact ⟨_, _, .inr ⟨rfl, rfl⟩, rfl⟩
  · exact ⟨_, _, .inl rfl, rfl⟩

theorem stashUnconsumed_eq (data : List UInt8) (n : ℕ) (byteStart : ℤ) (s : FetchLoader γ) :
    ∃ start', (data.drop n ≠ [] → start' = byteStart + n) ∧
      s.stashUnconsumed data n byteStart = s.stashed (data.drop n) start' := by
  unfold stashUnconsumed
  split
  · rename_i hle
    rw [drop_eq_nil_of_le hle]
    exact ⟨0, fun h => absurd rfl h, rfl⟩
  · exact ⟨byteStart + n, fun _ => rfl, rfl⟩

theorem onFetchChunkArrival_eq (chunk : List UInt8) {byteStart offset : ℤ}
    (hp : s.paused = false) (hempty : s.stash = [] → byteStart = offset)
    (hstart : s.stash ≠ [] → s.stashByteStart = offset) :
    ∃ start', ((s.stash ++ chunk).drop (onDataArrival s.sink (s.stash ++ chunk) offset).1 ≠ [] →
        start' = offset + (onDataArrival s.sink (s.stash ++ chunk) offset).1) ∧
      s.onFetchChunkArrival onDataArrival chunk byteStart = (s.offered (s.stash ++ chunk) offset
          (onDataArrival s.sink (s.stash ++ chunk) offset).1
          (onDataArrival s.sink (s.stash ++ chunk) offset).2).stashed
          ((s.stash ++ chunk).drop (onDataArrival s.sink (s.stash ++ chunk) offset).1) start' := by
  unfold onFetchChunkArrival
  rw [if_neg (by simp [hp])]
  by_cases hs : s.stash = []
  · rw [if_pos hs, hs, nil_append, hempty hs]
    unfold dispatchChunks
    dsimp only
    generalize onDataArrival s.sink chunk offset = r
    obtain ⟨n, g⟩ := r
    split
    · exact stashUnconsumed_eq chunk n offset (s.offered chunk offset n g)
    · rename_i hall
      have hnil : chunk.drop n = [] := drop_eq_nil_of_le (Nat.le_of_not_lt hall)
      refine ⟨s.stashByteStart, fun h => absurd hnil h, ?_⟩
      rw [hnil, ← hs]
      rfl
  · rw [if_neg hs, hstart hs]
    unfold dispatchChunks
    dsimp only
    generalize onDataArrival s.sink (s.stash ++ chunk) offset = r
    obtain ⟨n, g⟩ := r
    exact stashUnconsumed_eq (s.stash ++ chunk) n offset (s.offered (s.stash ++ chunk) offset n g)

end Stash

end FetchLoader

end Apackage.Rtp2httpd.Player
