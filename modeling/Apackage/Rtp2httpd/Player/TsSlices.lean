import Apackage.Lib.ArrayView
import Apackage.Lib.Run
import Mathlib.Data.List.Basic
import Mathlib.Data.Int.Basic
import Mathlib.Algebra.Order.Ring.Nat
import Mathlib.Logic.Function.Basic

/-
  The packets of a transport stream in the web player (`demux/ts-demuxer.ts`).

  `probe` looks for three sync bytes at the distance of a packet. `parseChunks` is the consumer of a
  download: it takes the packets of the bytes presented, up to a sync byte that is not 0x47, and
  says how many bytes it took. What is done with a packet and at the end of a call is a parameter.

  `TsPacket` is a packet at its place in a chunk: the packet loop hands on whole packets only. Its
  header says where the payload starts. The payload is not copied: the queue of a pid collects views
  of the chunks (`SliceQueue`) until a section or a PES packet is complete, and then copies them
  into one array. The packets of a pid are numbered by a counter of four bits: one with the number
  of the last is taken for a duplicate, and at any other than the next number the queue of the pid
  is deleted, and with that of a video pid the queues of all audio pids.
-/

namespace Apackage.Rtp2httpd.Player

open List Lib Lib.Run

/-! ## The packet loop -/

/-- `ts_packet_size`: 188, 192 (BDAV) or 204 (RS encoded). -/
inductive TsPacketSize
  | plain
  | m2ts
  | rs
  deriving DecidableEq

namespace TsPacketSize

def bytes : TsPacketSize → ℕ
  | plain => 188
  | m2ts => 192
  | rs => 204

/-- The arrival time stamp before the sync byte. -/
def ats : TsPacketSize → ℕ
  | m2ts => 4
  | _ => 0

/-- The parity word behind the packet. -/
def parity : TsPacketSize → ℕ
  | rs => 16
  | _ => 0

theorem bytes_eq (size : TsPacketSize) : size.bytes = size.ats + 188 + size.parity := by
  cases size <;> rfl

theorem bytes_pos (size : TsPacketSize) : 0 < size.bytes := by cases size <;> decide

end TsPacketSize

inductive TsProbeResult
  | needMoreData
  | noMatch
  | found (size : TsPacketSize) (syncOffset : ℕ)
  deriving DecidableEq

def isSyncByte (data : List UInt8) (i : ℕ) : Bool := data[i]? = some 0x47

/-- The first place of the scan window with three sync bytes at this distance. -/
def findSync (data : List UInt8) (size : TsPacketSize) : Option ℕ :=
  (List.range (min 1000 (data.length - 3 * size.bytes))).find? fun i =>
    isSyncByte data i && isSyncByte data (i + size.bytes) && isSyncByte data (i + 2 * size.bytes)

def probe (data : List UInt8) : TsProbeResult :=
  if data.length ≤ 3 * 188 then
    .needMoreData
  else
    match [TsPacketSize.plain, .m2ts, .rs].findSome? fun size =>
        (findSync data size).map fun i => (size, i) with
    | none => .noMatch
    | some (size, i) => .found size (if size = .m2ts ∧ 4 ≤ i then i - 4 else i)

theorem probe_bound {data : List UInt8} {size : TsPacketSize} {syncOffset : ℕ}
    (h : probe data = .found size syncOffset) : syncOffset ≤ data.length := by
  unfold probe at h
  split at h
  · exact nomatch h
  · split at h
    · exact nomatch h
    · rename_i size' i hfind
      obtain ⟨-, hoffset⟩ := TsProbeResult.found.inj h
      obtain ⟨size₀, -, hmap⟩ := exists_of_findSome?_eq_some hfind
      obtain ⟨i', hi', heq⟩ := Option.map_eq_some_iff.1 hmap
      have hmem : i' < min 1000 (data.length - 3 * size₀.bytes) :=
        mem_range.1 (mem_of_find?_eq_some hi')
      have hii : i' = i := congrArg Prod.snd heq
      split at hoffset <;> omega

structure TsParser (δ : Type*) where
  tsPacketSize : TsPacketSize
  syncOffset : ℕ
  firstParse : Bool
  media : δ
  parsed : List (ℤ × List UInt8)

namespace TsParser

variable {δ : Type*}

/-- A demuxer built from the result of the probe. -/
def probed (size : TsPacketSize) (syncOffset : ℕ) (media : δ) : TsParser δ :=
  ⟨size, syncOffset, true, media, []⟩

-- what is done with the packet at an offset, given its position in the file, and at the end
variable (onPacket : δ → List UInt8 → ℕ → ℤ → δ) (onChunkEnd : δ → δ)

def parsePacket (chunk : List UInt8) (offset : ℕ) (filePosition : ℤ) (p : TsParser δ) :
    TsParser δ :=
  { p with
    media := onPacket p.media chunk offset filePosition
    parsed := p.parsed ++ [(filePosition, (chunk.drop offset).take 188)] }

/-- The `while` loop of `parseChunks`; a packet takes at least one byte, so the length of the
    chunk bounds the iterations. -/
def packetLoop (chunk : List UInt8) (byteStart : ℤ) : ℕ → ℕ → TsParser δ → ℕ × TsParser δ
  | 0, offset, p => (offset, p)
  | fuel + 1, offset, p =>
    if offset + p.tsPacketSize.bytes ≤ chunk.length then
      let filePosition := byteStart + offset
      let sync := offset + p.tsPacketSize.ats
      if isSyncByte chunk sync then
        packetLoop chunk byteStart fuel (sync + 188 + p.tsPacketSize.parity)
          (p.parsePacket onPacket chunk sync filePosition)
      else
        (sync, p)
    else
      (offset, p)

def parseChunks (p : TsParser δ) (chunk : List UInt8) (byteStart : ℤ) : ℕ × TsParser δ :=
  let offset := if p.firstParse then p.syncOffset else 0
  let (consumed, p) :=
    packetLoop onPacket chunk byteStart chunk.length offset { p with firstParse := false }
  (consumed, { p with media := onChunkEnd p.media })

end TsParser

/-! ## Packets -/

structure TsPacket where
  chunk : List UInt8
  /-- Where the sync byte stands. -/
  offset : ℕ
  filePosition : ℤ
  fits : offset + 188 ≤ chunk.length

namespace TsPacket

variable (p : TsPacket)

def byte (k : ℕ) : ℕ := (p.chunk[p.offset + k]?.getD 0).toNat

def payloadUnitStartIndicator : ℕ := (p.byte 1 &&& 0x40) >>> 6

def pid : ℕ := (p.byte 1 &&& 0x1f) <<< 8 ||| p.byte 2

def adaptationFieldControl : ℕ := (p.byte 3 &&& 0x30) >>> 4

def continuityCounter : ℕ := p.byte 3 &&& 0x0f

/-- One of the flags of the adaptation field, read only if it is there. Which pid carries the
    PCR matters for packets without payload alone. -/
def adaptationFlag (mask shift : ℕ) : Option ℕ :=
  if p.adaptationFieldControl = 3 ∧ 0 < p.byte 4 then some ((p.byte 5 &&& mask) >>> shift) else none

def discontinuityIndicator : Option ℕ := p.adaptationFlag 0x80 7

def randomAccessIndicator : Option ℕ := p.adaptationFlag 0x40 6

/-- Where the payload starts in the packet; none if `parseChunks` goes on to the next packet. -/
def tsPayloadStartIndex : Option ℕ :=
  if p.adaptationFieldControl = 2 ∨ p.adaptationFieldControl = 3 then
    if p.adaptationFieldControl = 2 ∨ 5 + p.byte 4 = 188 then none else some (4 + 1 + p.byte 4)
  else if p.adaptationFieldControl = 1 then some 4
  else none

def buffer : ArrayView UInt8 := .whole p.chunk

/-- The payload from an index on, empty if the adaptation field fills more than the packet. -/
def payload (start : ℕ) : List UInt8 := (p.chunk.drop (p.offset + start)).take (188 - start)

/-- The payload as a view. -/
def data (start : ℕ) : ArrayView UInt8 :=
  p.buffer.subarray (p.offset + start : ℕ) ((p.offset + start : ℕ) + (188 - start : ℤ))

@[simp] theorem size_buffer : p.buffer.size = p.chunk.length := rfl

@[simp] theorem toList_buffer : p.buffer.toList = p.chunk := ArrayView.toList_whole _

variable {p}

@[simp] theorem length_payload {start : ℕ} (h : start ≤ 188) :
    (p.payload start).length = 188 - start := by
  have hfits := p.fits
  rw [payload, length_take, length_drop]
  omega

theorem toList_subarray (start a b : ℕ) (hab : a ≤ b) (hb : start + b ≤ 188) {i j : ℤ}
    (hi : i = (p.offset + start + a : ℕ)) (hj : j = (p.offset + start + b : ℕ)) :
    (p.buffer.subarray i j).toList = ((p.payload start).drop a).take (b - a) := by
  have hfits := p.fits
  rw [hi, hj, ArrayView.toList_subarray_of_le _ (by rw [size_buffer]; omega) (by omega),
    toList_buffer, payload, drop_take, drop_drop, take_take]
  congr 1
  omega

theorem start_subarray (i j : ℤ) :
    (p.buffer.subarray i j).start = ArrayView.clamp p.chunk.length i := Nat.zero_add _

theorem size_subarray (i j : ℤ) : (p.buffer.subarray i j).size =
    ArrayView.clamp p.chunk.length j - ArrayView.clamp p.chunk.length i := rfl

theorem size_data (start : ℕ) : (p.data start).size = 188 - start := by
  have hfits := p.fits
  have hend : ((p.offset + start : ℕ) + (188 - start : ℤ)) = (p.offset + 188 : ℕ) := by omega
  rw [data, hend, size_subarray, ArrayView.clamp_natCast, ArrayView.clamp_natCast]
  omega

theorem toList_data {start : ℕ} (h : start ≤ 188) : (p.data start).toList = p.payload start := by
  rw [data, toList_subarray start 0 (188 - start) (Nat.zero_le _) (by omega) (by omega)
    (by omega), drop_zero, Nat.sub_zero, take_of_length_le (length_payload h).le]

/-- A packet with these header bytes and flags of the adaptation field, which leaves room for just
    this payload, before more bytes in the chunk. -/
def stuffed (indicator pid counter flags : UInt8) (payload more : List UInt8)
    (h : payload.length ≤ 182) : TsPacket where
  chunk := [0x47, indicator, pid, 0x30 + counter, UInt8.ofNat (183 - payload.length), flags] ++
    List.replicate (182 - payload.length) 0 ++ payload ++ more
  offset := 0
  filePosition := 0
  fits := by
    simp only [length_append, length_replicate, length_cons, length_nil]
    omega

end TsPacket

/-! ## Slices -/

structure TSSliceMisc where
  pid : ℕ
  filePosition : ℤ
  payloadUnitStartIndicator : ℕ
  randomAccessIndicator : Option ℕ

structure SliceQueue where
  slices : List (ArrayView UInt8)
  totalLength : ℕ
  expectedLength : ℤ
  filePosition : ℤ
  randomAccessIndicator : ℕ
  total_eq : totalLength = (slices.map ArrayView.size).sum

namespace SliceQueue

def opened (misc : TSSliceMisc) : SliceQueue :=
  ⟨[], 0, 0, misc.filePosition, misc.randomAccessIndicator.getD 0, rfl⟩

variable (queue : SliceQueue)

def expecting (expectedLength : ℤ) : SliceQueue := { queue with expectedLength := expectedLength }

def push (slice : ArrayView UInt8) : SliceQueue :=
  { queue with
    slices := queue.slices ++ [slice]
    totalLength := queue.totalLength + slice.size
    total_eq := by rw [map_append, sum_append, queue.total_eq, map_singleton, sum_singleton] }

/-- The fields of a queue after it was emitted or dropped. -/
def clearSlices : SliceQueue :=
  { queue with slices := [], expectedLength := -1, totalLength := 0, total_eq := rfl }

/-- The slices merged into one array. -/
def data : List UInt8 := ArrayView.assembled 0 queue.totalLength queue.slices

theorem data_eq : queue.data = (queue.slices.map ArrayView.toList).flatten :=
  ArrayView.assembled_eq_flatten 0 queue.total_eq

theorem length_data : queue.data.length = queue.totalLength := by
  rw [data_eq, length_flatten, List.map_map, queue.total_eq]
  congr 1
  exact map_congr_left fun v _ => ArrayView.length_toList v

@[simp] theorem data_push (slice : ArrayView UInt8) :
    (queue.push slice).data = queue.data ++ slice.toList := by
  rw [data_eq, data_eq, push, map_append, flatten_append, map_singleton, flatten_singleton]

@[simp] theorem data_expecting (expectedLength : ℤ) :
    (queue.expecting expectedLength).data = queue.data := rfl

@[simp] theorem data_opened (misc : TSSliceMisc) : (opened misc).data = [] := rfl

end SliceQueue

/-! ## PES packets -/

/-! ## Tracks -/

inductive CommonPidKey
  | h264
  | h265
  | adtsAac
  | loasAac
  | ac3
  | eac3
  | mp3

def videoPidKeys : List CommonPidKey := [.h264, .h265]

def audioPidKeys : List CommonPidKey := [.adtsAac, .loasAac, .ac3, .eac3, .mp3]

/-- What the PAT and the PMT say of the pids. -/
structure TsTracks where
  currentPmtPid : ℕ
  pidStreamType : ℕ → Option ℕ
  commonPids : CommonPidKey → Option ℕ

namespace TsTracks

variable (tracks : TsTracks)

def isCommonPid (pid : ℕ) (keys : List CommonPidKey) : Bool :=
  keys.any fun key => tracks.commonPids key = some pid

def isVideoPid (pid : ℕ) : Bool := tracks.isCommonPid pid videoPidKeys

def isAudioPid (pid : ℕ) : Bool := tracks.isCommonPid pid audioPidKeys

def isMediaPid (pid : ℕ) : Bool := tracks.isVideoPid pid || tracks.isAudioPid pid

/-- The payloads of the pid are PES packets of a known track. -/
def carriesPes (pid : ℕ) : Bool :=
  pid != 0 && pid != tracks.currentPmtPid && (tracks.pidStreamType pid).isSome &&
    tracks.isMediaPid pid

end TsTracks

/-! ## One queue -/

structure PESData where
  pid : ℕ
  data : List UInt8
  streamType : Option ℕ
  filePosition : ℤ
  randomAccessIndicator : ℕ

/-- The queue of a pid while one of its packets is handled, and what was handed to `parsePES`. -/
structure PesSlices where
  sliceQueue : Option SliceQueue
  parsed : List PESData

namespace PesSlices

def emitPESSlices (pid : ℕ) (streamType : Option ℕ) (queue : SliceQueue) (s : PesSlices) :
    PesSlices :=
  { sliceQueue := some queue.clearSlices
    parsed := s.parsed ++
      [⟨pid, queue.data, streamType, queue.filePosition, queue.randomAccessIndicator⟩] }

def clearSlices (queue : SliceQueue) (s : PesSlices) : PesSlices :=
  { s with sliceQueue := some queue.clearSlices }

/-- The next start ends the PES packet in the queue. -/
def finish (pid : ℕ) (streamType : Option ℕ) (s : PesSlices) : PesSlices :=
  match s.sliceQueue with
  | none => s
  | some queue =>
    if queue.expectedLength = 0 ∨ queue.expectedLength = queue.totalLength then
      s.emitPESSlices pid streamType queue
    else s.clearSlices queue

/-- A PES packet of the expected length is emitted, a longer one dropped. -/
def settle (pid : ℕ) (streamType : Option ℕ) (queue : SliceQueue) (s : PesSlices) : PesSlices :=
  if 0 < queue.expectedLength ∧ queue.expectedLength = queue.totalLength then
    s.emitPESSlices pid streamType queue
  else if 0 < queue.expectedLength ∧ queue.expectedLength < queue.totalLength then
    s.clearSlices queue
  else { s with sliceQueue := some queue }

end PesSlices

/-- A byte of a view as a number, 0 behind the end. -/
def byteAt (data : ArrayView UInt8) (i : ℕ) : ℕ := ((data.get? i).getD 0).toNat

def handlePESSlice (buffer : ArrayView UInt8) (offset : ℕ) (length : ℤ) (misc : TSSliceMisc)
    (streamType : Option ℕ) (sliceQueue : Option SliceQueue) : PesSlices :=
  let data := buffer.subarray offset (offset + length)
  let packetStartCode := byteAt data 0 <<< 16 ||| byteAt data 1 <<< 8 ||| byteAt data 2
  let pesPacketLength := byteAt data 4 <<< 8 ||| byteAt data 5
  let s : PesSlices := ⟨sliceQueue, []⟩
  if misc.payloadUnitStartIndicator ≠ 0 then
    if packetStartCode ≠ 1 then s
    else
      let queue := ((SliceQueue.opened misc).push data).expecting
        (if pesPacketLength = 0 then 0 else pesPacketLength + 6)
      (s.finish misc.pid streamType).settle misc.pid streamType queue
  else
    match sliceQueue with
    | none => s
    | some queue => s.settle misc.pid streamType (queue.push data)

/-- What `parseChunks` does with the payload of a packet of a media pid. -/
def TsPacket.pesSlice (p : TsPacket) (streamType : Option ℕ) (start : ℕ)
    (sliceQueue : Option SliceQueue) : PesSlices :=
  handlePESSlice p.buffer (p.offset + start) (188 - start)
    ⟨p.pid, p.filePosition, p.payloadUnitStartIndicator, p.randomAccessIndicator⟩ streamType
    sliceQueue

/-! ## All queues -/

structure TsPes where
  pesSliceQueues : ℕ → Option SliceQueue
  continuityCounters : ℕ → Option ℕ
  parsed : List PESData

namespace TsPes

variable (tracks : TsTracks)

def init : TsPes := ⟨fun _ => none, fun _ => none, []⟩

def clearAudioPESQueues (s : TsPes) : TsPes :=
  { s with
    pesSliceQueues := fun pid => if tracks.isAudioPid pid then none else s.pesSliceQueues pid }

/-- The queue of the pid is deleted, and with it the audio queues if it is a video pid. -/
def handleTrackDiscontinuity (s : TsPes) (pid : ℕ) : TsPes :=
  let s := { s with pesSliceQueues := Function.update s.pesSliceQueues pid none }
  if tracks.isVideoPid pid then s.clearAudioPESQueues tracks else s

def setCounter (s : TsPes) (pid continuityCounter : ℕ) : TsPes :=
  { s with
    continuityCounters := Function.update s.continuityCounters pid (some continuityCounter) }

def shouldProcessPayload (s : TsPes) (pid continuityCounter : ℕ)
    (discontinuityIndicator : Option ℕ) : Bool × TsPes :=
  if discontinuityIndicator = some 1 then
    (true, (s.setCounter pid continuityCounter).handleTrackDiscontinuity tracks pid)
  else
    match s.continuityCounters pid with
    | none => (true, s.setCounter pid continuityCounter)
    | some lastCounter =>
      if continuityCounter = lastCounter then (false, s)
      else if continuityCounter ≠ (lastCounter + 1) &&& 0x0f then
        (true, (s.handleTrackDiscontinuity tracks pid).setCounter pid continuityCounter)
      else (true, s.setCounter pid continuityCounter)

def handle (s : TsPes) (p : TsPacket) : TsPes :=
  match p.tsPayloadStartIndex with
  | none => s
  | some start =>
    if tracks.carriesPes p.pid then
      let checked :=
        s.shouldProcessPayload tracks p.pid p.continuityCounter p.discontinuityIndicator
      if checked.1 then
        let slices := p.pesSlice (tracks.pidStreamType p.pid) start (checked.2.pesSliceQueues p.pid)
        { checked.2 with
          pesSliceQueues := Function.update checked.2.pesSliceQueues p.pid slices.sliceQueue
          parsed := checked.2.parsed ++ slices.parsed }
      else checked.2
    else s

def pesOf (s : TsPes) (pid : ℕ) : List (List UInt8) :=
  (s.parsed.filter fun d => d.pid = pid).map PESData.data

end TsPes

end Apackage.Rtp2httpd.Player
