import Apackage.Lib.Run
import Apackage.Rtp2httpd.Fec.Groups

/-
  `rtp_reorder_insert` with its two flush loops (`rtp_reorder.c`), and the runs of a stream.

  Model. The bounds of the two loops are measures they lower, so neither loop ever ends for
  want of iterations (`flushLoop_eq`, `forceFlushLoop_eq`). `packets_lost` is counted up in
  the loop of `force_flush_until` instead of once at its end.
-/

namespace Apackage.Rtp2httpd

open Lib.Serial Lib.Run

/-! ## flush_consecutive -/

/-- `r->count > 0`, and the slot of `base_seq` is not a hole. -/
def flushCond (s : StreamContext) : Bool :=
  0 < s.reorder.count && (s.reorder.slots (s.slot s.base)).isSome

def flushBody (conn : Conn) (keepForFec : Bool) (s : StreamContext) : StreamContext :=
  let slot := s.slot s.base
  match s.reorder.slots slot with
  | none => s
  | some buf =>
    let s := deliverPacket conn buf s
    let s := if keepForFec then s.keepSlot slot else s.clearSlot slot
    s.advance.decCount

/-- The loop of `flush_consecutive`. -/
def flushLoop (conn : Conn) (keepForFec : Bool) (s : StreamContext) : StreamContext :=
  iterWhile flushCond (flushBody conn keepForFec) s.reorder.count.toNat s

/-- The tail of `flush_consecutive`: release FEC groups that `base_seq` has passed. -/
def releaseExpired (s : StreamContext) : StreamContext :=
  if s.fec.initialized && s.fec.minEndSeqValid && 0 < seqDiff s.base s.fec.minEndSeq then
    fecReleaseExpiredGroups s.base s
  else s

def flushConsecutive (conn : Conn) (s : StreamContext) : StreamContext :=
  releaseExpired (flushLoop conn (fecIsEnabled s.fec) s)

/-! ## force_flush_until -/

/-- `(int16_t)(target_seq - r->base_seq) >= r->window_size`. -/
def forceFlushCond (target : Seq) (s : StreamContext) : Bool :=
  (s.windowSize : ℤ) ≤ seqDiff target s.base

def forceFlushBody (conn : Conn) (s : StreamContext) : StreamContext :=
  let slot := s.slot s.base
  match s.reorder.slots slot with
  | none =>
    let lost := if s.fec.initialized then s.fec.packetsLost + 1 else s.fec.packetsLost
    { s with fec := { s.fec with packetsLost := lost } }.advance
  | some buf => ((deliverPacket conn buf s).clearSlot slot).decCount.advance

def forceFlushUntil (conn : Conn) (target : Seq) (s : StreamContext) : StreamContext :=
  iterWhile (forceFlushCond target) (forceFlushBody conn) (ahead s.base target) s

/-! ## rtp_reorder_insert -/

/-- Phase 0. -/
def startCollecting (buf : BufferRef) (seqn : Seq) (s : StreamContext) : StreamContext :=
  (s.startAt seqn).storePacket buf seqn

/-- Phase 1, the packet: store it in a free slot and lower `base_seq`. -/
def collectPacket (buf : BufferRef) (seqn : Seq) (s : StreamContext) : StreamContext :=
  if (s.reorder.slots (s.slot seqn)).isSome then s
  else
    let s := s.storePacket buf seqn
    if seqDiff seqn s.base < 0 then s.rebase seqn else s

/-- Collected enough. -/
def activate (s : StreamContext) : StreamContext :=
  { s with reorder := { s.reorder with phase := .active } }.log (.initComplete s.base)

/-- Phase 1. -/
def collect (conn : Conn) (buf : BufferRef) (seqn : Seq) (s : StreamContext) : StreamContext :=
  let s := collectPacket buf seqn s
  if rtpReorderInitCollect ≤ s.reorder.count.toNat then flushConsecutive conn (activate s) else s

/-- In-order traffic without FEC: deliver at once. -/
def deliverInOrder (conn : Conn) (buf : BufferRef) (s : StreamContext) : StreamContext :=
  let s := s.log (.deliver buf s.base)
  { s with totalBytes := conn s.trace }.advance

/-- No packet is buffered, none is kept for FEC and the slot is free. -/
def fastPath (seqn : Seq) (s : StreamContext) : Bool :=
  s.reorder.count = 0 && !fecIsEnabled s.fec && (s.reorder.slots (s.slot seqn)).isNone

/-- Case 1: the expected packet. -/
def insertExpected (conn : Conn) (buf : BufferRef) (seqn : Seq) (s : StreamContext) :
    StreamContext :=
  if fastPath seqn s then deliverInOrder conn buf s
  else flushConsecutive conn (s.storePacket buf seqn)

/-- Case 3: make room for a packet beyond the window. -/
def makeRoom (conn : Conn) (seqn : Seq) (s : StreamContext) : StreamContext :=
  if (s.windowSize : ℤ) ≤ seqDiff seqn s.base then forceFlushUntil conn seqn s else s

/-- Slot occupied by the same sequence number. -/
def duplicate (seqn : Seq) (s : StreamContext) : Bool :=
  (s.reorder.slots (s.slot seqn)).isSome && s.reorder.seq (s.slot seqn) = seqn

/-- The recovered packet is delivered; if it came out of its own slot, that slot is done. -/
def deliverRecovered (conn : Conn) (data : List UInt8) (s : StreamContext) : StreamContext :=
  let t := deliverRawPacket conn data s
  let t := if duplicate s.base s then t.keepSlot (s.slot s.base) else t
  t.advance

/-- Case 4: try FEC recovery for `base_seq`. -/
def recoverHead (conn : Conn) (s : StreamContext) : StreamContext :=
  if fecIsEnabled s.fec then
    match fecAttemptRecovery s.base s with
    | (s, none) => s
    | (s, some data) => flushConsecutive conn (deliverRecovered conn data s)
  else s

/-- Cases 3 and 4: a packet ahead of `base_seq`. -/
def insertAhead (conn : Conn) (buf : BufferRef) (seqn : Seq) (s : StreamContext) : StreamContext :=
  let s := makeRoom conn seqn s
  if duplicate seqn s then s else recoverHead conn (s.storePacket buf seqn)

/-- Phase 2. -/
def insertActive (conn : Conn) (buf : BufferRef) (seqn : Seq) (s : StreamContext) : StreamContext :=
  if seqDiff seqn s.base = 0 then insertExpected conn buf seqn s
  else if seqDiff seqn s.base < 0 then s
  else insertAhead conn buf seqn s

def rtpReorderInsert (conn : Conn) (buf : BufferRef) (seqn : Seq) (s : StreamContext) :
    StreamContext :=
  let s := s.resetBytes
  match s.reorder.phase with
  | .notStarted => startCollecting buf seqn s
  | .collecting => collect conn buf seqn s
  | .active => insertActive conn buf seqn s

/-! ## Runs -/

/-- What a stream receives: an RTP packet of the given sequence number, or a FEC packet. -/
inductive Input
  | rtp (buf : BufferRef) (seqn : Seq)
  | fecPacket (data : List UInt8)

/-- `stream_process_rtp_payload` past the header. -/
def streamStep (conn : Conn) (s : StreamContext) : Input → StreamContext
  | .rtp buf seqn => rtpReorderInsert conn buf seqn s
  | .fecPacket data => if s.fec.initialized then fecProcessPacket data s else s

/-- RTP packets alone: a buffer and its sequence number. -/
def insertStep (conn : Conn) (s : StreamContext) (e : BufferRef × Seq) : StreamContext :=
  rtpReorderInsert conn e.1 e.2 s

end Apackage.Rtp2httpd
