import Apackage.Rtp2httpd.Output.BufferPool
import Apackage.Rtp2httpd.Rtp
import Apackage.Rtp2httpd.Stream

/-
  FEC packets and groups (`rtp_fec.c`): `fec_process_packet`, `fec_find_or_create_group`,
  `fec_release_expired_groups`, `fec_recalc_min_end_seq`.

  Model. A group pointer is the index of the group. Each access to `fec_slots[i]` is logged
  with the number of entries the array was allocated with; a store past the end changes
  nothing here.

  `fec_attempt_recovery` rebuilds a lost packet from its group. The pointers `data_ptrs`,
  `fec_ptrs` are the bytes behind them (`Packet`): a packet of the window that is shorter than
  `rtp_len` is copied into a zeroed buffer, a longer one is used where it lies. The decoder writes
  only to the buffers of lost packets, which are allocated for the call.
-/

namespace Apackage.Rtp2httpd

open Lib.Serial

def seqInRange (seq beginSeq endSeq : Seq) : Bool :=
  0 ≤ seqDiff seq beginSeq && 0 ≤ seqDiff endSeq seq

/-- What `fec_process_packet` takes from a valid packet: the fields of
    `fec_packet_header_t`, `k` and the parity bytes. -/
structure FecFrame where
  beginSeq : Seq
  endSeq : Seq
  k : ℕ
  m : ℕ
  redundIdx : ℕ
  rtpLen : ℕ
  parity : List UInt8

/-- Length of the RTP header of a FEC packet; `none` if the extension header is cut off. -/
def fecRtpHeaderLen (data : List UInt8) : Option ℕ :=
  let rtpHeaderLen := 12 + (byteAt data 0 &&& 0x0F).toNat * 4
  if byteAt data 0 &&& 0x10 ≠ 0 then
    if rtpHeaderLen + 4 > data.length then none
    else some (rtpHeaderLen + 4 + 4 * be16 data (rtpHeaderLen + 2))
  else some rtpHeaderLen

/-- The checks of `fec_process_packet`; `none` is -1. -/
def parseFecPacket (data : List UInt8) : Option FecFrame :=
  if data.length < 24 then none
  else if byteAt data 0 &&& 0xC0 ≠ 0x80 then none
  else if ¬ isFecPayloadType (byteAt data 1) then none
  else
    match fecRtpHeaderLen data with
    | none => none
    | some h =>
      if h + 12 > data.length then none
      else
        let beginSeq : Seq := BitVec.ofNat 16 (be16 data h)
        let endSeq : Seq := BitVec.ofNat 16 (be16 data (h + 2))
        let m := (byteAt data (h + 4)).toNat
        let redundIdx := (byteAt data (h + 5)).toNat
        let fecLen := be16 data (h + 6)
        let rtpLen := be16 data (h + 8)
        let k := seqDiff endSeq beginSeq + 1
        if rtpLen < 12 ∨ rtpLen > bufferPoolBufferSize then none
        else if k ≤ 0 ∨ m ≤ 0 then none
        else if redundIdx ≥ m then none
        else if h + 12 + fecLen > data.length then none
        else some ⟨beginSeq, endSeq, k.toNat, m, redundIdx, rtpLen,
          (data.drop (h + 12)).take fecLen⟩

/-- `SEQ_DIFF(end, min_end_seq) < 0`, or no minimum yet. -/
def FecContext.lowersMin (f : FecContext) (endSeq : Seq) : Bool :=
  !f.minEndSeqValid || seqDiff endSeq f.minEndSeq < 0

/-- One step of the loop in `fec_recalc_min_end_seq`. -/
def lowerMin (f : FecContext) (g : FecGroup) : FecContext :=
  if g.active && f.lowersMin g.endSeq then { f with minEndSeq := g.endSeq, minEndSeqValid := true }
  else f

def fecRecalcMinEndSeq (f : FecContext) : FecContext :=
  f.groupList.foldl lowerMin { f with minEndSeqValid := false }

/-- The accesses of a loop over `fec_slots[0 .. n)`. -/
def StreamContext.logSlots (s : StreamContext) (g : FecGroup) (n : ℕ) : StreamContext :=
  (List.range n).foldl (fun s i => s.log (.slotAccess i (g.fecSlots.getD []).length)) s

def StreamContext.setGroup (s : StreamContext) (i : ℕ) (g : FecGroup) : StreamContext :=
  { s with fec := { s.fec with groups := some (s.fec.groupList.set i g) } }

def StreamContext.group (s : StreamContext) (i : ℕ) : FecGroup :=
  s.fec.groupList.getD i FecGroup.empty

/-- Frees the parity packets of group `i` and its range of the reorder buffer, and leaves
    the group inactive. -/
def StreamContext.freeGroup (s : StreamContext) (i : ℕ) : StreamContext :=
  let g := s.group i
  let s := rtpReorderReleaseRange g.beginSeq g.endSeq s
  let s := s.logSlots g g.m
  let s := s.setGroup i { g with fecSlots := none }
  { s with fec := { s.fec with groupCount := s.fec.groupCount - 1 } }

/-- The group has expired: `SEQ_DIFF(base_seq, end_seq) > 0`. -/
def FecGroup.expired (g : FecGroup) (base : Seq) : Bool := g.active && 0 < seqDiff base g.endSeq

/-- One step of the loop in `fec_release_expired_groups`. -/
def releaseExpiredOne (base : Seq) (s : StreamContext) (i : ℕ) : StreamContext :=
  if (s.group i).expired base then s.freeGroup i else s

def fecReleaseExpiredGroups (base : Seq) (s : StreamContext) : StreamContext :=
  if s.fec.groups.isNone then s
  else
    let s := (List.range fecMaxGroups).foldl (releaseExpiredOne base) s
    { s with fec := fecRecalcMinEndSeq s.fec }

/-- The eviction loop of `fec_find_or_create_group`: the index with the largest positive
    `(int16_t)(begin_seq - groups[i].begin_seq)`, 0 if there is none. -/
def oldestGroup (groups : List FecGroup) (beginSeq : Seq) : ℕ :=
  ((List.range fecMaxGroups).foldl (fun (acc : ℕ × ℤ) i =>
    let diff := seqDiff beginSeq (groups.getD i FecGroup.empty).beginSeq
    if diff > acc.2 then (i, diff) else acc) (0, 0)).1

/-- Is `g` the active group of this sequence range? -/
def FecGroup.isFor (g : FecGroup) (beginSeq endSeq : Seq) : Bool :=
  g.active && g.beginSeq = beginSeq && g.endSeq = endSeq

/-- The loop over the groups for the range of `fr`. -/
def existingGroup (fr : FecFrame) (f : FecContext) : Option ℕ :=
  f.groupList.findIdx? (fun g => g.isFor fr.beginSeq fr.endSeq)

def freeGroupIdx (f : FecContext) : Option ℕ := f.groupList.findIdx? (fun g => !g.active)

/-- First use of the groups: `calloc(FEC_MAX_GROUPS, …)`. -/
def StreamContext.allocGroups (s : StreamContext) : StreamContext :=
  { s with fec := { s.fec with
      groups := some (s.fec.groups.getD (List.replicate fecMaxGroups FecGroup.empty)) } }

/-- The group that a new range takes when none exists for it: an inactive one, else the
    evicted one. The flag says whether one was evicted. -/
def claimGroup (s : StreamContext) (beginSeq : Seq) : StreamContext × ℕ × Bool :=
  match freeGroupIdx s.fec with
  | some i => (s, i, false)
  | none =>
    let i := oldestGroup s.fec.groupList beginSeq
    (s.freeGroup i, i, true)

/-- A group for the range of `fr`, with `m` empty parity slots. -/
def newGroup (fr : FecFrame) : FecGroup :=
  ⟨fr.beginSeq, fr.endSeq, fr.k, fr.m, fr.rtpLen, 0, some (List.replicate fr.m FecPacket.empty)⟩

/-- Initialize group `i`, and `min_end_seq` with it. -/
def initGroup (s : StreamContext) (fr : FecFrame) (i : ℕ) (evicted : Bool) : StreamContext :=
  let s := s.setGroup i (newGroup fr)
  let f := { s.fec with groupCount := s.fec.groupCount + 1 }
  if f.lowersMin fr.endSeq then
    { s with fec := { f with minEndSeq := fr.endSeq, minEndSeqValid := true } }
  else if evicted then { s with fec := fecRecalcMinEndSeq f }
  else { s with fec := f }

/-- `fec_find_or_create_group`; the index is `none` for a range that is over already. -/
def fecFindOrCreateGroup (fr : FecFrame) (s : StreamContext) : StreamContext × Option ℕ :=
  if 0 < seqDiff s.base fr.endSeq then (s, none)
  else
    let s := s.allocGroups
    match existingGroup fr s.fec with
    | some i => (s, some i)
    | none =>
      let (s, i, evicted) := claimGroup s fr.beginSeq
      (initGroup s fr i evicted, some i)

/-- Store the parity in its slot of group `i` if the slot is empty. -/
def storeParity (s : StreamContext) (fr : FecFrame) (i : ℕ) : StreamContext :=
  let g := s.group i
  let slots := g.fecSlots.getD []
  let s := s.log (.slotAccess fr.redundIdx slots.length)
  if (slots.getD fr.redundIdx FecPacket.empty).received then s
  else s.setGroup i { g with
    fecSlots := some (slots.set fr.redundIdx ⟨fr.parity, true⟩)
    fecReceived := g.fecReceived + 1 }

def fecProcessPacket (data : List UInt8) (s : StreamContext) : StreamContext :=
  match parseFecPacket data with
  | none => s
  | some fr =>
    let s := { s with fec := { s.fec with fecActive := true } }
    match fecFindOrCreateGroup fr s with
    | (s, none) => s
    | (s, some i) => storeParity s fr i

/-! ## Recovery -/

/-- The bytes of a list, zero past its end. -/
def packetOf (l : List UInt8) : Packet := fun r => l.getD r 0

/-- The group whose range contains `seq`: the first active one. -/
def FecContext.coveringGroup (f : FecContext) (seq : Seq) : Option FecGroup :=
  f.groupList.find? (fun g => g.active && seqInRange seq g.beginSeq g.endSeq)

/-- Packets of the group that are in the window. -/
def rtpReceived (r : RtpReorder) (g : FecGroup) : ℕ :=
  (List.range g.k).countP (fun i => (rtpReorderGet r (g.beginSeq + BitVec.ofNat 16 i)).isSome)

/-- `data_ptrs[i]`. -/
def dataPtr (r : RtpReorder) (g : FecGroup) (i : ℕ) : Packet :=
  match rtpReorderGet r (g.beginSeq + BitVec.ofNat 16 i) with
  | none => packetOf []
  | some ref =>
    let rtpPacketSize := ref.dataOffset + ref.dataSize
    if rtpPacketSize < g.rtpLen then packetOf (ref.data.take rtpPacketSize)
    else packetOf ref.data

/-- Entry `i` of `fec_slots`. -/
def FecGroup.paritySlot (g : FecGroup) (i : ℕ) : FecPacket :=
  (g.fecSlots.getD []).getD i FecPacket.empty

/-- `fec_ptrs[i]`. -/
def fecPtr (g : FecGroup) (i : ℕ) : Packet := packetOf (g.paritySlot i).data

/-- `lost_map`: the `k` data packets, then the `m` parities. -/
def lostMap (r : RtpReorder) (g : FecGroup) (i : ℕ) : ℤ :=
  if i < g.k then
    if (rtpReorderGet r (g.beginSeq + BitVec.ofNat 16 i)).isSome then 1 else 0
  else if (g.paritySlot (i - g.k)).received then 1 else 0

/-- A received parity that is too short for the group stops the attempt. -/
def FecGroup.shortParity (g : FecGroup) (i : ℕ) : Bool :=
  (g.paritySlot i).received && (g.paritySlot i).data.length < g.rtpLen

/-- Iterations of the loop over the parities: up to and including the first short one. -/
def FecGroup.parityIterations (g : FecGroup) : ℕ :=
  match (List.range g.m).findIdx? g.shortParity with
  | none => g.m
  | some i => i + 1

/-- `rs_decoder` for `k` data and `m` parity packets, cached from the last call. -/
def decoderFor (f : FecContext) (g : FecGroup) : FecContext :=
  if f.rsDecoder.isNone ∨ f.rsK ≠ g.k ∨ f.rsM ≠ g.m then
    match rsFecNew g.k g.m with
    | none => { f with rsDecoder := none }
    | some code => { f with rsDecoder := some code, rsK := g.k, rsM := g.m }
  else f

/-- Offset of the payload in a recovered packet of `rtpLen` bytes. -/
def recoveredHeaderLen (rtpLen : ℕ) (pkt : Packet) : Option ℕ :=
  let hdr := 12 + (pkt 0 &&& 0x0F).toNat * 4
  if hdr > rtpLen then none
  else if pkt 0 &&& 0x10 ≠ 0 then
    if hdr + 4 > rtpLen then none
    else
      let extLen := (pkt (hdr + 2)).toNat * 256 + (pkt (hdr + 3)).toNat
      if hdr + 4 + 4 * extLen > rtpLen then none else some (hdr + 4 + 4 * extLen)
  else some hdr

/-- The payload of a recovered packet: the RTP header is stripped again. -/
def recoveredPayload (rtpLen : ℕ) (pkt : Packet) : Option (List UInt8) :=
  if rtpLen < 12 ∨ rtpLen > bufferPoolBufferSize then none
  else if pkt 0 &&& 0xC0 ≠ 0x80 then none
  else
    match recoveredHeaderLen rtpLen pkt with
    | none => none
    | some hdr =>
      let payloadLen : ℤ := (rtpLen : ℤ) - hdr
      let payloadLen :=
        if pkt 0 &&& 0x20 ≠ 0 then payloadLen - (pkt (rtpLen - 1)).toNat else payloadLen
      if payloadLen ≤ 0 then none
      else some ((List.range payloadLen.toNat).map (fun j => pkt (hdr + j)))

/-- `rtp_hdr_len` and `payload_len` where the payload of a recovered packet is copied. -/
def recoveredRange (rtpLen : ℕ) (pkt : Packet) : Option (ℕ × ℕ) :=
  if rtpLen < 12 ∨ rtpLen > bufferPoolBufferSize then none
  else if pkt 0 &&& 0xC0 ≠ 0x80 then none
  else
    match recoveredHeaderLen rtpLen pkt with
    | none => none
    | some hdr =>
      let payloadLen : ℤ := (rtpLen : ℤ) - hdr
      let payloadLen :=
        if pkt 0 &&& 0x20 ≠ 0 then payloadLen - (pkt (rtpLen - 1)).toNat else payloadLen
      if payloadLen ≤ 0 then none else some (hdr, payloadLen.toNat)

theorem recoveredPayload_range (rtpLen : ℕ) (pkt : Packet) : recoveredPayload rtpLen pkt =
      (recoveredRange rtpLen pkt).map fun r => (List.range r.2).map fun j => pkt (r.1 + j) := by
  unfold recoveredPayload recoveredRange
  split
  · rfl
  · split
    · rfl
    · cases recoveredHeaderLen rtpLen pkt with
      | none => rfl
      | some hdr =>
        dsimp only
        generalize (if pkt 0 &&& 0x20 ≠ 0 then
          (rtpLen : ℤ) - hdr - (pkt (rtpLen - 1)).toNat else (rtpLen : ℤ) - hdr) = payloadLen
        split
        · rfl
        · rfl

/-- Decode the group and take packet `target` out of it. -/
def decodeTarget (code : RsFec) (r : RtpReorder) (g : FecGroup) (target : ℕ) :
    Option (List UInt8) :=
  match rsFecDecode code (fun i => dataPtr r g i) (fun i => fecPtr g i) (lostMap r g) g.rtpLen with
  | none => none
  | some out => if h : target < code.k then recoveredPayload g.rtpLen (out ⟨target, h⟩) else none

/-- `fec_attempt_recovery` from the point where enough packets are there. -/
def recoverFrom (g : FecGroup) (target : ℕ) (s : StreamContext) :
    StreamContext × Option (List UInt8) :=
  let s := { s with fec := decoderFor s.fec g }
  match s.fec.rsDecoder with
  | none => (s, none)
  | some code =>
    let s := s.logSlots g g.parityIterations
    if (List.range g.m).any g.shortParity then (s, none)
    else
      match decodeTarget code s.reorder g target with
      | none => (s, none)
      | some data =>
        ({ s with fec := { s.fec with recoverySuccesses := s.fec.recoverySuccesses + 1 } },
          some data)

/-- `fec_attempt_recovery`; `none` is -1, otherwise `recovered_data`. -/
def fecAttemptRecovery (seq : Seq) (s : StreamContext) : StreamContext × Option (List UInt8) :=
  if ¬ fecIsEnabled s.fec ∨ s.fec.groups.isNone then (s, none)
  else
    match s.fec.coveringGroup seq with
    | none => (s, none)
    | some g =>
      if g.k > s.windowSize then (s, none)
      else
        let targetSlot := seqDiff seq g.beginSeq
        if targetSlot < 0 ∨ targetSlot ≥ g.k then (s, none)
        else
          match rtpReorderGet s.reorder seq with
          | some existing => (s, some existing.payload)
          | none =>
            if rtpReceived s.reorder g + g.fecReceived < g.k then (s, none)
            else recoverFrom g targetSlot.toNat s

end Apackage.Rtp2httpd
