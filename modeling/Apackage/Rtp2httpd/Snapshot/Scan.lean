import Apackage.Rtp2httpd.Rtp
import Mathlib.Data.Int.Notation

/-
  The search for an IDR frame in a snapshot (`snapshot_process_packet` in `snapshot.c`).

  Model. A byte of the current packet is `packetByte payload offset i`: none if it lies behind the
  188 bytes of the packet or behind the payload, and such a read makes the result none. The walk
  ends where a frame is complete; its conversion is outside. The packets that are kept are counted.
-/

namespace Apackage.Rtp2httpd.Snapshot

open Option

def tsPacketSize : ℕ := 188
def tsSyncByte : UInt8 := 0x47
def tsPatPid : ℕ := 0

/-- `snapshot_context_t`. -/
structure SnapshotContext where
  initialized : Bool
  idrFrameSize : ℕ
  idrFrameCapacity : ℕ
  idrFrameComplete : Bool
  idrFrameStarted : Bool
  videoPid : ℕ
  hasPat : Bool
  hasPmt : Bool
  pmtPid : ℕ
  tsHeaderSize : ℕ

/-- Byte `i` of the packet at `offset`. -/
def packetByte (payload : List UInt8) (offset i : ℕ) : Option UInt8 :=
  if i < tsPacketSize then payload[offset + i]? else none

section Packet

-- the bytes of the packet
variable (byte : ℕ → Option UInt8)

/-- A 13-bit packet identifier at `i`. -/
def pidAt (i : ℕ) : Option ℕ := do
  let hi ← byte i
  let lo ← byte (i + 1)
  return (hi &&& 0x1F).toNat * 256 + lo.toNat

def payloadStart : Option ℕ := do
  let flags ← byte 3
  if flags &&& 0x20 ≠ 0 then
    let adaptationLength ← byte 4
    return 4 + (1 + adaptationLength.toNat)
  else return 4

/-- The loop over the program entries: the first PMT PID, 0 if there is none. -/
def firstPmtPid : ℕ → ℕ → Option ℕ
  | 0, _ => some 0
  | n + 1, i => do
    let hi ← byte i
    let lo ← byte (i + 1)
    let pmtPid ← pidAt byte (i + 2)
    if hi.toNat * 256 + lo.toNat ≠ 0 ∧ pmtPid ≠ 0 then return pmtPid
    else firstPmtPid n (i + 4)

def parsePatSection (i n : ℕ) : Option ℕ :=
  if n < 8 then some 0
  else do
    let tableId ← byte i
    if tableId ≠ 0 then return 0
    let hi ← byte (i + 1)
    let lo ← byte (i + 2)
    let sectionLength := (hi &&& 0x0F).toNat * 256 + lo.toNat
    if sectionLength < 5 ∨ n < 3 + sectionLength then return 0
    firstPmtPid byte ((sectionLength - 5 - 4) / 4) (i + 8)

def extractPmtPidFromPat : Option ℕ := do
  let sync ← byte 0
  if sync ≠ tsSyncByte then return 0
  let pid ← pidAt byte 1
  if pid ≠ tsPatPid then return 0
  let flags ← byte 3
  if flags &&& 0x10 = 0 then return 0
  let start ← payloadStart byte
  if tsPacketSize ≤ start then return 0
  let unitStart ← byte 1
  if unitStart &&& 0x40 ≠ 0 then
    let pointer ← byte start
    parsePatSection byte (start + (1 + pointer.toNat)) (tsPacketSize - start - (1 + pointer.toNat))
  else parsePatSection byte start (tsPacketSize - start)

/-- A start code at `i`: where the NAL unit behind it starts. -/
def startCodeAt (i : ℕ) : Option (Option ℕ) := do
  if (← byte i) ≠ 0 then return none
  if (← byte (i + 1)) ≠ 0 then return none
  let third ← byte (i + 2)
  if third = 1 then return some (i + 3)
  if third ≠ 0 then return none
  let fourth ← byte (i + 3)
  return if fourth = 1 then some (i + 4) else none

/-- H.264 IDR or HEVC IDR and CRA. -/
def isIdrHeader (nalHeader : UInt8) : Bool :=
  nalHeader &&& 0x1F = 5 || [(19 : UInt8), 20, 21].contains ((nalHeader >>> 1) &&& 0x3F)

/-- The scan of `n` positions from `i` on for the start of an IDR unit; `esEnd` is the end of the
    packet. -/
def scanForIdr (esEnd : ℕ) : ℕ → ℕ → Option Bool
  | 0, _ => some false
  | n + 1, i => do
    match ← startCodeAt byte i with
    | some nalStart =>
      if nalStart < esEnd then
        let nalHeader ← byte nalStart
        if isIdrHeader nalHeader then return true else scanForIdr esEnd n (i + 1)
      else scanForIdr esEnd n (i + 1)
    | none => scanForIdr esEnd n (i + 1)

/-- A PES start code with the stream id of a video stream at `i`. -/
def videoPesAt (i : ℕ) : Option Bool := do
  if (← byte i) ≠ 0 then return false
  if (← byte (i + 1)) ≠ 0 then return false
  if (← byte (i + 2)) ≠ 1 then return false
  let streamId ← byte (i + 3)
  return 0xE0 ≤ streamId && streamId ≤ 0xEF

/-- Does the IDR frame start in this packet? -/
def startsIdr : Option Bool := do
  let unitStart ← byte 1
  let flags ← byte 3
  if flags &&& 0x10 = 0 ∨ unitStart &&& 0x40 = 0 then return false
  let start ← payloadStart byte
  if tsPacketSize ≤ start then return false
  let tsPayloadLen := tsPacketSize - start
  if tsPayloadLen < 6 then return false
  if ← videoPesAt byte start then
    let headerDataLength ← byte (start + 8)
    let pesHeaderLen := 9 + headerDataLength.toNat
    if tsPayloadLen ≤ pesHeaderLen then return false
    scanForIdr byte tsPacketSize (tsPayloadLen - pesHeaderLen - 4) (start + pesHeaderLen)
  else return false

def cacheTsHeaderPacket (ctx : SnapshotContext) (pid : ℕ) : Option SnapshotContext := do
  let ctx ←
    if pid = tsPatPid ∧ ctx.hasPat = false then do
      let pmtPid ← extractPmtPidFromPat byte
      some { ctx with hasPat := true, pmtPid }
    else if ctx.pmtPid ≠ 0 ∧ pid = ctx.pmtPid ∧ ctx.hasPmt = false then
      some { ctx with hasPmt := true }
    else some ctx
  return { ctx with
    tsHeaderSize := (if ctx.hasPat then tsPacketSize else 0) +
      if ctx.hasPmt then tsPacketSize else 0 }

end Packet

/-- What follows a packet. -/
inductive SnapshotNext
  /-- The sync byte is looked for at the next byte. -/
  | resync
  | packet
  /-- The IDR frame is complete. -/
  | complete
  /-- The frame does not fit. -/
  | full

/-- A packet of the IDR frame, or the one behind it. -/
def collectPacket (ctx : SnapshotContext) (pid : ℕ) (unitStart : Bool) :
    SnapshotContext × SnapshotNext :=
  if pid = ctx.videoPid ∧ unitStart ∧ ctx.tsHeaderSize < ctx.idrFrameSize then
    ({ ctx with idrFrameComplete := true }, .complete)
  else if pid = ctx.videoPid then
    if ctx.idrFrameCapacity < ctx.idrFrameSize + tsPacketSize then (ctx, .full)
    else ({ ctx with idrFrameSize := ctx.idrFrameSize + tsPacketSize }, .packet)
  else (ctx, .packet)

/-- The body of the loop. -/
def snapshotStep (byte : ℕ → Option UInt8) (ctx : SnapshotContext) :
    Option (SnapshotContext × SnapshotNext) := do
  let sync ← byte 0
  if sync ≠ tsSyncByte then return (ctx, .resync)
  let pid ← pidAt byte 1
  let unitStart ← byte 1
  let _ ← byte 3
  if ctx.idrFrameStarted then return collectPacket ctx pid (unitStart &&& 0x40 ≠ 0)
  let ctx ← cacheTsHeaderPacket byte ctx pid
  if ← startsIdr byte then
    return collectPacket
      { ctx with idrFrameStarted := true, videoPid := pid, idrFrameSize := ctx.tsHeaderSize }
      pid (unitStart &&& 0x40 ≠ 0)
  else return (ctx, .packet)

/-- How the walk ended: with less than a packet left at an offset, or at a packet. -/
inductive SnapshotEnd
  | exhausted (offset : ℕ)
  | complete
  | full

/-- The loop from `offset` on. -/
def snapshotWalk (payload : List UInt8) (ctx : SnapshotContext) (offset : ℕ) :
    Option (SnapshotContext × SnapshotEnd) :=
  if offset + tsPacketSize ≤ payload.length then
    match snapshotStep (packetByte payload offset) ctx with
    | none => none
    | some (ctx, .resync) => snapshotWalk payload ctx (offset + 1)
    | some (ctx, .packet) => snapshotWalk payload ctx (offset + tsPacketSize)
    | some (ctx, .complete) => some (ctx, .complete)
    | some (ctx, .full) => some (ctx, .full)
  else some (ctx, .exhausted offset)
termination_by payload.length - offset
decreasing_by all_goals (unfold tsPacketSize at *; omega)

/-- The payload that is walked; none if the packet is skipped. -/
def snapshotPayload (ctx : SnapshotContext) (buf : List UInt8) : Option (List UInt8) :=
  if ctx.initialized = false ∨ ctx.idrFrameComplete then none
  else
    let payload :=
      match rtpGetPayload buf with
      | .malformed => []
      | .nonRtp => buf
      | .rtp start length _ => (buf.drop start).take length
      | .fec => buf
    if tsPacketSize ≤ payload.length ∧ payload.head? = some tsSyncByte then some payload else none

/-- `snapshot_process_packet`; `SnapshotEnd` is none for a packet that is skipped. -/
def snapshotProcessPacket (ctx : SnapshotContext) (buf : List UInt8) :
    Option (SnapshotContext × Option SnapshotEnd) :=
  match snapshotPayload ctx buf with
  | none => some (ctx, none)
  | some payload => (snapshotWalk payload ctx 0).map fun r => (r.1, some r.2)

/-! ## One packet -/

section Packet

variable {byte : ℕ → Option UInt8}

/-- A packet of a video PES of whose first bytes only six to eight are in the packet. -/
def ShortVideoPes (byte : ℕ → Option UInt8) : Prop :=
  ∃ unitStart flags start, byte 1 = some unitStart ∧ byte 3 = some flags ∧
    unitStart &&& 0x40 ≠ 0 ∧ flags &&& 0x10 ≠ 0 ∧ payloadStart byte = some start ∧
    start + 6 ≤ tsPacketSize ∧ tsPacketSize ≤ start + 8 ∧ videoPesAt byte start = some true

variable (hb : ∀ i < tsPacketSize, ∃ b, byte i = some b)

include hb

theorem pidAt_inside {i : ℕ} (h : i + 1 < tsPacketSize) : ∃ pid, pidAt byte i = some pid := by
  obtain ⟨hi, hhi⟩ := hb i (by omega)
  obtain ⟨lo, hlo⟩ := hb (i + 1) h
  exact ⟨_, by simp only [pidAt, hhi, hlo, bind_eq_bind, bind_some]; rfl⟩

theorem payloadStart_inside : ∃ start, payloadStart byte = some start := by
  obtain ⟨flags, hflags⟩ := hb 3 (by decide)
  obtain ⟨adaptationLength, hlength⟩ := hb 4 (by decide)
  simp only [payloadStart, hflags, hlength, bind_eq_bind, bind_some]
  split <;> exact ⟨_, rfl⟩

theorem firstPmtPid_inside (n : ℕ) : ∀ {i : ℕ}, i + 4 * n ≤ tsPacketSize →
    ∃ pmtPid, firstPmtPid byte n i = some pmtPid := by
  induction n with
  | zero => exact fun _ => ⟨0, rfl⟩
  | succ n ih =>
    intro i h
    obtain ⟨hi, hhi⟩ := hb i (by omega)
    obtain ⟨lo, hlo⟩ := hb (i + 1) (by omega)
    obtain ⟨pmtPid, hpid⟩ := pidAt_inside hb (show i + 2 + 1 < tsPacketSize by omega)
    simp only [firstPmtPid, hhi, hlo, hpid, bind_eq_bind, bind_some]
    split
    · exact ⟨_, rfl⟩
    · exact ih (by omega)

theorem parsePatSection_inside {i n : ℕ} (h : 8 ≤ n → i + n ≤ tsPacketSize) :
    ∃ pmtPid, parsePatSection byte i n = some pmtPid := by
  unfold parsePatSection
  by_cases hn : n < 8
  · exact ⟨0, if_pos hn⟩
  · obtain ⟨tableId, htable⟩ := hb i (by omega)
    obtain ⟨hi, hhi⟩ := hb (i + 1) (by omega)
    obtain ⟨lo, hlo⟩ := hb (i + 2) (by omega)
    simp only [if_neg hn, htable, hhi, hlo, bind_eq_bind, bind_some]
    split
    · exact ⟨0, rfl⟩
    · split
      · exact ⟨0, rfl⟩
      · exact firstPmtPid_inside hb _ (by omega)

theorem extractPmtPidFromPat_inside : ∃ pmtPid, extractPmtPidFromPat byte = some pmtPid := by
  obtain ⟨sync, hsync⟩ := hb 0 (by decide)
  obtain ⟨pid, hpid⟩ := pidAt_inside hb (show 1 + 1 < tsPacketSize by decide)
  obtain ⟨flags, hflags⟩ := hb 3 (by decide)
  obtain ⟨start, hstart⟩ := payloadStart_inside hb
  obtain ⟨unitStart, hunit⟩ := hb 1 (by decide)
  simp only [extractPmtPidFromPat, hsync, hpid, hflags, hstart, hunit, bind_eq_bind, bind_some]
  by_cases hfit : tsPacketSize ≤ start
  · split_ifs <;> exact ⟨0, rfl⟩
  · obtain ⟨pointer, hpointer⟩ := hb start (by omega)
    simp only [if_neg hfit, hpointer, bind_some]
    split_ifs
    · exact ⟨0, rfl⟩
    · exact ⟨0, rfl⟩
    · exact ⟨0, rfl⟩
    · exact parsePatSection_inside hb (by omega)
    · exact parsePatSection_inside hb (by omega)

theorem cacheTsHeaderPacket_inside (ctx : SnapshotContext) (pid : ℕ) :
    ∃ ctx', cacheTsHeaderPacket byte ctx pid = some ctx' := by
  obtain ⟨pmtPid, hpmt⟩ := extractPmtPidFromPat_inside hb
  simp only [cacheTsHeaderPacket, hpmt, bind_eq_bind, bind_some]
  split_ifs <;> exact ⟨_, rfl⟩

theorem startCodeAt_inside {i : ℕ} (h : i + 3 < tsPacketSize) :
    ∃ nalStart, startCodeAt byte i = some nalStart := by
  obtain ⟨first, hfirst⟩ := hb i (by omega)
  obtain ⟨second, hsecond⟩ := hb (i + 1) (by omega)
  obtain ⟨third, hthird⟩ := hb (i + 2) (by omega)
  obtain ⟨fourth, hfourth⟩ := hb (i + 3) h
  simp only [startCodeAt, hfirst, hsecond, hthird, hfourth, bind_eq_bind, bind_some]
  split_ifs <;> exact ⟨_, rfl⟩

theorem videoPesAt_inside {i : ℕ} (h : i + 3 < tsPacketSize) :
    ∃ video, videoPesAt byte i = some video := by
  obtain ⟨first, hfirst⟩ := hb i (by omega)
  obtain ⟨second, hsecond⟩ := hb (i + 1) (by omega)
  obtain ⟨third, hthird⟩ := hb (i + 2) (by omega)
  obtain ⟨streamId, hid⟩ := hb (i + 3) h
  simp only [videoPesAt, hfirst, hsecond, hthird, hid, bind_eq_bind, bind_some]
  split_ifs <;> exact ⟨_, rfl⟩

theorem scanForIdr_inside (n : ℕ) : ∀ {i : ℕ}, (0 < n → i + n + 3 ≤ tsPacketSize) →
    ∃ idr, scanForIdr byte tsPacketSize n i = some idr := by
  induction n with
  | zero => exact fun _ => ⟨false, rfl⟩
  | succ n ih =>
    intro i hin
    obtain ⟨nalStart, hnal⟩ := startCodeAt_inside hb (show i + 3 < tsPacketSize by omega)
    simp only [scanForIdr, hnal, bind_eq_bind, bind_some]
    cases nalStart with
    | none => exact ih fun _ => by omega
    | some nalStart =>
      by_cases hfit : nalStart < tsPacketSize
      · obtain ⟨nalHeader, hheader⟩ := hb nalStart hfit
        simp only [if_pos hfit, hheader, bind_some]
        split
        · exact ⟨true, rfl⟩
        · exact ih fun _ => by omega
      · simp only [if_neg hfit]
        exact ih fun _ => by omega

theorem startsIdr_inside_iff (hend : ∀ i, tsPacketSize ≤ i → byte i = none) :
    (∃ idr, startsIdr byte = some idr) ↔ ¬ ShortVideoPes byte := by
  obtain ⟨unitStart, hunit⟩ := hb 1 (by decide)
  obtain ⟨flags, hflags⟩ := hb 3 (by decide)
  obtain ⟨start, hstart⟩ := payloadStart_inside hb
  simp only [startsIdr, ShortVideoPes, hunit, hflags, hstart, bind_eq_bind,
    bind_some, Option.some.injEq, exists_eq_left', exists_and_left]
  by_cases hpes : flags &&& 0x10 = 0 ∨ unitStart &&& 0x40 = 0
  · grind
  simp only [if_neg hpes]
  by_cases hsix : start + 6 ≤ tsPacketSize
  · rw [if_neg (by omega), if_neg (by omega)]
    obtain ⟨video, hvideo⟩ := videoPesAt_inside hb (show start + 3 < tsPacketSize by omega)
    rw [hvideo]
    cases video with
    | false => exact iff_of_true ⟨false, rfl⟩ (by simp)
    | true =>
      simp only [bind_some, if_true]
      by_cases hnine : tsPacketSize ≤ start + 8
      · grind
      · obtain ⟨headerDataLength, hlength⟩ := hb (start + 8) (by omega)
        rw [hlength]
        refine iff_of_true ?_ fun h => hnine h.2.2.2.1
        simp only [bind_some]
        split
        · exact ⟨false, rfl⟩
        · exact scanForIdr_inside hb _ fun _ => by omega
  · refine iff_of_true ?_ fun h => hsix h.2.2.1
    split
    · exact ⟨false, rfl⟩
    · rw [if_pos (by omega)]
      exact ⟨false, rfl⟩

end Packet

/-! ## The walk -/

theorem packetByte_of_lt {payload : List UInt8} {offset : ℕ}
    (h : offset + tsPacketSize ≤ payload.length) :
    ∀ i < tsPacketSize, ∃ b, packetByte payload offset i = some b := by
  intro i hi
  rw [packetByte, if_pos hi]
  exact ⟨_, List.getElem?_eq_getElem (by omega)⟩

theorem packetByte_of_le {payload : List UInt8} {offset : ℕ} :
    ∀ i, tsPacketSize ≤ i → packetByte payload offset i = none :=
  fun _ hi => if_neg (by omega)

theorem collectPacket_started (ctx : SnapshotContext) (pid : ℕ) (unitStart : Bool) :
    (collectPacket ctx pid unitStart).1.idrFrameStarted = ctx.idrFrameStarted := by
  unfold collectPacket
  split_ifs <;> rfl

variable {ctx' ctx : SnapshotContext}

theorem cacheTsHeaderPacket_started {byte : ℕ → Option UInt8} {pid : ℕ}
    (h : cacheTsHeaderPacket byte ctx pid = some ctx') :
    ctx'.idrFrameStarted = ctx.idrFrameStarted := by
  unfold cacheTsHeaderPacket at h
  split_ifs at h
  · cases hpmt : extractPmtPidFromPat byte with
    | none => simp [hpmt] at h
    | some pmtPid =>
      simp only [hpmt, bind_eq_bind, bind_some] at h
      obtain rfl := some.inj h
      rfl
  · obtain rfl := some.inj h
    rfl
  · obtain rfl := some.inj h
    rfl

section Step

variable {byte : ℕ → Option UInt8} {ctx : SnapshotContext}

theorem snapshotStep_resync (hb : ∀ i < tsPacketSize, ∃ b, byte i = some b)
    (hsync : byte 0 ≠ some tsSyncByte) : snapshotStep byte ctx = some (ctx, .resync) := by
  obtain ⟨sync, hbyte⟩ := hb 0 (by decide)
  rw [hbyte, ne_eq, Option.some.injEq] at hsync
  simp only [snapshotStep, hbyte, bind_eq_bind, bind_some]
  exact if_pos hsync

variable (hb : ∀ i < tsPacketSize, ∃ b, byte i = some b)

include hb

theorem snapshotStep_started (hstarted : ctx.idrFrameStarted = true) :
    ∃ ctx' next, snapshotStep byte ctx = some (ctx', next) ∧ ctx'.idrFrameStarted = true := by
  by_cases hsync : byte 0 = some tsSyncByte
  · obtain ⟨pid, hpid⟩ := pidAt_inside hb (show 1 + 1 < tsPacketSize by decide)
    obtain ⟨unitStart, hunit⟩ := hb 1 (by decide)
    obtain ⟨flags, hflags⟩ := hb 3 (by decide)
    simp only [snapshotStep, hsync, hpid, hunit, hflags, hstarted, bind_eq_bind,
      bind_some, ne_eq, not_true_eq_false, if_false, if_true]
    exact ⟨_, _, rfl, (collectPacket_started ctx pid _).trans hstarted⟩
  · exact ⟨ctx, .resync, snapshotStep_resync hb hsync, hstarted⟩

theorem snapshotStep_searching (hsync : byte 0 = some tsSyncByte)
    (hsearch : ctx.idrFrameStarted = false) :
    (startsIdr byte = none → snapshotStep byte ctx = none) ∧ (startsIdr byte = some true →
        ∃ ctx' next, snapshotStep byte ctx = some (ctx', next) ∧ ctx'.idrFrameStarted = true) ∧
      (startsIdr byte = some false → ∃ ctx', snapshotStep byte ctx = some (ctx', .packet) ∧
          ctx'.idrFrameStarted = false) := by
  obtain ⟨pid, hpid⟩ := pidAt_inside hb (show 1 + 1 < tsPacketSize by decide)
  obtain ⟨unitStart, hunit⟩ := hb 1 (by decide)
  obtain ⟨flags, hflags⟩ := hb 3 (by decide)
  obtain ⟨cached, hcache⟩ := cacheTsHeaderPacket_inside hb ctx pid
  simp only [snapshotStep, hsync, hpid, hunit, hflags, hsearch, hcache, bind_eq_bind,
    bind_some, ne_eq, not_true_eq_false, if_false, Bool.false_eq_true]
  refine ⟨fun h => ?_, fun h => ?_, fun h => ?_⟩
  · rw [h, bind_none]
  · rw [h, bind_some, if_pos rfl]
    exact ⟨_, _, rfl, collectPacket_started _ pid _⟩
  · rw [h, bind_some, if_neg Bool.false_ne_true]
    exact ⟨_, rfl, (cacheTsHeaderPacket_started hcache).trans hsearch⟩

end Step

/-- While the frame is searched for, the walk goes from one offset to another. -/
def SearchStep (payload : List UInt8) (o o' : ℕ) : Prop :=
  o + tsPacketSize ≤ payload.length ∧ (packetByte payload o 0 ≠ some tsSyncByte ∧ o' = o + 1 ∨
      packetByte payload o 0 = some tsSyncByte ∧
        startsIdr (packetByte payload o) = some false ∧ o' = o + tsPacketSize)

/-- A packet at `o` that is short of its PES header. -/
def ShortAt (payload : List UInt8) (o : ℕ) : Prop :=
  o + tsPacketSize ≤ payload.length ∧ packetByte payload o 0 = some tsSyncByte ∧
    ShortVideoPes (packetByte payload o)

theorem snapshotWalk_exhausted (payload : List UInt8) (ctx : SnapshotContext) (offset : ℕ) {o : ℕ}
    (h : snapshotWalk payload ctx offset = some (ctx', .exhausted o)) :
    payload.length < o + tsPacketSize := by
  fun_induction snapshotWalk payload ctx offset with
  | case1 => cases h
  | case2 ctx offset hfit ctx₁ hstep ih => exact ih h
  | case3 ctx offset hfit ctx₁ hstep ih => exact ih h
  | case4 => cases h
  | case5 => cases h
  | case6 ctx offset hfit =>
    cases h
    omega

theorem snapshotWalk_started (payload : List UInt8) (ctx : SnapshotContext) (offset : ℕ)
    (hstarted : ctx.idrFrameStarted = true) : ∃ r, snapshotWalk payload ctx offset = some r := by
  fun_induction snapshotWalk payload ctx offset with
  | case1 ctx offset hfit hstep =>
    obtain ⟨ctx', next, heq, -⟩ := snapshotStep_started (packetByte_of_lt hfit) hstarted
    cases hstep.symm.trans heq
  | case2 ctx offset hfit ctx₁ hstep ih =>
    obtain ⟨ctx', next, heq, h⟩ := snapshotStep_started (packetByte_of_lt hfit) hstarted
    cases hstep.symm.trans heq
    exact ih h
  | case3 ctx offset hfit ctx₁ hstep ih =>
    obtain ⟨ctx', next, heq, h⟩ := snapshotStep_started (packetByte_of_lt hfit) hstarted
    cases hstep.symm.trans heq
    exact ih h
  | case4 => exact ⟨_, rfl⟩
  | case5 => exact ⟨_, rfl⟩
  | case6 => exact ⟨_, rfl⟩

/-- The search from `offset` comes to a packet that is short of its PES header. -/
def MeetsShort (payload : List UInt8) (offset : ℕ) : Prop :=
  ∃ o, Relation.ReflTransGen (SearchStep payload) offset o ∧ ShortAt payload o

theorem meetsShort_step {payload : List UInt8} {offset offset' : ℕ}
    (hhere : ¬ ShortAt payload offset) (hstep : SearchStep payload offset offset')
    (honly : ∀ o, SearchStep payload offset o → o = offset') :
    MeetsShort payload offset' ↔ MeetsShort payload offset := by
  constructor
  · rintro ⟨o, hreach, hshort⟩
    exact ⟨o, hreach.head hstep, hshort⟩
  · rintro ⟨o, hreach, hshort⟩
    obtain rfl | ⟨o₁, hfirst, hrest⟩ := hreach.cases_head
    · exact absurd hshort hhere
    · obtain rfl := honly o₁ hfirst
      exact ⟨o, hrest, hshort⟩

theorem not_meetsShort_stop {payload : List UInt8} {offset : ℕ}
    (hhere : ¬ ShortAt payload offset) (hstop : ∀ o, ¬ SearchStep payload offset o) :
    ¬ MeetsShort payload offset := by
  rintro ⟨o, hreach, hshort⟩
  obtain rfl | ⟨o₁, hfirst, -⟩ := hreach.cases_head
  · exact hhere hshort
  · exact hstop o₁ hfirst

theorem snapshotWalk_of_start {payload : List UInt8} {offset : ℕ} {next : SnapshotNext}
    (hfit : offset + tsPacketSize ≤ payload.length)
    (hstep : snapshotStep (packetByte payload offset) ctx = some (ctx', next))
    (hstarted : ctx'.idrFrameStarted = true) : ∃ r, snapshotWalk payload ctx offset = some r := by
  rw [snapshotWalk, if_pos hfit, hstep]
  cases next with
  | resync => exact snapshotWalk_started payload ctx' _ hstarted
  | packet => exact snapshotWalk_started payload ctx' _ hstarted
  | complete => exact ⟨_, rfl⟩
  | full => exact ⟨_, rfl⟩

theorem snapshotWalk_searching (payload : List UInt8) (ctx : SnapshotContext) (offset : ℕ)
    (hsearch : ctx.idrFrameStarted = false) :
    snapshotWalk payload ctx offset = none ↔ MeetsShort payload offset := by
  by_cases hfit : offset + tsPacketSize ≤ payload.length
  · have hb := packetByte_of_lt hfit
    by_cases hsync : packetByte payload offset 0 = some tsSyncByte
    · obtain ⟨hshort, hstart, hgo⟩ := snapshotStep_searching hb hsync hsearch
      have hinside := startsIdr_inside_iff hb packetByte_of_le
      cases hidr : startsIdr (packetByte payload offset) with
      | none =>
        rw [snapshotWalk, if_pos hfit, hshort hidr]
        refine iff_of_true rfl ⟨offset, .refl, hfit, hsync, ?_⟩
        by_contra h
        obtain ⟨idr, hsome⟩ := hinside.mpr h
        cases hidr.symm.trans hsome
      | some idr =>
        have hhere : ¬ ShortAt payload offset := fun h => hinside.mp ⟨idr, hidr⟩ h.2.2
        cases idr with
        | true =>
          obtain ⟨ctx', next, heq, hstarted⟩ := hstart hidr
          obtain ⟨r, hr⟩ := snapshotWalk_of_start hfit heq hstarted
          rw [hr]
          refine iff_of_false (by simp) (not_meetsShort_stop hhere ?_)
          rintro o ⟨-, ⟨h, -⟩ | ⟨-, h, -⟩⟩
          · exact h hsync
          · cases hidr.symm.trans h
        | false =>
          obtain ⟨ctx', heq, hsearch'⟩ := hgo hidr
          rw [snapshotWalk, if_pos hfit, heq]
          refine (snapshotWalk_searching payload ctx' (offset + tsPacketSize) hsearch').trans ?_
          refine meetsShort_step hhere ⟨hfit, .inr ⟨hsync, hidr, rfl⟩⟩ ?_
          rintro o ⟨-, ⟨h, -⟩ | ⟨-, -, rfl⟩⟩
          · exact absurd hsync h
          · rfl
    · rw [snapshotWalk, if_pos hfit, snapshotStep_resync hb hsync]
      refine (snapshotWalk_searching payload ctx (offset + 1) hsearch).trans ?_
      refine meetsShort_step (fun h => hsync h.2.1) ⟨hfit, .inl ⟨hsync, rfl⟩⟩ ?_
      rintro o ⟨-, ⟨-, rfl⟩ | ⟨h, -⟩⟩
      · rfl
      · exact absurd h hsync
  · rw [snapshotWalk, if_neg hfit]
    exact iff_of_false (by simp) (not_meetsShort_stop (fun h => hfit h.1) fun _ h => hfit h.1)
termination_by payload.length - offset
decreasing_by all_goals (unfold tsPacketSize at *; omega)

/-- Every read is within its packet and the payload, and the walk ends with less than a packet
    left (or with the frame), if and only if a search for the frame comes to no packet that is
    short of its PES header. -/
theorem snapshot_inside_iff (ctx : SnapshotContext) (buf : List UInt8) :
    (∃ r, snapshotProcessPacket ctx buf = some r ∧
      ∀ payload o, snapshotPayload ctx buf = some payload → r.2 = some (.exhausted o) →
        payload.length < o + tsPacketSize) ↔
      ∀ payload, snapshotPayload ctx buf = some payload → ctx.idrFrameStarted = false →
        ¬ MeetsShort payload 0 := by
  unfold snapshotProcessPacket
  cases hpayload : snapshotPayload ctx buf with
  | none => exact iff_of_true ⟨(ctx, none), rfl, by simp⟩ (by simp)
  | some payload =>
    have hwalk : (snapshotWalk payload ctx 0).isSome ↔
        (ctx.idrFrameStarted = false → ¬ MeetsShort payload 0) := by
      cases hstarted : ctx.idrFrameStarted with
      | true =>
        obtain ⟨r, hr⟩ := snapshotWalk_started payload ctx 0 hstarted
        simp [hr]
      | false =>
        rw [← snapshotWalk_searching payload ctx 0 hstarted, isSome_iff_ne_none]
        simp
    simp only [Option.some.injEq, forall_eq', ← hwalk, isSome_iff_exists]
    constructor
    · rintro ⟨r, hr, -⟩
      obtain ⟨r₁, hr₁, -⟩ := map_eq_some_iff.mp hr
      exact ⟨r₁, hr₁⟩
    · rintro ⟨⟨ctx', e⟩, hr⟩
      refine ⟨(ctx', some e), by rw [hr]; rfl, ?_⟩
      rintro _ o rfl he
      obtain rfl := some.inj he
      exact snapshotWalk_exhausted _ ctx 0 hr

/-- A snapshot that waits for its IDR frame. -/
def searching : SnapshotContext := ⟨true, 0, 1000, false, false, 0, false, false, 0, 0⟩

/-- A packet whose adaptation field leaves six bytes for a video PES. -/
def shortPacket : List UInt8 :=
  [0x47, 0x41, 0x00, 0x30, 177, 0] ++ List.replicate 176 0xFF ++ [0, 0, 1, 0xE0, 0, 0]

/-- The length of the PES header is read behind the packet. -/
theorem shortPacket_outside : snapshotProcessPacket searching shortPacket = none := by
  decide +kernel

end Apackage.Rtp2httpd.Snapshot
