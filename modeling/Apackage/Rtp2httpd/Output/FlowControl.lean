import Apackage.Rtp2httpd.Output.Conservation
import Apackage.Rtp2httpd.Output.SendQueue
import Mathlib.Data.Rat.Floor
import Mathlib.Tactic.Linarith

/-
  Upstream flow control of a relayed connection (`connection.c`, `http_proxy.c`): the test
  that pauses reading from the upstream, and the queue limit that the next buffer meets.

  Model. The doubles are rationals. `pool` is the pool of packet buffers and `active` the
  number of registered streams. Between the test and the enqueue of one event the pool only
  changes by the allocation of the buffer.

  The early exits of the two tests compare the queue with the watermark of a limit of
  `CONN_QUEUE_MIN_BUFFERS` buffers. The slow clamp and the cap of a small pool come after what a
  comment takes for the least limit; `fast_path_agrees_iff` says when the limit is not less.
-/

namespace Apackage.Rtp2httpd

open Option Lib.Run

def connQueueMinBuffers : ℕ := 64

def connQueueBaseBuffers : ℕ := 1024

/-- What a `connection_t` knows of its queue. -/
structure ConnQueue where
  out : SendState
  queueAvgBytes : ℚ
  slowActive : Bool
  slowCandidateSince : ℤ
  queueLimitBytes : ℕ
  queueBytesHighwater : ℕ
  queueBuffersHighwater : ℕ
  droppedPackets : ℕ
  droppedBytes : ℕ
  writeScheduled : Bool

def connQueueInit (heap : RefHeap) : ConnQueue :=
  ⟨queueStart heap, 0, false, 0, 0, 0, 0, 0, 0, false⟩

def connectionQueueBytes (c : ConnQueue) : ℕ := c.out.queue.memoryBytes.toNat

/-! ## The limit -/

/-- `hard_cap` or `global_cap`, where there is one. -/
def limitCap (maxBuffers : ℕ) : Option ℕ :=
  if maxBuffers > 0 then
    let globalCap := maxBuffers * bufferPoolBufferSize
    let reserve := connQueueMinBuffers * bufferPoolBufferSize
    some (if globalCap > reserve then globalCap - reserve else globalCap)
  else none

def connectionComputeLimitBytes (pool : BufferPool) (fairBytes : ℕ) (burstFactor : ℚ) : ℕ :=
  let limit := ((fairBytes : ℚ) * burstFactor).floor.toNat
  let limit :=
    match limitCap pool.maxBuffers with
    | some cap => if limit > cap then cap else limit
    | none => limit
  if limit < bufferPoolBufferSize * 4 then bufferPoolBufferSize * 4 else limit

/-- `fair_bytes` of `connection_prepare_queue_limit_inputs`. -/
def fairBytes (pool : BufferPool) (active : ℕ) : ℕ :=
  let active := if active = 0 then 1 else active
  let base := if pool.maxBuffers ≠ 0 ∧ connQueueBaseBuffers > pool.maxBuffers then pool.maxBuffers
    else connQueueBaseBuffers
  let total := if pool.numBuffers < base then base else pool.numBuffers
  let share := total / active
  (if share < connQueueMinBuffers then connQueueMinBuffers else share) * bufferPoolBufferSize

/-- `utilization` of `connection_prepare_queue_limit_inputs`. -/
def utilization (pool : BufferPool) : ℚ :=
  if pool.maxBuffers > 0 then
    ((if pool.numBuffers > pool.numFree then pool.numBuffers - pool.numFree else 0 : ℕ) : ℚ) /
      pool.maxBuffers
  else 0

/-- `burst_factor` of `connection_prepare_queue_limit_inputs`. -/
def burstFactor (pool : BufferPool) : ℚ :=
  let factor := if pool.numBuffers ≥ pool.maxBuffers ∨ utilization pool ≥ 85 / 100 then 3 / 2 else 3
  if pool.numFree < pool.lowWatermark / 2 ∨ utilization pool ≥ 95 / 100 then 1 else factor

def connectionApplySlowClamp (burstFactor : ℚ) (slowActive : Bool) : ℚ :=
  if slowActive ∧ burstFactor > 8 / 10 then 8 / 10 else burstFactor

def connectionComputeQueueLimit (pool : BufferPool) (active : ℕ) (c : ConnQueue) : ℕ :=
  connectionComputeLimitBytes pool (fairBytes pool active)
    (connectionApplySlowClamp (burstFactor pool) c.slowActive)

/-! ## The slow client -/

/-- `queue_avg_bytes` after a sample. -/
def nextAverage (c : ConnQueue) : ℚ :=
  if c.queueAvgBytes ≤ 0 then connectionQueueBytes c
  else (1 - 2 / 10) * c.queueAvgBytes + 2 / 10 * connectionQueueBytes c

def slowThreshold (pool : BufferPool) (active : ℕ) : ℚ :=
  let bursted := connectionComputeLimitBytes pool (fairBytes pool active) (burstFactor pool)
  let slow := (fairBytes pool active : ℚ) * (15 / 10)
  let limitBased := (bursted : ℚ) * (9 / 10)
  if slow > limitBased then limitBased else slow

def slowExitThreshold (pool : BufferPool) (active : ℕ) : ℚ :=
  let bursted := connectionComputeLimitBytes pool (fairBytes pool active) (burstFactor pool)
  let slowExit := (fairBytes pool active : ℚ) * (11 / 10)
  let limitExit := (bursted : ℚ) * (75 / 100)
  let slowExit := if slowExit > limitExit then limitExit else slowExit
  if slowExit ≥ slowThreshold pool active then slowThreshold pool active * (75 / 100) else slowExit

def connectionUpdateQueueLimit (pool : BufferPool) (active : ℕ) (nowMs : ℤ) (c : ConnQueue) :
    ConnQueue × ℕ :=
  let c := { c with queueAvgBytes := nextAverage c }
  let c :=
    if c.queueAvgBytes > slowThreshold pool active then
      if c.slowCandidateSince = 0 then { c with slowCandidateSince := nowMs }
      else if c.slowActive = false ∧ nowMs ≥ c.slowCandidateSince ∧
          nowMs - c.slowCandidateSince ≥ 3000 then { c with slowActive := true }
      else c
    else { c with slowCandidateSince := 0 }
  let c :=
    if c.slowActive ∧ c.queueAvgBytes < slowExitThreshold pool active then
      { c with slowActive := false, slowCandidateSince := 0 }
    else c
  (c, connectionComputeLimitBytes pool (fairBytes pool active)
    (connectionApplySlowClamp (burstFactor pool) c.slowActive))

/-! ## Pausing and queueing -/

def connHwm (limit : ℕ) : ℕ := limit * 3 / 4

def connectionShouldPauseUpstream (pool : BufferPool) (active : ℕ) (c : ConnQueue) :
    ConnQueue × Bool :=
  let queued := connectionQueueBytes c
  if queued < connHwm (connQueueMinBuffers * bufferPoolBufferSize) then (c, false)
  else
    let c := { c with queueLimitBytes := connectionComputeQueueLimit pool active c }
    (c, decide (queued ≥ connHwm c.queueLimitBytes))

def connectionQueueBuffer (pool : BufferPool) (active : ℕ) (nowMs : ℤ) (c : ConnQueue)
    (r : RefId) : ConnQueue × ℤ :=
  if (c.out.heap.ref r).dataSize = 0 then (c, 0)
  else
    let (c, limit) := connectionUpdateQueueLimit pool active nowMs c
    let queued := connectionQueueBytes c
    let projected := queued + c.out.heap.capacity r
    let c := { c with queueLimitBytes := limit }
    if projected > limit then
      ({ c with
          droppedPackets := c.droppedPackets + 1
          droppedBytes := c.droppedBytes + (c.out.heap.ref r).dataSize }, -1)
    else
      let (out, ret) := sendQueueAdd c.out r
      if ret < 0 then ({ c with out := out }, -1)
      else
        ({ c with
            out := out
            queueBytesHighwater := max c.queueBytesHighwater queued
            queueBuffersHighwater := max c.queueBuffersHighwater out.queue.numQueued.toNat
            writeScheduled := c.writeScheduled ||
              decide (out.queue.entries ≠ [] ∧ out.queue.totalBytes ≥ 65536) }, 0)

inductive RecvReply
  | eagain
  | error
  | closed
  | data (bytes : List UInt8)

/-- How a call of `http_proxy_try_receive_response` ends while it streams a body that is not
    rewritten. -/
inductive RelayResult
  | paused
  | exhausted
  | again
  | upstreamEnd
  | dropped
  | forwarded (n : ℕ)
  deriving DecidableEq

/-- The relay of one connection. -/
structure Relay where
  pool : BufferPool
  active : ℕ
  conn : ConnQueue

/-- The queue sees an allocated buffer `r` with the received bytes. -/
def receiveInto (pool : BufferPool) (r : RefId) (bytes : List UInt8) (h : RefHeap) : RefHeap :=
  let x := { pool.ref r with dataSize := bytes.length }
  { h with
    ref := Function.update h.ref r x
    parentSize := fun s => if x.segment = some s then pool.bufferSize else h.parentSize s
    mem := fun a => if x.data ≤ a ∧ a < x.data + bytes.length then bytes.getD (a - x.data) 0
      else h.mem a }

/-- `buffer_ref_put` of the queue's view of a reference. -/
def ConnQueue.put (c : ConnQueue) (r : RefId) : ConnQueue :=
  { c with out := { c.out with heap := c.out.heap.put r } }

/-- The streaming phase of `http_proxy_try_receive_response`. -/
def httpProxyTryReceiveResponse (nowMs : ℤ) (mem : Option SegmentMemory) (reply : RecvReply)
    (s : Relay) : Relay × RelayResult :=
  let (conn, pause) := connectionShouldPauseUpstream s.pool s.active s.conn
  if pause then ({ s with conn := conn }, .paused)
  else
    match bufferPoolAllocFrom mem s.pool with
    | (pool, none) => ({ s with pool := pool, conn := conn }, .exhausted)
    | (pool, some r) =>
      match reply with
      | .eagain => ({ s with pool := bufferRefPut pool r, conn := conn }, .again)
      | .error | .closed => ({ s with pool := bufferRefPut pool r, conn := conn }, .upstreamEnd)
      | .data bytes =>
        let conn := { conn with
          out := { conn.out with heap := receiveInto pool r bytes conn.out.heap } }
        let (conn, ret) := connectionQueueBuffer pool s.active nowMs conn r
        if ret < 0 then ({ s with pool := bufferRefPut pool r, conn := conn.put r }, .dropped)
        else
          ({ s with pool := bufferRefPut (bufferRefGet pool r) r, conn := conn.put r },
            .forwarded bytes.length)

/-- Calls with what the clock, the allocator and the upstream answer. -/
def relayCalls (s : Relay) : List (ℤ × Option SegmentMemory × RecvReply) → Relay
  | [] => s
  | (nowMs, mem, reply) :: calls =>
    relayCalls (httpProxyTryReceiveResponse nowMs mem reply s).1 calls

/-! ## When the next buffer fits -/

/-- The slow flag that a sample leaves. -/
def slowAfter (pool : BufferPool) (active : ℕ) (nowMs : ℤ) (c : ConnQueue) : Prop :=
  (c.slowActive = true ∨ nextAverage c > slowThreshold pool active ∧ c.slowCandidateSince ≠ 0 ∧
    nowMs ≥ c.slowCandidateSince ∧ nowMs - c.slowCandidateSince ≥ 3000) ∧
  ¬ nextAverage c < slowExitThreshold pool active
  deriving Decidable

/-- The queue with one more buffer is at most four buffers, or within the cap of the pool and
    within the fair share times the burst factor, which for a slow client is 0.8. -/
def Room (pool : BufferPool) (active : ℕ) (nowMs : ℤ) (c : ConnQueue) : Prop :=
  connectionQueueBytes c + bufferPoolBufferSize ≤ bufferPoolBufferSize * 4 ∨
  (∀ cap ∈ limitCap pool.maxBuffers, connectionQueueBytes c + bufferPoolBufferSize ≤ cap) ∧
  ((connectionQueueBytes c + bufferPoolBufferSize : ℕ) : ℚ) ≤ fairBytes pool active *
    (if slowAfter pool active nowMs c then 8 / 10 else burstFactor pool)

variable (pool : BufferPool)

theorem burstFactor_gt : burstFactor pool > 8 / 10 := by
  unfold burstFactor
  dsimp only
  split
  · norm_num
  · split <;> norm_num

theorem slowClamp_eq (slow : Bool) : connectionApplySlowClamp (burstFactor pool) slow =
      if slow = true then 8 / 10 else burstFactor pool := by
  unfold connectionApplySlowClamp
  cases slow <;> simp [burstFactor_gt pool]

theorem le_floor_toNat_iff {need : ℕ} (hpos : 0 < need) (x : ℚ) :
    need ≤ x.floor.toNat ↔ (need : ℚ) ≤ x := by
  rw [← Int.cast_natCast (R := ℚ) need, ← Rat.le_floor_iff]
  omega

theorem le_computeLimit_iff (fair : ℕ) (factor : ℚ) {need : ℕ} (hpos : 0 < need) :
    need ≤ connectionComputeLimitBytes pool fair factor ↔ need ≤ bufferPoolBufferSize * 4 ∨
      (∀ cap ∈ limitCap pool.maxBuffers, need ≤ cap) ∧ (need : ℚ) ≤ fair * factor := by
  unfold connectionComputeLimitBytes
  rw [← le_floor_toNat_iff hpos]
  generalize ((fair : ℚ) * factor).floor.toNat = limit
  cases limitCap pool.maxBuffers with
  | none =>
    simp only [not_mem_none, false_implies, implies_true, true_and]
    split <;> omega
  | some cap =>
    simp only [mem_def, Option.some.injEq, forall_eq']
    split <;> split <;> omega

section

variable (active : ℕ) (nowMs : ℤ) (c : ConnQueue)

include active nowMs c

theorem updateQueueLimit_slowActive :
    (connectionUpdateQueueLimit pool active nowMs c).1.slowActive = true ↔
      slowAfter pool active nowMs c := by
  unfold connectionUpdateQueueLimit slowAfter
  generalize nextAverage c = avg, slowThreshold pool active = enter,
    slowExitThreshold pool active = leave
  dsimp only
  cases hslow : c.slowActive
  · split_ifs <;> simp_all
  · split_ifs <;> simp_all

theorem updateQueueLimit_out : (connectionUpdateQueueLimit pool active nowMs c).1.out = c.out := by
  unfold connectionUpdateQueueLimit
  dsimp only
  split_ifs <;> rfl

theorem updateQueueLimit_limit : (connectionUpdateQueueLimit pool active nowMs c).2 =
      connectionComputeLimitBytes pool (fairBytes pool active)
        (if slowAfter pool active nowMs c then 8 / 10 else burstFactor pool) := by
  have hlimit : (connectionUpdateQueueLimit pool active nowMs c).2 =
      connectionComputeLimitBytes pool (fairBytes pool active)
        (connectionApplySlowClamp (burstFactor pool)
          (connectionUpdateQueueLimit pool active nowMs c).1.slowActive) := rfl
  rw [hlimit, slowClamp_eq]
  simp only [updateQueueLimit_slowActive]

end

/-- A buffer of the packet pool with received bytes, from address 1 on or later. -/
structure PacketBuffer (h : RefHeap) (r : RefId) : Prop where
  capacity : h.capacity r = bufferPoolBufferSize
  offset : (h.ref r).dataOffset = 0
  nonempty : 0 < (h.ref r).dataSize
  fits : (h.ref r).dataSize ≤ bufferPoolBufferSize
  address : (h.ref r).data ≠ 0

theorem queueBuffer_iff {c : ConnQueue} {r : RefId} (hbuf : PacketBuffer c.out.heap r)
    (pool : BufferPool) (active : ℕ) (nowMs : ℤ) :
    ¬ (connectionQueueBuffer pool active nowMs c r).2 < 0 ↔ Room pool active nowMs c := by
  have hroom : Room pool active nowMs c ↔ connectionQueueBytes c + bufferPoolBufferSize ≤
      (connectionUpdateQueueLimit pool active nowMs c).2 := by
    rw [updateQueueLimit_limit, le_computeLimit_iff _ _ _ (Nat.add_pos_right _ (by decide))]
    rfl
  have hout := updateQueueLimit_out pool active nowMs c
  have hbytes : connectionQueueBytes (connectionUpdateQueueLimit pool active nowMs c).1 =
      connectionQueueBytes c := by
    rw [connectionQueueBytes, connectionQueueBytes, hout]
  have hadd : (sendQueueAdd c.out r).2 = 0 := by
    have hvalid : ¬ ((c.out.heap.ref r).data = 0 ∨
        (c.out.heap.ref r).dataOffset > c.out.heap.capacity r ∨
        (c.out.heap.ref r).dataSize > c.out.heap.capacity r - (c.out.heap.ref r).dataOffset) := by
      have haddress := hbuf.address
      have hfits := hbuf.fits
      rw [hbuf.capacity, hbuf.offset]
      omega
    rw [sendQueueAdd]
    rw [if_neg (Nat.ne_of_gt hbuf.nonempty), if_neg hvalid]
  rw [hroom]
  unfold connectionQueueBuffer
  rw [if_neg (Nat.ne_of_gt hbuf.nonempty)]
  dsimp only
  split
  · rename_i hgt
    rw [hbytes, hout, hbuf.capacity] at hgt
    omega
  · rename_i hle
    rw [hbytes, hout, hbuf.capacity] at hle
    simp only [hout, hadd, Int.lt_irrefl, if_false, not_false_eq_true, true_iff]
    omega

/-- Received bytes are forwarded exactly when there is room for one more buffer in the pool
    that the allocation leaves. -/
theorem relay_forwarded_iff (s : Relay) (nowMs : ℤ) (mem : Option SegmentMemory)
    (bytes : List UInt8) (hpool : ∃ cap, PoolOk cap none s.pool)
    (hsize : s.pool.bufferSize = bufferPoolBufferSize)
    (hmem : ∀ m ∈ mem, Fresh s.pool.buffersToAdd m s.pool)
    (hpause : (connectionShouldPauseUpstream s.pool s.active s.conn).2 = false)
    {pool : BufferPool} {r : RefId} (halloc : bufferPoolAllocFrom mem s.pool = (pool, some r))
    (haddress : (pool.ref r).data ≠ 0) (hpos : 0 < bytes.length)
    (hlen : bytes.length ≤ bufferPoolBufferSize) :
    (httpProxyTryReceiveResponse nowMs mem (.data bytes) s).2 = .forwarded bytes.length ↔
      Room pool s.active nowMs s.conn := by
  obtain ⟨cap, hpool⟩ := hpool
  obtain ⟨hseg, howner, htype, hoffset, hbufsize⟩ := hpool.allocFrom_ref hmem halloc
  obtain ⟨conn, hconn, hsame⟩ : ∃ conn, (connectionShouldPauseUpstream s.pool s.active s.conn).1 =
      conn ∧ ∃ limit, conn = { s.conn with queueLimitBytes := limit } := by
    refine ⟨_, rfl, ?_⟩
    unfold connectionShouldPauseUpstream
    dsimp only
    split
    · exact ⟨s.conn.queueLimitBytes, rfl⟩
    · exact ⟨_, rfl⟩
  obtain ⟨limit, rfl⟩ := hsame
  set c := { s.conn with
    queueLimitBytes := limit
    out := { s.conn.out with heap := receiveInto pool r bytes s.conn.out.heap } } with hc
  have hbuf : PacketBuffer c.out.heap r := by
    obtain ⟨i, hi⟩ := isSome_iff_exists.mp hseg
    refine ⟨?_, ?_, ?_, ?_, ?_⟩
    · simp [hc, receiveInto, RefHeap.capacity, htype, howner, hi, hbufsize, hsize]
    · simpa [hc, receiveInto] using hoffset
    · simpa [hc, receiveInto] using hpos
    · simpa [hc, receiveInto] using hlen
    · simpa [hc, receiveInto] using haddress
  have hroom : Room pool s.active nowMs s.conn ↔ Room pool s.active nowMs c := Iff.rfl
  rw [hroom, ← queueBuffer_iff hbuf]
  unfold httpProxyTryReceiveResponse
  rw [show connectionShouldPauseUpstream s.pool s.active s.conn =
    ({ s.conn with queueLimitBytes := limit }, false) from Prod.ext hconn hpause]
  simp only [Bool.false_eq_true, if_false, halloc]
  change (if (connectionQueueBuffer pool s.active nowMs c r).2 < 0 then _ else _ :
    Relay × RelayResult).2 = _ ↔ _
  by_cases hneg : (connectionQueueBuffer pool s.active nowMs c r).2 < 0
  · simp [hneg]
  · simp [hneg]

/-- A new relay in a worker with the default pool and `active` streams. -/
def relayStart (active : ℕ) : Relay where
  pool := bufferPoolInit bufferPoolBufferSize 128 16384 128 32 384 ⟨0, 100000, 1000⟩
  active := active
  conn := connQueueInit ⟨fun _ => .zero, [], fun _ => 0, fun _ => 0, fun _ => []⟩

/-- 40 buffers are queued for a client that has been found slow. -/
def relaySlow : Relay where
  pool := run poolStep (relayStart 16).pool (List.replicate 40 (.alloc none))
  active := 16
  conn := { (relayCalls (relayStart 16) (List.replicate 40 (1, none, .data [7]))).conn with
    queueAvgBytes := 200000
    slowCandidateSince := 1
    slowActive := true }

theorem relay_forwarded_iff_slow : slowAfter relaySlow.pool 16 5000 relaySlow.conn ∧
      connectionQueueBytes relaySlow.conn = 40 * bufferPoolBufferSize ∧
      (httpProxyTryReceiveResponse 5000 none (.data [7, 8]) relaySlow).2 = .forwarded 2 := by
  have hops : Along poolStep PoolOpOk (relayStart 16).pool (List.replicate 40 (.alloc none)) := by
    decide +kernel
  have hstart : PoolOk _ none (relayStart 16).pool :=
    PoolOk.init (by decide) 128 16384 128 32 384 ⟨0, 100000, 1000⟩
  have hpool : ∃ cap, PoolOk cap none relaySlow.pool := by
    dsimp only [relaySlow]
    exact ⟨_, run_invariant (fun _ _ hp hop => PoolOk.step hp hop) hstart hops⟩
  have hnext : (bufferPoolAllocFrom none relaySlow.pool).2 = some 1087 := by decide +kernel
  have halloc : bufferPoolAllocFrom none relaySlow.pool =
      ((bufferPoolAllocFrom none relaySlow.pool).1, some 1087) := by
    rw [← hnext]
  have haddress : ((bufferPoolAllocFrom none relaySlow.pool).1.ref 1087).data ≠ 0 := by
    decide +kernel
  have hroom : Room (bufferPoolAllocFrom none relaySlow.pool).1 16 5000 relaySlow.conn :=
    .inr ⟨by decide +kernel, by decide +kernel⟩
  refine ⟨by decide +kernel, by decide +kernel, ?_⟩
  exact (relay_forwarded_iff relaySlow 5000 none [7, 8] hpool (by decide +kernel)
    (fun _ hm => by cases hm) (by decide +kernel) halloc haddress (by decide) (by decide)).mpr hroom

/-- The client stops reading. 104 buffers are queued at time 1, and the pool grows once. At
    time 3001 the test does not pause, the sample makes the client slow, and the received byte
    is dropped. -/
theorem relay_dropped : let s := relayCalls (relayStart 16) ((List.range 104).map (fun k =>
      (1, if k = 96 then some ⟨1, 2000000, 5000⟩ else none, .data [7])))
    (connectionShouldPauseUpstream s.pool s.active s.conn).2 = false ∧
    (httpProxyTryReceiveResponse 3001 none (.data [7]) s).2 = .dropped := by
  decide +kernel

/-! ## The early exits -/

def connLwm (limit : ℕ) : ℕ := limit * 1 / 2

def connectionCanResumeUpstream (pool : BufferPool) (active : ℕ) (c : ConnQueue) :
    ConnQueue × Bool :=
  let queued := connectionQueueBytes c
  if queued ≤ connLwm (connQueueMinBuffers * bufferPoolBufferSize) then (c, true)
  else
    let c := { c with queueLimitBytes := connectionComputeQueueLimit pool active c }
    (c, decide (queued ≤ connLwm c.queueLimitBytes))

/-- Both tests decide as without the early exit. -/
def FastPathAgrees (pool : BufferPool) (active : ℕ) (c : ConnQueue) : Prop :=
  (connectionShouldPauseUpstream pool active c).2 =
      decide (connectionQueueBytes c ≥ connHwm (connectionComputeQueueLimit pool active c)) ∧
    (connectionCanResumeUpstream pool active c).2 =
      decide (connectionQueueBytes c ≤ connLwm (connectionComputeQueueLimit pool active c))
  deriving Decidable

theorem shouldPause_eq (active : ℕ) (c : ConnQueue) :
    (connectionShouldPauseUpstream pool active c).2 =
      (decide (connHwm (connQueueMinBuffers * bufferPoolBufferSize) ≤ connectionQueueBytes c) &&
        decide (connectionQueueBytes c ≥ connHwm (connectionComputeQueueLimit pool active c))) := by
  unfold connectionShouldPauseUpstream
  dsimp only
  split
  · simp [*]
  · rename_i hnot
    rw [decide_eq_true (Nat.le_of_not_lt hnot), Bool.true_and]

theorem canResume_eq (active : ℕ) (c : ConnQueue) : (connectionCanResumeUpstream pool active c).2 =
      (decide (connectionQueueBytes c ≤ connLwm (connQueueMinBuffers * bufferPoolBufferSize)) ||
        decide (connectionQueueBytes c ≤ connLwm (connectionComputeQueueLimit pool active c))) := by
  unfold connectionCanResumeUpstream
  dsimp only
  split
  · simp [*]
  · simp [*]

def queueOf (n : ℕ) (slow : Bool) : ConnQueue :=
  let c := connQueueInit ⟨fun _ => .zero, [], fun _ => 0, fun _ => 0, fun _ => []⟩
  { c with
    out := { c.out with queue := { c.out.queue with memoryBytes := n } }
    slowActive := slow }

/-- The early exits do no harm if and only if the limit is at least that of
    `CONN_QUEUE_MIN_BUFFERS` buffers. -/
theorem agrees_iff_limit (active : ℕ) (slow : Bool) :
    (∀ c : ConnQueue, c.slowActive = slow → FastPathAgrees pool active c) ↔
      connQueueMinBuffers * bufferPoolBufferSize ≤ connectionComputeLimitBytes pool
        (fairBytes pool active) (connectionApplySlowClamp (burstFactor pool) slow) := by
  have hmin : connQueueMinBuffers * bufferPoolBufferSize = 98304 := rfl
  constructor
  · intro h
    -- one byte short of the constant watermark
    have hpause := (h (queueOf 73727 slow) rfl).1
    have hqueued : connectionQueueBytes (queueOf 73727 slow) = 73727 := rfl
    have hlimit : connectionComputeQueueLimit pool active (queueOf 73727 slow) =
      connectionComputeLimitBytes pool (fairBytes pool active)
        (connectionApplySlowClamp (burstFactor pool) slow) := rfl
    rw [shouldPause_eq, hqueued, hlimit] at hpause
    generalize connectionComputeLimitBytes pool _ _ = limit at hpause ⊢
    rw [decide_eq_false (by decide), Bool.false_and, eq_comm, decide_eq_false_iff_not] at hpause
    unfold connHwm at hpause
    omega
  · rintro hlimit c rfl
    unfold FastPathAgrees
    rw [shouldPause_eq, canResume_eq, connectionComputeQueueLimit]
    generalize connectionComputeLimitBytes pool _ _ = limit at hlimit ⊢
    rw [hmin] at hlimit ⊢
    have hhwm : connHwm 98304 ≤ connHwm limit := by
      unfold connHwm
      omega
    have hlwm : connLwm 98304 ≤ connLwm limit := by
      unfold connLwm
      omega
    rw [← Bool.decide_and, ← Bool.decide_or]
    constructor
    · exact decide_eq_decide.2 ⟨And.right, fun h => ⟨Nat.le_trans hhwm h, h⟩⟩
    · exact decide_eq_decide.2 ⟨fun h => h.elim (fun hle => Nat.le_trans hle hlwm) id, .inr⟩

theorem slow_share_iff (share : ℕ) : ((connQueueMinBuffers * bufferPoolBufferSize : ℕ) : ℚ) ≤
        ((if share < connQueueMinBuffers then connQueueMinBuffers else share) *
          bufferPoolBufferSize : ℕ) * (8 / 10) ↔ 80 ≤ share := by
  have hleast : 80 ≤ (if share < connQueueMinBuffers then connQueueMinBuffers else share) ↔
      80 ≤ share := by
    unfold connQueueMinBuffers
    split <;> omega
  rw [← hleast]
  generalize (if share < connQueueMinBuffers then connQueueMinBuffers else share) = least
  unfold connQueueMinBuffers bufferPoolBufferSize
  push_cast
  constructor
  · intro h
    have hge : (80 : ℚ) ≤ least := by linarith only [h]
    exact_mod_cast hge
  · intro h
    have hge : (80 : ℚ) ≤ least := by exact_mod_cast h
    linarith only [hge]

theorem one_le_burstFactor : 1 ≤ burstFactor pool := by
  unfold burstFactor
  dsimp only
  split
  · exact le_refl 1
  · split <;> norm_num

theorem min_le_fairBytes (active : ℕ) :
    connQueueMinBuffers * bufferPoolBufferSize ≤ fairBytes pool active := by
  unfold fairBytes
  refine Nat.mul_le_mul_right _ ?_
  generalize (_ : ℕ) / _ = share
  split
  · exact Nat.le_refl _
  · exact Nat.le_of_not_lt ‹_›

theorem min_le_cap_iff (maxBuffers : ℕ) :
    (∀ cap ∈ limitCap maxBuffers, connQueueMinBuffers * bufferPoolBufferSize ≤ cap) ↔
      maxBuffers = 0 ∨ maxBuffers = 64 ∨ 128 ≤ maxBuffers := by
  unfold limitCap connQueueMinBuffers bufferPoolBufferSize
  split
  · simp only [Option.mem_def, Option.some.injEq, forall_eq']
    split
    · omega
    · omega
  · simp only [Option.not_mem_none, false_implies, implies_true, true_iff]
    omega

/-- For all queue lengths both tests decide as the watermarks of the computed limit demand, if
    and only if the pool leaves a connection `CONN_QUEUE_MIN_BUFFERS` buffers and a slow client's
    fair share is at least 80 buffers. -/
theorem fast_path_agrees_iff (pool : BufferPool) (active : ℕ) (slow : Bool) :
    (∀ c : ConnQueue, c.slowActive = slow → FastPathAgrees pool active c) ↔
      (pool.maxBuffers = 0 ∨ pool.maxBuffers = 64 ∨ 128 ≤ pool.maxBuffers) ∧
      (slow = true → 80 * max 1 active ≤ max pool.numBuffers
          (if pool.maxBuffers = 0 then 1024 else min 1024 pool.maxBuffers)) := by
  have hmin : ¬ connQueueMinBuffers * bufferPoolBufferSize ≤ bufferPoolBufferSize * 4 := by decide
  rw [agrees_iff_limit, le_computeLimit_iff _ _ _ (by decide), or_iff_right hmin, min_le_cap_iff,
    slowClamp_eq]
  refine and_congr_right fun _ => ?_
  cases slow with
  | true =>
    rw [if_pos rfl]
    refine Iff.trans ?_ (forall_prop_of_true rfl).symm
    unfold fairBytes
    rw [slow_share_iff, Nat.le_div_iff_mul_le (by split <;> omega)]
    unfold connQueueBaseBuffers
    split_ifs <;> omega
  | false =>
    rw [if_neg Bool.false_ne_true]
    refine iff_of_true ?_ fun h => (nomatch h)
    have hfair : ((connQueueMinBuffers * bufferPoolBufferSize : ℕ) : ℚ) ≤ fairBytes pool active :=
      Nat.cast_le.2 (min_le_fairBytes pool active)
    exact hfair.trans (le_mul_of_one_le_right (Nat.cast_nonneg _) (one_le_burstFactor pool))

/-- With the default pool and 16 streams the limit of a slow client is 78643 bytes; 60000 queued
    bytes are above its watermark and below the constant one. -/
theorem fast_path_disagrees : ¬ FastPathAgrees (relayStart 16).pool 16 (queueOf 60000 true) := by
  decide +kernel

end Apackage.Rtp2httpd
