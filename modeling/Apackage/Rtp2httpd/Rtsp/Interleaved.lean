import Apackage.Rtp2httpd.Http.Request

/-
  The interleaved receiver of the RTSP client (`rtsp_process_interleaved_buffer` in `rtsp.c`):
  frames and requests of the server in one buffer of bytes.

  Model. `behind` is what stands in memory behind the array, up to a NUL, since the searches for
  strings do not know `response_buffer_pos`. The buffer pool and the media path are arguments. A
  frame on the RTCP channel is ignored like one on any other channel, so its number is left out.
-/

namespace Apackage.Rtp2httpd.Rtsp

open List

variable {σ : Type*}

def rtspResponseBufferSize : ℕ := 4096

def bufferPoolBufferSize : ℕ := 1536

/-- What a frame is handed to; `σ` is the state of the rest of the program. -/
structure MediaPath (σ : Type*) where
  bufferPoolAlloc : σ → Bool × σ
  streamProcessRtpPayload : Bytes → σ → ℤ × σ

structure Receiver (σ : Type*) where
  responseBuffer : Bytes
  responseBufferPos : ℕ
  behind : Bytes
  teardownRequested : Bool
  rtpChannel : ℤ
  firstMediaReceived : Bool
  packetsDropped : ℕ
  sent : List Bytes
  world : σ

namespace Receiver

/-- The string that `strstr` and `sscanf` see. -/
def text (s : Receiver σ) : Bytes := cstr (s.responseBuffer ++ s.behind)

def byte (s : Receiver σ) (i : ℕ) : UInt8 := s.responseBuffer.getD i 0

def packetLength (s : Receiver σ) : ℕ := (s.byte 2).toNat * 256 + (s.byte 3).toNat

/-- `memmove` of what follows `n` bytes to the front; the bytes behind it stay. -/
def dropFront (n : ℕ) (s : Receiver σ) : Receiver σ :=
  { s with
    responseBuffer := (s.responseBuffer.take s.responseBufferPos).drop n ++
      s.responseBuffer.drop (s.responseBufferPos - n)
    responseBufferPos := s.responseBufferPos - n }

/-- Only the first `response_buffer_pos` bytes, with a NUL behind them. -/
def alone (s : Receiver σ) : Receiver σ :=
  { s with
    responseBuffer := s.responseBuffer.take s.responseBufferPos
    behind := [] }

end Receiver

open Receiver

/-- What a round of the loop does. -/
inductive Turn (σ : Type*)
  | next (forwarded : ℤ) (s : Receiver σ)
  | stop (s : Receiver σ)
  | announced (s : Receiver σ)
  /-- More bytes are taken off `response_buffer_pos` than it counts. -/
  | underflow

def headerEnd : Bytes := [0x0D, 0x0A, 0x0D, 0x0A]

def cseqKey : Bytes := ascii "CSeq:"

/-- `sscanf(line, "CSeq: %31s", cseq_buf)` from behind the colon; empty if nothing is read. -/
def cseqValue (after : Bytes) : Bytes := ((after.dropWhile isSpace).takeWhile (!isSpace ·)).take 31

/-- `cseq_buf`, for a message whose end marker is at `endMarker`. -/
def cseqOf (text : Bytes) (endMarker : ℕ) : Bytes :=
  match strstr cseqKey text with
  | some line =>
    if line < endMarker then
      let value := cseqValue (text.drop (line + cseqKey.length))
      if value = [] then ascii "0" else value
    else ascii "0"
  | none => ascii "0"

def requestReply (cseq : Bytes) : Bytes :=
  ascii "RTSP/1.0 200 OK\r\nCSeq: " ++ cseq ++ ascii "\r\n\r\n"

/-- The methods that the server may request. -/
def serverMethods : List Bytes := [ascii "ANNOUNCE", ascii "OPTIONS", ascii "SET_PARAMETER"]

def isServerRequest (s : Receiver σ) : Bool :=
  s.responseBufferPos ≥ 8 && serverMethods.any (· <+: s.text)

/-- The branch for data that starts with no `$`. -/
def requestTurn (s : Receiver σ) : Turn σ :=
  if isServerRequest s then
    match strstr headerEnd s.text with
    | some endMarker =>
      let msgLen := endMarker + 4
      let answered := { s with sent := s.sent ++ [requestReply (cseqOf s.text endMarker)] }
      if s.responseBufferPos < msgLen then .underflow
      else if ascii "ANNOUNCE" <+: s.text then .announced (answered.dropFront msgLen)
      else .next 0 (answered.dropFront msgLen)
    | none => .stop s
  else .stop s

/-- `attempting resync`. -/
def resync (s : Receiver σ) : Receiver σ :=
  match ((s.responseBuffer.take s.responseBufferPos).drop 1).idxOf? dollar with
  | some i => s.dropFront (i + 1)
  | none => { s with responseBufferPos := 0 }

/-- A frame is handed on; the number counts what was forwarded. -/
def deliver (m : MediaPath σ) (channel : ℤ) (payload : Bytes) (s : Receiver σ) : ℤ × Receiver σ :=
  if s.teardownRequested then (0, s)
  else if channel = s.rtpChannel then
    match m.bufferPoolAlloc s.world with
    | (true, world) =>
      let (pb, world) := m.streamProcessRtpPayload payload world
      (if pb > 0 then pb else 0, { s with firstMediaReceived := true, world := world })
    | (false, world) =>
      (0, { s with packetsDropped := (s.packetsDropped + 1) % 2 ^ 64, world := world })
  else (0, s)

/-- A round of `while (response_buffer_pos >= 4)`. -/
def turn (m : MediaPath σ) (s : Receiver σ) : Turn σ :=
  if s.responseBufferPos < 4 then .stop s
  else if s.byte 0 ≠ dollar then requestTurn s
  else if s.responseBufferPos < 4 + s.packetLength then .stop s
  else if s.packetLength > bufferPoolBufferSize then .stop (resync s)
  else
    let payload := (s.responseBuffer.drop 4).take s.packetLength
    let (pb, s') := deliver m (s.byte 1).toNat payload s
    .next pb (s'.dropFront (4 + s.packetLength))

/-- What `rtsp_process_interleaved_buffer` returns; `announced` is -2. -/
inductive Processed (σ : Type*)
  | forwarded (bytes : ℤ) (s : Receiver σ)
  | announced (s : Receiver σ)
  | underflow
  | outOfFuel

def rounds (turn : Receiver σ → Turn σ) : (fuel : ℕ) → ℤ → Receiver σ → Processed σ
  | 0, _, _ => .outOfFuel
  | fuel + 1, bytes, s =>
    match turn s with
    | .next pb s' => rounds turn fuel (bytes + pb) s'
    | .stop s' => .forwarded bytes s'
    | .announced s' => .announced s'
    | .underflow => .underflow

def rtspProcessInterleavedBuffer (m : MediaPath σ) (s : Receiver σ) : Processed σ :=
  rounds (turn m) (s.responseBufferPos + 1) 0 s

/-! ## Moving the rest to the front -/

section DropFront

variable {s : Receiver σ} {n : ℕ}

section

variable (h : s.responseBufferPos ≤ s.responseBuffer.length)

include h

theorem dropFront_length (hn : n ≤ s.responseBufferPos) :
    (s.dropFront n).responseBuffer.length = s.responseBuffer.length := by
  show ((s.responseBuffer.take s.responseBufferPos).drop n ++
    s.responseBuffer.drop (s.responseBufferPos - n)).length = _
  rw [length_append, length_drop, length_take, length_drop]
  omega

theorem take_dropFront : (s.dropFront n).responseBuffer.take (s.responseBufferPos - n) =
      (s.responseBuffer.take s.responseBufferPos).drop n := by
  refine take_left' ?_
  rw [length_drop, length_take]
  omega

theorem alone_dropFront : (s.alone.dropFront n).alone = (s.dropFront n).alone := by
  have halone : s.alone.responseBufferPos ≤ s.alone.responseBuffer.length := by
    show s.responseBufferPos ≤ (s.responseBuffer.take s.responseBufferPos).length
    rw [length_take]
    omega
  have hleft := take_dropFront (n := n) halone
  have hright := take_dropFront (n := n) h
  unfold Receiver.alone
  congr 1
  refine hleft.trans (Eq.trans ?_ hright.symm)
  show ((s.responseBuffer.take _).take _).drop n = _
  rw [take_take]
  exact congrArg (fun k => (s.responseBuffer.take k).drop n) (Nat.min_self _)

end

end DropFront

/-! ## The loop ends -/

theorem deliver_keeps (m : MediaPath σ) (channel : ℤ) (payload : Bytes) (s : Receiver σ) :
    (deliver m channel payload s).2.responseBuffer = s.responseBuffer ∧
      (deliver m channel payload s).2.responseBufferPos = s.responseBufferPos ∧
      (deliver m channel payload s).2.behind = s.behind ∧
      (deliver m channel payload s).2.sent = s.sent := by
  unfold deliver
  split
  · exact ⟨rfl, rfl, rfl, rfl⟩
  split
  · split
    · exact ⟨rfl, rfl, rfl, rfl⟩
    · exact ⟨rfl, rfl, rfl, rfl⟩
  · exact ⟨rfl, rfl, rfl, rfl⟩

variable {m : MediaPath σ}

variable {s s' : Receiver σ}

section

variable {pb : ℤ} (h : turn m s = .next pb s')

include h

theorem turn_next :
    ∃ (n : ℕ) (t : Receiver σ), 4 ≤ n ∧ n ≤ s.responseBufferPos ∧ s' = t.dropFront n ∧
      t.responseBuffer = s.responseBuffer ∧ t.responseBufferPos = s.responseBufferPos ∧
      t.behind = s.behind ∧ s.sent <+: t.sent := by
  unfold turn at h
  split at h
  · cases h
  split at h
  · unfold requestTurn at h
    split at h
    · split at h
      · rename_i endMarker _
        dsimp only at h
        split at h
        · cases h
        rename_i hpos
        split at h
        · cases h
        · obtain ⟨-, rfl⟩ := Turn.next.inj h
          exact ⟨endMarker + 4, _, by omega, by omega, rfl, rfl, rfl, rfl, prefix_append _ _⟩
      · cases h
    · cases h
  split at h
  · cases h
  rename_i hpos
  split at h
  · cases h
  · obtain ⟨-, rfl⟩ := Turn.next.inj h
    obtain ⟨hbuffer, hpos', hbehind, hsent⟩ := deliver_keeps m (s.byte 1).toNat
      ((s.responseBuffer.drop 4).take s.packetLength) s
    exact ⟨4 + s.packetLength, _, by omega, by omega, rfl, hbuffer, hpos', hbehind,
      (congrArg (s.sent <+: ·) hsent).mpr prefix_rfl⟩

theorem turn_next_lt : s'.responseBufferPos < s.responseBufferPos := by
  obtain ⟨n, t, hn, hle, rfl, -, hpos, -⟩ := turn_next h
  show t.responseBufferPos - n < s.responseBufferPos
  omega

theorem turn_next_inside (hin : s.responseBufferPos ≤ s.responseBuffer.length) :
    s'.responseBufferPos ≤ s'.responseBuffer.length ∧
      s'.responseBuffer.length = s.responseBuffer.length := by
  obtain ⟨n, t, -, hle, rfl, hbuffer, hpos, -⟩ := turn_next h
  have hlen : (t.dropFront n).responseBuffer.length = t.responseBuffer.length :=
    dropFront_length (by rw [hpos, hbuffer]; exact hin) (hpos ▸ hle)
  rw [hlen, hbuffer]
  refine ⟨?_, rfl⟩
  show t.responseBufferPos - n ≤ _
  omega

end

/-- Each round that goes on takes bytes off the buffer, so the rounds end. -/
theorem rounds_end {f : Receiver σ → Receiver σ}
    (hf : ∀ s, (f s).responseBufferPos = s.responseBufferPos) {fuel : ℕ} {bytes : ℤ}
    (h : s.responseBufferPos < fuel) :
    rounds (fun s => turn m (f s)) fuel bytes s ≠ .outOfFuel := by
  induction fuel generalizing bytes s with
  | zero => omega
  | succ fuel ih =>
    rw [rounds]
    split
    · rename_i pb s' hnext
      have hlt := turn_next_lt hnext
      rw [hf] at hlt
      exact ih (by omega)
    · exact fun h => by cases h
    · exact fun h => by cases h
    · exact fun h => by cases h

end Apackage.Rtp2httpd.Rtsp
