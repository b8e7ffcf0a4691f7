import Apackage.Rtp2httpd.Fcc.Session

/-
  A multicast source and its subscribers (`multicast.c`).

  Model. A batch is the list of the payloads copied into it. `packet_subscribers` are the
  subscribers that are not `batched`. What FCC, FEC and snapshot processing make of a datagram on
  the packet path is a parameter (`PacketPath`), and what they do between datagrams is the event
  `own`. Allocations succeed and connections take what is queued. The deliver callback of the
  source's reorder window leaves the window alone, so the payloads of one insertion are appended
  after it.

  Some fields only record: `log` the payloads delivered, in order; of a session the payloads queued
  from shared batches (`shared`), the length of the log when it entered them (`since`), and, once it
  has left, the length of the log then and the part of the batch it has not been sent (`ended`).
  `gone` holds the sessions that have left.
-/

namespace Apackage.Rtp2httpd.Mcast

open Lib.Serial Fcc

abbrev Payload := List UInt8

/-- What FCC, FEC and snapshot processing own of a subscriber. -/
structure OwnState where
  snapshotInitialized : Bool
  fccInitialized : Bool
  fcc : FccSession
  stream : StreamContext

/-- `mcast_session_t`. `failed` includes a connection in `CONN_CLOSING`. -/
structure McastSession where
  own : OwnState
  failed : Bool
  batched : Bool
  shared : List Payload
  since : Option ℕ
  ended : Option (ℕ × List Payload)

/-- `mcast_source_t`. `fecPort` is the one of its service. -/
structure McastSource where
  fecPort : ℕ
  sharedOutput : Bool
  reorder : StreamContext
  batch : Option (List Payload)
  batchClients : ℕ
  subscribers : List McastSession
  gone : List McastSession
  log : List Payload

def batchSize : ℕ := 65536

/-- A source as the first subscriber creates it. -/
def McastSource.create (fecPort : ℕ) (gone : List McastSession) (log : List Payload) :
    McastSource :=
  ⟨fecPort, fecPort = 0, StreamContext.init false FecContext.zero, none, 0, [], gone, log⟩

def dataSize (batch : List Payload) : ℕ := (batch.map List.length).sum

def McastSource.pending (source : McastSource) : List Payload := source.batch.getD []

/-! ## Fan-out and batches -/

def fanoutTo (batch : List Payload) (session : McastSession) : McastSession :=
  if !session.batched || session.failed then session
  else { session with shared := session.shared ++ batch }

def mcastSourceFlush (source : McastSource) : McastSource :=
  match source.batch with
  | none => source
  | some batch =>
    { source with batch := none, subscribers := source.subscribers.map (fanoutTo batch) }

/-- The source delivers a payload. -/
def record (source : McastSource) (payload : Payload) : McastSource :=
  { source with log := source.log ++ [payload] }

def mcastSourceAppend (source : McastSource) (payload : Payload) : McastSource :=
  if source.batchClients = 0 then record source payload
  else
    let source :=
      if source.batch.isSome ∧ batchSize - dataSize source.pending < payload.length then
        mcastSourceFlush source
      else source
    let source := { record source payload with batch := some (source.pending ++ [payload]) }
    if dataSize source.pending = batchSize then mcastSourceFlush source else source

/-! ## Switches between the packet path and the batches -/

/-- `mcast_source_enable_private_fec` for one subscriber: its window becomes a copy of the
    source's. -/
def takeWindow (reorder : RtpReorder) (session : McastSession) : McastSession :=
  if session.batched then
    { session with
      batched := false
      own := { session.own with stream := { session.own.stream with reorder := reorder } } }
  else session

def mcastSourceEnablePrivateFec (source : McastSource) : McastSource :=
  let source := mcastSourceFlush source
  { source with
    sharedOutput := false
    batchClients := 0
    subscribers := source.subscribers.map (takeWindow source.reorder.reorder) }

/-- `packet_type` of the shared output: 1 or 0. -/
inductive PacketType
  | rtp
  | mpegts
  deriving DecidableEq

/-- The condition of `mcast_source_promote_ready`. -/
def readyFor (packetType : PacketType) (reorder : RtpReorder) (session : McastSession) : Bool :=
  !session.batched && !session.failed && !session.own.snapshotInitialized &&
    !fecIsEnabled session.own.stream.fec &&
    (!session.own.fccInitialized ||
      (session.own.fcc.state = .mcastActive && session.own.fcc.pendingList = [])) &&
    (packetType = .mpegts ||
      (reorder.phase = .active && session.own.stream.reorder.phase = .active &&
        session.own.stream.reorder.count = 0 &&
        session.own.stream.reorder.baseSeq = reorder.baseSeq))

/-- A session enters the batches: `batched = 1`. -/
def enterBatches (source : McastSource) (session : McastSession) : McastSession :=
  { session with batched := true, since := some source.log.length }

/-- `mcast_source_promote_ready`; the flush before the first promotion is the only one that
    finds a batch. -/
def mcastSourcePromoteReady (packetType : PacketType) (source : McastSource) : McastSource :=
  let ready := readyFor packetType source.reorder.reorder
  if source.subscribers.any ready then
    let source := mcastSourceFlush source
    { source with
      batchClients := source.batchClients + source.subscribers.countP ready
      subscribers := source.subscribers.map fun s => if ready s then enterBatches source s else s }
  else source

/-! ## Packets, joins and leaves -/

/-- What a subscriber on the packet path does with a datagram: its new state, and whether the
    handler returned a negative result. -/
abbrev PacketPath := OwnState → BufferRef → OwnState × Bool

def mcastDeliverPacket (path : PacketPath) (packet : BufferRef) (session : McastSession) :
    McastSession :=
  if session.batched || session.failed then session
  else
    let r := path session.own packet
    { session with own := r.1, failed := r.2 }

/-- What `rtp_reorder_insert` delivers, in order. -/
def newPayloads (before after : StreamContext) : List Payload :=
  ((deliveries after.trace).drop (deliveries before.trace).length).map fun d => d.1.payload

def deliverSize : Conn
  | .deliver buf _ :: _ => buf.dataSize
  | _ => 0

def sourceOutput (packet : BufferRef) (source : McastSource) : McastSource :=
  match rtpGetPayload packet.payload with
  | .rtp start length seqn =>
    let packet := { packet with dataOffset := start, dataSize := length }
    let reorder := rtpReorderInsert deliverSize packet seqn source.reorder
    let source := (newPayloads source.reorder reorder).foldl mcastSourceAppend
      { source with reorder := reorder }
    mcastSourcePromoteReady .rtp source
  | .nonRtp =>
    if streamPayloadIsMpegts packet.payload then
      mcastSourcePromoteReady .mpegts (mcastSourceAppend source packet.payload)
    else source
  | _ => source

/-- The first part of `mcast_source_process_packet`: in-band FEC ends the shared output. -/
def checkInBandFec (packet : BufferRef) (source : McastSource) : McastSource :=
  if source.sharedOutput && rtpGetPayload packet.payload = .fec then
    mcastSourceEnablePrivateFec source
  else source

def mcastSourceProcessPacket (path : PacketPath) (packet : BufferRef) (source : McastSource) :
    McastSource :=
  let source := checkInBandFec packet source
  let source :=
    { source with subscribers := source.subscribers.map (mcastDeliverPacket path packet) }
  if source.sharedOutput then sourceOutput packet source else source

def mcastSessionJoin (own : OwnState) (source : McastSource) : McastSource :=
  let source := mcastSourceFlush source
  let session : McastSession := ⟨own, false, false, [], none, none⟩
  if source.sharedOutput && !own.snapshotInitialized && !own.fccInitialized then
    { source with
      subscribers := enterBatches source session :: source.subscribers
      batchClients := source.batchClients + 1 }
  else { source with subscribers := session :: source.subscribers }

/-- The session gets nothing more: what stands in the batch is not sent to it. -/
def endSession (source : McastSource) (session : McastSession) : McastSession :=
  if session.ended.isSome then session
  else
    { session with
      ended := some (source.log.length, if session.batched then source.pending else []) }

/-- `mcast_session_cleanup` of the `n`-th subscriber. The last one frees the source, and the
    next join creates it anew. -/
def mcastSessionCleanup (n : ℕ) (source : McastSource) : McastSource :=
  match source.subscribers[n]? with
  | none => source
  | some session =>
    let gone := endSession source session :: source.gone
    if source.subscribers.length = 1 then McastSource.create source.fecPort gone source.log
    else
      { source with
        gone := gone
        subscribers := source.subscribers.eraseIdx n
        batchClients :=
          if session.batched then source.batchClients - 1 else source.batchClients }

/-- What happens to a source: a datagram of the bytes `data`, a join, the leave of the `n`-th
    subscriber, the closing of its connection, other work on its own state, and the flush of
    the tick. -/
inductive McastEvent
  | packet (id : ℕ) (data : List UInt8)
  | join (own : OwnState)
  | leave (n : ℕ)
  | closing (n : ℕ)
  | own (n : ℕ) (state : OwnState)
  | tickFlush

def mcastStep (path : PacketPath) (source : McastSource) : McastEvent → McastSource
  | .packet id data => mcastSourceProcessPacket path ⟨id, data, 0, data.length⟩ source
  | .join own => mcastSessionJoin own source
  | .leave n => mcastSessionCleanup n source
  | .closing n =>
    { source with
      subscribers := source.subscribers.modify n fun s =>
        { endSession source s with failed := true } }
  | .own n state =>
    { source with subscribers := source.subscribers.modify n fun s => { s with own := state } }
  | .tickFlush => mcastSourceFlush source

end Apackage.Rtp2httpd.Mcast
