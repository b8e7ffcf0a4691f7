import Apackage.Rtp2httpd.Reorder.Insert

/-
  One FCC session and its multicast subscription (`fcc.c`, `mcast_deliver_packet` in `multicast.c`).

  Model. `FccContext` is the part of `stream_context_t` these functions act on. `joined` is
  `mcast.source != NULL`; a join that fails is a run without multicast datagrams. The run ends when
  the connection is closed. Sockets are open from the first request on, so the guards on them hold,
  and what a server response makes of the session is one of the four outcomes of `FccResponse` for
  both vendors.

  Three fields only record: `handed` lists the datagrams given to `stream_process_rtp_payload` or to
  the shared batches, `unicastIn` the unicast datagrams that arrive before the switch to multicast,
  and `mcastIn` the multicast datagrams that arrive while the subscription has not failed.
-/

namespace Apackage.Rtp2httpd.Fcc

open Lib.Serial

/-- `fcc_state_t`. No function sets `FCC_STATE_ERROR`. -/
inductive FccState
  | init
  | requested
  | unicastPending
  | unicastActive
  | mcastRequested
  | mcastActive
  deriving DecidableEq

/-- `stream_media_origin_t` of an FCC stream. -/
inductive Origin
  | fccUnicast
  | fccMulticast

/-- `fcc_session_t`. -/
structure FccSession where
  state : FccState
  termSeqn : Seq
  termSent : Bool
  unicastStartTime : ℤ
  lastDataTime : ℤ
  pendingList : List BufferRef

structure FccContext where
  fcc : FccSession
  stream : StreamContext
  joined : Bool
  failed : Bool
  batched : Bool
  handed : List (BufferRef × Origin)
  unicastIn : List BufferRef
  mcastIn : List BufferRef

def fccTimeoutSignalingMs : ℤ := 80
def fccTimeoutUnicastMs : ℤ := 1000
def fccTimeoutSyncWaitMs : ℤ := 15000

/-- The session after `fcc_initialize_and_request`. -/
def FccContext.start (stream : StreamContext) (now : ℤ) : FccContext :=
  ⟨⟨.requested, 0, false, 0, now, []⟩, stream, false, false, false, [], [], []⟩

def fccSessionSetState (newState : FccState) (ctx : FccContext) : FccContext :=
  { ctx with fcc := { ctx.fcc with state := newState } }

def mcastSessionJoin (ctx : FccContext) : FccContext := { ctx with joined := true }

/-- `stream_process_rtp_payload`. A datagram without an RTP header is queued or dropped
    without touching the reorder buffer. -/
def streamProcessRtpPayload (conn : Conn) (origin : Origin) (ctx : FccContext)
    (buf : BufferRef) : FccContext :=
  { ctx with
    handed := ctx.handed ++ [(buf, origin)]
    stream := match rtpGetPayload buf.payload with
      | .malformed => ctx.stream
      | .nonRtp => ctx.stream
      | .fec => streamStep conn ctx.stream (.fecPacket buf.payload)
      | .rtp start length seqn =>
        streamStep conn ctx.stream
          (.rtp { buf with dataOffset := buf.dataOffset + start, dataSize := length } seqn) }

/-! ## Events of the session -/

def fccHandleSyncNotification (ctx : FccContext) : FccContext :=
  if ctx.fcc.state = .mcastRequested ∨ ctx.fcc.state = .mcastActive then ctx
  else mcastSessionJoin (fccSessionSetState .mcastRequested ctx)

/-- The fall back to multicast of the tick and of the server responses. -/
def fallBack (ctx : FccContext) : FccContext :=
  mcastSessionJoin (fccSessionSetState .mcastActive ctx)

/-- The first two checks of `fcc_session_tick`. -/
def tickTimeouts (now : ℤ) (ctx : FccContext) : FccContext :=
  let elapsedMs := now - ctx.fcc.lastDataTime
  match ctx.fcc.state with
  | .requested | .unicastPending => if fccTimeoutSignalingMs ≤ elapsedMs then fallBack ctx else ctx
  | .unicastActive | .mcastRequested =>
    if fccTimeoutUnicastMs ≤ elapsedMs then fallBack ctx else ctx
  | .init | .mcastActive => ctx

def fccSessionTick (now : ℤ) (ctx : FccContext) : FccContext :=
  let ctx := tickTimeouts now ctx
  if ctx.fcc.state = .unicastActive ∧ 0 < ctx.fcc.unicastStartTime
      ∧ fccTimeoutSyncWaitMs ≤ now - ctx.fcc.unicastStartTime then
    fccHandleSyncNotification ctx
  else ctx

/-- What a server response asks for: an error, a short or unsupported answer and `no unicast
    needed` all fall back. `redirect` says whether the new request was sent. -/
inductive FccResponse
  | ignored
  | fallBack
  | accepted
  | redirect (requested : Bool)

/-- `fcc_handle_server_response`, apart from the synchronization notification. -/
def fccHandleServerResponse (now : ℤ) (ctx : FccContext) (r : FccResponse) : FccContext :=
  if ctx.fcc.state ≠ .requested then ctx
  else
    match r with
    | .ignored => ctx
    | .fallBack => fallBack ctx
    | .accepted =>
      fccSessionSetState .unicastPending
        { ctx with fcc := { ctx.fcc with unicastStartTime := now } }
    | .redirect false => fccSessionSetState .init ctx
    | .redirect true =>
      fccSessionSetState .requested { ctx with fcc := { ctx.fcc with lastDataTime := now } }

/-- The last delivered number, `base_seq - 1`, has reached `fcc_term_seqn - 1`. -/
def termReached (ctx : FccContext) : Bool :=
  ctx.fcc.termSent && ctx.stream.reorder.phase = .active && ctx.fcc.state ≠ .mcastActive &&
    0 ≤ seqDiff (ctx.stream.base - 1) (ctx.fcc.termSeqn - 1)

def fccHandleUnicastMedia (conn : Conn) (ctx : FccContext) (buf : BufferRef) : FccContext :=
  if ctx.fcc.state = .mcastActive then ctx
  else
    let ctx :=
      if ctx.fcc.state = .unicastPending then fccSessionSetState .unicastActive ctx else ctx
    let ctx := streamProcessRtpPayload conn .fccUnicast ctx buf
    if termReached ctx then fccSessionSetState .mcastActive ctx else ctx

/-- `seqn` after `rtp_get_payload`: 0 unless it reads an RTP header. -/
def transitionSeqn (buf : BufferRef) : Seq :=
  match rtpGetPayload buf.payload with
  | .rtp _ _ seqn => seqn
  | _ => 0

/-- `fcc_send_termination_message`; `sent` is the success of `fcc_send_term_packet`, which
    is given `mcast_seqn + 2`. -/
def fccSendTerminationMessage (mcastSeqn : Seq) (sent : Bool) (ctx : FccContext) : FccContext :=
  if ctx.fcc.termSent then ctx
  else { ctx with fcc := { ctx.fcc with termSeqn := mcastSeqn, termSent := sent } }

/-- `fcc_handle_mcast_transition`; its result -1 sets `failed`. -/
def fccHandleMcastTransition (sent : Bool) (ctx : FccContext) (buf : BufferRef) : FccContext :=
  if rtpGetPayload buf.payload = .malformed then ctx
  else
    let ctx := fccSendTerminationMessage (transitionSeqn buf) sent ctx
    if ctx.fcc.termSent then
      { ctx with fcc := { ctx.fcc with pendingList := ctx.fcc.pendingList ++ [buf] } }
    else { ctx with failed := true }

def flushPending (conn : Conn) (ctx : FccContext) : FccContext :=
  let ctx' := ctx.fcc.pendingList.foldl (streamProcessRtpPayload conn .fccMulticast) ctx
  { ctx' with fcc := { ctx'.fcc with pendingList := [] } }

def fccHandleMcastActive (conn : Conn) (ctx : FccContext) (buf : BufferRef) : FccContext :=
  streamProcessRtpPayload conn .fccMulticast (flushPending conn ctx) buf

/-- RTP payloads and bare MPEG-TS: what the shared batches carry. -/
def carriesMedia (buf : BufferRef) : Bool :=
  match rtpGetPayload buf.payload with
  | .rtp _ _ _ => true
  | .nonRtp => streamPayloadIsMpegts buf.payload
  | _ => false

/-- `mcast_deliver_packet` to this subscriber, or its share of `mcast_source_append`. -/
def mcastDeliverPacket (conn : Conn) (sent : Bool) (ctx : FccContext) (buf : BufferRef) :
    FccContext :=
  if ctx.failed then ctx
  else if ctx.batched then
    if carriesMedia buf then { ctx with handed := ctx.handed ++ [(buf, .fccMulticast)] } else ctx
  else
    match ctx.fcc.state with
    | .mcastActive => fccHandleMcastActive conn ctx buf
    | .mcastRequested => fccHandleMcastTransition sent ctx buf
    | _ => ctx

/-- `mcast_source_promote_ready`, when the source's window has reached the session's. -/
def promoteReady (ctx : FccContext) : FccContext :=
  if ctx.joined ∧ ¬ ctx.failed ∧ ctx.fcc.state = .mcastActive ∧ ctx.fcc.pendingList = [] then
    { ctx with batched := true }
  else ctx

/-- What happens to a session. `sent` is the outcome of a termination request, if the
    datagram causes one; `enablePrivateFec` takes the subscriber out of the shared batches. -/
inductive FccEvent
  | unicast (buf : BufferRef) (now : ℤ)
  | syncNotification (now : ℤ)
  | response (r : FccResponse) (now : ℤ)
  | tick (now : ℤ)
  | mcast (buf : BufferRef) (sent : Bool)
  | promote
  | enablePrivateFec

/-- `last_data_time = now` for every datagram on an FCC socket. -/
def noteData (now : ℤ) (ctx : FccContext) : FccContext :=
  { ctx with fcc := { ctx.fcc with lastDataTime := now } }

/-- A unicast datagram counts as received until the switch. -/
def recordUnicast (buf : BufferRef) (ctx : FccContext) : FccContext :=
  if ctx.fcc.state = .mcastActive then ctx
  else { ctx with unicastIn := ctx.unicastIn ++ [buf] }

/-- A multicast datagram counts as received while the subscription lives. -/
def recordMcast (buf : BufferRef) (ctx : FccContext) : FccContext :=
  if ctx.failed then ctx else { ctx with mcastIn := ctx.mcastIn ++ [buf] }

def fccStep (conn : Conn) (ctx : FccContext) : FccEvent → FccContext
  | .unicast buf now => fccHandleUnicastMedia conn (recordUnicast buf (noteData now ctx)) buf
  | .syncNotification now => fccHandleSyncNotification (noteData now ctx)
  | .response r now => fccHandleServerResponse now (noteData now ctx) r
  | .tick now => fccSessionTick now ctx
  | .mcast buf sent =>
    if ctx.joined then mcastDeliverPacket conn sent (recordMcast buf ctx) buf else ctx
  | .promote => promoteReady ctx
  | .enablePrivateFec => { ctx with batched := false }

end Apackage.Rtp2httpd.Fcc
