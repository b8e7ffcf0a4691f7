import Apackage.Rtp2httpd.CString

/-
  The RTSP client (`rtsp.c`): one session from its first connection to the forced cleanup.

  Model. What the system calls, the resolver and the parsers of header values return is an argument
  of each event: which part of a request `send` takes, what `recv` yields, which address of a host
  can be connected, whether a timeout has expired. So are the texts that a request is built from;
  the request line, `CSeq`, `Session` and the 4096 byte buffer are not. The poller accepts a change
  for a socket it knows. Fields that only reach these texts, the media path or the log are left out.

  Five fields only record: `numbered` counts the calls of `rtsp_prepare_request`, `prepared` lists
  the requests built, `answers` the responses accepted, and of a control connection `wire` is what
  `send` has taken and `unanswered` the requests taken completely and not answered yet.
-/

namespace Apackage.Rtp2httpd.Rtsp

/-- `rtsp_state_t`. -/
inductive RtspState
  | init
  | connecting
  | connected
  | sendingOptions
  | awaitingOptions
  | sendingDescribe
  | awaitingDescribe
  | described
  | sendingSetup
  | awaitingSetup
  | setup
  | sendingPlay
  | awaitingPlay
  | playing
  | reconnecting
  | sendingTeardown
  | awaitingTeardown
  | teardownComplete
  | paused
  | error
  deriving DecidableEq

/-- What a request is for. A keepalive is a GET_PARAMETER or an OPTIONS request. -/
inductive RequestKind
  | options
  | describe
  | setup
  | play
  | teardown
  | keepalive
  deriving DecidableEq

structure RtspRequest where
  kind : RequestKind
  cseq : UInt32
  text : Bytes

inductive TransportMode
  | udp
  | tcp
  deriving DecidableEq

/-- One address of a host: `connect` fails at once, or is under way; then the address may be
    of another family than the UDP sockets, and the poller may refuse the socket. -/
inductive Candidate
  | refused
  | opens (switchesFamily polled : Bool)

/-- `socket`: a control connection. `pollerOut` says whether the interest set for it includes
    `POLLER_OUT`; all others are always included. -/
structure ControlSocket where
  pollerOut : Bool
  wire : Bytes
  unanswered : List RtspRequest

/-- An accepted response: the request it answers, and the one it was taken to answer. -/
structure Answer where
  request : Option RtspRequest
  takenFor : Option RequestKind

/-- `rtsp_session_t`. -/
structure RtspSession where
  initialized : Bool
  socket : Option ControlSocket
  state : RtspState
  cseq : UInt32
  sessionId : Bytes
  /-- The addresses that have not been tried. -/
  connectNext : List Candidate
  redirectCount : ℕ
  r2hDuration : Bool
  metadataProbe : Bool
  peerClosed : Bool
  connectGeneration : ℕ
  describeWaitingForStun : Bool
  username : Bytes
  authRetryCount : ℕ
  transportMode : TransportMode
  rtpSocket : Bool
  stunInProgress : Bool
  stunCompleted : Bool
  cleanupDone : Bool
  firstMediaReceived : Bool
  pendingRequest : RtspRequest
  pendingRequestLen : ℕ
  pendingRequestSent : ℕ
  awaitingResponse : Bool
  keepaliveIntervalMs : ℕ
  keepalivePending : Bool
  awaitingKeepaliveResponse : Bool
  useGetParameter : Bool
  teardownRequested : Bool
  teardownReconnectDone : Bool
  numbered : ℕ
  prepared : List RtspRequest
  answers : List Answer

def rtspRequestBufferSize : ℕ := 4096
def rtspMaxRedirects : ℕ := 5
def rtspKeepaliveIntervalMs : ℕ := 30000

def rtspSessionInit (username : Bytes) (r2hDuration metadataProbe : Bool) : RtspSession where
  initialized := true
  socket := none
  state := .init
  cseq := 1
  sessionId := []
  connectNext := []
  redirectCount := 0
  r2hDuration
  metadataProbe
  peerClosed := false
  connectGeneration := 0
  describeWaitingForStun := false
  username
  authRetryCount := 0
  transportMode := .tcp
  rtpSocket := false
  stunInProgress := false
  stunCompleted := false
  cleanupDone := false
  firstMediaReceived := false
  pendingRequest := ⟨.options, 0, []⟩
  pendingRequestLen := 0
  pendingRequestSent := 0
  awaitingResponse := false
  keepaliveIntervalMs := 0
  keepalivePending := false
  awaitingKeepaliveResponse := false
  useGetParameter := true
  teardownRequested := false
  teardownReconnectDone := false
  numbered := 0
  prepared := []
  answers := []

/-! ## Outcomes of the environment -/

/-- The texts of a request that the model does not build. -/
structure RequestTexts where
  url : Bytes
  userAgent : Bytes
  auth : Bytes
  extra : Bytes

/-- `send`: the bytes taken, EAGAIN, or an error. -/
inductive SendResult
  | accepted (n : ℕ)
  | again
  | failed

/-- What `rtsp_connect` meets: the addresses of the host, if it resolves; whether UDP sockets
    can be opened and a STUN request can be sent. -/
structure ConnectOutcome where
  resolved : Option (List Candidate)
  udpOpens : Bool
  stunSends : Bool

/-- The `Location` of a redirect: the user it leaves the session with, if the URL is valid,
    and the connection to it. -/
structure Redirect where
  parsed : Option Bytes
  connect : ConnectOutcome

/-- A complete response; a header that is absent is none. `challenge` says whether
    `WWW-Authenticate` can be parsed, `publicMethods` whether `Public` names GET_PARAMETER. -/
structure Response where
  status : ℕ
  location : Option Redirect
  challenge : Option Bool
  publicMethods : Option Bool
  session : Option Bytes
  transport : Option TransportMode

/-- The search for a response in the buffer. `progress` says that the buffer has grown,
    `announce` that the frames before the response end with an ANNOUNCE request. -/
inductive Parsed
  | incomplete (progress announce : Bool)
  | malformed
  | complete (r : Response)

/-- One `recv` of `rtsp_try_receive_response`: EAGAIN, an error, the end of the stream with an
    empty buffer, or a buffer to be parsed, `closed` if the stream has ended. -/
inductive Received
  | again
  | failed
  | eof
  | data (closed : Bool) (parsed : Parsed)

/-- The events of a poller; `hangup` is any of POLLER_HUP, POLLER_ERR, POLLER_RDHUP. -/
structure PollEvents where
  input : Bool
  output : Bool
  hangup : Bool

/-- What one event meets. -/
structure Outcomes where
  getsockoptFails : Bool
  /-- `SO_ERROR` is set. -/
  sockError : Bool
  localAddressChanges : Bool
  stunExpires : Bool
  sends : List SendResult
  receives : List Received
  /-- Reading media ends the stream, or yields the first packet. -/
  mediaEnds : Bool
  mediaArrives : Bool
  connect : ConnectOutcome
  texts : RequestKind → RequestTexts

/-! ## Cleanup and states -/

def rtspForceCleanup (s : RtspSession) : RtspSession :=
  if !s.initialized then s
  else
    { s with
      socket := none
      rtpSocket := false
      connectNext := []
      pendingRequestLen := 0
      pendingRequestSent := 0
      awaitingResponse := false
      keepaliveIntervalMs := 0
      keepalivePending := false
      awaitingKeepaliveResponse := false
      useGetParameter := true
      teardownRequested := false
      teardownReconnectDone := false
      sessionId := []
      cleanupDone := true
      initialized := false
      state := .init }

def rtspSessionSetState (newState : RtspState) (s : RtspSession) : RtspSession :=
  if s.state = newState then s
  else if newState = .error ∧ s.cleanupDone = false then
    rtspForceCleanup { s with state := newState }
  else { s with state := newState }

def setPollerOut (out : Bool) (s : RtspSession) : RtspSession :=
  { s with socket := s.socket.map fun k => { k with pollerOut := out } }

/-! ## Connecting -/

/-- `rtsp_try_next_candidate`: whether a connection is under way. -/
def rtspTryNextCandidate (s : RtspSession) : List Candidate → RtspSession × Bool
  | [] => ({ s with connectNext := [] }, false)
  | .refused :: rest => rtspTryNextCandidate s rest
  | .opens switchesFamily polled :: rest =>
    let s := { s with connectNext := rest }
    let s :=
      if s.rtpSocket && switchesFamily then
        { s with rtpSocket := false, stunInProgress := false, stunCompleted := false }
      else s
    if !polled then ({ s with socket := none }, false)
    else
      let s := { s with socket := some ⟨true, [], []⟩ }
      (if s.state = .reconnecting then s else rtspSessionSetState .connecting s, true)

def rtspHandleConnectFailure (s : RtspSession) : RtspSession × Bool :=
  rtspTryNextCandidate { s with socket := none } s.connectNext

/-- `rtsp_connect`; false is -1. -/
def rtspConnect (c : ConnectOutcome) (s : RtspSession) : RtspSession × Bool :=
  let s :=
    { s with peerClosed := false, connectGeneration := s.connectGeneration + 1, connectNext := [] }
  match c.resolved with
  | none => (s, false)
  | some candidates =>
    let s :=
      if !s.metadataProbe && !s.rtpSocket && !s.stunInProgress && !s.stunCompleted && c.udpOpens
      then { s with rtpSocket := true, stunInProgress := c.stunSends }
      else s
    rtspTryNextCandidate s candidates

/-! ## Requests -/

def methodText (kind : RequestKind) (useGetParameter : Bool) : Bytes :=
  match kind with
  | .options => ascii "OPTIONS"
  | .describe => ascii "DESCRIBE"
  | .setup => ascii "SETUP"
  | .play => ascii "PLAY"
  | .teardown => ascii "TEARDOWN"
  | .keepalive => if useGetParameter then ascii "GET_PARAMETER" else ascii "OPTIONS"

def crlf : Bytes := [0x0D, 0x0A]

/-- The text that `rtsp_prepare_request` writes. -/
def requestText (kind : RequestKind) (s : RtspSession) (t : RequestTexts) : Bytes :=
  methodText kind s.useGetParameter ++ ascii " " ++ t.url ++ ascii " RTSP/1.0" ++ crlf ++
    ascii "CSeq: " ++ printDecimal s.cseq.toNat ++ crlf ++
    ascii "User-Agent: " ++ t.userAgent ++ crlf ++
    (if s.sessionId = [] then [] else ascii "Session: " ++ s.sessionId ++ crlf) ++
    t.auth ++ t.extra ++ crlf

/-- `rtsp_prepare_request`; false is -1. A text that does not fit is cut, and the lengths stay
    as they are. -/
def rtspPrepareRequest (o : Outcomes) (kind : RequestKind) (s : RtspSession) : RtspSession × Bool :=
  let request : RtspRequest := ⟨kind, s.cseq, requestText kind s (o.texts kind)⟩
  let s := { s with cseq := s.cseq + 1, numbered := s.numbered + 1 }
  if rtspRequestBufferSize ≤ request.text.length then
    ({ s with
      pendingRequest := { request with text := request.text.take (rtspRequestBufferSize - 1) } },
      false)
  else
    ({ s with
      pendingRequest := request
      pendingRequestLen := request.text.length
      pendingRequestSent := 0
      prepared := s.prepared ++ [request] }, true)

/-- The end of `rtsp_state_machine_advance`: 0, -1 or -2. -/
inductive AdvanceResult
  | ok
  | failed
  | gone

def prepareThen (o : Outcomes) (kind : RequestKind) (next : RtspState) (s : RtspSession) :
    RtspSession × AdvanceResult :=
  match rtspPrepareRequest o kind s with
  | (s, true) => (rtspSessionSetState next s, .ok)
  | (s, false) => (s, .failed)

def stunCheckTimeout (o : Outcomes) (s : RtspSession) : RtspSession :=
  if s.stunInProgress && o.stunExpires then
    { s with stunInProgress := false, stunCompleted := true }
  else s

def rtspStateMachineAdvance (o : Outcomes) (s : RtspSession) : RtspSession × AdvanceResult :=
  match s.state with
  | .connected => prepareThen o .options .sendingOptions s
  | .awaitingOptions =>
    let s := stunCheckTimeout o s
    if s.stunInProgress then ({ s with describeWaitingForStun := true }, .ok)
    else prepareThen o .describe .sendingDescribe { s with describeWaitingForStun := false }
  | .described =>
    prepareThen o .setup .sendingSetup { s with rtpSocket := s.rtpSocket || o.connect.udpOpens }
  | .setup => prepareThen o .play .sendingPlay s
  | .reconnecting =>
    if s.teardownRequested then prepareThen o .teardown .sendingTeardown s else (s, .failed)
  | .teardownComplete => (rtspForceCleanup s, .gone)
  | _ => (s, .ok)

def rtspSendKeepalive (o : Outcomes) (s : RtspSession) : RtspSession :=
  if s.socket = none ∨ s.keepaliveIntervalMs = 0 ∨ s.sessionId = [] ∨ 0 < s.pendingRequestLen ∨
      s.awaitingResponse ∨ s.keepalivePending ∨ s.awaitingKeepaliveResponse then s
  else
    match rtspPrepareRequest o .keepalive s with
    | (s, true) => setPollerOut true { s with keepalivePending := true }
    | (s, false) => s

/-! ## Sending -/

def takeBytes (n : ℕ) (s : RtspSession) : RtspSession :=
  let n := min n (s.pendingRequestLen - s.pendingRequestSent)
  { s with
    pendingRequestSent := s.pendingRequestSent + n
    socket := s.socket.map fun k =>
      { k with wire := k.wire ++ (s.pendingRequest.text.drop s.pendingRequestSent).take n } }

/-- The loop of `rtsp_try_send_pending`; false is -1. -/
def sendLoop : List SendResult → RtspSession → RtspSession × Bool
  | [], s => (s, true)
  | .again :: _, s => (s, true)
  | .failed :: _, s => ({ s with keepalivePending := false, awaitingKeepaliveResponse := false }, false)
  | .accepted n :: rest, s =>
    if n = 0 then (s, true)
    else
      let s := takeBytes n s
      if s.pendingRequestSent < s.pendingRequestLen then sendLoop rest s else (s, true)

/-- The state that waits for the response to what was sent. -/
def awaitingState : RtspState → RtspState
  | .sendingOptions => .awaitingOptions
  | .sendingDescribe => .awaitingDescribe
  | .sendingSetup => .awaitingSetup
  | .sendingPlay => .awaitingPlay
  | .sendingTeardown => .awaitingTeardown
  | s => s

/-- The end of `rtsp_try_send_pending`: the request has been sent. -/
def requestSent (s : RtspSession) : RtspSession :=
  { s with
    pendingRequestLen := 0
    pendingRequestSent := 0
    awaitingResponse := true
    awaitingKeepaliveResponse := s.awaitingKeepaliveResponse || s.keepalivePending
    keepalivePending := false
    state := awaitingState s.state
    socket := s.socket.map fun k => { k with unanswered := k.unanswered ++ [s.pendingRequest] } }

/-- `rtsp_try_send_pending`, with bytes to be sent. -/
def rtspTrySendPending (o : Outcomes) (s : RtspSession) : RtspSession × Bool :=
  match sendLoop o.sends s with
  | (s, true) => (if s.pendingRequestLen ≤ s.pendingRequestSent then requestSent s else s, true)
  | (s, false) => (s, false)

end Apackage.Rtp2httpd.Rtsp
