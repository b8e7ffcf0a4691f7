import Apackage.Lib.Run
import Apackage.Rtp2httpd.Rtsp.Session

/-
  The events of an RTSP session: its control socket, the STUN response, the periodic tick, the
  cleanup, and the client that can take data again.

  `rtspHandleSocketEvent` is cut at the comments of the source into the connection
  (`connectPhase`), the writable socket (`writePhase`) and the readable socket (`readPhase`).
  Requests of the server and the replies to them are left out.
-/

namespace Apackage.Rtp2httpd.Rtsp

open Lib.Run

/-! ## Responses -/

/-- `rtsp_parse_response_header`: an error, a response to be handled, or a redirect whose
    connection is under way. -/
inductive ParseResult
  | failed
  | done
  | redirected

def rtspHandleRedirect (r : Redirect) (s : RtspSession) : RtspSession × ParseResult :=
  if rtspMaxRedirects ≤ s.redirectCount then (s, .failed)
  else
    let s := { s with redirectCount := s.redirectCount + 1, sessionId := [], socket := none }
    match r.parsed with
    | none => (s, .failed)
    | some username =>
      match rtspConnect r.connect { s with username } with
      | (s, false) => (s, .failed)
      | (s, true) => (s, if s.state = .connecting then .redirected else .failed)

/-- The state from which a request that was refused with 401 is prepared again. -/
def retryState : RtspState → RtspState
  | .awaitingOptions => .connected
  | .awaitingDescribe => .awaitingOptions
  | .awaitingSetup => .described
  | .awaitingPlay => .setup
  | s => s

def rtspParseTransportHeader (mode : TransportMode) (s : RtspSession) : RtspSession :=
  { s with
    transportMode := mode
    keepaliveIntervalMs := rtspKeepaliveIntervalMs
    keepalivePending := false
    awaitingKeepaliveResponse := false
    useGetParameter := true
    rtpSocket := if mode = .tcp then false else s.rtpSocket }

/-- The headers of a response 200. -/
def parseHeaders (r : Response) (s : RtspSession) : RtspSession :=
  let s :=
    if s.state = .awaitingOptions then
      { s with useGetParameter := r.publicMethods.getD s.useGetParameter }
    else s
  let s := { s with sessionId := r.session.getD s.sessionId }
  match r.transport with
  | none => s
  | some mode => rtspParseTransportHeader mode s

def rtspParseResponseHeader (r : Response) (s : RtspSession) : RtspSession × ParseResult :=
  if 300 ≤ r.status ∧ r.status < 400 then
    match r.location with
    | none => (s, .failed)
    | some redirect => rtspHandleRedirect redirect s
  else if r.status = 401 then
    if 2 ≤ s.authRetryCount ∨ r.challenge ≠ some true ∨ s.username = [] then (s, .failed)
    else ({ s with authRetryCount := s.authRetryCount + 1, state := retryState s.state }, .done)
  else if r.status ≠ 200 then
    if (r.status = 454 ∨ r.status = 501) ∧ s.awaitingKeepaliveResponse ∧ s.useGetParameter then
      ({ s with useGetParameter := false, awaitingKeepaliveResponse := false }, .done)
    else (s, .failed)
  else (parseHeaders r s, .done)

/-- The return values of `rtsp_try_receive_response`. -/
inductive ReadResult
  | ok
  | advance
  | keepalive
  | error
  | duration
  | metadataReady
  deriving DecidableEq

/-- What a response is taken to answer. -/
def takenFor (s : RtspSession) : Option RequestKind :=
  if s.awaitingKeepaliveResponse then some .keepalive
  else
    match s.state with
    | .awaitingOptions => some .options
    | .awaitingDescribe => some .describe
    | .awaitingSetup => some .setup
    | .awaitingPlay => some .play
    | .awaitingTeardown => some .teardown
    | _ => none

/-- A response answers the first request that has no answer. -/
def recordAnswer (s : RtspSession) : RtspSession :=
  { s with
    answers := s.answers ++ [⟨s.socket.bind (·.unanswered.head?), takenFor s⟩]
    socket := s.socket.map fun k => { k with unanswered := k.unanswered.drop 1 } }

/-- The next state after a response that is no keepalive's. -/
def acceptedState (s : RtspSession) : RtspSession × ReadResult :=
  match s.state with
  | .awaitingOptions => (s, .advance)
  | .awaitingDescribe =>
    if s.metadataProbe then (s, .metadataReady)
    else if s.r2hDuration then (s, .duration)
    else ({ s with state := .described }, .advance)
  | .awaitingSetup => ({ s with state := .setup }, .advance)
  | .awaitingPlay => ({ s with state := .playing }, .ok)
  | .awaitingTeardown => ({ s with state := .teardownComplete }, .ok)
  | _ => (s, .ok)

/-- `rtsp_try_receive_response` from a complete response on. -/
def acceptResponse (r : Response) (s : RtspSession) : RtspSession × ReadResult :=
  let wasKeepalive := s.awaitingKeepaliveResponse
  match rtspParseResponseHeader r (recordAnswer s) with
  | (s, result) =>
    let s := { s with awaitingResponse := false, awaitingKeepaliveResponse := false }
    match result with
    | .failed => (s, .error)
    | .redirected => (s, .ok)
    | .done => if wasKeepalive then (s, .keepalive) else acceptedState s

def rtspTryReceiveResponse (x : Received) (s : RtspSession) : RtspSession × ReadResult :=
  match x with
  | .again => (s, .ok)
  | .failed => (s, .error)
  | .eof => ({ s with awaitingKeepaliveResponse := false }, .error)
  | .data closed parsed =>
    let s := { s with peerClosed := s.peerClosed || closed }
    match parsed with
    | .incomplete _ announce =>
      if s.peerClosed then ({ s with awaitingKeepaliveResponse := false }, .error)
      else if announce then
        ({ s with awaitingResponse := false, awaitingKeepaliveResponse := false }, .error)
      else (s, .ok)
    | .malformed =>
      ({ s with awaitingResponse := false, awaitingKeepaliveResponse := false }, .error)
    | .complete r => acceptResponse r s

/-- The buffer has grown. -/
def Received.progress : Received → Bool
  | .data _ (.incomplete progress _) => progress
  | _ => false

/-- The loop around `rtsp_try_receive_response`, which drains a closing socket. -/
def receiveLoop (ev : PollEvents) : List Received → RtspSession → RtspSession × ReadResult
  | [], s => (s, .ok)
  | x :: rest, s =>
    match rtspTryReceiveResponse x s with
    | (s, result) =>
      if result = .ok ∧ s.awaitingResponse ∧ ev.hangup ∧ x.progress then receiveLoop ev rest s
      else (s, result)

/-! ## The control socket -/

def rtspHandleTerminalSocketEvent (s : RtspSession) : RtspSession :=
  if s.state = .sendingTeardown ∨ s.state = .awaitingTeardown ∨ s.state = .playing then
    rtspForceCleanup s
  else rtspSessionSetState .error s

/-- `rtsp_handle_tcp_interleaved_data` and what follows it. -/
def readMedia (o : Outcomes) (s : RtspSession) : RtspSession :=
  if o.mediaEnds then rtspForceCleanup s
  else { s with firstMediaReceived := s.firstMediaReceived || o.mediaArrives }

/-- Playing media over the control connection. -/
def playingTcp (s : RtspSession) : Bool := s.state = .playing ∧ s.transportMode = .tcp

/-- `rtsp_state_machine_advance` with its errors; false if the event ends here. -/
def advanceOrFail (o : Outcomes) (s : RtspSession) : RtspSession × Bool :=
  match rtspStateMachineAdvance o s with
  | (s, .ok) => (s, true)
  | (s, .failed) => (rtspSessionSetState .error s, false)
  | (s, .gone) => (s, false)

def connectionMade (o : Outcomes) (s : RtspSession) : RtspSession :=
  let s := { s with connectNext := [], rtpSocket := s.rtpSocket && !o.localAddressChanges }
  let s := setPollerOut true s
  if s.state = .reconnecting then s else rtspSessionSetState .connected s

/-- The connection, or a hangup; false if the event ends here. -/
def connectPhase (ev : PollEvents) (o : Outcomes) (s : RtspSession) : RtspSession × Bool :=
  if s.state = .connecting ∨ s.state = .reconnecting then
    if o.getsockoptFails then (rtspSessionSetState .error s, false)
    else if o.sockError || (ev.hangup && !ev.output) then
      match rtspHandleConnectFailure s with
      | (s, true) => (s, false)
      | (s, false) => (rtspSessionSetState .error s, false)
    else advanceOrFail o (connectionMade o s)
  else if ev.hangup && !(ev.input && (s.awaitingResponse || playingTcp s)) then
    (rtspHandleTerminalSocketEvent s, false)
  else (s, true)

/-- The writable socket; false if the event ends here. -/
def writePhase (ev : PollEvents) (o : Outcomes) (s : RtspSession) : RtspSession × Bool :=
  if ev.output ∧ 0 < s.pendingRequestLen ∧ s.pendingRequestSent < s.pendingRequestLen then
    match rtspTrySendPending o s with
    | (s, false) => (rtspSessionSetState .error s, false)
    | (s, true) =>
      if s.pendingRequestLen ≤ s.pendingRequestSent then
        (setPollerOut false { s with awaitingResponse := true }, true)
      else (s, true)
  else (s, true)

/-- What follows a call of `rtsp_try_receive_response` that does not end the event. -/
def afterResponse (ev : PollEvents) (o : Outcomes) (result : ReadResult) (s : RtspSession) :
    RtspSession :=
  let s := if result = .advance then setPollerOut true s else s
  if result = .keepalive ∧ ¬(s.peerClosed ∨ ev.hangup) then
    if s.transportMode = .tcp ∧ o.mediaEnds then rtspSessionSetState .error s else s
  else if s.awaitingResponse then s
  else
    match advanceOrFail o s with
    | (s, true) => if s.state = .playing then readMedia o s else s
    | (s, false) => s

def readResponse (ev : PollEvents) (o : Outcomes) (s : RtspSession) : RtspSession :=
  let connectGeneration := s.connectGeneration
  match receiveLoop ev o.receives s with
  | (s, .error) => rtspSessionSetState .error s
  | (s, .duration) => s
  | (s, .metadataReady) => s
  | (s, result) =>
    if s.connectGeneration = connectGeneration ∧ (s.peerClosed ∨ ev.hangup) ∧ !playingTcp s then
      rtspHandleTerminalSocketEvent s
    else afterResponse ev o result s

def readPhase (ev : PollEvents) (o : Outcomes) (s : RtspSession) : RtspSession :=
  if !ev.input then s
  else if s.awaitingResponse then readResponse ev o s
  else if s.state = .playing then readMedia o s
  else s

def connectAndWrite (ev : PollEvents) (o : Outcomes) (s : RtspSession) : RtspSession × Bool :=
  match connectPhase ev o s with
  | (s, false) => (s, false)
  | (s, true) => writePhase ev o s

def rtspHandleSocketEvent (ev : PollEvents) (o : Outcomes) (s : RtspSession) : RtspSession :=
  match connectAndWrite ev o s with
  | (s, false) => s
  | (s, true) => readPhase ev o s

/-! ## STUN and the tick -/

def resumeDescribe (o : Outcomes) (s : RtspSession) : RtspSession :=
  match rtspStateMachineAdvance o s with
  | (s, .ok) => setPollerOut true s
  | (s, _) => s

/-- The STUN response of `rtsp_handle_udp_rtp_data`. -/
def stunResponse (o : Outcomes) (s : RtspSession) : RtspSession :=
  if !(s.rtpSocket && s.stunInProgress) then s
  else
    let s := { s with stunInProgress := false, stunCompleted := true }
    if s.describeWaitingForStun then resumeDescribe o s else s

/-- The states that `rtsp_session_tick` bounds in time. -/
def hasTimeout (s : RtspSession) : Bool :=
  match s.state with
  | .connecting | .awaitingOptions => !s.describeWaitingForStun
  | .awaitingDescribe | .awaitingSetup | .awaitingPlay | .reconnecting => true
  | .playing => !s.firstMediaReceived
  | .sendingTeardown | .awaitingTeardown => true
  | _ => false

/-- The timeouts of `rtsp_session_tick`; false if the tick ends here. -/
def tickTimeout (s : RtspSession) : RtspSession × Bool :=
  if (s.state = .connecting ∨ s.state = .reconnecting) ∧ s.connectNext ≠ [] then
    match rtspHandleConnectFailure s with
    | (s, true) => (s, false)
    | (s, false) => (rtspSessionSetState .error s, false)
  else (rtspSessionSetState .error s, false)

def rtspSessionTick (timedOut keepaliveDue : Bool) (o : Outcomes) (s : RtspSession) : RtspSession :=
  if timedOut && hasTimeout s then (tickTimeout s).1
  else
    let s :=
      if s.stunInProgress && s.describeWaitingForStun && o.stunExpires then
        resumeDescribe o (stunCheckTimeout o s)
      else s
    if s.state = .playing ∧ 0 < s.keepaliveIntervalMs ∧ s.sessionId ≠ [] ∧ keepaliveDue then
      rtspSendKeepalive o s
    else s

/-! ## Teardown -/

/-- `rtsp_reconnect_for_teardown`; false is -1. -/
def rtspReconnectForTeardown (o : Outcomes) (s : RtspSession) : RtspSession × Bool :=
  match rtspConnect o.connect { s with teardownReconnectDone := true, socket := none } with
  | (s, true) => (rtspSessionSetState .reconnecting s, true)
  | (s, false) => (s, false)

/-- `rtsp_initiate_teardown`: 0, 1 or -1. -/
inductive TeardownResult
  | initiated
  | reconnect
  | failed

def rtspInitiateTeardown (o : Outcomes) (s : RtspSession) : RtspSession × TeardownResult :=
  if s.socket = none ∨ o.getsockoptFails ∨ o.sockError then (s, .reconnect)
  else
    let s :=
      { s with
        keepalivePending := false
        awaitingKeepaliveResponse := false
        awaitingResponse := false }
    match rtspPrepareRequest o .teardown s with
    | (s, true) => (setPollerOut true (rtspSessionSetState .sendingTeardown s), .initiated)
    | (s, false) => (s, .failed)

/-- `rtsp_session_cleanup` in `PLAYING` or `SETUP`. -/
def beginTeardown (o : Outcomes) (s : RtspSession) : RtspSession :=
  match rtspInitiateTeardown o { s with teardownRequested := true, rtpSocket := false } with
  | (s, .initiated) => s
  | (s, .failed) => rtspForceCleanup s
  | (s, .reconnect) =>
    if s.teardownReconnectDone then rtspForceCleanup s
    else
      match rtspReconnectForTeardown o s with
      | (s, true) => s
      | (s, false) => rtspForceCleanup s

def rtspSessionCleanup (o : Outcomes) (s : RtspSession) : RtspSession :=
  match s.state with
  | .sendingTeardown | .awaitingTeardown | .teardownComplete | .reconnecting => s
  | .playing | .setup => beginTeardown o s
  | _ => rtspForceCleanup s

/-! ## Runs -/

inductive RtspEvent
  | socket (ev : PollEvents) (o : Outcomes)
  | stun (o : Outcomes)
  | tick (timedOut keepaliveDue : Bool) (o : Outcomes)
  | cleanup (o : Outcomes)
  /-- `rtsp_resume_upstream`. -/
  | resume (o : Outcomes)
  /-- `rtsp_force_cleanup` of `stream_context_destroy`. -/
  | destroy

/-- An event is for a session that is initialized and, where it is the socket's, has one. -/
def rtspStep (s : RtspSession) (e : RtspEvent) : RtspSession :=
  if !s.initialized then s
  else
    match e with
    | .socket ev o => if s.socket = none then s else rtspHandleSocketEvent ev o s
    | .stun o => stunResponse o s
    | .tick timedOut keepaliveDue o => rtspSessionTick timedOut keepaliveDue o s
    | .cleanup o => rtspSessionCleanup o s
    | .resume o => readMedia o s
    | .destroy => rtspForceCleanup s

/-- `stream_init_rtsp_control`: a session and its first connection. -/
def rtspStart (username : Bytes) (r2hDuration metadataProbe : Bool) (c : ConnectOutcome) :
    RtspSession :=
  (rtspConnect c (rtspSessionInit username r2hDuration metadataProbe)).1

end Apackage.Rtp2httpd.Rtsp
