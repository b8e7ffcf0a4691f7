import Apackage.Rtp2httpd.Rtsp.Refinement

/-
  What a response makes of a session.

  `heard` finds the response among the results of `recv`; `Accepted` lists what
  `rtsp_try_receive_response` can leave, and `readPhase_moves` says that the rest of the event
  is a sequence of moves.
-/

namespace Apackage.Rtp2httpd.Rtsp

open List Lib.Run Control

/-! ## The loop -/

/-- The response that is found, and whether the stream has ended by then. -/
def heard (ev : PollEvents) : List Received → Bool → Option (Response × Bool)
  | .data closed (.complete r) :: _, peerClosed => some (r, peerClosed || closed)
  | .data closed (.incomplete progress announce) :: rest, peerClosed =>
    if progress && ev.hangup && !announce && !(peerClosed || closed) then heard ev rest false
    else none
  | _, _ => none

variable {s : RtspSession} {ev : PollEvents} {r : Response} {xs : List Received}

theorem receiveLoop_heard {closed : Bool} (ha : s.awaitingResponse = true)
    (h : heard ev xs s.peerClosed = some (r, closed)) :
    receiveLoop ev xs s = acceptResponse r { s with peerClosed := closed } := by
  induction xs generalizing s with
  | nil => cases h
  | cons x xs ih =>
    cases x with
    | again => cases h
    | failed => cases h
    | eof => cases h
    | data ended parsed =>
      cases parsed with
      | malformed => cases h
      | complete r' =>
        obtain ⟨rfl, rfl⟩ := Prod.mk.inj (Option.some.inj h)
        simp [receiveLoop, rtspTryReceiveResponse, Received.progress]
      | incomplete progress announce =>
        rw [heard] at h
        split at h
        · rename_i hgo
          simp only [Bool.and_eq_true, Bool.not_eq_true', Bool.or_eq_false_iff] at hgo
          obtain ⟨⟨⟨hprogress, hhangup⟩, hannounce⟩, hpeer, hended⟩ := hgo
          have hnext := ih (s := { s with peerClosed := s.peerClosed || ended }) ha
            (by simpa [hpeer, hended] using h)
          simpa [receiveLoop, rtspTryReceiveResponse, Received.progress, hprogress, hhangup,
            hannounce, hpeer, hended, ha] using hnext
        · cases h

variable {c : Control}

theorem receiveLoop_unheard (ha : s.awaitingResponse = true) (hs : Closable c s)
    (h : heard ev xs s.peerClosed = none) :
    (∃ closed, receiveLoop ev xs s = ({ s with peerClosed := closed }, .ok)) ∨
      ∃ s', receiveLoop ev xs s = (s', .error) ∧ Closable c s' := by
  induction xs generalizing s with
  | nil => exact .inl ⟨s.peerClosed, rfl⟩
  | cons x xs ih =>
    cases x with
    | again =>
      exact .inl ⟨s.peerClosed, by simp [receiveLoop, rtspTryReceiveResponse, Received.progress]⟩
    | failed => exact .inr ⟨s, rfl, hs⟩
    | eof => exact .inr ⟨_, rfl, { hs with }⟩
    | data ended parsed =>
      cases parsed with
      | malformed => exact .inr ⟨_, rfl, { hs with }⟩
      | complete r => cases h
      | incomplete progress announce =>
        rw [heard] at h
        by_cases hclosed : (s.peerClosed || ended) = true
        · exact .inr ⟨{ s with
              peerClosed := s.peerClosed || ended
              awaitingKeepaliveResponse := false },
            by simp [receiveLoop, rtspTryReceiveResponse, hclosed], { hs with }⟩
        · cases announce with
          | true =>
            exact .inr ⟨{ s with
                peerClosed := s.peerClosed || ended
                awaitingResponse := false
                awaitingKeepaliveResponse := false },
              by simp [receiveLoop, rtspTryReceiveResponse, hclosed], { hs with }⟩
          | false =>
            have hpeer : (s.peerClosed || ended) = false := by simpa using hclosed
            by_cases hgo : progress = true ∧ ev.hangup = true
            · rw [if_pos (by simp [hgo, hpeer])] at h
              have hnext := ih (s := { s with peerClosed := s.peerClosed || ended }) ha { hs with }
                (by simpa [hpeer] using h)
              simpa [receiveLoop, rtspTryReceiveResponse, Received.progress, hgo, hpeer, ha]
                using hnext
            · refine .inl ⟨s.peerClosed || ended, ?_⟩
              have hstop : ev.hangup = true → progress = false := by
                intro hhangup
                simpa [hhangup] using hgo
              simp [receiveLoop, rtspTryReceiveResponse, Received.progress, hpeer, ha]
              exact fun hhangup hprogress => absurd (hstop hhangup) (by simp [hprogress])

/-! ## One response -/

/-- The first address that `connect` does not refuse, if the poller accepts it. -/
def firstDialed : List Candidate → Bool
  | [] => false
  | .refused :: rest => firstDialed rest
  | .opens _ polled :: _ => polled

/-- Whether a connection gets under way. -/
def ConnectOutcome.dials (c : ConnectOutcome) : Bool :=
  match c.resolved with
  | none => false
  | some candidates => firstDialed candidates

theorem tryNext_spec (s : RtspSession) (cs : List Candidate) :
    (rtspTryNextCandidate s cs).2 = firstDialed cs ∧ (firstDialed cs = true →
        (rtspTryNextCandidate s cs).1.connectGeneration = s.connectGeneration) := by
  induction cs generalizing s with
  | nil => exact ⟨rfl, nofun⟩
  | cons candidate cs ih =>
    cases candidate with
    | refused => exact ih s
    | opens switchesFamily polled =>
      cases polled with
      | false => exact ⟨rfl, nofun⟩
      | true =>
        simp only [rtspTryNextCandidate, firstDialed]
        refine ⟨rfl, fun _ => ?_⟩
        simp only [Bool.not_true, Bool.false_eq_true, if_false]
        rw [setState_of_ne (by decide)]
        split <;> split <;> rfl

theorem connect_spec (c : ConnectOutcome) (s : RtspSession) : (rtspConnect c s).2 = c.dials ∧
      (c.dials = true → (rtspConnect c s).1.connectGeneration = s.connectGeneration + 1) := by
  unfold rtspConnect ConnectOutcome.dials
  cases c.resolved with
  | none => exact ⟨rfl, nofun⟩
  | some candidates =>
    dsimp only
    split
    · exact tryNext_spec _ candidates
    · exact tryNext_spec _ candidates

def RedirectFollowed (r : Response) (s : RtspSession) : Prop :=
  (300 ≤ r.status ∧ r.status < 400) ∧ s.redirectCount < rtspMaxRedirects ∧
    ∃ redirect, r.location = some redirect ∧ redirect.parsed ≠ none ∧ redirect.connect.dials = true
  deriving Decidable

theorem redirect_spec (redirect : Redirect) (hs : Closable c s) (hstate : s.state ≠ .reconnecting) :
    (∃ s', rtspHandleRedirect redirect s = (s', .failed) ∧ Closable c s') ∨
      (s.redirectCount < rtspMaxRedirects ∧ redirect.parsed ≠ none ∧
          redirect.connect.dials = true) ∧
        ∃ s', rtspHandleRedirect redirect s = (s', .redirected) ∧
          s'.control = s.control.dialed .connecting ∧
          s'.connectGeneration = s.connectGeneration + 1 := by
  unfold rtspHandleRedirect
  split
  · exact .inl ⟨s, rfl, hs⟩
  · rename_i hcount
    dsimp only
    split
    · exact .inl ⟨_, rfl, { hs with }⟩
    · rename_i username hparsed
      split
      · rename_i s' hconnect
        exact .inl ⟨s', rfl, connect_failed hconnect { hs with }⟩
      · rename_i s' hconnect
        obtain ⟨hdials, hgeneration⟩ := connect_spec redirect.connect
          { s with
            redirectCount := s.redirectCount + 1
            sessionId := []
            socket := none
            username := username }
        rw [hconnect] at hdials hgeneration
        have hcontrol := connect_ok hconnect
        rw [if_neg hstate] at hcontrol
        refine .inr ⟨⟨Nat.lt_of_not_le hcount, fun hnone => ?_, hdials.symm⟩, s', ?_, hcontrol,
          hgeneration hdials.symm⟩
        · rw [hnone] at hparsed
          cases hparsed
        · have hconnecting : s'.state = .connecting := congrArg Control.state hcontrol
          rw [if_pos hconnecting]

/-- The states whose request is repeated unarmed after 401. -/
def repeatStates : List RtspState := [.awaitingOptions, .awaitingSetup, .awaitingPlay]

/-- The response is a 401 after which the request is prepared again. -/
def Retried (r : Response) (s : RtspSession) : Prop :=
  r.status = 401 ∧ s.authRetryCount < 2 ∧ r.challenge = some true ∧ s.username ≠ [] ∧
    s.state ∈ repeatStates

/-- The state after a response, and what the rest of the event makes of it. -/
inductive Hears : RtspState → RtspState → ReadResult → Prop
  | keepalive {q : RtspState} (h : q = .playing ∨ q = .sendingTeardown ∨ q = .awaitingTeardown) :
    Hears q q .keepalive
  | idle {q : RtspState} (h : q = .playing ∨ q = .sendingTeardown) : Hears q q .ok
  | options : Hears .awaitingOptions .awaitingOptions .advance
  | stop {result : ReadResult} (h : result = .duration ∨ result = .metadataReady) :
    Hears .awaitingDescribe .awaitingDescribe result
  | describe : Hears .awaitingDescribe .described .advance
  | redescribe : Hears .awaitingDescribe .awaitingOptions .advance
  | setup : Hears .awaitingSetup .setup .advance
  | play : Hears .awaitingPlay .playing .ok
  | teardown : Hears .awaitingTeardown .teardownComplete .ok

/-- What `acceptResponse` leaves of the session `s`. -/
inductive Accepted (r : Response) (s : RtspSession) : RtspSession × ReadResult → Prop
  | failed {s' : RtspSession} (h : Closable s.control.answered s') (hretry : ¬Retried r s) :
    Accepted r s (s', .error)
  | redirected {s' : RtspSession} (h : RedirectFollowed r s)
    (hcontrol : s'.control = s.control.answered.dialed .connecting)
    (hgeneration : s'.connectGeneration = s.connectGeneration + 1) : Accepted r s (s', .ok)
  | retried {s' : RtspSession} (h : Retried r s)
    (hcontrol : s'.control = { s.control.answered with state := retryState s.state })
    (hgeneration : s'.connectGeneration = s.connectGeneration)
    (hpeer : s'.peerClosed = s.peerClosed) (hsession : s'.sessionId = s.sessionId) :
    Accepted r s (s', .ok)
  | heard {s' : RtspSession} {next : RtspState} {result : ReadResult}
    (h : Hears s.state next result) (hretry : ¬Retried r s)
    (hcontrol : s'.control = { s.control.answered with state := next }) :
    Accepted r s (s', result)

/-- The session after a response, with the flags that are cleared then. -/
def relaxed (s : RtspSession) : RtspSession :=
  { s with awaitingResponse := false, awaitingKeepaliveResponse := false }

theorem control_relaxed (s : RtspSession) : (relaxed s).control =
      { s.control with awaitingResponse := false, awaitingKeepaliveResponse := false } := rfl

theorem relaxed_parseHeaders (hp : s.keepalivePending = false) :
    (relaxed (parseHeaders r s)).control = (relaxed s).control := by
  unfold parseHeaders
  cases r.transport with
  | none => split <;> rfl
  | some mode =>
    unfold rtspParseTransportHeader relaxed RtspSession.control
    split <;> simp [hp]

theorem accept_failed {s t : RtspSession}
    (h : rtspParseResponseHeader r (recordAnswer s) = (t, .failed)) :
    acceptResponse r s = (relaxed t, .error) := by
  unfold acceptResponse
  rw [h]
  rfl

theorem accept_redirected {s t : RtspSession}
    (h : rtspParseResponseHeader r (recordAnswer s) = (t, .redirected)) :
    acceptResponse r s = (relaxed t, .ok) := by
  unfold acceptResponse
  rw [h]
  rfl

theorem accept_done {s t : RtspSession}
    (h : rtspParseResponseHeader r (recordAnswer s) = (t, .done)) :
    acceptResponse r s =
      if s.awaitingKeepaliveResponse then (relaxed t, .keepalive) else acceptedState (relaxed t) := by
  unfold acceptResponse
  rw [h]
  rfl

variable {q : RtspState}

theorem reading_cases (h : q ∈ readingStates) (hopen : q ≠ .reconnecting) :
    q ∈ repeatStates ∨ q = .awaitingDescribe ∨
      q = .playing ∨ q = .sendingTeardown ∨ q = .awaitingTeardown := by
  revert q
  decide

theorem played_cases (h : q ∈ playedStates) (hopen : q ≠ .reconnecting) :
    q = .playing ∨ q = .sendingTeardown ∨ q = .awaitingTeardown := by
  revert q
  decide

theorem repeat_not_played (h : q ∈ repeatStates) : q ∉ playedStates := by
  revert q
  decide

theorem acceptedState_retry (h : q ∈ repeatStates) (hs : s.state = retryState q) :
    acceptedState s = (s, .ok) := by
  unfold acceptedState
  rw [hs]
  simp only [repeatStates, List.mem_cons, not_mem_nil, or_false] at h
  rcases h with rfl | rfl | rfl <;> rfl

theorem acceptedState_hears {s t : RtspSession} (hretry : ¬Retried r s)
    (hcontrol : t.control = { s.control.answered with state := q })
    (h : q = s.state ∨ s.state = .awaitingDescribe ∧ q = .awaitingOptions)
    (hreading : s.state ∈ readingStates) (hopen : s.state ≠ .reconnecting) :
    Accepted r s (acceptedState t) := by
  have hstate : t.state = q := congrArg Control.state hcontrol
  have hnext : ∀ next, { t with state := next }.control =
      { s.control.answered with state := next } := by
    intro next
    show { t.control with state := next } = _
    rw [hcontrol]
  unfold acceptedState
  rcases h with rfl | ⟨hfrom, rfl⟩
  · rcases reading_cases hreading hopen with hmem | hq | hq | hq | hq
    · simp only [repeatStates, List.mem_cons, not_mem_nil, or_false] at hmem
      rcases hmem with hq | hq | hq
      · rw [hstate, hq]
        exact .heard (hq ▸ .options) hretry hcontrol
      · rw [hstate, hq]
        exact .heard (hq ▸ .setup) hretry (hnext _)
      · rw [hstate, hq]
        exact .heard (hq ▸ .play) hretry (hnext _)
    · rw [hstate, hq]
      dsimp only
      split
      · exact .heard (hq ▸ .stop (.inr rfl)) hretry (hq ▸ hcontrol)
      split
      · exact .heard (hq ▸ .stop (.inl rfl)) hretry (hq ▸ hcontrol)
      · exact .heard (hq ▸ .describe) hretry (hnext _)
    · rw [hstate, hq]
      exact .heard (.idle (.inl hq)) hretry hcontrol
    · rw [hstate, hq]
      exact .heard (.idle (.inr hq)) hretry hcontrol
    · rw [hstate, hq]
      exact .heard (hq ▸ .teardown) hretry (hnext _)
  · rw [hstate]
    exact .heard (hfrom ▸ .redescribe) hretry hcontrol

theorem accept_unchanged {s t : RtspSession}
    (hdone : rtspParseResponseHeader r (recordAnswer s) = (t, .done)) (hretry : ¬Retried r s)
    (hcontrol : (relaxed t).control = s.control.answered) (hs : Settled s.control)
    (hreading : s.state ∈ readingStates) (hopen : s.state ≠ .reconnecting) :
    Accepted r s (acceptResponse r s) := by
  rw [accept_done hdone]
  split
  · rename_i hk
    exact .heard (.keepalive (played_cases (hs.keepalive hk) hopen)) hretry hcontrol
  · exact acceptedState_hears hretry hcontrol (.inl rfl) hreading hopen

theorem accept_challenge {s t : RtspSession}
    (hdone : rtspParseResponseHeader r (recordAnswer s) = (t, .done))
    (hr : s.state ∈ repeatStates → Retried r s)
    (hcontrol : (relaxed t).control = { s.control.answered with state := retryState s.state })
    (hgeneration : t.connectGeneration = s.connectGeneration) (hpeer : t.peerClosed = s.peerClosed)
    (hsession : t.sessionId = s.sessionId) (hs : Settled s.control)
    (hreading : s.state ∈ readingStates) (hopen : s.state ≠ .reconnecting) :
    Accepted r s (acceptResponse r s) := by
  rw [accept_done hdone]
  by_cases hmem : s.state ∈ repeatStates
  · have hk : ¬s.awaitingKeepaliveResponse = true := fun hk =>
      repeat_not_played hmem (hs.keepalive hk)
    have hstate : (relaxed t).state = retryState s.state := congrArg Control.state hcontrol
    rw [if_neg hk, acceptedState_retry hmem hstate]
    exact .retried (hr hmem) hcontrol hgeneration hpeer hsession
  · have hretry : ¬Retried r s := fun h => hmem h.2.2.2.2
    split
    · rename_i hk
      have hplayed : s.state = .playing ∨ s.state = .sendingTeardown ∨ s.state = .awaitingTeardown :=
        played_cases (hs.keepalive hk) hopen
      have hsame : retryState s.state = s.state := by
        rcases hplayed with hq | hq | hq <;> rw [hq] <;> rfl
      rw [hsame] at hcontrol
      exact .heard (.keepalive hplayed) hretry hcontrol
    · refine acceptedState_hears hretry hcontrol ?_ hreading hopen
      rcases (reading_cases hreading hopen).resolve_left hmem with hq | hq | hq | hq
      · exact .inr ⟨hq, by rw [hq]; rfl⟩
      · exact .inl (by rw [hq]; rfl)
      · exact .inl (by rw [hq]; rfl)
      · exact .inl (by rw [hq]; rfl)

theorem acceptResponse_spec (r : Response) (hlive : s.initialized = true) (hs : Settled s.control)
    (hopen : s.control.Open) (ha : s.awaitingResponse = true) :
    Accepted r s (acceptResponse r s) := by
  have hreading : s.state ∈ readingStates := hs.awaiting ha
  have hclose := Closable.refl hlive hs
  have hrecord : Closable s.control.answered (recordAnswer s) :=
    ⟨hlive, hclose.done, hclose.state, rfl, rfl⟩
  have hp : s.keepalivePending = false := by
    cases hp : s.keepalivePending with
    | false => rfl
    | true => exact absurd ((hs.pending hp).1.symm.trans ha) (by decide)
  by_cases h3xx : 300 ≤ r.status ∧ r.status < 400
  · have hretry : ¬Retried r s := fun h => absurd (h.1 ▸ h3xx.2) (by decide)
    cases hlocation : r.location with
    | none =>
      have hparse : rtspParseResponseHeader r (recordAnswer s) = (recordAnswer s, .failed) := by
        unfold rtspParseResponseHeader
        rw [if_pos h3xx, hlocation]
      rw [accept_failed hparse]
      exact .failed { hrecord with } hretry
    | some redirect =>
      have hparse : rtspParseResponseHeader r (recordAnswer s) =
          rtspHandleRedirect redirect (recordAnswer s) := by
        unfold rtspParseResponseHeader
        rw [if_pos h3xx, hlocation]
      rcases redirect_spec redirect hrecord hopen.2 with
        ⟨s', heq, hs'⟩ | ⟨⟨hcount, hparsed, hdials⟩, s', heq, hcontrol, hgeneration⟩
      · rw [accept_failed (hparse.trans heq)]
        exact .failed { hs' with } hretry
      · rw [accept_redirected (hparse.trans heq)]
        refine .redirected ⟨h3xx, hcount, redirect, hlocation, hparsed, hdials⟩ ?_ hgeneration
        rw [control_relaxed, hcontrol]
        rfl
  by_cases h401 : r.status = 401
  · by_cases hrefused : 2 ≤ s.authRetryCount ∨ r.challenge ≠ some true ∨ s.username = []
    · have hparse : rtspParseResponseHeader r (recordAnswer s) = (recordAnswer s, .failed) := by
        unfold rtspParseResponseHeader
        rw [if_neg h3xx, if_pos h401]
        exact if_pos hrefused
      rw [accept_failed hparse]
      refine .failed { hrecord with } fun h => ?_
      rcases hrefused with hcount | hchallenge | hname
      · exact absurd h.2.1 (Nat.not_lt_of_le hcount)
      · exact hchallenge h.2.2.1
      · exact h.2.2.2.1 hname
    · have hparse : rtspParseResponseHeader r (recordAnswer s) = ({ recordAnswer s with
              authRetryCount := s.authRetryCount + 1
              state := retryState s.state }, .done) := by
        unfold rtspParseResponseHeader
        rw [if_neg h3xx, if_pos h401]
        exact if_neg hrefused
      have hallowed : s.authRetryCount < 2 ∧ r.challenge = some true ∧ s.username ≠ [] := by
        simpa [not_or] using hrefused
      exact accept_challenge hparse
        (fun hmem => ⟨h401, hallowed.1, hallowed.2.1, hallowed.2.2, hmem⟩) rfl rfl rfl rfl hs
        hreading hopen.2
  have hretry : ¬Retried r s := fun h => h401 h.1
  by_cases h200 : r.status = 200
  · have hparse : rtspParseResponseHeader r (recordAnswer s) =
        (parseHeaders r (recordAnswer s), .done) := by
      unfold rtspParseResponseHeader
      rw [if_neg h3xx, if_neg h401, if_neg (not_not.2 h200)]
    exact accept_unchanged hparse hretry (relaxed_parseHeaders hp) hs hreading hopen.2
  · by_cases hunsupported :
        (r.status = 454 ∨ r.status = 501) ∧ s.awaitingKeepaliveResponse ∧ s.useGetParameter
    · have hparse : rtspParseResponseHeader r (recordAnswer s) =
          ({ recordAnswer s with useGetParameter := false, awaitingKeepaliveResponse := false },
            .done) := by
        unfold rtspParseResponseHeader
        rw [if_neg h3xx, if_neg h401, if_pos h200]
        exact if_pos hunsupported
      exact accept_unchanged hparse hretry rfl hs hreading hopen.2
    · have hparse : rtspParseResponseHeader r (recordAnswer s) = (recordAnswer s, .failed) := by
        unfold rtspParseResponseHeader
        rw [if_neg h3xx, if_neg h401, if_pos h200]
        exact if_neg hunsupported
      rw [accept_failed hparse]
      exact .failed { hrecord with } hretry

/-! ## The rest of the event -/

/-- `rtsp_state_machine_advance` after a response, and the media that are read then. -/
def goOn (o : Outcomes) (s : RtspSession) : RtspSession :=
  match advanceOrFail o s with
  | (s, true) => if s.state = .playing then readMedia o s else s
  | (s, false) => s

theorem afterResponse_goOn (ev : PollEvents) (o : Outcomes) (ha : s.awaitingResponse = false) :
    afterResponse ev o .ok s = goOn o s ∧
      afterResponse ev o .advance s = goOn o (setPollerOut true s) := by
  unfold afterResponse
  constructor
  · simp only [reduceCtorEq, false_and, if_false, ha, Bool.false_eq_true]
    rfl
  · simp only [reduceCtorEq, false_and, if_false, if_true, setPollerOut, ha, Bool.false_eq_true]
    rfl

theorem afterResponse_keepalive (ev : PollEvents) (o : Outcomes) (ha : s.awaitingResponse = false) :
    afterResponse ev o .keepalive s = s ∨
      afterResponse ev o .keepalive s = rtspSessionSetState .error s ∨
      afterResponse ev o .keepalive s = goOn o s := by
  unfold afterResponse
  simp only [reduceCtorEq, true_and, if_false]
  split
  · split
    · exact .inr (.inl rfl)
    · exact .inl rfl
  · rw [if_neg (by rw [ha]; decide)]
    exact .inr (.inr rfl)

theorem readMedia_moves {retries redirects : Prop} (o : Outcomes) (hs : Closable s.control s) :
    ControlMoves retries redirects s.control (readMedia o s).control := by
  unfold readMedia
  split
  · exact .single hs.cleanup
  · exact .refl

theorem goOn_idle {retries redirects : Prop} (o : Outcomes) (hs : Closable s.control s)
    (hadvance : rtspStateMachineAdvance o s = (s, .ok)) :
    ControlMoves retries redirects s.control (goOn o s).control := by
  unfold goOn advanceOrFail
  rw [hadvance]
  dsimp only
  split
  · exact readMedia_moves o hs
  · exact .refl

variable {o : Outcomes}

theorem goOn_prepares {kind : RequestKind} {next : RtspState} {s s₀ : RtspSession}
    (h : rtspStateMachineAdvance o s = prepareThen o kind next s₀)
    (hnext : next ≠ .error ∧ next ≠ .playing) (hs : Closable c s₀) :
    (Fits o kind s₀ ∧ (goOn o s).control = s₀.control.prepare (nextRequest o kind s₀) next) ∨
      ¬Fits o kind s₀ ∧ Routine c (goOn o s).control := by
  unfold goOn
  obtain ⟨s', ⟨hfits, heq, hcontrol⟩ | ⟨hfits, heq, hmove⟩⟩ := advanceOrFail_cases h hnext.1 hs
  · have hstate : s'.state = next := congrArg Control.state hcontrol
    rw [heq]
    dsimp only
    rw [if_neg (by rw [hstate]; exact hnext.2)]
    exact .inl ⟨hfits, hcontrol⟩
  · rw [heq]
    exact .inr ⟨hfits, hmove⟩

theorem advance_idle (o : Outcomes)
    (h : s.state = .connecting ∨ s.state = .playing ∨ s.state = .sendingTeardown ∨
      s.state = .awaitingTeardown) : rtspStateMachineAdvance o s = (s, .ok) := by
  unfold rtspStateMachineAdvance
  rcases h with h | h | h | h <;> rw [h]

theorem goOn_follows {retries redirects : Prop} (at_ : RtspState) {kind : RequestKind}
    {next : RtspState} {s s₀ : RtspSession}
    (h : rtspStateMachineAdvance o s = prepareThen o kind next s₀)
    (hfollows : Follows c.state kind next) (ha : c.awaitingResponse = false) (hs : Closable c s₀)
    (hcontrol : s₀.control = { c.setOut true with state := at_, describeWaitingForStun := false }) :
    ControlMoves retries redirects c (goOn o s).control := by
  rcases goOn_prepares h hfollows.next hs with ⟨-, hprepared⟩ | ⟨-, hmove⟩
  · have hfresh := fresh_nextRequest o kind s₀
    generalize nextRequest o kind s₀ = r at hprepared hfresh
    rw [hcontrol] at hprepared hfresh
    rw [hprepared]
    exact .single (.proceed hfollows ha ⟨hfresh.kind, hfresh.cseq, hfresh.text⟩)
  · exact .single hmove

theorem control_stunCheckTimeout (o : Outcomes) (s : RtspSession) :
    (stunCheckTimeout o s).control = s.control := by
  unfold stunCheckTimeout
  split <;> rfl

theorem advance_awaitingOptions (o : Outcomes) (h : s.state = .awaitingOptions) :
    rtspStateMachineAdvance o s = if (stunCheckTimeout o s).stunInProgress then
        ({ stunCheckTimeout o s with describeWaitingForStun := true }, .ok)
      else
        prepareThen o .describe .sendingDescribe
          { stunCheckTimeout o s with describeWaitingForStun := false } := by
  unfold rtspStateMachineAdvance
  rw [h]

theorem goOn_describe {retries redirects : Prop} (o : Outcomes)
    (hstate : s.state = .awaitingOptions) (ha : s.awaitingResponse = false)
    (hs : Closable s.control s) :
    ControlMoves retries redirects s.control (goOn o (setPollerOut true s)).control := by
  have hcheck := control_stunCheckTimeout o (setPollerOut true s)
  have hadvance := advance_awaitingOptions o (s := setPollerOut true s) hstate
  generalize stunCheckTimeout o (setPollerOut true s) = u at hcheck hadvance
  by_cases hstun : u.stunInProgress = true
  · rw [if_pos hstun] at hadvance
    have hidle : u.state = .awaitingOptions := (congrArg Control.state hcheck).trans hstate
    unfold goOn advanceOrFail
    rw [hadvance]
    dsimp only
    rw [if_neg (by rw [hidle]; decide)]
    have hparked : { u with describeWaitingForStun := true }.control =
        { s.control.setOut true with describeWaitingForStun := true } := by
      show { u.control with describeWaitingForStun := true } = _
      rw [hcheck]
      rfl
    rw [hparked]
    exact (ControlMoves.single (.arm ha)).tail (.inl (.park hstate ha))
  · rw [if_neg hstun] at hadvance
    have hfollows : Follows s.control.state .describe .sendingDescribe := by
      show Follows s.state _ _
      rw [hstate]
      exact .describe
    refine goOn_follows .awaitingOptions hadvance hfollows ha ?_ ?_
    · exact .of_control (k := { s.control.setOut true with describeWaitingForStun := false })
        (by
          show { u.control with describeWaitingForStun := false } = _
          rw [hcheck]
          rfl) hs.live hs.done hs.state rfl rfl
    · show { u.control with describeWaitingForStun := false } = _
      rw [hcheck, control_setPollerOut]
      rw [← hstate]
      rfl

variable {result : ReadResult}

theorem Hears.closable {next : RtspState} (h : Hears c.state next result)
    (hcontrol : s.control = { c with state := next }) (hlive : c.initialized = true)
    (hdone : c.cleanupDone = false) : Closable c s := by
  refine .of_control hcontrol hlive hdone ?_ rfl rfl
  show next ≠ .error
  generalize c.state = q at h
  rcases h with ⟨rfl | rfl | rfl⟩ | ⟨rfl | rfl⟩ | _ | _ | _ | _ | _ | _ | _ <;> decide

theorem setOut_unparked (h : c.describeWaitingForStun = false) : { c with state := q }.setOut true =
      { c.setOut true with state := q, describeWaitingForStun := false } := by
  cases c
  cases h
  rfl

theorem Hears.not_error {q next : RtspState} (h : Hears q next result) : result ≠ .error := by
  cases h with
  | stop hends => rcases hends with rfl | rfl <;> decide
  | _ => decide

theorem afterHeard_moves {retries redirects : Prop} {next : RtspState}
    (h : Hears c.state next result) (hcontrol : s.control = { c with state := next })
    (hlive : c.initialized = true) (hc : Settled c) (ha : c.awaitingResponse = false)
    (hstop : result ≠ .duration ∧ result ≠ .metadataReady) :
    ControlMoves retries redirects c (afterResponse ev o result s).control := by
  have hclose := h.closable hcontrol hlive (by simpa [hlive] using hc.live)
  have hunparked : c.state ≠ .awaitingOptions → c.describeWaitingForStun = false := fun hne =>
    (hc.not_parked hne).resolve_right (by rw [hlive]; decide)
  have hself : Closable s.control s := { hclose with prepared := rfl, answers := rfl }
  have hstate : s.state = next := congrArg Control.state hcontrol
  have ha' : s.awaitingResponse = false := (congrArg Control.awaitingResponse hcontrol).trans ha
  obtain ⟨hok, hadvance⟩ := afterResponse_goOn ev o ha'
  generalize hq : c.state = q at h
  cases h with
  | keepalive hplayed =>
    have hsame : s.control = c := by rw [hcontrol, ← hq]
    rw [← hsame]
    rcases afterResponse_keepalive ev o ha' with heq | heq | heq
    · rw [heq]
      exact .refl
    · rw [heq]
      exact .single hself.fail
    · rw [heq]
      exact goOn_idle o hself (advance_idle o (.inr (by rw [hstate]; exact hplayed)))
  | idle hplayed =>
    have hsame : s.control = c := by rw [hcontrol, ← hq]
    rw [hok, ← hsame]
    refine goOn_idle o hself (advance_idle o (.inr ?_))
    rw [hstate]
    exact hplayed.imp_right .inl
  | options =>
    have hsame : s.control = c := by rw [hcontrol, ← hq]
    rw [hadvance, ← hsame]
    exact goOn_describe o hstate ha' hself
  | stop hends => exact absurd hends (not_or.2 hstop)
  | describe =>
    rw [hadvance]
    refine goOn_follows .described (advance_described o hstate) (hq ▸ .setup) ha { hclose with } ?_
    show s.control.setOut true = _
    rw [hcontrol]
    exact setOut_unparked (hunparked (by rw [hq]; decide))
  | redescribe =>
    rw [hadvance]
    have hgo : ControlMoves retries redirects _ _ := goOn_describe o hstate ha' hself
    rw [hcontrol] at hgo
    exact (ControlMoves.single (.retreat hq ha)).trans hgo
  | setup =>
    rw [hadvance]
    refine goOn_follows .setup (advance_setup o hstate) (hq ▸ .play) ha { hclose with } ?_
    rw [control_setPollerOut, hcontrol]
    exact setOut_unparked (hunparked (by rw [hq]; decide))
  | play =>
    rw [hok]
    have hgo : ControlMoves retries redirects _ _ :=
      goOn_idle o hself (advance_idle o (.inr (.inl hstate)))
    rw [hcontrol] at hgo
    exact (ControlMoves.single (.play hq ha)).trans hgo
  | teardown =>
    have hgone : advanceOrFail o s = (rtspForceCleanup s, false) := by
      unfold advanceOrFail rtspStateMachineAdvance
      rw [hstate]
    rw [hok]
    unfold goOn
    rw [hgone]
    exact .single hclose.cleanup

/-- The request that 401 repeats. -/
def repeatedKind : RtspState → RequestKind
  | .awaitingSetup => .setup
  | .awaitingPlay => .play
  | _ => .options

theorem repeatedKind_ne (q : RtspState) : repeatedKind q ≠ .keepalive := by cases q <;> decide

theorem goOn_repeats (o : Outcomes) (hq : c.state ∈ repeatStates)
    (hcontrol : s.control = { c with state := retryState c.state }) (hlive : c.initialized = true)
    (hc : Settled c) (ha : c.awaitingResponse = false) (hwait : c.describeWaitingForStun = false) :
    (Fits o (repeatedKind c.state) s ∧ RetryUnarmed c (goOn o s).control) ∨
      ¬Fits o (repeatedKind c.state) s ∧ Routine c (goOn o s).control := by
  have hdone : c.cleanupDone = false := by simpa [hlive] using hc.live
  have hstate : s.state = retryState c.state := congrArg Control.state hcontrol
  have hrepeat : ∀ kind next s₀, Repeats c.state kind next →
      rtspStateMachineAdvance o s = prepareThen o kind next s₀ →
      s₀.control = s.control → s₀.sessionId = s.sessionId → retryState c.state ≠ .error →
      (Fits o kind s ∧ RetryUnarmed c (goOn o s).control) ∨
        ¬Fits o kind s ∧ Routine c (goOn o s).control := by
    intro kind next s₀ hrepeats hadvance heq hsession hne
    have hclose : Closable c s₀ := .of_control (heq.trans hcontrol) hlive hdone hne rfl rfl
    rw [← fits_congr hrepeats.kind (congrArg Control.cseq heq) hsession]
    refine (goOn_prepares hadvance hrepeats.next hclose).imp_left fun hfits => ⟨hfits.1, ?_⟩
    have hfresh := fresh_nextRequest o kind s₀
    rw [hfits.2, heq, hcontrol]
    rw [heq, hcontrol] at hfresh
    exact .mk hrepeats ha hwait ⟨hfresh.kind, hfresh.cseq, hfresh.text⟩
  generalize c.state = q at hq hstate hrepeat ⊢
  simp only [repeatStates, List.mem_cons, not_mem_nil, or_false] at hq
  rcases hq with rfl | rfl | rfl
  · exact hrepeat _ _ s .options (advance_connected o hstate) rfl rfl (by decide)
  · exact hrepeat _ _ _ .setup (advance_described o hstate) rfl rfl (by decide)
  · exact hrepeat _ _ s .play (advance_setup o hstate) rfl rfl (by decide)

/-! ## The readable socket -/

/-- A response 401 is read, and the request that is repeated fits the buffer. -/
def RetriesUnarmed (ev : PollEvents) (o : Outcomes) (s : RtspSession) : Prop :=
  ev.input = true ∧ s.awaitingResponse = true ∧ ev.hangup = false ∧
    ∃ r, heard ev o.receives s.peerClosed = some (r, false) ∧ Retried r s ∧
      Fits o (repeatedKind s.state) s

/-- A redirect is read and followed. -/
def Redirects (ev : PollEvents) (o : Outcomes) (s : RtspSession) : Prop :=
  ev.input = true ∧ s.awaitingResponse = true ∧
    ∃ r closed, heard ev o.receives s.peerClosed = some (r, closed) ∧ RedirectFollowed r s

instance (ev : PollEvents) (o : Outcomes) (s : RtspSession) : Decidable (Redirects ev o s) :=
  decidable_of_iff
    (ev.input = true ∧ s.awaitingResponse = true ∧
      ∃ p, heard ev o.receives s.peerClosed = some p ∧ RedirectFollowed p.1 s)
    (by simp [Redirects])

theorem readResponse_goes {s s' : RtspSession} (h : receiveLoop ev o.receives s = (s', result))
    (hresult : result ≠ .error ∧ result ≠ .duration ∧ result ≠ .metadataReady) :
    readResponse ev o s =
      if s'.connectGeneration = s.connectGeneration ∧ (s'.peerClosed ∨ ev.hangup) ∧
          !playingTcp s' then rtspHandleTerminalSocketEvent s'
      else afterResponse ev o result s' := by
  unfold readResponse
  rw [h]
  cases result with
  | error => exact absurd rfl hresult.1
  | duration => exact absurd rfl hresult.2.1
  | metadataReady => exact absurd rfl hresult.2.2
  | _ => rfl

theorem readResponse_fails {s s' : RtspSession} (h : receiveLoop ev o.receives s = (s', .error))
    (hs : Closable c s') : Routine c (readResponse ev o s).control := by
  unfold readResponse
  rw [h]
  exact hs.fail

theorem readResponse_unheard {retries redirects : Prop} (hlive : s.initialized = true)
    (hs : Settled s.control) (ha : s.awaitingResponse = true)
    (h : heard ev o.receives s.peerClosed = none) :
    ControlMoves retries redirects s.control (readResponse ev o s).control := by
  have hclose := Closable.refl hlive hs
  rcases receiveLoop_unheard ha hclose h with ⟨closed, heq⟩ | ⟨s', heq, hs'⟩
  · rw [readResponse_goes heq ⟨nofun, nofun, nofun⟩]
    split
    · exact .single (terminal_move { hclose with })
    · have hwaits : afterResponse ev o .ok { s with peerClosed := closed } =
          { s with peerClosed := closed } := by
        unfold afterResponse
        simp [reduceCtorEq, false_and, ha]
      rw [hwaits]
      exact .refl
  · exact .single (readResponse_fails heq hs')

theorem Settled.not_waiting (hc : Settled c) (hlive : c.initialized = true)
    (ha : c.awaitingResponse = true) : c.describeWaitingForStun = false := by
  cases hwait : c.describeWaitingForStun with
  | false => rfl
  | true => exact absurd ((hc.parked hlive hwait).2.symm.trans ha) (by decide)

theorem Settled.not_pending (hc : Settled c) (ha : c.awaitingResponse = true) :
    c.keepalivePending = false := by
  cases hp : c.keepalivePending with
  | false => rfl
  | true => exact absurd ((hc.pending hp).1.symm.trans ha) (by decide)

theorem readResponse_redirected {s s' : RtspSession} (h : receiveLoop ev o.receives s = (s', .ok))
    (hcontrol : s'.control = c.dialed .connecting) (ha : c.awaitingResponse = false)
    (hgeneration : s'.connectGeneration = s.connectGeneration + 1) : readResponse ev o s = s' := by
  have hstate : s'.state = .connecting := congrArg Control.state hcontrol
  have ha' : s'.awaitingResponse = false := (congrArg Control.awaitingResponse hcontrol).trans ha
  have hgo : goOn o s' = s' := by
    unfold goOn advanceOrFail
    rw [advance_idle o (.inl hstate)]
    dsimp only
    rw [if_neg (by rw [hstate]; decide)]
  rw [readResponse_goes h ⟨nofun, nofun, nofun⟩, hgeneration,
    if_neg fun hsame => Nat.succ_ne_self _ hsame.1, (afterResponse_goOn ev o ha').1, hgo]

theorem readResponse_retried {s s' : RtspSession} (h : receiveLoop ev o.receives s = (s', .ok))
    (hq : c.state ∈ repeatStates) (hcontrol : s'.control = { c with state := retryState c.state })
    (hlive : c.initialized = true) (hc : Settled c) (ha : c.awaitingResponse = false)
    (hwait : c.describeWaitingForStun = false)
    (hgeneration : s'.connectGeneration = s.connectGeneration) :
    ((s'.peerClosed = false ∧ ev.hangup = false) ∧ Fits o (repeatedKind c.state) s' ∧
        RetryUnarmed c (readResponse ev o s).control) ∨
      ¬((s'.peerClosed = false ∧ ev.hangup = false) ∧ Fits o (repeatedKind c.state) s') ∧
        Routine c (readResponse ev o s).control := by
  have hretry : ∀ q ∈ repeatStates, retryState q ≠ .error ∧ retryState q ≠ .playing := by decide
  have ha' : s'.awaitingResponse = false := (congrArg Control.awaitingResponse hcontrol).trans ha
  have hstate : s'.state = retryState c.state := congrArg Control.state hcontrol
  rw [readResponse_goes h ⟨nofun, nofun, nofun⟩]
  by_cases hends : s'.peerClosed = true ∨ ev.hangup = true
  · have hmedia : playingTcp s' = false := by
      unfold playingTcp
      rw [hstate]
      exact decide_eq_false fun hp => (hretry _ hq).2 hp.1
    rw [if_pos ⟨hgeneration, hends, by rw [hmedia]; rfl⟩]
    refine .inr ⟨fun hgoes => ?_, terminal_move (.of_control hcontrol hlive
      (by simpa [hlive] using hc.live) (hretry _ hq).1 rfl rfl)⟩
    rcases hends with hpeer | hhangup
    · exact absurd (hgoes.1.1.symm.trans hpeer) (by decide)
    · exact absurd (hgoes.1.2.symm.trans hhangup) (by decide)
  · have hgoes : s'.peerClosed = false ∧ ev.hangup = false := by simpa [not_or] using hends
    rw [if_neg fun hand => hends hand.2.1, (afterResponse_goOn ev o ha').1]
    rcases goOn_repeats o hq hcontrol hlive hc ha hwait with ⟨hfits, hmove⟩ | ⟨hfits, hmove⟩
    · exact .inl ⟨hgoes, hfits, hmove⟩
    · exact .inr ⟨fun hand => hfits hand.2, hmove⟩

theorem readResponse_hears {retries redirects : Prop} {s s' : RtspSession} {next : RtspState}
    (h : receiveLoop ev o.receives s = (s', result)) (hhears : Hears c.state next result)
    (hcontrol : s'.control = { c with state := next }) (hlive : c.initialized = true)
    (hc : Settled c) (ha : c.awaitingResponse = false) :
    ControlMoves retries redirects c (readResponse ev o s).control := by
  have hclose := hhears.closable hcontrol hlive (by simpa [hlive] using hc.live)
  by_cases hstop : result = .duration ∨ result = .metadataReady
  · have hstay : readResponse ev o s = s' := by
      unfold readResponse
      rw [h]
      rcases hstop with rfl | rfl <;> rfl
    have hsame : next = c.state := by
      generalize c.state = q at hhears
      rcases hstop with rfl | rfl <;> cases hhears <;> rfl
    rw [hstay, hcontrol, hsame]
    exact .refl
  · rw [readResponse_goes h ⟨hhears.not_error, not_or.1 hstop⟩]
    split
    · exact .single (terminal_move hclose)
    · exact afterHeard_moves hhears hcontrol hlive hc ha (not_or.1 hstop)

theorem readPhase_moves (ev : PollEvents) (o : Outcomes) (hlive : s.initialized = true)
    (hs : Settled s.control) (hopen : s.control.Open) :
    ControlMoves (RetriesUnarmed ev o s) (Redirects ev o s) s.control (readPhase ev o s).control ∧
      (RetriesUnarmed ev o s → RetryUnarmed s.control.answered (readPhase ev o s).control) := by
  have hclose := Closable.refl hlive hs
  unfold readPhase
  cases hinput : ev.input with
  | false => exact ⟨.refl, fun h => absurd (hinput.symm.trans h.1) (by decide)⟩
  | true =>
    rw [if_neg (by decide)]
    cases ha : s.awaitingResponse with
    | false =>
      refine ⟨?_, fun h => absurd (ha.symm.trans h.2.1) (by decide)⟩
      rw [if_neg (by decide)]
      split
      · exact readMedia_moves o hclose
      · exact .refl
    | true =>
      rw [if_pos rfl]
      cases hheard : heard ev o.receives s.peerClosed with
      | none =>
        refine ⟨readResponse_unheard hlive hs ha hheard, fun h => ?_⟩
        obtain ⟨-, -, -, r, hr, -⟩ := h
        cases hheard.symm.trans hr
      | some p =>
        obtain ⟨r, closed⟩ := p
        have hloop := receiveLoop_heard ha hheard
        have hmove : Routine s.control s.control.answered := .answer hopen ha
        have hc := hmove.settled hs
        have haccepted := acceptResponse_spec r (s := { s with peerClosed := closed }) hlive hs
          hopen ha
        have honly : ∀ r', heard ev o.receives s.peerClosed = some (r', false) →
            r' = r ∧ closed = false := fun r' hr' => by
          obtain ⟨rfl, rfl⟩ := Prod.mk.inj (Option.some.inj (hheard.symm.trans hr'))
          exact ⟨rfl, rfl⟩
        generalize acceptResponse r { s with peerClosed := closed } = p at hloop haccepted
        cases haccepted with
        | failed hs' hretry =>
          exact ⟨(ControlMoves.single hmove).tail (.inl (readResponse_fails hloop hs')),
            fun ⟨_, _, _, r', hr', h, _⟩ => absurd ((honly r' hr').1 ▸ h) hretry⟩
        | redirected hfollowed hcontrol hgeneration =>
          have hend := readResponse_redirected hloop hcontrol rfl hgeneration
          have hredirected : Redirected s.control.answered (s.control.answered.dialed .connecting) :=
            .mk hlive hopen rfl (hs.not_pending ha) rfl (hs.not_waiting hlive ha)
          rw [hend, hcontrol]
          refine ⟨(ControlMoves.single hmove).tail (.inr (.inr ⟨?_, hredirected⟩)), ?_⟩
          · exact ⟨hinput, ha, r, closed, hheard, hfollowed⟩
          · rintro ⟨-, -, -, r', hr', h, -⟩
            have hstatus : r.status = 401 := (honly r' hr').1 ▸ h.1
            exact absurd (hstatus ▸ hfollowed.1.2) (by decide)
        | @retried s' hretried hcontrol hgeneration hpeer hsession =>
          have hfits : Fits o (repeatedKind s.state) s' ↔ Fits o (repeatedKind s.state) s :=
            fits_congr (repeatedKind_ne s.state) (congrArg Control.cseq hcontrol) hsession
          rcases readResponse_retried hloop hretried.2.2.2.2 hcontrol hlive hc rfl
              (hs.not_waiting hlive ha) hgeneration with ⟨hgoes, hfit, hunarmed⟩ | ⟨hnot, hroutine⟩
          · obtain rfl : closed = false := hpeer.symm.trans hgoes.1
            have hretries : RetriesUnarmed ev o s :=
              ⟨hinput, ha, hgoes.2, r, hheard, hretried, hfits.1 hfit⟩
            exact ⟨(ControlMoves.single hmove).tail (.inr (.inl ⟨hretries, hunarmed⟩)),
              fun _ => hunarmed⟩
          · refine ⟨(ControlMoves.single hmove).tail (.inl hroutine), ?_⟩
            rintro ⟨-, -, hhangup, r', hr', -, hfit⟩
            exact absurd ⟨⟨hpeer.trans (honly r' hr').2, hhangup⟩, hfits.2 hfit⟩ hnot
        | heard hhears hretry hcontrol =>
          exact ⟨(ControlMoves.single hmove).trans
              (readResponse_hears hloop hhears hcontrol hlive hc rfl),
            fun ⟨_, _, _, r', hr', h, _⟩ => absurd ((honly r' hr').1 ▸ h) hretry⟩

end Apackage.Rtp2httpd.Rtsp
