import Apackage.Rtp2httpd.Rtsp.Control

/-
  Every event of a session is a sequence of moves of its control connection.
-/

namespace Apackage.Rtp2httpd.Rtsp

open Option Lib.Run Control

/-! ## Closing -/

/-- A session that can be closed from `c`: it is live, and has prepared and heard the same. -/
structure Closable (c : Control) (s : RtspSession) : Prop where
  live : s.initialized = true
  done : s.cleanupDone = false
  state : s.state ≠ .error
  prepared : s.prepared = c.prepared
  answers : s.answers = c.answers

variable {s : RtspSession}

theorem Closable.refl (hlive : s.initialized = true) (hs : Settled s.control) :
    Closable s.control s := by
  have hdone : s.initialized = !s.cleanupDone := hs.live
  refine ⟨hlive, ?_, fun heq => ?_, rfl, rfl⟩
  · simpa [hlive] using hdone
  · have hrests : s.state ∈ restStates := hs.rests
    rw [heq] at hrests
    exact absurd hrests (by decide)

theorem Closable.of_control {c k : Control} (h : s.control = k) (hlive : k.initialized = true)
    (hdone : k.cleanupDone = false) (hstate : k.state ≠ .error)
    (hprepared : k.prepared = c.prepared) (hanswers : k.answers = c.answers) : Closable c s := by
  subst h
  exact ⟨hlive, hdone, hstate, hprepared, hanswers⟩

variable {c : Control}

theorem Closable.cleanup (h : Closable c s) : Routine c (rtspForceCleanup s).control := by
  have heq : (rtspForceCleanup s).control = { c.closed with
        cseq := s.cseq
        numbered := s.numbered
        pendingRequest := s.pendingRequest
        describeWaitingForStun := s.describeWaitingForStun } := by
    unfold rtspForceCleanup RtspSession.control Control.closed
    simp [h.live, h.prepared, h.answers]
  rw [heq]
  exact .close c _ _ _ _

theorem Closable.fail (h : Closable c s) : Routine c (rtspSessionSetState .error s).control := by
  unfold rtspSessionSetState
  rw [if_neg h.state, if_pos ⟨rfl, h.done⟩]
  have heq : (rtspForceCleanup { s with state := .error }).control =
      (rtspForceCleanup s).control := by
    unfold rtspForceCleanup RtspSession.control
    simp [h.live]
  rw [heq]
  exact h.cleanup

theorem setState_of_ne {new : RtspState} (h : new ≠ .error) (s : RtspSession) :
    rtspSessionSetState new s = { s with state := new } := by
  unfold rtspSessionSetState
  split
  · rename_i heq
    rw [← heq]
  · rw [if_neg fun hand => h hand.1]

/-! ## Connecting -/

variable {cs : List Candidate}

theorem tryNext_ok {s s' : RtspSession} (h : rtspTryNextCandidate s cs = (s', true)) :
    s'.control = s.control.dialed (if s.state = .reconnecting then .reconnecting else .connecting) := by
  induction cs generalizing s with
  | nil => cases h
  | cons candidate cs ih =>
    cases candidate with
    | refused => exact ih h
    | opens switchesFamily polled =>
      simp only [rtspTryNextCandidate] at h
      split at h
      · cases h
      · obtain rfl := congrArg Prod.fst h
        rw [setState_of_ne (by decide)]
        by_cases hsw : (s.rtpSocket && switchesFamily) = true
        · simp only [if_pos hsw]
          by_cases hr : s.state = .reconnecting
          · simp [hr, RtspSession.control, dialed]
          · simp [hr, RtspSession.control, dialed]
        · simp only [if_neg hsw]
          by_cases hr : s.state = .reconnecting
          · simp [hr, RtspSession.control, dialed]
          · simp [hr, RtspSession.control, dialed]

theorem tryNext_failed {s s' : RtspSession} (h : rtspTryNextCandidate s cs = (s', false))
    (hs : Closable c s) : Closable c s' := by
  induction cs generalizing s with
  | nil =>
    obtain rfl := congrArg Prod.fst h
    exact { hs with }
  | cons candidate cs ih =>
    cases candidate with
    | refused => exact ih h hs
    | opens switchesFamily polled =>
      simp only [rtspTryNextCandidate] at h
      split at h
      · obtain rfl := congrArg Prod.fst h
        split
        · exact { hs with }
        · exact { hs with }
      · cases h

theorem connectFailure_moves {s s' : RtspSession} {ok : Bool}
    (h : rtspHandleConnectFailure s = (s', ok)) (hlive : s.initialized = true)
    (hs : Settled s.control) (hopen : ¬s.control.Open) :
    Routine s.control (if ok then s' else rtspSessionSetState .error s').control := by
  cases ok with
  | true =>
    have hdial := tryNext_ok h
    have hstate : (if s.state = .reconnecting then RtspState.reconnecting else .connecting) =
        s.state := by
      by_cases hr : s.state = .reconnecting
      · rw [if_pos hr, hr]
      · rw [if_neg hr]
        by_contra hne
        exact hopen ⟨fun heq => hne heq.symm, hr⟩
    rw [if_pos rfl, hdial]
    rw [hstate]
    exact .redial hlive hopen
  | false => exact (tryNext_failed h { Closable.refl hlive hs with }).fail

theorem connect_ok {c : ConnectOutcome} {s s' : RtspSession} (h : rtspConnect c s = (s', true)) :
    s'.control = s.control.dialed (if s.state = .reconnecting then .reconnecting else .connecting) := by
  unfold rtspConnect at h
  split at h
  · cases h
  · rw [tryNext_ok h]
    split <;> rfl

theorem connect_failed {c : ConnectOutcome} {s s' : RtspSession} {k : Control}
    (h : rtspConnect c s = (s', false)) (hs : Closable k s) : Closable k s' := by
  unfold rtspConnect at h
  split at h
  · obtain rfl := congrArg Prod.fst h
    exact { hs with }
  · refine tryNext_failed h ?_
    split
    · exact { hs with }
    · exact { hs with }

/-! ## Requests -/

theorem requestText_ne_nil (kind : RequestKind) (s : RtspSession) (t : RequestTexts) :
    requestText kind s t ≠ [] := by
  intro h
  have hlast := congrArg List.length h
  simp [requestText, crlf] at hlast

theorem requestText_congr {kind : RequestKind} {s s' : RtspSession} {t : RequestTexts}
    (hkind : kind ≠ .keepalive) (hcseq : s'.cseq = s.cseq) (hsession : s'.sessionId = s.sessionId) :
    requestText kind s' t = requestText kind s t := by
  have hmethod : methodText kind s'.useGetParameter = methodText kind s.useGetParameter := by
    cases kind with
    | keepalive => exact absurd rfl hkind
    | _ => rfl
  unfold requestText
  rw [hmethod, hcseq, hsession]

def nextRequest (o : Outcomes) (kind : RequestKind) (s : RtspSession) : RtspRequest :=
  ⟨kind, s.cseq, requestText kind s (o.texts kind)⟩

variable (o : Outcomes)

theorem fresh_nextRequest (kind : RequestKind) (s : RtspSession) :
    Fresh (nextRequest o kind s) kind s.control :=
  ⟨rfl, rfl, requestText_ne_nil kind s _⟩

/-- The request fits the buffer. -/
def Fits (o : Outcomes) (kind : RequestKind) (s : RtspSession) : Prop :=
  (requestText kind s (o.texts kind)).length < rtspRequestBufferSize

theorem fits_congr {o : Outcomes} {kind : RequestKind} {s s' : RtspSession}
    (hkind : kind ≠ .keepalive) (hcseq : s'.cseq = s.cseq) (hsession : s'.sessionId = s.sessionId) :
    Fits o kind s' ↔ Fits o kind s := by
  unfold Fits
  rw [requestText_congr hkind hcseq hsession]

/-- The session after a request has been prepared. -/
def withRequest (r : RtspRequest) (s : RtspSession) : RtspSession :=
  { s with
    cseq := s.cseq + 1
    numbered := s.numbered + 1
    pendingRequest := r
    pendingRequestLen := r.text.length
    pendingRequestSent := 0
    prepared := s.prepared ++ [r] }

theorem prepareRequest_fits {o : Outcomes} {kind : RequestKind} (h : Fits o kind s) :
    rtspPrepareRequest o kind s = (withRequest (nextRequest o kind s) s, true) := by
  unfold rtspPrepareRequest withRequest nextRequest
  dsimp only
  rw [if_neg (Nat.not_le_of_lt h)]

theorem prepareThen_fits {o : Outcomes} {kind : RequestKind} (next : RtspState) (h : Fits o kind s)
    (hnext : next ≠ .error) :
    (prepareThen o kind next s).2 = .ok ∧
      (prepareThen o kind next s).1.control = s.control.prepare (nextRequest o kind s) next := by
  unfold prepareThen
  rw [prepareRequest_fits h]
  dsimp only
  rw [setState_of_ne hnext]
  generalize nextRequest o kind s = r
  exact ⟨rfl, rfl⟩

theorem prepareThen_too_long {o : Outcomes} {kind : RequestKind} (next : RtspState)
    (h : ¬Fits o kind s) (hs : Closable c s) :
    (prepareThen o kind next s).2 = .failed ∧ Closable c (prepareThen o kind next s).1 := by
  unfold prepareThen rtspPrepareRequest
  rw [if_pos (Nat.le_of_not_lt h)]
  exact ⟨rfl, { hs with }⟩

theorem advanceOrFail_cases {o : Outcomes} {kind : RequestKind} {next : RtspState}
    {s s₀ : RtspSession} (h : rtspStateMachineAdvance o s = prepareThen o kind next s₀)
    (hnext : next ≠ .error) (hs : Closable c s₀) : ∃ s',
      (Fits o kind s₀ ∧ advanceOrFail o s = (s', true) ∧
        s'.control = s₀.control.prepare (nextRequest o kind s₀) next) ∨
      (¬Fits o kind s₀ ∧ advanceOrFail o s = (s', false) ∧ Routine c s'.control) := by
  unfold advanceOrFail
  rw [h]
  by_cases hfits : Fits o kind s₀
  · obtain ⟨hok, hcontrol⟩ := prepareThen_fits next hfits hnext
    generalize prepareThen o kind next s₀ = p at *
    obtain ⟨s', result⟩ := p
    obtain rfl : result = .ok := hok
    exact ⟨s', .inl ⟨hfits, rfl, hcontrol⟩⟩
  · obtain ⟨hfailed, hs'⟩ := prepareThen_too_long next hfits hs
    generalize prepareThen o kind next s₀ = p at *
    obtain ⟨s', result⟩ := p
    obtain rfl : result = .failed := hfailed
    exact ⟨_, .inr ⟨hfits, rfl, hs'.fail⟩⟩

theorem advance_connected (h : s.state = .connected) :
    rtspStateMachineAdvance o s = prepareThen o .options .sendingOptions s := by
  unfold rtspStateMachineAdvance
  rw [h]

theorem advance_reconnecting (h : s.state = .reconnecting) (ht : s.teardownRequested = true) :
    rtspStateMachineAdvance o s = prepareThen o .teardown .sendingTeardown s := by
  unfold rtspStateMachineAdvance
  rw [h]
  exact if_pos ht

theorem advance_described (h : s.state = .described) : rtspStateMachineAdvance o s =
      prepareThen o .setup .sendingSetup { s with rtpSocket := s.rtpSocket || o.connect.udpOpens } := by
  unfold rtspStateMachineAdvance
  rw [h]

theorem advance_setup (h : s.state = .setup) :
    rtspStateMachineAdvance o s = prepareThen o .play .sendingPlay s := by
  unfold rtspStateMachineAdvance
  rw [h]

/-! ## The phases of a socket event -/

theorem control_setPollerOut (out : Bool) (s : RtspSession) :
    (setPollerOut out s).control = s.control.setOut out := rfl

theorem ControlMoves.single {retries redirects : Prop} {c c' : Control} (h : Routine c c') :
    ControlMoves retries redirects c c' := Relation.ReflTransGen.single (.inl h)

/-- What a phase of an event leaves: a connection that `R` relates to the one before, and that
    is open if the event goes on. -/
structure Phase (R : Control → Control → Prop) (c : Control) (r : RtspSession × Bool) : Prop where
  moves : R c r.1.control
  live : r.2 = true → r.1.initialized = true
  connected : r.2 = true → r.1.socket ≠ none
  opened : r.2 = true → r.1.control.Open

theorem Phase.ended {R : Control → Control → Prop} {c : Control} {s : RtspSession}
    (h : R c s.control) : Phase R c (s, false) :=
  ⟨h, nofun, nofun, nofun⟩

theorem Phase.going {R : Control → Control → Prop} {c k : Control} (h : s.control = k)
    (hmoves : R c k) (hlive : k.initialized = true) (hsocket : k.socket ≠ none) (hopen : k.Open) :
    Phase R c (s, true) := by
  subst h
  exact ⟨hmoves, fun _ => hlive, fun _ => hsocket, fun _ => hopen⟩

/-- One move, or none. -/
def AtMostOne : Control → Control → Prop := Relation.ReflGen Routine

theorem AtMostOne.moves {retries redirects : Prop} {c c' : Control} (h : AtMostOne c c') :
    ControlMoves retries redirects c c' := by
  cases h with
  | refl => exact .refl
  | single hmove => exact .single hmove

theorem terminal_move (h : Closable c s) : Routine c (rtspHandleTerminalSocketEvent s).control := by
  unfold rtspHandleTerminalSocketEvent
  split
  · exact h.cleanup
  · exact h.fail

theorem connectionMade_control (s : RtspSession) : (connectionMade o s).control =
      { s.control.setOut true with
        state := if s.state = .reconnecting then .reconnecting else .connected } := by
  unfold connectionMade
  dsimp only
  split
  · rename_i hstate
    have hstate : s.state = .reconnecting := hstate
    simp [setPollerOut, RtspSession.control, setOut, hstate]
  · rename_i hstate
    have hstate : s.state ≠ .reconnecting := hstate
    rw [setState_of_ne (by decide)]
    simp [setPollerOut, RtspSession.control, setOut, hstate]

theorem prepare_made (c : Control) (r : RtspRequest) (made next : RtspState) :
    ({ c.setOut true with state := made }).prepare r next = (c.prepare r next).setOut true := rfl

theorem connectionMade_closable {s t : RtspSession} (hlive : s.initialized = true)
    (hs : Settled s.control) {made : RtspState} (hmade : made ≠ .error)
    (hcontrol : t.control = { s.control.setOut true with state := made }) :
    Closable s.control t :=
  .of_control hcontrol hlive (Closable.refl hlive hs).done hmade rfl rfl

theorem made_going {s t s' : RtspSession} {r : RtspRequest}
    {made next : RtspState} (hcontrol : t.control = { s.control.setOut true with state := made })
    (hprepared : s'.control = t.control.prepare r next) (hlive : s.initialized = true)
    (hsocket : s.socket ≠ none) (hmove : Routine s.control ((s.control.prepare r next).setOut true))
    (hopen : next ≠ .connecting ∧ next ≠ .reconnecting) :
    Phase AtMostOne s.control (s', true) := by
  rw [hcontrol, prepare_made] at hprepared
  exact .going hprepared (.single hmove) hlive
    (fun hnone => hsocket (map_eq_none_iff.1 hnone)) hopen

theorem connectionMade_greets (hlive : s.initialized = true) (hs : Settled s.control)
    (hsocket : s.socket ≠ none) (hstate : s.state = .connecting) :
    Phase AtMostOne s.control (advanceOrFail o (connectionMade o s)) := by
  have hcontrol := connectionMade_control o s
  rw [hstate, if_neg (by decide)] at hcontrol
  generalize connectionMade o s = t at hcontrol ⊢
  have hclose := connectionMade_closable hlive hs (by decide) hcontrol
  obtain ⟨s', ⟨-, heq, hprepared⟩ | ⟨-, heq, hmove⟩⟩ :=
    advanceOrFail_cases (advance_connected o (congrArg Control.state hcontrol)) (by decide) hclose
  · have hfresh := fresh_nextRequest o .options t
    rw [hcontrol] at hfresh
    rw [heq]
    exact made_going hcontrol hprepared hlive hsocket
      (.greet hstate ⟨hfresh.kind, hfresh.cseq, hfresh.text⟩) (by decide)
  · rw [heq]
    exact .ended (.single hmove)

theorem connectionMade_bids (hlive : s.initialized = true) (hs : Settled s.control)
    (hsocket : s.socket ≠ none) (hstate : s.state = .reconnecting) :
    Phase AtMostOne s.control (advanceOrFail o (connectionMade o s)) := by
  have hcontrol := connectionMade_control o s
  rw [hstate, if_pos rfl] at hcontrol
  generalize connectionMade o s = t at hcontrol ⊢
  have hclose := connectionMade_closable hlive hs (by decide) hcontrol
  have hstate' : t.state = .reconnecting := congrArg Control.state hcontrol
  have hrequested' : t.teardownRequested = s.teardownRequested :=
    congrArg Control.teardownRequested hcontrol
  cases hrequested : s.teardownRequested with
  | false =>
    have hadvance : rtspStateMachineAdvance o t = (t, .failed) := by
      unfold rtspStateMachineAdvance
      rw [hstate']
      simp [hrequested', hrequested]
    unfold advanceOrFail
    rw [hadvance]
    exact .ended (.single hclose.fail)
  | true =>
    obtain ⟨s', ⟨-, heq, hprepared⟩ | ⟨-, heq, hmove⟩⟩ :=
      advanceOrFail_cases (advance_reconnecting o hstate' (hrequested'.trans hrequested))
        (by decide) hclose
    · have hfresh := fresh_nextRequest o .teardown t
      rw [hcontrol] at hfresh
      rw [heq]
      exact made_going hcontrol hprepared hlive hsocket
        (.bid hstate hrequested ⟨hfresh.kind, hfresh.cseq, hfresh.text⟩) (by decide)
    · rw [heq]
      exact .ended (.single hmove)

variable (ev : PollEvents)

theorem connectPhase_phase (o : Outcomes) (hlive : s.initialized = true) (hs : Settled s.control)
    (hsocket : s.socket ≠ none) : Phase AtMostOne s.control (connectPhase ev o s) := by
  have hclose := Closable.refl hlive hs
  unfold connectPhase
  split
  · rename_i hstate
    have hopen : ¬s.control.Open := fun h => hstate.elim h.1 h.2
    split
    · exact .ended (.single hclose.fail)
    split
    · split
      · rename_i s' hfail
        exact .ended (.single (connectFailure_moves hfail hlive hs hopen))
      · rename_i s' hfail
        exact .ended (.single (connectFailure_moves hfail hlive hs hopen))
    · rcases hstate with hstate | hstate
      · exact connectionMade_greets o hlive hs hsocket hstate
      · exact connectionMade_bids o hlive hs hsocket hstate
  · rename_i hstate
    split
    · exact .ended (.single (terminal_move hclose))
    · exact ⟨.refl, fun _ => hlive, fun _ => hsocket, fun _ => not_or.1 hstate⟩

/-- What sending leaves of the session `c`. -/
structure Sending (retries redirects : Prop) (c : Control) (s : RtspSession) : Prop where
  moves : ControlMoves retries redirects c s.control
  live : s.initialized = c.initialized
  done : s.cleanupDone = c.cleanupDone
  socket : c.socket ≠ none → s.socket ≠ none
  state : s.state = c.state
  prepared : s.prepared = c.prepared
  answers : s.answers = c.answers
  numbered : s.numbered = c.numbered
  len : s.pendingRequestLen = c.pendingRequestLen
  sent : s.pendingRequestSent ≤ s.pendingRequestLen

theorem Sending.opened {retries redirects : Prop} (h : Sending retries redirects c s)
    (hopen : c.Open) : s.control.Open :=
  ⟨fun heq => hopen.1 (h.state.symm.trans heq), fun heq => hopen.2 (h.state.symm.trans heq)⟩

theorem Sending.takeBytes {retries redirects : Prop} (h : Sending retries redirects c s)
    (hopen : c.Open) (n : ℕ) : Sending retries redirects c (takeBytes n s) := by
  have hsent := h.sent
  have hle : s.pendingRequestSent + min n (s.pendingRequestLen - s.pendingRequestSent) ≤
      s.pendingRequestLen := by omega
  exact
    { h with
      moves := h.moves.tail (.inl (.take (h.opened hopen) hle))
      socket := fun hs hnone => h.socket hs (map_eq_none_iff.1 hnone)
      sent := hle }

theorem sendLoop_spec {retries redirects : Prop} (hopen : c.Open) (xs : List SendResult)
    (h : Sending retries redirects c s) :
    (sendLoop xs s).2 = true ∧ Sending retries redirects c (sendLoop xs s).1 ∨
      (sendLoop xs s).2 = false ∧ ∃ t, Sending retries redirects c t ∧ (sendLoop xs s).1 =
          { t with keepalivePending := false, awaitingKeepaliveResponse := false } := by
  induction xs generalizing s with
  | nil => exact .inl ⟨rfl, h⟩
  | cons x xs ih =>
    cases x with
    | again => exact .inl ⟨rfl, h⟩
    | failed => exact .inr ⟨rfl, s, h, rfl⟩
    | accepted n =>
      unfold sendLoop
      dsimp only
      split
      · exact .inl ⟨rfl, h⟩
      split
      · exact ih (h.takeBytes hopen n)
      · exact .inl ⟨rfl, h.takeBytes hopen n⟩

theorem awaitingState_opened {s : RtspState} (h : s ≠ .connecting ∧ s ≠ .reconnecting) :
    awaitingState s ≠ .connecting ∧ awaitingState s ≠ .reconnecting := by
  cases s <;> simp_all [awaitingState]

theorem control_requestSent (s : RtspSession) :
    (setPollerOut false { requestSent s with awaitingResponse := true }).control =
      s.control.completed := by
  unfold setPollerOut requestSent RtspSession.control completed
  simp [Option.map_map, Function.comp_def]

theorem writePhase_phase {retries redirects : Prop} (o : Outcomes) (hlive : s.initialized = true)
    (hs : Settled s.control) (hsocket : s.socket ≠ none) (hopen : s.control.Open) :
    Phase (ControlMoves retries redirects) s.control (writePhase ev o s) := by
  have hclose := Closable.refl hlive hs
  unfold writePhase
  split
  · rename_i hpending
    have hsending : Sending retries redirects s.control s :=
      ⟨.refl, rfl, rfl, id, rfl, rfl, rfl, rfl, rfl, Nat.le_of_lt hpending.2.2⟩
    have hloop := sendLoop_spec hopen o.sends hsending
    unfold rtspTrySendPending
    generalize sendLoop o.sends s = p at hloop ⊢
    obtain ⟨t, ok⟩ := p
    rcases hloop with ⟨hok, ht⟩ | ⟨hok, u, hu, ht⟩
    · obtain rfl : ok = true := hok
      have ht : Sending retries redirects s.control t := ht
      have hsent := ht.sent
      dsimp only
      by_cases hdone : t.pendingRequestLen ≤ t.pendingRequestSent
      · have hsentAll : (requestSent t).pendingRequestLen ≤ (requestSent t).pendingRequestSent :=
          Nat.le_refl 0
        rw [if_pos hdone, if_pos hsentAll]
        have hlen : 0 < t.control.pendingRequestLen := by
          show 0 < t.pendingRequestLen
          rw [ht.len]
          exact hpending.2.1
        refine .going (control_requestSent t) (ht.moves.tail (.inl (.complete (ht.opened hopen)
          (ht.socket hsocket) hlen (Nat.le_antisymm hsent hdone)))) (ht.live.trans hlive) ?_ ?_
        · exact fun hnone => ht.socket hsocket (map_eq_none_iff.1 hnone)
        · exact awaitingState_opened (ht.opened hopen)
      · rw [if_neg hdone, if_neg hdone]
        exact .going rfl ht.moves (ht.live.trans hlive) (ht.socket hsocket) (ht.opened hopen)
    · obtain rfl : ok = false := hok
      obtain rfl := ht
      have hclosable : Closable s.control
          { u with keepalivePending := false, awaitingKeepaliveResponse := false } :=
        ⟨hu.live.trans hlive, hu.done.trans hclose.done,
          fun heq => hclose.state (hu.state.symm.trans heq), hu.prepared, hu.answers⟩
      exact .ended (.single hclosable.fail)
  · exact .going rfl .refl hlive hsocket hopen

end Apackage.Rtp2httpd.Rtsp
